import Mathlib.Logic.Function.Basic

/-! Programs that await atomic operations. An operation is answered by a value
or by an exception, and everything between two operations is pure. -/

namespace Concurrent

/-- A program over the operations `Op`. Operation `o` is answered by a value
of `Ans o`, or it raises an exception of `ε`. -/
inductive Prog (Op : Type) (Ans : Op → Type) (ε α : Type) where
  | ret (a : α)
  | raise (e : ε)
  | op (o : Op) (k : Except ε (Ans o) → Prog Op Ans ε α)

namespace Prog

variable {Op : Type} {Ans : Op → Type} {ε α β γ : Type}

protected def bind : Prog Op Ans ε α → (α → Prog Op Ans ε β) → Prog Op Ans ε β
  | ret a, f => f a
  | raise e, _ => raise e
  | op o k, f => op o (fun r => (k r).bind f)

/-- Run a program whose exceptions are answered by the handler. -/
protected def tryCatch : Prog Op Ans ε α → (ε → Prog Op Ans ε α) → Prog Op Ans ε α
  | ret a, _ => ret a
  | raise e, h => h e
  | op o k, h => op o (fun r => (k r).tryCatch h)

instance : Monad (Prog Op Ans ε) where
  pure := ret
  bind := Prog.bind

instance : MonadExcept ε (Prog Op Ans ε) where
  throw := raise
  tryCatch := Prog.tryCatch

def await (o : Op) : Prog Op Ans ε (Ans o) :=
  op o (fun r => match r with | .ok a => ret a | .error e => raise e)

@[simp] theorem pure_eq (a : α) : (pure a : Prog Op Ans ε α) = ret a := rfl

@[simp] theorem throw_eq (e : ε) : (throw e : Prog Op Ans ε α) = raise e := rfl

@[simp] theorem ret_bind (a : α) (f : α → Prog Op Ans ε β) : (ret a >>= f) = f a := rfl

@[simp] theorem raise_bind (e : ε) (f : α → Prog Op Ans ε β) :
    ((raise e : Prog Op Ans ε α) >>= f) = raise e := rfl

@[simp] theorem op_bind (o : Op) (k : Except ε (Ans o) → Prog Op Ans ε α)
    (f : α → Prog Op Ans ε β) : (op o k >>= f) = op o (fun r => k r >>= f) := rfl

@[simp] theorem ret_tryCatch (a : α) (h : ε → Prog Op Ans ε α) :
    tryCatch (ret a : Prog Op Ans ε α) h = ret a := rfl

@[simp] theorem raise_tryCatch (e : ε) (h : ε → Prog Op Ans ε α) :
    tryCatch (raise e : Prog Op Ans ε α) h = h e := rfl

@[simp] theorem op_tryCatch (o : Op) (k : Except ε (Ans o) → Prog Op Ans ε α)
    (h : ε → Prog Op Ans ε α) :
    tryCatch (op o k) h = op o (fun r => tryCatch (k r) h) := rfl

end Prog

/-! What a thread may do and what it learns, as seen from a ghost state of its
own. `next g o r g'` says that answer `r` to operation `o` can take `g` to `g'`. -/

structure Protocol (Op : Type) (Ans : Op → Type) (ε G : Type) where
  allowed : G → Op → Prop
  next : G → (o : Op) → Except ε (Ans o) → G → Prop

/-- The protocol of a thread that only awaits operations in `A`. -/
def Protocol.only {Op : Type} {Ans : Op → Type} {ε G : Type} (P : Protocol Op Ans ε G)
    (A : Op → Prop) : Protocol Op Ans ε G :=
  { P with allowed := fun g o => P.allowed g o ∧ A o }

namespace Prog

variable {Op : Type} {Ans : Op → Type} {ε α β G : Type} {P : Protocol Op Ans ε G}

/-- Weakest precondition: from `g` the program awaits only allowed operations,
returns with `Q` and raises with `E`, whatever the answers are. -/
def wp (P : Protocol Op Ans ε G) :
    Prog Op Ans ε α → (α → G → Prop) → (ε → G → Prop) → G → Prop
  | ret a, Q, _, g => Q a g
  | raise e, _, E, g => E e g
  | op o k, Q, E, g => P.allowed g o ∧ ∀ r g', P.next g o r g' → (k r).wp P Q E g'

@[simp] theorem wp_ret (a : α) (Q : α → G → Prop) (E : ε → G → Prop) (g : G) :
    (ret a : Prog Op Ans ε α).wp P Q E g ↔ Q a g := Iff.rfl

@[simp] theorem wp_raise (e : ε) (Q : α → G → Prop) (E : ε → G → Prop) (g : G) :
    (raise e : Prog Op Ans ε α).wp P Q E g ↔ E e g := Iff.rfl

theorem wp_op (o : Op) (k : Except ε (Ans o) → Prog Op Ans ε α)
    (Q : α → G → Prop) (E : ε → G → Prop) (g : G) :
    (op o k).wp P Q E g ↔
      P.allowed g o ∧ ∀ r g', P.next g o r g' → (k r).wp P Q E g' := Iff.rfl

theorem wp_await (o : Op) (Q : Ans o → G → Prop) (E : ε → G → Prop) (g : G) :
    (await o : Prog Op Ans ε (Ans o)).wp P Q E g ↔ P.allowed g o ∧
      (∀ a g', P.next g o (.ok a) g' → Q a g') ∧
      (∀ e g', P.next g o (.error e) g' → E e g') := by
  constructor
  · rintro ⟨ha, h⟩
    exact ⟨ha, fun a g' hn => h (.ok a) g' hn, fun e g' hn => h (.error e) g' hn⟩
  · rintro ⟨ha, hok, herr⟩
    refine ⟨ha, ?_⟩
    intro r g' hn
    cases r with
    | ok a => exact hok a g' hn
    | error e => exact herr e g' hn

theorem wp_mono {p : Prog Op Ans ε α} {Q Q' : α → G → Prop} {E E' : ε → G → Prop} {g : G}
    (h : p.wp P Q E g) (hQ : ∀ a g, Q a g → Q' a g) (hE : ∀ e g, E e g → E' e g) :
    p.wp P Q' E' g := by
  induction p generalizing g with
  | ret a => exact hQ a g h
  | raise e => exact hE e g h
  | op o k ih => exact ⟨h.1, fun r g' hn => ih r (h.2 r g' hn)⟩

theorem wp_bind (p : Prog Op Ans ε α) (f : α → Prog Op Ans ε β)
    (Q : β → G → Prop) (E : ε → G → Prop) (g : G) :
    (p >>= f).wp P Q E g ↔ p.wp P (fun a g' => (f a).wp P Q E g') E g := by
  induction p generalizing g with
  | ret a => rfl
  | raise e => rfl
  | op o k ih =>
    simp only [op_bind, wp_op, ih]

theorem wp_tryCatch (p : Prog Op Ans ε α) (h : ε → Prog Op Ans ε α)
    (Q : α → G → Prop) (E : ε → G → Prop) (g : G) :
    (tryCatch p h).wp P Q E g ↔ p.wp P Q (fun e g' => (h e).wp P Q E g') g := by
  induction p generalizing g with
  | ret a => rfl
  | raise e => rfl
  | op o k ih =>
    simp only [op_tryCatch, wp_op, ih]

def Awaits (A : Op → Prop) : Prog Op Ans ε α → Prop
  | ret _ => True
  | raise _ => True
  | op o k => A o ∧ ∀ r, (k r).Awaits A

section Awaits

variable {A : Op → Prop} {p : Prog Op Ans ε α}

theorem awaits_await {o : Op} (ho : A o) : (await o : Prog Op Ans ε (Ans o)).Awaits A := by
  refine ⟨ho, ?_⟩
  intro r
  cases r <;> trivial

theorem Awaits.bind (hp : p.Awaits A) {f : α → Prog Op Ans ε β} (hf : ∀ a, (f a).Awaits A) :
    (p >>= f).Awaits A := by
  induction p with
  | ret a => exact hf a
  | raise e => trivial
  | op o k ih => exact ⟨hp.1, fun r => ih r (hp.2 r)⟩

theorem Awaits.tryCatch (hp : p.Awaits A) {h : ε → Prog Op Ans ε α} (hh : ∀ e, (h e).Awaits A) :
    (tryCatch p h).Awaits A := by
  induction p with
  | ret a => trivial
  | raise e => exact hh e
  | op o k ih => exact ⟨hp.1, fun r => ih r (hp.2 r)⟩

theorem Awaits.mono {B : Op → Prop} (hp : p.Awaits A) (hAB : ∀ o, A o → B o) : p.Awaits B := by
  induction p with
  | ret a => trivial
  | raise e => trivial
  | op o k ih => exact ⟨hAB o hp.1, fun r => ih r (hp.2 r)⟩

/-- A program whose operations are allowed as long as `I` holds keeps `I`. -/
theorem Awaits.wp {I : G → Prop} (hI : ∀ g o, I g → A o →
      P.allowed g o ∧ ∀ r g', P.next g o r g' → I g') (hp : p.Awaits A) {g : G} (hg : I g) :
    p.wp P (fun _ => I) (fun _ => I) g := by
  induction p generalizing g with
  | ret a => exact hg
  | raise e => exact hg
  | op o k ih =>
    obtain ⟨hallowed, hnext⟩ := hI g o hg hp.1
    exact ⟨hallowed, fun r g' hn => ih r (hp.2 r) (hnext r g' hn)⟩

end Awaits

/-- What the protocol never changes is the same at the end. -/
theorem wp_keeps {F : Type} {f : G → F} (hf : ∀ {g o r g'}, P.next g o r g' → f g' = f g)
    {p : Prog Op Ans ε α} {Q : α → G → Prop} {E : ε → G → Prop} {g : G} (h : p.wp P Q E g) :
    p.wp P (fun a g' => Q a g' ∧ f g' = f g) (fun e g' => E e g' ∧ f g' = f g) g := by
  induction p generalizing g with
  | ret a => exact ⟨h, rfl⟩
  | raise e => exact ⟨h, rfl⟩
  | op o k ih =>
    refine ⟨h.1, ?_⟩
    intro r g' hn
    have hrest := ih r (h.2 r g' hn)
    rwa [hf hn] at hrest

theorem Awaits.wp_only {A : Op → Prop} {p : Prog Op Ans ε α} (hp : p.Awaits A)
    {Q : α → G → Prop} {E : ε → G → Prop} {g : G} (h : p.wp P Q E g) :
    p.wp (P.only A) Q E g := by
  induction p generalizing g with
  | ret a => exact h
  | raise e => exact h
  | op o k ih => exact ⟨⟨h.1, hp.1⟩, fun r g' hn => ih r (hp.2 r) (h.2 r g' hn)⟩

/-- A program keeps to a protocol that simulates the one it keeps to. -/
theorem wp_simulation {H : Type} {K : Protocol Op Ans ε H} {R : G → H → Prop}
    (hsim : ∀ g g' o, R g g' → P.allowed g o → K.allowed g' o ∧
      ∀ r d, K.next g' o r d → ∃ h, P.next g o r h ∧ R h d)
    {p : Prog Op Ans ε α} {Q : α → G → Prop} {E : ε → G → Prop} {g : G} {g' : H}
    (hR : R g g') (h : p.wp P Q E g) :
    p.wp K (fun a g' => ∃ g, R g g' ∧ Q a g) (fun e g' => ∃ g, R g g' ∧ E e g) g' := by
  induction p generalizing g g' with
  | ret a => exact ⟨g, hR, h⟩
  | raise e => exact ⟨g, hR, h⟩
  | op o k ih =>
    obtain ⟨hallowed, hnext⟩ := hsim g g' o hR h.1
    refine ⟨hallowed, ?_⟩
    intro r d hn
    obtain ⟨g₁, hg₁, hR₁⟩ := hnext r d hn
    exact ih r hR₁ (h.2 r g₁ hg₁)

end Prog

end Concurrent
