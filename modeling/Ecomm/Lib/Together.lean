import Mathlib.Data.Option.Basic
import Ecomm.Lib.Interleaving

/-! Two programs that run side by side, each alone, on the same choices, and
the rules for showing that their results are related. -/

namespace Concurrent.Prog

variable {Op : Type} {Ans : Op → Type} {ε α β γ δ : Type} {M : Machine Op Ans ε} {i : Nat}

/-- Whatever the choices, the programs await operations that are both blocked or
both answered, until both return with `Q` or both raise with `E`. -/
def Together (M : Machine Op Ans ε) (i : Nat) (Q : α → β → M.State → M.State → Prop)
    (E : ε → ε → M.State → M.State → Prop) :
    Prog Op Ans ε α → Prog Op Ans ε β → M.State → M.State → Prop
  | ret a, ret b, s, t => Q a b s t
  | raise e, raise e', s, t => E e e' s t
  | op o k, op o' k', s, t => ∀ ch,
    Option.Rel (fun x y => (k x.1).Together M i Q E (k' y.1) x.2 y.2) (M.exec s i ch o)
      (M.exec t i ch o')
  | _, _, _, _ => False

def Both {S : Type} (Q : α → β → S → S → Prop) (E : ε → ε → S → S → Prop) :
    Except ε α × S → Except ε β × S → Prop
  | (.ok a, s), (.ok b, t) => Q a b s t
  | (.error e, s), (.error e', t) => E e e' s t
  | _, _ => False

theorem rel_imp {A B : Type} {R R' : A → B → Prop} {x : Option A} {y : Option B}
    (h : Option.Rel R x y) (hR : ∀ a b, R a b → R' a b) : Option.Rel R' x y := by
  cases h with
  | some hab => exact .some (hR _ _ hab)
  | none => exact .none

theorem both_imp {S : Type} {Q Q' : α → β → S → S → Prop} {E E' : ε → ε → S → S → Prop}
    (hQ : ∀ a b s t, Q a b s t → Q' a b s t) (hE : ∀ e e' s t, E e e' s t → E' e e' s t)
    (x : Except ε α × S) (y : Except ε β × S) (h : Both Q E x y) : Both Q' E' x y := by
  obtain ⟨r, s⟩ := x
  obtain ⟨r', t⟩ := y
  cases r with
  | ok a =>
    cases r' with
    | ok b => exact hQ a b s t h
    | error e' => exact h
  | error e =>
    cases r' with
    | ok b => exact h
    | error e' => exact hE e e' s t h

section Rules

variable {Q Q' : α → β → M.State → M.State → Prop} {E E' : ε → ε → M.State → M.State → Prop}
  {p : Prog Op Ans ε α} {q : Prog Op Ans ε β} {s t : M.State}

theorem Together.induction
    {C : Prog Op Ans ε α → Prog Op Ans ε β → M.State → M.State → Prop}
    (hret : ∀ a b s t, Q a b s t → C (ret a) (ret b) s t)
    (hraise : ∀ e e' s t, E e e' s t → C (raise e) (raise e') s t)
    (hop : ∀ o k o' k' s t, (∀ ch, Option.Rel (fun x y => C (k x.1) (k' y.1) x.2 y.2)
      (M.exec s i ch o) (M.exec t i ch o')) → C (op o k) (op o' k') s t)
    (h : p.Together M i Q E q s t) : C p q s t := by
  induction p generalizing q s t with
  | ret a =>
    cases q with
    | ret b => exact hret a b s t h
    | raise e => exact h.elim
    | op o k => exact h.elim
  | raise e =>
    cases q with
    | ret b => exact h.elim
    | raise e' => exact hraise e e' s t h
    | op o k => exact h.elim
  | op o k ih =>
    cases q with
    | ret b => exact h.elim
    | raise e => exact h.elim
    | op o' k' =>
      refine hop o k o' k' s t ?_
      intro ch
      exact rel_imp (h ch) (fun x y hxy => ih x.1 hxy)

theorem Together.mono (h : p.Together M i Q E q s t) (hQ : ∀ a b s t, Q a b s t → Q' a b s t)
    (hE : ∀ e e' s t, E e e' s t → E' e e' s t) : p.Together M i Q' E' q s t :=
  Together.induction (C := fun p q s t => p.Together M i Q' E' q s t) hQ hE
    (fun _ _ _ _ _ _ hrest => hrest) h

theorem Together.bind {f : α → Prog Op Ans ε γ} {g : β → Prog Op Ans ε δ}
    {Q : γ → δ → M.State → M.State → Prop}
    (h : p.Together M i (fun a b s t => (f a).Together M i Q E (g b) s t) E q s t) :
    (p >>= f).Together M i Q E (q >>= g) s t :=
  Together.induction (C := fun p q s t => (p >>= f).Together M i Q E (q >>= g) s t)
    (fun _ _ _ _ hQ => hQ) (fun _ _ _ _ hE => hE) (fun _ _ _ _ _ _ hrest => hrest) h

theorem Together.tryCatch {f : ε → Prog Op Ans ε α} {g : ε → Prog Op Ans ε β}
    (h : p.Together M i Q (fun e e' s t => (f e).Together M i Q E (g e') s t) q s t) :
    (MonadExcept.tryCatch p f).Together M i Q E (MonadExcept.tryCatch q g) s t :=
  Together.induction
    (C := fun p q s t =>
      (MonadExcept.tryCatch p f).Together M i Q E (MonadExcept.tryCatch q g) s t)
    (fun _ _ _ _ hQ => hQ) (fun _ _ _ _ hE => hE) (fun _ _ _ _ _ _ hrest => hrest) h

theorem together_await {o o' : Op} {Q : Ans o → Ans o' → M.State → M.State → Prop}
    (h : ∀ ch, Option.Rel (Both Q E) (M.exec s i ch o) (M.exec t i ch o')) :
    (await o : Prog Op Ans ε (Ans o)).Together M i Q E (await o') s t := by
  intro ch
  refine rel_imp (h ch) ?_
  intro x y hxy
  obtain ⟨r, s'⟩ := x
  obtain ⟨r', t'⟩ := y
  cases r <;> cases r' <;> exact hxy

theorem together_refl (p : Prog Op Ans ε α) (s : M.State) :
    p.Together M i (fun a b s t => a = b ∧ s = t) (fun e e' s t => e = e' ∧ s = t) p s s := by
  induction p generalizing s with
  | ret a => exact ⟨rfl, rfl⟩
  | raise e => exact ⟨rfl, rfl⟩
  | op o k ih =>
    intro ch
    generalize M.exec s i ch o = x
    cases x with
    | none => exact .none
    | some x => exact .some (ih x.1 x.2)

/-- One program in two states that its operations do not tell apart. -/
theorem together_same {A : Op → Prop} {R : M.State → M.State → Prop}
    (hR : ∀ s t ch o, R s t → A o →
      Option.Rel (fun x y => x.1 = y.1 ∧ R x.2 y.2) (M.exec s i ch o) (M.exec t i ch o))
    (hp : p.Awaits A) (h : R s t) :
    p.Together M i (fun a b s t => a = b ∧ R s t) (fun e e' s t => e = e' ∧ R s t) p s t := by
  induction p generalizing s t with
  | ret a => exact ⟨rfl, h⟩
  | raise e => exact ⟨rfl, h⟩
  | op o k ih =>
    intro ch
    refine rel_imp (hR s t ch o h hp.1) ?_
    intro x y hxy
    obtain ⟨r, s'⟩ := x
    obtain ⟨r', t'⟩ := y
    obtain ⟨heq, hrest⟩ := hxy
    obtain rfl : r = r' := heq
    exact ih r (hp.2 r) hrest

/-- On the same choices both programs run to their ends, or neither does. -/
theorem Together.eval (h : p.Together M i Q E q s t) (chs : List M.Choice) :
    Option.Rel (Both Q E) (p.eval M i s chs) (q.eval M i t chs) := by
  refine Together.induction (C := fun p q s t => ∀ chs,
    Option.Rel (Both Q E) (p.eval M i s chs) (q.eval M i t chs)) ?_ ?_ ?_ h chs
  · intro a b s t hQ chs
    cases chs with
    | nil => exact .some hQ
    | cons ch chs => exact .none
  · intro e e' s t hE chs
    cases chs with
    | nil => exact .some hE
    | cons ch chs => exact .none
  · intro o k o' k' s t hrest chs
    cases chs with
    | nil => exact .none
    | cons ch chs =>
      have hch := hrest ch
      simp only [Prog.eval]
      revert hch
      generalize M.exec s i ch o = x, M.exec t i ch o' = y
      intro hch
      cases hch with
      | none => exact .none
      | some hxy => exact hxy chs

end Rules

end Concurrent.Prog
