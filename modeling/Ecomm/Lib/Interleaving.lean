import Ecomm.Lib.Program

/-! Threads that take turns on a shared state. One step performs one operation
of one thread, so a run is any order of the operations of all threads. -/

namespace Concurrent

variable {Op : Type} {Ans : Op → Type} {ε α G : Type}

/-- How operations act on a shared state. The environment chooses what the
code does not determine, and an operation that has to wait gives `none`. -/
structure Machine (Op : Type) (Ans : Op → Type) (ε : Type) where
  State : Type
  Choice : Type
  exec : State → Nat → Choice → (o : Op) → Option (Except ε (Ans o) × State)

structure Config (M : Machine Op Ans ε) (α : Type) where
  shared : M.State
  thread : Nat → Option (Prog Op Ans ε α)

namespace Config

variable {M : Machine Op Ans ε}

def step (c : Config M α) (i : Nat) (ch : M.Choice) : Option (Config M α) :=
  match c.thread i with
  | some (.op o k) =>
    match M.exec c.shared i ch o with
    | some (r, s) => some ⟨s, Function.update c.thread i (some (k r))⟩
    | none => none
  | _ => none

def run : Config M α → List (Nat × M.Choice) → Option (Config M α)
  | c, [] => some c
  | c, e :: es => (c.step e.1 e.2).bind (fun c' => c'.run es)

/-- All that a step can do: perform the operation a thread awaits. -/
theorem step_cases {c c' : Config M α} {i : Nat} {ch : M.Choice} (h : c.step i ch = some c') :
    ∃ o k r s, c.thread i = some (.op o k) ∧ M.exec c.shared i ch o = some (r, s) ∧
      c' = ⟨s, Function.update c.thread i (some (k r))⟩ := by
  cases ht : c.thread i with
  | none => simp [step, ht] at h
  | some p =>
    cases p with
    | ret a => simp [step, ht] at h
    | raise e => simp [step, ht] at h
    | op o k =>
      cases he : M.exec c.shared i ch o with
      | none => simp [step, ht, he] at h
      | some result =>
        obtain ⟨r, s⟩ := result
        simp only [step, ht, he, Option.some.injEq] at h
        exact ⟨o, k, r, s, rfl, he, h.symm⟩

theorem step_idle {c c' : Config M α} {i j : Nat} {ch : M.Choice} (h : c.step i ch = some c')
    (hj : j ≠ i) : c'.thread j = c.thread j := by
  obtain ⟨o, k, r, s, _, _, rfl⟩ := step_cases h
  exact Function.update_of_ne hj _ _

theorem step_returned {c c' : Config M α} {i j : Nat} {ch : M.Choice} {a : α}
    (h : c.step i ch = some c') (hj : c.thread j = some (.ret a)) : c'.thread j = some (.ret a) := by
  have hji : j ≠ i := by
    rintro rfl
    simp [step, hj] at h
  rw [step_idle h hji, hj]

theorem run_cons {c c' : Config M α} {e : Nat × M.Choice} {es : List (Nat × M.Choice)}
    (h : c.run (e :: es) = some c') : ∃ d, c.step e.1 e.2 = some d ∧ d.run es = some c' :=
  Option.bind_eq_some_iff.mp h

theorem run_append {c c' : Config M α} {es fs : List (Nat × M.Choice)}
    (h : c.run (es ++ fs) = some c') : ∃ d, c.run es = some d ∧ d.run fs = some c' := by
  induction es generalizing c with
  | nil => exact ⟨c, rfl, h⟩
  | cons e es ih =>
    obtain ⟨b, hb, hrest⟩ := run_cons h
    obtain ⟨d, hd, hfs⟩ := ih hrest
    exact ⟨d, by simp [run, hb, hd], hfs⟩

theorem run_idle {c c' : Config M α} {es : List (Nat × M.Choice)} (h : c.run es = some c')
    {i : Nat} (hi : ∀ e ∈ es, e.1 ≠ i) : c'.thread i = c.thread i := by
  induction es generalizing c with
  | nil =>
    obtain rfl := Option.some.inj h
    rfl
  | cons e es ih =>
    obtain ⟨d, hd, hrest⟩ := run_cons h
    rw [ih hrest (fun f hf => hi f (List.mem_cons_of_mem _ hf))]
    exact step_idle hd (hi e List.mem_cons_self).symm

theorem run_induction {I : Config M α → Prop}
    (hstep : ∀ {c c' i ch}, I c → c.step i ch = some c' → I c')
    {c c' : Config M α} {es : List (Nat × M.Choice)} (hc : I c) (h : c.run es = some c') : I c' := by
  induction es generalizing c with
  | nil =>
    obtain rfl := Option.some.inj h
    exact hc
  | cons e es ih =>
    obtain ⟨d, hd, hrest⟩ := run_cons h
    exact ih (hstep hc hd) hrest

theorem run_returned {c c' : Config M α} {es : List (Nat × M.Choice)} (h : c.run es = some c')
    {i : Nat} {a : α} (hi : c.thread i = some (.ret a)) : c'.thread i = some (.ret a) := by
  refine run_induction (I := fun d => d.thread i = some (.ret a)) ?_ hi h
  intro d d' j ch hd hstep
  exact step_returned hstep hd

theorem run_ended {c c' : Config M α} {es : List (Nat × M.Choice)} (h : c.run es = some c')
    {i : Nat} (hi : ∀ o k, c.thread i ≠ some (.op o k)) : c'.thread i = c.thread i := by
  refine run_induction (I := fun d => d.thread i = c.thread i) ?_ rfl h
  intro d d' j ch hd hstep
  have hne : i ≠ j := by
    rintro rfl
    obtain ⟨o, k, r, s, ht, _⟩ := step_cases hstep
    exact hi o k (hd.symm.trans ht)
  exact (step_idle hstep hne).trans hd

/-- A thread that is further than its first operation has done it at some moment
of the run. -/
theorem run_first {c c' : Config M α} {es : List (Nat × M.Choice)} (h : c.run es = some c') {i : Nat}
    {o : Op} {k : Except ε (Ans o) → Prog Op Ans ε α} (hi : c.thread i = some (.op o k)) :
    c'.thread i = some (.op o k) ∨ ∃ before ch after, ∃ d d' : Config M α, ∃ r,
      es = before ++ (i, ch) :: after ∧ (∀ e ∈ before, e.1 ≠ i) ∧ c.run before = some d ∧
      M.exec d.shared i ch o = some (r, d'.shared) ∧ d'.thread i = some (k r) ∧
      d'.run after = some c' := by
  induction es generalizing c with
  | nil =>
    obtain rfl := Option.some.inj h
    exact .inl hi
  | cons e es ih =>
    obtain ⟨d, hd, hrest⟩ := run_cons h
    by_cases he : e.1 = i
    · subst he
      obtain ⟨o', k', r, s, ht, hexec, rfl⟩ := step_cases hd
      cases hi.symm.trans ht
      exact .inr ⟨[], e.2, es, c, _, r, rfl, by simp, rfl, hexec, Function.update_self _ _ _, hrest⟩
    · have hd' : d.thread i = some (.op o k) := (step_idle hd (Ne.symm he)).trans hi
      rcases ih hrest hd' with hsame | ⟨before, ch, after, b, b', r, rfl, hother, hb, hdone⟩
      · exact .inl hsame
      · refine .inr ⟨e :: before, ch, after, b, b', r, rfl, ?_, ?_, hdone⟩
        · intro f hf
          rcases List.mem_cons.mp hf with rfl | hf
          · exact he
          · exact hother f hf
        · simp [run, hd, hb]

/-- Whether a thread of a system of threads without results has returned. -/
def returned (c : Config M Unit) (i : Nat) : Bool :=
  match c.thread i with
  | some (.ret ()) => true
  | _ => false

theorem thread_of_returned {c : Config M Unit} {i : Nat} (h : c.returned i = true) :
    c.thread i = some (.ret ()) := by
  unfold returned at h
  split at h
  · assumption
  · cases h

end Config

/-- Every step of the run is taken in a state that meets `C`. -/
def Config.Meets {M : Machine Op Ans ε} (C : M.State → Nat → Prop) :
    Config M α → List (Nat × M.Choice) → Prop
  | _, [] => True
  | c, e :: es => C c.shared e.1 ∧ ∀ d, c.step e.1 e.2 = some d → d.Meets C es

instance Config.decidableMeets {M : Machine Op Ans ε} {C : M.State → Nat → Prop}
    [∀ s i, Decidable (C s i)] :
    ∀ (c : Config M α) (es : List (Nat × M.Choice)), Decidable (c.Meets C es)
  | _, [] => .isTrue trivial
  | c, e :: es =>
    have : ∀ d : Config M α, Decidable (d.Meets C es) := fun d => decidableMeets d es
    inferInstanceAs (Decidable (C c.shared e.1 ∧ ∀ d ∈ c.step e.1 e.2, d.Meets C es))

def Always {M : Machine Op Ans ε} (_ : M.State) (_ : Nat) : Prop := True

theorem Config.meets_always {M : Machine Op Ans ε} (c : Config M α)
    (es : List (Nat × M.Choice)) : c.Meets Always es := by
  induction es generalizing c with
  | nil => trivial
  | cons e es ih => exact ⟨trivial, fun d _ => ih d⟩

theorem Config.Meets.append {M : Machine Op Ans ε} {C : M.State → Nat → Prop} {c d : Config M α}
    {es fs : List (Nat × M.Choice)} (h : c.Meets C (es ++ fs)) (hrun : c.run es = some d) :
    c.Meets C es ∧ d.Meets C fs := by
  induction es generalizing c with
  | nil =>
    obtain rfl := Option.some.inj hrun
    exact ⟨trivial, h⟩
  | cons e es ih =>
    obtain ⟨b, hb, hrest⟩ := Config.run_cons hrun
    have hb' := ih (h.2 b hb) hrest
    refine ⟨⟨h.1, ?_⟩, hb'.2⟩
    intro b' hb''
    obtain rfl := Option.some.inj (hb.symm.trans hb'')
    exact hb'.1

/-- The protocol is sound for the steps that meet `C`: an allowed operation
keeps the invariant, and the thread learns an answer that the protocol foresees. -/
structure Protocol.Sound (P : Protocol Op Ans ε G) (M : Machine Op Ans ε)
    (C : M.State → Nat → Prop) (Inv : M.State → (Nat → G) → Prop) : Prop where
  exec : ∀ {s : M.State} {γ : Nat → G} {i : Nat} {ch : M.Choice} {o : Op}
    {r : Except ε (Ans o)} {s' : M.State}, Inv s γ → C s i → P.allowed (γ i) o →
    M.exec s i ch o = some (r, s') → ∃ g, P.next (γ i) o r g ∧ Inv s' (Function.update γ i g)

/-- The invariant holds, and from its ghost state every thread keeps to the
protocol for the rest of its run. -/
structure Follows {M : Machine Op Ans ε} (P : Protocol Op Ans ε G)
    (Inv : M.State → (Nat → G) → Prop) (Q : Nat → α → G → Prop) (E : Nat → ε → G → Prop)
    (c : Config M α) (γ : Nat → G) : Prop where
  inv : Inv c.shared γ
  thread : ∀ i p, c.thread i = some p → p.wp P (Q i) (E i) (γ i)

section Soundness

variable {M : Machine Op Ans ε} {P : Protocol Op Ans ε G} {C : M.State → Nat → Prop}
  {Inv : M.State → (Nat → G) → Prop} {Q : Nat → α → G → Prop} {E : Nat → ε → G → Prop}

theorem Protocol.Sound.step_exec (hP : P.Sound M C Inv) {c c' : Config M α} {γ : Nat → G} {i : Nat}
    {ch : M.Choice} (hc : Follows P Inv Q E c γ) (hC : C c.shared i)
    (h : c.step i ch = some c') :
    ∃ o r g, P.allowed (γ i) o ∧ M.exec c.shared i ch o = some (r, c'.shared) ∧
      P.next (γ i) o r g ∧ Follows P Inv Q E c' (Function.update γ i g) := by
  obtain ⟨o, k, r, s, ht, he, rfl⟩ := Config.step_cases h
  obtain ⟨hallowed, hnext⟩ := hc.thread i _ ht
  obtain ⟨g, hg, hinv'⟩ := hP.exec hc.inv hC hallowed he
  refine ⟨o, r, g, hallowed, he, hg, hinv', ?_⟩
  intro j p hj
  by_cases hji : j = i
  · subst hji
    simp only [Function.update_self, Option.some.injEq] at hj
    subst hj
    simpa only [Function.update_self] using hnext r g hg
  · simp only [Function.update_of_ne hji] at hj ⊢
    exact hc.thread j p hj

theorem Protocol.Sound.step (hP : P.Sound M C Inv) {c c' : Config M α} {γ : Nat → G} {i : Nat}
    {ch : M.Choice} (hc : Follows P Inv Q E c γ) (hC : C c.shared i)
    (h : c.step i ch = some c') : ∃ g, Follows P Inv Q E c' (Function.update γ i g) := by
  obtain ⟨_, _, g, _, _, _, hfollows⟩ := hP.step_exec hc hC h
  exact ⟨g, hfollows⟩

/-- The rule for a whole run: thread by thread the programs keep to the
protocol, hence in every state reached the invariant holds. A thread that takes
no step keeps its ghost state. -/
theorem Protocol.Sound.run (hP : P.Sound M C Inv) {c c' : Config M α} {γ : Nat → G}
    {es : List (Nat × M.Choice)} (hc : Follows P Inv Q E c γ) (hC : c.Meets C es)
    (h : c.run es = some c') :
    ∃ γ', Follows P Inv Q E c' γ' ∧ ∀ i, (∀ e ∈ es, e.1 ≠ i) → γ' i = γ i := by
  induction es generalizing c γ with
  | nil =>
    obtain rfl := Option.some.inj h
    exact ⟨γ, hc, fun _ _ => rfl⟩
  | cons e es ih =>
    obtain ⟨d, hd, hrest⟩ := Config.run_cons h
    obtain ⟨g, hstep⟩ := hP.step hc hC.1 hd
    obtain ⟨γ', hγ', hidle⟩ := ih hstep (hC.2 d hd) hrest
    refine ⟨γ', hγ', ?_⟩
    intro i hi
    have hne : i ≠ e.1 := (hi e List.mem_cons_self).symm
    rw [hidle i (fun f hf => hi f (List.mem_cons_of_mem _ hf)), Function.update_of_ne hne]

end Soundness

/-! One program run alone, to its end. -/

namespace Prog

variable {M : Machine Op Ans ε} {β : Type}

/-- Run a program alone; the answers it needs are chosen from the list. -/
def eval (M : Machine Op Ans ε) (i : Nat) :
    M.State → Prog Op Ans ε α → List M.Choice → Option (Except ε α × M.State)
  | s, ret a, [] => some (.ok a, s)
  | s, raise e, [] => some (.error e, s)
  | s, op o k, ch :: chs =>
    match M.exec s i ch o with
    | some (r, s') => eval M i s' (k r) chs
    | none => none
  | _, _, _ => none

theorem eval_ret {i : Nat} {a : α} {s s' : M.State} {chs : List M.Choice} {r : Except ε α}
    (h : (ret a : Prog Op Ans ε α).eval M i s chs = some (r, s')) :
    chs = [] ∧ r = .ok a ∧ s' = s := by
  cases chs with
  | nil =>
    obtain ⟨rfl, rfl⟩ := Prod.mk.inj (Option.some.inj h)
    exact ⟨rfl, rfl, rfl⟩
  | cons ch chs => simp [eval] at h

theorem eval_raise {i : Nat} {e : ε} {s s' : M.State} {chs : List M.Choice} {r : Except ε α}
    (h : (raise e : Prog Op Ans ε α).eval M i s chs = some (r, s')) :
    chs = [] ∧ r = .error e ∧ s' = s := by
  cases chs with
  | nil =>
    obtain ⟨rfl, rfl⟩ := Prod.mk.inj (Option.some.inj h)
    exact ⟨rfl, rfl, rfl⟩
  | cons ch chs => simp [eval] at h

theorem eval_op {i : Nat} {o : Op} {k : Except ε (Ans o) → Prog Op Ans ε α} {s s' : M.State}
    {chs : List M.Choice} {r : Except ε α} (h : (op o k).eval M i s chs = some (r, s')) :
    ∃ ch rest a t, chs = ch :: rest ∧ M.exec s i ch o = some (a, t) ∧
      (k a).eval M i t rest = some (r, s') := by
  cases chs with
  | nil => simp [eval] at h
  | cons ch rest =>
    cases he : M.exec s i ch o with
    | none => simp [eval, he] at h
    | some result =>
      obtain ⟨a, t⟩ := result
      simp only [eval, he] at h
      exact ⟨ch, rest, a, t, rfl, he, h⟩

theorem eval_await {i : Nat} {o : Op} {s s' : M.State} {chs : List M.Choice}
    {r : Except ε (Ans o)} (h : (await o : Prog Op Ans ε (Ans o)).eval M i s chs = some (r, s')) :
    ∃ ch, chs = [ch] ∧ M.exec s i ch o = some (r, s') := by
  obtain ⟨ch, rest, a, t, rfl, he, hrest⟩ := eval_op h
  cases a with
  | ok v =>
    obtain ⟨rfl, rfl, rfl⟩ := eval_ret hrest
    exact ⟨ch, rfl, he⟩
  | error e =>
    obtain ⟨rfl, rfl, rfl⟩ := eval_raise hrest
    exact ⟨ch, rfl, he⟩

/-- The first program runs to its end, and the second one goes on from there
unless it has failed. -/
theorem eval_bind {i : Nat} {p : Prog Op Ans ε α} {f : α → Prog Op Ans ε β} {s s' : M.State}
    {chs : List M.Choice} {r : Except ε β} (h : (p >>= f).eval M i s chs = some (r, s')) :
    ∃ first rest a t, chs = first ++ rest ∧ p.eval M i s first = some (a, t) ∧
      ((∃ v, a = .ok v ∧ (f v).eval M i t rest = some (r, s')) ∨
        ∃ e, a = .error e ∧ rest = [] ∧ r = .error e ∧ s' = t) := by
  induction p generalizing s chs with
  | ret v => exact ⟨[], chs, .ok v, s, rfl, rfl, .inl ⟨v, rfl, h⟩⟩
  | raise e =>
    obtain ⟨rfl, hr, hs⟩ := eval_raise h
    exact ⟨[], [], .error e, s, rfl, rfl, .inr ⟨e, rfl, rfl, hr, hs⟩⟩
  | op o k ih =>
    obtain ⟨ch, chs, b, t, rfl, he, hgo⟩ := eval_op h
    obtain ⟨first, rest, a, t', rfl, hfirst, hrest⟩ := ih b hgo
    exact ⟨ch :: first, rest, a, t', rfl, by simp only [eval, he, hfirst], hrest⟩

/-- The protocol of a thread that runs alone: its ghost state is the state of
the machine, and it learns exactly what the machine does. -/
def alone (M : Machine Op Ans ε) (i : Nat) : Protocol Op Ans ε M.State where
  allowed _ _ := True
  next s o r s' := ∃ ch, M.exec s i ch o = some (r, s')

def Outcome (Q : α → G → Prop) (E : ε → G → Prop) : Except ε α → G → Prop
  | .ok a => Q a
  | .error e => E e

theorem eval_outcome {i : Nat} {p : Prog Op Ans ε α} {Q : α → M.State → Prop}
    {E : ε → M.State → Prop} {s s' : M.State} {chs : List M.Choice} {r : Except ε α}
    (hwp : p.wp (alone M i) Q E s) (h : p.eval M i s chs = some (r, s')) :
    Outcome Q E r s' := by
  induction p generalizing s chs with
  | ret a =>
    obtain ⟨-, rfl, rfl⟩ := eval_ret h
    exact hwp
  | raise e =>
    obtain ⟨-, rfl, rfl⟩ := eval_raise h
    exact hwp
  | op o k ih =>
    obtain ⟨ch, chs, a, t, rfl, he, hrest⟩ := eval_op h
    exact ih a (hwp.2 a t ⟨ch, he⟩) hrest

end Prog

/-- The rule for a program that runs alone to its end. -/
theorem Protocol.Sound.eval {M : Machine Op Ans ε} {P : Protocol Op Ans ε G}
    {C : M.State → Nat → Prop} {Inv : M.State → (Nat → G) → Prop} (hP : P.Sound M C Inv) {i : Nat}
    (hC : ∀ s, C s i) {s s' : M.State} {γ : Nat → G} (hinv : Inv s γ) {p : Prog Op Ans ε α}
    {Q : α → G → Prop} {E : ε → G → Prop} (hwp : p.wp P Q E (γ i)) {chs : List M.Choice}
    {r : Except ε α} (h : p.eval M i s chs = some (r, s')) :
    ∃ g, Inv s' (Function.update γ i g) ∧ Prog.Outcome Q E r g := by
  have halone := Prog.wp_simulation (K := Prog.alone M i)
    (R := fun g s => Inv s (Function.update γ i g)) ?_
    (by rwa [Function.update_eq_self] : Inv s (Function.update γ i (γ i))) hwp
  · have hend := Prog.eval_outcome halone h
    cases r with
    | ok a => exact hend
    | error e => exact hend
  · intro g s o hinv ha
    refine ⟨trivial, ?_⟩
    rintro r s' ⟨ch, he⟩
    obtain ⟨g', hnext, hinv'⟩ := hP.exec hinv (hC s) (by rwa [Function.update_self]) he
    rw [Function.update_self] at hnext
    rw [Function.update_idem] at hinv'
    exact ⟨g', hnext, hinv'⟩

end Concurrent
