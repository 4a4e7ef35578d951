import Ecomm.Lib.Interleaving

/-! A program inside another one, and programs run alone on choices that are
known to some extent. -/

namespace Concurrent.Prog

variable {Op : Type} {Ans : Op → Type} {ε α β G : Type} {M : Machine Op Ans ε} {i : Nat}

/-- A program that goes no further than its result. -/
def ofResult : Except ε α → Prog Op Ans ε α
  | .ok a => ret a
  | .error e => raise e

/-- A program that another one starts with runs to its end, and the other one
goes on with the result. -/
theorem eval_context {F : Prog Op Ans ε α → Prog Op Ans ε β}
    (hF : ∀ o k, F (op o k) = op o (fun r => F (k r))) {p : Prog Op Ans ε α} {s t : M.State}
    {first : List M.Choice} (rest : List M.Choice) {r : Except ε α}
    (h : p.eval M i s first = some (r, t)) :
    (F p).eval M i s (first ++ rest) = (F (ofResult r)).eval M i t rest := by
  induction p generalizing s first with
  | ret a =>
    obtain ⟨rfl, rfl, rfl⟩ := eval_ret h
    rfl
  | raise e =>
    obtain ⟨rfl, rfl, rfl⟩ := eval_raise h
    rfl
  | op o k ih =>
    obtain ⟨ch, first, a, u, rfl, he, hgo⟩ := eval_op h
    rw [hF, List.cons_append]
    simp only [eval, he]
    exact ih a hgo

/-- The protocol of a thread that runs alone on choices that meet `C`. -/
def aloneOn (M : Machine Op Ans ε) (C : M.Choice → Prop) (i : Nat) :
    Protocol Op Ans ε M.State where
  allowed _ _ := True
  next s o r s' := ∃ ch, C ch ∧ M.exec s i ch o = some (r, s')

theorem eval_outcome_on {C : M.Choice → Prop} {p : Prog Op Ans ε α} {Q : α → M.State → Prop}
    {E : ε → M.State → Prop} {s s' : M.State} {chs : List M.Choice} {r : Except ε α}
    (hwp : p.wp (aloneOn M C i) Q E s) (h : p.eval M i s chs = some (r, s'))
    (hC : ∀ ch ∈ chs, C ch) : Outcome Q E r s' := by
  induction p generalizing s chs with
  | ret a =>
    obtain ⟨-, rfl, rfl⟩ := eval_ret h
    exact hwp
  | raise e =>
    obtain ⟨-, rfl, rfl⟩ := eval_raise h
    exact hwp
  | op o k ih =>
    obtain ⟨ch, chs, a, t, rfl, he, hrest⟩ := eval_op h
    exact ih a (hwp.2 a t ⟨ch, hC ch List.mem_cons_self, he⟩) hrest
      (fun c hc => hC c (List.mem_cons_of_mem _ hc))

theorem wp_determined {C : M.Choice → Prop} {o : Op} {Q : Ans o → M.State → Prop}
    {E : ε → M.State → Prop} {s t : M.State} {a : Ans o}
    (hexec : ∀ ch, C ch → M.exec s i ch o = some (.ok a, t)) (hQ : Q a t) :
    (await o : Prog Op Ans ε (Ans o)).wp (aloneOn M C i) Q E s := by
  refine (wp_await _ _ _ _).mpr ⟨trivial, ?_, ?_⟩
  · rintro b u ⟨ch, hch, he⟩
    rw [hexec ch hch] at he
    obtain ⟨hb, rfl⟩ := Prod.mk.inj (Option.some.inj he)
    obtain rfl := Except.ok.inj hb
    exact hQ
  · rintro e u ⟨ch, hch, he⟩
    rw [hexec ch hch] at he
    cases (Prod.mk.inj (Option.some.inj he)).1

/-- The protocol of a thread that runs alone where the environment brings what
`F` says: no operation may be blocked then. -/
def unblocked (M : Machine Op Ans ε) (F : M.State → Op → M.Choice → Prop) (i : Nat) :
    Protocol Op Ans ε M.State where
  allowed s o := ∀ ch, F s o ch → (M.exec s i ch o).isSome
  next s o r s' := ∃ ch, F s o ch ∧ M.exec s i ch o = some (r, s')

theorem wp_unblocked {F : M.State → Op → M.Choice → Prop} {o : Op} {Q : Ans o → M.State → Prop}
    {E : ε → M.State → Prop} {s : M.State}
    (h : ∀ ch, F s o ch → ∃ r s', M.exec s i ch o = some (r, s') ∧ Outcome Q E r s') :
    (await o : Prog Op Ans ε (Ans o)).wp (unblocked M F i) Q E s := by
  have hout : ∀ ch r s', F s o ch → M.exec s i ch o = some (r, s') → Outcome Q E r s' := by
    intro ch r s' hch he
    obtain ⟨r', t, he', hr⟩ := h ch hch
    rw [he] at he'
    obtain ⟨rfl, rfl⟩ := Prod.mk.inj (Option.some.inj he')
    exact hr
  refine (wp_await _ _ _ _).mpr ⟨?_, ?_, ?_⟩
  · intro ch hch
    obtain ⟨r, s', he, _⟩ := h ch hch
    exact Option.isSome_of_eq_some he
  · intro a s' hnext
    obtain ⟨ch, hch, he⟩ := hnext
    exact hout ch _ _ hch he
  · intro e s' hnext
    obtain ⟨ch, hch, he⟩ := hnext
    exact hout ch _ _ hch he

/-- A thread that is never blocked runs to its end, if the environment can
always bring something. -/
theorem unblocked_run {F : M.State → Op → M.Choice → Prop} (hF : ∀ s o, ∃ ch, F s o ch)
    {p : Prog Op Ans ε α} {Q : α → M.State → Prop} {E : ε → M.State → Prop} {s : M.State}
    (h : p.wp (unblocked M F i) Q E s) :
    ∃ chs r s', p.eval M i s chs = some (r, s') ∧ Outcome Q E r s' := by
  induction p generalizing s with
  | ret a => exact ⟨[], .ok a, s, rfl, h⟩
  | raise e => exact ⟨[], .error e, s, rfl, h⟩
  | op o k ih =>
    obtain ⟨ch, hch⟩ := hF s o
    obtain ⟨⟨a, t⟩, he⟩ := Option.isSome_iff_exists.mp (h.1 ch hch)
    obtain ⟨chs, r, s', hrun, hout⟩ := ih a (h.2 a t ⟨ch, hch, he⟩)
    refine ⟨ch :: chs, r, s', ?_, hout⟩
    simp only [eval, he]
    exact hrun

theorem awaits_any (p : Prog Op Ans ε α) : p.Awaits (fun _ => True) := by
  induction p with
  | ret a => trivial
  | raise e => trivial
  | op o k ih => exact ⟨trivial, ih⟩

theorem eval_keeps {A : Op → Prop} {I : M.State → Prop}
    (hI : ∀ s ch o r s', I s → A o → M.exec s i ch o = some (r, s') → I s')
    {p : Prog Op Ans ε α} (hp : p.Awaits A) {s s' : M.State} {chs : List M.Choice}
    {r : Except ε α} (hs : I s) (h : p.eval M i s chs = some (r, s')) : I s' := by
  have hwp : p.wp (aloneOn M (fun _ => True) i) (fun _ => I) (fun _ => I) s :=
    hp.wp (fun g o hg ho => ⟨trivial, fun r g' ⟨ch, _, he⟩ => hI g ch o r g' hg ho he⟩) hs
  have hout := eval_outcome_on hwp h (fun _ _ => trivial)
  cases r with
  | ok a => exact hout
  | error e => exact hout

def evalOn (M : Machine Op Ans ε) (i : Nat) (ch : M.Choice) :
    M.State → Prog Op Ans ε α → Option (Except ε α × M.State)
  | s, ret a => some (.ok a, s)
  | s, raise e => some (.error e, s)
  | s, op o k =>
    match M.exec s i ch o with
    | some (r, s') => evalOn M i ch s' (k r)
    | none => none

theorem evalOn_eval {ch : M.Choice} {p : Prog Op Ans ε α} {s : M.State}
    {x : Except ε α × M.State} (h : evalOn M i ch s p = some x) :
    ∃ n, p.eval M i s (List.replicate n ch) = some x := by
  induction p generalizing s with
  | ret a => exact ⟨0, h⟩
  | raise e => exact ⟨0, h⟩
  | op o k ih =>
    cases he : M.exec s i ch o with
    | none => simp [evalOn, he] at h
    | some result =>
      obtain ⟨a, t⟩ := result
      simp only [evalOn, he] at h
      obtain ⟨n, hn⟩ := ih a h
      refine ⟨n + 1, ?_⟩
      simp only [List.replicate_succ, eval, he]
      exact hn

theorem evalOn_isSome {A : Op → Prop} {ch : M.Choice}
    (hA : ∀ s o, A o → (M.exec s i ch o).isSome) {p : Prog Op Ans ε α} (hp : p.Awaits A)
    (s : M.State) : (evalOn M i ch s p).isSome := by
  induction p generalizing s with
  | ret a => rfl
  | raise e => rfl
  | op o k ih =>
    obtain ⟨⟨a, t⟩, he⟩ := Option.isSome_iff_exists.mp (hA s o hp.1)
    simp only [evalOn, he]
    exact ih a (hp.2 a) t

end Concurrent.Prog
