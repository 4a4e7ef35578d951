import Ecomm.Lib.Interleaving

/-! A thread that the others do not hinder: however their steps fall between its
own, none of its steps has to wait, and after so many of them it has ended. -/

namespace Concurrent

variable {Op : Type} {Ans : Op → Type} {ε α X : Type} {M : Machine Op Ans ε}

namespace Prog

/-- The program ends with `Q` after at most `n` steps, each of which can be taken
in every state that meets `I` and has the part `x` that it was left with. -/
def Unhindered (M : Machine Op Ans ε) (F : M.Choice → Prop) (I : M.State → Prop)
    (own : M.State → X) (i : Nat) (Q : Except ε α → Prop) :
    Prog Op Ans ε α → Nat → X → Prop
  | ret a, _, _ => Q (.ok a)
  | raise e, _, _ => Q (.error e)
  | op _ _, 0, _ => False
  | op o k, n + 1, x => ∀ s, I s → own s = x → ∀ ch, F ch → ∃ r s',
    M.exec s i ch o = some (r, s') ∧ (k r).Unhindered M F I own i Q n (own s')

end Prog

variable {F : M.Choice → Prop} {I : M.State → Prop} {own : M.State → X} {i n : Nat}
  {Q : Except ε α → Prop} {c c' : Config M α} {p : Prog Op Ans ε α}

/-- The others leave the part of thread `i` alone, and the states of the run meet
`I`: what is left to do falls with every step of the thread. -/
theorem Config.run_unhindered {es : List (Nat × M.Choice)}
    (hother : ∀ {s j ch o r s'}, j ≠ i → M.exec s j ch o = some (r, s') → own s' = own s)
    (hI : ∀ before after d, es = before ++ after → c.run before = some d → I d.shared)
    (hF : ∀ e ∈ es, e.1 = i → F e.2) (hp : c.thread i = some p)
    (h : p.Unhindered M F I own i Q n (own c.shared)) (hrun : c.run es = some c') :
    ∃ q left, c'.thread i = some q ∧ q.Unhindered M F I own i Q left (own c'.shared) ∧
      es.countP (fun e => e.1 = i) + left = n := by
  induction es generalizing c n p with
  | nil =>
    obtain rfl := Option.some.inj hrun
    exact ⟨p, n, hp, h, by simp⟩
  | cons e es ih =>
    obtain ⟨d, hd, hrest⟩ := run_cons hrun
    have hId : ∀ before after d', es = before ++ after → d.run before = some d' → I d'.shared := by
      intro before after d' hes hbefore
      refine hI (e :: before) after d' (by rw [hes]; rfl) ?_
      simp [run, hd, hbefore]
    have hFd : ∀ f ∈ es, f.1 = i → F f.2 := fun f hf => hF f (List.mem_cons_of_mem _ hf)
    obtain ⟨o, k, r, s, ht, hexec, rfl⟩ := step_cases hd
    by_cases hi : e.1 = i
    · obtain rfl := Option.some.inj (hp.symm.trans (hi ▸ ht))
      cases n with
      | zero => exact h.elim
      | succ n =>
        obtain ⟨r', s', hexec', hk⟩ := h c.shared (hI [] (e :: es) c rfl rfl) rfl e.2
          (hF e List.mem_cons_self hi)
        rw [hi, hexec'] at hexec
        obtain ⟨rfl, rfl⟩ := Prod.mk.inj (Option.some.inj hexec)
        obtain ⟨q, left, hq, hleft, hcount⟩ := ih hId hFd
          (by rw [hi]; exact Function.update_self _ _ _) hk hrest
        refine ⟨q, left, hq, hleft, ?_⟩
        rw [List.countP_cons_of_pos (by simpa using hi)]
        omega
    · have hidle : (Function.update c.thread e.1 (some (k r))) i = some p :=
        (Function.update_of_ne (Ne.symm hi) _ _).trans hp
      have hsame : own s = own c.shared := hother hi hexec
      obtain ⟨q, left, hq, hleft, hcount⟩ := ih hId hFd hidle (hsame ▸ h) hrest
      refine ⟨q, left, hq, hleft, ?_⟩
      rwa [List.countP_cons_of_neg (by simpa using hi)]

/-- It has ended, or its next step can be taken. -/
theorem Prog.Unhindered.ends (h : p.Unhindered M F I own i Q n (own c.shared))
    (hp : c.thread i = some p) (hI : I c.shared) :
    ((∃ a, c.thread i = some (.ret a) ∧ Q (.ok a)) ∨
        ∃ e, c.thread i = some (.raise e) ∧ Q (.error e)) ∨
      0 < n ∧ ∀ ch, F ch → (c.step i ch).isSome = true := by
  cases p with
  | ret a => exact .inl (.inl ⟨a, hp, h⟩)
  | raise e => exact .inl (.inr ⟨e, hp, h⟩)
  | op o k =>
    cases n with
    | zero => exact h.elim
    | succ n =>
      refine .inr ⟨Nat.succ_pos n, ?_⟩
      intro ch hch
      obtain ⟨r, s', hexec, _⟩ := h c.shared hI rfl ch hch
      simp [Config.step, hp, hexec]

end Concurrent
