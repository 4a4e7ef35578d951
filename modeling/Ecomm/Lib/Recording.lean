import Ecomm.Lib.Interleaving

/-! A machine that keeps a record of its steps, so that a condition on one step
can refer to those before it. -/

namespace Concurrent

variable {Op : Type} {Ans : Op → Type} {ε α G : Type}

structure Event (M : Machine Op Ans ε) where
  thread : Nat
  state : M.State
  choice : M.Choice
  op : Op

abbrev recording (M : Machine Op Ans ε) : Machine Op Ans ε where
  State := M.State × List (Event M)
  Choice := M.Choice
  exec s i ch o := (M.exec s.1 i ch o).map (fun e => (e.1, (e.2, s.2 ++ [⟨i, s.1, ch, o⟩])))

variable {M : Machine Op Ans ε}

/-- The same threads, with a record that starts here. -/
def Config.recorded (c : Config M α) : Config (recording M) α := ⟨(c.shared, []), c.thread⟩

theorem exec_recording {s : M.State} {past : List (Event M)} {i : Nat} {ch : M.Choice} {o : Op}
    {r : Except ε (Ans o)} {s' : M.State × List (Event M)}
    (h : (recording M).exec (s, past) i ch o = some (r, s')) :
    M.exec s i ch o = some (r, s'.1) ∧ s'.2 = past ++ [⟨i, s, ch, o⟩] := by
  obtain ⟨⟨a, t⟩, he, heq⟩ := Option.map_eq_some_iff.mp h
  obtain ⟨rfl, rfl⟩ := Prod.mk.inj heq
  exact ⟨he, rfl⟩

namespace Prog

/-- The record does not change what a program does. -/
theorem eval_recording {i : Nat} {p : Prog Op Ans ε α} {s s' : M.State} {chs : List M.Choice}
    {r : Except ε α} (h : p.eval M i s chs = some (r, s')) :
    ∃ events, ∀ past,
      p.eval (recording M) i (s, past) chs = some (r, (s', past ++ events)) := by
  induction p generalizing s chs with
  | ret a =>
    obtain ⟨rfl, rfl, rfl⟩ := eval_ret h
    exact ⟨[], fun past => by simp [eval]⟩
  | raise e =>
    obtain ⟨rfl, rfl, rfl⟩ := eval_raise h
    exact ⟨[], fun past => by simp [eval]⟩
  | op o k ih =>
    obtain ⟨ch, chs, a, t, rfl, he, hgo⟩ := eval_op h
    obtain ⟨events, hrest⟩ := ih a hgo
    refine ⟨⟨i, s, ch, o⟩ :: events, ?_⟩
    intro past
    have hpast := hrest (past ++ [⟨i, s, ch, o⟩])
    rw [List.append_assoc, List.singleton_append] at hpast
    simpa [eval, he] using hpast

theorem eval_of_recording {i : Nat} {p : Prog Op Ans ε α} {s : M.State} {past : List (Event M)}
    {s' : M.State × List (Event M)} {chs : List M.Choice} {r : Except ε α}
    (h : p.eval (recording M) i (s, past) chs = some (r, s')) :
    p.eval M i s chs = some (r, s'.1) := by
  induction p generalizing s chs past with
  | ret a =>
    obtain ⟨rfl, rfl, rfl⟩ := eval_ret h
    rfl
  | raise e =>
    obtain ⟨rfl, rfl, rfl⟩ := eval_raise h
    rfl
  | op o k ih =>
    obtain ⟨ch, chs, a, t, rfl, he, hrest⟩ := eval_op h
    obtain ⟨hexec, -⟩ := exec_recording he
    simp only [eval, hexec]
    exact ih a hrest

theorem eval_past {i : Nat} {p : Prog Op Ans ε α} {s s' : M.State} {past past' : List (Event M)}
    {chs : List M.Choice} {r : Except ε α}
    (h : p.eval (recording M) i (s, past) chs = some (r, (s', past'))) :
    ∃ events, past' = past ++ events := by
  obtain ⟨events, hevents⟩ := eval_recording (eval_of_recording h)
  have heq := (hevents past).symm.trans h
  exact ⟨events, congrArg (·.2.2) (Option.some.inj heq).symm⟩

end Prog

end Concurrent
