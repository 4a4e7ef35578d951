import Ecomm.Lib.Coherent

/-! A thread that runs alone to its end, and a transaction that nothing blocks. -/

namespace Concurrent

namespace Prog

variable {Op : Type} {Ans : Op → Type} {ε α β : Type} {M : Machine Op Ans ε}

/-- Run alone with choices that meet `F`, the program is never blocked, and it
ends with `Q`. -/
def Finishes (M : Machine Op Ans ε) (F : M.Choice → Prop) (i : Nat) :
    Prog Op Ans ε α → (Except ε α → M.State → Prop) → M.State → Prop
  | ret a, Q, s => Q (.ok a) s
  | raise e, Q, s => Q (.error e) s
  | op o k, Q, s =>
    ∀ ch, F ch → ∃ r s', M.exec s i ch o = some (r, s') ∧ (k r).Finishes M F i Q s'

variable {F : M.Choice → Prop} {i : Nat}

theorem finishes_await {o : Op} {Q : Except ε (Ans o) → M.State → Prop} {s : M.State}
    (h : ∀ ch, F ch → ∃ r s', M.exec s i ch o = some (r, s') ∧ Q r s') :
    (await o : Prog Op Ans ε (Ans o)).Finishes M F i Q s := by
  intro ch hch
  obtain ⟨r, s', he, hQ⟩ := h ch hch
  refine ⟨r, s', he, ?_⟩
  cases r with
  | ok a => exact hQ
  | error e => exact hQ

theorem finishes_bind {p : Prog Op Ans ε α} {f : α → Prog Op Ans ε β}
    {Q : Except ε β → M.State → Prop} {s : M.State}
    (h : p.Finishes M F i
      (fun r s' => match r with
        | .ok a => (f a).Finishes M F i Q s'
        | .error e => Q (.error e) s') s) :
    (p >>= f).Finishes M F i Q s := by
  induction p generalizing s with
  | ret a => exact h
  | raise e => exact h
  | op o k ih =>
    intro ch hch
    obtain ⟨r, s', he, hrest⟩ := h ch hch
    exact ⟨r, s', he, ih r hrest⟩

theorem finishes_tryCatch {p : Prog Op Ans ε α} {f : ε → Prog Op Ans ε α}
    {Q : Except ε α → M.State → Prop} {s : M.State}
    (h : p.Finishes M F i
      (fun r s' => match r with
        | .ok a => Q (.ok a) s'
        | .error e => (f e).Finishes M F i Q s') s) :
    (tryCatch p f).Finishes M F i Q s := by
  induction p generalizing s with
  | ret a => exact h
  | raise e => exact h
  | op o k ih =>
    intro ch hch
    obtain ⟨r, s', he, hrest⟩ := h ch hch
    exact ⟨r, s', he, ih r hrest⟩

theorem finishes_mono {p : Prog Op Ans ε α} {Q Q' : Except ε α → M.State → Prop} {s : M.State}
    (h : p.Finishes M F i Q s) (hQ : ∀ r s, Q r s → Q' r s) : p.Finishes M F i Q' s := by
  induction p generalizing s with
  | ret a => exact hQ _ _ h
  | raise e => exact hQ _ _ h
  | op o k ih =>
    intro ch hch
    obtain ⟨r, s', he, hrest⟩ := h ch hch
    exact ⟨r, s', he, ih r hrest⟩

/-- What every operation of the program keeps holds at the end too. -/
theorem finishes_keeps {A : Op → Prop} {I : M.State → Prop}
    (hI : ∀ s ch o r s', I s → A o → M.exec s i ch o = some (r, s') → I s')
    {p : Prog Op Ans ε α} (hp : p.Awaits A) {Q : Except ε α → M.State → Prop} {s : M.State}
    (hs : I s) (h : p.Finishes M F i Q s) : p.Finishes M F i (fun r s' => Q r s' ∧ I s') s := by
  induction p generalizing s with
  | ret a => exact ⟨h, hs⟩
  | raise e => exact ⟨h, hs⟩
  | op o k ih =>
    intro ch hch
    obtain ⟨r, s', he, hrest⟩ := h ch hch
    exact ⟨r, s', he, ih r (hp.2 r) (hI s ch o r s' hs hp.1 he) hrest⟩

/-- One choice is enough for all operations. -/
theorem finishes_eval {p : Prog Op Ans ε α} {Q : Except ε α → M.State → Prop} {s : M.State}
    {ch : M.Choice} (hch : F ch) (h : p.Finishes M F i Q s) :
    ∃ n r s', p.eval M i s (List.replicate n ch) = some (r, s') ∧ Q r s' := by
  induction p generalizing s with
  | ret a => exact ⟨0, .ok a, s, rfl, h⟩
  | raise e => exact ⟨0, .error e, s, rfl, h⟩
  | op o k ih =>
    obtain ⟨a, t, he, hrest⟩ := h ch hch
    obtain ⟨n, r, s', hrun, hQ⟩ := ih a hrest
    refine ⟨n + 1, r, s', ?_, hQ⟩
    simp only [List.replicate_succ, eval, he]
    exact hrun

end Prog

/-- A call, the thread that runs it, and what the environment does meanwhile. -/
structure Episode (M : Machine Op Ans ε) (γ : Type) where
  thread : Nat
  call : γ
  choices : List M.Choice

namespace Episode

variable {Op : Type} {Ans : Op → Type} {ε α γ : Type} {M : Machine Op Ans ε}

def runAll (program : γ → Prog Op Ans ε α) : M.State → List (Episode M γ) → Option M.State
  | s, [] => some s
  | s, e :: es =>
    match (program e.call).eval M e.thread s e.choices with
    | some (_, s') => runAll program s' es
    | none => none

def Meet (program : γ → Prog Op Ans ε α) (C : M.State → γ → Prop) :
    M.State → List (Episode M γ) → Prop
  | _, [] => True
  | s, e :: es => C s e.call ∧ ∀ d, (program e.call).eval M e.thread s e.choices = some d →
    Meet program C d.2 es

theorem Meet.append {program : γ → Prog Op Ans ε α} {C : M.State → γ → Prop} {s : M.State}
    {es fs : List (Episode M γ)} (hes : Meet program C s es)
    (hfs : ∀ s', runAll program s es = some s' → Meet program C s' fs) :
    Meet program C s (es ++ fs) := by
  induction es generalizing s with
  | nil => exact hfs s rfl
  | cons e es ih =>
    refine ⟨hes.1, ?_⟩
    intro d hd
    refine ih (hes.2 d hd) ?_
    intro s' hs'
    exact hfs s' (by simp only [runAll, hd, hs'])

theorem meet_of_forall {program : γ → Prog Op Ans ε α} {C : M.State → γ → Prop}
    {es : List (Episode M γ)} (h : ∀ e ∈ es, ∀ s, C s e.call) (s : M.State) :
    Meet program C s es := by
  induction es generalizing s with
  | nil => trivial
  | cons e es ih =>
    exact ⟨h e List.mem_cons_self s,
      fun d _ => ih (fun f hf => h f (List.mem_cons_of_mem _ hf)) d.2⟩

theorem runAll_induction {program : γ → Prog Op Ans ε α} {C : M.State → γ → Prop}
    {I : M.State → Prop}
    (hstep : ∀ {s s' i call chs r}, I s → C s call →
      (program call).eval M i s chs = some (r, s') → I s')
    {s s' : M.State} {es : List (Episode M γ)} (hs : I s) (hmeet : Meet program C s es)
    (h : runAll program s es = some s') : I s' := by
  induction es generalizing s with
  | nil =>
    obtain rfl := Option.some.inj h
    exact hs
  | cons e es ih =>
    cases he : (program e.call).eval M e.thread s e.choices with
    | none => simp [runAll, he] at h
    | some result =>
      obtain ⟨r, d⟩ := result
      simp only [runAll, he] at h
      exact ih (hstep hs hmeet.1 he) (hmeet.2 (r, d) he) h

end Episode

end Concurrent

namespace Sql

namespace Store

variable {S : Schema}

/-- The open transaction of thread `i` has the writes `ws`, and no other thread
holds a lock. -/
structure Solo (s : Store S) (i : Nat) (T : Tables S) (ws : List (Write S)) : Prop where
  tables : s.tables = T
  tx : s.tx i = some ⟨ws, false⟩
  free : ∀ l, s.free i l = true

variable {s : Store S} {i : Nat} {T : Tables S} {ws : List (Write S)} {c : Choice S}

theorem Solo.view (h : s.Solo i T ws) : s.view i = T.replay ws := by
  rw [view_some h.tx, h.tables]

theorem Solo.isAborted (h : s.Solo i T ws) : s.isAborted i = false := by
  simp [Store.isAborted, h.tx]

theorem free_perform (h : ∀ l, s.free i l = true) {x : Tx S} (hx : s.tx i = some x)
    (ls : List (Resource S)) (vs : List (Write S)) (l : Resource S) :
    (s.perform i ls vs).free i l = true := by
  rw [free_iff, Store.perform, hx]
  by_cases hl : l ∈ ls
  · exact .inr (by simp [hl])
  · simpa [hl] using (free_iff s i l).mp (h l)

theorem Solo.perform (h : s.Solo i T ws) (ls : List (Resource S)) (vs : List (Write S)) :
    (s.perform i ls vs).Solo i T (ws ++ vs) where
  tables := by rw [perform_tables_some h.tx, h.tables]
  tx := by rw [perform_tx_some h.tx]
  free := free_perform h.free h.tx ls vs

theorem exec_start_solo (hs : s.Coherent) (htx : ∀ j, s.tx j = none) (hc : c.fault = false) :
    ∃ s', s.exec i c .startTransaction = some (.ok (), s') ∧ s'.Solo i s.tables [] := by
  refine ⟨s.start i, by simp [exec, hc], rfl, start_tx_self s i, ?_⟩
  intro l
  refine (free_iff _ _ _).mpr (.inl ?_)
  cases hl : s.owner l with
  | none => exact hl
  | some j => exact absurd hl (hs.owner_none (htx j) l)

theorem exec_select_view (hc : c.fault = false) (ha : s.isAborted i = false) (t : S.Table)
    (cond : S.Id → S.Row t → Bool) :
    s.exec i c (.stmt (.select t cond)) =
      some (.ok (((s.view i t).entries.filter (fun e => cond e.1 e.2)).map
        (fun e => (e.1, e.2))), s) := by
  simp [exec, hc, ha, Stmt.plan, perform_nil]

theorem Solo.exec_select (h : s.Solo i T ws) (hc : c.fault = false) (t : S.Table)
    (cond : S.Id → S.Row t → Bool) :
    s.exec i c (.stmt (.select t cond)) =
      some (.ok (((T.replay ws t).entries.filter (fun e => cond e.1 e.2)).map
        (fun e => (e.1, e.2))), s) := by
  rw [exec_select_view hc h.isAborted, h.view]

theorem exec_malformed (hc : c.fault = false) (ha : s.isAborted i = false) (e : SqlError) :
    s.exec i c (.stmt (.malformed e)) = some (.error e, s.abort i) := by
  simp [exec, hc, ha, Stmt.plan]

/-- A statement that the server does as planned, since nothing blocks it. -/
theorem Solo.exec_ok (h : s.Solo i T ws) (hc : c.fault = false) {q : Stmt S}
    {L : List (Resource S)} {a : q.Ans} {vs : List (Write S)}
    (hplan : q.plan (T.replay ws) c = some ⟨L, .ok (a, vs)⟩) :
    ∃ s', s.exec i c (.stmt q) = some (.ok a, s') ∧ s'.Solo i T (ws ++ vs) := by
  refine ⟨s.perform i L vs, ?_, h.perform L vs⟩
  simp [exec, hc, h.isAborted, h.view, hplan, h.free]

theorem Solo.exec_error (h : s.Solo i T ws) (hc : c.fault = false) {q : Stmt S}
    {L : List (Resource S)} {e : SqlError} (hplan : q.plan (T.replay ws) c = some ⟨L, .error e⟩) :
    s.exec i c (.stmt q) = some (.error e, s.abort i) := by
  simp [exec, hc, h.isAborted, h.view, hplan, h.free]

theorem Solo.exec_lock (h : s.Solo i T ws) (hc : c.fault = false) (t : S.Table) (id : S.Id) :
    ∃ s', s.exec i c (.stmt (.selectForUpdate t id)) =
        some (.ok ((T.replay ws t).lookup id), s') ∧ s'.Solo i T ws := by
  cases hrow : (T.replay ws t).lookup id with
  | none =>
    have hplan : (Stmt.selectForUpdate t id).plan (T.replay ws) c = some ⟨[], .ok (none, [])⟩ := by
      simp only [Stmt.plan, hrow]
    simpa using h.exec_ok hc hplan
  | some r =>
    have hplan : (Stmt.selectForUpdate t id).plan (T.replay ws) c =
        some ⟨[.row t id], .ok (some r, [])⟩ := by
      simp only [Stmt.plan, hrow]
    simpa using h.exec_ok hc hplan

theorem Solo.exec_insert (h : s.Solo i T ws) (hc : c.fault = false) {t : S.Table}
    {g : Option S.Id} {r : Nat → S.Row t}
    (hnew : (T.replay ws t).lookup (g.getD c.id) = none)
    (hallow : allow (T.replay ws) t (g.getD c.id) (r c.now) = .ok ()) :
    ∃ s', s.exec i c (.stmt (.insert t g r)) = some (.ok (g.getD c.id, r c.now), s') ∧
      s'.Solo i T (ws ++ [⟨t, g.getD c.id, some (r c.now)⟩]) := by
  refine h.exec_ok hc (L := Write.locks (T.replay ws) ⟨t, g.getD c.id, some (r c.now)⟩) ?_
  simp only [Stmt.plan, hnew, Option.isSome_none, hallow]
  rfl

theorem Solo.exec_insert_refused (h : s.Solo i T ws) (hc : c.fault = false) {t : S.Table}
    {g : Option S.Id} {r : Nat → S.Row t}
    (hnew : (T.replay ws t).lookup (g.getD c.id) = none) {e : SqlError}
    (hallow : allow (T.replay ws) t (g.getD c.id) (r c.now) = .error e) :
    s.exec i c (.stmt (.insert t g r)) = some (.error e, s.abort i) := by
  refine h.exec_error hc (L := Write.locks (T.replay ws) ⟨t, g.getD c.id, some (r c.now)⟩) ?_
  simp only [Stmt.plan, hnew, Option.isSome_none, hallow]
  rfl

theorem Solo.exec_insert_taken (h : s.Solo i T ws) (hc : c.fault = false) {t : S.Table} {id : S.Id}
    {row : Nat → S.Row t} (htaken : ((T.replay ws t).lookup id).isSome = true) :
    s.exec i c (.stmt (.insert t (some id) row)) = some (.error .uniqueViolation, s.abort i) := by
  refine h.exec_error hc (L := Write.locks (T.replay ws) ⟨t, id, some (row c.now)⟩) ?_
  simp only [Stmt.plan, Option.getD_some, htaken]
  rfl

theorem Solo.exec_update (h : s.Solo i T ws) (hc : c.fault = false) {t : S.Table} {id : S.Id}
    {set : Nat → S.Row t → S.Row t} {old : S.Row t} (hold : (T.replay ws t).lookup id = some old)
    (hallow : allow (T.replay ws) t id (set c.now old) = .ok ()) :
    ∃ s', s.exec i c (.stmt (.update t id set)) = some (.ok (some (set c.now old)), s') ∧
      s'.Solo i T (ws ++ [⟨t, id, some (set c.now old)⟩]) := by
  refine h.exec_ok hc (L := Write.locks (T.replay ws) ⟨t, id, some (set c.now old)⟩) ?_
  simp only [Stmt.plan, hold, hallow]
  rfl

theorem Solo.exec_commit (h : s.Solo i T ws) (hc : c.fault = false) :
    ∃ s', s.exec i c .commitTransaction = some (.ok (), s') ∧ s'.tables = T.replay ws := by
  refine ⟨(s.publish i ws).close i, by simp [exec, h.tx, hc], ?_⟩
  rw [close_tables, publish_tables, h.tables]

theorem exec_commit_aborted (h : s.tx i = some ⟨[], true⟩) (hc : c.fault = false) :
    s.exec i c .commitTransaction = some (.ok (), s.close i) := by
  simp [exec, h, hc]

end Store

/-! A thread whose turn it is: no other transaction is open. -/

theorem Tables.isSome_replay {S : Schema} {T : Tables S} {ws : List (Write S)}
    (hws : ∀ w ∈ ws, w.row.isSome = true) {t : S.Table} {id : S.Id}
    (h : ((T t).lookup id).isSome = true) : ((T.replay ws t).lookup id).isSome = true := by
  by_cases hw : ∃ w ∈ ws, w.at t id
  · obtain ⟨r, hmem, hr⟩ := lookup_replay_written hw
    rw [hr T]
    exact hws _ hmem
  · rwa [lookup_replay_other T (fun w hm hat => hw ⟨w, hm, hat⟩)]

theorem Stmt.Success.rows {S : Schema} {T : Tables S} {c : Choice S} {q : Stmt S}
    {ls : List (Resource S)} {a : q.Ans} {ws : List (Write S)} (h : q.Success T c ls a ws)
    (hq : ∀ t id, q ≠ .delete t id) : ∀ w ∈ ws, w.row.isSome = true := by
  cases h with
  | insert | update => simp
  | delete t id => exact absurd rfl (hq t id)
  | deleteMissing t id => exact absurd rfl (hq t id)
  | select | lockMissing | lock | updateMissing => simp

def Op.opens {S : Schema} (b : Bool) : (o : Op S) → {ε : Type} → Except ε o.Ans → Bool
  | .startTransaction, _, .ok _ => true
  | .commitTransaction, _, _ | .rollbackTransaction, _, _ => false
  | _, _, _ => b

namespace Store

variable {S : Schema}

/-- Thread `i` alone may have a transaction open, as `b` says, and every row of
`T` is still there. -/
structure Turn (T : Tables S) (i : Nat) (s : Store S) (b : Bool) : Prop where
  coherent : s.Coherent
  own : (s.tx i).isSome = b
  others : ∀ j, j ≠ i → s.tx j = none
  writes : ∀ x, s.tx i = some x → ∀ w ∈ x.writes, w.row.isSome = true
  rows : ∀ t id, ((T t).lookup id).isSome = true → ((s.tables t).lookup id).isSome = true

variable {T : Tables S} {i : Nat} {s s' : Store S} {b : Bool}

theorem Turn.close (h : s.Turn T i b) : (s.close i).Turn T i false where
  coherent := h.coherent.close i
  own := by simp
  others j hj := by rw [close_tx_other s hj, h.others j hj]
  writes x hx := by simp at hx
  rows := h.rows

theorem Turn.abort (h : s.Turn T i b) : (s.abort i).Turn T i b := by
  cases hx : s.tx i with
  | none => rwa [abort_none hx]
  | some x =>
    refine ⟨h.coherent.abort i, ?_, ?_, ?_, ?_⟩
    · rw [abort_tx_self hx, ← h.own, hx]
      rfl
    · intro j hj
      rw [abort_tx_other s hj, h.others j hj]
    · intro y hy
      rw [abort_tx_self hx] at hy
      obtain rfl := Option.some.inj hy
      simp
    · simpa using h.rows

theorem Turn.exec (h : s.Turn T i b) {c : Choice S} {o : Op S} {r : Except SqlError o.Ans}
    (he : s.exec i c o = some (r, s')) (ho : ∀ t id, o ≠ .stmt (.delete t id)) :
    s'.Turn T i (o.opens b r) := by
  have hc := h.coherent.exec he
  cases exec_step he with
  | startFault | aborted q ha => exact h
  | commitNone htx => exact ⟨hc, by simp [htx, Op.opens], h.others, h.writes, h.rows⟩
  | start =>
    refine ⟨hc, by simp [Op.opens], ?_, ?_, h.rows⟩
    · intro j hj
      rw [start_tx_other s hj, h.others j hj]
    · intro x hx
      rw [start_tx_self] at hx
      obtain rfl := Option.some.inj hx
      simp
  | commitFault | commitAborted | rollbackFault | rollback => exact h.close
  | commit x htx ha =>
    refine ⟨hc, by simp [Op.opens], ?_, ?_, ?_⟩
    · intro j hj
      rw [close_tx_other _ hj, publish_tx, h.others j hj]
    · intro y hy
      simp at hy
    · intro t id hr
      exact Tables.isSome_replay (h.writes x htx) (h.rows t id hr)
  | fault | refused => exact h.abort
  | done q ls a ws ha hq hl =>
    have hws := hq.rows (fun t id heq => ho t id (congrArg Op.stmt heq))
    refine ⟨hc, ?_, ?_, ?_, ?_⟩
    · cases hx : s.tx i with
      | none =>
        rw [perform_tx_none hx, ← h.own, hx]
        rfl
      | some x =>
        rw [perform_tx_some hx, ← h.own, hx]
        rfl
    · intro j hj
      rw [perform_tx_other s hj, h.others j hj]
    · intro y hy w hw
      cases hx : s.tx i with
      | none =>
        rw [perform_tx_none hx] at hy
        cases hy
      | some x =>
        rw [perform_tx_some hx] at hy
        obtain rfl := Option.some.inj hy
        exact (List.mem_append.mp hw).elim (h.writes x hx w) (hws w)
    · intro t id hr
      cases hx : s.tx i with
      | none =>
        rw [perform_tables_none hx]
        exact Tables.isSome_replay hws (h.rows t id hr)
      | some x =>
        rw [perform_tables_some hx]
        exact h.rows t id hr

theorem view_close (s : Store S) (i : Nat) : (s.close i).view i = s.tables := by
  rw [view_none (close_tx_self s i), close_tables]

/-- What the statements keep in the view of a thread that runs alone holds of
the committed tables too. -/
theorem Step.keeps {J : Tables S → Prop} {c : Choice S} {o : Op S} {r : Except SqlError o.Ans}
    (h : s.Step i c o r s') (htables : J s.tables) (hview : J (s.view i))
    (hdone : ∀ q ls a ws, o = .stmt q → q.Success (s.view i) c ls a ws →
      J ((s.view i).replay ws)) :
    J s'.tables ∧ J (s'.view i) := by
  have habort : J (s.abort i).tables ∧ J ((s.abort i).view i) := by
    cases hx : s.tx i with
    | none =>
      rw [abort_none hx]
      exact ⟨htables, hview⟩
    | some x =>
      rw [view_some (abort_tx_self hx), abort_tables, Tables.replay_nil]
      exact ⟨htables, htables⟩
  have hclose : J (s.close i).tables ∧ J ((s.close i).view i) := by
    rw [view_close]
    exact ⟨htables, htables⟩
  cases h with
  | startFault | commitNone | aborted => exact ⟨htables, hview⟩
  | start =>
    rw [view_some (start_tx_self s i)]
    exact ⟨htables, htables⟩
  | commitFault | commitAborted | rollbackFault | rollback => exact hclose
  | fault | refused => exact habort
  | commit x htx =>
    rw [view_some htx] at hview
    rw [view_close]
    exact ⟨hview, hview⟩
  | done q ls a ws _ hq =>
    have hafter := hdone q ls a ws rfl hq
    rw [perform_view]
    refine ⟨?_, hafter⟩
    cases hx : s.tx i with
    | none =>
      rw [perform_tables_none hx]
      rwa [view_none hx] at hafter
    | some x => rwa [perform_tables_some hx]

end Store

end Sql
