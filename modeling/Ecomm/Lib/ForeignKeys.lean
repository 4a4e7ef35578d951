import Ecomm.Lib.Solo

/-! Foreign keys: no statement that the server accepts leaves a row that refers
to nothing. And what holds of the rows that a thread sees while it runs alone. -/

namespace Sql

variable {S : Schema} {T : Tables S} {c : Choice S}

def Closed (T : Tables S) : Prop :=
  ∀ t id r, (T t).lookup id = some r → refsExist T t r = true

theorem refsExist_iff {t : S.Table} {r : S.Row t} :
    refsExist T t r = true ↔ ∀ f ∈ S.refs t r, ((T f.1).lookup f.2).isSome = true := by
  simp [refsExist]

def Cascades (S : Schema) : Prop :=
  ∀ (T : Tables S) t id ws, deletion T t id = some ws → (∀ w ∈ ws, w.row = none) ∧
    ∀ u j r, (T u).lookup j = some r → ∀ f ∈ S.refs u r, (∃ w ∈ ws, w.at f.1 f.2) →
      ∃ w ∈ ws, w.at u j

theorem Closed.put (hT : Closed T) {t : S.Table} {id : S.Id} {r : S.Row t}
    (hr : refsExist T t r = true) : Closed (T.write ⟨t, id, some r⟩) := by
  have hgrow : ∀ u j, ((T u).lookup j).isSome = true →
      ((T.write ⟨t, id, some r⟩ u).lookup j).isSome = true := by
    intro u j hj
    have hrows : ∀ w ∈ [(⟨t, id, some r⟩ : Write S)], w.row.isSome = true := by simp
    exact Tables.isSome_replay hrows hj
  intro u j q hq
  by_cases hat : (⟨t, id, some r⟩ : Write S).at u j
  · obtain ⟨rfl, rfl⟩ := hat
    rw [Tables.lookup_write_self] at hq
    obtain rfl := Option.some.inj hq
    exact refsExist_iff.mpr (fun f hf => hgrow _ _ (refsExist_iff.mp hr f hf))
  · rw [Tables.lookup_write_other T hat] at hq
    exact refsExist_iff.mpr (fun f hf => hgrow _ _ (refsExist_iff.mp (hT u j q hq) f hf))

theorem lookup_deleted {ws : List (Write S)} (hnone : ∀ w ∈ ws, w.row = none) {t : S.Table}
    {id : S.Id} {r : S.Row t} (hr : (T.replay ws t).lookup id = some r) :
    (T t).lookup id = some r ∧ ∀ w ∈ ws, ¬ w.at t id := by
  by_cases hw : ∃ w ∈ ws, w.at t id
  · obtain ⟨r', hmem, hlook⟩ := Tables.lookup_replay_written hw
    have hr' : r' = none := hnone _ hmem
    rw [hlook, hr'] at hr
    cases hr
  · have hother : ∀ w ∈ ws, ¬ w.at t id := fun w hmem hat => hw ⟨w, hmem, hat⟩
    rw [Tables.lookup_replay_other T hother] at hr
    exact ⟨hr, hother⟩

theorem Closed.delete (hT : Closed T) (hS : Cascades S) {t : S.Table} {id : S.Id}
    {ws : List (Write S)} (hws : deletion T t id = some ws) : Closed (T.replay ws) := by
  obtain ⟨hnone, hreferring⟩ := hS T t id ws hws
  intro u j r hr
  obtain ⟨hold, hkept⟩ := lookup_deleted hnone hr
  refine refsExist_iff.mpr ?_
  intro f hf
  have hthere := refsExist_iff.mp (hT u j r hold) f hf
  have hother : ∀ w ∈ ws, ¬ w.at f.1 f.2 := by
    intro w hmem hat
    obtain ⟨v, hv, hvat⟩ := hreferring u j r hold f hf ⟨w, hmem, hat⟩
    exact hkept v hv hvat
  rwa [Tables.lookup_replay_other T hother]

theorem Closed.success (hT : Closed T) (hS : Cascades S) {q : Stmt S} {ls : List (Resource S)}
    {a : q.Ans} {ws : List (Write S)} (h : q.Success T c ls a ws) : Closed (T.replay ws) := by
  cases h with
  | insert t id row hnew hallow => exact hT.put (allow_ok hallow).2.2
  | update t id set old hold hallow => exact hT.put (allow_ok hallow).2.2
  | delete t id old ws hold hws => exact hT.delete hS hws
  | select | lockMissing | lock | updateMissing | deleteMissing => exact hT

namespace Store

variable {I : Tables S → Prop} {s s' : Store S} {i : Nat}

/-- `I` holds of the committed rows, and of the rows that thread `i` sees. -/
structure Keeps (I : Tables S → Prop) (i : Nat) (s : Store S) : Prop where
  committed : I s.tables
  view : I (s.view i)

theorem Keeps.closed (h : I s.tables) (hx : s.tx i = none) : s.Keeps I i where
  committed := h
  view := by rwa [view_none hx]

theorem Keeps.close (h : s.Keeps I i) : (s.close i).Keeps I i :=
  .closed h.committed (close_tx_self s i)

theorem Keeps.abort (h : s.Keeps I i) : (s.abort i).Keeps I i := by
  cases hx : s.tx i with
  | none => rwa [abort_none hx]
  | some x =>
    refine ⟨by rw [abort_tables]; exact h.committed, ?_⟩
    rw [view_some (abort_tx_self hx), abort_tables]
    exact h.committed

theorem Keeps.exec (h : s.Keeps I i) {o : Op S} {r : Except SqlError o.Ans}
    (he : s.exec i c o = some (r, s'))
    (ho : ∀ q ls a ws, o = .stmt q → q.Success (s.view i) c ls a ws → I ((s.view i).replay ws)) :
    s'.Keeps I i := by
  cases exec_step he with
  | startFault | commitNone | aborted => exact h
  | start =>
    refine ⟨h.committed, ?_⟩
    rw [view_some (start_tx_self s i)]
    exact h.committed
  | commitFault | commitAborted | rollbackFault | rollback => exact h.close
  | commit x htx ha =>
    have hview := h.view
    rw [view_some htx] at hview
    exact .closed hview (close_tx_self _ i)
  | fault | refused => exact h.abort
  | done q ls a ws ha hq hl =>
    have hnext := ho q ls a ws rfl hq
    cases hx : s.tx i with
    | none =>
      refine .closed ?_ (perform_tx_none hx _ _)
      rw [perform_tables_none hx]
      rwa [view_none hx] at hnext
    | some x =>
      refine ⟨by rw [perform_tables_some hx]; exact h.committed, ?_⟩
      rw [perform_view]
      exact hnext

theorem exec_stmt_view {q : Stmt S} {a : q.Ans} (he : s.exec i c (.stmt q) = some (.ok a, s')) :
    ∃ ls ws, q.Success (s.view i) c ls a ws ∧ s'.view i = (s.view i).replay ws := by
  cases exec_step he with
  | done q ls a ws ha hq hl => exact ⟨ls, ws, hq, perform_view s i ls ws⟩

end Store

end Sql
