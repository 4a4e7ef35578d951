import Ecomm.Lib.Coherent
import Mathlib.Algebra.BigOperators.Group.List.Basic

/-! What a step leaves to the other threads, and totals over a table whose
pending rows are all new. -/

namespace Sql

variable {S : Schema}

namespace Store

/-- Thread `i` keeps its transaction, its locks and the rows it has locked. -/
structure Frame (s s' : Store S) (i : Nat) : Prop where
  tx : s'.tx i = s.tx i
  owner : ∀ l, s'.owner l = some i ↔ s.owner l = some i
  row : ∀ t id, s.owner (.row t id) = some i →
    (s'.tables t).lookup id = (s.tables t).lookup id

theorem Coherent.frame_commit {s : Store S} (h : s.Coherent) {i j : Nat} (hij : i ≠ j)
    {x : Tx S} (hx : s.tx j = some x) : Frame s ((s.publish j x.writes).close j) i where
  tx := by simp [hij]
  owner l := released_other _ hij l
  row t id hl := by
    apply Tables.lookup_replay_other
    rintro w hw ⟨rfl, rfl⟩
    rw [h.rowOwned j x w hx hw] at hl
    exact hij (Option.some.inj hl).symm

theorem Coherent.frame {s s' : Store S} (h : s.Coherent) {i j : Nat} (hij : i ≠ j)
    {c : Choice S} {o : Op S} {r : Except SqlError o.Ans} (he : s.exec j c o = some (r, s')) :
    Frame s s' i := by
  have hsame : Frame s s i := ⟨rfl, fun _ => Iff.rfl, fun _ _ _ => rfl⟩
  have hclose : Frame s (s.close j) i :=
    ⟨close_tx_other s hij, fun l => released_other s hij l, fun _ _ _ => rfl⟩
  have habort : Frame s (s.abort j) i :=
    ⟨abort_tx_other s hij, fun l => abort_owner_other s hij l, fun _ _ _ => by simp⟩
  cases exec_step he with
  | startFault => exact hsame
  | start => exact ⟨start_tx_other s hij, fun _ => Iff.rfl, fun _ _ _ => rfl⟩
  | commitNone => exact hsame
  | commitFault => exact hclose
  | commitAborted => exact hclose
  | commit x htx => exact h.frame_commit hij htx
  | rollbackFault => exact hclose
  | rollback => exact hclose
  | fault => exact habort
  | aborted => exact hsame
  | refused => exact habort
  | done q ls a ws ha hq hl =>
    refine ⟨perform_tx_other s hij _ _, fun l => perform_owner_other hij hl ws l, ?_⟩
    intro t id hown
    cases hx : s.tx j with
    | some x => rw [perform_tables_some hx]
    | none =>
      rw [perform_tables_none hx]
      apply Tables.lookup_replay_other
      rintro w hw ⟨rfl, rfl⟩
      have hfree := hl _ (hq.locks w hw (.row w.table w.id) (by simp [Write.locks]))
      rcases (free_iff s j _).mp hfree with ho | ho
      · simp [ho] at hown
      · rw [ho] at hown
        exact hij (Option.some.inj hown).symm

theorem Frame.view_row {s s' : Store S} {i : Nat} (f : Frame s s' i) {t : S.Table} {id : S.Id}
    (hl : s.owner (.row t id) = some i) :
    (s'.view i t).lookup id = (s.view i t).lookup id := by
  cases hx : s.tx i with
  | none => rw [view_none hx, view_none (f.tx.trans hx), f.row t id hl]
  | some x =>
    rw [view_some hx, view_some (f.tx.trans hx)]
    by_cases hw : ∃ w ∈ x.writes, w.at t id
    · obtain ⟨r, _, hr⟩ := Tables.lookup_replay_written hw
      rw [hr, hr]
    · rw [Tables.lookup_replay_other _ (fun w hm hat => hw ⟨w, hm, hat⟩),
        Tables.lookup_replay_other _ (fun w hm hat => hw ⟨w, hm, hat⟩), f.row t id hl]

end Store

def Tables.tally {M : Type} [AddCommMonoid M] (T : Tables S) (t : S.Table)
    (f : S.Row t → M) : M :=
  ((T t).entries.map (fun e => f e.2)).sum

/-- What a write adds to a tally when its row is new. -/
def Write.amount {M : Type} [AddCommMonoid M] (t : S.Table) (f : S.Row t → M) (w : Write S) : M :=
  if h : w.table = t then w.row.elim 0 (fun r => f (h ▸ r)) else 0

def pending {M : Type} [AddCommMonoid M] (t : S.Table) (f : S.Row t → M)
    (ws : List (Write S)) : M :=
  (ws.map (Write.amount t f)).sum

/-- The writes to table `t` insert rows that are not there yet. -/
def FreshIn (t : S.Table) : Tables S → List (Write S) → Prop
  | _, [] => True
  | T, w :: ws => (w.table = t → w.row.isSome ∧ (T t).lookup w.id = none) ∧ FreshIn t (T.write w) ws

section Tally

variable {M : Type} [AddCommMonoid M] {t : S.Table} {f : S.Row t → M}

@[simp] theorem pending_nil : pending t f ([] : List (Write S)) = 0 := rfl

theorem pending_append (ws vs : List (Write S)) :
    pending t f (ws ++ vs) = pending t f ws + pending t f vs := by
  simp [pending]

theorem pending_single (id : S.Id) (r : S.Row t) :
    pending t f [(⟨t, id, some r⟩ : Write S)] = f r := by
  simp [pending, Write.amount]

theorem pending_single_other {u : S.Table} (h : u ≠ t) (id : S.Id) (r : Option (S.Row u)) :
    pending t f [(⟨u, id, r⟩ : Write S)] = 0 := by
  simp [pending, Write.amount, h]

theorem tally_write {T : Tables S} {w : Write S}
    (h : w.table = t → w.row.isSome ∧ (T t).lookup w.id = none) :
    (T.write w).tally t f = w.amount t f + T.tally t f := by
  obtain ⟨u, id, r⟩ := w
  by_cases hu : u = t
  · subst hu
    obtain ⟨hr, hnone⟩ := h rfl
    cases r with
    | none => simp at hr
    | some r =>
      have he : ((T u).insert id r).entries = ⟨id, r⟩ :: (T u).entries :=
        AList.entries_insert_of_notMem (AList.lookup_eq_none.mp hnone)
      simp only [Tables.tally, Tables.write, Function.update_self, he]
      simp [Write.amount]
  · simp only [Tables.tally]
    rw [Tables.write_other_table T hu]
    simp [Write.amount, hu]

theorem tally_replay {T : Tables S} {ws : List (Write S)} (h : FreshIn t T ws) :
    (T.replay ws).tally t f = pending t f ws + T.tally t f := by
  induction ws generalizing T with
  | nil => simp
  | cons w ws ih =>
    rw [Tables.replay_cons, ih h.2, tally_write h.1]
    simp only [pending, List.map_cons, List.sum_cons]
    rw [← add_assoc, add_comm (List.sum _)]

theorem FreshIn.of_nodup {T : Tables S} {ws : List (Write S)}
    (hnew : ∀ w ∈ ws, w.table = t → w.row.isSome ∧ (T t).lookup w.id = none)
    (hnodup : ((ws.filter (fun w => w.table = t)).map (·.id)).Nodup) : FreshIn t T ws := by
  induction ws generalizing T with
  | nil => trivial
  | cons w ws ih =>
    refine ⟨hnew w List.mem_cons_self, ih ?_ ?_⟩
    · intro v hv ht
      obtain ⟨hsome, hnone⟩ := hnew v (List.mem_cons_of_mem _ hv) ht
      refine ⟨hsome, ?_⟩
      rw [Tables.lookup_write_other, hnone]
      rintro ⟨hw, hid⟩
      simp only [hw, decide_true, List.filter_cons_of_pos, List.map_cons, List.nodup_cons] at hnodup
      exact hnodup.1 (List.mem_map.mpr ⟨v, List.mem_filter.mpr ⟨hv, by simpa using ht⟩, hid.symm⟩)
    · refine hnodup.sublist ((List.Sublist.filter _ ?_).map _)
      exact List.sublist_cons_self w ws

end Tally

end Sql
