import Ecomm.Lib.Solo
import Ecomm.Lib.Together

/-! Databases that differ in the rows of one table only, as far as `R` lets
them, and a thread that runs alone on both. -/

namespace Sql

open Concurrent.Prog

variable {S : Schema} {t₀ : S.Table} {R : S.Row t₀ → S.Row t₀ → Prop} {T T' : Tables S}

structure Alike (t₀ : S.Table) (R : S.Row t₀ → S.Row t₀ → Prop) (T T' : Tables S) : Prop where
  same : ∀ t, t ≠ t₀ → T' t = T t
  rows : ∀ id, Option.Rel R ((T t₀).lookup id) ((T' t₀).lookup id)

namespace Alike

theorem refl (hR : ∀ r, R r r) (T : Tables S) : Alike t₀ R T T where
  same t _ := rfl
  rows id := by
    cases (T t₀).lookup id with
    | none => exact .none
    | some r => exact .some (hR r)

theorem isSome (h : Alike t₀ R T T') (t : S.Table) (id : S.Id) :
    ((T' t).lookup id).isSome = ((T t).lookup id).isSome := by
  by_cases ht : t = t₀
  · subst ht
    have hrows := h.rows id
    cases hx : (T t).lookup id <;> cases hy : (T' t).lookup id <;> rw [hx, hy] at hrows <;>
      first | rfl | cases hrows
  · rw [h.same t ht]

theorem write (h : Alike t₀ R T T') {w : Write S} (hw : w.table ≠ t₀) :
    Alike t₀ R (T.write w) (T'.write w) where
  same t ht := by
    by_cases hwt : w.table = t
    · subst hwt
      simp only [Tables.write, Function.update_self, h.same _ hw]
    · rw [Tables.write_other_table _ hwt, Tables.write_other_table _ hwt, h.same t ht]
  rows id := by
    rw [Tables.write_other_table _ hw, Tables.write_other_table _ hw]
    exact h.rows id

theorem replay (h : Alike t₀ R T T') {ws : List (Write S)} (hws : ∀ w ∈ ws, w.table ≠ t₀) :
    Alike t₀ R (T.replay ws) (T'.replay ws) := by
  induction ws generalizing T T' with
  | nil => exact h
  | cons w ws ih =>
    rw [Tables.replay_cons, Tables.replay_cons]
    exact ih (h.write (hws w List.mem_cons_self)) (fun v hv => hws v (List.mem_cons_of_mem _ hv))

theorem put (h : Alike t₀ R T T') {id : S.Id} {r r' : S.Row t₀} (hr : R r r') :
    Alike t₀ R (T.write ⟨t₀, id, some r⟩) (T'.write ⟨t₀, id, some r'⟩) where
  same t ht := by
    rw [Tables.write_other_table _ (Ne.symm ht), Tables.write_other_table _ (Ne.symm ht)]
    exact h.same t ht
  rows j := by
    by_cases hj : j = id
    · subst hj
      rw [Tables.lookup_write_self, Tables.lookup_write_self]
      exact .some hr
    · rw [Tables.lookup_write_other _ (fun hat => hj hat.2.symm),
        Tables.lookup_write_other _ (fun hat => hj hat.2.symm)]
      exact h.rows j

theorem refsExist (h : Alike t₀ R T T') (t : S.Table) (r : S.Row t) :
    Sql.refsExist T' t r = Sql.refsExist T t r := by
  simp [Sql.refsExist, h.isSome]

theorem allow (h : Alike t₀ R T T') {t : S.Table} (ht : t ≠ t₀) (id : S.Id) (r : S.Row t) :
    Sql.allow T' t id r = Sql.allow T t id r := by
  have hkeys : keyTaken T' t id r = keyTaken T t id r := by rw [keyTaken, h.same t ht, keyTaken]
  rw [Sql.allow, hkeys, h.refsExist, Sql.allow]

end Alike

def Stmt.Avoids (t₀ : S.Table) : Stmt S → Prop
  | .select t _ | .selectForUpdate t _ | .insert t _ _ | .update t _ _ => t ≠ t₀
  | .delete _ _ => False
  | .malformed _ => True

variable {q : Stmt S} {c : Choice S}

theorem plan_alike (h : Alike t₀ R T T') (hq : q.Avoids t₀) : q.plan T' c = q.plan T c := by
  cases q with
  | select t cond => simp only [Stmt.plan, h.same t hq]
  | selectForUpdate t id => simp only [Stmt.plan, h.same t hq]
  | insert t id row =>
    simp only [Stmt.plan, Write.locks, h.same t hq, h.allow hq]
  | update t id set =>
    simp only [Stmt.plan, Write.locks, h.same t hq, h.allow hq]
  | delete t id => exact hq.elim
  | malformed e => rfl

theorem plan_avoids (hq : q.Avoids t₀) {ls : List (Resource S)} {a : q.Ans} {ws : List (Write S)}
    (h : q.Success T c ls a ws) : ∀ w ∈ ws, w.table ≠ t₀ := by
  cases h with
  | insert | update =>
    intro w hw
    obtain rfl := List.mem_singleton.mp hw
    exact hq
  | select | lockMissing | lock | updateMissing => simp
  | deleteMissing | delete => exact hq.elim

namespace Store

/-- Two stores on which thread `i`, alone, has done the same but for its writes
to one table. -/
structure Beside (t₀ : S.Table) (R : S.Row t₀ → S.Row t₀ → Prop) (i : Nat) (s s' : Store S) :
    Prop where
  tables : s'.tables = s.tables
  log : s'.log = s.log
  others : ∀ j, j ≠ i → s'.tx j = s.tx j
  own : ∃ ws ws' aborted, s.tx i = some ⟨ws, aborted⟩ ∧ s'.tx i = some ⟨ws', aborted⟩ ∧
    Alike t₀ R (s.tables.replay ws) (s.tables.replay ws')
  free : ∀ l, s.free i l = true
  free' : ∀ l, s'.free i l = true

variable {s s' : Store S} {i : Nat}

theorem released_free (h : ∀ l, s.free i l = true) (l : Resource S) : s.released i l = none := by
  unfold released
  split
  · rfl
  · next hne => exact ((free_iff s i l).mp (h l)).resolve_right hne

theorem free_abort (h : ∀ l, s.free i l = true) (l : Resource S) : (s.abort i).free i l = true := by
  cases hx : s.tx i with
  | none =>
    rw [abort_none hx]
    exact h l
  | some x =>
    refine (free_iff _ _ _).mpr (.inl ?_)
    rw [abort, hx]
    exact released_free h l

namespace Beside

theorem close (h : s.Beside t₀ R i s') : s'.close i = s.close i := by
  have htx : Function.update s'.tx i none = Function.update s.tx i none := by
    funext j
    by_cases hj : j = i
    · subst hj
      simp
    · simp [hj, h.others j hj]
  have howner : s'.released i = s.released i := by
    funext l
    rw [released_free h.free l, released_free h.free' l]
  simp only [Store.close, htx, howner, h.tables, h.log]

theorem abort (h : s.Beside t₀ R i s') (hR : ∀ r, R r r) :
    (s.abort i).Beside t₀ R i (s'.abort i) := by
  obtain ⟨ws, ws', aborted, hx, hx', -⟩ := h.own
  refine ⟨?_, ?_, ?_, ?_, free_abort h.free, free_abort h.free'⟩
  · rw [abort_tables, abort_tables, h.tables]
  · simp only [Store.abort, hx, hx', h.log]
  · intro j hj
    rw [abort_tx_other _ hj, abort_tx_other _ hj, h.others j hj]
  · exact ⟨[], [], true, abort_tx_self hx, abort_tx_self hx', .refl hR _⟩

theorem perform (h : s.Beside t₀ R i s') (ls : List (Resource S)) {ws : List (Write S)}
    (hws : ∀ w ∈ ws, w.table ≠ t₀) : (s.perform i ls ws).Beside t₀ R i (s'.perform i ls ws) := by
  obtain ⟨vs, vs', aborted, hx, hx', halike⟩ := h.own
  refine ⟨?_, ?_, ?_, ?_, free_perform h.free hx ls ws, free_perform h.free' hx' ls ws⟩
  · rw [perform_tables_some hx, perform_tables_some hx', h.tables]
  · simp only [Store.perform, hx, hx', h.log]
  · intro j hj
    rw [perform_tx_other _ hj, perform_tx_other _ hj, h.others j hj]
  · refine ⟨vs ++ ws, vs' ++ ws, aborted, perform_tx_some hx _ _, perform_tx_some hx' _ _, ?_⟩
    rw [perform_tables_some hx, Tables.replay_append, Tables.replay_append]
    exact halike.replay hws

theorem isAborted (h : s.Beside t₀ R i s') : s'.isAborted i = s.isAborted i := by
  obtain ⟨ws, ws', aborted, hx, hx', -⟩ := h.own
  simp [Store.isAborted, hx, hx']

theorem view (h : s.Beside t₀ R i s') : Alike t₀ R (s.view i) (s'.view i) := by
  obtain ⟨ws, ws', aborted, hx, hx', halike⟩ := h.own
  rw [view_some hx, view_some hx', h.tables]
  exact halike

theorem exec (h : s.Beside t₀ R i s') (hR : ∀ r, R r r) (hq : q.Avoids t₀) :
    Option.Rel (fun x y => x.1 = y.1 ∧ x.2.Beside t₀ R i y.2) (s.exec i c (.stmt q))
      (s'.exec i c (.stmt q)) := by
  have hall : ∀ ls : List (Resource S), ls.all (s.free i) = true ∧ ls.all (s'.free i) = true :=
    fun ls => ⟨List.all_eq_true.mpr (fun l _ => h.free l),
      List.all_eq_true.mpr (fun l _ => h.free' l)⟩
  simp only [Store.exec, h.isAborted, plan_alike h.view hq]
  split
  · exact .some ⟨rfl, h.abort hR⟩
  · split
    · exact .some ⟨rfl, h⟩
    · next ha =>
      cases hp : q.plan (s.view i) c with
      | none => exact .none
      | some p =>
        simp only [(hall p.locks).1, (hall p.locks).2, if_true]
        cases hr : p.result with
        | error e => exact .some ⟨rfl, h.abort hR⟩
        | ok a => exact .some ⟨rfl, h.perform _ (plan_avoids hq (plan_success hp hr))⟩

end Beside

theorem Beside.self {x : Tx S} (hx : s.tx i = some x) (hfree : ∀ l, s.free i l = true)
    (hR : ∀ r, R r r) : s.Beside t₀ R i s :=
  ⟨rfl, rfl, fun _ _ => rfl, ⟨_, _, _, hx, hx, .refl hR _⟩, hfree, hfree⟩

/-- The same store with a new row of the one or of the other kind. -/
theorem exec_insert_beside {x : Tx S} (hx : s.tx i = some x) (hfree : ∀ l, s.free i l = true)
    (hR : ∀ r, R r r) {row row' : Nat → S.Row t₀} (hrow : R (row c.now) (row' c.now))
    (hallow : (s.view i t₀).lookup c.id = none →
      allow (s.view i) t₀ c.id (row' c.now) = allow (s.view i) t₀ c.id (row c.now)) :
    Option.Rel (Both (fun a b s s' => a.1 = b.1 ∧ s.Beside t₀ R i s')
        (fun e e' s s' => e = e' ∧ s.Beside t₀ R i s'))
      (s.exec i c (.stmt (.insert t₀ none row))) (s.exec i c (.stmt (.insert t₀ none row'))) := by
  have hself : s.Beside t₀ R i s := .self hx hfree hR
  have hall : ∀ ls : List (Resource S), ls.all (s.free i) = true :=
    fun ls => List.all_eq_true.mpr (fun l _ => hfree l)
  simp only [exec]
  split
  · exact .some ⟨rfl, hself.abort hR⟩
  · split
    · exact .some ⟨rfl, hself⟩
    · simp only [Stmt.plan, Option.getD_none, Option.isNone_none, if_true]
      cases hnew : (s.view i t₀).lookup c.id with
      | some old => exact .none
      | none =>
        simp only [Option.isSome_none, Bool.false_eq_true, if_false, hall, if_true, hallow hnew]
        cases allow (s.view i) t₀ c.id (row c.now) with
        | error e => exact .some ⟨rfl, hself.abort hR⟩
        | ok u =>
          refine .some ⟨rfl, ?_, ?_, ?_, ?_, free_perform hfree hx _ _, free_perform hfree hx _ _⟩
          · rw [perform_tables_some hx, perform_tables_some hx]
          · simp only [perform, hx]
          · intro j hj
            rw [perform_tx_other _ hj, perform_tx_other _ hj]
          · refine ⟨_, _, _, perform_tx_some hx _ _, perform_tx_some hx _ _, ?_⟩
            rw [perform_tables_some hx, Tables.replay_append, Tables.replay_append,
              Tables.replay_single, Tables.replay_single]
            exact (Alike.refl hR _).put hrow

theorem Beside.exec_find (h : s.Beside t₀ R i s') (hR : ∀ r, R r r) (id : S.Id) :
    Option.Rel (Both (fun rows rows' s s' => Option.Rel (fun a b => a.1 = b.1 ∧ R a.2 b.2)
        (List.head? rows) (List.head? rows') ∧ s.Beside t₀ R i s')
        (fun e e' s s' => e = e' ∧ s.Beside t₀ R i s'))
      (s.exec i c (.stmt (.select t₀ (fun j _ => j = id))))
      (s'.exec i c (.stmt (.select t₀ (fun j _ => j = id)))) := by
  simp only [Store.exec, h.isAborted]
  split
  · exact .some ⟨rfl, h.abort hR⟩
  · split
    · exact .some ⟨rfl, h⟩
    · refine .some ⟨?_, h.perform [] (by simp)⟩
      have hrows := h.view.rows id
      simp only [head_rows_id]
      revert hrows
      generalize (s.view i t₀).lookup id = a, (s'.view i t₀).lookup id = b
      intro hrows
      cases hrows with
      | none => exact .none
      | some hr => exact .some ⟨rfl, hr⟩

/-- A commit makes the difference visible; a commit that fails leaves none. -/
theorem Beside.exec_commit (h : s.Beside t₀ R i s') (hR : ∀ r, R r r) :
    Option.Rel (Both (fun _ _ s s' => Alike t₀ R s.tables s'.tables)
        (fun e e' s s' => e = e' ∧ s' = s))
      (s.exec i c .commitTransaction) (s'.exec i c .commitTransaction) := by
  obtain ⟨ws, ws', aborted, hx, hx', halike⟩ := h.own
  simp only [Store.exec, hx, hx']
  split
  · exact .some ⟨rfl, h.close⟩
  · split
    · refine .some ?_
      rw [h.close]
      exact .refl hR _
    · refine .some ?_
      show Alike t₀ R (s.tables.replay ws) (s'.tables.replay ws')
      rw [h.tables]
      exact halike

theorem Beside.exec_rollback (h : s.Beside t₀ R i s') :
    s'.exec i c .rollbackTransaction = s.exec i c .rollbackTransaction := by
  simp only [Store.exec, h.close]

end Store

end Sql
