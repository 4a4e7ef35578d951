import Ecomm.Lib.Growing

/-! A row that is gone: once a deletion is committed, nothing but an insert
brings the row back. -/

namespace Sql

variable {S : Schema} {t : S.Table} {id : S.Id}

theorem Tables.lookup_replay_none {T : Tables S} {ws : List (Write S)}
    (hT : (T t).lookup id = none) (hws : ∀ r, (⟨t, id, some r⟩ : Write S) ∉ ws) :
    (T.replay ws t).lookup id = none := by
  by_cases hw : ∃ w ∈ ws, w.at t id
  · obtain ⟨r, hmem, hlook⟩ := lookup_replay_written hw
    rw [hlook]
    cases r with
    | none => rfl
    | some r => exact absurd hmem (hws r)
  · rw [lookup_replay_other T (fun w hmem hat => hw ⟨w, hmem, hat⟩), hT]

theorem Stmt.Success.absent {T : Tables S} {c : Choice S} {q : Stmt S} {ls : List (Resource S)}
    {a : q.Ans} {ws : List (Write S)} (h : q.Success T c ls a ws)
    (hq : ∀ u j row, q ≠ .insert u j row) (hT : (T t).lookup id = none) (r : S.Row t) :
    (⟨t, id, some r⟩ : Write S) ∉ ws := by
  intro hw
  cases h with
  | select | lockMissing | lock | updateMissing | deleteMissing => cases hw
  | insert u j row => exact hq u j row rfl
  | update u j set old hold hallow =>
    obtain ⟨rfl, rfl, _⟩ : t = u ∧ id = j ∧ HEq (some r) (some (set c.now old)) := by
      simpa using hw
    rw [hT] at hold
    cases hold
  | delete u j old ws hold hws =>
    obtain ⟨r', hr', _⟩ := deletion_shrinks hws hw
    rw [hT] at hr'
    cases hr'

namespace Store

/-- The row is not committed, and no transaction is about to write it. -/
structure Gone (t : S.Table) (id : S.Id) (s : Store S) : Prop where
  committed : (s.tables t).lookup id = none
  pending : ∀ i x, s.tx i = some x → ∀ r, (⟨t, id, some r⟩ : Write S) ∉ x.writes

variable {s s' : Store S} {i : Nat} {c : Choice S}

theorem Gone.view (h : s.Gone t id) (i : Nat) : (s.view i t).lookup id = none := by
  cases hx : s.tx i with
  | none =>
    rw [view_none hx]
    exact h.committed
  | some x =>
    rw [view_some hx]
    exact Tables.lookup_replay_none h.committed (h.pending i x hx)

theorem Gone.replace (h : s.Gone t id) (hcommitted : (s'.tables t).lookup id = none)
    (hother : ∀ j, j ≠ i → s'.tx j = s.tx j)
    (hown : ∀ x, s'.tx i = some x → ∀ r, (⟨t, id, some r⟩ : Write S) ∉ x.writes) :
    s'.Gone t id where
  committed := hcommitted
  pending j x hx := by
    by_cases hj : j = i
    · subst hj
      exact hown x hx
    · exact h.pending j x (hother j hj ▸ hx)

theorem Gone.close (h : s.Gone t id) (i : Nat) : (s.close i).Gone t id :=
  h.replace h.committed (fun _ hj => close_tx_other s hj) (by simp)

theorem Gone.abort (h : s.Gone t id) (i : Nat) : (s.abort i).Gone t id := by
  have hcommitted : ((s.abort i).tables t).lookup id = none := by
    rw [abort_tables]
    exact h.committed
  refine h.replace hcommitted (fun _ hj => abort_tx_other s hj) ?_
  intro y hy r hr
  cases hx : s.tx i with
  | none =>
    rw [abort_none hx, hx] at hy
    cases hy
  | some x =>
    rw [abort_tx_self hx] at hy
    obtain rfl := Option.some.inj hy
    cases hr

theorem Gone.exec (h : s.Gone t id) {o : Op S} {r : Except SqlError o.Ans}
    (he : s.exec i c o = some (r, s')) (ho : ∀ u j row, o ≠ .stmt (.insert u j row)) :
    s'.Gone t id := by
  cases exec_step he with
  | startFault | commitNone | aborted => exact h
  | start =>
    refine h.replace h.committed (fun _ hj => start_tx_other s hj) ?_
    intro x hx r
    rw [start_tx_self] at hx
    obtain rfl := Option.some.inj hx
    exact List.not_mem_nil
  | commitFault | commitAborted | rollbackFault | rollback => exact h.close i
  | commit x htx ha =>
    refine h.replace ?_ (fun _ hj => by rw [close_tx_other _ hj, publish_tx]) (by simp)
    exact Tables.lookup_replay_none h.committed (h.pending i x htx)
  | fault | refused => exact h.abort i
  | done q ls a ws ha hq hl =>
    have hws := hq.absent (fun u j row heq => ho u j row (congrArg Op.stmt heq)) (h.view i)
    cases hx : s.tx i with
    | none =>
      have hcommitted : ((s.perform i ls ws).tables t).lookup id = none := by
        rw [perform_tables_none hx]
        exact Tables.lookup_replay_none h.committed hws
      refine h.replace hcommitted (fun _ hj => perform_tx_other s hj _ _) ?_
      simp [perform_tx_none hx]
    | some x =>
      have hcommitted : ((s.perform i ls ws).tables t).lookup id = none := by
        rw [perform_tables_some hx]
        exact h.committed
      refine h.replace hcommitted (fun _ hj => perform_tx_other s hj _ _) ?_
      intro y hy r hr
      rw [perform_tx_some hx] at hy
      obtain rfl := Option.some.inj hy
      rcases List.mem_append.mp hr with hr | hr
      · exact h.pending i x hx r hr
      · exact hws r hr

/-- A deletion that found its row: whoever was about to write the row would
have held its lock. -/
theorem Coherent.gone (h : s.Coherent) (hx : s.tx i = none) {n : Nat}
    (he : s.exec i c (.stmt (.delete t id)) = some (.ok n, s')) (hn : n ≠ 0) :
    s'.Gone t id := by
  cases exec_step he with
  | done q ls a ws ha hq hl =>
    cases hq with
    | deleteMissing => exact absurd rfl hn
    | delete _ _ old ws hold hws =>
      obtain ⟨more, hmore, rfl⟩ := Option.map_eq_some_iff.mp hws
      constructor
      · rw [perform_tables_none hx, Tables.replay_append, Tables.replay_single,
          Tables.lookup_write_self]
      · intro j x hj r hr
        by_cases hji : j = i
        · subst hji
          rw [perform_tx_none hx] at hj
          cases hj
        · rw [perform_tx_other s hji] at hj
          have howned : s.owner (.row t id) = some j := h.rowOwned j x _ hj hr
          have hfree := (free_iff s i _).mp (hl (.row t id) ?_)
          · rw [howned] at hfree
            rcases hfree with hnone | hmine
            · cases hnone
            · exact hji (Option.some.inj hmine)
          · refine List.mem_flatMap.mpr ⟨⟨t, id, none⟩, ?_, List.mem_cons_self⟩
            exact List.mem_append_right _ (List.mem_singleton_self _)

end Store

end Sql
