import Ecomm.Lib.StoreFacts

/-! The steps of the store, inverted once, and the coherence of locks with
pending writes: what a transaction wrote is locked by it, and every
transaction sees unique keys once. -/

namespace Sql

namespace Store

variable {S : Schema}

/-- All that an operation can do to the store. -/
inductive Step (s : Store S) (i : Nat) (c : Choice S) :
    (o : Op S) → Except SqlError o.Ans → Store S → Prop
  | startFault : Step s i c .startTransaction (.error .failed) s
  | start : Step s i c .startTransaction (.ok ()) (s.start i)
  | commitNone (htx : s.tx i = none) : Step s i c .commitTransaction (.ok ()) s
  | commitFault (x) (htx : s.tx i = some x) :
      Step s i c .commitTransaction (.error .failed) (s.close i)
  | commitAborted (x) (htx : s.tx i = some x) (ha : x.aborted = true) :
      Step s i c .commitTransaction (.ok ()) (s.close i)
  | commit (x) (htx : s.tx i = some x) (ha : x.aborted = false) :
      Step s i c .commitTransaction (.ok ()) ((s.publish i x.writes).close i)
  | rollbackFault : Step s i c .rollbackTransaction (.error .failed) (s.close i)
  | rollback : Step s i c .rollbackTransaction (.ok ()) (s.close i)
  | fault (q) (hf : c.fault = true) : Step s i c (.stmt q) (.error .failed) (s.abort i)
  | aborted (q) (ha : s.isAborted i = true) :
      Step s i c (.stmt q) (.error .inFailedTransaction) s
  | refused (q p e) (ha : s.isAborted i = false) (hp : q.plan (s.view i) c = some p)
      (hl : ∀ l ∈ p.locks, s.free i l = true) (hr : p.result = .error e) :
      Step s i c (.stmt q) (.error e) (s.abort i)
  | done (q ls a ws) (ha : s.isAborted i = false) (hq : q.Success (s.view i) c ls a ws)
      (hl : ∀ l ∈ ls, s.free i l = true) :
      Step s i c (.stmt q) (.ok a) (s.perform i ls ws)

theorem exec_step {s s' : Store S} {i : Nat} {c : Choice S} {o : Op S}
    {r : Except SqlError o.Ans} (h : s.exec i c o = some (r, s')) : s.Step i c o r s' := by
  cases o with
  | startTransaction =>
    simp only [exec] at h
    split at h <;> obtain ⟨rfl, rfl⟩ := Prod.mk.inj (Option.some.inj h)
    · exact .startFault
    · exact .start
  | commitTransaction =>
    simp only [exec] at h
    split at h
    · next htx =>
      obtain ⟨rfl, rfl⟩ := Prod.mk.inj (Option.some.inj h)
      exact .commitNone htx
    · next x htx =>
      split at h
      · obtain ⟨rfl, rfl⟩ := Prod.mk.inj (Option.some.inj h)
        exact .commitFault x htx
      · split at h <;> obtain ⟨rfl, rfl⟩ := Prod.mk.inj (Option.some.inj h)
        · next ha => exact .commitAborted x htx ha
        · next ha => exact .commit x htx (by simpa using ha)
  | rollbackTransaction =>
    simp only [exec] at h
    split at h <;> obtain ⟨rfl, rfl⟩ := Prod.mk.inj (Option.some.inj h)
    · exact .rollbackFault
    · exact .rollback
  | stmt q =>
    simp only [exec] at h
    split at h
    · next hf =>
      obtain ⟨rfl, rfl⟩ := Prod.mk.inj (Option.some.inj h)
      exact .fault q hf
    · split at h
      · next ha =>
        obtain ⟨rfl, rfl⟩ := Prod.mk.inj (Option.some.inj h)
        exact .aborted q ha
      · next ha =>
        have ha' : s.isAborted i = false := by simpa using ha
        split at h
        · cases h
        · next p hp =>
          split at h
          · next hl =>
            have hl' : ∀ l ∈ p.locks, s.free i l = true := List.all_eq_true.mp hl
            split at h
            · next e hr =>
              obtain ⟨rfl, rfl⟩ := Prod.mk.inj (Option.some.inj h)
              exact .refused q p e ha' hp hl' hr
            · next a ws hr =>
              obtain ⟨rfl, rfl⟩ := Prod.mk.inj (Option.some.inj h)
              exact .done q p.locks a ws ha' (plan_success hp hr) hl'
          · cases h

theorem exec_select {s s' : Store S} {i : Nat} {c : Choice S} {t : S.Table}
    {cond : S.Id → S.Row t → Bool} {rows : List (S.Id × S.Row t)}
    (h : s.exec i c (.stmt (.select t cond)) = some (.ok rows, s')) (e : S.Id × S.Row t) :
    e ∈ rows ↔ (s.view i t).lookup e.1 = some e.2 ∧ cond e.1 e.2 = true := by
  cases exec_step h with
  | done q ls a ws ha hq hl =>
    cases hq with
    | select =>
      constructor
      · intro he
        obtain ⟨x, hx, rfl⟩ := List.mem_map.mp he
        exact (List.mem_filter.mp hx).imp_left AList.mem_lookup_iff.mpr
      · rintro ⟨hrow, hcond⟩
        exact List.mem_map.mpr ⟨⟨e.1, e.2⟩,
          List.mem_filter.mpr ⟨AList.mem_lookup_iff.mp hrow, hcond⟩, rfl⟩

theorem exec_insert_ok {s s' : Store S} {i : Nat} {c : Choice S} {t : S.Table} {id : Option S.Id}
    {row : Nat → S.Row t} {a : S.Id × S.Row t}
    (h : s.exec i c (.stmt (.insert t id row)) = some (.ok a, s')) :
    (s.view i t).lookup a.1 = none ∧ ∀ k, id = some k → a.1 = k := by
  cases exec_step h with
  | done q ls a ws ha hq hl =>
    cases hq with
    | insert _ _ _ hnew => exact ⟨hnew, by rintro k rfl; rfl⟩

theorem exec_insert_unique {s s' : Store S} {i : Nat} {c : Choice S} {t : S.Table} {id : S.Id}
    {row : Nat → S.Row t} (hkeys : ∀ r, S.keys t r = [])
    (hcheck : ∀ r, S.check t r ≠ some .uniqueViolation)
    (h : s.exec i c (.stmt (.insert t (some id) row)) = some (.error .uniqueViolation, s')) :
    ((s.view i t).lookup id).isSome := by
  cases exec_step h with
  | refused q p e ha hp hl hr =>
    simp only [Stmt.plan, Option.getD_some] at hp
    split at hp
    · assumption
    · obtain rfl := Option.some.inj hp
      have hallow : allow (s.view i) t id (row c.now) = .error .uniqueViolation := by
        cases he : allow (s.view i) t id (row c.now) with
        | ok u => simp [he, Except.map] at hr
        | error e => simpa [he, Except.map] using hr
      have hfree : keyTaken (s.view i) t id (row c.now) = false := by
        simp [keyTaken, hkeys]
      unfold allow at hallow
      split at hallow
      · next e he =>
        obtain rfl := Except.error.inj hallow
        exact absurd he (hcheck _)
      · rw [hfree] at hallow
        split at hallow
        · contradiction
        · split at hallow <;> cases hallow

theorem exec_update_missing {s s' : Store S} {i : Nat} {c : Choice S} {t : S.Table} {id : S.Id}
    {set : Nat → S.Row t → S.Row t} (h : s.exec i c (.stmt (.update t id set)) = some (.ok none, s')) :
    (s.view i t).lookup id = none := by
  cases exec_step h with
  | done q ls a ws ha hq hl =>
    cases hq with
    | updateMissing _ _ _ hnone => exact hnone

theorem exec_malformed_unique {s s' : Store S} {i : Nat} {c : Choice S} {e : SqlError}
    (h : s.exec i c (.stmt (.malformed e)) = some (.error .uniqueViolation, s')) :
    e = .uniqueViolation := by
  cases exec_step h with
  | refused q p e' ha hp hl hr =>
    obtain rfl := Option.some.inj hp
    exact Except.error.inj hr

/-! Transactions and locks after the updates of a step. -/

theorem view_none {s : Store S} {i : Nat} (h : s.tx i = none) : s.view i = s.tables := by
  simp [view, h]

theorem view_some {s : Store S} {i : Nat} {x : Tx S} (h : s.tx i = some x) :
    s.view i = s.tables.replay x.writes := by
  simp [view, h]

theorem view_congr {s s' : Store S} {i j : Nat} (htx : s'.tx i = s.tx j)
    (ht : s'.tables = s.tables) : s'.view i = s.view j := by
  simp [view, htx, ht]

@[simp] theorem start_tables (s : Store S) (i : Nat) : (s.start i).tables = s.tables := rfl
@[simp] theorem start_owner (s : Store S) (i : Nat) : (s.start i).owner = s.owner := rfl
@[simp] theorem start_log (s : Store S) (i : Nat) : (s.start i).log = s.log := rfl
@[simp] theorem start_tx_self (s : Store S) (i : Nat) : (s.start i).tx i = some ⟨[], false⟩ := by
  simp [start]

@[simp] theorem start_tx_other (s : Store S) {i j : Nat} (h : j ≠ i) :
    (s.start i).tx j = s.tx j := by
  simp [start, h]

@[simp] theorem close_tables (s : Store S) (i : Nat) : (s.close i).tables = s.tables := rfl
@[simp] theorem close_log (s : Store S) (i : Nat) : (s.close i).log = s.log := rfl
@[simp] theorem close_owner (s : Store S) (i : Nat) : (s.close i).owner = s.released i := rfl
@[simp] theorem close_tx_self (s : Store S) (i : Nat) : (s.close i).tx i = none := by
  simp [close]

@[simp] theorem close_tx_other (s : Store S) {i j : Nat} (h : j ≠ i) :
    (s.close i).tx j = s.tx j := by
  simp [close, h]

@[simp] theorem publish_tx (s : Store S) (i : Nat) (ws : List (Write S)) :
    (s.publish i ws).tx = s.tx := rfl
@[simp] theorem publish_owner (s : Store S) (i : Nat) (ws : List (Write S)) :
    (s.publish i ws).owner = s.owner := rfl
@[simp] theorem publish_tables (s : Store S) (i : Nat) (ws : List (Write S)) :
    (s.publish i ws).tables = s.tables.replay ws := rfl
@[simp] theorem publish_log (s : Store S) (i : Nat) (ws : List (Write S)) :
    (s.publish i ws).log = s.log ++ [⟨i, ws⟩] := rfl

theorem abort_none {s : Store S} {i : Nat} (h : s.tx i = none) : s.abort i = s := by
  simp [abort, h]

@[simp] theorem abort_tables (s : Store S) (i : Nat) : (s.abort i).tables = s.tables := by
  unfold abort
  split <;> rfl

@[simp] theorem abort_log (s : Store S) (i : Nat) : (s.abort i).log = s.log := by
  unfold abort
  split <;> rfl

theorem abort_tx_self {s : Store S} {i : Nat} {x : Tx S} (h : s.tx i = some x) :
    (s.abort i).tx i = some ⟨[], true⟩ := by
  simp [abort, h]

@[simp] theorem abort_tx_other (s : Store S) {i j : Nat} (h : j ≠ i) :
    (s.abort i).tx j = s.tx j := by
  unfold abort
  split
  · simp [h]
  · rfl

@[simp] theorem perform_tx_other (s : Store S) {i j : Nat} (h : j ≠ i) (ls : List (Resource S))
    (ws : List (Write S)) : (s.perform i ls ws).tx j = s.tx j := by
  unfold perform
  split
  · simp [h]
  · split <;> rfl

theorem perform_tx_some {s : Store S} {i : Nat} {x : Tx S} (h : s.tx i = some x)
    (ls : List (Resource S)) (ws : List (Write S)) :
    (s.perform i ls ws).tx i = some { x with writes := x.writes ++ ws } := by
  simp [perform, h]

theorem perform_tx_none {s : Store S} {i : Nat} (h : s.tx i = none)
    (ls : List (Resource S)) (ws : List (Write S)) : (s.perform i ls ws).tx i = none := by
  simp only [perform, h]
  split <;> exact h

theorem perform_tables_some {s : Store S} {i : Nat} {x : Tx S} (h : s.tx i = some x)
    (ls : List (Resource S)) (ws : List (Write S)) : (s.perform i ls ws).tables = s.tables := by
  simp [perform, h]

theorem perform_tables_none {s : Store S} {i : Nat} (h : s.tx i = none)
    (ls : List (Resource S)) (ws : List (Write S)) :
    (s.perform i ls ws).tables = s.tables.replay ws := by
  simp only [perform, h]
  split
  · next he => simp [List.isEmpty_iff.mp he]
  · rfl

theorem perform_view (s : Store S) (i : Nat) (ls : List (Resource S)) (ws : List (Write S)) :
    (s.perform i ls ws).view i = (s.view i).replay ws := by
  cases h : s.tx i with
  | none => rw [view_none (perform_tx_none h ls ws), perform_tables_none h, view_none h]
  | some x =>
    rw [view_some (perform_tx_some h ls ws), perform_tables_some h, view_some h,
      Tables.replay_append]

theorem perform_nil (s : Store S) (i : Nat) : s.perform i [] [] = s := by
  cases h : s.tx i with
  | none => simp [perform, h]
  | some x =>
    have htx : Function.update s.tx i (some x) = s.tx := by rw [← h, Function.update_eq_self]
    simp [perform, h, htx]

theorem perform_none_nil {s : Store S} {i : Nat} (h : s.tx i = none) (ls : List (Resource S)) :
    s.perform i ls [] = s := by
  simp [perform, h]

theorem perform_owner_none {s : Store S} {i : Nat} (h : s.tx i = none) (ls : List (Resource S))
    (ws : List (Write S)) : (s.perform i ls ws).owner = s.owner := by
  simp only [perform, h]
  split <;> rfl

theorem perform_row_owner {s : Store S} {i : Nat} {x : Tx S} (hx : s.tx i = some x)
    {ls : List (Resource S)} {ws : List (Write S)} {u : S.Table} {j : S.Id} {P : Prop}
    (hls : .row u j ∈ ls → P) (hl : (s.perform i ls ws).owner (.row u j) = some i) :
    s.owner (.row u j) = some i ∨ P := by
  simp only [perform, hx] at hl
  split at hl
  · next hmem => exact .inr (hls hmem)
  · exact .inl hl

theorem free_iff (s : Store S) (i : Nat) (l : Resource S) :
    s.free i l = true ↔ s.owner l = none ∨ s.owner l = some i := by
  simp [free]

theorem released_other (s : Store S) {i j : Nat} (h : j ≠ i) (l : Resource S) :
    s.released i l = some j ↔ s.owner l = some j := by
  unfold released
  split
  · next he => simp [he, Ne.symm h]
  · rfl

theorem released_self (s : Store S) (i : Nat) (l : Resource S) : s.released i l ≠ some i := by
  unfold released
  split
  · simp
  · assumption

theorem abort_owner_other (s : Store S) {i j : Nat} (h : j ≠ i) (l : Resource S) :
    (s.abort i).owner l = some j ↔ s.owner l = some j := by
  unfold abort
  split
  · exact released_other s h l
  · rfl

/-- A lock is only taken when it is free, so nobody else loses one. -/
theorem perform_owner_other {s : Store S} {i j : Nat} (h : j ≠ i) {ls : List (Resource S)}
    (hl : ∀ l ∈ ls, s.free i l = true) (ws : List (Write S)) (l : Resource S) :
    (s.perform i ls ws).owner l = some j ↔ s.owner l = some j := by
  unfold perform
  split
  · dsimp only
    split
    · next hmem =>
      rcases (free_iff s i l).mp (hl l hmem) with ho | ho <;> simp [ho, Ne.symm h]
    · rfl
  · split <;> rfl

structure Coherent (s : Store S) : Prop where
  rowOwned : ∀ i x w, s.tx i = some x → w ∈ x.writes →
    s.owner (.row w.table w.id) = some i
  keyOwned : ∀ i x t id r k, s.tx i = some x → (⟨t, id, some r⟩ : Write S) ∈ x.writes →
    k ∈ S.keys t r → s.owner (.key k) = some i
  ownerOpen : ∀ l i, s.owner l = some i → ∃ x, s.tx i = some x
  distinct : Distinct s.tables
  distinctView : ∀ i, Distinct (s.view i)

theorem Coherent.owner_none {s : Store S} (h : s.Coherent) {i : Nat} (htx : s.tx i = none)
    (l : Resource S) : s.owner l ≠ some i := by
  intro hl
  obtain ⟨x, hx⟩ := h.ownerOpen l i hl
  rw [htx] at hx
  cases hx

theorem Coherent.merge_view {s : Store S} (h : s.Coherent) {i j : Nat} (hji : j ≠ i)
    {ws : List (Write S)} (hws : Distinct (s.tables.replay ws))
    (hfree : ∀ t id r k, (⟨t, id, some r⟩ : Write S) ∈ ws → k ∈ S.keys t r →
      s.free i (.key k) = true)
    {s' : Store S} (htx : s'.tx j = s.tx j) (ht : s'.tables = s.tables.replay ws) :
    Distinct (s'.view j) := by
  cases hx : s.tx j with
  | none =>
    rw [view_none (htx.trans hx), ht]
    exact hws
  | some x =>
    rw [view_some (htx.trans hx), ht]
    refine hws.merge ?_ ?_
    · have := h.distinctView j
      rwa [view_some hx] at this
    · intro t id id' r r' k hmem hmem' hk hk'
      have howner := h.keyOwned j x t id' r' k hx hmem' hk'
      rcases (free_iff s i _).mp (hfree t id r k hmem hk) with ho | ho
      · simp [ho] at howner
      · rw [ho] at howner
        exact hji (Option.some.inj howner).symm

theorem Coherent.start {s : Store S} (h : s.Coherent) (i : Nat) : (s.start i).Coherent where
  rowOwned j x w hx hw := by
    by_cases hj : j = i
    · subst hj
      rw [start_tx_self] at hx
      obtain rfl := Option.some.inj hx
      simp at hw
    · exact h.rowOwned j x w (by simpa [hj] using hx) hw
  keyOwned j x t id r k hx hw hk := by
    by_cases hj : j = i
    · subst hj
      rw [start_tx_self] at hx
      obtain rfl := Option.some.inj hx
      simp at hw
    · exact h.keyOwned j x t id r k (by simpa [hj] using hx) hw hk
  ownerOpen l j hl := by
    by_cases hj : j = i
    · subst hj
      exact ⟨_, start_tx_self s j⟩
    · simpa [hj] using h.ownerOpen l j hl
  distinct := h.distinct
  distinctView j := by
    by_cases hj : j = i
    · subst hj
      rw [view_some (start_tx_self s j)]
      exact h.distinct
    · rw [view_congr (start_tx_other s hj) rfl]
      exact h.distinctView j

theorem Coherent.close {s : Store S} (h : s.Coherent) (i : Nat) : (s.close i).Coherent where
  rowOwned j x w hx hw := by
    by_cases hj : j = i
    · subst hj
      simp at hx
    · exact (released_other s hj _).mpr (h.rowOwned j x w (by simpa [hj] using hx) hw)
  keyOwned j x t id r k hx hw hk := by
    by_cases hj : j = i
    · subst hj
      simp at hx
    · exact (released_other s hj _).mpr (h.keyOwned j x t id r k (by simpa [hj] using hx) hw hk)
  ownerOpen l j hl := by
    by_cases hj : j = i
    · subst hj
      exact absurd hl (released_self s j l)
    · simpa [hj] using h.ownerOpen l j ((released_other s hj l).mp hl)
  distinct := h.distinct
  distinctView j := by
    by_cases hj : j = i
    · subst hj
      rw [view_none (close_tx_self s j)]
      exact h.distinct
    · rw [view_congr (close_tx_other s hj) rfl]
      exact h.distinctView j

theorem Coherent.abort {s : Store S} (h : s.Coherent) (i : Nat) : (s.abort i).Coherent := by
  cases hx : s.tx i with
  | none => rwa [abort_none hx]
  | some x =>
    constructor
    case rowOwned =>
      intro j y w hy hw
      by_cases hj : j = i
      · subst hj
        rw [abort_tx_self hx] at hy
        obtain rfl := Option.some.inj hy
        simp at hw
      · exact (abort_owner_other s hj _).mpr (h.rowOwned j y w (by simpa [hj] using hy) hw)
    case keyOwned =>
      intro j y t id r k hy hw hk
      by_cases hj : j = i
      · subst hj
        rw [abort_tx_self hx] at hy
        obtain rfl := Option.some.inj hy
        simp at hw
      · exact (abort_owner_other s hj _).mpr
          (h.keyOwned j y t id r k (by simpa [hj] using hy) hw hk)
    case ownerOpen =>
      intro l j hl
      by_cases hj : j = i
      · subst hj
        exact ⟨_, abort_tx_self hx⟩
      · simpa [hj] using h.ownerOpen l j ((abort_owner_other s hj l).mp hl)
    case distinct => simpa using h.distinct
    case distinctView =>
      intro j
      by_cases hj : j = i
      · subst hj
        rw [view_some (abort_tx_self hx)]
        simpa using h.distinct
      · rw [view_congr (abort_tx_other s hj) (abort_tables s i)]
        exact h.distinctView j

theorem Coherent.commit {s : Store S} (h : s.Coherent) {i : Nat} {x : Tx S}
    (hx : s.tx i = some x) : ((s.publish i x.writes).close i).Coherent := by
  have hview : Distinct (s.tables.replay x.writes) := by
    have := h.distinctView i
    rwa [view_some hx] at this
  constructor
  case rowOwned =>
    intro j y w hy hw
    by_cases hj : j = i
    · subst hj
      simp at hy
    · exact (released_other _ hj _).mpr (h.rowOwned j y w (by simpa [hj] using hy) hw)
  case keyOwned =>
    intro j y t id r k hy hw hk
    by_cases hj : j = i
    · subst hj
      simp at hy
    · exact (released_other _ hj _).mpr (h.keyOwned j y t id r k (by simpa [hj] using hy) hw hk)
  case ownerOpen =>
    intro l j hl
    by_cases hj : j = i
    · subst hj
      exact absurd hl (released_self _ j l)
    · simpa [hj] using h.ownerOpen l j ((released_other _ hj l).mp hl)
  case distinct => exact hview
  case distinctView =>
    intro j
    by_cases hj : j = i
    · subst hj
      rw [view_none (close_tx_self _ j)]
      exact hview
    · refine h.merge_view hj hview ?_ (by simp [hj]) rfl
      intro t id r k hmem hk
      exact (free_iff s i _).mpr (.inr (h.keyOwned i x t id r k hx hmem hk))

theorem Coherent.perform {s : Store S} (h : s.Coherent) {i : Nat} {ls : List (Resource S)}
    {ws : List (Write S)} (hl : ∀ l ∈ ls, s.free i l = true)
    (hlocks : ∀ w ∈ ws, ∀ l ∈ w.locks (s.view i), l ∈ ls)
    (hws : Distinct ((s.view i).replay ws)) : (s.perform i ls ws).Coherent := by
  have hrow : ∀ w ∈ ws, .row w.table w.id ∈ ls := fun w hw =>
    hlocks w hw _ (by simp [Write.locks])
  have hkey : ∀ t id r k, (⟨t, id, some r⟩ : Write S) ∈ ws → k ∈ S.keys t r → .key k ∈ ls := by
    intro t id r k hw hk
    refine hlocks _ hw _ ?_
    simp only [Write.locks, List.mem_cons, List.mem_append]
    exact .inr (.inr (List.mem_map.mpr ⟨k, hk, rfl⟩))
  cases hx : s.tx i with
  | some x =>
    have howner : ∀ l, (s.perform i ls ws).owner l = if l ∈ ls then some i else s.owner l := by
      simp [Store.perform, hx]
    constructor
    case rowOwned =>
      intro j y w hy hw
      by_cases hj : j = i
      · subst hj
        rw [perform_tx_some hx] at hy
        obtain rfl := Option.some.inj hy
        rw [howner]
        rcases List.mem_append.mp hw with hw | hw
        · simp [h.rowOwned j x w hx hw]
        · simp [hrow w hw]
      · exact (perform_owner_other hj hl ws _).mpr
          (h.rowOwned j y w (by simpa [hj] using hy) hw)
    case keyOwned =>
      intro j y t id r k hy hw hk
      by_cases hj : j = i
      · subst hj
        rw [perform_tx_some hx] at hy
        obtain rfl := Option.some.inj hy
        rw [howner]
        rcases List.mem_append.mp hw with hw | hw
        · simp [h.keyOwned j x t id r k hx hw hk]
        · simp [hkey t id r k hw hk]
      · exact (perform_owner_other hj hl ws _).mpr
          (h.keyOwned j y t id r k (by simpa [hj] using hy) hw hk)
    case ownerOpen =>
      intro l j hj'
      by_cases hj : j = i
      · subst hj
        exact ⟨_, perform_tx_some hx ls ws⟩
      · simpa [hj] using h.ownerOpen l j ((perform_owner_other hj hl ws l).mp hj')
    case distinct =>
      rw [perform_tables_some hx]
      exact h.distinct
    case distinctView =>
      intro j
      by_cases hj : j = i
      · subst hj
        rw [perform_view]
        exact hws
      · rw [view_congr (perform_tx_other s hj ls ws) (perform_tables_some hx ls ws)]
        exact h.distinctView j
  | none =>
    have howner : (s.perform i ls ws).owner = s.owner := by
      simp only [Store.perform, hx]
      split <;> rfl
    have htx : (s.perform i ls ws).tx = s.tx := by
      simp only [Store.perform, hx]
      split <;> rfl
    have htables := perform_tables_none hx ls ws
    rw [view_none hx] at hws
    constructor
    case rowOwned =>
      intro j y w hy hw
      rw [howner]
      exact h.rowOwned j y w (by rwa [htx] at hy) hw
    case keyOwned =>
      intro j y t id r k hy hw hk
      rw [howner]
      exact h.keyOwned j y t id r k (by rwa [htx] at hy) hw hk
    case ownerOpen =>
      intro l j hl'
      rw [howner] at hl'
      rw [htx]
      exact h.ownerOpen l j hl'
    case distinct =>
      rw [htables]
      exact hws
    case distinctView =>
      intro j
      by_cases hj : j = i
      · subst hj
        rw [view_none (perform_tx_none hx ls ws), htables]
        exact hws
      · refine h.merge_view hj hws ?_ (by rw [htx]) htables
        intro t id r k hmem hk
        exact hl _ (hkey t id r k hmem hk)

theorem Coherent.exec {s s' : Store S} (h : s.Coherent) {i : Nat} {c : Choice S} {o : Op S}
    {r : Except SqlError o.Ans} (he : s.exec i c o = some (r, s')) : s'.Coherent := by
  cases exec_step he with
  | startFault => exact h
  | start => exact h.start i
  | commitNone => exact h
  | commitFault => exact h.close i
  | commitAborted => exact h.close i
  | commit x htx => exact h.commit htx
  | rollbackFault => exact h.close i
  | rollback => exact h.close i
  | fault => exact h.abort i
  | aborted => exact h
  | refused => exact h.abort i
  | done q ls a ws ha hq hl =>
    exact h.perform hl hq.locks (hq.distinct (h.distinctView i))

theorem Coherent.quiet {s : Store S} (htx : ∀ i, s.tx i = none) (howner : ∀ l, s.owner l = none)
    (hd : Distinct s.tables) : s.Coherent where
  rowOwned i x w hx := by simp [htx] at hx
  keyOwned i x t id r k hx := by simp [htx] at hx
  ownerOpen l i hl := by simp [howner] at hl
  distinct := hd
  distinctView i := by rwa [view_none (htx i)]

end Store

end Sql
