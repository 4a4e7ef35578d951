import Ecomm.Lib.Growing

/-! A column that keeps its value from the first write of a row on, through
updates, and when the row is deleted and inserted again. -/

namespace Sql

variable {S : Schema} {V : Type}

/-- `own` gives the value of column `f` for every row of table `t` that is
committed, or written in a transaction, or was ever committed. -/
structure Store.Constant (t : S.Table) (f : S.Row t → V) (own : S.Id → Option V)
    (s : Store S) : Prop where
  row : ∀ id r, (s.tables t).lookup id = some r → own id = some (f r)
  pending : ∀ i x, s.tx i = some x → ∀ id r, (⟨t, id, some r⟩ : Write S) ∈ x.writes →
    own id = some (f r)
  log : ∀ c ∈ s.log, ∀ id r, (⟨t, id, some r⟩ : Write S) ∈ c.writes → own id = some (f r)

/-- What an operation has to keep to, where `own'` is `own` with new rows. -/
def Op.Constant (t : S.Table) (f : S.Row t → V) (own own' : S.Id → Option V) (c : Choice S) :
    Op S → Prop
  | .stmt (.insert u id row) => ∀ h : u = t, own' (id.getD c.id) = some (f (h ▸ row c.now))
  | .stmt (.update u id set) => ∀ h : u = t, ∀ r : S.Row u,
    own id = some (f (h ▸ r)) → own' id = some (f (h ▸ set c.now r))
  | _ => True

namespace Store

/-- What a row of `T` was once, or has been by a commit since. -/
def Ever (T : Tables S) (s : Store S) (t : S.Table) (id : S.Id) (r : S.Row t) : Prop :=
  (T t).lookup id = some r ∨ ∃ c ∈ s.log, (⟨t, id, some r⟩ : Write S) ∈ c.writes

/-- The committed rows are those of `T` and of the commits since. -/
def Recorded (T : Tables S) (s : Store S) : Prop :=
  ∀ t id r, (s.tables t).lookup id = some r → s.Ever T t id r

variable {t : S.Table} {f : S.Row t → V} {own own' : S.Id → Option V} {s s' : Store S} {i : Nat}
  {c : Choice S}

theorem exec_commits {o : Op S} {r : Except SqlError o.Ans} (he : s.exec i c o = some (r, s')) :
    (s'.tables = s.tables ∧ s'.log = s.log) ∨
      ∃ ws, s'.tables = s.tables.replay ws ∧ s'.log = s.log ++ [⟨i, ws⟩] := by
  cases exec_step he with
  | startFault | start | commitNone | aborted => exact .inl ⟨rfl, rfl⟩
  | commitFault | commitAborted | rollbackFault | rollback => exact .inl ⟨rfl, rfl⟩
  | commit x htx ha => exact .inr ⟨x.writes, rfl, rfl⟩
  | fault | refused => exact .inl ⟨abort_tables s i, abort_log s i⟩
  | done q ls a ws ha hq hl =>
    cases hx : s.tx i with
    | some x => exact .inl ⟨perform_tables_some hx _ _, by simp [perform, hx]⟩
    | none =>
      by_cases hws : ws = []
      · subst hws
        rw [perform_none_nil hx]
        exact .inl ⟨rfl, rfl⟩
      · have hempty : ws.isEmpty = false := by simpa using hws
        exact .inr ⟨ws, by simp [perform, hx, hempty], by simp [perform, hx, hempty]⟩

theorem exec_tx_none {o : Op S} {r : Except SqlError o.Ans} (he : s.exec i c o = some (r, s'))
    (hx : s.tx i = none) (ho : o ≠ .startTransaction) : s'.tx i = none := by
  cases exec_step he with
  | startFault | commitNone | aborted => exact hx
  | start => exact absurd rfl ho
  | commitFault | commitAborted | rollbackFault | rollback | commit => exact close_tx_self _ i
  | fault | refused => rwa [abort_none hx]
  | done => exact perform_tx_none hx _ _

theorem Ever.mono {T : Tables S} {id : S.Id} {r : S.Row t} (h : s.Ever T t id r)
    (hlog : ∀ c ∈ s.log, c ∈ s'.log) : s'.Ever T t id r := by
  rcases h with h | ⟨c, hc, hw⟩
  · exact .inl h
  · exact .inr ⟨c, hlog c hc, hw⟩

theorem exec_log_subset {o : Op S} {r : Except SqlError o.Ans} (he : s.exec i c o = some (r, s')) :
    ∀ c ∈ s.log, c ∈ s'.log := by
  intro c hc
  rcases exec_commits he with ⟨_, hl⟩ | ⟨ws, _, hl⟩
  · rwa [hl]
  · rw [hl]
    exact List.mem_append_left _ hc

theorem Recorded.exec {T : Tables S} (h : s.Recorded T) {o : Op S} {r : Except SqlError o.Ans}
    (he : s.exec i c o = some (r, s')) : s'.Recorded T := by
  intro t id row hr
  have hlog := exec_log_subset he
  rcases exec_commits he with ⟨ht, _⟩ | ⟨ws, ht, hl⟩
  · rw [ht] at hr
    exact (h t id row hr).mono hlog
  · rw [ht] at hr
    by_cases hw : ∃ w ∈ ws, w.at t id
    · obtain ⟨row', hmem, hlook⟩ := Tables.lookup_replay_written hw
      rw [hlook] at hr
      subst hr
      exact .inr ⟨⟨i, ws⟩, by rw [hl]; simp, hmem⟩
    · rw [Tables.lookup_replay_other _ (fun w hmem hat => hw ⟨w, hmem, hat⟩)] at hr
      exact (h t id row hr).mono hlog

theorem Constant.ever (h : s.Constant t f own) {T : Tables S}
    (hT : ∀ id r, (T t).lookup id = some r → own id = some (f r)) {id : S.Id} {r : S.Row t}
    (hr : s.Ever T t id r) : own id = some (f r) := by
  rcases hr with hr | ⟨c, hc, hw⟩
  · exact hT id r hr
  · exact h.log c hc id r hw

theorem Constant.mono (h : s.Constant t f own) (hown : ∀ id v, own id = some v → own' id = some v) :
    s.Constant t f own' where
  row id r hr := hown _ _ (h.row id r hr)
  pending i x hx id r hw := hown _ _ (h.pending i x hx id r hw)
  log c hc id r hw := hown _ _ (h.log c hc id r hw)

theorem constant_replay {T : Tables S} {ws : List (Write S)}
    (hT : ∀ id r, (T t).lookup id = some r → own id = some (f r))
    (hws : ∀ id r, (⟨t, id, some r⟩ : Write S) ∈ ws → own id = some (f r)) {id : S.Id} {r : S.Row t}
    (hr : (T.replay ws t).lookup id = some r) : own id = some (f r) := by
  by_cases hw : ∃ w ∈ ws, w.at t id
  · obtain ⟨r', hmem, hlook⟩ := Tables.lookup_replay_written hw
    rw [hlook] at hr
    subst hr
    exact hws id r hmem
  · rw [Tables.lookup_replay_other _ (fun w hmem hat => hw ⟨w, hmem, hat⟩)] at hr
    exact hT id r hr

theorem Constant.view (h : s.Constant t f own) {id : S.Id} {r : S.Row t}
    (hr : (s.view i t).lookup id = some r) : own id = some (f r) := by
  cases hx : s.tx i with
  | none =>
    rw [view_none hx] at hr
    exact h.row id r hr
  | some x =>
    rw [view_some hx] at hr
    exact constant_replay h.row (h.pending i x hx) hr

theorem Constant.select (h : s.Constant t f own) {cond : S.Id → S.Row t → Bool}
    {rows : List (S.Id × S.Row t)} (he : s.exec i c (.stmt (.select t cond)) = some (.ok rows, s')) :
    ∀ e ∈ rows, own e.1 = some (f e.2) := by
  intro e hmem
  exact h.view ((exec_select he e).mp hmem).1

theorem Constant.replace (h : s.Constant t f own) (ht : s'.tables = s.tables) (hl : s'.log = s.log)
    (hother : ∀ j, j ≠ i → s'.tx j = s.tx j)
    (hself : ∀ x, s'.tx i = some x → ∀ id r, (⟨t, id, some r⟩ : Write S) ∈ x.writes →
      own id = some (f r)) : s'.Constant t f own where
  row id r hr := h.row id r (by rwa [ht] at hr)
  pending j x hx := by
    by_cases hj : j = i
    · subst hj
      exact hself x hx
    · exact h.pending j x (hother j hj ▸ hx)
  log c hc := h.log c (by rwa [hl] at hc)

theorem Constant.close (h : s.Constant t f own) (i : Nat) : (s.close i).Constant t f own :=
  h.replace (close_tables s i) (close_log s i) (fun _ hj => close_tx_other s hj) (by simp)

theorem Constant.abort (h : s.Constant t f own) (i : Nat) : (s.abort i).Constant t f own := by
  refine h.replace (abort_tables s i) (abort_log s i) (fun _ hj => abort_tx_other s hj) ?_
  intro y hy id r hr
  cases hx : s.tx i with
  | none =>
    rw [abort_none hx] at hy
    rw [hx] at hy
    cases hy
  | some x =>
    rw [abort_tx_self hx] at hy
    obtain rfl := Option.some.inj hy
    simp at hr

theorem Constant.publish (h : s.Constant t f own) {ws : List (Write S)}
    (hws : ∀ id r, (⟨t, id, some r⟩ : Write S) ∈ ws → own id = some (f r)) :
    (s.publish i ws).Constant t f own where
  row id r hr := by
    rw [publish_tables] at hr
    exact constant_replay h.row hws hr
  pending j x hx := h.pending j x (by rwa [publish_tx] at hx)
  log c hc := by
    rw [publish_log] at hc
    rcases List.mem_append.mp hc with hc | hc
    · exact h.log c hc
    · obtain rfl := List.mem_singleton.mp hc
      exact hws

theorem Constant.writes (h : s.Constant t f own)
    (hdelete : ∀ T u id ws, S.onDelete T u id = some ws → ∀ w ∈ ws, w.2.2 = none)
    {q : Stmt S} {ls : List (Resource S)} {a : q.Ans} {ws : List (Write S)}
    (hq : q.Success (s.view i) c ls a ws) (ho : (Op.stmt q).Constant t f own own' c) :
    ∀ id r, (⟨t, id, some r⟩ : Write S) ∈ ws → own' id = some (f r) := by
  intro id r hw
  cases hq with
  | select | lockMissing | lock | updateMissing | deleteMissing => cases hw
  | insert u j row hnew hallow =>
    obtain ⟨rfl, rfl, hr⟩ : t = u ∧ id = j.getD c.id ∧ HEq (some r) (some (row c.now)) := by
      simpa using hw
    obtain rfl := Option.some.inj (eq_of_heq hr)
    exact ho rfl
  | update u j set old hold hallow =>
    obtain ⟨rfl, rfl, hr⟩ : t = u ∧ id = j ∧ HEq (some r) (some (set c.now old)) := by
      simpa using hw
    obtain rfl := Option.some.inj (eq_of_heq hr)
    exact ho rfl old (h.view hold)
  | delete u j old ws hold hws =>
    obtain ⟨more, hmore, rfl⟩ := Option.map_eq_some_iff.mp hws
    rcases List.mem_append.mp hw with hw | hw
    · obtain ⟨w, hmem, he⟩ := List.mem_map.mp hw
      have hnone := hdelete _ _ _ _ hmore w hmem
      obtain ⟨u', j', row⟩ := w
      obtain ⟨rfl, rfl, hr⟩ : u' = t ∧ j' = id ∧ HEq row (some r) := by simpa using he
      rw [eq_of_heq hr] at hnone
      cases hnone
    · obtain ⟨rfl, rfl, hr⟩ : t = u ∧ id = j ∧ HEq (some r) none := by simpa using hw
      cases eq_of_heq hr

theorem Constant.exec (h : s.Constant t f own) (hown : ∀ id v, own id = some v → own' id = some v)
    (hdelete : ∀ T u id ws, S.onDelete T u id = some ws → ∀ w ∈ ws, w.2.2 = none)
    {o : Op S} {r : Except SqlError o.Ans} (he : s.exec i c o = some (r, s'))
    (ho : o.Constant t f own own' c) : s'.Constant t f own' := by
  have h' := h.mono hown
  cases exec_step he with
  | startFault | commitNone | aborted => exact h'
  | start =>
    refine h'.replace rfl rfl (fun _ hj => start_tx_other s hj) ?_
    intro x hx id r hw
    rw [start_tx_self] at hx
    obtain rfl := Option.some.inj hx
    cases hw
  | commitFault | commitAborted | rollbackFault | rollback => exact h'.close i
  | commit x htx ha => exact (h'.publish (h'.pending i x htx)).close i
  | fault | refused => exact h'.abort i
  | done q ls a ws ha hq hl =>
    have hws := h.writes hdelete hq ho
    cases hx : s.tx i with
    | none =>
      unfold perform
      rw [hx]
      dsimp only
      split
      · exact h'
      · exact h'.publish hws
    | some x =>
      refine h'.replace (perform_tables_some hx _ _) ?_ (fun _ hj => perform_tx_other s hj _ _) ?_
      · simp [perform, hx]
      · intro y hy id r hr
        rw [perform_tx_some hx] at hy
        obtain rfl := Option.some.inj hy
        rcases List.mem_append.mp hr with hr | hr
        · exact h'.pending i x hx id r hr
        · exact hws id r hr

end Store

end Sql
