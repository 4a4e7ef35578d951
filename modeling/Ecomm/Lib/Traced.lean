import Ecomm.Lib.Growing

/-! Where the rows of a table come from, when no row of it is deleted: new rows
are those that their threads may add, and the others take the place of rows
that are there. -/

namespace Sql

variable {S : Schema}

/-- `new i id r` says that thread `i` may add row `r` under `id`, and `good` what
holds of the rows once the commits of a log are done. -/
structure Origins (S : Schema) (t : S.Table) where
  new : Nat → S.Id → S.Row t → Prop
  good : List (Commit S) → S.Id → S.Row t → Prop
  mono : ∀ {L L' id r}, (∀ e ∈ L, e ∈ L') → good L id r → good L' id r
  added : ∀ {L e id r}, e ∈ L → (⟨t, id, some r⟩ : Write S) ∈ e.writes → new e.thread id r →
    good L id r

namespace Origins

variable {t : S.Table} (O : Origins S t)

/-- The commits of `L` have added row `id`, by thread `i`. -/
def Added (L : List (Commit S)) (i : Nat) (id : S.Id) : Prop :=
  ∃ e ∈ L, e.thread = i ∧ ∃ r, (⟨t, id, some r⟩ : Write S) ∈ e.writes ∧ O.new i id r

/-- The writes of thread `i` to table `t`, on tables `T`. -/
def Fits (L : List (Commit S)) (T : Tables S) (i : Nat) (ws : List (Write S)) : Prop :=
  ∀ w ∈ ws, w.table = t → ∃ r, w = ⟨t, w.id, some r⟩ ∧
    (((T t).lookup w.id = none ∧ O.new i w.id r) ∨
      (((T t).lookup w.id).isSome = true ∧ O.good L w.id r ∧ ¬ O.new i w.id r))

end Origins

structure Store.Traced {t : S.Table} (O : Origins S t) (T₀ : Tables S) (s : Store S) : Prop where
  row : ∀ id r, (s.tables t).lookup id = some r → O.good s.log id r
  pending : ∀ i x, s.tx i = some x → O.Fits s.log s.tables i x.writes
  initial : ∀ id, ((T₀ t).lookup id).isSome = true → ((s.tables t).lookup id).isSome = true
  added : ∀ i id, O.Added s.log i id →
    ((s.tables t).lookup id).isSome = true ∧ (T₀ t).lookup id = none
  once : ∀ i j id, O.Added s.log i id → O.Added s.log j id → i = j

/-- What thread `i` may do to table `t`. -/
def Op.Traces {t : S.Table} (O : Origins S t) (L : List (Commit S)) (T : Tables S) (i : Nat) :
    Op S → Prop
  | .stmt (.insert u id row) => ∀ h : u = t, ∀ c : Choice S,
    O.new i (id.getD c.id) (h ▸ row c.now)
  | .stmt (.update u id set) => ∀ h : u = t, ((T t).lookup id).isSome = true ∧
    ∀ now (r : S.Row u), O.good L id (h ▸ r) →
      O.good L id (h ▸ set now r) ∧ ¬ O.new i id (h ▸ set now r)
  | .stmt (.delete u id) => u ≠ t ∧ ∀ T ws, S.onDelete T u id = some ws → ∀ w ∈ ws, w.1 ≠ t
  | _ => True

section

variable {t : S.Table} {O : Origins S t} {L L' : List (Commit S)} {T T' : Tables S} {i j : Nat}
  {ws vs : List (Write S)} {id : S.Id} {r : S.Row t}

namespace Origins.Fits

theorem nil : O.Fits L T i [] := by
  intro w hw
  cases hw

theorem append (h : O.Fits L T i ws) (h' : O.Fits L T i vs) : O.Fits L T i (ws ++ vs) := by
  intro w hw
  exact (List.mem_append.mp hw).elim (h w) (h' w)

theorem isSome (h : O.Fits L T i ws) (hid : ((T t).lookup id).isSome = true) :
    ((T.replay ws t).lookup id).isSome = true := by
  by_cases hw : ∃ w ∈ ws, w.at t id
  · obtain ⟨row, hmem, hlook⟩ := Tables.lookup_replay_written hw
    obtain ⟨r, hrow, _⟩ := h _ hmem rfl
    have hsame : row = some r := eq_of_heq (by simpa using hrow)
    rw [hlook, hsame]
    rfl
  · rwa [Tables.lookup_replay_other _ (fun w hmem hat => hw ⟨w, hmem, hat⟩)]

/-- A row after the commit of `ws` was there before, or it is one of `ws`. -/
theorem row (h : O.Fits L T i ws) (hT : ∀ id r, (T t).lookup id = some r → O.good L id r)
    (hr : (T.replay ws t).lookup id = some r) : O.good (L ++ [⟨i, ws⟩]) id r := by
  have hmono : O.good L id r → O.good (L ++ [⟨i, ws⟩]) id r :=
    O.mono (fun e he => List.mem_append_left _ he)
  by_cases hw : ∃ w ∈ ws, w.at t id
  · obtain ⟨row, hmem, hlook⟩ := Tables.lookup_replay_written hw
    obtain ⟨r', hrow, hnew⟩ := h _ hmem rfl
    have hsame : row = some r' := eq_of_heq (by simpa using hrow)
    rw [hlook, hsame] at hr
    obtain rfl := Option.some.inj hr
    rcases hnew with ⟨_, hnew⟩ | ⟨_, hgood, _⟩
    · rw [hsame] at hmem
      exact O.added (List.mem_append_right _ (List.mem_singleton_self _)) hmem hnew
    · exact hmono hgood
  · rw [Tables.lookup_replay_other _ (fun w hmem hat => hw ⟨w, hmem, hat⟩)] at hr
    exact hmono (hT id r hr)

/-- The writes of another thread still fit when `ws` are committed, since both
hold the locks of what they write. -/
theorem after (h : O.Fits L T j vs) (hws : O.Fits L T i ws)
    (hapart : ∀ w ∈ ws, ∀ v ∈ vs, w.table = t → v.table = t → w.id ≠ v.id) :
    O.Fits (L ++ [⟨i, ws⟩]) (T.replay ws) j vs := by
  intro v hv ht
  obtain ⟨r, hrow, hcase⟩ := h v hv ht
  refine ⟨r, hrow, ?_⟩
  rcases hcase with ⟨hnone, hnew⟩ | ⟨hsome, hgood, hnot⟩
  · left
    refine ⟨?_, hnew⟩
    rw [Tables.lookup_replay_other, hnone]
    rintro w hw ⟨htw, hid⟩
    exact hapart w hw v hv htw ht hid
  · exact .inr ⟨hws.isSome hsome, O.mono (fun e he => List.mem_append_left _ he) hgood, hnot⟩

end Origins.Fits

/-- What a commit adds is new, so it is added once. -/
theorem Origins.Fits.added (hws : O.Fits L T i ws) (h : O.Added (L ++ [⟨i, ws⟩]) j id) :
    O.Added L j id ∨
      j = i ∧ (T t).lookup id = none ∧ ((T.replay ws t).lookup id).isSome = true := by
  obtain ⟨e, he, rfl, r, hmem, hnew⟩ := h
  rcases List.mem_append.mp he with he | he
  · exact .inl ⟨e, he, rfl, r, hmem, hnew⟩
  · obtain rfl := List.mem_singleton.mp he
    obtain ⟨r', hrow, hcase⟩ := hws _ hmem rfl
    obtain rfl : r = r' := by simpa using hrow
    rcases hcase with ⟨hnone, _⟩ | ⟨_, _, hnot⟩
    · refine .inr ⟨rfl, hnone, ?_⟩
      obtain ⟨row, hrow', hlook⟩ := Tables.lookup_replay_written ⟨_, hmem, rfl, rfl⟩
      obtain ⟨r', hsame, _⟩ := hws _ hrow' rfl
      have hsome : row = some r' := eq_of_heq (by simpa using hsame)
      rw [hlook, hsome]
      rfl
    · exact absurd hnew hnot

end

namespace Store.Traced

variable {t : S.Table} {O : Origins S t} {T₀ : Tables S} {s s' : Store S} {i : Nat} {c : Choice S}

/-- Thread `i` commits `ws`. -/
theorem commit (h : s.Traced O T₀) {ws : List (Write S)} (hws : O.Fits s.log s.tables i ws)
    (ht : s'.tables = s.tables.replay ws) (hl : s'.log = s.log ++ [⟨i, ws⟩])
    (hother : ∀ j, j ≠ i → s'.tx j = s.tx j) (hself : s'.tx i = none)
    (hapart : ∀ j, j ≠ i → ∀ x, s.tx j = some x → ∀ w ∈ ws, ∀ v ∈ x.writes,
      w.table = t → v.table = t → w.id ≠ v.id) : s'.Traced O T₀ where
  row id r hr := by
    rw [ht] at hr
    rw [hl]
    exact hws.row h.row hr
  pending j x hx := by
    by_cases hj : j = i
    · subst hj
      rw [hself] at hx
      cases hx
    · rw [hother j hj] at hx
      rw [hl, ht]
      exact (h.pending j x hx).after hws (hapart j hj x hx)
  initial id hid := by
    rw [ht]
    exact hws.isSome (h.initial id hid)
  added j id hadded := by
    rw [hl] at hadded
    rw [ht]
    rcases hws.added hadded with hold | ⟨rfl, hnone, hsome⟩
    · exact ⟨hws.isSome (h.added j id hold).1, (h.added j id hold).2⟩
    · refine ⟨hsome, ?_⟩
      by_contra hinitial
      have hstored := h.initial id (Option.isSome_iff_ne_none.mpr hinitial)
      rw [hnone] at hstored
      cases hstored
  once j k id hj hk := by
    rw [hl] at hj hk
    have habsent : ∀ m, O.Added s.log m id → (s.tables t).lookup id ≠ none := by
      intro m hm
      exact Option.isSome_iff_ne_none.mp (h.added m id hm).1
    rcases hws.added hj with hj' | ⟨hji, hnone, _⟩
    · rcases hws.added hk with hk' | ⟨_, hnone, _⟩
      · exact h.once j k id hj' hk'
      · exact absurd hnone (habsent j hj')
    · rcases hws.added hk with hk' | ⟨hki, _, _⟩
      · exact absurd hnone (habsent k hk')
      · exact hji.trans hki.symm

/-- Thread `i` commits nothing. -/
theorem keep (h : s.Traced O T₀) (ht : s'.tables = s.tables) (hl : s'.log = s.log)
    (hother : ∀ j, j ≠ i → s'.tx j = s.tx j)
    (hself : ∀ x, s'.tx i = some x → O.Fits s.log s.tables i x.writes) : s'.Traced O T₀ where
  row id r hr := by
    rw [ht] at hr
    rw [hl]
    exact h.row id r hr
  pending j x hx := by
    rw [hl, ht]
    by_cases hj : j = i
    · subst hj
      exact hself x hx
    · rw [hother j hj] at hx
      exact h.pending j x hx
  initial id hid := by
    rw [ht]
    exact h.initial id hid
  added j id hadded := by
    rw [hl] at hadded
    rw [ht]
    exact h.added j id hadded
  once j k id hj hk := by
    rw [hl] at hj hk
    exact h.once j k id hj hk

theorem close (h : s.Traced O T₀) (i : Nat) : (s.close i).Traced O T₀ :=
  h.keep (close_tables s i) (close_log s i) (fun _ hj => close_tx_other s hj) (by simp)

theorem abort (h : s.Traced O T₀) (i : Nat) : (s.abort i).Traced O T₀ := by
  refine h.keep (abort_tables s i) (abort_log s i) (fun _ hj => abort_tx_other s hj) ?_
  intro y hy
  cases hx : s.tx i with
  | none =>
    rw [abort_none hx, hx] at hy
    cases hy
  | some x =>
    rw [abort_tx_self hx] at hy
    obtain rfl := Option.some.inj hy
    exact .nil

/-- What thread `i` sees of a row that is committed. -/
theorem view (h : s.Traced O T₀) {id : S.Id} (hid : ((s.tables t).lookup id).isSome = true)
    {r : S.Row t} (hr : (s.view i t).lookup id = some r) : O.good s.log id r := by
  cases hx : s.tx i with
  | none =>
    rw [view_none hx] at hr
    exact h.row id r hr
  | some x =>
    rw [view_some hx] at hr
    by_cases hw : ∃ w ∈ x.writes, w.at t id
    · obtain ⟨row, hmem, hlook⟩ := Tables.lookup_replay_written hw
      obtain ⟨r', hrow, hcase⟩ := h.pending i x hx _ hmem rfl
      have hsame : row = some r' := eq_of_heq (by simpa using hrow)
      rw [hlook, hsame] at hr
      obtain rfl := Option.some.inj hr
      rcases hcase with ⟨hnone, _⟩ | ⟨_, hgood, _⟩
      · have hnone : (s.tables t).lookup id = none := hnone
        rw [hnone] at hid
        cases hid
      · exact hgood
    · rw [Tables.lookup_replay_other _ (fun w hmem hat => hw ⟨w, hmem, hat⟩)] at hr
      exact h.row id r hr

theorem absent (h : s.Traced O T₀) {id : S.Id} (hnew : (s.view i t).lookup id = none) :
    (s.tables t).lookup id = none := by
  by_contra hne
  have hsome := Option.isSome_iff_ne_none.mpr hne
  cases hx : s.tx i with
  | none =>
    rw [view_none hx] at hnew
    exact hne hnew
  | some x =>
    rw [view_some hx] at hnew
    have hstays := (h.pending i x hx).isSome hsome
    rw [hnew] at hstays
    cases hstays

theorem success (h : s.Traced O T₀) {q : Stmt S} {ls : List (Resource S)} {a : q.Ans}
    {ws : List (Write S)} (hq : q.Success (s.view i) c ls a ws)
    (ho : (Op.stmt q).Traces O s.log s.tables i) : O.Fits s.log s.tables i ws := by
  intro w hw ht
  cases hq with
  | select | lockMissing | lock | updateMissing | deleteMissing => cases hw
  | insert u id row hnew hallow =>
    obtain rfl := List.mem_singleton.mp hw
    obtain rfl : u = t := ht
    exact ⟨_, rfl, .inl ⟨h.absent hnew, ho rfl c⟩⟩
  | update u id set old hold hallow =>
    obtain rfl := List.mem_singleton.mp hw
    obtain rfl : u = t := ht
    obtain ⟨hsome, hset⟩ := ho rfl
    exact ⟨_, rfl, .inr ⟨hsome, hset c.now old (h.view hsome hold)⟩⟩
  | delete u id old ws hold hws =>
    obtain ⟨more, hmore, rfl⟩ := Option.map_eq_some_iff.mp hws
    rcases List.mem_append.mp hw with hw | hw
    · obtain ⟨v, hv, rfl⟩ := List.mem_map.mp hw
      exact absurd ht (ho.2 _ more hmore v hv)
    · obtain rfl := List.mem_singleton.mp hw
      exact absurd ht ho.1

theorem exec (h : s.Traced O T₀) (hs : s.Coherent) {o : Op S} {r : Except SqlError o.Ans}
    (he : s.exec i c o = some (r, s')) (ho : o.Traces O s.log s.tables i) : s'.Traced O T₀ := by
  cases exec_step he with
  | startFault | commitNone | aborted => exact h
  | start =>
    refine h.keep rfl rfl (fun _ hj => start_tx_other s hj) ?_
    intro x hx
    rw [start_tx_self] at hx
    obtain rfl := Option.some.inj hx
    exact .nil
  | commitFault | commitAborted | rollbackFault | rollback => exact h.close i
  | commit x htx ha =>
    refine h.commit (i := i) (h.pending i x htx) rfl rfl
      (fun j hj => by rw [close_tx_other _ hj, publish_tx]) (close_tx_self _ i) ?_
    intro j hj y hy w hw v hv hwt hvt hid
    have hown := hs.rowOwned i x w htx hw
    have hown' := hs.rowOwned j y v hy hv
    rw [hwt, hid] at hown
    rw [hvt, hown] at hown'
    exact hj (Option.some.inj hown').symm
  | fault | refused => exact h.abort i
  | done q ls a ws ha hq hl =>
    have hws := h.success hq ho
    cases hx : s.tx i with
    | some x =>
      refine h.keep (perform_tables_some hx _ _) (by simp [perform, hx])
        (fun _ hj => perform_tx_other s hj _ _) ?_
      intro y hy
      rw [perform_tx_some hx] at hy
      obtain rfl := Option.some.inj hy
      exact (h.pending i x hx).append hws
    | none =>
      by_cases hempty : ws = []
      · subst hempty
        rwa [perform_none_nil hx]
      · have hlog : (s.perform i ls ws).log = s.log ++ [⟨i, ws⟩] := by
          have hisEmpty : ws.isEmpty = false := by simpa using hempty
          simp [perform, hx, hisEmpty]
        refine h.commit (i := i) hws (perform_tables_none hx _ _) hlog
          (fun _ hj => perform_tx_other s hj _ _) (perform_tx_none hx _ _) ?_
        intro j hj y hy w hw v hv hwt hvt hid
        have hown := hs.rowOwned j y v hy hv
        rw [hvt, ← hid, ← hwt] at hown
        have hfree := hl _ (hq.locks w hw (.row w.table w.id) (by simp [Write.locks]))
        rcases (free_iff s i _).mp hfree with hnone | hself
        · rw [hnone] at hown
          cases hown
        · rw [hself] at hown
          exact hj (Option.some.inj hown).symm

end Store.Traced

end Sql
