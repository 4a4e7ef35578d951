import Ecomm.Lib.Growing
import Ecomm.Lib.ForeignKeys

/-! Constraints that hold of every row at any time, as long as nothing is
deleted: a row that is stored could be written again. -/

namespace Sql

variable {S : Schema} {T T' : Tables S}

structure Lawful (T : Tables S) : Prop where
  checks : ∀ t id r, (T t).lookup id = some r → S.check t r = none
  refs : Closed T

theorem refsExist_within (h : T.Within T') {t : S.Table} {r : S.Row t}
    (hr : refsExist T t r = true) : refsExist T' t r = true :=
  refsExist_iff.mpr (fun f hf => h f.1 f.2 (refsExist_iff.mp hr f hf))

theorem Tables.Within.replay (h : T.Within T') {ws : List (Write S)}
    (hws : ∀ w ∈ ws, w.row.isSome = true) : (T.replay ws).Within (T'.replay ws) := by
  intro t id hid
  by_cases hw : ∃ w ∈ ws, w.at t id
  · obtain ⟨r, hmem, hlook⟩ := Tables.lookup_replay_written hw
    rw [hlook T']
    exact hws _ hmem
  · have hother : ∀ w ∈ ws, ¬ w.at t id := fun w hmem hat => hw ⟨w, hmem, hat⟩
    rw [Tables.lookup_replay_other T hother] at hid
    rw [Tables.lookup_replay_other T' hother]
    exact h t id hid

/-- What the writes of a transaction keep over tables that have grown meanwhile. -/
def Merges (I : Tables S → Prop) : Prop :=
  ∀ {T T' : Tables S} {ws : List (Write S)}, I T' → T.Within T' →
    (∀ w ∈ ws, w.row.isSome = true) → I (T.replay ws) → I (T'.replay ws)

theorem Closed.merge (h : Closed T') (hT : T.Within T') {ws : List (Write S)}
    (hws : ∀ w ∈ ws, w.row.isSome = true) (hview : Closed (T.replay ws)) :
    Closed (T'.replay ws) := by
  intro t id r hr
  by_cases hw : ∃ w ∈ ws, w.at t id
  · obtain ⟨row, _, hlook⟩ := Tables.lookup_replay_written hw
    have hsame : (T.replay ws t).lookup id = some r := (hlook T).trans ((hlook T').symm.trans hr)
    exact refsExist_within (hT.replay hws) (hview t id r hsame)
  · rw [Tables.lookup_replay_other T' (fun w hmem hat => hw ⟨w, hmem, hat⟩)] at hr
    exact refsExist_within (fun _ _ hold => Tables.isSome_replay hws hold) (h t id r hr)

namespace Lawful

theorem put (h : Lawful T) {t : S.Table} {id : S.Id} {r : S.Row t} (hcheck : S.check t r = none)
    (hr : refsExist T t r = true) : Lawful (T.write ⟨t, id, some r⟩) where
  checks u j q hq := by
    by_cases hat : (⟨t, id, some r⟩ : Write S).at u j
    · obtain ⟨rfl, rfl⟩ := hat
      rw [Tables.lookup_write_self] at hq
      obtain rfl := Option.some.inj hq
      exact hcheck
    · rw [Tables.lookup_write_other T hat] at hq
      exact h.checks u j q hq
  refs := h.refs.put hr

theorem success (h : Lawful T) {c : Choice S} {q : Stmt S} {ls : List (Resource S)} {a : q.Ans}
    {ws : List (Write S)} (hq : q.Success T c ls a ws) (hdelete : ∀ t id, q ≠ .delete t id) :
    Lawful (T.replay ws) := by
  cases hq with
  | insert t id row hnew hallow =>
    obtain ⟨hcheck, _, hrefs⟩ := allow_ok hallow
    exact h.put hcheck hrefs
  | update t id set old hold hallow =>
    obtain ⟨hcheck, _, hrefs⟩ := allow_ok hallow
    exact h.put hcheck hrefs
  | delete t id => exact absurd rfl (hdelete t id)
  | select | lockMissing | lock | updateMissing | deleteMissing => exact h

theorem checks_merge (h : Lawful T') {ws : List (Write S)} (hview : Lawful (T.replay ws)) :
    ∀ t id r, (T'.replay ws t).lookup id = some r → S.check t r = none := by
  intro t id r hr
  by_cases hw : ∃ w ∈ ws, w.at t id
  · obtain ⟨row, _, hlook⟩ := Tables.lookup_replay_written hw
    exact hview.checks t id r ((hlook T).trans ((hlook T').symm.trans hr))
  · rw [Tables.lookup_replay_other T' (fun w hmem hat => hw ⟨w, hmem, hat⟩)] at hr
    exact h.checks t id r hr

theorem merges : Merges (Lawful (S := S)) :=
  fun h hT hws hview => ⟨h.checks_merge hview, h.refs.merge hT hws hview.refs⟩

theorem allow (h : Lawful T) (hkeys : Distinct T) {t : S.Table} {id : S.Id} {r : S.Row t}
    (hr : (T t).lookup id = some r) : Sql.allow T t id r = .ok () := by
  refine allow_intro (h.checks t id r hr) ?_ (h.refs t id r hr)
  have htaken : ¬ keyTaken T t id r = true := by
    intro htaken
    obtain ⟨e, he, hboth⟩ := List.any_eq_true.mp htaken
    obtain ⟨hne, hany⟩ := Bool.and_eq_true_iff.mp hboth
    obtain ⟨k, hk, hkr⟩ := List.any_eq_true.mp hany
    have hlook : (T t).lookup e.1 = some e.2 := AList.mem_lookup_iff.mpr he
    exact of_decide_eq_true hne (hkeys t e.1 id e.2 r k hlook hr hk (of_decide_eq_true hkr))
  exact Bool.eq_false_iff.mpr htaken

end Lawful

namespace Store

variable {s s' : Store S} {i j : Nat} {c : Choice S}

/-- `I` holds of the committed rows, and of the rows that each thread sees. -/
structure Orderly (I : Tables S → Prop) (s : Store S) : Prop where
  growing : s.Growing
  committed : I s.tables
  view : ∀ i, I (s.view i)

variable {I : Tables S → Prop}

theorem Orderly.quiet (h : I s.tables) (htx : ∀ i, s.tx i = none) : s.Orderly I where
  growing i x hx := by
    rw [htx i] at hx
    cases hx
  committed := h
  view i := by rwa [view_none (htx i)]

/-- What thread `i` does, as the others see it. -/
theorem Orderly.replace (h : s.Orderly I) (hI : Merges I) (hgrowing : s'.Growing)
    (hwithin : s.tables.Within s'.tables) (hkeeps : s'.Keeps I i)
    (hother : ∀ j, j ≠ i → s'.tx j = s.tx j) : s'.Orderly I := by
  refine ⟨hgrowing, hkeeps.committed, ?_⟩
  intro j
  by_cases hj : j = i
  · subst hj
    exact hkeeps.view
  · have hview := h.view j
    cases hx : s.tx j with
    | none =>
      rw [view_none ((hother j hj).trans hx)]
      exact hkeeps.committed
    | some x =>
      rw [view_some hx] at hview
      rw [view_some ((hother j hj).trans hx)]
      exact hI hkeeps.committed hwithin (h.growing j x hx) hview

theorem Orderly.close (h : s.Orderly I) (hI : Merges I) (i : Nat) : (s.close i).Orderly I := by
  have hkeeps : s.Keeps I i := ⟨h.committed, h.view i⟩
  refine h.replace hI (i := i) (h.growing.close i) (fun _ _ hr => hr) hkeeps.close ?_
  exact fun j hj => close_tx_other s hj

theorem Orderly.exec (h : s.Orderly I) (hI : Merges I) {o : Op S} {r : Except SqlError o.Ans}
    (he : s.exec i c o = some (r, s')) (ho : ∀ t id, o ≠ .stmt (.delete t id))
    (hq : ∀ q ls a ws, o = .stmt q → q.Success (s.view i) c ls a ws → I ((s.view i).replay ws)) :
    s'.Orderly I := by
  obtain ⟨hgrowing, hwithin⟩ := h.growing.exec he ho
  have hkeeps : s.Keeps I i := ⟨h.committed, h.view i⟩
  exact h.replace hI hgrowing hwithin (hkeeps.exec he hq) (fun j hj => exec_tx_other he hj)

theorem Orderly.lawful (h : s.Orderly Lawful) {o : Op S} {r : Except SqlError o.Ans}
    (he : s.exec i c o = some (r, s')) (ho : ∀ t id, o ≠ .stmt (.delete t id)) :
    s'.Orderly Lawful := by
  refine h.exec Lawful.merges he ho ?_
  rintro q ls a ws rfl hq
  exact (h.view i).success hq (fun t id heq => ho t id (congrArg Op.stmt heq))

/-- What thread `j` sees grows while the others step. -/
theorem Growing.view_other (h : s.Growing) (hwithin : s.tables.Within s'.tables)
    (htx : s'.tx j = s.tx j) : (s.view j).Within (s'.view j) := by
  cases hx : s.tx j with
  | none =>
    rw [view_none hx, view_none (htx.trans hx)]
    exact hwithin
  | some x =>
    rw [view_some hx, view_some (htx.trans hx)]
    exact hwithin.replay (h j x hx)

end Store

end Sql
