import Mathlib.Data.List.AList
import Mathlib.Data.List.Induction

/-! Tables of rows under primary keys, and replaying a list of row writes on
them. A schema lists what the server checks when a row is written. -/

namespace Sql

theorem length_filter_le_one {α : Type} {l : List α} {p : α → Bool}
    (h : l.Pairwise (fun a b => p a = true → p b = false)) : (l.filter p).length ≤ 1 := by
  induction l with
  | nil => simp
  | cons a l ih =>
    obtain ⟨hhead, htail⟩ := List.pairwise_cons.mp h
    cases ha : p a with
    | false => simpa [ha] using ih htail
    | true =>
      have hnone : l.filter p = [] :=
        List.filter_eq_nil_iff.mpr (fun b hb hpb => by simp [hhead b hb ha] at hpb)
      simp [ha, hnone]

theorem length_filter_le_one_of_nodup {α β : Type} {l : List α} {f : α → β} {p : α → Bool}
    (hn : (l.map f).Nodup) (h : ∀ a ∈ l, ∀ b ∈ l, p a = true → p b = true → f a = f b) :
    (l.filter p).length ≤ 1 := by
  refine length_filter_le_one (List.Pairwise.imp_of_mem ?_ (List.pairwise_map.mp hn))
  intro a b ha hb hne hpa
  by_contra hpb
  exact hne (h a ha b hb hpa (by simpa using hpb))

theorem head_filter_id {I : Type} [DecidableEq I] {β : I → Type} (t : AList β) (id : I) :
    (t.entries.filter (fun e => e.1 = id)).head? = (t.lookup id).map (fun r => ⟨id, r⟩) := by
  rw [List.head?_filter]
  cases h : t.lookup id with
  | none =>
    refine List.find?_eq_none.mpr ?_
    rintro e he hid
    obtain rfl : e.1 = id := by simpa using hid
    have := AList.mem_lookup_iff.mpr (show (⟨e.1, e.2⟩ : Sigma β) ∈ t.entries from he)
    rw [h] at this
    cases this
  | some r =>
    have hr := AList.mem_lookup_iff.mp h
    cases hf : t.entries.find? (fun e => e.1 = id) with
    | none => simpa using List.find?_eq_none.mp hf _ hr
    | some e =>
      obtain ⟨j, r'⟩ := e
      have hj : j = id := by simpa using List.find?_some hf
      subst hj
      have hr' := AList.mem_lookup_iff.mpr (List.mem_of_find?_eq_some hf)
      rw [h] at hr'
      cases hr'
      rfl

/-- The rows that `where: { id }` selects, as the server answers them. -/
theorem head_rows_id {I ρ : Type} [DecidableEq I] (t : AList (fun _ : I => ρ)) (id : I) :
    ((t.entries.filter (fun e => e.1 = id)).map (fun e => (e.1, e.2))).head? =
      (t.lookup id).map (fun r => (id, r)) := by
  rw [List.head?_map, head_filter_id]
  cases t.lookup id <;> rfl

/-- What a statement can fail with. `failed` is any error that is not about the
rows: a deadlock victim, a timeout, a connection lost before the server acts. A
statement or a commit that takes effect is answered. -/
inductive SqlError where
  | uniqueViolation
  | foreignKeyViolation
  | notNullViolation
  | invalidText
  | tooLong
  | outOfRange
  | inFailedTransaction
  | failed
  deriving DecidableEq, Repr

def SqlError.code : SqlError → Option String
  | uniqueViolation => some "23505"
  | foreignKeyViolation => some "23503"
  | notNullViolation => some "23502"
  | invalidText => some "22P02"
  | tooLong => some "22001"
  | outOfRange => some "22003"
  | inFailedTransaction => some "25P02"
  | failed => none

structure Schema where
  Table : Type
  Row : Table → Type
  Id : Type
  Key : Type
  decTable : DecidableEq Table
  decId : DecidableEq Id
  decKey : DecidableEq Key
  /-- Entries of a row in the unique indexes besides the primary key. -/
  keys : (t : Table) → Row t → List Key
  /-- The type of a column refuses the row. -/
  check : (t : Table) → Row t → Option SqlError
  /-- Foreign keys of a row. -/
  refs : (t : Table) → Row t → List (Table × Id)
  /-- Writes that deleting a row entails, or `none` when it is restricted. -/
  onDelete : ((t : Table) → AList (fun _ : Id => Row t)) → (t : Table) → Id →
    Option (List (Σ t : Table, Id × Option (Row t)))
  /-- A referential action never gives a row a new unique key. -/
  onDelete_keys : ∀ T t id ws, onDelete T t id = some ws → ∀ w ∈ ws, ∀ r, w.2.2 = some r →
    ∃ old, (T w.1).lookup w.2.1 = some old ∧ keys w.1 r ⊆ keys w.1 old

attribute [instance] Schema.decTable Schema.decId Schema.decKey

abbrev Tables (S : Schema) := (t : S.Table) → AList (fun _ : S.Id => S.Row t)

/-- A row written to a table, or with `none` deleted from it. -/
structure Write (S : Schema) where
  table : S.Table
  id : S.Id
  row : Option (S.Row table)

variable {S : Schema}

def Write.at (w : Write S) (t : S.Table) (id : S.Id) : Prop := w.table = t ∧ w.id = id

instance (w : Write S) (t : S.Table) (id : S.Id) : Decidable (w.at t id) :=
  inferInstanceAs (Decidable (w.table = t ∧ w.id = id))

namespace Tables

def write (T : Tables S) (w : Write S) : Tables S :=
  Function.update T w.table
    (match w.row with
    | some r => (T w.table).insert w.id r
    | none => (T w.table).erase w.id)

def replay (T : Tables S) (ws : List (Write S)) : Tables S := ws.foldl write T

theorem lookup_write_self (T : Tables S) (t : S.Table) (id : S.Id) (r : Option (S.Row t)) :
    (T.write ⟨t, id, r⟩ t).lookup id = r := by
  cases r with
  | none => simp [write]
  | some r => simp [write]

theorem lookup_write_other (T : Tables S) {w : Write S} {t : S.Table} {id : S.Id}
    (h : ¬ w.at t id) : (T.write w t).lookup id = (T t).lookup id := by
  obtain ⟨u, j, r⟩ := w
  by_cases ht : t = u
  · subst ht
    have hid : id ≠ j := fun he => h ⟨rfl, he.symm⟩
    cases r with
    | none => simp [write, AList.lookup_erase_ne hid]
    | some r => simp [write, AList.lookup_insert_ne hid]
  · simp [write, Function.update_of_ne ht]

theorem write_other_table (T : Tables S) {w : Write S} {t : S.Table} (h : w.table ≠ t) :
    T.write w t = T t := by
  simp [write, Function.update_of_ne (Ne.symm h)]

@[simp] theorem replay_nil (T : Tables S) : T.replay [] = T := rfl

@[simp] theorem replay_append (T : Tables S) (ws vs : List (Write S)) :
    T.replay (ws ++ vs) = (T.replay ws).replay vs := by
  simp [replay]

theorem replay_cons (T : Tables S) (w : Write S) (ws : List (Write S)) :
    T.replay (w :: ws) = (T.write w).replay ws := rfl

theorem replay_single (T : Tables S) (w : Write S) : T.replay [w] = T.write w := rfl

theorem replay_other_table (T : Tables S) {ws : List (Write S)} {t : S.Table}
    (h : ∀ w ∈ ws, w.table ≠ t) : T.replay ws t = T t := by
  induction ws generalizing T with
  | nil => rfl
  | cons w ws ih =>
    rw [replay_cons, ih (T.write w) (fun v hv => h v (List.mem_cons_of_mem _ hv)),
      write_other_table T (h w List.mem_cons_self)]

theorem lookup_replay_other (T : Tables S) {ws : List (Write S)} {t : S.Table} {id : S.Id}
    (h : ∀ w ∈ ws, ¬ w.at t id) : (T.replay ws t).lookup id = (T t).lookup id := by
  induction ws generalizing T with
  | nil => rfl
  | cons w ws ih =>
    rw [replay_cons, ih (T.write w) (fun v hv => h v (List.mem_cons_of_mem _ hv)),
      lookup_write_other T (h w List.mem_cons_self)]

/-- A written row has the value of one of the writes about it, the same one
whatever the tables were before. -/
theorem lookup_replay_written {ws : List (Write S)} {t : S.Table} {id : S.Id}
    (h : ∃ w ∈ ws, w.at t id) :
    ∃ r : Option (S.Row t), (⟨t, id, r⟩ : Write S) ∈ ws ∧
      ∀ T : Tables S, (T.replay ws t).lookup id = r := by
  induction ws using List.reverseRecOn with
  | nil => simp at h
  | append_singleton ws w ih =>
    by_cases hw : w.at t id
    · obtain ⟨u, j, r⟩ := w
      obtain ⟨rfl, rfl⟩ := hw
      refine ⟨r, by simp, ?_⟩
      intro T
      rw [replay_append, replay_single, lookup_write_self]
    · have hws : ∃ v ∈ ws, v.at t id := by
        obtain ⟨v, hv, hat⟩ := h
        rcases List.mem_append.mp hv with hv | hv
        · exact ⟨v, hv, hat⟩
        · exact absurd (List.mem_singleton.mp hv ▸ hat) hw
      obtain ⟨r, hr, hlook⟩ := ih hws
      refine ⟨r, List.mem_append_left _ hr, ?_⟩
      intro T
      rw [replay_append, replay_single, lookup_write_other _ hw, hlook]

end Tables

end Sql
