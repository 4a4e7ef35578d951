import Ecomm.Lib.Frame

/-! What a thread knows about the store while others run: its own transaction,
and for each row that it has locked the committed row and the row it sees. -/

namespace Sql

variable {S : Schema}

abbrev RowMap (S : Schema) := (t : S.Table) → S.Id → Option (Option (S.Row t))

namespace RowMap

def set (m : RowMap S) (t : S.Table) (id : S.Id) (b : Option (S.Row t)) : RowMap S :=
  Function.update m t (Function.update (m t) id (some b))

theorem set_self (m : RowMap S) (t : S.Table) (id : S.Id) (b : Option (S.Row t)) :
    m.set t id b t id = some b := by
  simp [set]

theorem set_other (m : RowMap S) {t u : S.Table} {id j : S.Id} (b : Option (S.Row t))
    (h : ¬ (u = t ∧ j = id)) : m.set t id b u j = m u j := by
  by_cases hu : u = t
  · subst hu
    have hj : j ≠ id := fun he => h ⟨rfl, he⟩
    simp [set, hj]
  · simp [set, hu]

end RowMap

structure Session (S : Schema) where
  tx : Option (Tx S)
  base : RowMap S
  seen : RowMap S

namespace Session

def closed : Session S := ⟨none, fun _ _ => none, fun _ _ => none⟩

def opened : Session S := ⟨some ⟨[], false⟩, fun _ _ => none, fun _ _ => none⟩

def failed (g : Session S) : Session S :=
  ⟨g.tx.map (fun _ => ⟨[], true⟩), fun _ _ => none, fun _ _ => none⟩

/-- The row is locked: `old` is what is committed unless that is known already. -/
def track (g : Session S) (t : S.Table) (id : S.Id) (old new : Option (S.Row t)) : Session S :=
  { g with
    base := g.base.set t id ((g.base t id).getD old)
    seen := g.seen.set t id new }

def lock (g : Session S) (t : S.Table) (id : S.Id) (r : S.Row t) : Session S :=
  if g.tx.isNone then g else g.track t id (some r) (some r)

def put (g : Session S) (t : S.Table) (id : S.Id) (old : Option (S.Row t)) (r : S.Row t) :
    Session S :=
  match g.tx with
  | none => g
  | some x =>
    { g.track t id old (some r) with tx := some { x with writes := x.writes ++ [⟨t, id, some r⟩] } }

def writes (g : Session S) : List (Write S) := (g.tx.map (·.writes)).getD []

structure Answers (g : Session S) (t : S.Table) (cond : S.Id → S.Row t → Bool)
    (rows : List (S.Id × S.Row t)) : Prop where
  meets : ∀ e ∈ rows, cond e.1 e.2 = true
  seen : ∀ e ∈ rows, ∀ b, g.seen t e.1 = some b → b = some e.2
  all : ∀ id r, g.seen t id = some (some r) → cond id r = true → (id, r) ∈ rows

/-- Rows are deleted outside transactions only. -/
def Allowed (g : Session S) : Op S → Prop
  | .startTransaction => g.tx = none
  | .stmt (.delete _ _) => g.tx = none
  | _ => True

/-- What an operation can answer, and what the thread knows afterwards. -/
inductive Next (g : Session S) : (o : Op S) → Except SqlError o.Ans → Session S → Prop
  | start : Next g .startTransaction (.ok ()) opened
  | startFailed (e) : Next g .startTransaction (.error e) g
  | commit (r) : Next g .commitTransaction r closed
  | rollback (r) : Next g .rollbackTransaction r closed
  | failed (q e) : Next g (.stmt q) (.error e) g.failed
  | select (t cond) (rows : List (S.Id × S.Row t)) (h : g.Answers t cond rows) :
      Next g (.stmt (.select t cond)) (.ok rows) g
  | lockMissing (t id) (h : ∀ b, g.seen t id = some b → b = none) :
      Next g (.stmt (.selectForUpdate t id)) (.ok none) g
  | lock (t id r) (h : ∀ b, g.seen t id = some b → b = some r) :
      Next g (.stmt (.selectForUpdate t id)) (.ok (some r)) (g.lock t id r)
  | insert (t id row j now) (hj : ∀ k, id = some k → j = k)
      (h : ∀ b, g.seen t j = some b → b = none) :
      Next g (.stmt (.insert t id row)) (.ok (j, row now)) (g.put t j none (row now))
  | updateMissing (t id set) (h : ∀ b, g.seen t id = some b → b = none) :
      Next g (.stmt (.update t id set)) (.ok none) g
  | update (t id set now old) (h : ∀ b, g.seen t id = some b → b = some old) :
      Next g (.stmt (.update t id set)) (.ok (some (set now old)))
        (g.put t id (some old) (set now old))
  | delete (t id n) : Next g (.stmt (.delete t id)) (.ok n) g

theorem track_base_self (g : Session S) (t : S.Table) (id : S.Id) (old new : Option (S.Row t)) :
    (g.track t id old new).base t id = some ((g.base t id).getD old) := RowMap.set_self _ _ _ _

theorem track_base (g : Session S) (t : S.Table) (id : S.Id) (old new : Option (S.Row t))
    (u : S.Table) (j : S.Id) (h : ¬ (u = t ∧ j = id)) :
    (g.track t id old new).base u j = g.base u j := RowMap.set_other _ _ h

theorem Next.inserted {g g' : Session S} {o : Op S} {r : Except SqlError o.Ans}
    (h : Next g o r g') {t : S.Table} {id : S.Id} {b : Option (S.Row t)}
    (hlock : ∀ j, o ≠ .stmt (.selectForUpdate t j)) (hupdate : ∀ j set, o ≠ .stmt (.update t j set))
    (hb : g'.base t id = some b) : g.base t id = some b ∨ b = none := by
  have htrack : ∀ (u : S.Table) (j : S.Id) (old new : Option (S.Row u)), u ≠ t ∨ old = none →
      (g.track u j old new).base t id = some b → g.base t id = some b ∨ b = none := by
    intro u j old new hor hb
    by_cases hat : t = u ∧ id = j
    · obtain ⟨rfl, rfl⟩ := hat
      obtain rfl : old = none := hor.resolve_left (fun hne => hne rfl)
      rw [track_base_self] at hb
      cases hg : g.base t id with
      | none => exact .inr (by simpa [hg] using hb.symm)
      | some b' => exact .inl (by simpa [hg] using hb)
    · rw [track_base g u j old new t id hat] at hb
      exact .inl hb
  have hput : ∀ (u : S.Table) (j : S.Id) (old : Option (S.Row u)) (new : S.Row u),
      u ≠ t ∨ old = none →
      (g.put u j old new).base t id = some b → g.base t id = some b ∨ b = none := by
    intro u j old new hor hb
    unfold Session.put at hb
    split at hb
    · exact .inl hb
    · exact htrack u j old (some new) hor hb
  cases h with
  | start | commit | rollback => cases hb
  | failed => cases hb
  | startFailed | select | lockMissing | updateMissing | delete => exact .inl hb
  | lock u j r' =>
    unfold Session.lock at hb
    split at hb
    · exact .inl hb
    · exact htrack u j (some r') (some r') (.inl (by rintro rfl; exact hlock j rfl)) hb
  | insert u j row k now => exact hput u k none _ (.inr rfl) hb
  | update u j set now old => exact hput u j _ _ (.inl (by rintro rfl; exact hupdate j set rfl)) hb

/-- Every write of the transaction is an old one or what the operation wrote. -/
theorem Next.wrote {g g' : Session S} {o : Op S} {r : Except SqlError o.Ans} (h : Next g o r g')
    {w : Write S} (hw : w ∈ g'.writes) : w ∈ g.writes ∨
      (∃ t id row j now, o = .stmt (.insert t id row) ∧ (∀ k, id = some k → j = k) ∧
        w = ⟨t, j, some (row now)⟩) ∨
      ∃ t id set now old, o = .stmt (.update t id set) ∧ w = ⟨t, id, some (set now old)⟩ := by
  have hput : ∀ (t : S.Table) (id : S.Id) (old : Option (S.Row t)) (new : S.Row t),
      w ∈ (g.put t id old new).writes → w ∈ g.writes ∨ w = ⟨t, id, some new⟩ := by
    intro t id old new hw
    cases hx : g.tx with
    | none =>
      left
      simpa [Session.put, hx] using hw
    | some x => simpa [writes, Session.put, hx] using hw
  cases h with
  | start => simp [writes, opened] at hw
  | commit | rollback => simp [writes, closed] at hw
  | failed =>
    have hnil : g.failed.writes = [] := by
      cases hx : g.tx <;> simp [writes, Session.failed, hx]
    rw [hnil] at hw
    cases hw
  | startFailed | select | lockMissing | updateMissing | delete => exact .inl hw
  | lock t id r' =>
    left
    unfold Session.lock at hw
    split at hw
    · exact hw
    · exact hw
  | insert t id row j now hj => exact (hput t j none _ hw).imp_right (fun he =>
      .inl ⟨t, id, row, j, now, rfl, hj, he⟩)
  | update t id set now old => exact (hput t id (some old) _ hw).imp_right (fun he =>
      .inr ⟨t, id, set, now, old, rfl, he⟩)

structure Matches (s : Store S) (i : Nat) (g : Session S) : Prop where
  tx : s.tx i = g.tx
  clean : ∀ x, g.tx = some x → x.aborted = true → x.writes = [] ∧ ∀ t id, g.base t id = none
  owned : ∀ t id b, g.base t id = some b → s.owner (.row t id) = some i
  locked : ∀ t id, s.owner (.row t id) = some i → g.base t id ≠ none
  base : ∀ t id b, g.base t id = some b → (s.tables t).lookup id = b
  seen : ∀ t id b, g.seen t id = some b → (s.view i t).lookup id = b
  both : ∀ t id, g.seen t id ≠ none ↔ g.base t id ≠ none
  written : ∀ w ∈ g.writes, g.base w.table w.id ≠ none

theorem Matches.closed {s : Store S} {i : Nat} (h : s.tx i = none)
    (howner : ∀ t id, s.owner (.row t id) ≠ some i) : Matches s i closed where
  tx := h
  clean x hx := by cases hx
  owned t id b hb := by cases hb
  locked t id hl := absurd hl (howner t id)
  base t id b hb := by cases hb
  seen t id b hb := by cases hb
  both t id := Iff.rfl
  written w hw := by simp [writes, Session.closed] at hw

theorem Matches.close (s : Store S) (i : Nat) : Matches (s.close i) i Session.closed :=
  .closed (Store.close_tx_self s i) (fun _ _ => Store.released_self s i _)

theorem Matches.frame {s s' : Store S} {i : Nat} {g : Session S} (h : Matches s i g)
    (f : Store.Frame s s' i) : Matches s' i g where
  tx := f.tx.trans h.tx
  clean := h.clean
  owned t id b hb := (f.owner _).mpr (h.owned t id b hb)
  locked t id hl := h.locked t id ((f.owner _).mp hl)
  base t id b hb := by rw [f.row t id (h.owned t id b hb), h.base t id b hb]
  seen t id b hb := by
    have hne : g.base t id ≠ none := (h.both t id).mp (by simp [hb])
    obtain ⟨b', hb'⟩ := Option.ne_none_iff_exists'.mp hne
    rw [f.view_row (h.owned t id b' hb'), h.seen t id b hb]
  both := h.both
  written := h.written

theorem Matches.unwritten {s : Store S} {i : Nat} {g : Session S} (h : Matches s i g)
    {t : S.Table} {id : S.Id} (hb : g.base t id = none) :
    (s.view i t).lookup id = (s.tables t).lookup id := by
  cases hx : s.tx i with
  | none => rw [Store.view_none hx]
  | some x =>
    rw [Store.view_some hx]
    apply Tables.lookup_replay_other
    rintro w hw ⟨rfl, rfl⟩
    refine h.written w ?_ hb
    simp [writes, ← h.tx, hx, hw]

theorem Matches.committed {s : Store S} {i : Nat} {g : Session S} (h : Matches s i g)
    {t : S.Table} {id : S.Id} {b : Option (S.Row t)} (hb : (s.view i t).lookup id = b) :
    (s.tables t).lookup id = (g.base t id).getD b := by
  cases hbase : g.base t id with
  | none => rw [← h.unwritten hbase, hb, Option.getD_none]
  | some b' => rw [h.base t id b' hbase, Option.getD_some]

theorem Matches.track {s : Store S} (s' : Store S) {i : Nat} {g : Session S} (h : Matches s i g)
    {t : S.Table} {id : S.Id} {old : Option (S.Row t)} (new : Option (S.Row t))
    (howner : ∀ l, s.owner l = some i → s'.owner l = some i)
    (hlocked : ∀ u j, s'.owner (.row u j) = some i →
      s.owner (.row u j) = some i ∨ (u = t ∧ j = id))
    (hown : s'.owner (.row t id) = some i) (ht : s'.tables = s.tables)
    (hold : (s.view i t).lookup id = old) (hnew : (s'.view i t).lookup id = new)
    (hother : ∀ u j, ¬ (u = t ∧ j = id) → (s'.view i u).lookup j = (s.view i u).lookup j)
    {x' : Tx S} (htx : s'.tx i = some x') (hab : x'.aborted = false)
    (hwritten : ∀ w ∈ x'.writes, w ∈ g.writes ∨ w.at t id) :
    Matches s' i { g.track t id old new with tx := some x' } where
  tx := htx
  clean x hx ha := by
    obtain rfl := Option.some.inj hx
    rw [hab] at ha
    cases ha
  owned u j b hb := by
    by_cases hat : u = t ∧ j = id
    · obtain ⟨rfl, rfl⟩ := hat
      exact hown
    · rw [show ({ g.track t id old new with tx := some x' } : Session S).base u j = g.base u j from
        RowMap.set_other _ _ hat] at hb
      exact howner _ (h.owned u j b hb)
  locked u j hl := by
    by_cases hat : u = t ∧ j = id
    · obtain ⟨rfl, rfl⟩ := hat
      simp [Session.track, RowMap.set_self]
    · simp only [Session.track, ne_eq, RowMap.set_other _ _ hat]
      exact h.locked u j ((hlocked u j hl).resolve_right hat)
  base u j b hb := by
    rw [ht]
    by_cases hat : u = t ∧ j = id
    · obtain ⟨rfl, rfl⟩ := hat
      rw [show ({ g.track u j old new with tx := some x' } : Session S).base u j =
        some ((g.base u j).getD old) from RowMap.set_self _ _ _ _] at hb
      rw [h.committed hold]
      exact Option.some.inj hb
    · rw [show ({ g.track t id old new with tx := some x' } : Session S).base u j = g.base u j from
        RowMap.set_other _ _ hat] at hb
      exact h.base u j b hb
  seen u j b hb := by
    by_cases hat : u = t ∧ j = id
    · obtain ⟨rfl, rfl⟩ := hat
      rw [show ({ g.track u j old new with tx := some x' } : Session S).seen u j = some new from
        RowMap.set_self _ _ _ _] at hb
      rw [hnew]
      exact Option.some.inj hb
    · rw [show ({ g.track t id old new with tx := some x' } : Session S).seen u j = g.seen u j from
        RowMap.set_other _ _ hat] at hb
      rw [hother u j hat]
      exact h.seen u j b hb
  both u j := by
    by_cases hat : u = t ∧ j = id
    · obtain ⟨rfl, rfl⟩ := hat
      simp [Session.track, RowMap.set_self]
    · simp only [Session.track, RowMap.set_other _ _ hat]
      exact h.both u j
  written w hw := by
    rcases hwritten w hw with hw | ⟨rfl, rfl⟩
    · by_cases hat : w.table = t ∧ w.id = id
      · obtain ⟨rfl, rfl⟩ := hat
        simp [Session.track, RowMap.set_self]
      · simp only [Session.track, ne_eq, RowMap.set_other _ _ hat]
        exact h.written w hw
    · simp [Session.track, RowMap.set_self]

theorem Matches.base_none {s : Store S} (hc : s.Coherent) {i : Nat} {g : Session S}
    (h : Matches s i g) (htx : s.tx i = none) (t : S.Table) (id : S.Id) : g.base t id = none := by
  cases hb : g.base t id with
  | none => rfl
  | some b =>
    obtain ⟨x, hx⟩ := hc.ownerOpen _ i (h.owned t id b hb)
    rw [htx] at hx
    cases hx

theorem Matches.autocommit {s s' : Store S} (hc : s.Coherent) {i : Nat} {g : Session S}
    (h : Matches s i g) (htx : s.tx i = none) (htx' : s'.tx i = none)
    (howner : s'.owner = s.owner) : Matches s' i g where
  tx := by rw [htx', ← h.tx, htx]
  clean := h.clean
  owned t id b hb := by simp [h.base_none hc htx] at hb
  locked t id hl := h.locked t id (howner ▸ hl)
  base t id b hb := by simp [h.base_none hc htx] at hb
  seen t id b hb := absurd (h.base_none hc htx t id) ((h.both t id).mp (by simp [hb]))
  both := h.both
  written := h.written

theorem Matches.opened {s : Store S} {i : Nat} (h : s.tx i = some ⟨[], false⟩)
    (howner : ∀ t id, s.owner (.row t id) ≠ some i) : Matches s i opened where
  tx := h
  clean x hx ha := by
    obtain rfl := Option.some.inj hx
    cases ha
  owned t id b hb := by cases hb
  locked t id hl := absurd hl (howner t id)
  base t id b hb := by cases hb
  seen t id b hb := by cases hb
  both t id := Iff.rfl
  written w hw := by simp [writes, Session.opened] at hw

theorem Matches.failed {s s' : Store S} {i : Nat} {g : Session S} (h : Matches s i g)
    (htx : s'.tx i = (s.tx i).map (fun _ => ⟨[], true⟩))
    (howner : ∀ t id, s'.owner (.row t id) ≠ some i) : Matches s' i g.failed where
  tx := by rw [htx, h.tx, Session.failed]
  clean x hx _ := by
    obtain ⟨y, _, rfl⟩ := Option.map_eq_some_iff.mp hx
    exact ⟨rfl, fun _ _ => rfl⟩
  owned t id b hb := by cases hb
  locked t id hl := absurd hl (howner t id)
  base t id b hb := by cases hb
  seen t id b hb := by cases hb
  both t id := Iff.rfl
  written w hw := by
    cases hg : g.tx with
    | none => simp [writes, Session.failed, hg] at hw
    | some x => simp [writes, Session.failed, hg] at hw

theorem Matches.abort {s : Store S} (hc : s.Coherent) {i : Nat} {g : Session S}
    (h : Matches s i g) : Matches (s.abort i) i g.failed := by
  cases hx : s.tx i with
  | none =>
    rw [Store.abort_none hx]
    exact h.failed (by rw [hx, Option.map_none]) (fun _ _ => hc.owner_none hx _)
  | some x =>
    refine h.failed (by rw [Store.abort_tx_self hx, hx, Option.map_some]) ?_
    intro t id
    simp only [Store.abort, hx]
    exact Store.released_self s i _

theorem Matches.refused {s : Store S} {i : Nat} {g : Session S} (h : Matches s i g)
    (ha : s.isAborted i = true) : Matches s i g.failed := by
  cases hx : s.tx i with
  | none => simp [Store.isAborted, hx] at ha
  | some x =>
    have hab : x.aborted = true := by simpa [Store.isAborted, hx] using ha
    obtain ⟨hws, hbase⟩ := h.clean x (by rw [← h.tx, hx]) hab
    refine h.failed ?_ (fun t id hl => h.locked t id hl (hbase t id))
    obtain ⟨ws, ab⟩ := x
    simp_all

theorem seen_eq {s : Store S} {i : Nat} {g : Session S} (h : Matches s i g) {t : S.Table}
    {id : S.Id} {b : Option (S.Row t)} (hb : (s.view i t).lookup id = b) :
    ∀ b', g.seen t id = some b' → b' = b := by
  intro b' hb'
  rw [← h.seen t id b' hb', hb]

theorem Matches.answers {s : Store S} {i : Nat} {g : Session S} (h : Matches s i g)
    (t : S.Table) (cond : S.Id → S.Row t → Bool) :
    g.Answers t cond
      (((s.view i t).entries.filter (fun e => cond e.1 e.2)).map (fun e => (e.1, e.2))) where
  meets e he := by
    obtain ⟨x, hx, rfl⟩ := List.mem_map.mp he
    exact (List.mem_filter.mp hx).2
  seen e he b hb := by
    obtain ⟨x, hx, rfl⟩ := List.mem_map.mp he
    exact seen_eq h (AList.mem_lookup_iff.mpr (List.mem_filter.mp hx).1) b hb
  all id r hr hcond := by
    have hlook := AList.mem_lookup_iff.mp (h.seen t id _ hr)
    exact List.mem_map.mpr ⟨⟨id, r⟩, List.mem_filter.mpr ⟨hlook, hcond⟩, rfl⟩

theorem Matches.unchanged {s : Store S} {i : Nat} {g : Session S} (h : Matches s i g)
    (ls : List (Resource S)) (hls : ls = []) : Matches (s.perform i ls []) i g := by
  subst hls
  rwa [Store.perform_nil]

theorem Matches.lock {s : Store S} {i : Nat} {g : Session S} (h : Matches s i g)
    (ha : s.isAborted i = false) {t : S.Table} {id : S.Id} {r : S.Row t}
    (hr : (s.view i t).lookup id = some r) :
    Matches (s.perform i [.row t id] []) i (g.lock t id r) := by
  have hview : (s.perform i [.row t id] []).view i = s.view i := by
    rw [Store.perform_view, Tables.replay_nil]
  cases hx : s.tx i with
  | none =>
    rw [Store.perform_none_nil hx]
    rwa [Session.lock, ← h.tx, hx]
  | some x =>
    have hg : g.tx = some x := by rw [← h.tx, hx]
    have htx := Store.perform_tx_some hx [.row t id] []
    rw [List.append_nil] at htx
    have := h.track (s.perform i [.row t id] []) (some r)
      (fun l hl => by simp [Store.perform, hx, hl])
      (fun u j hl => Store.perform_row_owner hx (by simp) hl) (by simp [Store.perform, hx])
      (Store.perform_tables_some hx _ _) hr (by rw [hview]; exact hr)
      (fun u j _ => by rw [hview]) htx (by simpa [Store.isAborted, hx] using ha)
      (fun w hw => .inl (by simpa [writes, hg] using hw))
    rw [show g.lock t id r = { g.track t id (some r) (some r) with tx := some x } by
      simp [Session.lock, Session.track, hg]]
    exact this

theorem Matches.put {s : Store S} (hc : s.Coherent) {i : Nat} {g : Session S}
    (h : Matches s i g) (ha : s.isAborted i = false) {t : S.Table} {id : S.Id}
    {old : Option (S.Row t)} {r : S.Row t} {ls : List (Resource S)}
    (hls : .row t id ∈ ls) (hrows : ∀ u j, .row u j ∈ ls → u = t ∧ j = id)
    (hold : (s.view i t).lookup id = old) :
    Matches (s.perform i ls [⟨t, id, some r⟩]) i (g.put t id old r) := by
  have hview : (s.perform i ls [⟨t, id, some r⟩]).view i = (s.view i).write ⟨t, id, some r⟩ := by
    rw [Store.perform_view, Tables.replay_single]
  cases hx : s.tx i with
  | none =>
    rw [Session.put, ← h.tx, hx]
    exact h.autocommit hc hx (Store.perform_tx_none hx _ _) (Store.perform_owner_none hx _ _)
  | some x =>
    have hg : g.tx = some x := by rw [← h.tx, hx]
    have hab : x.aborted = false := by simpa [Store.isAborted, hx] using ha
    have := h.track (s.perform i ls [⟨t, id, some r⟩]) (some r)
      (fun l hl => by simp [Store.perform, hx, hl])
      (fun u j hl => Store.perform_row_owner hx (hrows u j) hl) (by simp [Store.perform, hx, hls])
      (Store.perform_tables_some hx _ _) hold
      (by rw [hview, Tables.lookup_write_self])
      (fun u j hne => by
        rw [hview, Tables.lookup_write_other _ (fun hat => hne ⟨hat.1.symm, hat.2.symm⟩)])
      (Store.perform_tx_some hx _ _) hab
      (fun w hw => by
        rcases List.mem_append.mp hw with hw | hw
        · exact .inl (by simpa [writes, hg] using hw)
        · obtain rfl := List.mem_singleton.mp hw
          exact .inr ⟨rfl, rfl⟩)
    rw [Session.put, hg]
    exact this

theorem Matches.own {s s' : Store S} (hc : s.Coherent) {i : Nat} {g : Session S}
    (h : Matches s i g) {c : Choice S} {o : Op S} (hallowed : g.Allowed o)
    {r : Except SqlError o.Ans} (he : s.exec i c o = some (r, s')) :
    ∃ g', Next g o r g' ∧ Matches s' i g' := by
  cases Store.exec_step he with
  | startFault => exact ⟨_, .startFailed _, h⟩
  | start =>
    have htx : s.tx i = none := by rw [h.tx]; exact hallowed
    exact ⟨_, .start, .opened (Store.start_tx_self s i) (fun _ _ => hc.owner_none htx _)⟩
  | commitNone htx => exact ⟨_, .commit _, .closed htx (fun _ _ => hc.owner_none htx _)⟩
  | commitFault => exact ⟨_, .commit _, .close s i⟩
  | commitAborted => exact ⟨_, .commit _, .close s i⟩
  | commit x => exact ⟨_, .commit _, .close (s.publish i x.writes) i⟩
  | rollbackFault => exact ⟨_, .rollback _, .close s i⟩
  | rollback => exact ⟨_, .rollback _, .close s i⟩
  | fault q => exact ⟨_, .failed q _, h.abort hc⟩
  | aborted q ha => exact ⟨_, .failed q _, h.refused ha⟩
  | refused q p e => exact ⟨_, .failed q e, h.abort hc⟩
  | done q ls a ws ha hq hl =>
    cases hq with
    | select t cond => exact ⟨_, .select t cond _ (h.answers t cond), h.unchanged _ rfl⟩
    | lockMissing t id hr => exact ⟨_, .lockMissing t id (seen_eq h hr), h.unchanged _ rfl⟩
    | lock t id row hr => exact ⟨_, .lock t id row (seen_eq h hr), h.lock ha hr⟩
    | insert t id row hr =>
      exact ⟨_, .insert t id row _ c.now (by rintro k rfl; rfl) (seen_eq h hr),
        h.put hc ha (by simp [Write.locks]) (by simp [Write.locks, keyLocks]) hr⟩
    | updateMissing t id set hr => exact ⟨_, .updateMissing t id set (seen_eq h hr), h.unchanged _ rfl⟩
    | update t id set old hr =>
      exact ⟨_, .update t id set c.now old (seen_eq h hr),
        h.put hc ha (by simp [Write.locks]) (by simp [Write.locks, keyLocks]) hr⟩
    | deleteMissing t id => exact ⟨_, .delete t id _, h.unchanged _ rfl⟩
    | delete t id old =>
      have htx : s.tx i = none := by rw [h.tx]; exact hallowed
      exact ⟨_, .delete t id _, h.autocommit hc htx (Store.perform_tx_none htx _ _)
        (Store.perform_owner_none htx _ _)⟩

/-- One step of thread `i`: it learns its answer, the others lose nothing. -/
theorem sound {s s' : Store S} (hc : s.Coherent) {γ : Nat → Session S}
    (h : ∀ j, Matches s j (γ j)) {i : Nat} {c : Choice S} {o : Op S}
    (hallowed : (γ i).Allowed o) {r : Except SqlError o.Ans}
    (he : s.exec i c o = some (r, s')) :
    ∃ g', Next (γ i) o r g' ∧ s'.Coherent ∧ Matches s' i g' ∧ ∀ j, j ≠ i → Matches s' j (γ j) := by
  obtain ⟨g', hnext, hown⟩ := (h i).own hc hallowed he
  exact ⟨g', hnext, hc.exec he, hown, fun j hj => (h j).frame (hc.frame hj he)⟩

/-! Locking and writing a row in an open transaction. -/

section Updates

variable {g : Session S} {x : Tx S} {t u : S.Table} {id j : S.Id} {old : Option (S.Row t)}
  {r : S.Row t}

theorem writes_open (hx : g.tx = some x) : g.writes = x.writes := by
  simp [writes, hx]

@[simp] theorem lock_tx : (g.lock t id r).tx = g.tx := by
  unfold lock
  split <;> rfl

@[simp] theorem lock_writes : (g.lock t id r).writes = g.writes := by
  simp [writes]

theorem lock_base_self (hx : g.tx = some x) :
    (g.lock t id r).base t id = some ((g.base t id).getD (some r)) := by
  simp [lock, hx, Session.track, RowMap.set_self]

theorem lock_seen_self (hx : g.tx = some x) : (g.lock t id r).seen t id = some (some r) := by
  simp [lock, hx, Session.track, RowMap.set_self]

theorem lock_base_other (h : ¬ (u = t ∧ j = id)) : (g.lock t id r).base u j = g.base u j := by
  unfold lock
  split
  · rfl
  · exact RowMap.set_other _ _ h

theorem lock_seen_other (h : ¬ (u = t ∧ j = id)) : (g.lock t id r).seen u j = g.seen u j := by
  unfold lock
  split
  · rfl
  · exact RowMap.set_other _ _ h

theorem put_tx (hx : g.tx = some x) :
    (g.put t id old r).tx = some { x with writes := x.writes ++ [⟨t, id, some r⟩] } := by
  simp [put, hx]

theorem put_writes (hx : g.tx = some x) :
    (g.put t id old r).writes = g.writes ++ [⟨t, id, some r⟩] := by
  simp [writes, put_tx hx, hx]

theorem put_base_self (hx : g.tx = some x) :
    (g.put t id old r).base t id = some ((g.base t id).getD old) := by
  simp [put, hx, Session.track, RowMap.set_self]

theorem put_seen_self (hx : g.tx = some x) : (g.put t id old r).seen t id = some (some r) := by
  simp [put, hx, Session.track, RowMap.set_self]

theorem put_base_other (hx : g.tx = some x) (h : ¬ (u = t ∧ j = id)) :
    (g.put t id old r).base u j = g.base u j := by
  simp [put, hx, Session.track, RowMap.set_other _ _ h]

theorem put_seen_other (hx : g.tx = some x) (h : ¬ (u = t ∧ j = id)) :
    (g.put t id old r).seen u j = g.seen u j := by
  simp [put, hx, Session.track, RowMap.set_other _ _ h]

end Updates

theorem Matches.view_lookup {s : Store S} {i : Nat} {g : Session S} (h : Matches s i g)
    (t : S.Table) (id : S.Id) :
    (s.view i t).lookup id = (g.seen t id).getD ((s.tables t).lookup id) := by
  cases hs : g.seen t id with
  | none =>
    have hb : g.base t id = none := by
      by_contra hne
      exact (h.both t id).mpr hne hs
    rw [h.unwritten hb, Option.getD_none]
  | some b => rw [h.seen t id b hs, Option.getD_some]

def commits (g : Session S) : (o : Op S) → Except SqlError o.Ans → Option (List (Write S))
  | .commitTransaction, .ok _ => (g.tx.filter (fun x => !x.aborted)).map (·.writes)
  | _, _ => none

theorem commits_eq_some {g : Session S} {o : Op S} {r : Except SqlError o.Ans}
    {ws : List (Write S)} (h : g.commits o r = some ws) :
    o = .commitTransaction ∧ g.tx = some ⟨ws, false⟩ := by
  cases o with
  | commitTransaction =>
    cases r with
    | error e => cases h
    | ok a =>
      obtain ⟨x, hx, rfl⟩ := Option.map_eq_some_iff.mp h
      obtain ⟨hx, hab⟩ := Option.filter_eq_some_iff.mp hx
      obtain ⟨ws, ab⟩ := x
      simp_all
  | startTransaction | rollbackTransaction | stmt q => cases h

/-- A thread that writes in transactions only changes the tables by its commits. -/
theorem Matches.step_tables {s s' : Store S} {i : Nat} {g : Session S} (h : Matches s i g)
    {c : Choice S} {o : Op S} {r : Except SqlError o.Ans}
    (hq : ∀ q, o = .stmt q → q.reads = true ∨ g.tx ≠ none) (he : s.exec i c o = some (r, s')) :
    s'.tables = s.tables.replay ((g.commits o r).getD []) ∧
      s'.log = s.log ++ ((g.commits o r).map (Commit.mk i)).toList := by
  cases Store.exec_step he with
  | startFault => simp [commits]
  | start => simp [commits]
  | commitNone htx => simp [commits, ← h.tx, htx]
  | commitFault x htx => simp [commits]
  | commitAborted x htx ha => simp [commits, ← h.tx, htx, Option.filter, ha]
  | commit x htx ha => simp [commits, ← h.tx, htx, Option.filter, ha]
  | rollbackFault => simp [commits]
  | rollback => simp [commits]
  | fault q => simp [commits]
  | aborted q => simp [commits]
  | refused q => simp [commits]
  | done q ls a ws ha hsuccess hl =>
    rcases hq q rfl with hreads | htx
    · obtain rfl := hsuccess.reads hreads
      cases hx : s.tx i with
      | none => simp [commits, Store.perform_none_nil hx]
      | some x => simp [commits, Store.perform, hx]
    · obtain ⟨x, hx⟩ := Option.ne_none_iff_exists'.mp htx
      rw [← h.tx] at hx
      simp [commits, Store.perform, hx]

end Session

end Sql
