import Ecomm.Lib.Store

/-! What one operation can do to a store, and the invariant that ties locks,
pending writes and unique keys together in every run. -/

namespace Sql

variable {S : Schema}

/-- Unique keys belong to one row of their table. -/
def Distinct (T : Tables S) : Prop :=
  ∀ t id id' r r' k, (T t).lookup id = some r → (T t).lookup id' = some r' →
    k ∈ S.keys t r → k ∈ S.keys t r' → id = id'

theorem Distinct.of_entries {T : Tables S}
    (h : ∀ t, ∀ e ∈ (T t).entries, ∀ e' ∈ (T t).entries,
      (∃ k ∈ S.keys t e.2, k ∈ S.keys t e'.2) → e.1 = e'.1) : Distinct T := by
  intro t id id' r r' k hr hr' hk hk'
  exact h t ⟨id, r⟩ (AList.mem_lookup_iff.mp hr) ⟨id', r'⟩ (AList.mem_lookup_iff.mp hr') ⟨k, hk, hk'⟩

theorem Distinct.merge {T : Tables S} {ws vs : List (Write S)}
    (hws : Distinct (T.replay ws)) (hvs : Distinct (T.replay vs))
    (hdisj : ∀ t id id' r r' k, (⟨t, id, some r⟩ : Write S) ∈ ws →
      (⟨t, id', some r'⟩ : Write S) ∈ vs → k ∈ S.keys t r → k ∉ S.keys t r') :
    Distinct ((T.replay ws).replay vs) := by
  -- a row of the merge that `vs` leaves alone is old or comes from `ws`
  have hkept : ∀ t id r, (¬ ∃ w ∈ vs, w.at t id) →
      ((T.replay ws).replay vs t).lookup id = some r →
      (T.replay ws t).lookup id = some r ∧
        ((⟨t, id, some r⟩ : Write S) ∈ ws ∨ (T.replay vs t).lookup id = some r) := by
    intro t id r hno hlook
    have hno' : ∀ w ∈ vs, ¬ w.at t id := fun w hw hat => hno ⟨w, hw, hat⟩
    rw [Tables.lookup_replay_other _ hno'] at hlook
    refine ⟨hlook, ?_⟩
    by_cases hw : ∃ w ∈ ws, w.at t id
    · obtain ⟨r', hmem, hr'⟩ := Tables.lookup_replay_written hw
      obtain rfl : r' = some r := (hr' T).symm.trans hlook
      exact .inl hmem
    · right
      rw [Tables.lookup_replay_other _ hno']
      rwa [Tables.lookup_replay_other _ (fun w hm hat => hw ⟨w, hm, hat⟩)] at hlook
  have hwritten : ∀ t id r, (∃ w ∈ vs, w.at t id) →
      ((T.replay ws).replay vs t).lookup id = some r →
      (⟨t, id, some r⟩ : Write S) ∈ vs ∧ (T.replay vs t).lookup id = some r := by
    intro t id r hw hlook
    obtain ⟨r', hmem, hr'⟩ := Tables.lookup_replay_written hw
    obtain rfl : r' = some r := (hr' _).symm.trans hlook
    exact ⟨hmem, hr' T⟩
  intro t id id' r r' k hr hr' hk hk'
  by_cases hw : ∃ w ∈ vs, w.at t id <;> by_cases hw' : ∃ w ∈ vs, w.at t id'
  · exact hvs t id id' r r' k (hwritten t id r hw hr).2 (hwritten t id' r' hw' hr').2 hk hk'
  · obtain ⟨hmem, hold⟩ := hwritten t id r hw hr
    rcases (hkept t id' r' hw' hr').2 with hmem' | hold'
    · exact absurd hk (hdisj t id' id r' r k hmem' hmem hk')
    · exact hvs t id id' r r' k hold hold' hk hk'
  · obtain ⟨hmem', hold'⟩ := hwritten t id' r' hw' hr'
    rcases (hkept t id r hw hr).2 with hmem | hold
    · exact absurd hk' (hdisj t id id' r r' k hmem hmem' hk)
    · exact hvs t id id' r r' k hold hold' hk hk'
  · exact hws t id id' r r' k (hkept t id r hw hr).1 (hkept t id' r' hw' hr').1 hk hk'

theorem Distinct.put {T : Tables S} (hT : Distinct T) {t : S.Table} {id : S.Id} {r : S.Row t}
    (h : keyTaken T t id r = false) : Distinct (T.write ⟨t, id, some r⟩) := by
  have hother : ∀ j q k, j ≠ id → (T t).lookup j = some q → k ∈ S.keys t q → k ∉ S.keys t r := by
    intro j q k hj hq hk hkr
    have hmem : (⟨j, q⟩ : Sigma _) ∈ (T t).entries := AList.mem_lookup_iff.mp hq
    have := List.any_eq_false.mp h ⟨j, q⟩ hmem
    apply this
    simp only [ne_eq, hj, not_false_eq_true, decide_true, Bool.true_and, List.any_eq_true,
      decide_eq_true_eq]
    exact ⟨k, hk, hkr⟩
  intro u j j' q q' k hq hq' hk hk'
  by_cases hu : u = t
  · subst hu
    by_cases hj : j = id <;> by_cases hj' : j' = id
    · rw [hj, hj']
    · subst hj
      rw [Tables.lookup_write_self] at hq
      obtain rfl := Option.some.inj hq
      rw [Tables.lookup_write_other _ (fun hat => hj' hat.2.symm)] at hq'
      exact absurd hk (hother j' q' k hj' hq' hk')
    · subst hj'
      rw [Tables.lookup_write_self] at hq'
      obtain rfl := Option.some.inj hq'
      rw [Tables.lookup_write_other _ (fun hat => hj hat.2.symm)] at hq
      exact absurd hk' (hother j q k hj hq hk)
    · rw [Tables.lookup_write_other _ (fun hat => hj hat.2.symm)] at hq
      rw [Tables.lookup_write_other _ (fun hat => hj' hat.2.symm)] at hq'
      exact hT u j j' q q' k hq hq' hk hk'
  · rw [Tables.lookup_write_other _ (fun hat => hu hat.1.symm)] at hq hq'
    exact hT u j j' q q' k hq hq' hk hk'

theorem Distinct.shrink {T : Tables S} (hT : Distinct T) {ws : List (Write S)}
    (h : ∀ t id r, (⟨t, id, some r⟩ : Write S) ∈ ws →
      ∃ old, (T t).lookup id = some old ∧ S.keys t r ⊆ S.keys t old) :
    Distinct (T.replay ws) := by
  have hold : ∀ t id r k, (T.replay ws t).lookup id = some r → k ∈ S.keys t r →
      ∃ old, (T t).lookup id = some old ∧ k ∈ S.keys t old := by
    intro t id r k hr hk
    by_cases hw : ∃ w ∈ ws, w.at t id
    · obtain ⟨r', hmem, hr'⟩ := Tables.lookup_replay_written hw
      obtain rfl : r' = some r := (hr' T).symm.trans hr
      obtain ⟨old, ho, hsub⟩ := h t id r hmem
      exact ⟨old, ho, hsub hk⟩
    · rw [Tables.lookup_replay_other _ (fun w hm hat => hw ⟨w, hm, hat⟩)] at hr
      exact ⟨r, hr, hk⟩
  intro t id id' r r' k hr hr' hk hk'
  obtain ⟨q, hq, hkq⟩ := hold t id r k hr hk
  obtain ⟨q', hq', hkq'⟩ := hold t id' r' k hr' hk'
  exact hT t id id' q q' k hq hq' hkq hkq'

theorem allow_ok {T : Tables S} {t : S.Table} {id : S.Id} {r : S.Row t} {u : Unit}
    (h : allow T t id r = .ok u) :
    S.check t r = none ∧ keyTaken T t id r = false ∧ refsExist T t r = true := by
  unfold allow at h
  split at h
  · cases h
  · next hc =>
    split at h
    · cases h
    · next hk =>
      split at h
      · next hr => exact ⟨hc, by simpa using hk, hr⟩
      · cases h

theorem allow_intro {T : Tables S} {t : S.Table} {id : S.Id} {r : S.Row t}
    (hcheck : S.check t r = none) (hkeys : keyTaken T t id r = false)
    (hrefs : refsExist T t r = true) : allow T t id r = .ok () := by
  simp [allow, hcheck, hkeys, hrefs]

theorem map_error {α β ε : Type} {x : Except ε α} {f : α → β} {e : ε} (h : x.map f = .error e) :
    x = .error e := by
  cases x with
  | error e => exact congrArg Except.error (Except.error.inj h)
  | ok a => cases h

theorem map_ok {α β ε : Type} {x : Except ε α} {f : α → β} {b : β} (h : x.map f = .ok b) :
    ∃ a, x = .ok a ∧ f a = b := by
  cases x with
  | error e => cases h
  | ok a => exact ⟨a, rfl, Except.ok.inj h⟩

/-- All the ways in which a statement succeeds: its locks, answer and writes. -/
inductive Stmt.Success (T : Tables S) (c : Choice S) :
    (q : Stmt S) → List (Resource S) → q.Ans → List (Write S) → Prop
  | select (t cond) : Success T c (.select t cond) []
      (((T t).entries.filter (fun e => cond e.1 e.2)).map (fun e => (e.1, e.2))) []
  | lockMissing (t id) (h : (T t).lookup id = none) : Success T c (.selectForUpdate t id) [] none []
  | lock (t id r) (h : (T t).lookup id = some r) :
      Success T c (.selectForUpdate t id) [.row t id] (some r) []
  | insert (t id row) (h : (T t).lookup (Option.getD id c.id) = none)
      (hallow : allow T t (Option.getD id c.id) (row c.now) = .ok ()) :
      Success T c (.insert t id row)
        ((⟨t, Option.getD id c.id, some (row c.now)⟩ : Write S).locks T)
        (Option.getD id c.id, row c.now) [⟨t, Option.getD id c.id, some (row c.now)⟩]
  | updateMissing (t id set) (h : (T t).lookup id = none) :
      Success T c (.update t id set) [] none []
  | update (t id set old) (h : (T t).lookup id = some old)
      (hallow : allow T t id (set c.now old) = .ok ()) :
      Success T c (.update t id set) ((⟨t, id, some (set c.now old)⟩ : Write S).locks T)
        (some (set c.now old)) [⟨t, id, some (set c.now old)⟩]
  | deleteMissing (t id) (h : (T t).lookup id = none) : Success T c (.delete t id) [] (0 : Nat) []
  | delete (t id old ws) (h : (T t).lookup id = some old) (hws : deletion T t id = some ws) :
      Success T c (.delete t id) (ws.flatMap (·.locks T)) (1 : Nat) ws

theorem plan_success {T : Tables S} {c : Choice S} {q : Stmt S} {p : Plan S q.Ans} {a : q.Ans}
    {ws : List (Write S)} (hp : q.plan T c = some p) (hr : p.result = .ok (a, ws)) :
    q.Success T c p.locks a ws := by
  cases q with
  | select t cond =>
    obtain rfl := Option.some.inj hp
    obtain ⟨rfl, rfl⟩ := Prod.mk.inj (Except.ok.inj hr)
    exact .select t cond
  | selectForUpdate t id =>
    simp only [Stmt.plan] at hp
    split at hp <;> obtain rfl := Option.some.inj hp <;>
      obtain ⟨rfl, rfl⟩ := Prod.mk.inj (Except.ok.inj hr)
    · next h => exact .lockMissing t id h
    · next h => exact .lock t id _ h
  | insert t id row =>
    simp only [Stmt.plan] at hp
    split at hp
    · split at hp
      · cases hp
      · obtain rfl := Option.some.inj hp
        cases hr
    · next h =>
      obtain rfl := Option.some.inj hp
      obtain ⟨_, hallow, he⟩ := map_ok hr
      obtain ⟨rfl, rfl⟩ := Prod.mk.inj he
      exact .insert t id row (by simpa using h) hallow
  | update t id set =>
    simp only [Stmt.plan] at hp
    split at hp
    · next h =>
      obtain rfl := Option.some.inj hp
      obtain ⟨rfl, rfl⟩ := Prod.mk.inj (Except.ok.inj hr)
      exact .updateMissing t id set h
    · next old h =>
      obtain rfl := Option.some.inj hp
      obtain ⟨_, hallow, he⟩ := map_ok hr
      obtain ⟨rfl, rfl⟩ := Prod.mk.inj he
      exact .update t id set old h hallow
  | delete t id =>
    simp only [Stmt.plan] at hp
    split at hp
    · next h =>
      obtain rfl := Option.some.inj hp
      obtain ⟨rfl, rfl⟩ := Prod.mk.inj (Except.ok.inj hr)
      exact .deleteMissing t id h
    · next old h =>
      split at hp
      · obtain rfl := Option.some.inj hp
        cases hr
      · next ws' hws =>
        obtain rfl := Option.some.inj hp
        obtain ⟨rfl, rfl⟩ := Prod.mk.inj (Except.ok.inj hr)
        exact .delete t id old _ h hws
  | malformed e =>
    obtain rfl := Option.some.inj hp
    cases hr

theorem Stmt.Success.locks {T : Tables S} {c : Choice S} {q : Stmt S} {ls : List (Resource S)}
    {a : q.Ans} {ws : List (Write S)} (h : q.Success T c ls a ws) :
    ∀ w ∈ ws, ∀ l ∈ w.locks T, l ∈ ls := by
  cases h with
  | insert | update => simp
  | delete =>
    intro w hw l hl
    exact List.mem_flatMap.mpr ⟨w, hw, hl⟩
  | select | lockMissing | lock | updateMissing | deleteMissing => simp

theorem Stmt.Success.reads {T : Tables S} {c : Choice S} {q : Stmt S} {ls : List (Resource S)}
    {a : q.Ans} {ws : List (Write S)} (h : q.Success T c ls a ws) (hq : q.reads = true) :
    ws = [] := by
  cases h with
  | select | lockMissing | lock | updateMissing | deleteMissing => rfl
  | insert | update | delete => cases hq

theorem deletion_shrinks {T : Tables S} {t u : S.Table} {id j : S.Id} {r : S.Row u}
    {ws : List (Write S)} (h : deletion T t id = some ws)
    (hmem : (⟨u, j, some r⟩ : Write S) ∈ ws) :
    ∃ old, (T u).lookup j = some old ∧ S.keys u r ⊆ S.keys u old := by
  obtain ⟨more, hmore, rfl⟩ := Option.map_eq_some_iff.mp h
  rcases List.mem_append.mp hmem with hmem | hmem
  · obtain ⟨w, hw, he⟩ := List.mem_map.mp hmem
    obtain ⟨v, j', q⟩ := w
    obtain ⟨rfl, hj⟩ := Write.mk.inj he
    obtain ⟨rfl, hq⟩ := hj
    exact S.onDelete_keys T t id more hmore _ hw r (eq_of_heq hq)
  · simp only [List.mem_singleton, Write.mk.injEq] at hmem
    obtain ⟨rfl, _, hq⟩ := hmem
    cases eq_of_heq hq

theorem Stmt.Success.distinct {T : Tables S} {c : Choice S} {q : Stmt S} {ls : List (Resource S)}
    {a : q.Ans} {ws : List (Write S)} (h : q.Success T c ls a ws) (hT : Distinct T) :
    Distinct (T.replay ws) := by
  cases h with
  | insert t id row hnew hallow => exact hT.put (allow_ok hallow).2.1
  | update t id set old hold hallow => exact hT.put (allow_ok hallow).2.1
  | delete t id old ws hold hws => exact hT.shrink (fun u j r hmem => deletion_shrinks hws hmem)
  | select | lockMissing | lock | updateMissing | deleteMissing => exact hT

end Sql
