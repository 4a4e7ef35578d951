import Ecomm.ProcessRules

/-! What a thread that runs `processOrderMessage` learns from one operation,
whatever the other threads are. -/

namespace Ecomm

open Concurrent Sql

def marked (T : Database) (m : Uuid) : Prop := ((T .processedMessages).lookup m).isSome

def Concerns (T : Database) (a : Attempt) (P : Option Order → Prop) : Prop :=
  ∀ o, orderRef a.message = some o → P ((T .orders).lookup o)

def writesRow (o : Uuid) (ws : List (Write schema)) : Bool := ws.any (fun w => w.at .orders o)

theorem Marked.writesOwnRow {strict : Bool} {m o : Uuid} {g : Session schema} (h : Marked strict m o g)
    (hw : writesOrder g.writes = true) : writesRow o g.writes = true := by
  obtain ⟨w, hmem, ht⟩ := List.any_eq_true.mp hw
  have ht : w.table = .orders := of_decide_eq_true ht
  refine List.any_eq_true.mpr ⟨w, hmem, decide_eq_true ⟨ht, ?_⟩⟩
  rcases h.writes w hmem with ⟨hp, _⟩ | ⟨_, hid⟩
  · rw [hp] at ht
    cases ht
  · exact hid

structure Learned (s s' : AppState) (i : Nat) (a a' : Attempt) : Prop where
  message : a'.message = a.message
  late : a'.late = a.late
  strict : a'.strict = a.strict
  mark : a.mark = true → a'.mark = true
  wrote : a.wrote = true → a'.wrote = true
  written : a'.wrote = true → a.wrote = true ∨ ∃ c ∈ s'.store.log, c.thread = i ∧
    ∀ o, orderRef a.message = some o → writesRow o c.writes = true
  announced : a.announced = true → a'.announced = true
  marked : a'.mark = true → a.mark = true ∨
    ∀ m, markerId a.message = some m → Ecomm.marked s'.store.tables m
  read : a'.read = a.read ∨ ∀ r, a'.read = some r → Concerns s'.store.tables a (· = some r)
  dated : a'.dated = true → a.dated = true ∨ i ∈ s'.clockReads
  event : s'.events = s.events ∨ ∃ e, s'.events = s.events ++ [(i, e)] ∧
    a.announced = false ∧ a'.announced = true ∧ a.late = false ∧
    (a.strict = true → a.wrote = true)

section

variable {s s' : AppState} {i : Nat} {ch : AppChoice} {g g' : Session schema} {a : Attempt}

theorem Learned.refl (hev : s'.events = s.events) : Learned s s' i a a where
  message := rfl
  late := rfl
  strict := rfl
  mark := id
  wrote := id
  written := .inl
  announced := id
  marked := .inl
  read := .inl rfl
  dated := .inl
  event := .inl hev

theorem processAllowed_writes {x : Attempt} {q : Stmt schema}
    (h : processAllowed x g (.sql (.stmt q))) : q.reads = true ∨ g.tx ≠ none := by
  cases q with
  | select t cond => exact .inl rfl
  | selectForUpdate t id => exact .inl rfl
  | malformed e => exact .inl rfl
  | delete t id => exact h.elim
  | insert t id row =>
    cases t with
    | processedMessages =>
      right
      rw [h.1]
      simp
    | orders => exact .inr h
    | _ => exact h.elim
  | update t id set =>
    cases t with
    | orders => exact .inr h.1
    | _ => exact h.elim

theorem select_committed (hm : g.Matches s.store i) {o : Uuid} (hbase : g.base .orders o = none)
    {cond : Uuid → Order → Bool} {rows : List (Uuid × Order)}
    (hcond : ∀ j r, cond j r = true ↔ j = o)
    (he : s.exec i ch (.sql (.stmt (.select .orders cond))) = some (.ok rows, s')) :
    (∀ e ∈ rows, e.1 = o ∧ (s.store.tables .orders).lookup o = some e.2) ∧
      ∀ r, (s.store.tables .orders).lookup o = some r → (o, r) ∈ rows := by
  obtain ⟨r, store, hexec, hr, _⟩ := AppState.exec_sql he
  cases r with
  | error e => cases hr
  | ok rows' =>
    cases hr
    have hmem := Store.exec_select hexec
    refine ⟨?_, fun r hr => (hmem (o, r)).mpr ⟨(hm.unwritten hbase).trans hr, (hcond o r).mpr rfl⟩⟩
    intro e he
    obtain ⟨hview, hc⟩ := (hmem e).mp he
    have hid : e.1 = o := (hcond _ _).mp hc
    rw [hid, hm.unwritten hbase] at hview
    exact ⟨hid, hview⟩

section Statements

variable (hm : g.Matches s.store i)
include hm

theorem insertMarker_learns {id : Option Uuid} {row : Nat → ProcessedMessage}
    {r : Except Thrown (Uuid × ProcessedMessage)}
    (ha : processAllowed a g (.sql (.stmt (.insert .processedMessages id row))))
    (he : s.exec i ch (.sql (.stmt (.insert .processedMessages id row))) = some (r, s'))
    (ht : s'.store.tables = s.store.tables) (hev : s'.events = s.events)
    (hlate : a.late = true → ∀ m, markerId a.message = some m → marked s.store.tables m) :
    ∃ a', processNext a g (.sql (.stmt (.insert .processedMessages id row))) r g' a' ∧
      Learned s s' i a a' := by
  obtain ⟨htx, m, rfl, hid⟩ := ha
  have hview : s.store.view i = s.store.tables := by
    rw [Store.view_some (hm.tx.trans htx), Tables.replay_nil]
  obtain ⟨b, store, hexec, rfl, _⟩ := AppState.exec_sql he
  cases b with
  | ok b =>
    refine ⟨a, ⟨rfl, ?_⟩, .refl hev⟩
    by_contra hl
    have hmark := hlate (by simpa using hl) m hid
    obtain ⟨hnone, hb⟩ := Store.exec_insert_ok hexec
    rw [hb m rfl, hview] at hnone
    simp [marked, hnone] at hmark
  | error e =>
    by_cases hu : e = .uniqueViolation
    · subst hu
      have hsome := Store.exec_insert_unique (fun _ => rfl) ?_ hexec
      · refine ⟨{ a with mark := true }, rfl, ?_⟩
        refine { Learned.refl hev with mark := fun _ => rfl, marked := fun _ => .inr ?_ }
        intro m' hm'
        obtain rfl : m' = m := Option.some.inj (hm'.symm.trans hid)
        rw [marked, ht]
        rwa [hview] at hsome
      · intro r hr
        obtain ⟨h, _, hv⟩ := Option.bind_eq_some_iff.mp hr
        unfold varchar at hv
        split at hv <;> cases hv
    · refine ⟨a, ?_, .refl hev⟩
      cases e with
      | uniqueViolation => exact absurd rfl hu
      | _ => rfl

theorem select_learns {cond : Uuid → Order → Bool} {r : Except Thrown (List (Uuid × Order))}
    (ha : processAllowed a g (.sql (.stmt (.select .orders cond))))
    (he : s.exec i ch (.sql (.stmt (.select .orders cond))) = some (r, s'))
    (hlearns : Learns g (.sql (.stmt (.select .orders cond))) r g')
    (ht : s'.store.tables = s.store.tables) (hev : s'.events = s.events)
    (hstrict : a.strict = true → a.dated = true → g.tx ≠ none →
      Concerns s.store.tables a (fun b => ∀ r, b = some r → r.status ≠ .processed))
    (hread : a.strict = true → a.read ≠ none → Concerns s.store.tables a (· ≠ none)) :
    ∃ a', processNext a g (.sql (.stmt (.select .orders cond))) r g' a' ∧
      Learned s s' i a a' := by
  obtain ⟨o, ho, hcond, hbase⟩ := ha
  cases r with
  | error e => exact ⟨a, rfl, .refl hev⟩
  | ok rows =>
    cases (show g.Next (.stmt (.select .orders cond)) (.ok rows) g' from hlearns) with
    | select _ _ _ hans =>
      obtain ⟨hrows, hall⟩ := select_committed hm hbase hcond he
      refine ⟨{ a with read := rows.head?.map (·.2) }, ⟨rfl, ?_⟩, ?_⟩
      · intro hs hd htx
        refine ⟨fun e hmem => hstrict hs hd htx o ho e.2 (hrows e hmem).2, ?_⟩
        intro hne
        obtain ⟨row, hrow⟩ := Option.ne_none_iff_exists'.mp (hread hs hne o ho)
        exact List.ne_nil_of_mem (hall row hrow)
      · refine { Learned.refl hev with read := .inr ?_ }
        intro r hr o' ho'
        obtain rfl : o' = o := Option.some.inj (ho'.symm.trans ho)
        obtain ⟨e, hhead, rfl⟩ := Option.map_eq_some_iff.mp hr
        rw [ht]
        exact (hrows e (List.mem_of_head? hhead)).2

theorem update_learns {id : Uuid} {set : Nat → Order → Order} {r : Except Thrown (Option Order)}
    (hown : g'.Matches s'.store i) (ha : processAllowed a g (.sql (.stmt (.update .orders id set))))
    (hlearns : Learns g (.sql (.stmt (.update .orders id set))) r g')
    (ht : s'.store.tables = s.store.tables) (hev : s'.events = s.events)
    (he : s.exec i ch (.sql (.stmt (.update .orders id set))) = some (r, s'))
    (hstrict : a.strict = true → a.dated = true → g.tx ≠ none →
      Concerns s.store.tables a (fun b => ∀ r, b = some r → r.status ≠ .processed))
    (hread : a.strict = true → a.read ≠ none → Concerns s.store.tables a (· ≠ none)) :
    ∃ a', processNext a g (.sql (.stmt (.update .orders id set))) r g' a' ∧
      Learned s s' i a a' := by
  obtain ⟨htx, ho, hbase⟩ := ha
  cases r with
  | error e => exact ⟨a, rfl, .refl hev⟩
  | ok row =>
    refine ⟨a, ⟨rfl, ?_⟩, .refl hev⟩
    intro hs hd
    refine ⟨?_, ?_⟩
    · intro old hold
      have hlook := hown.base .orders id _ hold
      rw [ht] at hlook
      exact hstrict hs hd htx id ho old hlook
    · rintro rfl
      by_contra hne
      have hsome := hread hs hne id ho
      obtain ⟨b, store, hexec, hr, _⟩ := AppState.exec_sql he
      cases b with
      | error e => cases hr
      | ok b =>
        cases hr
        exact hsome (hm.unwritten hbase ▸ Store.exec_update_missing hexec)

theorem commit_learns {r : Except Thrown (AppOp.sql .commitTransaction).Ans}
    (ha : processAllowed a g (.sql .commitTransaction))
    (hchange : Rules.Change s s' i (commits g (.sql .commitTransaction) r))
    (hev : s'.events = s.events) :
    ∃ a', processNext a g (.sql .commitTransaction) r g' a' ∧ Learned s s' i a a' := by
  cases r with
  | error e => exact ⟨a, rfl, .refl hev⟩
  | ok u =>
    rcases ha with htx | ⟨_, m, o, hid, ho, hmarked⟩
    · exact ⟨a, by simp [processNext, htx], .refl hev⟩
    · have hopen : g.tx.any (·.aborted) = false := by rw [hmarked.isOpen]; rfl
      refine ⟨{ a with mark := true, wrote := a.wrote || writesOrder g.writes },
        by simp [processNext, hopen], ?_⟩
      refine { Learned.refl hev with
        mark := fun _ => rfl
        wrote := fun h => by simp [h]
        written := fun h => ?_
        marked := fun _ => .inr ?_
        event := .inl hev }
      · have h : (a.wrote || writesOrder g.writes) = true := h
        refine (Bool.or_eq_true _ _ ▸ h).imp_right ?_
        intro hw
        refine ⟨⟨i, g.writes⟩, ?_, rfl, ?_⟩
        · rw [hchange.log, commits_open hmarked.isOpen]
          simp
        · intro o' ho'
          obtain rfl : o' = o := Option.some.inj (ho'.symm.trans ho)
          exact hmarked.writesOwnRow hw
      intro m' hm'
      obtain rfl : m' = m := Option.some.inj (hm'.symm.trans hid)
      obtain ⟨row, hseen⟩ := hmarked.marker
      rw [marked, hchange.tables, commits_open hmarked.isOpen, Option.getD_some,
        ← Store.view_some (hm.tx.trans hmarked.isOpen), hm.view_lookup, hseen]
      rfl

end Statements

/-- One operation of the call, in a state where `late` and `strict` mean what
they say. -/
theorem process_learns {o : AppOp} {r : Except Thrown o.Ans} (hm : g.Matches s.store i)
    (hown : g'.Matches s'.store i) (ha : processAllowed a g o)
    (he : s.exec i ch o = some (r, s')) (hchange : Rules.Change s s' i (commits g o r))
    (hlearns : Learns g o r g')
    (hlate : a.late = true → ∀ m, markerId a.message = some m → marked s.store.tables m)
    (hstrict : a.strict = true → a.dated = true → g.tx ≠ none →
      Concerns s.store.tables a (fun b => ∀ r, b = some r → r.status ≠ .processed))
    (hread : a.strict = true → a.read ≠ none → Concerns s.store.tables a (· ≠ none)) :
    ∃ a', processNext a g o r g' a' ∧ Learned s s' i a a' := by
  have hev := AppState.exec_events he
  cases o with
  | sql q =>
    have hquiet : s'.events = s.events := hev.resolve_right (by rintro ⟨e, ho, _⟩; cases ho)
    cases q with
    | startTransaction =>
      cases r with
      | error e => exact ⟨a, rfl, .refl hquiet⟩
      | ok u =>
        refine ⟨{ a with dated := false }, rfl, ?_⟩
        exact { Learned.refl hquiet with dated := fun h => by cases h }
    | rollbackTransaction => exact ⟨a, by cases r <;> rfl, .refl hquiet⟩
    | commitTransaction => exact commit_learns hm ha hchange hquiet
    | stmt q =>
      have ht : s'.store.tables = s.store.tables := by
        have hnone : commits g (.sql (.stmt q)) r = none := by cases r <;> rfl
        simpa [hnone] using hchange.tables
      cases q with
      | insert t id row =>
        cases t with
        | processedMessages => exact insertMarker_learns hm ha he ht hquiet hlate
        | orders => exact ⟨a, by cases r <;> rfl, .refl hquiet⟩
        | _ => exact ha.elim
      | select t cond =>
        cases t with
        | orders => exact select_learns hm ha he hlearns ht hquiet hstrict hread
        | _ => exact ha.elim
      | update t id set =>
        cases t with
        | orders => exact update_learns hm hown ha hlearns ht hquiet he hstrict hread
        | _ => exact ha.elim
      | malformed e =>
        refine ⟨a, ?_, .refl hquiet⟩
        obtain ⟨b, store, hexec, rfl, _⟩ := AppState.exec_sql he
        cases b with
        | ok b => exact nomatch (show Empty from b)
        | error e' =>
          cases e' with
          | uniqueViolation => exact ⟨rfl, Store.exec_malformed_unique hexec⟩
          | _ => rfl
      | selectForUpdate t id | delete t id => exact ha.elim
  | dateNow =>
    have hquiet : s'.events = s.events := hev.resolve_right (by rintro ⟨e, ho, _⟩; cases ho)
    cases r with
    | error e => exact ⟨a, rfl, .refl hquiet⟩
    | ok now =>
      refine ⟨{ a with dated := true }, rfl, ?_⟩
      exact { Learned.refl hquiet with dated := fun _ => .inr ((AppState.exec_clockReads he).2 rfl) }
  | publishStatusChanged e =>
    obtain ⟨hl, hann, hwrote, _⟩ := ha
    refine ⟨{ a with announced := true }, by cases r <;> rfl, ?_⟩
    have hevent : ∃ e, s'.events = s.events ++ [(i, e)] := by
      obtain ⟨rfl, rfl⟩ := Prod.mk.inj (Option.some.inj he)
      exact ⟨e, rfl⟩
    obtain ⟨e', he'⟩ := hevent
    have hrefl : Learned s s i a a := .refl rfl
    exact { hrefl with
      written := .inl
      announced := fun _ => rfl
      marked := .inl
      read := .inl rfl
      dated := .inl
      event := .inr ⟨e', he', hann, rfl, hl, hwrote⟩ }
  | settle _ | sendToQueue _ | channelReady | randomUUID => exact ha.elim

end

end Ecomm
