import Ecomm.OrderProcessing
import Ecomm.Sequential

/-! The worker against `updateOrder`, one operation after another. The guard of
`processOrderMessage` knows one final status, PROCESSED. -/

namespace Ecomm

open Concurrent Sql

theorem Learns.open {g g' : Session schema} {op : AppOp} {r : Except Thrown op.Ans}
    (h : Learns g op r g') (htx : g'.tx ≠ none) :
    g.tx ≠ none ∨ (op = .sql .startTransaction ∧ g' = .opened) := by
  cases op with
  | sql q =>
    have hnext : ∀ r', g.Next q r' g' → g.tx ≠ none ∨ (AppOp.sql q = .sql .startTransaction ∧
        g' = .opened) := by
      intro r' hn
      cases hn with
      | start => exact .inr ⟨rfl, rfl⟩
      | commit | rollback => exact absurd rfl htx
      | failed => exact .inl (by simpa [Session.failed] using htx)
      | startFailed | select | lockMissing | updateMissing | delete => exact .inl htx
      | lock => exact .inl (by simpa using htx)
      | insert t id row j now =>
        left
        intro hnone
        simp [Session.put, hnone] at htx
      | update t id set now old =>
        left
        intro hnone
        simp [Session.put, hnone] at htx
    cases r with
    | ok a => exact hnext _ h
    | error e =>
      cases e with
      | sql e => exact hnext _ h
      | _ => exact h.elim
  | _ =>
    obtain rfl : g' = g := h
    exact .inl htx

theorem Learns.closed {g g' : Session schema} {op : AppOp} {r : Except Thrown op.Ans}
    (h : Learns g op r g') {ws : List (Write schema)} (hws : commits g op r = some ws) :
    g'.tx = none := by
  obtain ⟨rfl, _⟩ := commits_eq_some hws
  cases r with
  | error e => cases hws
  | ok a =>
    cases (show g.Next .commitTransaction (.ok a) g' from h) with
    | commit => rfl

theorem process_dated {x x' : Attempt} {g g' : Session schema} {op : AppOp}
    {r : Except Thrown op.Ans} (hlearns : Learns g op r g') (hnext : processNext x g op r g' x')
    (hd : x'.dated = true) (htx : g'.tx ≠ none) :
    op = .dateNow ∨ (x.dated = true ∧ g.tx ≠ none) := by
  have hkeep : op = .dateNow ∨ x.dated = true := by
    unfold processNext at hnext
    split at hnext
    · simp [hnext] at hd
    · exact .inr (hnext.1 ▸ hd)
    · exact .inr (by simpa [hnext] using hd)
    · exact .inr (hnext.1 ▸ hd)
    · exact .inr (by simpa [hnext.1] using hd)
    · exact .inr (hnext.1 ▸ hd)
    · split at hnext
      · exact .inr (hnext ▸ hd)
      · exact .inr (by simpa [hnext] using hd)
    · exact .inl rfl
    · exact .inr (by simpa [hnext] using hd)
    · exact .inr (hnext ▸ hd)
  refine hkeep.imp_right (fun hd' => ⟨hd', ?_⟩)
  rcases hlearns.open htx with hopen | ⟨rfl, rfl⟩
  · exact hopen
  · cases r with
    | ok u =>
      obtain rfl : x' = { x with dated := false } := hnext
      cases hd
    | error e =>
      cases e with
      | sql e =>
        cases (show g.Next .startTransaction (.error e) .opened from hlearns) with
        | startFailed => exact htx
      | _ => exact (show False from hlearns).elim

/-- The commit of a call that handles its message for the first time. -/
structure FirstHandling (message : Json.Fields) (T T' : Database) : Prop where
  marker : ∃ m, markerId message = some m ∧ ¬ marked T m ∧
    ∀ m', marked T' m' ↔ marked T m' ∨ m' = m
  orders : ∀ o, (T' .orders).lookup o = (T .orders).lookup o ∨ (orderRef message = some o ∧
    (∃ r, (T .orders).lookup o = some r ∧ r.status ≠ .processed) ∧
    ∃ r, (T' .orders).lookup o = some r ∧ r.status = .processed)

/-- What a `processOrderMessage` call keeps that runs alone from `T`: the tables
are those of `T`, or its one commit is behind it. -/
structure InTurn (message : Json.Fields) (i : Nat) (T : Database) (s : AppState)
    (γ : Nat → Session schema × Attempt) : Prop where
  same : (γ i).2.message = message
  strict : (γ i).2.strict = true
  late : (γ i).2.late = true ↔ ∃ m, markerId message = some m ∧ marked T m
  mark : (γ i).2.mark = true → ∀ m, markerId message = some m → marked s.store.tables m
  state : s.store.tables = T ∨
    ((γ i).1.tx = none ∧ (γ i).2.mark = true ∧ FirstHandling message T s.store.tables)
  read : s.store.tables = T → ∀ r, (γ i).2.read = some r → Concerns T (γ i).2 (· = some r)
  found : (γ i).2.read ≠ none → Concerns s.store.tables (γ i).2 (· ≠ none)
  dated : (γ i).1.tx ≠ none → (γ i).2.dated = true →
    Concerns T (γ i).2 (fun b => ∀ r, b = some r → r.status ≠ .processed)

theorem FirstHandling.marked {message : Json.Fields} {T T' : Database} {m : Uuid}
    (h : FirstHandling message T T') (hm : marked T m) : Ecomm.marked T' m := by
  obtain ⟨_, _, _, hmarks⟩ := h.marker
  exact (hmarks m).mpr (.inl hm)

theorem FirstHandling.found {message : Json.Fields} {T T' : Database} {o : Uuid}
    (h : FirstHandling message T T') (ho : (T .orders).lookup o ≠ none) :
    (T' .orders).lookup o ≠ none := by
  rcases h.orders o with hsame | ⟨_, _, r, hr, _⟩
  · rwa [hsame]
  · simp [hr]

theorem Marked.firstHandling {message : Json.Fields} {store : Store schema} {i : Nat}
    {g : Session schema} {m o : Uuid} (h : Marked true m o g) (hm : g.Matches store i)
    (hid : markerId message = some m) (ho : orderRef message = some o) :
    FirstHandling message store.tables (store.tables.replay g.writes) where
  marker := ⟨m, hid, h.new hm, h.marks hm⟩
  orders o' := by
    rcases h.orders hm o' with ⟨_, hsame⟩ | ⟨_, rfl, hbefore, hafter⟩
    · exact .inl hsame
    · exact .inr ⟨ho, hbefore, hafter⟩

theorem inTurn_sound (message : Json.Fields) (i : Nat) (T : Database) :
    processRules.protocol.Sound app (fun _ j => j = i) (Rules.Inv (InTurn message i T)) := by
  refine Rules.sound processAllowed_writes ?_
  rintro s s' γ j ch op r g' hinv rfl ha he hchange hlearns hown
  have h := hinv.rest
  have hm := hinv.session j
  -- with a transaction open nothing has been committed yet
  have hopen : (γ j).1.tx ≠ none → s.store.tables = T :=
    fun htx => h.state.resolve_right (fun hend => htx hend.1)
  have hmarked : ∀ m, marked T m → marked s.store.tables m := by
    intro m hmark
    rcases h.state with hsame | ⟨_, _, hfirst⟩
    · rwa [hsame]
    · exact hfirst.marked hmark
  have hlate : (γ j).2.late = true → ∀ m, markerId (γ j).2.message = some m →
      marked s.store.tables m := by
    intro hl m hid
    obtain ⟨m', hid', hmark⟩ := h.late.mp hl
    rw [h.same, hid'] at hid
    obtain rfl := Option.some.inj hid
    exact hmarked _ hmark
  have hguard : (γ j).2.strict = true → (γ j).2.dated = true → (γ j).1.tx ≠ none →
      Concerns s.store.tables (γ j).2 (fun b => ∀ r, b = some r → r.status ≠ .processed) := by
    intro _ hd htx
    rw [hopen htx]
    exact h.dated htx hd
  obtain ⟨a', hnext, hl⟩ := process_learns hm hown ha he hchange hlearns hlate hguard
    (fun _ hr => h.found hr)
  have htables : s'.store.tables = s.store.tables ∨ (s.store.tables = T ∧ g'.tx = none ∧
      a'.mark = true ∧ FirstHandling message T s'.store.tables) := by
    cases hws : commits (γ j).1 op r with
    | none => exact .inl (by simpa [hws] using hchange.tables)
    | some ws =>
      obtain ⟨_, hmark, _, rfl, m, o, hid, ho, hM⟩ := process_commits ha hnext hws
      have hT : s.store.tables = T := hopen (by rw [hM.isOpen]; simp)
      have ht : s'.store.tables = s.store.tables.replay (γ j).1.writes := by
        simpa [hws] using hchange.tables
      rw [h.strict] at hM
      rw [h.same] at hid ho
      have hfirst := hM.firstHandling hm hid ho
      rw [hT] at hfirst
      refine .inr ⟨hT, hlearns.closed hws, hmark, ?_⟩
      rwa [ht, hT]
  have hbefore : s'.store.tables = T → s.store.tables = T := by
    intro hT
    rcases htables with hsame | ⟨hsame, _⟩
    · exact hsame.symm.trans hT
    · exact hsame
  have hgoal : InTurn message j T s' (Function.update γ j (g', a')) := by
    constructor <;> simp only [Function.update_self]
    · exact hl.message.trans h.same
    · exact hl.strict.trans h.strict
    · rw [hl.late]
      exact h.late
    · intro hmark m hid
      rcases hl.marked hmark with hold | hnew
      · have hkept := h.mark hold m hid
        rcases htables with hsame | ⟨hT, _, _, hfirst⟩
        · rwa [hsame]
        · exact hfirst.marked (hT ▸ hkept)
      · exact hnew m (by rwa [h.same])
    · rcases htables with hsame | ⟨_, hend⟩
      · rcases h.state with hT | ⟨htx, hmark, hfirst⟩
        · exact .inl (hsame.trans hT)
        · refine .inr ⟨?_, hl.mark hmark, by rwa [hsame]⟩
          by_contra htx'
          rcases hlearns.open htx' with hne | ⟨rfl, _⟩
          · exact hne htx
          · cases hmark.symm.trans ha
      · exact .inr hend
    · intro hT r hr
      rw [Concerns, hl.message]
      rcases hl.read with hsame | hnew
      · exact h.read (hbefore hT) r (hsame ▸ hr)
      · exact hT ▸ hnew r hr
    · intro hr
      rw [Concerns, hl.message]
      intro o ho
      rcases hl.read with hsame | hnew
      · have hkept := h.found (hsame ▸ hr) o ho
        rcases htables with heq | ⟨hT, _, _, hfirst⟩
        · rwa [heq]
        · exact hfirst.found (hT ▸ hkept)
      · obtain ⟨row, hrow⟩ := Option.ne_none_iff_exists'.mp hr
        simp [hnew row hrow o ho]
    · intro htx hd
      rw [Concerns, hl.message]
      rcases process_dated hlearns hnext hd htx with rfl | ⟨hd', htx'⟩
      · obtain rfl : g' = (γ j).1 := hlearns
        obtain ⟨row, hrow, hstatus⟩ := ha htx
        intro o ho row' hrow'
        have := h.read (hopen htx) row hrow o ho
        obtain rfl := Option.some.inj (hrow'.symm.trans this)
        exact hstatus
      · exact h.dated htx' hd'
  exact ⟨a', hnext, hgoal⟩

theorem process_inTurn {T₀ : Database} {s s' : AppState} (hs : Resting T₀ s) {i : Nat}
    {message : Json.Fields} {chs : List AppChoice} {r : Except Thrown ProcessOrderMessageResult}
    (h : (processOrderMessage message).eval app i s chs = some (r, s')) :
    (s'.store.tables = s.store.tables ∨
      FirstHandling message s.store.tables s'.store.tables) ∧
    ∀ result m, r = .ok result → markerId message = some m → marked s'.store.tables m := by
  classical
  let late : Bool := ∃ m, markerId message = some m ∧ marked s.store.tables m
  let γ : Nat → Session schema × Attempt := fun _ => (.closed, .begin message late true)
  have hbegin : InTurn message i s.store.tables s γ :=
    { same := rfl
      strict := rfl
      late := by simp [γ, late, Attempt.begin]
      mark := fun hm => nomatch hm
      state := .inl rfl
      read := fun _ _ hr => nomatch hr
      found := fun hr => absurd rfl hr
      dated := fun htx => absurd rfl htx }
  have hsession : ∀ j, (γ j).1.Matches s.store j :=
    fun j => .closed (hs.tx j) (fun t id => hs.coherent.owner_none (hs.tx j) _)
  obtain ⟨g, hend, hout⟩ := (inTurn_sound message i s.store.tables).eval (fun _ => rfl)
    ⟨hs.coherent, hsession, hbegin⟩ (wp_processOrderMessage message late true) h
  refine ⟨hend.rest.state.imp_right (fun hfirst => hfirst.2.2), ?_⟩
  rintro result m rfl hid
  have hsettled : Settled message late true result g := hout
  exact hend.rest.mark (by rw [Function.update_self]; exact hsettled.mark) m hid

/-- What a `processOrderMessage` call does that took `s` to `s'`: it changes an
order when its message is handled for the first time and the order is not
processed, and then it processes the order. -/
structure WorkerStep (message : Json.Fields) (s : AppState)
    (r : Except Thrown ProcessOrderMessageResult) (s' : AppState) : Prop where
  orders : ∀ o, (s'.store.tables .orders).lookup o = (s.store.tables .orders).lookup o ∨
    (orderRef message = some o ∧
      (∃ m, markerId message = some m ∧ ¬ marked s.store.tables m) ∧
      (∃ r, (s.store.tables .orders).lookup o = some r ∧ r.status ≠ .processed) ∧
      ∃ r, (s'.store.tables .orders).lookup o = some r ∧ r.status = .processed)
  recorded : ∀ result m, r = .ok result → markerId message = some m → marked s'.store.tables m
  redelivered : ∀ m, marked s'.store.tables m → ∀ runs t, sequence s' runs = some t →
    ∀ message' j chs r' t', markerId message' = some m →
      (processOrderMessage message').eval app j t chs = some (r', t') →
      t'.store.tables = t.store.tables

/-- Among operations that run one after another, in any order, a message moves
its order to PROCESSED from any other status, once. -/
theorem worker_step {s₀ : AppState} (hs : s₀.Quiet) {runs : List Run} {s : AppState}
    (h : sequence s₀ runs = some s) {i : Nat} {message : Json.Fields} {chs : List AppChoice}
    {r : Except Thrown ProcessOrderMessageResult} {s' : AppState}
    (he : (processOrderMessage message).eval app i s chs = some (r, s')) :
    WorkerStep message s r s' := by
  have hstart : Resting s₀.store.tables s₀ := ⟨hs.coherent, hs.tx, fun _ _ hr => hr⟩
  have hrest : Resting s₀.store.tables s := sequence_resting hstart h
  obtain ⟨hstate, hrecorded⟩ := process_inTurn hrest he
  constructor
  · intro o
    rcases hstate with hsame | hfirst
    · exact .inl (by rw [hsame])
    · obtain ⟨m, hid, hnew, _⟩ := hfirst.marker
      exact (hfirst.orders o).imp_right (fun ⟨ho, hrest⟩ => ⟨ho, ⟨m, hid, hnew⟩, hrest⟩)
  · exact hrecorded
  · intro m hm runs t ht message' j chs' r' t' hid he'
    have hrest' : Resting s'.store.tables s' :=
      ((tidy_processOrderMessage message).resting hrest he).begin
    have hrest'' : Resting s'.store.tables t := sequence_resting hrest' ht
    have hmark : marked t.store.tables m := hrest''.rows .processedMessages m hm
    rcases (process_inTurn hrest'' he').1 with hsame | hfirst
    · exact hsame
    · obtain ⟨m', hid', hnew, _⟩ := hfirst.marker
      obtain rfl : m' = m := Option.some.inj (hid'.symm.trans hid)
      exact absurd hmark hnew

def paying : Run := ⟨0, .order (.update (uuidOut 7) ⟨some .paid, none⟩), List.replicate 7 (moment 5)⟩

def handled : Run := ⟨1, .order (.process (orderMessage 3)), List.replicate 9 (moment 6)⟩

theorem worker_step_afterPaying :
    ∃ s r s', sequence (serving (penOrdered .pending)) [paying] = some s ∧
      (processOrderMessage (orderMessage 3)).eval app 1 s (List.replicate 9 (moment 6)) =
        some (r, s') ∧
      WorkerStep (orderMessage 3) s r s' := by
  have h : ((sequence (serving (penOrdered .pending)) [paying]).bind (fun s =>
      (processOrderMessage (orderMessage 3)).eval app 1 s
        (List.replicate 9 (moment 6)))).isSome = true := by decide +kernel
  obtain ⟨⟨r, s'⟩, hr⟩ := Option.isSome_iff_exists.mp h
  obtain ⟨s, hs, he⟩ := Option.bind_eq_some_iff.mp hr
  exact ⟨s, r, s', hs, he, worker_step (serving_quiet (penOrdered_distinct _)) hs he⟩

def statusOf (s : AppState) (o : Uuid) : Option (OrderStatus × Option Nat) :=
  ((s.store.tables .orders).lookup o).map (fun r => (r.status, r.processedAt))

/-- The first message about an order that is paid already turns it to PROCESSED. -/
theorem paid_overridden :
    ∃ s s', sequence (serving (penOrdered .pending)) [paying] = some s ∧
      sequence s [handled] = some s' ∧ statusOf s 7 = some (.paid, none) ∧
      statusOf s' 7 = some (.processed, some 6) := by
  have h : (sequence (serving (penOrdered .pending)) [paying]).bind (fun s =>
      (sequence s [handled]).map (fun s' => (statusOf s 7, statusOf s' 7))) =
      some (some (.paid, none), some (.processed, some 6)) := by decide +kernel
  obtain ⟨s, hs, h⟩ := Option.bind_eq_some_iff.mp h
  obtain ⟨s', hs', h⟩ := Option.map_eq_some_iff.mp h
  exact ⟨s, s', hs, hs', (Prod.mk.inj h).1, (Prod.mk.inj h).2⟩

end Ecomm
