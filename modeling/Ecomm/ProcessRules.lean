import Ecomm.OrdersService
import Ecomm.Rules

/-! What `processOrderMessage` does, as a program: its one transaction commits
the marker of the message, alone or together with the order. -/

namespace Ecomm

open Concurrent Sql

/-- The `messageId` of a message, when the server takes it for a uuid. -/
def markerId (message : Json.Fields) : Option Uuid :=
  (uuidParam (message.lookup "messageId")).toOption

def orderRef (message : Json.Fields) : Option Uuid :=
  (uuidParam (message.lookup "orderId")).toOption

/-- What a thread that runs `processOrderMessage` knows. `late` says that the
marker was there before the call, and `strict` that the order is not processed
by others while the call is past its guard. `mark` records that the marker is
committed, `read` the order as last read, `dated` that its transaction has read
the clock for `processedAt`, `wrote` that the order was committed, `announced` the event. -/
structure Attempt where
  message : Json.Fields
  late : Bool
  strict : Bool
  mark : Bool
  read : Option Order
  dated : Bool
  wrote : Bool
  announced : Bool

def Attempt.begin (message : Json.Fields) (late strict : Bool) : Attempt :=
  ⟨message, late, strict, false, none, false, false, false⟩

def writesOrder (ws : List (Write schema)) : Bool := ws.any (fun w => w.table = .orders)

structure Marked (strict : Bool) (m o : Uuid) (g : Session schema) : Prop where
  isOpen : g.tx = some ⟨g.writes, false⟩
  isNew : g.base .processedMessages m = some none
  marker : ∃ row, g.seen .processedMessages m = some (some row)
  writes : ∀ w ∈ g.writes,
    (w.table = .processedMessages ∧ w.id = m) ∨ (w.table = .orders ∧ w.id = o)
  order : writesOrder g.writes = true → ∃ b r, g.base .orders o = some b ∧
    g.seen .orders o = some (some r) ∧ (strict = true → r.status = .processed ∧
      ∃ r₀, b = some r₀ ∧ r₀.status ≠ .processed)

def processAllowed (x : Attempt) (g : Session schema) : AppOp → Prop
  | .sql .startTransaction => x.mark = false
  | .sql .rollbackTransaction => True
  | .sql .commitTransaction => g.tx = some ⟨[], true⟩ ∨ (x.late = false ∧
    ∃ m o, markerId x.message = some m ∧ orderRef x.message = some o ∧ Marked x.strict m o g)
  | .sql (.stmt (.insert .processedMessages id _)) => g.tx = some ⟨[], false⟩ ∧
    ∃ m, id = some m ∧ markerId x.message = some m
  | .sql (.stmt (.select .orders cond)) => ∃ o, orderRef x.message = some o ∧
    (∀ j r, cond j r = true ↔ j = o) ∧ g.base .orders o = none
  | .sql (.stmt (.update .orders id _)) => g.tx ≠ none ∧ orderRef x.message = some id ∧
    g.base .orders id = none
  | .sql (.stmt (.insert .orders _ _)) => g.tx ≠ none
  | .sql (.stmt (.malformed _)) => True
  | .dateNow => g.tx ≠ none → ∃ r, x.read = some r ∧ r.status ≠ .processed
  | .publishStatusChanged e => x.late = false ∧ x.announced = false ∧
    (x.strict = true → x.wrote = true) ∧ orderRef x.message = some e.orderId
  | _ => False

def processNext (x : Attempt) (g : Session schema) :
    (o : AppOp) → Except Thrown o.Ans → Session schema → Attempt → Prop
  | .sql .startTransaction, .ok _, _, x' => x' = { x with dated := false }
  | .sql (.stmt (.insert .processedMessages _ _)), .ok _, _, x' => x' = x ∧ x.late = false
  | .sql (.stmt (.insert .processedMessages _ _)), .error (.sql .uniqueViolation), _, x' =>
    x' = { x with mark := true }
  | .sql (.stmt (.malformed e)), .error (.sql .uniqueViolation), _, x' =>
    x' = x ∧ e = .uniqueViolation
  | .sql (.stmt (.select .orders _)), .ok rows, _, x' =>
    x' = { x with read := (show List (Uuid × Order) from rows).head?.map (·.2) } ∧
      (x.strict = true → x.dated = true → g.tx ≠ none →
        (∀ e ∈ (show List (Uuid × Order) from rows), e.2.status ≠ .processed) ∧
        (x.read ≠ none → (show List (Uuid × Order) from rows) ≠ []))
  | .sql (.stmt (.update .orders id _)), .ok row, g', x' =>
    x' = x ∧ (x.strict = true → x.dated = true →
      (∀ old, g'.base .orders id = some (some old) → old.status ≠ .processed) ∧
      ((show Option Order from row) = none → x.read = none))
  | .sql .commitTransaction, .ok _, _, x' =>
    x' = if g.tx.any (·.aborted) then x
      else { x with mark := true, wrote := x.wrote || writesOrder g.writes }
  | .dateNow, .ok _, _, x' => x' = { x with dated := true }
  | .publishStatusChanged _, _, _, x' => x' = { x with announced := true }
  | _, _, _, x' => x' = x

def processRules : Rules Attempt := ⟨processAllowed, processNext⟩

section

variable {x : Attempt} {g : Session schema} {m o : Uuid}

theorem Marked.inserted (strict : Bool) (m o : Uuid) (row : ProcessedMessage) :
    Marked strict m o (Session.opened.put .processedMessages m none row) := by
  have hx : (Session.opened : Session schema).tx = some ⟨[], false⟩ := rfl
  have hws : (Session.opened.put .processedMessages m none row : Session schema).writes =
    [⟨.processedMessages, m, some row⟩] := Session.put_writes hx
  constructor
  · rw [Session.put_tx hx, hws]
    rfl
  · rw [Session.put_base_self hx]
    rfl
  · exact ⟨row, Session.put_seen_self hx⟩
  · simp [hws]
  · simp [hws, writesOrder]

theorem Marked.putOrder {strict : Bool} (h : Marked strict m o g)
    (hbase : g.base .orders o = none) {old : Option Order} {row : Order}
    (hrow : strict = true → row.status = .processed ∧
      ∃ r, old = some r ∧ r.status ≠ .processed) :
    Marked strict m o (g.put .orders o old row) := by
  have hws : (g.put .orders o old row).writes = g.writes ++ [⟨.orders, o, some row⟩] :=
    Session.put_writes h.isOpen
  constructor
  · rw [Session.put_tx h.isOpen, hws]
  · rw [Session.put_base_other h.isOpen (by simp)]
    exact h.isNew
  · rw [Session.put_seen_other h.isOpen (by simp)]
    exact h.marker
  · intro w hw
    rw [hws] at hw
    rcases List.mem_append.mp hw with hw | hw
    · exact h.writes w hw
    · obtain rfl := List.mem_singleton.mp hw
      exact .inr ⟨rfl, rfl⟩
  · intro _
    refine ⟨old, row, ?_, Session.put_seen_self h.isOpen, hrow⟩
    rw [Session.put_base_self h.isOpen, hbase, Option.getD_none]

theorem writesOrder_put (hx : g.tx = some ⟨g.writes, false⟩) (old : Option Order) (row : Order) :
    writesOrder (g.put .orders o old row).writes = true := by
  rw [Session.put_writes hx]
  simp [writesOrder]

theorem uuidParam_error {p : Option Json} {e : SqlError} (h : uuidParam p = .error e) :
    e ≠ .uniqueViolation := by
  unfold uuidParam at h
  split at h
  · cases h
    simp
  · cases h
    simp
  · split at h
    · cases h
    · cases h
      simp
  · cases h
    simp

theorem wp_rejectParam {α : Type} {e : SqlError} (he : e ≠ .uniqueViolation)
    {Q : α → Session schema × Attempt → Prop} :
    (reject e : App α).wp processRules.protocol Q
      (fun e' _ => isUniqueViolation e' = false) (g, x) := by
  refine (Prog.wp_bind _ _ _ _ _).mpr (Rules.wp_sql trivial trivial ?_ ?_)
  · intro a
    exact nomatch (show Empty from a)
  · intro e' g' x' _ hx
    cases e' with
    | uniqueViolation => exact absurd hx.2 he
    | _ => rfl

theorem wp_insertMarker :
    (insertMarker (x.message.lookup "messageId") (x.message.lookup "orderId")).wp
      processRules.protocol
      (fun o g' => g'.2 = x ∧ x.late = false ∧ orderRef x.message = some o ∧
        ∃ m, markerId x.message = some m ∧ Marked x.strict m o g'.1 ∧
          g'.1.base .orders o = none ∧ writesOrder g'.1.writes = false)
      (fun e g' => isUniqueViolation e = true →
        g'.1.tx = some ⟨[], true⟩ ∧ g'.2 = { x with mark := true })
      (.opened, x) := by
  unfold insertMarker
  split
  · next m o hm ho =>
    have hid : markerId x.message = some m := by simp [markerId, hm, Except.toOption]
    refine (Prog.wp_bind _ _ _ _ _).mpr (Rules.wp_sql trivial ⟨rfl, m, rfl, hid⟩ ?_ ?_)
    · intro a g' x' hn hx
      obtain ⟨rfl, hlate⟩ := hx
      cases hn with
      | insert _ _ _ j now hj h =>
        obtain rfl := hj m rfl
        refine ⟨rfl, hlate, by simp [orderRef, ho, Except.toOption], j, hid, .inserted _ _ _ _, ?_, ?_⟩
        · rw [Session.put_base_other rfl (by simp)]
          rfl
        · rw [Session.put_writes rfl]
          rfl
    · intro e g' x' hn hx he
      cases hn with
      | failed =>
        cases e with
        | uniqueViolation => exact ⟨rfl, hx⟩
        | _ => cases he
  · next e he =>
    refine Prog.wp_mono (wp_rejectParam (uuidParam_error he)) (fun _ _ h => h) ?_
    intro e' g' h h'
    rw [h] at h'
    cases h'
  · next e he _ =>
    refine Prog.wp_mono (wp_rejectParam (uuidParam_error he)) (fun _ _ h => h) ?_
    intro e' g' h h'
    rw [h] at h'
    cases h'

/-- Reading the order; past the guard of a strict call it is not processed. -/
theorem wp_readOrder (ho : orderRef x.message = some o) (hbase : g.base .orders o = none) :
    (findOne .orders (fun id _ => id = o)).wp processRules.protocol
      (fun found g' => g' = (g, { x with read := found.map (·.2) }) ∧
        (∀ e, found = some e → e.1 = o) ∧ (x.strict = true → x.dated = true → g.tx ≠ none →
          (∀ e, found = some e → e.2.status ≠ .processed) ∧ (x.read ≠ none → found ≠ none)))
      (fun _ _ => True) (g, x) := by
  refine (Prog.wp_bind _ _ _ _ _).mpr (Rules.wp_sql trivial ⟨o, ho, by simp, hbase⟩ ?_
    (fun _ _ _ _ _ => trivial))
  intro (rows : List (Uuid × Order)) g' x' hn hx
  obtain ⟨rfl, hstrict⟩ := hx
  cases hn with
  | select _ _ _ h =>
    refine ⟨rfl, ?_, ?_⟩
    · intro e he
      simpa using h.meets e (List.mem_of_head? he)
    · intro hs hd hg
      obtain ⟨hstatus, hsome⟩ := hstrict hs hd hg
      exact ⟨fun e he => hstatus e (List.mem_of_head? he),
        fun hread => by simpa using hsome hread⟩

theorem wp_commit_marked (hlate : x.late = false) (hm : markerId x.message = some m)
    (ho : orderRef x.message = some o) (h : Marked x.strict m o g) :
    commitTransaction.wp processRules.protocol
      (fun _ g' => g' = (.closed, { x with mark := true, wrote := x.wrote || writesOrder g.writes }))
      (fun _ _ => True) (g, x) := by
  refine Rules.wp_sql trivial (.inr ⟨hlate, m, o, hm, ho, h⟩) ?_ (fun _ _ _ _ _ => trivial)
  intro a g' x' hn hx
  have hopen : g.tx.any (·.aborted) = false := by rw [h.isOpen]; rfl
  obtain rfl : x' = { x with mark := true, wrote := x.wrote || writesOrder g.writes } := by
    have hx : x' = if g.tx.any (·.aborted) = true then x
      else { x with mark := true, wrote := x.wrote || writesOrder g.writes } := hx
    simpa [hopen] using hx
  cases hn with
  | commit => rfl

theorem wp_commit_aborted (h : g.tx = some ⟨[], true⟩) :
    commitTransaction.wp processRules.protocol (fun _ g' => g' = (.closed, x))
      (fun _ _ => True) (g, x) := by
  refine Rules.wp_sql trivial (.inl h) ?_ (fun _ _ _ _ _ => trivial)
  intro a g' x' hn hx
  obtain rfl : x' = x := by
    have hx : x' = if g.tx.any (·.aborted) = true then x
      else { x with mark := true, wrote := x.wrote || writesOrder g.writes } := hx
    simpa [h] using hx
  cases hn with
  | commit => rfl

theorem wp_saveProcessed {order : Order} {now : Nat} (hdated : x.dated = true)
    (hread : x.read ≠ none) (ho : orderRef x.message = some o) (h : Marked x.strict m o g)
    (hbase : g.base .orders o = none) :
    (managerSave .orders o { order with status := .processed, processedAt := some now }).wp
      processRules.protocol
      (fun _ g' => Marked x.strict m o g'.1 ∧ (∃ r, g'.2 = { x with read := r }) ∧
        (x.strict = true → writesOrder g'.1.writes = true))
      (fun _ _ => True) (g, x) := by
  have hopen : g.tx ≠ none := by
    rw [h.isOpen]
    simp
  refine (Prog.wp_bind _ _ _ _ _).mpr ?_
  refine Prog.wp_mono (wp_readOrder ho hbase) ?_ (fun _ _ h => h)
  rintro found _ ⟨rfl, hid, hfound⟩
  split
  · next hsame =>
    -- the row is as the entity already: only another call can have made it so
    refine ⟨h, ⟨_, rfl⟩, ?_⟩
    intro hs
    obtain ⟨e, rfl, he⟩ := Option.map_eq_some_iff.mp hsame
    have := (hfound hs hdated hopen).1 e rfl
    rw [he] at this
    exact absurd rfl this
  · cases found with
    | none =>
      refine (Prog.wp_bind _ _ _ _ _).mpr (Rules.wp_sql trivial hopen ?_
        (fun _ _ _ _ _ => trivial))
      intro a g' x' hn hx
      obtain rfl : x' = _ := hx
      cases hn with
      | insert _ _ _ j _ hj _ =>
        obtain rfl := hj o rfl
        exact ⟨h.putOrder hbase (fun hs => absurd rfl ((hfound hs hdated hopen).2 hread)),
          ⟨_, rfl⟩, fun _ => writesOrder_put h.isOpen _ _⟩
    | some e =>
      refine (Prog.wp_bind _ _ _ _ _).mpr (Rules.wp_sql trivial ⟨hopen, ho, hbase⟩ ?_
        (fun _ _ _ _ _ => trivial))
      intro a g' x' hn hx
      obtain ⟨rfl, hstrict⟩ := hx
      cases hn with
      | updateMissing =>
        refine ⟨h, ⟨_, rfl⟩, ?_⟩
        intro hs
        have := (hstrict hs hdated).2 rfl
        cases this
      | update _ _ _ now' old _ =>
        refine ⟨h.putOrder hbase ?_, ⟨_, rfl⟩, fun _ => writesOrder_put h.isOpen _ _⟩
        intro hs
        have hold := (hstrict hs hdated).1 old (by
          rw [Session.put_base_self h.isOpen, hbase, Option.getD_none])
        have hread := (hfound hs hdated hopen).1 e rfl
        exact ⟨by simp [saveColumns, column, hread.symm], old, rfl, hold⟩

structure Processed (message : Json.Fields) (late strict : Bool) (result : Processing)
    (g : Session schema × Attempt) : Prop where
  closed : g.1 = .closed
  sameMessage : g.2.message = message
  sameStrict : g.2.strict = strict
  sameLate : g.2.late = late
  mark : g.2.mark = true
  announced : g.2.announced = false
  inTime : result ≠ .deduplicated → late = false
  wrote : ∀ id order, result = .statusChanged id order →
    orderRef message = some id ∧ (strict = true → g.2.wrote = true)

theorem wp_processInTransaction (message : Json.Fields) (late strict : Bool) :
    (do let result ← processInTransaction message; commitTransaction; pure result :
      App Processing).wp processRules.protocol (Processed message late strict) (fun _ _ => True)
      (.opened, .begin message late strict) := by
  refine (Prog.wp_bind _ _ _ _ _).mpr ((Prog.wp_bind _ _ _ _ _).mpr ?_)
  refine (Prog.wp_tryCatch _ _ _ _ _).mpr ((Prog.wp_bind _ _ _ _ _).mpr ?_)
  refine Prog.wp_mono (wp_insertMarker (x := .begin message late strict)) ?_ ?_
  · rintro o ⟨g, x⟩ ⟨rfl, hlate, ho, m, hm, hmarked, hbase, hnone⟩
    refine (Prog.wp_bind _ _ _ _ _).mpr ?_
    refine Prog.wp_mono (wp_readOrder ho hbase) ?_ (fun _ _ h => h)
    rintro found _ ⟨rfl, hfound, _⟩
    cases found with
    | none => trivial
    | some e =>
      obtain ⟨id, order⟩ := e
      obtain rfl : id = o := hfound _ rfl
      dsimp only
      split
      · refine (Prog.wp_bind _ _ _ _ _).mpr ?_
        refine Prog.wp_mono (wp_commit_marked hlate hm ho hmarked) ?_ (fun _ _ h => h)
        rintro _ _ rfl
        exact ⟨rfl, rfl, rfl, rfl, rfl, rfl, fun _ => hlate, by simp⟩
      · next hstatus =>
        refine (Prog.wp_bind _ _ _ _ _).mpr ?_
        refine Rules.wp_other (by simp) (fun _ => ⟨order, rfl, hstatus⟩) ?_ (fun _ _ _ => trivial)
        intro now x' hx
        obtain rfl : x' = _ := hx
        refine (Prog.wp_bind _ _ _ _ _).mpr ?_
        refine Prog.wp_mono (wp_saveProcessed rfl (by simp) ho hmarked hbase) ?_ (fun _ _ h => h)
        rintro saved ⟨g', x'⟩ ⟨hmarked', ⟨r, rfl⟩, hwrote⟩
        refine (Prog.wp_bind _ _ _ _ _).mpr ?_
        refine Prog.wp_mono (wp_commit_marked hlate hm ho hmarked') ?_ (fun _ _ h => h)
        rintro _ _ rfl
        refine ⟨rfl, rfl, rfl, rfl, rfl, rfl, fun _ => hlate, ?_⟩
        rintro id' order' ⟨⟩
        exact ⟨ho, fun hs => by simp [hwrote hs]⟩
  · rintro error ⟨g, x⟩ herror
    split
    · next hu =>
      obtain ⟨htx, rfl⟩ := herror hu
      refine (Prog.wp_bind _ _ _ _ _).mpr ?_
      refine Prog.wp_mono (wp_commit_aborted htx) ?_ (fun _ _ h => h)
      rintro _ _ rfl
      exact ⟨rfl, rfl, rfl, rfl, rfl, rfl, by simp, by simp⟩
    · trivial

/-- What `processOrderMessage` answers: its marker is committed by then, and a
call that came after the marker is deduplicated. -/
structure Settled (message : Json.Fields) (late strict : Bool) (a : ProcessOrderMessageResult)
    (g : Session schema × Attempt) : Prop where
  closed : g.1 = .closed
  sameMessage : g.2.message = message
  sameLate : g.2.late = late
  mark : g.2.mark = true
  duplicate : late = true → a.outcome = .deduplicated
  wrote : a.outcome = .processed → strict = true → g.2.wrote = true

theorem wp_processOrderMessage (message : Json.Fields) (late strict : Bool) :
    (processOrderMessage message).wp processRules.protocol (Settled message late strict)
      (fun _ _ => True) (.closed, .begin message late strict) := by
  refine (Prog.wp_bind _ _ _ _ _).mpr ?_
  refine Prog.wp_mono (Q := Processed message late strict)
    (Rules.wp_transaction rfl rfl (fun _ _ => trivial) ?_) ?_ (fun _ _ h => h)
  · intro x' hx
    obtain rfl : x' = _ := hx
    exact wp_processInTransaction message late strict
  · rintro result ⟨g, x⟩ h
    cases result with
    | deduplicated => exact ⟨h.closed, h.sameMessage, h.sameLate, h.mark, fun _ => rfl, by simp⟩
    | unchanged id order =>
      refine ⟨h.closed, h.sameMessage, h.sameLate, h.mark, ?_, by simp⟩
      intro hl
      rw [h.inTime (by simp)] at hl
      cases hl
    | statusChanged id order =>
      obtain ⟨ho, hwrote⟩ := h.wrote id order rfl
      have hlate : late = false := h.inTime (by simp)
      refine (Prog.wp_bind _ _ _ _ _).mpr ?_
      have htx : g.tx = none := by rw [show g = .closed from h.closed]; rfl
      refine Rules.wp_other (by simp) (fun hne => absurd htx hne) ?_ (fun _ _ _ => trivial)
      intro ts x' hx
      obtain rfl : x' = { x with dated := true } := hx
      refine (Prog.wp_bind _ _ _ _ _).mpr ?_
      refine Rules.wp_other (by simp) ⟨h.sameLate.trans hlate, h.announced, ?_, ?_⟩ ?_
        (fun _ _ _ => trivial)
      · exact fun hs => hwrote (h.sameStrict ▸ hs)
      · exact h.sameMessage ▸ ho
      · intro _ x' hx
        obtain rfl : x' = { x with dated := true, announced := true } := hx
        refine ⟨h.closed, h.sameMessage, h.sameLate, h.mark, ?_, fun _ => hwrote⟩
        intro hl
        rw [hlate] at hl
        cases hl

/-- What a call commits is its marker, with or without its order. -/
theorem process_commits {op : AppOp} {r : Except Thrown op.Ans} {g' : Session schema} {x' : Attempt}
    {ws : List (Write schema)} (ha : processAllowed x g op) (hnext : processNext x g op r g' x')
    (hws : commits g op r = some ws) :
    x.late = false ∧ x'.mark = true ∧ x'.wrote = (x.wrote || writesOrder g.writes) ∧
      ws = g.writes ∧ ∃ m o, markerId x.message = some m ∧ orderRef x.message = some o ∧
        Marked x.strict m o g := by
  obtain ⟨rfl, htx⟩ := commits_eq_some hws
  have hwrites : g.writes = ws := Session.writes_open htx
  rcases ha with hab | ⟨hl, m, o, hid, ho, hmarked⟩
  · rw [htx] at hab
    cases hab
  · cases r with
    | error e => cases hws
    | ok u =>
      have hx' : x' = if g.tx.any (·.aborted) then x
        else { x with mark := true, wrote := x.wrote || writesOrder g.writes } := hnext
      obtain rfl : x' = { x with mark := true, wrote := x.wrote || writesOrder g.writes } := by
        simpa [htx] using hx'
      exact ⟨hl, rfl, rfl, hwrites.symm, m, o, hid, ho, hmarked⟩

end

end Ecomm
