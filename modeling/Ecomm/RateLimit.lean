import Ecomm.Lib.SlidingWindow
import Ecomm.OrdersGateway

/-! The limit on `subscribeOrder` calls, for one socket from its connection to
its end. -/

namespace Ecomm

open Concurrent SlidingWindow RealtimeState

/-- The operations on the data of a socket, which no handler awaits. -/
def RealtimeOp.isSync : RealtimeOp → Bool
  | assertRateLimit _ => true
  | user _ => true
  | _ => false

/-- A handler up to its first await: what is left of it, and the state there. -/
def untilAwait (c : RealtimeChoice) : Realtime Unit → RealtimeState → Realtime Unit × RealtimeState
  | .op o k, s =>
    if o.isSync then
      match s.exec 0 c o with
      | some (r, s') => untilAwait c (k r) s'
      | none => (.op o k, s)
    else (.op o k, s)
  | p, s => (p, s)

namespace OrdersGateway

def assertRateLimit (now : Nat) (data : RealtimeClientData) :
    Except Thrown Unit × RealtimeClientData :=
  let calls := (data.subscribeCalls.getD []).filter (fun t => now - t < windowMs)
  if maxCalls ≤ calls.length then
    (.error (.wsException "Rate limit exceeded"), { data with subscribeCalls := some calls })
  else (.ok (), { data with subscribeCalls := some (calls ++ [now]) })

/-- `subscribeOrder` until it first awaits: what it throws, or what it asks
`canSubscribeToOrder`. -/
def subscribing (payload : Option Json) (now : Nat) (data : RealtimeClientData) :
    Except Thrown (String × JwtPayload) × RealtimeClientData :=
  match assertRateLimit now data with
  | (.error e, data) => (.error e, data)
  | (.ok (), data) =>
    match orderIdOf payload with
    | none => (.error (.wsException "orderId is required"), data)
    | some orderId =>
      match data.user with
      | none => (.error (.wsException "Unauthenticated"), data)
      | some user => (.ok (orderId, user), data)

def checking (describe : Thrown → String) (client : Nat) :
    Except Thrown (String × JwtPayload) → Realtime Unit
  | .error e => throw e
  | .ok (orderId, user) => do
    try
      onServer (canSubscribeToOrder orderId user)
    catch err =>
      throw (.wsException (describe err))
    awaiting (.join client (orderRoom orderId))

theorem exec_assertRateLimit (s : RealtimeState) (i : Nat) (c : RealtimeChoice) (client : Nat) :
    s.exec i c (.assertRateLimit client) =
      some ((assertRateLimit c.app.now (s.data client)).1,
        s.setData client (assertRateLimit c.app.now (s.data client)).2) := by
  simp only [RealtimeState.exec, assertRateLimit]
  split
  · rfl
  · rfl

theorem setData_data (s : RealtimeState) (client : Nat) (data : RealtimeClientData) :
    (s.setData client data).data client = data :=
  Function.update_self _ _ _

theorem checking_asks (describe : Thrown → String) (client : Nat) (asked : String × JwtPayload) :
    ∃ q k, checking describe client (.ok asked) = .op (.app q) k := by
  obtain ⟨orderId, user⟩ := asked
  simp only [checking, canSubscribeToOrder, findOneById]
  cases uuidIn orderId with
  | none => exact ⟨_, _, rfl⟩
  | some u => exact ⟨_, _, rfl⟩

theorem untilAwait_checking (describe : Thrown → String) (client : Nat) (c : RealtimeChoice)
    (s : RealtimeState) (reply : Except Thrown (String × JwtPayload)) :
    untilAwait c (checking describe client reply) s = (checking describe client reply, s) := by
  cases reply with
  | error e => rfl
  | ok asked =>
    obtain ⟨q, k, hq⟩ := checking_asks describe client asked
    simp only [hq, untilAwait, RealtimeOp.isSync, Bool.false_eq_true, if_false]

/-- The handler of the gateway, up to its first await. -/
theorem untilAwait_subscribeOrder (describe : Thrown → String) (client : Nat)
    (payload : Option Json) (c : RealtimeChoice) (s : RealtimeState) :
    untilAwait c (subscribeOrder describe client payload) s =
      (checking describe client (subscribing payload c.app.now (s.data client)).1,
        s.setData client (subscribing payload c.app.now (s.data client)).2) := by
  have hexec := exec_assertRateLimit s 0 c client
  rw [subscribing]
  generalize assertRateLimit c.app.now (s.data client) = limited at hexec
  obtain ⟨reply, data⟩ := limited
  simp only [subscribeOrder, awaiting, Prog.await, Prog.op_bind, untilAwait, RealtimeOp.isSync,
    if_true, hexec]
  cases reply with
  | error e => rfl
  | ok _ =>
    cases orderIdOf payload with
    | none => rfl
    | some orderId =>
      simp only [Prog.ret_bind, untilAwait, RealtimeOp.isSync, if_true,
        RealtimeState.exec, setData_data]
      cases data.user with
      | none => rfl
      | some user => exact untilAwait_checking describe client c _ (.ok (orderId, user))

structure SubscribeCall where
  now : Nat
  payload : Option Json

abbrev Reply := Except Thrown (String × JwtPayload)

def replies : RealtimeClientData → List SubscribeCall → List (Nat × Reply)
  | _, [] => []
  | data, call :: calls =>
    let (reply, data) := subscribing call.payload call.now data
    (call.now, reply) :: replies data calls

/-- The calls on a socket whose token is found valid between two of them;
after `early` alone it has not been found valid yet. -/
def socketReplies (early : List SubscribeCall) (user : JwtPayload) (later : List SubscribeCall) :
    List (Nat × Reply) :=
  replies ⟨none, none⟩ early ++ replies ⟨some user, some []⟩ later

def isAdmitted (reply : Nat × Reply) : Bool :=
  match reply.2 with
  | .error e => e ≠ .wsException "Rate limit exceeded"
  | .ok _ => true

def isAsked (reply : Nat × Reply) : Bool := reply.2.isOk

def admittedTimes (replies : List (Nat × Reply)) : List Nat := (replies.filter isAdmitted).map (·.1)

def askedTimes (replies : List (Nat × Reply)) : List Nat := (replies.filter isAsked).map (·.1)

theorem subscribing_data (payload : Option Json) (now : Nat) (data : RealtimeClientData) :
    (subscribing payload now data).2 = (assertRateLimit now data).2 := by
  rw [subscribing]
  split
  · next h => rw [h]
  · next h =>
    rw [h]
    split
    · rfl
    · split
      · rfl
      · rfl

theorem assertRateLimit_eq (now : Nat) (data : RealtimeClientData) :
    assertRateLimit now data =
      (if (admits windowMs maxCalls (data.subscribeCalls.getD []) now).1 then .ok ()
        else .error (.wsException "Rate limit exceeded"),
      ⟨data.user, some (admits windowMs maxCalls (data.subscribeCalls.getD []) now).2⟩) := by
  rw [assertRateLimit, admits, recent]
  split
  · rfl
  · rfl

theorem isAdmitted_subscribing (payload : Option Json) (now : Nat) (data : RealtimeClientData) :
    isAdmitted (now, (subscribing payload now data).1) =
      (admits windowMs maxCalls (data.subscribeCalls.getD []) now).1 := by
  rw [subscribing, assertRateLimit_eq]
  cases (admits windowMs maxCalls (data.subscribeCalls.getD []) now).1 with
  | false => simp [isAdmitted]
  | true =>
    simp only [if_true]
    cases orderIdOf payload with
    | none => simp [isAdmitted]
    | some orderId =>
      cases data.user with
      | none => simp [isAdmitted]
      | some user => rfl

theorem isAsked_admitted {reply : Nat × Reply} (h : isAsked reply = true) :
    isAdmitted reply = true := by
  obtain ⟨now, reply⟩ := reply
  cases reply with
  | error e => cases h
  | ok asked => rfl

theorem admittedTimes_cons (reply : Nat × Reply) (later : List (Nat × Reply)) (past : List Nat) :
    past ++ admittedTimes (reply :: later) =
      (if isAdmitted reply then past ++ [reply.1] else past) ++ admittedTimes later := by
  by_cases h : isAdmitted reply = true
  · simp [admittedTimes, h]
  · simp [admittedTimes, h]

theorem replies_cons (data : RealtimeClientData) (call : SubscribeCall)
    (calls : List SubscribeCall) :
    replies data (call :: calls) = (call.now, (subscribing call.payload call.now data).1) ::
      replies (subscribing call.payload call.now data).2 calls := rfl

/-- Calls on a socket whose log belongs to the calls `past` admitted so far. -/
theorem replies_limited (data : RealtimeClientData) {last : Nat} {past : List Nat}
    (h : Limited windowMs maxCalls last past (data.subscribeCalls.getD []))
    {calls : List SubscribeCall} (hcalls : (last :: calls.map (·.now)).Pairwise (· ≤ ·)) :
    (∃ now log, Limited windowMs maxCalls now
      (past ++ admittedTimes (replies data calls)) log) ∧
    ∀ before now after, replies data calls =
        before ++ (now, .error (.wsException "Rate limit exceeded")) :: after →
      maxCalls ≤ (recent windowMs now (past ++ admittedTimes before)).length := by
  induction calls generalizing data last past with
  | nil => exact ⟨⟨last, _, by simpa [admittedTimes, replies] using h⟩, by simp [replies]⟩
  | cons call calls ih =>
    obtain ⟨hle, hcalls⟩ := List.pairwise_cons.mp hcalls
    have hle : last ≤ call.now := hle call.now List.mem_cons_self
    have hnext := h.next hle
    have hadmitted := isAdmitted_subscribing call.payload call.now data
    have hlog : (subscribing call.payload call.now data).2.subscribeCalls.getD [] =
        (admits windowMs maxCalls (data.subscribeCalls.getD []) call.now).2 := by
      rw [subscribing_data, assertRateLimit_eq]
      rfl
    rw [← hadmitted, ← hlog] at hnext
    obtain ⟨hlimited, hrefused⟩ := ih _ hnext hcalls
    rw [replies_cons]
    refine ⟨by rwa [admittedTimes_cons], ?_⟩
    intro before now after heq
    cases before with
    | nil =>
      rw [List.nil_append, List.cons.injEq] at heq
      obtain ⟨hreply, _⟩ := heq
      rw [hreply] at hadmitted
      obtain rfl : call.now = now := congrArg Prod.fst hreply
      have hfull := (h.refused_iff hle).mp (hadmitted.symm.trans (by simp [isAdmitted]))
      simpa [admittedTimes] using hfull
    | cons first before =>
      rw [List.cons_append, List.cons.injEq] at heq
      obtain ⟨rfl, hrest⟩ := heq
      rw [admittedTimes_cons]
      exact hrefused before now after hrest

theorem askedTimes_unverified (calls : List SubscribeCall) {data : RealtimeClientData}
    (hdata : data.user = none) : askedTimes (replies data calls) = [] := by
  induction calls generalizing data with
  | nil => rfl
  | cons call calls ih =>
    have huser : (subscribing call.payload call.now data).2.user = none := by
      rw [subscribing_data, assertRateLimit_eq]
      exact hdata
    have hnot : isAsked (call.now, (subscribing call.payload call.now data).1) = false := by
      rw [subscribing, assertRateLimit_eq]
      cases (admits windowMs maxCalls (data.subscribeCalls.getD []) call.now).1 with
      | false => rfl
      | true =>
        cases orderIdOf call.payload with
        | none => rfl
        | some orderId => simp [hdata, isAsked, Except.isOk, Except.toBool]
    rw [replies_cons, askedTimes, List.filter_cons_of_neg (by simp [hnot])]
    exact ih huser

theorem askedTimes_sublist (l : List (Nat × Reply)) :
    (askedTimes l).Sublist (admittedTimes l) :=
  (List.monotone_filter_right l (fun _ h => isAsked_admitted h)).map _

theorem askedTimes_append (a b : List (Nat × Reply)) :
    askedTimes (a ++ b) = askedTimes a ++ askedTimes b := by
  rw [askedTimes, List.filter_append, List.map_append, askedTimes, askedTimes]

theorem admittedTimes_append (a b : List (Nat × Reply)) :
    admittedTimes (a ++ b) = admittedTimes a ++ admittedTimes b := by
  rw [admittedTimes, List.filter_append, List.map_append, admittedTimes, admittedTimes]

theorem length_recent_append (now : Nat) (a b : List (Nat × Reply)) :
    (recent windowMs now (admittedTimes b)).length ≤
      (recent windowMs now (admittedTimes (a ++ b))).length := by
  rw [admittedTimes_append, recent_append, List.length_append]
  exact Nat.le_add_left _ _

/-- No interval of 3 s holds more than 5 calls that ask about an order, and a
call is refused only after 5 others that the limiter let pass within 3 s. -/
theorem subscribeOrder_limited (early : List SubscribeCall) (user : JwtPayload)
    (later : List SubscribeCall)
    (hclock : ((early ++ later).map (·.now)).Pairwise (· ≤ ·)) :
    (∀ t, (within 3000 t (askedTimes (socketReplies early user later))).length ≤ 5) ∧
    (∀ i t u, (askedTimes (socketReplies early user later))[i]? = some t →
      (askedTimes (socketReplies early user later))[i + 5]? = some u → t + 3000 ≤ u) ∧
    ∀ before now after, socketReplies early user later =
        before ++ (now, .error (.wsException "Rate limit exceeded")) :: after →
      5 ≤ (recent 3000 now (admittedTimes before)).length := by
  rw [List.map_append, List.pairwise_append] at hclock
  have hzero : ∀ calls : List Nat, calls.Pairwise (· ≤ ·) → (0 :: calls).Pairwise (· ≤ ·) :=
    fun calls h => List.pairwise_cons.mpr ⟨fun _ _ => Nat.zero_le _, h⟩
  have hearly := replies_limited ⟨none, none⟩ (Limited.start windowMs maxCalls 0)
    (hzero _ hclock.1)
  have hlater := replies_limited ⟨some user, some []⟩ (Limited.start windowMs maxCalls 0)
    (hzero _ hclock.2.1)
  simp only [List.nil_append] at hearly hlater
  obtain ⟨⟨now, log, hlimited⟩, hrefused⟩ := hlater
  -- The log is reset when the token is accepted, and nobody is asked before that.
  have hasked : askedTimes (socketReplies early user later) =
      askedTimes (replies ⟨some user, some []⟩ later) := by
    rw [socketReplies, askedTimes_append, askedTimes_unverified early rfl, List.nil_append]
  have hsublist := askedTimes_sublist (replies ⟨some user, some []⟩ later)
  have hcount : ∀ t, (within 3000 t (askedTimes (socketReplies early user later))).length ≤ 5 := by
    intro t
    rw [hasked]
    exact (length_within_sublist windowMs t hsublist).trans (hlimited.count t)
  refine ⟨hcount, ?_, ?_⟩
  · intro i t u ht hu
    refine apart ?_ (hcount t) ht hu
    rw [hasked]
    exact hlimited.sorted.sublist hsublist
  · intro before now after heq
    rcases List.append_eq_append_iff.mp heq with ⟨rest, hbefore, hrest⟩ | ⟨rest, hbefore, hrest⟩
    · rw [hbefore]
      exact (hrefused rest now after hrest).trans (length_recent_append now _ rest)
    · cases rest with
      | nil =>
        rw [List.append_nil] at hbefore
        have hfull := (hrefused [] now after hrest.symm).trans (length_recent_append now before [])
        rwa [List.append_nil] at hfull
      | cons first rest =>
        rw [List.cons_append, List.cons.injEq] at hrest
        exact hearly.2 before now rest (hrest.1 ▸ hbefore)

/-- Six calls at once, and one when the first five are 3 s old. -/
def burst : List SubscribeCall :=
  [0, 0, 0, 0, 0, 1, 3000].map (fun now => ⟨now, some (.obj [("orderId", .str (uuidOut 7))])⟩)

theorem subscribeOrder_limited_burst :
    askedTimes (socketReplies [] ⟨uuidOut 1, "", ["user"], []⟩ burst) = [0, 0, 0, 0, 0, 3000] ∧
    ∀ before now after, socketReplies [] ⟨uuidOut 1, "", ["user"], []⟩ burst =
        before ++ (now, .error (.wsException "Rate limit exceeded")) :: after →
      5 ≤ (recent 3000 now (admittedTimes before)).length :=
  ⟨by decide +kernel,
    (subscribeOrder_limited [] ⟨uuidOut 1, "", ["user"], []⟩ burst (by decide)).2.2⟩

end OrdersGateway

end Ecomm
