import Ecomm.OrdersService
import Ecomm.OrdersEvents

/-! `OrdersGateway`: sockets of the namespace `/realtime`, the orders that they
subscribe to, and the status events that their rooms get. -/

namespace Ecomm

open Concurrent

abbrev JwtPayload := AuthUser

structure RealtimeClientData where
  user : Option JwtPayload
  subscribeCalls : Option (List Nat)

structure Handshake where
  authToken : Option Json
  authorization : Option String
  queryToken : Option Json

inductive RealtimeOp where
  | app (o : AppOp)
  | verifyAsync (token : String)
  | setUser (client : Nat) (payload : JwtPayload)
  | user (client : Nat)
  | assertRateLimit (client : Nat)
  | clearCalls (client : Nat)
  | join (client : Nat) (room : String)
  | leave (client : Nat) (room : String)
  | disconnect (client : Nat)
  | emit (room : String) (event : OrdersEventsService.Event)

@[reducible] def RealtimeOp.Ans : RealtimeOp → Type
  | app o => o.Ans
  | verifyAsync _ => JwtPayload
  | user _ => Option JwtPayload
  | _ => Unit

abbrev Realtime := Prog RealtimeOp RealtimeOp.Ans Thrown

def onServer {α : Type} : App α → Realtime α
  | .ret a => .ret a
  | .raise e => .raise e
  | .op o k => .op (.app o) (fun r => onServer (k r))

/-- Whether a token is accepted is the choice of the environment. -/
structure RealtimeChoice where
  app : AppChoice
  verified : Option JwtPayload

/-- `used` lists the ids of orders that exist and all ids that the server has
generated, `accepted` the tokens that `verifyAsync` accepted with their
payloads, `rooms` the members of the rooms, and `received` what the sockets got. -/
structure RealtimeState where
  app : AppState
  used : List Uuid
  data : Nat → RealtimeClientData
  accepted : List (String × JwtPayload)
  rooms : List (Nat × String)
  received : List (Nat × OrdersEventsService.Event)

namespace RealtimeState

def setData (s : RealtimeState) (client : Nat) (data : RealtimeClientData) : RealtimeState :=
  { s with data := Function.update s.data client data }

def generated (c : AppChoice) : AppOp → Option Uuid
  | .sql (.stmt (.insert _ none _)) => some c.sql.id
  | _ => none

def windowMs : Nat := 3000
def maxCalls : Nat := 5

/-- The operations are atomic, and `uuid_generate_v4` never repeats an id. -/
def exec (s : RealtimeState) (i : Nat) (c : RealtimeChoice) :
    (o : RealtimeOp) → Option (Except Thrown o.Ans × RealtimeState)
  | .app o =>
    if (generated c.app o).any (fun id => id ∈ s.used) then none
    else (s.app.exec i c.app o).map (fun (r, app) =>
      (r, { s with app, used := (generated c.app o).toList ++ s.used }))
  | .verifyAsync token =>
    match c.verified with
    | some payload => some (.ok payload, { s with accepted := s.accepted ++ [(token, payload)] })
    | none => some (.error (.unauthorized "invalid token"), s)
  | .setUser client payload => some (.ok (), s.setData client ⟨some payload, some []⟩)
  | .user client => some (.ok (s.data client).user, s)
  | .assertRateLimit client =>
    let data := s.data client
    let calls := (data.subscribeCalls.getD []).filter (fun t => c.app.now - t < windowMs)
    if maxCalls ≤ calls.length then
      some (.error (.wsException "Rate limit exceeded"),
        s.setData client { data with subscribeCalls := some calls })
    else some (.ok (), s.setData client { data with subscribeCalls := some (calls ++ [c.app.now]) })
  | .clearCalls client =>
    let data := s.data client
    some (.ok (), s.setData client
      { data with subscribeCalls := data.subscribeCalls.map (fun _ => []) })
  | .join client room => some (.ok (), { s with rooms := s.rooms ++ [(client, room)] })
  | .leave client room =>
    some (.ok (), { s with rooms := s.rooms.filter (fun m => m ≠ (client, room)) })
  | .disconnect client =>
    some (.ok (), { s with rooms := s.rooms.filter (fun m => m.1 ≠ client) })
  | .emit room event =>
    some (.ok (), { s with received := s.received ++
      (s.rooms.filter (fun m => m.2 = room)).map (fun m => (m.1, event)) })

end RealtimeState

abbrev realtime : Machine RealtimeOp RealtimeOp.Ans Thrown where
  State := RealtimeState
  Choice := RealtimeChoice
  exec := RealtimeState.exec

namespace OrdersGateway

def awaiting (o : RealtimeOp) : Realtime o.Ans := Prog.await o

def orderRoom (orderId : String) : String := "order:" ++ orderId

def jsSpaces : List Char :=
  ['\t', '\n', '\x0b', '\x0c', '\r', ' ', '\u00a0', '\u1680', '\u2000', '\u2001', '\u2002', '\u2003',
    '\u2004', '\u2005', '\u2006', '\u2007', '\u2008', '\u2009', '\u200a', '\u2028', '\u2029', '\u202f',
    '\u205f', '\u3000', '\ufeff']

/-- `String.prototype.trim`. -/
def trim (s : String) : String :=
  String.ofList (((s.toList.dropWhile (fun c => c ∈ jsSpaces)).reverse.dropWhile
    (fun c => c ∈ jsSpaces)).reverse)

/-- `typeof token === 'string' && token.length > 0`. -/
def nonEmptyText : Option Json → Option String
  | some (.str s) => truthy (some s)
  | _ => none

def bearerToken (header : Option String) : Option String :=
  header.bind (fun h =>
    if (String.ofList (h.toList.take 7)).toLower = "bearer "
    then some (trim (String.ofList (h.toList.drop 7))) else none)

def getTokenFromHandshake (handshake : Handshake) : Option String :=
  nonEmptyText handshake.authToken |>.or (bearerToken handshake.authorization)
    |>.or (nonEmptyText handshake.queryToken)

def handleConnection (client : Nat) (handshake : Handshake) : Realtime Unit :=
  match truthy (getTokenFromHandshake handshake) with
  | none => awaiting (.disconnect client)
  | some token => do
    try
      let payload ← awaiting (.verifyAsync token)
      awaiting (.setUser client payload)
    catch _ =>
      awaiting (.disconnect client)

def handleDisconnect (client : Nat) : Realtime Unit := do
  -- Socket.IO has taken the socket out of its rooms.
  awaiting (.disconnect client)
  awaiting (.clearCalls client)

/-- `payload?.orderId`, which has to be a string that is not empty. -/
def orderIdOf (payload : Option Json) : Option String :=
  nonEmptyText (payload.bind (Json.get "orderId"))

/-- `describe` is the message of an error. -/
def subscribeOrder (describe : Thrown → String) (client : Nat) (payload : Option Json) :
    Realtime Unit := do
  awaiting (.assertRateLimit client)
  match orderIdOf payload with
  | none => throw (.wsException "orderId is required")
  | some orderId =>
    match ← awaiting (.user client) with
    | none => throw (.wsException "Unauthenticated")
    | some user =>
      try
        onServer (canSubscribeToOrder orderId user)
      catch err =>
        throw (.wsException (describe err))
      awaiting (.join client (orderRoom orderId))

def unsubscribeOrder (client : Nat) (payload : Option Json) : Realtime Unit :=
  match orderIdOf payload with
  | none => throw (.wsException "orderId is required")
  | some orderId => awaiting (.leave client (orderRoom orderId))

def emitOrderStatus (event : OrdersEventsService.Event) : Realtime Unit :=
  awaiting (.emit (orderRoom event.orderId) event)

end OrdersGateway

end Ecomm
