import Ecomm.OrderOwnersRuns

/-! Who is in the room of an order: sockets whose token was accepted, for staff
or for the owner of the order. -/

namespace Ecomm

open Concurrent Sql OrdersGateway

/-- What a handler knows: orders with their owners, who is behind a socket, and
the tokens that it has verified. -/
structure Visit where
  owners : Owners
  users : List (Nat × JwtPayload)
  verified : List (String × JwtPayload)

/-- Staff, or the user whom `owner` names for the order. -/
def MayRead (owner : Uuid → Uuid → Prop) (orderId : String) (user : JwtPayload) : Prop :=
  isStaff user.roles = true ∨
    ∃ o u, uuidIn orderId = some o ∧ owner o u ∧ uuidOut u = user.sub

theorem MayRead.mono {owner owner' : Uuid → Uuid → Prop} {orderId : String} {user : JwtPayload}
    (h : MayRead owner orderId user) (hmono : ∀ o u, owner o u → owner' o u) :
    MayRead owner' orderId user := by
  rcases h with h | ⟨o, u, ho, hu, hsub⟩
  · exact .inl h
  · exact .inr ⟨o, u, ho, hmono o u hu, hsub⟩

section Protocol

variable (handshake : Nat → Handshake)

def handshakeToken (client : Nat) : Option String :=
  truthy (getTokenFromHandshake (handshake client))

def Visit.Allowed (g : Visit) : RealtimeOp → Prop
  | .app o => g.owners.Keeps o
  | .setUser client payload =>
    ∃ token, handshakeToken handshake client = some token ∧ (token, payload) ∈ g.verified
  | .join client room => ∃ orderId payload, room = orderRoom orderId ∧
    (client, payload) ∈ g.users ∧ g.owners.plain = true ∧
    MayRead (fun o u => (o, u) ∈ g.owners.known) orderId payload
  | .emit room event => room = orderRoom event.orderId
  | _ => True

def Visit.Learns (g : Visit) : (o : RealtimeOp) → Except Thrown o.Ans → Visit → Prop
  | .app o, r, g' => ∃ w, g.owners.Learns o r w ∧ g' = { g with owners := w }
  | .verifyAsync token, .ok payload, g' =>
    g' = { g with verified := g.verified ++ [(token, payload)] }
  | .user client, .ok (some payload), g' => g' = { g with users := g.users ++ [(client, payload)] }
  | _, _, g' => g' = g

def visits : Protocol RealtimeOp RealtimeOp.Ans Thrown Visit where
  allowed := Visit.Allowed handshake
  next := Visit.Learns

variable {handshake} {g : Visit}

theorem wp_onServer {α : Type} {p : App α} {Q : α → Owners → Prop} {E : Thrown → Owners → Prop}
    (h : p.wp owners Q E g.owners) :
    (onServer p).wp (visits handshake)
      (fun a g' => Q a g'.owners ∧ g'.users = g.users) (fun e g' => E e g'.owners) g := by
  induction p generalizing g with
  | ret a => exact ⟨h, rfl⟩
  | raise e => exact h
  | op o k ih =>
    refine ⟨h.1, ?_⟩
    rintro r g' ⟨w, hw, rfl⟩
    exact ih r (g := { g with owners := w }) (h.2 r w hw)

theorem wp_handleConnection (client : Nat) :
    (handleConnection client (handshake client)).wp (visits handshake)
      (fun _ _ => True) (fun _ _ => True) g := by
  unfold handleConnection
  split
  · exact (Prog.wp_await _ _ _ _).mpr ⟨trivial, fun _ _ _ => trivial, fun _ _ _ => trivial⟩
  · next token htoken =>
    have hfailed : ∀ g', (awaiting (.disconnect client)).wp (visits handshake)
        (fun _ _ => True) (fun _ _ => True) g' := fun g' =>
      (Prog.wp_await _ _ _ _).mpr ⟨trivial, fun _ _ _ => trivial, fun _ _ _ => trivial⟩
    refine (Prog.wp_tryCatch _ _ _ _ _).mpr ((Prog.wp_bind _ _ _ _ _).mpr
      ((Prog.wp_await _ _ _ _).mpr ⟨trivial, ?_, fun _ g' _ => hfailed g'⟩))
    intro payload g' hn
    have hg : g' = { g with verified := g.verified ++ [(token, payload)] } := hn
    refine (Prog.wp_await _ _ _ _).mpr ⟨?_, fun _ _ _ => trivial, fun _ g' _ => hfailed g'⟩
    refine ⟨token, htoken, ?_⟩
    rw [hg]
    exact List.mem_append_right _ List.mem_cons_self

theorem wp_handleDisconnect (client : Nat) :
    (handleDisconnect client).wp (visits handshake) (fun _ _ => True) (fun _ _ => True) g := by
  refine (Prog.wp_bind _ _ _ _ _).mpr ((Prog.wp_await _ _ _ _).mpr ⟨trivial, ?_, ?_⟩)
  · intro _ g' _
    exact (Prog.wp_await _ _ _ _).mpr ⟨trivial, fun _ _ _ => trivial, fun _ _ _ => trivial⟩
  · exact fun _ _ _ => trivial

theorem wp_subscribeOrder (describe : Thrown → String) (client : Nat) (payload : Option Json)
    (hplain : g.owners.plain = true) :
    (subscribeOrder describe client payload).wp (visits handshake)
      (fun _ _ => True) (fun _ _ => True) g := by
  refine (Prog.wp_bind _ _ _ _ _).mpr ((Prog.wp_await _ _ _ _).mpr
    ⟨trivial, ?_, fun _ _ _ => trivial⟩)
  intro _ g₁ hn₁
  have hg₁ : g₁ = g := hn₁
  subst hg₁
  split
  · trivial
  · next orderId _ =>
    refine (Prog.wp_bind _ _ _ _ _).mpr ((Prog.wp_await _ _ _ _).mpr
      ⟨trivial, ?_, fun _ _ _ => trivial⟩)
    intro user g₂ hn₂
    cases user with
    | none => trivial
    | some user =>
      have hg₂ : g₂ = { g₁ with users := g₁.users ++ [(client, user)] } := hn₂
      have hplain₂ : g₂.owners.plain = true := by rw [hg₂]; exact hplain
      have huser : (client, user) ∈ g₂.users := by simp [hg₂]
      have hread := owners_canSubscribeToOrder (g := g₂.owners) orderId user
      refine (Prog.wp_bind _ _ _ _ _).mpr ((Prog.wp_tryCatch _ _ _ _ _).mpr
        (Prog.wp_mono (wp_onServer hread) ?_ (fun _ _ _ => trivial)))
      rintro _ g₃ ⟨⟨hplain₃, hmay⟩, husers⟩
      refine (Prog.wp_await _ _ _ _).mpr ⟨?_, fun _ _ _ => trivial, fun _ _ _ => trivial⟩
      exact ⟨orderId, user, rfl, husers ▸ huser, hplain₃.trans hplain₂, hmay⟩

theorem wp_unsubscribeOrder (client : Nat) (payload : Option Json) :
    (unsubscribeOrder client payload).wp (visits handshake)
      (fun _ _ => True) (fun _ _ => True) g := by
  unfold unsubscribeOrder
  split
  · trivial
  · exact (Prog.wp_await _ _ _ _).mpr ⟨trivial, fun _ _ _ => trivial, fun _ _ _ => trivial⟩

theorem wp_emitOrderStatus (event : OrdersEventsService.Event) :
    (emitOrderStatus event).wp (visits handshake) (fun _ _ => True) (fun _ _ => True) g :=
  (Prog.wp_await _ _ _ _).mpr ⟨rfl, fun _ _ _ => trivial, fun _ _ _ => trivial⟩

end Protocol

/-- What can happen around the gateway. -/
inductive RealtimeCall where
  | connect (client : Nat)
  | subscribe (client : Nat) (payload : Option Json)
  | unsubscribe (client : Nat) (payload : Option Json)
  | disconnected (client : Nat)
  | statusChanged (event : OrdersEventsService.Event)
  | create (dto : CreateOrderDto) (idempotencyKey : Option String)
  | updateOrder (id : String) (updates : UpdateOrderDto)
  | deleteOrder (id : String)
  | processOrderMessage (message : Json.Fields)

/-- The handler of a call; `handshake` is what each client sent when it connected. -/
def RealtimeCall.program (handshake : Nat → Handshake) (describe : Thrown → String) :
    RealtimeCall → Realtime Unit
  | connect client => handleConnection client (handshake client)
  | subscribe client payload => OrdersGateway.subscribeOrder describe client payload
  | unsubscribe client payload => OrdersGateway.unsubscribeOrder client payload
  | disconnected client => handleDisconnect client
  | statusChanged event => emitOrderStatus event
  | create dto key => do let _ ← onServer (Ecomm.create dto key)
  | updateOrder id updates => do let _ ← onServer (Ecomm.updateOrder id updates)
  | deleteOrder id => onServer (Ecomm.deleteOrder id)
  | processOrderMessage message => do let _ ← onServer (Ecomm.processOrderMessage message)

theorem wp_program (handshake : Nat → Handshake) (describe : Thrown → String) (call : RealtimeCall)
    {g : Visit} (hplain : g.owners.plain = true) :
    (call.program handshake describe).wp (visits handshake)
      (fun _ _ => True) (fun _ _ => True) g := by
  have hserver : ∀ {α : Type} (p : App α),
      p.wp owners (fun _ _ => True) (fun _ _ => True) g.owners →
      (do let _ ← onServer p : Realtime Unit).wp (visits handshake)
        (fun _ _ => True) (fun _ _ => True) g := by
    intro α p hp
    exact (Prog.wp_bind _ _ _ _ _).mpr
      (Prog.wp_mono (wp_onServer hp) (fun _ _ _ => trivial) (fun _ _ h => h))
  cases call with
  | connect client => exact wp_handleConnection client
  | subscribe client payload => exact wp_subscribeOrder describe client payload hplain
  | unsubscribe client payload => exact wp_unsubscribeOrder client payload
  | disconnected client => exact wp_handleDisconnect client
  | statusChanged event => exact wp_emitOrderStatus event
  | create dto key => exact hserver _ (owners_create dto key)
  | updateOrder id updates => exact hserver _ (owners_updateOrder id updates)
  | deleteOrder id =>
    exact Prog.wp_mono (wp_onServer (owners_deleteOrder id)) (fun _ _ _ => trivial) (fun _ _ h => h)
  | processOrderMessage message => exact hserver _ (owners_processOrderMessage message)

end Ecomm
