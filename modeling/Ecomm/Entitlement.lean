import Ecomm.Subscriptions
import Ecomm.Redelivery

/-! Only entitled sockets get the events of an order, in every run. -/

namespace Ecomm

open Concurrent Sql OrdersGateway

def Accepted (handshake : Nat → Handshake) (s : RealtimeState) (client : Nat)
    (user : JwtPayload) : Prop :=
  ∃ token, handshakeToken handshake client = some token ∧ (token, user) ∈ s.accepted

def Entitled (handshake : Nat → Handshake) (owner : Uuid → Uuid → Prop) (s : RealtimeState)
    (client : Nat) (orderId : String) : Prop :=
  ∃ user, Accepted handshake s client user ∧ MayRead owner orderId user

/-- What the handlers know about sockets is true, and whoever is in a room or
has got an event was entitled to it. -/
structure Sockets (handshake : Nat → Handshake) (owner : Uuid → Uuid → Prop) (s : RealtimeState)
    (γ : Nat → Visit) : Prop where
  verified : ∀ i, ∀ e ∈ (γ i).verified, e ∈ s.accepted
  users : ∀ i, ∀ e ∈ (γ i).users, Accepted handshake s e.1 e.2
  data : ∀ client user, (s.data client).user = some user → Accepted handshake s client user
  rooms : ∀ m ∈ s.rooms, ∃ orderId, m.2 = orderRoom orderId ∧
    Entitled handshake owner s m.1 orderId
  received : ∀ m ∈ s.received, Entitled handshake owner s m.1 m.2.orderId

theorem orderRoom_inj {a b : String} (h : orderRoom a = orderRoom b) : a = b := by
  have hl := congrArg String.toList h
  simp only [orderRoom, String.toList_append] at hl
  exact String.toList_inj.mp (List.append_cancel_left hl)

section Step

variable {handshake : Nat → Handshake} {owner owner' : Uuid → Uuid → Prop} {s s' : RealtimeState}
  {γ : Nat → Visit} {i : Nat} {w : Visit}

theorem Accepted.mono {client : Nat} {user : JwtPayload} (h : Accepted handshake s client user)
    (hacc : ∀ e ∈ s.accepted, e ∈ s'.accepted) : Accepted handshake s' client user := by
  obtain ⟨token, htoken, hmem⟩ := h
  exact ⟨token, htoken, hacc _ hmem⟩

theorem Entitled.mono {client : Nat} {orderId : String}
    (h : Entitled handshake owner s client orderId) (howner : ∀ o u, owner o u → owner' o u)
    (hacc : ∀ e ∈ s.accepted, e ∈ s'.accepted) : Entitled handshake owner' s' client orderId := by
  obtain ⟨user, haccepted, hmay⟩ := h
  exact ⟨user, haccepted.mono hacc, hmay.mono howner⟩

theorem Sockets.next (h : Sockets handshake owner s γ) (howner : ∀ o u, owner o u → owner' o u)
    (hacc : ∀ e ∈ s.accepted, e ∈ s'.accepted) (hverified : ∀ e ∈ w.verified, e ∈ s'.accepted)
    (husers : ∀ e ∈ w.users, Accepted handshake s' e.1 e.2)
    (hdata : ∀ client user, (s'.data client).user = some user →
      (s.data client).user = some user ∨ Accepted handshake s' client user)
    (hrooms : ∀ m ∈ s'.rooms, m ∈ s.rooms ∨ ∃ orderId, m.2 = orderRoom orderId ∧
      Entitled handshake owner' s' m.1 orderId)
    (hreceived : ∀ m ∈ s'.received, m ∈ s.received ∨ Entitled handshake owner' s' m.1 m.2.orderId) :
    Sockets handshake owner' s' (Function.update γ i w) where
  verified j e he := by
    by_cases hj : j = i
    · subst hj
      rw [Function.update_self] at he
      exact hverified e he
    · rw [Function.update_of_ne hj] at he
      exact hacc e (h.verified j e he)
  users j e he := by
    by_cases hj : j = i
    · subst hj
      rw [Function.update_self] at he
      exact husers e he
    · rw [Function.update_of_ne hj] at he
      exact (h.users j e he).mono hacc
  data client user hu := by
    rcases hdata client user hu with hold | hnew
    · exact (h.data client user hold).mono hacc
    · exact hnew
  rooms m hm := by
    rcases hrooms m hm with hold | hnew
    · obtain ⟨orderId, hroom, hentitled⟩ := h.rooms m hold
      exact ⟨orderId, hroom, hentitled.mono howner hacc⟩
    · exact hnew
  received m hm := by
    rcases hreceived m hm with hold | hnew
    · exact (h.received m hold).mono howner hacc
    · exact hnew

theorem Sockets.frame (h : Sockets handshake owner s γ) (howner : ∀ o u, owner o u → owner' o u)
    (hacc : s'.accepted = s.accepted) (hdata : s'.data = s.data) (hrooms : s'.rooms = s.rooms)
    (hreceived : s'.received = s.received) (hverified : w.verified = (γ i).verified)
    (husers : w.users = (γ i).users) : Sockets handshake owner' s' (Function.update γ i w) := by
  have hmono : ∀ e ∈ s.accepted, e ∈ s'.accepted := fun e he => hacc ▸ he
  refine h.next howner hmono ?_ ?_ ?_ ?_ ?_
  · intro e he
    exact hmono e (h.verified i e (hverified ▸ he))
  · intro e he
    exact (h.users i e (husers ▸ he)).mono hmono
  · intro client user hu
    exact .inl (hdata ▸ hu)
  · exact fun m hm => .inl (hrooms ▸ hm)
  · exact fun m hm => .inl (hreceived ▸ hm)

theorem setData_user {client : Nat} {data : RealtimeClientData} {other : Nat} {user : JwtPayload}
    (hu : ((s.setData client data).data other).user = some user) :
    (other = client ∧ data.user = some user) ∨ (s.data other).user = some user := by
  by_cases ho : other = client
  · subst ho
    left
    simpa [RealtimeState.setData] using hu
  · right
    simpa [RealtimeState.setData, Function.update_of_ne ho] using hu

theorem Sockets.setCalls (h : Sockets handshake owner s γ) {client : Nat} {calls : Option (List Nat)} :
    Sockets handshake owner (s.setData client { s.data client with subscribeCalls := calls })
      (Function.update γ i (γ i)) := by
  refine h.next (fun _ _ ho => ho) (fun _ he => he) (h.verified i) (h.users i) ?_
    (fun m hm => .inl hm) (fun m hm => .inl hm)
  intro other user hu
  left
  rcases setData_user hu with ⟨rfl, hsame⟩ | hother
  · exact hsame
  · exact hother

theorem Sockets.exec (h : Sockets handshake owner s γ) {c : RealtimeChoice} {o : RealtimeOp}
    {r : Except Thrown o.Ans} (happ : ∀ q, o ≠ .app q) (ha : (γ i).Allowed handshake o)
    (he : s.exec i c o = some (r, s'))
    (hknown : (γ i).owners.plain = true → ∀ o u, (o, u) ∈ (γ i).owners.known → owner o u) :
    ∃ w, (γ i).Learns o r w ∧ w.owners = (γ i).owners ∧ s'.app = s.app ∧ s'.used = s.used ∧
      Sockets handshake owner s' (Function.update γ i w) := by
  cases o with
  | app q => exact absurd rfl (happ q)
  | verifyAsync token =>
    cases hv : c.verified with
    | none =>
      simp only [RealtimeState.exec, hv, Option.some.injEq, Prod.mk.injEq] at he
      obtain ⟨rfl, rfl⟩ := he
      exact ⟨γ i, rfl, rfl, rfl, rfl, h.frame (fun _ _ ho => ho) rfl rfl rfl rfl rfl rfl⟩
    | some payload =>
      simp only [RealtimeState.exec, hv, Option.some.injEq, Prod.mk.injEq] at he
      obtain ⟨rfl, rfl⟩ := he
      have hmono : ∀ e ∈ s.accepted, e ∈ s.accepted ++ [(token, payload)] :=
        fun e he => List.mem_append_left _ he
      refine ⟨_, rfl, rfl, rfl, rfl, h.next (fun _ _ ho => ho) hmono ?_ ?_
        (fun _ _ hu => .inl hu) (fun _ hm => .inl hm) (fun _ hm => .inl hm)⟩
      · intro e hmem
        rcases List.mem_append.mp hmem with hmem | hmem
        · exact hmono e (h.verified i e hmem)
        · exact List.mem_append_right _ hmem
      · exact fun e hmem => (h.users i e hmem).mono hmono
  | setUser client payload =>
    obtain ⟨rfl, rfl⟩ := Prod.mk.inj (Option.some.inj he)
    obtain ⟨token, htoken, hmem⟩ := ha
    refine ⟨γ i, rfl, rfl, rfl, rfl, h.next (fun _ _ ho => ho) (fun _ he => he) (h.verified i)
      (h.users i) ?_ (fun _ hm => .inl hm) (fun _ hm => .inl hm)⟩
    intro other user hu
    rcases setData_user hu with ⟨rfl, hnew⟩ | hold
    · obtain rfl := Option.some.inj hnew
      exact .inr ⟨token, htoken, h.verified i _ hmem⟩
    · exact .inl hold
  | user client =>
    obtain ⟨rfl, rfl⟩ := Prod.mk.inj (Option.some.inj he)
    cases hu : (s.data client).user with
    | none => exact ⟨γ i, rfl, rfl, rfl, rfl, h.frame (fun _ _ ho => ho) rfl rfl rfl rfl rfl rfl⟩
    | some payload =>
      refine ⟨{ γ i with users := (γ i).users ++ [(client, payload)] }, rfl, rfl, rfl, rfl,
        h.next (fun _ _ ho => ho) (fun _ he => he) (h.verified i) ?_ (fun _ _ hu => .inl hu)
        (fun _ hm => .inl hm) (fun _ hm => .inl hm)⟩
      intro e hmem
      rcases List.mem_append.mp hmem with hmem | hmem
      · exact h.users i e hmem
      · obtain rfl := List.mem_singleton.mp hmem
        exact h.data client payload hu
  | assertRateLimit client =>
    simp only [RealtimeState.exec] at he
    split at he
    · obtain ⟨rfl, rfl⟩ := Prod.mk.inj (Option.some.inj he)
      exact ⟨γ i, rfl, rfl, rfl, rfl, h.setCalls⟩
    · obtain ⟨rfl, rfl⟩ := Prod.mk.inj (Option.some.inj he)
      exact ⟨γ i, rfl, rfl, rfl, rfl, h.setCalls⟩
  | clearCalls client =>
    obtain ⟨rfl, rfl⟩ := Prod.mk.inj (Option.some.inj he)
    exact ⟨γ i, rfl, rfl, rfl, rfl, h.setCalls⟩
  | join client room =>
    obtain ⟨rfl, rfl⟩ := Prod.mk.inj (Option.some.inj he)
    obtain ⟨orderId, payload, rfl, huser, hplain, hmay⟩ := ha
    refine ⟨γ i, rfl, rfl, rfl, rfl, h.next (fun _ _ ho => ho) (fun _ he => he) (h.verified i)
      (h.users i) (fun _ _ hu => .inl hu) ?_ (fun _ hm => .inl hm)⟩
    intro m hm
    rcases List.mem_append.mp hm with hm | hm
    · exact .inl hm
    · obtain rfl := List.mem_singleton.mp hm
      exact .inr ⟨orderId, rfl, payload, h.users i _ huser, hmay.mono (hknown hplain)⟩
  | leave client room =>
    obtain ⟨rfl, rfl⟩ := Prod.mk.inj (Option.some.inj he)
    refine ⟨γ i, rfl, rfl, rfl, rfl, h.next (fun _ _ ho => ho) (fun _ he => he) (h.verified i)
      (h.users i) (fun _ _ hu => .inl hu) ?_ (fun _ hm => .inl hm)⟩
    exact fun m hm => .inl (List.mem_of_mem_filter hm)
  | disconnect client =>
    obtain ⟨rfl, rfl⟩ := Prod.mk.inj (Option.some.inj he)
    refine ⟨γ i, rfl, rfl, rfl, rfl, h.next (fun _ _ ho => ho) (fun _ he => he) (h.verified i)
      (h.users i) (fun _ _ hu => .inl hu) ?_ (fun _ hm => .inl hm)⟩
    exact fun m hm => .inl (List.mem_of_mem_filter hm)
  | emit room event =>
    obtain ⟨rfl, rfl⟩ := Prod.mk.inj (Option.some.inj he)
    have hroom : room = orderRoom event.orderId := ha
    refine ⟨γ i, rfl, rfl, rfl, rfl, h.next (fun _ _ ho => ho) (fun _ he => he) (h.verified i)
      (h.users i) (fun _ _ hu => .inl hu) (fun _ hm => .inl hm) ?_⟩
    intro m hm
    rcases List.mem_append.mp hm with hm | hm
    · exact .inl hm
    · obtain ⟨k, hk, rfl⟩ := List.mem_map.mp hm
      obtain ⟨hk, hin⟩ := List.mem_filter.mp hk
      obtain ⟨orderId, horder, hentitled⟩ := h.rooms k hk
      have hsame : orderId = event.orderId := by
        refine orderRoom_inj (horder.symm.trans ?_)
        simpa [hroom] using hin
      exact .inr (hsame ▸ hentitled)

end Step

def EntitledOnly (handshake : Nat → Handshake) (T : Database) (s : RealtimeState) (γ : Nat → Visit) :
    Prop :=
  ∃ own, OrdersKept T own s.app.store s.used (fun i => (γ i).owners) ∧
    Sockets handshake
      (fun o u => own o = some u ∧ ∃ r, s.app.store.Ever T (Table.orders : schema.Table) o r) s γ

theorem owners_update {γ : Nat → Visit} {i : Nat} {w : Visit} :
    (fun j => (Function.update γ i w j).owners) =
      Function.update (fun j => (γ j).owners) i w.owners := by
  funext j
  by_cases hj : j = i
  · subst hj
    simp only [Function.update_self]
  · simp only [Function.update_of_ne hj]

theorem visits_sound (handshake : Nat → Handshake) (T : Database) :
    (visits handshake).Sound realtime Always (EntitledOnly handshake T) where
  exec {s γ i c o r s'} hinv _ ha he := by
    obtain ⟨own, hkept, hsockets⟩ := hinv
    by_cases happ : ∃ q, o = .app q
    · obtain ⟨q, rfl⟩ := happ
      have hnew : ∀ id, RealtimeState.generated c.app q = some id → id ∉ s.used := by
        intro id hid hused
        simp [RealtimeState.exec, hid, hused] at he
      have hmap : ∃ a, s.app.exec i c.app q = some (r, a) ∧ s' = { s with
          app := a, used := (RealtimeState.generated c.app q).toList ++ s.used } := by
        simp only [RealtimeState.exec] at he
        split at he
        · cases he
        · obtain ⟨⟨b, a⟩, hexec, heq⟩ := Option.map_eq_some_iff.mp he
          obtain ⟨rfl, rfl⟩ := Prod.mk.inj heq
          exact ⟨a, hexec, rfl⟩
      obtain ⟨a, hexec, rfl⟩ := hmap
      have hlog : ∀ k ∈ s.app.store.log, k ∈ a.store.log := by
        cases q with
        | sql q =>
          obtain ⟨b, store, hq, rfl, rfl⟩ := AppState.exec_sql hexec
          exact Store.exec_log_subset hq
        | _ =>
          rw [AppState.exec_store hexec (by simp)]
          exact fun k hk => hk
      obtain ⟨own', w, hmono, hlearns, hkept'⟩ := hkept.exec hexec ha hnew
      refine ⟨{ γ i with owners := w }, ⟨w, hlearns, rfl⟩, own', ?_, ?_⟩
      · rw [owners_update]
        exact hkept'
      · refine hsockets.frame ?_ rfl rfl rfl rfl rfl rfl
        rintro o u ⟨hown, row, hever⟩
        exact ⟨hmono o u hown, row, hever.mono hlog⟩
    · have hnot : ∀ q, o ≠ .app q := fun q hq => happ ⟨q, hq⟩
      obtain ⟨w, hlearns, howners, hsame, hused, hnext⟩ := hsockets.exec hnot ha he (by
        intro hplain o u hmem
        exact ⟨hkept.known i _ hmem, (hkept.plain i hplain).2 _ hmem⟩)
      refine ⟨w, hlearns, own, ?_, ?_⟩
      · rw [owners_update, howners, Function.update_eq_self, hsame, hused]
        exact hkept
      · rwa [hsame]

/-- A gateway that starts on a database: no client is known or in a room, and
no order has an id that is still to be generated. -/
structure RealtimeState.Fresh (s : RealtimeState) : Prop where
  quiet : s.app.Quiet
  used : ∀ id r, (s.app.store.tables .orders).lookup id = some (r : Order) → id ∈ s.used
  data : ∀ client, (s.data client).user = none
  accepted : s.accepted = []
  rooms : s.rooms = []
  received : s.received = []

theorem RealtimeState.Fresh.guarded {s : RealtimeState} (hs : s.Fresh) (handshake : Nat → Handshake) :
    EntitledOnly handshake s.app.store.tables s (fun _ => ⟨⟨true, []⟩, [], []⟩) := by
  refine ⟨fun id => ((s.app.store.tables .orders).lookup id).map Order.userId, ⟨⟨?_, ?_, ?_⟩, ?_, ?_,
    ?_, ?_, ?_⟩, ⟨?_, ?_, ?_, ?_, ?_⟩⟩
  · intro id r hr
    exact congrArg (Option.map Order.userId) hr
  · intro i x hx
    rw [hs.quiet.tx i] at hx
    cases hx
  · intro c hc
    rw [hs.quiet.log] at hc
    cases hc
  · exact fun t id r hr => .inl hr
  · intro id r hr
    exact congrArg (Option.map Order.userId) hr
  · intro id u hu
    obtain ⟨r, hr, _⟩ := Option.map_eq_some_iff.mp hu
    exact hs.used id r hr
  · intro i e he
    cases he
  · intro i _
    exact ⟨hs.quiet.tx i, fun e he => by cases he⟩
  · intro i e he
    cases he
  · intro i e he
    cases he
  · intro client user hu
    rw [hs.data client] at hu
    cases hu
  · intro m hm
    rw [hs.rooms] at hm
    cases hm
  · intro m hm
    rw [hs.received] at hm
    cases hm

/-- User `u` owns order `o`: every row that `o` has had since the start names
`u`, and there was one. -/
def OwnerOf (T : Database) (s : Store schema) (o u : Uuid) : Prop :=
  (∃ r, s.Ever T (Table.orders : schema.Table) o r) ∧
    ∀ r : Order, s.Ever T (Table.orders : schema.Table) o r → r.userId = u

theorem OrdersKept.ownerOf {T : Database} {own : Uuid → Option Uuid} {s : Store schema}
    {used : List Uuid} {ω : Nat → Owners} (h : OrdersKept T own s used ω) {o u : Uuid}
    (hown : own o = some u) (hrow : ∃ r, s.Ever T (Table.orders : schema.Table) o r) :
    OwnerOf T s o u := by
  refine ⟨hrow, ?_⟩
  intro r hr
  have hsame := h.constant.ever h.initial hr
  exact (Option.some.inj (hown.symm.trans hsame)).symm

/-- Whatever clients send, a socket gets the events of an order only after its
token was accepted, for staff or for the owner of the order. -/
theorem received_entitled (handshake : Nat → Handshake) (describe : Thrown → String)
    {s : RealtimeState} (hs : s.Fresh) (calls : List RealtimeCall)
    {c : Config realtime Unit} {es : List (Nat × RealtimeChoice)}
    (hrun : (Config.mk (M := realtime) s
      (fun i => calls[i]?.map (RealtimeCall.program handshake describe))).run es = some c) :
    ∀ m ∈ c.shared.received, Entitled handshake
      (OwnerOf s.app.store.tables c.shared.app.store) c.shared m.1 m.2.orderId := by
  have hfollows : Follows (visits handshake) (EntitledOnly handshake s.app.store.tables)
      (fun _ _ _ => True) (fun _ _ _ => True) (Config.mk (M := realtime) s
      (fun i => calls[i]?.map (RealtimeCall.program handshake describe)))
      (fun _ => ⟨⟨true, []⟩, [], []⟩) := by
    refine ⟨hs.guarded handshake, ?_⟩
    intro i p hp
    obtain ⟨call, _, rfl⟩ := Option.map_eq_some_iff.mp hp
    exact wp_program handshake describe call rfl
  obtain ⟨γ, hend, _⟩ := (visits_sound handshake s.app.store.tables).run hfollows
    (Config.meets_always _ _) hrun
  obtain ⟨own, hkept, hsockets⟩ := hend.inv
  intro m hm
  refine (hsockets.received m hm).mono ?_ (fun _ he => he)
  rintro o u ⟨hown, hrow⟩
  exact hkept.ownerOf hown hrow

def penGateway : RealtimeState where
  app := serving (penOrdered .pending)
  used := [7]
  data _ := ⟨none, none⟩
  accepted := []
  rooms := []
  received := []

theorem penGateway_fresh : penGateway.Fresh where
  quiet := serving_quiet (penOrdered_distinct .pending)
  used id r hr := by
    have hmem := AList.mem_lookup_iff.mp hr
    simp only [penGateway, serving, penOrdered, AList.singleton, List.mem_singleton] at hmem
    obtain ⟨rfl, _⟩ := Sigma.mk.inj hmem
    exact List.mem_singleton.mpr rfl
  data _ := rfl
  accepted := rfl
  rooms := rfl
  received := rfl

def bearer (client : Nat) : Handshake :=
  ⟨none, some (if client = 0 then "Bearer ann" else "Bearer bob"), none⟩

def signedIn (customer : Uuid) : RealtimeChoice :=
  ⟨tick 0, some ⟨uuidOut customer, "", ["user"], []⟩⟩

def penEvent : OrdersEventsService.Event := ⟨uuidOut 7, .processed, .finite 5, .finite 5⟩

/-- The owner of order 7 and a stranger connect and ask for its events. -/
def penClients : List RealtimeCall :=
  [.connect 0, .connect 1, .subscribe 0 (some (.obj [("orderId", .str (uuidOut 7))])),
    .subscribe 1 (some (.obj [("orderId", .str (uuidOut 7))])), .statusChanged penEvent]

def penVisits : List (Nat × RealtimeChoice) :=
  [(0, signedIn 1), (1, signedIn 2), (1, signedIn 2), (0, signedIn 1), (2, signedIn 1),
    (3, signedIn 2), (3, signedIn 2), (2, signedIn 1), (2, signedIn 1), (3, signedIn 2),
    (2, signedIn 1), (4, signedIn 1)]

theorem received_entitled_pen :
    ∃ c, (Config.mk (M := realtime) penGateway (fun i =>
        penClients[i]?.map (RealtimeCall.program bearer (fun _ => "")))).run penVisits = some c ∧
      c.shared.received.map (fun m => m.1) = [0] ∧
      ∀ m ∈ c.shared.received, Entitled bearer
        (OwnerOf penGateway.app.store.tables c.shared.app.store) c.shared m.1 m.2.orderId := by
  have hrun : ((Config.mk (M := realtime) penGateway (fun i =>
      penClients[i]?.map (RealtimeCall.program bearer (fun _ => "")))).run penVisits).map
      (fun c => c.shared.received.map (fun m => m.1)) = some [0] := by decide +kernel
  obtain ⟨c, hc, hreceived⟩ := Option.map_eq_some_iff.mp hrun
  exact ⟨c, hc, hreceived, received_entitled bearer (fun _ => "") penGateway_fresh penClients hc⟩

end Ecomm
