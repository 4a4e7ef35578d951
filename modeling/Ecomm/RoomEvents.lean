import Ecomm.Entitlement
import Ecomm.Lib.Recording

/-! Which events reach a socket whose subscription was confirmed. -/

namespace Ecomm

open Concurrent OrdersGateway

/-- Events are emitted to the room of the order that they name. -/
def EmitsToRoom : RealtimeOp → Prop
  | .emit room event => room = orderRoom event.orderId
  | _ => True

/-- A thread remembers its last operation and the answer. -/
def performing : Protocol RealtimeOp RealtimeOp.Ans Thrown
    (Option ((o : RealtimeOp) × Except Thrown o.Ans)) where
  allowed _ := EmitsToRoom
  next _ o r g := g = some ⟨o, r⟩

def RealtimeCall.Uses : RealtimeCall → RealtimeOp → Prop
  | connect client, o => (∃ token, o = .verifyAsync token) ∨ (∃ payload, o = .setUser client payload) ∨
    o = .disconnect client
  | subscribe client payload, o => (∃ q, o = .app q) ∨ o = .assertRateLimit client ∨
    o = .user client ∨ ∃ text, orderIdOf payload = some text ∧ o = .join client (orderRoom text)
  | unsubscribe client payload, o =>
    ∃ text, orderIdOf payload = some text ∧ o = .leave client (orderRoom text)
  | disconnected client, o => o = .disconnect client ∨ o = .clearCalls client
  | statusChanged event, o => o = .emit (orderRoom event.orderId) event
  | _, o => ∃ q, o = .app q

section Programs

theorem awaits_onServer {A : RealtimeOp → Prop} (hA : ∀ q, A (.app q)) {α : Type} (p : App α) :
    (onServer p).Awaits A := by
  induction p with
  | ret a => trivial
  | raise e => trivial
  | op o k ih => exact ⟨hA o, fun r => ih r⟩

theorem awaits_awaiting {A : RealtimeOp → Prop} (o : RealtimeOp) (ho : A o) :
    (awaiting o).Awaits A := Prog.awaits_await ho

theorem uses_subscribeOrder (describe : Thrown → String) (client : Nat) (payload : Option Json) :
    (subscribeOrder describe client payload).Awaits (RealtimeCall.subscribe client payload).Uses := by
  refine Prog.Awaits.bind (awaits_awaiting (.assertRateLimit client) (.inr (.inl rfl))) ?_
  intro _
  split
  · trivial
  · next orderId htext =>
    refine Prog.Awaits.bind (awaits_awaiting (.user client) (.inr (.inr (.inl rfl)))) ?_
    intro user
    cases user with
    | none => trivial
    | some user =>
      refine Prog.Awaits.bind ?_ ?_
      · exact Prog.Awaits.tryCatch (awaits_onServer (fun q => .inl ⟨q, rfl⟩) _) (fun _ => trivial)
      · intro _
        exact awaits_awaiting (.join client (orderRoom orderId)) (.inr (.inr (.inr ⟨_, htext, rfl⟩)))

theorem uses_program (handshake : Nat → Handshake) (describe : Thrown → String)
    (call : RealtimeCall) : (call.program handshake describe).Awaits call.Uses := by
  cases call with
  | connect client =>
    simp only [RealtimeCall.program, handleConnection]
    split
    · exact awaits_awaiting (.disconnect client) (.inr (.inr rfl))
    · next token _ =>
      refine Prog.Awaits.tryCatch (Prog.Awaits.bind
        (awaits_awaiting (.verifyAsync token) (.inl ⟨token, rfl⟩))
        (fun payload => awaits_awaiting (.setUser client payload) (.inr (.inl ⟨payload, rfl⟩)))) ?_
      exact fun _ => awaits_awaiting (.disconnect client) (.inr (.inr rfl))
  | subscribe client payload => exact uses_subscribeOrder describe client payload
  | unsubscribe client payload =>
    simp only [RealtimeCall.program, unsubscribeOrder]
    split
    · trivial
    · next orderId htext =>
      exact awaits_awaiting (.leave client (orderRoom orderId)) ⟨orderId, htext, rfl⟩
  | disconnected client =>
    exact Prog.Awaits.bind (awaits_awaiting (.disconnect client) (.inl rfl))
      (fun _ => awaits_awaiting (.clearCalls client) (.inr rfl))
  | statusChanged event => exact awaits_awaiting (.emit (orderRoom event.orderId) event) rfl
  | create dto key =>
    exact (awaits_onServer (fun q => ⟨q, rfl⟩) _).bind (fun _ => trivial)
  | updateOrder id updates =>
    exact (awaits_onServer (fun q => ⟨q, rfl⟩) _).bind (fun _ => trivial)
  | deleteOrder id => exact awaits_onServer (fun q => ⟨q, rfl⟩) _
  | processOrderMessage message =>
    exact (awaits_onServer (fun q => ⟨q, rfl⟩) _).bind (fun _ => trivial)

theorem awaits_program (handshake : Nat → Handshake) (describe : Thrown → String)
    (call : RealtimeCall) : (call.program handshake describe).Awaits EmitsToRoom := by
  refine (uses_program handshake describe call).mono ?_
  intro o ho
  cases o with
  | emit room event =>
    cases call with
    | statusChanged event' =>
      obtain ⟨rfl, rfl⟩ := RealtimeOp.emit.inj ho
      rfl
    | _ => simp [RealtimeCall.Uses] at ho
  | _ => trivial

variable {g : Option ((o : RealtimeOp) × Except Thrown o.Ans)}

theorem performing_awaits {p : Realtime Unit} (h : p.Awaits EmitsToRoom) :
    p.wp performing (fun _ _ => True) (fun _ _ => True) g :=
  h.wp (I := fun _ => True) (fun _ _ _ ho => ⟨ho, fun _ _ _ => trivial⟩) trivial

/-- A subscription that is confirmed has joined the room as its last operation. -/
theorem performing_subscribeOrder (describe : Thrown → String) (client : Nat)
    {payload : Option Json} {text : String} (htext : orderIdOf payload = some text) :
    (subscribeOrder describe client payload).wp performing
      (fun _ g' => g' = some ⟨.join client (orderRoom text), .ok ()⟩) (fun _ _ => True) g := by
  refine (Prog.wp_bind _ _ _ _ _).mpr ((Prog.wp_await _ _ _ _).mpr
    ⟨trivial, fun _ g₁ _ => ?_, fun _ _ _ => trivial⟩)
  rw [htext]
  refine (Prog.wp_bind _ _ _ _ _).mpr ((Prog.wp_await _ _ _ _).mpr
    ⟨trivial, fun user g₂ _ => ?_, fun _ _ _ => trivial⟩)
  cases user with
  | none => trivial
  | some user =>
    have hcheck := performing_awaits (g := g₂)
      (awaits_onServer (fun _ => trivial) (canSubscribeToOrder text user))
    refine (Prog.wp_bind _ _ _ _ _).mpr ((Prog.wp_tryCatch _ _ _ _ _).mpr
      (Prog.wp_mono hcheck (fun _ g₃ _ => ?_) (fun _ _ _ => trivial)))
    refine (Prog.wp_await _ _ _ _).mpr ⟨trivial, ?_, fun _ _ _ => trivial⟩
    exact fun _ g' hn => hn

end Programs

def Stays (client : Nat) (room : String) (o : RealtimeOp) : Prop :=
  o ≠ .leave client room ∧ o ≠ .disconnect client

theorem exec_stays {s s' : RealtimeState} {i : Nat} {c : RealtimeChoice} {o : RealtimeOp}
    {r : Except Thrown o.Ans} {client : Nat} {room : String} (he : s.exec i c o = some (r, s'))
    (hstays : Stays client room o) (hin : (client, room) ∈ s.rooms) :
    (client, room) ∈ s'.rooms := by
  cases o with
  | app q =>
    simp only [RealtimeState.exec] at he
    split at he
    · cases he
    · obtain ⟨_, _, heq⟩ := Option.map_eq_some_iff.mp he
      obtain ⟨_, rfl⟩ := Prod.mk.inj heq
      exact hin
  | verifyAsync token =>
    simp only [RealtimeState.exec] at he
    split at he
    · obtain ⟨_, rfl⟩ := Prod.mk.inj (Option.some.inj he)
      exact hin
    · obtain ⟨_, rfl⟩ := Prod.mk.inj (Option.some.inj he)
      exact hin
  | assertRateLimit other =>
    simp only [RealtimeState.exec] at he
    split at he
    · obtain ⟨_, rfl⟩ := Prod.mk.inj (Option.some.inj he)
      exact hin
    · obtain ⟨_, rfl⟩ := Prod.mk.inj (Option.some.inj he)
      exact hin
  | join other room' =>
    obtain ⟨_, rfl⟩ := Prod.mk.inj (Option.some.inj he)
    exact List.mem_append_left _ hin
  | leave other room' =>
    obtain ⟨_, rfl⟩ := Prod.mk.inj (Option.some.inj he)
    refine List.mem_filter.mpr ⟨hin, ?_⟩
    have hne : (client, room) ≠ (other, room') := by
      intro h
      obtain ⟨rfl, rfl⟩ := Prod.mk.inj h
      exact hstays.1 rfl
    exact decide_eq_true hne
  | disconnect other =>
    obtain ⟨_, rfl⟩ := Prod.mk.inj (Option.some.inj he)
    refine List.mem_filter.mpr ⟨hin, ?_⟩
    have hne : client ≠ other := by
      intro h
      exact hstays.2 (h ▸ rfl)
    simpa using hne
  | setUser _ _ | user _ | clearCalls _ | emit _ _ =>
    obtain ⟨_, rfl⟩ := Prod.mk.inj (Option.some.inj he)
    exact hin

/-- As long as the socket does not leave its room, each event of the order goes
to a room that it has joined. -/
def Reached (client : Nat) (text : String) (o : Uuid) (past : List (Event realtime)) : Prop :=
  (∀ e ∈ past, Stays client (orderRoom text) e.op) →
    ∀ e ∈ past, ∀ room event, e.op = .emit room event → event.orderId = uuidOut o →
      (client, room) ∈ e.state.rooms

structure Seated (client : Nat) (o : Uuid) (s : RealtimeState × List (Event realtime)) : Prop where
  room : (∀ e ∈ s.2, Stays client (orderRoom (uuidOut o)) e.op) →
    (client, orderRoom (uuidOut o)) ∈ s.1.rooms
  reached : Reached client (uuidOut o) o s.2

theorem performing_sound :
    performing.Sound realtime Always (fun _ _ => True) where
  exec _ _ _ _ := ⟨_, rfl, trivial⟩

theorem performing_seated (client : Nat) (o : Uuid) :
    performing.Sound (recording realtime) Always (fun s _ => Seated client o s) where
  exec {s γ i c q r s'} hinv _ ha he := by
    obtain ⟨hexec, hpast⟩ := exec_recording he
    have hbefore : (∀ e ∈ s'.2, Stays client (orderRoom (uuidOut o)) e.op) →
        ∀ e ∈ s.2, Stays client (orderRoom (uuidOut o)) e.op := by
      intro hstays e hmem
      exact hstays e (hpast ▸ List.mem_append_left _ hmem)
    have hlast : (∀ e ∈ s'.2, Stays client (orderRoom (uuidOut o)) e.op) →
        Stays client (orderRoom (uuidOut o)) q := by
      intro hstays
      exact hstays ⟨i, s.1, c, q⟩ (hpast ▸ List.mem_append_right _ List.mem_cons_self)
    refine ⟨_, rfl, ?_, ?_⟩
    · intro hstays
      exact exec_stays hexec (hlast hstays) (hinv.room (hbefore hstays))
    · intro hstays e hmem room event hemit horder
      rw [hpast] at hmem
      rcases List.mem_append.mp hmem with hmem | hmem
      · exact hinv.reached (hbefore hstays) e hmem room event hemit horder
      · obtain rfl := List.mem_singleton.mp hmem
        have hemit : q = .emit room event := hemit
        subst hemit
        have hroom : room = orderRoom event.orderId := ha
        rw [hroom, horder]
        exact hinv.room (hbefore hstays)

abbrev gateway (handshake : Nat → Handshake) (describe : Thrown → String) (s : RealtimeState)
    (calls : List RealtimeCall) : Config realtime Unit :=
  ⟨s, fun i => calls[i]?.map (RealtimeCall.program handshake describe)⟩

/-- From the moment a subscription with the printed id is confirmed, all events
of the order reach the socket until it leaves. -/
theorem subscribed_reached (handshake : Nat → Handshake) (describe : Thrown → String)
    (s : RealtimeState) (calls : List RealtimeCall) {es : List (Nat × RealtimeChoice)}
    {c : Config realtime Unit} (hrun : (gateway handshake describe s calls).run es = some c)
    {i client : Nat} {payload : Option Json} {o : Uuid}
    (hcall : calls[i]? = some (.subscribe client payload))
    (htext : orderIdOf payload = some (uuidOut o)) {ch : RealtimeChoice}
    {d : Config realtime Unit} (hstep : c.step i ch = some d)
    (hret : d.thread i = some (.ret ())) {later : List (Nat × RealtimeChoice)}
    {d' : Config (recording realtime) Unit} (hlater : d.recorded.run later = some d') :
    Reached client (uuidOut o) o d'.shared.2 := by
  let joined : Nat → Unit → Option ((q : RealtimeOp) × Except Thrown q.Ans) → Prop :=
    fun j _ g => j = i → g = some ⟨.join client (orderRoom (uuidOut o)), .ok ()⟩
  have hstart : Follows performing (fun _ _ => True) joined (fun _ _ _ => True)
      (gateway handshake describe s calls) (fun _ => none) := by
    refine ⟨trivial, ?_⟩
    intro j p hp
    obtain ⟨call, hj, rfl⟩ := Option.map_eq_some_iff.mp hp
    by_cases hji : j = i
    · subst hji
      obtain rfl := Option.some.inj (hcall.symm.trans hj)
      exact Prog.wp_mono (performing_subscribeOrder describe client htext)
        (fun _ _ h _ => h) (fun _ _ h => h)
    · exact Prog.wp_mono (performing_awaits (awaits_program handshake describe call))
        (fun _ _ _ h => absurd h hji) (fun _ _ h => h)
  obtain ⟨γ, hc, _⟩ := performing_sound.run hstart (Config.meets_always _ _) hrun
  obtain ⟨q, k, r, s', hthread, hexec, rfl⟩ := Config.step_cases hstep
  -- The step that returns is the one that joins the room.
  have hjoin : (client, orderRoom (uuidOut o)) ∈ s'.rooms := by
    have hwp := (hc.thread i _ hthread).2 r (some ⟨q, r⟩) rfl
    simp only [Function.update_self, Option.some.injEq] at hret
    rw [hret] at hwp
    obtain ⟨rfl, hr⟩ := Sigma.mk.inj (Option.some.inj (hwp rfl))
    obtain ⟨_, rfl⟩ := Prod.mk.inj (Option.some.inj hexec)
    exact List.mem_append_right _ List.mem_cons_self
  obtain ⟨γ', hd⟩ := performing_sound.step hc trivial hstep
  have hseated : Follows performing (fun t _ => Seated client o t) joined (fun _ _ _ => True)
      (Config.recorded ⟨s', Function.update c.thread i (some (k r))⟩)
      (Function.update γ i γ') := by
    refine ⟨⟨fun _ => hjoin, ?_⟩, hd.thread⟩
    intro _ e he
    cases he
  obtain ⟨_, hend, _⟩ := (performing_seated client o).run hseated (Config.meets_always _ _) hlater
  exact hend.inv.reached

/-- The owner of order 7 connects, subscribes to it by `text`, and its status changes. -/
def subscriber (text : String) : List RealtimeCall :=
  [.connect 0, .subscribe 0 (some (.obj [("orderId", .str text)])), .statusChanged penEvent]

def untilJoined : List (Nat × RealtimeChoice) :=
  [(0, signedIn 1), (0, signedIn 1), (1, signedIn 1), (1, signedIn 1), (1, signedIn 1)]

def subscribed (text : String) : Option (Config realtime Unit × Config realtime Unit ×
    Config (recording realtime) Unit) := do
  let c ← (gateway bearer (fun _ => "") penGateway (subscriber text)).run untilJoined
  let d ← c.step 1 (signedIn 1)
  let d' ← d.recorded.run [(2, signedIn 1)]
  some (c, d, d')

theorem subscribed_steps {text : String} {c d : Config realtime Unit}
    {d' : Config (recording realtime) Unit} (h : subscribed text = some (c, d, d')) :
    (gateway bearer (fun _ => "") penGateway (subscriber text)).run untilJoined = some c ∧
      c.step 1 (signedIn 1) = some d ∧ d.recorded.run [(2, signedIn 1)] = some d' := by
  obtain ⟨c₁, hc, h⟩ := Option.bind_eq_some_iff.mp h
  obtain ⟨d₁, hd, h⟩ := Option.bind_eq_some_iff.mp h
  obtain ⟨d₂, hd', h⟩ := Option.bind_eq_some_iff.mp h
  have h : some (c₁, d₁, d₂) = some (c, d, d') := h
  simp only [Option.some.injEq, Prod.mk.injEq] at h
  obtain ⟨rfl, rfl, rfl⟩ := h
  exact ⟨hc, hd, hd'⟩

def confirmed (d : Config realtime Unit) : Bool :=
  match d.thread 1 with
  | some (.ret ()) => true
  | _ => false

def missed (e : Event realtime) : Bool :=
  match e.op with
  | .emit room event => event.orderId = uuidOut 7 && (0, room) ∉ e.state.rooms
  | _ => false

theorem confirmed_ret {d : Config realtime Unit} (h : confirmed d = true) :
    d.thread 1 = some (.ret ()) := by
  unfold confirmed at h
  split at h
  · assumption
  · cases h

theorem missed_emit {e : Event realtime} (h : missed e = true) :
    ∃ room event, e.op = .emit room event ∧ event.orderId = uuidOut 7 ∧
      (0, room) ∉ e.state.rooms := by
  unfold missed at h
  split at h
  · next room event hop =>
    simp only [Bool.and_eq_true, decide_eq_true_eq] at h
    exact ⟨room, event, hop, h.1, h.2⟩
  · cases h

theorem subscribed_reached_printed :
    ∃ c d d', (gateway bearer (fun _ => "") penGateway (subscriber (uuidOut 7))).run untilJoined =
        some c ∧ c.step 1 (signedIn 1) = some d ∧
      d.recorded.run [(2, signedIn 1)] = some d' ∧ d'.shared.2.map (·.thread) = [2] ∧
      Reached 0 (uuidOut 7) 7 d'.shared.2 := by
  have hrun : (subscribed (uuidOut 7)).map (fun r => (confirmed r.2.1,
      r.2.2.shared.2.map (·.thread))) = some (true, [2]) := by decide +kernel
  obtain ⟨⟨c, d, d'⟩, hr, heq⟩ := Option.map_eq_some_iff.mp hrun
  obtain ⟨hc, hd, hd'⟩ := subscribed_steps hr
  obtain ⟨hret, hthreads⟩ := Prod.mk.inj heq
  exact ⟨c, d, d', hc, hd, hd', hthreads, subscribed_reached bearer (fun _ => "") penGateway _ hc
    (by rfl) (by decide +kernel) hd (confirmed_ret hret) hd'⟩

/-- The id without its hyphens names the order, but its room gets no events. -/
theorem subscribed_misses :
    ¬ ∀ (s : RealtimeState), s.Fresh → ∀ calls es c,
      (gateway bearer (fun _ => "") s calls).run es = some c →
      ∀ i client payload text o, calls[i]? = some (.subscribe client payload) →
      orderIdOf payload = some text → uuidIn text = some o →
      ∀ ch d, c.step i ch = some d → d.thread i = some (.ret ()) →
      ∀ later d', d.recorded.run later = some d' → Reached client text o d'.shared.2 := by
  intro h
  have hrun : (subscribed "00000000000000000000000000000007").map (fun r => (confirmed r.2.1,
      r.2.2.shared.2.map missed)) = some (true, [true]) := by decide +kernel
  obtain ⟨⟨c, d, d'⟩, hr, heq⟩ := Option.map_eq_some_iff.mp hrun
  obtain ⟨hc, hd, hd'⟩ := subscribed_steps hr
  obtain ⟨hret, hmissed⟩ := Prod.mk.inj heq
  obtain ⟨e, hpast, he⟩ := List.map_eq_singleton_iff.mp hmissed
  obtain ⟨room, event, hop, horder, hout⟩ := missed_emit he
  have hreached := h penGateway penGateway_fresh _ _ c hc 1 0 _
    "00000000000000000000000000000007" 7 rfl (by decide +kernel) (by decide +kernel) _ d hd
    (confirmed_ret hret) _ d' hd'
  rw [hpast] at hreached
  refine hout (hreached ?_ e List.mem_cons_self room event hop horder)
  intro e' he'
  obtain rfl := List.mem_singleton.mp he'
  rw [hop]
  exact ⟨nofun, nofun⟩

end Ecomm
