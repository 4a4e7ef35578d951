import Ecomm.RoomEvents

/-! Requests of one socket for one order, taken up in the order in which they
were sent: whether the last one decides that the socket is in the room. -/

namespace Ecomm

open Concurrent OrdersGateway

inductive Request where
  | subscribe
  | unsubscribe
  deriving DecidableEq

section Requests

variable (client : Nat) (text : String)

def RealtimeCall.request : RealtimeCall → Option Request
  | .subscribe other payload =>
    if other = client ∧ orderIdOf payload = some text then some .subscribe else none
  | .unsubscribe other payload =>
    if other = client ∧ orderIdOf payload = some text then some .unsubscribe else none
  | _ => none

def requestAt (calls : List RealtimeCall) (i : Nat) : Option Request :=
  calls[i]?.bind (RealtimeCall.request client text)

/-- The handler of a request takes its first step after the handlers of the
requests that were sent before; `threads` are the threads that took the steps. -/
def TakenUpInOrder (calls : List RealtimeCall) (threads : List Nat) : Prop :=
  ∀ k (hk : k < threads.length), (requestAt client text calls threads[k]).isSome →
    ∀ j < threads[k], (requestAt client text calls j).isSome → j ∈ threads.take k

instance (calls : List RealtimeCall) (threads : List Nat) :
    Decidable (TakenUpInOrder client text calls threads) :=
  inferInstanceAs (Decidable (∀ k (hk : k < threads.length),
    (requestAt client text calls threads[k]).isSome →
      ∀ j < threads[k], (requestAt client text calls j).isSome → j ∈ threads.take k))

def Mannered : Option Request → RealtimeOp → Prop
  | some .unsubscribe, o => o = .leave client (orderRoom text)
  | some .subscribe, o => Stays client (orderRoom text) o
  | none, o => Stays client (orderRoom text) o ∧ o ≠ .join client (orderRoom text)

/-- What a thread asks for, with its last operation and the answer. -/
abbrev Asking := Option Request × Option ((o : RealtimeOp) × Except Thrown o.Ans)

def requesting : Protocol RealtimeOp RealtimeOp.Ans Thrown Asking where
  allowed g o := Mannered client text g.1 o ∧ (g.1 = some .unsubscribe → g.2 = none)
  next g o r g' := g' = (g.1, some ⟨o, r⟩)

/-- A subscription returns when it has joined the room. -/
def JoinsLast (_ : Nat) (_ : Unit) (g : Asking) : Prop :=
  g.1 = some .subscribe → g.2 = some ⟨.join client (orderRoom text), .ok ()⟩

end Requests

section Handlers

variable {client : Nat} {text : String}

theorem requesting_of_performing {p : Realtime Unit} {request : Option Request}
    (hrequest : request ≠ some .unsubscribe)
    {Q : Unit → Option ((o : RealtimeOp) × Except Thrown o.Ans) → Prop}
    {E : Thrown → Option ((o : RealtimeOp) × Except Thrown o.Ans) → Prop}
    {g : Option ((o : RealtimeOp) × Except Thrown o.Ans)} (hp : p.wp performing Q E g)
    (hcalls : p.Awaits (Mannered client text request)) :
    p.wp (requesting client text) (fun a g' => g'.1 = request ∧ Q a g'.2)
      (fun e g' => E e g'.2) (request, g) := by
  induction p generalizing g with
  | ret a => exact ⟨rfl, hp⟩
  | raise e => exact hp
  | op o k ih =>
    refine ⟨⟨hcalls.1, fun h => absurd h hrequest⟩, ?_⟩
    intro r g' hg'
    obtain rfl : g' = (request, some ⟨o, r⟩) := hg'
    exact ih r (hp.2 r _ rfl) (hcalls.2 r)

/-- A call that asks for nothing here keeps away from the room. -/
theorem mannered_other {call : RealtimeCall} (hrequest : call.request client text = none)
    (hconnect : call ≠ .connect client) (hdisconnected : call ≠ .disconnected client)
    {o : RealtimeOp} (ho : call.Uses o) : Mannered client text none o := by
  have hother : ∀ {other : Nat} {payload : Option Json} {text' : String},
      ¬ (other = client ∧ orderIdOf payload = some text) → orderIdOf payload = some text' →
      (other, orderRoom text') ≠ (client, orderRoom text) := by
    intro other payload text' hne htext heq
    obtain ⟨hclient, hroom⟩ := Prod.mk.inj heq
    obtain rfl := orderRoom_inj hroom
    exact hne ⟨hclient, htext⟩
  cases call with
  | connect other =>
    have hne : other ≠ client := fun h => hconnect (h ▸ rfl)
    rcases ho with ⟨token, rfl⟩ | ⟨payload, rfl⟩ | rfl <;> simp [Mannered, Stays, hne]
  | disconnected other =>
    have hne : other ≠ client := fun h => hdisconnected (h ▸ rfl)
    rcases ho with rfl | rfl <;> simp [Mannered, Stays, hne]
  | subscribe other payload =>
    simp only [RealtimeCall.request, ite_eq_right_iff, reduceCtorEq, imp_false] at hrequest
    rcases ho with ⟨q, rfl⟩ | rfl | rfl | ⟨text', htext, rfl⟩
    · simp [Mannered, Stays]
    · simp [Mannered, Stays]
    · simp [Mannered, Stays]
    · refine ⟨⟨nofun, nofun⟩, ?_⟩
      intro heq
      obtain ⟨rfl, hroom⟩ := RealtimeOp.join.inj heq
      exact hother hrequest htext (by rw [hroom])
  | unsubscribe other payload =>
    simp only [RealtimeCall.request, ite_eq_right_iff, reduceCtorEq, imp_false] at hrequest
    obtain ⟨text', htext, rfl⟩ := ho
    refine ⟨⟨?_, nofun⟩, nofun⟩
    intro heq
    obtain ⟨rfl, hroom⟩ := RealtimeOp.leave.inj heq
    exact hother hrequest htext (by rw [hroom])
  | statusChanged event =>
    obtain rfl := ho
    simp [Mannered, Stays]
  | create | updateOrder | deleteOrder | processOrderMessage =>
    obtain ⟨q, rfl⟩ := ho
    simp [Mannered, Stays]

theorem requesting_program (handshake : Nat → Handshake) (describe : Thrown → String)
    {call : RealtimeCall} (hconnect : call ≠ .connect client)
    (hdisconnected : call ≠ .disconnected client) (i : Nat) :
    (call.program handshake describe).wp (requesting client text) (JoinsLast client text i)
      (fun _ _ => True) (call.request client text, none) := by
  have hcalls := uses_program handshake describe call
  cases hrequest : call.request client text with
  | none =>
    have hne : (none : Option Request) ≠ some .unsubscribe := nofun
    have hmannered := hcalls.mono (fun o ho => mannered_other hrequest hconnect hdisconnected ho)
    refine Prog.wp_mono (requesting_of_performing hne
      (performing_awaits (awaits_program handshake describe call)) hmannered) ?_ (fun _ _ h => h)
    intro _ g hg hsubscribe
    rw [hg.1] at hsubscribe
    cases hsubscribe
  | some request =>
    cases call with
    | subscribe other payload =>
      simp only [RealtimeCall.request, Option.ite_none_right_eq_some] at hrequest
      obtain ⟨⟨rfl, htext⟩, heq⟩ := hrequest
      obtain rfl := Option.some.inj heq
      have hne : some Request.subscribe ≠ some .unsubscribe := nofun
      have hmannered : (subscribeOrder describe other payload).Awaits
          (Mannered other text (some .subscribe)) := by
        refine hcalls.mono ?_
        intro o ho
        rcases ho with ⟨q, rfl⟩ | rfl | rfl | ⟨text', htext, rfl⟩ <;> exact ⟨nofun, nofun⟩
      exact Prog.wp_mono (requesting_of_performing hne
        (performing_subscribeOrder describe other htext) hmannered) (fun _ _ h _ => h.2)
        (fun _ _ _ => trivial)
    | unsubscribe other payload =>
      simp only [RealtimeCall.request, Option.ite_none_right_eq_some] at hrequest
      obtain ⟨⟨rfl, htext⟩, heq⟩ := hrequest
      obtain rfl := Option.some.inj heq
      simp only [RealtimeCall.program, unsubscribeOrder, htext]
      refine (Prog.wp_await _ _ _ _).mpr ⟨⟨rfl, fun _ => rfl⟩, ?_, fun _ _ _ => trivial⟩
      intro _ g hg hsubscribe
      obtain rfl : g = (some .unsubscribe, some ⟨_, _⟩) := hg
      cases hsubscribe
    | _ => cases hrequest

end Handlers

section Rooms

variable {s s' : RealtimeState} {i : Nat} {c : RealtimeChoice} {o : RealtimeOp}
  {r : Except Thrown o.Ans} {client : Nat} {room : String}

theorem exec_out (he : s.exec i c o = some (r, s')) (ho : o ≠ .join client room)
    (hout : (client, room) ∉ s.rooms) : (client, room) ∉ s'.rooms := by
  cases o with
  | app q =>
    simp only [RealtimeState.exec] at he
    split at he
    · cases he
    · obtain ⟨_, _, heq⟩ := Option.map_eq_some_iff.mp he
      obtain ⟨_, rfl⟩ := Prod.mk.inj heq
      exact hout
  | verifyAsync token =>
    simp only [RealtimeState.exec] at he
    split at he <;> obtain ⟨_, rfl⟩ := Prod.mk.inj (Option.some.inj he) <;> exact hout
  | assertRateLimit other =>
    simp only [RealtimeState.exec] at he
    split at he <;> obtain ⟨_, rfl⟩ := Prod.mk.inj (Option.some.inj he) <;> exact hout
  | join other room' =>
    obtain ⟨_, rfl⟩ := Prod.mk.inj (Option.some.inj he)
    intro hin
    rcases List.mem_append.mp hin with hin | hin
    · exact hout hin
    · obtain ⟨rfl, rfl⟩ := Prod.mk.inj (List.mem_singleton.mp hin)
      exact ho rfl
  | leave other room' | disconnect other =>
    obtain ⟨_, rfl⟩ := Prod.mk.inj (Option.some.inj he)
    exact fun hin => hout (List.mem_of_mem_filter hin)
  | setUser _ _ | user _ | clearCalls _ | emit _ _ =>
    obtain ⟨_, rfl⟩ := Prod.mk.inj (Option.some.inj he)
    exact hout

theorem exec_leave {r : Except Thrown Unit} (he : s.exec i c (.leave client room) = some (r, s')) :
    (client, room) ∉ s'.rooms := by
  obtain ⟨_, rfl⟩ := Prod.mk.inj (Option.some.inj he)
  intro hin
  simpa using (List.mem_filter.mp hin).2

theorem exec_join {r : Except Thrown Unit} (he : s.exec i c (.join client room) = some (r, s')) :
    (client, room) ∈ s'.rooms := by
  obtain ⟨_, rfl⟩ := Prod.mk.inj (Option.some.inj he)
  exact List.mem_append_right _ List.mem_cons_self

end Rooms

/-- The handlers keep to the protocol, and those in `threads` have taken a step. -/
structure Conforms (client : Nat) (text : String) (calls : List RealtimeCall) (threads : List Nat)
    (c : Config realtime Unit) (γ : Nat → Asking) : Prop where
  follows : Follows (requesting client text) (fun _ _ => True) (JoinsLast client text)
    (fun _ _ _ => True) c γ
  request : ∀ i, (γ i).1 = requestAt client text calls i
  begun : ∀ i ∈ threads, (γ i).2 ≠ none

section Runs

variable {client : Nat} {text : String} {calls : List RealtimeCall} {threads : List Nat}
  {c c' : Config realtime Unit} {γ : Nat → Asking} {i : Nat} {ch : RealtimeChoice}
  {es : List (Nat × RealtimeChoice)}

theorem requesting_sound :
    (requesting client text).Sound realtime Always (fun _ _ => True) where
  exec _ _ _ _ := ⟨_, rfl, trivial⟩

theorem Conforms.step (h : Conforms client text calls threads c γ) (hstep : c.step i ch = some c') :
    ∃ o r, (requesting client text).allowed (γ i) o ∧ c.shared.exec i ch o = some (r, c'.shared) ∧
      Conforms client text calls (threads ++ [i]) c'
        (Function.update γ i ((γ i).1, some ⟨o, r⟩)) := by
  obtain ⟨o, r, g, hallowed, he, hg, hfollows⟩ :=
    requesting_sound.step_exec h.follows trivial hstep
  obtain rfl : g = ((γ i).1, some ⟨o, r⟩) := hg
  refine ⟨o, r, hallowed, he, hfollows, ?_, ?_⟩
  · intro j
    by_cases hj : j = i
    · subst hj
      rw [Function.update_self]
      exact h.request j
    · rw [Function.update_of_ne hj]
      exact h.request j
  · intro j hmem
    by_cases hj : j = i
    · subst hj
      rw [Function.update_self]
      exact nofun
    · rw [Function.update_of_ne hj]
      rcases List.mem_append.mp hmem with hmem | hmem
      · exact h.begun j hmem
      · exact absurd (List.mem_singleton.mp hmem) hj

theorem Conforms.run (h : Conforms client text calls threads c γ) (hrun : c.run es = some c') :
    ∃ γ', Conforms client text calls (threads ++ es.map (·.1)) c' γ' := by
  induction es generalizing c γ threads with
  | nil =>
    obtain rfl := Option.some.inj hrun
    rw [List.map_nil, List.append_nil]
    exact ⟨γ, h⟩
  | cons e es ih =>
    obtain ⟨d, hd, hrest⟩ := Config.run_cons hrun
    obtain ⟨_, _, _, _, hstep⟩ := h.step hd
    obtain ⟨γ', hend⟩ := ih hstep hrest
    rw [List.append_assoc] at hend
    exact ⟨γ', hend⟩

def AllLeft (client : Nat) (text : String) (calls : List RealtimeCall) (γ : Nat → Asking) : Prop :=
  ∀ i, requestAt client text calls i = some .unsubscribe → (γ i).2 ≠ none

/-- Once all have left, a subscription that returns puts the socket into the
room, and the socket stays there. -/
theorem returned_joined (h : Conforms client text calls threads c γ)
    (hleft : AllLeft client text calls γ)
    (hsubscribe : requestAt client text calls i = some .subscribe)
    (hin : c.thread i = some (.ret ()) → (client, orderRoom text) ∈ c.shared.rooms)
    (hrun : c.run es = some c') (hret : c'.thread i = some (.ret ())) :
    (client, orderRoom text) ∈ c'.shared.rooms := by
  induction es generalizing c γ threads with
  | nil =>
    obtain rfl := Option.some.inj hrun
    exact hin hret
  | cons e es ih =>
    obtain ⟨d, hd, hrest⟩ := Config.run_cons hrun
    obtain ⟨o, r, hallowed, he, hstep⟩ := h.step hd
    have hstays : Stays client (orderRoom text) o := by
      have hmannered := hallowed.1
      cases hrequest : (γ e.1).1 with
      | none =>
        rw [hrequest] at hmannered
        exact hmannered.1
      | some request =>
        rw [hrequest] at hmannered
        cases request with
        | subscribe => exact hmannered
        | unsubscribe =>
          exact absurd (hallowed.2 hrequest) (hleft e.1 ((h.request e.1).symm.trans hrequest))
    refine ih hstep ?_ ?_ hrest
    · intro j hj
      by_cases hje : j = e.1
      · subst hje
        rw [Function.update_self]
        exact nofun
      · rw [Function.update_of_ne hje]
        exact hleft j hj
    · intro hnow
      by_cases hie : i = e.1
      · subst hie
        have hlast := hstep.follows.thread e.1 _ hnow
        rw [Function.update_self] at hlast
        have hjoin := hlast ((h.request e.1).trans hsubscribe)
        obtain ⟨rfl, _⟩ := Sigma.mk.inj (Option.some.inj hjoin)
        exact exec_join he
      · have hbefore : c.thread i = some (.ret ()) := (Config.step_idle hd hie).symm.trans hnow
        exact exec_stays he hstays (hin hbefore)

/-- Once all subscriptions have returned, a socket that is out of the room
stays out. -/
theorem stays_out (h : Conforms client text calls threads c γ)
    (hdone : ∀ i, requestAt client text calls i = some .subscribe → c.thread i = some (.ret ()))
    (hout : (client, orderRoom text) ∉ c.shared.rooms) (hrun : c.run es = some c') :
    (client, orderRoom text) ∉ c'.shared.rooms := by
  induction es generalizing c γ threads with
  | nil =>
    obtain rfl := Option.some.inj hrun
    exact hout
  | cons e es ih =>
    obtain ⟨d, hd, hrest⟩ := Config.run_cons hrun
    obtain ⟨o, r, hallowed, he, hstep⟩ := h.step hd
    have hjoin : o ≠ .join client (orderRoom text) := by
      have hmannered := hallowed.1
      cases hrequest : (γ e.1).1 with
      | none =>
        rw [hrequest] at hmannered
        exact hmannered.2
      | some request =>
        rw [hrequest] at hmannered
        cases request with
        | subscribe =>
          have hret := hdone e.1 ((h.request e.1).symm.trans hrequest)
          simp [Config.step, hret] at hd
        | unsubscribe =>
          intro heq
          rw [heq] at hmannered
          cases hmannered
    refine ih hstep ?_ (exec_out he hjoin hout) hrest
    intro i hi
    exact Config.step_returned hd (hdone i hi)

theorem TakenUpInOrder.begun {before after : List (Nat × RealtimeChoice)}
    {e : Nat × RealtimeChoice}
    (h : TakenUpInOrder client text calls ((before ++ e :: after).map (·.1)))
    (he : (requestAt client text calls e.1).isSome = true) {j : Nat} (hj : j < e.1)
    (hrequest : (requestAt client text calls j).isSome = true) : j ∈ before.map (·.1) := by
  have hlength : before.length < ((before ++ e :: after).map (·.1)).length := by simp
  have hthread : ((before ++ e :: after).map (·.1))[before.length] = e.1 := by simp
  have htake : ((before ++ e :: after).map (·.1)).take before.length = before.map (·.1) := by simp
  have hmem := h before.length hlength
  rw [hthread, htake] at hmem
  exact hmem he j hj hrequest

end Runs

section LastRequest

variable {handshake : Nat → Handshake} {describe : Thrown → String} {s : RealtimeState}
  {client : Nat} {text : String} {calls : List RealtimeCall} {c : Config realtime Unit}
  {es : List (Nat × RealtimeChoice)}

theorem gateway_conforms (hconnected : ∀ call ∈ calls, call ≠ .connect client ∧
    call ≠ .disconnected client) :
    Conforms client text calls [] (gateway handshake describe s calls)
      (fun i => (requestAt client text calls i, none)) where
  follows := by
    refine ⟨trivial, ?_⟩
    intro i p hp
    obtain ⟨call, hcall, rfl⟩ := Option.map_eq_some_iff.mp hp
    obtain ⟨hconnect, hdisconnected⟩ := hconnected call (List.mem_of_getElem? hcall)
    have hrequest : requestAt client text calls i = call.request client text := by
      rw [requestAt, hcall]
      rfl
    rw [hrequest]
    exact requesting_program handshake describe hconnect hdisconnected i
  request _ := rfl
  begun i hi := by cases hi

theorem request_steps {i : Nat} (hrequest : (requestAt client text calls i).isSome = true)
    (hrun : (gateway handshake describe s calls).run es = some c)
    (hret : c.thread i = some (.ret ())) : ∃ e ∈ es, e.1 = i := by
  by_contra hnone
  have hidle := Config.run_idle hrun (fun e he heq => hnone ⟨e, he, heq⟩)
  obtain ⟨request, hrequest⟩ := Option.isSome_iff_exists.mp hrequest
  obtain ⟨call, hcall, hcallRequest⟩ := Option.bind_eq_some_iff.mp hrequest
  rw [hret] at hidle
  have hprogram : (gateway handshake describe s calls).thread i =
      some (call.program handshake describe) := by
    simp only [hcall, Option.map_some]
  rw [hprogram] at hidle
  have hidle := Option.some.inj hidle
  cases call with
  | subscribe other payload => cases hidle
  | unsubscribe other payload =>
    simp only [RealtimeCall.request, Option.ite_none_right_eq_some] at hcallRequest
    simp only [RealtimeCall.program, unsubscribeOrder, hcallRequest.1.2] at hidle
    cases hidle
  | _ => cases hcallRequest

/-- A run in which the requests of a connected socket for an order are taken up
in the order sent, and all are granted. -/
structure Granted (handshake : Nat → Handshake) (describe : Thrown → String) (s : RealtimeState)
    (client : Nat) (text : String) (calls : List RealtimeCall) (es : List (Nat × RealtimeChoice))
    (c : Config realtime Unit) : Prop where
  run : (gateway handshake describe s calls).run es = some c
  connected : ∀ call ∈ calls, call ≠ .connect client ∧ call ≠ .disconnected client
  inOrder : TakenUpInOrder client text calls (es.map (·.1))
  returned : ∀ i, (requestAt client text calls i).isSome = true → c.thread i = some (.ret ())

structure IsLast (client : Nat) (text : String) (calls : List RealtimeCall) (last : Nat)
    (request : Request) : Prop where
  asked : requestAt client text calls last = some request
  later : ∀ i, last < i → requestAt client text calls i = none

/-- No subscription is under way when the handler of thread `last` takes a step. -/
def NonePending (handshake : Nat → Handshake) (describe : Thrown → String) (s : RealtimeState)
    (client : Nat) (text : String) (calls : List RealtimeCall) (es : List (Nat × RealtimeChoice))
    (last : Nat) : Prop :=
  ∀ before e after d, es = before ++ e :: after → e.1 = last →
    (gateway handshake describe s calls).run before = some d →
    ∀ i, requestAt client text calls i = some .subscribe → d.thread i = some (.ret ())

variable {last : Nat} {request : Request} {before after : List (Nat × RealtimeChoice)}
  {e : Nat × RealtimeChoice} {d : Config realtime Unit}

theorem Granted.last_step (h : Granted handshake describe s client text calls es c)
    (hlast : IsLast client text calls last request) (hsplit : es = before ++ e :: after)
    (he : e.1 = last) (hd : (gateway handshake describe s calls).run before = some d) :
    ∃ γ d', Conforms client text calls (before.map (·.1)) d γ ∧ d.step e.1 e.2 = some d' ∧
      d'.run after = some c ∧
      ∀ j, (requestAt client text calls j).isSome = true → j ≠ last → (γ j).2 ≠ none := by
  obtain ⟨γ, hconforms⟩ := (gateway_conforms h.connected).run hd
  have hrun := h.run
  rw [hsplit] at hrun
  obtain ⟨d₁, hd₁, hrest⟩ := Config.run_append hrun
  obtain rfl := Option.some.inj (hd.symm.trans hd₁)
  obtain ⟨d', hstep, hafter⟩ := Config.run_cons hrest
  refine ⟨γ, d', hconforms, hstep, hafter, ?_⟩
  intro j hj hne
  have horder := h.inOrder
  rw [hsplit] at horder
  have hlt : j < e.1 := by
    by_contra hle
    rw [hlast.later j (by omega)] at hj
    cases hj
  have hbefore := horder.begun (by rw [he, hlast.asked]; rfl) hlt hj
  exact hconforms.begun j (List.mem_append_right _ hbefore)

theorem Granted.exists_last_step (h : Granted handshake describe s client text calls es c)
    (hlast : IsLast client text calls last request) :
    ∃ before e after d, es = before ++ e :: after ∧ e.1 = last ∧
      (gateway handshake describe s calls).run before = some d := by
  have hrequest : (requestAt client text calls last).isSome = true := by
    rw [hlast.asked]
    rfl
  obtain ⟨e, hmem, he⟩ := request_steps hrequest h.run (h.returned last hrequest)
  obtain ⟨before, after, hsplit⟩ := List.append_of_mem hmem
  have hrun := h.run
  rw [hsplit] at hrun
  obtain ⟨d, hd, _⟩ := Config.run_append hrun
  exact ⟨before, e, after, d, hsplit, he, hd⟩

theorem Granted.subscribe_wins (h : Granted handshake describe s client text calls es c)
    (hlast : IsLast client text calls last .subscribe) :
    (client, orderRoom text) ∈ c.shared.rooms := by
  obtain ⟨before, e, after, d, hsplit, he, hd⟩ := h.exists_last_step hlast
  obtain ⟨γ, d', hconforms, hstep, hafter, hbegun⟩ := h.last_step hlast hsplit he hd
  have hleft : AllLeft client text calls γ := by
    intro j hj
    refine hbegun j (by rw [hj]; rfl) ?_
    rintro rfl
    cases hj.symm.trans hlast.asked
  have hrest : d.run (e :: after) = some c := by
    simp only [Config.run, hstep, Option.bind_some, hafter]
  refine returned_joined hconforms hleft hlast.asked ?_ hrest
    (h.returned last (by rw [hlast.asked]; rfl))
  intro hret
  rw [← he] at hret
  simp [Config.step, hret] at hstep

theorem Conforms.unsubscribe_step {threads : List Nat} {γ : Nat → Asking} {d' : Config realtime Unit}
    (h : Conforms client text calls threads d γ)
    (hunsubscribe : requestAt client text calls e.1 = some .unsubscribe)
    (hstep : d.step e.1 e.2 = some d') :
    (client, orderRoom text) ∉ d'.shared.rooms ∧
      ∃ γ', Conforms client text calls (threads ++ [e.1]) d' γ' ∧ (γ' e.1).2 ≠ none ∧
        ∀ j, j ≠ e.1 → γ' j = γ j := by
  obtain ⟨o, r, hallowed, he, hconforms⟩ := h.step hstep
  have hmannered := hallowed.1
  rw [h.request e.1, hunsubscribe] at hmannered
  obtain rfl : o = .leave client (orderRoom text) := hmannered
  refine ⟨exec_leave he, _, hconforms, ?_, fun j hj => Function.update_of_ne hj _ _⟩
  rw [Function.update_self]
  exact nofun

/-- A subscription that is under way when the last unsubscription is handled
joins the room after it. -/
theorem Granted.overtaken (h : Granted handshake describe s client text calls es c)
    (hlast : IsLast client text calls last .unsubscribe) (hsplit : es = before ++ e :: after)
    (he : e.1 = last) (hd : (gateway handshake describe s calls).run before = some d) {i : Nat}
    (hi : requestAt client text calls i = some .subscribe) (hpending : d.thread i ≠ some (.ret ())) :
    (client, orderRoom text) ∈ c.shared.rooms := by
  obtain ⟨γ, d', hconforms, hstep, hafter, hbegun⟩ := h.last_step hlast hsplit he hd
  have hunsubscribe : requestAt client text calls e.1 = some .unsubscribe := by
    rw [he]
    exact hlast.asked
  obtain ⟨_, γ', hconforms', hself, hothers⟩ := hconforms.unsubscribe_step hunsubscribe hstep
  have hleft : AllLeft client text calls γ' := by
    intro j hj
    by_cases hje : j = e.1
    · subst hje
      exact hself
    · rw [hothers j hje]
      exact hbegun j (by rw [hj]; rfl) (by rw [← he]; exact hje)
  refine returned_joined hconforms' hleft hi ?_ hafter (h.returned i (by rw [hi]; rfl))
  intro hret
  have hne : i ≠ e.1 := by
    rintro rfl
    cases hi.symm.trans hunsubscribe
  exact absurd ((Config.step_idle hstep hne).symm.trans hret) hpending

theorem Granted.unsubscribe_wins (h : Granted handshake describe s client text calls es c)
    (hlast : IsLast client text calls last .unsubscribe)
    (hnone : NonePending handshake describe s client text calls es last) :
    (client, orderRoom text) ∉ c.shared.rooms := by
  obtain ⟨before, e, after, d, hsplit, he, hd⟩ := h.exists_last_step hlast
  obtain ⟨γ, d', hconforms, hstep, hafter, _⟩ := h.last_step hlast hsplit he hd
  have hunsubscribe : requestAt client text calls e.1 = some .unsubscribe := by
    rw [he]
    exact hlast.asked
  obtain ⟨hout, γ', hconforms', _, _⟩ := hconforms.unsubscribe_step hunsubscribe hstep
  refine stays_out hconforms' ?_ hout hafter
  intro i hi
  exact Config.step_returned hstep (hnone before e after d hsplit he hd i hi)

/-- Once the requests of a connected socket for an order have all been granted,
the last of them decides whether it is in the room, unless this one was an
unsubscription that was handled while a subscription was under way. -/
theorem last_request_wins_iff (h : Granted handshake describe s client text calls es c)
    (hlast : IsLast client text calls last request) :
    ((client, orderRoom text) ∈ c.shared.rooms ↔ request = .subscribe) ↔
      (request = .subscribe ∨ NonePending handshake describe s client text calls es last) := by
  cases request with
  | subscribe =>
    have hin := h.subscribe_wins hlast
    constructor
    · intro _
      exact .inl rfl
    · intro _
      exact iff_of_true hin rfl
  | unsubscribe =>
    constructor
    · intro hwins
      right
      intro before e after d hsplit he hd i hi
      by_contra hpending
      cases hwins.mp (h.overtaken hlast hsplit he hd hi hpending)
    · intro hcondition
      have hnone := hcondition.resolve_left nofun
      exact iff_of_false (h.unsubscribe_wins hlast hnone) nofun

end LastRequest

def penPayload : Option Json := some (.obj [("orderId", .str (uuidOut 7))])

/-- The owner of order 7 subscribes to it and unsubscribes again. -/
def changedMind : List RealtimeCall := [.subscribe 0 penPayload, .unsubscribe 0 penPayload]

def inTurnSteps : List (Nat × RealtimeChoice) := List.replicate 4 (0, signedIn 1) ++ [(1, signedIn 1)]

/-- The socket leaves while the access check of its subscription is under way. -/
def overtakingSteps : List (Nat × RealtimeChoice) :=
  List.replicate 2 (0, signedIn 1) ++ [(1, signedIn 1)] ++ List.replicate 2 (0, signedIn 1)

def changingMind (es : List (Nat × RealtimeChoice)) :
    Option (Config realtime Unit × Config realtime Unit) := do
  let c₀ ← (gateway bearer (fun _ => "") penGateway [.connect 0]).run
    (List.replicate 2 (0, signedIn 1))
  let c ← (gateway bearer (fun _ => "") c₀.shared changedMind).run es
  some (c₀, c)

theorem changingMind_granted {es : List (Nat × RealtimeChoice)} {c₀ c : Config realtime Unit}
    (h : changingMind es = some (c₀, c))
    (hret : (c.returned 0 && c.returned 1) = true)
    (horder : TakenUpInOrder 0 (uuidOut 7) changedMind (es.map (·.1))) :
    (gateway bearer (fun _ => "") penGateway [.connect 0]).run (List.replicate 2 (0, signedIn 1)) =
        some c₀ ∧
      Granted bearer (fun _ => "") c₀.shared 0 (uuidOut 7) changedMind es c := by
  obtain ⟨c₁, hc₁, h⟩ := Option.bind_eq_some_iff.mp h
  obtain ⟨c₂, hc₂, h⟩ := Option.bind_eq_some_iff.mp h
  obtain ⟨rfl, rfl⟩ := Prod.mk.inj (Option.some.inj h)
  refine ⟨hc₁, hc₂, ?_, horder, ?_⟩
  · intro call hcall
    simp only [changedMind, List.mem_cons, List.not_mem_nil, or_false] at hcall
    rcases hcall with rfl | rfl <;> exact ⟨nofun, nofun⟩
  · simp only [Bool.and_eq_true] at hret
    intro i hi
    match i with
    | 0 => exact Config.thread_of_returned hret.1
    | 1 => exact Config.thread_of_returned hret.2
    | i + 2 => cases hi

theorem changedMind_last : IsLast 0 (uuidOut 7) changedMind 1 .unsubscribe where
  asked := by decide +kernel
  later i hi := by
    match i with
    | i + 2 => rfl

theorem last_request_wins_iff_inTurn :
    ∃ c₀ c, Granted bearer (fun _ => "") c₀ 0 (uuidOut 7) changedMind inTurnSteps c ∧
      (((0, orderRoom (uuidOut 7)) ∈ c.shared.rooms ↔ Request.unsubscribe = .subscribe) ↔
        (Request.unsubscribe = .subscribe ∨ NonePending bearer (fun _ => "") c₀ 0 (uuidOut 7)
          changedMind inTurnSteps 1)) := by
  have hrun : (changingMind inTurnSteps).map
      (fun r => r.2.returned 0 && r.2.returned 1) = some true := by decide +kernel
  obtain ⟨⟨c₀, c⟩, hr, hret⟩ := Option.map_eq_some_iff.mp hrun
  obtain ⟨_, hgranted⟩ := changingMind_granted hr hret (by decide +kernel)
  exact ⟨c₀.shared, c, hgranted, last_request_wins_iff hgranted changedMind_last⟩

/-- The socket is in the room after its last request was to leave it. -/
theorem last_request_overtakes :
    ¬ ∀ s₀ : RealtimeState, s₀.Fresh → ∀ calls₀ es₀ c₀,
      (gateway bearer (fun _ => "") s₀ calls₀).run es₀ = some c₀ → ∀ client text calls es c,
      Granted bearer (fun _ => "") c₀.shared client text calls es c → ∀ last request,
      IsLast client text calls last request →
      ((client, orderRoom text) ∈ c.shared.rooms ↔ request = .subscribe) := by
  intro h
  have hrun : (changingMind overtakingSteps).map
      (fun r => (r.2.returned 0 && r.2.returned 1,
        decide ((0, orderRoom (uuidOut 7)) ∈ r.2.shared.rooms))) = some (true, true) := by
    decide +kernel
  obtain ⟨⟨c₀, c⟩, hr, heq⟩ := Option.map_eq_some_iff.mp hrun
  obtain ⟨hret, hin⟩ := Prod.mk.inj heq
  obtain ⟨hc₀, hgranted⟩ := changingMind_granted hr hret (by decide +kernel)
  have hwins := h penGateway penGateway_fresh _ _ c₀ hc₀ 0 (uuidOut 7) changedMind overtakingSteps c
    hgranted 1 .unsubscribe changedMind_last
  cases hwins.mp (of_decide_eq_true hin)

end Ecomm
