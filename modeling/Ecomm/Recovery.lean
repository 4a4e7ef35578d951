import Ecomm.Copies
import Ecomm.CreateSpec
import Ecomm.Errands
import Ecomm.Retry

/-! Recovery: when the threads that ran are lost, what is left on the queues can
be worked off, and then every announced order is processed or dead-lettered. -/

namespace Ecomm

open Concurrent Sql Prog

/-! A worker that has ended has settled its delivery. -/

section Held

variable {α β : Type} {s : AppState} {i : Nat}

def heldNext (held : Bool) : (o : AppOp) → Except Thrown o.Ans → Bool → Prop
  | .settle _, _, held' => held' = false
  | _, _, held' => held' = held

/-- The ghost state of a thread says whether its delivery may be open. -/
def heldRules : Protocol AppOp AppOp.Ans Thrown Bool where
  allowed _ _ := True
  next := heldNext

def Held (s : AppState) (γ : Nat → Bool) : Prop := ∀ i, γ i = false → s.unacked i = none

theorem heldRules_sound : heldRules.Sound app Always Held where
  exec {s γ i ch o r s'} h _ _ he := by
    have he : s.exec i ch o = some (r, s') := he
    by_cases ho : ∃ how, o = .settle how
    · obtain ⟨how, rfl⟩ := ho
      obtain ⟨rfl, rfl⟩ := Prod.mk.inj (Option.some.inj he)
      refine ⟨false, rfl, ?_⟩
      intro j hj
      by_cases hji : j = i
      · subst hji
        exact AppState.settle_unacked_self s j how
      · rw [Function.update_of_ne hji] at hj
        rw [AppState.settle_unacked_other s hji]
        exact h j hj
    · have hsame : heldNext (γ i) o r (γ i) := by
        cases o with
        | settle how => exact absurd ⟨how, rfl⟩ ho
        | sql _ | channelReady | sendToQueue _ | publishStatusChanged _ | randomUUID | dateNow =>
          rfl
      refine ⟨γ i, hsame, ?_⟩
      rw [Function.update_eq_self]
      intro j hj
      rw [(AppState.exec_unacked he (fun how heq => ho ⟨how, heq⟩)).1]
      exact h j hj

theorem wp_held_any (p : App α) (held : Bool) :
    p.wp heldRules (fun _ _ => True) (fun _ _ => True) held :=
  (awaits_any p).wp (fun _ _ _ _ => ⟨trivial, fun _ _ _ => trivial⟩) trivial

theorem heldNext_false {o : AppOp} {r : Except Thrown o.Ans} {held : Bool}
    (h : heldNext false o r held) : held = false := by
  cases o <;> exact h

/-- A thread without a delivery gets none. -/
theorem wp_held_none (p : App α) :
    p.wp heldRules (fun _ held => held = false) (fun _ held => held = false) false := by
  refine (awaits_any p).wp ?_ rfl
  rintro held o rfl _
  exact ⟨trivial, fun r held hn => heldNext_false hn⟩

/-- The program returns only with its delivery settled. -/
def Releases (p : App α) : Prop :=
  ∀ held, p.wp heldRules (fun _ held' => held' = false) (fun _ _ => True) held

theorem releases_throw (e : Thrown) : Releases (throw e : App α) := fun _ => trivial

theorem wp_held_settle (how : Settlement) (held : Bool) :
    (await (.settle how) : App Unit).wp heldRules (fun _ held' => held' = false)
      (fun _ held' => held' = false) held :=
  (wp_await _ _ _ _).mpr ⟨trivial, fun _ _ hn => hn, fun _ _ hn => hn⟩

theorem releases_ack : Releases ack :=
  fun held => wp_mono (wp_held_settle .ack held) (fun _ _ h => h) (fun _ _ _ => trivial)

theorem Releases.after {p : App α} {f : α → App β} (hf : ∀ a, Releases (f a)) :
    Releases (p >>= f) :=
  fun held => (wp_bind _ _ _ _ _).mpr
    (wp_mono (wp_held_any p held) (fun a held' _ => hf a held') (fun _ _ _ => trivial))

theorem Releases.tryCatch {p : App α} {f : Thrown → App α} (hp : Releases p)
    (hf : ∀ e, Releases (f e)) : Releases (tryCatch p f) :=
  fun held => (wp_tryCatch _ _ _ _ _).mpr
    (wp_mono (hp held) (fun _ _ h => h) (fun e held' _ => hf e held'))

theorem releases_publishAndAck {q : String} {payload : Json} {options : PublishOptions}
    {messageId orderId : Option Json} :
    Releases (do
      let published ← publishToQueue q payload options
      if ¬ published then publishFailed q
      else do
        logDeliveryResult messageId orderId
        ack) := by
  refine Releases.after ?_
  intro published
  split
  · exact releases_throw _
  · exact Releases.after (fun _ => releases_ack)

variable (config : WorkerConfig) (describe : Thrown → String)

theorem releases_handleMessage (body : Content) :
    Releases (handleMessage config describe processOrderMessage body) := by
  cases body with
  | invalid raw => exact releases_publishAndAck
  | json payload =>
    by_cases hnull : payload = .null
    · subst hnull
      exact releases_throw _
    · rw [handleMessage_payload hnull]
      refine Releases.tryCatch (Releases.after (fun _ => Releases.after (fun _ => releases_ack))) ?_
      intro error
      dsimp only
      split
      · exact Releases.after (fun _ => Releases.after (fun _ => releases_publishAndAck))
      · exact Releases.after (fun _ => Releases.after (fun _ => releases_publishAndAck))

theorem wp_held_onMessage (body : Content) (held : Bool) :
    (onMessage config describe processOrderMessage body).wp heldRules
      (fun _ held' => held' = false) (fun _ held' => held' = false) held := by
  refine (wp_tryCatch _ _ _ _ _).mpr (wp_mono (releases_handleMessage config describe body held)
    (fun _ _ h => h) ?_)
  exact fun _ held' _ => wp_held_settle (.nack true) held'

theorem AppState.crash_unacked_self (s : AppState) (i : Nat) : (s.crash i).unacked i = none := by
  unfold AppState.crash
  dsimp only
  split
  · next h => exact h
  · exact Function.update_self _ _ _

theorem held_crew (A : Content → Prop) :
    Crew heldRules Held (fun held => held = false) (fun held => held = false) A config
      describe where
  sound := heldRules_sound
  arrive _ h := h
  deliver {s γ i k body} h _ _ := by
    refine ⟨true, ?_, wp_held_onMessage config describe body true⟩
    intro j hj
    by_cases hji : j = i
    · subst hji
      simp at hj
    · rw [Function.update_of_ne hji] at hj
      exact (Function.update_of_ne hji _ _).trans (h j hj)
  crash {s γ i} h := by
    refine ⟨false, rfl, ?_⟩
    intro j hj
    by_cases hji : j = i
    · subst hji
      exact s.crash_unacked_self j
    · rw [Function.update_of_ne hji] at hj
      refine Option.eq_none_iff_forall_ne_some.mpr (fun body hbody => ?_)
      have hsome := AppState.crash_unacked_of_some hbody
      rw [h j hj] at hsome
      cases hsome
  expire h _ := h

end Held

/-! A delivery that is handled alone, on a server that does not fail. -/

section Alone

variable {s : AppState} {i : Nat} {m o : Uuid}

theorem process_finishes {message : Json.Fields} (hs : s.store.Coherent)
    (htx : ∀ j, s.store.tx j = none) (hlawful : Lawful s.store.tables)
    (hid : markerId message = some m) (ho : orderRef message = some o)
    (hstored : StoredOrder s.store.tables o) :
    (processOrderMessage message).Finishes app NoFault i
      (fun a _ => ∃ result, a = .ok result) s := by
  obtain ⟨r, hrow⟩ := Option.isSome_iff_exists.mp hstored
  by_cases hm : marked s.store.tables m
  · exact finishes_mono (duplicate_finishes hs htx hid ho hm) (fun _ _ h => ⟨_, h.1⟩)
  · by_cases hstatus : r.status = .processed
    · exact finishes_mono (already_finishes hs htx hid ho hm hrow hstatus) (fun _ _ h => ⟨_, h.1⟩)
    · have hallow := hlawful.allow hs.distinct hrow
      exact finishes_mono (retry_finishes hs htx hid ho hm hrow hallow hstatus)
        (fun _ _ h => ⟨_, h.1⟩)

theorem uuidParam_convertible {v : Option Json} {u : Uuid} (h : uuidParam v = .ok u) :
    (v.getD .null).convertible = true := by
  cases v with
  | none => cases h
  | some v =>
    cases v with
    | str t => rfl
    | null | bool _ | num _ | overflow | arr _ | obj _ => cases h

/-- A message that names a marker and an order can be logged. -/
theorem names_loggable {payload : Json} (h : (Content.json payload).names = (some m, some o)) :
    payload.loggable = true := by
  obtain ⟨hmarker, horder⟩ := Prod.mk.inj h
  have hsome : ∀ {v : Option Json} {u : Uuid}, (uuidParam v).toOption = some u →
      (v.getD .null).convertible = true := by
    intro v u hv
    cases hp : uuidParam v with
    | error e =>
      rw [hp] at hv
      cases hv
    | ok w => exact uuidParam_convertible hp
  exact Bool.and_eq_true_iff.mpr ⟨hsome hmarker, hsome horder⟩

theorem onMessage_finishes (config : WorkerConfig) (describe : Thrown → String) {body : Content}
    (hs : s.store.Coherent) (htx : ∀ j, s.store.tx j = none) (hlawful : Lawful s.store.tables)
    (hnames : body.names = (some m, some o)) (hstored : StoredOrder s.store.tables o) :
    (onMessage config describe processOrderMessage body).Finishes app NoFault i
      (fun r s' => r = .ok () ∧ ∃ u, Untouched s u ∧ s' = u.settle i .ack) s := by
  cases body with
  | invalid raw => cases hnames
  | json payload =>
    have hnull : payload ≠ .null := by
      rintro rfl
      cases hnames
    rw [onMessage, handleMessage_payload hnull]
    refine finishes_tryCatch (finishes_tryCatch (finishes_bind ?_))
    have hboth := (names_withAttempt payload (attemptOf payload)).trans hnames
    obtain ⟨hid, ho⟩ := Prod.mk.inj hboth
    have hprocess := finishes_keeps (I := Untouched s) (F := NoFault) (i := i)
      (fun _ _ _ _ _ hu ha he => exec_untouched hu ha he) (internal_processOrderMessage _)
      ⟨rfl, rfl, rfl, rfl, rfl⟩ (process_finishes hs htx hlawful hid ho hstored)
    refine finishes_mono hprocess ?_
    rintro _ u ⟨⟨result, rfl⟩, hu⟩
    have hlog : logDeliveryResult (payload.get "messageId") (payload.get "orderId") = pure () := by
      have hloggable := names_loggable hnames
      rw [Json.loggable] at hloggable
      rw [logDeliveryResult, if_pos hloggable]
    rw [hlog]
    refine finishes_await ?_
    intro ch _
    exact ⟨_, _, rfl, rfl, u, hu, rfl⟩

end Alone

/-! The broker goes on with the threads lost. -/

section Repairs

variable {config : WorkerConfig} {describe : Thrown → String} {ch : AppChoice} {T₀ : Database}
  {c d e : Config app Unit}

theorem brokerRun_append (c : Config app Unit) (es fs : List BrokerEvent) :
    brokerRun config describe c (es ++ fs) =
      (brokerRun config describe c es).bind (fun d => brokerRun config describe d fs) := by
  induction es generalizing c with
  | nil => rfl
  | cons e es ih =>
    simp only [List.cons_append, brokerRun, ih]
    cases brokerStep config describe c e <;> rfl

/-- A program that thread `i` runs alone to its end. -/
theorem brokerRun_eval {i : Nat} {p : App Unit} {s s' : AppState} {chs : List AppChoice}
    {r : Except Thrown Unit} {threads : Nat → Option (App Unit)}
    (h : p.eval app i s chs = some (r, s')) :
    brokerRun config describe ⟨s, Function.update threads i (some p)⟩ (chs.map (.step i)) =
      some ⟨s', Function.update threads i (some (ofResult r))⟩ := by
  induction p generalizing s chs with
  | ret a =>
    obtain ⟨rfl, rfl, rfl⟩ := eval_ret h
    rfl
  | raise e =>
    obtain ⟨rfl, rfl, rfl⟩ := eval_raise h
    rfl
  | op o k ih =>
    obtain ⟨ch, rest, a, t, rfl, he, hgo⟩ := eval_op h
    have he : s.exec i ch o = some (a, t) := he
    simp only [List.map_cons, brokerRun, brokerStep, Config.step, Function.update_self, he,
      Function.update_idem, Option.bind_some]
    exact ih a hgo

/-- No message comes from outside, and every operation meets the choice `ch`. -/
def Repair (ch : AppChoice) : BrokerEvent → Prop
  | .arrive _ => False
  | .step _ ch' => ch' = ch
  | .deliver _ _ | .crash _ | .expire _ => True

def Repairs (config : WorkerConfig) (describe : Thrown → String) (ch : AppChoice)
    (c d : Config app Unit) : Prop :=
  ∃ es, (∀ e ∈ es, Repair ch e) ∧ brokerRun config describe c es = some d

theorem Repairs.refl (c : Config app Unit) : Repairs config describe ch c c :=
  ⟨[], by simp, rfl⟩

theorem Repairs.trans (h : Repairs config describe ch c d) (h' : Repairs config describe ch d e) :
    Repairs config describe ch c e := by
  obtain ⟨es, hes, hc⟩ := h
  obtain ⟨fs, hfs, hd⟩ := h'
  refine ⟨es ++ fs, ?_, by rw [brokerRun_append, hc]; exact hd⟩
  intro b hb
  exact (List.mem_append.mp hb).elim (hes b) (hfs b)

theorem Repairs.single {b : BrokerEvent} (hb : Repair ch b)
    (h : brokerStep config describe c b = some d) : Repairs config describe ch c d :=
  ⟨[b], by simpa using hb, by simp [brokerRun, h]⟩

/-- What holds in every state of a run without messages from outside. -/
structure Attended (T₀ : Database) (c : Config app Unit) : Prop where
  tended : ∃ γ, Tended c γ
  held : ∃ γ, Manned heldRules Held (fun held => held = false) (fun held => held = false) c γ
  booked : ∃ γ, Rules.Staffed orderRules (Books (fun _ => False) T₀) (.inl ()) c γ
  finite : ∃ n, ∀ i, n ≤ i → c.thread i = none

theorem finite_step {n : Nat} (hn : ∀ i, n ≤ i → c.thread i = none) {b : BrokerEvent}
    (h : brokerStep config describe c b = some d) : ∃ n, ∀ i, n ≤ i → d.thread i = none := by
  have hupdate : ∀ (i : Nat) (p : App Unit), ∃ n, ∀ j, n ≤ j →
      Function.update c.thread i (some p) j = none := by
    intro i p
    refine ⟨max n (i + 1), ?_⟩
    intro j hj
    rw [Function.update_of_ne (by omega)]
    exact hn j (by omega)
  cases b with
  | arrive body =>
    obtain rfl := Option.some.inj h
    exact ⟨n, hn⟩
  | deliver i k =>
    simp only [brokerStep] at h
    split at h
    · obtain rfl := Option.some.inj h
      exact hupdate i _
    · cases h
  | step i choice =>
    obtain ⟨o, k, r, s', _, _, rfl⟩ := Config.step_cases h
    exact hupdate i _
  | crash i =>
    simp only [brokerStep] at h
    split at h
    · obtain rfl := Option.some.inj h
      exact hupdate i _
    · cases h
  | expire k =>
    simp only [brokerStep] at h
    split at h
    · obtain rfl := Option.some.inj h
      exact ⟨n, hn⟩
    · cases h

theorem finite_run {n : Nat} (hn : ∀ i, n ≤ i → c.thread i = none) {es : List BrokerEvent}
    (h : brokerRun config describe c es = some d) : ∃ n, ∀ i, n ≤ i → d.thread i = none := by
  induction es generalizing c n with
  | nil =>
    obtain rfl := Option.some.inj h
    exact ⟨n, hn⟩
  | cons b es ih =>
    obtain ⟨c', hc', hrest⟩ := Option.bind_eq_some_iff.mp h
    obtain ⟨n', hn'⟩ := finite_step hn hc'
    exact ih hn' hrest

theorem Attended.run (h : Attended T₀ c) {es : List BrokerEvent} (hes : ∀ body, .arrive body ∉ es)
    (hr : brokerRun config describe c es = some d) : Attended T₀ d := by
  obtain ⟨γ, hγ⟩ := h.tended
  obtain ⟨δ, hδ⟩ := h.held
  obtain ⟨ε, hε⟩ := h.booked
  obtain ⟨n, hn⟩ := h.finite
  exact ⟨hγ.run (errands_crew (fun _ => False) config describe) hes hr,
    hδ.run (held_crew config describe (fun _ => False)) hes hr,
    hε.run orderRules_serves hes hr, finite_run hn hr⟩

theorem Attended.repairs (h : Attended T₀ c) (hr : Repairs config describe ch c d) :
    Attended T₀ d := by
  obtain ⟨es, hes, hrun⟩ := hr
  exact h.run (fun body hb => hes _ hb) hrun

/-- No thread runs. -/
def Stopped (c : Config app Unit) : Prop := ∀ i o k, c.thread i ≠ some (.op o k)

theorem Attended.unacked (h : Attended T₀ c) (hstop : Stopped c) (i : Nat) :
    c.shared.unacked i = none := by
  obtain ⟨γ, hγ⟩ := h.held
  exact hγ.follows.inv i ((or_self _).mp (hγ.ended (hstop i)))

/-- Everything on the queues names an order that is stored. -/
theorem Attended.names (h : Attended T₀ c) {q : String} {body : Content}
    (hb : body ∈ c.shared.queue q) :
    ∃ u o, body.names = (some u, some o) ∧ StoredOrder c.shared.store.tables o := by
  obtain ⟨γ, hγ⟩ := h.tended
  obtain ⟨δ, hδ⟩ := h.booked
  rcases hδ.follows.inv.rest.queued q body hb with ⟨_, hfalse, _⟩ | ⟨u, o, hu, hn⟩
  · exact hfalse.elim
  · exact ⟨u, o, hn, hγ.follows.inv.announced u o hu⟩

/-- The lost threads give their deliveries back to `orders.process`. -/
theorem stop_below (c : Config app Unit) (n : Nat) : ∃ d, Repairs config describe ch c d ∧
    (∀ i, i < n → ∀ o k, d.thread i ≠ some (.op o k)) ∧ (∀ i, n ≤ i → d.thread i = c.thread i) ∧
    d.shared.published = c.shared.published ∧
    d.shared.queue AppState.dlqQueue = c.shared.queue AppState.dlqQueue := by
  induction n with
  | zero => exact ⟨c, .refl c, by simp, fun _ _ => rfl, rfl, rfl⟩
  | succ n ih =>
    obtain ⟨d, hd, hbelow, habove, hpub, hdlq⟩ := ih
    by_cases hop : ∃ o k, d.thread n = some (.op o k)
    · obtain ⟨o, k, hthread⟩ := hop
      have hcrash : brokerStep config describe d (.crash n) = some ⟨d.shared.crash n,
          Function.update d.thread n (some (.raise .channelClosed))⟩ := by
        simp [brokerStep, hthread]
      have hrepair : Repair ch (.crash n) := trivial
      refine ⟨_, hd.trans (.single hrepair hcrash), ?_, ?_, ?_, ?_⟩
      · intro i hi o k
        by_cases hin : i = n
        · subst hin
          simp
        · simp only [Function.update_of_ne hin]
          exact hbelow i (by omega) o k
      · intro i hi
        exact (Function.update_of_ne (by omega) _ _).trans (habove i (by omega))
      · exact (AppState.crash_published _ _).trans hpub
      · refine Eq.trans ?_ hdlq
        unfold AppState.crash
        dsimp only
        split
        · rfl
        · simp [AppState.enqueue, AppState.dlqQueue, AppState.processQueue]
    · refine ⟨d, hd, ?_, fun i hi => habove i (by omega), hpub, hdlq⟩
      intro i hi o k hthread
      by_cases hin : i = n
      · subst hin
        exact hop ⟨o, k, hthread⟩
      · exact hbelow i (by omega) o k hthread

theorem Attended.stop (config : WorkerConfig) (describe : Thrown → String) (ch : AppChoice)
    (h : Attended T₀ c) : ∃ d, Repairs config describe ch c d ∧ Stopped d ∧
    d.shared.published = c.shared.published ∧
    d.shared.queue AppState.dlqQueue = c.shared.queue AppState.dlqQueue := by
  obtain ⟨n, hn⟩ := h.finite
  obtain ⟨d, hd, hbelow, habove, hrest⟩ := stop_below c n
  refine ⟨d, hd, ?_, hrest⟩
  intro i o k hthread
  by_cases hi : i < n
  · exact hbelow i hi o k hthread
  · rw [habove i (by omega), hn i (by omega)] at hthread
    cases hthread

theorem settle_ack_queue (s : AppState) (i : Nat) : (s.settle i .ack).queue = s.queue := by
  unfold AppState.settle
  dsimp only
  split <;> rfl

/-- A fresh worker handles the first message of `orders.process` and
acknowledges it. -/
theorem Attended.handle (config : WorkerConfig) (describe : Thrown → String)
    (h : Attended T₀ c) (hstop : Stopped c) (hch : NoFault ch) {body : Content}
    {rest : List Content} (hq : c.shared.queue AppState.processQueue = body :: rest) :
    ∃ d, Repairs config describe ch c d ∧ Stopped d ∧
      d.shared.published = c.shared.published ∧
      d.shared.queue = Function.update c.shared.queue AppState.processQueue rest := by
  obtain ⟨n, hn⟩ := h.finite
  have hnone : c.thread n = none := hn n (Nat.le_refl n)
  have hbody : (c.shared.queue AppState.processQueue)[0]? = some body := by rw [hq]; rfl
  obtain ⟨u, o, hnames, hstored⟩ := h.names (List.mem_of_getElem? hbody)
  obtain ⟨γ, hγ⟩ := h.tended
  have hinv := hγ.follows.inv
  have hfinishes : (onMessage config describe processOrderMessage body).Finishes app NoFault n
      (fun r s' => r = .ok () ∧ ∃ u, Untouched (c.shared.deliver n 0 body) u ∧ s' = u.settle n .ack)
      (c.shared.deliver n 0 body) :=
    onMessage_finishes config describe hinv.coherent (fun j => hγ.tx_none (hstop j))
      hinv.orderly.committed hnames hstored
  obtain ⟨m, r, s', hrun, rfl, t, ht, rfl⟩ := finishes_eval hch hfinishes
  have hdeliver : brokerStep config describe c (.deliver n 0) = some ⟨c.shared.deliver n 0 body,
      Function.update c.thread n (some (onMessage config describe processOrderMessage body))⟩ := by
    simp [brokerStep, hnone, hbody]
  have hsteps : Repairs config describe ch ⟨c.shared.deliver n 0 body,
      Function.update c.thread n (some (onMessage config describe processOrderMessage body))⟩
      ⟨t.settle n .ack, Function.update c.thread n (some (.ret ()))⟩ := by
    refine ⟨_, ?_, brokerRun_eval hrun⟩
    intro b hb
    obtain ⟨ch', hch', rfl⟩ := List.mem_map.mp hb
    exact List.eq_of_mem_replicate hch'
  have hrepair : Repair ch (.deliver n 0) := trivial
  refine ⟨_, (Repairs.single hrepair hdeliver).trans hsteps, ?_, ?_, ?_⟩
  · intro i o k
    by_cases hi : i = n
    · subst hi
      simp
    · simp only [Function.update_of_ne hi]
      exact hstop i o k
  · exact (AppState.settle_published t n .ack).trans ht.published
  · rw [settle_ack_queue, ht.queue]
    simp only [AppState.deliver, AppState.takeFrom, hq, List.eraseIdx_cons_zero]

/-- The end of the delay of the first message of the retry queue. -/
theorem expire_first (config : WorkerConfig) (describe : Thrown → String) (ch : AppChoice)
    (hstop : Stopped c) {body : Content} {rest : List Content}
    (hq : c.shared.queue AppState.retryQueue = body :: rest) :
    ∃ d, Repairs config describe ch c d ∧ Stopped d ∧
      d.shared.published = c.shared.published ∧
      d.shared.queue AppState.retryQueue = rest ∧
      d.shared.queue AppState.processQueue = c.shared.queue AppState.processQueue ++ [body] ∧
      d.shared.queue AppState.dlqQueue = c.shared.queue AppState.dlqQueue := by
  have hbody : (c.shared.queue AppState.retryQueue)[0]? = some body := by rw [hq]; rfl
  have hexpire : brokerStep config describe c (.expire 0) = some { c with
      shared := (c.shared.takeFrom AppState.retryQueue 0).enqueue AppState.processQueue body } := by
    simp [brokerStep, hbody]
  have hrepair : Repair ch (.expire 0) := trivial
  have hretry : AppState.retryQueue ≠ AppState.processQueue := by decide
  have hprocess : AppState.dlqQueue ≠ AppState.processQueue := by decide
  have hdlq : AppState.dlqQueue ≠ AppState.retryQueue := by decide
  refine ⟨_, .single hrepair hexpire, hstop, rfl, ?_, ?_, ?_⟩
  · simp [AppState.enqueue, AppState.takeFrom, hq, hretry]
  · simp [AppState.enqueue, AppState.takeFrom, hretry.symm]
  · simp [AppState.enqueue, AppState.takeFrom, hprocess, hdlq]

/-- Every message is handled once more, those on the retry queue after their delay. -/
theorem Attended.drain (config : WorkerConfig) (describe : Thrown → String)
    (h : Attended T₀ c) (hstop : Stopped c) (hch : NoFault ch) :
    ∃ d, Repairs config describe ch c d ∧ Stopped d ∧
      d.shared.published = c.shared.published ∧
      d.shared.queue AppState.processQueue = [] ∧ d.shared.queue AppState.retryQueue = [] ∧
      d.shared.queue AppState.dlqQueue = c.shared.queue AppState.dlqQueue := by
  -- a delivery takes a message off, and an expiry moves one on
  generalize hn : (c.shared.queue AppState.processQueue).length +
    2 * (c.shared.queue AppState.retryQueue).length = n
  induction n using Nat.strong_induction_on generalizing c with
  | _ n ih =>
    cases hp : c.shared.queue AppState.processQueue with
    | cons body rest =>
      obtain ⟨d, hd, hstopped, hpub, hqueue⟩ :=
        h.handle config describe hstop hch hp
      have hprocess : d.shared.queue AppState.processQueue = rest := by
        rw [hqueue, Function.update_self]
      have hother : ∀ q, q ≠ AppState.processQueue → d.shared.queue q = c.shared.queue q := by
        intro q hq
        rw [hqueue, Function.update_of_ne hq]
      have hretry := hother AppState.retryQueue (by decide)
      have hless : rest.length + 2 * (c.shared.queue AppState.retryQueue).length < n := by
        rw [← hn, hp, List.length_cons]
        omega
      obtain ⟨e, he, hrest, hpub', hprocess', hretry', hdlq⟩ :=
        ih _ hless (h.repairs hd) hstopped (by rw [hprocess, hretry])
      exact ⟨e, hd.trans he, hrest, hpub'.trans hpub, hprocess', hretry',
        hdlq.trans (hother AppState.dlqQueue (by decide))⟩
    | nil =>
      cases hr : c.shared.queue AppState.retryQueue with
      | nil => exact ⟨c, .refl c, hstop, rfl, hp, hr, rfl⟩
      | cons body rest =>
        obtain ⟨d, hd, hstopped, hpub, hretry, hprocess, hdlq⟩ :=
          expire_first config describe ch hstop hr
        have hless : 1 + 2 * rest.length < n := by
          rw [← hn, hp, hr, List.length_nil, List.length_cons]
          omega
        obtain ⟨e, he, hrest, hpub', hprocess', hretry', hdlq'⟩ :=
          ih _ hless (h.repairs hd) hstopped (by rw [hprocess, hretry, hp]; rfl)
        exact ⟨e, hd.trans he, hrest, hpub'.trans hpub, hprocess', hretry', hdlq'.trans hdlq⟩

end Repairs

/-! The recovery of the whole system. -/

section Recovery

variable {config : WorkerConfig} {describe : Thrown → String} {s : AppState}

theorem Attended.start (hs : s.Quiet) (hun : ∀ i, s.unacked i = none)
    (hagrees : Agrees s.store.tables) (hempty : ∀ q, s.queue q = [])
    (hlawful : Lawful s.store.tables) (calls : List CreateCall) :
    Attended s.store.tables (consuming s (calls.map .create)) where
  tended := ⟨_, tended_start hs hlawful calls⟩
  held := by
    refine ⟨fun _ => false, ⟨fun i _ => hun i, ?_⟩, fun _ _ => rfl⟩
    intro i p _
    exact wp_held_none p
  booked := by
    refine ⟨_, pipeline_starts hs hun hagrees ?_ calls⟩
    intro q body hb
    rw [hempty] at hb
    cases hb
  finite := by
    refine ⟨calls.length, ?_⟩
    intro i hi
    simpa [consuming] using hi

/-- Nothing waits any more, and no message was lost or sent. -/
structure Recovered (c d : Config app Unit) : Prop where
  stopped : Stopped d
  process : d.shared.queue AppState.processQueue = []
  retry : d.shared.queue AppState.retryQueue = []
  dead : d.shared.queue AppState.dlqQueue = c.shared.queue AppState.dlqQueue
  unacked : ∀ i, d.shared.unacked i = none
  published : d.shared.published = c.shared.published
  announced : ∀ u o, HandedOver c.shared u o → IsProcessed d.shared.store.tables o ∨
    ∃ body ∈ c.shared.queue AppState.dlqQueue, body.names = (some u, some o)

/-- From every state of every run the system recovers: without failures of the
server, and whatever the clock shows, every announced order is processed unless
its message has been dead-lettered. -/
theorem announced_recoverable (config : WorkerConfig) (describe : Thrown → String) {s : AppState}
    (hs : s.Quiet) (hun : ∀ i, s.unacked i = none) (hagrees : Agrees s.store.tables)
    (hempty : ∀ q, s.queue q = []) (hlawful : Lawful s.store.tables) (calls : List CreateCall)
    {es : List BrokerEvent} (hes : ∀ body, .arrive body ∉ es) {c : Config app Unit}
    (h : brokerRun config describe (consuming s (calls.map .create)) es = some c)
    (hids : ∀ u o o', HandedOver c.shared u o → HandedOver c.shared u o' → o = o')
    (hnew : ∀ u o, HandedOver c.shared u o → ¬ marked s.store.tables u) {ch : AppChoice}
    (hch : NoFault ch) : ∃ d, Repairs config describe ch c d ∧ Recovered c d := by
  have hattended : Attended s.store.tables c :=
    (Attended.start hs hun hagrees hempty hlawful calls).run hes h
  obtain ⟨b, hb, hstop, hpub, hdlq⟩ := hattended.stop config describe ch
  obtain ⟨d, hd, hstopped, hpub', hprocess, hretry, hdlq'⟩ :=
    (hattended.repairs hb).drain config describe hstop hch
  have hrepairs := hb.trans hd
  have hun' := (hattended.repairs hrepairs).unacked hstopped
  have hdead := hdlq'.trans hdlq
  have hpublished := hpub'.trans hpub
  have hhanded : ∀ u o, HandedOver d.shared u o ↔ HandedOver c.shared u o := by
    intro u o
    rw [HandedOver, HandedOver, hpublished]
  refine ⟨d, hrepairs, hstopped, hprocess, hretry, hdead, hun', hpublished, ?_⟩
  intro u o hu
  obtain ⟨later, hlater, hrun⟩ := hrepairs
  have hwhole : brokerRun config describe (consuming s (calls.map .create)) (es ++ later) =
      some d := by
    rw [brokerRun_append, h]
    exact hrun
  have hnone : ∀ body, .arrive body ∉ es ++ later := by
    intro body hmem
    exact (List.mem_append.mp hmem).elim (hes body) (fun hl => hlater _ hl)
  have hkept := announced_kept hs hun hagrees hempty calls hnone hwhole
    (fun u o o' ho ho' => hids u o o' ((hhanded u o).mp ho) ((hhanded u o').mp ho'))
    (fun u o ho => hnew u o ((hhanded u o).mp ho)) ((hhanded u o).mpr hu)
  rcases hkept with hprocessed | ⟨q, hq, body, hmem, hnames⟩ | ⟨i, body, hi, _⟩
  · exact .inl hprocessed
  · simp only [List.mem_cons, List.not_mem_nil, or_false] at hq
    rcases hq with rfl | rfl | rfl
    · rw [hprocess] at hmem
      cases hmem
    · rw [hretry] at hmem
      cases hmem
    · rw [hdead] at hmem
      exact .inr ⟨body, hmem, hnames⟩
  · rw [hun' i] at hi
    cases hi

end Recovery

theorem lawful_penShop : Lawful (penShop 5) := ⟨penShop_valid.types, penShop_valid.refs⟩

/-- The worker has entered its marker when the server goes down. -/
def penLeft : List BrokerEvent :=
  List.replicate 13 (.step 0 (tick 10)) ++ [.deliver 1 0] ++ List.replicate 4 (.step 1 (tick 11))

theorem announced_recoverable_penLeft : ∃ c, brokerRun defaults (fun _ => "")
    (consuming (serving (penShop 5)) ([penOrder none 1].map .create)) penLeft = some c ∧
    ¬ IsProcessed c.shared.store.tables 10 ∧
    ∃ d, Repairs defaults (fun _ => "") (tick 12) c d ∧ Recovered c d ∧
      IsProcessed d.shared.store.tables 10 := by
  have hrun : (brokerRun defaults (fun _ => "") (consuming (serving (penShop 5))
      ([penOrder none 1].map .create)) penLeft).map (fun c =>
        (c.shared.published.map (fun e => e.2.announcement),
          (c.shared.queue AppState.dlqQueue).length,
          ((c.shared.store.tables .orders).lookup 10).map (·.status))) =
      some ([(AppState.processQueue, some (uuidOut 10), some (uuidOut 10))], 0, some .pending) := by
    decide +kernel
  obtain ⟨c, hc, hsummary⟩ := Option.map_eq_some_iff.mp hrun
  simp only [Prod.mk.injEq] at hsummary
  obtain ⟨hpublished, hdlq, hstatus⟩ := hsummary
  have hmain := announced_recoverable defaults (fun _ => "") (serving_quiet (penShop_distinct 5))
    (fun _ => rfl) (agrees_penShop 5) (fun _ => rfl) lawful_penShop [penOrder none 1]
    (fun body => by simp [penLeft]) hc
    (fun u o o' h h' => ((handedOver_single hpublished).mp h).2.trans
      ((handedOver_single hpublished).mp h').2.symm)
    (fun u o _ hmarked => by cases hmarked) (show NoFault (tick 12) from rfl)
  obtain ⟨d, hd, hrecovered⟩ := hmain
  refine ⟨c, hc, ?_, d, hd, hrecovered, ?_⟩
  · rintro ⟨row, hrow, hprocessed⟩
    rw [hrow, Option.map_some, hprocessed] at hstatus
    cases hstatus
  · have hannounced : HandedOver c.shared 10 10 := (handedOver_single hpublished).mpr ⟨rfl, rfl⟩
    rcases hrecovered.announced 10 10 hannounced with hprocessed | ⟨body, hbody, _⟩
    · exact hprocessed
    · rw [List.eq_nil_of_length_eq_zero hdlq] at hbody
      cases hbody

end Ecomm
