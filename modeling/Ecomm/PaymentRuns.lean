import Ecomm.PaymentsService
import Mathlib.Data.List.Destutter

/-! Runs of `PaymentsService`: the life of a payment. -/

namespace Ecomm

inductive Ledger.Step (randomUUID : Nat → String) (l : Ledger) : PaymentCall → Ledger → Prop
  | same (c) : Ledger.Step randomUUID l c l
  | created (input) : Ledger.Step randomUUID l (.authorize input)
      { payments := l.payments.insert (randomUUID l.drawn)
          ⟨randomUUID l.drawn, input.orderId, .authorized, input.amount, input.currency⟩
        drawn := l.drawn + 1 }
  | captured (input payment) (h : l.payments.lookup input.paymentId = some payment)
      (hs : payment.status = .authorized) :
      Ledger.Step randomUUID l (.capture input) (l.move payment .captured input.paymentId)
  | refunded (input payment) (h : l.payments.lookup input.paymentId = some payment)
      (hs : payment.status = .authorized ∨ payment.status = .captured) :
      Ledger.Step randomUUID l (.refund input) (l.move payment .refunded input.paymentId)

structure Ledger.Valid (randomUUID : Nat → String) (l : Ledger) : Prop where
  drawn : ∀ p r, l.payments.lookup p = some r → ∃ k, k < l.drawn ∧ p = randomUUID k
  own : ∀ p r, l.payments.lookup p = some r → r.paymentId = p
  status : ∀ p r, l.payments.lookup p = some r →
    r.status = .authorized ∨ r.status = .captured ∨ r.status = .refunded

def PaymentStatus.Leads (a b : PaymentStatus) : Prop :=
  b = a ∨ (a = .authorized ∧ (b = .captured ∨ b = .refunded)) ∨ (a = .captured ∧ b = .refunded)

/-- No payment is lost, and only its status changes. -/
def Ledger.Grows (l l' : Ledger) : Prop :=
  ∀ p r, l.payments.lookup p = some r → ∃ r', l'.payments.lookup p = some r' ∧
    r' = { r with status := r'.status } ∧ r.status.Leads r'.status

theorem PaymentStatus.Leads.trans {a b c : PaymentStatus} (h : a.Leads b) (h' : b.Leads c) :
    a.Leads c := by
  unfold Leads at *
  rcases h with rfl | ⟨rfl, rfl | rfl⟩ | ⟨rfl, rfl⟩ <;> simp_all

theorem PaymentStatus.Leads.refunded {b : PaymentStatus} (h : PaymentStatus.refunded.Leads b) :
    b = .refunded := by
  simpa [Leads] using h

theorem PaymentStatus.Leads.settled {a b : PaymentStatus} (h : a.Leads b)
    (ha : a = .captured ∨ a = .refunded) : b = .captured ∨ b = .refunded := by
  rcases ha with rfl | rfl
  · simpa [Leads] using h
  · exact .inr h.refunded

theorem PaymentStatus.Leads.antisymm {a b : PaymentStatus} (h : a.Leads b) (h' : b.Leads a) :
    a = b := by
  unfold Leads at *
  rcases h with rfl | ⟨rfl, rfl | rfl⟩ | ⟨rfl, rfl⟩ <;> simp_all

namespace Ledger

variable {randomUUID : Nat → String} {l l' l'' : Ledger}

theorem Grows.refl (l : Ledger) : l.Grows l := fun _ r hr => ⟨r, hr, rfl, .inl rfl⟩

theorem Grows.trans (h : l.Grows l') (h' : l'.Grows l'') : l.Grows l'' := by
  intro p r hr
  obtain ⟨r', hr', heq, hleads⟩ := h p r hr
  obtain ⟨r'', hr'', heq', hleads'⟩ := h' p r' hr'
  refine ⟨r'', hr'', ?_, hleads.trans hleads'⟩
  rw [heq', heq]

theorem perform_step (c : PaymentCall) (l : Ledger) :
    l.Step randomUUID c (perform randomUUID c l).2 := by
  cases c with
  | authorize input => exact .created input
  | getStatus paymentId => exact .same _
  | capture input =>
    cases hp : l.payments.lookup input.paymentId with
    | none =>
      simp only [perform, hp]
      exact .same _
    | some payment =>
      cases hs : payment.status <;> simp only [perform, hp, hs]
      case authorized => exact .captured input payment hp hs
      all_goals exact .same _
  | refund input =>
    cases hp : l.payments.lookup input.paymentId with
    | none =>
      simp only [perform, hp]
      exact .same _
    | some payment =>
      cases hs : payment.status <;> simp only [perform, hp, hs]
      case authorized => exact .refunded input payment hp (.inl hs)
      case captured => exact .refunded input payment hp (.inr hs)
      all_goals exact .same _

theorem move_lookup (l : Ledger) (payment : PaymentRecord) (status : PaymentStatus) (q p : String) :
    (l.move payment status q).payments.lookup p =
      if p = q then some { payment with status } else l.payments.lookup p := by
  by_cases hp : p = q
  · subst hp
    simp [move]
  · simp [move, hp, AList.lookup_insert_ne hp]

theorem Valid.move (h : l.Valid randomUUID) {payment : PaymentRecord} {q : String}
    (hq : l.payments.lookup q = some payment) {status : PaymentStatus}
    (hs : status = .captured ∨ status = .refunded) (hl : payment.status.Leads status) :
    (l.move payment status q).Valid randomUUID ∧ l.Grows (l.move payment status q) := by
  refine ⟨⟨?_, ?_, ?_⟩, ?_⟩
  · intro p r hr
    rw [move_lookup] at hr
    split at hr
    · next hp => exact h.drawn p payment (hp ▸ hq)
    · exact h.drawn p r hr
  · intro p r hr
    rw [move_lookup] at hr
    split at hr
    · next hp =>
      obtain rfl := Option.some.inj hr
      exact h.own p payment (hp ▸ hq)
    · exact h.own p r hr
  · intro p r hr
    rw [move_lookup] at hr
    split at hr
    · obtain rfl := Option.some.inj hr
      exact .inr hs
    · exact h.status p r hr
  · intro p r hr
    rw [move_lookup]
    split
    · next hp =>
      subst hp
      obtain rfl := Option.some.inj (hr.symm.trans hq)
      exact ⟨_, rfl, rfl, hl⟩
    · exact ⟨r, hr, rfl, .inl rfl⟩

theorem Valid.fresh (h : l.Valid randomUUID) (hinj : Function.Injective randomUUID) :
    l.payments.lookup (randomUUID l.drawn) = none := by
  cases hr : l.payments.lookup (randomUUID l.drawn) with
  | none => rfl
  | some r =>
    obtain ⟨k, hk, heq⟩ := h.drawn _ r hr
    have := hinj heq
    omega

theorem Step.valid (h : l.Valid randomUUID) (hinj : Function.Injective randomUUID)
    {c : PaymentCall} (hs : l.Step randomUUID c l') : l'.Valid randomUUID ∧ l.Grows l' := by
  cases hs with
  | same => exact ⟨h, .refl l⟩
  | captured input payment hp hs => exact h.move hp (.inl rfl) (by simp [PaymentStatus.Leads, hs])
  | refunded input payment hp hs =>
    refine h.move hp (.inr rfl) ?_
    rcases hs with hs | hs <;> simp [PaymentStatus.Leads, hs]
  | created input =>
    have hnew := h.fresh hinj
    have hlook : ∀ p r, (l.payments.insert (randomUUID l.drawn) ⟨randomUUID l.drawn, input.orderId,
        .authorized, input.amount, input.currency⟩).lookup p = some r →
        (p = randomUUID l.drawn ∧ r = ⟨randomUUID l.drawn, input.orderId, .authorized,
          input.amount, input.currency⟩) ∨ l.payments.lookup p = some r := by
      intro p r hr
      by_cases hp : p = randomUUID l.drawn
      · subst hp
        rw [AList.lookup_insert] at hr
        exact .inl ⟨rfl, (Option.some.inj hr).symm⟩
      · rw [AList.lookup_insert_ne hp] at hr
        exact .inr hr
    refine ⟨⟨?_, ?_, ?_⟩, ?_⟩
    · intro p r hr
      rcases hlook p r hr with ⟨rfl, _⟩ | hr
      · exact ⟨l.drawn, Nat.lt_succ_self _, rfl⟩
      · obtain ⟨k, hk, hp⟩ := h.drawn p r hr
        exact ⟨k, Nat.lt_succ_of_lt hk, hp⟩
    · intro p r hr
      rcases hlook p r hr with ⟨rfl, rfl⟩ | hr
      · rfl
      · exact h.own p r hr
    · intro p r hr
      rcases hlook p r hr with ⟨_, rfl⟩ | hr
      · exact .inl rfl
      · exact h.status p r hr
    · intro p r hr
      have hp : p ≠ randomUUID l.drawn := by
        rintro rfl
        rw [hnew] at hr
        cases hr
      exact ⟨r, (AList.lookup_insert_ne hp).trans hr, rfl, .inl rfl⟩

end Ledger

namespace PaymentsService

variable {randomUUID : Nat → String}

theorem call_step (s : PaymentsService) (c : PaymentCall) :
    s.ledger.Step randomUUID c (s.call randomUUID c).2.ledger := by
  have hcore : (s.call randomUUID c).2.ledger =
      (s.server.serve (Ledger.perform randomUUID) c.request).2.core := by
    rw [← call_server]
    rfl
  rcases Idempotent.serve_core s.server c.request with he | he
  · rw [hcore, he]
    exact .same c
  · rw [hcore, he, request_op]
    exact Ledger.perform_step c _

def after (randomUUID : Nat → String) (calls : List PaymentCall) : PaymentsService :=
  (run randomUUID .empty calls).2

theorem run_append (s : PaymentsService) (calls calls' : List PaymentCall) :
    run randomUUID s (calls ++ calls') =
      ((run randomUUID s calls).1 ++ (run randomUUID (run randomUUID s calls).2 calls').1,
        (run randomUUID (run randomUUID s calls).2 calls').2) := by
  induction calls generalizing s with
  | nil => rfl
  | cons c cs ih => simp [run, ih]

theorem empty_valid : empty.ledger.Valid randomUUID where
  drawn _ _ h := by cases h
  own _ _ h := by cases h
  status _ _ h := by cases h

theorem empty_replies (kind : PaymentKind) (k : String) : empty.server.replies kind k = none := by
  cases kind <;> rfl

theorem run_valid (hinj : Function.Injective randomUUID) {s : PaymentsService}
    (h : s.ledger.Valid randomUUID) (calls : List PaymentCall) :
    (run randomUUID s calls).2.ledger.Valid randomUUID ∧
      s.ledger.Grows (run randomUUID s calls).2.ledger := by
  induction calls generalizing s with
  | nil => exact ⟨h, .refl _⟩
  | cons c cs ih =>
    obtain ⟨hvalid, hgrows⟩ := (call_step s c).valid h hinj
    obtain ⟨hvalid', hgrows'⟩ := ih hvalid
    exact ⟨hvalid', hgrows.trans hgrows'⟩

theorem after_valid (hinj : Function.Injective randomUUID) (calls : List PaymentCall) :
    (after randomUUID calls).ledger.Valid randomUUID :=
  (run_valid hinj empty_valid calls).1

theorem after_grows (hinj : Function.Injective randomUUID) (calls calls' : List PaymentCall) :
    (after randomUUID calls).ledger.Grows (after randomUUID (calls ++ calls')).ledger := by
  rw [after, after, run_append]
  exact (run_valid hinj (after_valid hinj calls) calls').2

/-! ## The life of a payment -/

def trail (randomUUID : Nat → String) : PaymentsService → List PaymentCall → List PaymentsService
  | s, [] => [s]
  | s, c :: cs => s :: trail randomUUID (s.call randomUUID c).2 cs

def statusOf (paymentId : String) (s : PaymentsService) : Option PaymentStatus :=
  (s.paymentsById.lookup paymentId).map (·.status)

def history (paymentId : String) (states : List PaymentsService) : List PaymentStatus :=
  (states.filterMap (statusOf paymentId)).destutter (· ≠ ·)

def transitions (randomUUID : Nat → String) (paymentId : String) (status : PaymentStatus) :
    PaymentsService → List PaymentCall → Nat
  | _, [] => 0
  | s, c :: cs =>
    (if statusOf paymentId s ≠ some status ∧
        statusOf paymentId (s.call randomUUID c).2 = some status then 1 else 0) +
      transitions randomUUID paymentId status (s.call randomUUID c).2 cs

/-- The payment that a call is about: the one it names, or the one it creates. -/
def names (randomUUID : Nat → String) (s : PaymentsService) : PaymentCall → Option String
  | .authorize _ => some (randomUUID s.drawn)
  | .capture input => some input.paymentId
  | .refund input => some input.paymentId
  | .getStatus _ => none

theorem statusOf_grows {s s' : PaymentsService} (h : s.ledger.Grows s'.ledger) {p : String}
    {a : PaymentStatus} (ha : statusOf p s = some a) :
    ∃ b, statusOf p s' = some b ∧ a.Leads b := by
  obtain ⟨r, hr, rfl⟩ := Option.map_eq_some_iff.mp ha
  obtain ⟨r', hr', _, hleads⟩ := h p r hr
  exact ⟨r'.status, Option.map_eq_some_iff.mpr ⟨r', hr', rfl⟩, hleads⟩

theorem trail_grows (hinj : Function.Injective randomUUID) {s : PaymentsService}
    (h : s.ledger.Valid randomUUID) (calls : List PaymentCall) :
    (∀ s' ∈ trail randomUUID s calls, s.ledger.Grows s'.ledger) ∧
      (trail randomUUID s calls).Pairwise (fun s s' => s.ledger.Grows s'.ledger) := by
  induction calls generalizing s with
  | nil => simp [trail, Ledger.Grows.refl]
  | cons c cs ih =>
    obtain ⟨hvalid, hgrows⟩ := (call_step s c).valid h hinj
    obtain ⟨hall, hpairs⟩ := ih hvalid
    have hlater : ∀ s' ∈ trail randomUUID (s.call randomUUID c).2 cs,
        s.ledger.Grows s'.ledger := fun s' hs' => hgrows.trans (hall s' hs')
    refine ⟨?_, List.pairwise_cons.mpr ⟨hlater, hpairs⟩⟩
    intro s' hs'
    rcases List.mem_cons.mp hs' with rfl | hs'
    · exact .refl _
    · exact hlater s' hs'

theorem call_created {s : PaymentsService} (c : PaymentCall) {p : String}
    (hp : statusOf p s = none) :
    statusOf p (s.call randomUUID c).2 = none ∨
      statusOf p (s.call randomUUID c).2 = some .authorized := by
  have hstep : s.ledger.Step randomUUID c (s.call randomUUID c).2.ledger := call_step s c
  generalize (s.call randomUUID c).2 = s' at hstep
  have hlook : s.paymentsById.lookup p = none := Option.map_eq_none_iff.mp hp
  have hmoved : ∀ payment status q, s.ledger.payments.lookup q = some payment →
      s'.ledger = s.ledger.move payment status q → statusOf p s' = none := by
    intro payment status q hq he
    have hne : p ≠ q := by
      rintro rfl
      exact Option.some_ne_none _ (hq.symm.trans hlook)
    have hs' : s'.paymentsById.lookup p = s.paymentsById.lookup p := by
      have := s.ledger.move_lookup payment status q p
      rw [if_neg hne, ← he] at this
      exact this
    simp [statusOf, hs', hlook]
  generalize hl' : s'.ledger = l' at hstep
  cases hstep with
  | same =>
    have hs' : s'.paymentsById = s.paymentsById := congrArg Ledger.payments hl'
    exact .inl (by simpa [statusOf, hs'] using hlook)
  | created input =>
    have hs' : s'.paymentsById = _ := congrArg Ledger.payments hl'
    by_cases hid : p = randomUUID s.ledger.drawn
    · subst hid
      exact .inr (by simp [statusOf, hs', AList.lookup_insert])
    · refine .inl ?_
      simp only [statusOf, hs', Option.map_eq_none_iff]
      exact (AList.lookup_insert_ne hid).trans hlook
  | captured input payment h => exact .inl (hmoved _ _ _ h hl')
  | refunded input payment h => exact .inl (hmoved _ _ _ h hl')

theorem trail_head {p : String} {s : PaymentsService} (hp : statusOf p s = none)
    (calls : List PaymentCall) :
    ∀ a, ((trail randomUUID s calls).filterMap (statusOf p)).head? = some a → a = .authorized := by
  induction calls generalizing s with
  | nil => simp [trail, hp]
  | cons c cs ih =>
    intro a ha
    rw [trail, List.filterMap_cons_none hp] at ha
    rcases call_created c hp with hnone | hsome
    · exact ih hnone a ha
    · have htrail : ∃ rest, trail randomUUID (s.call randomUUID c).2 cs =
          (s.call randomUUID c).2 :: rest := by
        cases cs <;> exact ⟨_, rfl⟩
      obtain ⟨rest, hrest⟩ := htrail
      rw [hrest, List.filterMap_cons_some hsome] at ha
      exact (Option.some.inj ha).symm

theorem leads_prefix {l : List PaymentStatus} (hhead : ∀ a, l.head? = some a → a = .authorized)
    (hleads : l.Pairwise PaymentStatus.Leads) (hchain : l.IsChain (· ≠ ·)) :
    l <+: [.authorized, .captured, .refunded] ∨ l <+: [.authorized, .refunded] := by
  match l with
  | [] => exact .inl (List.nil_prefix)
  | [a] =>
    obtain rfl := hhead a rfl
    exact .inl (by simp)
  | a :: b :: rest =>
    obtain rfl := hhead a rfl
    have hb : b = .captured ∨ b = .refunded := by
      have hne := (List.isChain_cons_cons.mp hchain).1
      have := (List.pairwise_cons.mp hleads).1 b (by simp)
      unfold PaymentStatus.Leads at this
      grind
    have hchain' := (List.isChain_cons_cons.mp hchain).2
    have hleads' := (List.pairwise_cons.mp hleads).2
    match rest with
    | [] => rcases hb with rfl | rfl <;> simp
    | c :: rest =>
      have hc : b = .captured ∧ c = .refunded := by
        have hne := (List.isChain_cons_cons.mp hchain').1
        have := (List.pairwise_cons.mp hleads').1 c (by simp)
        unfold PaymentStatus.Leads at this
        grind
      obtain ⟨rfl, rfl⟩ := hc
      match rest with
      | [] => exact .inl (by simp)
      | d :: rest =>
        have hne := (List.isChain_cons_cons.mp (List.isChain_cons_cons.mp hchain').2).1
        have := (List.pairwise_cons.mp (List.pairwise_cons.mp hleads').2).1 d (by simp)
        unfold PaymentStatus.Leads at this
        grind

theorem head?_destutter' (l : List PaymentStatus) (a : PaymentStatus) :
    (l.destutter' (· ≠ ·) a).head? = some a := by
  induction l with
  | nil => rfl
  | cons b l ih =>
    rw [List.destutter'_cons]
    split
    · rfl
    · exact ih

theorem history_prefix (hinj : Function.Injective randomUUID) (calls : List PaymentCall)
    (p : String) :
    history p (trail randomUUID .empty calls) <+: [.authorized, .captured, .refunded] ∨
      history p (trail randomUUID .empty calls) <+: [.authorized, .refunded] := by
  refine leads_prefix ?_ ?_ (List.isChain_destutter _ _)
  · intro a ha
    have hfirst : ((trail randomUUID .empty calls).filterMap (statusOf p)).head? = some a →
        a = .authorized := trail_head rfl calls a
    refine hfirst ?_
    rw [← ha, history]
    cases (trail randomUUID empty calls).filterMap (statusOf p) with
    | nil => rfl
    | cons b l => exact (head?_destutter' l b).symm
  · refine List.Pairwise.sublist (List.destutter_sublist _ _) ?_
    refine List.Pairwise.filterMap _ ?_ (trail_grows hinj empty_valid calls).2
    intro s s' hgrows a ha b hb
    obtain ⟨b', hb', hleads⟩ := statusOf_grows hgrows ha
    obtain rfl := Option.some.inj (hb'.symm.trans hb)
    exact hleads

theorem transitions_past (hinj : Function.Injective randomUUID) {p : String}
    {status a : PaymentStatus} {s : PaymentsService} (h : s.ledger.Valid randomUUID)
    (ha : statusOf p s = some a) (hpast : status.Leads a) (calls : List PaymentCall) :
    transitions randomUUID p status s calls = 0 := by
  induction calls generalizing s a with
  | nil => rfl
  | cons c cs ih =>
    obtain ⟨hvalid, hgrows⟩ := (call_step s c).valid h hinj
    obtain ⟨b, hb, hleads⟩ := statusOf_grows hgrows ha
    have hnot : ¬ (statusOf p s ≠ some status ∧
        statusOf p (s.call randomUUID c).2 = some status) := by
      rintro ⟨hne, he⟩
      obtain rfl := Option.some.inj (hb.symm.trans he)
      exact hne (ha.trans (congrArg some (PaymentStatus.Leads.antisymm hleads hpast)))
    rw [transitions, if_neg hnot, ih hvalid hb (hpast.trans hleads)]

theorem transitions_le_one (hinj : Function.Injective randomUUID) (p : String)
    (status : PaymentStatus) {s : PaymentsService} (h : s.ledger.Valid randomUUID)
    (calls : List PaymentCall) : transitions randomUUID p status s calls ≤ 1 := by
  induction calls generalizing s with
  | nil => exact Nat.zero_le 1
  | cons c cs ih =>
    have hvalid := ((call_step s c).valid h hinj).1
    rw [transitions]
    split
    · next hmove => rw [transitions_past hinj hvalid hmove.2 (.inl rfl)]
    · simpa using ih hvalid

theorem run_server (s : PaymentsService) (calls : List PaymentCall) :
    s.server.serveAll (Ledger.perform randomUUID) (calls.map PaymentCall.request) =
      ((run randomUUID s calls).1.map (Prod.map PaymentCall.request id),
        (run randomUUID s calls).2.server) := by
  induction calls generalizing s with
  | nil => rfl
  | cons c cs ih =>
    rw [List.map_cons, Idempotent.Server.serveAll, ← call_server, ih]
    rfl

theorem answer_vouched (hinj : Function.Injective randomUUID)
    {P : Ledger → PaymentCall → PaymentAnswer → Prop}
    (hnew : ∀ c l, l.Valid randomUUID →
      P (Ledger.perform randomUUID c l).2 c (Ledger.perform randomUUID c l).1)
    (hold : ∀ c l l' a, l.Grows l' → P l c a → P l' c a) (calls : List PaymentCall)
    (c : PaymentCall) :
    P (after randomUUID (calls ++ [c])).ledger
      (Idempotent.original (calls.map PaymentCall.request) c.request).op
      ((after randomUUID calls).call randomUUID c).1 := by
  have hinv : ∀ c l, l.Valid randomUUID → (Ledger.perform randomUUID c l).2.Valid randomUUID :=
    fun c l h => ((Ledger.perform_step c l).valid h hinj).1
  have hkeep : ∀ c c' a l, l.Valid randomUUID → P l c' a → P (Ledger.perform randomUUID c l).2 c' a :=
    fun c c' a l h => hold c' l _ a ((Ledger.perform_step c l).valid h hinj).2
  have hstart : Idempotent.Vouched P empty.server [] := .nil empty_replies
  have hall := Idempotent.serveAll_vouched hinv hnew hkeep hstart empty_valid
    (calls.map PaymentCall.request)
  rw [run_server, List.nil_append] at hall
  have hanswer := hall.1.answer hnew hall.2 c.request
  rw [← call_server] at hanswer
  rw [after, run_append]
  exact hanswer

/-- The messages of the branches that no call reaches. -/
def unreachable : List String :=
  ["payment must be authorized before capture",
    "payment must be authorized or captured before refund"]

theorem perform_reachable (c : PaymentCall) {l : Ledger} (h : l.Valid randomUUID)
    {code : OperationErrorCode} {message : String}
    (ha : (Ledger.perform randomUUID c l).1 = .outcome (.error code message)) :
    message ∉ unreachable := by
  cases c with
  | authorize input => cases ha
  | getStatus paymentId => cases ha
  | capture input =>
    cases hp : l.payments.lookup input.paymentId with
    | none =>
      simp only [Ledger.perform, hp, PaymentAnswer.outcome.injEq, OperationOutcome.error.injEq] at ha
      simp [← ha.2, unreachable]
    | some payment =>
      rcases h.status _ payment hp with hs | hs | hs <;>
        simp only [Ledger.perform, hp, hs, PaymentAnswer.outcome.injEq, reduceCtorEq,
          OperationOutcome.error.injEq] at ha
      simp [← ha.2, unreachable]
  | refund input =>
    cases hp : l.payments.lookup input.paymentId with
    | none =>
      simp only [Ledger.perform, hp, PaymentAnswer.outcome.injEq, OperationOutcome.error.injEq] at ha
      simp [← ha.2, unreachable]
    | some payment =>
      rcases h.status _ payment hp with hs | hs | hs <;>
        simp [Ledger.perform, hp, hs] at ha

theorem answer_reachable (hinj : Function.Injective randomUUID) (calls : List PaymentCall)
    (c : PaymentCall) {code : OperationErrorCode} {message : String}
    (ha : ((after randomUUID calls).call randomUUID c).1 = .outcome (.error code message)) :
    message ∉ unreachable :=
  answer_vouched hinj
    (P := fun _ _ a => ∀ code message, a = .outcome (.error code message) → message ∉ unreachable)
    (fun c _ h _ _ ha => perform_reachable c h ha) (fun _ _ _ _ _ h => h) calls c code message ha

theorem call_frame (s : PaymentsService) (c : PaymentCall) {p : String}
    (hp : names randomUUID s c ≠ some p) :
    (s.call randomUUID c).2.paymentsById.lookup p = s.paymentsById.lookup p := by
  have hstep : s.ledger.Step randomUUID c (s.call randomUUID c).2.ledger := call_step s c
  change (s.call randomUUID c).2.ledger.payments.lookup p = s.ledger.payments.lookup p
  generalize (s.call randomUUID c).2.ledger = l' at hstep
  have hne : ∀ q, names randomUUID s c = some q → p ≠ q := by
    rintro q hq rfl
    exact hp hq
  cases hstep with
  | same => rfl
  | created input => exact AList.lookup_insert_ne (hne _ rfl)
  | captured input payment h => rw [Ledger.move_lookup, if_neg (hne _ rfl)]
  | refunded input payment h => rw [Ledger.move_lookup, if_neg (hne _ rfl)]

structure LifeCycle (randomUUID : Nat → String) : Prop where
  /-- A record is never removed, and only its status changes. -/
  kept : ∀ calls calls' p r, (after randomUUID calls).paymentsById.lookup p = some r →
    ∃ status, (after randomUUID (calls ++ calls')).paymentsById.lookup p = some { r with status }
  history : ∀ calls p,
    history p (trail randomUUID .empty calls) <+: [.authorized, .captured, .refunded] ∨
      history p (trail randomUUID .empty calls) <+: [.authorized, .refunded]
  terminal : ∀ calls calls' p, statusOf p (after randomUUID calls) = some .refunded →
    statusOf p (after randomUUID (calls ++ calls')) = some .refunded
  status : ∀ calls p, statusOf p (after randomUUID calls) ≠ some .unspecified ∧
    statusOf p (after randomUUID calls) ≠ some .failed
  reachable : ∀ calls c code message,
    ((after randomUUID calls).call randomUUID c).1 = .outcome (.error code message) →
      message ∉ unreachable
  frame : ∀ calls c p, names randomUUID (after randomUUID calls) c ≠ some p →
    statusOf p (after randomUUID (calls ++ [c])) = statusOf p (after randomUUID calls)
  once : ∀ calls p, transitions randomUUID p .captured .empty calls ≤ 1 ∧
    transitions randomUUID p .refunded .empty calls ≤ 1

theorem life_cycle (randomUUID : Nat → String) (hinj : Function.Injective randomUUID) :
    LifeCycle randomUUID where
  kept calls calls' p r hr := by
    obtain ⟨r', hr', heq, _⟩ := after_grows hinj calls calls' p r hr
    exact ⟨r'.status, by rw [← heq]; exact hr'⟩
  history := history_prefix hinj
  terminal calls calls' p hp := by
    obtain ⟨b, hb, hleads⟩ := statusOf_grows (after_grows hinj calls calls') hp
    rwa [hleads.refunded] at hb
  status calls p := by
    refine ⟨?_, ?_⟩ <;> intro hp <;>
      obtain ⟨r, hr, hs⟩ := Option.map_eq_some_iff.mp hp <;>
      rcases (after_valid hinj calls).status p r hr with h | h | h <;> simp_all
  reachable calls c _ _ ha := answer_reachable hinj calls c ha
  frame calls c p hp := by
    rw [after, run_append]
    exact congrArg (Option.map _) (call_frame _ c hp)
  once calls p := ⟨transitions_le_one hinj p _ empty_valid calls,
    transitions_le_one hinj p _ empty_valid calls⟩

/-- Ids `x`, `xx`, `xxx`. -/
def tally (n : Nat) : String := String.ofList (List.replicate (n + 1) 'x')

theorem tally_injective : Function.Injective tally := by
  intro m n h
  have := congrArg String.length h
  simpa [tally] using this

def sale (key : Option String) : PaymentCall := .authorize ⟨"order-1", "10.00", "USD", key⟩

theorem life_cycle_tally : LifeCycle tally ∧
    history "x" (trail tally .empty
      [sale none, .capture ⟨"x", none⟩, .capture ⟨"x", none⟩, .refund ⟨"x", some "r"⟩,
        .capture ⟨"x", some "c"⟩]) = [.authorized, .captured, .refunded] :=
  ⟨life_cycle tally tally_injective, by decide +kernel⟩

end PaymentsService

end Ecomm
