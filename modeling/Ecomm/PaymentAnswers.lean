import Ecomm.PaymentRuns

/-! The answers of `PaymentsService`: retries, and what a success answer is
about. -/

namespace Ecomm

namespace PaymentsService

variable {randomUUID : Nat → String}

/-! ## Retries -/

/-- The calls without those that repeat a key of their operation. -/
def withoutRetries (calls : List PaymentCall) : List PaymentCall :=
  Idempotent.firstUses PaymentCall.request [] calls

theorem request_injective :
    Function.Injective (Prod.map PaymentCall.request (id : PaymentAnswer → _)) :=
  Function.Injective.prodMap
    (Function.LeftInverse.injective (g := Idempotent.Request.op) request_op)
    Function.injective_id

theorem empty_known :
    Idempotent.Known empty.server ([] : List (Idempotent.Request PaymentKind String PaymentCall)) := by
  intro r k _
  simp [empty_replies, Idempotent.repeats]

theorem withoutRetries_server (randomUUID : Nat → String) (calls : List PaymentCall) :
    (run randomUUID .empty (withoutRetries calls)).2.server = (after randomUUID calls).server ∧
      (run randomUUID .empty (withoutRetries calls)).1 =
        Idempotent.firstUses (fun e => e.1.request) [] (run randomUUID .empty calls).1 := by
  have hshort : empty.server.serveAll (Ledger.perform randomUUID)
      (Idempotent.firstUses id [] (calls.map PaymentCall.request)) =
        (Idempotent.firstUses Prod.fst [] (empty.server.serveAll (Ledger.perform randomUUID)
            (calls.map PaymentCall.request)).1,
          (empty.server.serveAll (Ledger.perform randomUUID)
            (calls.map PaymentCall.request)).2) :=
    Idempotent.serveAll_firstUses empty_known (calls.map PaymentCall.request)
  rw [Idempotent.firstUses_map, run_server] at hshort
  have hreq : (fun c => id (PaymentCall.request c)) = PaymentCall.request := rfl
  rw [hreq, run_server, Idempotent.firstUses_map, Prod.mk.injEq] at hshort
  exact ⟨hshort.2, List.map_injective_iff.mpr request_injective hshort.1⟩

/-- A call whose key is new to its operation is performed, whatever the other
operations have done with the key. -/
theorem call_performed (randomUUID : Nat → String) (calls : List PaymentCall) {c : PaymentCall}
    (hnew : ∀ c' ∈ calls, c'.request.kind = c.request.kind → c'.request.key = c.request.key →
      c.request.key = none) :
    ((after randomUUID calls).call randomUUID c).1 =
        (Ledger.perform randomUUID c (after randomUUID calls).ledger).1 ∧
      ((after randomUUID calls).call randomUUID c).2.ledger =
        (Ledger.perform randomUUID c (after randomUUID calls).ledger).2 := by
  have hknown : Idempotent.Known (empty.server.serveAll (Ledger.perform randomUUID)
      (calls.map PaymentCall.request)).2 _ := empty_known.serveAll (calls.map PaymentCall.request)
  rw [run_server, List.append_nil] at hknown
  have hfresh : Idempotent.repeats (calls.map PaymentCall.request).reverse c.request = false := by
    rw [Bool.eq_false_iff]
    intro hrepeats
    obtain ⟨hkey, r, hr, hkind, hsame⟩ := Idempotent.repeats_iff.mp hrepeats
    obtain ⟨c', hc', rfl⟩ := List.mem_map.mp (List.mem_reverse.mp hr)
    exact hkey (hnew c' hc' hkind hsame)
  have hserved : (after randomUUID calls).server.serve (Ledger.perform randomUUID) c.request = _ :=
    Idempotent.Server.serve_performed (hknown.unanswered hfresh)
  have hcall := (call_server (after randomUUID calls) c).trans hserved
  rw [request_op] at hcall
  refine ⟨congrArg Prod.fst hcall, ?_⟩
  have hcore := congrArg (fun e => e.2.core) hcall
  simp only [record_core] at hcore
  exact hcore

/-- Retries change neither the payments nor the other answers, and are answered
as the first call with their key. A key that other operations have used is new. -/
theorem retries_transparent (randomUUID : Nat → String) (calls : List PaymentCall) :
    (run randomUUID .empty (withoutRetries calls)).2.paymentsById =
        (run randomUUID .empty calls).2.paymentsById ∧
      (run randomUUID .empty (withoutRetries calls)).1 =
        Idempotent.firstUses (fun e => e.1.request) [] (run randomUUID .empty calls).1 ∧
      (∀ e ∈ (run randomUUID .empty calls).1, ∀ e' ∈ (run randomUUID .empty calls).1,
        e.1.request.kind = e'.1.request.kind → e.1.request.key = e'.1.request.key →
          e.1.request.key ≠ none → e.2 = e'.2) ∧
      ∀ c, (∀ c' ∈ calls, c'.request.kind = c.request.kind → c'.request.key = c.request.key →
          c.request.key = none) →
        ((after randomUUID calls).call randomUUID c).1 =
            (Ledger.perform randomUUID c (after randomUUID calls).ledger).1 ∧
          ((after randomUUID calls).call randomUUID c).2.ledger =
            (Ledger.perform randomUUID c (after randomUUID calls).ledger).2 := by
  obtain ⟨hserver, hanswers⟩ := withoutRetries_server randomUUID calls
  refine ⟨congrArg (fun s => s.core.payments) hserver, hanswers, ?_,
    fun c hnew => call_performed randomUUID calls hnew⟩
  intro e he e' he' hkind hkey hsome
  obtain ⟨k, hk⟩ := Option.ne_none_iff_exists'.mp hsome
  have hmem : ∀ e ∈ (run randomUUID .empty calls).1, Prod.map PaymentCall.request id e ∈
      (empty.server.serveAll (Ledger.perform randomUUID) (calls.map PaymentCall.request)).1 := by
    intro e he
    rw [run_server]
    exact List.mem_map_of_mem he
  exact Idempotent.same_answer (hmem e he) (hmem e' he') hkind hk (hkey ▸ hk)

/-! ## What a success answer is about -/

/-- What a success answer to a call says of the payments. -/
def About (l : Ledger) : PaymentCall → PaymentAnswer → Prop
  | .authorize input, .authorized result =>
    ∃ r, l.payments.lookup result.paymentId = some r ∧ r.orderId = input.orderId ∧
      r.amount = input.amount ∧ r.currency = input.currency
  | .capture input, .outcome (.ok _) =>
    ∃ r, l.payments.lookup input.paymentId = some r ∧
      (r.status = .captured ∨ r.status = .refunded)
  | .refund input, .outcome (.ok _) =>
    ∃ r, l.payments.lookup input.paymentId = some r ∧ r.status = .refunded
  | _, _ => True

/-- The first call of the same operation with the same key, or the call itself. -/
def original (before : List PaymentCall) (c : PaymentCall) : PaymentCall :=
  (before.find? (fun c' => c.request.key.isSome &&
    (c'.request.kind = c.request.kind && c'.request.key = c.request.key))).getD c

theorem original_request (before : List PaymentCall) (c : PaymentCall) :
    (Idempotent.original (before.map PaymentCall.request) c.request).op = original before c := by
  unfold Idempotent.original original
  have hmap : (before.map PaymentCall.request).find? (fun r' => c.request.key.isSome &&
      (r'.kind = c.request.kind && r'.key = c.request.key)) =
      (before.find? (fun c' => c.request.key.isSome &&
        (c'.request.kind = c.request.kind && c'.request.key = c.request.key))).map
        PaymentCall.request := List.find?_map
  rw [hmap]
  cases before.find? (fun c' => c.request.key.isSome &&
    (c'.request.kind = c.request.kind && c'.request.key = c.request.key)) <;> exact request_op _

theorem About.mono {l l' : Ledger} (h : l.Grows l') {c : PaymentCall} {a : PaymentAnswer}
    (ha : About l c a) : About l' c a := by
  cases c with
  | authorize input =>
    cases a with
    | authorized result =>
      obtain ⟨r, hr, hid, hamount, hcurrency⟩ := ha
      obtain ⟨r', hr', heq, _⟩ := h _ r hr
      rw [heq] at hr'
      exact ⟨_, hr', hid, hamount, hcurrency⟩
    | outcome | status => trivial
  | capture input =>
    match a with
    | .outcome (.ok _) =>
      obtain ⟨r, hr, hs⟩ := ha
      obtain ⟨r', hr', _, hleads⟩ := h _ r hr
      exact ⟨r', hr', hleads.settled hs⟩
    | .outcome (.error _ _) | .authorized _ | .status _ => trivial
  | refund input =>
    match a with
    | .outcome (.ok _) =>
      obtain ⟨r, hr, hs⟩ := ha
      obtain ⟨r', hr', _, hleads⟩ := h _ r hr
      exact ⟨r', hr', (hs ▸ hleads).refunded⟩
    | .outcome (.error _ _) | .authorized _ | .status _ => trivial
  | getStatus paymentId => cases a <;> trivial

theorem perform_about (c : PaymentCall) (l : Ledger) :
    About (Ledger.perform randomUUID c l).2 c (Ledger.perform randomUUID c l).1 := by
  cases c with
  | authorize input => exact ⟨_, AList.lookup_insert _, rfl, rfl, rfl⟩
  | getStatus paymentId => trivial
  | capture input =>
    cases hp : l.payments.lookup input.paymentId with
    | none =>
      simp only [Ledger.perform, hp]
      trivial
    | some payment =>
      cases hs : payment.status <;> simp only [Ledger.perform, hp, hs]
      case authorized => exact ⟨_, (l.move_lookup _ _ _ _).trans (if_pos rfl), .inl rfl⟩
      case captured => exact ⟨payment, hp, .inl hs⟩
      all_goals trivial
  | refund input =>
    cases hp : l.payments.lookup input.paymentId with
    | none =>
      simp only [Ledger.perform, hp]
      trivial
    | some payment =>
      cases hs : payment.status <;> simp only [Ledger.perform, hp, hs]
      case authorized => exact ⟨_, (l.move_lookup _ _ _ _).trans (if_pos rfl), rfl⟩
      case captured => exact ⟨_, (l.move_lookup _ _ _ _).trans (if_pos rfl), rfl⟩
      case refunded => exact ⟨payment, hp, hs⟩
      all_goals trivial

/-- A success answer is about the payment of the first call with the key, then
and ever after. -/
theorem answer_about_original (randomUUID : Nat → String) (hinj : Function.Injective randomUUID)
    (calls calls' : List PaymentCall) (c : PaymentCall) :
    About (after randomUUID (calls ++ c :: calls')).ledger (original calls c)
      ((after randomUUID calls).call randomUUID c).1 := by
  have hnow := answer_vouched hinj (fun c l _ => perform_about c l) (fun _ _ _ _ h => About.mono h)
    calls c
  rw [original_request] at hnow
  have hlater := after_grows hinj (calls ++ [c]) calls'
  rw [List.append_assoc, List.singleton_append] at hlater
  exact hnow.mono hlater

theorem answer_about_original_tally :
    About (after tally [sale (some "k"), .authorize ⟨"order-2", "20.00", "EUR", some "k"⟩]).ledger
      (sale (some "k")) (.authorized ⟨"x", .authorized⟩) :=
  answer_about_original tally tally_injective [sale (some "k")] []
    (.authorize ⟨"order-2", "20.00", "EUR", some "k"⟩)

/-- A key that is used again with other arguments gets the payment of its first
use. -/
theorem answer_about_other :
    ¬ ∀ calls c, About (after tally (calls ++ [c])).ledger c
      ((after tally calls).call tally c).1 := by
  intro h
  obtain ⟨r, hr, hid, _⟩ := h [sale (some "k")] (.authorize ⟨"order-2", "20.00", "EUR", some "k"⟩)
  have hfirst : (after tally ([sale (some "k")] ++ [.authorize ⟨"order-2", "20.00", "EUR", some "k"⟩])
      ).ledger.payments.lookup "x" = some ⟨"x", "order-1", .authorized, "10.00", "USD"⟩ := by
    decide +kernel
  obtain rfl := Option.some.inj (hfirst.symm.trans hr)
  exact absurd hid (by decide)

end PaymentsService

end Ecomm
