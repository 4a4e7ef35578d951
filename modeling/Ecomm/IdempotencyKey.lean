import Ecomm.Stock

/-! One order for one idempotency key, whatever the interleaving of the calls
that use it. -/

namespace Ecomm

open Concurrent Sql

def hasKey (k : String) (r : Order) : Bool := r.idempotencyKey = some k

def commitsFor (calls : List CreateCall) (k : String) (log : List (Commit schema)) :
    List (Commit schema) :=
  log.filter (fun c => (callAt calls c.thread).key = some k)

def announces (T : Database) (k : String) (m : Published) : Bool :=
  match m.payload.get "orderId" with
  | some (.str id) => (uuidIn id).any (fun o => ((T .orders).lookup o).any (hasKey k))
  | _ => false

/-- What holds for a key in a state reached by `create` calls from tables `T₀`.
Stock is what it was less what the committed calls asked for, and at most one
of these calls used the key. -/
structure OncePerKey (calls : List CreateCall) (T₀ : Database) (k : String)
    (c : Config app CreateResult) : Prop where
  unique : ∀ o o' r r', (c.shared.store.tables .orders).lookup o = some r →
    (c.shared.store.tables .orders).lookup o' = some r' → hasKey k r = true →
    hasKey k r' = true → o = o'
  stock : ∀ p, stock c.shared.store.tables p = stock T₀ p - ordered calls c.shared.store.log p
  once : (commitsFor calls k c.shared.store.log).length ≤ 1
  inserted : ∀ e ∈ commitsFor calls k c.shared.store.log, ∃ o r, orderWritten e.writes = some o ∧
    (c.shared.store.tables .orders).lookup o = some r ∧ hasKey k r = true ∧
    (T₀ .orders).lookup o = none
  origin : ∀ o r, (c.shared.store.tables .orders).lookup o = some r → hasKey k r = true →
    (T₀ .orders).lookup o = some r ∨ ∃ e ∈ commitsFor calls k c.shared.store.log,
      orderWritten e.writes = some o
  answers : ∀ i a, c.thread i = some (.ret a) → (callAt calls i).key = some k →
    ∃ r, (c.shared.store.tables .orders).lookup a.order.id = some r ∧ hasKey k r = true
  created : ∀ i j a b, c.thread i = some (.ret a) → c.thread j = some (.ret b) →
    (callAt calls i).key = some k → (callAt calls j).key = some k →
    a.wasDuplicate = false → b.wasDuplicate = false → i = j
  announced : (c.shared.published.filter
    (fun e => announces c.shared.store.tables k e.2)).length ≤ 1

section

variable {calls : List CreateCall} {T₀ : Database} {s : AppState}
  {γ : Nat → Session schema × Sale} {k : String}

theorem Sales.same_key (h : Sales calls T₀ s γ) (hd : Distinct s.store.tables) {i j : Nat}
    {o o' : Uuid} (hi : (γ i).2.done = some o) (hj : (γ j).2.done = some o')
    (hki : (callAt calls i).key = some k) (hkj : (callAt calls j).key = some k) :
    o = o' ∧ i = j := by
  obtain ⟨r, hr, hk⟩ := h.done i o hi
  obtain ⟨r', hr', hk'⟩ := h.done j o' hj
  rw [hki] at hk
  rw [hkj] at hk'
  have heq : o = o' := hd .orders o o' r r' (.idempotencyKey k) hr hr'
    (by simp [uniqueKeys, hk]) (by simp [uniqueKeys, hk'])
  exact ⟨heq, h.own i j o hi (heq ▸ hj)⟩

theorem Sales.announcer (h : Sales calls T₀ s γ) {e : Nat × Published}
    (he : e ∈ s.published) (ha : announces s.store.tables k e.2 = true) :
    ∃ o, (γ e.1).2.done = some o ∧ (callAt calls e.1).key = some k := by
  obtain ⟨_, o, hdone, hpay⟩ := h.published e he
  refine ⟨o, hdone, ?_⟩
  obtain ⟨r, hr, hkey⟩ := h.done _ o hdone
  simp only [announces, hpay, uuidIn_uuidOut, Option.any_some, hr, hasKey,
    decide_eq_true_eq] at ha
  rw [← hkey, ha]

end

/-- Concurrent `create` calls with one key make one order. -/
theorem created_once_per_key {s : AppState} (hs : s.Quiet) (calls : List CreateCall)
    {es : List (Nat × AppChoice)} {c : Config app CreateResult}
    (h : (creation s calls).run es = some c) {k : String} (hk : k ≠ "") :
    OncePerKey calls s.store.tables k c := by
  obtain ⟨γ, hinv, hwp⟩ := creation_run hs h
  have hsales := hinv.rest
  have hd : Distinct c.shared.store.tables := hinv.coherent.distinct
  have hmine : ∀ e, e ∈ commitsFor calls k c.shared.store.log ↔
      e ∈ c.shared.store.log ∧ (callAt calls e.thread).key = some k := by
    intro e
    simp [commitsFor]
  have hreturned : ∀ i a, c.thread i = some (.ret a) → Answered (callAt calls i) a (γ i) :=
    fun i a hi => hwp i _ hi
  constructor
  case unique =>
    intro o o' r r' hr hr' hkr hkr'
    exact hd .orders o o' r r' (.idempotencyKey k) hr hr'
      (by simp [uniqueKeys, of_decide_eq_true hkr])
      (by simp [uniqueKeys, of_decide_eq_true hkr'])
  case stock =>
    intro p
    rw [← hsales.stock p]
    ring
  case once =>
    refine length_filter_le_one_of_nodup hsales.once ?_
    intro e he e' he' hke hke'
    obtain ⟨o, hdone, _⟩ := hsales.logged e he
    obtain ⟨o', hdone', _⟩ := hsales.logged e' he'
    exact (hsales.same_key hd hdone hdone' (of_decide_eq_true hke) (of_decide_eq_true hke')).2
  case inserted =>
    intro e he
    obtain ⟨hmem, hke⟩ := (hmine e).mp he
    obtain ⟨o, hdone, hw⟩ := hsales.logged e hmem
    obtain ⟨r, hr, hkey⟩ := hsales.done _ o hdone
    refine ⟨o, r, hw, hr, decide_eq_true (hkey.trans hke), ?_⟩
    cases ho : (s.store.tables .orders).lookup o with
    | none => rfl
    | some row => exact absurd hdone ((hsales.initial o row ho).2 e.thread)
  case origin =>
    intro o r hr hkr
    refine (hsales.origin o r hr).imp_right ?_
    rintro ⟨e, he, hdone⟩
    obtain ⟨o', hdone', hw⟩ := hsales.logged e he
    obtain rfl : o = o' := Option.some.inj (hdone.symm.trans hdone')
    obtain ⟨r', hr', hkey⟩ := hsales.done _ o hdone
    obtain rfl : r = r' := Option.some.inj (hr.symm.trans hr')
    exact ⟨e, (hmine e).mpr ⟨he, by rw [← hkey]; exact of_decide_eq_true hkr⟩, hw⟩
  case answers =>
    intro i a hi hki
    obtain ⟨_, hnew, hdup⟩ := hreturned i a hi
    cases hw : a.wasDuplicate with
    | false =>
      obtain ⟨r, hr, hkey⟩ := hsales.done i _ (hnew hw)
      exact ⟨r, hr, decide_eq_true (hkey.trans hki)⟩
    | true =>
      obtain ⟨hobs, k', hk', hkey⟩ := hdup hw
      rw [hki, truthy, Option.filter_some_pos (by simpa using hk)] at hk'
      obtain rfl := Option.some.inj hk'
      exact ⟨_, hsales.observed i _ hobs, decide_eq_true hkey⟩
  case created =>
    intro i j a b hi hj hki hkj ha hb
    exact (hsales.same_key hd ((hreturned i a hi).2.1 ha) ((hreturned j b hj).2.1 hb) hki hkj).2
  case announced =>
    refine length_filter_le_one_of_nodup hsales.publishedOnce ?_
    intro e he e' he' hae hae'
    obtain ⟨o, hdone, hke⟩ := hsales.announcer he hae
    obtain ⟨o', hdone', hke'⟩ := hsales.announcer he' hae'
    exact (hsales.same_key hd hdone hdone' hke hke').2

/-- Two calls with one key race, and the second one loses at the unique index. -/
def keyRace : List (Nat × AppChoice) :=
  List.replicate 2 (0, tick 10) ++ List.replicate 3 (1, tick 20) ++
    List.replicate 12 (0, tick 11) ++ List.replicate 4 (1, tick 20)

theorem created_once_per_key_keyRace :
    ∃ c, (creation (serving (penShop 5)) [penOrder (some "k") 2, penOrder (some "k") 1]).run
        keyRace = some c ∧
      OncePerKey [penOrder (some "k") 2, penOrder (some "k") 1] (penShop 5) "k" c := by
  have h : ((creation (serving (penShop 5)) [penOrder (some "k") 2, penOrder (some "k") 1]).run
      keyRace).isSome = true := by decide +kernel
  exact ⟨_, (Option.some_get h).symm, created_once_per_key (serving_quiet (penShop_distinct 5)) _
    (Option.some_get h).symm (by decide)⟩

end Ecomm
