import Mathlib.Algebra.Order.Field.Rat
import Mathlib.Data.ENat.Lattice

/-! The operator `retry` with a count and a delay, on a source that each
subscription ends with one value or one error. -/

namespace Rx

variable {ε α σ : Type}

/-- What the callback `delay` gives: a stream that fails, or one that emits
after a wait. -/
inductive Notifier (ε : Type) where
  | throwError (e : ε)
  | timer (wait : ℚ)

/-- A subscription to `retry`: what its subscriptions to the source ended with,
the waits between them, and what it passes on. -/
structure Retried (ε α σ : Type) where
  attempts : List (Except ε α)
  waits : List ℚ
  result : Except ε α
  last : σ

section Operator

variable (subscribe : Nat → σ → Except ε α × σ) (sleep : ℚ → σ → σ)
  (delay : ε → Nat → Notifier ε)

/-- The subscription after `soFar` errors, when `left` more may be answered
with another one. -/
def retryFrom : Nat → Nat → σ → Retried ε α σ
  | 0, soFar, s =>
    let (outcome, s) := subscribe soFar s
    ⟨[outcome], [], outcome, s⟩
  | left + 1, soFar, s =>
    match subscribe soFar s with
    | (.ok a, s) => ⟨[.ok a], [], .ok a, s⟩
    | (.error e, s) =>
      match delay e (soFar + 1) with
      | .throwError e' => ⟨[.error e], [], .error e', s⟩
      | .timer wait =>
        let later := retryFrom left (soFar + 1) (sleep wait s)
        { later with attempts := .error e :: later.attempts, waits := wait :: later.waits }

/-- `source.pipe(retry({ count, delay }))`. -/
def retry (count : Nat) (s : σ) : Retried ε α σ := retryFrom subscribe sleep delay count 0 s

variable {subscribe sleep delay} {s s' : σ} {soFar : Nat}

theorem retryFrom_ok {a : α} (h : subscribe soFar s = (.ok a, s')) (left : Nat) :
    retryFrom subscribe sleep delay left soFar s = ⟨[.ok a], [], .ok a, s'⟩ := by
  cases left with
  | zero => rw [retryFrom, h]
  | succ left => rw [retryFrom, h]

theorem retryFrom_throw {e : ε} (h : subscribe soFar s = (.error e, s'))
    (hthrow : delay e (soFar + 1) = .throwError e) (left : Nat) :
    retryFrom subscribe sleep delay left soFar s = ⟨[.error e], [], .error e, s'⟩ := by
  cases left with
  | zero => rw [retryFrom, h]
  | succ left => simp only [retryFrom, h, hthrow]

theorem retryFrom_timer {e : ε} {wait : ℚ} (h : subscribe soFar s = (.error e, s'))
    (htimer : delay e (soFar + 1) = .timer wait) (left : Nat) :
    (retryFrom subscribe sleep delay (left + 1) soFar s).result =
        (retryFrom subscribe sleep delay left (soFar + 1) (sleep wait s')).result ∧
      (retryFrom subscribe sleep delay (left + 1) soFar s).last =
        (retryFrom subscribe sleep delay left (soFar + 1) (sleep wait s')).last := by
  simp only [retryFrom, h, htimer, and_self]

end Operator

noncomputable def leadingRun (p : Nat → Bool) : ℕ∞ := ⨅ i ∈ {i | p i = false}, (i : ℕ∞)

theorem leadingRun_eq {p : Nat → Bool} {n : Nat} (hall : ∀ i < n, p i = true)
    (hstop : p n = false) : leadingRun p = n := by
  refine le_antisymm (iInf₂_le n hstop) (le_iInf₂ ?_)
  intro i hi
  have hi : p i = false := hi
  have hn : ¬ i < n := fun hlt => by simp [hall i hlt] at hi
  exact Nat.cast_le.mpr (Nat.le_of_not_lt hn)

theorem le_leadingRun {p : Nat → Bool} {n : Nat} (hall : ∀ i < n, p i = true) :
    (n : ℕ∞) ≤ leadingRun p := by
  refine le_iInf₂ ?_
  intro i hi
  have hi : p i = false := hi
  have hn : ¬ i < n := fun hlt => by simp [hall i hlt] at hi
  exact Nat.cast_le.mpr (Nat.le_of_not_lt hn)

section Outcomes

variable {transient : ε → Bool} {wait : Nat → ℚ} {delay : ε → Nat → Notifier ε}

def isRetried (transient : ε → Bool) : Except ε α → Bool
  | .error e => transient e
  | .ok _ => false

theorem isRetried_iff {outcome : Except ε α} :
    isRetried transient outcome = true ↔ ∃ e, outcome = .error e ∧ transient e = true := by
  cases outcome with
  | ok a => simp [isRetried]
  | error e => simp [isRetried]

/-- The attempts are those of the source up to the first that is not retried,
or up to the count. -/
theorem retryFrom_outcomes (outcome : Nat → Except ε α)
    (hdelay : ∀ e i, delay e i = if transient e then .timer (wait i) else .throwError e)
    (left soFar : Nat) :
    ∃ m, m ≤ left ∧ (∀ i < m, isRetried transient (outcome (soFar + i)) = true) ∧
      (m = left ∨ isRetried transient (outcome (soFar + m)) = false) ∧
      retryFrom (fun i (_ : Unit) => (outcome i, ())) (fun _ s => s) delay left soFar () =
        { attempts := (List.range (m + 1)).map (fun i => outcome (soFar + i))
          waits := (List.range m).map (fun i => wait (soFar + i + 1))
          result := outcome (soFar + m)
          last := () } := by
  induction left generalizing soFar with
  | zero => exact ⟨0, le_rfl, fun i hi => absurd hi (Nat.not_lt_zero i), .inl rfl, rfl⟩
  | succ left ih =>
    by_cases hretried : isRetried transient (outcome soFar) = true
    · obtain ⟨e, he, htransient⟩ := isRetried_iff.mp hretried
      obtain ⟨m, hm, hall, hstop, hlater⟩ := ih (soFar + 1)
      have hshift : ∀ i, soFar + 1 + i = soFar + (i + 1) := fun i => by omega
      refine ⟨m + 1, by omega, ?_, ?_, ?_⟩
      · intro i hi
        cases i with
        | zero => exact hretried
        | succ i => simpa only [hshift] using hall i (by omega)
      · rcases hstop with hstop | hstop
        · exact .inl (by omega)
        · exact .inr (by simpa only [hshift] using hstop)
      · have hwait : delay e (soFar + 1) = .timer (wait (soFar + 1)) := by
          rw [hdelay, if_pos htransient]
        rw [retryFrom]
        simp only [he, hwait, hlater, hshift]
        simp [List.range_succ_eq_map, he, Function.comp_def, Nat.add_assoc]
    · have hretried := Bool.eq_false_iff.mpr hretried
      refine ⟨0, Nat.zero_le _, fun i hi => absurd hi (Nat.not_lt_zero i), .inr hretried, ?_⟩
      rw [retryFrom]
      cases he : outcome soFar with
      | ok a => simp [he]
      | error e =>
        have htransient : transient e = false := by simpa [he, isRetried] using hretried
        have hthrow : delay e (soFar + 1) = .throwError e := by simp [hdelay, htransient]
        simp [he, hthrow]

/-- The number of retries is the count, or the length of the leading run of
errors that are retried if that is smaller. -/
theorem retry_outcomes (outcome : Nat → Except ε α)
    (hdelay : ∀ e i, delay e i = if transient e then .timer (wait i) else .throwError e)
    (count : Nat) :
    ∃ m : Nat, (m : ℕ∞) = min (count : ℕ∞) (leadingRun (fun i => isRetried transient (outcome i))) ∧
      (∀ i < m, isRetried transient (outcome i) = true) ∧
      retry (fun i (_ : Unit) => (outcome i, ())) (fun _ s => s) delay count () =
        { attempts := (List.range (m + 1)).map outcome
          waits := (List.range m).map (fun i => wait (i + 1))
          result := outcome m
          last := () } := by
  obtain ⟨m, hm, hall, hstop, he⟩ := retryFrom_outcomes outcome hdelay count 0
  simp only [Nat.zero_add] at hall hstop he
  refine ⟨m, ?_, hall, he⟩
  rcases hstop with hstop | hstop
  · subst hstop
    rw [min_eq_left (le_leadingRun hall)]
  · rw [leadingRun_eq hall hstop, min_eq_right (Nat.cast_le.mpr hm)]

end Outcomes

end Rx
