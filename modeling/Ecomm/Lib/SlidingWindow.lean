import Mathlib.Data.List.Basic
import Mathlib.Data.Nat.Notation

/-! A limiter that logs the times of the calls that it admits, and admits a
call while the log holds less than a limit within the window before it. -/

namespace SlidingWindow

def recent (window now : Nat) (log : List Nat) : List Nat :=
  log.filter (fun t => now - t < window)

/-- The times in the interval of length `window` from `t` on. -/
def within (window t : Nat) (past : List Nat) : List Nat :=
  past.filter (fun u => t ≤ u && u < t + window)

/-- Whether the limiter admits a call, and its log after it. -/
def admits (window limit : Nat) (log : List Nat) (now : Nat) : Bool × List Nat :=
  if limit ≤ (recent window now log).length then (false, recent window now log)
  else (true, recent window now log ++ [now])

variable {window limit last now : Nat} {log past : List Nat}

theorem recent_append (a b : List Nat) :
    recent window now (a ++ b) = recent window now a ++ recent window now b :=
  List.filter_append a b

theorem recent_recent {later : Nat} (h : now ≤ later) (past : List Nat) :
    recent window later (recent window now past) = recent window later past := by
  rw [recent, recent, recent, List.filter_filter]
  apply List.filter_congr
  intro t _
  have hwithin : later - t < window → now - t < window := by omega
  simpa using hwithin

theorem length_within_le {t : Nat} (past : List Nat) (hnow : now < t + window) :
    (within window t past).length ≤ (recent window now past).length := by
  apply List.Sublist.length_le
  apply List.monotone_filter_right
  intro u hu
  simp only [Bool.and_eq_true, decide_eq_true_eq] at hu ⊢
  omega

theorem length_within_sublist {some past : List Nat} (window t : Nat) (h : some.Sublist past) :
    (within window t some).length ≤ (within window t past).length :=
  (h.filter _).length_le

/-- In an ordered list with at most `limit` times in an interval, the one
`limit` places after another is out of its interval. -/
theorem apart {i t u : Nat} (hsorted : past.Pairwise (· ≤ ·))
    (hcount : (within window t past).length ≤ limit) (ht : past[i]? = some t)
    (hu : past[i + limit]? = some u) : t + window ≤ u := by
  by_contra hclose
  obtain ⟨hi, hti⟩ := List.getElem?_eq_some_iff.mp ht
  obtain ⟨hj, huj⟩ := List.getElem?_eq_some_iff.mp hu
  have hslice : ((past.drop i).take (limit + 1)).Sublist past :=
    (List.take_sublist _ _).trans (List.drop_sublist _ _)
  have hlength : ((past.drop i).take (limit + 1)).length = limit + 1 := by
    rw [List.length_take, List.length_drop]
    omega
  have hall : within window t ((past.drop i).take (limit + 1)) =
      (past.drop i).take (limit + 1) := by
    refine List.filter_eq_self.mpr ?_
    intro v hv
    obtain ⟨k, hk, hvk⟩ := List.mem_iff_getElem.mp hv
    have hk' : k < limit + 1 := by omega
    rw [List.getElem_take, List.getElem_drop] at hvk
    have hfirst : t ≤ v := by
      rw [← hti, ← hvk]
      rcases Nat.eq_zero_or_pos k with hzero | hpos
      · simp [hzero]
      · exact List.pairwise_iff_getElem.mp hsorted i (i + k) hi (by omega) (by omega)
    have hlast : v ≤ u := by
      rw [← huj, ← hvk]
      rcases Nat.lt_or_ge k limit with hlt | hge
      · exact List.pairwise_iff_getElem.mp hsorted (i + k) (i + limit) (by omega) hj (by omega)
      · have hend : k = limit := by omega
        simp [hend]
    simp only [Bool.and_eq_true, decide_eq_true_eq]
    omega
  have hmany := length_within_sublist window t hslice
  rw [hall, hlength] at hmany
  omega

/-- The log is what is recent of the calls admitted so far, and no interval of
the window's length holds more than the limit of these. -/
structure Limited (window limit now : Nat) (past log : List Nat) : Prop where
  kept : ∀ later, now ≤ later → recent window later log = recent window later past
  sorted : past.Pairwise (· ≤ ·)
  elapsed : ∀ t ∈ past, t ≤ now
  count : ∀ t, (within window t past).length ≤ limit

theorem Limited.start (window limit now : Nat) : Limited window limit now [] [] where
  kept _ _ := rfl
  sorted := List.Pairwise.nil
  elapsed := by simp
  count _ := Nat.zero_le _

theorem Limited.refused_iff (h : Limited window limit last past log) (hle : last ≤ now) :
    (admits window limit log now).1 = false ↔ limit ≤ (recent window now past).length := by
  rw [admits, h.kept now hle]
  split
  · next hfull => exact iff_of_true rfl hfull
  · next hroom => exact iff_of_false (by simp) hroom

theorem Limited.next (h : Limited window limit last past log) (hle : last ≤ now) :
    Limited window limit now
      (if (admits window limit log now).1 then past ++ [now] else past)
      (admits window limit log now).2 := by
  have helapsed : ∀ t ∈ past, t ≤ now := fun t ht => Nat.le_trans (h.elapsed t ht) hle
  rw [admits, h.kept now hle]
  by_cases hfull : limit ≤ (recent window now past).length
  · simp only [hfull, if_true, Bool.false_eq_true, if_false]
    exact ⟨fun later hlater => recent_recent hlater past, h.sorted, helapsed, h.count⟩
  · simp only [hfull, if_false, if_true]
    refine ⟨?_, ?_, ?_, ?_⟩
    · intro later hlater
      rw [recent_append, recent_append, recent_recent hlater]
    · rw [List.pairwise_append]
      refine ⟨h.sorted, List.pairwise_singleton _ _, ?_⟩
      intro a ha b hb
      rw [List.mem_singleton.mp hb]
      exact helapsed a ha
    · intro t ht
      rcases List.mem_append.mp ht with ht | ht
      · exact helapsed t ht
      · exact Nat.le_of_eq (List.mem_singleton.mp ht)
    · intro t
      rw [within, List.filter_append, List.length_append]
      by_cases hin : t ≤ now ∧ now < t + window
      · have hrecent := length_within_le past hin.2
        rw [within] at hrecent
        have hone := List.length_filter_le (fun u => t ≤ u && u < t + window) [now]
        rw [List.length_singleton] at hone
        omega
      · have hold := h.count t
        rw [within] at hold
        have hnone : [now].filter (fun u => t ≤ u && u < t + window) = [] := by
          simpa using hin
        rw [hnone, List.length_nil]
        omega

end SlidingWindow
