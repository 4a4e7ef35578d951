import Mathlib.Data.List.Basic
import Mathlib.Data.List.Induction
import Mathlib.Data.Nat.Notation

/-! Operators on streams of timed values: dropping a value that repeats the one
passed on last, and throttling that sends the first value of a window at once
and the latest of the others when the window ends. -/

namespace Rx

variable {α : Type}

def passes (same : α → α → Bool) (previous : Option α) (a : α) : Bool :=
  !previous.any (fun b => same b a)

def distinctFrom (same : α → α → Bool) (previous : Option α) : List α → List α
  | [] => []
  | a :: as =>
    if passes same previous a then a :: distinctFrom same (some a) as
    else distinctFrom same previous as

def distinctUntilChanged (same : α → α → Bool) (as : List α) : List α := distinctFrom same none as

/-- The first value of the block of repetitions that a list ends with. -/
def blockHead (same : α → α → Bool) (as : List α) : Option α :=
  as.foldl (fun previous a => if passes same previous a then some a else previous) none

/-- What is dropped of `as`, which comes after `before`, when the values of each
key are a stream of their own. -/
def suppressed {κ : Type} [DecidableEq κ] (key : α → κ) (same : α → α → Bool) (before : List α) :
    List α → List α
  | [] => []
  | a :: as =>
    if passes same (blockHead same (before.filter (fun b => key b = key a))) a
    then suppressed key same (before ++ [a]) as
    else a :: suppressed key same (before ++ [a]) as

section Distinct

variable {same : α → α → Bool}

theorem distinctFrom_append (as bs : List α) (previous : Option α) :
    distinctFrom same previous (as ++ bs) = distinctFrom same previous as ++
      distinctFrom same (as.foldl
        (fun previous a => if passes same previous a then some a else previous) previous) bs := by
  induction as generalizing previous with
  | nil => rfl
  | cons a as ih =>
    by_cases ha : passes same previous a = true
    · simp [distinctFrom, ha, ih]
    · simp [distinctFrom, ha, ih]

theorem distinctUntilChanged_append (as : List α) (a : α) :
    distinctUntilChanged same (as ++ [a]) =
      if passes same (blockHead same as) a then distinctUntilChanged same as ++ [a]
      else distinctUntilChanged same as := by
  have happend : distinctFrom same none (as ++ [a]) = _ := distinctFrom_append as [a] none
  by_cases ha : passes same (blockHead same as) a = true
  · rw [if_pos ha, distinctUntilChanged, happend]
    simp only [blockHead] at ha
    simp [distinctFrom, ha, distinctUntilChanged]
  · rw [if_neg ha, distinctUntilChanged, happend]
    simp only [blockHead] at ha
    simp [distinctFrom, ha, distinctUntilChanged]

theorem blockHead_append (as : List α) (a : α) :
    blockHead same (as ++ [a]) =
      if passes same (blockHead same as) a then some a else blockHead same as := by
  rw [blockHead, List.foldl_append]
  rfl

theorem distinctFrom_sublist (as : List α) (previous : Option α) :
    (distinctFrom same previous as).Sublist as := by
  induction as generalizing previous with
  | nil => exact List.Sublist.slnil
  | cons a as ih =>
    rw [distinctFrom]
    split
    · exact (ih _).cons_cons a
    · exact (ih _).cons a

theorem suppressed_append {κ : Type} [DecidableEq κ] {key : α → κ} (before as : List α) (a : α) :
    suppressed key same before (as ++ [a]) = suppressed key same before as ++
      if passes same (blockHead same ((before ++ as).filter (fun b => key b = key a))) a then []
      else [a] := by
  induction as generalizing before with
  | nil => simp [suppressed]
  | cons b as ih =>
    have hh := ih (before ++ [b])
    rw [List.append_assoc, List.singleton_append] at hh
    by_cases hb : passes same (blockHead same (before.filter (fun c => key c = key b))) b = true
    · simp only [List.cons_append, suppressed, hb, if_true, hh]
    · simp only [List.cons_append, suppressed, hb, if_false, hh, Bool.false_eq_true]

end Distinct

/-- A window is open until the time `window`; `held` waits for its end. -/
structure Throttle (α : Type) where
  window : Option Nat
  held : Option α

namespace Throttle

def idle : Throttle α := ⟨none, none⟩

/-- A value arrives: outside a window it is sent and opens one, inside it
replaces what is held. -/
def next (duration now : Nat) (a : α) (s : Throttle α) : Throttle α × Option α :=
  match s.window with
  | some _ => ({ s with held := some a }, none)
  | none => (⟨some (now + duration), none⟩, some a)

/-- The window ends: a value that is held is sent and opens the next window. -/
def windowEnds (duration now : Nat) (s : Throttle α) : Throttle α × Option α :=
  match s.held with
  | some a => (⟨some (now + duration), none⟩, some a)
  | none => (idle, none)

end Throttle

end Rx
