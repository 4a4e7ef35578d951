import Mathlib.Logic.Relation
import Mathlib.Order.Basic

/-! Parties that hold resources and wait for others. If what a party waits for
comes after all that it holds, nobody waits in a circle. -/

namespace Concurrent

variable {P R β : Type} {wants : P → R → Prop} {holder : R → Option P}

def WaitsFor (wants : P → R → Prop) (holder : R → Option P) (i j : P) : Prop :=
  ∃ r, wants i r ∧ holder r = some j ∧ j ≠ i

def CircularWait (wants : P → R → Prop) (holder : R → Option P) : Prop :=
  ∃ i, Relation.TransGen (WaitsFor wants holder) i i

/-- Along a chain of waits the resources get later and later. -/
theorem waits_ascend [Preorder β] {rank : R → β}
    (h : ∀ i r r', wants i r → holder r ≠ some i → holder r' = some i → rank r' < rank r)
    {i j : P} (hij : Relation.TransGen (WaitsFor wants holder) i j) :
    ∃ first last, wants i first ∧ holder first ≠ some i ∧ holder last = some j ∧
      rank first ≤ rank last := by
  have hedge : ∀ {i j : P} {r : R}, holder r = some j → j ≠ i → holder r ≠ some i := by
    intro i j r hj hne hi
    exact hne (Option.some.inj (hj.symm.trans hi))
  induction hij with
  | single hwait =>
    obtain ⟨r, hwants, hholder, hne⟩ := hwait
    exact ⟨r, r, hwants, hedge hholder hne, hholder, le_refl _⟩
  | tail _ hwait ih =>
    obtain ⟨first, last, hfirst, hfree, hlast, hle⟩ := ih
    obtain ⟨r, hwants, hholder, hne⟩ := hwait
    have hlt := h _ r last hwants (hedge hholder hne) hlast
    exact ⟨first, r, hfirst, hfree, hholder, hle.trans hlt.le⟩

theorem no_circularWait [Preorder β] {rank : R → β}
    (h : ∀ i r r', wants i r → holder r ≠ some i → holder r' = some i → rank r' < rank r) :
    ¬ CircularWait wants holder := by
  rintro ⟨i, hcycle⟩
  obtain ⟨first, last, hfirst, hfree, hlast, hle⟩ := waits_ascend h hcycle
  exact absurd (h i first last hfirst hfree hlast) (not_lt_of_ge hle)

theorem circularWait_two {i j : P} (hij : WaitsFor wants holder i j)
    (hji : WaitsFor wants holder j i) : CircularWait wants holder :=
  ⟨i, .tail (.single hij) hji⟩

end Concurrent
