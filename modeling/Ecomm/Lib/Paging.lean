import Mathlib.Data.List.Sort

/-! Pages of lists sorted by a key. Rows with equal keys may stand in any order,
so two such lists agree on a page only if no tie crosses an end of it. -/

namespace Paging

variable {α κ : Type} [LinearOrder κ] {key : α → κ} {l l' : List α} {n p offset : Nat}

def page (n offset : Nat) (l : List α) : List α := (l.drop offset).take n

theorem page_append (n offset : Nat) (l : List α) :
    page n offset l ++ l.drop (offset + n) = l.drop offset := by
  rw [page, ← List.drop_drop, List.take_append_drop]

theorem page_eq_nil (hn : 0 < n) : page n offset l = [] ↔ l.length ≤ offset := by
  rw [page, List.take_eq_nil_iff, List.drop_eq_nil_iff]
  omega

theorem exists_mem_drop {k : Nat} : (∃ x, x ∈ l.drop k) ↔ k < l.length := by
  constructor
  · intro h
    obtain ⟨x, hx⟩ := h
    have hne := List.ne_nil_of_mem hx
    rwa [ne_eq, List.drop_eq_nil_iff, not_le] at hne
  · intro hk
    exact List.exists_mem_of_ne_nil _ (mt List.drop_eq_nil_iff.mp (not_le.mpr hk))

def Descending (key : α → κ) (l : List α) : Prop := l.Pairwise (fun a b => key b ≤ key a)

instance (key : α → κ) (l : List α) : Decidable (Descending key l) :=
  inferInstanceAs (Decidable (l.Pairwise _))

def descend (key : α → κ) (l : List α) : List α := l.insertionSort (fun a b => key b ≤ key a)

theorem descend_perm (key : α → κ) (l : List α) : (descend key l).Perm l :=
  List.perm_insertionSort _ l

theorem descending_descend (key : α → κ) (l : List α) : Descending key (descend key l) := by
  have : Std.Total (fun a b : α => key b ≤ key a) := ⟨fun a b => le_total (key b) (key a)⟩
  have : IsTrans α (fun a b => key b ≤ key a) := ⟨fun a b c hab hbc => le_trans hbc hab⟩
  exact List.pairwise_insertionSort _ l

theorem Descending.keys (h : Descending key l) : Descending id (l.map key) :=
  List.pairwise_map.mpr h

theorem Descending.of_keys (h : Descending id (l.map key)) : Descending key l :=
  List.pairwise_map.mp h

/-- The keys stand in the same places however ties are resolved. -/
theorem Descending.map_eq (h : Descending key l) (h' : Descending key l') (hperm : l.Perm l') :
    l.map key = l'.map key :=
  (hperm.map key).eq_of_pairwise (fun _ _ _ _ hab hba => le_antisymm hba hab) h.keys h'.keys

/-- What stands before position `p` is strictly greater than what stands after. -/
def Separated (keys : List κ) (p : Nat) : Prop := ∀ a ∈ keys.take p, ∀ b ∈ keys.drop p, b < a

instance (keys : List κ) (p : Nat) : Decidable (Separated keys p) :=
  inferInstanceAs (Decidable (∀ a ∈ keys.take p, ∀ b ∈ keys.drop p, b < a))

theorem Separated.exists_bound {keys : List κ} (hsorted : Descending id keys)
    (h : Separated keys p) (hp : p < keys.length) :
    ∃ t, (∀ a ∈ keys.take p, t < a) ∧ ∀ b ∈ keys.drop p, b ≤ t := by
  have hdrop : keys.drop p = keys[p] :: keys.drop (p + 1) := List.drop_eq_getElem_cons hp
  refine ⟨keys[p], fun a ha => h a ha _ (by rw [hdrop]; exact List.mem_cons_self), ?_⟩
  have hrest : Descending id (keys.drop p) := List.Pairwise.sublist (List.drop_sublist p keys) hsorted
  rw [hdrop] at hrest ⊢
  intro b hb
  rcases List.mem_cons.mp hb with rfl | hb
  · exact le_refl _
  · exact (List.pairwise_cons.mp hrest).1 b hb

theorem take_eq_filter {t : κ} (hbefore : ∀ a ∈ (l.map key).take p, t < a)
    (hafter : ∀ b ∈ (l.map key).drop p, b ≤ t) :
    l.take p = l.filter (fun a => decide (t < key a)) := by
  have hfirst : (l.take p).filter (fun a => decide (t < key a)) = l.take p := by
    apply List.filter_eq_self.mpr
    intro a ha
    apply decide_eq_true
    apply hbefore
    rw [← List.map_take]
    exact List.mem_map_of_mem ha
  have hrest : (l.drop p).filter (fun a => decide (t < key a)) = [] := by
    apply List.filter_eq_nil_iff.mpr
    intro b hb
    have hle : key b ≤ t := by
      apply hafter
      rw [← List.map_drop]
      exact List.mem_map_of_mem hb
    simpa using hle
  conv_rhs => rw [← List.take_append_drop p l, List.filter_append, hfirst, hrest, List.append_nil]

theorem take_perm (h : Descending key l) (h' : Descending key l') (hperm : l.Perm l')
    (hp : Separated (l.map key) p) : (l.take p).Perm (l'.take p) := by
  by_cases hlt : p < l.length
  · have hkeys := h.map_eq h' hperm
    have hlt : p < (l.map key).length := by rwa [List.length_map]
    obtain ⟨t, hbefore, hafter⟩ := hp.exists_bound h.keys hlt
    have htake := take_eq_filter hbefore hafter
    rw [hkeys] at hbefore hafter
    rw [htake, take_eq_filter hbefore hafter]
    exact hperm.filter _
  · have hle := not_lt.mp hlt
    rw [List.take_of_length_le hle, List.take_of_length_le (hperm.length_eq ▸ hle)]
    exact hperm

theorem drop_perm (h : Descending key l) (h' : Descending key l') (hperm : l.Perm l')
    (hp : Separated (l.map key) p) : (l.drop p).Perm (l'.drop p) := by
  have hall : (l.take p ++ l.drop p).Perm (l.take p ++ l'.drop p) := by
    rw [List.take_append_drop]
    have hswap := (take_perm h h' hperm hp).append_right (l'.drop p)
    rw [List.take_append_drop] at hswap
    exact hperm.trans hswap.symm
  exact (List.perm_append_left_iff _).mp hall

/-- A page between two separated positions has the same rows in every order. -/
theorem page_perm (h : Descending key l) (h' : Descending key l') (hperm : l.Perm l')
    (hstart : Separated (l.map key) offset) (hend : Separated (l.map key) (offset + n)) :
    (page n offset l).Perm (page n offset l') := by
  have hall : (page n offset l ++ l.drop (offset + n)).Perm
      (page n offset l' ++ l.drop (offset + n)) := by
    have hswap := (drop_perm h h' hperm hend).append_left (page n offset l')
    rw [page_append] at hswap ⊢
    exact (drop_perm h h' hperm hstart).trans hswap.symm
  exact (List.perm_append_right_iff _).mp hall

theorem exists_tie (h : Descending key l) (hp : ¬ Separated (l.map key) p) :
    ∃ before x y after, l = before ++ x :: y :: after ∧ before.length + 1 = p ∧ key x = key y := by
  simp only [Separated, not_forall, not_lt] at hp
  obtain ⟨a, ha, b, hb, hab⟩ := hp
  rw [← List.map_take] at ha
  rw [← List.map_drop] at hb
  obtain ⟨u, hu, rfl⟩ := List.mem_map.mp ha
  obtain ⟨v, hv, rfl⟩ := List.mem_map.mp hb
  obtain ⟨before, x, htake⟩ : ∃ before x, l.take p = before ++ [x] :=
    ⟨_, _, (List.dropLast_append_getLast (List.ne_nil_of_mem hu)).symm⟩
  obtain ⟨y, after, hdrop⟩ : ∃ y after, l.drop p = y :: after := List.ne_nil_iff_exists_cons.mp
    (List.ne_nil_of_mem hv)
  have hl : l = before ++ x :: y :: after := by
    rw [← List.take_append_drop p l, htake, hdrop, List.append_assoc]
    rfl
  have hlength : before.length + 1 = p := by
    have hlt : p < l.length := by
      by_contra hge
      rw [List.drop_eq_nil_of_le (not_lt.mp hge)] at hdrop
      cases hdrop
    have htake := congrArg List.length htake
    rw [List.length_take_of_le hlt.le, List.length_append] at htake
    exact htake.symm
  refine ⟨before, x, y, after, hl, hlength, ?_⟩
  have hall := h
  rw [hl, Descending, List.pairwise_append] at hall
  obtain ⟨_, hrest, hcross⟩ := hall
  have hxy := List.pairwise_cons.mp hrest
  have hxu : key x ≤ key u := by
    rw [htake] at hu
    rcases List.mem_append.mp hu with hu | hu
    · exact hcross u hu x List.mem_cons_self
    · exact (congrArg key (List.mem_singleton.mp hu)).ge
  have hvy : key v ≤ key y := by
    rw [hdrop] at hv
    rcases List.mem_cons.mp hv with rfl | hv
    · exact le_refl _
    · exact (List.pairwise_cons.mp hxy.2).1 v hv
  exact le_antisymm ((hxu.trans hab).trans hvy) (hxy.1 y List.mem_cons_self)

theorem Descending.swap {before after : List α} {x y : α}
    (h : Descending key (before ++ x :: y :: after)) (hxy : key x = key y) :
    Descending key (before ++ y :: x :: after) := by
  rw [Descending, List.pairwise_append] at h ⊢
  obtain ⟨hbefore, hrest, hcross⟩ := h
  obtain ⟨hx, hrest⟩ := List.pairwise_cons.mp hrest
  obtain ⟨hy, hafter⟩ := List.pairwise_cons.mp hrest
  refine ⟨hbefore, List.pairwise_cons.mpr ⟨?_, List.pairwise_cons.mpr ⟨?_, hafter⟩⟩, ?_⟩
  · intro b hb
    rcases List.mem_cons.mp hb with rfl | hb
    · exact hxy.le
    · exact hy b hb
  · exact fun b hb => hx b (List.mem_cons_of_mem _ hb)
  · intro a ha b hb
    apply hcross a ha
    simp only [List.mem_cons] at hb ⊢
    tauto

end Paging
