import Mathlib.Data.List.Pairwise
import TableAccess.Proofs.Sorted

/-!
# Which of equal elements a set keeps

Where the order is coarser than equality, a set keeps of equal elements the one that was put in first. The
elements of a set stand in order, no longer as they came, but no two of them are equal; so putting them into
another set is putting in what they came from.

* `IsFirst`: an element of a list that nothing equal stands before.
* `mem_ofList_iff_isFirst`: **a set holds the first of equal elements.**
* `insertAll_ofList`: **elements may be collected in a set of their own before they are put in.**
-/

namespace TableAccess.SortedSet

variable {α : Type} [Ord α]

/-- `a` stands in `l`, and nothing before it compares equal. -/
def IsFirst (a : α) (l : List α) : Prop :=
  ∃ before after, l = before ++ a :: after ∧ ∀ b ∈ before, compare a b ≠ .eq

variable {a b : α} {l m : List α}

theorem not_isFirst_nil : ¬ IsFirst a [] := by
  rintro ⟨before, after, h, -⟩
  exact List.append_ne_nil_of_right_ne_nil before (List.cons_ne_nil a after) h.symm

theorem isFirst_cons : IsFirst a (b :: l) ↔ a = b ∨ compare a b ≠ .eq ∧ IsFirst a l := by
  constructor
  · rintro ⟨before, after, h, hne⟩
    cases before with
    | nil => exact .inl (List.cons.inj h).1.symm
    | cons c before =>
      obtain ⟨rfl, rfl⟩ := List.cons.inj h
      obtain ⟨hb, hbefore⟩ := List.forall_mem_cons.1 hne
      exact .inr ⟨hb, before, after, rfl, hbefore⟩
  · rintro (rfl | ⟨hb, before, after, rfl, hbefore⟩)
    · exact ⟨[], l, rfl, List.forall_mem_nil _⟩
    · exact ⟨b :: before, after, rfl, List.forall_mem_cons.2 ⟨hb, hbefore⟩⟩

variable [Std.TransOrd α]

/-- In a list without equal elements each is the first one. -/
theorem isFirst_iff_mem (h : l.Pairwise fun a b => compare a b = .lt) : IsFirst a l ↔ a ∈ l := by
  induction l with
  | nil => exact iff_of_false not_isFirst_nil List.not_mem_nil
  | cons b l ih =>
    obtain ⟨hb, hl⟩ := List.pairwise_cons.1 h
    rw [isFirst_cons, ih hl, List.mem_cons]
    refine or_congr_right (and_iff_right_of_imp fun ha => ?_)
    rw [Std.OrientedCmp.gt_of_lt (hb a ha)]
    nofun

/-- Of what equals an element, something stands first. -/
theorem exists_isFirst (h : b ∈ l) : ∃ a, IsFirst a l ∧ compare b a = .eq := by
  induction l with
  | nil => cases h
  | cons c l ih =>
    by_cases hc : compare b c = .eq
    · exact ⟨c, isFirst_cons.2 (.inl rfl), hc⟩
    · have hb : b ∈ l := (List.mem_cons.1 h).resolve_left fun hbc => hc (hbc ▸ Std.ReflOrd.compare_self)
      obtain ⟨a, ha, hba⟩ := ih hb
      refine ⟨a, isFirst_cons.2 (.inr ⟨?_, ha⟩), hba⟩
      rwa [← Std.TransCmp.congr_left hba]

/-- A set holds no two elements that compare equal. -/
theorem eq_of_compare_eq {s : SortedSet α} (ha : a ∈ s.toList) (hb : b ∈ s.toList) (h : compare a b = .eq) :
    a = b := by
  have hne : s.toList.Pairwise fun a b => compare a b ≠ .eq := s.ordered.imp fun hlt => by
    rw [hlt]
    nofun
  have : Std.Symm fun a b : α => compare a b ≠ .eq := ⟨fun _ _ hne heq => hne (Std.OrientedCmp.eq_symm heq)⟩
  by_contra hab
  exact hne.forall ha hb hab h

/-! ## Putting in -/

/-- Something is put in unless something equal is held. -/
theorem mem_put_iff (h : l.Pairwise fun a b => compare a b = .lt) :
    b ∈ put a l ↔ b ∈ l ∨ holds a l = false ∧ b = a := by
  induction l with
  | nil => simp [put, holds]
  | cons c l ih =>
    obtain ⟨hc, hl⟩ := List.pairwise_cons.1 h
    have hcons : holds a (c :: l) = (compare a c == .eq || holds a l) := rfl
    simp only [put]
    split
    next hac =>
      have hnone : holds a l = false := List.any_eq_false.2 fun d hd => by
        rw [Std.TransCmp.lt_trans hac (hc d hd)]
        decide
      rw [hcons, hac, hnone, List.mem_cons (l := c :: l)]
      exact or_comm.trans (or_congr_right (and_iff_right rfl).symm)
    next hac =>
      rw [hcons, hac]
      exact (or_iff_left fun hfalse => Bool.noConfusion hfalse.1).symm
    next hac =>
      rw [hcons, hac, List.mem_cons, ih hl, List.mem_cons]
      exact or_assoc.symm

theorem mem_insertAll_iff {s : SortedSet α} :
    a ∈ (s.insertAll l).toList ↔ a ∈ s.toList ∨ s.contains a = false ∧ IsFirst a l := by
  induction l generalizing s with
  | nil => exact (or_iff_left fun h => not_isFirst_nil h.2).symm
  | cons b l ih =>
    have hmem : a ∈ (s.insert b).toList ↔ a ∈ s.toList ∨ s.contains b = false ∧ a = b :=
      mem_put_iff s.ordered
    have hcontains : (s.insert b).contains a = false ↔ compare a b ≠ .eq ∧ s.contains a = false := by
      rw [← Bool.not_eq_true, ← Bool.not_eq_true, ← not_or]
      exact not_congr holds_put
    rw [insertAll, List.foldl_cons, ← insertAll, ih, hmem, hcontains, isFirst_cons]
    constructor
    · rintro ((ha | ⟨hb, rfl⟩) | ⟨⟨hne, ha⟩, hfirst⟩)
      · exact .inl ha
      · exact .inr ⟨hb, .inl rfl⟩
      · exact .inr ⟨ha, .inr ⟨hne, hfirst⟩⟩
    · rintro (ha | ⟨ha, rfl | ⟨hne, hfirst⟩⟩)
      · exact .inl (.inl ha)
      · exact .inl (.inr ⟨ha, rfl⟩)
      · exact .inr ⟨⟨hne, ha⟩, hfirst⟩

/-- **A set holds the first of equal elements** of its list. -/
theorem mem_ofList_iff_isFirst : a ∈ (ofList l).toList ↔ IsFirst a l :=
  mem_insertAll_iff.trans ((or_iff_right List.not_mem_nil).trans (and_iff_right rfl))

/-- **Elements may be collected in a set of their own** before they are put in. -/
theorem insertAll_ofList (s : SortedSet α) (l : List α) : s.insertAll (ofList l).toList = s.insertAll l := by
  refine ext_mem fun a => ?_
  rw [mem_insertAll_iff, mem_insertAll_iff, isFirst_iff_mem (ofList l).ordered, mem_ofList_iff_isFirst]

end TableAccess.SortedSet
