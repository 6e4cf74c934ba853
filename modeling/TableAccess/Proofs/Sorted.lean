import Mathlib.Data.List.Nodup
import Mathlib.Tactic.Common
import TableAccess.Sorted.Map
import TableAccess.Sorted.Set

/-!
# Sorted maps and sets from lists

* `toList_ofList`: a list that stands in order is the list of its map. `perm_ofList`: so is one of different
  keys, but for the order.
* `mem_ofList`, `contains_ofList`: a set holds what stood in its list.
* `SortedSet.ext_mem`: **two sets with the same elements are equal.**
-/

namespace TableAccess

theorem ne_of_compare_lt {α : Type} [Ord α] [Std.TransOrd α] {a b : α} (h : compare a b = .lt) : a ≠ b := by
  rintro rfl
  have hself : compare a a = .eq := Std.ReflCmp.compare_self
  rw [hself] at h
  cases h

namespace SortedMap

variable {κ ν : Type} [Ord κ] [Std.TransOrd κ]

theorem put_of_lt {k : κ} {v : ν} {l : List (κ × ν)} (h : ∀ p ∈ l, compare p.1 k = .lt) :
    put k v l = l ++ [(k, v)] := by
  induction l with
  | nil => rfl
  | cons p l ih =>
    have hp : compare k p.1 = .gt := Std.OrientedCmp.gt_of_lt (h p List.mem_cons_self)
    simp only [put, hp]
    rw [ih fun q hq => h q (List.mem_cons_of_mem _ hq)]
    rfl

theorem toList_insertAll {l : List (κ × ν)} (m : SortedMap κ ν)
    (h : (m.toList ++ l).Pairwise fun a b => compare a.1 b.1 = .lt) :
    (l.foldl (fun m p => m.insert p.1 p.2) m).toList = m.toList ++ l := by
  induction l generalizing m with
  | nil => simp
  | cons p l ih =>
    have hp : (m.insert p.1 p.2).toList = m.toList ++ [p] :=
      put_of_lt fun q hq => (List.pairwise_append.1 h).2.2 q hq p List.mem_cons_self
    have happ : (m.insert p.1 p.2).toList ++ l = m.toList ++ p :: l := by simp [hp]
    rw [List.foldl_cons, ih _ (by rw [happ]; exact h), happ]

/-- **A list that stands in order is the list of its map.** -/
theorem toList_ofList {l : List (κ × ν)} (h : l.Pairwise fun a b => compare a.1 b.1 = .lt) :
    (ofList l).toList = l := by
  rw [ofList, toList_insertAll empty (by simpa [empty] using h)]
  rfl

theorem ofList_toList (m : SortedMap κ ν) : ofList m.toList = m :=
  SortedMap.ext (toList_ofList m.ordered)

/-- A map binds only what stood in its list. -/
theorem mem_of_mem_ofList {l : List (κ × ν)} {p : κ × ν} (h : p ∈ (ofList l).toList) : p ∈ l := by
  have key : ∀ (l : List (κ × ν)) (m : SortedMap κ ν),
      p ∈ (l.foldl (fun m p => m.insert p.1 p.2) m).toList → p ∈ m.toList ∨ p ∈ l := by
    intro l
    induction l with
    | nil => intro m h; exact .inl h
    | cons q l ih =>
      intro m h
      rcases ih _ h with h | h
      · rcases mem_put h with rfl | h
        · exact .inr List.mem_cons_self
        · exact .inl h
      · exact .inr (List.mem_cons_of_mem _ h)
  rcases key l empty h with h | h
  · cases h
  · exact h

theorem contains_iff [Std.LawfulEqOrd κ] {m : SortedMap κ ν} {k : κ} : m.contains k = true ↔ k ∈ m.keys := by
  rw [contains, Option.isSome_iff_exists, keys, List.mem_map]
  constructor
  · rintro ⟨v, hv⟩
    exact ⟨(k, v), mem_iff_get?.2 hv, rfl⟩
  · rintro ⟨⟨_, v⟩, hp, rfl⟩
    exact ⟨v, mem_iff_get?.1 hp⟩

theorem contains_insert {m : SortedMap κ ν} {k j : κ} {v : ν} :
    (m.insert k v).contains j = true ↔ compare j k = .eq ∨ m.contains j = true := by
  rw [contains, get?_insert]
  split
  next h => exact iff_of_true rfl (.inl h)
  next h => exact (or_iff_right h).symm

/-- **A map binds all the keys that stood in its list.** -/
theorem mem_keys_ofList [Std.LawfulEqOrd κ] {l : List (κ × ν)} {k : κ} :
    k ∈ (ofList l).keys ↔ k ∈ l.map (·.1) := by
  have key : ∀ (l : List (κ × ν)) (m : SortedMap κ ν),
      (l.foldl (fun m p => m.insert p.1 p.2) m).contains k = true ↔ m.contains k = true ∨ k ∈ l.map (·.1) := by
    intro l
    induction l with
    | nil => simp
    | cons p l ih =>
      intro m
      rw [List.foldl_cons, ih, contains_insert, Std.LawfulEqCmp.compare_eq_iff_eq, List.map_cons, List.mem_cons]
      tauto
  rw [← contains_iff, ofList, key]
  exact or_iff_right (by simp [contains])

omit [Std.TransOrd κ] in
theorem put_perm {k : κ} {v : ν} {l : List (κ × ν)} (h : ∀ p ∈ l, compare k p.1 ≠ .eq) :
    (put k v l).Perm ((k, v) :: l) := by
  induction l with
  | nil => exact .refl _
  | cons q rest ih =>
    obtain ⟨hq, hrest⟩ := List.forall_mem_cons.1 h
    simp only [put]
    split
    next => exact .refl _
    next heq => exact absurd heq hq
    next => exact ((ih hrest).cons q).trans (.swap _ _ _)

theorem perm_insertAll [Std.LawfulEqOrd κ] {l : List (κ × ν)} (m : SortedMap κ ν)
    (h : ((m.toList ++ l).map (·.1)).Nodup) :
    (l.foldl (fun m p => m.insert p.1 p.2) m).toList.Perm (m.toList ++ l) := by
  induction l generalizing m with
  | nil => simp
  | cons p l ih =>
    have hnew : ∀ q ∈ m.toList, compare p.1 q.1 ≠ .eq := by
      intro q hq heq
      rw [List.map_append, List.nodup_append] at h
      have hpq : p.1 = q.1 := Std.LawfulEqCmp.eq_of_compare heq
      exact h.2.2 q.1 (List.mem_map_of_mem hq) p.1 List.mem_cons_self hpq.symm
    have hp : (m.insert p.1 p.2).toList.Perm (p :: m.toList) := put_perm hnew
    have happ : ((m.insert p.1 p.2).toList ++ l).Perm (m.toList ++ p :: l) :=
      (hp.append_right l).trans List.perm_middle.symm
    exact (ih _ ((happ.map (·.1)).nodup_iff.2 h)).trans happ

/-- **A list of different keys has the bindings of its map**, in another order. -/
theorem perm_ofList [Std.LawfulEqOrd κ] {l : List (κ × ν)} (h : (l.map (·.1)).Nodup) :
    (ofList l).toList.Perm l :=
  perm_insertAll empty h

/-- **Two maps with the same bindings are equal.** -/
theorem ext_perm {m n : SortedMap κ ν} (h : m.toList.Perm n.toList) : m = n := by
  refine SortedMap.ext (h.eq_of_pairwise (fun a b _ _ hab hba => ?_) m.ordered n.ordered)
  rw [Std.OrientedCmp.gt_of_lt hab] at hba
  cases hba

omit [Std.TransOrd κ] in
theorem get?_mapWithKey [Std.LawfulEqOrd κ] {ν' : Type} (m : SortedMap κ ν) (f : κ → ν → ν') (k : κ) :
    (m.mapWithKey f).get? k = (m.get? k).map (f k) := by
  show find? k (m.toList.map fun p => (p.1, f p.1 p.2)) = (find? k m.toList).map (f k)
  induction m.toList with
  | nil => rfl
  | cons p l ih =>
    rw [List.map_cons, find?, find?, ih]
    split
    next hk => rw [Option.map_some, Std.LawfulEqCmp.eq_of_compare hk]
    next => rfl

omit [Std.TransOrd κ] in
theorem put_mapWithKey {ν' : Type} (f : κ → ν → ν') (k : κ) (v : ν) (l : List (κ × ν)) :
    put k (f k v) (l.map fun p => (p.1, f p.1 p.2)) = (put k v l).map fun p => (p.1, f p.1 p.2) := by
  induction l with
  | nil => rfl
  | cons p l ih =>
    simp only [List.map_cons, put]
    split
    next => rfl
    next => rfl
    next => rw [ih, List.map_cons]

/-- **The values of a list may be changed before or after** its map is made. -/
theorem ofList_mapWithKey {ν' : Type} (f : κ → ν → ν') (l : List (κ × ν)) :
    ofList (l.map fun p => (p.1, f p.1 p.2)) = (ofList l).mapWithKey f := by
  have key : ∀ m : SortedMap κ ν, (l.map fun p => (p.1, f p.1 p.2)).foldl (fun m p => m.insert p.1 p.2)
      (m.mapWithKey f) = (l.foldl (fun m p => m.insert p.1 p.2) m).mapWithKey f := by
    induction l with
    | nil => exact fun _ => rfl
    | cons p l ih =>
      intro m
      rw [List.map_cons, List.foldl_cons, List.foldl_cons, ← ih]
      congr 1
      exact SortedMap.ext (put_mapWithKey f p.1 p.2 m.toList)
  exact key empty

theorem ofList_congr [Std.LawfulEqOrd κ] {l r : List (κ × ν)} (hp : l.Perm r) (h : (l.map (·.1)).Nodup) :
    ofList l = ofList r :=
  ext_perm ((perm_ofList h).trans (hp.trans (perm_ofList ((hp.map (·.1)).nodup_iff.1 h)).symm))

end SortedMap

namespace SortedSet

section

variable {α : Type} [Ord α] [Std.TransOrd α]

/-- What is put in is held, by itself or by what stands in its place already. -/
theorem holds_put {a b : α} {l : List α} :
    holds a (put b l) = true ↔ compare a b = .eq ∨ holds a l = true := by
  induction l with
  | nil => simp [put, holds]
  | cons c rest ih =>
    simp only [put]
    split
    next => simp [holds]
    next hc =>
      -- what is equal to the one is equal to the other
      have hab : compare a b = compare a c := Std.TransCmp.congr_right hc
      simp [holds, hab]
    next =>
      simp only [holds, List.any_cons, Bool.or_eq_true, beq_iff_eq] at ih ⊢
      rw [ih]
      exact or_left_comm

theorem contains_insertAll {l : List α} {s : SortedSet α} {a : α} :
    (s.insertAll l).contains a = true ↔ s.contains a = true ∨ ∃ b ∈ l, compare a b = .eq := by
  induction l generalizing s with
  | nil => simp [insertAll]
  | cons b l ih =>
    rw [insertAll, List.foldl_cons, ← insertAll, ih, contains, insert, holds_put, List.exists_mem_cons_iff]
    exact or_assoc.trans or_left_comm

/-- **A set from a list contains what compares equal to something in the list.** -/
theorem contains_ofList {l : List α} {a : α} :
    (ofList l).contains a = true ↔ ∃ b ∈ l, compare a b = .eq := by
  rw [ofList, contains_insertAll]
  exact or_iff_right (by simp [empty, contains, holds])

end

variable {α : Type} [Ord α] [Std.TransOrd α] [Std.LawfulEqOrd α]

theorem mem_insertAll {l : List α} {s : SortedSet α} {a : α} :
    a ∈ (s.insertAll l).toList ↔ a ∈ s.toList ∨ a ∈ l := by
  induction l generalizing s with
  | nil => simp [insertAll]
  | cons b l ih =>
    rw [insertAll, List.foldl_cons, ← insertAll, ih, mem_insert, List.mem_cons]
    tauto

/-- **A set holds what stood in its list.** -/
theorem mem_ofList {l : List α} {a : α} : a ∈ (ofList l).toList ↔ a ∈ l := by
  rw [ofList, mem_insertAll]
  exact or_iff_right (List.not_mem_nil)

omit [Std.TransOrd α] in
theorem mem_erase {s : SortedSet α} {a b : α} : b ∈ (s.erase a).toList ↔ b ∈ s.toList ∧ b ≠ a := by
  rw [erase, filter, List.mem_filter, bne_iff_ne, ne_eq, Std.LawfulEqCmp.compare_eq_iff_eq, eq_comm]

omit [Std.TransOrd α] in
theorem contains_iff {s : SortedSet α} {a : α} : s.contains a = true ↔ a ∈ s.toList := by
  simp [contains, holds, List.any_eq_true]

omit [Std.LawfulEqOrd α] in
/-- **Two sets with the same elements are equal.** -/
theorem ext_mem {s t : SortedSet α} (h : ∀ a, a ∈ s.toList ↔ a ∈ t.toList) : s = t := by
  have hperm : s.toList.Perm t.toList := (List.perm_ext_iff_of_nodup (s.ordered.imp ne_of_compare_lt)
    (t.ordered.imp ne_of_compare_lt)).2 h
  refine SortedSet.ext (hperm.eq_of_pairwise (fun a b _ _ hab hba => ?_) s.ordered t.ordered)
  rw [Std.OrientedCmp.gt_of_lt hab] at hba
  cases hba

theorem ofList_congr {l r : List α} (h : ∀ a, a ∈ l ↔ a ∈ r) : ofList l = ofList r :=
  ext_mem fun a => by rw [mem_ofList, mem_ofList, h]

end SortedSet

end TableAccess
