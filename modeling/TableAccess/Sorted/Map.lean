/-!
# Maps kept in key order

A `SortedMap κ ν` is a finite map from `κ` to `ν` that holds its bindings in strictly increasing
order of key, so two maps with the same bindings are equal and listing one needs no sorting.

* `get?_insert`, `get?_erase`: what writing and erasing do to a look-up.
* `mem_iff_get?`: a pair is listed exactly if looking its key up finds it.
-/

namespace TableAccess

/-- A finite map whose bindings stand in strictly increasing order of key. -/
structure SortedMap (κ ν : Type) [Ord κ] where
  /-- The bindings, smallest key first. -/
  toList : List (κ × ν)
  ordered : toList.Pairwise fun a b => compare a.1 b.1 = .lt

namespace SortedMap

variable {κ ν : Type} [Ord κ]

@[ext] theorem ext {m n : SortedMap κ ν} (h : m.toList = n.toList) : m = n := by
  cases m; cases n; cases h; rfl

instance [DecidableEq κ] [DecidableEq ν] : DecidableEq (SortedMap κ ν) := fun m n =>
  decidable_of_iff (m.toList = n.toList) ⟨ext, fun h => h ▸ rfl⟩

/-- The map with no binding. -/
def empty : SortedMap κ ν := ⟨[], .nil⟩

instance : EmptyCollection (SortedMap κ ν) := ⟨empty⟩

instance : Inhabited (SortedMap κ ν) := ⟨empty⟩

/-- The value of the first binding in `l` whose key compares equal to `k`. -/
def find? (k : κ) : List (κ × ν) → Option ν
  | [] => none
  | (k', v) :: rest => if compare k k' = .eq then some v else find? k rest

/-- Puts `(k, v)` into its place in `l`, in the stead of a binding of the same key. -/
def put (k : κ) (v : ν) : List (κ × ν) → List (κ × ν)
  | [] => [(k, v)]
  | (k', v') :: rest =>
    match compare k k' with
    | .lt => (k, v) :: (k', v') :: rest
    | .eq => (k, v) :: rest
    | .gt => (k', v') :: put k v rest

theorem mem_put {k : κ} {v : ν} {p : κ × ν} {l : List (κ × ν)} (h : p ∈ put k v l) :
    p = (k, v) ∨ p ∈ l := by
  induction l with
  | nil => simpa [put] using h
  | cons q rest ih =>
    simp only [put] at h
    split at h <;> simp only [List.mem_cons] at h ⊢
    · exact h
    · rcases h with h | h
      · exact .inl h
      · exact .inr (.inr h)
    · rcases h with h | h
      · exact .inr (.inl h)
      · rcases ih h with h | h
        · exact .inl h
        · exact .inr (.inr h)

theorem pairwise_put [Std.TransOrd κ] (k : κ) (v : ν) {l : List (κ × ν)}
    (h : l.Pairwise fun a b => compare a.1 b.1 = .lt) :
    (put k v l).Pairwise fun a b => compare a.1 b.1 = .lt := by
  induction l with
  | nil => simp [put]
  | cons q rest ih =>
    obtain ⟨hq, hrest⟩ := List.pairwise_cons.1 h
    simp only [put]
    split
    next hc =>
      refine List.pairwise_cons.2 ⟨fun p hp => ?_, h⟩
      rcases List.mem_cons.1 hp with rfl | hp
      · exact hc
      · exact Std.TransCmp.lt_trans hc (hq p hp)
    next hc =>
      refine List.pairwise_cons.2 ⟨fun p hp => ?_, hrest⟩
      rw [Std.TransCmp.congr_left hc]
      exact hq p hp
    next hc =>
      refine List.pairwise_cons.2 ⟨fun p hp => ?_, ih hrest⟩
      rcases mem_put hp with rfl | hp
      · exact Std.OrientedCmp.lt_of_gt hc
      · exact hq p hp

/-- The value bound to `k`. -/
def get? (m : SortedMap κ ν) (k : κ) : Option ν := find? k m.toList

/-- Whether `k` is bound. -/
def contains (m : SortedMap κ ν) (k : κ) : Bool := (m.get? k).isSome

/-- The keys, smallest first. -/
def keys (m : SortedMap κ ν) : List κ := m.toList.map (·.1)

/-- The values in order of their keys. -/
def values (m : SortedMap κ ν) : List ν := m.toList.map (·.2)

/-- Binds `k` to `v`, whatever it was bound to before. -/
def insert [Std.TransOrd κ] (m : SortedMap κ ν) (k : κ) (v : ν) : SortedMap κ ν :=
  ⟨put k v m.toList, pairwise_put k v m.ordered⟩

/-- Keeps the bindings that pass `keep`. -/
def filter (m : SortedMap κ ν) (keep : κ → ν → Bool) : SortedMap κ ν :=
  ⟨m.toList.filter fun p => keep p.1 p.2, m.ordered.filter _⟩

/-- Unbinds `k`. -/
def erase (m : SortedMap κ ν) (k : κ) : SortedMap κ ν :=
  m.filter fun k' _ => compare k k' != .eq

/-- Changes every value, knowing its key. -/
def mapWithKey {ν' : Type} (m : SortedMap κ ν) (f : κ → ν → ν') : SortedMap κ ν' :=
  ⟨m.toList.map fun p => (p.1, f p.1 p.2), by
    rw [List.pairwise_map]; exact m.ordered⟩

/-- The map of the bindings in `l`, a later one of a key standing in for an earlier one. -/
def ofList [Std.TransOrd κ] (l : List (κ × ν)) : SortedMap κ ν :=
  l.foldl (fun m p => m.insert p.1 p.2) empty

/-! ## Look-ups -/

@[simp] theorem get?_empty (k : κ) : (empty : SortedMap κ ν).get? k = none := rfl

theorem find?_put [Std.TransOrd κ] (k : κ) (v : ν) (j : κ) (l : List (κ × ν))
    (h : l.Pairwise fun a b => compare a.1 b.1 = .lt) :
    find? j (put k v l) = if compare j k = .eq then some v else find? j l := by
  induction l with
  | nil => simp [put, find?]
  | cons q rest ih =>
    obtain ⟨hq, hrest⟩ := List.pairwise_cons.1 h
    simp only [put]
    split
    next hc => simp [find?]
    next hc =>
      simp only [find?]
      by_cases hj : compare j k = .eq
      · simp [hj]
      · have : compare j q.1 ≠ .eq := by rwa [← Std.TransCmp.congr_right hc]
        simp [hj, this]
    next hc =>
      simp only [find?, ih hrest]
      by_cases hj : compare j k = .eq
      · have : compare j q.1 ≠ .eq := by
          rw [Std.TransCmp.congr_left hj, hc]; decide
        simp [hj, this]
      · simp [hj]

@[simp] theorem get?_insert [Std.TransOrd κ] (m : SortedMap κ ν) (k : κ) (v : ν) (j : κ) :
    (m.insert k v).get? j = if compare j k = .eq then some v else m.get? j :=
  find?_put k v j m.toList m.ordered

theorem find?_filter_ne [Std.TransOrd κ] (k j : κ) (l : List (κ × ν)) :
    find? j (l.filter fun p => compare k p.1 != .eq) =
      if compare j k = .eq then none else find? j l := by
  induction l with
  | nil => simp [find?]
  | cons q rest ih =>
    by_cases hk : compare k q.1 = .eq
    · have : (compare k q.1 != .eq) = false := by simp [hk]
      rw [List.filter_cons_of_neg (by simp [hk]), ih]
      by_cases hj : compare j k = .eq
      · simp [hj]
      · have : compare j q.1 ≠ .eq := by rwa [← Std.TransCmp.congr_right hk]
        simp [hj, find?, this]
    · rw [List.filter_cons_of_pos (by simp [hk])]
      simp only [find?, ih]
      by_cases hj : compare j k = .eq
      · have : compare j q.1 ≠ .eq := by rwa [Std.TransCmp.congr_left hj]
        simp [hj, this]
      · simp [hj]

@[simp] theorem get?_erase [Std.TransOrd κ] (m : SortedMap κ ν) (k j : κ) :
    (m.erase k).get? j = if compare j k = .eq then none else m.get? j :=
  find?_filter_ne k j m.toList

theorem find?_eq_some_iff [Std.TransOrd κ] [Std.LawfulEqOrd κ] {k : κ} {v : ν}
    {l : List (κ × ν)} (h : l.Pairwise fun a b => compare a.1 b.1 = .lt) :
    find? k l = some v ↔ (k, v) ∈ l := by
  induction l with
  | nil => simp [find?]
  | cons q rest ih =>
    obtain ⟨hq, hrest⟩ := List.pairwise_cons.1 h
    simp only [find?, List.mem_cons]
    by_cases hc : compare k q.1 = .eq
    · obtain rfl := Std.LawfulEqCmp.eq_of_compare hc
      have hnot : (q.1, v) ∉ rest := fun hm => by
        have he : compare q.1 q.1 = .eq := Std.ReflCmp.compare_self
        exact absurd (he.symm.trans (hq (q.1, v) hm)) (by decide)
      simp only [hc, if_true, Option.some.injEq, hnot, or_false]
      constructor
      · rintro rfl; rfl
      · intro h; rw [← h]
    · have hne : (k, v) ≠ q := by
        rintro rfl
        exact hc Std.ReflCmp.compare_self
      simp [hc, hne, ih hrest]

/-- **A pair is listed exactly if looking its key up finds it.** -/
theorem mem_iff_get? [Std.TransOrd κ] [Std.LawfulEqOrd κ] {m : SortedMap κ ν} {k : κ} {v : ν} :
    (k, v) ∈ m.toList ↔ m.get? k = some v :=
  (find?_eq_some_iff m.ordered).symm

end SortedMap

end TableAccess
