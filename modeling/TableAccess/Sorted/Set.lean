/-!
# Sets kept in order

A `SortedSet α` lists its elements in strictly increasing order. Where the order is coarser than
equality (names that differ in case only), a set holds one element of each class, and the first
one inserted stays.

* `mem_insert`: what an insertion adds.
-/

namespace TableAccess

/-- A finite set whose elements stand in strictly increasing order. -/
structure SortedSet (α : Type) [Ord α] where
  /-- The elements, smallest first. -/
  toList : List α
  ordered : toList.Pairwise fun a b => compare a b = .lt

namespace SortedSet

variable {α : Type} [Ord α]

@[ext] theorem ext {s t : SortedSet α} (h : s.toList = t.toList) : s = t := by
  cases s; cases t; cases h; rfl

instance [DecidableEq α] : DecidableEq (SortedSet α) := fun s t =>
  decidable_of_iff (s.toList = t.toList) ⟨ext, fun h => h ▸ rfl⟩

/-- The set without elements. -/
def empty : SortedSet α := ⟨[], .nil⟩

instance : EmptyCollection (SortedSet α) := ⟨empty⟩

instance : Inhabited (SortedSet α) := ⟨empty⟩

/-- Whether an element of `l` compares equal to `a`. -/
def holds (a : α) (l : List α) : Bool := l.any fun b => compare a b == .eq

/-- Puts `a` into its place in `l`, unless an equal element stands there. -/
def put (a : α) : List α → List α
  | [] => [a]
  | b :: rest =>
    match compare a b with
    | .lt => a :: b :: rest
    | .eq => b :: rest
    | .gt => b :: put a rest

theorem mem_put_of_mem {a b : α} {l : List α} (h : b ∈ put a l) : b = a ∨ b ∈ l := by
  induction l with
  | nil => simpa [put] using h
  | cons c rest ih =>
    simp only [put] at h
    split at h <;> simp only [List.mem_cons] at h ⊢
    · exact h
    · exact .inr h
    · rcases h with h | h
      · exact .inr (.inl h)
      · rcases ih h with h | h
        · exact .inl h
        · exact .inr (.inr h)

theorem pairwise_put [Std.TransOrd α] (a : α) {l : List α}
    (h : l.Pairwise fun a b => compare a b = .lt) :
    (put a l).Pairwise fun a b => compare a b = .lt := by
  induction l with
  | nil => simp [put]
  | cons b rest ih =>
    obtain ⟨hb, hrest⟩ := List.pairwise_cons.1 h
    simp only [put]
    split
    next hc =>
      refine List.pairwise_cons.2 ⟨fun c hm => ?_, h⟩
      rcases List.mem_cons.1 hm with rfl | hm
      · exact hc
      · exact Std.TransCmp.lt_trans hc (hb c hm)
    next => exact h
    next hc =>
      refine List.pairwise_cons.2 ⟨fun c hm => ?_, ih hrest⟩
      rcases mem_put_of_mem hm with rfl | hm
      · exact Std.OrientedCmp.lt_of_gt hc
      · exact hb c hm

/-- Whether the set holds an element that compares equal to `a`. -/
def contains (s : SortedSet α) (a : α) : Bool := holds a s.toList

/-- Adds `a`; an element that compares equal to it stays as it is. -/
def insert [Std.TransOrd α] (s : SortedSet α) (a : α) : SortedSet α :=
  ⟨put a s.toList, pairwise_put a s.ordered⟩

/-- Keeps the elements that pass `keep`. -/
def filter (s : SortedSet α) (keep : α → Bool) : SortedSet α :=
  ⟨s.toList.filter keep, s.ordered.filter _⟩

/-- Takes out the element that compares equal to `a`. -/
def erase (s : SortedSet α) (a : α) : SortedSet α := s.filter fun b => compare a b != .eq

/-- Adds the elements of `l`, first to last. -/
def insertAll [Std.TransOrd α] (s : SortedSet α) (l : List α) : SortedSet α :=
  l.foldl insert s

/-- The set of the elements of `l`, of equal ones the first. -/
def ofList [Std.TransOrd α] (l : List α) : SortedSet α := empty.insertAll l

theorem mem_put [Std.TransOrd α] [Std.LawfulEqOrd α] {a b : α} {l : List α} :
    b ∈ put a l ↔ b = a ∨ b ∈ l := by
  refine ⟨mem_put_of_mem, fun h => ?_⟩
  induction l with
  | nil => simpa [put] using h
  | cons c rest ih =>
    simp only [put]
    split
    next => exact List.mem_cons.2 h
    next hc =>
      obtain rfl := Std.LawfulEqCmp.eq_of_compare hc
      rcases h with rfl | h
      · exact List.mem_cons_self
      · exact h
    next =>
      rcases h with h | h
      · exact List.mem_cons_of_mem _ (ih (.inl h))
      · rcases List.mem_cons.1 h with rfl | h
        · exact List.mem_cons_self
        · exact List.mem_cons_of_mem _ (ih (.inr h))

/-- **Inserting adds the element and nothing else.** -/
theorem mem_insert [Std.TransOrd α] [Std.LawfulEqOrd α] {s : SortedSet α} {a b : α} :
    b ∈ (s.insert a).toList ↔ b = a ∨ b ∈ s.toList := mem_put

end SortedSet

end TableAccess
