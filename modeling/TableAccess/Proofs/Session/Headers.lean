import TableAccess.Proofs.Session.Variable
import TableAccess.Proofs.Sorted.First

/-!
# How required headers are collected

Required headers come in batches: a variable by itself, or the variables of a predicate, which were collected
in a set of their own before and come in the order of that set. Since a set holds no variable twice, this order
makes no difference to which spellings are kept.

* `ofBatches_eq_ofList`: **variables that come in batches are put in one by one**, as they first came.
* `Collects`: what is kept of names. `collects_ofList`: **one of each variable is kept, in the spelling that
  came first.**
* `same_iff`: two sets are of the same variables exactly if they contain the same. `same_ofList_of_perm`: so
  the order in which names come makes no difference to which variables are kept.
-/

namespace TableAccess

/-- What comes to required headers at a time: a variable by itself, or the variables of names that were
collected in a set of their own before. -/
inductive HeaderBatch where
  | single (v : SessionVariable)
  | collected (names : List SessionVariable)

/-- The variables of a batch as they first came. -/
def HeaderBatch.names : HeaderBatch → List SessionVariable
  | single v => [v]
  | collected names => names

namespace RequiredHeaders

variable {v : SessionVariable} {names : List SessionVariable} {h k : RequiredHeaders}

/-! ## Batches -/

/-- Puts a batch in, a set that was collected before in its order. -/
def add (h : RequiredHeaders) : HeaderBatch → RequiredHeaders
  | .single v => h.insert v
  | .collected names => h.insertAll (SortedSet.ofList names).toList

/-- The headers that come in batches, one after the other. -/
def ofBatches (batches : List HeaderBatch) : RequiredHeaders := batches.foldl add .empty

theorem add_eq_insertAll (h : RequiredHeaders) (b : HeaderBatch) : h.add b = h.insertAll b.names := by
  cases b with
  | single v => rfl
  | collected names => exact SortedSet.insertAll_ofList h names

/-- **In whatever batches variables come**, they are put in one by one. -/
theorem ofBatches_eq_ofList (batches : List HeaderBatch) :
    ofBatches batches = .ofList (batches.flatMap HeaderBatch.names) := by
  -- putting in a batch is a loop of its own, inside the one over the batches
  have hadd : add = fun h b => b.names.foldl SortedSet.insert h := funext₂ add_eq_insertAll
  rw [ofBatches, hadd]
  exact List.foldl_flatMap.symm

/-! ## What is kept -/

/-- **What is kept of names**: one of each variable, ordered by the folded bytes, in the spelling that came
first. -/
structure Collects (h : RequiredHeaders) (names : List SessionVariable) : Prop where
  ordered : h.toList.Pairwise fun v w => compare v.foldedBytes w.foldedBytes = .lt
  once : ∀ v ∈ names, ∃! w, w ∈ h.toList ∧ v.same w = true
  first : ∀ v, v ∈ h.toList ↔
    ∃ before after, names = before ++ v :: after ∧ ∀ w ∈ before, v.same w = false

theorem mem_ofList_iff : v ∈ (SortedSet.ofList names).toList ↔
    ∃ before after, names = before ++ v :: after ∧ ∀ w ∈ before, v.same w = false := by
  rw [SortedSet.mem_ofList_iff_isFirst]
  simp only [SortedSet.IsFirst, ne_eq, SessionVariable.compare_eq_iff_same, Bool.not_eq_true]

/-- **Of names one of each variable is kept**, in the spelling that came first. -/
theorem collects_ofList (names : List SessionVariable) : Collects (.ofList names) names where
  ordered := (SortedSet.ordered _).imp fun h => by rwa [← SessionVariable.compare_eq_compare_foldedBytes]
  once v hv := by
    obtain ⟨w, hw, hvw⟩ := SortedSet.exists_isFirst hv
    have hkept := SortedSet.mem_ofList_iff_isFirst.2 hw
    refine ⟨w, ⟨hkept, SessionVariable.compare_eq_iff_same.1 hvw⟩, ?_⟩
    rintro u ⟨hu, hvu⟩
    refine SortedSet.eq_of_compare_eq hu hkept ?_
    rwa [← Std.TransCmp.congr_left (SessionVariable.compare_eq_iff_same.2 hvu)]
  first _ := mem_ofList_iff

/-! ## Sets of the same variables -/

theorem contains_iff_mem_folded : h.contains v = true ↔ v.folded ∈ h.toList.map SessionVariable.folded := by
  rw [SortedSet.contains, SortedSet.holds, List.any_eq_true, List.mem_map]
  refine exists_congr fun w => and_congr_right fun _ => ?_
  rw [beq_iff_eq, SessionVariable.compare_eq_iff_same, SessionVariable.same_iff, eq_comm]

/-- **Two sets are of the same variables exactly if they contain the same.** -/
theorem same_iff : h.same k = true ↔ ∀ v, h.contains v = true ↔ k.contains v = true := by
  have hfolded : h.same k = true ↔
      h.toList.map SessionVariable.folded = k.toList.map SessionVariable.folded :=
    pointwise_iff
  simp only [hfolded, contains_iff_mem_folded]
  refine ⟨fun heq v => by rw [heq], fun hmem => ?_⟩
  -- the folded names of a set are in order, so they are told by what is among them
  have hordered : ∀ h : RequiredHeaders,
      (h.toList.map SessionVariable.folded).Pairwise fun s t => compare s t = .lt :=
    fun h => List.pairwise_map.2 h.ordered
  refine congrArg SortedSet.toList (SortedSet.ext_mem (s := ⟨_, hordered h⟩) (t := ⟨_, hordered k⟩) ?_)
  refine fun s => ⟨fun hs => ?_, fun hs => ?_⟩
  · obtain ⟨v, -, rfl⟩ := List.mem_map.1 hs
    exact (hmem v).1 hs
  · obtain ⟨v, -, rfl⟩ := List.mem_map.1 hs
    exact (hmem v).2 hs

/-- **The order in which names come** makes no difference to which variables are kept. -/
theorem same_ofList_of_perm {names' : List SessionVariable} (hp : names.Perm names') :
    RequiredHeaders.same (.ofList names) (.ofList names') = true := by
  refine same_iff.2 fun v => ?_
  simp only [SortedSet.contains_ofList, hp.mem_iff]

end RequiredHeaders

end TableAccess
