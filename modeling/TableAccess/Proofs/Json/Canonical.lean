import TableAccess.Proofs.Json.Text
import TableAccess.Proofs.Sorted
import TableAccess.Proofs.Success

/-!
# Canonical values

Free parts of a document, such as predicates, are read in canonical form. Such a value is read again
as it is, and only if it is not nested too deeply.

* `isCanonical_of_readJson`, `numbers_of_readJson`: what reading gives.
* `readJson_ofJson`: **a canonical value is read as it is.**
* `isCanonical_mapFloats`, `numbers_mapFloats`, `depth_mapFloats`: a value with other numbers in it.
* `limit_ofJson`: the greatest depth does not touch a value that is less deep.
* `depth_of_readJson_limit`: a value that could be read was not nested too deeply.
-/

namespace TableAccess

/-! ## Numbers in documents -/

namespace Document

mutual

/-- The numbers in a document. -/
def numbers : Document → List Number
  | .num n => [n]
  | .arr items => numbersOfItems items
  | .obj entries _ => numbersOfEntries entries
  | _ => []

/-- The numbers in a list of documents. -/
def numbersOfItems : List Document → List Number
  | [] => []
  | d :: rest => numbers d ++ numbersOfItems rest

/-- The numbers in the documents of entries. -/
def numbersOfEntries : List (String × Document) → List Number
  | [] => []
  | (_, d) :: rest => numbers d ++ numbersOfEntries rest

end

/-- All numbers in the document have the property `N`. -/
def AllNumbers (N : Number → Prop) (d : Document) : Prop := ∀ n ∈ d.numbers, N n

/-- **All numbers in the document read back.** -/
def NumbersReadBack (d : Document) : Prop := ∀ n ∈ d.numbers, n.ReadsBack

mutual

theorem numbers_ofJson : (j : Json) → (ofJson j).numbers = j.numbers
  | .null | .bool _ | .num _ | .str _ => rfl
  | .arr items => numbers_ofItems items
  | .obj entries => numbers_ofEntries entries

theorem numbers_ofItems : (items : List Json) →
    numbersOfItems (ofItems items) = Json.numbersOfItems items
  | [] => rfl
  | j :: rest => by
    rw [ofItems, numbersOfItems, Json.numbersOfItems, numbers_ofJson j, numbers_ofItems rest]

theorem numbers_ofEntries : (entries : List (String × Json)) →
    numbersOfEntries (ofEntries entries) = Json.numbersOfEntries entries
  | [] => rfl
  | (k, j) :: rest => by
    rw [ofEntries, numbersOfEntries, Json.numbersOfEntries, numbers_ofJson j, numbers_ofEntries rest]

end

theorem allNumbers_ofJson {N : Number → Prop} {j : Json} : (ofJson j).AllNumbers N ↔ j.AllNumbers N := by
  rw [AllNumbers, numbers_ofJson, Json.AllNumbers]

theorem mem_numbersOfItems {items : List Document} {n : Number} :
    n ∈ numbersOfItems items ↔ ∃ d ∈ items, n ∈ d.numbers := by
  induction items with
  | nil => simp [numbersOfItems]
  | cons d rest ih => simp [numbersOfItems, ih]

theorem mem_numbersOfEntries {entries : List (String × Document)} {n : Number} :
    n ∈ numbersOfEntries entries ↔ ∃ e ∈ entries, n ∈ e.2.numbers := by
  induction entries with
  | nil => simp [numbersOfEntries]
  | cons e rest ih => simp [numbersOfEntries, ih]

/-! ## The greatest depth -/

theorem ofItems_eq_map (items : List Json) : ofItems items = items.map ofJson := by
  induction items with
  | nil => rfl
  | cons j rest ih => rw [ofItems, ih, List.map_cons]

theorem ofEntries_eq_map (entries : List (String × Json)) :
    ofEntries entries = entries.map fun e => (e.1, ofJson e.2) := by
  induction entries with
  | nil => rfl
  | cons e rest ih => rw [ofEntries, ih, List.map_cons]

theorem limitItems_eq_map (n : Nat) (items : List Document) :
    limitItems n items = items.map (limit n) := by
  induction items with
  | nil => rfl
  | cons d rest ih => rw [limitItems, ih, List.map_cons]

theorem limitEntries_eq_map (n : Nat) (entries : List (String × Document)) :
    limitEntries n entries = entries.map fun e => (e.1, limit n e.2) := by
  induction entries with
  | nil => rfl
  | cons e rest ih => rw [limitEntries, ih, List.map_cons]

theorem ofJson_obj (entries : List (String × Json)) :
    ofJson (.obj entries) = .obj (entries.map fun e => (e.1, ofJson e.2)) none := by
  rw [ofJson, ofEntries_eq_map]

theorem limit_ofJson_arr (n : Nat) (items : List Json) :
    (ofJson (.arr items)).limit (n + 1) = .arr (items.map fun j => (ofJson j).limit n) := by
  rw [ofJson, limit, limitItems_eq_map, ofItems_eq_map, List.map_map]
  rfl

theorem limit_ofJson_obj (n : Nat) (entries : List (String × Json)) :
    (ofJson (.obj entries)).limit (n + 1) =
      .obj (entries.map fun e => (e.1, (ofJson e.2).limit n)) none := by
  rw [ofJson, limit, limitEntries_eq_map, ofEntries_eq_map, List.map_map]
  rfl

theorem depthItems_le {n : Nat} {items : List Json} :
    Json.depthItems items ≤ n ↔ ∀ j ∈ items, j.depth ≤ n := by
  induction items with
  | nil => simp [Json.depthItems]
  | cons j rest ih => simp [Json.depthItems, ih]

theorem depthEntries_le {n : Nat} {entries : List (String × Json)} :
    Json.depthEntries entries ≤ n ↔ ∀ e ∈ entries, e.2.depth ≤ n := by
  induction entries with
  | nil => simp [Json.depthEntries]
  | cons e rest ih => simp [Json.depthEntries, ih]

mutual

/-- **The greatest depth does not touch a value that is less deep.** -/
theorem limit_ofJson : (n : Nat) → (j : Json) → j.depth ≤ n → (ofJson j).limit n = ofJson j
  | n, .null, _ | n, .bool _, _ | n, .num _, _ | n, .str _, _ => by cases n <;> rfl
  | 0, .arr _, h | 0, .obj _, h => absurd h (Nat.not_succ_le_zero _)
  | n + 1, .arr items, h => by
    rw [ofJson, limit, limitItems_ofItems n items (Nat.le_of_succ_le_succ h)]
  | n + 1, .obj entries, h => by
    rw [ofJson, limit, limitEntries_ofEntries n entries (Nat.le_of_succ_le_succ h)]

theorem limitItems_ofItems : (n : Nat) → (items : List Json) → Json.depthItems items ≤ n →
    limitItems n (ofItems items) = ofItems items
  | _, [], _ => rfl
  | n, j :: rest, h => by
    have h := Nat.max_le.1 h
    rw [ofItems, limitItems, limit_ofJson n j h.1, limitItems_ofItems n rest h.2]

theorem limitEntries_ofEntries : (n : Nat) → (entries : List (String × Json)) →
    Json.depthEntries entries ≤ n → limitEntries n (ofEntries entries) = ofEntries entries
  | _, [], _ => rfl
  | n, (k, j) :: rest, h => by
    have h := Nat.max_le.1 h
    rw [ofEntries, limitEntries, limit_ofJson n j h.1, limitEntries_ofEntries n rest h.2]

end

end Document

/-! ## What reading gives -/

namespace Json

theorem areCanonical_iff {items : List Json} : AreCanonical items ↔ ∀ j ∈ items, j.IsCanonical := by
  induction items with
  | nil => simp [AreCanonical]
  | cons j rest ih => simp [AreCanonical, ih]

theorem haveCanonical_iff {entries : List (String × Json)} :
    HaveCanonical entries ↔ ∀ e ∈ entries, e.2.IsCanonical := by
  induction entries with
  | nil => simp [HaveCanonical]
  | cons e rest ih => simp [HaveCanonical, ih]

theorem mem_numbersOfEntries {entries : List (String × Json)} {n : Number} :
    n ∈ numbersOfEntries entries ↔ ∃ e ∈ entries, n ∈ e.2.numbers := by
  induction entries with
  | nil => simp [numbersOfEntries]
  | cons e rest ih => simp [numbersOfEntries, ih]

theorem mem_numbersOfItems {items : List Json} {n : Number} :
    n ∈ numbersOfItems items ↔ ∃ j ∈ items, n ∈ j.numbers := by
  induction items with
  | nil => simp [numbersOfItems]
  | cons j rest ih => simp [numbersOfItems, ih]

theorem allNumbers_arr {N : Number → Prop} {items : List Json} :
    (arr items).AllNumbers N ↔ ∀ j ∈ items, j.AllNumbers N :=
  ⟨fun h _ hj n hn => h n (mem_numbersOfItems.2 ⟨_, hj, hn⟩), fun h n hn => by
    obtain ⟨j, hj, hn⟩ := mem_numbersOfItems.1 hn
    exact h j hj n hn⟩

theorem allNumbers_obj {N : Number → Prop} {entries : List (String × Json)} :
    (obj entries).AllNumbers N ↔ ∀ e ∈ entries, e.2.AllNumbers N :=
  ⟨fun h _ he n hn => h n (mem_numbersOfEntries.2 ⟨_, he, hn⟩), fun h n hn => by
    obtain ⟨e, he, hn⟩ := mem_numbersOfEntries.1 hn
    exact h e he n hn⟩

theorem isCanonical_sortEntries {entries : List (String × Json)}
    (h : ∀ e ∈ entries, e.2.IsCanonical) : (Json.obj (sortEntries entries)).IsCanonical :=
  ⟨(SortedMap.ofList entries).ordered,
    haveCanonical_iff.2 fun e he => h e (SortedMap.mem_of_mem_ofList he)⟩

/-! ## Other numbers -/

variable (f : Binary64 → Binary64)

mutual

theorem numbers_mapFloats : (j : Json) → (j.mapFloats f).numbers = j.numbers.map (Number.mapFloat f)
  | .null | .bool _ | .num _ | .str _ => rfl
  | .arr items => numbersOfItems_mapFloats items
  | .obj entries => numbersOfEntries_mapFloats entries

theorem numbersOfItems_mapFloats : (items : List Json) →
    numbersOfItems (mapFloatsOfItems f items) = (numbersOfItems items).map (Number.mapFloat f)
  | [] => rfl
  | j :: rest => by
    rw [mapFloatsOfItems, numbersOfItems, numbersOfItems, List.map_append, numbers_mapFloats j,
      numbersOfItems_mapFloats rest]

theorem numbersOfEntries_mapFloats : (entries : List (String × Json)) →
    numbersOfEntries (mapFloatsOfEntries f entries) = (numbersOfEntries entries).map (Number.mapFloat f)
  | [] => rfl
  | (k, j) :: rest => by
    rw [mapFloatsOfEntries, numbersOfEntries, numbersOfEntries, List.map_append, numbers_mapFloats j,
      numbersOfEntries_mapFloats rest]

end

mutual

theorem depth_mapFloats : (j : Json) → (j.mapFloats f).depth = j.depth
  | .null | .bool _ | .num _ | .str _ => rfl
  | .arr items => congrArg (· + 1) (depthItems_mapFloats items)
  | .obj entries => congrArg (· + 1) (depthEntries_mapFloats entries)

theorem depthItems_mapFloats : (items : List Json) → depthItems (mapFloatsOfItems f items) = depthItems items
  | [] => rfl
  | j :: rest => by
    rw [mapFloatsOfItems, depthItems, depthItems, depth_mapFloats j, depthItems_mapFloats rest]

theorem depthEntries_mapFloats : (entries : List (String × Json)) →
    depthEntries (mapFloatsOfEntries f entries) = depthEntries entries
  | [] => rfl
  | (k, j) :: rest => by
    rw [mapFloatsOfEntries, depthEntries, depthEntries, depth_mapFloats j, depthEntries_mapFloats rest]

end

mutual

/-- The order of the entries does not depend on the numbers in them. -/
theorem isCanonical_mapFloats : (j : Json) → j.IsCanonical → (j.mapFloats f).IsCanonical
  | .null, _ | .bool _, _ | .num _, _ | .str _, _ => trivial
  | .arr items, h => areCanonical_mapFloats items h
  | .obj entries, h => by
    refine ⟨?_, haveCanonical_mapFloats entries h.2⟩
    rw [mapFloatsOfEntries_eq_map, List.pairwise_map]
    exact h.1

theorem areCanonical_mapFloats : (items : List Json) → AreCanonical items →
    AreCanonical (mapFloatsOfItems f items)
  | [], _ => trivial
  | j :: rest, h => ⟨isCanonical_mapFloats j h.1, areCanonical_mapFloats rest h.2⟩

theorem haveCanonical_mapFloats : (entries : List (String × Json)) → HaveCanonical entries →
    HaveCanonical (mapFloatsOfEntries f entries)
  | [], _ => trivial
  | (_, j) :: rest, h => ⟨isCanonical_mapFloats j h.1, haveCanonical_mapFloats rest h.2⟩

end

end Json

namespace Reader

open Document

theorem readJson_obj_eq_ok {entries : List (String × Document)} {cut : Option Flaw} {j : Json} :
    readJson (.obj entries cut) = .ok j ↔
      ∃ r, readEntries entries = .ok r ∧ cut = none ∧ j = .obj (Json.sortEntries r) := by
  simp only [readJson, bind_eq_ok]
  cases cut with
  | none =>
    simp only [Option.isSome_none, Bool.false_eq_true, if_false, pure_eq_ok]
    exact exists_congr fun r => and_congr_right fun _ => ⟨fun h => ⟨trivial, h.symm⟩, fun h => h.2.symm⟩
  | some f => simp

mutual

/-- **A value that is read is canonical.** -/
theorem isCanonical_of_readJson : (d : Document) → {j : Json} → readJson d = .ok j → j.IsCanonical
  | .null, _, h | .bool _, _, h | .num _, _, h | .str _, _, h => by
    obtain rfl := Except.ok.inj h; trivial
  | .arr items, _, h => by
    obtain ⟨r, hr, rfl⟩ := map_eq_ok.1 h
    exact Json.areCanonical_iff.2 (areCanonical_of_readItems items hr)
  | .obj entries cut, _, h => by
    obtain ⟨r, hr, -, rfl⟩ := readJson_obj_eq_ok.1 h
    exact Json.isCanonical_sortEntries (haveCanonical_of_readEntries entries hr)
  | .flaw _, _, h => nomatch h

theorem areCanonical_of_readItems : (items : List Document) → {r : List Json} →
    readItems items = .ok r → ∀ j ∈ r, j.IsCanonical
  | [], _, h => by obtain rfl := Except.ok.inj h; simp
  | d :: rest, _, h => by
    simp only [readItems, bind_eq_ok, pure_eq_ok] at h
    obtain ⟨j, hj, r, hr, rfl⟩ := h
    exact List.forall_mem_cons.2 ⟨isCanonical_of_readJson d hj, areCanonical_of_readItems rest hr⟩

theorem haveCanonical_of_readEntries : (entries : List (String × Document)) →
    {r : List (String × Json)} → readEntries entries = .ok r → ∀ e ∈ r, e.2.IsCanonical
  | [], _, h => by obtain rfl := Except.ok.inj h; simp
  | (k, d) :: rest, _, h => by
    simp only [readEntries, bind_eq_ok, pure_eq_ok] at h
    obtain ⟨j, hj, r, hr, rfl⟩ := h
    exact List.forall_mem_cons.2 ⟨isCanonical_of_readJson d hj, haveCanonical_of_readEntries rest hr⟩

end

mutual

/-- **Reading a value brings no new numbers.** -/
theorem numbers_of_readJson : (d : Document) → {j : Json} → readJson d = .ok j →
    ∀ n ∈ j.numbers, n ∈ d.numbers
  | .null, _, h | .bool _, _, h | .num _, _, h | .str _, _, h => by
    obtain rfl := Except.ok.inj h; exact fun _ hn => hn
  | .arr items, _, h => by
    obtain ⟨r, hr, rfl⟩ := map_eq_ok.1 h
    exact numbers_of_readItems items hr
  | .obj entries cut, _, h => by
    obtain ⟨r, hr, -, rfl⟩ := readJson_obj_eq_ok.1 h
    intro n hn
    obtain ⟨e, he, hn⟩ := Json.mem_numbersOfEntries.1 hn
    exact numbers_of_readEntries entries hr n
      (Json.mem_numbersOfEntries.2 ⟨e, SortedMap.mem_of_mem_ofList he, hn⟩)
  | .flaw _, _, h => nomatch h

theorem numbers_of_readItems : (items : List Document) → {r : List Json} →
    readItems items = .ok r → ∀ n ∈ Json.numbersOfItems r, n ∈ numbersOfItems items
  | [], _, h => by obtain rfl := Except.ok.inj h; exact fun _ hn => hn
  | d :: rest, _, h => by
    simp only [readItems, bind_eq_ok, pure_eq_ok] at h
    obtain ⟨j, hj, r, hr, rfl⟩ := h
    intro n hn
    rcases List.mem_append.1 hn with hn | hn
    · exact List.mem_append_left _ (numbers_of_readJson d hj n hn)
    · exact List.mem_append_right _ (numbers_of_readItems rest hr n hn)

theorem numbers_of_readEntries : (entries : List (String × Document)) → {r : List (String × Json)} →
    readEntries entries = .ok r → ∀ n ∈ Json.numbersOfEntries r, n ∈ numbersOfEntries entries
  | [], _, h => by obtain rfl := Except.ok.inj h; exact fun _ hn => hn
  | (k, d) :: rest, _, h => by
    simp only [readEntries, bind_eq_ok, pure_eq_ok] at h
    obtain ⟨j, hj, r, hr, rfl⟩ := h
    intro n hn
    rcases List.mem_append.1 hn with hn | hn
    · exact List.mem_append_left _ (numbers_of_readJson d hj n hn)
    · exact List.mem_append_right _ (numbers_of_readEntries rest hr n hn)

end

mutual

/-- **A canonical value is read as it is.** -/
theorem readJson_ofJson : (j : Json) → j.IsCanonical → readJson (Document.ofJson j) = .ok j
  | .null, _ | .bool _, _ | .num _, _ | .str _, _ => rfl
  | .arr items, hc => by
    rw [Document.ofJson, readJson, readItems_ofItems items hc]
    rfl
  | .obj entries, hc => by
    rw [Document.ofJson, readJson, readEntries_ofEntries entries hc.2]
    show Except.ok (Json.obj (Json.sortEntries entries)) = _
    rw [Json.sortEntries, SortedMap.toList_ofList hc.1]

theorem readItems_ofItems : (items : List Json) → Json.AreCanonical items →
    readItems (ofItems items) = .ok items
  | [], _ => rfl
  | j :: rest, hc => by
    rw [ofItems, readItems, readJson_ofJson j hc.1, readItems_ofItems rest hc.2]
    rfl

theorem readEntries_ofEntries : (entries : List (String × Json)) → Json.HaveCanonical entries →
    readEntries (ofEntries entries) = .ok entries
  | [], _ => rfl
  | (k, j) :: rest, hc => by
    rw [ofEntries, readEntries, readJson_ofJson j hc.1, readEntries_ofEntries rest hc.2]
    rfl

end

/-! ## Depth -/

mutual

/-- **A value that could be read is not nested too deeply.** -/
theorem depth_of_readJson_limit : (n : Nat) → (j : Json) → {v : Json} →
    readJson ((Document.ofJson j).limit n) = .ok v → j.depth ≤ n
  | n, .null, _, _ | n, .bool _, _, _ | n, .num _, _, _ | n, .str _, _, _ => Nat.zero_le n
  | 0, .arr _, _, h | 0, .obj _, _, h => by cases h
  | n + 1, .arr items, _, h => by
    obtain ⟨r, hr, -⟩ := map_eq_ok.1 h
    exact Nat.succ_le_succ (depth_of_readItems_limit n items hr)
  | n + 1, .obj entries, _, h => by
    obtain ⟨r, hr, -⟩ := readJson_obj_eq_ok.1 h
    exact Nat.succ_le_succ (depth_of_readEntries_limit n entries hr)

theorem depth_of_readItems_limit : (n : Nat) → (items : List Json) → {r : List Json} →
    readItems (limitItems n (ofItems items)) = .ok r → Json.depthItems items ≤ n
  | n, [], _, _ => Nat.zero_le n
  | n, j :: rest, _, h => by
    simp only [ofItems, limitItems, readItems, bind_eq_ok] at h
    obtain ⟨v, hv, r, hr, -⟩ := h
    exact Nat.max_le.2 ⟨depth_of_readJson_limit n j hv,
      depth_of_readItems_limit n rest hr⟩

theorem depth_of_readEntries_limit : (n : Nat) → (entries : List (String × Json)) →
    {r : List (String × Json)} → readEntries (limitEntries n (ofEntries entries)) = .ok r →
    Json.depthEntries entries ≤ n
  | n, [], _, _ => Nat.zero_le n
  | n, (k, j) :: rest, _, h => by
    simp only [ofEntries, limitEntries, readEntries, bind_eq_ok] at h
    obtain ⟨v, hv, r, hr, -⟩ := h
    exact Nat.max_le.2 ⟨depth_of_readJson_limit n j hv,
      depth_of_readEntries_limit n rest hr⟩

end

end Reader

end TableAccess
