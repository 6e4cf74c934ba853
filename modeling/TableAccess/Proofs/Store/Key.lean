import Mathlib.Data.List.Infix
import TableAccess.Proofs.Success
import TableAccess.Proofs.Text.Bytes
import TableAccess.Store.Key

/-!
# Keys tell their names

A list of names has a key if each name *fits*, that is, its length can be put in front of it. The
names can then be read off the key, and one key starts with another exactly if its names start with
the names of the other, so a scan over the keys with some start finds what it is meant to.

* `parts?_ofParts`, `id?_ofId`: **keys tell their names**; `ofParts_injective`, `ofId_injective`.
* `isPrefixOf_ofParts`: **the start of a key is the start of its names.**
-/

namespace TableAccess.Key

/-- A name whose length can stand in front of it. -/
def NameFits (s : String) : Prop := (bytes s).length ≤ maxPart

variable {l m : List String} {k k' : Key} {s t : String}

/-- **Names have a key exactly if each of them fits.** -/
theorem ofParts_eq_ok : ofParts l = .ok k ↔ (∀ s ∈ l, NameFits s) ∧ k = l.flatMap part := by
  induction l generalizing k with
  | nil => exact ⟨fun h => ⟨List.forall_mem_nil _, (Except.ok.inj h).symm⟩, fun h => h.2 ▸ rfl⟩
  | cons s rest ih =>
    rw [ofParts, List.forall_mem_cons, List.flatMap_cons]
    by_cases hs : (bytes s).length > maxPart
    · rw [if_pos hs]
      constructor
      · intro h
        cases h
      · exact fun h => absurd h.1.1 (Nat.not_le_of_lt hs)
    · simp only [if_neg hs, map_eq_ok, ih]
      constructor
      · rintro ⟨_, ⟨hrest, rfl⟩, rfl⟩
        exact ⟨⟨Nat.le_of_not_lt hs, hrest⟩, rfl⟩
      · rintro ⟨⟨-, hrest⟩, rfl⟩
        exact ⟨_, ⟨hrest, rfl⟩, rfl⟩

/-- The key of a permission has the lengths of its names and one more byte for each. -/
theorem length_of_ofId {i : PermissionId} (h : ofId i = .ok k) : k.length =
    (bytes i.source).length + (bytes i.table).length + (bytes i.kind.name).length + (bytes i.role).length +
      4 := by
  rw [(ofParts_eq_ok.1 h).2]
  simp only [List.flatMap_cons, List.flatMap_nil, part, List.length_append, List.length_cons, List.length_nil]
  omega

/-- A name that repeats a character of one byte has that many bytes. -/
theorem length_bytes_replicate {c : Char} (hc : c.utf8Size = 1) (n : Nat) :
    (bytes (String.ofList (List.replicate n c))).length = n := by
  refine (String.utf8ByteSize_ofList _).trans ?_
  induction n with
  | zero => rfl
  | succ n ih => rw [List.replicate_succ, String.utf8Len_cons, ih, hc]

/-! ## Reading the names off a key -/

theorem name?_bytes (s : String) : name? (bytes s) = some s := by
  show String.fromUTF8? s.toByteArray = some s
  rw [String.fromUTF8?, dif_pos s.isValidUTF8]
  rfl

theorem toNat_length (h : NameFits s) : (UInt8.ofNat (bytes s).length).toNat = (bytes s).length := by
  have : (bytes s).length < 256 := Nat.lt_succ_of_le h
  simp [Nat.mod_eq_of_lt this]

theorem parts?_flatMap (h : ∀ s ∈ l, NameFits s) : parts? (l.flatMap part) = some l := by
  induction l with
  | nil => rw [List.flatMap_nil, parts?]
  | cons s rest ih =>
    obtain ⟨hs, hrest⟩ := List.forall_mem_cons.1 h
    rw [List.flatMap_cons, part, List.cons_append, parts?, toNat_length hs, List.take_left,
      List.drop_left, name?_bytes, ih hrest, if_neg (by rw [List.length_append]; omega)]
    rfl

/-- **A key tells its names.** -/
theorem parts?_ofParts (h : ofParts l = .ok k) : parts? k = some l := by
  obtain ⟨hl, rfl⟩ := ofParts_eq_ok.1 h
  exact parts?_flatMap hl

/-- The table in a key of two names. -/
def table? (k : Key) : Option String :=
  match parts? k with
  | some [_, table] => some table
  | _ => none

theorem table?_ofTable {source table : String} (h : ofTable source table = .ok k) :
    k.table? = some table := by
  rw [Key.table?, parts?_ofParts h]

theorem ofParts_injective (h : ofParts l = .ok k) (h' : ofParts m = .ok k) : l = m :=
  Option.some.inj ((parts?_ofParts h).symm.trans (parts?_ofParts h'))

/-- **The key of a permission tells its identity.** -/
theorem id?_ofId {i : PermissionId} (h : ofId i = .ok k) : id? k = some i := by
  rw [id?, parts?_ofParts h]
  simp [Kind.ofName?_name]

theorem ofId_injective {i j : PermissionId} (hi : ofId i = .ok k) (hj : ofId j = .ok k) : i = j :=
  Option.some.inj ((id?_ofId hi).symm.trans (id?_ofId hj))

/-! ## Starts of keys -/

theorem part_append_prefix (hs : NameFits s) (ht : NameFits t) {x y : Key}
    (h : part s ++ x <+: part t ++ y) : s = t ∧ x <+: y := by
  rw [part, part, List.cons_append, List.cons_append, List.cons_prefix_cons] at h
  obtain ⟨hn, hrest⟩ := h
  -- the lengths in front are the same, so the names end at the same place
  have hlen : (bytes s).length = (bytes t).length := by
    rw [← toNat_length hs, ← toNat_length ht, hn]
  obtain ⟨z, hz⟩ := hrest
  rw [List.append_assoc] at hz
  obtain ⟨hst, hxy⟩ := List.append_inj hz hlen
  exact ⟨Text.bytes_injective hst, z, hxy⟩

theorem flatMap_part_prefix (hl : ∀ s ∈ l, NameFits s) (hm : ∀ s ∈ m, NameFits s) :
    l.flatMap part <+: m.flatMap part ↔ l <+: m := by
  induction l generalizing m with
  | nil => simp
  | cons s l ih =>
    obtain ⟨hs, hl⟩ := List.forall_mem_cons.1 hl
    cases m with
    | nil => simp [part]
    | cons t m =>
      obtain ⟨ht, hrest⟩ := List.forall_mem_cons.1 hm
      rw [List.flatMap_cons, List.flatMap_cons, List.cons_prefix_cons]
      constructor
      · intro h
        obtain ⟨rfl, hlm⟩ := part_append_prefix hs ht h
        exact ⟨rfl, (ih hl hrest).1 hlm⟩
      · rintro ⟨rfl, h⟩
        exact (List.prefix_append_right_inj _).2 ((ih hl hrest).2 h)

/-- **A key starts with another exactly if its names start with those of the other.** -/
theorem isPrefixOf_ofParts (h : ofParts l = .ok k) (h' : ofParts m = .ok k') :
    k.isPrefixOf k' = true ↔ l <+: m := by
  obtain ⟨hl, rfl⟩ := ofParts_eq_ok.1 h
  obtain ⟨hm, rfl⟩ := ofParts_eq_ok.1 h'
  rw [List.isPrefixOf_iff_prefix, flatMap_part_prefix hl hm]

/-- Whether the key of a permission starts with `start`. -/
def starts (start : Key) (i : PermissionId) : Bool :=
  match ofId i with
  | .ok k => start.isPrefixOf k
  | .error _ => false

variable {i : PermissionId} {start : Key}

theorem starts_of_ofId (h : ofId i = .ok k) : starts start i = start.isPrefixOf k := by
  rw [starts, h]

theorem starts_nil (h : ofId i = .ok k) : starts [] i = true := by
  rw [starts_of_ofId h, List.isPrefixOf_nil_left]

theorem starts_ofTable {source table : String} (h : ofTable source table = .ok start)
    (h' : ofId i = .ok k) : starts start i = true ↔ i.source = source ∧ i.table = table := by
  rw [starts_of_ofId h', isPrefixOf_ofParts h h']
  simp [List.cons_prefix_cons, eq_comm]

theorem starts_ofSource {source : String} (h : ofSource source = .ok start) (h' : ofId i = .ok k) :
    starts start i = true ↔ i.source = source := by
  rw [starts_of_ofId h', isPrefixOf_ofParts h h']
  simp [List.cons_prefix_cons, eq_comm]

end TableAccess.Key
