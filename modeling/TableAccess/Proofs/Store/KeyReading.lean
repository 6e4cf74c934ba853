import TableAccess.Proofs.FirstFault
import TableAccess.Proofs.Store.Key

/-!
# Keys are read as they are written

Bytes can be read as a key only if they are the key of the names that are read, since a length in front
takes up one byte and so tells of no name that is too long. Reading and writing keys are therefore inverse
to each other, in both directions, and there is no second key for the same names.

* `parts?_eq_some_iff`: **bytes are read as names exactly if they are the key of these names.**
* `ofParts_eq_error_iff`: names have no key exactly if one is too long, and the first such name is reported.
* `id?_eq_some_iff`: the same of the keys of permissions.
* `reading_inverts_writing`: all of it.
-/

namespace TableAccess.Key

variable {l : List String} {k : Key} {s : String} {i : PermissionId}

/-! ## From bytes to names -/

/-- Bytes that a name can be read from are the bytes of this name. -/
theorem bytes_of_name? {b : List UInt8} (h : name? b = some s) : bytes s = b := by
  unfold name? String.fromUTF8? at h
  split at h
  next hvalid =>
    obtain rfl := Option.some.inj h
    rfl
  next => cases h

/-- A name that is read behind its length is written as it stood there. -/
theorem part_of_name? {n : UInt8} {rest : List UInt8} (hn : n.toNat ≤ rest.length)
    (hs : name? (rest.take n.toNat) = some s) : NameFits s ∧ part s ++ rest.drop n.toNat = n :: rest := by
  have hbytes := bytes_of_name? hs
  have hlength : (bytes s).length = n.toNat := by rw [hbytes, List.length_take_of_le hn]
  refine ⟨?_, ?_⟩
  · rw [NameFits, hlength]
    exact Nat.le_of_lt_succ n.toNat_lt
  · rw [part, hlength, UInt8.ofNat_toNat, hbytes, List.cons_append, List.take_append_drop]

/-- **Bytes that are read as names are the names' parts, one behind the other.** -/
theorem eq_flatMap_of_parts? (h : parts? k = some l) : (∀ s ∈ l, NameFits s) ∧ k = l.flatMap part := by
  -- the recursion is on what is left of the bytes behind each name
  fun_induction parts? k generalizing l with
  | case1 =>
    obtain rfl := Option.some.inj h
    exact ⟨List.forall_mem_nil _, rfl⟩
  | case2 => cases h
  | case3 n rest hn ih =>
    obtain ⟨s, hs, h⟩ := Option.bind_eq_some_iff.1 h
    obtain ⟨names, hnames, h⟩ := Option.bind_eq_some_iff.1 h
    obtain rfl := Option.some.inj h
    obtain ⟨hfits, hrest⟩ := ih hnames
    obtain ⟨hsfits, hpart⟩ := part_of_name? (Nat.le_of_not_lt hn) hs
    refine ⟨List.forall_mem_cons.2 ⟨hsfits, hfits⟩, ?_⟩
    rw [List.flatMap_cons, ← hrest, hpart]

/-- **Bytes are read as names exactly if they are the key of these names.** -/
theorem parts?_eq_some_iff : parts? k = some l ↔ ofParts l = .ok k :=
  ⟨fun h => ofParts_eq_ok.2 (eq_flatMap_of_parts? h), parts?_ofParts⟩

/-! ## Names without a key -/

/-- The failure that reports a name which is too long. -/
def tooLong (s : String) : Failure := ⟨[], .validation (.longName maxPart s)⟩

/-- What the failure says. -/
theorem message?_tooLong (s : String) :
    (tooLong s).message? = some ("validation failed: name longer than 255 bytes: " ++ Text.quoted s) := by
  have hlimit : "validation failed: " ++ ("name longer than " ++ String.ofList (Number.natChars maxPart) ++
      " bytes: ") = "validation failed: name longer than 255 bytes: " := by
    decide +kernel
  show some ("validation failed: " ++ ("name longer than " ++ String.ofList (Number.natChars maxPart) ++
    " bytes: " ++ Text.quoted s)) = _
  rw [← String.append_assoc, hlimit]

/-- Names have no key for the first of them that is too long. -/
theorem fault?_ofParts (l : List String) : fault? (ofParts l) =
    l.findSome? fun s => if (bytes s).length > maxPart then some (tooLong s) else none := by
  induction l with
  | nil => rfl
  | cons s rest ih =>
    rw [ofParts, List.findSome?_cons]
    split
    next => rfl
    next => rw [fault?_map, ih]

/-- **Names have no key exactly if one of them is too long**, and the first such name is reported. -/
theorem ofParts_eq_error_iff {f : Failure} : ofParts l = .error f ↔ ∃ before s after,
    l = before ++ s :: after ∧ (∀ t ∈ before, NameFits t) ∧ ¬ NameFits s ∧ f = tooLong s := by
  rw [← fault?_eq_some, fault?_ofParts, findSome?_eq_some_iff_of (P := NameFits)]
  · simp [NameFits, eq_comm]
  · simp [NameFits]

/-- Names that fit have a key, since the name of a kind fits. -/
theorem exists_ofId (h : ∀ name ∈ [i.source, i.table, i.role], NameFits name) : ∃ k, ofId i = .ok k := by
  have hkind : NameFits i.kind.name := by
    unfold NameFits
    cases i.kind <;> decide +kernel
  simp only [List.forall_mem_cons] at h
  refine ⟨_, ofParts_eq_ok.2 ⟨?_, rfl⟩⟩
  simp only [List.forall_mem_cons]
  exact ⟨h.1, h.2.1, hkind, h.2.2⟩

/-! ## Permissions -/

/-- **Bytes are read as a permission exactly if they are its key.** -/
theorem id?_eq_some_iff : id? k = some i ↔ ofId i = .ok k := by
  refine ⟨fun h => ?_, id?_ofId⟩
  unfold id? at h
  obtain ⟨names, hnames, h⟩ := Option.bind_eq_some_iff.1 h
  have hk := parts?_eq_some_iff.1 hnames
  -- only four names are read as a permission
  split at h
  next source table kind role =>
    obtain ⟨kd, hkind, h⟩ := Option.bind_eq_some_iff.1 h
    obtain rfl := Option.some.inj h
    unfold Kind.ofName? at hkind
    have hname := List.find?_some hkind
    rwa [ofId, eq_of_beq hname]
  next => cases h

/-- **Reading and writing keys are inverse to each other.** Names that fit have a key, and it is read as
these names; bytes that are read as names are their key, and the names fit. Names have no key exactly if one
of them is too long, and the failure tells the first one. So the key of a permission is read as the
permission, bytes that are read as a permission are its key, and no two permissions share a key. -/
theorem reading_inverts_writing :
    (∀ l : List String, (∀ s ∈ l, NameFits s) → ∃ k, ofParts l = .ok k ∧ parts? k = some l) ∧
    (∀ k l, parts? k = some l → (∀ s ∈ l, NameFits s) ∧ ofParts l = .ok k) ∧
    (∀ l f, ofParts l = .error f ↔ ∃ before s after, l = before ++ s :: after ∧
      (∀ t ∈ before, NameFits t) ∧ ¬ NameFits s ∧ f = tooLong s) ∧
    (∀ s, (tooLong s).code = .validationFailed ∧ (tooLong s).message? =
      some ("validation failed: name longer than 255 bytes: " ++ Text.quoted s)) ∧
    (∀ i : PermissionId, (∀ name ∈ [i.source, i.table, i.role], NameFits name) →
      ∃ k, ofId i = .ok k ∧ id? k = some i) ∧
    (∀ k i, id? k = some i → ofId i = .ok k) ∧
    ∀ i j k, ofId i = .ok k → ofId j = .ok k → i = j := by
  refine ⟨fun l hl => ?_, fun k l h => ⟨(eq_flatMap_of_parts? h).1, parts?_eq_some_iff.1 h⟩,
    fun l f => ofParts_eq_error_iff, fun s => ⟨rfl, message?_tooLong s⟩, fun i hi => ?_,
    fun k i => id?_eq_some_iff.1, fun i j k => ofId_injective⟩
  · have hk := ofParts_eq_ok.2 ⟨hl, rfl⟩
    exact ⟨_, hk, parts?_ofParts hk⟩
  · obtain ⟨k, hk⟩ := exists_ofId hi
    exact ⟨k, hk, id?_ofId hk⟩

/-- The names of a permission on authors fit, and a role whose name has 256 letters is told. -/
theorem reading_inverts_writing_authors :
    let i : PermissionId := ⟨"default", "author", "user", .delete⟩
    let names := ["default", "author", "delete", "user"]
    let role := String.ofList (List.replicate 256 'r')
    (∀ s ∈ names, NameFits s) ∧ ¬ NameFits role ∧ (∃ k, ofParts names = .ok k ∧ parts? k = some names) ∧
      (∃ k, ofId i = .ok k ∧ id? k = some i) ∧ ofParts ["default", role] = .error (tooLong role) := by
  intro i names role
  have hnames : ∀ s ∈ names, NameFits s := by
    unfold NameFits
    decide +kernel
  have hrole : ¬ NameFits role := by
    rw [NameFits, length_bytes_replicate rfl]
    decide
  have hid : ∀ name ∈ [i.source, i.table, i.role], NameFits name := by
    unfold NameFits
    decide +kernel
  obtain ⟨hwrite, -, hlong, -, hwriteId, -, -⟩ := reading_inverts_writing
  refine ⟨hnames, hrole, hwrite names hnames, hwriteId i hid,
    (hlong _ _).2 ⟨["default"], role, [], rfl, fun t ht => ?_, hrole, rfl⟩⟩
  obtain rfl := List.mem_singleton.1 ht
  exact hnames _ List.mem_cons_self

end TableAccess.Key
