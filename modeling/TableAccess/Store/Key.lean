import TableAccess.Fault
import TableAccess.Permission.Id

/-!
# Keys of the store

A key is made of names, each with its length in bytes in front. So a key tells its names, the keys
that start with the key of some names are those of lists that start with these names, and keys are
ordered by the lengths of their names before their text.
-/

namespace TableAccess

/-- The bytes that a binding of the store is found by. -/
abbrev Key := List UInt8

namespace Key

/-- The greatest length of a name in a key, in bytes. -/
def maxPart : Nat := 255

/-- The greatest length of a key that can be written. -/
def maxLength : Nat := 511

/-- The bytes of a name. -/
def bytes (s : String) : List UInt8 := s.toByteArray.data.toList

/-- The name that bytes stand for. -/
def name? (l : List UInt8) : Option String := String.fromUTF8? ⟨l.toArray⟩

/-- A name with its length in front. -/
def part (s : String) : Key := UInt8.ofNat (bytes s).length :: bytes s

/-- The key of some names; the first one that is too long is reported. -/
def ofParts : List String → Except Failure Key
  | [] => .ok []
  | s :: rest =>
    if (bytes s).length > maxPart then fail (.validation (.longName maxPart s))
    else (ofParts rest).map fun k => part s ++ k

/-- The names that a key is made of. -/
def parts? (k : Key) : Option (List String) :=
  match k with
  | [] => some []
  | n :: rest =>
    -- A length that reaches beyond the end is no key.
    if rest.length < n.toNat then none
    else do
      let s ← name? (rest.take n.toNat)
      return s :: (← parts? (rest.drop n.toNat))
termination_by k.length
decreasing_by simp only [List.length_cons, List.length_drop]; omega

/-- The key of a permission. -/
def ofId (i : PermissionId) : Except Failure Key := ofParts [i.source, i.table, i.kind.name, i.role]

/-- The start of the keys of a table's permissions, which is also the key of the table. -/
def ofTable (source table : String) : Except Failure Key := ofParts [source, table]

/-- The start of the keys of a source's permissions. -/
def ofSource (source : String) : Except Failure Key := ofParts [source]

/-- The permission that a key stands for. -/
def id? (k : Key) : Option PermissionId := do
  match ← parts? k with
  | [source, table, kind, role] => return ⟨source, table, role, ← Kind.ofName? kind⟩
  | _ => none

end Key

end TableAccess
