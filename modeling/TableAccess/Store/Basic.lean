import TableAccess.Permission.Definition
import TableAccess.Permission.TablePermissions
import TableAccess.Sorted.Set
import TableAccess.Store.Key

/-!
# The store

The store keeps definitions as JSON text by key, the tables that are tracked, and the number of the
next insertion. Definitions are listed by their insertion numbers.
-/

namespace TableAccess

/-- What is kept of permissions between runs. -/
structure Store where
  /-- Stored definitions as text. -/
  permissions : SortedMap Key String
  /-- The keys of tracked tables. -/
  tracked : SortedSet Key
  /-- The number of the next insertion. It has 64 bits as long as there are fewer than `2 ^ 64 - 1`
  insertions, and that is how many there may be. -/
  nextSeq : Nat
deriving DecidableEq

/-- What a cache gets to see of definitions. -/
structure View where
  definition? : PermissionId → Except Failure (Option Definition)
  /-- All definitions, in order of insertion. -/
  definitions : Except Failure (List (PermissionId × Definition))

namespace Store

/-- The store that nothing has been written to. -/
def empty : Store := ⟨.empty, .empty, 1⟩

instance : Inhabited Store := ⟨empty⟩

/-- The stored definition that a text holds. -/
def decode (text : String) : Except Failure StoredDefinition :=
  orUnreadable (StoredDefinition.reader.ofText text)

/-- The stored definition of a permission. -/
def get? (st : Store) (i : PermissionId) : Except Failure (Option StoredDefinition) := do
  match st.permissions.get? (← Key.ofId i) with
  | none => return none
  | some text => return some (← decode text)

/-- What a binding of the store says. -/
def entry (e : Key × String) : Except Failure (PermissionId × StoredDefinition) := do
  match Key.id? e.1 with
  | none => fail (.storage (.malformedKey e.1))
  | some i => return (i, ← decode e.2)

/-- The stored definitions whose keys start with `start`, in order of insertion. -/
def startingWith (st : Store) (start : Key) :
    Except Failure (List (PermissionId × StoredDefinition)) := do
  let found ← (st.permissions.toList.filter fun e => start.isPrefixOf e.1).mapM entry
  return found.mergeSort fun a b => a.2.seq ≤ b.2.seq

/-- All stored definitions, in order of insertion. -/
def definitions (st : Store) : Except Failure (List (PermissionId × Definition)) := do
  return (← st.startingWith []).map fun e => (e.1, e.2.definition)

/-- The definition of a permission. -/
def definition? (st : Store) (i : PermissionId) : Except Failure (Option Definition) := do
  return (← st.get? i).map (·.definition)

/-- What a cache gets to see of the store. -/
def view (st : Store) : View := ⟨st.definition?, st.definitions⟩

/-- Whether a table is tracked. -/
def isTracked (st : Store) (source table : String) : Except Failure Bool := do
  return st.tracked.contains (← Key.ofTable source table)

/-- The tracked tables of a source: shorter names first, then by their bytes. -/
def trackedTables (st : Store) (source : String) : Except Failure (List String) := do
  let start ← Key.ofSource source
  return (st.tracked.toList.filter fun k => start.isPrefixOf k).filterMap fun k =>
    match Key.parts? k with
    | some [_, table] => some table
    | _ => none

/-- The permissions of a source, or of all sources, in order of insertion. -/
def list (st : Store) (source : Option String) :
    Except Failure (List (PermissionId × Definition)) := do
  let start ← match source with
    | none => pure []
    | some s => Key.ofSource s
  return (← st.startingWith start).map fun e => (e.1, e.2.definition)

/-- Adds a definition to those of a table. -/
def addTo (t : TablePermissions) (d : Definition) : Except Failure TablePermissions :=
  match t.add? d with
  | some t => .ok t
  | none => fail (.storage (.duplicate d.kind d.role))

/-- The permissions of a table, in order of insertion for each kind. -/
def tablePermissions (st : Store) (source table : String) : Except Failure TablePermissions := do
  let found ← st.startingWith (← Key.ofTable source table)
  found.foldlM (fun t e => addTo t e.2.definition) (.empty source table)

end Store

end TableAccess
