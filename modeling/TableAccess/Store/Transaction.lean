import TableAccess.Store.Basic

/-!
# Transactions

A transaction is a run of operations on a store that may fail. Only a run that succeeds, and whose store
the engine then commits, leaves its store behind; any other leaves nothing.
-/

namespace TableAccess

/-- Operations on a store that are done together or not at all. -/
abbrev Transaction (α : Type) := StateT Store (Except Failure) α

namespace Transaction

variable {α : Type}

/-- Looks at the store without changing it. -/
def look (f : Store → Except Failure α) : Transaction α := fun st => do return (← f st, st)

/-- Fails. -/
def abort (f : Failure) : Transaction α := fun _ => .error f

/-- Whether a permission is stored. -/
def contains (i : PermissionId) : Transaction Bool :=
  look fun st => do return st.permissions.contains (← Key.ofId i)

/-- The stored definition of a permission. -/
def get? (i : PermissionId) : Transaction (Option StoredDefinition) := look fun st => st.get? i

/-- A key that is to be written, which must not be too long. -/
def writable (k : Key) : Except Failure Key :=
  if k.length > Key.maxLength then fail (.storage .keySize) else .ok k

/-- Writes a stored definition. -/
def put (i : PermissionId) (d : StoredDefinition) : Transaction Unit := fun st => do
  let k ← writable (← Key.ofId i)
  return ((), { st with permissions := st.permissions.insert k d.toJson.text })

/-- Stores a definition with the next insertion number, whatever was stored there. A number that has more
than 64 bits is written like any other, but cannot be read again; fewer than `2 ^ 64 - 1` insertions need
none. -/
def insert (i : PermissionId) (d : Definition) : Transaction Unit := do
  -- The number is used up only if the definition could be written.
  let st ← get
  put i ⟨st.nextSeq, d⟩
  modify fun st => { st with nextSeq := st.nextSeq + 1 }

/-- Removes a definition; says whether there was one. -/
def remove (i : PermissionId) : Transaction Bool := fun st => do
  let k ← Key.ofId i
  return (st.permissions.contains k, { st with permissions := st.permissions.erase k })

/-- Changes the comment of a definition in its place; says whether there is one. -/
def setComment (i : PermissionId) (comment : Option String) : Transaction Bool := do
  match ← get? i with
  | none => return false
  | some d =>
    put i { d with definition := { d.definition with comment } }
    return true

/-- Removes several definitions. -/
def removeAll : List PermissionId → Transaction Unit
  | [] => return ()
  | i :: rest => do
    let _ ← remove i
    removeAll rest

/-- Whether a table is tracked. -/
def isTracked (source table : String) : Transaction Bool := look fun st => st.isTracked source table

/-- Tracks a table. -/
def track (source table : String) : Transaction Unit := fun st => do
  let k ← writable (← Key.ofTable source table)
  return ((), { st with tracked := st.tracked.insert k })

/-- Stops tracking a table and removes its permissions, which are given in order of insertion. -/
def untrack (source table : String) : Transaction (List PermissionId) := do
  let start ← look fun _ => Key.ofTable source table
  let dropped ← look fun st => do return (← st.startingWith start).map (·.1)
  removeAll dropped
  modify fun st => { st with tracked := st.tracked.erase start }
  return dropped

/-- Removes everything; insertions are numbered from one again. -/
def clear : Transaction Unit := fun _ => .ok ((), .empty)

end Transaction

/-- **The engine that keeps a store.** Whether a commit succeeds is for the engine to say: it keeps what
was written, or reports why it does not. Of what else it is asked for it refuses only keys that are too
long. -/
class Engine where
  commit : Store → Except String Unit

namespace Engine

/-- The engine that keeps whatever is written. It is the one that is meant where no other is named. -/
instance reliable : Engine := ⟨fun _ => .ok ()⟩

/-- **Every commit succeeds.** -/
def Commits [Engine] : Prop := ∀ st, commit st = .ok ()

end Engine

namespace Store

/-- Commits what was written: the store that is kept, or what the engine reports. -/
def commit [Engine] (st : Store) : Except Failure Store :=
  match Engine.commit st with
  | .ok () => .ok st
  | .error text => fail (.storage (.reported text))

/-- **Runs a transaction on a store and commits it**: its result, or the failure, with the store it
leaves. -/
def transact {α : Type} [Engine] (st : Store) (t : Transaction α) : Except Failure α × Store :=
  match t st with
  | .error f => (.error f, st)
  | .ok (a, pending) =>
    match pending.commit with
    | .error f => (.error f, st)
    | .ok kept => (.ok a, kept)

end Store

end TableAccess
