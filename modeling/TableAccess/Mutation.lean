import TableAccess.Cache
import TableAccess.Store.Transaction

/-!
# Changing permissions

Each operation is one transaction on the store. What it writes is first shown to the cache, and it is
committed only if the cache could be rebuilt on it. Where the commit fails after that, the cache is
rebuilt on what is committed. A definition that does not compile is stored all the same and reported as
inconsistent.
-/

namespace TableAccess

/-- The store and the cache on it. -/
structure Registry (γ : Type) where
  store : Store
  cache : γ

/-- An operation that may fail, and leaves a registry behind either way. -/
abbrev Operation (γ α : Type) := ExceptT Failure (StateM (Registry γ)) α

/-- What has become of a permission: its inconsistency, if it is stored and does not compile. -/
structure Outcome where
  id : PermissionId
  inconsistent : Option Inconsistency
deriving DecidableEq

namespace Outcome

/-- The outcome that a rebuild reports for a permission. -/
def ofReport (i : PermissionId) (report : List Inconsistency) : Outcome :=
  ⟨i, report.find? fun x => x.id == i⟩

end Outcome

/-- The source that is meant where none is named. -/
def defaultSource : String := "default"

/-- The role that may do everything, and for which nothing can be defined. -/
def adminRole : String := "admin"

namespace Operation

variable {γ α : Type} [SchemaCache γ]

/-- Fails. -/
def fail (f : Failure) : Operation γ α := throw f

/-- Fails with a cause that has no path yet. -/
def failWith (f : Fault) : Operation γ α := throw ⟨[], f⟩

/-- What has been computed, or its failure. -/
def ofExcept (e : Except Failure α) : Operation γ α := fun r => (e, r)

/-- Puts `segment` in front of the path of a failure. -/
def within (segment : String) (o : Operation γ α) : Operation γ α := fun r =>
  match o r with
  | (.ok a, r) => (.ok a, r)
  | (.error f, r) => (.error (f.under segment), r)

/-- The schema of a source, which must be known. -/
def schemaOf (source : String) : Operation γ Schema := do
  match SchemaCache.schema? (← get).cache source with
  | none => failWith (.rule (.sourceNotFound source))
  | some σ => return σ

/-- Fails unless the table exists in the schema of its source. -/
def requireTable (source table : String) : Operation γ Unit := do
  let σ ← schemaOf source
  if σ.tableExists table then return () else failWith (.rule (.tableNotFound source table))

/-- Fails for a name that no permission can have as its role. -/
def checkRole (role : String) : Operation γ Unit :=
  if role.isEmpty then fail ⟨["role"], .validation .emptyRole⟩
  else if role == adminRole then fail ⟨["role"], .validation (.reservedRole role)⟩
  else return ()

/-- Runs a transaction and leaves the cache alone. -/
def commit [Engine] (t : Transaction α) : Operation γ α := fun r =>
  let (a, st) := r.store.transact t
  (a, { r with store := st })

/-- What is left by a failure behind a rebuild of the cache. If the storage is at fault the cache may have
taken in what is not kept, so it is rebuilt on the store as it was; how this second rebuild ends makes no
difference to the answer. -/
def recover (f : Failure) (r : Registry γ) : Registry γ :=
  if f.code == .storage then { r with cache := (SchemaCache.rebuild r.cache r.store.view .full).2 } else r

/-- **Writes, rebuilds the cache on what was written, and commits it**, in this order. If the commit itself
fails the cache has already seen what was written, so it is resynced with the store as it was; and so it is
if the rebuild fails for the storage's sake. -/
def apply [Engine] (invalidation : Invalidation) (write : Transaction α) :
    Operation γ (α × List Inconsistency) := fun r =>
  match write r.store with
  | .error f => (.error f, r)
  | .ok (a, pending) =>
    -- The cache sees what was written before it is committed.
    match SchemaCache.rebuild r.cache pending.view invalidation with
    | (.error f, cache) => (.error f, recover f ⟨r.store, cache⟩)
    | (.ok report, cache) =>
      match pending.commit with
      | .error f => (.error f, recover f ⟨r.store, cache⟩)
      | .ok kept => (.ok (a, report), ⟨kept, cache⟩)

/-- The failure of an operation on a permission that is not stored. -/
def notDefined (i : PermissionId) : Failure := ⟨[], .notDefined i.kind i.table i.role⟩

/-- Adds a permission. -/
def create [Engine] (source table role : String) (clause : Clause) (comment : Option String) :
    Operation γ Outcome := do
  checkRole role
  requireTable source table
  let i : PermissionId := ⟨source, table, role, clause.kind⟩
  let (_, report) ← apply (.object i) (do
    if ← Transaction.contains i then Transaction.abort ⟨[], .alreadyExists i.kind table role⟩
    else Transaction.insert i ⟨role, comment, clause⟩)
  return .ofReport i report

/-- Removes a permission. -/
def drop [Engine] (i : PermissionId) : Operation γ Outcome := do
  requireTable i.source i.table
  let _ ← apply .full (do
    if ← Transaction.remove i then return () else Transaction.abort (notDefined i))
  return ⟨i, none⟩

/-- Changes the comment of a permission. -/
def setComment [Engine] (i : PermissionId) (comment : Option String) : Operation γ Outcome := do
  requireTable i.source i.table
  let (_, report) ← apply (.comment i) (do
    if ← Transaction.setComment i comment then return () else Transaction.abort (notDefined i))
  return .ofReport i report

/-- Tracks a table. -/
def track [Engine] (source table : String) : Operation γ Unit := do
  requireTable source table
  commit (do
    if ← Transaction.isTracked source table then
      Transaction.abort ⟨[], .validation (.alreadyTracked table)⟩
    else Transaction.track source table)

/-- Stops tracking a table and removes its permissions, which are given in order of insertion. The
table need not exist any more. -/
def untrack [Engine] (source table : String) : Operation γ (List PermissionId) := do
  let _ ← schemaOf source
  let (dropped, _) ← apply .full (do
    if ← Transaction.isTracked source table then Transaction.untrack source table
    else Transaction.abort ⟨[], .rule (.tableNotFound source table)⟩)
  return dropped

end Operation

end TableAccess
