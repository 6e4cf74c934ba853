import TableAccess.Permission.Compile
import TableAccess.Store.Basic

/-!
# The cache of compiled permissions

A cache holds what the stored definitions compile to. After a change it is told what the change
invalidates and looks the definitions up again (`SchemaCache.rebuild`). `PermissionCache` keeps a
compiled permission for every definition that compiles and the broken rule for every other one,
which is *inconsistent*.
-/

namespace TableAccess

/-- What a change of definitions makes stale. -/
inductive Invalidation where
  /-- One permission was added or replaced. -/
  | object (i : PermissionId)
  /-- Anything can have changed. -/
  | full
  /-- The comment of one permission was changed. -/
  | comment (i : PermissionId)
deriving DecidableEq

/-- A stored permission that does not compile, and the rule that it breaks. -/
structure Inconsistency where
  id : PermissionId
  failure : Located RuleFault
deriving DecidableEq

namespace Inconsistency

/-- An inconsistent permission as JSON. -/
def toJson (x : Inconsistency) : Json :=
  .obj [("id", x.id.toJson), ("code", .str x.failure.cause.code.name),
    ("path", Json.orNull Json.str x.failure.path?), ("reason", .str x.failure.cause.message)]

end Inconsistency

/-- What the operations on permissions need of a cache. -/
class SchemaCache (γ : Type) where
  /-- The schema of a source that is known. -/
  schema? : γ → String → Option Schema
  /-- Looks up what was invalidated; gives the inconsistent permissions among it, or fails. -/
  rebuild : γ → View → Invalidation → Except Failure (List Inconsistency) × γ

/-- A compiled permission in the cache. -/
structure CachedPermission where
  compiled : CompiledPermission
  /-- Counts the changes that needed no compiling. It has 64 bits as long as there are fewer than `2 ^ 64`. -/
  version : Nat

/-- The permissions of known sources, compiled. -/
structure PermissionCache where
  backends : SortedMap String Schema
  entries : SortedMap PermissionId CachedPermission
  inconsistent : SortedMap PermissionId (Located RuleFault)

/-- A permission that depends on something, and why. -/
structure Dependent where
  id : PermissionId
  reason : Reason
deriving DecidableEq, Repr

/-- Dependents are ordered by permission, then by reason. -/
instance : Ord Dependent :=
  ⟨compareLex (compareOn fun d => d.id) (compareOn fun d => d.reason.rank)⟩

instance : Std.TransOrd Dependent :=
  inferInstanceAs (Std.TransCmp
    (compareLex (compareOn fun d : Dependent => d.id) (compareOn fun d : Dependent => d.reason.rank)))

namespace PermissionCache

/-- The cache that knows no source. -/
def empty : PermissionCache := ⟨.empty, .empty, .empty⟩

/-- The cache of some sources, which nothing has been compiled for. -/
def ofBackends (backends : SortedMap String Schema) : PermissionCache := ⟨backends, .empty, .empty⟩

/-- Makes a source known, or gives it another schema. Takes effect with the next rebuild. -/
def setBackend (c : PermissionCache) (source : String) (σ : Schema) : PermissionCache :=
  { c with backends := c.backends.insert source σ }

/-- The compiled permission of an identity. -/
def get? (c : PermissionCache) (i : PermissionId) : Option CachedPermission := c.entries.get? i

/-- Whether a permission is inconsistent. -/
def isInconsistent (c : PermissionCache) (i : PermissionId) : Bool := c.inconsistent.contains i

/-- The inconsistent permissions, in order. -/
def inconsistencies (c : PermissionCache) : List Inconsistency :=
  c.inconsistent.toList.map fun e => ⟨e.1, e.2⟩

/-- The inconsistency of one permission, as a list. -/
def inconsistencyOf (c : PermissionCache) (i : PermissionId) : List Inconsistency :=
  match c.inconsistent.get? i with
  | none => []
  | some f => [⟨i, f⟩]

/-- **Compiles a definition against the schema of its source**, in which its table must exist. -/
def compile (c : PermissionCache) (i : PermissionId) (d : Definition) :
    Except (Located RuleFault) CompiledPermission :=
  match c.backends.get? i.source with
  | none => fail (.sourceNotFound i.source)
  | some σ =>
    if σ.tableExists i.table then Permission.compile σ i.source i.table d.clause
    else fail (.tableNotFound i.source i.table)

/-- Forgets a permission. -/
def forget (c : PermissionCache) (i : PermissionId) : PermissionCache :=
  { c with entries := c.entries.erase i, inconsistent := c.inconsistent.erase i }

/-- Records what a definition compiles to. -/
def record (c : PermissionCache) (i : PermissionId) (d : Definition) : PermissionCache :=
  match c.compile i d with
  | .ok p =>
    { c with entries := c.entries.insert i ⟨p, 0⟩, inconsistent := c.inconsistent.erase i }
  | .error f =>
    { c with entries := c.entries.erase i, inconsistent := c.inconsistent.insert i f }

/-- Compiles the definition of a permission again, or forgets it when there is none. -/
def refresh (c : PermissionCache) (i : PermissionId) : Option Definition → PermissionCache
  | none => c.forget i
  | some d => c.record i d

/-- Compiles all definitions from scratch. -/
def refreshAll (c : PermissionCache) (ds : List (PermissionId × Definition)) : PermissionCache :=
  ds.foldl (fun c e => c.record e.1 e.2) (ofBackends c.backends)

/-- Counts a change of a permission that needs no compiling. -/
def bump (c : PermissionCache) (i : PermissionId) : PermissionCache :=
  match c.entries.get? i with
  | none => c
  | some p => { c with entries := c.entries.insert i { p with version := p.version + 1 } }

/-- Looks up what was invalidated. -/
def rebuild (c : PermissionCache) (view : View) :
    Invalidation → Except Failure (List Inconsistency) × PermissionCache
  | .object i =>
    match view.definition? i with
    | .error f => (.error f, c)
    | .ok d? => (.ok ((c.refresh i d?).inconsistencyOf i), c.refresh i d?)
  | .full =>
    match view.definitions with
    | .error f => (.error f, c)
    | .ok ds => (.ok (c.refreshAll ds).inconsistencies, c.refreshAll ds)
  | .comment i => (.ok ((c.bump i).inconsistencyOf i), c.bump i)

instance : SchemaCache PermissionCache where
  schema? c source := c.backends.get? source
  rebuild := rebuild

/-- **The permissions that depend on something of a table**, each reason once, in order. -/
def dependents (c : PermissionCache) (source table : String) (target : Target) : List Dependent :=
  (SortedSet.ofList (c.entries.toList.flatMap fun e =>
    (e.2.compiled.dependencies.filter fun d =>
      d.source == source && d.table == table && d.target == target).map fun d =>
        ⟨e.1, d.reason⟩)).toList

end PermissionCache

end TableAccess
