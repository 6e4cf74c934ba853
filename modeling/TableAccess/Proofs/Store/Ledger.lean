import Mathlib.Data.Finset.Basic
import TableAccess.Proofs.Json.Canonical
import TableAccess.Store.Transaction

/-!
# Ledgers

A *ledger* is a list of definitions in order of insertion, with a set of tracked tables. It is what a
store stands for: nothing of keys, texts and insertion numbers shows.

* `StoreOp`, `StoreEvent`: what can be done in a transaction, and what can be done to a store. Each is
  run on the store, and answered and applied on a ledger.
* `StoreOp.Admissible`: what the operations need of their keys and definitions.
* `Store.Shows`: everything that can be read from a store is read off a ledger.
-/

namespace TableAccess

/-- What a store stands for. -/
structure Ledger where
  /-- The definitions in order of insertion. -/
  entries : List (PermissionId × Definition)
  tracked : Finset (String × String)
  /-- How often a definition has been inserted since everything was cleared. -/
  inserted : Nat

namespace Ledger

/-- The ledger that nothing has been written to. -/
def empty : Ledger := ⟨[], ∅, 0⟩

/-- Whether a permission stands in the ledger. -/
def has (L : Ledger) (i : PermissionId) : Bool := (L.entries.lookup i).isSome

/-- The entries of a table. -/
def ofTable (L : Ledger) (source table : String) : List (PermissionId × Definition) :=
  L.entries.filter fun e => e.1.source = source ∧ e.1.table = table

/-- Puts a definition at the end, in the stead of one of the same identity. -/
def insert (L : Ledger) (i : PermissionId) (d : Definition) : Ledger :=
  { L with entries := (L.entries.filter fun e => e.1 != i) ++ [(i, d)], inserted := L.inserted + 1 }

/-- Takes a definition out. -/
def remove (L : Ledger) (i : PermissionId) : Ledger :=
  { L with entries := L.entries.filter fun e => e.1 != i }

/-- Changes a comment in its place. -/
def setComment (L : Ledger) (i : PermissionId) (comment : Option String) : Ledger :=
  { L with entries := L.entries.map fun e => if e.1 = i then (i, { e.2 with comment }) else e }

/-- Takes a table in. -/
def track (L : Ledger) (source table : String) : Ledger :=
  { L with tracked := Insert.insert (source, table) L.tracked }

/-- Takes a table out, and its definitions. -/
def untrack (L : Ledger) (source table : String) : Ledger :=
  { L with
    entries := L.entries.filter fun e => ¬ (e.1.source = source ∧ e.1.table = table)
    tracked := L.tracked.erase (source, table) }

end Ledger

/-- An operation of a transaction. -/
inductive StoreOp where
  | insert (i : PermissionId) (d : Definition)
  | remove (i : PermissionId)
  | setComment (i : PermissionId) (comment : Option String)
  | track (source table : String)
  | untrack (source table : String)

/-- What an operation answers. -/
inductive StoreAnswer where
  | done
  | found (b : Bool)
  | dropped (is : List PermissionId)

namespace StoreOp

/-- Does the operation in a transaction. -/
def run : StoreOp → Transaction StoreAnswer
  | insert i d => do
    Transaction.insert i d
    return .done
  | remove i => return .found (← Transaction.remove i)
  | setComment i comment => return .found (← Transaction.setComment i comment)
  | track source table => do
    Transaction.track source table
    return .done
  | untrack source table => return .dropped (← Transaction.untrack source table)

/-- Does operations one after another. -/
def runAll : List StoreOp → Transaction (List StoreAnswer)
  | [] => return []
  | op :: ops => do
    let a ← op.run
    return a :: (← runAll ops)

/-- What the operation answers on a ledger. -/
def answer (L : Ledger) : StoreOp → StoreAnswer
  | insert _ _ | track _ _ => .done
  | remove i | setComment i _ => .found (L.has i)
  | untrack source table => .dropped ((L.ofTable source table).map (·.1))

/-- What the operation makes of a ledger. -/
def apply (L : Ledger) : StoreOp → Ledger
  | insert i d => L.insert i d
  | remove i => L.remove i
  | setComment i comment => L.setComment i comment
  | track source table => L.track source table
  | untrack source table => L.untrack source table

/-- What operations answer on a ledger, one after another. -/
def answers (L : Ledger) : List StoreOp → List StoreAnswer
  | [] => []
  | op :: ops => op.answer L :: answers (op.apply L) ops

/-- What operations make of a ledger, one after another. -/
def applyAll (L : Ledger) (ops : List StoreOp) : Ledger := ops.foldl apply L

/-- Whether the operation inserts. -/
def isInsert : StoreOp → Bool
  | insert _ _ => true
  | _ => false

end StoreOp

/-- What is done to a store. -/
inductive StoreEvent where
  /-- A transaction that is kept. -/
  | commit (ops : List StoreOp)
  /-- A transaction that fails in the end. -/
  | abort (ops : List StoreOp) (f : Failure)
  /-- Everything is removed. -/
  | clear

namespace StoreEvent

/-- Does it to a store; gives the answers of the operations, or the failure of one of them. -/
def run (st : Store) : StoreEvent → Except Failure (List StoreAnswer) × Store
  | commit ops => st.transact (StoreOp.runAll ops)
  | abort ops f => ((StoreOp.runAll ops st).map (·.1),
      (st.transact (do let _ ← StoreOp.runAll ops; Transaction.abort (α := Unit) f)).2)
  | clear => (.ok [], (st.transact Transaction.clear).2)

/-- The answers on a ledger. -/
def answers (L : Ledger) : StoreEvent → List StoreAnswer
  | commit ops | abort ops _ => StoreOp.answers L ops
  | clear => []

/-- What it makes of a ledger. -/
def apply (L : Ledger) : StoreEvent → Ledger
  | commit ops => StoreOp.applyAll L ops
  | abort _ _ => L
  | clear => .empty

/-- How often has been inserted since everything was cleared, after `n` times before. -/
def countFrom (n : Nat) : StoreEvent → Nat
  | commit ops | abort ops _ => n + ops.countP StoreOp.isInsert
  | clear => 0

/-- Does several things to a store in turn. -/
def runAll (st : Store) : List StoreEvent → List (Except Failure (List StoreAnswer)) × Store
  | [] => ([], st)
  | e :: es => ((e.run st).1 :: (runAll (e.run st).2 es).1, (runAll (e.run st).2 es).2)

/-- The answers on a ledger, in turn. -/
def answersAll (L : Ledger) : List StoreEvent → List (List StoreAnswer)
  | [] => []
  | e :: es => e.answers L :: answersAll (e.apply L) es

/-- What several things make of a ledger in turn. -/
def applyAll (L : Ledger) (es : List StoreEvent) : Ledger := es.foldl apply L

end StoreEvent

/-! ## What a store shows -/

/-- **Everything that can be read from the store `st` is read off the ledger `L`**, if the names in
question have keys. -/
structure Store.Shows (st : Store) (L : Ledger) : Prop where
  ids : (L.entries.map (·.1)).Nodup
  definitions : st.definitions = .ok L.entries
  definition? : ∀ i, (∃ k, Key.ofId i = .ok k) → st.definition? i = .ok (L.entries.lookup i)
  contains : ∀ i, (∃ k, Key.ofId i = .ok k) → Transaction.contains i st = .ok (L.has i, st)
  listAll : st.list none = .ok L.entries
  list : ∀ source, (∃ k, Key.ofSource source = .ok k) →
    st.list (some source) = .ok (L.entries.filter fun e => e.1.source = source)
  tablePermissions : ∀ source table, (∃ k, Key.ofTable source table = .ok k) →
    st.tablePermissions source table =
      (L.ofTable source table).foldlM (fun t e => Store.addTo t e.2) (.empty source table)
  isTracked : ∀ source table, (∃ k, Key.ofTable source table = .ok k) →
    st.isTracked source table = .ok (decide ((source, table) ∈ L.tracked))
  trackedTables : ∀ source, (∃ k, Key.ofSource source = .ok k) →
    ∃ tables, st.trackedTables source = .ok tables ∧ tables.Nodup ∧
      ∀ table, table ∈ tables ↔ (source, table) ∈ L.tracked
  nextSeq : st.nextSeq = L.inserted + 1

/-! ## What may be done -/

/-- A key that can be made and written: its names have at most 255 bytes each, and it has at most
511. -/
def Key.Fits (k : Except Failure Key) : Prop := ∃ k', k = .ok k' ∧ k'.length ≤ Key.maxLength

/-- A definition that was read from a document, whose numbers read back. -/
def Definition.WasRead (d : Definition) : Prop :=
  ∃ s doc, Document.NumbersReadBack doc ∧ Definition.reader s doc = .ok d

/-- An operation whose keys fit. What it inserts was read, and is not nested too deeply to be read
again. -/
def StoreOp.Admissible : StoreOp → Prop
  | insert i d => Key.Fits (Key.ofId i) ∧ d.WasRead ∧
      (StoredDefinition.mk 0 d).toJson.depth ≤ Document.maxDepth
  | remove i | setComment i _ => Key.Fits (Key.ofId i)
  | track source table | untrack source table => Key.Fits (Key.ofTable source table)

/-- Something whose operations are all admissible. -/
def StoreEvent.Admissible : StoreEvent → Prop
  | commit ops | abort ops _ => ∀ op ∈ ops, op.Admissible
  | clear => True

/-- There are never `2 ^ 64 - 1` insertions since everything was cleared, if there were `n` before. -/
def StoreEvent.FewInserts (n : Nat) : List StoreEvent → Prop
  | [] => True
  | e :: es => e.countFrom n < 2 ^ 64 - 1 ∧ FewInserts (e.countFrom n) es

end TableAccess
