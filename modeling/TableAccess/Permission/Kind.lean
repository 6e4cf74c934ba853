import TableAccess.Json.Choice

/-!
# Kinds of permission
-/

namespace TableAccess

/-- What a permission allows to do with the rows of a table. -/
inductive Kind where
  | insert
  | select
  | update
  | delete
deriving DecidableEq, Repr, Inhabited

namespace Kind

/-- All kinds, in their order. -/
def all : List Kind := [insert, select, update, delete]

/-- A kind's name. -/
def name : Kind → String
  | insert => "insert"
  | select => "select"
  | update => "update"
  | delete => "delete"

/-- The place of a kind in the order of kinds. -/
def rank : Kind → Nat
  | insert => 0
  | select => 1
  | update => 2
  | delete => 3

instance : Ord Kind := ⟨fun a b => compare a.rank b.rank⟩

/-- The kind called `name`. -/
def ofName? (name : String) : Option Kind := all.find? fun k => k.name == name

theorem ofName?_name (k : Kind) : ofName? k.name = some k := by
  cases k <;> decide +kernel

theorem rank_injective {a b : Kind} (h : a.rank = b.rank) : a = b := by
  cases a <;> cases b <;> first | rfl | cases h

/-- A kind as JSON. -/
def toJson (k : Kind) : Json := .str k.name

/-- Reads a kind's name. -/
def reader : Reader Kind := .word (all.map fun k => (k.name, k))

end Kind

end TableAccess
