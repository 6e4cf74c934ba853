import TableAccess.Json.Number
import TableAccess.Sorted.Map

/-!
# JSON values

A `Json` value lists the entries of an object in the order in which they stand. A value is
*canonical* when every object in it has its keys in strictly increasing order; `Json.canonical`
brings a value into that form, the last of several entries of one key standing for all of them.
-/

namespace TableAccess

/-- A JSON value. -/
inductive Json where
  | null
  | bool (b : Bool)
  | num (n : Number)
  | str (s : String)
  | arr (items : List Json)
  | obj (entries : List (String × Json))
deriving Inhabited, Repr

namespace Json

mutual

/-- Decides whether two values are the same. -/
def decEq : (a b : Json) → Decidable (a = b)
  | .null, .null => isTrue rfl
  | .bool a, .bool b => if h : a = b then isTrue (by rw [h]) else isFalse (by simp [h])
  | .num a, .num b => if h : a = b then isTrue (by rw [h]) else isFalse (by simp [h])
  | .str a, .str b => if h : a = b then isTrue (by rw [h]) else isFalse (by simp [h])
  | .arr a, .arr b =>
    match decEqItems a b with
    | isTrue h => isTrue (by rw [h])
    | isFalse h => isFalse (by simp [h])
  | .obj a, .obj b =>
    match decEqEntries a b with
    | isTrue h => isTrue (by rw [h])
    | isFalse h => isFalse (by simp [h])
  | .null, .bool _ | .null, .num _ | .null, .str _ | .null, .arr _ | .null, .obj _
  | .bool _, .null | .bool _, .num _ | .bool _, .str _ | .bool _, .arr _ | .bool _, .obj _
  | .num _, .null | .num _, .bool _ | .num _, .str _ | .num _, .arr _ | .num _, .obj _
  | .str _, .null | .str _, .bool _ | .str _, .num _ | .str _, .arr _ | .str _, .obj _
  | .arr _, .null | .arr _, .bool _ | .arr _, .num _ | .arr _, .str _ | .arr _, .obj _
  | .obj _, .null | .obj _, .bool _ | .obj _, .num _ | .obj _, .str _ | .obj _, .arr _ =>
    isFalse (by simp)

/-- Decides whether two lists of values are the same. -/
def decEqItems : (a b : List Json) → Decidable (a = b)
  | [], [] => isTrue rfl
  | [], _ :: _ | _ :: _, [] => isFalse (by simp)
  | a :: as, b :: bs =>
    match decEq a b, decEqItems as bs with
    | isTrue h, isTrue h' => isTrue (by rw [h, h'])
    | isFalse h, _ => isFalse (by simp [h])
    | _, isFalse h => isFalse (by simp [h])

/-- Decides whether two lists of entries are the same. -/
def decEqEntries : (a b : List (String × Json)) → Decidable (a = b)
  | [], [] => isTrue rfl
  | [], _ :: _ | _ :: _, [] => isFalse (by simp)
  | (j, a) :: as, (k, b) :: bs =>
    if hk : j = k then
      match decEq a b, decEqEntries as bs with
      | isTrue h, isTrue h' => isTrue (by rw [hk, h, h'])
      | isFalse h, _ => isFalse (by simp [h])
      | _, isFalse h => isFalse (by simp [h])
    else isFalse (by simp [hk])

end

instance : DecidableEq Json := decEq

/-- The object without entries. -/
def emptyObject : Json := .obj []

/-- An integer. -/
def int (n : Int) : Json := .num (.int n)

/-- A natural number. -/
def nat (n : Nat) : Json := .num (.int n)

/-- A list of strings. -/
def strings (l : List String) : Json := .arr (l.map .str)

/-- What `f` writes for a value that is there, and null for one that is not. -/
def orNull {α : Type} (f : α → Json) : Option α → Json
  | none => .null
  | some a => f a

/-- An entry for a value that is there, and none for one that is not. -/
def entry? {α : Type} (key : String) (f : α → Json) : Option α → List (String × Json)
  | none => []
  | some a => [(key, f a)]

/-- The value of the first entry with key `key`. -/
def get? (key : String) : Json → Option Json
  | .obj entries => entries.lookup key
  | _ => none

/-- The entries sorted by key, the last of each key. -/
def sortEntries (entries : List (String × Json)) : List (String × Json) :=
  (SortedMap.ofList entries).toList

mutual

/-- The value with the entries of every object in it sorted, the last of each key. -/
def canonical : Json → Json
  | .arr items => .arr (canonicalItems items)
  | .obj entries => .obj (sortEntries (canonicalEntries entries))
  | j => j

/-- The canonical forms of the values in a list. -/
def canonicalItems : List Json → List Json
  | [] => []
  | j :: rest => canonical j :: canonicalItems rest

/-- The entries with canonical values. -/
def canonicalEntries : List (String × Json) → List (String × Json)
  | [] => []
  | (k, j) :: rest => (k, canonical j) :: canonicalEntries rest

end

mutual

/-- Whether every object in the value has its keys in strictly increasing order. -/
def IsCanonical : Json → Prop
  | .arr items => AreCanonical items
  | .obj entries => (entries.Pairwise fun a b => compare a.1 b.1 = .lt) ∧ HaveCanonical entries
  | _ => True

/-- Whether all values in a list are canonical. -/
def AreCanonical : List Json → Prop
  | [] => True
  | j :: rest => IsCanonical j ∧ AreCanonical rest

/-- Whether all entries have canonical values. -/
def HaveCanonical : List (String × Json) → Prop
  | [] => True
  | (_, j) :: rest => IsCanonical j ∧ HaveCanonical rest

end

mutual

/-- How many arrays and objects stand inside each other at the deepest place. -/
def depth : Json → Nat
  | .arr items => depthItems items + 1
  | .obj entries => depthEntries entries + 1
  | _ => 0

/-- The greatest depth in a list of values. -/
def depthItems : List Json → Nat
  | [] => 0
  | j :: rest => max (depth j) (depthItems rest)

/-- The greatest depth among the values of entries. -/
def depthEntries : List (String × Json) → Nat
  | [] => 0
  | (_, j) :: rest => max (depth j) (depthEntries rest)

end

end Json

end TableAccess
