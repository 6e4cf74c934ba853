import TableAccess.Command.Basic

/-!
# Scripts

A document is a single command or a list of documents. A list is run in order and stops at the
first command that fails; what the commands before it did stays.
-/

namespace TableAccess

/-- A command document with its lists of commands laid open. -/
inductive Script where
  /-- A document that is not a list of commands. -/
  | single (doc : Json)
  | bulk (scripts : List Script)

namespace Script

/-- The arguments of a document, where they are an array. -/
def itemsOf : Json → List Json
  | .obj entries =>
    match entries.lookup "args" with
    | some (.arr items) => items
    | _ => []
  | .arr [_, .arr items] => items
  | _ => []

theorem sizeOf_of_lookup {entries : List (String × Json)} {k : String} {j : Json}
    (h : entries.lookup k = some j) : sizeOf j < sizeOf entries := by
  induction entries with
  | nil => cases h
  | cons e rest ih =>
    obtain ⟨k', j'⟩ := e
    rw [List.lookup_cons] at h
    simp only [List.cons.sizeOf_spec, Prod.mk.sizeOf_spec]
    split at h
    · obtain rfl := Option.some.inj h
      omega
    · have := ih h
      omega

theorem sizeOf_of_mem_itemsOf {doc j : Json} (h : j ∈ itemsOf doc) : sizeOf j < sizeOf doc := by
  unfold itemsOf at h
  split at h
  next entries =>
    split at h
    next items he =>
      have h1 := sizeOf_of_lookup he
      have h2 := List.sizeOf_lt_of_mem h
      simp only [Json.arr.sizeOf_spec, Json.obj.sizeOf_spec] at h1 ⊢
      omega
    next => cases h
  next items =>
    have h2 := List.sizeOf_lt_of_mem h
    simp only [Json.arr.sizeOf_spec, List.cons.sizeOf_spec] at h2 ⊢
    omega
  next => cases h

/-- Whether a document is a list of commands. -/
def isList (doc : Json) : Bool :=
  match CommandDocument.reader.ofJson doc with
  | .ok d => d.isBulk && (d.args matches .arr _)
  | .error _ => false

/-- Lays a document open. -/
def ofJson (doc : Json) : Script :=
  if isList doc then .bulk ((itemsOf doc).attach.map fun j => ofJson j.1) else .single doc
termination_by sizeOf doc
decreasing_by exact sizeOf_of_mem_itemsOf j.2

/-- The place of a command in a list. -/
def place (n : Nat) : String := "args[" ++ String.ofList (Number.natChars n) ++ "]"

variable {γ : Type} [SchemaCache γ] [Engine]

mutual

/-- **Runs a script**; the reply to a list is the list of replies. -/
def run : Script → Operation γ Json
  | .single doc => do (← Operation.ofExcept (Command.read doc)).run
  | .bulk scripts => do return .arr (← runAll 0 scripts)

/-- Runs scripts in order, the first one at place `n` of a list. -/
def runAll (n : Nat) : List Script → Operation γ (List Json)
  | [] => return []
  | s :: rest => do
    let r ← Operation.within (place n) (run s)
    return r :: (← runAll (n + 1) rest)

end

end Script

/-- **Runs a command document.** -/
def runCommand {γ : Type} [SchemaCache γ] [Engine] (doc : Json) : Operation γ Json :=
  (Script.ofJson doc).run

end TableAccess
