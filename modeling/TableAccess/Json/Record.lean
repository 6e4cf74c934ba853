import TableAccess.Json.Reader

/-!
# Reading records

A record is read from an object by the names of its fields, or from an array by their order. Its
description says for every field its name, how it is read, and what stands for it when it is
absent; descriptions are combined as the values they make are.

Entries are read as they come, and a name that is unknown or comes twice is reported where it
stands. Absent fields are reported last, in the order of the description.

* `read_object`: an object whose entries fit the fields is read by them, in whatever order they stand.
-/

namespace TableAccess

/-- A field of a record. -/
structure Field where
  name : String
  /-- Other names under which the field may come. -/
  aliases : List String
  /-- Whether the field may be left off the end of an array. -/
  optional : Bool
  /-- The problem of a document that stands for the field. -/
  check : Supply → Document → Except ReadError Unit

/-- How a record of type `α` is read. -/
structure Record (α : Type) where
  fields : List Field
  /-- Makes the record of the documents found for its fields. -/
  build : Supply → (String → Option Document) → Except ReadError α

namespace Record

variable {α β : Type}

/-- A record without fields. -/
def pure (a : α) : Record α := ⟨[], fun _ _ => .ok a⟩

/-- A record with the fields of both. -/
def seq (f : Record (α → β)) (r : Record α) : Record β where
  fields := f.fields ++ r.fields
  build s look := do
    let g ← f.build s look
    return g (← r.build s look)

instance : Applicative Record where
  pure := Record.pure
  seq f r := f.seq (r ())

/-- A field that must be there. -/
def required (name : String) (r : Reader α) (aliases : List String) : Record α where
  fields := [⟨name, aliases, false, fun s d => (r s d).map fun _ => ()⟩]
  build s look :=
    match look name with
    | some d => r s d
    | none => .error (.missingField name)

/-- A field with a value that stands for it when it is absent. -/
def withDefault (name : String) (r : Reader α) (absent : α) : Record α where
  fields := [⟨name, [], true, fun s d => (r s d).map fun _ => ()⟩]
  build s look :=
    match look name with
    | some d => r s d
    | none => .ok absent

/-- A field that is absent, null, or what `r` reads. -/
def maybe (name : String) (r : Reader α) : Record (Option α) := withDefault name r.orNull none

/-- A field that in an object is absent, null, or what `r` reads, and in an array must be there. -/
def nullable (name : String) (r : Reader α) : Record (Option α) where
  fields := [⟨name, [], false, fun s d => (r.orNull s d).map fun _ => ()⟩]
  build s look :=
    match look name with
    | some d => r.orNull s d
    | none => .ok none

/-- The names of the fields in order, aliases behind the name they stand for. -/
def names (fields : List Field) : List String := fields.flatMap fun f => f.name :: f.aliases

/-- The documents that entries give for the fields, by the name of the field, added to `found`.
If the record is `closed`, a name that no field has is an error, else its document is passed over. -/
def collect (fields : List Field) (closed : Bool) (s : Supply) (found : List (String × Document)) :
    List (String × Document) → Except ReadError (List (String × Document))
  | [] => .ok found
  | (k, d) :: rest =>
    match fields.find? fun f => f.name == k || f.aliases.contains k with
    | some f =>
      -- The name is judged before the document under it is looked at.
      if found.any fun e => e.1 == f.name then .error (.duplicateField f.name)
      else do
        f.check s d
        collect fields closed s ((f.name, d) :: found) rest
    | none =>
      if closed then .error (.unknownField k (names fields))
      else do
        Reader.skip d
        collect fields closed s found rest

/-- The documents that the items of an array give for the fields in turn. -/
def assign (s : Supply) : List Field → List Document → Except ReadError (List (String × Document))
  | [], [] => .ok []
  | [], _ :: _ => .error .malformed
  | f :: fields, [] => if f.optional then assign s fields [] else .error .mismatch
  | f :: fields, d :: rest => do
    f.check s d
    return (f.name, d) :: (← assign s fields rest)

/-- Reads a record from an object, or from an array. -/
def read (r : Record α) (closed : Bool) : Reader α
  | s, .obj entries cut => do
    let found ← collect r.fields closed s [] entries
    -- A text that ends early is worse than a field that is missing.
    if cut.isSome then .error .malformed else r.build s fun name => List.lookup name found
  | s, .arr items => do
    let found ← assign s r.fields items
    r.build s fun name => List.lookup name found
  | _, d => Reader.refuse d

/-- Reads a record whose names are all known. -/
def strict (r : Record α) : Reader α := r.read true

/-- Reads a record and passes over names it does not know. -/
def lenient (r : Record α) : Reader α := r.read false

/-! ## Objects -/

/-- Whether an entry has the name of a field, and a document that the field takes. -/
def Fits (fields : List Field) (s : Supply) (e : String × Document) : Prop :=
  ∃ f, (fields.find? fun f => f.name == e.1 || f.aliases.contains e.1) = some f ∧ f.name = e.1 ∧
    f.check s e.2 = .ok ()

theorem collect_of_fits {fields : List Field} (closed : Bool) {s : Supply}
    (found : List (String × Document)) {entries : List (String × Document)}
    (hf : ∀ e ∈ entries, Fits fields s e)
    (hn : ((entries.reverse ++ found).map (·.1)).Nodup) :
    collect fields closed s found entries = .ok (entries.reverse ++ found) := by
  induction entries generalizing found with
  | nil => rfl
  | cons e rest ih =>
    obtain ⟨k, d⟩ := e
    obtain ⟨f, hfind, rfl, hcheck⟩ := hf (k, d) List.mem_cons_self
    have hnew : found.any (fun e => e.1 == f.name) = false := by
      rw [List.any_eq_false]
      intro e he heq
      rw [List.reverse_cons, List.append_assoc, List.map_append, List.nodup_append] at hn
      have := (List.nodup_append.1 (List.map_append ▸ hn.2.1)).2.2 f.name (by simp) e.1
        (List.mem_map_of_mem he)
      exact this (beq_iff_eq.1 heq).symm
    rw [List.reverse_cons, List.append_assoc] at hn ⊢
    simp only [collect, hfind, hnew, Bool.false_eq_true, if_false]
    rw [hcheck]
    exact ih ((f.name, d) :: found) (fun e he => hf e (List.mem_cons_of_mem _ he)) hn

theorem lookup_reverse {l : List (String × Document)} (hn : (l.map (·.1)).Nodup) (k : String) :
    l.reverse.lookup k = l.lookup k := by
  induction l with
  | nil => rfl
  | cons e rest ih =>
    obtain ⟨j, d⟩ := e
    obtain ⟨hj, hrest⟩ := List.nodup_cons.1 hn
    rw [List.reverse_cons, List.lookup_append, ih hrest, List.lookup_cons]
    by_cases h : k = j
    · subst h
      have : rest.lookup k = none := by
        rw [List.lookup_eq_none_iff]
        intro e he
        exact bne_iff_ne.2 fun heq => hj (List.mem_map.2 ⟨e, he, heq.symm⟩)
      simp [this]
    · have : (k == j) = false := by simpa using h
      simp [this, List.lookup_cons]

/-- **An object whose entries fit is read by its fields**, in whatever order they stand. -/
theorem read_object (r : Record α) (closed : Bool) {s : Supply}
    {entries : List (String × Document)} (hf : ∀ e ∈ entries, Fits r.fields s e)
    (hn : (entries.map (·.1)).Nodup) :
    r.read closed s (.obj entries none) = r.build s fun name => entries.lookup name := by
  have hc : collect r.fields closed s [] entries = .ok entries.reverse := by
    have := collect_of_fits closed [] hf (by
      rw [List.append_nil, List.map_reverse]
      exact (List.reverse_perm _).nodup_iff.2 hn)
    rwa [List.append_nil] at this
  simp only [read, hc]
  refine congrArg (r.build s) (funext fun name => ?_)
  exact lookup_reverse hn name

end Record

end TableAccess
