import TableAccess.Proofs.Permission.Parts
import TableAccess.Proofs.Predicate.Spelling
import TableAccess.Schema.Catalog

/-!
# How the integers of a clause are written

Integer columns take integers as numbers or as texts, in predicates and in presets. Of integers that have 64
bits with a sign, each may be written either way; greater ones are only taken as numbers.

* `Clause.Respelled`: clauses that differ in how integers are written.
* `Permission.integer_spellings`: **a number fits and its text fits if it has 64 bits with a sign**, and
  clauses that differ in how integers are written need the same or do not compile.
* `Permission.great_integer_has_one_spelling`: from `2 ^ 63` on the text does not fit.
-/

namespace TableAccess

/-- Presets with the integers of integer columns written as texts. -/
def Presets.spelled (σ : Schema) (table : String) (p : Presets) : Presets :=
  p.mapWithKey fun column v => if σ.column? table column = some .integer then v.spelled else v

namespace Clause

/-- **A clause with integers written as texts** where they stand for values of integer columns and fields. -/
def spelled (σ : Schema) (table : String) : Clause → Clause
  | insert c => insert { c with
      check := Predicate.spelled σ table c.check
      set := c.set.map (Presets.spelled σ table) }
  | select c => select { c with filter := Predicate.spelled σ table c.filter }
  | update c => update { c with
      set := c.set.map (Presets.spelled σ table)
      filter := Predicate.spelled σ table c.filter
      check := c.check.map (Predicate.spelled σ table) }
  | delete c => delete { c with filter := Predicate.spelled σ table c.filter }

/-- **The clauses are the same but for how integers of 64 bits with a sign are written**, as numbers or as
texts, where they stand for values of integer columns and fields. -/
def Respelled (σ : Schema) (table : String) (c c' : Clause) : Prop := c.spelled σ table = c'.spelled σ table

instance (σ : Schema) (table : String) (c c' : Clause) : Decidable (c.Respelled σ table c') :=
  inferInstanceAs (Decidable (_ = _))

end Clause

namespace Permission

variable {σ : Schema} {source table : String}

/-- What a clause that compiles depends on and the session variables it requires. -/
def needs? (σ : Schema) (source table : String) (clause : Clause) :
    Option (List Dependency × RequiredHeaders) :=
  (compile σ source table clause).toOption.map fun p => (p.dependencies, p.descriptor.requiredHeaders)

/-! ## Presets -/

/-- Presets of the same column that use the same. -/
def SamePreset (source table : String) (p q : String × Preset) : Prop :=
  presetUses source table q = presetUses source table p

theorem presetsUses_same {presets presets' : List (String × Preset)}
    (h : List.Forall₂ (SamePreset source table) presets presets') :
    presetsUses source table presets' = presetsUses source table presets := by
  induction h with
  | nil => rfl
  | cons hp _ ih => exact congrArg₂ (· ++ ·) hp ih

theorem resolvePreset_spelled (column : String) (value : Json) :
    Accord (fun p q => SamePreset source table (column, p) (column, q)) (resolvePreset σ table column value)
      (resolvePreset σ table column
        (if σ.column? table column = some .integer then value.spelled else value)) := by
  split
  next hinteger =>
    rw [resolvePreset_eq, resolvePreset_eq, columnType_eq_ok.2 hinteger, ok_bind, ok_bind,
      Json.reference?_spelled, ColumnType.fits_integer_spelled]
    cases value.reference? with
    | some v => exact .ok rfl
    | none =>
      simp only [Option.elim_none]
      split
      next => exact .ok rfl
      next => exact .error
  next => exact Accord.refl (R := fun p q => SamePreset source table (column, p) (column, q)) (fun _ => rfl) _

theorem resolvePresets_spelled (presets : Presets) : Accord (List.Forall₂ (SamePreset source table))
    (resolvePresets σ table presets) (resolvePresets σ table (presets.spelled σ table)) :=
  .mapM_map presets.toList fun p _ =>
    ((resolvePreset_spelled p.1 p.2).within p.1 p.1).map fun _ _ h => h

/-- The presets of a clause, if it has any. -/
theorem resolvePresets_getD_spelled (source : String) (set : Option Presets) :
    Accord (List.Forall₂ (SamePreset source table)) (resolvePresets σ table (set.getD .empty))
      (resolvePresets σ table ((set.map (Presets.spelled σ table)).getD .empty)) := by
  cases set with
  | none => exact .ok .nil
  | some presets => exact resolvePresets_spelled presets

/-! ## Clauses -/

/-- The permissions depend on the same, and require the same session variables. -/
structure SameNeeds (p q : CompiledPermission) : Prop where
  dependencies : q.dependencies = p.dependencies
  requiredHeaders : q.descriptor.requiredHeaders = p.descriptor.requiredHeaders

open Predicate (SameUses compile_spelled)

theorem compileInsert_spelled (c : InsertClause) : Accord SameNeeds (compileInsert σ source table c)
    (compileInsert σ source table { c with
      check := Predicate.spelled σ table c.check
      set := c.set.map (Presets.spelled σ table) }) := by
  refine ((compile_spelled c.check table).within _ _).bind fun p q hpq => ?_
  refine ((resolvePresets_getD_spelled source c.set).within _ _).bind fun presets presets' hpresets => ?_
  refine .bind_same fun columns => .ok ?_
  have huses := presetsUses_same hpresets
  constructor
  · show dependencies source table q.uses (presetsUses source table presets') _ = _
    rw [huses, hpq]
  · show SortedSet.ofList (q.uses.sessionVariables ++ (presetsUses source table presets').sessionVariables) = _
    rw [huses, hpq]
    rfl

theorem compileSelect_spelled (c : SelectClause) : Accord SameNeeds (compileSelect σ source table c)
    (compileSelect σ source table { c with filter := Predicate.spelled σ table c.filter }) := by
  refine .bind_same fun columns => ?_
  refine ((compile_spelled c.filter table).within _ _).bind fun p q hpq => ?_
  refine .bind_same fun limit => .bind_same fun fields => .bind_same fun _ => .bind_same fun _ => .ok ?_
  constructor
  · show dependencies source table q.uses _ _ = _
    rw [hpq]
  · show SortedSet.ofList q.uses.sessionVariables = _
    rw [hpq]
    rfl

theorem laterCheck_spelled (check : Option Json) : Accord (Option.Rel SameUses)
    (check.mapM fun doc => within "check" (Predicate.compile σ source table doc))
    ((check.map (Predicate.spelled σ table)).mapM fun doc =>
      within "check" (Predicate.compile σ source table doc)) :=
  .optionMapM_map check fun doc _ => (compile_spelled doc table).within _ _

theorem map_uses_same {o o' : Option CompiledPredicate} (h : Option.Rel SameUses o o') :
    o'.map (·.uses) = o.map (·.uses) := by
  cases h with
  | none => rfl
  | some hpq => exact congrArg some hpq

theorem compileUpdate_spelled (c : UpdateClause) : Accord SameNeeds (compileUpdate σ source table c)
    (compileUpdate σ source table { c with
      set := c.set.map (Presets.spelled σ table)
      filter := Predicate.spelled σ table c.filter
      check := c.check.map (Predicate.spelled σ table) }) := by
  refine .bind_same fun columns => ?_
  refine ((resolvePresets_getD_spelled source c.set).within _ _).bind fun presets presets' hpresets => ?_
  refine ((compile_spelled c.filter table).within _ _).bind fun p q hpq => ?_
  refine (laterCheck_spelled c.check).bind fun later later' hlater => .ok ?_
  have huses := presetsUses_same hpresets
  have hcheck := map_uses_same hlater
  constructor
  · show dependencies source table (q.uses ++ (later'.map (·.uses)).getD .none)
      (presetsUses source table presets') _ = _
    rw [huses, hcheck, hpq]
  · show SortedSet.ofList ((presetsUses source table presets').sessionVariables ++
      (q.uses ++ (later'.map (·.uses)).getD .none).sessionVariables) = _
    rw [huses, hcheck, hpq]
    rfl

theorem compileDelete_spelled (c : DeleteClause) : Accord SameNeeds (compileDelete σ source table c)
    (compileDelete σ source table { c with filter := Predicate.spelled σ table c.filter }) := by
  refine ((compile_spelled c.filter table).within _ _).bind fun p q hpq => .ok ?_
  constructor
  · show dependencies source table q.uses _ _ = _
    rw [hpq]
  · show SortedSet.ofList q.uses.sessionVariables = _
    rw [hpq]
    rfl

/-- **How integers are written makes no difference** to whether a clause compiles, nor to what it needs. -/
theorem compile_spelledClause (clause : Clause) :
    Accord SameNeeds (compile σ source table clause) (compile σ source table (clause.spelled σ table)) := by
  cases clause with
  | insert c => exact (compileInsert_spelled c).within _ _
  | select c => exact (compileSelect_spelled c).within _ _
  | update c => exact (compileUpdate_spelled c).within _ _
  | delete c => exact (compileDelete_spelled c).within _ _

theorem needs?_spelled (clause : Clause) :
    needs? σ source table (clause.spelled σ table) = needs? σ source table clause :=
  ((compile_spelledClause clause).toOption_map fun _ _ h =>
    congrArg₂ Prod.mk h.dependencies.symm h.requiredHeaders.symm).symm

/-- **Integers may be written as numbers or as texts.** Every integer fits an integer column as a number, and
its text fits if it has 64 bits with a sign; clauses that differ in how such integers are written compile with
the same dependencies and the same required session variables, or both do not compile. -/
theorem integer_spellings :
    (∀ n, Number.isInteger n = true → ColumnType.fits .integer (.num (.int n)) = true ∧
      (ColumnType.fits .integer (.str (Number.int n).text) = true ↔ n ≤ Number.maxInt)) ∧
    ∀ (σ : Schema) (source table : String) (c c' : Clause), c.Respelled σ table c' →
      needs? σ source table c' = needs? σ source table c := by
  constructor
  · intro n hn
    simp only [Number.isInteger, Bool.and_eq_true, decide_eq_true_eq] at hn
    exact ⟨rfl, (ColumnType.fits_integer_text n).trans (and_iff_right hn.1)⟩
  · intro σ source table c c' h
    rw [← needs?_spelled c', ← needs?_spelled c, h]

/-- The year of birth of authors, as a number in one place and as a text in another. -/
theorem integer_spellings_authors :
    let authors := (Catalog.empty.add ⟨"author", [⟨"id", .integer⟩, ⟨"born", .integer⟩], [], []⟩).schema
    let clause (id born : Json) : Clause := .insert {
      check := .obj [("id", .obj [("_in", .arr [id, .str "X-Hasura-User-Id"])])]
      set := some (.ofList [("born", born)])
      columns := none
      backendOnly := none }
    (Number.isInteger Number.maxInt = true ∧
      ColumnType.fits .integer (.str (Number.int Number.maxInt).text) = true) ∧
    (clause (.int (-7)) (.str "1900")).Respelled authors "author" (clause (.str "-7") (.int 1900)) ∧
      (needs? authors "default" "author" (clause (.int (-7)) (.str "1900"))).isSome = true ∧
      needs? authors "default" "author" (clause (.str "-7") (.int 1900)) =
        needs? authors "default" "author" (clause (.int (-7)) (.str "1900")) := by
  intro authors clause
  have hinteger : Number.isInteger Number.maxInt = true := by decide
  have hrespelled : (clause (.int (-7)) (.str "1900")).Respelled authors "author"
      (clause (.str "-7") (.int 1900)) := by decide +kernel
  exact ⟨⟨hinteger, (integer_spellings.1 _ hinteger).2.2 (Int.le_refl _)⟩, hrespelled, by decide +kernel,
    integer_spellings.2 _ _ _ _ _ hrespelled⟩

/-- **From `2 ^ 63` on an integer cannot be written as a text**: as a number it fits an integer column, and a
clause with it compiles; its text does not fit, and the clause with that does not compile. -/
theorem great_integer_has_one_spelling :
    let authors := (Catalog.empty.add ⟨"author", [⟨"id", .integer⟩], [], []⟩).schema
    let clause (id : Json) : Clause := .delete ⟨.obj [("id", .obj [("_eq", id)])]⟩
    let n : Int := 9223372036854775808
    Number.isInteger n = true ∧ (Number.int n).text = "9223372036854775808" ∧
      (ColumnType.fits .integer (.num (.int n)) = true ∧
        ColumnType.fits .integer (.str "9223372036854775808") = false) ∧
      (compile authors "default" "author" (clause (.num (.int n)))).isOk = true ∧
      (compile authors "default" "author" (clause (.str "9223372036854775808"))).isOk = false := by
  decide +kernel

end Permission

end TableAccess
