import TableAccess.Proofs.FirstFault
import TableAccess.Proofs.Predicate.Derivation

/-!
# How a predicate is refused

Whatever is wrong with a document, it is refused with a fault of the document: no other rule of permissions
is looked at while a predicate compiles.

* `Predicate.OfPredicate`: faults of documents. `failsWith_compile`: **compiling fails with nothing else.**
-/

namespace TableAccess

namespace Predicate

variable {σ : Schema} {source table : String} {t : ColumnType}

/-- The fault is one of a predicate. -/
def OfPredicate (f : Located RuleFault) : Prop := ∃ fault, f.cause = .predicate fault

theorem OfPredicate.under (s : String) (f : Located RuleFault) (h : OfPredicate f) :
    OfPredicate (f.under s) := h

theorem failsWith_reject {α : Type} (fault : PredicateFault) :
    FailsWith OfPredicate (reject fault : Except _ α) := .error ⟨fault, rfl⟩

theorem failsWith_scalar (v : Json) : FailsWith OfPredicate (scalar t v) := by
  rw [scalar_eq]
  cases v.reference? with
  | some x => exact .ok _
  | none => exact .ite (.ok _) (failsWith_reject _)

theorem failsWith_operand (op : Operator) (v : Json) : FailsWith OfPredicate (operand σ table t op v) := by
  unfold operand
  refine .ite ?columns ?values
  case columns =>
    cases v with
    | str other => exact .ite (.ok _) (failsWith_reject _)
    | _ => exact failsWith_reject _
  case values =>
    cases op with
    | isNull =>
      cases v with
      | bool => exact .ok _
      | _ => exact failsWith_reject _
    | oneOf | noneOf =>
      cases v with
      | arr items => exact (FailsWith.mapM fun v _ => failsWith_scalar v).map _
      | str s =>
        dsimp only
        cases SessionVariable.ofReference? s with
        | some x => exact .ok _
        | none => exact failsWith_reject _
      | _ => exact failsWith_reject _
    | _ => exact .ite (failsWith_reject _) ((failsWith_scalar v).map _)

theorem failsWith_comparisons (v : Json) : FailsWith OfPredicate (comparisons σ table t v) := by
  cases v with
  | obj entries =>
    refine FailsWith.mapM fun entry _ => ?_
    unfold comparison
    split
    · exact failsWith_reject _
    · exact ((failsWith_operand _ _).within OfPredicate.under _).map _
  | _ => exact failsWith_reject _

theorem failsWith_compileEntry_of (key : String) {v : Json}
    (hv : ∀ table, FailsWith OfPredicate (compile σ source table v))
    (hlist : ∀ table, FailsWith OfPredicate (compileList σ source table v)) :
    FailsWith OfPredicate (compileEntry σ source table key v) := by
  unfold compileEntry
  split
  · exact (hlist table).map _
  split
  · exact (hlist table).map _
  split
  · exact (hv table).map _
  split
  · exact (failsWith_comparisons v).bind fun _ => .ok _
  · exact (hv _).map _
  next returns _ =>
    cases returns with
    | scalar t => exact (failsWith_comparisons v).bind fun _ => .ok _
    | rows => exact failsWith_reject _
  · exact failsWith_reject _

mutual

/-- **Compiling a document fails with a fault of the document.** -/
theorem failsWith_compile : (doc : Json) → ∀ table, FailsWith OfPredicate (compile σ source table doc)
  | .obj entries, table => by
    rw [compile]
    exact (failsWith_compileEntries entries table).map _
  | .null, _ | .bool _, _ | .num _, _ | .str _, _ | .arr _, _ => failsWith_reject _

theorem failsWith_compileEntries : (entries : List (String × Json)) →
    ∀ table, FailsWith OfPredicate (compileEntries σ source table entries)
  | [], _ => .ok _
  | (key, v) :: rest, table => by
    rw [compileEntries]
    have hentry : FailsWith OfPredicate (compileEntry σ source table key v) :=
      failsWith_compileEntry_of key (failsWith_compile v) (failsWith_compileList v)
    exact (hentry.within OfPredicate.under key).bind fun _ =>
      (failsWith_compileEntries rest table).bind fun _ => .ok _

theorem failsWith_compileList : (doc : Json) →
    ∀ table, FailsWith OfPredicate (compileList σ source table doc)
  | .arr items, table => by
    rw [compileList]
    exact failsWith_compileItems items table
  | .null, _ | .bool _, _ | .num _, _ | .str _, _ | .obj _, _ => failsWith_reject _

theorem failsWith_compileItems : (docs : List Json) →
    ∀ table, FailsWith OfPredicate (compileItems σ source table docs)
  | [], _ => .ok _
  | doc :: rest, table => by
    rw [compileItems]
    exact (failsWith_compile doc table).bind fun _ =>
      (failsWith_compileItems rest table).bind fun _ => .ok _

end

end Predicate

end TableAccess
