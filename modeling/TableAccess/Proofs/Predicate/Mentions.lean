import TableAccess.Proofs.Predicate.Derivation

/-!
# What a predicate mentions

The dependencies and the session variables of a compiled predicate are gathered while its document is
compiled. They can be read off the predicate alone: each node tells what it depends on, and its operands
tell the session variables.

* `Expr.dependencies`, `Expr.sessionVariables`: what a predicate mentions, node by node.
* `Predicate.Compiles.uses_eq`: **a compiled predicate uses what it mentions**, in the same order.
-/

namespace TableAccess

/-- Whether the value is a literal. -/
def Scalar.isLiteral : Scalar → Bool
  | literal _ => true
  | session _ => false

/-- Whether the value comes with the session. -/
def Scalar.isSession : Scalar → Bool
  | literal _ => false
  | session _ => true

/-- The column that a field is compared with, if it is compared with one. -/
def Operand.column? : Operand → Option String
  | column name => some name
  | _ => none

/-- Whether the values of a comparison must suit the type of the field: the test for null and the
comparison with a column ask nothing of it. -/
def Comparison.JudgesType (c : Comparison) : Prop := c.op.comparesColumns = false ∧ c.op ≠ .isNull

instance (c : Comparison) : Decidable c.JudgesType := inferInstanceAs (Decidable (_ ∧ _))

namespace Expr

/-- **Why a field with such comparisons is depended on.** -/
def reasonOf (cs : List Comparison) : Reason :=
  if ∃ c ∈ cs, c.JudgesType ∧ ∃ s ∈ c.operand.scalars, s.isLiteral = true then .typeDerived
  else if ∃ c ∈ cs, c.JudgesType ∧ ∃ s ∈ c.operand.scalars, s.isSession = true then .sessionVariable
  else .untyped

/-- What a field with its comparisons depends on: the columns it is compared with, then itself. -/
def fieldDependencies (source table : String) (field : Target) (cs : List Comparison) : List Dependency :=
  (cs.filterMap fun c => c.operand.column?).map (fun n => ⟨source, table, .column n, .typeDerived⟩) ++
    [⟨source, table, field, reasonOf cs⟩]

mutual

/-- **What a predicate on the rows of a table depends on.** -/
def dependencies (source : String) : (table : String) → Expr → List Dependency
  | table, .and parts => dependenciesOfAll source table parts
  | table, .or parts => dependenciesOfAll source table parts
  | table, .not part => dependencies source table part
  | table, .column name _ cs => fieldDependencies source table (.column name) cs
  | table, .computedField name _ cs => fieldDependencies source table (.computedField name) cs
  | table, .relationship name remoteTable part =>
    ⟨source, table, .relationship name, .untyped⟩ :: ⟨source, remoteTable, .table, .table⟩ ::
      dependencies source remoteTable part

/-- What predicates on the rows of a table depend on, one after the other. -/
def dependenciesOfAll (source : String) : (table : String) → List Expr → List Dependency
  | _, [] => []
  | table, e :: rest => dependencies source table e ++ dependenciesOfAll source table rest

end

mutual

/-- **The session variables of a predicate**, as they come. -/
def sessionVariables : Expr → List SessionVariable
  | .and parts => sessionVariablesOfAll parts
  | .or parts => sessionVariablesOfAll parts
  | .not part => sessionVariables part
  | .column _ _ cs => cs.flatMap fun c => Predicate.operandVariables c.operand
  | .computedField _ _ cs => cs.flatMap fun c => Predicate.operandVariables c.operand
  | .relationship _ _ part => sessionVariables part

/-- The session variables of predicates, one after the other. -/
def sessionVariablesOfAll : List Expr → List SessionVariable
  | [] => []
  | e :: rest => sessionVariables e ++ sessionVariablesOfAll rest

end

/-- What a predicate on the rows of a table mentions. -/
def mentions (source table : String) (e : Expr) : Uses :=
  ⟨e.dependencies source table, e.sessionVariables⟩

/-- What predicates on the rows of a table mention. -/
def mentionsOfAll (source table : String) (parts : List Expr) : Uses :=
  ⟨dependenciesOfAll source table parts, sessionVariablesOfAll parts⟩

/-- A single part of a document mentions what the conjunction of it alone does. -/
theorem mentions_conjunction (source table : String) (parts : List Expr) :
    (conjunction parts).mentions source table = mentionsOfAll source table parts := by
  match parts with
  | [] => rfl
  | [e] =>
    rw [conjunction, mentions, mentionsOfAll, dependenciesOfAll, dependenciesOfAll, sessionVariablesOfAll,
      sessionVariablesOfAll, List.append_nil, List.append_nil]
  | _ :: _ :: _ => rfl

end Expr

namespace Predicate

variable {σ : Schema} {source table : String} {t : ColumnType}

/-- A value that a field stands beside, of the kind that `p` tells. -/
theorem any_beside {cs : List Comparison} {p : Scalar → Bool} :
    ((cs.filter fun c => !c.op.comparesColumns && c.op != .isNull).flatMap
      fun c => c.operand.scalars).any p = true ↔
      ∃ c ∈ cs, c.JudgesType ∧ ∃ s ∈ c.operand.scalars, p s = true := by
  simp only [List.any_eq_true, List.mem_flatMap, List.mem_filter, Bool.and_eq_true, Bool.not_eq_true',
    bne_iff_ne, Comparison.JudgesType]
  constructor
  · rintro ⟨s, ⟨c, ⟨hc, hop⟩, hs⟩, hp⟩
    exact ⟨c, hc, hop, s, hs, hp⟩
  · rintro ⟨c, hc, hop, s, hs, hp⟩
    exact ⟨s, ⟨c, ⟨hc, hop⟩, hs⟩, hp⟩

/-- **The reason that is recorded of a field** is told by its comparisons. -/
theorem reason_eq (cs : List Comparison) : reason cs = Expr.reasonOf cs := by
  refine if_congr ?_ rfl (if_congr ?_ rfl rfl)
  · rw [← any_beside]
    exact iff_of_eq (congrArg (fun p => List.any _ p = true) (funext fun s => by cases s <;> rfl))
  · rw [← any_beside]
    exact iff_of_eq (congrArg (fun p => List.any _ p = true) (funext fun s => by cases s <;> rfl))

theorem fieldUses_eq (target : Target) (cs : List Comparison) : fieldUses source table target cs =
    ⟨Expr.fieldDependencies source table target cs, cs.flatMap fun c => operandVariables c.operand⟩ := by
  rw [fieldUses, Expr.fieldDependencies, reason_eq, List.map_filterMap]
  refine congrArg (fun l => Uses.mk (l ++ _) _) (List.filterMap_congr fun c _ => ?_)
  cases c.operand <;> rfl

/-! ## Documents -/

mutual

/-- **A compiled predicate uses what it mentions.** -/
theorem Compiles.uses_eq {table : String} {doc : Json} {p : CompiledPredicate} :
    Compiles σ source table doc p → p.uses = p.expr.mentions source table
  | .object hps => by
    rw [Expr.mentions_conjunction]
    exact CompilesEntries.usesOf_eq hps

theorem CompilesEntry.uses_eq {table : String} {entry : String × Json} {p : CompiledPredicate} :
    CompilesEntry σ source table entry p → p.uses = p.expr.mentions source table
  | .and hps => CompilesItems.usesOf_eq hps
  | .or hps => CompilesItems.usesOf_eq hps
  | .not hp => (Compiles.uses_eq hp :)
  | .column _ _ _ => fieldUses_eq _ _
  | .computedField _ _ _ => fieldUses_eq _ _
  | .relationship _ _ hp => by
    -- what the related rows mention comes behind the step to their table
    rw [Compiles.uses_eq hp]
    rfl

theorem CompilesEntries.usesOf_eq {table : String} {entries : List (String × Json)}
    {ps : List CompiledPredicate} : CompilesEntries σ source table entries ps →
      usesOf ps = Expr.mentionsOfAll source table (ps.map (·.expr))
  | .nil => rfl
  | .cons hp hps => by
    show _ ++ usesOf _ = _
    rw [CompilesEntry.uses_eq hp, CompilesEntries.usesOf_eq hps]
    rfl

theorem CompilesItems.usesOf_eq {table : String} {items : List Json} {ps : List CompiledPredicate} :
    CompilesItems σ source table items ps →
      usesOf ps = Expr.mentionsOfAll source table (ps.map (·.expr))
  | .nil => rfl
  | .cons hp hps => by
    show _ ++ usesOf _ = _
    rw [Compiles.uses_eq hp, CompilesItems.usesOf_eq hps]
    rfl

end

end Predicate

end TableAccess
