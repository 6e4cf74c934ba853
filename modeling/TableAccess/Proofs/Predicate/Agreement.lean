import TableAccess.Proofs.Predicate.Derivation

/-!
# Predicates depend on nothing else

Two schemas *agree* on a dependency if its name stands for the same in both. Schemas that agree on all
that a compiled predicate depends on cannot be told apart by its document.

* `Dependency.Agrees`: agreement.
* `Predicate.Compiles.of_agrees`: **a document compiles to the same predicate** against any schema that
  agrees on the dependencies of the predicate.
-/

namespace TableAccess

/-- The name of a target, which the table itself does not have. -/
def Target.name? : Target → Option String
  | table => none
  | column n => some n
  | computedField n => some n
  | relationship n => some n

/-- **The schemas agree on a dependency**: the name in it gets the same answers from both. -/
def Dependency.Agrees (σ τ : Schema) (d : Dependency) : Prop :=
  ∀ n ∈ d.target.name?, τ.column? d.table n = σ.column? d.table n ∧
    τ.relationship? d.table n = σ.relationship? d.table n ∧
    τ.computedField? d.table n = σ.computedField? d.table n

instance (σ τ : Schema) (d : Dependency) : Decidable (d.Agrees σ τ) :=
  inferInstanceAs (Decidable (∀ n ∈ d.target.name?, _))

namespace Predicate

variable {σ τ : Schema} {source table : String}

/-- What a name stands for is among what is asked of it. -/
theorem member?_of_agrees {target : Target} {name : String} {r : Reason} (hn : target.name? = some name)
    (h : Dependency.Agrees σ τ ⟨source, table, target, r⟩) :
    τ.member? table name = σ.member? table name := by
  obtain ⟨hcolumn, hrelationship, hcomputed⟩ := h name hn
  simp only at hcolumn hrelationship hcomputed
  rw [Schema.member?, Schema.member?, hcolumn, hrelationship, hcomputed]

theorem comparisons_of_agrees {t : ColumnType} {v : Json} {cs : List Comparison} {target : Target}
    (h : comparisons σ table t v = .ok cs)
    (hd : ∀ d ∈ (fieldUses source table target cs).dependencies, d.Agrees σ τ) :
    comparisons τ table t v = .ok cs := by
  refine comparisons_of_columns h fun c hc other ho hσ => ?_
  -- a column that the field is compared with is depended on as well
  have hmem : ⟨source, table, .column other, .typeDerived⟩ ∈
      (fieldUses source table target cs).dependencies :=
    List.mem_append_left _ (List.mem_filterMap.2 ⟨c, hc, by rw [ho]⟩)
  have hcolumn : τ.column? table other = σ.column? table other := (hd _ hmem other rfl).1
  rw [hcolumn]
  exact hσ

mutual

/-- **A document compiles to the same predicate** where the schemas agree on what it depends on. -/
theorem Compiles.of_agrees {table : String} {doc : Json} {p : CompiledPredicate} :
    Compiles σ source table doc p → (∀ d ∈ p.uses.dependencies, d.Agrees σ τ) →
      Compiles τ source table doc p
  | .object hps, hd =>
    .object (CompilesEntries.of_agrees hps fun p hp d h => hd d (mem_dependencies_usesOf.2 ⟨p, hp, h⟩))

theorem CompilesEntry.of_agrees {table : String} {entry : String × Json} {p : CompiledPredicate} :
    CompilesEntry σ source table entry p → (∀ d ∈ p.uses.dependencies, d.Agrees σ τ) →
      CompilesEntry τ source table entry p
  | .and hps, hd =>
    .and (CompilesItems.of_agrees hps fun p hp d h => hd d (mem_dependencies_usesOf.2 ⟨p, hp, h⟩))
  | .or hps, hd =>
    .or (CompilesItems.of_agrees hps fun p hp d h => hd d (mem_dependencies_usesOf.2 ⟨p, hp, h⟩))
  | .not hp, hd => .not (hp.of_agrees hd)
  | .column hkey hm hcs, hd => by
    have hself := hd _ (List.mem_append_right _ (List.mem_singleton_self _))
    exact .column hkey ((member?_of_agrees rfl hself).trans hm) (comparisons_of_agrees hcs hd)
  | .computedField hkey hm hcs, hd => by
    have hself := hd _ (List.mem_append_right _ (List.mem_singleton_self _))
    exact .computedField hkey ((member?_of_agrees rfl hself).trans hm) (comparisons_of_agrees hcs hd)
  | .relationship hkey hm hp, hd => by
    have hself := hd _ (List.mem_append_left _ List.mem_cons_self)
    exact .relationship hkey ((member?_of_agrees rfl hself).trans hm)
      (hp.of_agrees fun d h => hd d (List.mem_append_right _ h))

theorem CompilesEntries.of_agrees {table : String} {entries : List (String × Json)}
    {ps : List CompiledPredicate} : CompilesEntries σ source table entries ps →
      (∀ p ∈ ps, ∀ d ∈ p.uses.dependencies, d.Agrees σ τ) → CompilesEntries τ source table entries ps
  | .nil, _ => .nil
  | .cons hp hps, hd =>
    .cons (hp.of_agrees (hd _ List.mem_cons_self))
      (hps.of_agrees fun p h => hd p (List.mem_cons_of_mem _ h))

theorem CompilesItems.of_agrees {table : String} {items : List Json} {ps : List CompiledPredicate} :
    CompilesItems σ source table items ps →
      (∀ p ∈ ps, ∀ d ∈ p.uses.dependencies, d.Agrees σ τ) → CompilesItems τ source table items ps
  | .nil, _ => .nil
  | .cons hp hps, hd =>
    .cons (hp.of_agrees (hd _ List.mem_cons_self))
      (hps.of_agrees fun p h => hd p (List.mem_cons_of_mem _ h))

end

end Predicate

end TableAccess
