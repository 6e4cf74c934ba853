import TableAccess.Proofs.Predicate.Derivation
import TableAccess.Proofs.Schema.Retyping

/-!
# What the type of a column matters for

Where a schema is given another type for one column, a document that compiled may compile no more: if it
compares the column with a literal, which is recorded, or matches it with a pattern, which is not.

* `Dependency.TypeDerived`: what is recorded of a column. `Expr.matchesPattern`: what is not.
* `Predicate.Compiles.retyped`: **if nothing is recorded, the document still compiles exactly if no
  pattern is matched with the column or its new type is text.**
-/

namespace TableAccess

/-- The dependency records that the type of the column matters. -/
def Dependency.TypeDerived (table column : String) (d : Dependency) : Prop :=
  d.table = table ∧ d.target = .column column ∧ d.reason = .typeDerived

instance (table column : String) (d : Dependency) : Decidable (d.TypeDerived table column) :=
  inferInstanceAs (Decidable (_ ∧ _ ∧ _))

namespace Expr

variable (table column : String)

mutual

/-- **Whether a predicate on the rows of `rows` matches a pattern with the column.** -/
def matchesPattern : (rows : String) → Expr → Bool
  | rows, .and parts => anyMatchesPattern rows parts
  | rows, .or parts => anyMatchesPattern rows parts
  | rows, .not part => matchesPattern rows part
  | rows, .column name _ cs => rows == table && name == column && cs.any (·.op.isPattern)
  | _, .computedField _ _ _ => false
  | _, .relationship _ remoteTable part => matchesPattern remoteTable part

/-- Whether one of the predicates does. -/
def anyMatchesPattern : (rows : String) → List Expr → Bool
  | _, [] => false
  | rows, e :: rest => matchesPattern rows e || anyMatchesPattern rows rest

end

theorem anyMatchesPattern_eq_false {table column rows : String} {parts : List Expr} :
    anyMatchesPattern table column rows parts = false ↔
      ∀ e ∈ parts, e.matchesPattern table column rows = false := by
  induction parts with
  | nil => simp [anyMatchesPattern]
  | cons e rest ih => rw [anyMatchesPattern, Bool.or_eq_false_iff, ih, List.forall_mem_cons]

theorem matchesPattern_conjunction (rows : String) (parts : List Expr) :
    (conjunction parts).matchesPattern table column rows = anyMatchesPattern table column rows parts := by
  match parts with
  | [] => rfl
  | [e] => rw [conjunction, anyMatchesPattern, anyMatchesPattern, Bool.or_false]
  | _ :: _ :: _ => rfl

end Expr

namespace Predicate

variable {σ τ : Schema} {source table column : String} {t u : ColumnType}

/-! ## Comparisons -/

/-- Where nothing is recorded, fields stand beside nothing but session variables. -/
theorem session_of_reason {cs : List Comparison} (h : reason cs ≠ .typeDerived) {c : Comparison}
    (hc : c ∈ cs) (hop : c.op.comparesColumns = false ∧ c.op ≠ .isNull) {s : Scalar}
    (hs : s ∈ c.operand.scalars) : ∃ x, s = .session x := by
  cases s with
  | session x => exact ⟨x, rfl⟩
  | literal v =>
    refine absurd ?_ h
    have hbeside : c ∈ cs.filter fun c => !c.op.comparesColumns && c.op != .isNull :=
      List.mem_filter.2 ⟨hc, by simp [hop]⟩
    unfold reason
    exact if_pos (List.any_eq_true.2 ⟨_, List.mem_flatMap.2 ⟨c, hbeside, hs⟩, rfl⟩)

/-- A session variable stands for a value of any type. -/
theorem scalar_session_retyped {v : Json} {x : SessionVariable} (h : scalar t v = .ok (.session x)) :
    scalar u v = .ok (.session x) := by
  rcases scalar_eq_ok.1 h with ⟨y, hy, hx⟩ | ⟨-, -, hx⟩
  · exact scalar_eq_ok.2 (.inl ⟨y, hy, hx⟩)
  · cases hx

/-- An operand without literals suits a field of any type, but for the patterns. -/
theorem OperandOf.retyped {op : Operator} {v : Json} {o : Operand} (h : OperandOf σ table t op v o)
    (hs : op.comparesColumns = false ∧ op ≠ .isNull → ∀ s ∈ o.scalars, ∃ x, s = .session x)
    (hpattern : op.isPattern = true → u = .text) : OperandOf σ table u op v o := by
  cases h with
  | column hop hother => exact .column hop hother
  | null => exact .null
  | list hop hss =>
    refine .list hop (mapM_eq_ok.2 (forall₂_of_mem (mapM_eq_ok.1 hss) fun v _ s hmem hv => ?_))
    obtain ⟨x, rfl⟩ := hs (Operator.of_takesList hop) s hmem
    exact scalar_session_retyped hv
  | listVariable hop hx => exact .listVariable hop hx
  | @value _ _ s hop _ hv =>
    obtain ⟨x, rfl⟩ := hs (Operator.of_takesValue hop) s (List.mem_singleton_self s)
    exact .value hop hpattern (scalar_session_retyped hv)

theorem OperandOf.text_of_pattern {op : Operator} {v : Json} {o : Operand} (h : OperandOf σ table t op v o)
    (hop : op.isPattern = true) : t = .text := by
  have hok := operand_eq_ok.2 h
  rw [operand_of_takesValue (Operator.takesValue_of_isPattern hop), hop] at hok
  by_contra ht
  rw [if_pos (by simp [ht])] at hok
  exact reject_ne_ok hok

/-- **Comparisons without literals suit a field of another type** exactly if the type is text or there is
no pattern among them. -/
theorem comparisons_retyped {v : Json} {cs : List Comparison} (h : comparisons σ table t v = .ok cs)
    (hr : reason cs ≠ .typeDerived) :
    (∃ cs', comparisons σ table u v = .ok cs') ↔ u = .text ∨ cs.any (·.op.isPattern) = false := by
  obtain ⟨entries, rfl, hcs⟩ := comparisons_eq_ok.1 h
  constructor
  · rintro ⟨cs', h'⟩
    obtain ⟨_, he, hcs'⟩ := comparisons_eq_ok.1 h'
    obtain rfl := Json.obj.inj he
    refine or_iff_not_imp_right.2 fun hpattern => ?_
    -- the entry with the pattern has an operand for the new type too, which is then text
    obtain ⟨c, hc, hop⟩ := List.any_eq_true.1 (by simpa using hpattern)
    obtain ⟨entry, hentry, hcompare⟩ := exists_of_mem_right hcs hc
    obtain ⟨c', -, hcompare'⟩ := exists_of_mem_left hcs' hentry
    have heq : c'.op = c.op := Option.some.inj (hcompare'.op.symm.trans hcompare.op)
    exact hcompare'.operand.text_of_pattern (heq ▸ hop)
  · intro hu
    refine ⟨cs, comparisons_eq_ok.2 ⟨entries, rfl, forall₂_of_mem hcs fun entry _ c hc hcompare => ?_⟩⟩
    refine ⟨hcompare.op, hcompare.operand.retyped (fun hop s => session_of_reason hr hc hop) fun hop => ?_⟩
    exact hu.resolve_right fun hnone => List.any_eq_false.1 hnone c hc hop

/-! ## Documents -/

theorem CompilesEntry.column_retyped (hret : σ.Retypes τ table column t u) {rows key : String} {v : Json}
    {t' : ColumnType} {cs : List Comparison} (hkey : key ∉ connectives)
    (hm : σ.member? rows key = some (.column t')) (hcs : comparisons σ rows t' v = .ok cs)
    (hd : ¬ Dependency.TypeDerived table column ⟨source, rows, .column key, reason cs⟩) :
    (∃ q, CompilesEntry τ source rows (key, v) q) ↔
      u = .text ∨ (Expr.column key t' cs).matchesPattern table column rows = false := by
  have hτ : comparisons τ rows t' v = .ok cs :=
    comparisons_of_columns hcs fun _ _ other _ hσ => (hret.isSome_column? rows other).trans hσ
  by_cases heq : (rows, key) = (table, column)
  -- the comparisons of the column itself are read again for its new type
  · obtain ⟨rfl, rfl⟩ := Prod.mk.inj heq
    have hr : reason cs ≠ .typeDerived := fun hr => hd ⟨rfl, rfl, hr⟩
    rw [exists_compilesEntry_column hkey hret.member?_after, comparisons_retyped hτ hr]
    simp [Expr.matchesPattern]
  -- any other column stands for what it stood for
  · have hnone : (Expr.column key t' cs).matchesPattern table column rows = false := by
      rw [Expr.matchesPattern, Bool.and_eq_false_iff]
      exact .inl (by simpa [Prod.mk.injEq] using heq)
    rw [exists_compilesEntry_column hkey ((hret.member? heq).trans hm)]
    exact ⟨fun _ => .inr hnone, fun _ => ⟨cs, hτ⟩⟩

mutual

/-- **A document whose predicate records nothing of the column's type** compiles with another type for it
exactly if that is text or the predicate matches no pattern with the column. -/
theorem Compiles.retyped (hret : σ.Retypes τ table column t u) {rows : String} {doc : Json}
    {p : CompiledPredicate} : Compiles σ source rows doc p →
      (∀ d ∈ p.uses.dependencies, ¬ d.TypeDerived table column) →
      ((∃ q, Compiles τ source rows doc q) ↔
        u = .text ∨ p.expr.matchesPattern table column rows = false)
  | .object hps, hd => by
    rw [exists_compiles_obj, CompilesEntries.retyped hret hps fun p hp d h =>
      hd d (mem_dependencies_usesOf.2 ⟨p, hp, h⟩)]
    simp [Expr.matchesPattern_conjunction, Expr.anyMatchesPattern_eq_false]

theorem CompilesEntry.retyped (hret : σ.Retypes τ table column t u) {rows : String}
    {entry : String × Json} {p : CompiledPredicate} : CompilesEntry σ source rows entry p →
      (∀ d ∈ p.uses.dependencies, ¬ d.TypeDerived table column) →
      ((∃ q, CompilesEntry τ source rows entry q) ↔
        u = .text ∨ p.expr.matchesPattern table column rows = false)
  | .and hps, hd => by
    rw [exists_compilesEntry_and, CompilesItems.retyped hret hps fun p hp d h =>
      hd d (mem_dependencies_usesOf.2 ⟨p, hp, h⟩)]
    simp [Expr.matchesPattern, Expr.anyMatchesPattern_eq_false]
  | .or hps, hd => by
    rw [exists_compilesEntry_or, CompilesItems.retyped hret hps fun p hp d h =>
      hd d (mem_dependencies_usesOf.2 ⟨p, hp, h⟩)]
    simp [Expr.matchesPattern, Expr.anyMatchesPattern_eq_false]
  | .not hp, hd => by
    rw [exists_compilesEntry_not, hp.retyped hret hd, Expr.matchesPattern]
  | .column hkey hm hcs, hd =>
    CompilesEntry.column_retyped hret hkey hm hcs
      (hd _ (List.mem_append_right _ (List.mem_singleton_self _)))
  | .computedField hkey hm hcs, hd => by
    rw [exists_compilesEntry_computedField hkey (hret.member?_of_ne_column hm nofun)]
    refine ⟨fun _ => .inr rfl, fun _ => ⟨_, comparisons_of_columns hcs fun _ _ other _ hσ => ?_⟩⟩
    exact (hret.isSome_column? _ other).trans hσ
  | .relationship hkey hm hp, hd => by
    rw [exists_compilesEntry_relationship hkey (hret.member?_of_ne_column hm nofun),
      hp.retyped hret fun d h => hd d (List.mem_append_right _ h), Expr.matchesPattern]

theorem CompilesEntries.retyped (hret : σ.Retypes τ table column t u) {rows : String}
    {entries : List (String × Json)} {ps : List CompiledPredicate} :
      CompilesEntries σ source rows entries ps →
      (∀ p ∈ ps, ∀ d ∈ p.uses.dependencies, ¬ d.TypeDerived table column) →
      ((∃ qs, CompilesEntries τ source rows entries qs) ↔
        u = .text ∨ ∀ p ∈ ps, p.expr.matchesPattern table column rows = false)
  | .nil, _ => ⟨fun _ => .inr (List.forall_mem_nil _), fun _ => ⟨_, .nil⟩⟩
  | .cons hp hps, hd => by
    rw [exists_compilesEntries_cons, hp.retyped hret (hd _ List.mem_cons_self),
      hps.retyped hret fun p h => hd p (List.mem_cons_of_mem _ h), List.forall_mem_cons, or_and_left]

theorem CompilesItems.retyped (hret : σ.Retypes τ table column t u) {rows : String}
    {items : List Json} {ps : List CompiledPredicate} : CompilesItems σ source rows items ps →
      (∀ p ∈ ps, ∀ d ∈ p.uses.dependencies, ¬ d.TypeDerived table column) →
      ((∃ qs, CompilesItems τ source rows items qs) ↔
        u = .text ∨ ∀ p ∈ ps, p.expr.matchesPattern table column rows = false)
  | .nil, _ => ⟨fun _ => .inr (List.forall_mem_nil _), fun _ => ⟨_, .nil⟩⟩
  | .cons hp hps, hd => by
    rw [exists_compilesItems_cons, hp.retyped hret (hd _ List.mem_cons_self),
      hps.retyped hret fun p h => hd p (List.mem_cons_of_mem _ h), List.forall_mem_cons, or_and_left]

end

end Predicate

end TableAccess
