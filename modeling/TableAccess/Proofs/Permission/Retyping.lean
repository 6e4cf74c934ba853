import TableAccess.Proofs.Permission.Parts
import TableAccess.Proofs.Predicate.Retyping
import TableAccess.Schema.Catalog

/-!
# Permissions and the type of a column

A permission that compiles records with the reason `typeDerived` which columns stand beside literals. A
column without such a record may still not be given any other type: patterns can only be matched with
text, and a pattern that comes with the session is recorded as a session variable.

* `Permission.compile_retyped`: **if nothing is recorded of a column, its type may be changed to text, or
  to any other type exactly if the permission matches no pattern with the column.**
-/

namespace TableAccess

namespace Descriptor

/-- The predicates of a compiled clause. -/
def predicates : Descriptor → List Expr
  | insert d => [d.check]
  | select d => [d.filter]
  | update d => [d.filter, d.check]
  | delete d => [d.filter]

/-- **Whether a permission on `rows` matches a pattern with the column.** -/
def matchesPattern (table column rows : String) (d : Descriptor) : Bool :=
  d.predicates.any fun e => e.matchesPattern table column rows

end Descriptor

namespace Permission

variable {σ τ : Schema} {source table column rows : String} {t u : ColumnType}

/-! ## Parts that still resolve -/

theorem columnType_retyped (hret : σ.Retypes τ table column t u) {name : String} {t' : ColumnType}
    (h : columnType σ rows name = .ok t') : ∃ t', columnType τ rows name = .ok t' := by
  simp only [columnType_eq_ok] at h ⊢
  rw [← Option.isSome_iff_exists, hret.isSome_column?, h]
  rfl

theorem resolveColumns_retyped (hret : σ.Retypes τ table column t u) {spec : ColumnSpec}
    {columns : SortedSet String × List Dependency} (h : resolveColumns σ source rows spec = .ok columns) :
    ∃ columns, resolveColumns τ source rows spec = .ok columns := by
  cases spec with
  | all => exact ⟨_, rfl⟩
  | listed names =>
    simp only [resolveColumns, bind_eq_ok, pure_eq_ok] at h ⊢
    obtain ⟨types, htypes, -⟩ := h
    obtain ⟨types', htypes'⟩ := exists_mapM_eq_ok (f := columnType τ rows) fun n hn => by
      obtain ⟨t', -, ht'⟩ := ok_of_mem_mapM htypes hn
      exact columnType_retyped hret ht'
    exact ⟨_, types', htypes', rfl⟩

theorem resolvePreset_retyped (hret : σ.Retypes τ table column t u) {name : String} {value : Json}
    {preset : Preset} (h : resolvePreset σ rows name value = .ok preset)
    (hd : ∀ d ∈ (presetUses source rows (name, preset)).dependencies, ¬ d.TypeDerived table column) :
    ∃ preset, resolvePreset τ rows name value = .ok preset := by
  obtain ⟨t', ht', ⟨v, hv, rfl⟩ | ⟨hv, hfits, rfl⟩⟩ := resolvePreset_eq_ok.1 h
  · obtain ⟨t'', ht''⟩ := columnType_retyped hret (columnType_eq_ok.2 ht')
    exact ⟨_, resolvePreset_eq_ok.2 ⟨t'', columnType_eq_ok.1 ht'', .inl ⟨v, hv, rfl⟩⟩⟩
  · -- a literal is recorded, so it is not set in the column
    have hne : (rows, name) ≠ (table, column) := by
      rintro heq
      obtain ⟨rfl, rfl⟩ := Prod.mk.inj heq
      exact hd _ (List.mem_singleton_self _) ⟨rfl, rfl, rfl⟩
    rw [← hret.column? rows name hne] at ht'
    exact ⟨_, resolvePreset_eq_ok.2 ⟨t', ht', .inr ⟨hv, hfits, rfl⟩⟩⟩

theorem resolvePresets_retyped (hret : σ.Retypes τ table column t u) {presets : Presets}
    {resolved : List (String × Preset)} (h : resolvePresets σ rows presets = .ok resolved)
    (hd : ∀ d ∈ (presetsUses source rows resolved).dependencies, ¬ d.TypeDerived table column) :
    ∃ resolved, resolvePresets τ rows presets = .ok resolved := by
  refine exists_mapM_eq_ok fun p hp => ?_
  obtain ⟨q, hq, hpq⟩ := ok_of_mem_mapM h hp
  simp only [map_eq_ok, within_eq_ok] at hpq ⊢
  obtain ⟨preset, hpreset, rfl⟩ := hpq
  obtain ⟨preset', hpreset'⟩ := resolvePreset_retyped hret hpreset fun d hd' =>
    hd d (mem_presetsUses.2 ⟨_, hq, hd'⟩)
  exact ⟨_, preset', hpreset', rfl⟩

theorem resolveComputedFields_retyped (hret : σ.Retypes τ table column t u) (names : List String) :
    resolveComputedFields τ rows names = resolveComputedFields σ rows names := by
  simp only [resolveComputedFields, scalarField, hret.computedField?]

/-! ## The permission -/

/-- The later check is one of the predicates. -/
theorem matchesPattern_descriptor {clause : Clause} {x : Parts} (h : clause.Resolves σ source rows x) :
    (x.descriptor source rows clause).matchesPattern table column rows = false ↔
      x.predicate.expr.matchesPattern table column rows = false ∧
        ∀ q ∈ x.laterCheck, q.expr.matchesPattern table column rows = false := by
  obtain ⟨predicate, check, presets, columns, fields, limit⟩ := x
  have hcheck := h.laterCheck
  cases clause with
  | update c =>
    cases check <;> simp [Descriptor.matchesPattern, Parts.descriptor, Descriptor.predicates]
  | insert c =>
    cases hcheck
    simp [Descriptor.matchesPattern, Parts.descriptor, Descriptor.predicates]
  | select c =>
    cases hcheck
    simp [Descriptor.matchesPattern, Parts.descriptor, Descriptor.predicates]
  | delete c =>
    cases hcheck
    simp [Descriptor.matchesPattern, Parts.descriptor, Descriptor.predicates]

theorem laterCheck_retyped (hret : σ.Retypes τ table column t u) {doc : Option Json}
    {check : Option CompiledPredicate} (h : Option.Rel (Predicate.Compiles σ source rows) doc check)
    (hd : ∀ q ∈ check, ∀ d ∈ q.uses.dependencies, ¬ d.TypeDerived table column) :
    (∃ check', Option.Rel (Predicate.Compiles τ source rows) doc check') ↔
      u = .text ∨ ∀ q ∈ check, q.expr.matchesPattern table column rows = false := by
  cases h with
  | none => exact ⟨fun _ => .inr nofun, fun _ => ⟨none, .none⟩⟩
  | @some doc q hq =>
    have hsome : (∃ check', Option.Rel (Predicate.Compiles τ source rows) (some doc) check') ↔
        ∃ q, Predicate.Compiles τ source rows doc q :=
      ⟨fun ⟨_, .some h⟩ => ⟨_, h⟩, fun ⟨_, h⟩ => ⟨_, .some h⟩⟩
    rw [hsome, hq.retyped hret (hd q rfl)]
    simp

/-- **The type of a column of which nothing is recorded** may be changed to text, or to any other type
exactly if the permission matches no pattern with the column. -/
theorem compile_retyped (hret : σ.Retypes τ table column t u) {clause : Clause} {p : CompiledPermission}
    (h : compile σ source rows clause = .ok p)
    (hd : ∀ d ∈ p.dependencies, ¬ d.TypeDerived table column) :
    (∃ q, compile τ source rows clause = .ok q) ↔
      u = .text ∨ p.descriptor.matchesPattern table column rows = false := by
  obtain ⟨x, hx, rfl⟩ := compile_eq_ok.1 h
  have hpredicate := hx.predicate.retyped hret fun d h => hd d (Parts.mem_of_predicate h)
  have hcheck := laterCheck_retyped hret hx.laterCheck fun q hq d h => hd d (Parts.mem_of_laterCheck hq h)
  obtain ⟨presets, hpresets⟩ := resolvePresets_retyped hret hx.presets fun d h =>
    hd d (Parts.mem_of_presets h)
  obtain ⟨columns, hcolumns⟩ := resolveColumns_retyped hret hx.columns
  have hfields := (resolveComputedFields_retyped hret _).trans hx.computedFields
  -- all other parts resolve anyway, so the predicates decide
  have hcompile : (∃ q, compile τ source rows clause = .ok q) ↔
      (∃ q, Predicate.Compiles τ source rows clause.predicate q) ∧
        ∃ check, Option.Rel (Predicate.Compiles τ source rows) clause.laterCheck check := by
    simp only [compile_eq_ok]
    constructor
    · rintro ⟨q, y, hy, -⟩
      exact ⟨⟨_, hy.predicate⟩, _, hy.laterCheck⟩
    · rintro ⟨⟨predicate, hp⟩, check, hc⟩
      exact ⟨_, ⟨predicate, check, presets, columns, x.computedFields, x.limit⟩,
        ⟨hp, hc, hpresets, hcolumns, hfields, hx.limit, hx.rootFields⟩, rfl⟩
  rw [hcompile, hpredicate, hcheck, ← or_and_left]
  exact or_congr_right (matchesPattern_descriptor hx).symm

/-- Names of authors that are compared with the session may become integers. -/
theorem compile_retyped_authors :
    let authors : ColumnType → Schema := fun t =>
      (Catalog.empty.add ⟨"author", [⟨"id", .uuid⟩, ⟨"name", t⟩], [], []⟩).schema
    let clause : Clause := .delete ⟨.obj [("name", .obj [("_eq", .str "X-Hasura-Name")])]⟩
    (authors .text).Retypes (authors .integer) "author" "name" .text .integer ∧
      ∃ p, compile (authors .text) "default" "author" clause = .ok p ∧
        (∀ d ∈ p.dependencies, ¬ d.TypeDerived "author" "name") ∧
        ((∃ q, compile (authors .integer) "default" "author" clause = .ok q) ↔
          ColumnType.integer = .text ∨ p.descriptor.matchesPattern "author" "name" "author" = false) := by
  intro authors clause
  have hret : (authors .text).Retypes (authors .integer) "author" "name" .text .integer :=
    Catalog.retypes .empty ⟨"author", [], [], []⟩
      (List.forall_mem_singleton.2 (by decide) : ∀ x ∈ [(⟨"id", .uuid⟩ : Column)], x.name ≠ "name")
      .text .integer
  have hok : (compile (authors .text) "default" "author" clause).isOk = true := by decide +kernel
  obtain ⟨p, hp⟩ := exists_of_isOk hok
  have hnone : ∀ p ∈ (compile (authors .text) "default" "author" clause).toOption, ∀ d ∈ p.dependencies,
      ¬ d.TypeDerived "author" "name" := by
    decide +kernel
  have hd : ∀ d ∈ p.dependencies, ¬ d.TypeDerived "author" "name" := hnone p (by rw [hp]; rfl)
  exact ⟨hret, p, hp, hd, compile_retyped hret hp hd⟩

/-- **That nothing is recorded of a column is not enough** to give it another type: a pattern that comes
with the session is recorded as a session variable, and can only be matched with text. -/
theorem pattern_breaks_retyping :
    ¬ ∀ (σ τ : Schema) (source table column rows : String) (t u : ColumnType) (clause : Clause)
      (p : CompiledPermission), σ.Retypes τ table column t u → compile σ source rows clause = .ok p →
      (∀ d ∈ p.dependencies, ¬ d.TypeDerived table column) →
      ∃ q, compile τ source rows clause = .ok q := by
  intro h
  let authors : ColumnType → Schema := fun t =>
    (Catalog.empty.add ⟨"author", [⟨"name", t⟩], [], []⟩).schema
  let clause : Clause := .delete ⟨.obj [("name", .obj [("_like", .str "X-Hasura-Name")])]⟩
  have hret : (authors .text).Retypes (authors .integer) "author" "name" .text .integer :=
    Catalog.retypes .empty ⟨"author", [], [], []⟩ (List.forall_mem_nil _) .text .integer
  have hok : (compile (authors .text) "default" "author" clause).isOk = true := by decide +kernel
  obtain ⟨p, hp⟩ := exists_of_isOk hok
  have hnone : ∀ p ∈ (compile (authors .text) "default" "author" clause).toOption, ∀ d ∈ p.dependencies,
      ¬ d.TypeDerived "author" "name" := by
    decide +kernel
  obtain ⟨q, hq⟩ := h _ _ _ _ _ _ _ _ _ _ hret hp (hnone p (by rw [hp]; rfl))
  have hfails : (compile (authors .integer) "default" "author" clause).isOk = false := by decide +kernel
  rw [hq] at hfails
  cases hfails

end Permission

end TableAccess
