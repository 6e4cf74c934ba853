import TableAccess.Proofs.Permission.Parts
import TableAccess.Proofs.Predicate.Refusal
import TableAccess.Proofs.Predicate.WellFormed

/-!
# The checks of a clause

Compiling a clause checks its fields one after the other, in an order that depends on the kind of the clause,
and stops at the first field that breaks a rule. A field of several items stops at the first item that does.

* `Clause.checks`: the checks of a clause in their order. `Check.Passes`: the rule of a check.
* `Check.Fails`: what a check fails with, and the class of the failure.
* `Permission.compile_checks`: **a clause compiles exactly if it passes all its checks, and fails as the first
  one that it does not pass.**
-/

namespace TableAccess

/-- A rule that a field of a clause has to keep. -/
inductive Check where
  | columns (spec : ColumnSpec)
  | presets (presets : Presets)
  | predicate (doc : Json)
  | limit (limit : Option Int)
  | computedFields (names : List String)
  | rootFields (allowAggregations : Bool) (fields : Option (List RootField))

/-- **The checks of a clause in their order**, each with the name of its field. An update without a check has
none of it to check. -/
def Clause.checks : Clause → List (String × Check)
  | .insert c => [("check", .predicate c.check), ("set", .presets (c.set.getD .empty)),
      ("columns", .columns (c.columns.getD .all))]
  | .select c => [("columns", .columns c.columns), ("filter", .predicate c.filter), ("limit", .limit c.limit),
      ("computed_fields", .computedFields c.computedFields),
      ("query_root_fields", .rootFields c.allowAggregations c.queryRootFields),
      ("subscription_root_fields", .rootFields c.allowAggregations c.subscriptionRootFields)]
  | .update c => [("columns", .columns c.columns), ("set", .presets (c.set.getD .empty)),
      ("filter", .predicate c.filter)] ++ c.check.toList.map fun doc => ("check", .predicate doc)
  | .delete c => [("filter", .predicate c.filter)]

/-! ## The rules -/

namespace Check

section

variable (σ : Schema) (table : String)

/-- The name is that of a column. -/
def IsColumn (name : String) : Prop := ∃ t, σ.column? table name = some t

/-- **Why a name is not that of a column.** -/
inductive NotColumn (name : String) : ErrorCode → RuleFault → Prop
  | relationship {r : Relationship} : σ.column? table name = none → σ.relationship? table name = some r →
    NotColumn name .relationshipNotAllowed (.relationshipNotAllowed table name)
  | unknown : σ.column? table name = none → σ.relationship? table name = none →
    NotColumn name .notFound (.columnNotFound table name)

/-- The preset gives a column a session variable, or a literal of its type. -/
def PresetFits (p : String × Json) : Prop :=
  ∃ t, σ.column? table p.1 = some t ∧ Predicate.IsValue t p.2

/-- **Why a preset does not fit.** -/
inductive NotPreset (p : String × Json) : ErrorCode → RuleFault → Prop
  | column {code : ErrorCode} {fault : RuleFault} : NotColumn σ table p.1 code fault → NotPreset p code fault
  | value {t : ColumnType} : σ.column? table p.1 = some t → ¬ Predicate.IsValue t p.2 →
    NotPreset p .validationFailed (.presetMismatch t p.1 p.2)

/-- The name is that of a computed field that returns a scalar. -/
def IsScalarField (name : String) : Prop := ∃ t, σ.computedField? table name = some (.scalar t)

/-- **Why a name is not that of a computed field that returns a scalar.** -/
inductive NotScalarField (name : String) : ErrorCode → RuleFault → Prop
  | rows {returns : String} : σ.computedField? table name = some (.rows returns) →
    NotScalarField name .notSupported (.rowsFieldListed name returns)
  | unknown : σ.computedField? table name = none →
    NotScalarField name .notFound (.computedFieldNotFound table name)

end

variable (σ : Schema) (source table : String)

/-- **What a check asks for.** -/
def Passes : Check → Prop
  | columns .all => True
  | columns (.listed names) => ∀ n ∈ names, IsColumn σ table n
  | presets given => ∀ p ∈ given.toList, PresetFits σ table p
  | predicate doc => ∃ p, Predicate.compile σ source table doc = .ok p
  | limit given => ∀ n ∈ given, 0 < n
  | computedFields names => ∀ n ∈ names, IsScalarField σ table n
  | rootFields allowAggregations fields =>
    ∀ l ∈ fields, .selectAggregate ∈ l → allowAggregations = true

/-- **What a check fails with**, and the class of the failure: of several items the first that breaks the
rule counts. The place of a preset is its column. -/
inductive Fails : Check → ErrorCode → Located RuleFault → Prop
  | columns {before after : List String} {n : String} {code : ErrorCode} {fault : RuleFault} :
    (∀ m ∈ before, IsColumn σ table m) → NotColumn σ table n code fault →
    Fails (columns (.listed (before ++ n :: after))) code ⟨[], fault⟩
  | presets {given : Presets} {before after : List (String × Json)} {p : String × Json} {code : ErrorCode}
    {fault : RuleFault} : given.toList = before ++ p :: after → (∀ q ∈ before, PresetFits σ table q) →
    NotPreset σ table p code fault → Fails (presets given) code ⟨[p.1], fault⟩
  | predicate {doc : Json} {f : Located RuleFault} : Predicate.compile σ source table doc = .error f →
    Fails (predicate doc) .predicateError f
  | limit {n : Int} : n ≤ 0 → Fails (limit (some n)) .invalidLimit ⟨[], .invalidLimit n⟩
  | computedFields {before after : List String} {n : String} {code : ErrorCode} {fault : RuleFault} :
    (∀ m ∈ before, IsScalarField σ table m) → NotScalarField σ table n code fault →
    Fails (computedFields (before ++ n :: after)) code ⟨[], fault⟩
  | rootFields {l : List RootField} : .selectAggregate ∈ l →
    Fails (rootFields false (some l)) .validationFailed ⟨[], .aggregateNotAllowed⟩

/-- What resolving a field fails with. -/
def fault? : Check → Option (Located RuleFault)
  | columns spec => TableAccess.fault? (Permission.resolveColumns σ source table spec)
  | presets given => TableAccess.fault? (Permission.resolvePresets σ table given)
  | predicate doc => TableAccess.fault? (Predicate.compile σ source table doc)
  | limit given => TableAccess.fault? (Permission.checkLimit given)
  | computedFields names => TableAccess.fault? (Permission.resolveComputedFields σ table names)
  | rootFields allowAggregations fields =>
    TableAccess.fault? (Permission.checkRootFields allowAggregations fields)

end Check

/-! ## Items -/

namespace Predicate

theorem isValue_iff_fits {t : ColumnType} {v : Json} :
    IsValue t v ↔ v.reference?.isSome = true ∨ t.fits v = true := by
  rw [IsValue, isVariable_iff, ← Option.isSome_iff_exists, ColumnType.fits_iff]

instance (t : ColumnType) (v : Json) : Decidable (IsValue t v) := decidable_of_iff _ isValue_iff_fits.symm

end Predicate

namespace Permission

open Check

variable {σ : Schema} {source table : String}

theorem fault?_columnType_eq_none {n : String} :
    fault? (columnType σ table n) = none ↔ IsColumn σ table n := by
  simp only [fault?_eq_none, columnType_eq_ok, IsColumn]

theorem fault?_columnType_eq_some {n : String} {f : Located RuleFault} :
    fault? (columnType σ table n) = some f ↔ ∃ code fault, NotColumn σ table n code fault ∧ f = ⟨[], fault⟩ := by
  rw [fault?_eq_some, columnType]
  constructor
  · intro h
    split at h
    next => cases h
    next hcolumn =>
      cases hrelationship : σ.relationship? table n with
      | some r =>
        rw [if_pos (by rw [hrelationship]; rfl)] at h
        exact ⟨_, _, .relationship hcolumn hrelationship, (Except.error.inj h).symm⟩
      | none =>
        rw [if_neg (by rw [hrelationship]; simp)] at h
        exact ⟨_, _, .unknown hcolumn hrelationship, (Except.error.inj h).symm⟩
  · rintro ⟨code, fault, h, rfl⟩
    cases h with
    | relationship hcolumn hrelationship =>
      simp only [hcolumn, hrelationship]
      rfl
    | unknown hcolumn hrelationship =>
      simp only [hcolumn, hrelationship]
      rfl

theorem resolvePreset_of_not_column {column : String} {value : Json} {f : Located RuleFault}
    (h : fault? (columnType σ table column) = some f) :
    fault? (resolvePreset σ table column value) = some f := by
  rw [resolvePreset_eq, fault?_eq_some.1 h]
  rfl

theorem fault?_resolvePreset {column : String} {value : Json} {t : ColumnType}
    (ht : σ.column? table column = some t) : fault? (resolvePreset σ table column value) =
      if Predicate.IsValue t value then none else some ⟨[], .presetMismatch t column value⟩ := by
  rw [resolvePreset_eq, columnType_eq_ok.2 ht, ok_bind]
  simp only [Predicate.isValue_iff_fits]
  cases value.reference? with
  | some x => rfl
  | none =>
    simp only [Option.elim_none, Option.isSome_none, Bool.false_eq_true, false_or]
    split <;> rfl

theorem fault?_resolvePreset_eq_none {p : String × Json} :
    fault? (resolvePreset σ table p.1 p.2) = none ↔ PresetFits σ table p := by
  cases ht : σ.column? table p.1 with
  | none =>
    have hnot : ¬ IsColumn σ table p.1 := fun ⟨t, h⟩ => by rw [ht] at h; cases h
    cases hf : fault? (columnType σ table p.1) with
    | none => exact absurd (fault?_columnType_eq_none.1 hf) hnot
    | some f =>
      rw [resolvePreset_of_not_column hf]
      exact ⟨nofun, fun ⟨t, h, _⟩ => absurd ⟨t, h⟩ hnot⟩
  | some t =>
    rw [fault?_resolvePreset ht, PresetFits, ht]
    simp

theorem fault?_resolvePreset_eq_some {p : String × Json} {f : Located RuleFault} :
    fault? (resolvePreset σ table p.1 p.2) = some f ↔
      ∃ code fault, NotPreset σ table p code fault ∧ f = ⟨[], fault⟩ := by
  constructor
  · intro h
    cases ht : σ.column? table p.1 with
    | none =>
      cases hf : fault? (columnType σ table p.1) with
      | none =>
        obtain ⟨t, h⟩ := fault?_columnType_eq_none.1 hf
        rw [ht] at h
        cases h
      | some g =>
        obtain rfl := Option.some.inj ((resolvePreset_of_not_column hf).symm.trans h)
        obtain ⟨code, fault, hcolumn, rfl⟩ := fault?_columnType_eq_some.1 hf
        exact ⟨code, fault, .column hcolumn, rfl⟩
    | some t =>
      rw [fault?_resolvePreset ht] at h
      split at h
      next => cases h
      next hvalue => exact ⟨_, _, .value ht hvalue, (Option.some.inj h).symm⟩
  · rintro ⟨code, fault, h, rfl⟩
    cases h with
    | column h => exact resolvePreset_of_not_column (fault?_columnType_eq_some.2 ⟨code, fault, h, rfl⟩)
    | value ht hvalue => rw [fault?_resolvePreset ht, if_neg hvalue]

theorem fault?_preset_eq_none {p : String × Json} :
    (fault? (resolvePreset σ table p.1 p.2)).map (Located.under p.1) = none ↔ PresetFits σ table p :=
  Option.map_eq_none_iff.trans fault?_resolvePreset_eq_none

/-- The fault of a preset stands in its column. -/
theorem fault?_preset_eq_some {p : String × Json} {f : Located RuleFault} :
    (fault? (resolvePreset σ table p.1 p.2)).map (Located.under p.1) = some f ↔
      ∃ code fault, NotPreset σ table p code fault ∧ f = ⟨[p.1], fault⟩ := by
  simp only [Option.map_eq_some_iff, fault?_resolvePreset_eq_some]
  constructor
  · rintro ⟨_, ⟨code, fault, h, rfl⟩, rfl⟩
    exact ⟨code, fault, h, rfl⟩
  · rintro ⟨code, fault, h, rfl⟩
    exact ⟨_, ⟨code, fault, h, rfl⟩, rfl⟩

theorem fault?_scalarField_eq_none {n : String} :
    fault? (scalarField σ table n) = none ↔ IsScalarField σ table n := by
  unfold scalarField IsScalarField
  cases σ.computedField? table n with
  | none => exact ⟨nofun, fun ⟨_, h⟩ => by cases h⟩
  | some returns =>
    cases returns with
    | scalar t => exact ⟨fun _ => ⟨t, rfl⟩, fun _ => rfl⟩
    | rows => exact ⟨nofun, fun ⟨_, h⟩ => by cases h⟩

theorem fault?_scalarField_eq_some {n : String} {f : Located RuleFault} :
    fault? (scalarField σ table n) = some f ↔
      ∃ code fault, NotScalarField σ table n code fault ∧ f = ⟨[], fault⟩ := by
  unfold scalarField
  constructor
  · intro h
    split at h
    next => cases h
    next returns hfield => exact ⟨_, _, .rows hfield, (Option.some.inj h).symm⟩
    next hfield => exact ⟨_, _, .unknown hfield, (Option.some.inj h).symm⟩
  · rintro ⟨code, fault, h, rfl⟩
    cases h with
    | rows hfield => rw [hfield]; rfl
    | unknown hfield => rw [hfield]; rfl

theorem fault?_checkLimit (n : Int) :
    fault? (checkLimit (some n)) = if n ≤ 0 then some ⟨[], .invalidLimit n⟩ else none := by
  simp only [checkLimit]
  split <;> rfl

theorem fault?_checkRootFields (allowAggregations : Bool) (l : List RootField) :
    fault? (checkRootFields allowAggregations (some l)) =
      if allowAggregations = false ∧ .selectAggregate ∈ l then some ⟨[], .aggregateNotAllowed⟩ else none := by
  simp only [checkRootFields, Bool.and_eq_true, Bool.not_eq_true', List.contains_iff_mem]
  split <;> rfl

theorem fault?_resolveColumns (names : List String) :
    fault? (resolveColumns σ source table (.listed names)) =
      names.findSome? fun n => fault? (columnType σ table n) :=
  (fault?_bind_pure _ _).trans (fault?_mapM _ names)

theorem fault?_resolvePresets (given : Presets) : fault? (resolvePresets σ table given) =
    given.toList.findSome? fun p => (fault? (resolvePreset σ table p.1 p.2)).map (Located.under p.1) := by
  simp only [resolvePresets, fault?_mapM, fault?_map, fault?_within]

theorem fault?_resolveComputedFields (names : List String) :
    fault? (resolveComputedFields σ table names) =
      names.findSome? fun n => fault? (scalarField σ table n) := by
  simp only [resolveComputedFields, fault?_mapM, fault?_map]
  exact findSome?_eraseDups _ names

end Permission

namespace Check

variable {σ : Schema} {source table : String}

/-- **A check finds nothing exactly if its rule is kept.** -/
theorem fault?_eq_none (k : Check) : k.fault? σ source table = none ↔ k.Passes σ source table := by
  cases k with
  | columns spec =>
    cases spec with
    | all => exact iff_of_true rfl trivial
    | listed names =>
      rw [fault?, Permission.fault?_resolveColumns]
      exact findSome?_eq_none_iff_of fun _ => Permission.fault?_columnType_eq_none
  | presets given =>
    rw [fault?, Permission.fault?_resolvePresets]
    exact findSome?_eq_none_iff_of fun _ => Permission.fault?_preset_eq_none
  | predicate doc => exact TableAccess.fault?_eq_none
  | limit given =>
    cases given with
    | none => exact iff_of_true rfl nofun
    | some n =>
      rw [fault?, Permission.fault?_checkLimit]
      simp [Passes]
  | computedFields names =>
    rw [fault?, Permission.fault?_resolveComputedFields]
    exact findSome?_eq_none_iff_of fun _ => Permission.fault?_scalarField_eq_none
  | rootFields allowAggregations fields =>
    cases fields with
    | none => exact iff_of_true rfl nofun
    | some l =>
      rw [fault?, Permission.fault?_checkRootFields]
      cases allowAggregations <;> simp [Passes]

theorem NotColumn.code_eq {n : String} {code : ErrorCode} {fault : RuleFault}
    (h : NotColumn σ table n code fault) : fault.code = code := by
  cases h <;> rfl

theorem NotPreset.code_eq {p : String × Json} {code : ErrorCode} {fault : RuleFault}
    (h : NotPreset σ table p code fault) : fault.code = code := by
  cases h with
  | column h => exact h.code_eq
  | value => rfl

theorem NotScalarField.code_eq {n : String} {code : ErrorCode} {fault : RuleFault}
    (h : NotScalarField σ table n code fault) : fault.code = code := by
  cases h <;> rfl

/-- **The class of a check's failure is that of its fault.** -/
theorem Fails.code_eq {k : Check} {code : ErrorCode} {f : Located RuleFault}
    (h : k.Fails σ source table code f) : f.cause.code = code := by
  cases h with
  | columns _ h => exact h.code_eq
  | presets _ _ h => exact h.code_eq
  | predicate h =>
    obtain ⟨fault, hfault⟩ := Predicate.failsWith_compile _ _ _ h
    rw [hfault]
    rfl
  | limit => rfl
  | computedFields _ h => exact h.code_eq
  | rootFields => rfl

/-- **Of several items the first that breaks the rule is found**, in its place. -/
theorem findSome?_eq_some_iff {α : Type} {find : α → Option (Located RuleFault)} {Keeps : α → Prop}
    {Breaks : α → ErrorCode → RuleFault → Prop} {place : α → List String}
    (hkeeps : ∀ a, find a = none ↔ Keeps a)
    (hbreaks : ∀ a f, find a = some f ↔ ∃ code fault, Breaks a code fault ∧ f = ⟨place a, fault⟩)
    {l : List α} {f : Located RuleFault} : l.findSome? find = some f ↔
      ∃ before a after code fault, l = before ++ a :: after ∧ (∀ b ∈ before, Keeps b) ∧
        Breaks a code fault ∧ f = ⟨place a, fault⟩ := by
  simp only [findSome?_eq_some_iff_of hkeeps, hbreaks]
  constructor
  · rintro ⟨before, a, after, hl, hbefore, code, fault, h, hf⟩
    exact ⟨before, a, after, code, fault, hl, hbefore, h, hf⟩
  · rintro ⟨before, a, after, code, fault, hl, hbefore, h, hf⟩
    exact ⟨before, a, after, hl, hbefore, code, fault, h, hf⟩

/-- **What a check finds is what it fails with.** -/
theorem fault?_eq_some (k : Check) {f : Located RuleFault} :
    k.fault? σ source table = some f ↔ ∃ code, k.Fails σ source table code f := by
  cases k with
  | columns spec =>
    cases spec with
    | all => exact ⟨nofun, fun ⟨_, h⟩ => nomatch h⟩
    | listed names =>
      rw [fault?, Permission.fault?_resolveColumns, findSome?_eq_some_iff
        (fun _ => Permission.fault?_columnType_eq_none) fun _ _ => Permission.fault?_columnType_eq_some]
      constructor
      · rintro ⟨before, n, after, code, fault, rfl, hbefore, hn, rfl⟩
        exact ⟨code, .columns hbefore hn⟩
      · rintro ⟨code, h⟩
        cases h with
        | columns hbefore hn => exact ⟨_, _, _, _, _, rfl, hbefore, hn, rfl⟩
  | presets given =>
    rw [fault?, Permission.fault?_resolvePresets, findSome?_eq_some_iff
      (fun _ => Permission.fault?_preset_eq_none) fun _ _ => Permission.fault?_preset_eq_some]
    constructor
    · rintro ⟨before, p, after, code, fault, hgiven, hbefore, hp, rfl⟩
      exact ⟨code, .presets hgiven hbefore hp⟩
    · rintro ⟨code, h⟩
      cases h with
      | presets hgiven hbefore hp => exact ⟨_, _, _, _, _, hgiven, hbefore, hp, rfl⟩
  | predicate doc =>
    constructor
    · intro h
      exact ⟨_, .predicate (TableAccess.fault?_eq_some.1 h)⟩
    · rintro ⟨code, h⟩
      cases h with
      | predicate h => exact TableAccess.fault?_eq_some.2 h
  | limit given =>
    cases given with
    | none => exact ⟨nofun, fun ⟨_, h⟩ => nomatch h⟩
    | some n =>
      rw [fault?, Permission.fault?_checkLimit]
      constructor
      · intro h
        obtain ⟨hn, hf⟩ := Option.ite_none_right_eq_some.1 h
        obtain rfl := Option.some.inj hf
        exact ⟨_, .limit hn⟩
      · rintro ⟨code, h⟩
        cases h with
        | limit hn => rw [if_pos hn]
  | computedFields names =>
    rw [fault?, Permission.fault?_resolveComputedFields, findSome?_eq_some_iff
      (fun _ => Permission.fault?_scalarField_eq_none) fun _ _ => Permission.fault?_scalarField_eq_some]
    constructor
    · rintro ⟨before, n, after, code, fault, rfl, hbefore, hn, rfl⟩
      exact ⟨code, .computedFields hbefore hn⟩
    · rintro ⟨code, h⟩
      cases h with
      | computedFields hbefore hn => exact ⟨_, _, _, _, _, rfl, hbefore, hn, rfl⟩
  | rootFields allowAggregations fields =>
    cases fields with
    | none => exact ⟨nofun, fun ⟨_, h⟩ => nomatch h⟩
    | some l =>
      rw [fault?, Permission.fault?_checkRootFields]
      constructor
      · intro h
        obtain ⟨⟨rfl, hl⟩, hf⟩ := Option.ite_none_right_eq_some.1 h
        obtain rfl := Option.some.inj hf
        exact ⟨_, .rootFields hl⟩
      · rintro ⟨code, h⟩
        cases h with
        | rootFields hl => rw [if_pos ⟨rfl, hl⟩]

end Check

/-! ## Clauses -/

namespace Permission

variable {σ : Schema} {source table : String}

/-- What the first of some checks finds, in the field of the check. -/
def firstFault (σ : Schema) (source table : String) (checks : List (String × Check)) :
    Option (Located RuleFault) :=
  checks.findSome? fun k => (k.2.fault? σ source table).map (Located.under k.1)

theorem firstFault_cons (field : String) (k : Check) (rest : List (String × Check)) :
    firstFault σ source table ((field, k) :: rest) =
      ((k.fault? σ source table).map (Located.under field)).or (firstFault σ source table rest) :=
  findSome?_cons_eq_or _ _ _

theorem fault?_compileInsert (c : InsertClause) : fault? (compileInsert σ source table c) =
    firstFault σ source table (Clause.insert c).checks := by
  simp only [Clause.checks, firstFault_cons, Check.fault?, ← fault?_within]
  exact fault?_bind fun _ => fault?_bind fun _ => fault?_bind fun _ => rfl

theorem fault?_compileSelect (c : SelectClause) : fault? (compileSelect σ source table c) =
    firstFault σ source table (Clause.select c).checks := by
  simp only [Clause.checks, firstFault_cons, Check.fault?, ← fault?_within]
  exact fault?_bind fun _ => fault?_bind fun _ => fault?_bind fun _ => fault?_bind fun _ =>
    fault?_bind fun _ => fault?_bind fun _ => rfl

theorem fault?_compileUpdate (c : UpdateClause) : fault? (compileUpdate σ source table c) =
    firstFault σ source table (Clause.update c).checks := by
  have hcheck : firstFault σ source table (c.check.toList.map fun doc => ("check", .predicate doc)) =
      fault? (c.check.mapM fun doc => within "check" (Predicate.compile σ source table doc)) := by
    simp only [firstFault, List.findSome?_map, fault?_optionMapM, fault?_within]
    rfl
  simp only [Clause.checks, List.cons_append, List.nil_append, firstFault_cons, hcheck, Check.fault?,
    ← fault?_within]
  refine fault?_bind fun _ => fault?_bind fun _ => fault?_bind fun _ => ?_
  exact fault?_bind_pure _ _

theorem fault?_compileDelete (c : DeleteClause) : fault? (compileDelete σ source table c) =
    firstFault σ source table (Clause.delete c).checks := by
  simp only [Clause.checks, firstFault_cons, Check.fault?, ← fault?_within]
  exact fault?_bind fun _ => rfl

/-- **Compiling fails with what the first of the clause's checks finds.** -/
theorem fault?_compile (clause : Clause) : fault? (compile σ source table clause) =
    (firstFault σ source table clause.checks).map (Located.under "permission") := by
  refine (fault?_within _ _).trans (congrArg _ ?_)
  cases clause with
  | insert c => exact fault?_compileInsert c
  | select c => exact fault?_compileSelect c
  | update c => exact fault?_compileUpdate c
  | delete c => exact fault?_compileDelete c

theorem firstFault_eq_none {checks : List (String × Check)} :
    firstFault σ source table checks = none ↔ ∀ k ∈ checks, k.2.Passes σ source table :=
  findSome?_eq_none_iff_of fun k => Option.map_eq_none_iff.trans k.2.fault?_eq_none

theorem firstFault_eq_some {checks : List (String × Check)} {f : Located RuleFault} :
    firstFault σ source table checks = some f ↔ ∃ before field check after path cause,
      checks = before ++ (field, check) :: after ∧ (∀ k ∈ before, k.2.Passes σ source table) ∧
      check.Fails σ source table cause.code ⟨path, cause⟩ ∧ f = ⟨field :: path, cause⟩ := by
  rw [firstFault, findSome?_eq_some_iff_of fun k => Option.map_eq_none_iff.trans k.2.fault?_eq_none]
  constructor
  · rintro ⟨before, ⟨field, check⟩, after, hchecks, hbefore, h⟩
    obtain ⟨⟨path, cause⟩, hg, rfl⟩ := Option.map_eq_some_iff.1 h
    obtain ⟨code, hfails⟩ := check.fault?_eq_some.1 hg
    obtain rfl := hfails.code_eq
    exact ⟨before, field, check, after, path, cause, hchecks, hbefore, hfails, rfl⟩
  · rintro ⟨before, field, check, after, path, cause, hchecks, hbefore, hfails, rfl⟩
    have hfault := check.fault?_eq_some.2 ⟨_, hfails⟩
    exact ⟨before, (field, check), after, hchecks, hbefore, Option.map_eq_some_iff.2 ⟨_, hfault, rfl⟩⟩

/-- **A clause compiles exactly if it passes its checks**, whatever the schema, and where it does not, it
fails as the first check in their order that it does not pass: with the cause of that check, which is of the
class that the check gives it, under the name of the check's field. -/
theorem compile_checks (σ : Schema) (source table : String) (clause : Clause) :
    ((∃ p, compile σ source table clause = .ok p) ↔
      ∀ k ∈ clause.checks, k.2.Passes σ source table) ∧
    ∀ f, compile σ source table clause = .error f ↔ ∃ before field check after path cause,
      clause.checks = before ++ (field, check) :: after ∧ (∀ k ∈ before, k.2.Passes σ source table) ∧
      check.Fails σ source table cause.code ⟨path, cause⟩ ∧
      f = ⟨"permission" :: field :: path, cause⟩ := by
  refine ⟨?_, fun f => ?_⟩
  · rw [← fault?_eq_none, fault?_compile, Option.map_eq_none_iff, firstFault_eq_none]
  · rw [← fault?_eq_some, fault?_compile, Option.map_eq_some_iff]
    simp only [firstFault_eq_some]
    constructor
    · rintro ⟨_, ⟨before, field, check, after, path, cause, hchecks, hbefore, hfails, rfl⟩, rfl⟩
      exact ⟨before, field, check, after, path, cause, hchecks, hbefore, hfails, rfl⟩
    · rintro ⟨before, field, check, after, path, cause, hchecks, hbefore, hfails, rfl⟩
      exact ⟨_, ⟨before, field, check, after, path, cause, hchecks, hbefore, hfails, rfl⟩, rfl⟩

end Permission

end TableAccess
