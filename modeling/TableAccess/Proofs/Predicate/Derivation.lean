import TableAccess.Predicate.Compile
import TableAccess.Proofs.Success

/-!
# How a predicate comes to compile

A document compiles to a predicate by the way it is built. The relations here say how, one constructor
for each form of a document, of an entry and of an operand, and nothing about documents that fail.

* `Predicate.OperandOf`, `Predicate.ComparisonOf`: operands and comparisons.
* `Predicate.Compiles`: documents. `compile_eq_ok`: **compiling succeeds exactly by a derivation.**
-/

namespace TableAccess

namespace Operator

/-- Whether the operator compares with the values of a list. -/
def takesList : Operator → Bool
  | oneOf | noneOf => true
  | _ => false

/-- Whether the operator compares with a single value of the type of the field. -/
def takesValue (op : Operator) : Bool := !op.comparesColumns && !op.takesList && op != .isNull

theorem of_takesList {op : Operator} :
    op.takesList = true → op.comparesColumns = false ∧ op ≠ .isNull := by
  cases op <;> decide

theorem of_takesValue {op : Operator} : op.takesValue = true → op.comparesColumns = false ∧ op ≠ .isNull := by
  cases op <;> decide

theorem takesValue_of_isPattern {op : Operator} : op.isPattern = true → op.takesValue = true := by
  cases op <;> decide

theorem form (op : Operator) :
    op.comparesColumns = true ∨ op = .isNull ∨ op.takesList = true ∨ op.takesValue = true := by
  cases op <;> decide

end Operator

/-- The session variable that a document refers to. -/
def Json.reference? : Json → Option SessionVariable
  | .str s => SessionVariable.ofReference? s
  | _ => none

namespace Predicate

variable {σ : Schema} {source table : String} {t : ColumnType}

theorem reject_ne_ok {α : Type} {fault : PredicateFault} {a : α} : reject fault ≠ .ok a := nofun

/-! ## Operands -/

/-- A document is a session variable, whatever the type, or a literal that fits the type. -/
theorem reference_or_literal_eq_ok {α : Type} {v : Json} {f : SessionVariable → α} {a b : α}
    {e : Located RuleFault} :
    v.reference?.elim (if t.fits v then .ok a else .error e) (fun x => .ok (f x)) = Except.ok b ↔
      (∃ x, v.reference? = some x ∧ b = f x) ∨ v.reference? = none ∧ t.fits v = true ∧ b = a := by
  cases v.reference? with
  | some x =>
    refine ⟨fun h => .inl ⟨x, rfl, (Except.ok.inj h).symm⟩, ?_⟩
    rintro (⟨y, hy, rfl⟩ | ⟨hnone, -⟩)
    · rw [← Option.some.inj hy]
      rfl
    · cases hnone
  | none =>
    refine guard_eq_ok.trans ⟨fun h => .inr ⟨rfl, h⟩, ?_⟩
    rintro (⟨y, hy, -⟩ | ⟨-, h⟩)
    · cases hy
    · exact h

theorem scalar_eq (t : ColumnType) (v : Json) : scalar t v =
    v.reference?.elim (if t.fits v then .ok (.literal v) else reject (.valueExpected t v))
      fun x => .ok (.session x) := by
  cases v with
  | str s =>
    simp only [scalar, Json.reference?]
    cases SessionVariable.ofReference? s <;> rfl
  | _ => rfl

theorem scalar_eq_ok {v : Json} {s : Scalar} :
    scalar t v = .ok s ↔ (∃ x, v.reference? = some x ∧ s = .session x) ∨
      v.reference? = none ∧ t.fits v = true ∧ s = .literal v := by
  rw [scalar_eq]
  exact reference_or_literal_eq_ok

/-- **What a document stands for as the operand of an operator**, for a field of type `t`. -/
inductive OperandOf (σ : Schema) (table : String) (t : ColumnType) : Operator → Json → Operand → Prop
  | column {op : Operator} {other : String} : op.comparesColumns = true →
    (σ.column? table other).isSome = true → OperandOf σ table t op (.str other) (.column other)
  | null {b : Bool} : OperandOf σ table t .isNull (.bool b) (.scalar (.literal (.bool b)))
  | list {op : Operator} {items : List Json} {ss : List Scalar} : op.takesList = true →
    scalars t items = .ok ss → OperandOf σ table t op (.arr items) (.list ss)
  | listVariable {op : Operator} {v : Json} {x : SessionVariable} : op.takesList = true →
    v.reference? = some x → OperandOf σ table t op v (.scalar (.session x))
  | value {op : Operator} {v : Json} {s : Scalar} : op.takesValue = true →
    (op.isPattern = true → t = .text) → scalar t v = .ok s → OperandOf σ table t op v (.scalar s)

theorem operand_of_comparesColumns {op : Operator} (h : op.comparesColumns = true) {v : Json}
    {o : Operand} : operand σ table t op v = .ok o ↔
      ∃ other, v = .str other ∧ (σ.column? table other).isSome = true ∧ o = .column other := by
  unfold operand
  rw [if_pos h]
  split
  next other =>
    refine guard_eq_ok.trans ⟨fun h => ⟨other, rfl, h⟩, ?_⟩
    rintro ⟨other', hv, h⟩
    rw [Json.str.inj hv]
    exact h
  next hv =>
    constructor
    · exact fun h => absurd h reject_ne_ok
    · rintro ⟨other, rfl, -⟩
      exact absurd rfl (hv other)

theorem operand_of_takesList {op : Operator} (h : op.takesList = true) (v : Json) :
    operand σ table t op v =
      match v with
      | .arr items => (scalars t items).map .list
      | v =>
        match v.reference? with
        | some x => .ok (.scalar (.session x))
        | none => reject (.listExpected v) := by
  cases op <;> first | cases v <;> rfl | cases h

theorem operand_of_takesValue {op : Operator} (h : op.takesValue = true) (v : Json) :
    operand σ table t op v =
      if op.isPattern && t != .text then reject (.patternType t) else (scalar t v).map .scalar := by
  cases op <;> first | rfl | cases h

theorem operandOf_of_eq_ok {op : Operator} {v : Json} {o : Operand} (h : operand σ table t op v = .ok o) :
    OperandOf σ table t op v o := by
  rcases op.form with hop | rfl | hop | hop
  · obtain ⟨other, rfl, hother, rfl⟩ := (operand_of_comparesColumns hop).1 h
    exact .column hop hother
  · cases v with
    | bool b =>
      obtain rfl := Except.ok.inj h
      exact .null
    | _ => exact absurd h reject_ne_ok
  · rw [operand_of_takesList hop] at h
    split at h
    next items =>
      obtain ⟨ss, hss, rfl⟩ := map_eq_ok.1 h
      exact .list hop hss
    next =>
      split at h
      next x hx =>
        obtain rfl := Except.ok.inj h
        exact .listVariable hop hx
      next => exact absurd h reject_ne_ok
  · rw [operand_of_takesValue hop] at h
    split at h
    next => exact absurd h reject_ne_ok
    next htext =>
      obtain ⟨s, hs, rfl⟩ := map_eq_ok.1 h
      exact .value hop (by simpa using htext) hs

/-- **An operand is found exactly by one of its forms.** -/
theorem operand_eq_ok {op : Operator} {v : Json} {o : Operand} :
    operand σ table t op v = .ok o ↔ OperandOf σ table t op v o := by
  refine ⟨operandOf_of_eq_ok, fun h => ?_⟩
  cases h with
  | column hop hother => exact (operand_of_comparesColumns hop).2 ⟨_, rfl, hother, rfl⟩
  | null => rfl
  | list hop hss =>
    rw [operand_of_takesList hop]
    exact map_eq_ok.2 ⟨_, hss, rfl⟩
  | listVariable hop hx =>
    rw [operand_of_takesList hop]
    cases v with
    | str s => simp only [hx]
    | _ => cases hx
  | value hop htext hs =>
    rw [operand_of_takesValue hop, if_neg (by simpa using htext), hs]
    rfl

/-! ## Comparisons -/

/-- **What an entry of an object of operators stands for**, for a field of type `t`. -/
structure ComparisonOf (σ : Schema) (table : String) (t : ColumnType) (entry : String × Json)
    (c : Comparison) : Prop where
  op : Operator.ofKey? entry.1 = some c.op
  operand : OperandOf σ table t c.op entry.2 c.operand

theorem comparison_eq_ok {entry : String × Json} {c : Comparison} :
    comparison σ table t entry = .ok c ↔ ComparisonOf σ table t entry c := by
  unfold comparison
  split
  next hop =>
    refine ⟨fun h => absurd h reject_ne_ok, fun h => ?_⟩
    rw [h.op] at hop
    cases hop
  next op hop =>
    simp only [map_eq_ok, within_eq_ok, operand_eq_ok]
    constructor
    · rintro ⟨o, ho, rfl⟩
      exact ⟨hop, ho⟩
    · intro h
      obtain rfl := Option.some.inj (hop.symm.trans h.op)
      exact ⟨_, h.operand, rfl⟩

theorem comparisons_eq_ok {v : Json} {cs : List Comparison} :
    comparisons σ table t v = .ok cs ↔
      ∃ entries, v = .obj entries ∧ List.Forall₂ (ComparisonOf σ table t) entries cs := by
  cases v with
  | obj entries => simp only [comparisons, mapM_eq_ok, comparison_eq_ok, Json.obj.injEq, exists_eq_left']
  | _ => exact ⟨fun h => absurd h reject_ne_ok, by rintro ⟨_, h, -⟩; cases h⟩

theorem OperandOf.of_columns {τ : Schema} {op : Operator} {v : Json} {o : Operand}
    (h : OperandOf σ table t op v o) (hτ : ∀ other, o = .column other →
      (σ.column? table other).isSome = true → (τ.column? table other).isSome = true) :
    OperandOf τ table t op v o := by
  cases h with
  | column hop hother => exact .column hop (hτ _ rfl hother)
  | null => exact .null
  | list hop hss => exact .list hop hss
  | listVariable hop hx => exact .listVariable hop hx
  | value hop htext hs => exact .value hop htext hs

/-- **The comparisons of a field look at no schema** but for the columns that they name. -/
theorem comparisons_of_columns {τ : Schema} {v : Json} {cs : List Comparison}
    (h : comparisons σ table t v = .ok cs) (hτ : ∀ c ∈ cs, ∀ other, c.operand = .column other →
      (σ.column? table other).isSome = true → (τ.column? table other).isSome = true) :
    comparisons τ table t v = .ok cs := by
  obtain ⟨entries, rfl, hcs⟩ := comparisons_eq_ok.1 h
  refine comparisons_eq_ok.2 ⟨entries, rfl, forall₂_of_mem hcs fun entry _ c hc hcompare => ?_⟩
  exact ⟨hcompare.op, hcompare.operand.of_columns (hτ c hc)⟩

/-! ## Documents -/

/-- The keys under which documents for the same table stand. -/
def connectives : List String := ["_and", "_or", "_not"]

/-- What compiled parts use, one after the other. -/
def usesOf (ps : List CompiledPredicate) : Uses := ps.foldr (fun p u => p.uses ++ u) .none

theorem mem_dependencies_usesOf {ps : List CompiledPredicate} {d : Dependency} :
    d ∈ (usesOf ps).dependencies ↔ ∃ p ∈ ps, d ∈ p.uses.dependencies := by
  induction ps with
  | nil => exact ⟨(by cases ·), fun ⟨_, h, _⟩ => (by cases h)⟩
  | cons p ps ih =>
    show d ∈ p.uses.dependencies ++ (usesOf ps).dependencies ↔ _
    rw [List.mem_append, ih, List.exists_mem_cons_iff]

mutual

/-- **How a document compiles** to a predicate on the rows of a table. -/
inductive Compiles (σ : Schema) (source : String) : (table : String) → Json → CompiledPredicate → Prop
  | object {table : String} {entries : List (String × Json)} {ps : List CompiledPredicate} :
    CompilesEntries σ source table entries ps →
      Compiles σ source table (.obj entries) ⟨.conjunction (ps.map (·.expr)), usesOf ps⟩

/-- How an entry of a document compiles: a connective, or a member of the table. -/
inductive CompilesEntry (σ : Schema) (source : String) :
    (table : String) → String × Json → CompiledPredicate → Prop
  | and {table : String} {items : List Json} {ps : List CompiledPredicate} :
    CompilesItems σ source table items ps →
      CompilesEntry σ source table ("_and", .arr items) ⟨.and (ps.map (·.expr)), usesOf ps⟩
  | or {table : String} {items : List Json} {ps : List CompiledPredicate} :
    CompilesItems σ source table items ps →
      CompilesEntry σ source table ("_or", .arr items) ⟨.or (ps.map (·.expr)), usesOf ps⟩
  | not {table : String} {v : Json} {p : CompiledPredicate} :
    Compiles σ source table v p → CompilesEntry σ source table ("_not", v) ⟨.not p.expr, p.uses⟩
  | column {table key : String} {v : Json} {t : ColumnType} {cs : List Comparison} :
    key ∉ connectives → σ.member? table key = some (.column t) → comparisons σ table t v = .ok cs →
      CompilesEntry σ source table (key, v)
        ⟨.column key t cs, fieldUses source table (.column key) cs⟩
  | computedField {table key : String} {v : Json} {t : ColumnType} {cs : List Comparison} :
    key ∉ connectives → σ.member? table key = some (.computedField (.scalar t)) →
      comparisons σ table t v = .ok cs →
      CompilesEntry σ source table (key, v)
        ⟨.computedField key t cs, fieldUses source table (.computedField key) cs⟩
  | relationship {table key : String} {v : Json} {r : Relationship} {p : CompiledPredicate} :
    key ∉ connectives → σ.member? table key = some (.relationship r) →
      Compiles σ source r.remoteTable v p →
      CompilesEntry σ source table (key, v)
        ⟨.relationship key r.remoteTable p.expr, relationshipUses source table key r ++ p.uses⟩

/-- How the entries of a document compile. -/
inductive CompilesEntries (σ : Schema) (source : String) :
    (table : String) → List (String × Json) → List CompiledPredicate → Prop
  | nil {table : String} : CompilesEntries σ source table [] []
  | cons {table : String} {entry : String × Json} {rest : List (String × Json)} {p : CompiledPredicate}
    {ps : List CompiledPredicate} : CompilesEntry σ source table entry p →
      CompilesEntries σ source table rest ps → CompilesEntries σ source table (entry :: rest) (p :: ps)

/-- How documents for the same table compile. -/
inductive CompilesItems (σ : Schema) (source : String) :
    (table : String) → List Json → List CompiledPredicate → Prop
  | nil {table : String} : CompilesItems σ source table [] []
  | cons {table : String} {doc : Json} {rest : List Json} {p : CompiledPredicate}
    {ps : List CompiledPredicate} : Compiles σ source table doc p →
      CompilesItems σ source table rest ps → CompilesItems σ source table (doc :: rest) (p :: ps)

end

/-- Compiles an entry of a document. -/
def compileEntry (σ : Schema) (source table key : String) (v : Json) :
    Except (Located RuleFault) CompiledPredicate :=
  if key == "_and" then
    (compileList σ source table v).map fun ps => ⟨.and (ps.map (·.expr)), usesOf ps⟩
  else if key == "_or" then
    (compileList σ source table v).map fun ps => ⟨.or (ps.map (·.expr)), usesOf ps⟩
  else if key == "_not" then
    (compile σ source table v).map fun p => ⟨.not p.expr, p.uses⟩
  else
    match σ.member? table key with
    | some (.column t) => column σ source table key t v
    | some (.relationship r) =>
      (compile σ source r.remoteTable v).map fun p =>
        ⟨.relationship key r.remoteTable p.expr, relationshipUses source table key r ++ p.uses⟩
    | some (.computedField returns) => computedField σ source table key returns v
    | none => reject (.unknownMember key table)

theorem compileEntry_and {source : String} (v : Json) : compileEntry σ source table "_and" v =
    (compileList σ source table v).map fun ps => ⟨.and (ps.map (·.expr)), usesOf ps⟩ := rfl

theorem compileEntry_or {source : String} (v : Json) : compileEntry σ source table "_or" v =
    (compileList σ source table v).map fun ps => ⟨.or (ps.map (·.expr)), usesOf ps⟩ := rfl

theorem compileEntry_not {source : String} (v : Json) : compileEntry σ source table "_not" v =
    (compile σ source table v).map fun p => ⟨.not p.expr, p.uses⟩ := rfl

theorem compileEntry_of_member {source key : String} (h : key ∉ connectives) (v : Json) :
    compileEntry σ source table key v =
      match σ.member? table key with
      | some (.column t) => column σ source table key t v
      | some (.relationship r) =>
        (compile σ source r.remoteTable v).map fun p =>
          ⟨.relationship key r.remoteTable p.expr, relationshipUses source table key r ++ p.uses⟩
      | some (.computedField returns) => computedField σ source table key returns v
      | none => reject (.unknownMember key table) := by
  simp only [connectives, List.mem_cons, List.not_mem_nil, or_false, not_or] at h
  rw [compileEntry, if_neg (by simpa using h.1), if_neg (by simpa using h.2.1),
    if_neg (by simpa using h.2.2)]

/-- An entry compiles by its form, if the documents in it do. -/
theorem compileEntry_eq_ok_of {source key : String} {v : Json} {p : CompiledPredicate}
    (hv : ∀ {table p}, compile σ source table v = .ok p ↔ Compiles σ source table v p)
    (hlist : ∀ {table ps}, compileList σ source table v = .ok ps ↔
      ∃ items, v = .arr items ∧ CompilesItems σ source table items ps) :
    compileEntry σ source table key v = .ok p ↔ CompilesEntry σ source table (key, v) p := by
  constructor
  · intro h
    by_cases hkey : key ∈ connectives
    · simp only [connectives, List.mem_cons, List.not_mem_nil, or_false] at hkey
      -- a key that is a connective is never looked up in the table
      rcases hkey with rfl | rfl | rfl
      · obtain ⟨ps, hps, rfl⟩ := map_eq_ok.1 ((compileEntry_and v).symm.trans h)
        obtain ⟨items, rfl, hitems⟩ := hlist.1 hps
        exact .and hitems
      · obtain ⟨ps, hps, rfl⟩ := map_eq_ok.1 ((compileEntry_or v).symm.trans h)
        obtain ⟨items, rfl, hitems⟩ := hlist.1 hps
        exact .or hitems
      · obtain ⟨p, hp, rfl⟩ := map_eq_ok.1 ((compileEntry_not v).symm.trans h)
        exact .not (hv.1 hp)
    · rw [compileEntry_of_member hkey] at h
      split at h
      next t hm =>
        obtain ⟨cs, hcs, h⟩ := bind_eq_ok.1 h
        obtain rfl := pure_eq_ok.1 h
        exact .column hkey hm hcs
      next r hm =>
        obtain ⟨p, hp, rfl⟩ := map_eq_ok.1 h
        exact .relationship hkey hm (hv.1 hp)
      next returns hm =>
        cases returns with
        | scalar t =>
          obtain ⟨cs, hcs, h⟩ := bind_eq_ok.1 h
          obtain rfl := pure_eq_ok.1 h
          exact .computedField hkey hm hcs
        | rows => exact absurd h reject_ne_ok
      next => exact absurd h reject_ne_ok
  · intro h
    cases h with
    | and hps =>
      rw [compileEntry_and]
      exact map_eq_ok.2 ⟨_, hlist.2 ⟨_, rfl, hps⟩, rfl⟩
    | or hps =>
      rw [compileEntry_or]
      exact map_eq_ok.2 ⟨_, hlist.2 ⟨_, rfl, hps⟩, rfl⟩
    | not hp =>
      rw [compileEntry_not]
      exact map_eq_ok.2 ⟨_, hv.2 hp, rfl⟩
    | column hkey hm hcs =>
      rw [compileEntry_of_member hkey, hm]
      exact bind_eq_ok.2 ⟨_, hcs, rfl⟩
    | computedField hkey hm hcs =>
      rw [compileEntry_of_member hkey, hm]
      exact bind_eq_ok.2 ⟨_, hcs, rfl⟩
    | relationship hkey hm hp =>
      rw [compileEntry_of_member hkey, hm]
      exact map_eq_ok.2 ⟨_, hv.2 hp, rfl⟩

mutual

/-- **Compiling a document succeeds exactly by a derivation.** -/
theorem compile_eq_ok {source : String} : (doc : Json) → ∀ {table : String} {p : CompiledPredicate},
    compile σ source table doc = .ok p ↔ Compiles σ source table doc p
  | .obj entries => by
    rw [compile, map_eq_ok]
    constructor
    · rintro ⟨ps, hps, rfl⟩
      exact .object ((compileEntries_eq_ok entries).1 hps)
    · rintro (⟨hps⟩)
      exact ⟨_, (compileEntries_eq_ok entries).2 hps, rfl⟩
  | .null | .bool _ | .num _ | .str _ | .arr _ => by
    exact ⟨fun h => absurd h reject_ne_ok, fun h => by cases h⟩

theorem compileEntries_eq_ok {source : String} : (entries : List (String × Json)) →
    ∀ {table : String} {ps : List CompiledPredicate},
      compileEntries σ source table entries = .ok ps ↔ CompilesEntries σ source table entries ps
  | [] => by
    exact ⟨fun h => Except.ok.inj h ▸ .nil, fun h => by cases h; rfl⟩
  | (key, v) :: rest => by
    simp only [compileEntries, bind_eq_ok, within_eq_ok, pure_eq_ok, compileEntries_eq_ok rest]
    constructor
    · rintro ⟨p, hp, ps, hps, rfl⟩
      exact .cons ((compileEntry_eq_ok_of (compile_eq_ok v) (compileList_eq_ok v)).1 hp) hps
    · intro h
      cases h with
      | cons hp hps =>
        exact ⟨_, (compileEntry_eq_ok_of (compile_eq_ok v) (compileList_eq_ok v)).2 hp, _, hps, rfl⟩

theorem compileList_eq_ok {source : String} : (doc : Json) →
    ∀ {table : String} {ps : List CompiledPredicate}, compileList σ source table doc = .ok ps ↔
      ∃ items, doc = .arr items ∧ CompilesItems σ source table items ps
  | .arr items => by
    rw [compileList, compileItems_eq_ok items]
    simp
  | .null | .bool _ | .num _ | .str _ | .obj _ => by
    exact ⟨fun h => absurd h reject_ne_ok, fun ⟨_, h, _⟩ => by cases h⟩

theorem compileItems_eq_ok {source : String} : (items : List Json) →
    ∀ {table : String} {ps : List CompiledPredicate},
      compileItems σ source table items = .ok ps ↔ CompilesItems σ source table items ps
  | [] => by
    exact ⟨fun h => Except.ok.inj h ▸ .nil, fun h => by cases h; rfl⟩
  | doc :: rest => by
    simp only [compileItems, bind_eq_ok, pure_eq_ok, compile_eq_ok doc, compileItems_eq_ok rest]
    constructor
    · rintro ⟨p, hp, ps, hps, rfl⟩
      exact .cons hp hps
    · intro h
      cases h with
      | cons hp hps => exact ⟨_, hp, _, hps, rfl⟩

end

theorem compileEntry_eq_ok {source key : String} {v : Json} {p : CompiledPredicate} :
    compileEntry σ source table key v = .ok p ↔ CompilesEntry σ source table (key, v) p :=
  compileEntry_eq_ok_of (compile_eq_ok v) (compileList_eq_ok v)

/-! ## What compiles at all -/

variable {source key : String} {v : Json}

theorem exists_compiles_obj {entries : List (String × Json)} :
    (∃ p, Compiles σ source table (.obj entries) p) ↔ ∃ ps, CompilesEntries σ source table entries ps :=
  ⟨fun ⟨_, .object h⟩ => ⟨_, h⟩, fun ⟨_, h⟩ => ⟨_, .object h⟩⟩

theorem exists_compilesEntries_cons {entry : String × Json} {rest : List (String × Json)} :
    (∃ ps, CompilesEntries σ source table (entry :: rest) ps) ↔
      (∃ p, CompilesEntry σ source table entry p) ∧ ∃ ps, CompilesEntries σ source table rest ps :=
  ⟨fun ⟨_, .cons hp hps⟩ => ⟨⟨_, hp⟩, _, hps⟩, fun ⟨⟨_, hp⟩, _, hps⟩ => ⟨_, .cons hp hps⟩⟩

theorem exists_compilesItems_cons {doc : Json} {rest : List Json} :
    (∃ ps, CompilesItems σ source table (doc :: rest) ps) ↔
      (∃ p, Compiles σ source table doc p) ∧ ∃ ps, CompilesItems σ source table rest ps :=
  ⟨fun ⟨_, .cons hp hps⟩ => ⟨⟨_, hp⟩, _, hps⟩, fun ⟨⟨_, hp⟩, _, hps⟩ => ⟨_, .cons hp hps⟩⟩

theorem exists_compilesEntry_and {items : List Json} :
    (∃ p, CompilesEntry σ source table ("_and", .arr items) p) ↔
      ∃ ps, CompilesItems σ source table items ps := by
  simp [← compileEntry_eq_ok, compileEntry_and, map_eq_ok, compileList_eq_ok]

theorem exists_compilesEntry_or {items : List Json} :
    (∃ p, CompilesEntry σ source table ("_or", .arr items) p) ↔
      ∃ ps, CompilesItems σ source table items ps := by
  simp [← compileEntry_eq_ok, compileEntry_or, map_eq_ok, compileList_eq_ok]

theorem exists_compilesEntry_not :
    (∃ p, CompilesEntry σ source table ("_not", v) p) ↔ ∃ p, Compiles σ source table v p := by
  simp [← compileEntry_eq_ok, compileEntry_not, map_eq_ok, compile_eq_ok]

theorem exists_compilesEntry_column (hkey : key ∉ connectives)
    (hm : σ.member? table key = some (.column t)) :
    (∃ p, CompilesEntry σ source table (key, v) p) ↔ ∃ cs, comparisons σ table t v = .ok cs := by
  simp only [← compileEntry_eq_ok, compileEntry_of_member hkey, hm, column, bind_eq_ok, pure_eq_ok]
  exact ⟨fun ⟨_, cs, hcs, _⟩ => ⟨cs, hcs⟩, fun ⟨cs, hcs⟩ => ⟨_, cs, hcs, rfl⟩⟩

theorem exists_compilesEntry_computedField (hkey : key ∉ connectives)
    (hm : σ.member? table key = some (.computedField (.scalar t))) :
    (∃ p, CompilesEntry σ source table (key, v) p) ↔ ∃ cs, comparisons σ table t v = .ok cs := by
  simp only [← compileEntry_eq_ok, compileEntry_of_member hkey, hm, computedField, bind_eq_ok, pure_eq_ok]
  exact ⟨fun ⟨_, cs, hcs, _⟩ => ⟨cs, hcs⟩, fun ⟨cs, hcs⟩ => ⟨_, cs, hcs, rfl⟩⟩

theorem exists_compilesEntry_relationship {r : Relationship} (hkey : key ∉ connectives)
    (hm : σ.member? table key = some (.relationship r)) :
    (∃ p, CompilesEntry σ source table (key, v) p) ↔ ∃ p, Compiles σ source r.remoteTable v p := by
  simp [← compileEntry_eq_ok, compileEntry_of_member hkey, hm, map_eq_ok, compile_eq_ok]

end Predicate

end TableAccess
