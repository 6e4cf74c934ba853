import TableAccess.Proofs.Permission.Checks
import TableAccess.Proofs.Permission.Content

/-!
# All columns and their list

A clause may mean all columns or list them by name. The one asks the schema for the columns of the table, the
other looks each name up, so it is not clear at once that they agree: a table may declare a column twice, or a
relationship under the name of a column.

* `Clause.listing`: a clause with its columns listed.
* `Permission.compile_listing`: **listing all columns makes no difference** but for the dependencies on them.
-/

namespace TableAccess

theorem nodup_eraseDups {α : Type} [BEq α] [LawfulBEq α] (l : List α) : l.eraseDups.Nodup := by
  match l with
  | [] => exact .nil
  | a :: l =>
    rw [List.eraseDups_cons, List.nodup_cons, List.mem_eraseDups]
    exact ⟨by simp, nodup_eraseDups (l.filter fun b => !b == a)⟩
termination_by l.length
decreasing_by exact Nat.lt_succ_of_le (List.length_filter_le _ l)

namespace Clause

/-- The clause with its columns listed by name. A clause without columns stays as it is. -/
def listing (names : List String) : Clause → Clause
  | insert c => insert { c with columns := some (.listed names) }
  | select c => select { c with columns := .listed names }
  | update c => update { c with columns := .listed names }
  | delete c => delete c

/-- **The dependencies that come before those on listed columns**: the table, those of the predicates, and the
columns of the presets. -/
def earlyDependencies (source table : String) (clause : Clause) (d : Descriptor) : List Dependency :=
  [⟨source, table, .table, .table⟩] ++
    (clause.predicatesOf d).flatMap (fun e => e.dependencies source table) ++
    clause.presets.toList.map fun p => ⟨source, table, .column p.1, presetReason p.2⟩

/-- The dependencies on computed fields. -/
def fieldDependencies (source table : String) (clause : Clause) : List Dependency :=
  clause.computedFields.eraseDups.map fun n => ⟨source, table, .computedField n, .untyped⟩

theorem mentionedDependencies_eq (source table : String) (clause : Clause) (d : Descriptor) :
    clause.mentionedDependencies source table d = clause.earlyDependencies source table d ++
      clause.listedColumns.map (fun n => ⟨source, table, .column n, .untyped⟩) ++
      clause.fieldDependencies source table := rfl

section

variable {clause : Clause} {names : List String} (hall : clause.columnSpec = .all)
include hall

theorem columnSpec_listing : (clause.listing names).columnSpec = .listed names := by
  cases clause with
  | insert c | select c | update c => rfl
  | delete c => cases hall

theorem listedColumns_of_all : clause.listedColumns = [] := by
  rw [listedColumns, hall]

theorem listedColumns_listing : (clause.listing names).listedColumns = names.eraseDups := by
  rw [listedColumns, columnSpec_listing hall]

end

section

variable (clause : Clause) (names : List String) (source table : String)

theorem earlyDependencies_listing (d : Descriptor) :
    (clause.listing names).earlyDependencies source table d = clause.earlyDependencies source table d := by
  cases clause <;> rfl

theorem fieldDependencies_listing :
    (clause.listing names).fieldDependencies source table = clause.fieldDependencies source table := by
  cases clause <;> rfl

end

end Clause

namespace Permission

variable {catalog : Catalog} {source table : String} {clause : Clause} {names : List String}

/-- **Listed columns resolve like all columns**, if they are all. -/
theorem resolveColumns_listed (hnames : ∀ n, n ∈ names ↔ n ∈ catalog.columnNames table) :
    resolveColumns catalog.schema source table (.listed names) =
      .ok (.ofList (catalog.columnNames table),
        names.eraseDups.map fun n => ⟨source, table, .column n, .untyped⟩) := by
  have htypes : ∀ n ∈ names, ∃ t, columnType catalog.schema table n = .ok t := by
    intro n hn
    obtain ⟨t, ht⟩ := Catalog.mem_columnNames.1 ((hnames n).1 hn)
    exact ⟨t, columnType_eq_ok.2 ht⟩
  obtain ⟨types, htypes⟩ := exists_mapM_eq_ok htypes
  rw [resolveColumns, htypes, ok_bind, SortedSet.ofList_congr hnames]
  rfl

theorem resolveColumns_all : resolveColumns catalog.schema source table .all =
    .ok (.ofList (catalog.columnNames table), []) := by
  rw [← Catalog.map_fst_columns]
  rfl

/-- The check of a column list that lists all columns finds nothing, like that of all columns. -/
theorem firstFault_listing (hnames : ∀ n, n ∈ names ↔ n ∈ catalog.columnNames table)
    (hall : clause.columnSpec = .all) :
    firstFault catalog.schema source table (clause.listing names).checks =
      firstFault catalog.schema source table clause.checks := by
  have hlisted : (Check.columns (.listed names)).fault? catalog.schema source table = none := by
    rw [Check.fault?, resolveColumns_listed hnames]
    rfl
  have hspec : (Check.columns .all).fault? catalog.schema source table = none := rfl
  cases clause with
  | insert c =>
    rw [Clause.columnSpec] at hall
    simp only [Clause.listing, Clause.checks, hall, Option.getD_some, firstFault_cons, hlisted, hspec]
  | select c | update c =>
    rw [Clause.columnSpec] at hall
    simp only [Clause.listing, Clause.checks, hall, List.cons_append, firstFault_cons, hlisted, hspec]
  | delete c => cases hall

/-- What a clause resolves to, with its columns listed, makes the same descriptor. -/
theorem resolves_listing (hnames : ∀ n, n ∈ names ↔ n ∈ catalog.columnNames table)
    (hall : clause.columnSpec = .all) {x : Parts} (hx : clause.Resolves catalog.schema source table x) :
    ∃ y, (clause.listing names).Resolves catalog.schema source table y ∧
      y.descriptor source table (clause.listing names) = x.descriptor source table clause := by
  let listed : List Dependency := names.eraseDups.map fun n => ⟨source, table, .column n, .untyped⟩
  have hcolumns : resolveColumns catalog.schema source table (clause.listing names).columnSpec =
      .ok (x.columns.1, listed) := by
    have hx := hx.columns
    rw [hall, resolveColumns_all] at hx
    rw [Clause.columnSpec_listing hall, resolveColumns_listed hnames, ← Except.ok.inj hx]
  refine ⟨{ x with columns := (x.columns.1, listed) }, ?_, by cases clause <;> rfl⟩
  cases clause with
  | insert c | select c | update c =>
    exact ⟨hx.predicate, hx.laterCheck, hx.presets, hcolumns, hx.computedFields, hx.limit, hx.rootFields⟩
  | delete c => cases hall

/-- **Listing all columns makes no difference**, in any order and with any repetitions: the clauses fail with
the same fault, or their descriptors are equal and the columns are depended on besides, each once, behind the
presets and before the computed fields. -/
theorem compile_listing (hall : clause.columnSpec = .all)
    (hnames : ∀ n, n ∈ names ↔ n ∈ catalog.columnNames table) :
    (∃ f, compile catalog.schema source table clause = .error f ∧
      compile catalog.schema source table (clause.listing names) = .error f) ∨
    ∃ (d : Descriptor) (columns : List String), columns.Nodup ∧
      (∀ n, n ∈ columns ↔ n ∈ catalog.columnNames table) ∧
      compile catalog.schema source table clause =
        .ok ⟨d, clause.earlyDependencies source table d ++ clause.fieldDependencies source table⟩ ∧
      compile catalog.schema source table (clause.listing names) =
        .ok ⟨d, clause.earlyDependencies source table d ++
          columns.map (fun n => ⟨source, table, .column n, .untyped⟩) ++
          clause.fieldDependencies source table⟩ := by
  cases hp : compile catalog.schema source table clause with
  | error f =>
    refine .inl ⟨f, rfl, ?_⟩
    rw [← fault?_eq_some, fault?_compile] at hp ⊢
    rw [firstFault_listing hnames hall, hp]
  | ok p =>
    obtain ⟨x, hx, rfl⟩ := compile_eq_ok.1 hp
    obtain ⟨y, hy, hd⟩ := resolves_listing hnames hall hx
    refine .inr ⟨x.descriptor source table clause, names.eraseDups, nodup_eraseDups names,
      fun n => List.mem_eraseDups.trans (hnames n), ?_, ?_⟩
    · rw [Parts.permission, dependencies_of_resolves hx, Clause.mentionedDependencies_eq,
        Clause.listedColumns_of_all hall, List.map_nil, List.append_nil]
    · rw [compile_eq_ok]
      refine ⟨y, hy, ?_⟩
      rw [Parts.permission, dependencies_of_resolves hy, hd, Clause.mentionedDependencies_eq,
        Clause.listedColumns_listing hall, Clause.earlyDependencies_listing, Clause.fieldDependencies_listing]

/-- Authors declare their id twice, and their publisher as a column and as a relationship. -/
theorem compile_listing_authors :
    let author : Table := ⟨"author", [⟨"id", .integer⟩, ⟨"publisher", .integer⟩, ⟨"id", .text⟩],
      [⟨"publisher", ⟨"publisher", .one⟩⟩], []⟩
    let catalog := Catalog.ofTables [author]
    let names := ["publisher", "id", "publisher"]
    let clause : Clause := .update {
      columns := .all
      set := some (.ofList [("id", .str "X-Hasura-Id")])
      filter := .obj [("publisher", .obj [("_eq", .num (.int 7))])]
      check := none }
    clause.columnSpec = .all ∧ (∀ n, n ∈ names ↔ n ∈ catalog.columnNames "author") ∧
      ∃ (d : Descriptor) (columns : List String), columns.Nodup ∧
        (∀ n, n ∈ columns ↔ n ∈ catalog.columnNames "author") ∧
        compile catalog.schema "default" "author" clause =
          .ok ⟨d, clause.earlyDependencies "default" "author" d ++
            clause.fieldDependencies "default" "author"⟩ ∧
        compile catalog.schema "default" "author" (clause.listing names) =
          .ok ⟨d, clause.earlyDependencies "default" "author" d ++
            columns.map (fun n => ⟨"default", "author", .column n, .untyped⟩) ++
            clause.fieldDependencies "default" "author"⟩ := by
  intro author catalog names clause
  have hdeclared : catalog.columnNames "author" = ["id", "publisher", "id"] := by decide +kernel
  have hnames : ∀ n, n ∈ names ↔ n ∈ catalog.columnNames "author" := by
    intro n
    rw [hdeclared]
    simp only [names, List.mem_cons, List.not_mem_nil, or_false]
    tauto
  have hok : (compile catalog.schema "default" "author" clause).isOk = true := by decide +kernel
  refine ⟨rfl, hnames, (compile_listing rfl hnames).resolve_left ?_⟩
  rintro ⟨f, hf, -⟩
  rw [hf] at hok
  cases hok

end Permission

end TableAccess
