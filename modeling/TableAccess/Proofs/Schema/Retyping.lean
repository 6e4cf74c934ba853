import Mathlib.Data.List.Forall2
import TableAccess.Schema.Catalog

/-!
# Another type for a column

Two schemas may differ in nothing but the type of one column. Names stand for the same in both, but for
that column, which stands for a column of either type.

* `Schema.Retypes`: the notion. `Schema.Retypes.member?`: what names stand for.
* `Catalog.retypes`: **a catalog in which a column is declared with another type** has such a schema.
-/

namespace TableAccess

/-- **The schemas differ in nothing but the type of a column**, which is `t` in `σ` and `u` in `τ`. -/
structure Schema.Retypes (σ τ : Schema) (table column : String) (t u : ColumnType) : Prop where
  before : σ.column? table column = some t
  after : τ.column? table column = some u
  tableExists : τ.tableExists = σ.tableExists
  column? : ∀ table' name, (table', name) ≠ (table, column) → τ.column? table' name = σ.column? table' name
  computedField? : τ.computedField? = σ.computedField?
  relationship? : τ.relationship? = σ.relationship?
  columns : ∀ table', List.Forall₂ (fun a b => a.1 = b.1 ∧ (a.2 = b.2 ∨ (table', a.1) = (table, column)))
    (σ.columns table') (τ.columns table')

namespace Schema.Retypes

variable {σ τ : Schema} {table column : String} {t u : ColumnType}

theorem isSome_column? (h : σ.Retypes τ table column t u) (table' name : String) :
    (τ.column? table' name).isSome = (σ.column? table' name).isSome := by
  by_cases heq : (table', name) = (table, column)
  · obtain ⟨rfl, rfl⟩ := Prod.mk.inj heq
    rw [h.before, h.after]
    rfl
  · rw [h.column? table' name heq]

theorem member?_before (h : σ.Retypes τ table column t u) :
    σ.member? table column = some (.column t) := by
  rw [member?, h.before]

theorem member?_after (h : σ.Retypes τ table column t u) :
    τ.member? table column = some (.column u) := by
  rw [member?, h.after]

theorem member? (h : σ.Retypes τ table column t u) {table' name : String}
    (hne : (table', name) ≠ (table, column)) : τ.member? table' name = σ.member? table' name := by
  rw [Schema.member?, Schema.member?, h.column? table' name hne, h.relationship?, h.computedField?]

/-- What is no column is not the column. -/
theorem member?_of_ne_column (h : σ.Retypes τ table column t u) {table' name : String} {m : Member}
    (hm : σ.member? table' name = some m) (hne : ∀ t', m ≠ .column t') : τ.member? table' name = some m := by
  rw [h.member?, hm]
  rintro heq
  obtain ⟨rfl, rfl⟩ := Prod.mk.inj heq
  exact hne t (Option.some.inj (hm.symm.trans h.member?_before))

end Schema.Retypes

namespace Catalog

theorem table?_add (c : Catalog) (tb : Table) (name : String) :
    (c.add tb).table? name = if name = tb.name then some tb else c.table? name := by
  simp [table?, add]

theorem find?_columns {before after : List Column} {column name : String} (t : ColumnType)
    (hb : ∀ x ∈ before, x.name ≠ column) :
    (before ++ ⟨column, t⟩ :: after).find? (fun c => c.name == name) =
      if name = column then some ⟨column, t⟩ else (before ++ after).find? fun c => c.name == name := by
  by_cases h : name = column
  · subst h
    have hnone : before.find? (fun c => c.name == name) = none :=
      List.find?_eq_none.2 fun x hx => by simpa using hb x hx
    simp [List.find?_append, hnone]
  · rw [if_neg h, List.find?_append, List.find?_append, List.find?_cons_of_neg (by simpa using Ne.symm h)]

/-- **Another type for the first column of its name in a table** gives a schema that differs in nothing
else. -/
theorem retypes (c : Catalog) (tb : Table) {before after : List Column} {column : String}
    (hb : ∀ x ∈ before, x.name ≠ column) (t u : ColumnType) :
    (c.add { tb with columns := before ++ ⟨column, t⟩ :: after }).schema.Retypes
      (c.add { tb with columns := before ++ ⟨column, u⟩ :: after }).schema tb.name column t u where
  before := by simp [schema, table?_add, Table.column?, find?_columns t hb]
  after := by simp [schema, table?_add, Table.column?, find?_columns u hb]
  tableExists := by
    funext table
    simp only [schema, table?_add]
    split <;> rfl
  column? table name hne := by
    simp only [schema, table?_add]
    split
    next h =>
      have hname : name ≠ column := fun hname => hne (by rw [h, hname])
      simp [Table.column?, find?_columns _ hb, hname]
    next => rfl
  computedField? := by
    funext table name
    simp only [schema, table?_add]
    split <;> rfl
  relationship? := by
    funext table name
    simp only [schema, table?_add]
    split <;> rfl
  columns table := by
    have hsame : ∀ l : List (String × ColumnType),
        List.Forall₂ (fun a b => a.1 = b.1 ∧ (a.2 = b.2 ∨ (table, a.1) = (tb.name, column))) l l :=
      fun l => List.forall₂_same.2 fun _ _ => ⟨rfl, .inl rfl⟩
    simp only [schema, table?_add]
    by_cases h : table = tb.name
    · simp only [if_pos h, List.map_append, List.map_cons]
      exact List.rel_append (hsame _) (.cons ⟨rfl, .inr (by rw [h])⟩ (hsame _))
    · simp only [if_neg h]
      exact hsame _

end Catalog

end TableAccess
