import TableAccess.Proofs.Predicate.Alike
import TableAccess.Proofs.Schema.Widening

/-!
# Predicates when integers become numbers

A document that compiles still compiles when integers of the schema have become numbers, and nothing of the
predicate changes but the types that are recorded in it.

* `Expr.widened`: the predicate with the types of widened fields changed.
* `Predicate.Compiles.widened`: **a document compiles to the widened predicate**, and uses the same.
-/

namespace TableAccess

namespace Expr

mutual

/-- **A predicate on the rows of `table` with the types of widened fields changed.** -/
def widened (w : Widening) : (table : String) → Expr → Expr
  | table, .and parts => .and (widenedParts w table parts)
  | table, .or parts => .or (widenedParts w table parts)
  | table, .not part => .not (widened w table part)
  | table, .column name t cs => .column name (w.columnType table name t) cs
  | table, .computedField name t cs => .computedField name (w.fieldType table name t) cs
  | _, .relationship name remoteTable part => .relationship name remoteTable (widened w remoteTable part)

/-- Predicates with the types of widened fields changed. -/
def widenedParts (w : Widening) : (table : String) → List Expr → List Expr
  | _, [] => []
  | table, e :: rest => widened w table e :: widenedParts w table rest

end

theorem widenedParts_eq_map (w : Widening) (table : String) (parts : List Expr) :
    widenedParts w table parts = parts.map (widened w table) := by
  induction parts with
  | nil => rfl
  | cons e rest ih => rw [widenedParts, ih, List.map_cons]

theorem widened_conjunction (w : Widening) (table : String) (parts : List Expr) :
    (conjunction parts).widened w table = conjunction (parts.map (widened w table)) := by
  match parts with
  | [] => rfl
  | [e] => rfl
  | e :: e' :: rest => exact congrArg Expr.and (widenedParts_eq_map w table _)

end Expr

namespace Predicate

/-- A compiled predicate on the rows of `table` with the types of widened fields changed. -/
def widened (w : Widening) (table : String) (p : CompiledPredicate) : CompiledPredicate :=
  ⟨p.expr.widened w table, p.uses⟩

theorem usesOf_map_widened (w : Widening) (table : String) (ps : List CompiledPredicate) :
    usesOf (ps.map (widened w table)) = usesOf ps :=
  usesOf_congr (by rw [List.map_map]; rfl)

theorem map_expr_widened (w : Widening) (table : String) (ps : List CompiledPredicate) :
    (ps.map (widened w table)).map (·.expr) = (ps.map (·.expr)).map (Expr.widened w table) := by
  rw [List.map_map, List.map_map]
  rfl

/-! ## Comparisons -/

variable {σ τ : Schema} {w : Widening} {source table : String} {t u : ColumnType}

/-- **Where fields of one type may stand, those of another may too**: what fits the one fits the other, and
patterns are matched with both if with one. -/
structure Suits (t u : ColumnType) : Prop where
  fits : ∀ v, t.fits v = true → u.fits v = true
  text : t = .text → u = .text

theorem suits_widened (t : ColumnType) (chosen : Bool) : Suits t (if chosen then t.widened else t) := by
  split
  next => exact ⟨fun _ => ColumnType.fits_widened, by rintro rfl; rfl⟩
  next => exact ⟨fun _ => id, id⟩

theorem Suits.scalar (h : Suits t u) {v : Json} {s : Scalar} (hs : scalar t v = .ok s) :
    Predicate.scalar u v = .ok s := by
  refine scalar_eq_ok.2 ((scalar_eq_ok.1 hs).imp_right ?_)
  rintro ⟨hnone, hfits, rfl⟩
  exact ⟨hnone, h.fits v hfits, rfl⟩

theorem OperandOf.suits (h : Suits t u) {op : Operator} {v : Json} {o : Operand}
    (ho : OperandOf σ table t op v o) : OperandOf σ table u op v o := by
  cases ho with
  | column hop hother => exact .column hop hother
  | null => exact .null
  | list hop hss =>
    exact .list hop (mapM_eq_ok.2 ((mapM_eq_ok.1 hss).imp fun _ _ => h.scalar))
  | listVariable hop hx => exact .listVariable hop hx
  | value hop htext hs => exact .value hop (fun hp => h.text (htext hp)) (h.scalar hs)

/-- **What a field is compared with suits a wider field as well.** -/
theorem Suits.comparisons (hτ : σ.Widens τ w) (h : Suits t u) {v : Json} {cs : List Comparison}
    (hcs : comparisons σ table t v = .ok cs) : Predicate.comparisons τ table u v = .ok cs := by
  have hcolumns : Predicate.comparisons τ table t v = .ok cs :=
    comparisons_of_columns hcs fun _ _ other _ hσ => (hτ.isSome_column? table other).trans hσ
  obtain ⟨entries, rfl, hall⟩ := comparisons_eq_ok.1 hcolumns
  exact comparisons_eq_ok.2 ⟨entries, rfl, hall.imp fun _ _ hc => ⟨hc.op, hc.operand.suits h⟩⟩

/-! ## Documents -/

mutual

/-- **A document compiles to the widened predicate**, and uses the same. -/
theorem Compiles.widened (hτ : σ.Widens τ w) {table : String} {doc : Json} {p : CompiledPredicate} :
    Compiles σ source table doc p → Compiles τ source table doc (Predicate.widened w table p)
  | .object hps => by
    have h := Compiles.object (CompilesEntries.widened hτ hps)
    rwa [usesOf_map_widened, map_expr_widened, ← Expr.widened_conjunction] at h

theorem CompilesEntry.widened (hτ : σ.Widens τ w) {table : String} {entry : String × Json}
    {p : CompiledPredicate} :
    CompilesEntry σ source table entry p → CompilesEntry τ source table entry (Predicate.widened w table p)
  | .and hps => by
    have h := CompilesEntry.and (CompilesItems.widened hτ hps)
    rwa [usesOf_map_widened, map_expr_widened, ← Expr.widenedParts_eq_map] at h
  | .or hps => by
    have h := CompilesEntry.or (CompilesItems.widened hτ hps)
    rwa [usesOf_map_widened, map_expr_widened, ← Expr.widenedParts_eq_map] at h
  | .not hp => .not (hp.widened hτ)
  | .column hkey hm hcs =>
    .column hkey (by rw [hτ.member?, hm]; rfl) ((suits_widened _ _).comparisons hτ hcs)
  | .computedField hkey hm hcs =>
    .computedField hkey (by rw [hτ.member?, hm]; rfl) ((suits_widened _ _).comparisons hτ hcs)
  | .relationship hkey hm hp => .relationship hkey (by rw [hτ.member?, hm]; rfl) (hp.widened hτ)

theorem CompilesEntries.widened (hτ : σ.Widens τ w) {table : String} {entries : List (String × Json)}
    {ps : List CompiledPredicate} : CompilesEntries σ source table entries ps →
      CompilesEntries τ source table entries (ps.map (Predicate.widened w table))
  | .nil => .nil
  | .cons hp hps => .cons (hp.widened hτ) (hps.widened hτ)

theorem CompilesItems.widened (hτ : σ.Widens τ w) {table : String} {items : List Json}
    {ps : List CompiledPredicate} : CompilesItems σ source table items ps →
      CompilesItems τ source table items (ps.map (Predicate.widened w table))
  | .nil => .nil
  | .cons hp hps => .cons (hp.widened hτ) (hps.widened hτ)

end

end Predicate

end TableAccess
