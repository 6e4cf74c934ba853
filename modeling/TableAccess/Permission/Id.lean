import TableAccess.Json.Record
import TableAccess.Permission.Kind
import TableAccess.Text.Quoted

/-!
# Identities of permissions

A permission is told by its source, table, role and kind, and identities are ordered in that order.

* `compare_eq_iff`: two identities compare equal only if they are the same.
-/

namespace TableAccess

/-- What tells one permission from another. -/
structure PermissionId where
  source : String
  table : String
  role : String
  kind : Kind
deriving DecidableEq, Repr, Inhabited

namespace PermissionId

/-- Identities are ordered by source, table, role and kind. -/
instance : Ord PermissionId :=
  ⟨compareLex (compareOn fun i => [i.source, i.table, i.role]) (compareOn fun i => i.kind.rank)⟩

instance : Std.TransOrd PermissionId :=
  inferInstanceAs (Std.TransCmp
    (compareLex (compareOn fun i : PermissionId => [i.source, i.table, i.role])
      (compareOn fun i : PermissionId => i.kind.rank)))

instance : Std.LawfulEqOrd PermissionId where
  compare_self := Std.ReflCmp.compare_self
  eq_of_compare {a b} h := by
    obtain ⟨hn, hk⟩ := Ordering.then_eq_eq.1 h
    have hn := Std.LawfulEqCmp.eq_of_compare (α := List String) hn
    have hk := Std.LawfulEqCmp.eq_of_compare (α := Nat) hk
    obtain ⟨s, t, r, k⟩ := a
    obtain ⟨s', t', r', k'⟩ := b
    simp only [List.cons.injEq, and_true] at hn
    obtain ⟨rfl, rfl, rfl⟩ := hn
    obtain rfl : k = k' := Kind.rank_injective hk
    rfl

/-- **Identities compare equal only if they are the same.** -/
theorem compare_eq_iff {a b : PermissionId} : compare a b = .eq ↔ a = b :=
  ⟨Std.LawfulEqCmp.eq_of_compare, fun h => h ▸ Std.ReflCmp.compare_self⟩

/-- The text that stands for an identity in listings. -/
def display (i : PermissionId) : String :=
  i.kind.name ++ " permission on " ++ Text.quoted i.table ++ " for role " ++ Text.quoted i.role ++
    " in source " ++ Text.quoted i.source

/-- An identity as JSON. -/
def toJson (i : PermissionId) : Json :=
  .obj [("source", .str i.source), ("table", .str i.table), ("role", .str i.role),
    ("kind", i.kind.toJson)]

/-- How an identity is read. -/
def record : Record PermissionId :=
  mk <$> .required "source" Reader.string [] <*> .required "table" Reader.string []
    <*> .required "role" Reader.string [] <*> .required "kind" Kind.reader []

/-- Reads an identity. -/
def reader : Reader PermissionId := record.lenient

end PermissionId

end TableAccess
