import TableAccess.Proofs.Predicate.Derivation

/-!
# What predicates depend on is there

A predicate compiles only if the columns, the relationships and the computed fields that it names are
in the schema. Of a table that a relationship leads to nothing is asked but the names in it, so where
there are none the table need not exist.

* `Dependency.Resolves`: what a dependency names is there. `Dependency.IsRemote`: the exception.
* `Predicate.Compiles.grounded`: **a predicate depends on what is there**, and on tables that
  relationships lead to.
-/

namespace TableAccess

namespace Dependency

/-- What the dependency names is there: its table, or the member of its table. A computed field must
return a scalar. -/
def Resolves (σ : Schema) (d : Dependency) : Prop :=
  match d.target with
  | .table => σ.tableExists d.table = true
  | .column n => (σ.column? d.table n).isSome = true
  | .relationship n => (σ.relationship? d.table n).isSome = true
  | .computedField n => ∃ t, σ.computedField? d.table n = some (.scalar t)

/-- The dependency is on the table that a relationship leads to, and the relationship is depended on as
well. -/
def IsRemote (σ : Schema) (ds : List Dependency) (d : Dependency) : Prop :=
  ∃ table n r, ⟨d.source, table, .relationship n, .untyped⟩ ∈ ds ∧ σ.relationship? table n = some r ∧
    d = ⟨d.source, r.remoteTable, .table, .table⟩

/-- The relationship that is followed stays among more dependencies. -/
theorem IsRemote.mono {σ : Schema} {ds es : List Dependency} {d : Dependency} (h : ds ⊆ es) :
    d.IsRemote σ ds → d.IsRemote σ es := by
  rintro ⟨table, n, r, hmem, hr, heq⟩
  exact ⟨table, n, r, h hmem, hr, heq⟩

/-- **The dependencies are grounded** in the schema of a source: each is one of the source, and what it
names is there, unless it is the table that a relationship leads to. -/
def Grounded (σ : Schema) (source : String) (ds : List Dependency) : Prop :=
  ∀ d ∈ ds, d.source = source ∧ (d.Resolves σ ∨ d.IsRemote σ ds)

namespace Grounded

variable {σ : Schema} {source : String} {ds es : List Dependency}

theorem of_resolves (h : ∀ d ∈ ds, d.source = source ∧ d.Resolves σ) : Grounded σ source ds :=
  fun d hd => (h d hd).imp_right .inl

theorem append (hd : Grounded σ source ds) (he : Grounded σ source es) : Grounded σ source (ds ++ es) := by
  intro d h
  rcases List.mem_append.1 h with h | h
  · exact (hd d h).imp_right (.imp_right (.mono (List.subset_append_left _ _)))
  · exact (he d h).imp_right (.imp_right (.mono (List.subset_append_right _ _)))

end Grounded

end Dependency

namespace Schema

variable {σ : Schema} {table name : String}

theorem column?_of_member? {t : ColumnType} (h : σ.member? table name = some (.column t)) :
    σ.column? table name = some t := by
  unfold member? at h
  split at h
  · cases h
    assumption
  · split at h
    · cases h
    · simp at h

theorem relationship?_of_member? {r : Relationship} (h : σ.member? table name = some (.relationship r)) :
    σ.relationship? table name = some r := by
  unfold member? at h
  split at h
  · cases h
  · split at h
    · cases h
      assumption
    · simp at h

theorem computedField?_of_member? {returns : Returns}
    (h : σ.member? table name = some (.computedField returns)) :
    σ.computedField? table name = some returns := by
  unfold member? at h
  split at h
  · cases h
  · split at h
    · cases h
    · simpa using h

end Schema

namespace Predicate

open Dependency

variable {σ : Schema} {source : String}

/-- The columns that a field is compared with are columns of its table. -/
theorem isSome_column?_of_comparisons {table : String} {t : ColumnType} {v : Json} {cs : List Comparison}
    (h : comparisons σ table t v = .ok cs) {c : Comparison} (hc : c ∈ cs) {other : String}
    (ho : c.operand = .column other) : (σ.column? table other).isSome = true := by
  obtain ⟨entries, rfl, hcs⟩ := comparisons_eq_ok.1 h
  obtain ⟨⟨key, v⟩, -, hcompare⟩ := exists_of_mem_right hcs hc
  obtain ⟨op, o⟩ := c
  obtain rfl : o = .column other := ho
  cases hcompare.operand with
  | column _ hother => exact hother

theorem grounded_fieldUses {table : String} {t : ColumnType} {v : Json} {cs : List Comparison}
    {target : Target} {r : Reason} (h : comparisons σ table t v = .ok cs) (hr : reason cs = r)
    (ht : Dependency.Resolves σ ⟨source, table, target, r⟩) :
    Grounded σ source (fieldUses source table target cs).dependencies := by
  refine .append (.of_resolves fun d hd => ?_) (.of_resolves fun d hd => ?_)
  · obtain ⟨c, hc, hd⟩ := List.mem_filterMap.1 hd
    split at hd
    next other ho =>
      obtain rfl := Option.some.inj hd
      exact ⟨rfl, isSome_column?_of_comparisons h hc ho⟩
    next => cases hd
  · obtain rfl := List.mem_singleton.1 hd
    exact ⟨rfl, hr ▸ ht⟩

theorem grounded_relationshipUses {table name : String} {r : Relationship}
    (h : σ.relationship? table name = some r) :
    Grounded σ source (relationshipUses source table name r).dependencies := by
  rintro d (_ | ⟨_, _ | ⟨_, hd⟩⟩)
  · exact ⟨rfl, .inl (Option.isSome_of_eq_some h)⟩
  · exact ⟨rfl, .inr ⟨table, name, r, List.mem_cons_self, h, rfl⟩⟩
  · cases hd

mutual

/-- **A predicate depends on what is there**, and on tables that relationships lead to. -/
theorem Compiles.grounded {table : String} {doc : Json} {p : CompiledPredicate} :
    Compiles σ source table doc p → Grounded σ source p.uses.dependencies
  | .object hps => CompilesEntries.grounded hps

theorem CompilesEntry.grounded {table : String} {entry : String × Json} {p : CompiledPredicate} :
    CompilesEntry σ source table entry p → Grounded σ source p.uses.dependencies
  | .and hps => CompilesItems.grounded hps
  | .or hps => CompilesItems.grounded hps
  | .not hp => (Compiles.grounded hp :)
  | .column _ hm hcs =>
    grounded_fieldUses hcs rfl (Option.isSome_of_eq_some (Schema.column?_of_member? hm))
  | .computedField _ hm hcs => grounded_fieldUses hcs rfl ⟨_, Schema.computedField?_of_member? hm⟩
  | .relationship _ hm hp =>
    -- of the remote table only the names that are used in it are asked for
    (grounded_relationshipUses (Schema.relationship?_of_member? hm)).append (Compiles.grounded hp)

theorem CompilesEntries.grounded {table : String} {entries : List (String × Json)}
    {ps : List CompiledPredicate} : CompilesEntries σ source table entries ps →
      Grounded σ source (usesOf ps).dependencies
  | .nil => .of_resolves nofun
  | .cons hp hps => (CompilesEntry.grounded hp).append (CompilesEntries.grounded hps)

theorem CompilesItems.grounded {table : String} {items : List Json} {ps : List CompiledPredicate} :
    CompilesItems σ source table items ps → Grounded σ source (usesOf ps).dependencies
  | .nil => .of_resolves nofun
  | .cons hp hps => (Compiles.grounded hp).append (CompilesItems.grounded hps)

end

end Predicate

end TableAccess
