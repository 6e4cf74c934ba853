import TableAccess.Proofs.Permission.Parts
import TableAccess.Proofs.Permission.Stored
import TableAccess.Proofs.Predicate.Alike

/-!
# Clauses that differ in numbers

Floating-point numbers can change when a stored clause is read again, and nothing else can. A clause with
other numbers compiles just as well, and what it compiles to depends on the same things.

* `Clause.Alike`: clauses are the same but for their floating-point numbers.
* `Permission.compile_alike`: **a clause that is like one that compiles** compiles too, with the same
  dependencies.
* `Permission.backendOnly?_of_compile`: what is compiled is for backends only if the clause says so.
-/

namespace TableAccess

namespace Clause

variable {f g : Binary64 → Binary64} {c c' c'' : Clause}

/-! ## The parts of a clause with other numbers -/

theorem predicate_mapFloats (f : Binary64 → Binary64) (c : Clause) :
    (c.mapFloats f).predicate = c.predicate.mapFloats f := by
  cases c <;> rfl

theorem laterCheck_mapFloats (f : Binary64 → Binary64) (c : Clause) :
    (c.mapFloats f).laterCheck = c.laterCheck.map (Json.mapFloats f) := by
  cases c <;> rfl

theorem presets_mapFloats (f : Binary64 → Binary64) (c : Clause) :
    (c.mapFloats f).presets = c.presets.mapFloats f := by
  have hset : ∀ o : Option Presets, (o.map (Presets.mapFloats f)).getD .empty =
      (o.getD .empty).mapFloats f := fun o => by cases o <;> rfl
  cases c with
  | insert c => exact hset c.set
  | update c => exact hset c.set
  | select c => rfl
  | delete c => rfl

theorem columnSpec_mapFloats (f : Binary64 → Binary64) (c : Clause) :
    (c.mapFloats f).columnSpec = c.columnSpec := by
  cases c <;> rfl

theorem computedFields_mapFloats (f : Binary64 → Binary64) (c : Clause) :
    (c.mapFloats f).computedFields = c.computedFields := by
  cases c <;> rfl

theorem limit_mapFloats (f : Binary64 → Binary64) (c : Clause) : (c.mapFloats f).limit = c.limit := by
  cases c <;> rfl

theorem rootFieldsAllowed_mapFloats (f : Binary64 → Binary64) (c : Clause) :
    (c.mapFloats f).RootFieldsAllowed = c.RootFieldsAllowed := by
  cases c <;> rfl

/-- Whether an insert clause is for backends only. -/
def backendOnly? : Clause → Option Bool
  | insert c => some (c.backendOnly.getD false)
  | _ => none

theorem backendOnly?_mapFloats (f : Binary64 → Binary64) (c : Clause) :
    (c.mapFloats f).backendOnly? = c.backendOnly? := by
  cases c <;> rfl

theorem mapFloats_mapFloats (f g : Binary64 → Binary64) (c : Clause) :
    (c.mapFloats f).mapFloats g = c.mapFloats (g ∘ f) := by
  have hjson := fun j => Json.mapFloats_mapFloats f g j
  have hpresets : ∀ p : Presets, (p.mapFloats f).mapFloats g = p.mapFloats (g ∘ f) := by
    intro p
    refine SortedMap.ext ?_
    simp [Presets.mapFloats, SortedMap.mapWithKey, hjson]
  cases c <;>
    simp [mapFloats, InsertClause.mapFloats, SelectClause.mapFloats, UpdateClause.mapFloats,
      DeleteClause.mapFloats, hjson, hpresets, Function.comp_def]

/-! ## Clauses that are alike -/

/-- The clause with zero for every floating-point number. -/
def shape (c : Clause) : Clause := c.mapFloats fun _ => .zero false

/-- **The clauses are the same but for their floating-point numbers.** -/
def Alike (c c' : Clause) : Prop := c.shape = c'.shape

theorem Alike.refl (c : Clause) : c.Alike c := rfl

theorem Alike.symm (h : c.Alike c') : c'.Alike c := Eq.symm h

theorem Alike.trans (h : c.Alike c') (h' : c'.Alike c'') : c.Alike c'' := Eq.trans h h'

theorem alike_mapFloats (f : Binary64 → Binary64) (c : Clause) : (c.mapFloats f).Alike c :=
  mapFloats_mapFloats f _ c

namespace Alike

theorem predicate (h : c.Alike c') : c.predicate.Alike c'.predicate := by
  have hshape := congrArg Clause.predicate h
  rwa [shape, shape, predicate_mapFloats, predicate_mapFloats] at hshape

theorem laterCheck (h : c.Alike c') : Option.Rel Json.Alike c.laterCheck c'.laterCheck := by
  have hshape := congrArg Clause.laterCheck h
  rw [shape, shape, laterCheck_mapFloats, laterCheck_mapFloats] at hshape
  cases ho : c.laterCheck <;> cases ho' : c'.laterCheck <;> rw [ho, ho'] at hshape
  · exact .none
  · cases hshape
  · cases hshape
  · exact .some (Option.some.inj hshape)

theorem presets (h : c.Alike c') :
    List.Forall₂ (fun e e' => e.1 = e'.1 ∧ e.2.Alike e'.2) c.presets.toList c'.presets.toList := by
  have hshape := congrArg (fun c => c.presets.toJson) h
  simp only [shape, presets_mapFloats, ← Presets.mapFloats_toJson] at hshape
  obtain ⟨entries, hentries, hall⟩ := Json.Alike.exists_entries hshape
  rwa [← Json.obj.inj hentries] at hall

theorem columnSpec (h : c.Alike c') : c'.columnSpec = c.columnSpec := by
  rw [← columnSpec_mapFloats _ c', ← columnSpec_mapFloats _ c]
  exact congrArg Clause.columnSpec h.symm

theorem computedFields (h : c.Alike c') : c'.computedFields = c.computedFields := by
  rw [← computedFields_mapFloats _ c', ← computedFields_mapFloats _ c]
  exact congrArg Clause.computedFields h.symm

theorem limit (h : c.Alike c') : c'.limit = c.limit := by
  rw [← limit_mapFloats _ c', ← limit_mapFloats _ c]
  exact congrArg Clause.limit h.symm

theorem rootFieldsAllowed (h : c.Alike c') : c'.RootFieldsAllowed = c.RootFieldsAllowed := by
  rw [← rootFieldsAllowed_mapFloats _ c', ← rootFieldsAllowed_mapFloats _ c]
  exact congrArg Clause.RootFieldsAllowed h.symm

theorem backendOnly? (h : c.Alike c') : c'.backendOnly? = c.backendOnly? := by
  rw [← backendOnly?_mapFloats _ c', ← backendOnly?_mapFloats _ c]
  exact congrArg Clause.backendOnly? h.symm

end Alike

end Clause

namespace Permission

variable {σ : Schema} {source table : String}

/-! ## Compiling -/

theorem resolvePreset_alike (source : String) {column : String} {v v' : Json} (h : v.Alike v')
    {preset : Preset} (hp : resolvePreset σ table column v = .ok preset) :
    ∃ preset', resolvePreset σ table column v' = .ok preset' ∧
      presetUses source table (column, preset') = presetUses source table (column, preset) := by
  obtain ⟨t, ht, ⟨x, hx, rfl⟩ | ⟨hnone, hfits, rfl⟩⟩ := resolvePreset_eq_ok.1 hp
  · exact ⟨_, resolvePreset_eq_ok.2 ⟨t, ht, .inl ⟨x, h.reference?.trans hx, rfl⟩⟩, rfl⟩
  · exact ⟨_, resolvePreset_eq_ok.2 ⟨t, ht, .inr ⟨h.reference?.trans hnone, (t.fits_alike h).trans hfits,
      rfl⟩⟩, rfl⟩

theorem resolvePresets_alike (source : String) {p p' : Presets}
    (h : List.Forall₂ (fun e e' => e.1 = e'.1 ∧ e.2.Alike e'.2) p.toList p'.toList)
    {presets : List (String × Preset)} (hp : resolvePresets σ table p = .ok presets) :
    ∃ presets', resolvePresets σ table p' = .ok presets' ∧
      presetsUses source table presets' = presetsUses source table presets := by
  rw [resolvePresets, mapM_eq_ok] at hp
  simp only [resolvePresets, mapM_eq_ok]
  generalize p.toList = l at h hp
  generalize p'.toList = l' at h
  induction h generalizing presets with
  | nil =>
    cases hp
    exact ⟨[], .nil, rfl⟩
  | @cons e e' _ _ he _ ih =>
    obtain ⟨preset, rest, hpreset, hrest, rfl⟩ := List.forall₂_cons_left_iff.1 hp
    simp only [map_eq_ok, within_eq_ok] at hpreset
    obtain ⟨x, hx, rfl⟩ := hpreset
    obtain ⟨x', hx', huse⟩ := resolvePreset_alike source he.2 hx
    obtain ⟨rest', hrest', huses⟩ := ih hrest
    refine ⟨(e'.1, x') :: rest', .cons ?_ hrest', ?_⟩
    · rw [← he.1, hx']
      rfl
    · show presetUses source table (e'.1, x') ++ presetsUses source table rest' =
        presetUses source table (e.1, x) ++ presetsUses source table rest
      rw [← he.1, huse, huses]

theorem laterCheck_alike {o o' : Option Json} (h : Option.Rel Json.Alike o o')
    {check : Option CompiledPredicate} (hc : Option.Rel (Predicate.Compiles σ source table) o check) :
    ∃ check', Option.Rel (Predicate.Compiles σ source table) o' check' ∧
      check'.map (·.uses) = check.map (·.uses) := by
  cases h with
  | none =>
    cases hc
    exact ⟨none, .none, rfl⟩
  | some h =>
    obtain ⟨q, rfl, hq⟩ : ∃ q, check = some q ∧ Predicate.Compiles σ source table _ q := by
      cases hc with
      | some hq => exact ⟨_, rfl, hq⟩
    obtain ⟨q', hq', huses⟩ := hq.alike h
    exact ⟨some q', .some hq', congrArg some huses⟩

/-- **A clause that is like one that compiles** compiles too, and depends on the same. -/
theorem compile_alike {c c' : Clause} (h : c.Alike c') {p : CompiledPermission}
    (hc : compile σ source table c = .ok p) :
    ∃ p', compile σ source table c' = .ok p' ∧ p'.dependencies = p.dependencies := by
  obtain ⟨x, hx, rfl⟩ := compile_eq_ok.1 hc
  obtain ⟨predicate, hpredicate, hpuses⟩ := hx.predicate.alike h.predicate
  obtain ⟨check, hcheck, hcuses⟩ := laterCheck_alike h.laterCheck hx.laterCheck
  obtain ⟨presets, hpresets, huses⟩ := resolvePresets_alike source h.presets hx.presets
  refine ⟨_, compile_eq_ok.2 ⟨⟨predicate, check, presets, x.columns, x.computedFields, x.limit⟩,
    ⟨hpredicate, hcheck, hpresets, h.columnSpec ▸ hx.columns, h.computedFields ▸ hx.computedFields,
      h.limit ▸ hx.limit, h.rootFieldsAllowed ▸ hx.rootFields⟩, rfl⟩, ?_⟩
  show Parts.dependencies _ source table = x.dependencies source table
  simp only [Parts.dependencies, Parts.predicateUses, Parts.presetUses, hpuses, hcuses, huses]

/-- What is compiled is for backends only if the clause says so. -/
theorem backendOnly?_of_compile {c : Clause} {p : CompiledPermission}
    (hc : compile σ source table c = .ok p) :
    p.descriptor.asInsert?.map (·.backendOnly) = c.backendOnly? := by
  obtain ⟨x, -, rfl⟩ := compile_eq_ok.1 hc
  cases c <;> rfl

end Permission

end TableAccess
