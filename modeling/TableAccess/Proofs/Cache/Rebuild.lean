import TableAccess.Cache
import TableAccess.Proofs.Sorted
import TableAccess.Proofs.Success

/-!
# Rebuilding the cache

For every permission the cache has a *slot*, where it may hold a compiled permission, or the rule that
a definition breaks. Each way of rebuilding is told by what it does to the slots.

* `slot_record`, `slot_forget`, `slot_bump`, `slot_refreshAll`: **what rebuilding does to a slot.**
* `Slot.Shows`: a slot shows how compiling ended.
-/

namespace TableAccess

/-- What the cache holds for one permission. -/
structure Slot where
  entry : Option CachedPermission
  broken : Option (Located RuleFault)

namespace Slot

/-- The slot in which nothing is held. -/
def empty : Slot := ⟨none, none⟩

/-- The slot of a definition that has just been compiled. -/
def ofResult : Except (Located RuleFault) CompiledPermission → Slot
  | .ok p => ⟨some ⟨p, 0⟩, none⟩
  | .error f => ⟨none, some f⟩

/-- **The slot shows how compiling ended**: the compiled permission, or the failure, and nothing else. -/
def Shows (s : Slot) : Except (Located RuleFault) CompiledPermission → Prop
  | .ok p => s.entry.map (·.compiled) = some p ∧ s.broken = none
  | .error f => s.entry = none ∧ s.broken = some f

theorem shows_ofResult (r : Except (Located RuleFault) CompiledPermission) : (ofResult r).Shows r := by
  cases r <;> exact ⟨rfl, rfl⟩

/-- The slots are the same but for the changes they have counted. -/
def Same (s t : Slot) : Prop :=
  s.entry.map (·.compiled) = t.entry.map (·.compiled) ∧ s.broken = t.broken

theorem Shows.same {s t : Slot} {r : Except (Located RuleFault) CompiledPermission} (hs : s.Shows r)
    (ht : t.Shows r) : s.Same t := by
  cases r with
  | ok p => exact ⟨hs.1.trans ht.1.symm, hs.2.trans ht.2.symm⟩
  | error f => exact ⟨by rw [hs.1, ht.1], hs.2.trans ht.2.symm⟩

theorem Shows.held {s : Slot} {r : Except (Located RuleFault) CompiledPermission} (h : s.Shows r) :
    s.entry.isSome ∨ s.broken.isSome := by
  cases r with
  | ok p => exact .inl (by rw [← Option.isSome_map, h.1]; rfl)
  | error f => exact .inr (by rw [h.2]; rfl)

/-- A change counted. -/
def bump (s : Slot) : Slot := { s with entry := s.entry.map fun p => { p with version := p.version + 1 } }

theorem shows_bump {s : Slot} {r : Except (Located RuleFault) CompiledPermission} (h : s.Shows r) :
    s.bump.Shows r := by
  cases r with
  | ok p => exact ⟨by rw [bump, Option.map_map]; exact h.1, h.2⟩
  | error f => exact ⟨by rw [bump, h.1]; rfl, h.2⟩

end Slot

namespace PermissionCache

variable (c : PermissionCache) (i j : PermissionId)

/-- What the cache holds for a permission. -/
def slot : Slot := ⟨c.entries.get? i, c.inconsistent.get? i⟩

theorem slot_forget : (c.forget i).slot j = if j = i then .empty else c.slot j := by
  simp only [slot, forget, SortedMap.get?_erase, PermissionId.compare_eq_iff]
  split <;> rfl

theorem slot_record (d : Definition) :
    (c.record i d).slot j = if j = i then .ofResult (c.compile i d) else c.slot j := by
  unfold record
  split
  next p hp =>
    simp only [slot, SortedMap.get?_insert, SortedMap.get?_erase, PermissionId.compare_eq_iff, hp]
    split <;> rfl
  next f hf =>
    simp only [slot, SortedMap.get?_insert, SortedMap.get?_erase, PermissionId.compare_eq_iff, hf]
    split <;> rfl

theorem slot_bump : (c.bump i).slot j = if j = i then (c.slot i).bump else c.slot j := by
  unfold bump
  split
  next h =>
    split
    next hj => subst hj; simp [slot, Slot.bump, h]
    next => rfl
  next p h =>
    simp only [slot, SortedMap.get?_insert, PermissionId.compare_eq_iff]
    split
    next hj => subst hj; simp [Slot.bump, h]
    next => rfl

/-! ## Rebuilding leaves the sources alone -/

@[simp] theorem backends_forget : (c.forget i).backends = c.backends := rfl

@[simp] theorem backends_record (d : Definition) : (c.record i d).backends = c.backends := by
  unfold record
  split <;> rfl

@[simp] theorem backends_bump : (c.bump i).backends = c.backends := by
  unfold bump
  split <;> rfl

variable {c}

theorem backends_foldl_record (ds : List (PermissionId × Definition)) :
    (ds.foldl (fun c e => c.record e.1 e.2) c).backends = c.backends := by
  induction ds generalizing c with
  | nil => rfl
  | cons e ds ih => rw [List.foldl_cons, ih, backends_record]

@[simp] theorem backends_refreshAll (ds : List (PermissionId × Definition)) :
    (c.refreshAll ds).backends = c.backends :=
  backends_foldl_record ds

/-- Rebuilding one permission that is there records what it compiles to. -/
theorem rebuild_object {view : View} {d : Definition} (h : view.definition? i = .ok (some d)) :
    c.rebuild view (.object i) = (.ok ((c.record i d).inconsistencyOf i), c.record i d) := by
  rw [rebuild, h]
  rfl

theorem backends_rebuild (c : PermissionCache) (view : View) (invalidation : Invalidation) :
    (c.rebuild view invalidation).2.backends = c.backends := by
  cases invalidation with
  | object i =>
    rw [rebuild]
    split
    next => rfl
    next d? _ =>
      cases d? with
      | none => exact backends_forget c i
      | some d => exact backends_record c i d
  | full =>
    rw [rebuild]
    split
    next => rfl
    next ds _ => exact backends_refreshAll ds
  | comment i => exact backends_bump c i

/-- **A definition compiles** exactly if its table is in the schema of its source and its clause compiles
there. -/
theorem compile_eq_ok {i : PermissionId} {d : Definition} {p : CompiledPermission} :
    c.compile i d = .ok p ↔ ∃ σ, c.backends.get? i.source = some σ ∧ σ.tableExists i.table = true ∧
      Permission.compile σ i.source i.table d.clause = .ok p := by
  unfold compile
  cases c.backends.get? i.source with
  | none => exact ⟨nofun, fun ⟨_, h, _⟩ => nomatch h⟩
  | some σ =>
    simp only [Option.some.injEq, exists_eq_left']
    split
    next ht => simp [ht]
    next ht => exact ⟨nofun, fun h => absurd h.1 ht⟩

/-- Compiling looks at nothing but the sources. -/
theorem compile_congr {c' : PermissionCache} (h : c.backends = c'.backends) (d : Definition) :
    c.compile i d = c'.compile i d := by
  unfold compile
  rw [h]

theorem slot_foldl_record {ds : List (PermissionId × Definition)} (hn : (ds.map (·.1)).Nodup) :
    (ds.foldl (fun c e => c.record e.1 e.2) c).slot j =
      match ds.lookup j with
      | some d => .ofResult (c.compile j d)
      | none => c.slot j := by
  induction ds generalizing c with
  | nil => rfl
  | cons e ds ih =>
    obtain ⟨i, d⟩ := e
    obtain ⟨hi, hn⟩ := List.nodup_cons.1 hn
    rw [List.foldl_cons, ih hn, List.lookup_cons, slot_record]
    by_cases hj : j = i
    -- the last definition of a permission fills its slot, and there is only one
    · subst hj
      have hnone : ds.lookup j = none :=
        List.lookup_eq_none_iff.2 fun e he => bne_iff_ne.2 fun h => hi (List.mem_map.2 ⟨e, he, h.symm⟩)
      simp [hnone]
    · rw [if_neg hj, beq_false_of_ne hj]
      cases ds.lookup j with
      | none => rfl
      | some d' => exact congrArg Slot.ofResult (compile_congr j (backends_record c i d) d')

/-- **Compiling everything from scratch** fills the slots of the definitions and empties all others. -/
theorem slot_refreshAll {ds : List (PermissionId × Definition)} (hn : (ds.map (·.1)).Nodup) :
    (c.refreshAll ds).slot j =
      match ds.lookup j with
      | some d => .ofResult (c.compile j d)
      | none => .empty := by
  refine (slot_foldl_record j hn).trans ?_
  cases ds.lookup j with
  | none => rfl
  | some d => exact congrArg Slot.ofResult (compile_congr j rfl d)

end PermissionCache

end TableAccess
