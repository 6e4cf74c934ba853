/-!
# Values by role

A `RoleMap` gives roles values and lists them in the order in which they were inserted. A role has
one value: inserting does not replace.

* `toList_erase`: removing keeps the order of the others. Only the first entry that matches is taken
  out, which is enough as no role comes twice.
* `change`: what inserting and removing hand back, and the map that they leave.
-/

namespace TableAccess

/-! ## Entries told apart by their keys -/

section

variable {κ α : Type} [BEq κ] [LawfulBEq κ] {l : List (κ × α)}

/-- Where no key comes twice, what is found under a key is what is listed with it. -/
theorem lookup_eq_some_iff_mem (h : (l.map (·.1)).Nodup) {k : κ} {v : α} :
    l.lookup k = some v ↔ (k, v) ∈ l := by
  constructor
  · intro hk
    obtain ⟨before, after, rfl, -⟩ := List.lookup_eq_some_iff.1 hk
    simp
  · intro hm
    obtain ⟨before, after, rfl⟩ := List.append_of_mem hm
    rw [List.map_append, List.nodup_append] at h
    refine List.lookup_eq_some_iff.2 ⟨before, after, rfl, fun e he => bne_iff_ne.2 ?_⟩
    exact (h.2.2 e.1 (List.mem_map_of_mem he) k List.mem_cons_self).symm

/-- Where no key comes twice, taking the first entry of a key out leaves none. -/
theorem eraseP_eq_filter (h : (l.map (·.1)).Nodup) (k : κ) :
    (l.eraseP fun e => e.1 == k) = l.filter fun e => e.1 != k := by
  induction l with
  | nil => rfl
  | cons e l ih =>
    rw [List.map_cons, List.nodup_cons] at h
    by_cases he : e.1 = k
    · have hrest : ∀ e' ∈ l, (e'.1 != k) = true := by
        intro e' he'
        refine bne_iff_ne.2 fun heq => h.1 ?_
        exact List.mem_map.2 ⟨e', he', heq.trans he.symm⟩
      rw [List.eraseP_cons_of_pos (by simpa using he), List.filter_cons_of_neg (by simpa using he),
        List.filter_eq_self.2 hrest]
    · rw [List.eraseP_cons_of_neg (by simpa using he), List.filter_cons_of_pos (by simpa using he), ih h.2]

end

/-! ## Maps by role -/

/-- Values by role, in order of insertion. -/
structure RoleMap (α : Type) where
  toList : List (String × α)
  distinct : (toList.map (·.1)).Nodup

namespace RoleMap

variable {α : Type}

@[ext] theorem ext {m n : RoleMap α} (h : m.toList = n.toList) : m = n := by
  cases m; cases n; cases h; rfl

instance [DecidableEq α] : DecidableEq (RoleMap α) := fun m n =>
  decidable_of_iff (m.toList = n.toList) ⟨ext, fun h => h ▸ rfl⟩

/-- The map without roles. -/
def empty : RoleMap α := ⟨[], .nil⟩

/-- The roles, in order of insertion. -/
def roles (m : RoleMap α) : List String := m.toList.map (·.1)

/-- The value of a role. -/
def get? (m : RoleMap α) (role : String) : Option α := m.toList.lookup role

/-- Whether a role has a value. -/
def contains (m : RoleMap α) (role : String) : Bool := (m.get? role).isSome

/-- The number of roles. -/
def size (m : RoleMap α) : Nat := m.toList.length

/-- Whether no role has a value. -/
def isEmpty (m : RoleMap α) : Bool := m.toList.isEmpty

theorem distinct_append {l : List (String × α)} {role : String} {v : α}
    (h : (l.map (·.1)).Nodup) (hr : role ∉ l.map (·.1)) :
    ((l ++ [(role, v)]).map (·.1)).Nodup := by
  rw [List.map_append, List.map_singleton, List.nodup_append]
  refine ⟨h, by simp, fun a ha b hb => ?_⟩
  obtain rfl : b = role := List.mem_singleton.1 hb
  rintro rfl
  exact hr ha

/-- Gives `role` the value `v` at the end; none when the role has a value already. -/
def insert? (m : RoleMap α) (role : String) (v : α) : Option (RoleMap α) :=
  if h : role ∈ m.toList.map (·.1) then none
  else some ⟨m.toList ++ [(role, v)], distinct_append m.distinct h⟩

/-- Takes a role out: the first entry that has it. -/
def erase (m : RoleMap α) (role : String) : RoleMap α :=
  ⟨m.toList.eraseP fun e => e.1 == role, m.distinct.sublist (List.eraseP_sublist.map _)⟩

/-- A change of a map: a value offered for a role, or a role taken out. -/
inductive Change (α : Type) where
  | insert (role : String) (v : α)
  | remove (role : String)
deriving DecidableEq, Repr

/-- What a change hands back, and the map that it leaves. A value offered for a role that is taken comes
back, and so does the value of a role taken out. -/
def change (m : RoleMap α) : Change α → Option α × RoleMap α
  | .insert role v =>
    match m.insert? role v with
    | some n => (none, n)
    | none => (some v, m)
  | .remove role => (m.get? role, m.erase role)

theorem toList_erase (m : RoleMap α) (role : String) :
    (m.erase role).toList = m.toList.filter fun e => e.1 != role :=
  eraseP_eq_filter m.distinct role

end RoleMap

end TableAccess
