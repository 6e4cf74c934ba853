import Mathlib.Data.List.Induction
import TableAccess.Permission.RoleMap

/-!
# Maps by role over a history of changes

What a map answers, and what a change hands back and leaves, is told by the list that the map shows. What
the list shows after a history of changes is told by the history: each role that has a value stands where it
was given one last.

* `RoleMap.toldByList`: **answers and changes are told by the list**, of any map.
* `RoleMap.held`, `RoleMap.Latest`: what a role has after a history, and where in the history it was given
  that.
* `RoleMap.Keeps.change`: what one change keeps. `RoleMap.keeps_after`: **the list is in the order in which
  the roles were given their values last**, after any history.
-/

namespace TableAccess

namespace RoleMap

variable {α : Type} {m : RoleMap α} {role : String} {v : α}

/-! ## What one change does -/

theorem get?_eq_some_iff : m.get? role = some v ↔ (role, v) ∈ m.toList :=
  lookup_eq_some_iff_mem m.distinct

theorem mem_roles : role ∈ m.roles ↔ ∃ v, (role, v) ∈ m.toList := by
  simp [roles]

/-- A role without a value is not found. -/
theorem get?_eq_none (h : role ∉ m.roles) : m.get? role = none :=
  Option.eq_none_iff_forall_ne_some.2 fun v hv => h (mem_roles.2 ⟨v, get?_eq_some_iff.1 hv⟩)

/-- A value offered for a role that is taken comes back, and nothing changes. -/
theorem change_insert_of_mem (h : role ∈ m.roles) (v : α) : m.change (.insert role v) = (some v, m) := by
  have hnone : m.insert? role v = none := dif_pos h
  rw [change, hnone]

/-- A role that is not taken comes last. -/
theorem exists_change_insert (h : role ∉ m.roles) (v : α) :
    ∃ n, m.change (.insert role v) = (none, n) ∧ n.toList = m.toList ++ [(role, v)] := by
  have hsome : m.insert? role v = some ⟨m.toList ++ [(role, v)], distinct_append m.distinct h⟩ := dif_neg h
  exact ⟨_, by rw [change, hsome], rfl⟩

/-- Nothing is taken out for a role without a value. -/
theorem change_remove_of_not_mem (h : role ∉ m.roles) : m.change (.remove role) = (none, m) := by
  have hkept : ∀ e ∈ m.toList, (e.1 != role) = true := by
    rintro ⟨r, v⟩ he
    exact bne_iff_ne.2 fun heq => h (mem_roles.2 ⟨v, heq ▸ he⟩)
  rw [change, get?_eq_none h, ext ((m.toList_erase role).trans (List.filter_eq_self.2 hkept))]

/-- **What a map answers and what a change does** is told by the list that it shows. -/
structure ToldByList (m : RoleMap α) : Prop where
  /-- A role that is taken: the offered value comes back, and nothing changes. -/
  taken : ∀ role ∈ m.roles, ∀ v, m.change (.insert role v) = (some v, m)
  /-- A role that is not taken: nothing comes back, and the role is listed last. -/
  free : ∀ role ∉ m.roles, ∀ v, ∃ n,
    m.change (.insert role v) = (none, n) ∧ n.toList = m.toList ++ [(role, v)]
  /-- A value that is taken out comes back, and the others keep their order. -/
  removed : ∀ role v, (role, v) ∈ m.toList → ∃ n,
    m.change (.remove role) = (some v, n) ∧ n.toList = m.toList.filter fun e => e.1 != role
  /-- Where there is nothing to take out, nothing comes back and nothing changes. -/
  absent : ∀ role ∉ m.roles, m.change (.remove role) = (none, m)
  get? : ∀ role v, m.get? role = some v ↔ (role, v) ∈ m.toList
  contains : ∀ role, m.contains role = true ↔ role ∈ m.roles
  size : m.size = m.roles.length
  isEmpty : m.isEmpty = true ↔ m.toList = []

/-- **Answers and changes are told by the list**, of any map. -/
theorem toldByList (m : RoleMap α) : m.ToldByList where
  taken _ h v := change_insert_of_mem h v
  free _ h v := exists_change_insert h v
  removed role v h := ⟨m.erase role, by rw [change, get?_eq_some_iff.2 h], m.toList_erase role⟩
  absent _ h := change_remove_of_not_mem h
  get? _ _ := get?_eq_some_iff
  contains role := by simp only [RoleMap.contains, Option.isSome_iff_exists, get?_eq_some_iff, mem_roles]
  size := (List.length_map _).symm
  isEmpty := List.isEmpty_iff

/-! ## Histories -/

/-- What one change makes of what a role has: an offered value is given where there is none. -/
def heldStep (role : String) (held : Option α) : Change α → Option α
  | .insert r v => if r = role then held.or (some v) else held
  | .remove r => if r = role then none else held

/-- What a role has after a history of changes, which begins without values. -/
def held (role : String) (cs : List (Change α)) : Option α := cs.foldl (heldStep role) none

/-- The change at a place of a history gave the role the value: it was offered when the role had none. -/
def Given (cs : List (Change α)) (i : ℕ) (role : String) (v : α) : Prop :=
  cs[i]? = some (.insert role v) ∧ held role (cs.take i) = none

/-- The last place of a history at which the role was given a value, and the value. -/
def Latest (cs : List (Change α)) (i : ℕ) (e : String × α) : Prop :=
  Given cs i e.1 e.2 ∧ ∀ j v, Given cs j e.1 v → j ≤ i

variable {cs : List (Change α)} {c : Change α} {i : ℕ}

theorem held_concat (role : String) (cs : List (Change α)) (c : Change α) :
    held role (cs ++ [c]) = heldStep role (held role cs) c := by
  rw [held, List.foldl_append, List.foldl_cons, List.foldl_nil, ← held]

theorem Given.lt (h : Given cs i role v) : i < cs.length :=
  (List.getElem?_eq_some_iff.1 h.1).1

theorem Given.le (h : Given (cs ++ [c]) i role v) : i ≤ cs.length := by
  have hlt := h.lt
  rw [List.length_append, List.length_singleton] at hlt
  exact Nat.le_of_lt_succ hlt

/-- A further change gives a value where it offers one to a role that has none. -/
theorem given_concat : Given (cs ++ [c]) i role v ↔
    Given cs i role v ∨ i = cs.length ∧ c = .insert role v ∧ held role cs = none := by
  rcases Nat.lt_trichotomy i cs.length with hi | rfl | hi
  · rw [Given, List.getElem?_append_left hi, List.take_append_of_le_length (Nat.le_of_lt hi), ← Given]
    simp [Nat.ne_of_lt hi]
  · have hnot : ¬ Given cs cs.length role v := fun h => Nat.lt_irrefl _ h.lt
    simp only [hnot, false_or, true_and]
    simp [Given]
  · have hnot : ¬ Given cs i role v := fun h => Nat.lt_asymm h.lt hi
    have hnot' : ¬ Given (cs ++ [c]) i role v := fun h => Nat.not_lt_of_le h.le hi
    simp [hnot, hnot', Nat.ne_of_gt hi]

/-- Where a role that has a value was given it last stays the same with a further change. -/
theorem Latest.concat {e : String × α} (h : Latest cs i e) (hheld : held e.1 cs ≠ none) :
    Latest (cs ++ [c]) i e := by
  refine ⟨given_concat.2 (.inl h.1), fun j v hj => ?_⟩
  rcases given_concat.1 hj with hj | ⟨-, -, hnone⟩
  · exact h.2 j v hj
  · exact absurd hnone hheld

/-- Where a further change gives a role its value is the last place. -/
theorem latest_concat (hc : held role cs = none) :
    Latest (cs ++ [.insert role v]) cs.length (role, v) :=
  ⟨given_concat.2 (.inr ⟨rfl, rfl, hc⟩), fun _ _ hj => hj.le⟩

/-! ## What a history leaves -/

/-- The map after a history of changes, which begins without values. -/
def after (cs : List (Change α)) : RoleMap α := cs.foldl (fun m c => (m.change c).2) empty

theorem after_concat (cs : List (Change α)) (c : Change α) : after (cs ++ [c]) = ((after cs).change c).2 := by
  rw [after, List.foldl_append, List.foldl_cons, List.foldl_nil, ← after]

/-- The map shows what a history left: each role has the value that it was given last, if it was not taken
out since, and the roles stand in the order in which they were given these values. -/
structure Keeps (m : RoleMap α) (cs : List (Change α)) : Prop where
  distinct : m.roles.Nodup
  held : ∀ role, m.get? role = held role cs
  latest : ∀ e ∈ m.toList, ∃ i, Latest cs i e
  ordered : m.toList.Pairwise fun a b => ∃ i j, Latest cs i a ∧ Latest cs j b ∧ i < j

namespace Keeps

variable (h : m.Keeps cs)

include h

/-- With a further change the roles were given their values last where they were before, whether they keep
them or not. -/
theorem concat (c : Change α) : (∀ e ∈ m.toList, ∃ i, i < cs.length ∧ Latest (cs ++ [c]) i e) ∧
    m.toList.Pairwise fun a b => ∃ i j, Latest (cs ++ [c]) i a ∧ Latest (cs ++ [c]) j b ∧ i < j := by
  have hlatest : ∀ e ∈ m.toList, ∀ i, Latest cs i e → Latest (cs ++ [c]) i e := by
    intro e he i hi
    refine hi.concat ?_
    rw [← h.held, get?_eq_some_iff.2 he]
    exact Option.some_ne_none _
  refine ⟨fun e he => ?_, h.ordered.imp_of_mem fun ha hb => ?_⟩
  · obtain ⟨i, hi⟩ := h.latest e he
    exact ⟨i, hi.1.lt, hlatest e he i hi⟩
  · rintro ⟨i, j, hi, hj, hij⟩
    exact ⟨i, j, hlatest _ ha i hi, hlatest _ hb j hj, hij⟩

/-- A change that gives no value leaves some of the roles, in their order. -/
theorem of_sublist {n : RoleMap α} {c : Change α} (hsub : n.toList.Sublist m.toList)
    (hheld : ∀ role, n.get? role = RoleMap.held role (cs ++ [c])) : n.Keeps (cs ++ [c]) where
  distinct := n.distinct
  held := hheld
  latest e he := by
    obtain ⟨i, -, hi⟩ := (h.concat c).1 e (hsub.subset he)
    exact ⟨i, hi⟩
  ordered := (h.concat c).2.sublist hsub

/-- A change that gives a role its value puts it behind the others. -/
theorem of_free (hr : role ∉ m.roles) {n : RoleMap α} (hn : n.toList = m.toList ++ [(role, v)]) :
    n.Keeps (cs ++ [.insert role v]) where
  distinct := n.distinct
  held r := by
    rw [held_concat, heldStep, ← h.held, RoleMap.get?, hn, List.lookup_append, ← RoleMap.get?]
    by_cases heq : role = r
    · simp [heq]
    · simp [heq, List.lookup_cons, beq_false_of_ne (Ne.symm heq)]
  latest e he := by
    have hnone : RoleMap.held role cs = none := by rw [← h.held, get?_eq_none hr]
    rw [hn, List.mem_append, List.mem_singleton] at he
    rcases he with he | rfl
    · obtain ⟨i, -, hi⟩ := (h.concat _).1 e he
      exact ⟨i, hi⟩
    · exact ⟨cs.length, latest_concat hnone⟩
  ordered := by
    have hnone : RoleMap.held role cs = none := by rw [← h.held, get?_eq_none hr]
    rw [hn, List.pairwise_append]
    refine ⟨(h.concat _).2, List.pairwise_singleton _ _, fun a ha b hb => ?_⟩
    obtain rfl := List.mem_singleton.1 hb
    obtain ⟨i, hlt, hi⟩ := (h.concat _).1 a ha
    exact ⟨i, cs.length, hi, latest_concat hnone, hlt⟩

/-- **What one change keeps.** -/
theorem change (c : Change α) : (m.change c).2.Keeps (cs ++ [c]) := by
  cases c with
  | insert role v =>
    by_cases hr : role ∈ m.roles
    · rw [change_insert_of_mem hr]
      refine h.of_sublist (.refl _) fun r => ?_
      rw [held_concat, heldStep, ← h.held]
      split
      next heq =>
        obtain ⟨w, hw⟩ := mem_roles.1 (heq ▸ hr)
        rw [get?_eq_some_iff.2 hw, Option.some_or]
      next => rfl
    · obtain ⟨n, hchange, hn⟩ := exists_change_insert hr v
      rw [hchange]
      exact h.of_free hr hn
  | remove role =>
    have hlist := m.toList_erase role
    refine h.of_sublist (hlist ▸ List.filter_sublist) fun r => Option.ext fun v => ?_
    rw [held_concat, heldStep, ← h.held]
    show (m.erase role).get? r = some v ↔ _
    rw [get?_eq_some_iff, hlist, List.mem_filter, ← get?_eq_some_iff, bne_iff_ne]
    by_cases heq : role = r
    · simp [heq]
    · simp [heq, Ne.symm heq]

end Keeps

/-- **The list is in the order in which the roles were given their values last**, after any history. -/
theorem keeps_after (cs : List (Change α)) : (after cs).Keeps cs := by
  induction cs using List.reverseRecOn with
  | nil => exact ⟨.nil, fun _ => rfl, fun _ he => (by cases he), .nil⟩
  | append_singleton cs c ih =>
    rw [after_concat]
    exact ih.change c

example : (after [.insert "user" 1, .insert "anon" 2, .insert "user" 3, .remove "user",
    .insert "user" 4]).toList = [("anon", 2), ("user", 4)] := by
  decide

end RoleMap

end TableAccess
