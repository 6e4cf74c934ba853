import TableAccess.Proofs.Success

/-!
# What a computation fails with

A computation stops at the first of its steps that fails, and a list of items at the first item that does.
Where no step looks at the results of those before it, the fault is the first in the list of their faults.

* `fault?`: what a computation fails with, if it fails. `fault?_bind`, `fault?_mapM`: **the first fault** of
  steps and of items. `findSome?_eraseDups`: repeated items do not count.
* `FailsWith`: all that a computation can fail with is of one kind.
-/

namespace TableAccess

variable {ε ε' α β : Type}

/-- What a computation fails with. -/
def fault? : Except ε α → Option ε
  | .ok _ => none
  | .error e => some e

theorem fault?_eq_none {x : Except ε α} : fault? x = none ↔ ∃ a, x = .ok a := by
  cases x with
  | ok a => exact ⟨fun _ => ⟨a, rfl⟩, fun _ => rfl⟩
  | error e => exact ⟨nofun, nofun⟩

theorem fault?_eq_some {x : Except ε α} {e : ε} : fault? x = some e ↔ x = .error e := by
  cases x with
  | ok a => exact ⟨nofun, nofun⟩
  | error e' => exact ⟨fun h => by cases h; rfl, fun h => by cases h; rfl⟩

/-- A step fails before those that follow it, if these fail alike whatever its result. -/
theorem fault?_bind {x : Except ε α} {f : α → Except ε β} {o : Option ε} (h : ∀ a, fault? (f a) = o) :
    fault? (x >>= f) = (fault? x).or o := by
  cases x with
  | ok a => exact h a
  | error e => rfl

theorem fault?_bind_pure (x : Except ε α) (f : α → β) : fault? (x >>= fun a => pure (f a)) = fault? x := by
  cases x <;> rfl

@[simp] theorem fault?_map (x : Except ε α) (f : α → β) : fault? (x.map f) = fault? x := by
  cases x <;> rfl

@[simp] theorem fault?_within (s : String) (x : Except (Located ε) α) :
    fault? (within s x) = (fault? x).map (Located.under s) := by
  cases x <;> rfl

theorem findSome?_cons_eq_or (f : α → Option ε) (a : α) (l : List α) :
    (a :: l).findSome? f = (f a).or (l.findSome? f) := by
  rw [List.findSome?_cons]
  cases f a <;> rfl

/-- **Items fail with the first fault among them.** -/
theorem fault?_mapM (f : α → Except ε β) (l : List α) :
    fault? (l.mapM f) = l.findSome? fun a => fault? (f a) := by
  induction l with
  | nil => rfl
  | cons a l ih =>
    rw [List.mapM_cons, fault?_bind fun b => fault?_bind_pure (l.mapM f) (b :: ·), ih,
      findSome?_cons_eq_or]

theorem fault?_optionMapM (f : α → Except ε β) (o : Option α) :
    fault? (o.mapM f) = o.toList.findSome? fun a => fault? (f a) := by
  cases o with
  | none => rfl
  | some a =>
    rw [Option.mapM_some, map_eq_pure_bind, fault?_bind_pure, Option.toList_some, findSome?_cons_eq_or,
      List.findSome?_nil, Option.or_none]

/-! ## The first of a list -/

/-- The first item of a list for which there is something, behind items for which there is nothing. -/
theorem findSome?_eq_some_iff_of {f : α → Option ε} {P : α → Prop} (h : ∀ a, f a = none ↔ P a)
    {l : List α} {e : ε} : l.findSome? f = some e ↔
      ∃ before a after, l = before ++ a :: after ∧ (∀ b ∈ before, P b) ∧ f a = some e := by
  simp only [List.findSome?_eq_some_iff, h]
  exact exists_congr fun _ => exists_congr fun _ => exists_congr fun _ =>
    and_congr_right fun _ => and_comm

theorem findSome?_eq_none_iff_of {f : α → Option ε} {P : α → Prop} (h : ∀ a, f a = none ↔ P a)
    {l : List α} : l.findSome? f = none ↔ ∀ a ∈ l, P a := by
  simp only [List.findSome?_eq_none_iff, h]

theorem findSome?_filter_ne [BEq α] [LawfulBEq α] {f : α → Option ε} {a : α} (ha : f a = none)
    (l : List α) : (l.filter fun b => !b == a).findSome? f = l.findSome? f := by
  induction l with
  | nil => rfl
  | cons b l ih =>
    by_cases hb : b = a
    · subst hb
      rw [List.filter_cons_of_neg (by simp), ih, List.findSome?_cons, ha]
    · rw [List.filter_cons_of_pos (by simpa using hb), List.findSome?_cons, List.findSome?_cons, ih]

/-- **Repeated items do not change what is found first.** -/
theorem findSome?_eraseDups [BEq α] [LawfulBEq α] (f : α → Option ε) (l : List α) :
    l.eraseDups.findSome? f = l.findSome? f := by
  match l with
  | [] => rfl
  | a :: l =>
    rw [List.eraseDups_cons, List.findSome?_cons, List.findSome?_cons]
    cases ha : f a with
    | some e => rfl
    | none =>
      show (l.filter fun b => !b == a).eraseDups.findSome? f = _
      rw [findSome?_eraseDups f (l.filter fun b => !b == a), findSome?_filter_ne ha]
termination_by l.length
decreasing_by exact Nat.lt_succ_of_le (List.length_filter_le _ l)

/-! ## Kinds of faults -/

/-- **Whatever the computation fails with is such.** -/
def FailsWith (P : ε → Prop) (x : Except ε α) : Prop := ∀ e, x = .error e → P e

namespace FailsWith

variable {P : ε → Prop}

theorem ok (a : α) : FailsWith P (.ok a : Except ε α) := nofun

theorem error {e : ε} (h : P e) : FailsWith P (.error e : Except ε α) := by
  rintro _ ⟨⟩
  exact h

theorem ite {c : Prop} [Decidable c] {x y : Except ε α} (hx : FailsWith P x) (hy : FailsWith P y) :
    FailsWith P (if c then x else y) := by
  split
  · exact hx
  · exact hy

theorem bind {x : Except ε α} {f : α → Except ε β} (hx : FailsWith P x) (hf : ∀ a, FailsWith P (f a)) :
    FailsWith P (x >>= f) := by
  intro e h
  rcases bind_eq_error.1 h with h | ⟨a, -, h⟩
  · exact hx e h
  · exact hf a e h

theorem map {x : Except ε α} (hx : FailsWith P x) (f : α → β) : FailsWith P (x.map f) := by
  cases x with
  | ok a => exact ok _
  | error e => exact error (hx e rfl)

theorem within {P : Located ε → Prop} {x : Except (Located ε) α} (hx : FailsWith P x)
    (hP : ∀ s l, P l → P (Located.under s l)) (s : String) : FailsWith P (within s x) := by
  cases x with
  | ok a => exact ok _
  | error e => exact error (hP s e (hx e rfl))

theorem mapM {f : α → Except ε β} {l : List α} (h : ∀ a ∈ l, FailsWith P (f a)) :
    FailsWith P (l.mapM f) := by
  induction l with
  | nil => exact ok _
  | cons a l ih =>
    rw [List.mapM_cons]
    obtain ⟨ha, hl⟩ := List.forall_mem_cons.1 h
    exact ha.bind fun _ => (ih hl).bind fun _ => ok _

end FailsWith

end TableAccess
