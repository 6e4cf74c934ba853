import Mathlib.Data.List.Forall2
import TableAccess.Fault

/-!
# When a computation succeeds

A computation that may fail succeeds exactly if each of its steps does. These lemmas take a success
apart, one for each way of putting computations together.
-/

namespace TableAccess

variable {ε ε' α β : Type}

@[simp] theorem ok_bind (a : α) (f : α → Except ε β) : (Except.ok a >>= f) = f a := rfl

theorem exists_of_isOk {x : Except ε α} (h : x.isOk = true) : ∃ a, x = .ok a := by
  cases x with
  | ok a => exact ⟨a, rfl⟩
  | error e => cases h

theorem exists_error_of_isOk {x : Except ε α} (h : x.isOk = false) : ∃ e, x = .error e := by
  cases x with
  | ok a => cases h
  | error e => exact ⟨e, rfl⟩

theorem bind_eq_ok {x : Except ε α} {f : α → Except ε β} {b : β} :
    (x >>= f) = .ok b ↔ ∃ a, x = .ok a ∧ f a = .ok b := by
  cases x with
  | ok a => exact ⟨fun h => ⟨a, rfl, h⟩, fun ⟨a', h, h'⟩ => by cases h; exact h'⟩
  | error e => exact ⟨fun h => (nomatch h), fun ⟨_, h, _⟩ => (nomatch h)⟩

theorem bind_eq_error {x : Except ε α} {f : α → Except ε β} {e : ε} :
    (x >>= f) = .error e ↔ x = .error e ∨ ∃ a, x = .ok a ∧ f a = .error e := by
  cases x with
  | ok a => exact ⟨fun h => .inr ⟨a, rfl, h⟩, by rintro (h | ⟨a', h, h'⟩) <;> cases h; exact h'⟩
  | error e' => exact ⟨fun h => .inl (by cases h; rfl), by rintro (h | ⟨_, h, _⟩) <;> cases h; rfl⟩

theorem pure_eq_ok {a b : α} : (pure a : Except ε α) = .ok b ↔ a = b :=
  ⟨fun h => by cases h; rfl, fun h => by rw [h]; rfl⟩

theorem map_eq_ok {x : Except ε α} {f : α → β} {b : β} :
    x.map f = .ok b ↔ ∃ a, x = .ok a ∧ f a = b := by
  cases x with
  | ok a => exact ⟨fun h => by cases h; exact ⟨a, rfl, rfl⟩, fun ⟨a', h, h'⟩ => by cases h; cases h'; rfl⟩
  | error e => exact ⟨fun h => (nomatch h), fun ⟨_, h, _⟩ => (nomatch h)⟩

/-- What is checked first holds. -/
theorem guard_eq_ok {c : Prop} [Decidable c] {e : ε} {a b : α} :
    (if c then Except.ok a else .error e) = .ok b ↔ c ∧ b = a := by
  split
  next h => exact ⟨fun hb => ⟨h, (Except.ok.inj hb).symm⟩, fun hb => by rw [hb.2]⟩
  next h => exact ⟨fun hb => (nomatch hb), fun hb => absurd hb.1 h⟩

theorem mapError_eq_ok {x : Except ε α} {f : ε → ε'} {a : α} : x.mapError f = .ok a ↔ x = .ok a := by
  cases x with
  | ok b => exact ⟨fun h => by cases h; rfl, fun h => by cases h; rfl⟩
  | error e => exact ⟨fun h => (nomatch h), fun h => (nomatch h)⟩

theorem within_eq_ok {s : String} {x : Except (Located ε) α} {a : α} :
    within s x = .ok a ↔ x = .ok a :=
  mapError_eq_ok

theorem orUnreadable_eq_ok {x : Except ReadError α} {a : α} : orUnreadable x = .ok a ↔ x = .ok a :=
  mapError_eq_ok

theorem orUnreadable_eq_error {x : Except ReadError α} {f : Failure} :
    orUnreadable x = .error f ↔ ∃ e, x = .error e ∧ f = ⟨[], .unreadable e⟩ := by
  cases x with
  | ok a => exact ⟨fun h => (nomatch h), fun ⟨_, h, _⟩ => (nomatch h)⟩
  | error e => exact ⟨fun h => ⟨e, rfl, by cases h; rfl⟩, fun ⟨_, h, h'⟩ => by cases h; rw [h']; rfl⟩

theorem forall₂_of_mem {R S : α → β → Prop} {l : List α} {r : List β} (h : List.Forall₂ R l r)
    (hrs : ∀ a ∈ l, ∀ b ∈ r, R a b → S a b) : List.Forall₂ S l r := by
  induction h with
  | nil => exact .nil
  | cons hab _ ih =>
    exact .cons (hrs _ List.mem_cons_self _ List.mem_cons_self hab)
      (ih fun a ha b hb => hrs a (List.mem_cons_of_mem _ ha) b (List.mem_cons_of_mem _ hb))

theorem exists_of_mem_left {R : α → β → Prop} {l : List α} {r : List β} (h : List.Forall₂ R l r) {a : α}
    (ha : a ∈ l) : ∃ b ∈ r, R a b := by
  induction h with
  | nil => cases ha
  | cons hab _ ih =>
    rcases List.mem_cons.1 ha with rfl | ha
    · exact ⟨_, List.mem_cons_self, hab⟩
    · obtain ⟨b, hb, hr⟩ := ih ha
      exact ⟨b, List.mem_cons_of_mem _ hb, hr⟩

theorem exists_of_mem_right {R : α → β → Prop} {l : List α} {r : List β} (h : List.Forall₂ R l r) {b : β}
    (hb : b ∈ r) : ∃ a ∈ l, R a b :=
  exists_of_mem_left h.flip hb

theorem optionRel_of_mem {R S : α → β → Prop} {o : Option α} {r : Option β} (h : Option.Rel R o r)
    (hrs : ∀ a ∈ o, ∀ b ∈ r, R a b → S a b) : Option.Rel S o r := by
  cases h with
  | none => exact .none
  | some hab => exact .some (hrs _ rfl _ rfl hab)

/-- Every item of a list succeeds, each with the result in its place. -/
theorem mapM_eq_ok {f : α → Except ε β} {l : List α} {r : List β} :
    l.mapM f = .ok r ↔ List.Forall₂ (fun a b => f a = .ok b) l r := by
  induction l generalizing r with
  | nil =>
    rw [List.mapM_nil, pure_eq_ok, List.forall₂_nil_left_iff]
    exact eq_comm
  | cons a l ih =>
    simp only [List.mapM_cons, bind_eq_ok, pure_eq_ok, ih]
    constructor
    · rintro ⟨b, hb, r', hr, rfl⟩
      exact .cons hb hr
    · intro h
      cases h with
      | cons hb hr => exact ⟨_, hb, _, hr, rfl⟩

/-- An optional item succeeds if it is absent or succeeds. -/
theorem optionMapM_eq_ok {f : α → Except ε β} {o : Option α} {r : Option β} :
    o.mapM f = .ok r ↔ Option.Rel (fun a b => f a = .ok b) o r := by
  cases o with
  | none => exact ⟨fun h => Except.ok.inj h ▸ .none, fun h => by cases h; rfl⟩
  | some a =>
    rw [Option.mapM_some, map_eq_pure_bind, bind_eq_ok]
    constructor
    · rintro ⟨b, hb, h⟩
      rw [← pure_eq_ok.1 h]
      exact .some hb
    · intro h
      cases h with
      | some hb => exact ⟨_, hb, rfl⟩

theorem ok_of_mem_mapM {f : α → Except ε β} {l : List α} {r : List β} (h : l.mapM f = .ok r) {a : α}
    (ha : a ∈ l) : ∃ b ∈ r, f a = .ok b :=
  exists_of_mem_left (mapM_eq_ok.1 h) ha

theorem mem_of_mapM {f : α → Except ε β} {l : List α} {r : List β} (h : l.mapM f = .ok r) {b : β}
    (hb : b ∈ r) : ∃ a ∈ l, f a = .ok b :=
  exists_of_mem_right (mapM_eq_ok.1 h) hb

theorem exists_mapM_eq_ok {f : α → Except ε β} {l : List α} (h : ∀ a ∈ l, ∃ b, f a = .ok b) :
    ∃ r, l.mapM f = .ok r := by
  induction l with
  | nil => exact ⟨[], rfl⟩
  | cons a l ih =>
    obtain ⟨⟨b, hb⟩, hl⟩ := List.forall_mem_cons.1 h
    obtain ⟨r, hr⟩ := ih hl
    exact ⟨b :: r, by simp only [List.mapM_cons, hb, hr]; rfl⟩

end TableAccess
