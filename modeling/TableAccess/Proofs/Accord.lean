import TableAccess.Proofs.Success

/-!
# Computations that succeed together

Two computations are in *accord* if both fail, with whatever fault, or both succeed with related results.
Putting computations together in the same way keeps them in accord.

* `Accord`: the notion, with a lemma for each way of putting computations together.
* `Accord.toOption_map`: what is told of the results alone is the same.
-/

namespace TableAccess

variable {ε ε' α α' β β' γ : Type}

/-- **Both computations fail, or both succeed with results that are related by `R`.** -/
inductive Accord (R : α → β → Prop) : Except ε α → Except ε β → Prop
  | ok {a : α} {b : β} : R a b → Accord R (.ok a) (.ok b)
  | error {e e' : ε} : Accord R (.error e) (.error e')

namespace Accord

variable {R : α → β → Prop} {S : α' → β' → Prop} {x : Except ε α} {y : Except ε β}

theorem refl {R : α → α → Prop} (hR : ∀ a, R a a) (x : Except ε α) : Accord R x x := by
  cases x with
  | ok a => exact .ok (hR a)
  | error e => exact .error

theorem within {x : Except (Located ε) α} {y : Except (Located ε) β} (h : Accord R x y) (s s' : String) :
    Accord R (TableAccess.within s x) (TableAccess.within s' y) := by
  cases h with
  | ok hab => exact .ok hab
  | error => exact .error

theorem map (h : Accord R x y) {f : α → α'} {g : β → β'} (hfg : ∀ a b, R a b → S (f a) (g b)) :
    Accord S (x.map f) (y.map g) := by
  cases h with
  | ok hab => exact .ok (hfg _ _ hab)
  | error => exact .error

theorem bind (h : Accord R x y) {f : α → Except ε α'} {g : β → Except ε β'}
    (hfg : ∀ a b, R a b → Accord S (f a) (g b)) : Accord S (x >>= f) (y >>= g) := by
  cases h with
  | ok hab => exact hfg _ _ hab
  | error => exact .error

/-- What comes after a step that both take. -/
theorem bind_same {x : Except ε γ} {f : γ → Except ε α} {g : γ → Except ε β}
    (h : ∀ c, Accord R (f c) (g c)) : Accord R (x >>= f) (x >>= g) :=
  (refl (fun _ => rfl) x).bind fun c _ hc => hc ▸ h c

/-- Items that are in accord with what stands in their place. -/
theorem mapM_map {δ : Type} {f : γ → Except ε α} {g : δ → Except ε β} {k : γ → δ} (l : List γ)
    (h : ∀ c ∈ l, Accord R (f c) (g (k c))) : Accord (List.Forall₂ R) (l.mapM f) ((l.map k).mapM g) := by
  induction l with
  | nil => exact .ok .nil
  | cons c l ih =>
    obtain ⟨hc, hl⟩ := List.forall_mem_cons.1 h
    rw [List.map_cons, List.mapM_cons, List.mapM_cons]
    exact hc.bind fun a b hab => (ih hl).bind fun _ _ hall => .ok (.cons hab hall)

theorem optionMapM_map {δ : Type} {f : γ → Except ε α} {g : δ → Except ε β} {k : γ → δ} (o : Option γ)
    (h : ∀ c ∈ o, Accord R (f c) (g (k c))) : Accord (Option.Rel R) (o.mapM f) ((o.map k).mapM g) := by
  cases o with
  | none => exact .ok .none
  | some c =>
    rw [Option.map_some, Option.mapM_some, Option.mapM_some, map_eq_pure_bind, map_eq_pure_bind]
    exact (h c rfl).bind fun _ _ hab => .ok (.some hab)

/-- **What is told of the results alone is the same.** -/
theorem toOption_map (h : Accord R x y) {f : α → γ} {g : β → γ} (hfg : ∀ a b, R a b → f a = g b) :
    x.toOption.map f = y.toOption.map g := by
  cases h with
  | ok hab => exact congrArg some (hfg _ _ hab)
  | error => rfl

end Accord

end TableAccess
