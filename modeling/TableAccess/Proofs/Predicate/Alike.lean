import TableAccess.Proofs.Json.Text
import TableAccess.Proofs.Predicate.Mentions

/-!
# Predicates that differ in numbers

Two documents are *alike* if they are the same but for their floating-point numbers. Compiling looks at the
kind of a number and never at its value, so of two documents that are alike either both compile or none, and
what they use is the same.

* `Json.Alike`: the notion.
* `Predicate.AlikeComparison`: comparisons that differ in literals at most use the same.
* `Predicate.Compiles.alike`: **what a document uses does not depend on its floating-point numbers.**
-/

namespace TableAccess

namespace Json

/-- The value with zero for every floating-point number. -/
def shape (j : Json) : Json := j.mapFloats fun _ => .zero false

/-- **The values are the same but for their floating-point numbers.** -/
def Alike (j j' : Json) : Prop := j.shape = j'.shape

theorem Alike.symm {j j' : Json} (h : j.Alike j') : j'.Alike j := Eq.symm h

mutual

theorem mapFloats_mapFloats (f g : Binary64 → Binary64) : (j : Json) →
    (j.mapFloats f).mapFloats g = j.mapFloats (g ∘ f)
  | .null | .bool _ | .str _ | .num (.int _) | .num (.float _) => rfl
  | .arr items => congrArg arr (mapFloatsOfItems_mapFloatsOfItems f g items)
  | .obj entries => congrArg obj (mapFloatsOfEntries_mapFloatsOfEntries f g entries)

theorem mapFloatsOfItems_mapFloatsOfItems (f g : Binary64 → Binary64) : (items : List Json) →
    mapFloatsOfItems g (mapFloatsOfItems f items) = mapFloatsOfItems (g ∘ f) items
  | [] => rfl
  | j :: rest => by
    rw [mapFloatsOfItems, mapFloatsOfItems, mapFloatsOfItems, mapFloats_mapFloats f g j,
      mapFloatsOfItems_mapFloatsOfItems f g rest]

theorem mapFloatsOfEntries_mapFloatsOfEntries (f g : Binary64 → Binary64) :
    (entries : List (String × Json)) →
      mapFloatsOfEntries g (mapFloatsOfEntries f entries) = mapFloatsOfEntries (g ∘ f) entries
  | [] => rfl
  | (k, j) :: rest => by
    rw [mapFloatsOfEntries, mapFloatsOfEntries, mapFloatsOfEntries, mapFloats_mapFloats f g j,
      mapFloatsOfEntries_mapFloatsOfEntries f g rest]

end

theorem alike_mapFloats (f : Binary64 → Binary64) (j : Json) : (j.mapFloats f).Alike j :=
  mapFloats_mapFloats f _ j

variable {j : Json}

theorem Alike.exists_items {items : List Json} (h : (arr items).Alike j) :
    ∃ items', j = arr items' ∧ List.Forall₂ Alike items items' := by
  cases j with
  | arr items' =>
    refine ⟨items', rfl, ?_⟩
    have hitems := arr.inj h
    rw [mapFloatsOfItems_eq_map, mapFloatsOfItems_eq_map, ← List.forall₂_eq_eq_eq] at hitems
    exact (List.forall₂_map_right_iff.1 (List.forall₂_map_left_iff.1 hitems)).imp fun _ _ hj => hj
  | _ => cases h

theorem Alike.exists_entries {entries : List (String × Json)} (h : (obj entries).Alike j) :
    ∃ entries', j = obj entries' ∧
      List.Forall₂ (fun e e' => e.1 = e'.1 ∧ e.2.Alike e'.2) entries entries' := by
  cases j with
  | obj entries' =>
    refine ⟨entries', rfl, ?_⟩
    have hentries := obj.inj h
    rw [mapFloatsOfEntries_eq_map, mapFloatsOfEntries_eq_map, ← List.forall₂_eq_eq_eq] at hentries
    exact (List.forall₂_map_right_iff.1 (List.forall₂_map_left_iff.1 hentries)).imp fun _ _ he =>
      Prod.mk.inj he
  | _ => cases h

theorem Alike.eq_str {s : String} (h : (str s).Alike j) : j = str s := by
  cases j with
  | str s' => rw [str.inj h]
  | _ => cases h

theorem Alike.eq_bool {b : Bool} (h : (bool b).Alike j) : j = bool b := by
  cases j with
  | bool b' => rw [bool.inj h]
  | _ => cases h

theorem reference?_shape (j : Json) : j.shape.reference? = j.reference? := by
  cases j <;> rfl

theorem Alike.reference? {j j' : Json} (h : j.Alike j') : j'.reference? = j.reference? := by
  rw [← reference?_shape j, h, reference?_shape]

end Json

/-- **A type takes a number by its kind.** -/
theorem ColumnType.fits_shape (t : ColumnType) (j : Json) : t.fits j.shape = t.fits j := by
  cases j with
  | num n => cases n <;> cases t <;> rfl
  | _ => cases t <;> rfl

theorem ColumnType.fits_alike (t : ColumnType) {j j' : Json} (h : j.Alike j') : t.fits j' = t.fits j := by
  rw [← fits_shape t j, h, fits_shape]

namespace Predicate

/-! ## Comparisons -/

/-- The session variable that a value to compare with is, if it is no literal. -/
def session? : Scalar → Option SessionVariable
  | .literal _ => none
  | .session v => some v

/-- **Comparisons that differ in literals at most.** -/
structure AlikeComparison (c c' : Comparison) : Prop where
  op : c'.op = c.op
  column? : c'.operand.column? = c.operand.column?
  sessions : c'.operand.scalars.map session? = c.operand.scalars.map session?

theorem AlikeComparison.operandVariables {c c' : Comparison} (h : AlikeComparison c c') :
    operandVariables c'.operand = operandVariables c.operand := by
  have hsessions : ∀ o : Operand, Predicate.operandVariables o = (o.scalars.map session?).filterMap id := by
    intro o
    rw [Predicate.operandVariables, List.filterMap_map]
    refine List.filterMap_congr fun s _ => ?_
    cases s <;> rfl
  rw [hsessions, hsessions, h.sessions]

/-- The values that comparisons judge are session variables in the same places. -/
theorem AlikeComparison.judges_iff {c c' : Comparison} (h : AlikeComparison c c')
    (p : Option SessionVariable → Bool) :
    (c'.JudgesType ∧ ∃ s ∈ c'.operand.scalars, p (session? s) = true) ↔
      (c.JudgesType ∧ ∃ s ∈ c.operand.scalars, p (session? s) = true) := by
  have hany : ∀ c : Comparison, (∃ s ∈ c.operand.scalars, p (session? s) = true) ↔
      ∃ x ∈ c.operand.scalars.map session?, p x = true := fun c => by
    simp only [List.mem_map, exists_exists_and_eq_and]
  rw [hany, hany, h.sessions, Comparison.JudgesType, Comparison.JudgesType, h.op]

variable {cs cs' : List Comparison}

theorem map_congr_alike {α : Type} {f : Comparison → α} (h : List.Forall₂ AlikeComparison cs cs')
    (hf : ∀ c c', AlikeComparison c c' → f c' = f c) : cs'.map f = cs.map f := by
  induction h with
  | nil => rfl
  | cons hc _ ih => rw [List.map_cons, List.map_cons, hf _ _ hc, ih]

theorem reasonOf_alike (h : List.Forall₂ AlikeComparison cs cs') : Expr.reasonOf cs' = Expr.reasonOf cs := by
  -- only whether there are literals and session variables is asked of what stands beside the field
  have hbeside : ∀ p : Option SessionVariable → Bool,
      (∃ c ∈ cs', c.JudgesType ∧ ∃ s ∈ c.operand.scalars, p (session? s) = true) ↔
        ∃ c ∈ cs, c.JudgesType ∧ ∃ s ∈ c.operand.scalars, p (session? s) = true := by
    intro p
    induction h with
    | nil => rfl
    | cons hc _ ih => rw [List.exists_mem_cons_iff, List.exists_mem_cons_iff, hc.judges_iff p, ih]
  have hliteral : ∀ s : Scalar, s.isLiteral = (session? s).isNone := fun s => by cases s <;> rfl
  have hsession : ∀ s : Scalar, s.isSession = (session? s).isSome := fun s => by cases s <;> rfl
  simp only [Expr.reasonOf, hliteral, hsession, hbeside]

/-- **A field uses the same beside comparisons that differ in literals.** -/
theorem fieldUses_alike (h : List.Forall₂ AlikeComparison cs cs') (source table : String) (target : Target) :
    fieldUses source table target cs' = fieldUses source table target cs := by
  have hcolumns := map_congr_alike h fun _ _ hc => hc.column?
  have hvariables := map_congr_alike h fun _ _ hc => hc.operandVariables
  have hfilter : ∀ cs : List Comparison,
      cs.filterMap (fun c => c.operand.column?) = (cs.map fun c => c.operand.column?).filterMap id :=
    fun cs => by
      rw [List.filterMap_map]
      rfl
  rw [fieldUses_eq, fieldUses_eq, Expr.fieldDependencies, Expr.fieldDependencies, reasonOf_alike h,
    hfilter, hfilter, hcolumns, List.flatMap_def, hvariables, ← List.flatMap_def]

variable {σ : Schema} {source table : String} {t : ColumnType}

theorem scalar_alike {v v' : Json} (h : v.Alike v') {s : Scalar} (hs : scalar t v = .ok s) :
    ∃ s', scalar t v' = .ok s' ∧ session? s' = session? s := by
  rcases scalar_eq_ok.1 hs with ⟨x, hx, rfl⟩ | ⟨hnone, hfits, rfl⟩
  · exact ⟨_, scalar_eq_ok.2 (.inl ⟨x, h.reference?.trans hx, rfl⟩), rfl⟩
  · exact ⟨_, scalar_eq_ok.2 (.inr ⟨h.reference?.trans hnone, (t.fits_alike h).trans hfits, rfl⟩), rfl⟩

theorem scalars_alike {items items' : List Json} (h : List.Forall₂ Json.Alike items items') {ss : List Scalar}
    (hs : scalars t items = .ok ss) :
    ∃ ss', scalars t items' = .ok ss' ∧ ss'.map session? = ss.map session? := by
  have hscalars := mapM_eq_ok.1 hs
  clear hs
  induction h generalizing ss with
  | nil =>
    cases hscalars
    exact ⟨[], rfl, rfl⟩
  | cons hv _ ih =>
    cases hscalars with
    | cons hs hss =>
      obtain ⟨s', hs', hvariable⟩ := scalar_alike hv hs
      obtain ⟨ss', hss', hvariables⟩ := ih hss
      refine ⟨s' :: ss', mapM_eq_ok.2 (.cons hs' (mapM_eq_ok.1 hss')), ?_⟩
      rw [List.map_cons, List.map_cons, hvariable, hvariables]

theorem OperandOf.alike {op : Operator} {v v' : Json} {o : Operand} (h : OperandOf σ table t op v o)
    (hv : v.Alike v') : ∃ o', OperandOf σ table t op v' o' ∧ o'.column? = o.column? ∧
      o'.scalars.map session? = o.scalars.map session? := by
  cases h with
  | column hop hother =>
    rw [hv.eq_str]
    exact ⟨_, .column hop hother, rfl, rfl⟩
  | null =>
    rw [hv.eq_bool]
    exact ⟨_, .null, rfl, rfl⟩
  | list hop hss =>
    obtain ⟨items', rfl, hitems⟩ := hv.exists_items
    obtain ⟨ss', hss', hvariables⟩ := scalars_alike hitems hss
    exact ⟨_, .list hop hss', rfl, hvariables⟩
  | listVariable hop hx => exact ⟨_, .listVariable hop (hv.reference?.trans hx), rfl, rfl⟩
  | value hop htext hs =>
    obtain ⟨s', hs', hvariable⟩ := scalar_alike hv hs
    exact ⟨_, .value hop htext hs', rfl, congrArg (fun x => [x]) hvariable⟩

theorem comparisons_alike {v v' : Json} (hv : v.Alike v') {cs : List Comparison}
    (h : comparisons σ table t v = .ok cs) :
    ∃ cs', comparisons σ table t v' = .ok cs' ∧ List.Forall₂ AlikeComparison cs cs' := by
  obtain ⟨entries, rfl, hcs⟩ := comparisons_eq_ok.1 h
  obtain ⟨entries', rfl, hentries⟩ := hv.exists_entries
  have hfound : ∃ cs', List.Forall₂ (ComparisonOf σ table t) entries' cs' ∧
      List.Forall₂ AlikeComparison cs cs' := by
    clear h hv
    induction hentries generalizing cs with
    | nil =>
      cases hcs
      exact ⟨[], .nil, .nil⟩
    | @cons e e' _ _ he _ ih =>
      cases hcs with
      | cons hc hcs =>
        obtain ⟨cs', hcs', halike⟩ := ih hcs
        obtain ⟨o', ho', hcolumn, hvariables⟩ := hc.operand.alike he.2
        refine ⟨⟨_, o'⟩ :: cs', .cons ⟨he.1 ▸ hc.op, ho'⟩ hcs', .cons ⟨rfl, hcolumn, hvariables⟩ halike⟩
  obtain ⟨cs', hcs', halike⟩ := hfound
  exact ⟨cs', comparisons_eq_ok.2 ⟨entries', rfl, hcs'⟩, halike⟩

/-! ## Documents -/

theorem usesOf_congr {ps ps' : List CompiledPredicate} (h : ps'.map (·.uses) = ps.map (·.uses)) :
    usesOf ps' = usesOf ps := by
  have huses : ∀ ps : List CompiledPredicate, usesOf ps = (ps.map (·.uses)).foldr (· ++ ·) .none := by
    intro ps
    rw [List.foldr_map]
    rfl
  rw [huses, huses, h]

mutual

/-- **A document that is like one that compiles** compiles too, and uses the same. -/
theorem Compiles.alike {table : String} {doc doc' : Json} {p : CompiledPredicate} :
    Compiles σ source table doc p → doc.Alike doc' →
      ∃ p', Compiles σ source table doc' p' ∧ p'.uses = p.uses
  | .object hps, h => by
    obtain ⟨entries', rfl, hentries⟩ := h.exists_entries
    obtain ⟨ps', hps', huses⟩ := CompilesEntries.alike hps hentries
    exact ⟨_, .object hps', usesOf_congr huses⟩

theorem CompilesEntry.alike {table : String} {entry : String × Json} {v' : Json} {p : CompiledPredicate} :
    CompilesEntry σ source table entry p → entry.2.Alike v' →
      ∃ p', CompilesEntry σ source table (entry.1, v') p' ∧ p'.uses = p.uses
  | .and hps, h => by
    obtain ⟨items', rfl, hitems⟩ := h.exists_items
    obtain ⟨ps', hps', huses⟩ := CompilesItems.alike hps hitems
    exact ⟨_, .and hps', usesOf_congr huses⟩
  | .or hps, h => by
    obtain ⟨items', rfl, hitems⟩ := h.exists_items
    obtain ⟨ps', hps', huses⟩ := CompilesItems.alike hps hitems
    exact ⟨_, .or hps', usesOf_congr huses⟩
  | .not hp, h => by
    obtain ⟨p', hp', huses⟩ := hp.alike h
    exact ⟨_, .not hp', huses⟩
  | .column hkey hm hcs, h => by
    obtain ⟨cs', hcs', halike⟩ := comparisons_alike h hcs
    exact ⟨_, .column hkey hm hcs', fieldUses_alike halike _ _ _⟩
  | .computedField hkey hm hcs, h => by
    obtain ⟨cs', hcs', halike⟩ := comparisons_alike h hcs
    exact ⟨_, .computedField hkey hm hcs', fieldUses_alike halike _ _ _⟩
  | .relationship hkey hm hp, h => by
    obtain ⟨p', hp', huses⟩ := hp.alike h
    exact ⟨_, .relationship hkey hm hp', by rw [huses]⟩

theorem CompilesEntries.alike {table : String} {entries entries' : List (String × Json)}
    {ps : List CompiledPredicate} : CompilesEntries σ source table entries ps →
      List.Forall₂ (fun e e' => e.1 = e'.1 ∧ e.2.Alike e'.2) entries entries' →
      ∃ ps', CompilesEntries σ source table entries' ps' ∧ ps'.map (·.uses) = ps.map (·.uses)
  | .nil, .nil => ⟨[], .nil, rfl⟩
  | .cons hp hps, .cons he hentries => by
    obtain ⟨p', hp', huse⟩ := hp.alike he.2
    obtain ⟨ps', hps', huses⟩ := hps.alike hentries
    rw [he.1] at hp'
    exact ⟨p' :: ps', .cons hp' hps', by rw [List.map_cons, List.map_cons, huse, huses]⟩

theorem CompilesItems.alike {table : String} {items items' : List Json} {ps : List CompiledPredicate} :
    CompilesItems σ source table items ps → List.Forall₂ Json.Alike items items' →
      ∃ ps', CompilesItems σ source table items' ps' ∧ ps'.map (·.uses) = ps.map (·.uses)
  | .nil, .nil => ⟨[], .nil, rfl⟩
  | .cons hp hps, .cons hj hitems => by
    obtain ⟨p', hp', huse⟩ := hp.alike hj
    obtain ⟨ps', hps', huses⟩ := hps.alike hitems
    exact ⟨p' :: ps', .cons hp' hps', by rw [List.map_cons, List.map_cons, huse, huses]⟩

end

end Predicate

end TableAccess
