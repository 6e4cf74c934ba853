import TableAccess.Json.Choice
import TableAccess.Json.Record
import TableAccess.Proofs.Json.Canonical

/-!
# What readers yield

The free parts of a document are read in canonical form and bring no numbers but those of the document,
wherever they stand in what is read. A reader *yields* a property if all that it reads from documents whose
numbers have some property `N` has it; a record does if its fields yield the properties of the parts. Where
`N` says that a number reads back, the free parts come back from a text as they are: they are *storable*.

* `Reader.Yields.json`: **the free parts of a document are read as free values.**
* `Record.Yields.reader`: a record read from a document yields what its fields yield.
-/

namespace TableAccess

variable {α β : Type} {N : Number → Prop}

/-- **A free value** as it is read: its entries are in order, and its numbers have the property `N`. -/
structure Json.Free (N : Number → Prop) (j : Json) : Prop where
  canonical : j.IsCanonical
  numbers : j.AllNumbers N

/-- **A free value that comes back as it is.** -/
abbrev Json.Storable (j : Json) : Prop := j.Free Number.ReadsBack

/-- All that `r` reads where the numbers have the property `N` has the property `P`. -/
def Reader.Yields (N : Number → Prop) (r : Reader α) (P : α → Prop) : Prop :=
  ∀ ⦃s d a⦄, Document.AllNumbers N d → r s d = .ok a → P a

/-- All that `r` makes of documents whose numbers have the property `N` has the property `P`. -/
def Record.Yields (N : Number → Prop) (r : Record α) (P : α → Prop) : Prop :=
  ∀ ⦃s look a⦄, (∀ name d, look name = some d → Document.AllNumbers N d) →
    r.build s look = .ok a → P a

namespace Document.AllNumbers

theorem item {items : List Document} (h : AllNumbers N (.arr items)) {d : Document}
    (hd : d ∈ items) : d.AllNumbers N :=
  fun n hn => h n (mem_numbersOfItems.2 ⟨d, hd, hn⟩)

theorem entry {entries : List (String × Document)} {cut : Option Flaw}
    (h : AllNumbers N (.obj entries cut)) {k : String} {d : Document} (hd : (k, d) ∈ entries) :
    d.AllNumbers N :=
  fun n hn => h n (mem_numbersOfEntries.2 ⟨(k, d), hd, hn⟩)

end Document.AllNumbers

namespace Reader.Yields

variable {r : Reader α} {P Q : α → Prop}

theorem trivial (r : Reader α) : r.Yields N fun _ => True := fun _ _ _ _ _ => True.intro

theorem mono (h : r.Yields N P) (hPQ : ∀ a, P a → Q a) : r.Yields N Q :=
  fun _ _ _ hd ha => hPQ _ (h hd ha)

theorem json : Reader.json.Yields N (Json.Free N) := fun _ d _ hd ha =>
  ⟨isCanonical_of_readJson d ha, fun n hn => hd n (numbers_of_readJson d ha n hn)⟩

theorem int : Reader.int.Yields N fun n => Number.minInt ≤ n ∧ n ≤ Number.maxInt := by
  intro s d n hd hn
  unfold Reader.int at hn
  split at hn
  next m =>
    split at hn
    next hm =>
      obtain rfl := Except.ok.inj hn
      exact hm
    next => cases hn
  next => unfold refuse at hn; split at hn <;> cases hn

theorem nat : Reader.nat.Yields N fun n => n ≤ Number.maxNat := by
  intro s d n hd hn
  unfold Reader.nat at hn
  split at hn
  next m =>
    split at hn
    next hm =>
      obtain rfl := Except.ok.inj hn
      exact hm
    next => cases hn
  next => unfold refuse at hn; split at hn <;> cases hn

theorem object : Reader.object.Yields N fun m => ∀ e ∈ m.toList, e.2.Free N := by
  intro s d m hd hm e he
  unfold Reader.object at hm
  split at hm
  next entries cut =>
    obtain ⟨l, hl, hm⟩ := bind_eq_ok.1 hm
    split at hm
    · cases hm
    · obtain rfl := pure_eq_ok.1 hm
      have hel := SortedMap.mem_of_mem_ofList he
      refine ⟨haveCanonical_of_readEntries entries hl e hel, fun n hn => hd n ?_⟩
      exact numbers_of_readEntries entries hl n (Json.mem_numbersOfEntries.2 ⟨e, hel, hn⟩)
  next => unfold refuse at hm; split at hm <;> cases hm

theorem map {f : α → β} {P : β → Prop} (h : r.Yields N fun a => P (f a)) : (Reader.map f r).Yields N P := by
  intro s d b hd hb
  obtain ⟨a, ha, rfl⟩ := map_eq_ok.1 hb
  exact h hd ha

theorem orNull (h : r.Yields N P) : r.orNull.Yields N fun o => ∀ a ∈ o, P a := by
  intro s d o hd ho a ha
  unfold Reader.orNull at ho
  split at ho
  next => obtain rfl := Except.ok.inj ho; cases ha
  next =>
    obtain ⟨b, hb, rfl⟩ := map_eq_ok.1 ho
    obtain rfl := Option.some.inj ha
    exact h hd hb

theorem mem_of_named {forms : List (Form α)} {name : String} {f : Form α}
    (h : Form.named forms name = .ok f) : f ∈ forms := by
  unfold Form.named at h
  split at h
  next g hg =>
    obtain rfl := Except.ok.inj h
    exact List.mem_of_find?_eq_some hg
  next => cases h

/-- Every form of a choice yields what the choice does. -/
theorem choice {forms : List (Form α)}
    (h : ∀ f ∈ forms, ∀ s o a, (∀ d ∈ o, Document.AllNumbers N d) → f.read s o = .ok a → P a) :
    (Reader.choice forms).Yields N P := by
  have hnamed : ∀ {name f}, Form.named forms name = .ok f → ∀ s o a,
      (∀ d ∈ o, Document.AllNumbers N d) → f.read s o = .ok a → P a :=
    fun hn => h _ (mem_of_named hn)
  intro s d a hd ha
  unfold Reader.choice at ha
  split at ha
  · obtain ⟨f, hf, ha⟩ := bind_eq_ok.1 ha
    exact hnamed hf _ _ _ (fun _ h => by cases h) ha
  · cases ha
  -- what comes behind the payload is refused
  · obtain ⟨f, hf, ha⟩ := bind_eq_ok.1 ha
    obtain ⟨b, hb, ha⟩ := bind_eq_ok.1 ha
    split at ha
    · obtain rfl := pure_eq_ok.1 ha
      exact hnamed hf _ _ _ (fun _ h => Option.some.inj h ▸ hd.entry List.mem_cons_self) hb
    · cases ha
  · obtain ⟨f, hf, ha⟩ := bind_eq_ok.1 ha
    exact hnamed hf _ _ _ (fun _ h => Option.some.inj h ▸ hd.entry List.mem_cons_self) ha
  · unfold refuse at ha; split at ha <;> cases ha

/-- What a value stands for is read from its own numbers. -/
theorem ofJson (h : r.Yields N P) {j : Json} (hj : j.AllNumbers N) {a : α}
    (ha : Reader.ofJson r j = .ok a) : P a :=
  h (Document.allNumbers_ofJson.2 hj) ha

end Reader.Yields

namespace Record

theorem build_seq_eq_ok {f : Record (α → β)} {r : Record α} {s : Supply}
    {look : String → Option Document} {b : β} :
    (f <*> r).build s look = .ok b ↔
      ∃ g a, f.build s look = .ok g ∧ r.build s look = .ok a ∧ g a = b := by
  show (f.build s look >>= fun g => r.build s look >>= fun a => Pure.pure (g a)) = .ok b ↔ _
  simp only [bind_eq_ok, pure_eq_ok]
  constructor
  · rintro ⟨g, hg, a, ha, h⟩
    exact ⟨g, a, hg, ha, h⟩
  · rintro ⟨g, a, hg, ha, h⟩
    exact ⟨g, hg, a, ha, h⟩

theorem build_map_eq_ok {f : α → β} {r : Record α} {s : Supply} {look : String → Option Document}
    {b : β} : (f <$> r).build s look = .ok b ↔ ∃ a, r.build s look = .ok a ∧ f a = b := by
  refine (build_seq_eq_ok (f := Record.pure f)).trans ?_
  constructor
  · rintro ⟨g, a, hg, ha, h⟩
    cases hg
    exact ⟨a, ha, h⟩
  · rintro ⟨a, ha, h⟩
    exact ⟨f, a, rfl, ha, h⟩

/-- An entry that is taken has the name of a field, and a document that has passed its check, or else is
passed over. -/
theorem collect_cons_cases {fields : List Field} {closed : Bool} {s : Supply}
    {found rest r : List (String × Document)} {k : String} {d : Document}
    (h : collect fields closed s found ((k, d) :: rest) = .ok r) :
    (∃ f, (fields.find? fun f => f.name == k || f.aliases.contains k) = some f ∧ f.check s d = .ok () ∧
        collect fields closed s ((f.name, d) :: found) rest = .ok r) ∨
      (fields.find? fun f => f.name == k || f.aliases.contains k) = none ∧
        collect fields closed s found rest = .ok r := by
  simp only [collect] at h
  split at h
  next f hf =>
    split at h
    · cases h
    · obtain ⟨_, hcheck, h⟩ := bind_eq_ok.1 h
      exact .inl ⟨f, hf, hcheck, h⟩
  next hnone =>
    split at h
    · cases h
    · obtain ⟨_, -, h⟩ := bind_eq_ok.1 h
      exact .inr ⟨hnone, h⟩

/-- A record takes the documents for its fields from the entries. -/
theorem mem_of_collect {fields : List Field} {closed : Bool} {s : Supply}
    {found entries r : List (String × Document)}
    (h : collect fields closed s found entries = .ok r) {e : String × Document} (he : e ∈ r) :
    e ∈ found ∨ ∃ k, (k, e.2) ∈ entries := by
  induction entries generalizing found with
  | nil =>
    obtain rfl := Except.ok.inj h
    exact .inl he
  | cons e' rest ih =>
    rcases collect_cons_cases h with ⟨f, -, -, h⟩ | ⟨-, h⟩
    · rcases ih h with hm | ⟨k, hk⟩
      · rcases List.mem_cons.1 hm with rfl | hm
        · exact .inr ⟨e'.1, List.mem_cons_self⟩
        · exact .inl hm
      · exact .inr ⟨k, List.mem_cons_of_mem _ hk⟩
    · rcases ih h with hm | ⟨k, hk⟩
      · exact .inl hm
      · exact .inr ⟨k, List.mem_cons_of_mem _ hk⟩

/-- A record takes the documents for its fields from the items. -/
theorem mem_of_assign {s : Supply} {fields : List Field} {items : List Document}
    {r : List (String × Document)} (h : assign s fields items = .ok r) {e : String × Document}
    (he : e ∈ r) : e.2 ∈ items := by
  induction fields generalizing items r with
  | nil =>
    cases items with
    | nil => obtain rfl := Except.ok.inj h; cases he
    | cons d rest => cases h
  | cons f fields ih =>
    cases items with
    | nil =>
      simp only [assign] at h
      split at h
      · exact ih h he
      · cases h
    | cons d rest =>
      simp only [assign, bind_eq_ok, pure_eq_ok] at h
      obtain ⟨_, -, r', hr', rfl⟩ := h
      rcases List.mem_cons.1 he with rfl | he
      · exact List.mem_cons_self
      · exact List.mem_cons_of_mem _ (ih hr' he)

theorem mem_of_lookup {l : List (String × Document)} {k : String} {d : Document}
    (h : l.lookup k = some d) : (k, d) ∈ l := by
  obtain ⟨l₁, l₂, rfl, -⟩ := List.lookup_eq_some_iff.1 h
  exact List.mem_append_right _ List.mem_cons_self

namespace Yields

variable {r : Record α} {P Q : α → Prop}

theorem trivial (r : Record α) : r.Yields N fun _ => True := fun _ _ _ _ _ => True.intro

theorem mono (h : r.Yields N P) (hPQ : ∀ a, P a → Q a) : r.Yields N Q :=
  fun _ _ _ hl ha => hPQ _ (h hl ha)

theorem map {f : α → β} (h : r.Yields N P) : (f <$> r).Yields N fun b => ∃ a, P a ∧ f a = b := by
  intro s look b hl hb
  obtain ⟨a, ha, rfl⟩ := build_map_eq_ok.1 hb
  exact ⟨a, h hl ha, rfl⟩

theorem seq {f : Record (α → β)} {R : (α → β) → Prop} (hf : f.Yields N R) (h : r.Yields N P) :
    (f <*> r).Yields N fun b => ∃ g a, R g ∧ P a ∧ g a = b := by
  intro s look b hl hb
  obtain ⟨g, a, hg, ha, rfl⟩ := build_seq_eq_ok.1 hb
  exact ⟨g, a, hf hl hg, h hl ha, rfl⟩

variable {x : Reader α} {name : String}

theorem required (h : x.Yields N P) (aliases : List String) : (Record.required name x aliases).Yields N P := by
  intro s look a hl ha
  simp only [Record.required] at ha
  split at ha
  next d hd => exact h (hl name d hd) ha
  next => cases ha

theorem withDefault {absent : α} (h : x.Yields N P) (hp : P absent) :
    (Record.withDefault name x absent).Yields N P := by
  intro s look a hl ha
  simp only [Record.withDefault] at ha
  split at ha
  next d hd => exact h (hl name d hd) ha
  next => obtain rfl := Except.ok.inj ha; exact hp

theorem maybe (h : x.Yields N P) : (Record.maybe name x).Yields N fun o => ∀ a ∈ o, P a :=
  withDefault h.orNull fun _ ha => by cases ha

/-- **A record read from a document yields what it makes of its fields.** -/
theorem reader (h : r.Yields N P) (closed : Bool) : (r.read closed).Yields N P := by
  intro s d a hd ha
  unfold Record.read at ha
  split at ha
  next entries cut =>
    obtain ⟨found, hf, ha⟩ := bind_eq_ok.1 ha
    split at ha
    · cases ha
    · refine h (fun name d' hl => ?_) ha
      rcases mem_of_collect hf (mem_of_lookup hl) with hm | ⟨k, hk⟩
      · cases hm
      · exact hd.entry hk
  next items =>
    obtain ⟨found, hf, ha⟩ := bind_eq_ok.1 ha
    refine h (fun name d' hl => ?_) ha
    exact hd.item (mem_of_assign hf (mem_of_lookup hl))
  next => unfold Reader.refuse at ha; split at ha <;> cases ha

end Yields

end Record

end TableAccess
