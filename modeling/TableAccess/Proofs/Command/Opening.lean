import TableAccess.Proofs.Command.Documents

/-!
# Laying lists of commands open

A document is a list of commands if it reads as one, and its commands are what reads as its arguments. To
lay a document open is to do so with every list in it, down to the documents that are not lists.

* `Json.Lists`, `Json.LaysOpen`: the two notions, in terms of how documents are read.
* `Json.laysOpen_iff`: **every document lays open as one script**, which is the one that is run.
-/

namespace TableAccess

/-! ## What is read of a document -/

/-- Where no field has another name, a record takes its documents from the entries of their names. -/
theorem Record.mem_of_collect_of_no_aliases {fields : List Field} {closed : Bool} {s : Supply}
    (hal : ∀ f ∈ fields, f.aliases = []) {found entries r : List (String × Document)}
    (h : collect fields closed s found entries = .ok r) {e : String × Document} (he : e ∈ r) :
    e ∈ found ∨ e ∈ entries := by
  induction entries generalizing found with
  | nil =>
    obtain rfl := Except.ok.inj h
    exact .inl he
  | cons e' rest ih =>
    rcases collect_cons_cases h with ⟨f, hf, -, h⟩ | ⟨-, h⟩
    · have hname : f.name = e'.1 := by
        have hmatch := List.find?_some hf
        rw [hal f (List.mem_of_find?_eq_some hf)] at hmatch
        simpa using hmatch
      rcases ih h with hm | hm
      · rcases List.mem_cons.1 hm with rfl | hm
        · exact .inr (List.mem_cons.2 (.inl (Prod.ext hname rfl)))
        · exact .inl hm
      · exact .inr (List.mem_cons_of_mem _ hm)
    · exact (ih h).imp_right (List.mem_cons_of_mem _)

theorem Json.lookup_of_mem {entries : List (String × Json)}
    (h : entries.Pairwise fun a b => compare a.1 b.1 = .lt) {k : String} {j : Json}
    (hm : (k, j) ∈ entries) : entries.lookup k = some j := by
  obtain ⟨l₁, l₂, rfl⟩ := List.append_of_mem hm
  refine List.lookup_eq_some_iff.2 ⟨l₁, l₂, rfl, fun p hp => bne_iff_ne.2 ?_⟩
  exact (ne_of_compare_lt ((List.pairwise_append.1 h).2.2 p hp _ List.mem_cons_self)).symm

/-- The arguments that are read are null, or what stands for them. -/
theorem CommandDocument.args_of_build {s : Supply} {look : String → Option Document} {d : CommandDocument}
    (h : record.build s look = .ok d) {items : List Json} (hargs : d.args = .arr items) :
    ∃ a, look "args" = some a ∧ Reader.readJson a = .ok (.arr items) := by
  obtain ⟨g, args, hg, hargs', rfl⟩ := Record.build_seq_eq_ok.1 h
  obtain ⟨name, -, rfl⟩ := Record.build_map_eq_ok.1 hg
  obtain rfl : args = .arr items := hargs
  simp only [Record.withDefault] at hargs'
  split at hargs'
  next a ha => exact ⟨a, ha, hargs'⟩
  next => cases hargs'

/-- Of the items of an array the second is the arguments. -/
theorem CommandDocument.items_of_assign {s : Supply} {items : List Document}
    {found : List (String × Document)} (h : Record.assign s record.fields items = .ok found) {a : Document}
    (ha : found.lookup "args" = some a) : ∃ name, items = [name, a] := by
  match items with
  | [] => cases h
  | [name] =>
    obtain ⟨_, -, h⟩ := bind_eq_ok.1 h
    obtain ⟨rest, hrest, h⟩ := bind_eq_ok.1 h
    obtain rfl : [] = rest := Except.ok.inj hrest
    rw [← pure_eq_ok.1 h] at ha
    cases ha
  | [name, b] =>
    obtain ⟨_, -, h⟩ := bind_eq_ok.1 h
    obtain ⟨rest, hrest, h⟩ := bind_eq_ok.1 h
    obtain ⟨_, -, hrest⟩ := bind_eq_ok.1 hrest
    obtain ⟨rest', hrest', hrest⟩ := bind_eq_ok.1 hrest
    rw [← pure_eq_ok.1 h, ← pure_eq_ok.1 hrest] at ha
    exact ⟨name, by rw [← Option.some.inj ha]⟩
  | _ :: _ :: _ :: _ =>
    obtain ⟨_, -, h⟩ := bind_eq_ok.1 h
    obtain ⟨rest, hrest, h⟩ := bind_eq_ok.1 h
    obtain ⟨_, -, hrest⟩ := bind_eq_ok.1 hrest
    obtain ⟨rest', hrest', hrest⟩ := bind_eq_ok.1 hrest
    cases hrest'

namespace Script

/-- **The commands of a list are found where its arguments are read.** -/
theorem itemsOf_of_reader {doc : Json} (hdoc : doc.IsCanonical) {d : CommandDocument}
    (hd : CommandDocument.reader.ofJson doc = .ok d) {items : List Json} (hargs : d.args = .arr items) :
    itemsOf doc = items := by
  cases doc with
  | obj entries =>
    obtain ⟨found, hfound, hd⟩ := bind_eq_ok.1 hd
    obtain ⟨a, ha, hread⟩ := CommandDocument.args_of_build hd hargs
    have hmem : ("args", a) ∈ Document.ofEntries entries := by
      refine (Record.mem_of_collect_of_no_aliases ?_ hfound (Record.mem_of_lookup ha)).resolve_left ?_
      · rintro f (_ | ⟨_, _ | ⟨_, hf⟩⟩)
        · rfl
        · rfl
        · cases hf
      · exact List.not_mem_nil
    rw [Document.ofEntries_eq_map, List.mem_map] at hmem
    obtain ⟨⟨k, j⟩, hj, heq⟩ := hmem
    obtain ⟨rfl, rfl⟩ : k = "args" ∧ Document.ofJson j = a := by simpa using heq
    have hcanonical := Json.haveCanonical_iff.1 hdoc.2 _ hj
    rw [Reader.readJson_ofJson j hcanonical] at hread
    obtain rfl := Except.ok.inj hread
    simp only [itemsOf]
    rw [Json.lookup_of_mem hdoc.1 hj]
  | arr l =>
    obtain ⟨found, hfound, hd⟩ := bind_eq_ok.1 hd
    obtain ⟨a, ha, hread⟩ := CommandDocument.args_of_build hd hargs
    obtain ⟨name, hl⟩ := CommandDocument.items_of_assign hfound ha
    rw [Document.ofItems_eq_map] at hl
    obtain ⟨_, rest, rfl, -, hrest⟩ := List.map_eq_cons_iff.1 hl
    obtain ⟨j, rest, rfl, rfl, hnil⟩ := List.map_eq_cons_iff.1 hrest
    obtain rfl := List.map_eq_nil_iff.1 hnil
    have hcanonical := Json.areCanonical_iff.1 hdoc j (List.mem_cons_of_mem _ List.mem_cons_self)
    rw [Reader.readJson_ofJson j hcanonical] at hread
    obtain rfl := Except.ok.inj hread
    rfl
  | null | bool _ | num _ | str _ => cases hd

end Script

/-! ## Opening -/

/-- The document is a list of the commands in `items`. -/
def Json.Lists (doc : Json) (items : List Json) : Prop :=
  ∃ d, CommandDocument.reader.ofJson doc = .ok d ∧ d.isBulk = true ∧ d.args = .arr items

mutual

/-- **The document lays open as the script.** What is not a list of commands is a single document, whether
it commands something or not. -/
inductive Json.LaysOpen : Json → Script → Prop where
  | single {doc : Json} : (∀ items, ¬ doc.Lists items) → LaysOpen doc (.single doc)
  | bulk {doc : Json} {items : List Json} {scripts : List Script} : doc.Lists items →
    LayOpen items scripts → LaysOpen doc (.bulk scripts)

/-- The documents lay open as the scripts, each as the one in its place. -/
inductive Json.LayOpen : List Json → List Script → Prop where
  | nil : LayOpen [] []
  | cons {doc : Json} {items : List Json} {s : Script} {scripts : List Script} : LaysOpen doc s →
    LayOpen items scripts → LayOpen (doc :: items) (s :: scripts)

end

namespace Script

theorem isList_iff {doc : Json} : isList doc = true ↔ ∃ items, doc.Lists items := by
  unfold isList
  cases hd : CommandDocument.reader.ofJson doc with
  | error e => simp [Json.Lists, hd]
  | ok d =>
    simp only [Json.Lists, hd, Except.ok.injEq, exists_eq_left', Bool.and_eq_true]
    cases d.args <;> simp

theorem isList_eq_false_iff {doc : Json} : isList doc = false ↔ ∀ items, ¬ doc.Lists items := by
  rw [← Bool.not_eq_true, isList_iff, not_exists]

theorem itemsOf_of_lists {doc : Json} (hdoc : doc.IsCanonical) {items : List Json} (h : doc.Lists items) :
    itemsOf doc = items := by
  obtain ⟨d, hd, -, hargs⟩ := h
  exact itemsOf_of_reader hdoc hd hargs

theorem lists_itemsOf {doc : Json} (hdoc : doc.IsCanonical) (h : isList doc = true) :
    doc.Lists (itemsOf doc) := by
  obtain ⟨items, h⟩ := isList_iff.1 h
  rwa [itemsOf_of_lists hdoc h]

theorem ofJson_of_lists {doc : Json} (hdoc : doc.IsCanonical) {items : List Json} (h : doc.Lists items) :
    ofJson doc = .bulk (items.map ofJson) := by
  rw [ofJson, if_pos (isList_iff.2 ⟨items, h⟩), List.attach_map_val, itemsOf_of_lists hdoc h]

end Script

namespace Json

theorem isCanonical_of_lists {doc : Json} (hdoc : doc.IsCanonical) {items : List Json} (h : doc.Lists items) :
    ∀ j ∈ items, j.IsCanonical := by
  rw [← Script.itemsOf_of_lists hdoc h]
  exact fun j hj => Script.isCanonical_of_mem_itemsOf hdoc hj

mutual

theorem LaysOpen.eq_ofJson {doc : Json} {s : Script} (hdoc : doc.IsCanonical) :
    doc.LaysOpen s → s = Script.ofJson doc
  | .single h => (Script.ofJson_of_not_isList (Script.isList_eq_false_iff.2 h)).symm
  | .bulk hl hs => by
    rw [Script.ofJson_of_lists hdoc hl, LayOpen.eq_map (isCanonical_of_lists hdoc hl) hs]

theorem LayOpen.eq_map {items : List Json} {scripts : List Script} (hitems : ∀ j ∈ items, j.IsCanonical) :
    LayOpen items scripts → scripts = items.map Script.ofJson
  | .nil => rfl
  | .cons h hs => by
    obtain ⟨hdoc, hrest⟩ := List.forall_mem_cons.1 hitems
    rw [LaysOpen.eq_ofJson hdoc h, LayOpen.eq_map hrest hs]
    rfl

end

theorem layOpen_map {items : List Json} (h : ∀ j ∈ items, j.LaysOpen (Script.ofJson j)) :
    LayOpen items (items.map Script.ofJson) := by
  induction items with
  | nil => exact .nil
  | cons j items ih =>
    obtain ⟨hj, hrest⟩ := List.forall_mem_cons.1 h
    exact .cons hj (ih hrest)

theorem laysOpen_ofJson {doc : Json} (hdoc : doc.IsCanonical) : doc.LaysOpen (Script.ofJson doc) := by
  induction doc using Script.ofJson.induct with
  | case1 doc hl ih =>
    obtain ⟨items, hlists⟩ := Script.isList_iff.1 hl
    rw [Script.ofJson_of_lists hdoc hlists]
    refine .bulk hlists (layOpen_map fun j hj => ih ⟨j, ?_⟩ (isCanonical_of_lists hdoc hlists j hj))
    rwa [Script.itemsOf_of_lists hdoc hlists]
  | case2 doc hl =>
    have hl := eq_false_of_ne_true hl
    rw [Script.ofJson_of_not_isList hl]
    exact .single (Script.isList_eq_false_iff.1 hl)

/-- **Every document lays open as one script**, which is the one that is run. -/
theorem laysOpen_iff {doc : Json} (hdoc : doc.IsCanonical) {s : Script} :
    doc.LaysOpen s ↔ s = Script.ofJson doc :=
  ⟨LaysOpen.eq_ofJson hdoc, fun h => h ▸ laysOpen_ofJson hdoc⟩

end Json

end TableAccess
