import TableAccess.Proofs.Json.Recovery

/-!
# Reading undoes writing

A value is written with its entries in the order of its description. At hand it is kept in canonical form,
with the keys in order, so a reader gets to see both. It *restores* a value if it recovers it from either
form. Reading *undoes* writing if all that is read comes back from what it is written as: from the value, and
from its text if that is not nested too deeply.

* `readJson_ofJson_eq_canonical`: **a free value at hand is read in canonical form**, from which the laws of
  `Json.canonical` follow.
* `Reader.Restores`, `Record.Restores`: the notions, with a lemma for each way to put readers together.
* `Reader.Undoes.of`: **a reader that restores all that it yields undoes writing.**
-/

namespace TableAccess

variable {α β : Type}

/-! ## Canonical forms -/

namespace Json

theorem canonicalItems_eq_map (items : List Json) : canonicalItems items = items.map canonical := by
  induction items with
  | nil => rfl
  | cons j rest ih => rw [canonicalItems, ih, List.map_cons]

theorem canonicalEntries_eq_map (entries : List (String × Json)) :
    canonicalEntries entries = entries.map fun e => (e.1, e.2.canonical) := by
  induction entries with
  | nil => rfl
  | cons e rest ih => rw [canonicalEntries, ih, List.map_cons]

theorem canonicalEntries_append (l r : List (String × Json)) :
    canonicalEntries (l ++ r) = canonicalEntries l ++ canonicalEntries r := by
  simp only [canonicalEntries_eq_map, List.map_append]

theorem canonicalEntries_entry? (key : String) (w : α → Json) (o : Option α) :
    canonicalEntries ( entry? key w o) = entry? key (fun a => (w a).canonical) o := by
  cases o <;> rfl

theorem keys_canonicalEntries (entries : List (String × Json)) :
    (canonicalEntries entries).map (·.1) = entries.map (·.1) := by
  rw [canonicalEntries_eq_map, List.map_map]
  rfl

theorem canonical_arr_map (w : α → Json) (l : List α) :
    (arr (l.map w)).canonical = .arr (l.map fun a => (w a).canonical) := by
  rw [canonical, canonicalItems_eq_map, List.map_map]
  rfl

theorem canonical_ne_null {j : Json} (h : j ≠ .null) : j.canonical ≠ .null := by
  cases j <;> simp_all [canonical]

end Json

namespace Reader

open Document (ofItems ofEntries)

mutual

/-- **A free value at hand is read in canonical form.** -/
theorem readJson_ofJson_eq_canonical : (j : Json) → readJson (Document.ofJson j) = .ok j.canonical
  | .null | .bool _ | .num _ | .str _ => rfl
  | .arr items => by
    rw [Document.ofJson, readJson, readItems_ofItems_eq_canonical items]
    rfl
  | .obj entries => by
    rw [Document.ofJson, readJson, readEntries_ofEntries_eq_canonical entries]
    rfl

theorem readItems_ofItems_eq_canonical : (items : List Json) →
    readItems (ofItems items) = .ok (Json.canonicalItems items)
  | [] => rfl
  | j :: rest => by
    rw [ofItems, readItems, readJson_ofJson_eq_canonical j, readItems_ofItems_eq_canonical rest]
    rfl

theorem readEntries_ofEntries_eq_canonical : (entries : List (String × Json)) →
    readEntries (ofEntries entries) = .ok (Json.canonicalEntries entries)
  | [] => rfl
  | (k, j) :: rest => by
    rw [ofEntries, readEntries, readJson_ofJson_eq_canonical j, readEntries_ofEntries_eq_canonical rest]
    rfl

end

end Reader

namespace Json

theorem isCanonical_canonical (j : Json) : j.canonical.IsCanonical :=
  Reader.isCanonical_of_readJson _ (Reader.readJson_ofJson_eq_canonical j)

theorem canonical_eq_self {j : Json} (h : j.IsCanonical) : j.canonical = j :=
  Except.ok.inj ((Reader.readJson_ofJson_eq_canonical j).symm.trans (Reader.readJson_ofJson j h))

theorem canonical_canonical (j : Json) : j.canonical.canonical = j.canonical :=
  canonical_eq_self (isCanonical_canonical j)

/-- Two entries change places if they do not stand in order. -/
theorem canonical_pair {k k' : String} (h : compare k' k = .lt) (a b : Json) :
    (obj [(k, a), (k', b)]).canonical = .obj [(k', b.canonical), (k, a.canonical)] := by
  simp [canonical, canonicalEntries, sortEntries, SortedMap.ofList, SortedMap.insert, SortedMap.empty,
    SortedMap.put, h]

theorem isCanonical_strings (l : List String) : (strings l).IsCanonical := by
  refine areCanonical_iff.2 fun j hj => ?_
  obtain ⟨s, -, rfl⟩ := List.mem_map.1 hj
  trivial

/-- A canonical form brings no new numbers. -/
theorem AllNumbers.canonical {N : Number → Prop} {j : Json} (h : j.AllNumbers N) :
    j.canonical.AllNumbers N := fun n hn => by
  have hn := Reader.numbers_of_readJson _ (Reader.readJson_ofJson_eq_canonical j) n hn
  rw [Document.numbers_ofJson] at hn
  exact h n hn

theorem depthEntries_sortEntries_le (entries : List (String × Json)) :
    depthEntries (sortEntries entries) ≤ depthEntries entries :=
  Document.depthEntries_le.2 fun e he =>
    Document.depthEntries_le.1 (Nat.le_refl _) e (SortedMap.mem_of_mem_ofList he)

mutual

theorem depth_canonical_le : (j : Json) → j.canonical.depth ≤ j.depth
  | .null | .bool _ | .num _ | .str _ => Nat.le_refl _
  | .arr items => Nat.succ_le_succ (depthItems_canonical_le items)
  | .obj entries =>
    Nat.succ_le_succ (Nat.le_trans (depthEntries_sortEntries_le _) (depthEntries_canonical_le entries))

theorem depthItems_canonical_le : (items : List Json) → depthItems (canonicalItems items) ≤ depthItems items
  | [] => Nat.le_refl _
  | j :: rest => by
    rw [canonicalItems, depthItems, depthItems]
    exact max_le_max (depth_canonical_le j) (depthItems_canonical_le rest)

theorem depthEntries_canonical_le : (entries : List (String × Json)) →
    depthEntries (canonicalEntries entries) ≤ depthEntries entries
  | [] => Nat.le_refl _
  | (k, j) :: rest => by
    rw [canonicalEntries, depthEntries, depthEntries]
    exact max_le_max (depth_canonical_le j) (depthEntries_canonical_le rest)

end

end Json

/-! ## Readers -/

/-- **`r` restores `a` from `j`**: from `j` as it is written, and from its canonical form. -/
structure Reader.Restores (r : Reader α) (j : Json) (a : α) : Prop where
  asWritten : r.Recovers j a
  inOrder : r.Recovers j.canonical a

/-- The fields of `r` restore their parts of `a` from `entries`. -/
structure Record.Restores (r : Record α) (entries : List (String × Json)) (a : α) : Prop where
  asWritten : r.Recovers entries a
  inOrder : r.Recovers (Json.canonicalEntries entries) a

namespace Reader

/-- A recovered value comes back from the text, if that is not nested too deeply. -/
theorem Recovers.ofText {r : Reader α} {j : Json} {a : α} (h : r.Recovers j a) (hn : j.NumbersReadBack)
    (hd : j.depth ≤ Document.maxDepth) : r.ofText j.text = .ok a := by
  rw [Reader.ofText, Document.ofText_text hn]
  simp only [bind_eq_ok, Bool.false_eq_true, if_false, pure_eq_ok, exists_eq_right]
  rw [Document.limit_ofJson _ _ hd]
  exact h.read _

namespace Restores

variable {r : Reader α} {j : Json} {a : α}

/-- What is written in canonical form has only that form. -/
theorem of_canonical (hj : j.IsCanonical) (h : r.Recovers j a) : r.Restores j a :=
  ⟨h, by rwa [Json.canonical_eq_self hj]⟩

theorem string (s : String) : Reader.string.Restores (.str s) s := of_canonical trivial (.string s)

theorem bool (b : Bool) : Reader.bool.Restores (.bool b) b := of_canonical trivial (.bool b)

theorem int {n : Int} (h : Number.minInt ≤ n ∧ n ≤ Number.maxInt) : Reader.int.Restores (Json.int n) n :=
  of_canonical trivial (.int h)

theorem nat {n : Nat} (h : n ≤ Number.maxNat) : Reader.nat.Restores (Json.nat n) n :=
  of_canonical trivial (.nat h)

theorem json (h : j.IsCanonical) : Reader.json.Restores j j := of_canonical h (.json h)

/-- An object of free keys. -/
theorem object {m : SortedMap String Json} (h : ∀ e ∈ m.toList, e.2.IsCanonical) :
    Reader.object.Restores (.obj m.toList) m :=
  of_canonical ⟨m.ordered, Json.haveCanonical_iff.2 h⟩ (.object h)

theorem orNull (h : r.Restores j a) (hj : j ≠ .null) : r.orNull.Restores j (some a) :=
  ⟨h.asWritten.orNull hj, h.inOrder.orNull (Json.canonical_ne_null hj)⟩

theorem list {l : List α} {w : α → Json} (h : ∀ a ∈ l, r.Restores (w a) a) :
    (Reader.list r).Restores (.arr (l.map w)) l where
  asWritten := .list fun a ha => (h a ha).asWritten
  inOrder := by
    rw [Json.canonical_arr_map]
    exact .list fun a ha => (h a ha).inOrder

theorem map {f : α → β} (h : r.Restores j a) : (Reader.map f r).Restores j (f a) :=
  ⟨h.asWritten.map, h.inOrder.map⟩

/-- The name of one of several values. -/
theorem word {values : List (String × α)} {name : String}
    (h : Form.named (values.map fun v => .plain v.1 v.2) name = .ok (.plain name a)) :
    (Reader.word values).Restores (.str name) a := by
  refine of_canonical trivial (.of_flat (fun s => ?_) rfl)
  show Reader.choice _ s (.str name) = _
  cases s <;> simp only [Reader.choice, h] <;> rfl

/-- A form of a choice with its payload. -/
theorem choice {forms : List (Form α)} {name : String} {r : Reader β} {f : β → α} {b : β}
    (hn : Form.named forms name = .ok (.holding name r f)) (h : r.Restores j b) :
    (Reader.choice forms).Restores (.obj [(name, j)]) (f b) :=
  ⟨.choice hn h.asWritten, .choice hn h.inOrder⟩

/-- **A recovered value is read at hand**, whatever form it has. -/
theorem ofJson (h : r.Restores j a) : r.ofJson j = .ok a ∧ r.ofJson j.canonical = .ok a :=
  ⟨h.asWritten.read _, h.inOrder.read _⟩

theorem ofText (h : r.Restores j a) (hn : j.NumbersReadBack) (hd : j.depth ≤ Document.maxDepth) :
    r.ofText j.text = .ok a ∧ r.ofText j.canonical.text = .ok a :=
  ⟨h.asWritten.ofText hn hd,
    h.inOrder.ofText (Json.AllNumbers.canonical hn) (Nat.le_trans (Json.depth_canonical_le j) hd)⟩

end Restores

end Reader

/-! ## Records -/

namespace Record.Restores

theorem map {f : α → β} {r : Record α} {entries : List (String × Json)} {a : α}
    (h : r.Restores entries a) : (f <$> r).Restores entries (f a) :=
  ⟨h.asWritten.map, h.inOrder.map⟩

/-- Two records next to each other, whose fields have different names. -/
theorem seq {f : Record (α → β)} {r : Record α} {l l' : List (String × Json)} {g : α → β} {a : α}
    (hf : f.Restores l g) (hr : r.Restores l' a)
    (hn : (f.fields.map (·.name) ++ r.fields.map (·.name)).Nodup) :
    (f <*> r).Restores (l ++ l') (g a) where
  asWritten := hf.asWritten.seq hr.asWritten hn
  inOrder := by
    rw [Json.canonicalEntries_append]
    exact hf.inOrder.seq hr.inOrder hn

variable {r : Reader α} {name : String} {j : Json} {a : α}

theorem required (h : r.Restores j a) (aliases : List String) :
    (Record.required name r aliases).Restores [(name, j)] a :=
  ⟨.required h.asWritten aliases, .required h.inOrder aliases⟩

theorem withDefault (h : r.Restores j a) (absent : α) :
    (Record.withDefault name r absent).Restores [(name, j)] a :=
  ⟨.withDefault h.asWritten absent, .withDefault h.inOrder absent⟩

theorem absent (absent : α) : (Record.withDefault name r absent).Restores [] absent :=
  ⟨.absent absent, .absent absent⟩

/-- A field that is written only if there is something, which is never written as null. -/
theorem maybe {o : Option α} {w : α → Json} (h : ∀ a ∈ o, r.Restores (w a) a ∧ w a ≠ .null) :
    (Record.maybe name r).Restores ( Json.entry? name w o) o where
  asWritten := .maybe fun a ha => ⟨(h a ha).1.asWritten, (h a ha).2⟩
  inOrder := by
    rw [Json.canonicalEntries_entry?]
    exact .maybe fun a ha => ⟨(h a ha).1.inOrder, Json.canonical_ne_null (h a ha).2⟩

/-- **A record whose fields restore their parts restores the whole.** -/
theorem reader {r : Record α} {entries : List (String × Json)} (h : r.Restores entries a)
    (hn : (names r.fields).Nodup) (closed : Bool) : (r.read closed).Restores (.obj entries) a where
  asWritten := h.asWritten.reader hn closed
  inOrder := by
    have hkeys := (nodup_of_names hn).sublist h.inOrder.keys
    exact h.inOrder.reader_perm (SortedMap.perm_ofList hkeys) hn closed

end Record.Restores

/-! ## All that is read -/

namespace Reader

/-- What writing makes of a value that is read at hand, in the form that is kept. -/
def rewrite (r : Reader α) (w : α → Json) (j : Json) : Except ReadError Json :=
  (r.ofJson j).map fun a => (w a).canonical

/-- What writing makes of a value that is read from a text. -/
def rewriteText (r : Reader α) (w : α → Json) (t : String) : Except ReadError String :=
  (r.ofText t).map fun a => (w a).text

/-- **Reading with `r` undoes writing with `w`**: whatever is read from a document, be it a text or a value
at hand, is read again from what it is written as, so writing it again changes nothing. For that to hold of
the text, the numbers of the document must read back, and the text must not be nested too deeply. -/
structure Undoes (r : Reader α) (w : α → Json) : Prop where
  ofJson : ∀ s d a, r s d = .ok a → r.ofJson (w a) = .ok a ∧ r.ofJson (w a).canonical = .ok a
  ofText : ∀ s d a, r s d = .ok a → d.NumbersReadBack → (w a).depth ≤ Document.maxDepth →
    r.ofText (w a).text = .ok a ∧ r.ofText (w a).canonical.text = .ok a
  idempotent : ∀ j, (r.rewrite w j >>= r.rewrite w) = r.rewrite w j
  idempotentText : ∀ t a, r.ofText t = .ok a → (Document.ofText t).1.NumbersReadBack →
    (w a).depth ≤ Document.maxDepth → (r.rewriteText w t >>= r.rewriteText w) = r.rewriteText w t

/-- What is read from a text is read from the document that stands in it. -/
theorem stream_of_ofText {r : Reader α} {t : String} {a : α} (h : r.ofText t = .ok a) :
    r .stream (Document.ofText t).1 = .ok a := by
  obtain ⟨b, hb, h⟩ := bind_eq_ok.1 h
  split at h
  · cases h
  · obtain rfl := pure_eq_ok.1 h
    exact hb

/-- **A reader that restores all that it yields undoes writing.** -/
theorem Undoes.of {r : Reader α} {w : α → Json} {P : (Number → Prop) → α → Prop}
    (hy : ∀ N, r.Yields N (P N)) (hr : ∀ N a, P N a → r.Restores (w a) a)
    (hn : ∀ a, P Number.ReadsBack a → (w a).NumbersReadBack) : r.Undoes w := by
  have restores : ∀ s d a, r s d = .ok a → r.Restores (w a) a := fun s d a ha =>
    hr _ a (hy (fun _ => True) (fun _ _ => trivial) ha)
  have text : ∀ s d a, r s d = .ok a → d.NumbersReadBack → (w a).depth ≤ Document.maxDepth →
      r.ofText (w a).text = .ok a ∧ r.ofText (w a).canonical.text = .ok a := fun s d a ha hd =>
    (restores s d a ha).ofText (hn a (hy _ hd ha))
  refine ⟨fun s d a ha => (restores s d a ha).ofJson, text, fun j => ?_, fun t a ha hd hdepth => ?_⟩
  · cases ha : r.ofJson j with
    | error e => simp only [rewrite, ha]; rfl
    | ok a =>
      simp only [rewrite, ha]
      exact map_eq_ok.2 ⟨a, (restores _ _ a ha).ofJson.2, rfl⟩
  · simp only [rewriteText, ha]
    exact map_eq_ok.2 ⟨a, (text _ _ a (stream_of_ofText ha) hd hdepth).1, rfl⟩

end Reader

end TableAccess
