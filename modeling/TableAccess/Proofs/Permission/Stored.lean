import TableAccess.Permission.Definition
import TableAccess.Proofs.Json.Restoration
import TableAccess.Proofs.Json.Text
import TableAccess.Store.Basic

/-!
# Definitions come back from the store

The store keeps definitions as text. A definition whose free values are in canonical form comes back from
its text with the numbers that are read there, or, where the text cannot be read, not at all. What was read
from a document has such values.

* `Clause.bodyReader_yields`, `Definition.reader_yields`: **what is read is free** but for the numbers of the
  document.
* `Clause.restores`, `StoredDefinition.restores`: what is written is read as it was.
* `StoredDefinition.decode_text_eq_ok_of_readAs`: **a definition comes back from its text** with the numbers
  that are read there, exactly if its number has 64 bits and its clause is not nested too deeply.
* `StoredDefinition.decode_text_eq_ok`: a storable definition comes back as it was.
-/

namespace TableAccess

variable {N M : Number → Prop} {f : Binary64 → Binary64}

/-! ## Free clauses -/

/-- Presets whose values are free. -/
def Presets.Free (N : Number → Prop) (p : Presets) : Prop := ∀ e ∈ p.toList, e.2.Free N

structure InsertClause.Free (N : Number → Prop) (c : InsertClause) : Prop where
  check : c.check.Free N
  set : ∀ p ∈ c.set, Presets.Free N p

structure SelectClause.Free (N : Number → Prop) (c : SelectClause) : Prop where
  filter : c.filter.Free N
  limit : ∀ n ∈ c.limit, Number.minInt ≤ n ∧ n ≤ Number.maxInt

/-- A check that is null would come back as none. -/
structure UpdateClause.Free (N : Number → Prop) (c : UpdateClause) : Prop where
  set : ∀ p ∈ c.set, Presets.Free N p
  filter : c.filter.Free N
  check : ∀ j ∈ c.check, j.Free N ∧ j ≠ .null

structure DeleteClause.Free (N : Number → Prop) (c : DeleteClause) : Prop where
  filter : c.filter.Free N

/-- **A clause as it is read** from a document whose numbers have the property `N`. -/
def Clause.Free (N : Number → Prop) : Clause → Prop
  | .insert c => c.Free N
  | .select c => c.Free N
  | .update c => c.Free N
  | .delete c => c.Free N

/-- **A clause that comes back from the store as it is.** -/
abbrev Clause.Storable (c : Clause) : Prop := c.Free Number.ReadsBack

/-! ## What is read is free -/

open Reader (Yields)

theorem Json.Free.emptyObject : Json.emptyObject.Free N :=
  ⟨⟨.nil, trivial⟩, fun _ h => by cases h⟩

theorem InsertClause.reader_yields : InsertClause.reader.Yields N (InsertClause.Free N) := by
  have h : InsertClause.record.Yields N _ :=
    (((Record.Yields.withDefault .json .emptyObject).map.seq (.maybe .object)).seq
      (.maybe (.trivial _))).seq (.maybe (.trivial _))
  refine (h.mono ?_).reader true
  rintro _ ⟨_, _, ⟨_, _, ⟨_, _, ⟨_, hc, rfl⟩, hs, rfl⟩, -, rfl⟩, -, rfl⟩
  exact ⟨hc, hs⟩

theorem SelectClause.reader_yields : SelectClause.reader.Yields N (SelectClause.Free N) := by
  have h : SelectClause.record.Yields N _ :=
    ((((((Record.Yields.required (.trivial _) []).map.seq (.withDefault .json .emptyObject)).seq
      (.maybe .int)).seq (.withDefault (.trivial _) trivial)).seq
      (.withDefault (.trivial _) trivial)).seq (.maybe (.trivial _))).seq (.maybe (.trivial _))
  refine (h.mono ?_).reader true
  rintro _ ⟨_, _, ⟨_, _, ⟨_, _, ⟨_, _, ⟨_, _, ⟨_, _, ⟨_, -, rfl⟩, hf, rfl⟩, hl, rfl⟩, -, rfl⟩, -, rfl⟩,
    -, rfl⟩, -, rfl⟩
  exact ⟨hf, hl⟩

theorem Reader.eq_null_of_readJson {d : Document} (h : readJson d = .ok .null) : d = .null := by
  cases d with
  | null => rfl
  | arr items => obtain ⟨_, -, h⟩ := map_eq_ok.1 h; cases h
  | obj entries cut => obtain ⟨_, -, -, h⟩ := readJson_obj_eq_ok.1 h; cases h
  | _ => cases h

/-- A check that is read is not null, which stands for none. -/
theorem UpdateClause.check_yields :
    (Reader.orNull Reader.json).Yields N fun o => ∀ j ∈ o, j.Free N ∧ j ≠ .null := by
  intro s d o hd ho j hj
  refine ⟨Yields.json.orNull hd ho j hj, ?_⟩
  rintro rfl
  obtain rfl := Option.mem_def.1 hj
  have hne : d ≠ .null := by rintro rfl; cases ho
  rw [Reader.Recovers.orNull_of_ne hne] at ho
  obtain ⟨j, hj, heq⟩ := map_eq_ok.1 ho
  obtain rfl := Option.some.inj heq
  exact hne (Reader.eq_null_of_readJson hj)

theorem UpdateClause.reader_yields : UpdateClause.reader.Yields N (UpdateClause.Free N) := by
  have h : UpdateClause.record.Yields N _ :=
    (((Record.Yields.required (.trivial _) []).map.seq (.maybe .object)).seq
      (.withDefault .json .emptyObject)).seq (.withDefault check_yields fun _ h => by cases h)
  refine (h.mono ?_).reader true
  rintro _ ⟨_, _, ⟨_, _, ⟨_, _, ⟨_, -, rfl⟩, hs, rfl⟩, hf, rfl⟩, hc, rfl⟩
  exact ⟨hs, hf, hc⟩

theorem DeleteClause.reader_yields : DeleteClause.reader.Yields N (DeleteClause.Free N) := by
  have h : DeleteClause.record.Yields N _ := (Record.Yields.withDefault .json .emptyObject).map
  refine (h.mono ?_).reader true
  rintro _ ⟨_, hf, rfl⟩
  exact ⟨hf⟩

/-- **A clause that is read is free** and of the kind it is read for. -/
theorem Clause.bodyReader_yields (k : Kind) :
    (bodyReader k).Yields N fun c => c.kind = k ∧ c.Free N := by
  cases k with
  | insert => exact .map (InsertClause.reader_yields.mono fun _ h => ⟨rfl, h⟩)
  | select => exact .map (SelectClause.reader_yields.mono fun _ h => ⟨rfl, h⟩)
  | update => exact .map (UpdateClause.reader_yields.mono fun _ h => ⟨rfl, h⟩)
  | delete => exact .map (DeleteClause.reader_yields.mono fun _ h => ⟨rfl, h⟩)

theorem Clause.reader_yields : Clause.reader.Yields N (Clause.Free N) := by
  refine .choice fun f hf s o c ho hc => ?_
  obtain ⟨k, -, rfl⟩ := List.mem_map.1 hf
  cases o with
  | none => cases hc
  | some d =>
    obtain ⟨c, hread, rfl⟩ := map_eq_ok.1 hc
    exact (bodyReader_yields k (ho d rfl) hread).2

/-- **A definition that is read is free** but for the numbers that are read. -/
theorem Definition.reader_yields : Definition.reader.Yields N fun d => d.clause.Free N := by
  have h : Definition.record.Yields N _ :=
    ((Record.Yields.required (.trivial _) []).map.seq (.maybe (.trivial _))).seq
      (.required Clause.reader_yields [])
  refine (h.mono ?_).reader false
  rintro _ ⟨_, _, ⟨_, _, ⟨_, -, rfl⟩, -, rfl⟩, hc, rfl⟩
  exact hc

theorem StoredDefinition.reader_yields :
    StoredDefinition.reader.Yields N fun d => d.seq ≤ Number.maxNat ∧ d.definition.clause.Free N := by
  have h : StoredDefinition.record.Yields N _ :=
    (Record.Yields.required .nat []).map.seq (.required Definition.reader_yields [])
  refine (h.mono ?_).reader false
  rintro _ ⟨_, _, ⟨_, hseq, rfl⟩, hc, rfl⟩
  exact ⟨hseq, hc⟩

/-! ## What is written is restored -/

open Reader (Restores)

theorem ColumnSpec.restores (c : ColumnSpec) : ColumnSpec.reader.Restores c.toJson c := by
  cases c with
  | all => exact .of_canonical trivial (.of_flat (fun _ => rfl) rfl)
  | listed names =>
    have h := (Reader.Recovers.list fun n (_ : n ∈ names) => .string n).map (f := ColumnSpec.listed)
    refine .of_canonical (Json.isCanonical_strings names) ⟨h.read, fun s n b hb => h.depth s n b ?_⟩
    cases n <;> exact hb

theorem ColumnSpec.toJson_ne_null (c : ColumnSpec) : c.toJson ≠ .null := by
  cases c <;> simp [toJson, Json.strings]

theorem RootField.restores (f : RootField) : RootField.reader.Restores f.toJson f :=
  .word (by cases f <;> rfl)

theorem Presets.restores {p : Presets} (h : p.Free N) : Presets.reader.Restores p.toJson p :=
  .object fun e he => (h e he).canonical

theorem InsertClause.restores {c : InsertClause} (h : c.Free N) :
    InsertClause.reader.Restores c.toJson c := by
  have hcheck : (mk <$> Record.withDefault "check" Reader.json Json.emptyObject).Restores _ _ :=
    (Record.Restores.withDefault (.json h.check.canonical) _).map
  have hset : (Record.maybe "set" Presets.reader).Restores _ c.set :=
    .maybe fun p hp => ⟨Presets.restores (h.set p hp), by simp [Presets.toJson]⟩
  have hcolumns : (Record.maybe "columns" ColumnSpec.reader).Restores _ c.columns :=
    .maybe fun s _ => ⟨s.restores, s.toJson_ne_null⟩
  have hbackend : (Record.maybe "backend_only" Reader.bool).Restores _ c.backendOnly :=
    .maybe fun b _ => ⟨.bool b, by simp⟩
  exact (((hcheck.seq hset (by decide +kernel)).seq hcolumns (by decide +kernel)).seq hbackend
    (by decide +kernel)).reader (by decide +kernel) true

theorem SelectClause.restores {c : SelectClause} (h : c.Free N) :
    SelectClause.reader.Restores c.toJson c := by
  have hcolumns : (mk <$> Record.required "columns" ColumnSpec.reader []).Restores _ _ :=
    (Record.Restores.required c.columns.restores []).map
  have hfilter : (Record.withDefault "filter" Reader.json Json.emptyObject).Restores _ c.filter :=
    .withDefault (.json h.filter.canonical) _
  have hlimit : (Record.maybe "limit" Reader.int).Restores _ c.limit :=
    .maybe fun n hn => ⟨.int (h.limit n hn), by simp [Json.int]⟩
  have haggregations : (Record.withDefault "allow_aggregations" Reader.bool false).Restores _
      c.allowAggregations := .withDefault (.bool _) _
  -- an empty list of computed fields is left out, and its absence is read as an empty list
  have hcomputed : (Record.withDefault "computed_fields" (.list Reader.string) []).Restores
      (if c.computedFields.isEmpty then [] else [("computed_fields", Json.strings c.computedFields)])
      c.computedFields := by
    cases hc : c.computedFields with
    | nil => exact .absent _
    | cons f rest => exact .withDefault (.list fun s _ => .string s) _
  have hroots : ∀ (name : String) (o : Option (List RootField)),
      (Record.maybe name (.list RootField.reader)).Restores ( Json.entry? name RootField.listToJson o) o :=
    fun _ _ => .maybe fun l _ => ⟨.list fun f _ => f.restores, by simp [RootField.listToJson]⟩
  exact ((((((hcolumns.seq hfilter (by decide +kernel)).seq hlimit (by decide +kernel)).seq
    haggregations (by decide +kernel)).seq hcomputed (by decide +kernel)).seq
    (hroots "query_root_fields" c.queryRootFields) (by decide +kernel)).seq
    (hroots "subscription_root_fields" c.subscriptionRootFields) (by decide +kernel)).reader
    (by decide +kernel) true

theorem UpdateClause.restores {c : UpdateClause} (h : c.Free N) :
    UpdateClause.reader.Restores c.toJson c := by
  have hcolumns : (mk <$> Record.required "columns" ColumnSpec.reader []).Restores _ _ :=
    (Record.Restores.required c.columns.restores []).map
  have hset : (Record.maybe "set" Presets.reader).Restores _ c.set :=
    .maybe fun p hp => ⟨Presets.restores (h.set p hp), by simp [Presets.toJson]⟩
  have hfilter : (Record.withDefault "filter" Reader.json Json.emptyObject).Restores _ c.filter :=
    .withDefault (.json h.filter.canonical) _
  have hcheck : (Record.maybe "check" Reader.json).Restores ( Json.entry? "check" id c.check) c.check :=
    .maybe fun j hj => ⟨.json (h.check j hj).1.canonical, (h.check j hj).2⟩
  exact (((hcolumns.seq hset (by decide +kernel)).seq hfilter (by decide +kernel)).seq hcheck
    (by decide +kernel)).reader (by decide +kernel) true

theorem DeleteClause.restores {c : DeleteClause} (h : c.Free N) :
    DeleteClause.reader.Restores c.toJson c := by
  have hfilter : (mk <$> Record.withDefault "filter" Reader.json Json.emptyObject).Restores _ _ :=
    (Record.Restores.withDefault (.json h.filter.canonical) _).map
  exact hfilter.reader (by decide +kernel) true

theorem Clause.body_restores {c : Clause} (h : c.Free N) :
    (bodyReader c.kind).Restores c.bodyToJson c := by
  cases c with
  | insert c => exact (InsertClause.restores h).map
  | select c => exact (SelectClause.restores h).map
  | update c => exact (UpdateClause.restores h).map
  | delete c => exact (DeleteClause.restores h).map

theorem Clause.named_kind (k : Kind) :
    Form.named (Kind.all.map fun k => .holding k.name (bodyReader k) id) k.name =
      .ok (.holding k.name (bodyReader k) id) := by
  cases k <;> rfl

theorem Clause.restores {c : Clause} (h : c.Free N) : Clause.reader.Restores c.toJson c :=
  .choice (named_kind c.kind) (body_restores h)

theorem Definition.restores {d : Definition} (h : d.clause.Free N) :
    Definition.reader.Restores d.toJson d := by
  have hrole : (mk <$> Record.required "role" Reader.string []).Restores _ _ :=
    (Record.Restores.required (.string d.role) []).map
  have hcomment : (Record.maybe "comment" Reader.string).Restores _ d.comment :=
    .maybe fun s _ => ⟨.string s, by simp⟩
  have hclause : (Record.required "permission" Clause.reader []).Restores _ d.clause :=
    .required (Clause.restores h) []
  exact ((hrole.seq hcomment (by decide +kernel)).seq hclause (by decide +kernel)).reader
    (by decide +kernel) false

theorem StoredDefinition.restores {d : StoredDefinition} (hseq : d.seq ≤ Number.maxNat)
    (h : d.definition.clause.Free N) : StoredDefinition.reader.Restores d.toJson d := by
  have hnumber : (mk <$> Record.required "seq" Reader.nat []).Restores _ _ :=
    (Record.Restores.required (.nat hseq) []).map
  have hdefinition : (Record.required "definition" Definition.reader []).Restores _ d.definition :=
    .required (Definition.restores h) []
  exact (hnumber.seq hdefinition (by decide +kernel)).reader (by decide +kernel) false

/-! ## The numbers of what is written -/

/-- What writing brings in by itself are integers of 64 bits. -/
def Number.HasIntegers (N : Number → Prop) : Prop := ∀ n, Number.isInteger n = true → N (.int n)

theorem Number.hasIntegers_readsBack : HasIntegers ReadsBack := fun _ => readsBack_int

namespace Json

theorem allNumbers_strings (l : List String) : (strings l).AllNumbers N := by
  refine allNumbers_arr.2 fun j hj => ?_
  obtain ⟨s, -, rfl⟩ := List.mem_map.1 hj
  exact fun _ h => by cases h

theorem forall_mem_optional {α : Type} {key : String} {w : α → Json} {o : Option α}
    {P : String × Json → Prop} : (∀ e ∈ entry? key w o, P e) ↔ ∀ a ∈ o, P (key, w a) := by
  cases o <;> simp [ entry?]

theorem allNumbers_int (hN : Number.HasIntegers N) {n : Int} (h : Number.minInt ≤ n)
    (h' : n ≤ Number.maxNat) : (int n).AllNumbers N := fun m hm => by
  obtain rfl := List.mem_singleton.1 hm
  refine hN n ?_
  simp only [Number.isInteger, Bool.and_eq_true, decide_eq_true_eq]
  exact ⟨h, h'⟩

end Json

open Json (allNumbers_obj allNumbers_strings forall_mem_optional)

theorem ColumnSpec.allNumbers (c : ColumnSpec) : c.toJson.AllNumbers N := by
  cases c with
  | all => exact fun _ h => by cases h
  | listed names => exact allNumbers_strings names

theorem RootField.allNumbers_list (l : List RootField) : (listToJson l).AllNumbers N := by
  have h : listToJson l = Json.strings (l.map name) := by
    rw [listToJson, Json.strings, List.map_map]
    rfl
  rw [h]
  exact allNumbers_strings _

theorem Presets.allNumbers {p : Presets} (h : p.Free N) : p.toJson.AllNumbers N :=
  allNumbers_obj.2 fun e he => (h e he).numbers

/-- **The numbers in a written clause** are those in its free values, and its limit. -/
theorem Clause.allNumbers (hN : Number.HasIntegers N) {c : Clause} (h : c.Free N) :
    c.bodyToJson.AllNumbers N := by
  have flat : ∀ b : Bool, (Json.bool b).AllNumbers N := fun _ _ h => by cases h
  cases c with
  | insert c =>
    have h : c.Free N := h
    refine allNumbers_obj.2 ?_
    simp only [List.forall_mem_append, List.forall_mem_singleton, forall_mem_optional]
    exact ⟨⟨⟨h.check.numbers, fun p hp => Presets.allNumbers (h.set p hp)⟩,
      fun s _ => s.allNumbers⟩, fun b _ => flat b⟩
  | select c =>
    have h : c.Free N := h
    refine allNumbers_obj.2 ?_
    simp only [List.forall_mem_append, List.forall_mem_cons, forall_mem_optional]
    refine ⟨⟨⟨⟨⟨⟨c.columns.allNumbers, h.filter.numbers, List.forall_mem_nil _⟩, fun n hn => ?_⟩,
      flat _, List.forall_mem_nil _⟩, ?_⟩, fun l _ => RootField.allNumbers_list l⟩,
      fun l _ => RootField.allNumbers_list l⟩
    · exact Json.allNumbers_int hN (h.limit n hn).1 (Int.le_trans (h.limit n hn).2 (by decide))
    · split
      · exact List.forall_mem_nil _
      · exact List.forall_mem_singleton.2 (allNumbers_strings _)
  | update c =>
    have h : c.Free N := h
    refine allNumbers_obj.2 ?_
    simp only [List.forall_mem_append, List.forall_mem_singleton, forall_mem_optional]
    exact ⟨⟨⟨c.columns.allNumbers, fun p hp => Presets.allNumbers (h.set p hp)⟩,
      h.filter.numbers⟩, fun j hj => (h.check j hj).1.numbers⟩
  | delete c =>
    have h : c.Free N := h
    exact allNumbers_obj.2 (List.forall_mem_singleton.2 h.filter.numbers)

theorem Definition.allNumbers (hN : Number.HasIntegers N) {d : Definition} (h : d.clause.Free N) :
    d.toJson.AllNumbers N := by
  have flat : ∀ {s : String}, (Json.str s).AllNumbers N := fun _ h => by cases h
  refine allNumbers_obj.2 ?_
  simp only [List.forall_mem_append, List.forall_mem_singleton, forall_mem_optional]
  refine ⟨⟨flat, fun s _ => flat⟩, ?_⟩
  exact allNumbers_obj.2 (List.forall_mem_singleton.2 (Clause.allNumbers hN h))

theorem StoredDefinition.allNumbers (hN : Number.HasIntegers N) {d : StoredDefinition}
    (hseq : d.seq ≤ Number.maxNat) (h : d.definition.clause.Free N) : d.toJson.AllNumbers N := by
  refine allNumbers_obj.2 (List.forall_mem_cons.2 ⟨?_, ?_⟩)
  · exact Json.allNumbers_int hN (Int.le_trans (by decide) (Int.natCast_nonneg _)) (Int.ofNat_le.2 hseq)
  · exact List.forall_mem_singleton.2 (Definition.allNumbers hN h)

/-! ## Other numbers -/

theorem Json.Free.mapFloats {j : Json} (h : j.Free N) (hNM : ∀ n, N n → M (n.mapFloat f)) :
    (j.mapFloats f).Free M := by
  refine ⟨isCanonical_mapFloats f j h.canonical, fun n hn => ?_⟩
  rw [numbers_mapFloats] at hn
  obtain ⟨m, hm, rfl⟩ := List.mem_map.1 hn
  exact hNM m (h.numbers m hm)

section

variable (f)

/-- Presets with `f` applied to the floating-point numbers in their values. -/
def Presets.mapFloats (p : Presets) : Presets := p.mapWithKey fun _ j => j.mapFloats f

def InsertClause.mapFloats (c : InsertClause) : InsertClause :=
  { c with check := c.check.mapFloats f, set := c.set.map (Presets.mapFloats f) }

def SelectClause.mapFloats (c : SelectClause) : SelectClause := { c with filter := c.filter.mapFloats f }

def UpdateClause.mapFloats (c : UpdateClause) : UpdateClause :=
  { c with set := c.set.map (Presets.mapFloats f), filter := c.filter.mapFloats f,
           check := c.check.map (Json.mapFloats f) }

def DeleteClause.mapFloats (c : DeleteClause) : DeleteClause := { c with filter := c.filter.mapFloats f }

/-- **The clause with `f` applied to its floating-point numbers.** -/
def Clause.mapFloats : Clause → Clause
  | .insert c => .insert (c.mapFloats f)
  | .select c => .select (c.mapFloats f)
  | .update c => .update (c.mapFloats f)
  | .delete c => .delete (c.mapFloats f)

/-- The definition with `f` applied to the floating-point numbers in its clause. -/
def Definition.mapFloats (d : Definition) : Definition := { d with clause := d.clause.mapFloats f }

/-- The stored definition with `f` applied to the floating-point numbers in its clause. -/
def StoredDefinition.mapFloats (d : StoredDefinition) : StoredDefinition :=
  { d with definition := d.definition.mapFloats f }

end

@[simp] theorem Clause.kind_mapFloats (c : Clause) : (c.mapFloats f).kind = c.kind := by
  cases c <;> rfl

theorem Presets.mapFloats_id (p : Presets) : p.mapFloats id = p := by
  refine SortedMap.ext ?_
  simp [mapFloats, SortedMap.mapWithKey]

theorem Clause.mapFloats_id (c : Clause) : c.mapFloats id = c := by
  have hpresets : Presets.mapFloats id = id := funext Presets.mapFloats_id
  have hjson : Json.mapFloats id = id := funext Json.mapFloats_id
  cases c <;>
    simp [mapFloats, InsertClause.mapFloats, SelectClause.mapFloats, UpdateClause.mapFloats,
      DeleteClause.mapFloats, hpresets, hjson]

@[simp] theorem StoredDefinition.mapFloats_id (d : StoredDefinition) : d.mapFloats id = d := by
  rw [mapFloats, Definition.mapFloats, Clause.mapFloats_id]

theorem Presets.Free.mapFloats {p : Presets} (h : p.Free N) (hNM : ∀ n, N n → M (n.mapFloat f)) :
    (p.mapFloats f).Free M := by
  intro e he
  obtain ⟨e', he', rfl⟩ := List.mem_map.1 he
  exact (h e' he').mapFloats hNM

/-- **A clause with other numbers is free of others.** -/
theorem Clause.Free.mapFloats {c : Clause} (h : c.Free N) (hNM : ∀ n, N n → M (n.mapFloat f)) :
    (c.mapFloats f).Free M := by
  have hpresets : ∀ {o : Option Presets}, (∀ p ∈ o, Presets.Free N p) →
      ∀ p ∈ o.map (Presets.mapFloats f), Presets.Free M p := by
    intro o ho p hp
    obtain ⟨p', hp', rfl⟩ := Option.map_eq_some_iff.1 hp
    exact (ho p' hp').mapFloats hNM
  cases c with
  | insert c => exact InsertClause.Free.mk (h.check.mapFloats hNM) (hpresets h.set)
  | select c => exact SelectClause.Free.mk (h.filter.mapFloats hNM) h.limit
  | update c =>
    refine UpdateClause.Free.mk (hpresets h.set) (h.filter.mapFloats hNM) fun j hj => ?_
    obtain ⟨j', hj', rfl⟩ := Option.map_eq_some_iff.1 hj
    refine ⟨(h.check j' hj').1.mapFloats hNM, fun hnull => (h.check j' hj').2 ?_⟩
    cases j' <;> first | rfl | cases hnull
  | delete c => exact DeleteClause.Free.mk (h.filter.mapFloats hNM)

/-! ## Writing other numbers -/

namespace Json

theorem mapFloatsOfEntries_append (l r : List (String × Json)) :
    mapFloatsOfEntries f (l ++ r) = mapFloatsOfEntries f l ++ mapFloatsOfEntries f r := by
  simp only [mapFloatsOfEntries_eq_map, List.map_append]

theorem mapFloatsOfEntries_entry? {α : Type} (key : String) (w : α → Json) (o : Option α) :
    mapFloatsOfEntries f ( entry? key w o) = entry? key (fun a => (w a).mapFloats f) o := by
  cases o <;> rfl

@[simp] theorem mapFloats_int (n : Int) : (int n).mapFloats f = int n := rfl

theorem mapFloats_strings (l : List String) : (strings l).mapFloats f = strings l := by
  rw [strings, mapFloats, mapFloatsOfItems_eq_map, List.map_map]
  rfl

end Json

open Json (mapFloatsOfEntries_append mapFloatsOfEntries_entry? mapFloats_strings)

@[simp] theorem ColumnSpec.mapFloats_toJson (c : ColumnSpec) : c.toJson.mapFloats f = c.toJson := by
  cases c with
  | all => rfl
  | listed names => exact mapFloats_strings names

@[simp] theorem RootField.mapFloats_listToJson (l : List RootField) :
    (listToJson l).mapFloats f = listToJson l := by
  rw [listToJson, Json.mapFloats, Json.mapFloatsOfItems_eq_map, List.map_map]
  rfl

@[simp] theorem Presets.mapFloats_toJson (p : Presets) : p.toJson.mapFloats f = (p.mapFloats f).toJson := by
  rw [toJson, Json.mapFloats, Json.mapFloatsOfEntries_eq_map]
  rfl

theorem Json.entry?_map {α β : Type} (key : String) (w : β → Json) (g : α → β) (o : Option α) :
    entry? key w (o.map g) = entry? key (fun a => w (g a)) o := by
  cases o <;> rfl

theorem Clause.mapFloats_bodyToJson (c : Clause) : c.bodyToJson.mapFloats f = (c.mapFloats f).bodyToJson := by
  cases c with
  | insert c =>
    simp only [bodyToJson, mapFloats, InsertClause.toJson, InsertClause.mapFloats, Json.mapFloats,
      mapFloatsOfEntries_append, mapFloatsOfEntries_entry?, Json.entry?_map, Json.mapFloatsOfEntries,
      Presets.mapFloats_toJson, ColumnSpec.mapFloats_toJson]
  | select c =>
    simp only [bodyToJson, mapFloats, SelectClause.toJson, SelectClause.mapFloats, Json.mapFloats,
      mapFloatsOfEntries_append, mapFloatsOfEntries_entry?, Json.mapFloatsOfEntries,
      ColumnSpec.mapFloats_toJson, RootField.mapFloats_listToJson, Json.mapFloats_int]
    split <;> simp [Json.mapFloatsOfEntries, mapFloats_strings]
  | update c =>
    simp only [bodyToJson, mapFloats, UpdateClause.toJson, UpdateClause.mapFloats, Json.mapFloats,
      mapFloatsOfEntries_append, mapFloatsOfEntries_entry?, Json.entry?_map, Json.mapFloatsOfEntries,
      Presets.mapFloats_toJson, ColumnSpec.mapFloats_toJson, id]
  | delete c => rfl

/-- **A written definition with other numbers** is what writing gives of the definition with these. -/
theorem StoredDefinition.mapFloats_toJson (d : StoredDefinition) :
    d.toJson.mapFloats f = (d.mapFloats f).toJson := by
  simp only [toJson, Definition.toJson, Clause.toJson, mapFloats, Definition.mapFloats, Json.mapFloats,
    Json.mapFloatsOfEntries, mapFloatsOfEntries_append, mapFloatsOfEntries_entry?, Clause.mapFloats_bodyToJson,
    Clause.kind_mapFloats, Json.nat, Number.mapFloat]

theorem Clause.depth_mapFloats (c : Clause) : (c.mapFloats f).toJson.depth = c.toJson.depth := by
  have h : c.toJson.mapFloats f = (c.mapFloats f).toJson := by
    simp only [toJson, Json.mapFloats, Json.mapFloatsOfEntries, mapFloats_bodyToJson, kind_mapFloats]
  rw [← h, Json.depth_mapFloats]

namespace StoredDefinition

variable {d : StoredDefinition}

/-! ## From text and back -/

theorem depth_toJson (d : StoredDefinition) : d.toJson.depth = d.definition.clause.toJson.depth + 2 := by
  simp only [toJson, Definition.toJson, Json.nat, Json.depth, Json.depthEntries]
  cases d.definition.comment <;>
    simp [ Json.entry?, Json.depth, Json.depthEntries]

/-- A stored definition whose text can be read: its number has 64 bits and its clause is not nested
too deeply. -/
structure Readable (d : StoredDefinition) : Prop where
  seq : d.seq ≤ Number.maxNat
  depth : d.definition.clause.toJson.depth + 2 ≤ Document.maxDepth

theorem readable_mapFloats : (d.mapFloats f).Readable ↔ d.Readable := by
  constructor
  · rintro ⟨hseq, hdepth⟩
    exact ⟨hseq, by rwa [mapFloats, Definition.mapFloats, Clause.depth_mapFloats] at hdepth⟩
  · rintro ⟨hseq, hdepth⟩
    exact ⟨hseq, by rwa [mapFloats, Definition.mapFloats, Clause.depth_mapFloats]⟩

theorem seq_le_of_decode (hN : Number.HasIntegers N) (hf : ∀ n, N n → n.ReadsAs (n.mapFloat f))
    (h : d.definition.clause.Free N) {d' : StoredDefinition}
    (hd : Store.decode d.toJson.text = .ok d') : d.seq ≤ Number.maxNat := by
  by_contra hseq
  have hnumbers : ∀ n ∈ Json.numbersOfEntries [("definition", d.definition.toJson)],
      n.ReadsAs (n.mapFloat f) := by
    rw [Json.numbersOfEntries, Json.numbersOfEntries, List.append_nil]
    exact fun n hn => hf n (Definition.allNumbers hN h n hn)
  -- the number comes back as something that is no integer, and the first field refuses it
  obtain ⟨x, hx, htext⟩ := Document.ofText_beyond (k := "seq") (Nat.lt_of_not_le hseq) hnumbers
  rw [Store.decode, orUnreadable_eq_ok, Reader.ofText, toJson, htext] at hd
  rcases hx with rfl | ⟨x, rfl⟩ <;> cases hd

/-- **A stored definition comes back from its text** with the numbers that are read there, exactly if the
text can be read. -/
theorem decode_text_eq_ok_of_readAs (hN : Number.HasIntegers N) (hf : ∀ n, N n → n.ReadsAs (n.mapFloat f))
    (h : d.definition.clause.Free N) {d' : StoredDefinition} :
    Store.decode d.toJson.text = .ok d' ↔ d.Readable ∧ d' = d.mapFloats f := by
  have hfree : (d.mapFloats f).definition.clause.Free fun _ => True := h.mapFloats fun _ _ => trivial
  have read : ∀ hseq : d.seq ≤ Number.maxNat, Store.decode d.toJson.text = .ok d' ↔
      StoredDefinition.reader .stream ((Document.ofJson (d.mapFloats f).toJson).limit Document.maxDepth) =
        .ok d' := by
    intro hseq
    have hnumbers : d.toJson.NumbersReadAs f := fun n hn => hf n (allNumbers hN hseq h n hn)
    rw [Store.decode, orUnreadable_eq_ok, Reader.ofText, Document.ofText_text_of_readAs hnumbers,
      mapFloats_toJson]
    simp only [bind_eq_ok, Bool.false_eq_true, if_false, pure_eq_ok, exists_eq_right]
  constructor
  · intro hd
    have hseq := seq_le_of_decode hN hf h hd
    have hr := (read hseq).1 hd
    have hdepth := (restores (d := d.mapFloats f) hseq hfree).asWritten.depth _ _ _ hr
    rw [Document.limit_ofJson _ _ hdepth, (restores (d := d.mapFloats f) hseq hfree).asWritten.read] at hr
    exact ⟨readable_mapFloats.1 ⟨hseq, depth_toJson (d.mapFloats f) ▸ hdepth⟩, (Except.ok.inj hr).symm⟩
  · rintro ⟨hr, rfl⟩
    have hr' := readable_mapFloats (f := f).2 hr
    rw [read hr.seq, Document.limit_ofJson _ _ (by rw [depth_toJson]; exact hr'.depth)]
    exact (restores hr'.seq hfree).asWritten.read _

/-- **A storable definition comes back from its text** as it is, exactly if that can be read. -/
theorem decode_text_eq_ok (h : d.definition.clause.Storable) {d' : StoredDefinition} :
    Store.decode d.toJson.text = .ok d' ↔ d.Readable ∧ d' = d := by
  have hid : ∀ n : Number, n.ReadsBack → n.ReadsAs (n.mapFloat id) := fun n hn => by
    rw [Number.mapFloat_id]
    exact hn
  have hd : Store.decode d.toJson.text = .ok d' ↔ _ :=
    decode_text_eq_ok_of_readAs Number.hasIntegers_readsBack hid h
  rwa [mapFloats_id] at hd

end StoredDefinition

end TableAccess
