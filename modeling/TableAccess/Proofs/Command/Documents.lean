import TableAccess.Command.Script
import TableAccess.Proofs.Permission.Stored

/-!
# What command documents bring in

The clause that a command stores comes from its document, and a list of commands brings in no more
than its document holds.

* `Command.free_of_read`: **what a command stores is free** but for the numbers of its document.
* `Script.allNumbers_of_mem_itemsOf`, `Script.isCanonical_of_mem_itemsOf`: the commands of a list are as good
  as the list.
-/

namespace TableAccess

variable {N : Number → Prop}

/-- A command that stores only a clause as it is read. -/
def Command.Free (N : Number → Prop) : Command → Prop
  | .create _ _ _ _ clause _ => clause.Free N
  | _ => True

/-- A command that stores only what comes back. -/
abbrev Command.Storable (c : Command) : Prop := c.Free Number.ReadsBack

theorem Json.Free.null : Json.null.Free N := ⟨trivial, fun _ h => by cases h⟩

theorem CommandDocument.reader_yields : CommandDocument.reader.Yields N fun d => d.args.Free N := by
  have h : CommandDocument.record.Yields N _ :=
    (Record.Yields.required (.trivial _) []).map.seq (.withDefault .json .null)
  refine (h.mono ?_).reader true
  rintro _ ⟨_, _, ⟨_, -, rfl⟩, hargs, rfl⟩
  exact hargs

theorem CreateArgs.record_yields : CreateArgs.record.Yields N fun a => a.permission.Free N := by
  have h : CreateArgs.record.Yields N _ :=
    ((Record.Yields.trivial RoleArgs.record).map.seq (.required .json [])).seq (.maybe (.trivial _))
  refine h.mono ?_
  rintro _ ⟨_, _, ⟨_, _, ⟨_, -, rfl⟩, hp, rfl⟩, -, rfl⟩
  exact hp

namespace Command

theorem readArgs_yields {α : Type} {r : Record α} {P : α → Prop} (h : r.Yields N P) {args : Json}
    (hargs : args.Free N) {a : α} (ha : readArgs r args = .ok a) : P a :=
  (h.reader true).ofJson hargs.numbers (orUnreadable_eq_ok.1 (within_eq_ok.1 ha))

/-- A command that stores no clause is free. -/
theorem free_of_readArgs {α : Type} {r : Record α} {args : Json} {f : α → Command} {c : Command}
    (hc : (do let a ← readArgs r args; return f a : Except Failure Command) = .ok c)
    (hf : ∀ a, (f a).Free N) : c.Free N := by
  obtain ⟨a, -, hc⟩ := bind_eq_ok.1 hc
  exact pure_eq_ok.1 hc ▸ hf a

theorem free_of_ofName {name : String} {args : Json} (hargs : args.Free N) {c : Command}
    (hc : ofName name args = .ok c) : c.Free N := by
  unfold ofName at hc
  split at hc
  next k hk =>
    obtain ⟨a, ha, hc⟩ := bind_eq_ok.1 hc
    obtain ⟨clause, hclause, hc⟩ := bind_eq_ok.1 hc
    obtain rfl := pure_eq_ok.1 hc
    have hp := readArgs_yields CreateArgs.record_yields hargs ha
    have hread := orUnreadable_eq_ok.1 (within_eq_ok.1 hclause)
    exact ((Clause.bodyReader_yields k).ofJson hp.numbers hread).2
  next =>
    -- of the other commands none stores a clause
    split at hc
    · exact free_of_readArgs hc fun _ => trivial
    · split at hc
      · exact free_of_readArgs hc fun _ => trivial
      · split at hc
        · exact free_of_readArgs hc fun _ => trivial
        · split at hc
          · exact free_of_readArgs hc fun _ => trivial
          · cases hc

/-- **A command that is read stores only a clause as it is read.** -/
theorem free_of_read {doc : Json} (h : doc.AllNumbers N) {c : Command} (hc : read doc = .ok c) :
    c.Free N := by
  obtain ⟨d, hd, hc⟩ := bind_eq_ok.1 hc
  have hargs := CommandDocument.reader_yields.ofJson h (orUnreadable_eq_ok.1 hd)
  split at hc
  · cases hc
  · exact free_of_ofName hargs hc

end Command

/-! ## Lists of commands -/

namespace Script

/-- A document that is not a list of commands stands for itself. -/
theorem ofJson_of_not_isList {doc : Json} (h : isList doc = false) : ofJson doc = .single doc := by
  rw [ofJson, h]
  rfl

/-- The commands of a list stand in an array, which is in the list. -/
theorem exists_of_mem_itemsOf {doc j : Json} (h : j ∈ itemsOf doc) : ∃ items, j ∈ items ∧
    ((∃ entries, doc = .obj entries ∧ ("args", .arr items) ∈ entries) ∨
      ∃ l, doc = .arr l ∧ .arr items ∈ l) := by
  unfold itemsOf at h
  split at h
  next entries =>
    split at h
    next items he =>
      obtain ⟨l₁, l₂, rfl, -⟩ := List.lookup_eq_some_iff.1 he
      exact ⟨items, h, .inl ⟨_, rfl, List.mem_append_right _ List.mem_cons_self⟩⟩
    next => cases h
  next a items => exact ⟨items, h, .inr ⟨_, rfl, List.mem_cons_of_mem _ List.mem_cons_self⟩⟩
  next => cases h

theorem allNumbers_of_mem_itemsOf {doc j : Json} (h : doc.AllNumbers N) (hj : j ∈ itemsOf doc) :
    j.AllNumbers N := by
  obtain ⟨items, hitem, ⟨entries, rfl, hitems⟩ | ⟨l, rfl, hitems⟩⟩ := exists_of_mem_itemsOf hj
  · exact Json.allNumbers_arr.1 (Json.allNumbers_obj.1 h _ hitems) j hitem
  · exact Json.allNumbers_arr.1 (Json.allNumbers_arr.1 h _ hitems) j hitem

theorem isCanonical_of_mem_itemsOf {doc j : Json} (h : doc.IsCanonical) (hj : j ∈ itemsOf doc) :
    j.IsCanonical := by
  obtain ⟨items, hitem, ⟨entries, rfl, hitems⟩ | ⟨l, rfl, hitems⟩⟩ := exists_of_mem_itemsOf hj
  · exact Json.areCanonical_iff.1 (Json.haveCanonical_iff.1 h.2 _ hitems) j hitem
  · exact Json.areCanonical_iff.1 (Json.areCanonical_iff.1 h _ hitems) j hitem

end Script

end TableAccess
