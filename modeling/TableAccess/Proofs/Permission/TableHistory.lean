import TableAccess.Proofs.Command.Export
import TableAccess.Proofs.Permission.RoleHistory

/-!
# The permissions of a table over a history of changes

Each change of the permissions of a table is one of a single kind, and what it does there is what the map of
that kind does. So every kind has the history of its own changes, whatever is done to the others, and what is
listed under a kind and a role was added as such. An export lists all of it by kind.

* `TablePermissions.onlyItsKind`: **a change is one of its kind**, and leaves the others as they are.
* `TablePermissions.ofKind_after`: **each kind has its own history**, after any changes.
* `TablePermissions.changes_keep_order`: **maps by role are in order of insertion after any history, and a
  table has one for each kind**, which its export lists.
-/

namespace TableAccess

namespace TablePermissions

variable {source table : String} {t : TablePermissions}

/-! ## What one change does -/

namespace Change

/-- The kind that a change is about. -/
def kind : Change → Kind
  | .add d => d.kind
  | .remove k _ => k

/-- The change of the map of its kind. -/
def onKind : Change → RoleMap.Change Definition
  | .add d => .insert d.role d
  | .remove _ role => .remove role

end Change

/-- **A change is one of its kind**: what is handed back and what the kind has is told by its map, and the
others stay as they are. -/
structure OnlyItsKind (t : TablePermissions) (c : Change) : Prop where
  handsBack : (t.change c).1 = ((t.ofKind c.kind).change c.onKind).1
  own : (t.change c).2.ofKind c.kind = ((t.ofKind c.kind).change c.onKind).2
  others : ∀ k, k ≠ c.kind → (t.change c).2.ofKind k = t.ofKind k
  source : (t.change c).2.source = t.source
  table : (t.change c).2.table = t.table

theorem setKind_ofKind (t : TablePermissions) (k : Kind) : t.setKind k (t.ofKind k) = t := by
  cases k <;> rfl

/-- What is handed back and what is left is what the map of the kind hands back and leaves. -/
theorem change_eq (t : TablePermissions) (c : Change) :
    t.change c = (((t.ofKind c.kind).change c.onKind).1,
      t.setKind c.kind ((t.ofKind c.kind).change c.onKind).2) := by
  cases c with
  | add d =>
    rw [change, add?, Change.kind, Change.onKind, RoleMap.change]
    cases (t.ofKind d.kind).insert? d.role d with
    | some n => rfl
    | none => exact congrArg (some d, ·) (t.setKind_ofKind d.kind).symm
  | remove k role => rfl

theorem onlyItsKind (t : TablePermissions) (c : Change) : t.OnlyItsKind c where
  handsBack := by rw [change_eq]
  own := by rw [change_eq, ofKind_setKind, if_pos rfl]
  others k hk := by rw [change_eq, ofKind_setKind, if_neg hk]
  source := by rw [change_eq]; exact (t.names_setKind _ _).1
  table := by rw [change_eq]; exact (t.names_setKind _ _).2

/-! ## Histories -/

/-- The changes of a kind in a history of the permissions of a table. -/
def Change.history (k : Kind) (cs : List Change) : List (RoleMap.Change Definition) :=
  (cs.filter fun c => c.kind = k).map onKind

/-- The permissions of a table after a history of changes, which begins without definitions. -/
def after (source table : String) (cs : List Change) : TablePermissions :=
  cs.foldl (fun t c => (t.change c).2) (empty source table)

theorem after_concat (source table : String) (cs : List Change) (c : Change) :
    after source table (cs ++ [c]) = ((after source table cs).change c).2 := by
  rw [after, List.foldl_append, List.foldl_cons, List.foldl_nil, ← after]

/-- **Each kind has its own history**, after any changes. -/
theorem ofKind_after (source table : String) (cs : List Change) (k : Kind) :
    (after source table cs).ofKind k = RoleMap.after (Change.history k cs) := by
  induction cs using List.reverseRecOn with
  | nil => exact RoleMap.ext (toList_empty source table k)
  | append_singleton cs c ih =>
    have hc := (after source table cs).onlyItsKind c
    rw [after_concat, Change.history, List.filter_append, List.map_append, ← Change.history]
    by_cases hk : c.kind = k
    · subst hk
      rw [hc.own, ih, List.filter_singleton, decide_eq_true rfl]
      exact (RoleMap.after_concat _ _).symm
    · rw [hc.others k (Ne.symm hk), ih, List.filter_singleton, decide_eq_false hk]
      simp

theorem names_after (source table : String) (cs : List Change) :
    (after source table cs).source = source ∧ (after source table cs).table = table := by
  induction cs using List.reverseRecOn with
  | nil => exact ⟨rfl, rfl⟩
  | append_singleton cs c ih =>
    have hc := (after source table cs).onlyItsKind c
    rw [after_concat, hc.source, hc.table]
    exact ih

/-- **What is listed under a kind and a role was added as such.** -/
theorem filed_after {cs : List Change} {k : Kind} {e : String × Definition}
    (he : e ∈ ((after source table cs).ofKind k).toList) : e.2.kind = k ∧ e.2.role = e.1 := by
  rw [ofKind_after] at he
  obtain ⟨i, ⟨hgiven, -⟩, -⟩ := (RoleMap.keeps_after _).latest e he
  obtain ⟨c, hc, hinsert⟩ := List.mem_map.1 (List.mem_of_getElem? hgiven)
  have hkind := of_decide_eq_true (List.mem_filter.1 hc).2
  cases c with
  | add d =>
    obtain ⟨hrole, hd⟩ := RoleMap.Change.insert.inj hinsert
    subst hd
    exact ⟨hkind, hrole⟩
  | remove => cases hinsert

/-! ## The export -/

/-- An export tells the name of a table and lists its definitions by kind, each of them once and in their
order, and has nothing else. A kind without definitions is left out. -/
structure Exports (t : TablePermissions) (x : Json) : Prop where
  table : x.get? "table" = some (.str t.table)
  listed : ∀ k, (t.ofKind k).toList ≠ [] → x.get? (k.name ++ "_permissions") =
    some (.arr ((t.ofKind k).toList.map fun e => (definitionToJson e.2).canonical))
  omitted : ∀ k, (t.ofKind k).toList = [] → x.get? (k.name ++ "_permissions") = none
  once : ∀ k, ((t.ofKind k).toList.map fun e => (definitionToJson e.2).canonical).Nodup
  nothingElse : ∀ key, x.get? key ≠ none → key = "table" ∨ ∃ k : Kind, key = k.name ++ "_permissions"

/-- The entries of a kind are told apart by their roles. -/
theorem nodup_entries {k : Kind} (h : ∀ e ∈ (t.ofKind k).toList, e.2.role = e.1) :
    ((t.ofKind k).toList.map fun e => (definitionToJson e.2).canonical).Nodup := by
  have hroles : ((t.ofKind k).toList.map fun e => (definitionToJson e.2).canonical).map (·.get? "role") =
      (t.ofKind k).roles.map fun role => some (.str role) := by
    rw [List.map_map, RoleMap.roles, List.map_map]
    refine List.map_congr_left fun e he => ?_
    rw [Function.comp_apply, get?_definitionToJson, Function.comp_apply, ← h e he]
    rfl
  refine List.Nodup.of_map (·.get? "role") ?_
  rw [hroles]
  exact (t.ofKind k).distinct.map fun a b hab => Json.str.inj (Option.some.inj hab)

/-- What an export has is under the name of the table or under that of a kind. -/
theorem name_of_get?_toJson {key : String} (h : t.toJson.get? key ≠ none) :
    key = "table" ∨ ∃ k : Kind, key = k.name ++ "_permissions" := by
  obtain ⟨j, hj⟩ := Option.ne_none_iff_exists'.1 h
  obtain ⟨before, after, hentries, -⟩ := List.lookup_eq_some_iff.1 hj
  have hmem : (key, j) ∈ ("table", Json.str t.table) :: Kind.all.flatMap t.kindToJson := by
    rw [hentries]
    exact List.mem_append_right _ List.mem_cons_self
  rcases List.mem_cons.1 hmem with heq | hmem
  · exact .inl (congrArg Prod.fst heq)
  · obtain ⟨k, -, hk⟩ := List.mem_flatMap.1 hmem
    have hkey := (t.keys_kindToJson k).subset (List.mem_map_of_mem hk)
    exact .inr ⟨k, List.mem_singleton.1 hkey⟩

theorem exports_toJson (h : ∀ k, ∀ e ∈ (t.ofKind k).toList, e.2.role = e.1) :
    t.Exports t.toJson.canonical := by
  have hget : ∀ key, t.toJson.canonical.get? key = (t.toJson.get? key).map Json.canonical :=
    fun key => Json.get?_canonical t.nodup_keys key
  exact {
    table := by rw [hget, toJson, Json.get?, List.lookup_cons_self]; rfl
    listed := fun k hk => by
      have hne : (t.ofKind k).isEmpty = false := by simpa [RoleMap.isEmpty] using hk
      rw [hget, get?_toJson, if_pos hne, Option.map_some, Json.canonical, Json.canonicalItems_eq_map,
        List.map_map]
      rfl
    omitted := fun k hk => by
      have he : (t.ofKind k).isEmpty = true := by simpa [RoleMap.isEmpty] using hk
      rw [hget, get?_toJson, he]
      rfl
    once := fun k => nodup_entries (h k)
    nothingElse := fun key hkey => name_of_get?_toJson fun hnone => hkey (by rw [hget, hnone]; rfl) }

/-! ## What a history leaves -/

/-- The permissions of a table show what a history left: each kind what its own changes left, with every
definition under its own kind and role. A further change is one of its kind, and the export has all of it. -/
structure Keeps (t : TablePermissions) (source table : String) (cs : List Change) : Prop where
  source : t.source = source
  table : t.table = table
  ofKind : ∀ k, t.ofKind k = RoleMap.after (Change.history k cs)
  filed : ∀ k, ∀ e ∈ (t.ofKind k).toList, e.2.kind = k ∧ e.2.role = e.1
  onlyItsKind : ∀ c, t.OnlyItsKind c
  exports : t.Exports t.toJson.canonical

theorem keeps_after (source table : String) (cs : List Change) :
    (after source table cs).Keeps source table cs where
  source := (names_after source table cs).1
  table := (names_after source table cs).2
  ofKind := ofKind_after source table cs
  filed _ _ he := filed_after he
  onlyItsKind := onlyItsKind _
  exports := exports_toJson fun _ _ he => (filed_after he).2

/-- **Maps by role are in order of insertion after any history, and a table has one for each kind.** Each
role stands where it was given a value last, with that value; answers and further changes are told by this
list; and the kinds of a table have histories of their own, all of which its export lists. -/
theorem changes_keep_order :
    (∀ (α : Type) (cs : List (RoleMap.Change α)),
      (RoleMap.after cs).Keeps cs ∧ (RoleMap.after cs).ToldByList) ∧
    ∀ (source table : String) (cs : List Change), (after source table cs).Keeps source table cs :=
  ⟨fun _ cs => ⟨RoleMap.keeps_after cs, RoleMap.toldByList _⟩, keeps_after⟩

end TablePermissions

end TableAccess
