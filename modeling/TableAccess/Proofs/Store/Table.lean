import TableAccess.Proofs.Store.Writing

/-!
# The permissions of a table

The permissions of a table are gathered by kind and role from what is stored of it. If no two definitions
have the same kind and role that succeeds, and each kind has its definitions in order of insertion.

* `TablePermissions.exists_addAll`: **distinct definitions can all be added**, each behind those before it.
* `Store.Holds.tablePermissions`: what is gathered of a table, if definitions are filed where they belong.
-/

namespace TableAccess

namespace TablePermissions

variable {t : TablePermissions}

@[simp] theorem ofKind_setKind (t : TablePermissions) (k k' : Kind) (m : RoleMap Definition) :
    (t.setKind k m).ofKind k' = if k' = k then m else t.ofKind k' := by
  cases k <;> cases k' <;> rfl

theorem names_setKind (t : TablePermissions) (k : Kind) (m : RoleMap Definition) :
    (t.setKind k m).source = t.source ∧ (t.setKind k m).table = t.table := by
  cases k <;> exact ⟨rfl, rfl⟩

@[simp] theorem toList_empty (source table : String) (k : Kind) :
    ((empty source table).ofKind k).toList = [] := by
  cases k <;> rfl

/-- A definition is added behind the others of its kind, if its role is not taken. -/
theorem exists_add {d : Definition} (h : d.role ∉ ((t.ofKind d.kind).toList.map (·.1))) :
    ∃ t', Store.addTo t d = .ok t' ∧ ∀ k, (t'.ofKind k).toList =
      (t.ofKind k).toList ++ if d.kind = k then [(d.role, d)] else [] := by
  refine ⟨_, by rw [Store.addTo, add?, RoleMap.insert?, dif_neg h]; rfl, fun k => ?_⟩
  rw [ofKind_setKind]
  by_cases hk : k = d.kind
  · subst hk
    simp
  · simp [hk, Ne.symm hk]

/-- **Distinct definitions can all be added.** -/
theorem exists_addAll {ds : List Definition}
    (h : ∀ k, ((t.ofKind k).toList.map (·.1) ++ (ds.filter fun d => d.kind = k).map (·.role)).Nodup) :
    ∃ t', ds.foldlM Store.addTo t = .ok t' ∧ ∀ k, (t'.ofKind k).toList =
      (t.ofKind k).toList ++ (ds.filter fun d => d.kind = k).map fun d => (d.role, d) := by
  induction ds generalizing t with
  | nil => exact ⟨t, rfl, fun k => (List.append_nil _).symm⟩
  | cons d ds ih =>
    have hd : d.role ∉ (t.ofKind d.kind).toList.map (·.1) := by
      have hk := h d.kind
      rw [List.filter_cons_of_pos (by simp), List.map_cons, List.nodup_append] at hk
      exact fun hm => hk.2.2 _ hm _ List.mem_cons_self rfl
    obtain ⟨t₁, hadd, ht₁⟩ := exists_add hd
    have hsplit : ∀ k, ((d :: ds).filter fun d => d.kind = k) =
        (if d.kind = k then [d] else []) ++ ds.filter fun d => d.kind = k := by
      intro k
      by_cases hk : d.kind = k <;> simp [hk]
    obtain ⟨t', hall, ht'⟩ := ih (t := t₁) fun k => by
      have hk := h k
      rw [hsplit k] at hk
      rw [ht₁ k]
      by_cases hkind : d.kind = k <;> simpa [hkind] using hk
    refine ⟨t', ?_, fun k => ?_⟩
    · rw [List.foldlM_cons, hadd]
      exact hall
    · rw [ht' k, ht₁ k, hsplit k]
      by_cases hkind : d.kind = k <;> simp [hkind]

end TablePermissions

/-! ## What is stored of a table -/

/-- A stored definition has the role and the kind of the identity that it stands under. -/
structure Filed (e : PermissionId × StoredDefinition) : Prop where
  role : e.2.definition.role = e.1.role
  kind : e.2.definition.kind = e.1.kind

/-- The stored definitions of a table and a kind, in order of insertion. -/
def Contents.ofKind (l : Contents) (source table : String) (k : Kind) : Contents :=
  l.filter fun e => e.1.source = source ∧ e.1.table = table ∧ e.1.kind = k

namespace Store.Holds

variable {st : Store} {l : Contents}

/-- The identities of a table and a kind are told apart by their roles. -/
theorem nodup_roles (h : st.Holds l) (source table : String) (k : Kind) :
    ((l.ofKind source table k).map (·.1.role)).Nodup := by
  refine List.Nodup.map_on (fun e he e' he' hrole => ?_) (h.ids.of_map.filter _)
  obtain ⟨he, hid⟩ := List.mem_filter.1 he
  obtain ⟨he', hid'⟩ := List.mem_filter.1 he'
  obtain ⟨hs, ht, hk⟩ := of_decide_eq_true hid
  obtain ⟨hs', ht', hk'⟩ := of_decide_eq_true hid'
  refine h.eq_of_fst_eq he he' ?_
  rw [PermissionId.mk.injEq]
  exact ⟨hs.trans hs'.symm, ht.trans ht'.symm, hrole, hk.trans hk'.symm⟩

/-- **The permissions of a table** are what is stored of it, each kind in order of insertion. -/
theorem tablePermissions (h : st.Holds l) (hr : ∀ e ∈ l, e.2.Readable) (hf : ∀ e ∈ l, Filed e)
    {source table : String} (hs : Key.NameFits source) (ht : Key.NameFits table) :
    ∃ t, st.tablePermissions source table = .ok t ∧ ∀ k, (t.ofKind k).toList =
      (l.ofKind source table k).map fun e => (e.1.role, e.2.definition) := by
  have hkey : Key.ofTable source table = .ok ([source, table].flatMap Key.part) :=
    Key.ofParts_eq_ok.2 ⟨by simp [hs, ht], rfl⟩
  have hscan := (h.startingWith_ofTable hkey).2 ⟨fun e he _ => hr e he, rfl⟩
  -- the definitions are told apart as their identities are, since they are filed under them
  have hkind : ∀ k, (((l.filter fun e => e.1.source = source ∧ e.1.table = table).map
      (·.2.definition)).filter fun d => d.kind = k) = (l.ofKind source table k).map (·.2.definition) := by
    intro k
    rw [List.filter_map, List.filter_filter, Contents.ofKind]
    refine congrArg _ (List.filter_congr fun e he => ?_)
    rw [Function.comp_apply, (hf e he).kind, ← Bool.decide_and, decide_eq_decide]
    tauto
  have hrole : ∀ k, ∀ e ∈ l.ofKind source table k, e.2.definition.role = e.1.role := fun k e he =>
    (hf e (List.mem_filter.1 he).1).role
  have hdistinct : ∀ k, (((TablePermissions.empty source table).ofKind k).toList.map (·.1) ++
      (((l.filter fun e => e.1.source = source ∧ e.1.table = table).map (·.2.definition)).filter
        fun d => d.kind = k).map (·.role)).Nodup := by
    intro k
    rw [TablePermissions.toList_empty, hkind, List.map_map]
    exact (List.map_congr_left (hrole k)).symm ▸ h.nodup_roles source table k
  obtain ⟨t, hall, htoList⟩ := TablePermissions.exists_addAll hdistinct
  refine ⟨t, ?_, fun k => ?_⟩
  · simp only [Store.tablePermissions, hkey, ok_bind, hscan]
    rwa [List.foldlM_map] at hall
  · rw [htoList k, TablePermissions.toList_empty, hkind, List.map_map, List.nil_append]
    exact List.map_congr_left fun e he => Prod.ext (hrole k e he) rfl

end Store.Holds

end TableAccess
