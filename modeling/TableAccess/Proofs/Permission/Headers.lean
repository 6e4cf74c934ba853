import TableAccess.Proofs.Permission.Mentions
import TableAccess.Proofs.Session.Headers

/-!
# The headers that a permission requires

The session variables of a permission come from its predicates and its presets. Those of a predicate are
collected while it is compiled and come as a set, and a preset brings one by itself; in an update the presets
come first. Of the spellings of a variable the permission keeps the one that came first, as if no set had been
made before the last.

* `Permission.requiredHeaders_eq_ofBatches`: **a permission requires what its parts bring**, in their batches.
* `RequiredHeaders.keep_first_spellings`: session variables are told apart, ordered and hashed in one way,
  and **of names that come in any batches one of each variable is kept, in the spelling that came first.**
-/

namespace TableAccess

open Text (bytes agree)

/-- The batches in which the session variables of a clause come: those of each predicate are collected
first, and a preset brings one by itself. The presets of an update come before its predicates. -/
def Clause.headerBatches (clause : Clause) (d : Descriptor) : List HeaderBatch :=
  let predicates := (clause.predicatesOf d).map fun e => HeaderBatch.collected e.sessionVariables
  let presets := (clause.presets.toList.filterMap fun p => p.2.reference?).map HeaderBatch.single
  match clause with
  | .update _ => presets ++ predicates
  | _ => predicates ++ presets

theorem Clause.names_headerBatches (clause : Clause) (d : Descriptor) :
    (clause.headerBatches d).flatMap HeaderBatch.names = clause.mentionedVariables d := by
  cases clause <;> simp [headerBatches, mentionedVariables, HeaderBatch.names, List.flatMap_map]

/-- **A permission requires what its parts bring**, in their batches. -/
theorem Permission.requiredHeaders_eq_ofBatches {σ : Schema} {source table : String} {clause : Clause}
    {p : CompiledPermission} (h : compile σ source table clause = .ok p) :
    p.descriptor.requiredHeaders = .ofBatches (clause.headerBatches p.descriptor) := by
  obtain ⟨x, hx, rfl⟩ := compile_eq_ok.1 h
  rw [RequiredHeaders.ofBatches_eq_ofList, Clause.names_headerBatches]
  exact requiredHeaders_of_resolves hx

namespace RequiredHeaders

/-- **Session variables are told apart without regard to case, and of each the first spelling is kept.** To be
names of the same variable is an equivalence, and is seen from the bytes where they stand. Variables are
ordered totally, by their folded bytes, and hashed by these; names are of the same variable exactly if they
compare equal, and exactly if they give the same bytes to a hash, and then they refer to it alike. In whatever
batches names come, what is collected is what comes of putting them in one by one: one of each variable, in
order, in the spelling that came first. Names that come in another order give a set of the same variables. The
headers that a permission requires are collected so. -/
theorem keep_first_spellings :
    (Equivalence fun v w : SessionVariable => v.same w = true) ∧
    Std.TransOrd SessionVariable ∧
    (∀ v w : SessionVariable,
      v.same w = agree (bytes v.name) (bytes w.name) ∧
      compare v w = compare v.foldedBytes w.foldedBytes ∧
      v.hashed = v.foldedBytes ++ [0xff] ∧
      (v.same w = true ↔ compare v w = .eq) ∧
      (v.same w = true ↔ v.hashed = w.hashed) ∧
      (v.same w = true → SessionVariable.isReference v.name = SessionVariable.isReference w.name)) ∧
    (∀ s, SessionVariable.isReference s = true ↔
      (bytes "x-hasura-").length ≤ (bytes s).length ∧
        agree ((bytes s).take (bytes "x-hasura-").length) (bytes "x-hasura-") = true) ∧
    (∀ batches : List HeaderBatch,
      ofBatches batches = .ofList (batches.flatMap HeaderBatch.names) ∧
        (ofBatches batches).Collects (batches.flatMap HeaderBatch.names)) ∧
    (∀ batches batches' : List HeaderBatch,
      (batches.flatMap HeaderBatch.names).Perm (batches'.flatMap HeaderBatch.names) →
        (ofBatches batches).same (ofBatches batches') = true) ∧
    ∀ (σ : Schema) (source table : String) (clause : Clause) (p : CompiledPermission),
      Permission.compile σ source table clause = .ok p →
        p.descriptor.requiredHeaders = ofBatches (clause.headerBatches p.descriptor) := by
  refine ⟨SessionVariable.equivalence_same, inferInstance, fun v w => ?_,
    fun s => SessionVariable.isReference_iff, fun batches => ?_, fun batches batches' hp => ?_,
    fun _ _ _ _ _ => Permission.requiredHeaders_eq_ofBatches⟩
  · exact ⟨SessionVariable.same_eq_agree v w, SessionVariable.compare_eq_compare_foldedBytes v w,
      congrArg (· ++ [0xff]) (SessionVariable.bytes_folded v), SessionVariable.compare_eq_iff_same.symm,
      SessionVariable.hashed_eq_iff_same.symm, SessionVariable.isReference_congr⟩
  · rw [ofBatches_eq_ofList]
    exact ⟨rfl, collects_ofList _⟩
  · rw [ofBatches_eq_ofList, ofBatches_eq_ofList]
    exact same_ofList_of_perm hp

/-- The authors that a session may insert are those of its zone or with its id, and the id is set to that of
the session. The id is spelled in two ways; the predicate brings it first. -/
theorem keep_first_spellings_authors :
    let v : SessionVariable := ⟨"X-Hasura-École"⟩
    let w : SessionVariable := ⟨"x-hasura-École"⟩
    let zone : SessionVariable := ⟨"X-Hasura-Zone"⟩
    let batches : List HeaderBatch := [.collected [zone, v], .single w]
    let batches' : List HeaderBatch := [.single w, .single v, .collected [zone]]
    let author : Table := ⟨"author", [⟨"id", .integer⟩, ⟨"zone", .text⟩], [], []⟩
    let σ := (Catalog.ofTables [author]).schema
    let clause : Clause := .insert {
      columns := none
      set := some (.ofList [("id", .str "x-hasura-ID")])
      check := .obj [("_or", .arr [.obj [("zone", .obj [("_eq", .str "X-Hasura-Zone")])],
        .obj [("id", .obj [("_eq", .str "X-Hasura-Id")])]])]
      backendOnly := none }
    (v.same w = true ∧ SessionVariable.isReference v.name = SessionVariable.isReference w.name) ∧
    ((batches.flatMap HeaderBatch.names).Perm (batches'.flatMap HeaderBatch.names) ∧
      (ofBatches batches).same (ofBatches batches') = true ∧
      (ofBatches batches).toList = [zone, v] ∧ (ofBatches batches').toList = [zone, w]) ∧
    ∃ p, Permission.compile σ "default" "author" clause = .ok p ∧
      p.descriptor.requiredHeaders = ofBatches (clause.headerBatches p.descriptor) ∧
      p.descriptor.requiredHeaders.toList.map (·.name) = ["X-Hasura-Id", "X-Hasura-Zone"] := by
  intro v w zone batches batches' author σ clause
  obtain ⟨-, -, hvariables, -, -, hperm, hcompile⟩ := keep_first_spellings
  have hsame : v.same w = true := by decide +kernel
  have hp : (batches.flatMap HeaderBatch.names).Perm (batches'.flatMap HeaderBatch.names) := by
    decide +kernel
  have hok : (Permission.compile σ "default" "author" clause).isOk = true := by decide +kernel
  have hnames : ∀ p ∈ (Permission.compile σ "default" "author" clause).toOption,
      p.descriptor.requiredHeaders.toList.map (·.name) = ["X-Hasura-Id", "X-Hasura-Zone"] := by
    decide +kernel
  obtain ⟨p, hcompiled⟩ := exists_of_isOk hok
  exact ⟨⟨hsame, (hvariables v w).2.2.2.2.2 hsame⟩,
    ⟨hp, hperm batches batches' hp, by decide +kernel, by decide +kernel⟩,
    p, hcompiled, hcompile _ _ _ _ _ hcompiled, hnames p (by rw [hcompiled]; rfl)⟩

end RequiredHeaders

end TableAccess
