import TableAccess.Proofs.Json.Origin
import TableAccess.Proofs.Registry.Commit
import TableAccess.Proofs.Server.Role

/-!
# What is visible is what is stored

A question is answered from the cache of the server, and the cache follows the store. So whatever requests
a server has answered since it was started on an empty store, a role sees what an insert permission that is
stored for it says now. This needs no engine whose commits succeed: what a failed one leaves is no less faithful.

* `Server.faithful_run`: **the cache of a server shows what is stored**, after any requests.
* `Visibility.Granted`: an insert clause is stored for a role, and it compiles.
* `visibility_follows_store`: **a question is answered from what is stored.**
-/

namespace TableAccess

namespace Server

variable {backends : SortedMap String Schema} {s : Server} {r : Request}

/-! ## Runs -/

/-- The numbers of a document in a request are such as a text can stand for. -/
theorem Request.isSound_of_read {doc : Json} (h : r.read Reader.json = .ok doc) :
    doc.AllNumbers Number.IsSound := by
  unfold Request.read at h
  split at h
  · cases h
  split_ifs at h
  split at h
  next doc' hdoc =>
    cases h
    exact (Reader.Yields.json (Document.isSound_of_ofText r.body) hdoc).numbers
  all_goals cases h

theorem faithful_handle [Engine] [Digest] (h : s.registry.Faithful backends) (r : Request) :
    (s.handle r).2.registry.Faithful backends := by
  cases hr : r.isCommand with
  | false => rwa [handle_of_not_isCommand hr]
  | true =>
    rw [handle_of_isCommand hr, postMetadata]
    split
    · exact h
    next doc hdoc =>
      have hrun := h.runCommand_of_engine ‹Engine› (Request.isSound_of_read hdoc)
      split
      · exact h
      · split
        next hreply => rwa [hreply] at hrun
        next hreply => rwa [hreply] at hrun

/-- **The cache of a server shows what is stored**, whatever it is asked to do. -/
theorem faithful_run [Engine] [Digest] (h : s.registry.Faithful backends) (rs : List Request) :
    (s.run rs).2.registry.Faithful backends := by
  induction rs generalizing s with
  | nil => exact h
  | cons r rs ih => exact ih (faithful_handle h r)

theorem secret_run [Engine] [Digest] (s : Server) (rs : List Request) : (s.run rs).2.secret = s.secret := by
  induction rs generalizing s with
  | nil => rfl
  | cons r rs ih => exact (ih (s.handle r).2).trans (secret_handle s r)

end Server

namespace Visibility

variable {backends : SortedMap String Schema} {r : Registry PermissionCache} {σ : Schema}
  {i : PermissionId} {ds : List (PermissionId × Definition)}

/-! ## What is stored for a role -/

/-- **The insert clause `c` is granted by the definitions `ds`**: it stands there for the permission, and it
compiles against the schema of its source. -/
def Granted (ds : List (PermissionId × Definition)) (σ : Schema) (i : PermissionId) (c : InsertClause) :
    Prop :=
  (∃ comment, (i, ⟨i.role, comment, .insert c⟩) ∈ ds) ∧
    ∃ p, Permission.compile σ i.source i.table (.insert c) = .ok p

/-- **What the cache holds of a permission is what is granted of it**: it is for backends only exactly if the
granted clause is. -/
theorem backendOnly_compiledFor (h : r.Faithful backends) (hds : r.store.definitions = .ok ds)
    (hσ : backends.get? i.source = some σ) (htable : σ.tableExists i.table = true) {b : Bool} :
    (compiledFor r.cache i).map (·.backendOnly) = some b ↔
      ∃ c, Granted ds σ i c ∧ c.backendOnly.getD false = b := by
  have hmem := fun d => h.legible.mem_definitions (i := i) (d := d) hds
  have hcompile : ∀ {d : Definition} {p}, r.cache.compile i d = .ok p ↔
      Permission.compile σ i.source i.table d.clause = .ok p := by
    intro d p
    rw [PermissionCache.compile_eq_ok, h.sources, hσ]
    simp [htable]
  constructor
  · intro hb
    obtain ⟨desc, hdesc, rfl⟩ := Option.map_eq_some_iff.1 hb
    obtain ⟨q, hq, hinsert⟩ := Option.bind_eq_some_iff.1 hdesc
    obtain ⟨d, p, hd, hp⟩ := h.exists_of_get? hq
    obtain ⟨q', hq', -, hbackend⟩ := h.exists_of_compile hd hp
    obtain rfl := Option.some.inj (hq.symm.trans hq')
    rw [hinsert] at hbackend
    obtain ⟨seq, role, comment, clause⟩ := d
    obtain rfl : role = i.role := (h.legible.inscribed hd).role
    -- of the clauses only an insert clause says whether it is for backends
    cases clause with
    | insert c =>
      exact ⟨c, ⟨⟨comment, (hmem _).2 ⟨seq, hd⟩⟩, p, hcompile.1 hp⟩, (Option.some.inj hbackend).symm⟩
    | _ => cases hbackend
  · rintro ⟨c, ⟨⟨comment, hc⟩, p, hp⟩, rfl⟩
    obtain ⟨seq, hd⟩ := (hmem _).1 hc
    obtain ⟨q, hq, -, hbackend⟩ := h.exists_of_compile hd (hcompile.2 hp)
    rw [compiledFor, hq]
    exact hbackend

/-- **An answer to a role that follows from the definitions `ds`**, by whether the request is trusted and
asks for permissions for backends. -/
structure FollowsFrom (ds : List (PermissionId × Definition)) (σ : Schema) (i : PermissionId)
    (trusted asked : Bool) (a : Answer) : Prop where
  role : a.role = i.role
  isDefined : a.isDefined = true ↔ ∃ c, Granted ds σ i c
  backendOnly : ∀ c, Granted ds σ i c → a.backendOnly = c.backendOnly.getD false
  absent : (¬ ∃ c, Granted ds σ i c) → a.backendOnly = false
  visible : a.visible = (a.isDefined && (!a.backendOnly || (trusted && asked)))

theorem followsFrom_answerOf (h : r.Faithful backends) (hds : r.store.definitions = .ok ds)
    (hσ : backends.get? i.source = some σ) (htable : σ.tableExists i.table = true) (who : Asker)
    (hrole : who.role = i.role) :
    FollowsFrom ds σ i who.secretOk who.backend (answerOf who (compiledFor r.cache i)) := by
  have hgranted := fun b => backendOnly_compiledFor (b := b) h hds hσ htable
  cases hd : compiledFor r.cache i with
  | none =>
    have hnone : ¬ ∃ c, Granted ds σ i c := by
      rintro ⟨c, hc⟩
      have hb := (hgranted _).2 ⟨c, hc, rfl⟩
      rw [hd] at hb
      cases hb
    exact ⟨hrole, by simp [answerOf, hnone], fun c hc => absurd ⟨c, hc⟩ hnone, fun _ => rfl, rfl⟩
  | some d =>
    have hb : ∀ c, Granted ds σ i c → d.backendOnly = c.backendOnly.getD false := by
      intro c hc
      have hb := (hgranted _).2 ⟨c, hc, rfl⟩
      rw [hd] at hb
      exact Option.some.inj hb
    obtain ⟨c, hc, -⟩ := (hgranted d.backendOnly).1 (by rw [hd]; rfl)
    exact ⟨hrole, by simpa [answerOf] using ⟨c, hc⟩, hb, fun hnone => absurd ⟨c, hc⟩ hnone, by
      simp [answerOf, visible]⟩

/-- Of a table that is not known nothing is said. -/
theorem answer_of_unknown {c : PermissionCache} {q : Question} (who : Asker) (h : who.role ≠ adminRole)
    (hunknown : ∀ σ, c.backends.get? (q.id who.role).source = some σ → σ.tableExists q.table = false) :
    ∃ f, answer c q who = .error f ∧ f.code.status = 404 := by
  rw [answer_of_role h]
  split
  next => exact ⟨_, rfl, rfl⟩
  next σ hσ =>
    rw [hunknown σ hσ]
    exact ⟨_, rfl, rfl⟩

theorem answer_of_known {c : PermissionCache} {q : Question} (who : Asker) (h : who.role ≠ adminRole)
    {σ : Schema} (hσ : c.backends.get? (q.id who.role).source = some σ)
    (htable : σ.tableExists q.table = true) :
    answer c q who = .ok (answerOf who (compiledFor c (q.id who.role))) := by
  rw [answer_of_role h, hσ]
  exact if_pos htable

theorem saysYes_eq (value : Option String) : saysYes value =
    decide (∃ v ∈ value, Text.fold (Text.trim v) ∈ ["true", "t", "yes", "y", "1"]) := by
  cases value with
  | none => rfl
  | some v => simp [saysYes]

end Visibility

namespace Server

open Visibility

theorem header?_of_isReadable {r : Request} {name : String}
    (h : ∀ v ∈ r.value? name, isReadable v = true) : r.header? name = r.value? name := by
  rw [header?_eq]
  cases hv : r.value? name with
  | none => rfl
  | some v => exact if_pos (h v hv)

/-- **What is visible follows from what is stored.** Start a server on an empty store with any sources and
any secret, and let it answer any requests. Then ask it what is visible, as the admin or as a role that can
be read. The admin sees everything, if only the secret is right; for any other role a source or a table that
is not known is not found, and otherwise the answer follows from what is stored for the role. The server is
left as it is. That the secret is right is what it says if the digest does not collide on the two. -/
theorem visibility_follows_store [Engine] [Digest] (backends : SortedMap String Schema) (secret : Option String)
    (rs : List Request) {r : Request} (hr : r.isQuestion = true) {q : Question}
    (hq : r.read Question.reader = .ok q) (hrole : ∀ v ∈ r.value? roleHeader, isReadable v = true)
    (hc : NoCollision secret (r.header? secretHeader)) :
    let s := (run ⟨⟨.empty, .ofBackends backends⟩, secret⟩ rs).2
    let i := q.id ((r.value? roleHeader).getD adminRole)
    let trusted : Bool := secret = none ∨ r.header? secretHeader = secret
    let asked : Bool := ∃ v ∈ r.header? backendHeader,
      Text.fold (Text.trim v) ∈ ["true", "t", "yes", "y", "1"]
    (s.handle r).2 = s ∧
      (i.role = adminRole → (s.handle r).1 = .answer ⟨adminRole, true, false, trusted⟩) ∧
      (i.role ≠ adminRole →
        ((∀ σ, backends.get? i.source = some σ → σ.tableExists i.table = false) →
          ∃ f, (s.handle r).1 = .failure f ∧ (s.handle r).1.status = 404) ∧
        ∀ σ, backends.get? i.source = some σ → σ.tableExists i.table = true →
          ∃ ds a, s.registry.store.definitions = .ok ds ∧ (s.handle r).1 = .answer a ∧
            FollowsFrom ds σ i trusted asked a) := by
  intro s i trusted asked
  have hs : s.registry.Faithful backends :=
    faithful_run (Registry.Faithful.empty_registry backends) rs
  have hwho : s.asker r = ⟨i.role, trusted, asked⟩ := by
    rw [asker, secretOk, secret_run, secretOk_eq hc, saysYes_eq, header?_of_isReadable hrole]
    rfl
  rw [handle_of_isQuestion hr hq, hwho]
  refine ⟨rfl, fun hadmin => ?_, fun hadmin => ?_⟩
  · rw [answer_of_admin hadmin]
    rfl
  refine ⟨fun hunknown => ?_, fun σ hσ htable => ?_⟩
  · obtain ⟨f, hf, hstatus⟩ := answer_of_unknown (c := s.registry.cache) ⟨i.role, trusted, asked⟩ hadmin
      (hs.sources ▸ hunknown)
    rw [hf]
    exact ⟨f, rfl, hstatus⟩
  · obtain ⟨l, hl, -⟩ := hs.legible.exists_contents
    rw [answer_of_known (c := s.registry.cache) ⟨i.role, trusted, asked⟩ hadmin (hs.sources ▸ hσ) htable]
    exact ⟨l.definitions, _, hl, rfl, followsFrom_answerOf hs hl hσ htable ⟨i.role, trusted, asked⟩ rfl⟩

/-- A permission for backends is created, and then somebody asks for it who may see it. -/
theorem visibility_follows_store_authors :
    let authors : Schema := (Catalog.ofTables [⟨"author", [⟨"id", .integer⟩], [], []⟩]).schema
    let backends : SortedMap String Schema := .ofList [("default", authors)]
    let headers := [("content-type", "application/json"), ("x-hasura-admin-secret", "s3cret")]
    let create : Request := ⟨"POST", "/v1/metadata", headers,
      "\x7b\"type\":\"create_insert_permission\",\"args\":" ++
        "\x7b\"table\":\"author\",\"role\":\"user\",\"permission\":\x7b\"backend_only\":true\x7d\x7d\x7d"⟩
    let ask : Request := ⟨"POST", "/v1/visibility", headers ++ [("x-hasura-role", "user"),
      ("x-hasura-use-backend-only-permissions", " Yes")], "\x7b\"table\":\"author\"\x7d"⟩
    let s := (run ⟨⟨.empty, .ofBackends backends⟩, some "s3cret"⟩ [create]).2
    let i : PermissionId := ⟨"default", "author", "user", .insert⟩
    ask.isQuestion = true ∧ ask.read Question.reader = .ok ⟨none, "author"⟩ ∧
      (∀ v ∈ ask.value? roleHeader, isReadable v = true) ∧
      NoCollision (some "s3cret") (ask.header? secretHeader) ∧ i.role ≠ adminRole ∧
      authors.tableExists i.table = true ∧
      ∃ ds a, s.registry.store.definitions = .ok ds ∧ (s.handle ask).1 = .answer a ∧
        FollowsFrom ds authors i true true a ∧ a = ⟨"user", true, true, true⟩ := by
  intro authors backends headers create ask s i
  have hr : ask.isQuestion = true := by decide +kernel
  have hq : ask.read Question.reader = .ok ⟨none, "author"⟩ := by decide +kernel
  have hrole : ∀ v ∈ ask.value? roleHeader, isReadable v = true := by decide +kernel
  have hvalue : ask.value? roleHeader = some "user" := by decide +kernel
  have hsource : backends.get? "default" = some authors := by simp [backends, SortedMap.ofList]
  have htable : authors.tableExists "author" = true := by decide +kernel
  obtain ⟨-, -, hknown⟩ := visibility_follows_store backends (some "s3cret") [create] hr hq hrole
    (.of_bytes _ _)
  rw [hvalue] at hknown
  obtain ⟨ds, a, hds, ha, hfollows⟩ := (hknown (by decide +kernel)).2 authors hsource htable
  have hanswer : (s.handle ask).1 = .answer ⟨"user", true, true, true⟩ := by decide +kernel
  exact ⟨hr, hq, hrole, .of_bytes _ _, by decide +kernel, htable, ds, a, hds, ha, hfollows,
    answer_inj.1 (ha.symm.trans hanswer)⟩

end Server

end TableAccess
