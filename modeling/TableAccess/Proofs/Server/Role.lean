import TableAccess.Proofs.Server.Run

/-!
# Who asks

The role of a question stands in a header. The header counts only if it can be read as text; one that
cannot be read is no header at all, and then the admin asks. So a role can be named that is taken for the
admin: any name with a character beyond ASCII, which permissions can have.

* `Request.value?`: what stands in a header, whether it can be read or not.
* `handle_of_isQuestion`: how a question is answered.
* `handle_of_named_role`: **who names a role is answered as the admin exactly if the name cannot be read**,
  and otherwise sees what is compiled for that role.
* `named_role_is_admin`: a role that is answered as the admin.
-/

namespace TableAccess

namespace Visibility

variable {c : PermissionCache} {q : Question} {who : Asker}

/-- What the admin is answered. -/
def adminAnswer (secretOk : Bool) : Answer := ⟨adminRole, true, false, secretOk⟩

/-- The insert permission that a question of a role is about. -/
def Question.id (q : Question) (role : String) : PermissionId :=
  ⟨q.source.getD defaultSource, q.table, role, .insert⟩

theorem answer_of_admin (h : who.role = adminRole) : answer c q who = .ok (adminAnswer who.secretOk) := by
  simp [answer, adminAnswer, h]

/-- What the cache holds of the permission that a role asks for. -/
def compiledFor (c : PermissionCache) (i : PermissionId) : Option InsertDescriptor :=
  (c.get? i).bind fun p => p.compiled.descriptor.asInsert?

/-- What a role is answered, by the permission that is compiled for it. -/
def answerOf (who : Asker) : Option InsertDescriptor → Answer
  | none => ⟨who.role, false, false, false⟩
  | some d => ⟨who.role, true, d.backendOnly, visible d.backendOnly who.secretOk who.backend⟩

@[simp] theorem role_answerOf (who : Asker) (d? : Option InsertDescriptor) :
    (answerOf who d?).role = who.role := by
  cases d? <;> rfl

@[simp] theorem isDefined_answerOf (who : Asker) (d? : Option InsertDescriptor) :
    (answerOf who d?).isDefined = d?.isSome := by
  cases d? <;> rfl

/-- **Any other role sees what is compiled for it**, if the table is known. -/
theorem answer_of_role (h : who.role ≠ adminRole) : answer c q who =
    match c.backends.get? (q.id who.role).source with
    | none => fail (.rule (.sourceNotFound (q.id who.role).source))
    | some σ =>
      if σ.tableExists q.table then .ok (answerOf who (compiledFor c (q.id who.role)))
      else fail (.rule (.tableNotFound (q.id who.role).source q.table)) := by
  unfold answer
  rw [if_neg (by simpa using h)]
  simp only [Question.id]
  cases c.backends.get? (q.source.getD defaultSource) with
  | none => rfl
  | some σ =>
    cases hσ : σ.tableExists q.table with
    | false => simp [hσ]
    | true =>
      simp only [hσ, Bool.not_true, Bool.false_eq_true, if_false, if_true, compiledFor]
      cases (c.get? _).bind fun p => p.compiled.descriptor.asInsert? <;> rfl

/-- A question of a role that gets no answer asks for what is not there. -/
theorem answer_of_role_cases (h : who.role ≠ adminRole) :
    (∃ f, answer c q who = .error f ∧ f.code.status = 404) ∨
      answer c q who = .ok (answerOf who (compiledFor c (q.id who.role))) := by
  rw [answer_of_role h]
  split
  next => exact .inl ⟨_, rfl, rfl⟩
  next =>
    split
    · exact .inr rfl
    · exact .inl ⟨_, rfl, rfl⟩

theorem Answer.toJson_injective {a b : Answer} (h : a.toJson = b.toJson) : a = b := by
  cases a
  cases b
  simpa [toJson] using h

end Visibility

namespace Server

open Visibility

variable {s : Server} {r : Request}

/-- What stands in the first header of a name, whether it can be read as text or not. -/
def Request.value? (r : Request) (name : String) : Option String :=
  (r.headers.find? fun h => Text.sameFolded h.1 name).map (·.2)

/-- Whether the value of a header can be read as text. -/
def isReadable (v : String) : Bool := v.toList.all isVisible

theorem header?_eq (r : Request) (name : String) :
    r.header? name = (r.value? name).filter isReadable := by
  unfold Request.header? Request.value?
  cases r.headers.find? fun h => Text.sameFolded h.1 name with
  | none => rfl
  | some h => simp [isReadable, Option.filter]

/-- Whether a request asks what is visible. -/
def Request.isQuestion (r : Request) : Bool := r.method == "POST" && r.path == "/v1/visibility"

/-- The response with an answer. -/
def Response.answer (a : Answer) : Response := ⟨200, .json a.toJson⟩

theorem answer_inj {a b : Answer} : Response.answer a = Response.answer b ↔ a = b := by
  refine ⟨fun h => Answer.toJson_injective ?_, fun h => h ▸ rfl⟩
  simpa [Response.answer] using h

/-- **A question changes nothing**, and is answered for whoever asks. -/
theorem handle_of_isQuestion [Engine] [Digest] (hr : r.isQuestion = true) {q : Question}
    (hq : r.read Question.reader = .ok q) :
    s.handle r = (match answer s.registry.cache q (s.asker r) with
      | .ok a => .answer a
      | .error f => .failure f, s) := by
  simp only [Request.isQuestion, Bool.and_eq_true, beq_iff_eq] at hr
  simp only [handle, hr.1, hr.2, postVisibility, hq]
  rfl

theorem answer_ne_failure (a : Answer) (f : Failure) (h : f.code.status = 404) :
    Response.answer a ≠ .failure f := by
  intro he
  have hstatus := congrArg Response.status he
  rw [Response.answer, Response.failure, h] at hstatus
  cases hstatus

/-- **Who names a role is answered as the admin exactly if the name cannot be read.** If it can be read, an
answer is one for that role, in which a permission is defined exactly if one is compiled for that role in
the cache. The server is left as it is. -/
theorem handle_of_named_role [Engine] [Digest] (hr : r.isQuestion = true) {q : Question}
    (hq : r.read Question.reader = .ok q) {v : String} (hv : r.value? roleHeader = some v)
    (hadmin : v ≠ adminRole) :
    (s.handle r).2 = s ∧
      ((∃ ok, (s.handle r).1 = .answer (adminAnswer ok)) ↔ isReadable v = false) ∧
      (isReadable v = true → ∀ a, (s.handle r).1 = .answer a → a.role = v ∧
        (a.isDefined = true ↔ ∃ d, compiledFor s.registry.cache (q.id v) = some d)) := by
  rw [handle_of_isQuestion hr hq]
  refine ⟨rfl, ?_⟩
  have hrole : (s.asker r).role = if isReadable v then v else adminRole := by
    rw [asker, header?_eq, hv, Option.filter]
    cases isReadable v <;> rfl
  cases hread : isReadable v with
  | false =>
    rw [hread] at hrole
    rw [answer_of_admin hrole]
    exact ⟨⟨fun _ => rfl, fun _ => ⟨_, rfl⟩⟩, fun h => by cases h⟩
  | true =>
    rw [hread, if_pos rfl] at hrole
    rcases answer_of_role_cases (c := s.registry.cache) (q := q) (hrole ▸ hadmin) with
      ⟨f, hf, hstatus⟩ | ha
    · rw [hf]
      have hne := fun a => answer_ne_failure a f hstatus
      exact ⟨⟨fun ⟨_, h⟩ => absurd h.symm (hne _), fun h => by cases h⟩,
        fun _ a h => absurd h.symm (hne a)⟩
    · rw [ha, hrole]
      refine ⟨⟨fun ⟨ok, h⟩ => ?_, fun h => by cases h⟩, fun _ a h => ?_⟩
      · have h := congrArg Answer.role (answer_inj.1 h)
        rw [role_answerOf, hrole] at h
        exact absurd h hadmin
      · obtain rfl := answer_inj.1 h
        exact ⟨by rw [role_answerOf, hrole], by rw [isDefined_answerOf, Option.isSome_iff_exists]⟩

/-- The server on authors, whose name may be inserted by the role `user`, and questions on it. -/
theorem handle_of_named_role_authors :
    let authors : Schema := (Catalog.ofTables [⟨"author", [⟨"id", .integer⟩], [], []⟩]).schema
    let i : PermissionId := ⟨"default", "author", "user", .insert⟩
    let cache := (PermissionCache.ofBackends (.ofList [("default", authors)])).record i
      ⟨"user", none, .insert ⟨.emptyObject, none, none, none⟩⟩
    let s : Server := ⟨⟨.empty, cache⟩, none⟩
    let r : Request := ⟨"POST", "/v1/visibility",
      [("content-type", "application/json"), ("x-hasura-role", "user")], "\x7b\"table\":\"author\"\x7d"⟩
    let q : Question := ⟨none, "author"⟩
    r.isQuestion = true ∧ r.read Question.reader = .ok q ∧ r.value? roleHeader = some "user" ∧
      "user" ≠ adminRole ∧ isReadable "user" = true ∧
      (s.handle r).2 = s ∧ (¬ ∃ ok, (s.handle r).1 = .answer (adminAnswer ok)) ∧
      ∃ a, (s.handle r).1 = .answer a ∧ a.role = "user" ∧ a.isDefined = true := by
  intro authors i cache s r q
  have hq : r.read Question.reader = .ok q := by decide +kernel
  have hv : r.value? roleHeader = some "user" := by decide +kernel
  have hread : isReadable "user" = true := by decide +kernel
  obtain ⟨hs, hadmin, hrole⟩ :=
    handle_of_named_role (s := s) (by decide +kernel) hq hv (by decide +kernel)
  have ha : (s.handle r).1 = .answer ⟨"user", true, false, true⟩ := by decide +kernel
  refine ⟨by decide +kernel, hq, hv, by decide +kernel, hread, hs, ?_, _, ha, hrole hread _ ha |>.1, rfl⟩
  rw [hadmin, hread]
  decide

/-- **A role that is answered as the admin**: a role that a permission can have, named by a header. The cache
of the server is empty, and still a permission is defined and visible. -/
theorem named_role_is_admin :
    ∃ (s : Server) (r : Request) (q : Question) (v : String), r.isQuestion = true ∧
      r.read Question.reader = .ok q ∧ r.value? roleHeader = some v ∧ v ≠ adminRole ∧ v ≠ "" ∧
      (s.handle r).1 = .answer ⟨adminRole, true, false, true⟩ ∧
      compiledFor s.registry.cache (q.id v) = none := by
  let authors : Schema := (Catalog.ofTables [⟨"author", [⟨"id", .integer⟩], [], []⟩]).schema
  let s : Server := ⟨⟨.empty, .ofBackends (.ofList [("default", authors)])⟩, none⟩
  let r : Request := ⟨"POST", "/v1/visibility",
    [("content-type", "application/json"), ("x-hasura-role", "é")], "\x7b\"table\":\"author\"\x7d"⟩
  exact ⟨s, r, ⟨none, "author"⟩, "é", by decide +kernel⟩

end Server

end TableAccess
