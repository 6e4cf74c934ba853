import TableAccess.Proofs.Success
import TableAccess.Proofs.Text.Bytes
import TableAccess.Schema.Catalog
import TableAccess.Server.Handler

/-!
# Runs of a server

A server that is configured with a secret is changed only by commands that present it. A request is
*authorized* by a secret if it is a command that presents this secret in a header that can be read. Secrets
are compared by a digest, so this takes that the digest does not collide on the two that are compared.

* `Server.run`: requests answered one after another.
* `Visibility.NoCollision`: the digest tells the secret that is presented from the one that is configured.
* `handle_of_unauthorized`: a request that is not authorized leaves the server as it is.
* `postMetadata_of_unauthorized`: how a command without the secret is answered, whatever the server holds.
* `run_authorized`: **requests without the secret do not interfere.** Leaving them out changes neither what
  the server ends with nor any other answer.
-/

namespace TableAccess

namespace Visibility

/-- **The digest does not collide** on the secret that is configured and the one that is presented, if there
are both. -/
def NoCollision [Digest] (configured presented : Option String) : Prop :=
  ∀ c ∈ configured, ∀ p ∈ presented, Digest.digest c = Digest.digest p → p = c

/-- The digest that leaves a secret as it is does not collide on any. -/
theorem NoCollision.of_bytes (configured presented : Option String) :
    @NoCollision .bytes configured presented := fun _ _ _ _ h => (Text.bytes_injective h).symm

/-- The secret is right if none is configured, or the one that is configured is presented. -/
theorem secretOk_eq [Digest] {configured presented : Option String} (h : NoCollision configured presented) :
    secretOk configured presented = decide (configured = none ∨ presented = configured) := by
  cases configured with
  | none => rfl
  | some c =>
    cases presented with
    | none => rfl
    | some p =>
      have hp : Digest.digest c = Digest.digest p ↔ p = c := ⟨h c rfl p rfl, fun hp => hp ▸ rfl⟩
      simp [secretOk, beq_eq_decide, hp]

end Visibility

namespace Server

open Visibility

/-- **Answers requests in order**: the responses, and the server that is left. -/
def run [Engine] [Digest] (s : Server) : List Request → List Response × Server
  | [] => ([], s)
  | r :: rest =>
    let (response, s') := s.handle r
    let (responses, s'') := s'.run rest
    (response :: responses, s'')

/-- Whether a request is a command. -/
def Request.isCommand (r : Request) : Bool := r.method == "POST" && r.path == "/v1/metadata"

/-- Whether a request is a command that presents the secret `c`. -/
def Request.isAuthorized (c : String) (r : Request) : Bool :=
  r.isCommand && r.header? secretHeader == some c

/-- The responses to those requests that `p` holds of. -/
def responsesTo (p : Request → Bool) (rs : List Request) (responses : List Response) : List Response :=
  ((rs.zip responses).filter fun e => p e.1).map (·.2)

theorem responsesTo_cons (p : Request → Bool) (r : Request) (rs : List Request) (a : Response)
    (as : List Response) :
    responsesTo p (r :: rs) (a :: as) =
      if p r then a :: responsesTo p rs as else responsesTo p rs as := by
  rw [responsesTo, List.zip_cons_cons, List.filter_cons]
  cases p r <;> rfl

/-! ## One request -/

section

variable [Digest] {s : Server} {c : String} {r : Request}

theorem secretOk_iff (hs : s.secret = some c) (hc : NoCollision (some c) (r.header? secretHeader)) :
    s.secretOk r = (r.header? secretHeader == some c) := by
  rw [secretOk, hs, secretOk_eq hc]
  simp [beq_eq_decide]

variable [Engine]

theorem handle_of_isCommand (h : r.isCommand = true) : s.handle r = s.postMetadata r := by
  simp only [Request.isCommand, Bool.and_eq_true, beq_iff_eq] at h
  simp [handle, h.1, h.2]

/-- Only a command can change the server. -/
theorem handle_of_not_isCommand (h : r.isCommand = false) : (s.handle r).2 = s := by
  unfold handle
  split
  · rfl
  split
  next hpath =>
    split
    next hmethod =>
      rw [Request.isCommand, hmethod, hpath] at h
      cases h
    next => rfl
  · repeat' split
    all_goals rfl

/-- **A command without the secret** is answered by its body alone, and not done. -/
theorem postMetadata_of_unauthorized (hok : s.secretOk r = false) : s.postMetadata r =
    (match r.read Reader.json with
      | .error response => response
      | .ok _ => .unauthorized, s) := by
  unfold postMetadata
  cases r.read Reader.json with
  | error response => rfl
  | ok doc => simp [hok]

/-- **A request that is not authorized leaves the server as it is.** -/
theorem handle_of_unauthorized (hs : s.secret = some c)
    (hc : NoCollision (some c) (r.header? secretHeader)) (h : r.isAuthorized c = false) :
    (s.handle r).2 = s := by
  cases hr : r.isCommand with
  | false => exact handle_of_not_isCommand hr
  | true =>
    have hok : s.secretOk r = false := by
      rw [secretOk_iff hs hc]
      rwa [Request.isAuthorized, hr, Bool.true_and] at h
    rw [handle_of_isCommand hr, postMetadata_of_unauthorized hok]

/-- The secret is configured once and for all. -/
theorem secret_handle (s : Server) (r : Request) : (s.handle r).2.secret = s.secret := by
  cases hr : r.isCommand with
  | false => rw [handle_of_not_isCommand hr]
  | true =>
    rw [handle_of_isCommand hr, postMetadata]
    repeat' split
    all_goals rfl

/-! ## Runs -/

theorem run_cons (s : Server) (r : Request) (rs : List Request) :
    s.run (r :: rs) = ((s.handle r).1 :: ((s.handle r).2.run rs).1, ((s.handle r).2.run rs).2) := rfl

theorem length_run (s : Server) (rs : List Request) : (s.run rs).1.length = rs.length := by
  induction rs generalizing s with
  | nil => rfl
  | cons r rs ih => rw [run_cons, List.length_cons, List.length_cons, ih]

theorem run_filter (hs : s.secret = some c) {rs : List Request}
    (hc : ∀ r ∈ rs, NoCollision (some c) (r.header? secretHeader)) :
    s.run (rs.filter (·.isAuthorized c)) =
      (responsesTo (·.isAuthorized c) rs (s.run rs).1, (s.run rs).2) := by
  induction rs generalizing s with
  | nil => rfl
  | cons r rs ih =>
    obtain ⟨hcr, hc⟩ := List.forall_mem_cons.1 hc
    have hnext := ih ((secret_handle s r).trans hs) hc
    rw [run_cons, responsesTo_cons, List.filter_cons]
    cases hr : r.isAuthorized c with
    | true =>
      simp only [if_true]
      rw [run_cons, hnext]
    | false =>
      -- the server is the same with the request and without it
      rw [handle_of_unauthorized hs hcr hr] at hnext ⊢
      simpa using hnext

/-- **Requests without the secret do not interfere.** Of the requests to a server with a secret, leave out
all but the commands that present it. The server ends with the same store and the same cache, and what
remains is answered as before. A command without the secret is answered the same by every server with a
secret that it does not present, and, if its body is JSON, refused. All this takes that the digest does not
collide on the secret and one that is presented. -/
theorem run_authorized (hs : s.secret = some c) (rs : List Request)
    (hc : ∀ r ∈ rs, NoCollision (some c) (r.header? secretHeader)) :
    ((s.run rs).1.length = rs.length ∧
      (s.run (rs.filter (·.isAuthorized c))).1 = responsesTo (·.isAuthorized c) rs (s.run rs).1 ∧
      (s.run (rs.filter (·.isAuthorized c))).2 = (s.run rs).2) ∧
    ∀ r : Request, NoCollision (some c) (r.header? secretHeader) → r.isCommand = true →
      r.isAuthorized c = false →
      (∀ t : Server, t.secret = some c → (t.handle r).1 = (s.handle r).1) ∧
      ∀ doc, r.read Reader.json = .ok doc → (s.handle r).1 = .unauthorized := by
  refine ⟨⟨length_run s rs, ?_, ?_⟩, fun r hcr hr h => ?_⟩
  · rw [run_filter hs hc]
  · rw [run_filter hs hc]
  · have hanswer : ∀ t : Server, t.secret = some c → (t.handle r).1 =
        match r.read Reader.json with
        | .error response => response
        | .ok _ => .unauthorized := by
      intro t ht
      have hok : t.secretOk r = false := by
        rw [secretOk_iff ht hcr]
        rwa [Request.isAuthorized, hr, Bool.true_and] at h
      rw [handle_of_isCommand hr, postMetadata_of_unauthorized hok]
    refine ⟨fun t ht => (hanswer t ht).trans (hanswer s hs).symm, fun doc hdoc => ?_⟩
    rw [hanswer s hs, hdoc]

end

/-- Of two commands on authors one presents the secret, the other its beginning; then somebody asks what is
visible. -/
theorem run_authorized_authors :
    let authors : Schema := (Catalog.ofTables [⟨"author", [⟨"id", .integer⟩], [], []⟩]).schema
    let s : Server := ⟨⟨.empty, .ofBackends (.ofList [("default", authors)])⟩, some "s3cret"⟩
    let json : String × String := ("content-type", "application/json")
    let body := "\x7b\"type\":\"track_table\",\"args\":\x7b\"table\":\"author\"\x7d\x7d"
    let track : String → Request := fun presented =>
      ⟨"POST", "/v1/metadata", [json, ("x-hasura-admin-secret", presented)], body⟩
    let ask : Request := ⟨"POST", "/v1/visibility", [json], "\x7b\"table\":\"author\"\x7d"⟩
    let rs := [track "s3cre", track "s3cret", ask]
    s.secret = some "s3cret" ∧ (∀ r ∈ rs, NoCollision (some "s3cret") (r.header? secretHeader)) ∧
      rs.filter (·.isAuthorized "s3cret") = [track "s3cret"] ∧
      ((s.run rs).1.length = rs.length ∧
        (s.run [track "s3cret"]).1 = responsesTo (·.isAuthorized "s3cret") rs (s.run rs).1 ∧
        (s.run [track "s3cret"]).2 = (s.run rs).2) ∧
      (s.handle (track "s3cre")).1 = .unauthorized := by
  intro authors s json body track ask rs
  have hc : ∀ r : Request, NoCollision (some "s3cret") (r.header? secretHeader) := fun _ => .of_bytes _ _
  have hkept : rs.filter (·.isAuthorized "s3cret") = [track "s3cret"] := by decide +kernel
  obtain ⟨hrun, hanswer⟩ := run_authorized (s := s) rfl rs fun r _ => hc r
  rw [hkept] at hrun
  have hread : ∃ doc, (track "s3cre").read Reader.json = .ok doc := exists_of_isOk (by decide +kernel)
  obtain ⟨doc, hdoc⟩ := hread
  exact ⟨rfl, fun r _ => hc r, hkept, hrun,
    (hanswer (track "s3cre") (hc _) (by decide +kernel) (by decide +kernel)).2 doc hdoc⟩

end Server

end TableAccess
