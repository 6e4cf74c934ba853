import TableAccess.Command.Script
import TableAccess.Server.MediaType
import TableAccess.Server.Uri
import TableAccess.Server.Visibility

/-!
# Requests and responses

The server answers three routes: command documents, questions of visibility, and a sign of life. A
body is read before the secret is looked at, and the secret before anything is done.
-/

namespace TableAccess

/-- The server: its registry, and the secret it is configured with. -/
structure Server where
  registry : Registry PermissionCache
  secret : Option String

namespace Server

/-- A request: its method, the target it asks for, its headers and its body. Of several headers of
one name the first counts. The values of headers and the body are texts, so requests with bytes in them
that are not UTF-8 are left out; a header with such a value could not be read in any case. -/
structure Request where
  method : String
  target : String
  headers : List (String × String)
  body : String
deriving DecidableEq, Repr

/-- The body of a response. -/
inductive Body where
  | json (j : Json)
  | text (s : String)
  /-- A wording of no consequence. -/
  | plain
deriving DecidableEq

/-- A response. -/
structure Response where
  status : Nat
  body : Body
deriving DecidableEq

/-- The header that holds the secret. -/
def secretHeader : String := "x-hasura-admin-secret"

/-- The header that names the role. -/
def roleHeader : String := "x-hasura-role"

/-- The header that asks for permissions for backends. -/
def backendHeader : String := "x-hasura-use-backend-only-permissions"

/-- Whether `c` may stand in a header's value for it to be read as text. -/
def isVisible (c : Char) : Bool := c == '\t' || (0x20 ≤ c.toNat && c.toNat < 0x7f)

/-- The value of a header, if it can be read as text. -/
def Request.header? (r : Request) (name : String) : Option String :=
  match r.headers.find? fun h => Text.sameFolded h.1 name with
  | none => none
  | some h => if h.2.toList.all isVisible then some h.2 else none

/-- The path that a request asks for. -/
def Request.path (r : Request) : String := String.ofList (Uri.path r.target.toList)

/-- A response without a JSON body. -/
def Response.bare (status : Nat) : Response := ⟨status, .plain⟩

/-- A response that reports a failure. -/
def Response.failure (f : Failure) : Response :=
  ⟨f.code.status, .json (.obj [("code", .str f.code.name),
    ("error", Json.orNull Json.str f.cause.message?), ("path", Json.orNull Json.str f.path?)])⟩

/-- The response to a request without the right secret. -/
def Response.unauthorized : Response :=
  ⟨401, .json (.obj [("code", .str "access-denied"), ("error", .str "invalid admin secret")])⟩

/-- The greatest size of a body that is taken in, in bytes. -/
def maxBody : Nat := 2 * 1024 * 1024

/-- What is read from the body of a request, or the response to a body that cannot be read. What
follows the document in the body is not looked at. -/
def Request.read {α : Type} (r : Request) (reader : Reader α) : Except Response α :=
  match r.header? "content-type" with
  | none => .error (.bare 415)
  | some t =>
    if !MediaType.isJson t then .error (.bare 415)
    -- A body is taken in as a whole before any of it is read.
    else if r.body.utf8ByteSize > maxBody then .error (.bare 413)
    else
      match reader .stream (Document.ofText r.body).1 with
      | .ok a => .ok a
      | .error .malformed => .error (.bare 400)
      | .error _ => .error (.bare 422)

/-- Whether a request presents the right secret. -/
def secretOk [Digest] (s : Server) (r : Request) : Bool :=
  Visibility.secretOk s.secret (r.header? secretHeader)

/-- Runs the command document of a request. -/
def postMetadata [Engine] [Digest] (s : Server) (r : Request) : Response × Server :=
  match r.read Reader.json with
  | .error response => (response, s)
  | .ok doc =>
    -- A body that cannot be read is answered as such even without the secret.
    if !secretOk s r then (.unauthorized, s)
    else
      match (runCommand doc : Operation PermissionCache Json) s.registry with
      | (.ok reply, registry) => (⟨200, .json reply⟩, { s with registry })
      | (.error f, registry) => (.failure f, { s with registry })

/-- Who asks: without a role header the admin. -/
def asker [Digest] (s : Server) (r : Request) : Visibility.Asker :=
  ⟨(r.header? roleHeader).getD adminRole, secretOk s r,
    Visibility.saysYes (r.header? backendHeader)⟩

/-- Answers the question of a request. -/
def postVisibility [Digest] (s : Server) (r : Request) : Response :=
  match r.read Visibility.Question.reader with
  | .error response => response
  | .ok q =>
    match Visibility.answer s.registry.cache q (asker s r) with
    | .ok a => ⟨200, .json a.toJson⟩
    | .error f => .failure f

/-- **Answers a request.** A question of what is allowed, by the method `OPTIONS`, is always
answered; where `GET` works, `HEAD` does. -/
def handle [Engine] [Digest] (s : Server) (r : Request) : Response × Server :=
  if r.method == "OPTIONS" then (⟨200, .text ""⟩, s)
  else if r.path == "/v1/metadata" then
    if r.method == "POST" then postMetadata s r else (.bare 405, s)
  else if r.path == "/v1/visibility" then
    if r.method == "POST" then (postVisibility s r, s) else (.bare 405, s)
  else if r.path == "/healthz" then
    if r.method == "GET" then (⟨200, .text "OK"⟩, s)
    else if r.method == "HEAD" then (⟨200, .text ""⟩, s)
    else (.bare 405, s)
  else (.bare 404, s)

end Server

end TableAccess
