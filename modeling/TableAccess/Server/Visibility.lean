import TableAccess.Cache
import TableAccess.Json.Record
import TableAccess.Mutation
import TableAccess.Text.Blank

/-!
# Visibility of insert permissions

A role sees the insert operation of a table where an insert permission is compiled for it. One that
is for backends only also needs the admin secret and a header that asks for such permissions.
-/

namespace TableAccess

/-- **The digest that secrets are compared by**, so that how long it takes tells nothing of what they have
in common. -/
class Digest where
  digest : String → List UInt8

namespace Digest

/-- The digest that leaves a secret as it is. It is the one that is meant where no other is named. -/
instance bytes : Digest := ⟨Text.bytes⟩

end Digest

namespace Visibility

/-- Whether the secret that a request presents is the right one, by their digests; without a configured
secret every request is trusted. -/
def secretOk [Digest] (configured presented : Option String) : Bool :=
  match configured, presented with
  | none, _ => true
  | some _, none => false
  | some c, some p => Digest.digest c == Digest.digest p

/-- Whether a header's value says yes. -/
def saysYes (value : Option String) : Bool :=
  match value with
  | none => false
  | some v => ["true", "t", "yes", "y", "1"].contains (Text.fold (Text.trim v))

/-- Whether an insert permission is visible, by whether it is for backends only, whether the secret
is right, and whether such permissions are asked for. -/
def visible (backendOnly secretOk asked : Bool) : Bool := !backendOnly || (secretOk && asked)

/-- Which table is asked for. -/
structure Question where
  source : Option String
  table : String
deriving DecidableEq, Repr

/-- Who asks. -/
structure Asker where
  role : String
  secretOk : Bool
  /-- Whether permissions for backends are asked for. -/
  backend : Bool
deriving DecidableEq, Repr

/-- What a role sees. -/
structure Answer where
  role : String
  isDefined : Bool
  backendOnly : Bool
  visible : Bool
deriving DecidableEq, Repr

/-- How a question is read. -/
def Question.record : Record Question :=
  Question.mk <$> .maybe "source" Reader.string <*> .required "table" Reader.string []

/-- Reads a question. -/
def Question.reader : Reader Question := Question.record.lenient

/-- An answer as JSON. -/
def Answer.toJson (a : Answer) : Json :=
  .obj [("role", .str a.role), ("defined", .bool a.isDefined), ("backend_only", .bool a.backendOnly),
    ("visible", .bool a.visible)]

/-- **Answers a question.** The admin role needs no permission, and only the secret. -/
def answer (c : PermissionCache) (q : Question) (who : Asker) : Except Failure Answer :=
  let source := q.source.getD defaultSource
  if who.role == adminRole then .ok ⟨who.role, true, false, who.secretOk⟩
  else
    match c.backends.get? source with
    | none => fail (.rule (.sourceNotFound source))
    | some σ =>
      if !σ.tableExists q.table then fail (.rule (.tableNotFound source q.table))
      else
        match (c.get? ⟨source, q.table, who.role, .insert⟩).bind
          fun p => p.compiled.descriptor.asInsert? with
        | none => .ok ⟨who.role, false, false, false⟩
        | some d =>
          .ok ⟨who.role, true, d.backendOnly, visible d.backendOnly who.secretOk who.backend⟩

end Visibility

end TableAccess
