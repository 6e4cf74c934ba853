import TableAccess.Json.Reader
import TableAccess.Permission.Kind
import TableAccess.Schema.ColumnType

/-!
# What can go wrong

A `RuleFault` is a rule that a permission breaks against a schema; a `Fault` is anything that makes
an operation fail. Both are causes: their wording is in one function each, and a `Located` one has
the path of names that leads to the place.
-/

namespace TableAccess

/-- The class of a failure, as clients see it. -/
inductive ErrorCode where
  | alreadyExists
  | notDefined
  | notFound
  | notSupported
  | invalidLimit
  | predicateError
  | relationshipNotAllowed
  | validationFailed
  | invalidCommand
  | storage
deriving DecidableEq, Repr

namespace ErrorCode

/-- The name of a class. -/
def name : ErrorCode → String
  | alreadyExists => "already-exists"
  | notDefined => "not-defined"
  | notFound => "not-found"
  | notSupported => "not-supported"
  | invalidLimit => "invalid-limit"
  | predicateError => "predicate-error"
  | relationshipNotAllowed => "relationship-not-allowed"
  | validationFailed => "validation-failed"
  | invalidCommand => "invalid-command"
  | storage => "storage"

/-- The status of a response that reports a failure of this class. -/
def status : ErrorCode → Nat
  | notFound | notDefined => 404
  | alreadyExists => 409
  | storage => 500
  | _ => 400

end ErrorCode

/-- A cause with the path to its place, outermost name first. -/
structure Located (ε : Type) where
  path : List String
  cause : ε
deriving DecidableEq, Repr

namespace Located

variable {ε ε' α : Type}

/-- The place seen from one name further out. -/
def under (segment : String) (l : Located ε) : Located ε := { l with path := segment :: l.path }

/-- Changes the cause. -/
def map (f : ε → ε') (l : Located ε) : Located ε' := ⟨l.path, f l.cause⟩

/-- The path as text, none where there is no path. -/
def path? (l : Located ε) : Option String :=
  if l.path.isEmpty then none else some (String.intercalate "." l.path)

end Located

/-- Fails with a cause that has no path yet. -/
def fail {ε α : Type} (cause : ε) : Except (Located ε) α := .error ⟨[], cause⟩

/-- Puts `segment` in front of the path of a failure of `r`. -/
def within {ε α : Type} (segment : String) (r : Except (Located ε) α) : Except (Located ε) α :=
  r.mapError (Located.under segment)

/-- What is wrong with a predicate document. -/
inductive PredicateFault where
  | objectExpected (got : Json)
  | arrayExpected (got : Json)
  | operatorsExpected (got : Json)
  | unknownMember (name table : String)
  | rowsField (name : String)
  | unknownOperator (name : String)
  | columnNameExpected (got : Json)
  | unknownColumn (name table : String)
  | booleanExpected (got : Json)
  | listExpected (got : Json)
  | patternType (type : ColumnType)
  | valueExpected (type : ColumnType) (got : Json)
deriving DecidableEq

/-- The wording of a predicate's fault. -/
def PredicateFault.message : PredicateFault → String
  | objectExpected got => "expecting an object for boolean expression, got " ++ got.text
  | arrayExpected got => "expecting an array of boolean expressions, got " ++ got.text
  | operatorsExpected got => "expecting an object of comparison operators, got " ++ got.text
  | unknownMember name table =>
    Text.quoted name ++ " is not a column, relationship or computed field of table " ++
      Text.quoted table
  | rowsField name =>
    "computed field " ++ Text.quoted name ++
      " returns a set of rows and cannot be used in a boolean expression"
  | unknownOperator name => "unknown operator " ++ Text.quoted name
  | columnNameExpected got => "expecting a column name, got " ++ got.text
  | unknownColumn name table =>
    "column " ++ Text.quoted name ++ " not found in table " ++ Text.quoted table
  | booleanExpected got => "expecting a boolean for _is_null, got " ++ got.text
  | listExpected got => "expecting a list of values, got " ++ got.text
  | patternType type => "pattern matching is only valid on text values, not " ++ type.title
  | valueExpected type got => "expecting a value of type " ++ type.title ++ ", got " ++ got.text

/-- A rule that a permission breaks. -/
inductive RuleFault where
  | sourceNotFound (source : String)
  | tableNotFound (source table : String)
  | columnNotFound (table column : String)
  | computedFieldNotFound (table name : String)
  | relationshipNotAllowed (table name : String)
  /-- A computed field was listed that returns rows of a table. -/
  | rowsFieldListed (name returns : String)
  | invalidLimit (limit : Int)
  /-- A preset value does not fit the type of its column. -/
  | presetMismatch (type : ColumnType) (column : String) (got : Json)
  /-- The aggregate root field was listed where aggregations are not allowed. -/
  | aggregateNotAllowed
  | predicate (fault : PredicateFault)
deriving DecidableEq

namespace RuleFault

/-- The class of a broken rule. -/
def code : RuleFault → ErrorCode
  | sourceNotFound _ | tableNotFound _ _ | columnNotFound _ _ | computedFieldNotFound _ _ => .notFound
  | relationshipNotAllowed _ _ => .relationshipNotAllowed
  | rowsFieldListed _ _ => .notSupported
  | invalidLimit _ => .invalidLimit
  | presetMismatch _ _ _ | aggregateNotAllowed => .validationFailed
  | predicate _ => .predicateError

/-- The wording of a broken rule. -/
def message : RuleFault → String
  | sourceNotFound source => "source " ++ Text.quoted source ++ " does not exist"
  | tableNotFound source table =>
    "table " ++ Text.quoted table ++ " does not exist in source " ++ Text.quoted source
  | columnNotFound table column =>
    "column " ++ Text.quoted column ++ " not found in table " ++ Text.quoted table
  | computedFieldNotFound table name =>
    "computed field " ++ Text.quoted name ++ " not found in table " ++ Text.quoted table
  | relationshipNotAllowed table name =>
    Text.quoted name ++ " is a relationship of table " ++ Text.quoted table ++ ", expected a column"
  | rowsFieldListed name returns =>
    "not supported: select permissions on computed field " ++ Text.quoted name ++
      " are auto-derived from the permissions on its returning table " ++ Text.quoted returns ++
      " and cannot be specified manually"
  | invalidLimit limit =>
    "unexpected limit " ++ String.ofList (Number.intChars limit) ++
      ": limit must be a positive integer"
  | presetMismatch type column got =>
    "validation failed: expecting a value of type " ++ type.title ++ " for column " ++
      Text.quoted column ++ ", got " ++ got.text
  | aggregateNotAllowed =>
    "validation failed: the \"select_aggregate\" root field can only be enabled when " ++
      "\"allow_aggregations\" is true"
  | predicate fault => fault.message

end RuleFault

/-- What the store itself can refuse. -/
inductive StorageFault where
  /-- A key is too long to be written. -/
  | keySize
  /-- A key of the store is no permission's key. -/
  | malformedKey (bytes : List UInt8)
  /-- A table has two definitions of one kind for one role. -/
  | duplicate (kind : Kind) (role : String)
  /-- A failure reported from outside the library. -/
  | reported (text : String)
deriving DecidableEq

/-- The wording of a storage fault. -/
def StorageFault.message : StorageFault → String
  | keySize => "MDB_BAD_VALSIZE: Unsupported size of key/DB name/data, or wrong DUPFIXED size"
  | malformedKey bytes =>
    "malformed permission key [" ++
      String.intercalate ", " (bytes.map fun b => String.ofList (Number.natChars b.toNat)) ++ "]"
  | duplicate kind role => "duplicate " ++ kind.name ++ " permission for role " ++ Text.quoted role
  | reported text => text

/-- A value that an operation does not accept. -/
inductive ValidationFault where
  | emptyRole
  | reservedRole (role : String)
  | longName (limit : Nat) (name : String)
  | alreadyTracked (table : String)
  | badSetting (name value : String)
  | unreadableFile (path reason : String)
  /-- A failure reported from outside the library. -/
  | reported (text : String)
deriving DecidableEq

/-- The wording of a refused value. -/
def ValidationFault.message : ValidationFault → String
  | emptyRole => "role name must not be empty"
  | reservedRole role => Text.quoted role ++ " role has all permissions"
  | longName limit name =>
    "name longer than " ++ String.ofList (Number.natChars limit) ++ " bytes: " ++ Text.quoted name
  | alreadyTracked table => "table " ++ Text.quoted table ++ " is already tracked"
  | badSetting name value => name ++ " is not valid: " ++ Text.quoted value
  | unreadableFile path reason => "cannot read catalog " ++ path ++ ": " ++ reason
  | reported text => text

/-- What is wrong with a command beside its form. -/
inductive CommandFault where
  | notAList
  | unknown (command : String)
deriving DecidableEq

/-- The wording of a command's fault. -/
def CommandFault.message : CommandFault → String
  | notAList => "bulk args must be a list of commands"
  | unknown command => "unknown command " ++ Text.quoted command

/-- Anything that makes an operation fail. -/
inductive Fault where
  | alreadyExists (kind : Kind) (table role : String)
  | notDefined (kind : Kind) (table role : String)
  | rule (fault : RuleFault)
  | validation (fault : ValidationFault)
  | command (fault : CommandFault)
  | unreadable (error : ReadError)
  | storage (fault : StorageFault)
deriving DecidableEq

namespace Fault

/-- The class of a fault. -/
def code : Fault → ErrorCode
  | alreadyExists _ _ _ => .alreadyExists
  | notDefined _ _ _ => .notDefined
  | rule fault => fault.code
  | validation _ => .validationFailed
  | command _ | unreadable _ => .invalidCommand
  | storage _ => .storage

/-- The wording of a fault, none for a document whose form is not as expected. -/
def message? : Fault → Option String
  | alreadyExists kind table role =>
    some (kind.name ++ " permission already defined on table " ++ Text.quoted table ++
      " with role " ++ Text.quoted role)
  | notDefined kind table role =>
    some (kind.name ++ " permission on table " ++ Text.quoted table ++
      " is not defined for role " ++ Text.quoted role)
  | rule fault => some fault.message
  | validation fault => some ("validation failed: " ++ fault.message)
  | command fault => some ("invalid command: " ++ fault.message)
  | unreadable error => error.message?.map ("json error: " ++ ·)
  | storage fault => some ("storage error: " ++ fault.message)

end Fault

/-- A failure of an operation. -/
abbrev Failure := Located Fault

namespace Failure

/-- The class of a failure. -/
def code (f : Failure) : ErrorCode := f.cause.code

/-- The wording of a failure with its path in front. -/
def message? (f : Failure) : Option String :=
  match f.path? with
  | none => f.cause.message?
  | some path => f.cause.message?.map (path ++ ": " ++ ·)

/-- A broken rule as a failure. -/
def ofRule (l : Located RuleFault) : Failure := l.map .rule

end Failure

/-- Fails with a document that could not be read. -/
def orUnreadable {α : Type} (r : Except ReadError α) : Except Failure α :=
  r.mapError fun e => ⟨[], .unreadable e⟩

end TableAccess
