import TableAccess.Fault
import TableAccess.Schema.Catalog
import TableAccess.Text.Blank
import TableAccess.Text.Numeral

/-!
# Settings

The settings of the server come from variables of its environment, and the catalog of the default
source from a file that they may name.
-/

namespace TableAccess

/-- The settings of the server. -/
structure Settings where
  port : Nat
  /-- The folder of the store. -/
  storePath : String
  secret : Option String
  catalogPath : Option String
  /-- The greatest size of the store in bytes. -/
  storeSize : Nat
deriving DecidableEq, Repr

namespace Settings

/-- The greatest port. -/
def maxPort : Nat := 65535

/-- The size of the store that is not configured otherwise. -/
def defaultStoreSize : Nat := 1073741824

/-- The natural number, at most `bound`, that a value between blanks stands for. -/
def natural? (bound : Nat) (value : String) : Option Nat :=
  let cs := (Text.trim value).toList
  let digits := match cs with
    | '+' :: rest => rest
    | cs => cs
  (Text.natural? digits).filter fun n => n ≤ bound

/-- The natural number that a variable holds, or `absent` where it is not set. -/
def number (env : String → Option String) (name : String) (bound absent : Nat) :
    Except Failure Nat :=
  match env name with
  | none => .ok absent
  | some v =>
    match natural? bound v with
    | some n => .ok n
    | none => fail (.validation (.badSetting name v))

/-- A value that is set and not empty. -/
def nonempty (env : String → Option String) (name : String) : Option String :=
  (env name).filter fun v => !v.isEmpty

/-- The settings that an environment holds. -/
def ofEnv (env : String → Option String) : Except Failure Settings := do
  let port ← number env "TABLEGATE_PORT" maxPort 8080
  let size ← number env "TABLEGATE_MAP_SIZE" Number.maxNat defaultStoreSize
  return {
    port
    storePath := (env "TABLEGATE_DB_PATH").getD "tablegate_data"
    secret := nonempty env "TABLEGATE_ADMIN_SECRET"
    catalogPath := nonempty env "TABLEGATE_CATALOG"
    storeSize := size }

/-- The configured catalog, or one without tables. `file` gives the text of a file, or why it cannot
be read. -/
def catalog (s : Settings) (file : String → Except String String) : Except Failure Catalog :=
  match s.catalogPath with
  | none => .ok .empty
  | some path =>
    match file path with
    | .error reason => fail (.validation (.unreadableFile path reason))
    | .ok text => orUnreadable (Catalog.reader.ofText text)

end Settings

end TableAccess
