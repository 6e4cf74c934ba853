import TableAccess.Permission.Definition
import TableAccess.Permission.RoleMap

/-!
# The permissions of a table

All definitions of one table, by kind and role, in the form in which they are exported.
-/

namespace TableAccess

/-- The definitions of a table. -/
structure TablePermissions where
  source : String
  table : String
  insert : RoleMap Definition
  select : RoleMap Definition
  update : RoleMap Definition
  delete : RoleMap Definition
deriving DecidableEq

namespace TablePermissions

/-- A table without definitions. -/
def empty (source table : String) : TablePermissions :=
  ⟨source, table, .empty, .empty, .empty, .empty⟩

/-- The definitions of one kind. -/
def ofKind (t : TablePermissions) : Kind → RoleMap Definition
  | .insert => t.insert
  | .select => t.select
  | .update => t.update
  | .delete => t.delete

/-- Sets the definitions of one kind. -/
def setKind (t : TablePermissions) (k : Kind) (m : RoleMap Definition) : TablePermissions :=
  match k with
  | .insert => { t with insert := m }
  | .select => { t with select := m }
  | .update => { t with update := m }
  | .delete => { t with delete := m }

/-- The definition of a kind for a role. -/
def get? (t : TablePermissions) (k : Kind) (role : String) : Option Definition :=
  (t.ofKind k).get? role

/-- Adds a definition under its own kind and role; none when there is one already. -/
def add? (t : TablePermissions) (d : Definition) : Option TablePermissions :=
  ((t.ofKind d.kind).insert? d.role d).map (t.setKind d.kind)

/-- Takes the definition of a kind for a role out. -/
def erase (t : TablePermissions) (k : Kind) (role : String) : TablePermissions :=
  t.setKind k ((t.ofKind k).erase role)

/-- A change of the permissions of a table: a definition added, or one taken out of its kind. -/
inductive Change where
  | add (d : Definition)
  | remove (k : Kind) (role : String)
deriving DecidableEq

/-- What a change hands back, and the permissions that it leaves. A definition whose role is taken comes
back, and so does one that is taken out. -/
def change (t : TablePermissions) : Change → Option Definition × TablePermissions
  | .add d =>
    match t.add? d with
    | some t' => (none, t')
    | none => (some d, t)
  | .remove k role => (t.get? k role, t.erase k role)

/-- Whether there is no definition. -/
def isEmpty (t : TablePermissions) : Bool := Kind.all.all fun k => (t.ofKind k).isEmpty

/-- A definition in an export: its kind is told by the list in which it stands. -/
def definitionToJson (d : Definition) : Json :=
  .obj ([("role", .str d.role), ("permission", d.clause.bodyToJson)] ++
    Json.entry? "comment" Json.str d.comment)

/-- The exported definitions of one kind, left out where there are none. -/
def kindToJson (t : TablePermissions) (k : Kind) : List (String × Json) :=
  if (t.ofKind k).isEmpty then []
  else [(k.name ++ "_permissions", .arr ((t.ofKind k).toList.map fun e => definitionToJson e.2))]

/-- The export of a table. -/
def toJson (t : TablePermissions) : Json :=
  .obj (("table", .str t.table) :: Kind.all.flatMap t.kindToJson)

end TablePermissions

end TableAccess
