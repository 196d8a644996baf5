/-
Roles: the aggregate, its tables, its repository and the requests that change
them.  The catalog of permissions is seeded once and never changes.
-/
import Workshop.Shared.Values
import Workshop.Library.Interleaving
import Workshop.Library.Results
import Workshop.Library.Upserts
import Mathlib.Data.Finset.Dedup

namespace Workshop

namespace Identity

abbrev RoleId := Uuid
abbrev PermissionId := Uuid

inductive RoleError
  | roleNotFound
  | roleNameAlreadyInUse
  | systemRoleImmutable
  | permissionNotFound
  | invalidRoleName
  | invalidPermissionCode
  /-- A violation of `ux_roles_name` or of `ux_roles_external_id`. -/
  | uniqueViolation
deriving DecidableEq, Repr

/-- `ROLE_NAME_PATTERN`, on a name that is trimmed and in upper case. -/
def isRoleName (name : String) : Bool :=
  match name.toList with
  | first :: rest =>
      first.isUpper && decide (1 ≤ rest.length ∧ rest.length ≤ 49) &&
        rest.all fun c => c.isUpper || c.isDigit || c = '_'
  | [] => false

def checkRoleName (name : String) : Except RoleError Unit :=
  if isRoleName name then .ok () else .error .invalidRoleName

def permissionCodeMaxLength : Nat := 100

def isCodeChar (c : Char) : Bool := c.isLower || c.isDigit || c = '-'

/-- `PERMISSION_CODE_PATTERN`: words parted by colons, two at least. -/
def isPermissionCode (code : String) : Bool :=
  match code.toList.splitOn ':' with
  | first :: second :: rest =>
      (first.head?.any Char.isLower && first.all isCodeChar) &&
        (second :: rest).all fun word => !word.isEmpty && word.all isCodeChar
  | _ => false

/-- The check of a trimmed code. -/
def checkPermissionCode (code : String) : Except RoleError Unit :=
  if code.length ≤ permissionCodeMaxLength ∧ isPermissionCode code
  then .ok () else .error .invalidPermissionCode

structure Role where
  id : RoleId
  name : String
  description : Option String
  isSystem : Bool
  permissionIds : Finset PermissionId
  createdAt : Timestamp
  updatedAt : Timestamp
deriving DecidableEq

namespace Role

structure CreateRoleInput where
  id : RoleId
  name : String
  description : Option String
  permissionIds : Finset PermissionId
  now : Timestamp

def create (input : CreateRoleInput) : Role where
  id := input.id
  name := input.name
  description := input.description
  isSystem := false
  permissionIds := input.permissionIds
  createdAt := input.now
  updatedAt := input.now

def ensureMutable (role : Role) : Except RoleError Unit :=
  if role.isSystem then .error .systemRoleImmutable else .ok ()

/-- The first half of `update`: the role's own name is no change of it. -/
def rename (role : Role) (name : Option String) : Except RoleError Role :=
  match name with
  | some name =>
      if name = role.name then .ok role
      else role.ensureMutable.map fun _ => { role with name := name }
  | none => .ok role

/-- A description that is absent is left as it is. -/
def update (role : Role) (name : Option String) (description : Option (Option String))
    (now : Timestamp) : Except RoleError Role := do
  let renamed ← role.rename name
  return { renamed with
    description := description.getD renamed.description
    updatedAt := now }

def setPermissions (role : Role) (permissionIds : Finset PermissionId)
    (now : Timestamp) : Role :=
  { role with permissionIds := permissionIds, updatedAt := now }

def ensureDeletable (role : Role) : Except RoleError Unit :=
  role.ensureMutable

end Role

/-- A row of `roles`, under its internal key. -/
structure RoleRow where
  id : Nat
  externalId : RoleId
  name : String
  description : Option String
  isSystem : Bool
  createdAt : Timestamp
  updatedAt : Timestamp
deriving DecidableEq, Repr

/-- A row of `role_permissions`. -/
structure RolePermissionRow where
  roleId : Nat
  permissionId : Nat
deriving DecidableEq, Repr

/-- A row of `permissions`, under its internal key. -/
structure PermissionRow where
  id : Nat
  externalId : PermissionId
  code : String
deriving DecidableEq, Repr

/-- The seeded permissions, under the constraints of their table. -/
structure PermissionTable where
  rows : List PermissionRow
  ids : (rows.map PermissionRow.id).Nodup
  externalIds : (rows.map PermissionRow.externalId).Nodup
  codes : (rows.map PermissionRow.code).Nodup

def PermissionTable.externalIdOf (table : PermissionTable) (id : Nat) :
    Option PermissionId :=
  (table.rows.find? fun row => row.id = id).map PermissionRow.externalId

/-- The keys of the permissions that have one of the ids. -/
def PermissionTable.internalIdsOf (table : PermissionTable)
    (externalIds : Finset PermissionId) : List Nat :=
  (table.rows.filter fun row => row.externalId ∈ externalIds).map PermissionRow.id

def PermissionTable.withCodes (table : PermissionTable) (codes : List String) :
    List PermissionRow :=
  table.rows.filter fun row => row.code ∈ codes

/-- The ids of the permissions with the codes of a request, each named once:
an unknown code is refused. -/
def PermissionTable.resolveIdsByCodes (table : PermissionTable)
    (uniqueCodes : List String) : Except RoleError (Finset PermissionId) := do
  uniqueCodes.forM checkPermissionCode
  let found := table.withCodes uniqueCodes
  if found.length ≠ uniqueCodes.length then throw .permissionNotFound
  return (found.map PermissionRow.externalId).toFinset

structure RoleDb where
  roles : List RoleRow := []
  rolePermissions : List RolePermissionRow := []
  permissions : PermissionTable
  /-- The next id of the id generator. -/
  nextId : Uuid := 0
  /-- The next internal key of `roles`. -/
  nextKey : Nat := 0

namespace RoleDb

variable (db : RoleDb)

def findRow (id : RoleId) : Option RoleRow :=
  db.roles.find? fun row => row.externalId = id

def existsByName (name : String) : Bool :=
  db.roles.any fun row => row.name = name

/-- The permissions linked to the role with an internal key. -/
def permissionIdsOf (roleId : Nat) : Finset PermissionId :=
  ((db.rolePermissions.filter fun link => link.roleId = roleId).filterMap
    fun link => db.permissions.externalIdOf link.permissionId).toFinset

end RoleDb

def RoleRow.toDomain (row : RoleRow) (permissionIds : Finset PermissionId) : Role where
  id := row.externalId
  name := row.name
  description := row.description
  isSystem := row.isSystem
  permissionIds := permissionIds
  createdAt := row.createdAt
  updatedAt := row.updatedAt

/-- The row a save writes, under the internal key it found or a new one. -/
def Role.toRow (role : Role) (id : Nat) : RoleRow where
  id := id
  externalId := role.id
  name := role.name
  description := role.description
  isSystem := role.isSystem
  createdAt := role.createdAt
  updatedAt := role.updatedAt

/-- A row may take neither the name nor the id of another. -/
def RoleRow.clashes (row other : RoleRow) : Bool :=
  other.id ≠ row.id && (other.name = row.name || other.externalId = row.externalId)

/-- The transaction of a save: the row, and then its links in place of the
old ones.  A key whose row is gone is inserted again. -/
def RoleDb.save (db : RoleDb) (role : Role) (existing : Option Nat) :
    Except RoleError RoleDb :=
  let row := role.toRow (existing.getD db.nextKey)
  if db.roles.any row.clashes then .error .uniqueViolation
  else .ok { db with
    roles := upsert RoleRow.id row db.roles
    rolePermissions := (db.rolePermissions.filter fun link => link.roleId ≠ row.id) ++
      (db.permissions.internalIdsOf role.permissionIds).map fun permissionId =>
        ⟨row.id, permissionId⟩
    nextKey := if existing.isSome then db.nextKey else db.nextKey + 1 }

/-- The delete by id; its links go with the row. -/
def RoleDb.delete (db : RoleDb) (role : Role) : RoleDb :=
  { db with
    roles := db.roles.filter fun row => row.externalId ≠ role.id
    rolePermissions := db.rolePermissions.filter fun link =>
      db.roles.all fun row => !(row.externalId = role.id && row.id = link.roleId) }

/-- What a role is to its readers. -/
structure StoredRole where
  name : String
  description : Option String
  permissionIds : Finset PermissionId
deriving DecidableEq

def Role.stored (role : Role) : StoredRole where
  name := role.name
  description := role.description
  permissionIds := role.permissionIds

/-- The change a request makes to the copy of the role it loaded. -/
inductive RoleChange
  | update (name : Option String) (description : Option (Option String))
  | setPermissions (permissionIds : Finset PermissionId)
deriving DecidableEq

/-- Where a copy that is about to be saved comes from: `CreateRole` made it, or
it was loaded and then changed. -/
inductive RoleOrigin
  | created
  | loaded (role : Role) (change : RoleChange)
deriving DecidableEq

/-- The request that loads a role. -/
inductive RoleRequest
  | update (name : Option String) (description : Option (Option String))
  | setPermissions (codes : List String)
  | delete
deriving DecidableEq, Repr

/-- Where a request is between two statements. -/
inductive RolePlace
  | idle
  /-- The row is read, its permissions are not. -/
  | loading (row : RoleRow) (request : RoleRequest)
  /-- The new name is to be looked up. -/
  | checkingName (role : Role) (name : String) (description : Option (Option String))
  /-- The save is to look up the internal key. -/
  | finding (origin : RoleOrigin) (role : Role)
  | saving (origin : RoleOrigin) (role : Role) (existing : Option Nat)
  | deleting (role : Role)
deriving DecidableEq

inductive RoleInput
  /-- The name is trimmed and in upper case, the codes are trimmed. -/
  | createRole (name : String) (description : Option String) (codes : List String)
      (now : Timestamp)
  /-- The name is trimmed and in upper case. -/
  | updateRole (id : RoleId) (name : Option String)
      (description : Option (Option String))
  | setRolePermissions (id : RoleId) (codes : List String)
  | deleteRole (id : RoleId)
  /-- A system role as the migrations insert it. -/
  | seedRole (name : String) (description : Option String) (codes : List String)
      (now : Timestamp)
  | proceed (now : Timestamp)
  /-- The request fails or its process dies. -/
  | abort
deriving DecidableEq

inductive RoleEffect
  | created (id : RoleId) (role : StoredRole)
  | changed (id : RoleId) (change : RoleChange)
  | deleted (id : RoleId)
deriving DecidableEq

/-- What the save of a copy commits. -/
def RoleOrigin.effect (origin : RoleOrigin) (role : Role) : RoleEffect :=
  match origin with
  | .created => .created role.id role.stored
  | .loaded _ change => .changed role.id change

abbrev RoleOutcome := Outcome RoleDb RolePlace RoleEffect

/-- `CreateRole`, up to the save. -/
def createRole (db : RoleDb) (name : String) (description : Option String)
    (codes : List String) (now : Timestamp) : Except RoleError Role := do
  checkRoleName name
  if db.existsByName name then throw .roleNameAlreadyInUse
  let permissionIds ← db.permissions.resolveIdsByCodes codes
  return Role.create { id := db.nextId, name, description, permissionIds, now }

/-- A row of `SYSTEM_ROLE_ROWS` with its grants. -/
def seededRole (db : RoleDb) (name : String) (description : Option String)
    (codes : List String) (now : Timestamp) : Role where
  id := db.nextId
  name := name
  description := description
  isSystem := true
  permissionIds :=
    ((db.permissions.withCodes codes).map PermissionRow.externalId).toFinset
  createdAt := now
  updatedAt := now

/-- Goes on with what a step computed; an error ends the request. -/
def proceedWith {α : Type} (next : α → RolePlace) : Except RoleError α → RolePlace
  | .ok a => next a
  | .error _ => .idle

/-- A request has loaded a role. -/
def withRole (db : RoleDb) (role : Role) (request : RoleRequest) (now : Timestamp) :
    RolePlace :=
  match request with
  | .update none description =>
      proceedWith (.finding (.loaded role (.update none description)))
        (role.update none description now)
  | .update (some name) description =>
      match checkRoleName name with
      | .error _ => .idle
      | .ok () =>
          if name = role.name then
            proceedWith (.finding (.loaded role (.update (some name) description)))
              (role.update (some name) description now)
          else .checkingName role name description
  | .setPermissions codes =>
      proceedWith
        (fun permissionIds => .finding (.loaded role (.setPermissions permissionIds))
          (role.setPermissions permissionIds now))
        (db.permissions.resolveIdsByCodes codes)
  | .delete => proceedWith (fun _ => .deleting role) role.ensureDeletable

/-- `findById` has read the row. -/
def loadThen (db : RoleDb) (id : RoleId) (request : RoleRequest) : RolePlace :=
  match db.findRow id with
  | none => .idle
  | some row => .loading row request

/-- The transaction of a save. -/
def commitRole (db : RoleDb) (origin : RoleOrigin) (role : Role)
    (existing : Option Nat) : RoleOutcome :=
  match db.save role existing with
  | .ok db' => { store := db', place := .idle, effects := [origin.effect role] }
  | .error _ => { store := db, place := .idle }

/-- One statement of a request. -/
def roleExec (db : RoleDb) (place : RolePlace) (input : RoleInput) :
    Option RoleOutcome :=
  match place, input with
  | .idle, .createRole name description codes now =>
      some {
        store := { db with nextId := db.nextId + 1 }
        place := proceedWith (.finding .created)
          (createRole db name description codes now) }
  | .idle, .updateRole id name description =>
      some { store := db, place := loadThen db id (.update name description) }
  | .idle, .setRolePermissions id codes =>
      some { store := db, place := loadThen db id (.setPermissions codes) }
  | .idle, .deleteRole id => some { store := db, place := loadThen db id .delete }
  | .idle, .seedRole name description codes now =>
      some (commitRole { db with nextId := db.nextId + 1 } .created
        (seededRole db name description codes now) none)
  | .loading row request, .proceed now =>
      let role := row.toDomain (db.permissionIdsOf row.id)
      some { store := db, place := withRole db role request now }
  | .checkingName role name description, .proceed now =>
      let next := if db.existsByName name then .idle
        else proceedWith (.finding (.loaded role (.update (some name) description)))
          (role.update (some name) description now)
      some { store := db, place := next }
  | .finding origin role, .proceed _ =>
      let existing := (db.findRow role.id).map RoleRow.id
      some { store := db, place := .saving origin role existing }
  | .saving origin role existing, .proceed _ =>
      some (commitRole db origin role existing)
  | .deleting role, .proceed _ =>
      some { store := db.delete role, place := .idle, effects := [.deleted role.id] }
  | _, .abort => some { store := db, place := .idle }
  | _, _ => none

/-- The tables with their permissions, and no request under way. -/
def emptyRoles (permissions : PermissionTable) : Config RoleDb RolePlace :=
  ⟨{ permissions }, fun _ => .idle⟩

end Identity

end Workshop
