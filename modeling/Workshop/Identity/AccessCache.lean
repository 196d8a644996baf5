/-
The access of a user and its cache.  A call that misses the cache reads the
tables and stores what it read; a change of the roles of a user starts an
invalidation that nobody waits for.  The roles themselves stand still.
-/
import Workshop.Identity.Roles
import Mathlib.Data.Finset.Insert

namespace Workshop

namespace Identity

def superAdmin : String := "SUPER_ADMIN"
def admin : String := "ADMIN"
def customer : String := "CUSTOMER"

/-- The names of the roles and the codes of the permissions of a user.  The
statement that reads them lists each once. -/
structure EffectiveAccess where
  roles : Finset String
  permissions : Finset String
deriving DecidableEq

/-- A row of `user_roles`. -/
structure UserRoleRow where
  userId : UserId
  roleId : Nat
deriving DecidableEq, Repr

/-- An invalidation that a publication started, with the change that caused
it. -/
structure Invalidation where
  change : Nat
  userId : UserId
deriving DecidableEq, Repr

structure AccessDb where
  roleDb : RoleDb
  users : List UserId := []
  userRoles : List UserRoleRow := []
  cache : UserId → Option EffectiveAccess := fun _ => none
  /-- The invalidations that were started and have not run. -/
  started : List Invalidation := []
  /-- The changes and the calls are numbered. -/
  nextChange : Nat := 0
  nextCall : Nat := 0

namespace AccessDb

variable (db : AccessDb)

def roleIdsOf (userId : UserId) : List Nat :=
  (db.userRoles.filter fun row => row.userId = userId && db.users.contains userId).map
    UserRoleRow.roleId

/-- `EFFECTIVE_ACCESS_SQL`. -/
def read (userId : UserId) : EffectiveAccess where
  roles := ((db.roleDb.roles.filter fun role =>
    role.id ∈ db.roleIdsOf userId).map RoleRow.name).toFinset
  permissions := ((db.roleDb.permissions.rows.filter fun permission =>
    db.roleDb.rolePermissions.any fun link =>
      decide (link.roleId ∈ db.roleIdsOf userId) && link.permissionId = permission.id).map
    PermissionRow.code).toFinset

def findByName (name : String) : Option RoleRow :=
  db.roleDb.roles.find? fun row => row.name = name

/-- The insert of an assignment; one that is there is ignored. -/
def assign (userId : UserId) (roleId : Nat) : AccessDb :=
  if ⟨userId, roleId⟩ ∈ db.userRoles then db
  else { db with userRoles := db.userRoles ++ [⟨userId, roleId⟩] }

def remove (userId : UserId) (roleId : Nat) : AccessDb :=
  { db with userRoles := db.userRoles.filter fun row => row ≠ ⟨userId, roleId⟩ }

def setCache (userId : UserId) (access : Option EffectiveAccess) : AccessDb :=
  { db with cache := Function.update db.cache userId access }

end AccessDb

inductive RoleReference
  | id (roleId : RoleId)
  | name (name : String)
deriving DecidableEq, Repr

/-- What a call of `getEffectiveAccess` is for. -/
inductive Purpose
  | answer
  /-- An assignment of `ADMIN` that its actor has to be allowed. -/
  | authorise (userId : UserId) (roleId : Nat)
deriving DecidableEq, Repr

/-- Where a request is between two statements. -/
inductive AccessPlace
  | idle
  | asking (userId : UserId) (purpose : Purpose)
  /-- The cache held nothing. -/
  | missed (call : Nat) (userId : UserId) (purpose : Purpose)
  /-- The tables are read, and the cache is to hold what they said. -/
  | caching (call : Nat) (userId : UserId) (access : EffectiveAccess)
      (purpose : Purpose)
  | checkingUser (userId : UserId) (roleId : Nat)
  | assigning (userId : UserId) (roleId : Nat)
  | removing (userId : UserId) (roleId : Nat)
  /-- The change is committed and its event is to be published. -/
  | publishing (change : Nat) (userId : UserId)
  /-- The transaction of a registration has written its rows. -/
  | registering (userId : UserId) (roleId : Nat)
  /-- It has published the event and is to commit. -/
  | committing (change : Nat) (userId : UserId) (roleId : Nat)
deriving DecidableEq

inductive AccessInput
  | getEffectiveAccess (userId : UserId)
  | assignRoleToUser (userId : UserId) (role : RoleReference)
      (actorUserId : Option UserId)
  | revokeRoleFromUser (userId : UserId) (roleId : RoleId)
  | registerUser (userId : UserId)
  /-- A started invalidation runs. -/
  | invalidate (invalidation : Invalidation)
  /-- A started invalidation fails, which is logged only. -/
  | loseInvalidation (invalidation : Invalidation)
  /-- The time to live of an entry ends. -/
  | expire (userId : UserId)
  | proceed
  /-- The request fails or its process dies. -/
  | abort
deriving DecidableEq, Repr

inductive AccessEvent
  | called (call : Nat) (userId : UserId)
  | answered (call : Nat) (userId : UserId) (access : EffectiveAccess)
  /-- A change of the roles of a user committed and left it this access. -/
  | changed (change : Nat) (userId : UserId) (access : EffectiveAccess)
  | invalidated (change : Nat) (userId : UserId)
deriving DecidableEq

abbrev AccessOutcome := Outcome AccessDb AccessPlace AccessEvent

/-- Goes on with the access that a call answered. -/
def afterAccess (access : EffectiveAccess) : Purpose → AccessPlace
  | .answer => .idle
  | .authorise userId roleId =>
      if superAdmin ∈ access.roles then .checkingUser userId roleId else .idle

/-- The read of the cache that a call begins with. -/
def getEffectiveAccess (db : AccessDb) (userId : UserId) (purpose : Purpose) :
    AccessOutcome :=
  let store := { db with nextCall := db.nextCall + 1 }
  match db.cache userId with
  | some access => {
      store, place := afterAccess access purpose
      effects := [.called db.nextCall userId, .answered db.nextCall userId access] }
  | none => {
      store, place := .missed db.nextCall userId purpose
      effects := [.called db.nextCall userId] }

def resolveRole (db : AccessDb) : RoleReference → Option RoleRow
  | .id roleId => db.roleDb.findRow roleId
  | .name name => db.findByName name

/-- `AssignRoleToUser`, up to `ensureAssignable`. -/
def assignRoleToUser (db : AccessDb) (userId : UserId) (reference : RoleReference)
    (actorUserId : Option UserId) : AccessPlace :=
  match resolveRole db reference with
  | none => .idle
  | some role =>
      if role.name = superAdmin then .idle
      else if role.name ≠ admin then .checkingUser userId role.id
      else match actorUserId with
        | none => .idle
        | some actorUserId => .asking actorUserId (.authorise userId role.id)

/-- The rows of a change commit, and the request goes on to `next`. -/
def commitChange (db : AccessDb) (change : Nat) (userId : UserId)
    (next : AccessPlace) : AccessOutcome where
  store := db
  place := next
  effects := [.changed change userId (db.read userId)]

/-- One statement of a request. -/
def accessExec (db : AccessDb) (place : AccessPlace) (input : AccessInput) :
    Option AccessOutcome :=
  match place, input with
  | .idle, .getEffectiveAccess userId => some (getEffectiveAccess db userId .answer)
  | .idle, .assignRoleToUser userId role actorUserId =>
      some { store := db, place := assignRoleToUser db userId role actorUserId }
  | .idle, .revokeRoleFromUser userId roleId =>
      let next := match db.roleDb.findRow roleId with
        | some role => if userId ∈ db.users then .removing userId role.id else .idle
        | none => .idle
      some { store := db, place := next }
  | .idle, .registerUser userId =>
      let next := match db.findByName customer with
        | some role => if userId ∈ db.users then .idle else .registering userId role.id
        | none => .idle
      some { store := db, place := next }
  | .idle, .invalidate invalidation =>
      if invalidation ∈ db.started then
        some {
          store := { db.setCache invalidation.userId none with
            started := db.started.erase invalidation }
          place := .idle
          effects := [.invalidated invalidation.change invalidation.userId] }
      else none
  | .idle, .loseInvalidation invalidation =>
      some {
        store := { db with started := db.started.erase invalidation }
        place := .idle }
  | .idle, .expire userId => some { store := db.setCache userId none, place := .idle }
  | .asking userId purpose, .proceed => some (getEffectiveAccess db userId purpose)
  | .missed call userId purpose, .proceed =>
      some { store := db, place := .caching call userId (db.read userId) purpose }
  | .caching call userId access purpose, .proceed =>
      some {
        store := db.setCache userId (some access)
        place := afterAccess access purpose
        effects := [.answered call userId access] }
  | .checkingUser userId roleId, .proceed =>
      some {
        store := db
        place := if userId ∈ db.users then .assigning userId roleId else .idle }
  | .assigning userId roleId, .proceed =>
      some (commitChange
        { db.assign userId roleId with nextChange := db.nextChange + 1 } db.nextChange
        userId (.publishing db.nextChange userId))
  | .removing userId roleId, .proceed =>
      if ⟨userId, roleId⟩ ∈ db.userRoles then
        some (commitChange
          { db.remove userId roleId with nextChange := db.nextChange + 1 } db.nextChange
          userId (.publishing db.nextChange userId))
      else some { store := db, place := .idle }
  | .publishing change userId, .proceed =>
      some {
        store := { db with started := db.started ++ [⟨change, userId⟩] }
        place := .idle }
  | .registering userId roleId, .proceed =>
      some {
        store := { db with
          started := db.started ++ [⟨db.nextChange, userId⟩]
          nextChange := db.nextChange + 1 }
        place := .committing db.nextChange userId roleId }
  | .committing change userId roleId, .proceed =>
      -- of two registrations of one id the primary key lets one commit
      if userId ∈ db.users then some { store := db, place := .idle }
      else some (commitChange
        ({ db with users := db.users ++ [userId] }.assign userId roleId) change userId
        .idle)
  | _, .abort => some { store := db, place := .idle }
  | _, _ => none

/-- The tables with their roles, an empty cache and no request under way. -/
def emptyAccess (roleDb : RoleDb) : Config AccessDb AccessPlace :=
  ⟨{ roleDb }, fun _ => .idle⟩

end Identity

end Workshop
