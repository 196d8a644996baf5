/-
Who may be given which role.  The requests that assign and revoke roles
interleave with those that create, change and delete them; the two names the
guard of an assignment asks for belong to system roles, which no request
renames or deletes and whose names no other row can take.
-/
import Workshop.Identity.AccessCache
import Workshop.Identity.RoleUpdates

namespace Workshop

namespace Identity

/-- The tables of authorisation.  `nextCall` numbers the assignments. -/
structure GrantDb where
  roleDb : RoleDb
  userRoles : List UserRoleRow := []
  nextCall : Nat := 0

/-- Where a request is between two statements. -/
inductive GrantPlace
  /-- A request that creates, changes or deletes a role, or none. -/
  | role (place : RolePlace)
  /-- `ADMIN` is to be assigned; the access of the actor is read next. -/
  | authorising (call : Nat) (userId : UserId) (roleId : RoleId)
      (actorUserId : UserId)
  | checkingUser (call : Nat) (userId : UserId) (roleId : RoleId)
  /-- The internal keys are read next. -/
  | resolving (call : Nat) (userId : UserId) (roleId : RoleId)
  | inserting (call : Nat) (userId : UserId) (key : Nat)
  | removing (userId : UserId) (key : Nat)

inductive GrantInput
  | role (input : RoleInput)
  | assignRoleToUser (userId : UserId) (role : RoleReference)
      (actorUserId : Option UserId)
  | revokeRoleFromUser (userId : UserId) (roleId : RoleId)
  /-- `GetUserEffectiveAccess` answers, from its cache or from the tables. -/
  | access (access : EffectiveAccess)
  /-- `GetUserById` answers. -/
  | user (found : Bool)
  | proceed
  | abort

inductive GrantEffect
  | role (effect : RoleEffect)
  | called (call : Nat) (userId : UserId) (role : RoleReference)
      (actorUserId : Option UserId)
  | accessRead (call : Nat) (actorUserId : UserId) (access : EffectiveAccess)
  | assigned (call : Nat) (userId : UserId) (key : Nat)
  | revoked (userId : UserId) (key : Nat)

abbrev GrantOutcome := Outcome GrantDb GrantPlace GrantEffect

namespace GrantDb

variable (db : GrantDb)

/-- `resolveRole` -/
def resolveRole : RoleReference → Option RoleRow
  | .id roleId => db.roleDb.findRow roleId
  | .name name => db.roleDb.roles.find? fun row => row.name = name

/-- `user_roles` refers to `roles`: the assignments of a row go with it. -/
def withRoles (roleDb : RoleDb) : GrantDb :=
  { db with
    roleDb
    userRoles := db.userRoles.filter fun link =>
      roleDb.roles.any fun row => row.id = link.roleId }

/-- The user is assigned a role of that name. -/
def HasRole (userId : UserId) (name : String) : Prop :=
  ∃ row ∈ db.roleDb.roles, row.name = name ∧ ⟨userId, row.id⟩ ∈ db.userRoles

end GrantDb

/-- A request that ended. -/
def idleGrant : GrantPlace := .role .idle

/-- `ensureAssignable` -/
def ensureAssignable (call : Nat) (userId : UserId) (actorUserId : Option UserId)
    (role : RoleRow) : GrantPlace :=
  if role.name = superAdmin then idleGrant
  else if role.name ≠ admin then .checkingUser call userId role.externalId
  else match actorUserId with
    | none => idleGrant
    | some actorUserId => .authorising call userId role.externalId actorUserId

/-- The insert of an assignment; one that is there is ignored, and the foreign
key refuses a role that is gone. -/
def insertAssignment (db : GrantDb) (call : Nat) (userId : UserId) (key : Nat) :
    GrantOutcome :=
  if db.roleDb.roles.any fun row => row.id = key then {
    store := { db with
      userRoles := if ⟨userId, key⟩ ∈ db.userRoles then db.userRoles
        else db.userRoles ++ [⟨userId, key⟩] }
    place := idleGrant
    effects := [.assigned call userId key] }
  else { store := db, place := idleGrant }

/-- One statement of a request. -/
def grantExec (db : GrantDb) : GrantPlace → GrantInput → Option GrantOutcome
  | .role place, .role input =>
      (roleExec db.roleDb place input).map fun out => {
        store := db.withRoles out.store
        place := .role out.place
        effects := out.effects.map GrantEffect.role }
  | .role .idle, .assignRoleToUser userId reference actorUserId =>
      let next := match db.resolveRole reference with
        | none => idleGrant
        | some role => ensureAssignable db.nextCall userId actorUserId role
      some {
        store := { db with nextCall := db.nextCall + 1 }
        place := next
        effects := [.called db.nextCall userId reference actorUserId] }
  | .authorising call userId roleId actorUserId, .access access =>
      some {
        store := db
        place := if superAdmin ∈ access.roles then .checkingUser call userId roleId
          else idleGrant
        effects := [.accessRead call actorUserId access] }
  | .checkingUser call userId roleId, .user found =>
      some {
        store := db
        place := if found then .resolving call userId roleId else idleGrant }
  | .resolving call userId roleId, .proceed =>
      let next := match db.roleDb.findRow roleId with
        | none => idleGrant
        | some row => .inserting call userId row.id
      some { store := db, place := next }
  | .inserting call userId key, .proceed =>
      some (insertAssignment db call userId key)
  | .role .idle, .revokeRoleFromUser userId roleId =>
      let next := match db.roleDb.findRow roleId with
        | none => idleGrant
        | some row => .removing userId row.id
      some { store := db, place := next }
  | .removing userId key, .proceed =>
      some {
        store := { db with
          userRoles := db.userRoles.filter fun link => link ≠ ⟨userId, key⟩ }
        place := idleGrant
        effects := [.revoked userId key] }
  | _, .abort => some { store := db, place := idleGrant }
  | _, _ => none

/-- `SYSTEM_ROLE_ROWS` -/
def systemRoleRows : List (String × String) :=
  [(superAdmin, "Access model owner"), (admin, "Full administrative access"),
    ("SERVICE_ADVISOR", "Workshop service advisor"),
    ("MECHANIC", "Workshop mechanic"), (customer, "Workshop customer")]

/-- The rows the migration inserts, in the order of their keys. -/
def systemRoles (now : Timestamp) : List RoleRow :=
  systemRoleRows.zipIdx.map fun row => {
    id := row.2, externalId := row.2, name := row.1.1
    description := some row.1.2, isSystem := true
    createdAt := now, updatedAt := now }

/-- The seeded roles, with any grants and any assignments, and no request under
way. -/
def seededGrants (permissions : PermissionTable) (links : List RolePermissionRow)
    (userRoles : List UserRoleRow) (now : Timestamp) : Config GrantDb GrantPlace :=
  ⟨{ roleDb := {
      roles := systemRoles now, rolePermissions := links, permissions
      nextId := systemRoleRows.length, nextKey := systemRoleRows.length }
     userRoles }, fun _ => idleGrant⟩

end Identity

end Workshop
