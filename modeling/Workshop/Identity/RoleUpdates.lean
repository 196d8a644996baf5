/-
Changes of a role.  Every save writes the row and the permissions of a copy
that was loaded in two reads; no change is lost in a run whose saves find the
role stored as it was loaded.
-/
import Workshop.Identity.RoleTables
import Mathlib.Data.Finset.Insert

namespace Workshop

namespace Identity

@[simp] def RoleEffect.id : RoleEffect → RoleId
  | .created id _ => id
  | .changed id _ => id
  | .deleted id => id

def RoleChange.apply (change : RoleChange) (role : StoredRole) : StoredRole :=
  match change with
  | .update name description =>
      { role with
        name := name.getD role.name
        description := description.getD role.description }
  | .setPermissions permissionIds => { role with permissionIds := permissionIds }

/-- What a request commits to a role that exists. -/
inductive RoleOperation
  | changed (change : RoleChange)
  | deleted
deriving DecidableEq

def RoleOperation.apply (operation : RoleOperation) (role : Option StoredRole) :
    Option StoredRole :=
  match operation with
  | .changed change => role.map change.apply
  | .deleted => none

/-- The operations on a role that were committed, in the order of their commits. -/
def roleOperations (id : RoleId) (log : List RoleEffect) : List RoleOperation :=
  log.filterMap fun
    | .changed id' change => if id' = id then some (.changed change) else none
    | .deleted id' => if id' = id then some .deleted else none
    | .created .. => none

/-- What a serial order of operations makes of a role. -/
def replayRole (role : Option StoredRole) (order : List RoleOperation) :
    Option StoredRole :=
  order.foldl (fun role operation => operation.apply role) role

/-- The permissions that the last `SetRolePermissions` of an order gives. -/
def lastPermissions (order : List RoleOperation) : Option (Finset PermissionId) :=
  order.foldl (fun last operation =>
    match operation with
    | .changed (.setPermissions permissionIds) => some permissionIds
    | _ => last) none

/-- The stored role is the one of a serial order of the committed operations; a
role that was deleted is gone, and the last set of permissions is the stored
one. -/
structure RolesKept (db : RoleDb) (log : List RoleEffect) : Prop where
  serial : ∀ id role, RoleEffect.created id role ∈ log →
    ∃ order : List RoleOperation, order.Perm (roleOperations id log) ∧
      db.roleOf id = replayRole (some role) order
  deleted : ∀ id, RoleEffect.deleted id ∈ log → db.roleOf id = none
  granted : ∀ id permissionIds,
    lastPermissions (roleOperations id log) = some permissionIds →
      ∀ role, db.roleOf id = some role → role.permissionIds = permissionIds

/-- A loaded copy that is saved, and not refused, is saved over the role it was loaded
as. -/
def savesAsLoaded (db : RoleDb) (place : RolePlace) (input : RoleInput) : Bool :=
  match place, input with
  | .saving (.loaded before _) role existing, .proceed _ =>
      match db.save role existing with
      | .error _ => true
      | .ok _ => db.roleOf before.id = some before.stored
  | _, _ => true

section Replays

variable {order : List RoleOperation} {role role' : StoredRole} {id : RoleId}
variable {log effects : List RoleEffect}

theorem replayRole_none : replayRole none order = none := by
  induction order with
  | nil => rfl
  | cons operation order ih =>
      cases operation with
      | changed change => exact ih
      | deleted => exact ih

/-- No order brings a deleted role back. -/
theorem replayRole_deleted (h : RoleOperation.deleted ∈ order) :
    ∀ role, replayRole role order = none := by
  induction order with
  | nil => exact absurd h List.not_mem_nil
  | cons operation order ih =>
      intro role
      rcases List.mem_cons.mp h with rfl | hrest
      · exact replayRole_none
      · exact ih hrest _

/-- A role has the permissions that were set last, or those it began with. -/
theorem replayRole_permissions (h : replayRole (some role) order = some role') :
    role'.permissionIds = (lastPermissions order).getD role.permissionIds := by
  suffices hgeneral : ∀ (role : StoredRole) (last : Option (Finset PermissionId))
      (first : Finset PermissionId), role.permissionIds = last.getD first →
      replayRole (some role) order = some role' →
      role'.permissionIds = (order.foldl (fun last operation =>
        match operation with
        | RoleOperation.changed (.setPermissions permissionIds) => some permissionIds
        | _ => last) last).getD first from
    hgeneral role none role.permissionIds rfl h
  clear h
  induction order with
  | nil =>
      intro role last first hlast h
      cases h
      exact hlast
  | cons operation order ih =>
      intro role last first hlast h
      cases operation with
      | changed change =>
          cases change with
          | update name description =>
              exact ih ((RoleChange.update name description).apply role) last first
                hlast h
          | setPermissions permissionIds =>
              exact ih _ (some permissionIds) first rfl h
      | deleted =>
          have hnone : replayRole none order = some role' := h
          rw [replayRole_none] at hnone
          cases hnone

theorem roleOperations_append : roleOperations id (log ++ effects) =
    roleOperations id log ++ roleOperations id effects :=
  List.filterMap_append

theorem roleOperations_eq_nil (h : ∀ effect ∈ log, effect.id ≠ id) :
    roleOperations id log = [] := by
  refine List.filterMap_eq_nil_iff.mpr fun effect heffect => ?_
  have hne := h effect heffect
  cases effect with
  | created id' role => rfl
  | changed id' change => exact if_neg hne
  | deleted id' => exact if_neg hne

end Replays

/-- The log holds the creation of the role. -/
def CreatedIn (log : List RoleEffect) (id : RoleId) : Prop :=
  ∃ role, RoleEffect.created id role ∈ log

/-- The copy that a request works on, once it has loaded the role. -/
def RolePlace.Carries (db : RoleDb) (before : Role) : RolePlace → Prop
  | .loading row _ => before = row.toDomain (db.permissionIdsOf row.id)
  | .checkingName role _ _ => before = role
  | _ => False

/-- What one statement of a request does. -/
inductive RoleMove (db : RoleDb) : RolePlace → RoleInput → RoleOutcome → Prop
  | rested (place : RolePlace) (input : RoleInput) (nextId : Uuid)
      (hle : db.nextId ≤ nextId) :
      RoleMove db place input { store := { db with nextId }, place := .idle }
  | made (input : RoleInput) (role : Role) (hid : role.id = db.nextId)
      (hknows : db.permissions.Knows role.permissionIds) :
      RoleMove db .idle input {
        store := { db with nextId := db.nextId + 1 }
        place := .finding .created role }
  | seeded (input : RoleInput) (role : Role) (db' : RoleDb)
      (hid : role.id = db.nextId)
      (hknows : db.permissions.Knows role.permissionIds)
      (hsave : { db with nextId := db.nextId + 1 }.save role none = .ok db') :
      RoleMove db .idle input {
        store := db', place := .idle, effects := [.created role.id role.stored] }
  | read (input : RoleInput) (row : RoleRow) (request : RoleRequest)
      (hrow : row ∈ db.roles) :
      RoleMove db .idle input { store := db, place := .loading row request }
  | checked (input : RoleInput) (row : RoleRow) (request : RoleRequest)
      (name : String) (description : Option (Option String)) :
      RoleMove db (.loading row request) input {
        store := db
        place := .checkingName (row.toDomain (db.permissionIdsOf row.id)) name
          description }
  | changed (input : RoleInput) (place : RolePlace) (before role : Role)
      (change : RoleChange) (hcarries : place.Carries db before)
      (hid : before.id = role.id) (hstored : role.stored = change.apply before.stored)
      (hknows : db.permissions.Knows before.permissionIds →
        db.permissions.Knows role.permissionIds)
      (hsystem : role.isSystem = before.isSystem)
      (hnamed : before.isSystem = true → role.name = before.name) :
      RoleMove db place input {
        store := db, place := .finding (.loaded before change) role }
  | removing (input : RoleInput) (row : RoleRow) (request : RoleRequest)
      (hmutable : row.isSystem = false) :
      RoleMove db (.loading row request) input {
        store := db, place := .deleting (row.toDomain (db.permissionIdsOf row.id)) }
  | found (input : RoleInput) (origin : RoleOrigin) (role : Role) :
      RoleMove db (.finding origin role) input {
        store := db, place := .saving origin role (db.keyOf role.id) }
  | saved (now : Timestamp) (origin : RoleOrigin) (role : Role)
      (existing : Option Nat) (db' : RoleDb) (hsave : db.save role existing = .ok db') :
      RoleMove db (.saving origin role existing) (.proceed now) {
        store := db', place := .idle, effects := [origin.effect role] }
  | deleted (input : RoleInput) (role : Role) :
      RoleMove db (.deleting role) input {
        store := db.delete role, place := .idle, effects := [.deleted role.id] }

section Moves

variable {db : RoleDb} {place : RolePlace} {input : RoleInput} {out : RoleOutcome}
variable {role role' : Role} {now : Timestamp}

theorem update_eq_ok {name : Option String} {description : Option (Option String)}
    (h : role.update name description now = .ok role') :
    role.id = role'.id ∧ role'.permissionIds = role.permissionIds ∧
      role'.stored = (RoleChange.update name description).apply role.stored ∧
      role'.isSystem = role.isSystem ∧
      (role.isSystem = true → role'.name = role.name) := by
  obtain ⟨renamed, hrenamed, h⟩ := bind_eq_ok_iff.mp h
  rw [pure_eq_ok_iff] at h
  subst h
  cases name with
  | none =>
      cases hrenamed
      exact ⟨rfl, rfl, rfl, rfl, fun _ => rfl⟩
  | some name =>
      simp only [Role.rename] at hrenamed
      split at hrenamed
      · rename_i hsame
        cases hrenamed
        subst hsame
        exact ⟨rfl, rfl, rfl, rfl, fun _ => rfl⟩
      · obtain ⟨_, hmutable, rfl⟩ := map_eq_ok_iff.mp hrenamed
        refine ⟨rfl, rfl, rfl, rfl, fun hsystem => ?_⟩
        rw [Role.ensureMutable, if_pos hsystem] at hmutable
        cases hmutable

theorem roleMove_of_update {name : Option String}
    {description : Option (Option String)} (hcarries : place.Carries db role) :
    RoleMove db place input {
      store := db
      place := proceedWith (.finding (.loaded role (.update name description)))
        (role.update name description now) } := by
  cases hupdate : role.update name description now with
  | error e => exact RoleMove.rested _ _ db.nextId (Nat.le_refl _)
  | ok role' =>
      obtain ⟨hid, hsame, hstored, hsystem, hnamed⟩ := update_eq_ok hupdate
      exact RoleMove.changed _ _ _ _ _ hcarries hid hstored
        (fun hknows => hsame ▸ hknows) hsystem hnamed

/-- What a request does with the role it loaded. -/
theorem roleMove_of_withRole {row : RoleRow} {request : RoleRequest} :
    RoleMove db (.loading row request) input {
      store := db
      place := withRole db (row.toDomain (db.permissionIdsOf row.id)) request now } := by
  have hrest : RoleMove db (.loading row request) input
      { store := db, place := .idle } :=
    RoleMove.rested _ _ db.nextId (Nat.le_refl _)
  cases request with
  | update name description =>
      cases name with
      | none =>
          simp only [withRole]
          refine roleMove_of_update ?_
          exact rfl
      | some name =>
          simp only [withRole]
          split
          · exact hrest
          · split
            · refine roleMove_of_update ?_
              exact rfl
            · exact RoleMove.checked _ _ _ _ _
  | setPermissions codes =>
      simp only [withRole]
      cases hcodes : db.permissions.resolveIdsByCodes codes with
      | error e => exact hrest
      | ok permissionIds =>
          exact RoleMove.changed _ _ _ _ _ rfl rfl rfl
            (fun _ => resolveIdsByCodes_knows hcodes) rfl fun _ => rfl
  | delete =>
      simp only [withRole]
      unfold Role.ensureDeletable Role.ensureMutable
      split
      · exact hrest
      · rename_i hmutable
        exact RoleMove.removing _ _ _ (Bool.eq_false_iff.mpr hmutable)

theorem roleMove_of_loadThen {id : RoleId} {request : RoleRequest} :
    RoleMove db .idle input { store := db, place := loadThen db id request } := by
  unfold loadThen
  cases hrow : db.findRow id with
  | none => exact RoleMove.rested _ _ db.nextId (Nat.le_refl _)
  | some row => exact RoleMove.read _ _ _ (findRow_eq_some hrow).1

theorem createRole_eq_ok {name : String} {description : Option String}
    {codes : List String} (h : createRole db name description codes now = .ok role) :
    role.id = db.nextId ∧ db.permissions.Knows role.permissionIds := by
  obtain ⟨_, -, h⟩ := bind_eq_ok_iff.mp h
  by_cases htaken : db.existsByName name = true
  · simp [htaken, bind_eq_ok_iff] at h
  · simp only [htaken, Bool.false_eq_true, if_false] at h
    obtain ⟨permissionIds, hcodes, h⟩ := bind_eq_ok_iff.mp h
    rw [pure_eq_ok_iff] at h
    subst h
    exact ⟨rfl, resolveIdsByCodes_knows hcodes⟩

theorem roleMove_of_exec (hexec : roleExec db place input = some out) :
    RoleMove db place input out := by
  unfold roleExec at hexec
  split at hexec
  case h_1 name description codes now =>
    cases hexec
    cases hcreate : createRole db name description codes now with
    | error e => exact RoleMove.rested _ _ (db.nextId + 1) (Nat.le_succ _)
    | ok role =>
        obtain ⟨hid, hknows⟩ := createRole_eq_ok hcreate
        exact RoleMove.made _ _ hid hknows
  case h_2 => cases hexec; exact roleMove_of_loadThen
  case h_3 => cases hexec; exact roleMove_of_loadThen
  case h_4 => cases hexec; exact roleMove_of_loadThen
  case h_5 name description codes now =>
    cases hexec
    unfold commitRole
    split
    · rename_i db' hsave
      exact RoleMove.seeded _ _ _ rfl (knows_withCodes codes) hsave
    · exact RoleMove.rested _ _ (db.nextId + 1) (Nat.le_succ _)
  case h_6 row request now =>
    cases hexec
    exact roleMove_of_withRole
  case h_7 role name description now =>
    cases hexec
    split
    · exact RoleMove.rested _ _ db.nextId (Nat.le_refl _)
    · exact roleMove_of_update rfl
  case h_8 origin role now =>
    cases hexec
    exact RoleMove.found _ _ _
  case h_9 origin role existing now =>
    cases hexec
    unfold commitRole
    split
    · rename_i db' hsave
      exact RoleMove.saved _ _ _ _ _ hsave
    · exact RoleMove.rested _ _ db.nextId (Nat.le_refl _)
  case h_10 role now =>
    cases hexec
    exact RoleMove.deleted _ _
  case h_11 =>
    cases hexec
    exact RoleMove.rested _ _ db.nextId (Nat.le_refl _)
  case h_12 => cases hexec

end Moves

/-- Where a copy comes from: a role that was never stored, or the stored one
with the change of its request. -/
def RoleOrigin.Holds (log : List RoleEffect) (db : RoleDb) (role : Role) :
    RoleOrigin → Prop
  | .created => role.id < db.nextId ∧ ∀ effect ∈ log, effect.id ≠ role.id
  | .loaded before change => CreatedIn log role.id ∧ before.id = role.id ∧
      role.stored = change.apply before.stored

/-- The internal key that a save found is that of the role, as long as it is
stored. -/
def RoleOrigin.Finds (db : RoleDb) (role : Role) (existing : Option Nat) :
    RoleOrigin → Prop
  | .created => existing = none
  | .loaded .. => db.keyOf role.id = none ∨ db.keyOf role.id = existing

/-- What is known of a role between two statements of a request. -/
def RolePlace.Holds (db : RoleDb) (log : List RoleEffect) : RolePlace → Prop
  | .idle => True
  | .loading row _ => CreatedIn log row.externalId
  | .checkingName role _ _ =>
      db.permissions.Knows role.permissionIds ∧ CreatedIn log role.id
  | .finding origin role =>
      db.permissions.Knows role.permissionIds ∧ origin.Holds log db role
  | .saving origin role existing =>
      db.permissions.Knows role.permissionIds ∧ origin.Holds log db role ∧
        origin.Finds db role existing
  | .deleting role => CreatedIn log role.id

/-- The id of a role that is yet to be stored. -/
def RolePlace.newId : RolePlace → Option RoleId
  | .finding .created role => some role.id
  | .saving .created role _ => some role.id
  | _ => none

/-- The roles after the committed operations, in the order of the commits. -/
structure RolesReplayed (db : RoleDb) (log : List RoleEffect) : Prop where
  keys : RoleKeys db
  known : ∀ id role, db.roleOf id = some role → CreatedIn log id
  heard : ∀ effect ∈ log, CreatedIn log effect.id ∧ effect.id < db.nextId
  replayed : ∀ id role, RoleEffect.created id role ∈ log →
    db.roleOf id = replayRole (some role) (roleOperations id log)

/-- What a statement leaves of the roles of others. -/
structure RoleStep (db : RoleDb) (log : List RoleEffect) (db' : RoleDb)
    (effects : List RoleEffect) : Prop where
  permissions : db'.permissions = db.permissions
  nextId : db.nextId ≤ db'.nextId
  keyOf : ∀ id, CreatedIn log id → db'.keyOf id = db.keyOf id ∨ db'.keyOf id = none
  heard : ∀ effect ∈ effects,
    CreatedIn log effect.id ∨ ∃ role, effect = .created effect.id role

section Replayed

variable {db db' : RoleDb} {log effects : List RoleEffect} {id : RoleId}
variable {role : Role} {place next : RolePlace} {input : RoleInput} {out : RoleOutcome}
variable {existing : Option Nat} {origin : RoleOrigin}

theorem CreatedIn.append (h : CreatedIn log id) : CreatedIn (log ++ effects) id := by
  obtain ⟨role, hrole⟩ := h
  exact ⟨role, List.mem_append_left _ hrole⟩

theorem roleOf_eq_none_iff : db.roleOf id = none ↔ db.keyOf id = none := by
  unfold RoleDb.roleOf RoleDb.keyOf
  rw [Option.map_eq_none_iff, Option.map_eq_none_iff]

/-- An id that the log does not name is that of no role. -/
theorem RolesReplayed.roleOf_eq_none (hinv : RolesReplayed db log)
    (hnew : ∀ effect ∈ log, effect.id ≠ id) : db.roleOf id = none := by
  cases hrole : db.roleOf id with
  | none => rfl
  | some role =>
      obtain ⟨first, hcreated⟩ := hinv.known id role hrole
      exact absurd rfl (hnew _ hcreated)

theorem RolesReplayed.nextId (hinv : RolesReplayed db log) {nextId : Uuid}
    (hle : db.nextId ≤ nextId) : RolesReplayed { db with nextId } log := by
  refine ⟨⟨hinv.keys.keys, hinv.keys.ids, hinv.keys.below⟩, hinv.known, ?_,
    hinv.replayed⟩
  intro effect heffect
  obtain ⟨hcreated, hlt⟩ := hinv.heard effect heffect
  exact ⟨hcreated, Nat.lt_of_lt_of_le hlt hle⟩

theorem replayRole_append {role : Option StoredRole} {order : List RoleOperation}
    {operation : RoleOperation} :
    replayRole role (order ++ [operation]) = operation.apply (replayRole role order) := by
  unfold replayRole
  rw [List.foldl_append]
  rfl

/-- The save of a new role starts its history. -/
theorem replayed_created (hinv : RolesReplayed db log) (hlt : role.id < db.nextId)
    (hnew : ∀ effect ∈ log, effect.id ≠ role.id)
    (hknows : db.permissions.Knows role.permissionIds)
    (hsave : db.save role none = .ok db') :
    RolesReplayed db' (log ++ [.created role.id role.stored]) := by
  have hown : WritesOwn db role none :=
    writesOwn_none hinv.keys (hinv.roleOf_eq_none hnew)
  have hrole : ∀ id, db'.roleOf id =
      if role.id = id then some role.stored else db.roleOf id :=
    fun id => roleOf_save hsave hown hknows
  have hlast : ∀ id, roleOperations id [RoleEffect.created role.id role.stored] = [] :=
    fun id => rfl
  constructor
  · exact roleKeys_save hinv.keys hsave hown nofun
  · intro id stored hstored
    rw [hrole] at hstored
    split at hstored
    · rename_i heq
      subst heq
      exact ⟨role.stored, List.mem_append_right _ List.mem_cons_self⟩
    · exact (hinv.known id stored hstored).append
  · intro effect heffect
    rw [(save_permissions hsave).2]
    rcases List.mem_append.mp heffect with hold | hadded
    · exact ⟨(hinv.heard effect hold).1.append, (hinv.heard effect hold).2⟩
    · rw [List.mem_singleton.mp hadded]
      exact ⟨⟨role.stored, List.mem_append_right _ List.mem_cons_self⟩, hlt⟩
  · intro id stored hcreated
    rw [roleOperations_append, hlast, List.append_nil, hrole]
    rcases List.mem_append.mp hcreated with hold | hadded
    · rw [if_neg (fun heq => hnew _ hold heq.symm)]
      exact hinv.replayed id stored hold
    · rw [List.mem_singleton, RoleEffect.created.injEq] at hadded
      obtain ⟨rfl, rfl⟩ := hadded
      rw [if_pos rfl, roleOperations_eq_nil hnew]
      rfl

/-- The save of a changed copy, over the role it was loaded as, continues the
history. -/
theorem replayed_changed (hinv : RolesReplayed db log) {before : StoredRole}
    {change : RoleChange} (hbefore : db.roleOf role.id = some before)
    (hstored : role.stored = change.apply before)
    (hkey : db.keyOf role.id = existing)
    (hknows : db.permissions.Knows role.permissionIds)
    (hsave : db.save role existing = .ok db') :
    RolesReplayed db' (log ++ [.changed role.id change]) := by
  obtain ⟨row, hrow, -⟩ := Option.map_eq_some_iff.mp hbefore
  have hsome : db.keyOf role.id = some row.id := by
    rw [RoleDb.keyOf, hrow, Option.map_some]
  rw [hsome] at hkey
  subst hkey
  have hown : WritesOwn db role (some row.id) := writesOwn_some hinv.keys hsome
  have hrole : ∀ id, db'.roleOf id =
      if role.id = id then some role.stored else db.roleOf id :=
    fun id => roleOf_save hsave hown hknows
  have hcreated : CreatedIn log role.id := hinv.known _ _ hbefore
  constructor
  · refine roleKeys_save hinv.keys hsave hown fun key hkey => ?_
    cases hkey
    exact hinv.keys.below row (findRow_eq_some hrow).1
  · intro id stored hid
    rw [hrole] at hid
    split at hid
    · rename_i heq
      subst heq
      exact hcreated.append
    · exact (hinv.known id stored hid).append
  · intro effect heffect
    rw [(save_permissions hsave).2]
    rcases List.mem_append.mp heffect with hold | hadded
    · exact ⟨(hinv.heard effect hold).1.append, (hinv.heard effect hold).2⟩
    · rw [List.mem_singleton.mp hadded]
      obtain ⟨first, hfirst⟩ := hcreated
      exact ⟨CreatedIn.append ⟨first, hfirst⟩, (hinv.heard _ hfirst).2⟩
  · intro id first hfirst
    have hold := hinv.replayed id first (by simpa using hfirst)
    rw [roleOperations_append, hrole]
    by_cases heq : role.id = id
    · subst heq
      have hlast : roleOperations role.id [RoleEffect.changed role.id change] =
          [.changed change] := by simp [roleOperations]
      rw [if_pos rfl, hlast, replayRole_append, ← hold, hbefore, hstored]
      rfl
    · have hlast : roleOperations id [RoleEffect.changed role.id change] = [] :=
        roleOperations_eq_nil (by simpa using heq)
      rw [if_neg heq, hlast, List.append_nil]
      exact hold

/-- A delete ends the history. -/
theorem replayed_deleted (hinv : RolesReplayed db log)
    (hcreated : CreatedIn log role.id) :
    RolesReplayed (db.delete role) (log ++ [.deleted role.id]) := by
  have hrole : ∀ id, (db.delete role).roleOf id =
      if role.id = id then none else db.roleOf id := fun id => roleOf_delete hinv.keys
  constructor
  · exact roleKeys_delete hinv.keys
  · intro id stored hid
    rw [hrole] at hid
    split at hid
    · cases hid
    · exact (hinv.known id stored hid).append
  · intro effect heffect
    rcases List.mem_append.mp heffect with hold | hadded
    · exact ⟨(hinv.heard effect hold).1.append, (hinv.heard effect hold).2⟩
    · rw [List.mem_singleton.mp hadded]
      obtain ⟨first, hfirst⟩ := hcreated
      exact ⟨CreatedIn.append ⟨first, hfirst⟩, (hinv.heard _ hfirst).2⟩
  · intro id first hfirst
    have hold := hinv.replayed id first (by simpa using hfirst)
    rw [roleOperations_append, hrole]
    by_cases heq : role.id = id
    · subst heq
      have hlast : roleOperations role.id [RoleEffect.deleted role.id] =
          [.deleted] := by simp [roleOperations]
      rw [if_pos rfl, hlast, replayRole_append]
      rfl
    · have hlast : roleOperations id [RoleEffect.deleted role.id] = [] :=
        roleOperations_eq_nil (by simpa using heq)
      rw [if_neg heq, hlast, List.append_nil]
      exact hold

/-- What a program knows survives the statements of the others. -/
theorem RolePlace.Holds.mono (hstep : RoleStep db log db' effects)
    (hothers : ∀ effect ∈ effects, place.newId ≠ some effect.id)
    (h : place.Holds db log) : place.Holds db' (log ++ effects) := by
  have hknows : ∀ {ids}, db.permissions.Knows ids → db'.permissions.Knows ids := by
    rw [hstep.permissions]
    exact id
  have horigin : ∀ {origin : RoleOrigin} {role : Role},
      (origin = .created → place.newId = some role.id) →
      origin.Holds log db role → origin.Holds (log ++ effects) db' role := by
    intro origin role hnew horigin
    cases origin with
    | created =>
        refine ⟨Nat.lt_of_lt_of_le horigin.1 hstep.nextId, fun effect heffect => ?_⟩
        rcases List.mem_append.mp heffect with hold | hadded
        · exact horigin.2 effect hold
        · rintro heq
          refine hothers effect hadded ?_
          rw [hnew rfl, heq]
    | loaded before change => exact ⟨horigin.1.append, horigin.2⟩
  cases place with
  | idle => trivial
  | loading row request => exact CreatedIn.append h
  | checkingName role name description => exact ⟨hknows h.1, h.2.append⟩
  | finding origin role =>
      refine ⟨hknows h.1, horigin ?_ h.2⟩
      rintro rfl
      rfl
  | saving origin role existing =>
      refine ⟨hknows h.1, horigin ?_ h.2.1, ?_⟩
      · rintro rfl
        rfl
      · cases origin with
        | created => exact h.2.2
        | loaded before change =>
            rcases hstep.keyOf role.id h.2.1.1 with hsame | hgone
            · rw [RoleOrigin.Finds, hsame]
              exact h.2.2
            · exact Or.inl hgone
  | deleting role => exact CreatedIn.append h

/-- A statement keeps the history and what its own program knows. -/
theorem replayed_step (hinv : RolesReplayed db log) (hplace : place.Holds db log)
    (hallowed : savesAsLoaded db place input = true) (h : RoleMove db place input out) :
    RolesReplayed out.store (log ++ out.effects) ∧
      out.place.Holds out.store (log ++ out.effects) ∧
      RoleStep db log out.store out.effects := by
  have hsame : ∀ {nextId}, db.nextId ≤ nextId →
      RolesReplayed { db with nextId } (log ++ []) ∧
        RoleStep db log { db with nextId } [] := by
    intro nextId hle
    rw [List.append_nil]
    exact ⟨hinv.nextId hle, rfl, hle, fun _ _ => Or.inl rfl,
      fun _ heffect => absurd heffect List.not_mem_nil⟩
  have hstay := hsame (Nat.le_refl db.nextId)
  cases h with
  | rested _ _ nextId hle => exact ⟨(hsame hle).1, trivial, (hsame hle).2⟩
  | made _ role hid hknows =>
      obtain ⟨hkept, hquiet⟩ := hsame (Nat.le_succ db.nextId)
      refine ⟨hkept, ⟨hknows, ?_, fun effect heffect => ?_⟩, hquiet⟩
      · rw [hid]
        exact Nat.lt_succ_self _
      · rw [List.append_nil] at heffect
        rw [hid]
        exact Nat.ne_of_lt (hinv.heard effect heffect).2
  | seeded _ role db' hid hknows hsave =>
      have hnew : ∀ effect ∈ log, effect.id ≠ role.id := by
        intro effect heffect
        rw [hid]
        exact Nat.ne_of_lt (hinv.heard effect heffect).2
      have hdrawn := hinv.nextId (Nat.le_succ db.nextId)
      have hlt : role.id < db.nextId + 1 := by
        rw [hid]
        exact Nat.lt_succ_self _
      obtain ⟨hpermissions, hnextId⟩ := save_permissions hsave
      refine ⟨replayed_created hdrawn hlt hnew hknows hsave, trivial, hpermissions, ?_,
        fun id hcreated => ?_, ?_⟩
      · rw [hnextId]
        exact Nat.le_succ _
      · obtain ⟨first, hfirst⟩ := hcreated
        left
        rw [keyOf_save hsave (writesOwn_none hdrawn.keys (hdrawn.roleOf_eq_none hnew)),
          if_neg fun heq => hnew _ hfirst heq.symm]
        rfl
      · intro effect heffect
        rw [List.mem_singleton.mp heffect]
        exact Or.inr ⟨role.stored, rfl⟩
  | read _ row request hrow =>
      refine ⟨hstay.1, ?_, hstay.2⟩
      refine CreatedIn.append (hinv.known _ (db.storedRow row) ?_)
      rw [RoleDb.roleOf, hinv.keys.findRow_of_mem hrow, Option.map_some]
  | checked _ row request name description =>
      exact ⟨hstay.1, ⟨knows_permissionIdsOf, CreatedIn.append hplace⟩, hstay.2⟩
  | changed _ _ before role change hcarries hid hstored hknows _ _ =>
      have hbefore : db.permissions.Knows before.permissionIds ∧
          CreatedIn log before.id := by
        cases place with
        | loading row request =>
            cases hcarries
            exact ⟨knows_permissionIdsOf, hplace⟩
        | checkingName role name description =>
            cases hcarries
            exact hplace
        | _ => cases hcarries
      refine ⟨hstay.1, ⟨hknows hbefore.1, ?_, hid, hstored⟩, hstay.2⟩
      rw [← hid]
      exact hbefore.2.append
  | removing _ row request _ => exact ⟨hstay.1, CreatedIn.append hplace, hstay.2⟩
  | found _ origin role =>
      refine ⟨hstay.1, ⟨hplace.1, ?_, ?_⟩, hstay.2⟩
      · rw [List.append_nil]
        exact hplace.2
      · cases origin with
        | created => exact roleOf_eq_none_iff.mp (hinv.roleOf_eq_none hplace.2.2)
        | loaded before change => exact Or.inr rfl
  | saved now origin role existing db' hsave =>
      obtain ⟨hpermissions, hnextId⟩ := save_permissions hsave
      obtain ⟨hknows, horigin, hfinds⟩ := hplace
      cases origin with
      | created =>
          cases hfinds
          have hnone := hinv.roleOf_eq_none horigin.2
          refine ⟨replayed_created hinv horigin.1 horigin.2 hknows hsave, trivial,
            hpermissions, hnextId.ge, fun id hcreated => ?_, ?_⟩
          · obtain ⟨first, hfirst⟩ := hcreated
            left
            rw [keyOf_save hsave (writesOwn_none hinv.keys hnone),
              if_neg fun heq => horigin.2 _ hfirst heq.symm]
          · intro effect heffect
            rw [List.mem_singleton.mp heffect]
            exact Or.inr ⟨role.stored, rfl⟩
      | loaded before change =>
          obtain ⟨hcreated, hid, hstored⟩ := horigin
          have hbefore : db.roleOf before.id = some before.stored := by
            simp only [savesAsLoaded, hsave] at hallowed
            exact of_decide_eq_true hallowed
          rw [hid] at hbefore
          have hsome : db.keyOf role.id ≠ none := by
            rw [Ne, ← roleOf_eq_none_iff, hbefore]
            exact Option.some_ne_none _
          have hkey : db.keyOf role.id = existing := hfinds.resolve_left hsome
          refine ⟨replayed_changed hinv hbefore hstored hkey hknows hsave, trivial,
            hpermissions, hnextId.ge, fun id _ => ?_, ?_⟩
          · left
            obtain ⟨key, hsomekey⟩ := Option.ne_none_iff_exists'.mp hsome
            rw [hsomekey] at hkey
            subst hkey
            rw [keyOf_save hsave (writesOwn_some hinv.keys hsomekey)]
            split
            · rename_i heq
              rw [← heq, hsomekey]
              rfl
            · rfl
          · intro effect heffect
            rw [List.mem_singleton.mp heffect]
            exact Or.inl hcreated
  | deleted _ role =>
      refine ⟨replayed_deleted hinv hplace, trivial, rfl, Nat.le_refl _,
        fun id _ => ?_, ?_⟩
      · rw [RoleDb.keyOf, findRow_delete]
        split
        · exact Or.inr rfl
        · exact Or.inl rfl
      · intro effect heffect
        rw [List.mem_singleton.mp heffect]
        exact Or.inl hplace

/-- The id of a role that is yet to be stored is drawn anew. -/
theorem newId_of_move (h : RoleMove db place input out) :
    db.nextId ≤ out.store.nextId ∧ ∀ id, out.place.newId = some id →
      place.newId = some id ∨ id = db.nextId ∧ id < out.store.nextId := by
  cases h with
  | rested _ _ nextId hle => exact ⟨hle, nofun⟩
  | made _ role hid hknows =>
      refine ⟨Nat.le_succ _, fun id heq => Or.inr ?_⟩
      cases heq
      rw [hid]
      exact ⟨rfl, Nat.lt_succ_self _⟩
  | seeded _ role db' hid hknows hsave =>
      rw [(save_permissions hsave).2]
      exact ⟨Nat.le_succ _, nofun⟩
  | found _ origin role =>
      refine ⟨Nat.le_refl _, fun id heq => Or.inl ?_⟩
      cases origin with
      | created => exact heq
      | loaded before change => cases heq
  | saved now origin role existing db' hsave =>
      exact ⟨(save_permissions hsave).2.ge, nofun⟩
  | _ => exact ⟨Nat.le_refl _, nofun⟩

variable {permissions : PermissionTable} {config : Config RoleDb RolePlace}
variable {allowed : RoleDb → RolePlace → RoleInput → Prop}

theorem newId_below
    (h : ReachesBy roleExec allowed (emptyRoles permissions) config log) (pid : Nat) :
    ∀ id, (config.places pid).newId = some id → id < config.store.nextId := by
  refine (ReachesBy.invariant_of_places (G := fun _ _ => True)
    (L := fun db _ place => ∀ id, place.newId = some id → id < db.nextId) trivial
    (fun _ => nofun) ?_ ?_ h).2 pid
  · intro config log pid input out before _ hbelow _ hexec
    refine ⟨trivial, fun id hid => ?_⟩
    obtain ⟨hle, hdrawn⟩ := newId_of_move (roleMove_of_exec hexec)
    rcases hdrawn id hid with hold | ⟨-, hlt⟩
    · exact Nat.lt_of_lt_of_le (hbelow pid id hold) hle
    · exact hlt
  · intro config log pid input out before _ hbelow _ hexec other _ id hid
    exact Nat.lt_of_lt_of_le (hbelow other id hid)
      (newId_of_move (roleMove_of_exec hexec)).1

/-- No two programs are about to store roles under one id. -/
theorem newId_distinct
    (h : ReachesBy roleExec allowed (emptyRoles permissions) config log) :
    ∀ pid other, other ≠ pid → ∀ id, (config.places pid).newId = some id →
      (config.places other).newId ≠ some id := by
  refine ReachesBy.invariant_of_pairs
    (D := fun place other => ∀ id, place.newId = some id → other.newId ≠ some id)
    ?_ (fun _ _ => nofun) ?_ h
  · intro place other hne id hother hplace
    exact hne id hplace hother
  · intro config log pid input out before hexec other _ hne id hid hother
    rcases (newId_of_move (roleMove_of_exec hexec)).2 id hid with hold | ⟨hnext, -⟩
    · exact hne id hold hother
    · have hlt := newId_below before other id hother
      rw [hnext] at hlt
      exact Nat.lt_irrefl _ hlt

/-- What a statement commits is about no role that another program is yet to
store. -/
theorem effect_not_new
    (before : ReachesBy roleExec allowed (emptyRoles permissions) config log)
    {pid other : Nat} (hne : other ≠ pid)
    (h : RoleMove config.store (config.places pid) input out)
    (hplaces : ∀ pid, (config.places pid).Holds config.store log) :
    ∀ effect ∈ out.effects, (config.places other).newId ≠ some effect.id := by
  have hheard : ∀ {id}, CreatedIn log id → (config.places other).newId ≠ some id := by
    rintro id ⟨role, hcreated⟩ hnew
    have hholds := hplaces other
    generalize config.places other = place at hholds hnew
    cases place with
    | finding origin role =>
        cases origin with
        | created =>
            cases hnew
            exact hholds.2.2 _ hcreated rfl
        | loaded => cases hnew
    | saving origin role existing =>
        cases origin with
        | created =>
            cases hnew
            exact hholds.2.1.2 _ hcreated rfl
        | loaded => cases hnew
    | _ => cases hnew
  intro effect heffect
  have hholds := hplaces pid
  have hdistinct := newId_distinct before pid other hne
  generalize config.places pid = place at h hholds hdistinct
  cases h with
  | seeded _ role db' hid hknows hsave =>
      rw [List.mem_singleton.mp heffect]
      intro hnew
      have hlt := newId_below before other role.id hnew
      rw [hid] at hlt
      exact Nat.lt_irrefl _ hlt
  | saved now origin role existing db' hsave =>
      rw [List.mem_singleton.mp heffect]
      cases origin with
      | created => exact hdistinct role.id rfl
      | loaded before change => exact hheard hholds.2.1.1
  | deleted _ role =>
      rw [List.mem_singleton.mp heffect]
      exact hheard hholds
  | _ => exact absurd heffect List.not_mem_nil

theorem rolesReplayed_of_reaches
    (h : ReachesBy roleExec (fun db place input => savesAsLoaded db place input = true)
      (emptyRoles permissions) config log) :
    RolesReplayed config.store log := by
  refine (ReachesBy.invariant_of_places (G := RolesReplayed)
    (L := fun db log place => place.Holds db log) ?_ ?_ ?_ ?_ h).1
  · constructor
    · exact ⟨List.nodup_nil, List.nodup_nil, nofun⟩
    · exact fun _ _ => nofun
    · exact nofun
    · exact fun _ _ => nofun
  · exact fun _ => trivial
  · intro config log pid input out before hinv hplaces hallowed hexec
    obtain ⟨hkept, hholds, -⟩ :=
      replayed_step hinv (hplaces pid) hallowed (roleMove_of_exec hexec)
    exact ⟨hkept, hholds⟩
  · intro config log pid input out before hinv hplaces hallowed hexec other hne
    have hmove := roleMove_of_exec hexec
    obtain ⟨-, -, hstep⟩ := replayed_step hinv (hplaces pid) hallowed hmove
    exact (hplaces other).mono hstep (effect_not_new before hne hmove hplaces)

/-- No change of a role is lost in a run whose copies are saved over the role
they were loaded as. -/
theorem roles_kept
    (h : ReachesBy roleExec (fun db place input => savesAsLoaded db place input = true)
      (emptyRoles permissions) config log) :
    RolesKept config.store log := by
  have hinv := rolesReplayed_of_reaches h
  constructor
  · intro id role hcreated
    exact ⟨roleOperations id log, List.Perm.refl _, hinv.replayed id role hcreated⟩
  · intro id hdeleted
    obtain ⟨role, hcreated⟩ := (hinv.heard _ hdeleted).1
    rw [RoleEffect.id] at hcreated
    rw [hinv.replayed id role hcreated]
    refine replayRole_deleted (List.mem_filterMap.mpr ⟨_, hdeleted, ?_⟩) _
    exact if_pos rfl
  · intro id permissionIds hlast role hrole
    obtain ⟨first, hcreated⟩ := hinv.known id role hrole
    rw [hinv.replayed id first hcreated] at hrole
    rw [replayRole_permissions hrole, hlast, Option.getD_some]

end Replayed

namespace RoleWitness

/-- Two permissions. -/
def permissions : PermissionTable where
  rows := [⟨1, 101, "users:read"⟩, ⟨2, 102, "users:manage"⟩]
  ids := by decide
  externalIds := by decide
  codes := by decide

/-- Role 0 is created with both permissions. -/
def created : List (Nat × RoleInput) :=
  [(0, .createRole "FRONT_DESK" none ["users:read", "users:manage"] 1),
    (0, .proceed 1), (0, .proceed 1)]

/-- A permission is taken away, then the role is described. -/
def oneAfterAnother : Config RoleDb RolePlace × List RoleEffect :=
  endOfRun roleExec (emptyRoles permissions)
    (created ++ [(1, .setRolePermissions 0 ["users:read"]), (1, .proceed 2),
      (1, .proceed 2), (1, .proceed 2),
      (2, .updateRole 0 none (some (some "At the counter"))), (2, .proceed 3),
      (2, .proceed 3), (2, .proceed 3)])
    (by decide +kernel)

theorem roles_kept_oneAfterAnother :
    RolesKept oneAfterAnother.1.store oneAfterAnother.2 :=
  roles_kept (reachesBy_endOfRun savesAsLoaded id (by decide +kernel) _)

/-- The update loads the role before the permission is taken away, and saves
after it: the permission is back. -/
def givenBack : Config RoleDb RolePlace × List RoleEffect :=
  endOfRun roleExec (emptyRoles permissions)
    (created ++ [(2, .updateRole 0 none (some (some "At the counter"))),
      (2, .proceed 2), (1, .setRolePermissions 0 ["users:read"]), (1, .proceed 3),
      (1, .proceed 3), (1, .proceed 3), (2, .proceed 4), (2, .proceed 4)])
    (by decide +kernel)

theorem reaches_givenBack :
    Reaches roleExec (emptyRoles permissions) givenBack.1 givenBack.2 :=
  reaches_endOfRun _

theorem roles_not_always_kept :
    ¬ ∀ permissions config log,
      Reaches roleExec (emptyRoles permissions) config log →
        RolesKept config.store log := by
  intro hall
  have hkept := hall permissions givenBack.1 givenBack.2 reaches_givenBack
  have hlast : lastPermissions (roleOperations 0 givenBack.2) = some {101} := by
    decide +kernel
  have hstored : (givenBack.1.store.roleOf 0).map StoredRole.permissionIds =
      some {101, 102} := by
    decide +kernel
  obtain ⟨role, hrole, hboth⟩ := Option.map_eq_some_iff.mp hstored
  have honly := hkept.granted 0 {101} hlast role hrole
  rw [honly] at hboth
  exact absurd hboth (by decide)

end RoleWitness

end Identity

end Workshop
