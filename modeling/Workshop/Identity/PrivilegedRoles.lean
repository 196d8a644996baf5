/-
Nobody gains a privileged role by the way roles are changed.  A seeded system
role keeps its row, its keys and its name in every run, so that the name the
guard of an assignment compares is that of the role it then assigns.
-/
import Workshop.Identity.RoleGrants

namespace Workshop

namespace Identity

/-- A system role and its keys. -/
structure SystemRow where
  key : Nat
  id : RoleId
  name : String

/-- The row is that of the system role. -/
structure SystemRow.Is (role : SystemRow) (row : RoleRow) : Prop where
  key : row.id = role.key
  id : row.externalId = role.id
  name : row.name = role.name
  system : row.isSystem = true

/-- The system role has its row, and no other row has one of its keys or its
name. -/
structure SystemRow.Kept (role : SystemRow) (db : RoleDb) : Prop where
  present : ∃ row ∈ db.roles, role.Is row
  only : ∀ row ∈ db.roles,
    row.id = role.key ∨ row.externalId = role.id ∨ row.name = role.name → role.Is row
  keyBelow : role.key < db.nextKey
  idBelow : role.id < db.nextId

/-- A copy of the system role has its name. -/
def SystemRow.Copied (role : SystemRow) (copy : Role) : Prop :=
  copy.id = role.id → copy.name = role.name ∧ copy.isSystem = true

/-- What a request that changes roles knows of the system role. -/
def SystemRow.Respected (role : SystemRow) : RolePlace → Prop
  | .idle => True
  | .loading row _ =>
      row.externalId = role.id → row.name = role.name ∧ row.isSystem = true
  | .checkingName copy _ _ => role.Copied copy
  | .finding _ copy => role.Copied copy
  | .saving _ copy existing =>
      role.Copied copy ∧ (existing = some role.key ↔ copy.id = role.id)
  | .deleting copy => copy.id ≠ role.id

section Roles

variable {role : SystemRow} {db db' : RoleDb} {copy : Role} {existing : Option Nat}
variable {place : RolePlace} {input : RoleInput} {out : RoleOutcome}

/-- The row of the system role is found under its id. -/
theorem SystemRow.Kept.findRow (hkept : role.Kept db) :
    ∃ row, db.findRow role.id = some row ∧ role.Is row := by
  obtain ⟨stored, hstored, his⟩ := hkept.present
  cases hfind : db.findRow role.id with
  | none =>
      exact absurd (decide_eq_true his.id) (List.find?_eq_none.mp hfind stored hstored)
  | some row =>
      obtain ⟨hrow, hid⟩ := findRow_eq_some hfind
      exact ⟨row, rfl, hkept.only row hrow (Or.inr (Or.inl hid))⟩

/-- Only the id of the system role leads to its key. -/
theorem SystemRow.Kept.keyOf_iff (hkept : role.Kept db) {id : RoleId} :
    db.keyOf id = some role.key ↔ id = role.id := by
  constructor
  · intro h
    obtain ⟨row, hfind, hkey⟩ := Option.map_eq_some_iff.mp h
    obtain ⟨hrow, hid⟩ := findRow_eq_some hfind
    exact hid.symm.trans (hkept.only row hrow (Or.inl hkey)).id
  · rintro rfl
    obtain ⟨row, hfind, his⟩ := hkept.findRow
    rw [RoleDb.keyOf, hfind, Option.map_some, his.key]

/-- A save of the system role writes its row as it is, and a save of another
role writes another row. -/
theorem SystemRow.Kept.of_save (hkept : role.Kept db) (hcopied : role.Copied copy)
    (hkey : existing = some role.key ↔ copy.id = role.id)
    (hsave : db.save copy existing = .ok db') : role.Kept db' := by
  obtain ⟨hfree, rfl⟩ := save_eq_ok hsave
  have hnextKey : db.nextKey ≤ if existing.isSome then db.nextKey
      else db.nextKey + 1 := by
    split <;> omega
  have hbelow := hkept.keyBelow
  by_cases hown : copy.id = role.id
  · obtain rfl := hkey.mpr hown
    obtain ⟨hname, hsystem⟩ := hcopied hown
    have his : role.Is (copy.toRow role.key) := ⟨rfl, hown, hname, hsystem⟩
    refine ⟨⟨_, mem_upsert.mpr (Or.inl rfl), his⟩, ?_, hbelow.trans_le hnextKey,
      hkept.idBelow⟩
    intro row hrow hone
    rcases mem_upsert.mp hrow with rfl | ⟨hrow, -⟩
    · exact his
    · exact hkept.only row hrow hone
  · have hother : role.key ≠ existing.getD db.nextKey := by
      intro heq
      cases existing with
      | none => exact absurd heq (Nat.ne_of_lt hbelow)
      | some key => exact hown (hkey.mp (congrArg some heq.symm))
    obtain ⟨stored, hstored, his⟩ := hkept.present
    refine ⟨⟨stored, mem_upsert.mpr (Or.inr ⟨hstored, ?_⟩), his⟩, ?_,
      hbelow.trans_le hnextKey, hkept.idBelow⟩
    · rw [his.key]
      exact hother
    · intro row hrow hone
      rcases mem_upsert.mp hrow with rfl | ⟨hrow, -⟩
      · -- The unique index on the names refuses the name of the stored row.
        have hclash := hfree stored hstored
        rcases hone with hone | hone | hone
        · exact absurd hone.symm hother
        · exact absurd hone hown
        · have hname : copy.name = role.name := hone
          simp [RoleRow.clashes, Role.toRow, his.key, his.name, hname, hother]
            at hclash
      · exact hkept.only row hrow hone

/-- A delete of another role leaves the row. -/
theorem SystemRow.Kept.of_delete (hkept : role.Kept db) (hother : copy.id ≠ role.id) :
    role.Kept (db.delete copy) := by
  obtain ⟨stored, hstored, his⟩ := hkept.present
  refine ⟨⟨stored, List.mem_filter.mpr ⟨hstored, ?_⟩, his⟩, ?_, hkept.keyBelow,
    hkept.idBelow⟩
  · simp [his.id, Ne.symm hother]
  · intro row hrow hone
    exact hkept.only row (List.mem_filter.mp hrow).1 hone

/-- One statement of a request that changes roles keeps the system role. -/
theorem RoleMove.keepsSystem (hmove : RoleMove db place input out)
    (hkept : role.Kept db) (hplace : role.Respected place) :
    role.Kept out.store ∧ role.Respected out.place := by
  have hmore : ∀ {nextId : Uuid}, db.nextId ≤ nextId →
      role.Kept { db with nextId } := fun hle =>
    ⟨hkept.present, hkept.only, hkept.keyBelow, hkept.idBelow.trans_le hle⟩
  cases hmove with
  | rested _ _ nextId hle => exact ⟨hmore hle, trivial⟩
  | made _ made hid hknows =>
      refine ⟨hmore (Nat.le_succ _), fun heq => ?_⟩
      exact absurd (hid.symm.trans heq) (Nat.ne_of_gt hkept.idBelow)
  | seeded _ made db' hid hknows hsave =>
      have hother : made.id ≠ role.id := by
        rw [hid]
        exact Nat.ne_of_gt hkept.idBelow
      refine ⟨(hmore (Nat.le_succ _)).of_save (fun heq => absurd heq hother) ?_ hsave,
        trivial⟩
      exact iff_of_false nofun hother
  | read _ row request hrow =>
      refine ⟨hkept, fun heq => ?_⟩
      have his := hkept.only row hrow (Or.inr (Or.inl heq))
      exact ⟨his.name, his.system⟩
  | checked _ row request name description => exact ⟨hkept, hplace⟩
  | changed _ _ before changed change hcarries hid hstored hknows hsystem hnamed =>
      refine ⟨hkept, fun heq => ?_⟩
      have hbefore : role.Copied before := by
        cases place with
        | loading row request =>
            obtain rfl := hcarries
            exact hplace
        | checkingName copy name description =>
            obtain rfl := hcarries
            exact hplace
        | _ => exact absurd hcarries id
      obtain ⟨hname, hbeforeSystem⟩ := hbefore (hid.trans heq)
      exact ⟨(hnamed hbeforeSystem).trans hname, hsystem.trans hbeforeSystem⟩
  | removing _ row request hmutable =>
      refine ⟨hkept, fun heq => ?_⟩
      obtain ⟨-, hsystem⟩ := hplace heq
      rw [hmutable] at hsystem
      cases hsystem
  | found _ origin copy => exact ⟨hkept, hplace, hkept.keyOf_iff⟩
  | saved _ origin copy existing db' hsave =>
      exact ⟨hkept.of_save hplace.1 hplace.2 hsave, trivial⟩
  | deleted _ copy => exact ⟨hkept.of_delete hplace, trivial⟩

end Roles

def superAdminRow : SystemRow := ⟨0, 0, superAdmin⟩
def adminRow : SystemRow := ⟨1, 1, admin⟩

/-- The assignment was asked for by an actor whose access, as the call read it,
held `SUPER_ADMIN`. -/
def Authorised (log : List GrantEffect) (call : Nat) (userId : UserId) : Prop :=
  ∃ reference actorUserId access,
    GrantEffect.called call userId reference (some actorUserId) ∈ log ∧
      GrantEffect.accessRead call actorUserId access ∈ log ∧
      superAdmin ∈ access.roles

/-- What a request knows of the privileged roles. -/
def GrantPlace.Guarded (log : List GrantEffect) : GrantPlace → Prop
  | .role place => superAdminRow.Respected place ∧ adminRow.Respected place
  | .authorising call userId roleId actorUserId =>
      roleId ≠ superAdminRow.id ∧ ∃ reference,
        GrantEffect.called call userId reference (some actorUserId) ∈ log
  | .checkingUser call userId roleId =>
      roleId ≠ superAdminRow.id ∧ (roleId = adminRow.id → Authorised log call userId)
  | .resolving call userId roleId =>
      roleId ≠ superAdminRow.id ∧ (roleId = adminRow.id → Authorised log call userId)
  | .inserting call userId key =>
      key ≠ superAdminRow.key ∧ (key = adminRow.key → Authorised log call userId)
  | .removing _ _ => True

/-- Both privileged roles have their rows. -/
structure PrivilegedKept (db : GrantDb) : Prop where
  superAdmin : superAdminRow.Kept db.roleDb
  admin : adminRow.Kept db.roleDb

section Grants

variable {db : GrantDb} {place : GrantPlace} {input : GrantInput} {out : GrantOutcome}
variable {log more : List GrantEffect} {call : Nat} {userId : UserId}
variable {role : SystemRow} {row : RoleRow}

/-- Who has a system role is who is assigned its key. -/
theorem SystemRow.Kept.hasRole_iff (hkept : role.Kept db.roleDb) :
    db.HasRole userId role.name ↔ ⟨userId, role.key⟩ ∈ db.userRoles := by
  constructor
  · rintro ⟨row, hrow, hname, hlink⟩
    rwa [(hkept.only row hrow (Or.inr (Or.inr hname))).key] at hlink
  · intro hlink
    obtain ⟨row, hrow, his⟩ := hkept.present
    exact ⟨row, hrow, his.name, his.key ▸ hlink⟩

theorem Authorised.append (h : Authorised log call userId) :
    Authorised (log ++ more) call userId := by
  obtain ⟨reference, actorUserId, access, hcalled, hread, hsuper⟩ := h
  exact ⟨reference, actorUserId, access, List.mem_append_left _ hcalled,
    List.mem_append_left _ hread, hsuper⟩

theorem GrantPlace.Guarded.append (h : place.Guarded log) :
    place.Guarded (log ++ more) := by
  cases place with
  | role place => exact h
  | authorising call userId roleId actorUserId =>
      obtain ⟨hid, reference, hcalled⟩ := h
      exact ⟨hid, reference, List.mem_append_left _ hcalled⟩
  | checkingUser call userId roleId => exact ⟨h.1, fun hid => (h.2 hid).append⟩
  | resolving call userId roleId => exact ⟨h.1, fun hid => (h.2 hid).append⟩
  | inserting call userId key => exact ⟨h.1, fun hkey => (h.2 hkey).append⟩
  | removing => trivial

theorem idleGrant_guarded : idleGrant.Guarded log := ⟨trivial, trivial⟩

theorem resolveRole_mem {reference : RoleReference}
    (h : db.resolveRole reference = some row) : row ∈ db.roleDb.roles := by
  cases reference with
  | id roleId => exact (findRow_eq_some h).1
  | name name => exact List.mem_of_find?_eq_some h

/-- The guard of an assignment, on the role as it is stored. -/
theorem ensureAssignable_guarded (hkept : PrivilegedKept db)
    (hrow : row ∈ db.roleDb.roles) {reference : RoleReference}
    {actorUserId : Option UserId}
    (hcalled : GrantEffect.called call userId reference actorUserId ∈ log) :
    (ensureAssignable call userId actorUserId row).Guarded log := by
  unfold ensureAssignable
  split
  · exact idleGrant_guarded
  · rename_i hname
    have hid : row.externalId ≠ superAdminRow.id := fun heq =>
      hname (hkept.superAdmin.only row hrow (Or.inr (Or.inl heq))).name
    split
    · rename_i hnotAdmin
      exact ⟨hid, fun heq => absurd
        (hkept.admin.only row hrow (Or.inr (Or.inl heq))).name hnotAdmin⟩
    · cases actorUserId with
      | none => exact idleGrant_guarded
      | some actorUserId => exact ⟨hid, reference, hcalled⟩

/-- One statement keeps the rows of the privileged roles and the guard. -/
theorem guarded_of_exec (hkept : PrivilegedKept db) (hplace : place.Guarded log)
    (hexec : grantExec db place input = some out) :
    PrivilegedKept out.store ∧ out.place.Guarded (log ++ out.effects) := by
  unfold grantExec at hexec
  split at hexec
  case h_1 place input =>
    obtain ⟨roleOut, hrole, rfl⟩ := Option.map_eq_some_iff.mp hexec
    have hmove := roleMove_of_exec hrole
    obtain ⟨hsuper, hsuperPlace⟩ := hmove.keepsSystem hkept.superAdmin hplace.1
    obtain ⟨hadmin, hadminPlace⟩ := hmove.keepsSystem hkept.admin hplace.2
    exact ⟨⟨hsuper, hadmin⟩, hsuperPlace, hadminPlace⟩
  case h_2 userId reference actorUserId =>
    cases hexec
    refine ⟨⟨hkept.superAdmin, hkept.admin⟩, ?_⟩
    dsimp only
    split
    · exact idleGrant_guarded
    · rename_i role hrole
      exact ensureAssignable_guarded hkept (resolveRole_mem hrole)
        (List.mem_append_right _ (List.mem_singleton_self _))
  case h_3 call userId roleId actorUserId access =>
    cases hexec
    refine ⟨hkept, ?_⟩
    dsimp only
    split
    · rename_i hsuper
      obtain ⟨hid, reference, hcalled⟩ := hplace
      exact ⟨hid, fun _ => ⟨reference, actorUserId, access,
        List.mem_append_left _ hcalled,
        List.mem_append_right _ (List.mem_singleton_self _), hsuper⟩⟩
    · exact idleGrant_guarded
  case h_4 call userId roleId found =>
    cases hexec
    refine ⟨hkept, ?_⟩
    dsimp only
    split
    · exact ⟨hplace.1, fun hid => (hplace.2 hid).append⟩
    · exact idleGrant_guarded
  case h_5 call userId roleId =>
    cases hexec
    refine ⟨hkept, ?_⟩
    dsimp only
    split
    · exact idleGrant_guarded
    · rename_i row hfind
      obtain ⟨hrow, hid⟩ := findRow_eq_some hfind
      obtain ⟨hother, hauthorised⟩ := hplace
      refine ⟨fun hkey => ?_, fun hkey => ?_⟩
      · have his := hkept.superAdmin.only row hrow (Or.inl hkey)
        exact hother (hid.symm.trans his.id)
      · have his := hkept.admin.only row hrow (Or.inl hkey)
        exact (hauthorised (hid.symm.trans his.id)).append
  case h_6 call userId key =>
    cases hexec
    unfold insertAssignment
    split
    · exact ⟨⟨hkept.superAdmin, hkept.admin⟩, idleGrant_guarded⟩
    · exact ⟨hkept, idleGrant_guarded⟩
  case h_7 userId roleId =>
    cases hexec
    refine ⟨hkept, ?_⟩
    dsimp only
    split
    · exact idleGrant_guarded
    · trivial
  case h_8 userId key =>
    cases hexec
    exact ⟨⟨hkept.superAdmin, hkept.admin⟩, idleGrant_guarded⟩
  case h_9 =>
    cases hexec
    exact ⟨hkept, idleGrant_guarded⟩
  case h_10 => cases hexec

/-- An assignment that a statement leaves was there, or the statement inserts
it. -/
theorem userRoles_of_exec (hexec : grantExec db place input = some out)
    {link : UserRoleRow} (hlink : link ∈ out.store.userRoles) :
    link ∈ db.userRoles ∨ ∃ call,
      place = .inserting call link.userId link.roleId ∧
        out.effects = [.assigned call link.userId link.roleId] := by
  unfold grantExec at hexec
  split at hexec
  case h_1 =>
    obtain ⟨roleOut, hrole, rfl⟩ := Option.map_eq_some_iff.mp hexec
    exact Or.inl (List.mem_of_mem_filter hlink)
  case h_6 call userId key =>
    cases hexec
    unfold insertAssignment at hlink ⊢
    split at hlink
    · rename_i hrow
      rw [if_pos hrow]
      dsimp only at hlink ⊢
      split at hlink
      · exact Or.inl hlink
      · rcases List.mem_append.mp hlink with hold | hnew
        · exact Or.inl hold
        · obtain rfl := List.mem_singleton.mp hnew
          exact Or.inr ⟨call, rfl, rfl⟩
    · exact Or.inl hlink
  case h_8 =>
    cases hexec
    exact Or.inl (List.mem_of_mem_filter hlink)
  case h_10 => cases hexec
  all_goals
    cases hexec
    exact Or.inl hlink

/-- A user gains a system role by the insert of an assignment of its key. -/
theorem gains_of_exec (hkept : role.Kept db.roleDb) (hkept' : role.Kept out.store.roleDb)
    (hexec : grantExec db place input = some out)
    (hafter : out.store.HasRole userId role.name) (hbefore : ¬ db.HasRole userId role.name) :
    ∃ call, place = .inserting call userId role.key ∧
      out.effects = [.assigned call userId role.key] := by
  have hlink := hkept'.hasRole_iff.mp hafter
  rcases userRoles_of_exec hexec hlink with hold | hinserted
  · exact absurd (hkept.hasRole_iff.mpr hold) hbefore
  · exact hinserted

end Grants

section Runs

variable {permissions : PermissionTable} {links : List RolePermissionRow}
variable {userRoles : List UserRoleRow} {now : Timestamp}
variable {config : Config GrantDb GrantPlace} {log : List GrantEffect}

theorem mem_systemRoles {row : RoleRow} (hrow : row ∈ systemRoles now) :
    ∃ name description, systemRoleRows[row.id]? = some (name, description) ∧
      row.externalId = row.id ∧ row.name = name ∧ row.isSystem = true := by
  obtain ⟨⟨⟨name, description⟩, index⟩, hindexed, rfl⟩ := List.mem_map.mp hrow
  exact ⟨name, description, List.mem_zipIdx_iff_getElem?.mp hindexed, rfl, rfl, rfl⟩

/-- The names of the seeded roles differ. -/
theorem systemRoleRows_inj {left right : Nat} {name : String} {first second : String}
    (hleft : systemRoleRows[left]? = some (name, first))
    (hright : systemRoleRows[right]? = some (name, second)) : left = right := by
  have hnames : (systemRoleRows.map Prod.fst).Nodup := by decide
  have hleftName : (systemRoleRows.map Prod.fst)[left]? = some name := by
    rw [List.getElem?_map, hleft, Option.map_some]
  have hrightName : (systemRoleRows.map Prod.fst)[right]? = some name := by
    rw [List.getElem?_map, hright, Option.map_some]
  obtain ⟨hlt, -⟩ := List.getElem?_eq_some_iff.mp hleftName
  exact (List.getElem?_inj hlt hnames).mp (hleftName.trans hrightName.symm)

/-- The migration leaves every system role in its row. -/
theorem seededRow_kept {index : Nat} {name description : String}
    (hget : systemRoleRows[index]? = some (name, description)) :
    SystemRow.Kept ⟨index, index, name⟩
      (seededGrants permissions links userRoles now).store.roleDb := by
  obtain ⟨hlt, -⟩ := List.getElem?_eq_some_iff.mp hget
  have hindexed : ((name, description), index) ∈ systemRoleRows.zipIdx :=
    List.mem_zipIdx_iff_getElem?.mpr hget
  refine ⟨⟨_, List.mem_map_of_mem hindexed, rfl, rfl, rfl, rfl⟩, ?_, hlt, hlt⟩
  intro row hrow hone
  obtain ⟨rowName, rowDescription, hrowGet, hid, hname, hsystem⟩ := mem_systemRoles hrow
  have hindex : row.id = index := by
    rcases hone with hone | hone | hone
    · exact hone
    · exact hid.symm.trans hone
    · obtain rfl : rowName = name := hname.symm.trans hone
      exact systemRoleRows_inj hrowGet hget
  rw [hindex, hget] at hrowGet
  cases hrowGet
  exact ⟨hindex, hid.trans hindex, hname, hsystem⟩

theorem seeded_kept :
    PrivilegedKept (seededGrants permissions links userRoles now).store :=
  ⟨seededRow_kept rfl, seededRow_kept rfl⟩

/-- In every run the privileged roles keep their rows and every request keeps
to the guard. -/
theorem privileged_of_reaches
    (h : Reaches grantExec (seededGrants permissions links userRoles now) config log) :
    PrivilegedKept config.store ∧ ∀ pid, (config.places pid).Guarded log := by
  refine ReachesBy.invariant_of_places
    (G := fun db _ => PrivilegedKept db) (L := fun _ log place => place.Guarded log)
    seeded_kept (fun _ => idleGrant_guarded) ?_ ?_ h
  · intro config log pid input out _ hkept hplaces _ hexec
    exact guarded_of_exec hkept (hplaces pid) hexec
  · intro config log pid input out _ _ hplaces _ _ other _
    exact (hplaces other).append

/-- In every run of requests that create, change, delete, assign and revoke
roles, the seeded row is the only one named `SUPER_ADMIN`, nobody is given that
role, and whoever is given `ADMIN` is given it by an assignment whose actor had
`SUPER_ADMIN` in the access the assignment read. -/
theorem no_role_escalation
    (h : Reaches grantExec (seededGrants permissions links userRoles now) config log) :
    (∀ row ∈ config.store.roleDb.roles, row.name = superAdmin → superAdminRow.Is row) ∧
      ∀ pid input out, grantExec config.store (config.places pid) input = some out →
        (∀ userId, out.store.HasRole userId superAdmin →
          config.store.HasRole userId superAdmin) ∧
        ∀ userId, out.store.HasRole userId admin → ¬ config.store.HasRole userId admin →
          ∃ call, out.effects = [.assigned call userId adminRow.key] ∧
            Authorised log call userId := by
  obtain ⟨hkept, hplaces⟩ := privileged_of_reaches h
  refine ⟨fun row hrow hname => hkept.superAdmin.only row hrow (Or.inr (Or.inr hname)), ?_⟩
  intro pid input out hexec
  have hafter := (guarded_of_exec hkept (hplaces pid) hexec).1
  constructor
  · intro userId hhas
    by_contra hbefore
    obtain ⟨call, hplace, -⟩ :=
      gains_of_exec hkept.superAdmin hafter.superAdmin hexec hhas hbefore
    have hguarded := hplaces pid
    rw [hplace] at hguarded
    exact hguarded.1 rfl
  · intro userId hhas hbefore
    obtain ⟨call, hplace, heffects⟩ :=
      gains_of_exec hkept.admin hafter.admin hexec hhas hbefore
    have hguarded := hplaces pid
    rw [hplace] at hguarded
    exact ⟨call, heffects, hguarded.2 rfl⟩

end Runs

namespace GrantWitness

def noPermissions : PermissionTable where
  rows := []
  ids := List.nodup_nil
  externalIds := List.nodup_nil
  codes := List.nodup_nil

/-- User 1 has `SUPER_ADMIN` and user 2 has `ADMIN`. -/
def initial : Config GrantDb GrantPlace :=
  seededGrants noPermissions [] [⟨1, 0⟩, ⟨2, 1⟩] 0

/-- Both assign `ADMIN` to user 7; the second is refused. -/
def turns : List (Nat × GrantInput) := [
  (0, .assignRoleToUser 7 (.name admin) (some 1)),
  (1, .assignRoleToUser 7 (.id 1) (some 2)),
  (1, .access ⟨{admin}, ∅⟩),
  (0, .access ⟨{superAdmin}, ∅⟩),
  (0, .user true),
  (0, .proceed)]

def last : Config GrantDb GrantPlace × List GrantEffect :=
  endOfRun grantExec initial turns (by decide +kernel)

theorem reaches_last : Reaches grantExec initial last.1 last.2 :=
  reaches_endOfRun _

/-- The insert that comes next. -/
def inserted : GrantOutcome := insertAssignment last.1.store 0 7 1

theorem no_role_escalation_last :
    (∀ row ∈ last.1.store.roleDb.roles, row.name = superAdmin → superAdminRow.Is row) ∧
      inserted.store.HasRole 7 admin ∧ Authorised last.2 0 7 := by
  obtain ⟨hnames, hsteps⟩ := no_role_escalation reaches_last
  have hexec : grantExec last.1.store (last.1.places 0) .proceed = some inserted := by
    rfl
  have hafter : inserted.store.HasRole 7 admin := by
    unfold GrantDb.HasRole
    decide +kernel
  have hbefore : ¬ last.1.store.HasRole 7 admin := by
    unfold GrantDb.HasRole
    decide +kernel
  obtain ⟨call, heffects, hauthorised⟩ := (hsteps 0 .proceed inserted hexec).2 7 hafter hbefore
  have hassigned : inserted.effects = [.assigned 0 7 1] := by rfl
  rw [hassigned, List.cons.injEq, GrantEffect.assigned.injEq] at heffects
  obtain ⟨⟨rfl, -⟩, -⟩ := heffects
  exact ⟨hnames, hafter, hauthorised⟩

end GrantWitness

end Identity

end Workshop
