/-
Updates of an account.  Every one writes the whole row from the copy it
loaded; none is lost in a run whose saves find the row as it was loaded.
-/
import Workshop.Identity.SessionWrites

namespace Workshop

namespace Identity

/-- The changes of an account that were committed, in the order of their
commits. -/
def changesOf (id : UserId) (log : List IdentityEffect) :
    List (UserChange × Timestamp) :=
  log.filterMap fun
    | .userSaved change before now =>
        if before.id = id then some (change, now) else none
    | _ => none

/-- The row a serial order of changes makes of the registered one. -/
def replayChanges (user : User) (order : List (UserChange × Timestamp)) :
    Except UserError User :=
  order.foldlM (fun user change => change.1.apply user change.2) user

/-- The stored row is the one of a serial order of the committed changes; what
was deactivated stays so, and a replaced password hash does not come back. -/
structure UpdatesKept (db : IdentityDb) (log : List IdentityEffect) : Prop where
  serial : ∀ user, IdentityEffect.registered user ∈ log →
    ∃ order row, order.Perm (changesOf user.id log) ∧
      replayChanges user order = .ok row ∧ db.findUserById user.id = some row
  inactive : ∀ before now, IdentityEffect.userSaved .deactivate before now ∈ log →
    ∃ row, db.findUserById before.id = some row ∧ row.status = .inactive
  hashes : ∀ hash before now,
    IdentityEffect.userSaved (.changePassword hash) before now ∈ log →
      ∃ row, db.findUserById before.id = some row ∧
        row.passwordHash ≠ before.passwordHash

/-- A change that is saved, and not refused, is saved over the row it was loaded from. -/
def savesLoaded (db : IdentityDb) : IdentityPlace → IdentityInput → Bool
  | .changing change user, .proceed _ =>
      match change.apply user db.now with
      | .error _ => true
      | .ok changed =>
          match db.saveUser changed with
          | .error _ => true
          | .ok _ => db.findUserById user.id = some user
  | _, _ => true

section Changes

variable {change : UserChange} {user changed : User} {now : Timestamp}

theorem updateProfile_eq_ok {input : User.UpdateProfileInput}
    (h : user.updateProfile input now = .ok changed) :
    changed = { user with
      name := input.name.getD user.name
      email := input.email.getD user.email
      document := input.document.getD user.document
      updatedAt := now } := by
  unfold User.updateProfile at h
  dsimp only at h
  split at h
  · exact (pure_eq_ok_iff.mp h).symm
  · obtain ⟨_, -, hchanged⟩ := bind_eq_ok_iff.mp h
    exact (pure_eq_ok_iff.mp hchanged).symm

theorem apply_id (h : change.apply user now = .ok changed) : changed.id = user.id := by
  cases change with
  | updateProfile input => rw [updateProfile_eq_ok h]
  | changePassword newHash =>
      cases h
      rfl
  | deactivate =>
      cases h
      unfold User.deactivate
      split <;> rfl

/-- No change makes an inactive account active. -/
theorem apply_status (h : change.apply user now = .ok changed)
    (hinactive : user.status = .inactive) : changed.status = .inactive := by
  cases change with
  | updateProfile input =>
      rw [updateProfile_eq_ok h]
      exact hinactive
  | changePassword newHash =>
      cases h
      exact hinactive
  | deactivate =>
      cases h
      unfold User.deactivate
      rw [if_pos hinactive]
      exact hinactive

theorem deactivate_status (user : User) (now : Timestamp) :
    (user.deactivate now).status = .inactive := by
  unfold User.deactivate
  split
  · rename_i hinactive
    exact hinactive
  · rfl

/-- The password hash that a change of the user brings. -/
def UserChange.newHash : UserChange → Option PasswordHash
  | .changePassword newHash => some newHash
  | _ => none

theorem apply_passwordHash (h : change.apply user now = .ok changed) :
    changed.passwordHash = change.newHash.getD user.passwordHash := by
  cases change with
  | updateProfile input =>
      rw [updateProfile_eq_ok h]
      rfl
  | changePassword newHash =>
      cases h
      rfl
  | deactivate =>
      cases h
      unfold User.deactivate
      split <;> rfl

theorem replayChanges_append {order : List (UserChange × Timestamp)} {row : User}
    (h : replayChanges user order = .ok row) :
    replayChanges user (order ++ [(change, now)]) = change.apply row now := by
  unfold replayChanges at h ⊢
  rw [List.foldlM_append, h]
  have hlast : (List.foldlM (fun user change => change.1.apply user change.2) row
      [(change, now)] : Except UserError User) = change.apply row now := by
    rw [List.foldlM_cons]
    cases change.apply row now <;> rfl
  exact hlast

end Changes

/-- What the moves do to the accounts. -/
inductive UserStep (settings : IdentitySettings) (db : IdentityDb) :
    IdentityPlace → IdentityInput → IdentityDb → List IdentityEffect → Prop
  | frame (place : IdentityPlace) (input : IdentityInput) (db' : IdentityDb)
      (effects : List IdentityEffect) (husers : db'.users = db.users)
      (hnext : db.nextId ≤ db'.nextId)
      (hregistered : ∀ user, IdentityEffect.registered user ∉ effects)
      (hsaved : ∀ change user now,
        IdentityEffect.userSaved change user now ∉ effects) :
      UserStep settings db place input db' effects
  | registered (input : IdentityInput) (user : User)
      (hid : user.id = db.nextId) (hhash : user.passwordHash = db.nextId + 1) :
      UserStep settings db .idle input
        { db with
          users := upsert User.id user db.users, nextId := db.nextId + 2 }
        [.registered user]
  | changed (mayRevokeAny : Bool) (change : UserChange) (user changed : User)
      (hchange : change.apply user db.now = .ok changed)
      (hsave : db.saveUser changed =
        .ok { db with users := upsert User.id changed db.users }) :
      UserStep settings db (.changing change user) (.proceed mayRevokeAny)
        { db with users := upsert User.id changed db.users }
        [.userSaved change user db.now]

section Steps

variable {settings : IdentitySettings} {db db' : IdentityDb}
variable {place next : IdentityPlace} {input : IdentityInput}
variable {effects log : List IdentityEffect}

theorem userStep_of_move
    (h : IdentityMove settings db place input db' next effects) :
    UserStep settings db place input db' effects := by
  cases h with
  | register _ user _ hid hhash hsave =>
      obtain rfl := saveUser_eq_ok hsave
      exact UserStep.registered _ user hid hhash
  | saveChange mayRevokeAny change user changed _ hchange hsave _ hnext =>
      obtain rfl := saveUser_eq_ok hsave
      exact UserStep.changed mayRevokeAny change user changed hchange hsave
  | openSession _ user mustChangePassword ip userAgent now session _ hsession hsave =>
      obtain ⟨_, -, rfl⟩ := saveSession_eq_ok hsave
      exact UserStep.frame _ _ _ _ rfl (Nat.le_add_right _ _) (by simp) (by simp)
  | rotate _ hash session rotated now _ hrotation hsave =>
      obtain ⟨_, -, rfl⟩ := saveSession_eq_ok hsave
      exact UserStep.frame _ _ _ _ rfl (Nat.le_add_right _ _) (by simp) (by simp)
  | reuse _ hash session revoked now _ hrotation hsave =>
      obtain ⟨_, -, rfl⟩ := saveSession_eq_ok hsave
      exact UserStep.frame _ _ _ _ rfl (Nat.le_refl _) (by simp) (by simp)
  | revoke _ session reason now _ hsave =>
      obtain ⟨_, -, rfl⟩ := saveSession_eq_ok hsave
      exact UserStep.frame _ _ _ _ rfl (Nat.le_refl _) (by simp) (by simp)
  | add _ sessionIds reuse =>
      refine UserStep.frame _ _ _ _ (addManyRevoked_users ..)
        (Nat.le_of_eq (addManyRevoked_nextId ..).symm) ?_ ?_
      all_goals cases reuse <;> simp
  | loadPassword _ user huser =>
      exact UserStep.frame _ _ _ _ rfl (Nat.le_add_right _ _) (by simp) (by simp)
  | _ => exact UserStep.frame _ _ _ _ rfl (Nat.le_refl _) (by simp) (by simp)

end Steps

/-- The keys of the accounts, and the ids generated so far. -/
structure UserTables (db : IdentityDb) : Prop where
  ids : (db.users.map User.id).Nodup
  idsBelow : ∀ row ∈ db.users, row.id < db.nextId
  hashesBelow : ∀ row ∈ db.users, row.passwordHash < db.nextId

/-- The password hash a request is about to store. -/
def IdentityPlace.newHash : IdentityPlace → Option PasswordHash
  | .changing change _ => change.newHash
  | _ => none

/-- The accounts after their committed changes, in the order of the commits. -/
structure UsersKept (db : IdentityDb) (log : List IdentityEffect) : Prop where
  replayed : ∀ user, IdentityEffect.registered user ∈ log →
    ∃ row, replayChanges user (changesOf user.id log) = .ok row ∧
      db.findUserById user.id = some row
  stored : ∀ change before now, IdentityEffect.userSaved change before now ∈ log →
    ∃ row, db.findUserById before.id = some row
  inactive : ∀ before now, IdentityEffect.userSaved .deactivate before now ∈ log →
    ∀ row, db.findUserById before.id = some row → row.status = .inactive
  replaced : ∀ hash before now,
    IdentityEffect.userSaved (.changePassword hash) before now ∈ log →
      before.passwordHash < db.nextId ∧
        ∀ row, db.findUserById before.id = some row →
          row.passwordHash ≠ before.passwordHash

/-- A hash that no account has or had. -/
structure HashUnused (db : IdentityDb) (log : List IdentityEffect)
    (hash : PasswordHash) : Prop where
  rows : ∀ row ∈ db.users, row.passwordHash ≠ hash
  replaced : ∀ newHash before now,
    IdentityEffect.userSaved (.changePassword newHash) before now ∈ log →
      before.passwordHash ≠ hash

section Tables

variable {settings : IdentitySettings} {db db' : IdentityDb}
variable {place next : IdentityPlace} {input : IdentityInput}
variable {effects log : List IdentityEffect}
variable {config : Config IdentityDb IdentityPlace}

theorem savesLoaded_eq {change : UserChange} {user changed : User} {mayRevokeAny : Bool}
    (h : savesLoaded db (.changing change user) (.proceed mayRevokeAny) = true)
    (hchange : change.apply user db.now = .ok changed)
    (hsave : db.saveUser changed = .ok db') : db.findUserById user.id = some user := by
  simp only [savesLoaded, hchange, hsave] at h
  exact of_decide_eq_true h

theorem UserTables.find_of_mem (htables : UserTables db) {row : User}
    (hrow : row ∈ db.users) : db.findUserById row.id = some row :=
  find?_key_of_mem htables.ids hrow

/-- A request that has no hash yet gets a new one. -/
theorem newHash_of_move (h : IdentityMove settings db place input db' next effects) :
    next.newHash = none ∨
      (next.newHash = place.newHash ∧ db'.users = db.users ∧ effects = []) ∨
      (next.newHash = some db.nextId ∧ db'.users = db.users ∧
        db'.nextId = db.nextId + 1 ∧ effects = []) := by
  cases h with
  | tick => exact Or.inr (Or.inl ⟨rfl, rfl, rfl⟩)
  | loadPassword _ user huser => exact Or.inr (Or.inr ⟨rfl, rfl, rfl, rfl⟩)
  | saveChange _ change user changed _ hchange hsave _ hnext =>
      rcases hnext with rfl | ⟨rfl, -⟩ <;> exact Or.inl rfl
  | _ => exact Or.inl rfl

theorem nextId_step (h : UserStep settings db place input db' effects) :
    db.nextId ≤ db'.nextId := by
  cases h with
  | frame _ _ _ _ _ hnext _ _ => exact hnext
  | registered => exact Nat.le_add_right _ _
  | changed => exact Nat.le_refl _

theorem userTables_step (hallowed : savesLoaded db place input = true)
    (htables : UserTables db)
    (hbelow : ∀ hash, place.newHash = some hash → hash < db.nextId)
    (h : UserStep settings db place input db' effects) : UserTables db' := by
  cases h with
  | frame _ _ _ _ husers hnext _ _ =>
      constructor
      · rw [husers]
        exact htables.ids
      · rw [husers]
        exact fun row hrow => Nat.lt_of_lt_of_le (htables.idsBelow row hrow) hnext
      · rw [husers]
        exact fun row hrow => Nat.lt_of_lt_of_le (htables.hashesBelow row hrow) hnext
  | registered _ user hid hhash =>
      refine ⟨nodup_upsert htables.ids, fun row hrow => ?_, fun row hrow => ?_⟩
      · rcases mem_upsert.mp hrow with rfl | ⟨hold, -⟩
        · rw [hid]
          exact Nat.lt_add_of_pos_right (by decide)
        · exact Nat.lt_of_lt_of_le (htables.idsBelow row hold) (Nat.le_add_right _ _)
      · rcases mem_upsert.mp hrow with rfl | ⟨hold, -⟩
        · rw [hhash]
          exact Nat.lt_add_one _
        · exact Nat.lt_of_lt_of_le (htables.hashesBelow row hold) (Nat.le_add_right _ _)
  | changed _ change user changed hchange hsave =>
      have huser := List.mem_of_find?_eq_some (savesLoaded_eq hallowed hchange hsave)
      refine ⟨nodup_upsert htables.ids, fun row hrow => ?_, fun row hrow => ?_⟩
      · rcases mem_upsert.mp hrow with rfl | ⟨hold, -⟩
        · rw [apply_id hchange]
          exact htables.idsBelow user huser
        · exact htables.idsBelow row hold
      · rcases mem_upsert.mp hrow with rfl | ⟨hold, -⟩
        · rw [apply_passwordHash hchange]
          cases hnew : change.newHash with
          | none => exact htables.hashesBelow user huser
          | some hash => exact hbelow hash hnew
        · exact htables.hashesBelow row hold

theorem userTables_of_reaches
    (h : ReachesBy (identityExec settings)
      (fun db place input => savesLoaded db place input = true) emptyIdentity config
      log) :
    UserTables config.store ∧ ∀ pid, ∀ hash,
      (config.places pid).newHash = some hash → hash < config.store.nextId := by
  refine ReachesBy.invariant_of_places (G := fun db _ => UserTables db)
    (L := fun db _ place => ∀ hash, place.newHash = some hash → hash < db.nextId)
    ?_ ?_ ?_ ?_ h
  · constructor
    all_goals simp [emptyIdentity]
  · simp [emptyIdentity, IdentityPlace.newHash]
  · intro config log pid input out before htables hbelow hallowed hexec
    have hmove := identityMove_of_exec hexec
    have hstep := userStep_of_move hmove
    refine ⟨userTables_step hallowed htables (hbelow pid) hstep, fun hash hhash => ?_⟩
    rcases newHash_of_move hmove with hnone | ⟨hsame, -⟩ | ⟨hnew, -, hnext, -⟩
    · rw [hnone] at hhash
      cases hhash
    · exact Nat.lt_of_lt_of_le (hbelow pid hash (hsame ▸ hhash)) (nextId_step hstep)
    · rw [hnew] at hhash
      rw [hnext, ← Option.some.inj hhash]
      exact Nat.lt_add_one _
  · intro config log pid input out before htables hbelow hallowed hexec other _ hash hhash
    exact Nat.lt_of_lt_of_le (hbelow other hash hhash)
      (nextId_step (userStep_of_move (identityMove_of_exec hexec)))

/-- Two requests never store the same hash. -/
theorem newHash_ne_of_reaches
    (h : ReachesBy (identityExec settings)
      (fun db place input => savesLoaded db place input = true) emptyIdentity config
      log) :
    ∀ pid other, other ≠ pid → ∀ hash, (config.places pid).newHash = some hash →
      (config.places other).newHash ≠ some hash := by
  refine ReachesBy.invariant_of_pairs (D := fun place other => ∀ hash,
    place.newHash = some hash → other.newHash ≠ some hash) ?_ ?_ ?_ h
  · exact fun hpair hash hother hplace => hpair hash hplace hother
  · simp [emptyIdentity, IdentityPlace.newHash]
  · intro config log pid input out before hexec other hne hpair hash hhash
    rcases newHash_of_move (identityMove_of_exec hexec) with hnone | ⟨hsame, -⟩ | ⟨hnew, -⟩
    · rw [hnone] at hhash
      cases hhash
    · exact hpair hash (hsame ▸ hhash)
    · intro hother
      have hbelow := (userTables_of_reaches before).2 other hash hother
      rw [hnew] at hhash
      rw [← Option.some.inj hhash] at hbelow
      exact absurd hbelow (Nat.lt_irrefl _)

end Tables

section Replays

variable {settings : IdentitySettings} {db db' : IdentityDb}
variable {place next : IdentityPlace} {input : IdentityInput}
variable {effects log : List IdentityEffect} {id : UserId}
variable {config : Config IdentityDb IdentityPlace}

theorem changesOf_append : changesOf id (log ++ effects) =
    changesOf id log ++ changesOf id effects :=
  List.filterMap_append

/-- A log has no changes of an account that it names in none of its saves. -/
theorem changesOf_eq_nil (h : ∀ change before now,
    IdentityEffect.userSaved change before now ∈ log → before.id ≠ id) :
    changesOf id log = [] := by
  refine List.filterMap_eq_nil_iff.mpr fun effect heffect => ?_
  cases effect with
  | userSaved change before now => exact if_neg (h change before now heffect)
  | _ => rfl

theorem changesOf_userSaved {change : UserChange} {before : User} {now : Timestamp} :
    changesOf id [.userSaved change before now] =
      if before.id = id then [(change, now)] else [] := by
  unfold changesOf
  rw [List.filterMap_cons]
  by_cases heq : before.id = id <;> simp [heq]

theorem findUserById_upsert {user : User} {nextId : Uuid} :
    ({ db with users := upsert User.id user db.users, nextId } :
      IdentityDb).findUserById id =
        if user.id = id then some user else db.findUserById id :=
  find?_upsert id

theorem findUserById_below (htables : UserTables db) {row : User}
    (hfind : db.findUserById id = some row) : id < db.nextId := by
  have hid : row.id = id := by simpa using List.find?_some hfind
  rw [← hid]
  exact htables.idsBelow row (List.mem_of_find?_eq_some hfind)

/-- An id that was not generated yet is the id of no account. -/
theorem findUserById_ne_nextId (htables : UserTables db) {row user : User}
    (hid : user.id = db.nextId) (hfind : db.findUserById id = some row) :
    user.id ≠ id := by
  intro heq
  have hbelow := findUserById_below htables hfind
  rw [← heq, hid] at hbelow
  exact absurd hbelow (Nat.lt_irrefl _)

theorem usersKept_frame (hinv : UsersKept db log) (husers : db'.users = db.users)
    (hnext : db.nextId ≤ db'.nextId)
    (hregistered : ∀ user, IdentityEffect.registered user ∉ effects)
    (hsaved : ∀ change user now,
      IdentityEffect.userSaved change user now ∉ effects) :
    UsersKept db' (log ++ effects) := by
  have hfind : ∀ id, db'.findUserById id = db.findUserById id := by
    intro id
    unfold IdentityDb.findUserById
    rw [husers]
  have hold : ∀ {change before now},
      IdentityEffect.userSaved change before now ∈ log ++ effects →
        IdentityEffect.userSaved change before now ∈ log := by
    intro change before now hmem
    exact (List.mem_append.mp hmem).resolve_right (hsaved change before now)
  constructor
  · intro user hmem
    have hnone : changesOf user.id effects = [] :=
      changesOf_eq_nil fun change before now hnew => absurd hnew (hsaved change before now)
    rw [changesOf_append, hnone, List.append_nil, hfind]
    exact hinv.replayed user ((List.mem_append.mp hmem).resolve_right (hregistered user))
  · intro change before now hmem
    rw [hfind]
    exact hinv.stored change before now (hold hmem)
  · intro before now hmem
    rw [hfind]
    exact hinv.inactive before now (hold hmem)
  · intro hash before now hmem
    rw [hfind]
    obtain ⟨hbelow, hne⟩ := hinv.replaced hash before now (hold hmem)
    exact ⟨Nat.lt_of_lt_of_le hbelow hnext, hne⟩

theorem usersKept_registered (htables : UserTables db) (hinv : UsersKept db log)
    {user : User} (hid : user.id = db.nextId) :
    UsersKept { db with
      users := upsert User.id user db.users, nextId := db.nextId + 2 }
        (log ++ [.registered user]) := by
  have hold : ∀ {change before now}, IdentityEffect.userSaved change before now ∈
      log ++ [.registered user] →
        IdentityEffect.userSaved change before now ∈ log ∧ user.id ≠ before.id := by
    intro change before now hmem
    have hlog : IdentityEffect.userSaved change before now ∈ log := by simpa using hmem
    obtain ⟨row, hfind⟩ := hinv.stored change before now hlog
    exact ⟨hlog, findUserById_ne_nextId htables hid hfind⟩
  have hnone : ∀ id, changesOf id [IdentityEffect.registered user] = [] :=
    fun id => changesOf_eq_nil (by simp)
  constructor
  · intro other hmem
    rw [changesOf_append, hnone, List.append_nil, findUserById_upsert]
    rcases List.mem_append.mp hmem with hlog | hnew
    · obtain ⟨row, hrow, hfind⟩ := hinv.replayed other hlog
      rw [if_neg (findUserById_ne_nextId htables hid hfind)]
      exact ⟨row, hrow, hfind⟩
    · cases List.mem_singleton.mp hnew
      rw [if_pos rfl, changesOf_eq_nil]
      · exact ⟨user, rfl, rfl⟩
      · intro change before now hlog heq
        exact (hold (List.mem_append_left _ hlog)).2 heq.symm
  · intro change before now hmem
    obtain ⟨hlog, hne⟩ := hold hmem
    rw [findUserById_upsert, if_neg hne]
    exact hinv.stored change before now hlog
  · intro before now hmem
    obtain ⟨hlog, hne⟩ := hold hmem
    rw [findUserById_upsert, if_neg hne]
    exact hinv.inactive before now hlog
  · intro hash before now hmem
    obtain ⟨hlog, hne⟩ := hold hmem
    rw [findUserById_upsert, if_neg hne]
    obtain ⟨hbelow, hreplaced⟩ := hinv.replaced hash before now hlog
    exact ⟨Nat.lt_of_lt_of_le hbelow (Nat.le_add_right _ _), hreplaced⟩

theorem usersKept_changed (htables : UserTables db) (hinv : UsersKept db log)
    {change : UserChange} {user changed : User}
    (hchange : change.apply user db.now = .ok changed)
    (hfind : db.findUserById user.id = some user)
    (hunused : ∀ hash, change.newHash = some hash → HashUnused db log hash) :
    UsersKept { db with users := upsert User.id changed db.users }
      (log ++ [.userSaved change user db.now]) := by
  have hid : changed.id = user.id := apply_id hchange
  have huser : user ∈ db.users := List.mem_of_find?_eq_some hfind
  have hfind' : ∀ id, ({ db with users := upsert User.id changed db.users } :
      IdentityDb).findUserById id =
        if user.id = id then some changed else db.findUserById id := by
    intro id
    rw [← hid]
    exact find?_upsert id
  have hrow : ∀ {id row}, ({ db with users := upsert User.id changed db.users } :
      IdentityDb).findUserById id = some row → user.id = id ∧ row = changed ∨
        user.id ≠ id ∧ db.findUserById id = some row := by
    intro id row hrow
    rw [hfind'] at hrow
    split at hrow
    · rename_i heq
      exact Or.inl ⟨heq, (Option.some.inj hrow).symm⟩
    · rename_i hne
      exact Or.inr ⟨hne, hrow⟩
  constructor
  · intro other hmem
    obtain ⟨row, hreplay, hstored⟩ := hinv.replayed other (by simpa using hmem)
    rw [changesOf_append, changesOf_userSaved, hfind']
    by_cases heq : user.id = other.id
    · rw [← heq, hfind] at hstored
      obtain rfl := Option.some.inj hstored
      rw [if_pos heq, if_pos heq, replayChanges_append hreplay]
      exact ⟨changed, hchange, rfl⟩
    · rw [if_neg heq, if_neg heq, List.append_nil]
      exact ⟨row, hreplay, hstored⟩
  · intro other before now hmem
    rw [hfind']
    split
    · exact ⟨changed, rfl⟩
    · rename_i hne
      refine hinv.stored other before now ?_
      rcases List.mem_append.mp hmem with hlog | hnew
      · exact hlog
      · cases List.mem_singleton.mp hnew
        exact absurd rfl hne
  · intro before now hmem row hafter
    rcases List.mem_append.mp hmem with hlog | hnew
    · rcases hrow hafter with ⟨heq, rfl⟩ | ⟨-, hbefore⟩
      · refine apply_status hchange (hinv.inactive before now hlog user ?_)
        rw [← heq]
        exact hfind
      · exact hinv.inactive before now hlog row hbefore
    · cases List.mem_singleton.mp hnew
      rcases hrow hafter with ⟨-, rfl⟩ | ⟨hne, -⟩
      · cases hchange
        exact deactivate_status user db.now
      · exact absurd rfl hne
  · intro hash before now hmem
    rcases List.mem_append.mp hmem with hlog | hnew
    · obtain ⟨hbelow, hreplaced⟩ := hinv.replaced hash before now hlog
      refine ⟨hbelow, fun row hafter => ?_⟩
      rcases hrow hafter with ⟨heq, rfl⟩ | ⟨-, hbefore⟩
      · rw [apply_passwordHash hchange]
        cases hnew : change.newHash with
        | none => exact hreplaced user (heq ▸ hfind)
        | some newHash => exact ((hunused newHash hnew).replaced hash before now hlog).symm
      · exact hreplaced row hbefore
    · cases List.mem_singleton.mp hnew
      refine ⟨htables.hashesBelow user huser, fun row hafter => ?_⟩
      rcases hrow hafter with ⟨-, rfl⟩ | ⟨hne, -⟩
      · rw [apply_passwordHash hchange]
        exact ((hunused hash rfl).rows user huser).symm
      · exact absurd rfl hne

theorem usersKept_step (htables : UserTables db)
    (hallowed : savesLoaded db place input = true) (hinv : UsersKept db log)
    (hunused : ∀ hash, place.newHash = some hash → HashUnused db log hash)
    (h : UserStep settings db place input db' effects) :
    UsersKept db' (log ++ effects) := by
  cases h with
  | frame _ _ _ _ husers hnext hregistered hsaved =>
      exact usersKept_frame hinv husers hnext hregistered hsaved
  | registered _ user hid hhash => exact usersKept_registered htables hinv hid
  | changed _ change user changed hchange hsave =>
      exact usersKept_changed htables hinv hchange (savesLoaded_eq hallowed hchange hsave) hunused

/-- A hash that another request is about to store stays unused. -/
theorem hashUnused_step (hallowed : savesLoaded db place input = true)
    {hash : PasswordHash} (hbelow : hash < db.nextId)
    (hapart : place.newHash ≠ some hash) (hunused : HashUnused db log hash)
    (h : UserStep settings db place input db' effects) :
    HashUnused db' (log ++ effects) hash := by
  cases h with
  | frame _ _ _ _ husers _ _ hsaved =>
      constructor
      · rw [husers]
        exact hunused.rows
      · intro newHash before now hmem
        exact hunused.replaced newHash before now
          ((List.mem_append.mp hmem).resolve_right (hsaved _ _ _))
  | registered _ user hid hhash =>
      constructor
      · intro row hrow
        rcases mem_upsert.mp hrow with rfl | ⟨hold, -⟩
        · rw [hhash]
          exact (Nat.ne_of_lt (Nat.lt_succ_of_lt hbelow)).symm
        · exact hunused.rows row hold
      · intro newHash before now hmem
        exact hunused.replaced newHash before now (by simpa using hmem)
  | changed _ change user changed hchange hsave =>
      have huser := hunused.rows user
        (List.mem_of_find?_eq_some (savesLoaded_eq hallowed hchange hsave))
      constructor
      · intro row hrow
        rcases mem_upsert.mp hrow with rfl | ⟨hold, -⟩
        · rw [apply_passwordHash hchange]
          cases hnew : change.newHash with
          | none => exact huser
          | some newHash =>
              rintro rfl
              exact hapart hnew
        · exact hunused.rows row hold
      · intro newHash before now hmem
        rcases List.mem_append.mp hmem with hlog | hnew
        · exact hunused.replaced newHash before now hlog
        · cases List.mem_singleton.mp hnew
          exact huser

theorem usersKept_of_reaches
    (h : ReachesBy (identityExec settings)
      (fun db place input => savesLoaded db place input = true) emptyIdentity config
      log) :
    UsersKept config.store log := by
  have hinv : UsersKept config.store log ∧ ∀ pid, ∀ hash,
      (config.places pid).newHash = some hash → HashUnused config.store log hash := by
    refine ReachesBy.invariant_of_places (G := UsersKept) (L := fun db log place =>
      ∀ hash, place.newHash = some hash → HashUnused db log hash) ?_ ?_ ?_ ?_ h
    · constructor
      all_goals simp
    · simp [emptyIdentity, IdentityPlace.newHash]
    · intro config log pid input out before hinv hunused hallowed hexec
      obtain ⟨htables, hbelow⟩ := userTables_of_reaches before
      have hmove := identityMove_of_exec hexec
      refine ⟨usersKept_step htables hallowed hinv (hunused pid)
        (userStep_of_move hmove), fun hash hhash => ?_⟩
      rcases newHash_of_move hmove with hnone | ⟨hsame, husers, hlog⟩ |
        ⟨hnew, husers, -, hlog⟩
      · rw [hnone] at hhash
        cases hhash
      · rw [hlog, List.append_nil]
        have hbefore := hunused pid hash (hsame ▸ hhash)
        exact ⟨husers ▸ hbefore.rows, hbefore.replaced⟩
      · rw [hnew] at hhash
        rw [hlog, List.append_nil, ← Option.some.inj hhash]
        constructor
        · rw [husers]
          exact fun row hrow => Nat.ne_of_lt (htables.hashesBelow row hrow)
        · intro newHash user now hmem
          exact Nat.ne_of_lt (hinv.replaced newHash user now hmem).1
    · intro config log pid input out before hinv hunused hallowed hexec other hne hash
        hhash
      exact hashUnused_step hallowed ((userTables_of_reaches before).2 other hash hhash)
        (newHash_ne_of_reaches before other pid hne.symm hash hhash)
        (hunused other hash hhash) (userStep_of_move (identityMove_of_exec hexec))
  exact hinv.1

/-- No update of an account is lost in a run whose changes are saved over the
row they were loaded from. -/
theorem updates_kept
    (h : ReachesBy (identityExec settings)
      (fun db place input => savesLoaded db place input = true) emptyIdentity config
      log) :
    UpdatesKept config.store log := by
  have hinv := usersKept_of_reaches h
  constructor
  · intro user hmem
    obtain ⟨row, hreplay, hfind⟩ := hinv.replayed user hmem
    exact ⟨changesOf user.id log, row, List.Perm.refl _, hreplay, hfind⟩
  · intro before now hmem
    obtain ⟨row, hfind⟩ := hinv.stored _ before now hmem
    exact ⟨row, hfind, hinv.inactive before now hmem row hfind⟩
  · intro hash before now hmem
    obtain ⟨row, hfind⟩ := hinv.stored _ before now hmem
    exact ⟨row, hfind, (hinv.replaced hash before now hmem).2 row hfind⟩

end Replays

namespace UpdateWitness

open IdentityWitness (settings registered)

/-- User 0 is renamed, gets a new password and is deactivated, one after
another. -/
def oneAfterAnother : Config IdentityDb IdentityPlace × List IdentityEffect :=
  endOfRun (identityExec settings) emptyIdentity
    (registered ++ [(1, .updateUser 0 ⟨some "Ana Lima", none, none⟩),
      (1, .proceed false), (1, .proceed false), (1, .proceed false),
      (2, .changePassword 0 "secret"), (2, .proceed false), (2, .proceed false),
      (2, .proceed false), (3, .deactivateUser 0), (3, .proceed false)])
    (by decide +kernel)

theorem updates_kept_oneAfterAnother :
    UpdatesKept oneAfterAnother.1.store oneAfterAnother.2 :=
  updates_kept (reachesBy_endOfRun savesLoaded id (by decide +kernel) _)

/-- The renaming loads the account before the deactivation saves, and saves
after it: the account is active again. -/
def reactivated : Config IdentityDb IdentityPlace × List IdentityEffect :=
  endOfRun (identityExec settings) emptyIdentity
    (registered ++ [(1, .updateUser 0 ⟨some "Ana Lima", none, none⟩),
      (1, .proceed false), (1, .proceed false), (2, .deactivateUser 0),
      (2, .proceed false), (2, .proceed false), (2, .proceed false),
      (1, .proceed false)])
    (by decide +kernel)

/-- The account as it was registered. -/
def ana : User where
  id := 0
  email := "ana@example.com"
  name := "Ana Souza"
  document := "12345678909"
  passwordHash := 1
  status := .active
  mustChangePassword := false
  createdAt := 0
  updatedAt := 0
  deletedAt := none

theorem reaches_reactivated : IdentityReaches settings reactivated.1 reactivated.2 :=
  reaches_endOfRun _

theorem updates_not_always_kept :
    ¬ ∀ settings config log, IdentityReaches settings config log →
      UpdatesKept config.store log := by
  intro hall
  have hkept := hall settings reactivated.1 reactivated.2 reaches_reactivated
  have hsaved : .userSaved .deactivate ana 0 ∈ reactivated.2 := by decide +kernel
  have hactive : (reactivated.1.store.findUserById ana.id).map User.status =
      some .active := by decide +kernel
  obtain ⟨row, hfind, hstatus⟩ := hkept.inactive ana 0 hsaved
  rw [hfind, Option.map_some, hstatus] at hactive
  cases hactive

end UpdateWitness

end Identity

end Workshop
