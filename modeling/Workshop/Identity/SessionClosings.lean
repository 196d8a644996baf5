/-
A deactivation or a password change and the sessions of the account.  Both
save the account and then revoke the sessions there are; a login that verified
the old credentials may insert its session later, and a refresh may revive one.
-/
import Workshop.Identity.Revocations
import Workshop.Identity.UserUpdates
import Workshop.Library.Recording

namespace Workshop

namespace Identity

abbrev RecordedDb := Recorded IdentityDb IdentityEffect
abbrev RecalledPlace := Recalled IdentityDb IdentityPlace IdentityEffect

/-- The requests of identity, each with what it found when it began. -/
def recordedExec (settings : IdentitySettings) :
    RecordedDb → RecalledPlace → IdentityInput →
      Option (Outcome RecordedDb RecalledPlace IdentityEffect) :=
  recording (fun place => decide (place = .idle)) (identityExec settings)

/-- The change of `before` leaves no session open that the account as `user`
describes it could have opened. -/
def endsLoginOf (change : UserChange) (before user : User) : Bool :=
  before.id = user.id &&
    (change = .deactivate || decide (before.passwordHash = user.passwordHash))

/-- An active session of an account whose sessions were ended is none of a
deactivated account, and was not opened with the replaced password. -/
def SessionsEnded (db : IdentityDb) (log : List IdentityEffect) : Prop :=
  ∀ change before, IdentityEffect.sessionsEnded change before ∈ log →
    ∀ row ∈ db.sessions, row.userId = before.id → row.status = .active →
      change ≠ .deactivate ∧ ∀ user, IdentityEffect.loggedIn row.id user ∈ log →
        user.passwordHash ≠ before.passwordHash

/-- The law of the claim: once every request has finished. -/
def SessionsEnd (config : Config IdentityDb IdentityPlace)
    (log : List IdentityEffect) : Prop :=
  (∀ pid, config.places pid = .idle) → SessionsEnded config.store log

/-- A login inserts its session, and is not refused, when no end of the sessions it
belongs to has committed since it began. -/
def insertsInTime (settings : IdentitySettings) (db : IdentityDb)
    (log began : List IdentityEffect) : IdentityPlace → IdentityInput → Bool
  | .opening user mustChangePassword ip userAgent now, .proceed _ =>
      (openSession settings db user mustChangePassword ip userAgent now).effects.isEmpty ||
        (log.drop began.length).all fun
          | .sessionsEnded change before => !endsLoginOf change before user
          | _ => true
  | _, _ => true

/-- Besides, a refresh rotates no token of a revoked session, and an account is
saved over the row it was loaded from. -/
def closesInTime (settings : IdentitySettings) (now : RecordedDb)
    (recalled : RecalledPlace) (input : IdentityInput) : Bool :=
  insertsInTime settings now.store now.log recalled.since.log recalled.place input &&
    rotatesUnrevoked settings now.store recalled.place input &&
    savesLoaded now.store recalled.place input

/-- The account as a login verified it. -/
def IdentityPlace.login : IdentityPlace → Option User
  | .verified user _ _ => some user
  | .opening user _ _ _ _ => some user
  | _ => none

/-- No end of sessions that a login found when it began was of its sessions. -/
structure LoginBegan (log began : List IdentityEffect) (user : User) : Prop where
  kept : ∃ later, log = began ++ later
  before : ∀ change before, IdentityEffect.sessionsEnded change before ∈ began →
    endsLoginOf change before user = false

/-- What the requests under way have found and committed. -/
structure ClosingKnown (log : List IdentityEffect) (recalled : RecalledPlace) :
    Prop where
  login : ∀ user, recalled.place.login = some user →
    LoginBegan log recalled.since.log user
  saved : ∀ change user, recalled.place = .loggingOut change user →
    ∃ now, IdentityEffect.userSaved change user now ∈ log ∧
      ∀ input, change ≠ .updateProfile input

/-- The sessions that are open, and where the entries of the log come from. -/
structure ClosingsKept (db : IdentityDb) (log : List IdentityEffect) : Prop where
  ended : SessionsEnded db log
  saved : ∀ change before, IdentityEffect.sessionsEnded change before ∈ log →
    ∃ now, IdentityEffect.userSaved change before now ∈ log ∧
      ∀ input, change ≠ .updateProfile input
  logins : ∀ id user, IdentityEffect.loggedIn id user ∈ log → id < db.nextId

section Steps

variable {settings : IdentitySettings} {db db' : IdentityDb}
variable {place next : IdentityPlace} {input : IdentityInput}
variable {effects log : List IdentityEffect}

/-- An account that can log in is not one whose sessions a change has ended. -/
theorem not_endsLoginOf_of_verified (htables : UserTables db) (hkept : UsersKept db log)
    (hinv : ClosingsKept db log) {user : User} (huser : user ∈ db.users)
    (hactive : user.canAuthenticate = true) {change : UserChange} {before : User}
    (hended : IdentityEffect.sessionsEnded change before ∈ log) :
    endsLoginOf change before user = false := by
  obtain ⟨now, hsaved, hprofile⟩ := hinv.saved change before hended
  have hfind := htables.find_of_mem huser
  by_contra hends
  rw [Bool.not_eq_false, endsLoginOf, Bool.and_eq_true, decide_eq_true_eq,
    Bool.or_eq_true, decide_eq_true_eq, decide_eq_true_eq] at hends
  obtain ⟨hid, hold⟩ := hends
  rw [← hid] at hfind
  cases change with
  | updateProfile input => exact hprofile input rfl
  | changePassword newHash =>
      refine (hkept.replaced newHash before now hsaved).2 user hfind ?_
      rcases hold with hdeactivated | hsame
      · cases hdeactivated
      · exact hsame.symm
  | deactivate =>
      have hinactive := hkept.inactive before now hsaved user hfind
      simp [User.canAuthenticate, hinactive] at hactive

theorem sessionsEnded_append (hinv : SessionsEnded db log)
    (hsessions : ∀ row ∈ db'.sessions, row.status = .active →
      ∃ old ∈ db.sessions, old.id = row.id ∧ old.userId = row.userId ∧
        old.status = .active)
    (hlogins : ∀ id user, IdentityEffect.loggedIn id user ∉ effects)
    (hended : ∀ change before, IdentityEffect.sessionsEnded change before ∈ effects →
      ∀ row ∈ db'.sessions, row.userId = before.id → row.status ≠ .active) :
    SessionsEnded db' (log ++ effects) := by
  intro change before hmem row hrow huser hactive
  rcases List.mem_append.mp hmem with hlog | hnew
  · obtain ⟨old, hold, hid, hsame, hstill⟩ := hsessions row hrow hactive
    obtain ⟨hchange, hopened⟩ :=
      hinv change before hlog old hold (hsame.trans huser) hstill
    refine ⟨hchange, fun user hlogin => hopened user ?_⟩
    rw [hid]
    exact (List.mem_append.mp hlogin).resolve_right (hlogins row.id user)
  · exact absurd hactive (hended change before hnew row hrow huser)

/-- The rows that are active after a save of a session are its own, or were
active before. -/
theorem active_of_save {session : Session}
    (hsave : db.saveSession session = .ok db') {row : SessionRow}
    (hrow : row ∈ db'.sessions) :
    row = session.toSessionRow ∨ row ∈ db.sessions ∧ row.id ≠ session.id := by
  obtain ⟨_, -, rfl⟩ := saveSession_eq_ok hsave
  exact mem_upsert.mp hrow

theorem nextId_sessionStep (h : SessionStep settings db place input db' effects) :
    db.nextId ≤ db'.nextId := by
  cases h with
  | frame _ _ _ _ _ _ hnext _ => exact hnext
  | opened _ _ _ _ _ _ _ _ _ hsave =>
      obtain ⟨_, -, rfl⟩ := saveSession_eq_ok hsave
      exact Nat.le_add_right _ _
  | rotated _ _ _ _ _ _ _ hsave =>
      obtain ⟨_, -, rfl⟩ := saveSession_eq_ok hsave
      exact Nat.le_add_right _ _
  | reused _ _ _ _ _ _ _ hsave =>
      obtain ⟨_, -, rfl⟩ := saveSession_eq_ok hsave
      exact Nat.le_refl _
  | revoked _ _ _ _ _ hsave =>
      obtain ⟨_, -, rfl⟩ := saveSession_eq_ok hsave
      exact Nat.le_refl _
  | ended => exact Nat.le_refl _

theorem sessionsEnded_opened (hinv : ClosingsKept db log) {user : User}
    {session : Session} (hid : session.id = db.nextId) (huser : session.userId = user.id)
    (hsave : { db with nextId := db.nextId + 3 }.saveSession session = .ok db')
    (hopen : ∀ change before, IdentityEffect.sessionsEnded change before ∈ log →
      endsLoginOf change before user = false) :
    SessionsEnded db' (log ++ [.loggedIn session.id user]) := by
  intro change before hmem row hrow howner hactive
  have hlog : IdentityEffect.sessionsEnded change before ∈ log := by simpa using hmem
  rcases active_of_save hsave hrow with rfl | ⟨hold, hne⟩
  · have hends := hopen change before hlog
    have hsame : before.id = user.id := howner.symm.trans huser
    simp only [endsLoginOf, hsame, decide_true, Bool.true_and, Bool.or_eq_false_iff,
      decide_eq_false_iff_not] at hends
    refine ⟨hends.1, fun opener hlogin => ?_⟩
    rcases List.mem_append.mp hlogin with hearlier | hnew
    · have hbelow := hinv.logins _ opener hearlier
      rw [hid] at hbelow
      exact absurd hbelow (Nat.lt_irrefl _)
    · cases List.mem_singleton.mp hnew
      exact Ne.symm hends.2
  · obtain ⟨hchange, hopened⟩ := hinv.ended change before hlog row hold howner hactive
    refine ⟨hchange, fun opener hlogin => hopened opener ?_⟩
    rcases List.mem_append.mp hlogin with hearlier | hnew
    · exact hearlier
    · have heq := List.mem_singleton.mp hnew
      rw [IdentityEffect.loggedIn.injEq] at heq
      exact absurd heq.1 hne

/-- A rotation writes an active row over one that is active. -/
theorem sessionsEnded_rotated (htables : SessionTables db) (hinv : SessionsEnded db log)
    {hash : RefreshTokenHash} {session rotated : Session} {now : Timestamp}
    (hcopy : CopyStored db session) (hopen : db.isSessionRevoked session.id = false)
    (hrotation : rotation settings db hash session now = .rotated rotated)
    (hsave : { db with nextId := db.nextId + 2 }.saveSession rotated = .ok db') :
    SessionsEnded db' (log ++ [.rotated hash rotated.id]) := by
  have hrotated := (rotated_of_rotation hrotation).2.1
  refine sessionsEnded_append hinv ?_ (by simp) (by simp)
  intro row hrow hactive
  rcases active_of_save hsave hrow with rfl | ⟨hold, -⟩
  · obtain ⟨stored, hstored, hid, huser⟩ := hcopy.row
    refine ⟨stored, hstored, ?_, ?_, ?_⟩
    · rw [hrotated]
      exact hid
    · rw [hrotated]
      exact huser
    · have hfind := htables.findSession_of_mem hstored
      rw [hid] at hfind
      rw [IdentityDb.isSessionRevoked, hfind] at hopen
      cases hstatus : stored.status with
      | active => rfl
      | revoked => simp [hstatus] at hopen
  · exact ⟨row, hold, rfl, rfl, hactive⟩

/-- A save of a revoked session makes no row active. -/
theorem sessionsEnded_revoked (hinv : SessionsEnded db log) {session : Session}
    (hrevoked : session.status = .revoked)
    (hsave : db.saveSession session = .ok db')
    (hlogins : ∀ id user, IdentityEffect.loggedIn id user ∉ effects)
    (hended : ∀ change before,
      IdentityEffect.sessionsEnded change before ∉ effects) :
    SessionsEnded db' (log ++ effects) := by
  refine sessionsEnded_append hinv ?_ hlogins
    fun change before hmem => absurd hmem (hended change before)
  intro row hrow hactive
  rcases active_of_save hsave hrow with rfl | ⟨hold, -⟩
  · rw [hrevoked] at hactive
    cases hactive
  · exact ⟨row, hold, rfl, rfl, hactive⟩

theorem sessionsEnded_logoutAll (hinv : SessionsEnded db log) {userId : UserId}
    {ended : List IdentityEffect}
    (hended : ∀ effect ∈ ended, ∃ change user,
      effect = .sessionsEnded change user ∧ user.id = userId ∧
        place = .loggingOut change user) :
    SessionsEnded (db.revokeAllActiveByUserId userId .logoutAll db.now)
      (log ++ ((db.activeSessionsOf userId).map IdentityEffect.sessionRevoked ++
        ended)) := by
  have hrows : ∀ row ∈ (db.revokeAllActiveByUserId userId .logoutAll db.now).sessions,
      row.status = .active → row.userId ≠ userId ∧ ∃ old ∈ db.sessions,
        old.id = row.id ∧ old.userId = row.userId ∧ old.status = .active := by
    intro row hrow hactive
    rw [revokeAll_sessions] at hrow
    obtain ⟨old, hold, rfl⟩ := List.mem_map.mp hrow
    rw [loggedOut_status] at hactive
    split at hactive
    · cases hactive
    · rename_i hother
      rw [loggedOut_userId]
      exact ⟨hother, old, hold, (loggedOut_id old).symm, rfl, hactive⟩
  refine sessionsEnded_append hinv (fun row hrow hactive => (hrows row hrow hactive).2)
    ?_ ?_
  · intro id user hmem
    rcases List.mem_append.mp hmem with hrevoked | hchange
    · simp at hrevoked
    · obtain ⟨change, owner, heq, -⟩ := hended _ hchange
      cases heq
  · intro change before hmem row hrow huser hactive
    rcases List.mem_append.mp hmem with hrevoked | hchange
    · simp at hrevoked
    · obtain ⟨_, owner, heq, hid, -⟩ := hended _ hchange
      cases heq
      exact (hrows row hrow hactive).1 (huser.trans hid)

end Steps

section Runs

variable {settings : IdentitySettings} {now : RecordedDb} {recalled : RecalledPlace}
variable {db db' : IdentityDb} {place next : IdentityPlace} {input : IdentityInput}
variable {effects log began : List IdentityEffect}
variable {config : Config RecordedDb RecalledPlace}

/-- No end of sessions in the log is of the session a login is to insert. -/
theorem not_ended_of_insertsInTime {user : User} {mustChangePassword : Bool}
    {ip userAgent : Option String} {moment : Timestamp} {mayRevokeAny : Bool}
    (hallowed : insertsInTime settings db log began
      (.opening user mustChangePassword ip userAgent moment)
      (.proceed mayRevokeAny) = true)
    (hopened : (openSession settings db user mustChangePassword ip userAgent
      moment).effects ≠ [])
    (hlogin : LoginBegan log began user) {change : UserChange} {before : User}
    (hended : IdentityEffect.sessionsEnded change before ∈ log) :
    endsLoginOf change before user = false := by
  obtain ⟨⟨later, rfl⟩, hbefore⟩ := hlogin
  rw [insertsInTime, List.drop_left, Bool.or_eq_true, List.isEmpty_iff] at hallowed
  rcases List.mem_append.mp hended with hfound | hsince
  · exact hbefore change before hfound
  · simpa using List.all_eq_true.mp (hallowed.resolve_left hopened) _ hsince

/-- What a move leaves of the requests of a login or of an end of sessions. -/
theorem closingPlace_of_move
    (h : IdentityMove settings db place input db' next effects) :
    (∀ user, next.login = some user → place.login = some user ∨
      place = .idle ∧ user ∈ db.users ∧ user.canAuthenticate = true ∧ effects = []) ∧
      ∀ change user, next = .loggingOut change user → place = .loggingOut change user ∨
        ∃ now, IdentityEffect.userSaved change user now ∈ effects ∧
          ∀ input, change ≠ .updateProfile input := by
  cases h with
  | tick => exact ⟨fun _ h => Or.inl h, fun _ _ h => Or.inl h⟩
  | verify _ user ip userAgent huser hactive =>
      refine ⟨fun other hother => Or.inr ?_, nofun⟩
      obtain rfl := Option.some.inj hother
      exact ⟨rfl, huser, hactive, rfl⟩
  | read => exact ⟨fun _ h => Or.inl h, nofun⟩
  | saveChange _ change user changed _ hchange hsave _ hnext =>
      rcases hnext with rfl | ⟨rfl, hprofile⟩
      · exact ⟨nofun, nofun⟩
      · refine ⟨nofun, fun other before heq => Or.inr ?_⟩
        cases heq
        exact ⟨db.now, List.mem_singleton_self _, hprofile⟩
  | _ =>
      constructor
      · intro user hnone
        cases hnone
      · intro change user hother
        cases hother

theorem ClosingsKept.append (hinv : ClosingsKept db log) (hnext : db.nextId ≤ db'.nextId)
    (hended : SessionsEnded db' (log ++ effects))
    (hsaved : ∀ change before, IdentityEffect.sessionsEnded change before ∈ effects →
      ∃ now, IdentityEffect.userSaved change before now ∈ log ∧
        ∀ input, change ≠ .updateProfile input)
    (hlogins : ∀ id user, IdentityEffect.loggedIn id user ∈ effects →
      id < db'.nextId) :
    ClosingsKept db' (log ++ effects) := by
  refine ⟨hended, fun change before hmem => ?_, fun id user hmem => ?_⟩
  · have hlog : ∃ now, IdentityEffect.userSaved change before now ∈ log ∧
        ∀ input, change ≠ .updateProfile input := by
      rcases List.mem_append.mp hmem with hold | hnew
      · exact hinv.saved change before hold
      · exact hsaved change before hnew
    exact hlog.imp fun _ h => ⟨List.mem_append_left _ h.1, h.2⟩
  · rcases List.mem_append.mp hmem with hold | hnew
    · exact Nat.lt_of_lt_of_le (hinv.logins id user hold) hnext
    · exact hlogins id user hnew

theorem closingsKept_step (htables : SessionTables db) (hstored : place.Stored db)
    (hinserts : insertsInTime settings db log began place input = true)
    (hrotates : rotatesUnrevoked settings db place input = true)
    (hinv : ClosingsKept db log)
    (hlogin : ∀ user, place.login = some user → LoginBegan log began user)
    (hsaved : ∀ change user, place = .loggingOut change user →
      ∃ now, IdentityEffect.userSaved change user now ∈ log ∧
        ∀ input, change ≠ .updateProfile input)
    (h : SessionStep settings db place input db' effects) :
    ClosingsKept db' (log ++ effects) := by
  have hnext := nextId_sessionStep h
  cases h with
  | frame _ _ _ _ hsessions _ _ hquiet =>
      have hlogins : ∀ id user, IdentityEffect.loggedIn id user ∉ effects :=
        fun id user hmem => absurd (hquiet _ hmem) (by simp [IdentityEffect.onSessions])
      have hended : ∀ change before,
          IdentityEffect.sessionsEnded change before ∉ effects :=
        fun _ _ hmem => absurd (hquiet _ hmem) (by simp [IdentityEffect.onSessions])
      apply hinv.append hnext
      · refine sessionsEnded_append hinv.ended ?_ hlogins
          fun change before hmem => absurd hmem (hended change before)
        rw [hsessions]
        exact fun row hrow hactive => ⟨row, hrow, rfl, rfl, hactive⟩
      · exact fun change before hmem => absurd hmem (hended change before)
      · exact fun id user hmem => absurd hmem (hlogins id user)
  | opened _ user _ ip userAgent now session _ hsession hsave =>
      have hid : session.id = db.nextId := by rw [hsession]; rfl
      have huser : session.userId = user.id := by rw [hsession]; rfl
      apply hinv.append hnext
      · refine sessionsEnded_opened hinv hid huser hsave fun change before hended => ?_
        refine not_ended_of_insertsInTime hinserts ?_ (hlogin user rfl) hended
        simp [openSession, ← hsession, hsave]
      · simp
      · intro id opener hmem
        cases List.mem_singleton.mp hmem
        obtain ⟨_, -, rfl⟩ := saveSession_eq_ok hsave
        rw [hid]
        exact Nat.lt_add_of_pos_right (by decide)
  | rotated _ hash session rotated now _ hrotation hsave =>
      apply hinv.append hnext
      · exact sessionsEnded_rotated htables hinv.ended hstored.1
          (unrevoked_of_rotated htables hrotates hrotation hsave) hrotation hsave
      · simp
      · simp
  | reused _ hash session revoked now _ hrotation hsave =>
      obtain ⟨-, rfl⟩ := reused_of_rotation hrotation
      apply hinv.append hnext
      · exact sessionsEnded_revoked hinv.ended Session.revoke_status hsave (by simp)
          (by simp)
      · simp
      · simp
  | revoked _ session reason now _ hsave =>
      apply hinv.append hnext
      · exact sessionsEnded_revoked hinv.ended Session.revoke_status hsave (by simp)
          (by simp)
      · simp
      · simp
  | ended _ _ userId ended hended =>
      apply hinv.append hnext
      · exact sessionsEnded_logoutAll hinv.ended hended
      · intro change before hmem
        rcases List.mem_append.mp hmem with hrevoked | hchange
        · simp at hrevoked
        · obtain ⟨_, owner, heq, -, hplace⟩ := hended _ hchange
          cases heq
          exact hsaved change before hplace
      · intro id user hmem
        rcases List.mem_append.mp hmem with hrevoked | hchange
        · simp at hrevoked
        · obtain ⟨change, owner, heq, -⟩ := hended _ hchange
          cases heq

theorem LoginBegan.append {user : User} (h : LoginBegan log began user) :
    LoginBegan (log ++ effects) began user := by
  obtain ⟨⟨later, rfl⟩, hbefore⟩ := h
  exact ⟨⟨later ++ effects, List.append_assoc _ _ _⟩, hbefore⟩

theorem ClosingKnown.append (h : ClosingKnown log recalled) :
    ClosingKnown (log ++ effects) recalled := by
  refine ⟨fun user hlogin => (h.login user hlogin).append, fun change user hplace => ?_⟩
  exact (h.saved change user hplace).imp fun _ hsaved =>
    ⟨List.mem_append_left _ hsaved.1, hsaved.2⟩

/-- The restriction on what a request remembers restricts what it does. -/
theorem closesInTime_parts
    (h : closesInTime settings now recalled input = true) :
    insertsInTime settings now.store now.log recalled.since.log recalled.place input = true ∧
      rotatesUnrevoked settings now.store recalled.place input = true ∧
      savesLoaded now.store recalled.place input = true := by
  unfold closesInTime at h
  rw [Bool.and_eq_true, Bool.and_eq_true] at h
  exact ⟨h.1.1, h.1.2, h.2⟩

theorem closingsKept_of_reaches
    (h : ReachesBy (recordedExec settings)
      (fun now recalled input => closesInTime settings now recalled input = true)
      emptyIdentity.record config log) :
    ClosingsKept config.forget.store log ∧
      ∀ pid, ClosingKnown log (config.places pid) := by
  refine ReachesBy.invariant_of_places (G := fun now log => ClosingsKept now.store log)
    (L := fun _ log recalled => ClosingKnown log recalled) ?_ ?_ ?_ ?_ h
  · constructor
    all_goals simp [SessionsEnded]
  · intro pid
    exact ⟨nofun, nofun⟩
  · intro config log pid input out before hinv hknown hallowed hexec
    obtain ⟨hinserts, hrotates, -⟩ := closesInTime_parts hallowed
    have hforgotten : ReachesBy (identityExec settings)
        (fun db place input => savesLoaded db place input = true) emptyIdentity
        config.forget log ∧ config.store.log = log :=
      before.forget fun h => (closesInTime_parts h).2.2
    obtain ⟨hplain, hlog⟩ := hforgotten
    obtain ⟨htables, hstored⟩ := sessionTables_of_reaches hplain
    obtain ⟨plain, hstep, rfl⟩ := recording_eq_some.mp hexec
    have hmove := identityMove_of_exec hstep
    rw [hlog] at hinserts
    refine ⟨closingsKept_step htables (hstored pid) hinserts hrotates hinv
      (hknown pid).login (hknown pid).saved (sessionStep_of_move hmove), ?_⟩
    obtain ⟨hlogin, hsaved⟩ := closingPlace_of_move hmove
    constructor
    · intro user huser
      rcases hlogin user huser with hbefore | ⟨hidle, hmem, hactive, hnone⟩
      · have hbusy : (config.places pid).place ≠ .idle := by
          intro hidle
          rw [hidle] at hbefore
          cases hbefore
        rw [if_neg (by simpa using hbusy)]
        exact ((hknown pid).login user hbefore).append
      · rw [if_pos (by simpa using hidle), hlog]
        refine ⟨⟨_, rfl⟩, fun change before hended => ?_⟩
        exact not_endsLoginOf_of_verified (userTables_of_reaches hplain).1
          (usersKept_of_reaches hplain) hinv hmem hactive hended
    · intro change user hplace
      rcases hsaved change user hplace with hbefore | ⟨moment, hmem, hprofile⟩
      · exact ((hknown pid).saved change user hbefore).imp fun _ h =>
          ⟨List.mem_append_left _ h.1, h.2⟩
      · exact ⟨moment, List.mem_append_right _ hmem, hprofile⟩
  · intro config log pid input out before hinv hknown hallowed hexec other _
    exact (hknown other).append

/-- A deactivation and a password change close every session they mean to, in a
run whose logins insert their sessions in time. -/
theorem sessions_end
    (h : ReachesBy (recordedExec settings)
      (fun now recalled input => closesInTime settings now recalled input = true)
      emptyIdentity.record config log) :
    SessionsEnd config.forget log :=
  fun _ => (closingsKept_of_reaches h).1.ended

end Runs

namespace ClosingWitness

open IdentityWitness (settings registered loggedIn)
open UpdateWitness (ana)

/-- User 0 changes the password while a refresh is under way, and logs in
again. -/
def loggedInAgain : Config RecordedDb RecalledPlace × List IdentityEffect :=
  endOfRun (recordedExec settings) emptyIdentity.record
    (loggedIn ++ [(1, .refresh 4), (1, .proceed false), (2, .changePassword 0 "secret"),
      (1, .proceed false), (2, .proceed false), (2, .proceed false),
      (2, .proceed false), (1, .abort),
      (3, .authenticate "ana@example.com" "secret" none none), (3, .proceed false),
      (3, .proceed false), (3, .proceed false)])
    (by decide +kernel)

theorem sessions_end_loggedInAgain :
    SessionsEnd loggedInAgain.1.forget loggedInAgain.2 :=
  sessions_end (reachesBy_endOfRun (closesInTime settings) id (by decide +kernel) _)

/-- A login verifies the account and inserts its session after a deactivation
has run from its first statement to its last. -/
def openedAfter : List (Nat × IdentityInput) :=
  registered ++ [(0, .authenticate "ana@example.com" "secret" none none),
    (0, .proceed false), (1, .deactivateUser 0), (1, .proceed false),
    (1, .proceed false), (1, .proceed false), (0, .proceed false),
    (0, .proceed false)]

theorem openedAfter_runs :
    (runTurns (identityExec settings) emptyIdentity openedAfter).isSome := by
  decide +kernel

def opened : Config IdentityDb IdentityPlace × List IdentityEffect :=
  endOfRun (identityExec settings) emptyIdentity openedAfter openedAfter_runs

theorem opened_idle (pid : Nat) : opened.1.places pid = .idle := by
  have hpids : ∀ turn ∈ openedAfter, turn.1 < 2 := by decide +kernel
  rcases Nat.lt_or_ge pid 2 with hlt | hge
  · have hboth : ∀ pid < 2, opened.1.places pid = .idle := by decide +kernel
    exact hboth pid hlt
  · exact endOfRun_places openedAfter_runs fun turn hturn =>
      Nat.ne_of_lt (Nat.lt_of_lt_of_le (hpids turn hturn) hge)

theorem reaches_opened : IdentityReaches settings opened.1 opened.2 :=
  reaches_endOfRun _

theorem sessions_not_always_end :
    ¬ ∀ settings config log, IdentityReaches settings config log →
      SessionsEnd config log := by
  intro hall
  have hend := hall settings opened.1 opened.2 reaches_opened opened_idle
  have hended : .sessionsEnded .deactivate ana ∈ opened.2 := by decide +kernel
  have hactive : ∃ row ∈ opened.1.store.sessions, row.userId = ana.id ∧
      row.status = .active := by decide +kernel
  obtain ⟨row, hrow, huser, hstatus⟩ := hactive
  exact (hend .deactivate ana hended row hrow huser hstatus).1 rfl

end ClosingWitness

end Identity

end Workshop
