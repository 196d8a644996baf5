/-
What one statement of a request of identity can do, said once: the invariants
split on the moves below and never unfold the program.
-/
import Workshop.Identity.IdentityProgram
import Workshop.Library.Results

namespace Workshop

namespace Identity

/-- What a statement leaves behind: the tables, the place and its effects. -/
inductive IdentityMove (settings : IdentitySettings) (db : IdentityDb) :
    IdentityPlace → IdentityInput → IdentityDb → IdentityPlace →
      List IdentityEffect → Prop
  | tick (place : IdentityPlace) (elapsed : Nat) :
      IdentityMove settings db place (.tick elapsed)
        { db with now := db.now + elapsed } place []
  /- It was refused, it failed or the process crashed. -/
  | stop (place : IdentityPlace) (input : IdentityInput) :
      IdentityMove settings db place input db .idle []
  | register (input : IdentityInput) (user : User) (db' : IdentityDb)
      (hid : user.id = db.nextId) (hhash : user.passwordHash = db.nextId + 1)
      (hsave : { db with nextId := db.nextId + 2 }.saveUser user = .ok db') :
      IdentityMove settings db .idle input db' .idle [.registered user]
  | verify (input : IdentityInput) (user : User) (ip userAgent : Option String)
      (huser : user ∈ db.users) (hactive : user.canAuthenticate = true) :
      IdentityMove settings db .idle input db (.verified user ip userAgent) []
  | read (input : IdentityInput) (user : User) (ip userAgent : Option String)
      (mustChangePassword : Bool) :
      IdentityMove settings db (.verified user ip userAgent) input db
        (.opening user mustChangePassword ip userAgent db.now) []
  | openSession (mayRevokeAny : Bool) (user : User) (mustChangePassword : Bool)
      (ip userAgent : Option String) (now : Timestamp) (session : Session)
      (db' : IdentityDb)
      (hsession : session = Session.start {
        id := db.nextId, userId := user.id, ip, userAgent
        initialTokenId := db.nextId + 1
        initialTokenHash := settings.hash (db.nextId + 2)
        refreshTokenTtlSeconds := settings.refreshTokenTtlSeconds
        absoluteTtlSeconds := settings.sessionAbsoluteTtlSeconds, now })
      (hsave : { db with nextId := db.nextId + 3 }.saveSession session = .ok db') :
      IdentityMove settings db (.opening user mustChangePassword ip userAgent now)
        (.proceed mayRevokeAny) db' (.signing none session mustChangePassword)
        [.loggedIn session.id user]
  | present (input : IdentityInput) (token : TokenRow)
      (htoken : token ∈ db.tokens) :
      IdentityMove settings db .idle input db
        (.presenting token.tokenHash token) []
  | loadSession (input : IdentityInput) (hash : RefreshTokenHash)
      (token : TokenRow) (row : SessionRow)
      (hrow : db.findSession token.sessionId = some row) :
      IdentityMove settings db (.presenting hash token) input db
        (.refreshing hash { row with tokens := [token.toRefreshToken] } db.now) []
  | rotate (mayRevokeAny : Bool) (hash : RefreshTokenHash)
      (session rotated : Session) (now : Timestamp) (db' : IdentityDb)
      (hrotation : rotation settings db hash session now = .rotated rotated)
      (hsave : { db with nextId := db.nextId + 2 }.saveSession rotated = .ok db') :
      IdentityMove settings db (.refreshing hash session now)
        (.proceed mayRevokeAny) db' (.renewing hash rotated) [.rotated hash rotated.id]
  | reuse (mayRevokeAny : Bool) (hash : RefreshTokenHash)
      (session revoked : Session) (now : Timestamp) (db' : IdentityDb)
      (hrotation : rotation settings db hash session now = .reused revoked)
      (hsave : db.saveSession revoked = .ok db') :
      IdentityMove settings db (.refreshing hash session now)
        (.proceed mayRevokeAny) db' (.adding [revoked.id] true)
        [.reuseSaved revoked.id (hasActiveToken db' revoked.id),
          .sessionRevoked revoked.id]
  | renew (input : IdentityInput) (hash : RefreshTokenHash) (session : Session)
      (mustChangePassword : Bool) :
      IdentityMove settings db (.renewing hash session) input db
        (.signing (some hash) session mustChangePassword) []
  | sign (mayRevokeAny : Bool) (presented : Option RefreshTokenHash)
      (session : Session) (mustChangePassword : Bool) :
      IdentityMove settings db (.signing presented session mustChangePassword)
        (.proceed mayRevokeAny)
        (signToken settings db presented session mustChangePassword).store .idle
        (presented.map IdentityEffect.exchanged).toList
  | find (input : IdentityInput) (row : SessionRow) (actorUserId : UserId)
      (hrow : db.findSession row.id = some row) :
      IdentityMove settings db .idle input db (.finding row actorUserId) []
  | loadTokens (input : IdentityInput) (row : SessionRow) (actorUserId : UserId)
      (reason : SessionRevocationReason) :
      IdentityMove settings db (.finding row actorUserId) input db
        (.revoking { row with tokens := db.activeTokens row.id } reason db.now) []
  | revoke (input : IdentityInput) (session : Session)
      (reason : SessionRevocationReason) (now : Timestamp) (db' : IdentityDb)
      (hsave : db.saveSession (session.revoke reason now) = .ok db') :
      IdentityMove settings db (.revoking session reason now) input db'
        (.adding [session.id] false) [.sessionRevoked session.id]
  | logoutAll (input : IdentityInput) (userId : UserId) :
      IdentityMove settings db .idle input
        (db.revokeAllActiveByUserId userId .logoutAll db.now)
        (.adding (db.activeSessionsOf userId) false)
        ((db.activeSessionsOf userId).map IdentityEffect.sessionRevoked)
  | endSessions (input : IdentityInput) (change : UserChange) (user : User) :
      IdentityMove settings db (.loggingOut change user) input
        (db.revokeAllActiveByUserId user.id .logoutAll db.now)
        (.adding (db.activeSessionsOf user.id) false)
        ((db.activeSessionsOf user.id).map IdentityEffect.sessionRevoked ++
          [.sessionsEnded change user])
  | add (input : IdentityInput) (sessionIds : List SessionId) (reuse : Bool) :
      IdentityMove settings db (.adding sessionIds reuse) input
        (db.addManyRevoked sessionIds settings.accessTokenTtlSeconds) .idle
        (if reuse then [] else sessionIds.map IdentityEffect.closed)
  | loadProfile (input : IdentityInput) (profile : User.UpdateProfileInput)
      (user : User) (huser : db.findUserById user.id = some user) :
      IdentityMove settings db .idle input db (.checkingEmail profile user) []
  | checkEmail (input : IdentityInput) (profile : User.UpdateProfileInput)
      (user : User) :
      IdentityMove settings db (.checkingEmail profile user) input db
        (.checkingDocument profile user) []
  | checkDocument (input : IdentityInput) (profile : User.UpdateProfileInput)
      (user : User) :
      IdentityMove settings db (.checkingDocument profile user) input db
        (.changing (.updateProfile profile) user) []
  | loadPassword (input : IdentityInput) (user : User)
      (huser : db.findUserById user.id = some user) :
      IdentityMove settings db .idle input { db with nextId := db.nextId + 1 }
        (.changing (.changePassword db.nextId) user) []
  | loadDeactivation (input : IdentityInput) (user : User)
      (huser : db.findUserById user.id = some user) :
      IdentityMove settings db .idle input db (.changing .deactivate user) []
  | saveChange (mayRevokeAny : Bool) (change : UserChange) (user changed : User)
      (db' : IdentityDb) (hchange : change.apply user db.now = .ok changed)
      (hsave : db.saveUser changed = .ok db') (next : IdentityPlace)
      (hnext : next = .idle ∨
        (next = .loggingOut change user ∧ ∀ input, change ≠ .updateProfile input)) :
      IdentityMove settings db (.changing change user) (.proceed mayRevokeAny) db' next
        [.userSaved change user db.now]
  | verifyToken (input : IdentityInput) (token : AccessToken)
      (haccepts : db.accepts token = true) :
      IdentityMove settings db .idle input db (.checking token) []
  | accept (mayRevokeAny : Bool) (token : AccessToken)
      (hlive : db.isRevoked token.sessionId = false) :
      IdentityMove settings db (.checking token) (.proceed mayRevokeAny) db .idle
        [.accepted token]

section Moves

variable {settings : IdentitySettings} {db : IdentityDb} {place : IdentityPlace}
variable {input : IdentityInput} {mayRevokeAny : Bool} {out : IdentityOutcome}

theorem findUserById_id {id : UserId} {user : User}
    (h : db.findUserById id = some user) : db.findUserById user.id = some user := by
  have hid : user.id = id := by simpa using List.find?_some h
  rw [hid]
  exact h

theorem findSession_id {id : SessionId} {row : SessionRow}
    (h : db.findSession id = some row) : db.findSession row.id = some row := by
  have hid : row.id = id := by simpa using List.find?_some h
  rw [hid]
  exact h

theorem registerUser_move {email name document : String} {issuedByStaff : Bool} :
    IdentityMove settings db .idle input
      (registerUser db email name document issuedByStaff).store
      (registerUser db email name document issuedByStaff).place
      (registerUser db email name document issuedByStaff).effects := by
  simp only [registerUser]
  split
  · exact IdentityMove.stop _ _
  · rename_i user hregister
    split
    · exact IdentityMove.stop _ _
    · rename_i db' hsave
      obtain ⟨_, -, huser⟩ := bind_eq_ok_iff.mp hregister
      rw [pure_eq_ok_iff] at huser
      exact IdentityMove.register input user db' (by rw [← huser]) (by rw [← huser])
        hsave

theorem openSession_move {user : User} {mustChangePassword : Bool}
    {ip userAgent : Option String} {now : Timestamp} :
    IdentityMove settings db (.opening user mustChangePassword ip userAgent now)
      (.proceed mayRevokeAny)
      (openSession settings db user mustChangePassword ip userAgent now).store
      (openSession settings db user mustChangePassword ip userAgent now).place
      (openSession settings db user mustChangePassword ip userAgent now).effects := by
  simp only [openSession]
  split
  · exact IdentityMove.stop _ _
  · rename_i db' hsave
    exact IdentityMove.openSession mayRevokeAny user mustChangePassword ip userAgent now _
      db' rfl hsave

theorem rotateSession_move {hash : RefreshTokenHash} {session : Session}
    {now : Timestamp} :
    IdentityMove settings db (.refreshing hash session now) (.proceed mayRevokeAny)
      (rotateSession settings db hash session now).store
      (rotateSession settings db hash session now).place
      (rotateSession settings db hash session now).effects := by
  simp only [rotateSession]
  split
  · exact IdentityMove.stop _ _
  · rename_i revoked hrotation
    split
    · exact IdentityMove.stop _ _
    · rename_i db' hsave
      exact IdentityMove.reuse mayRevokeAny hash session revoked now db' hrotation hsave
  · rename_i rotated hrotation
    split
    · exact IdentityMove.stop _ _
    · rename_i db' hsave
      exact IdentityMove.rotate mayRevokeAny hash session rotated now db' hrotation hsave

theorem revokeSession_move {session : Session} {reason : SessionRevocationReason}
    {now : Timestamp} :
    IdentityMove settings db (.revoking session reason now) input
      (revokeSession db session reason now).store
      (revokeSession db session reason now).place
      (revokeSession db session reason now).effects := by
  simp only [revokeSession]
  split
  · exact IdentityMove.stop _ _
  · rename_i db' hsave
    exact IdentityMove.revoke input session reason now db' hsave

theorem saveChange_move {change : UserChange} {user : User} :
    IdentityMove settings db (.changing change user) (.proceed mayRevokeAny)
      (saveChange db change user).store (saveChange db change user).place
      (saveChange db change user).effects := by
  simp only [saveChange]
  split
  · exact IdentityMove.stop _ _
  · rename_i changed hchange
    split
    · exact IdentityMove.stop _ _
    · rename_i db' hsave
      refine IdentityMove.saveChange mayRevokeAny change user changed db' hchange hsave _ ?_
      cases change with
      | updateProfile input => exact Or.inl rfl
      | changePassword newHash => exact Or.inr ⟨rfl, nofun⟩
      | deactivate => exact Or.inr ⟨rfl, nofun⟩

/-- Every statement of identity is one of the moves. -/
theorem identityMove_of_exec (hexec : identityExec settings db place input = some out) :
    IdentityMove settings db place input out.store out.place out.effects := by
  unfold identityExec at hexec
  split at hexec
  case h_1 => cases hexec; exact IdentityMove.tick _ _
  case h_2 => cases hexec; exact IdentityMove.stop _ _
  case h_3 => cases hexec; exact registerUser_move
  case h_4 email password ip userAgent =>
    split at hexec
    · cases hexec
      exact IdentityMove.stop _ _
    · rename_i user hverified
      cases hexec
      obtain ⟨hfind, hpass⟩ := Option.filter_eq_some_iff.mp hverified
      rw [Bool.and_eq_true] at hpass
      exact IdentityMove.verify _ user ip userAgent (List.mem_of_find?_eq_some hfind)
        hpass.2
  case h_5 user ip userAgent _ =>
    split at hexec
    · cases hexec
      exact IdentityMove.stop _ _
    · cases hexec
      exact IdentityMove.read _ user ip userAgent _
  case h_6 => cases hexec; exact openSession_move
  case h_7 refreshToken =>
    split at hexec
    · cases hexec
      exact IdentityMove.stop _ _
    · rename_i token hfind
      cases hexec
      have hhash : token.tokenHash = settings.hash refreshToken := by
        simpa using List.find?_some hfind
      rw [← hhash]
      exact IdentityMove.present _ token (List.mem_of_find?_eq_some hfind)
  case h_8 hash token _ =>
    split at hexec
    · cases hexec
      exact IdentityMove.stop _ _
    · rename_i row hrow
      cases hexec
      exact IdentityMove.loadSession _ hash token row hrow
  case h_9 => cases hexec; exact rotateSession_move
  case h_10 hash session _ =>
    split at hexec
    · cases hexec
      exact IdentityMove.stop _ _
    · cases hexec
      exact IdentityMove.renew _ hash session _
  case h_11 presented session mustChangePassword _ =>
    cases hexec
    exact IdentityMove.sign _ presented session mustChangePassword
  case h_12 sessionId actorUserId =>
    split at hexec
    · cases hexec
      exact IdentityMove.stop _ _
    · rename_i row hrow
      cases hexec
      exact IdentityMove.find _ row actorUserId (findSession_id hrow)
  case h_13 row actorUserId mayRevokeAny =>
    split at hexec
    · cases hexec
      exact IdentityMove.stop _ _
    · rename_i reason hreason
      cases hexec
      exact IdentityMove.loadTokens _ row actorUserId reason
  case h_14 => cases hexec; exact revokeSession_move
  case h_15 userId =>
    cases hexec
    have hmove : IdentityMove settings db .idle _ _ _ _ :=
      IdentityMove.logoutAll (.logoutAll userId) userId
    simpa only [logoutAll, List.append_nil] using hmove
  case h_16 sessionIds reuse _ =>
    cases hexec
    exact IdentityMove.add _ sessionIds reuse
  case h_17 userId profile =>
    split at hexec
    · cases hexec
      exact IdentityMove.stop _ _
    · rename_i user huser
      cases hexec
      exact IdentityMove.loadProfile _ profile user (findUserById_id huser)
  case h_18 profile user _ =>
    split at hexec
    · cases hexec
      exact IdentityMove.stop _ _
    · cases hexec
      exact IdentityMove.checkEmail _ profile user
  case h_19 profile user _ =>
    split at hexec
    · cases hexec
      exact IdentityMove.stop _ _
    · cases hexec
      exact IdentityMove.checkDocument _ profile user
  case h_20 userId currentPassword =>
    split at hexec
    · cases hexec
      exact IdentityMove.stop _ _
    · rename_i user huser
      split at hexec
      · cases hexec
        exact IdentityMove.loadPassword _ user (findUserById_id huser)
      · cases hexec
        exact IdentityMove.stop _ _
  case h_21 userId =>
    split at hexec
    · cases hexec
      exact IdentityMove.stop _ _
    · rename_i user huser
      cases hexec
      exact IdentityMove.loadDeactivation _ user (findUserById_id huser)
  case h_22 => cases hexec; exact saveChange_move
  case h_23 change user _ =>
    cases hexec
    exact IdentityMove.endSessions _ change user
  case h_24 token =>
    split at hexec
    · rename_i haccepts
      cases hexec
      exact IdentityMove.verifyToken _ token haccepts
    · cases hexec
      exact IdentityMove.stop _ _
  case h_25 token _ =>
    split at hexec
    · cases hexec
      exact IdentityMove.stop _ _
    · rename_i hlive
      cases hexec
      exact IdentityMove.accept _ token (Bool.eq_false_iff.mpr hlive)
  case h_26 => cases hexec

end Moves

end Identity

end Workshop
