/-
The requests identity serves, as programs that interleave at their reads and
at the transactions they commit.  A request that loads a row carries the copy
as it was loaded; what it does to the copy in memory is done where it saves,
with the clock of the load.
-/
import Workshop.Identity.IdentityDb
import Workshop.Library.Interleaving

namespace Workshop

namespace Identity

/-- Where a request stands between two statements. -/
inductive IdentityPlace
  | idle
  /-- `AuthenticateUserUseCase` verified the credentials of the account it read;
  the read by id is next. -/
  | verified (user : User) (ip userAgent : Option String)
  /-- The save of the new session is next. -/
  | opening (user : User) (mustChangePassword : Bool) (ip userAgent : Option String)
      (now : Timestamp)
  /-- `RefreshSessionUseCase` read the token row; the session row is next. -/
  | presenting (hash : RefreshTokenHash) (token : TokenRow)
  /-- It read the session; the rotation and its save are next. -/
  | refreshing (hash : RefreshTokenHash) (session : Session) (now : Timestamp)
  /-- The rotation is committed; the read of the user is next. -/
  | renewing (hash : RefreshTokenHash) (session : Session)
  /-- The access token is signed and answered next. -/
  | signing (presented : Option RefreshTokenHash) (session : Session)
      (mustChangePassword : Bool)
  /-- `RevokeSessionUseCase` read the session row; its active tokens are next. -/
  | finding (row : SessionRow) (actorUserId : UserId)
  /-- The revocation and its save are next. -/
  | revoking (session : Session) (reason : SessionRevocationReason)
      (now : Timestamp)
  /-- The keys of the revoked session list are next; then the request ends,
  with an error when it detected a reuse. -/
  | adding (sessionIds : List SessionId) (reuse : Bool)
  /-- `UpdateUserUseCase` loaded the user; the read by email is next. -/
  | checkingEmail (input : User.UpdateProfileInput) (user : User)
  /-- The read by document is next. -/
  | checkingDocument (input : User.UpdateProfileInput) (user : User)
  /-- The change of the loaded user and its save are next. -/
  | changing (change : UserChange) (user : User)
  /-- `LogoutAllSessionsUseCase`, after a saved deactivation or password change
  of the loaded user. -/
  | loggingOut (change : UserChange) (user : User)
  /-- `JwtAuthGuard` verified the token; the look at the revoked session list is
  next. -/
  | checking (token : AccessToken)
deriving DecidableEq, Repr

/-- What a request asks for, or how the statement it stands at ends. -/
inductive IdentityInput
  | register (email name document : String) (issuedByStaff : Bool)
  | authenticate (email password : String) (ip userAgent : Option String)
  | refresh (refreshToken : Uuid)
  | revokeSession (sessionId : SessionId) (actorUserId : UserId)
  | logoutAll (userId : UserId)
  | updateUser (userId : UserId) (input : User.UpdateProfileInput)
  | changePassword (userId : UserId) (currentPassword : String)
  | deactivateUser (userId : UserId)
  | authorize (token : AccessToken)
  /-- The statement the request stands at commits.  `mayRevokeAny` is whether
  the actor holds `sessions:revoke-any`. -/
  | proceed (mayRevokeAny : Bool)
  /-- Time passes. -/
  | tick (elapsed : Nat)
  /-- The statement fails or the process crashes. -/
  | abort
deriving DecidableEq, Repr

/-- What a statement commits or answers. -/
inductive IdentityEffect
  /-- The row of an account was written; the change was made to `before`. -/
  | registered (user : User)
  | userSaved (change : UserChange) (before : User) (now : Timestamp)
  /-- A session was inserted for the account as it was verified. -/
  | loggedIn (sessionId : SessionId) (user : User)
  /-- The transaction of a revocation committed. -/
  | sessionRevoked (sessionId : SessionId)
  /-- A refresh saved its session: with new tokens, or revoked because of a
  reuse, with an active token of the session left or not. -/
  | rotated (hash : RefreshTokenHash) (sessionId : SessionId)
  | reuseSaved (sessionId : SessionId) (activeLeft : Bool)
  /-- A refresh answered a new token pair. -/
  | exchanged (hash : RefreshTokenHash)
  /-- A revocation of one session, or of all, returned. -/
  | closed (sessionId : SessionId)
  /-- The sessions of an account were revoked after the change was saved. -/
  | sessionsEnded (change : UserChange) (before : User)
  /-- `JwtAuthGuard` let a request pass. -/
  | accepted (token : AccessToken)
deriving DecidableEq, Repr

/-- The outcome of one statement of a request. -/
abbrev IdentityOutcome := Outcome IdentityDb IdentityPlace IdentityEffect

/-- A statement that writes nothing. -/
def goTo (db : IdentityDb) (place : IdentityPlace) : IdentityOutcome :=
  { store := db, place := place }

/-- `RegisterUserUseCase`, whose insert commits with the role it assigns. -/
def registerUser (db : IdentityDb) (email name document : String)
    (issuedByStaff : Bool) : IdentityOutcome :=
  let user := User.register {
    id := db.nextId, email, name, document, passwordHash := db.nextId + 1
    now := db.now, temporary := issuedByStaff }
  match user with
  | .error _ => goTo db .idle
  | .ok user =>
      match { db with nextId := db.nextId + 2 }.saveUser user with
      | .error _ => goTo db .idle
      | .ok db => { store := db, place := .idle, effects := [.registered user] }

/-- `VerifyCredentialsUseCase` -/
def verifyCredentials (settings : IdentitySettings) (db : IdentityDb)
    (email password : String) : Option User :=
  (db.findUserByEmail email).filter fun user =>
    settings.verify user.passwordHash password && user.canAuthenticate

/-- `GetUserByIdUseCase` -/
def getUserById (db : IdentityDb) (id : UserId) : Option User :=
  (db.findUserById id).filter fun user => user.deletedAt.isNone

/-- The new session of a login and its save. -/
def openSession (settings : IdentitySettings) (db : IdentityDb) (user : User)
    (mustChangePassword : Bool) (ip userAgent : Option String) (now : Timestamp) :
    IdentityOutcome :=
  let session := Session.start {
    id := db.nextId, userId := user.id, ip, userAgent
    initialTokenId := db.nextId + 1
    initialTokenHash := settings.hash (db.nextId + 2)
    refreshTokenTtlSeconds := settings.refreshTokenTtlSeconds
    absoluteTtlSeconds := settings.sessionAbsoluteTtlSeconds, now }
  match { db with nextId := db.nextId + 3 }.saveSession session with
  | .error _ => goTo db .idle
  | .ok db => {
      store := db, place := .signing none session mustChangePassword
      effects := [.loggedIn session.id user] }

/-- What a refresh makes of the session it loaded. -/
def rotation (settings : IdentitySettings) (db : IdentityDb)
    (hash : RefreshTokenHash) (session : Session) (now : Timestamp) :
    Session.Rotation :=
  session.rotateRefreshToken {
    presentedTokenHash := hash, newTokenId := db.nextId
    newTokenHash := settings.hash (db.nextId + 1)
    refreshTokenTtlSeconds := settings.refreshTokenTtlSeconds, now }

/-- Whether a session has an active token. -/
def hasActiveToken (db : IdentityDb) (sessionId : SessionId) : Bool :=
  db.tokens.any fun row => row.sessionId = sessionId && row.isActive

/-- The rotation of a refresh and its save. -/
def rotateSession (settings : IdentitySettings) (db : IdentityDb)
    (hash : RefreshTokenHash) (session : Session) (now : Timestamp) :
    IdentityOutcome :=
  match rotation settings db hash session now with
  | .refused _ => goTo db .idle
  | .reused session =>
      match db.saveSession session with
      | .error _ => goTo db .idle
      | .ok db => {
          store := db, place := .adding [session.id] true
          effects := [.reuseSaved session.id (hasActiveToken db session.id),
            .sessionRevoked session.id] }
  | .rotated session =>
      match { db with nextId := db.nextId + 2 }.saveSession session with
      | .error _ => goTo db .idle
      | .ok db => {
          store := db, place := .renewing hash session
          effects := [.rotated hash session.id] }

/-- `JwtAccessTokenService.sign`, and the answer. -/
def signToken (settings : IdentitySettings) (db : IdentityDb)
    (presented : Option RefreshTokenHash) (session : Session)
    (mustChangePassword : Bool) : IdentityOutcome where
  store := { db with
    signed := db.signed ++ [{
      userId := session.userId, sessionId := session.id, mustChangePassword
      expiresAt := addSeconds db.now settings.accessTokenTtlSeconds }] }
  place := .idle
  effects := (presented.map IdentityEffect.exchanged).toList

/-- The reason of a revocation, for an actor who may make it. -/
def revocationReason (session : SessionRow) (actorUserId : UserId)
    (mayRevokeAny : Bool) : Option SessionRevocationReason :=
  if session.userId = actorUserId then some .logout
  else if mayRevokeAny then some .adminRevocation else none

/-- The revocation of one session and its save. -/
def revokeSession (db : IdentityDb) (session : Session)
    (reason : SessionRevocationReason) (now : Timestamp) : IdentityOutcome :=
  match db.saveSession (session.revoke reason now) with
  | .error _ => goTo db .idle
  | .ok db => {
      store := db, place := .adding [session.id] false
      effects := [.sessionRevoked session.id] }

/-- The transaction of `LogoutAllSessionsUseCase`. -/
def logoutAll (db : IdentityDb) (userId : UserId)
    (ended : List IdentityEffect) : IdentityOutcome where
  store := db.revokeAllActiveByUserId userId .logoutAll db.now
  place := .adding (db.activeSessionsOf userId) false
  effects := (db.activeSessionsOf userId).map IdentityEffect.sessionRevoked ++ ended

/-- The change of a loaded user and its save. -/
def saveChange (db : IdentityDb) (change : UserChange) (user : User) :
    IdentityOutcome :=
  match change.apply user db.now with
  | .error _ => goTo db .idle
  | .ok changed =>
      match db.saveUser changed with
      | .error _ => goTo db .idle
      | .ok saved => {
          store := saved
          place := match change with
            | .updateProfile _ => .idle
            | change => .loggingOut change user
          effects := [.userSaved change user db.now] }

/-- Another account uses the value. -/
def usedByOther (found : Option User) (user : User) : Bool :=
  found.any fun other => decide (other.id ≠ user.id)

/-- One statement of a request of identity. -/
def identityExec (settings : IdentitySettings) (db : IdentityDb) :
    IdentityPlace → IdentityInput → Option IdentityOutcome
  | place, .tick elapsed => some (goTo { db with now := db.now + elapsed } place)
  | _, .abort => some (goTo db .idle)
  | .idle, .register email name document issuedByStaff =>
      some (registerUser db email name document issuedByStaff)
  | .idle, .authenticate email password ip userAgent =>
      match verifyCredentials settings db email password with
      | none => some (goTo db .idle)
      | some user => some (goTo db (.verified user ip userAgent))
  | .verified user ip userAgent, .proceed _ =>
      match getUserById db user.id with
      | none => some (goTo db .idle)
      | some current => some (goTo db
          (.opening user current.mustChangePassword ip userAgent db.now))
  | .opening user mustChangePassword ip userAgent now, .proceed _ =>
      some (openSession settings db user mustChangePassword ip userAgent now)
  | .idle, .refresh refreshToken =>
      match db.findToken (settings.hash refreshToken) with
      | none => some (goTo db .idle)
      | some token => some (goTo db
          (.presenting (settings.hash refreshToken) token))
  | .presenting hash token, .proceed _ =>
      match db.findSession token.sessionId with
      | none => some (goTo db .idle)
      | some row => some (goTo db (.refreshing hash
          { row with tokens := [token.toRefreshToken] } db.now))
  | .refreshing hash session now, .proceed _ =>
      some (rotateSession settings db hash session now)
  | .renewing hash session, .proceed _ =>
      match getUserById db session.userId with
      | none => some (goTo db .idle)
      | some user => some (goTo db
          (.signing (some hash) session user.mustChangePassword))
  | .signing presented session mustChangePassword, .proceed _ =>
      some (signToken settings db presented session mustChangePassword)
  | .idle, .revokeSession sessionId actorUserId =>
      match db.findSession sessionId with
      | none => some (goTo db .idle)
      | some row => some (goTo db (.finding row actorUserId))
  | .finding row actorUserId, .proceed mayRevokeAny =>
      match revocationReason row actorUserId mayRevokeAny with
      | none => some (goTo db .idle)
      | some reason => some (goTo db (.revoking
          { row with tokens := db.activeTokens row.id } reason db.now))
  | .revoking session reason now, .proceed _ =>
      some (revokeSession db session reason now)
  | .idle, .logoutAll userId => some (logoutAll db userId [])
  | .adding sessionIds reuse, .proceed _ =>
      some {
        store := db.addManyRevoked sessionIds settings.accessTokenTtlSeconds
        place := .idle
        effects :=
          if reuse then [] else sessionIds.map IdentityEffect.closed }
  | .idle, .updateUser userId input =>
      match db.findUserById userId with
      | none => some (goTo db .idle)
      | some user => some (goTo db (.checkingEmail input user))
  | .checkingEmail input user, .proceed _ =>
      if usedByOther (input.email.bind db.findUserByEmail) user
      then some (goTo db .idle) else some (goTo db (.checkingDocument input user))
  | .checkingDocument input user, .proceed _ =>
      if usedByOther (input.document.bind db.findUserByDocument) user
      then some (goTo db .idle)
      else some (goTo db (.changing (.updateProfile input) user))
  | .idle, .changePassword userId currentPassword =>
      match db.findUserById userId with
      | none => some (goTo db .idle)
      | some user =>
          if settings.verify user.passwordHash currentPassword
          then some (goTo { db with nextId := db.nextId + 1 }
            (.changing (.changePassword db.nextId) user))
          else some (goTo db .idle)
  | .idle, .deactivateUser userId =>
      match db.findUserById userId with
      | none => some (goTo db .idle)
      | some user => some (goTo db (.changing .deactivate user))
  | .changing change user, .proceed _ => some (saveChange db change user)
  | .loggingOut change user, .proceed _ =>
      some (logoutAll db user.id [.sessionsEnded change user])
  | .idle, .authorize token =>
      if db.accepts token then some (goTo db (.checking token))
      else some (goTo db .idle)
  | .checking token, .proceed _ =>
      if db.isRevoked token.sessionId then some (goTo db .idle)
      else some { store := db, place := .idle, effects := [.accepted token] }
  | _, _ => none

/-- The tables as the migrations leave them, and no request under way. -/
def emptyIdentity : Config IdentityDb IdentityPlace := ⟨{}, fun _ => .idle⟩

/-- The configurations and logs that requests of identity lead to. -/
abbrev IdentityReaches (settings : IdentitySettings) :
    Config IdentityDb IdentityPlace → List IdentityEffect → Prop :=
  Reaches (identityExec settings) emptyIdentity

namespace IdentityWitness

/-- Access tokens live fifteen minutes; every password is right. -/
def settings : IdentitySettings where
  accessTokenTtlSeconds := 900
  refreshTokenTtlSeconds := 604800
  sessionAbsoluteTtlSeconds := 2592000
  hash := id
  verify := fun _ _ => true

/-- User 0 registers, with password hash 1. -/
def registered : List (Nat × IdentityInput) :=
  [(0, .register "ana@example.com" "Ana Souza" "12345678909" false)]

/-- User 0 opens session 2 with the refresh token 4. -/
def loggedIn : List (Nat × IdentityInput) :=
  registered ++ [(0, .authenticate "ana@example.com" "secret" none none),
    (0, .proceed false), (0, .proceed false), (0, .proceed false)]

end IdentityWitness

end Identity

end Workshop
