/-
What identity stores: its tables, the revoked session list with its expiry
times, and the access tokens that were signed, which are the ones `verify`
accepts.  Each definition is one statement or one transaction of a repository.
-/
import Workshop.Identity.Session
import Workshop.Identity.User
import Workshop.Library.Upserts

namespace Workshop

namespace Identity

/-- A row of `refresh_tokens`. -/
structure TokenRow extends RefreshToken where
  sessionId : SessionId
deriving DecidableEq, Repr

/-- A key of the revoked session list and the moment it expires. -/
structure RevokedEntry where
  sessionId : SessionId
  expiresAt : Timestamp
deriving DecidableEq, Repr

/-- The payload of an access token and the moment it expires. -/
structure AccessToken where
  userId : UserId
  sessionId : SessionId
  mustChangePassword : Bool
  expiresAt : Timestamp
deriving DecidableEq, Repr

structure IdentitySettings where
  accessTokenTtlSeconds : Nat
  refreshTokenTtlSeconds : Nat
  sessionAbsoluteTtlSeconds : Nat
  /-- `RefreshTokenHasher.hash` -/
  hash : Uuid → RefreshTokenHash
  /-- `PasswordHasher.verify` -/
  verify : PasswordHash → String → Bool

/-- The tables of identity, the revoked session list, the signed access tokens
and the clock.  `nextId` is the next value of the id generator. -/
structure IdentityDb where
  users : List User := []
  sessions : List SessionRow := []
  tokens : List TokenRow := []
  revokedSessions : List RevokedEntry := []
  signed : List AccessToken := []
  now : Timestamp := 0
  nextId : Uuid := 0
deriving DecidableEq, Repr

/-- The row of a token in a save.  The id that replaced it is written when that
token is saved with it. -/
def toTokenRow (session : Session) (token : RefreshToken) : TokenRow :=
  { token with
    sessionId := session.id
    replacedById := token.replacedById.filter fun id =>
      id ∈ session.tokens.map RefreshToken.id }

namespace IdentityDb

def findUserById (db : IdentityDb) (id : UserId) : Option User :=
  db.users.find? fun user => user.id = id

def findUserByEmail (db : IdentityDb) (email : String) : Option User :=
  db.users.find? fun user => user.email = email && user.deletedAt.isNone

def findUserByDocument (db : IdentityDb) (document : String) : Option User :=
  db.users.find? fun user => user.document = document && user.deletedAt.isNone

/-- Another row that is not deleted has the same value:
`ux_users_email`, `ux_users_document`. -/
def userColumnTaken (db : IdentityDb) (column : User → String) (user : User) :
    Bool :=
  user.deletedAt.isNone && db.users.any fun other =>
    decide (other.id ≠ user.id) && column other = column user &&
      other.deletedAt.isNone

/-- `TypeOrmUserRepository.save` -/
def saveUser (db : IdentityDb) (user : User) : Except UserError IdentityDb :=
  if db.userColumnTaken User.document user then .error .documentAlreadyInUse
  else if db.userColumnTaken User.email user then .error .emailUniqueViolation
  else .ok { db with users := upsert User.id user db.users }

def findSession (db : IdentityDb) (id : SessionId) : Option SessionRow :=
  db.sessions.find? fun row => row.id = id

def findToken (db : IdentityDb) (hash : RefreshTokenHash) : Option TokenRow :=
  db.tokens.find? fun row => row.tokenHash = hash

/-- The tokens `findById` loads with a session. -/
def activeTokens (db : IdentityDb) (id : SessionId) : List RefreshToken :=
  (db.tokens.filter fun row => row.sessionId = id && row.isActive).map
    TokenRow.toRefreshToken

/-- A token row breaks `ux_refresh_tokens_token_hash` or
`ux_refresh_tokens_active_per_session`. -/
def tokenTaken (tokens : List TokenRow) (row : TokenRow) : Bool :=
  tokens.any fun other => decide (other.id ≠ row.id) &&
    (other.tokenHash = row.tokenHash ||
      row.isActive && other.isActive && other.sessionId = row.sessionId)

/-- The token rows of a save, one after another. -/
def saveTokens : List TokenRow → List TokenRow → Except SessionError (List TokenRow)
  | tokens, [] => .ok tokens
  | tokens, row :: rows =>
      if tokenTaken tokens row then .error .invalidRefreshToken
      else saveTokens (upsert (fun row => row.id) row tokens) rows

/-- `TypeOrmSessionRepository.save`: the session row, the superseded tokens and
then the active ones, committed together. -/
def saveSession (db : IdentityDb) (session : Session) :
    Except SessionError IdentityDb := do
  if (db.findUserById session.userId).isNone then
    throw (.userRowNotFound session.userId)
  let rows := session.tokens.map (toTokenRow session)
  let superseded := rows.filter fun row => !row.isActive
  let active := rows.filter fun row => row.isActive
  let tokens ← saveTokens db.tokens (superseded ++ active)
  return { db with
    sessions := upsert SessionRow.id session.toSessionRow db.sessions, tokens }

/-- The sessions a logout of a user ends. -/
def activeSessionsOf (db : IdentityDb) (userId : UserId) : List SessionId :=
  (db.sessions.filter fun row => row.userId = userId && row.status = .active).map
    SessionRow.id

/-- `revokeAllActiveByUserId`, which answers `activeSessionsOf`. -/
def revokeAllActiveByUserId (db : IdentityDb) (userId : UserId)
    (reason : SessionRevocationReason) (now : Timestamp) : IdentityDb :=
  { db with
    sessions := db.sessions.map fun row =>
      if row.userId = userId && row.status = .active
      then { row with
        status := .revoked, revokedAt := some now, revocationReason := some reason }
      else row
    tokens := db.tokens.map fun row =>
      if decide (row.sessionId ∈ db.activeSessionsOf userId) && row.isActive
      then { row with status := .revoked } else row }

/-- `RedisRevokedSessionStore.add`; the key lives for exactly its TTL. -/
def addRevoked (db : IdentityDb) (sessionId : SessionId) (ttlSeconds : Nat) :
    IdentityDb :=
  { db with
    revokedSessions := upsert RevokedEntry.sessionId
      ⟨sessionId, addSeconds db.now (max ttlSeconds 1)⟩ db.revokedSessions }

/-- `RedisRevokedSessionStore.addMany` -/
def addManyRevoked (db : IdentityDb) (sessionIds : List SessionId)
    (ttlSeconds : Nat) : IdentityDb :=
  sessionIds.foldl (fun db sessionId => db.addRevoked sessionId ttlSeconds) db

/-- `RedisRevokedSessionStore.isRevoked` -/
def isRevoked (db : IdentityDb) (sessionId : SessionId) : Bool :=
  db.revokedSessions.any fun entry =>
    entry.sessionId = sessionId && decide (db.now < entry.expiresAt)

/-- `JwtAccessTokenService.verify` -/
def accepts (db : IdentityDb) (token : AccessToken) : Bool :=
  decide (token ∈ db.signed) && decide (db.now < token.expiresAt)

end IdentityDb

end Identity

end Workshop
