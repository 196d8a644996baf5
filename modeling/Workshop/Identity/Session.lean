/-
A login session and its refresh tokens.
-/
import Workshop.Shared.Values

namespace Workshop

namespace Identity

abbrev SessionId := Uuid
abbrev RefreshTokenId := Uuid
abbrev RefreshTokenHash := Nat

inductive SessionStatus
  | active
  | revoked
deriving DecidableEq, Repr

inductive RefreshTokenStatus
  | active
  | rotated
  | revoked
deriving DecidableEq, Repr

inductive SessionRevocationReason
  | logout
  | logoutAll
  | tokenReuse
  | adminRevocation
deriving DecidableEq, Repr

inductive SessionError
  | invalidRefreshToken
  | refreshTokenReuse
  | sessionNotActive
  | sessionNotFound
  /-- `User … not found` -/
  | userRowNotFound (userId : UserId)
deriving DecidableEq, Repr

structure RefreshToken where
  id : RefreshTokenId
  tokenHash : RefreshTokenHash
  status : RefreshTokenStatus
  createdAt : Timestamp
  expiresAt : Timestamp
  rotatedAt : Option Timestamp
  replacedById : Option RefreshTokenId
deriving DecidableEq, Repr

namespace RefreshToken

def issue (id : RefreshTokenId) (tokenHash : RefreshTokenHash)
    (now expiresAt : Timestamp) : RefreshToken where
  id := id
  tokenHash := tokenHash
  status := .active
  createdAt := now
  expiresAt := expiresAt
  rotatedAt := none
  replacedById := none

def markRotated (token : RefreshToken) (replacedById : RefreshTokenId)
    (now : Timestamp) : RefreshToken :=
  { token with
    status := .rotated, rotatedAt := some now, replacedById := some replacedById }

def revoke (token : RefreshToken) : RefreshToken :=
  if token.status ≠ .active then token else { token with status := .revoked }

def isExpired (token : RefreshToken) (now : Timestamp) : Bool :=
  decide (token.expiresAt ≤ now)

def isActive (token : RefreshToken) : Bool := token.status = .active

end RefreshToken

/-- A row of `sessions`. -/
structure SessionRow where
  id : SessionId
  userId : UserId
  status : SessionStatus
  ip : Option String
  userAgent : Option String
  createdAt : Timestamp
  lastUsedAt : Timestamp
  absoluteExpiresAt : Timestamp
  revokedAt : Option Timestamp
  revocationReason : Option SessionRevocationReason
deriving DecidableEq, Repr

/-- A session as it was loaded: its row, and the tokens the load asked for. -/
structure Session extends SessionRow where
  tokens : List RefreshToken
deriving DecidableEq, Repr

def addSeconds (moment : Timestamp) (seconds : Nat) : Timestamp :=
  moment + seconds * 1000

namespace Session

structure StartSessionInput where
  id : SessionId
  userId : UserId
  ip : Option String
  userAgent : Option String
  initialTokenId : RefreshTokenId
  initialTokenHash : RefreshTokenHash
  refreshTokenTtlSeconds : Nat
  absoluteTtlSeconds : Nat
  now : Timestamp

def start (input : StartSessionInput) : Session where
  id := input.id
  userId := input.userId
  status := .active
  ip := input.ip
  userAgent := input.userAgent
  createdAt := input.now
  lastUsedAt := input.now
  absoluteExpiresAt := addSeconds input.now input.absoluteTtlSeconds
  revokedAt := none
  revocationReason := none
  tokens :=
    [RefreshToken.issue input.initialTokenId input.initialTokenHash input.now
      (min (addSeconds input.now input.refreshTokenTtlSeconds)
        (addSeconds input.now input.absoluteTtlSeconds))]

def isActiveAt (session : Session) (now : Timestamp) : Bool :=
  session.status = .active && decide (now < session.absoluteExpiresAt)

def revoke (session : Session) (reason : SessionRevocationReason)
    (now : Timestamp) : Session :=
  if session.status = .revoked then session
  else { session with
    status := .revoked
    revokedAt := some now
    revocationReason := some reason
    tokens := session.tokens.map RefreshToken.revoke }

structure RotateRefreshTokenInput where
  presentedTokenHash : RefreshTokenHash
  newTokenId : RefreshTokenId
  newTokenHash : RefreshTokenHash
  refreshTokenTtlSeconds : Nat
  now : Timestamp

/-- How a rotation ends.  The throw of `RefreshTokenReuseError` leaves a revoked
session behind. -/
inductive Rotation
  | rotated (session : Session)
  | reused (session : Session)
  | refused (error : SessionError)

def rotateRefreshToken (session : Session) (input : RotateRefreshTokenInput) :
    Rotation :=
  match session.tokens.find? fun token =>
      token.tokenHash = input.presentedTokenHash with
  | none => .refused .invalidRefreshToken
  | some presented =>
      if !session.isActiveAt input.now then .refused .sessionNotActive
      else if !presented.isActive then
        .reused (session.revoke .tokenReuse input.now)
      else if presented.isExpired input.now then .refused .invalidRefreshToken
      else
        let newToken := RefreshToken.issue input.newTokenId input.newTokenHash
          input.now (min (addSeconds input.now input.refreshTokenTtlSeconds)
            session.absoluteExpiresAt)
        .rotated { session with
          tokens := (session.tokens.map fun token =>
            if token.id = presented.id
            then token.markRotated input.newTokenId input.now else token) ++
              [newToken]
          lastUsedAt := input.now }

end Session

end Identity

end Workshop
