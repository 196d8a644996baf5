/-
What the statements of identity do to the session and token tables: one
inversion lemma for the save of a session, the rotation and the revocation of
a loaded copy, and the six kinds of writes the moves come down to.
-/
import Workshop.Identity.IdentityMoves

namespace Workshop

namespace Identity

open IdentityDb (saveTokens tokenTaken)

section Copies

variable {session : Session} {reason : SessionRevocationReason} {now : Timestamp}

@[simp] theorem Session.revoke_id : (session.revoke reason now).id = session.id := by
  unfold Session.revoke
  split <;> rfl

@[simp] theorem Session.revoke_userId :
    (session.revoke reason now).userId = session.userId := by
  unfold Session.revoke
  split <;> rfl

@[simp] theorem Session.revoke_status :
    (session.revoke reason now).status = .revoked := by
  unfold Session.revoke
  split
  · rename_i hrevoked
    exact hrevoked
  · rfl

theorem Session.revoke_tokens (hactive : session.status = .active) :
    (session.revoke reason now).tokens = session.tokens.map RefreshToken.revoke := by
  unfold Session.revoke
  rw [if_neg (by rw [hactive]; decide)]

theorem Session.revoke_of_revoked (hrevoked : session.status = .revoked) :
    session.revoke reason now = session := by
  unfold Session.revoke
  rw [if_pos hrevoked]

@[simp] theorem RefreshToken.revoke_isActive (token : RefreshToken) :
    token.revoke.isActive = false := by
  unfold RefreshToken.revoke RefreshToken.isActive
  split
  · rename_i hne
    exact decide_eq_false hne
  · rfl

@[simp] theorem RefreshToken.revoke_id (token : RefreshToken) :
    token.revoke.id = token.id := by
  unfold RefreshToken.revoke
  split <;> rfl

@[simp] theorem RefreshToken.revoke_tokenHash (token : RefreshToken) :
    token.revoke.tokenHash = token.tokenHash := by
  unfold RefreshToken.revoke
  split <;> rfl

@[simp] theorem RefreshToken.markRotated_isActive (token : RefreshToken)
    (replacedById : RefreshTokenId) (now : Timestamp) :
    (token.markRotated replacedById now).isActive = false := rfl

@[simp] theorem RefreshToken.issue_isActive (id : RefreshTokenId)
    (tokenHash : RefreshTokenHash) (now expiresAt : Timestamp) :
    (RefreshToken.issue id tokenHash now expiresAt).isActive = true := rfl

@[simp] theorem toTokenRow_id (token : RefreshToken) :
    (toTokenRow session token).id = token.id := rfl

@[simp] theorem toTokenRow_tokenHash (token : RefreshToken) :
    (toTokenRow session token).tokenHash = token.tokenHash := rfl

@[simp] theorem toTokenRow_sessionId (token : RefreshToken) :
    (toTokenRow session token).sessionId = session.id := rfl

@[simp] theorem toTokenRow_isActive (token : RefreshToken) :
    (toTokenRow session token).isActive = token.isActive := rfl

end Copies

section Rotations

variable {settings : IdentitySettings} {db : IdentityDb} {hash : RefreshTokenHash}
variable {session : Session} {now : Timestamp}

/-- A rotation keeps the row but for its last use, retires the presented token,
which was active, and adds a token that is. -/
theorem rotated_of_rotation {rotated : Session}
    (h : rotation settings db hash session now = .rotated rotated) :
    session.status = .active ∧
      rotated.toSessionRow = { session.toSessionRow with lastUsedAt := now } ∧
      ∃ presented ∈ session.tokens, presented.tokenHash = hash ∧
        presented.isActive = true ∧ ∃ expiresAt,
          rotated.tokens = (session.tokens.map fun token =>
            if token.id = presented.id then token.markRotated db.nextId now
            else token) ++
              [RefreshToken.issue db.nextId (settings.hash (db.nextId + 1)) now
                expiresAt] := by
  unfold rotation Session.rotateRefreshToken at h
  split at h
  · cases h
  · rename_i presented hfind
    split at h
    · cases h
    · rename_i hopen
      split at h
      · cases h
      · rename_i hactive
        split at h
        · cases h
        · cases h
          refine ⟨?_, rfl, presented, List.mem_of_find?_eq_some hfind, ?_, ?_, _, rfl⟩
          · simp only [Session.isActiveAt, Bool.not_eq_true', Bool.not_eq_false,
              Bool.and_eq_true, decide_eq_true_eq] at hopen
            exact hopen.1
          · simpa using List.find?_some hfind
          · simpa using hactive

/-- A rotation that detects a reuse leaves the revoked copy. -/
theorem reused_of_rotation {revoked : Session}
    (h : rotation settings db hash session now = .reused revoked) :
    session.status = .active ∧ revoked = session.revoke .tokenReuse now := by
  unfold rotation Session.rotateRefreshToken at h
  split at h
  · cases h
  · split at h
    · cases h
    · rename_i hopen
      split at h
      · cases h
        refine ⟨?_, rfl⟩
        simp only [Session.isActiveAt, Bool.not_eq_true', Bool.not_eq_false,
          Bool.and_eq_true, decide_eq_true_eq] at hopen
        exact hopen.1
      · split at h
        · cases h
        · cases h

end Rotations

/-- The token rows of a save, in the order they are written. -/
def savedTokens (session : Session) : List TokenRow :=
  ((session.tokens.map (toTokenRow session)).filter fun row => !row.isActive) ++
    (session.tokens.map (toTokenRow session)).filter fun row => row.isActive

section Saves

variable {db db' : IdentityDb} {session : Session} {row : TokenRow}
variable {tokens saved rows : List TokenRow}

theorem saveSession_eq_ok (hsave : db.saveSession session = .ok db') :
    ∃ tokens, saveTokens db.tokens (savedTokens session) = .ok tokens ∧
      db' = { db with
        sessions := upsert SessionRow.id session.toSessionRow db.sessions, tokens } := by
  unfold IdentityDb.saveSession at hsave
  split at hsave
  · cases hsave
  · obtain ⟨tokens, htokens, hdb⟩ := bind_eq_ok_iff.mp hsave
    exact ⟨tokens, htokens, (pure_eq_ok_iff.mp hdb).symm⟩

theorem saveUser_eq_ok {user : User} (hsave : db.saveUser user = .ok db') :
    db' = { db with users := upsert User.id user db.users } := by
  unfold IdentityDb.saveUser at hsave
  split at hsave
  · cases hsave
  · split at hsave
    · cases hsave
    · exact (Except.ok.inj hsave).symm

theorem mem_savedTokens :
    row ∈ savedTokens session ↔ ∃ token ∈ session.tokens,
      toTokenRow session token = row := by
  unfold savedTokens
  rw [List.mem_append, List.mem_filter, List.mem_filter, List.mem_map]
  cases row.isActive <;> simp

/-- What every write of a row keeps, a save of rows keeps. -/
theorem saveTokens_induction {P : List TokenRow → Prop} (hstart : P tokens)
    (hrow : ∀ tokens, ∀ row ∈ rows, tokenTaken tokens row = false → P tokens →
      P (upsert (fun row => row.id) row tokens))
    (hsave : saveTokens tokens rows = .ok saved) : P saved := by
  induction rows generalizing tokens with
  | nil =>
      rw [← Except.ok.inj hsave]
      exact hstart
  | cons row rows ih =>
      simp only [saveTokens] at hsave
      split at hsave
      · cases hsave
      · rename_i hfree
        apply ih
        · exact hrow tokens row List.mem_cons_self (Bool.eq_false_iff.mpr hfree) hstart
        · intro tokens other hother
          exact hrow tokens other (List.mem_cons_of_mem _ hother)
        · exact hsave

/-- A row of the table after a save was saved, or was there before. -/
theorem mem_of_saveTokens (hsave : saveTokens tokens rows = .ok saved)
    (hrow : row ∈ saved) : row ∈ rows ∨ row ∈ tokens := by
  have hall : ∀ row ∈ saved, row ∈ rows ∨ row ∈ tokens := by
    apply saveTokens_induction _ _ hsave
    · exact fun row hrow => Or.inr hrow
    · intro current written hwritten _ ih row hrow
      rcases mem_upsert.mp hrow with rfl | ⟨hrow, -⟩
      · exact Or.inl hwritten
      · exact ih row hrow
  exact hall row hrow

end Saves

section Frames

variable (db : IdentityDb) (sessionIds : List SessionId) (ttlSeconds : Nat)

/-- Adding keys writes the revoked session list and nothing else. -/
theorem addManyRevoked_frame :
    ∃ revokedSessions, db.addManyRevoked sessionIds ttlSeconds =
      { db with revokedSessions } := by
  unfold IdentityDb.addManyRevoked
  induction sessionIds generalizing db with
  | nil => exact ⟨_, rfl⟩
  | cons sessionId rest ih => exact ih (db.addRevoked sessionId ttlSeconds)

@[simp] theorem addManyRevoked_sessions :
    (db.addManyRevoked sessionIds ttlSeconds).sessions = db.sessions := by
  obtain ⟨_, hframe⟩ := addManyRevoked_frame db sessionIds ttlSeconds
  rw [hframe]

@[simp] theorem addManyRevoked_tokens :
    (db.addManyRevoked sessionIds ttlSeconds).tokens = db.tokens := by
  obtain ⟨_, hframe⟩ := addManyRevoked_frame db sessionIds ttlSeconds
  rw [hframe]

@[simp] theorem addManyRevoked_users :
    (db.addManyRevoked sessionIds ttlSeconds).users = db.users := by
  obtain ⟨_, hframe⟩ := addManyRevoked_frame db sessionIds ttlSeconds
  rw [hframe]

@[simp] theorem addManyRevoked_signed :
    (db.addManyRevoked sessionIds ttlSeconds).signed = db.signed := by
  obtain ⟨_, hframe⟩ := addManyRevoked_frame db sessionIds ttlSeconds
  rw [hframe]

@[simp] theorem addManyRevoked_now :
    (db.addManyRevoked sessionIds ttlSeconds).now = db.now := by
  obtain ⟨_, hframe⟩ := addManyRevoked_frame db sessionIds ttlSeconds
  rw [hframe]

@[simp] theorem addManyRevoked_nextId :
    (db.addManyRevoked sessionIds ttlSeconds).nextId = db.nextId := by
  obtain ⟨_, hframe⟩ := addManyRevoked_frame db sessionIds ttlSeconds
  rw [hframe]

end Frames

/-- Whether an effect says something about a session row. -/
def IdentityEffect.onSessions : IdentityEffect → Bool
  | .loggedIn .. | .sessionRevoked _ | .rotated .. | .reuseSaved ..
  | .sessionsEnded .. => true
  | _ => false

/-- The writes to the session and token tables that the moves come down to. -/
inductive SessionStep (settings : IdentitySettings) (db : IdentityDb) :
    IdentityPlace → IdentityInput → IdentityDb → List IdentityEffect → Prop
  | frame (place : IdentityPlace) (input : IdentityInput) (db' : IdentityDb)
      (effects : List IdentityEffect) (hsessions : db'.sessions = db.sessions)
      (htokens : db'.tokens = db.tokens) (hnext : db.nextId ≤ db'.nextId)
      (hquiet : ∀ effect ∈ effects, effect.onSessions = false) :
      SessionStep settings db place input db' effects
  | opened (mayRevokeAny : Bool) (user : User) (mustChangePassword : Bool)
      (ip userAgent : Option String) (now : Timestamp) (session : Session)
      (db' : IdentityDb)
      (hsession : session = Session.start {
        id := db.nextId, userId := user.id, ip, userAgent
        initialTokenId := db.nextId + 1
        initialTokenHash := settings.hash (db.nextId + 2)
        refreshTokenTtlSeconds := settings.refreshTokenTtlSeconds
        absoluteTtlSeconds := settings.sessionAbsoluteTtlSeconds, now })
      (hsave : { db with nextId := db.nextId + 3 }.saveSession session = .ok db') :
      SessionStep settings db (.opening user mustChangePassword ip userAgent now)
        (.proceed mayRevokeAny) db' [.loggedIn session.id user]
  | rotated (mayRevokeAny : Bool) (hash : RefreshTokenHash)
      (session rotated : Session) (now : Timestamp) (db' : IdentityDb)
      (hrotation : rotation settings db hash session now = .rotated rotated)
      (hsave : { db with nextId := db.nextId + 2 }.saveSession rotated = .ok db') :
      SessionStep settings db (.refreshing hash session now)
        (.proceed mayRevokeAny) db' [.rotated hash rotated.id]
  | reused (mayRevokeAny : Bool) (hash : RefreshTokenHash)
      (session revoked : Session) (now : Timestamp) (db' : IdentityDb)
      (hrotation : rotation settings db hash session now = .reused revoked)
      (hsave : db.saveSession revoked = .ok db') :
      SessionStep settings db (.refreshing hash session now)
        (.proceed mayRevokeAny) db'
        [.reuseSaved revoked.id (hasActiveToken db' revoked.id),
          .sessionRevoked revoked.id]
  | revoked (input : IdentityInput) (session : Session)
      (reason : SessionRevocationReason) (now : Timestamp) (db' : IdentityDb)
      (hsave : db.saveSession (session.revoke reason now) = .ok db') :
      SessionStep settings db (.revoking session reason now) input db'
        [.sessionRevoked session.id]
  | ended (place : IdentityPlace) (input : IdentityInput) (userId : UserId)
      (ended : List IdentityEffect)
      (hended : ∀ effect ∈ ended, ∃ change user,
        effect = .sessionsEnded change user ∧ user.id = userId ∧
          place = .loggingOut change user) :
      SessionStep settings db place input
        (db.revokeAllActiveByUserId userId .logoutAll db.now)
        ((db.activeSessionsOf userId).map IdentityEffect.sessionRevoked ++ ended)

section Steps

variable {settings : IdentitySettings} {db db' : IdentityDb}
variable {place next : IdentityPlace} {input : IdentityInput}
variable {effects : List IdentityEffect}

theorem sessionStep_of_move
    (h : IdentityMove settings db place input db' next effects) :
    SessionStep settings db place input db' effects := by
  cases h with
  | register _ user _ hid hhash hsave =>
      obtain rfl := saveUser_eq_ok hsave
      refine SessionStep.frame _ _ _ _ rfl rfl (Nat.le_add_right _ _) ?_
      simp [IdentityEffect.onSessions]
  | openSession mayRevokeAny user mustChangePassword ip userAgent now session _ hsession
      hsave =>
      exact SessionStep.opened mayRevokeAny user mustChangePassword ip userAgent now
        session _ hsession hsave
  | rotate mayRevokeAny hash session rotated now _ hrotation hsave =>
      exact SessionStep.rotated mayRevokeAny hash session rotated now _ hrotation hsave
  | reuse mayRevokeAny hash session revoked now _ hrotation hsave =>
      exact SessionStep.reused mayRevokeAny hash session revoked now _ hrotation hsave
  | revoke _ session reason now _ hsave =>
      exact SessionStep.revoked _ session reason now _ hsave
  | logoutAll _ userId =>
      have hstep : SessionStep settings db .idle input
          (db.revokeAllActiveByUserId userId .logoutAll db.now)
          ((db.activeSessionsOf userId).map IdentityEffect.sessionRevoked ++ []) :=
        SessionStep.ended _ _ userId [] nofun
      rw [List.append_nil] at hstep
      exact hstep
  | endSessions _ change user =>
      refine SessionStep.ended _ _ user.id [.sessionsEnded change user] ?_
      intro effect heffect
      exact ⟨change, user, List.mem_singleton.mp heffect, rfl, rfl⟩
  | add _ sessionIds reuse =>
      refine SessionStep.frame _ _ _ _ (addManyRevoked_sessions ..)
        (addManyRevoked_tokens ..) (Nat.le_of_eq (addManyRevoked_nextId ..).symm) ?_
      intro effect heffect
      split at heffect
      · cases heffect
      · obtain ⟨_, -, rfl⟩ := List.mem_map.mp heffect
        rfl
  | loadPassword _ user huser =>
      exact SessionStep.frame _ _ _ _ rfl rfl (Nat.le_add_right _ _) (by simp)
  | saveChange _ change user changed _ hchange hsave _ hnext =>
      obtain rfl := saveUser_eq_ok hsave
      refine SessionStep.frame _ _ _ _ rfl rfl (Nat.le_refl _) ?_
      simp [IdentityEffect.onSessions]
  | sign _ presented session mustChangePassword =>
      refine SessionStep.frame _ _ _ _ rfl rfl (Nat.le_refl _) ?_
      cases presented <;> simp [IdentityEffect.onSessions]
  | accept _ token hlive =>
      refine SessionStep.frame _ _ _ _ rfl rfl (Nat.le_refl _) ?_
      simp [IdentityEffect.onSessions]
  | _ => exact SessionStep.frame _ _ _ _ rfl rfl (Nat.le_refl _) (by simp)

end Steps

end Identity

end Workshop
