/-
A revocation and the refreshes that save after it.  A refresh writes the whole
row of a copy it read before; the revocation stands in every run whose
refreshes find, where they save, no revoked session under their copy.
-/
import Workshop.Identity.SessionTables

namespace Workshop

namespace Identity

open IdentityDb (saveTokens tokenTaken)

/-- The stored row of a session is revoked. -/
def IdentityDb.isSessionRevoked (db : IdentityDb) (id : SessionId) : Bool :=
  (db.findSession id).any fun row => row.status = .revoked

/-- A token of the session that is not in the copy is active; the index lets no
other one be inserted. -/
def IdentityDb.otherActive (db : IdentityDb) (session : Session) : Bool :=
  db.tokens.any fun row => row.sessionId = session.id && row.isActive &&
    decide (row.id ∉ session.tokens.map RefreshToken.id)

/-- A refresh that saves new tokens finds no revocation under its copy, or the
index refuses it. -/
def rotatesUnrevoked (settings : IdentitySettings) (db : IdentityDb) :
    IdentityPlace → IdentityInput → Bool
  | .refreshing hash session now, .proceed _ =>
      match rotation settings db hash session now with
      | .rotated _ => !db.isSessionRevoked session.id || db.otherActive session
      | _ => true
  | _, _ => true

/-- Moreover a refresh that detects a reuse finds no revocation that an active
token survived. -/
def meetsNoRevocation (settings : IdentitySettings) (db : IdentityDb)
    (place : IdentityPlace) (input : IdentityInput) : Bool :=
  rotatesUnrevoked settings db place input &&
    match place, input with
    | .refreshing hash session now, .proceed _ =>
        match rotation settings db hash session now with
        | .reused _ =>
            !db.isSessionRevoked session.id || !hasActiveToken db session.id
        | _ => true
    | _, _ => true

/-- After a revocation no refresh of the session saves new tokens, or leaves an
active one. -/
def RevokedBefore (earlier later : IdentityEffect) : Prop :=
  ∀ id, earlier = .sessionRevoked id →
    (∀ hash, later ≠ .rotated hash id) ∧ later ≠ .reuseSaved id true

/-- What was revoked is revoked, and refreshes respect it. -/
structure RevokedStays (db : IdentityDb) (log : List IdentityEffect) : Prop where
  rows : ∀ id, IdentityEffect.sessionRevoked id ∈ log → db.isSessionRevoked id = true
  refreshes : log.Pairwise RevokedBefore

section Rows

variable {settings : IdentitySettings} {db db' : IdentityDb} {session : Session}
variable {id : SessionId}

theorem findSession_save (hsave : db.saveSession session = .ok db') :
    db'.findSession id =
      if session.id = id then some session.toSessionRow else db.findSession id := by
  obtain ⟨_, -, rfl⟩ := saveSession_eq_ok hsave
  exact find?_upsert id

theorem isSessionRevoked_save (hsave : db.saveSession session = .ok db') :
    db'.isSessionRevoked id =
      if session.id = id then decide (session.status = .revoked)
      else db.isSessionRevoked id := by
  unfold IdentityDb.isSessionRevoked
  rw [findSession_save hsave]
  split <;> rfl

theorem findSession_logoutAll {userId : UserId} {reason : SessionRevocationReason}
    {now : Timestamp} :
    (db.revokeAllActiveByUserId userId reason now).findSession id =
      (db.findSession id).map (loggedOut userId reason now) := by
  unfold IdentityDb.findSession
  rw [revokeAll_sessions]
  exact find?_map_key loggedOut_id id

theorem isSessionRevoked_logoutAll {userId : UserId}
    {reason : SessionRevocationReason} {now : Timestamp}
    (h : db.isSessionRevoked id = true) :
    (db.revokeAllActiveByUserId userId reason now).isSessionRevoked id = true := by
  obtain ⟨row, hfind, hrevoked⟩ := (Option.any_eq_true _ _).mp h
  unfold IdentityDb.isSessionRevoked
  rw [findSession_logoutAll, hfind, Option.map_some, Option.any_some,
    decide_eq_true_eq, loggedOut_status]
  split
  · rfl
  · exact of_decide_eq_true hrevoked

/-- The sessions a logout answers are revoked by it. -/
theorem isSessionRevoked_of_ended (htables : SessionTables db) {userId : UserId}
    {reason : SessionRevocationReason} {now : Timestamp}
    (h : id ∈ db.activeSessionsOf userId) :
    (db.revokeAllActiveByUserId userId reason now).isSessionRevoked id = true := by
  obtain ⟨row, hrow, rfl⟩ := List.mem_map.mp h
  rw [List.mem_filter, Bool.and_eq_true, decide_eq_true_eq] at hrow
  unfold IdentityDb.isSessionRevoked
  rw [findSession_logoutAll, htables.findSession_of_mem hrow.1, Option.map_some,
    Option.any_some, decide_eq_true_eq, loggedOut_status, if_pos hrow.2.1]

theorem not_isSessionRevoked_of_fresh (htables : SessionTables db)
    (hid : db.nextId ≤ id) : db.isSessionRevoked id = false := by
  unfold IdentityDb.isSessionRevoked
  have hnone : db.findSession id = none := by
    refine List.find?_eq_none.mpr fun row hrow heq => ?_
    rw [decide_eq_true_eq] at heq
    exact absurd (htables.sessionsBelow row hrow) (Nat.not_lt.mpr (heq ▸ hid))
  rw [hnone, Option.any_none]

end Rows

section Index

variable {settings : IdentitySettings} {db db' : IdentityDb} {session : Session}
variable {tokens rows saved : List TokenRow} {row other : TokenRow}

/-- A row that a save does not write does not clash with the rows it does. -/
theorem no_clash_of_saveTokens (hsave : saveTokens tokens rows = .ok saved)
    (hother : other ∈ tokens) (hids : ∀ row ∈ rows, row.id ≠ other.id)
    (hrow : row ∈ rows) (hactive : row.isActive = true)
    (hstill : other.isActive = true) : other.sessionId ≠ row.sessionId := by
  induction rows generalizing tokens with
  | nil => cases hrow
  | cons first rest ih =>
      simp only [saveTokens] at hsave
      split at hsave
      · cases hsave
      · rename_i hfree
        have hfirst := hids first List.mem_cons_self
        rcases List.mem_cons.mp hrow with rfl | hrest
        · intro hsession
          refine hfree (List.any_eq_true.mpr ⟨other, hother, ?_⟩)
          simp [hfirst.symm, hactive, hstill, hsession]
        · refine ih hsave ?_ (fun row hrow => hids row (List.mem_cons_of_mem _ hrow))
            hrest
          exact mem_upsert.mpr (Or.inr ⟨hother, hfirst.symm⟩)

/-- `ux_refresh_tokens_active_per_session` refuses the rotation of a copy when
another token of its session is active. -/
theorem not_otherActive_of_rotated (htables : SessionTables db)
    {hash : RefreshTokenHash} {now : Timestamp} {rotated : Session}
    (hrotation : rotation settings db hash session now = .rotated rotated)
    (hsave : { db with nextId := db.nextId + 2 }.saveSession rotated = .ok db') :
    db.otherActive session = false := by
  obtain ⟨-, hrow, presented, -, -, -, expiresAt, hrotated⟩ :=
    rotated_of_rotation hrotation
  obtain ⟨saved, htokens, -⟩ := saveSession_eq_ok hsave
  have hid : rotated.id = session.id := by rw [hrow]
  by_contra hother
  obtain ⟨other, hmem, hother⟩ := List.any_eq_true.mp (Bool.not_eq_false _ ▸ hother)
  simp only [Bool.and_eq_true, decide_eq_true_eq] at hother
  obtain ⟨⟨hsession, hstill⟩, hforeign⟩ := hother
  have hids : ∀ row ∈ savedTokens rotated, row.id ≠ other.id := by
    intro row hrow heq
    obtain ⟨token, htoken, rfl⟩ := mem_savedTokens.mp hrow
    rw [hrotated, List.mem_append] at htoken
    rcases htoken with hold | hnew
    · obtain ⟨copied, hcopied, rfl⟩ := List.mem_map.mp hold
      refine hforeign ?_
      rw [← heq, toTokenRow_id]
      have hsame : ∀ token : RefreshToken, (if token.id = presented.id
          then token.markRotated db.nextId now else token).id = token.id := by
        intro token
        split <;> rfl
      rw [hsame]
      exact List.mem_map_of_mem hcopied
    · have hbelow := htables.tokensBelow other hmem
      rw [List.mem_singleton.mp hnew] at heq
      exact absurd heq.symm (Nat.ne_of_lt hbelow)
  have hnew : toTokenRow rotated (RefreshToken.issue db.nextId
      (settings.hash (db.nextId + 1)) now expiresAt) ∈ savedTokens rotated := by
    refine mem_savedTokens.mpr ⟨_, ?_, rfl⟩
    rw [hrotated]
    exact List.mem_append_right _ (List.mem_singleton_self _)
  refine no_clash_of_saveTokens htokens hmem hids hnew rfl hstill ?_
  rw [hsession, ← hid]
  rfl

/-- A save of no active token leaves an active one only where there was one. -/
theorem hasActiveToken_of_save (hinactive : ∀ token ∈ session.tokens,
    token.isActive = false) (hsave : db.saveSession session = .ok db')
    {id : SessionId} (h : hasActiveToken db' id = true) :
    hasActiveToken db id = true := by
  obtain ⟨saved, htokens, rfl⟩ := saveSession_eq_ok hsave
  obtain ⟨row, hrow, hmatch⟩ := List.any_eq_true.mp h
  rcases mem_of_saveTokens htokens hrow with hwritten | hold
  · obtain ⟨token, htoken, rfl⟩ := mem_savedTokens.mp hwritten
    simp [hinactive token htoken] at hmatch
  · exact List.any_eq_true.mpr ⟨row, hold, hmatch⟩

end Index

section Orders

variable {log effects : List IdentityEffect} {earlier later effect : IdentityEffect}

/-- Whether a refresh saved its session. -/
def IdentityEffect.isRefresh : IdentityEffect → Bool
  | .rotated .. | .reuseSaved .. => true
  | _ => false

theorem revokedBefore_of_not_refresh (h : later.isRefresh = false) :
    RevokedBefore earlier later := by
  intro id _
  cases later with
  | rotated hash sessionId => cases h
  | reuseSaved sessionId activeLeft => cases h
  | _ => exact ⟨nofun, nofun⟩

theorem refreshes_append (hlog : log.Pairwise RevokedBefore)
    (hnone : ∀ effect ∈ effects, effect.isRefresh = false) :
    (log ++ effects).Pairwise RevokedBefore := by
  refine List.pairwise_append.mpr ⟨hlog, ?_, ?_⟩
  · exact List.pairwise_of_forall_mem_list fun _ _ later hlater =>
      revokedBefore_of_not_refresh (hnone later hlater)
  · exact fun _ _ later hlater => revokedBefore_of_not_refresh (hnone later hlater)

theorem refreshes_append_one (hlog : log.Pairwise RevokedBefore)
    (heffect : ∀ id, IdentityEffect.sessionRevoked id ∈ log →
      (∀ hash, effect ≠ .rotated hash id) ∧ effect ≠ .reuseSaved id true) :
    (log ++ [effect]).Pairwise RevokedBefore := by
  refine List.pairwise_append.mpr ⟨hlog, List.pairwise_singleton _ _, ?_⟩
  intro earlier hearlier later hlater id hrevoked
  rw [List.mem_singleton.mp hlater]
  exact heffect id (hrevoked ▸ hearlier)

end Orders

section Runs

variable {settings : IdentitySettings} {db db' : IdentityDb}
variable {place : IdentityPlace} {input : IdentityInput}
variable {effects log : List IdentityEffect}
variable {config : Config IdentityDb IdentityPlace}

theorem unrevoked_of_rotated (htables : SessionTables db) {hash : RefreshTokenHash}
    {session rotated : Session} {now : Timestamp} {mayRevokeAny : Bool}
    (hallowed : rotatesUnrevoked settings db (.refreshing hash session now)
      (.proceed mayRevokeAny) = true)
    (hrotation : rotation settings db hash session now = .rotated rotated)
    (hsave : { db with nextId := db.nextId + 2 }.saveSession rotated = .ok db') :
    db.isSessionRevoked session.id = false := by
  have hother := not_otherActive_of_rotated htables hrotation hsave
  simpa [rotatesUnrevoked, hrotation, hother] using hallowed

/-- A revoked row is revoked after a statement. -/
theorem isSessionRevoked_step (htables : SessionTables db)
    (hallowed : rotatesUnrevoked settings db place input = true)
    (h : SessionStep settings db place input db' effects) {id : SessionId}
    (hrevoked : db.isSessionRevoked id = true) : db'.isSessionRevoked id = true := by
  cases h with
  | frame _ _ _ _ hsessions _ _ _ =>
      unfold IdentityDb.isSessionRevoked IdentityDb.findSession
      rw [hsessions]
      exact hrevoked
  | opened _ user _ ip userAgent now session _ hsession hsave =>
      rw [isSessionRevoked_save hsave, if_neg]
      · exact hrevoked
      · rintro rfl
        have hid : db.nextId ≤ session.id := by
          rw [hsession]
          exact Nat.le_refl _
        have hfresh := not_isSessionRevoked_of_fresh htables hid
        rw [hrevoked] at hfresh
        cases hfresh
  | rotated _ hash session rotated now _ hrotation hsave =>
      have hopen := unrevoked_of_rotated htables hallowed hrotation hsave
      rw [isSessionRevoked_save hsave, if_neg]
      · exact hrevoked
      · rintro rfl
        rw [(rotated_of_rotation hrotation).2.1] at hrevoked
        rw [hrevoked] at hopen
        cases hopen
  | reused _ hash session revoked now _ hrotation hsave =>
      obtain ⟨-, rfl⟩ := reused_of_rotation hrotation
      rw [isSessionRevoked_save hsave]
      split
      · simp
      · exact hrevoked
  | revoked _ session reason now _ hsave =>
      rw [isSessionRevoked_save hsave]
      split
      · simp
      · exact hrevoked
  | ended _ _ userId ended hended => exact isSessionRevoked_logoutAll hrevoked

/-- A revocation leaves a revoked row. -/
theorem isSessionRevoked_of_effect (htables : SessionTables db)
    (h : SessionStep settings db place input db' effects) {id : SessionId}
    (heffect : IdentityEffect.sessionRevoked id ∈ effects) :
    db'.isSessionRevoked id = true := by
  cases h with
  | frame _ _ _ _ _ _ _ hquiet =>
      exact absurd (hquiet _ heffect) (by simp [IdentityEffect.onSessions])
  | opened => simp at heffect
  | rotated => simp at heffect
  | reused _ hash session revoked now _ hrotation hsave =>
      obtain ⟨-, rfl⟩ := reused_of_rotation hrotation
      obtain rfl : id = session.id := by simpa using heffect
      rw [isSessionRevoked_save hsave]
      simp
  | revoked _ session reason now _ hsave =>
      obtain rfl : id = session.id := by simpa using heffect
      rw [isSessionRevoked_save hsave]
      simp
  | ended _ _ userId ended hended =>
      rcases List.mem_append.mp heffect with hrevoked | hchange
      · obtain ⟨sessionId, hsession, heq⟩ := List.mem_map.mp hrevoked
        cases heq
        exact isSessionRevoked_of_ended htables hsession
      · obtain ⟨change, user, heq, -⟩ := hended _ hchange
        cases heq

theorem refreshes_step (htables : SessionTables db)
    (hallowed : meetsNoRevocation settings db place input = true)
    (hinv : RevokedStays db log)
    (h : SessionStep settings db place input db' effects) :
    (log ++ effects).Pairwise RevokedBefore := by
  obtain ⟨hrotates, hreuses⟩ := Bool.and_eq_true_iff.mp hallowed
  cases h with
  | frame _ _ _ _ _ _ _ hquiet =>
      refine refreshes_append hinv.refreshes fun effect heffect => ?_
      have hquiet := hquiet effect heffect
      cases effect with
      | rotated hash sessionId => cases hquiet
      | reuseSaved sessionId activeLeft => cases hquiet
      | _ => rfl
  | opened =>
      exact refreshes_append hinv.refreshes (by simp [IdentityEffect.isRefresh])
  | rotated _ hash session rotated now _ hrotation hsave =>
      have hopen := unrevoked_of_rotated htables hrotates hrotation hsave
      refine refreshes_append_one hinv.refreshes fun id hrevoked => ⟨?_, nofun⟩
      intro hash' heq
      cases heq
      rw [(rotated_of_rotation hrotation).2.1] at hrevoked
      rw [hinv.rows _ hrevoked] at hopen
      cases hopen
  | reused _ hash session revoked now _ hrotation hsave =>
      obtain ⟨hactive, rfl⟩ := reused_of_rotation hrotation
      rw [List.append_cons]
      refine refreshes_append ?_ (by simp [IdentityEffect.isRefresh])
      refine refreshes_append_one hinv.refreshes fun id hrevoked => ⟨nofun, ?_⟩
      intro heq
      simp only [IdentityEffect.reuseSaved.injEq] at heq
      obtain ⟨rfl, hleft⟩ := heq
      rw [Session.revoke_id] at hrevoked hleft
      have hnone : hasActiveToken db session.id = false := by
        simpa [hrotation, hinv.rows _ hrevoked] using hreuses
      have hinactive : ∀ token ∈ (session.revoke .tokenReuse now).tokens,
          token.isActive = false := by
        intro token htoken
        rw [Session.revoke_tokens hactive] at htoken
        obtain ⟨copied, -, rfl⟩ := List.mem_map.mp htoken
        exact RefreshToken.revoke_isActive copied
      rw [hasActiveToken_of_save hinactive hsave hleft] at hnone
      cases hnone
  | revoked =>
      exact refreshes_append hinv.refreshes (by simp [IdentityEffect.isRefresh])
  | ended _ _ userId ended hended =>
      refine refreshes_append hinv.refreshes fun effect heffect => ?_
      rcases List.mem_append.mp heffect with hrevoked | hchange
      · obtain ⟨sessionId, -, rfl⟩ := List.mem_map.mp hrevoked
        rfl
      · obtain ⟨change, user, rfl, -⟩ := hended _ hchange
        rfl

theorem revokedStays_step (htables : SessionTables db)
    (hallowed : meetsNoRevocation settings db place input = true)
    (hinv : RevokedStays db log)
    (h : SessionStep settings db place input db' effects) :
    RevokedStays db' (log ++ effects) := by
  refine ⟨fun id hrevoked => ?_, refreshes_step htables hallowed hinv h⟩
  rcases List.mem_append.mp hrevoked with hold | hnew
  · exact isSessionRevoked_step htables (Bool.and_eq_true_iff.mp hallowed).1 h
      (hinv.rows id hold)
  · exact isSessionRevoked_of_effect htables h hnew

/-- A revoked session stays revoked in every run whose refreshes meet no
revocation where they save. -/
theorem revoked_stays
    (h : ReachesBy (identityExec settings)
      (fun db place input => meetsNoRevocation settings db place input = true)
      emptyIdentity config log) :
    RevokedStays config.store log := by
  refine ReachesBy.invariant (P := fun config log => RevokedStays config.store log)
    ⟨nofun, List.Pairwise.nil⟩ ?_ h
  intro config log pid input out before hinv hallowed hexec
  rw [Config.after_store]
  exact revokedStays_step (sessionTables_of_reaches before).1 hallowed hinv
    (sessionStep_of_move (identityMove_of_exec hexec))

end Runs

namespace RevocationWitness

open IdentityWitness (settings loggedIn)

/-- One request refreshes session 2 to its end, and then another one revokes
it. -/
def refreshedFirst : Config IdentityDb IdentityPlace × List IdentityEffect :=
  endOfRun (identityExec settings) emptyIdentity
    (loggedIn ++ [(1, .refresh 4), (1, .proceed false), (1, .proceed false),
      (1, .proceed false), (1, .proceed false), (2, .revokeSession 2 0),
      (2, .proceed false), (2, .proceed false), (2, .proceed false)])
    (by decide +kernel)

theorem revoked_stays_refreshedFirst :
    RevokedStays refreshedFirst.1.store refreshedFirst.2 :=
  revoked_stays
    (reachesBy_endOfRun (meetsNoRevocation settings) id (by decide +kernel) _)

/-- The second request commits between the read and the save of the first:
the session is active again, under a new refresh token. -/
def revived : Config IdentityDb IdentityPlace × List IdentityEffect :=
  endOfRun (identityExec settings) emptyIdentity
    (loggedIn ++ [(1, .refresh 4), (1, .proceed false), (2, .revokeSession 2 0),
      (2, .proceed false), (2, .proceed false), (1, .proceed false)])
    (by decide +kernel)

theorem reaches_revived : IdentityReaches settings revived.1 revived.2 :=
  reaches_endOfRun _

theorem revoked_not_always_stays :
    ¬ ∀ settings config log, IdentityReaches settings config log →
      RevokedStays config.store log := by
  intro hall
  have hstays := hall settings revived.1 revived.2 reaches_revived
  have hrevoked : IdentityEffect.sessionRevoked 2 ∈ revived.2 := by decide +kernel
  have hactive : revived.1.store.isSessionRevoked 2 = false := by decide +kernel
  rw [hstays.rows 2 hrevoked] at hactive
  cases hactive

end RevocationWitness

end Identity

end Workshop
