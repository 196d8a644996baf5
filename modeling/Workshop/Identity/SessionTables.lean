/-
The keys of the session and token tables, and what a request knows of the rows
it loaded: a copy may be stale, but its session and its tokens are rows of the
tables still, under the same ids, owners and hashes.
-/
import Workshop.Identity.SessionWrites

namespace Workshop

namespace Identity

open IdentityDb (saveTokens tokenTaken)

/-- The session of a copy is a row of the table. -/
def RowStored (rows : List SessionRow) (row : SessionRow) : Prop :=
  ∃ stored ∈ rows, stored.id = row.id ∧ stored.userId = row.userId

/-- A token of a copy is a row of the table. -/
def TokenStored (rows : List TokenRow) (sessionId : SessionId)
    (token : RefreshToken) : Prop :=
  ∃ row ∈ rows, row.id = token.id ∧ row.tokenHash = token.tokenHash ∧
    row.sessionId = sessionId

structure CopyStored (db : IdentityDb) (session : Session) : Prop where
  row : RowStored db.sessions session.toSessionRow
  tokens : ∀ token ∈ session.tokens, TokenStored db.tokens session.id token

structure SessionTables (db : IdentityDb) : Prop where
  sessionIds : (db.sessions.map SessionRow.id).Nodup
  sessionsBelow : ∀ row ∈ db.sessions, row.id < db.nextId
  tokenIds : (db.tokens.map fun row => row.id).Nodup
  tokensBelow : ∀ row ∈ db.tokens, row.id < db.nextId
  /-- `ux_refresh_tokens_token_hash` -/
  hashes : ∀ row ∈ db.tokens, ∀ other ∈ db.tokens,
    row.tokenHash = other.tokenHash → row.id = other.id

/-- The rows are there after a statement, under the same ids. -/
structure RowsKept (db db' : IdentityDb) : Prop where
  sessions : ∀ row ∈ db.sessions, RowStored db'.sessions row
  tokens : ∀ row ∈ db.tokens,
    TokenStored db'.tokens row.sessionId row.toRefreshToken

/-- A save of the session writes over its own rows only. -/
structure SavesOwn (db : IdentityDb) (session : Session) : Prop where
  row : ∀ stored ∈ db.sessions, stored.id = session.id →
    stored.userId = session.userId
  tokens : ∀ token ∈ session.tokens, ∀ row ∈ db.tokens, row.id = token.id →
    row.tokenHash = token.tokenHash ∧ row.sessionId = session.id
  rowBelow : session.id < db.nextId
  tokensBelow : ∀ token ∈ session.tokens, token.id < db.nextId

section Rows

variable {db db' : IdentityDb} {session : Session}

theorem RowsKept.refl (db : IdentityDb) : RowsKept db db :=
  ⟨fun row hrow => ⟨row, hrow, rfl, rfl⟩, fun row hrow => ⟨row, hrow, rfl, rfl, rfl⟩⟩

theorem RowsKept.rowStored (hkept : RowsKept db db') {row : SessionRow}
    (h : RowStored db.sessions row) : RowStored db'.sessions row := by
  obtain ⟨stored, hstored, hid, huser⟩ := h
  obtain ⟨stored', hstored', hid', huser'⟩ := hkept.sessions stored hstored
  exact ⟨stored', hstored', hid'.trans hid, huser'.trans huser⟩

theorem RowsKept.tokenStored (hkept : RowsKept db db') {sessionId : SessionId}
    {token : RefreshToken} (h : TokenStored db.tokens sessionId token) :
    TokenStored db'.tokens sessionId token := by
  obtain ⟨row, hrow, hid, hhash, hsession⟩ := h
  obtain ⟨row', hrow', hid', hhash', hsession'⟩ := hkept.tokens row hrow
  exact ⟨row', hrow', hid'.trans hid, hhash'.trans hhash, hsession'.trans hsession⟩

theorem RowsKept.copyStored (hkept : RowsKept db db') (h : CopyStored db session) :
    CopyStored db' session :=
  ⟨hkept.rowStored h.row, fun token htoken => hkept.tokenStored (h.tokens token htoken)⟩

/-- Rows with one key in a table with distinct keys are one row. -/
theorem SessionTables.token_eq (htables : SessionTables db) {row other : TokenRow}
    (hrow : row ∈ db.tokens) (hother : other ∈ db.tokens) (hid : row.id = other.id) :
    row = other :=
  List.inj_on_of_nodup_map htables.tokenIds hrow hother hid

theorem SessionTables.session_eq (htables : SessionTables db) {row other : SessionRow}
    (hrow : row ∈ db.sessions) (hother : other ∈ db.sessions)
    (hid : row.id = other.id) : row = other :=
  List.inj_on_of_nodup_map htables.sessionIds hrow hother hid

theorem SessionTables.findSession_of_mem (htables : SessionTables db)
    {row : SessionRow} (hrow : row ∈ db.sessions) :
    db.findSession row.id = some row :=
  find?_key_of_mem htables.sessionIds hrow

theorem CopyStored.savesOwn (htables : SessionTables db)
    (hcopy : CopyStored db session) : SavesOwn db session := by
  obtain ⟨own, hown, hid, huser⟩ := hcopy.row
  constructor
  · intro stored hstored heq
    rw [htables.session_eq hstored hown (heq.trans hid.symm)]
    exact huser
  · intro token htoken row hrow heq
    obtain ⟨mine, hmine, hmineId, hhash, hsession⟩ := hcopy.tokens token htoken
    rw [htables.token_eq hrow hmine (heq.trans hmineId.symm)]
    exact ⟨hhash, hsession⟩
  · rw [← hid]
    exact htables.sessionsBelow own hown
  · intro token htoken
    obtain ⟨mine, hmine, hmineId, -, -⟩ := hcopy.tokens token htoken
    rw [← hmineId]
    exact htables.tokensBelow mine hmine

end Rows

section Saves

variable {db db' : IdentityDb} {session : Session}

theorem RowsKept.of_save (hown : SavesOwn db session)
    (hsave : db.saveSession session = .ok db') : RowsKept db db' := by
  obtain ⟨saved, htokens, rfl⟩ := saveSession_eq_ok hsave
  constructor
  · intro row hrow
    by_cases heq : row.id = session.id
    · exact ⟨session.toSessionRow, mem_upsert.mpr (Or.inl rfl), heq.symm,
        (hown.row row hrow heq).symm⟩
    · exact ⟨row, mem_upsert.mpr (Or.inr ⟨hrow, heq⟩), rfl, rfl⟩
  · refine saveTokens_induction (P := fun saved => ∀ row ∈ db.tokens,
      TokenStored saved row.sessionId row.toRefreshToken)
      (fun row hrow => ⟨row, hrow, rfl, rfl, rfl⟩) ?_ htokens
    intro current written hwritten _ ih row hrow
    obtain ⟨held, hheld, hid, hhash, hsession⟩ := ih row hrow
    by_cases heq : held.id = written.id
    · obtain ⟨token, htoken, rfl⟩ := mem_savedTokens.mp hwritten
      obtain ⟨hsame, hours⟩ := hown.tokens token htoken row hrow (hid.symm.trans heq)
      exact ⟨_, mem_upsert.mpr (Or.inl rfl), heq.symm.trans hid, hsame.symm, hours.symm⟩
    · exact ⟨held, mem_upsert.mpr (Or.inr ⟨hheld, heq⟩), hid, hhash, hsession⟩

/-- The indexes the database keeps, a save keeps. -/
theorem SessionTables.of_save (htables : SessionTables db) (hown : SavesOwn db session)
    (hsave : db.saveSession session = .ok db') : SessionTables db' := by
  obtain ⟨saved, htokens, rfl⟩ := saveSession_eq_ok hsave
  refine ⟨nodup_upsert htables.sessionIds, ?_, ?_, ?_, ?_⟩
  · intro row hrow
    rcases mem_upsert.mp hrow with rfl | ⟨hrow, -⟩
    · exact hown.rowBelow
    · exact htables.sessionsBelow row hrow
  · exact saveTokens_induction (P := fun saved =>
      (saved.map fun row : TokenRow => row.id).Nodup) htables.tokenIds
      (fun _ _ _ _ ih => nodup_upsert ih) htokens
  · intro row hrow
    rcases mem_of_saveTokens htokens hrow with hwritten | hrow
    · obtain ⟨token, htoken, rfl⟩ := mem_savedTokens.mp hwritten
      exact hown.tokensBelow token htoken
    · exact htables.tokensBelow row hrow
  · refine saveTokens_induction (P := fun saved => ∀ row ∈ saved, ∀ other ∈ saved,
      row.tokenHash = other.tokenHash → row.id = other.id) htables.hashes ?_ htokens
    intro current written _ hfree ih
    -- The check of the written row saw every other row under its hash.
    have hclash : ∀ other ∈ current, other.tokenHash = written.tokenHash →
        other.id = written.id := by
      intro other hother hhash
      by_contra hne
      refine Bool.eq_false_iff.mp hfree (List.any_eq_true.mpr ⟨other, hother, ?_⟩)
      simp [hne, hhash]
    intro row hrow other hother hhash
    rcases mem_upsert.mp hrow with rfl | ⟨hheld, -⟩
    · rcases mem_upsert.mp hother with rfl | ⟨hheld, -⟩
      · rfl
      · exact (hclash other hheld hhash.symm).symm
    · rcases mem_upsert.mp hother with rfl | ⟨hheld', -⟩
      · exact hclash row hheld hhash
      · exact ih row hheld other hheld' hhash

end Saves

section LogoutAll

variable {db : IdentityDb} {userId : UserId} {reason : SessionRevocationReason}
variable {now : Timestamp}

/-- What a logout of a user makes of a session row. -/
def loggedOut (userId : UserId) (reason : SessionRevocationReason)
    (now : Timestamp) (row : SessionRow) : SessionRow :=
  if row.userId = userId && row.status = .active
  then { row with
    status := .revoked, revokedAt := some now, revocationReason := some reason }
  else row

/-- What it makes of a token row, for the sessions it ends. -/
def tokenLoggedOut (sessionIds : List SessionId) (row : TokenRow) : TokenRow :=
  if decide (row.sessionId ∈ sessionIds) && row.isActive
  then { row with status := .revoked } else row

theorem revokeAll_sessions :
    (db.revokeAllActiveByUserId userId reason now).sessions =
      db.sessions.map (loggedOut userId reason now) := rfl

theorem revokeAll_tokens :
    (db.revokeAllActiveByUserId userId reason now).tokens =
      db.tokens.map (tokenLoggedOut (db.activeSessionsOf userId)) := rfl

@[simp] theorem loggedOut_id (row : SessionRow) :
    (loggedOut userId reason now row).id = row.id := by
  unfold loggedOut
  split <;> rfl

@[simp] theorem loggedOut_userId (row : SessionRow) :
    (loggedOut userId reason now row).userId = row.userId := by
  unfold loggedOut
  split <;> rfl

/-- A revoked row stays as it is, and no row of the user stays active. -/
theorem loggedOut_status (row : SessionRow) :
    (loggedOut userId reason now row).status =
      if row.userId = userId then .revoked else row.status := by
  unfold loggedOut
  cases hstatus : row.status with
  | active => by_cases huser : row.userId = userId <;> simp [huser, hstatus]
  | revoked => by_cases huser : row.userId = userId <;> simp [huser, hstatus]

@[simp] theorem tokenLoggedOut_id (sessionIds : List SessionId) (row : TokenRow) :
    (tokenLoggedOut sessionIds row).id = row.id := by
  unfold tokenLoggedOut
  split <;> rfl

@[simp] theorem tokenLoggedOut_tokenHash (sessionIds : List SessionId)
    (row : TokenRow) :
    (tokenLoggedOut sessionIds row).tokenHash = row.tokenHash := by
  unfold tokenLoggedOut
  split <;> rfl

@[simp] theorem tokenLoggedOut_sessionId (sessionIds : List SessionId)
    (row : TokenRow) :
    (tokenLoggedOut sessionIds row).sessionId = row.sessionId := by
  unfold tokenLoggedOut
  split <;> rfl

theorem tokenLoggedOut_isActive (sessionIds : List SessionId) (row : TokenRow) :
    (tokenLoggedOut sessionIds row).isActive =
      (row.isActive && !decide (row.sessionId ∈ sessionIds)) := by
  unfold tokenLoggedOut
  by_cases hmem : row.sessionId ∈ sessionIds
  · cases hstatus : row.status <;> simp [hmem, hstatus, RefreshToken.isActive]
  · simp [hmem]

theorem RowsKept.of_logoutAll :
    RowsKept db (db.revokeAllActiveByUserId userId reason now) := by
  constructor
  · intro row hrow
    exact ⟨_, List.mem_map_of_mem hrow, loggedOut_id row, loggedOut_userId row⟩
  · intro row hrow
    exact ⟨_, List.mem_map_of_mem hrow, tokenLoggedOut_id _ row,
      tokenLoggedOut_tokenHash _ row, tokenLoggedOut_sessionId _ row⟩

theorem SessionTables.of_logoutAll (htables : SessionTables db) :
    SessionTables (db.revokeAllActiveByUserId userId reason now) := by
  have hsessions : (db.sessions.map (loggedOut userId reason now)).map SessionRow.id =
      db.sessions.map SessionRow.id := by
    rw [List.map_map]
    exact List.map_congr_left fun row _ => loggedOut_id row
  have htokens : (db.tokens.map (tokenLoggedOut (db.activeSessionsOf userId))).map
      (fun row => row.id) = db.tokens.map fun row => row.id := by
    rw [List.map_map]
    exact List.map_congr_left fun row _ => tokenLoggedOut_id _ row
  constructor
  · rw [revokeAll_sessions, hsessions]
    exact htables.sessionIds
  · intro row hrow
    rw [revokeAll_sessions] at hrow
    obtain ⟨old, hold, rfl⟩ := List.mem_map.mp hrow
    rw [loggedOut_id]
    exact htables.sessionsBelow old hold
  · rw [revokeAll_tokens, htokens]
    exact htables.tokenIds
  · intro row hrow
    rw [revokeAll_tokens] at hrow
    obtain ⟨old, hold, rfl⟩ := List.mem_map.mp hrow
    rw [tokenLoggedOut_id]
    exact htables.tokensBelow old hold
  · intro row hrow other hother hhash
    rw [revokeAll_tokens] at hrow hother
    obtain ⟨old, hold, rfl⟩ := List.mem_map.mp hrow
    obtain ⟨old', hold', rfl⟩ := List.mem_map.mp hother
    rw [tokenLoggedOut_tokenHash, tokenLoggedOut_tokenHash] at hhash
    rw [tokenLoggedOut_id, tokenLoggedOut_id]
    exact htables.hashes old hold old' hold' hhash

end LogoutAll

section Writers

variable {settings : IdentitySettings} {db : IdentityDb} {session : Session}

/-- More ids may have been generated. -/
theorem SessionTables.of_nextId (htables : SessionTables db) {nextId : Uuid}
    (hnext : db.nextId ≤ nextId) : SessionTables { db with nextId } :=
  ⟨htables.sessionIds, fun row hrow => Nat.lt_of_lt_of_le
    (htables.sessionsBelow row hrow) hnext, htables.tokenIds, fun row hrow =>
    Nat.lt_of_lt_of_le (htables.tokensBelow row hrow) hnext, htables.hashes⟩

theorem SavesOwn.of_start (settings : IdentitySettings) (htables : SessionTables db)
    (user : User) (ip userAgent : Option String) (now : Timestamp) :
    SavesOwn { db with nextId := db.nextId + 3 } (Session.start {
      id := db.nextId, userId := user.id, ip, userAgent
      initialTokenId := db.nextId + 1
      initialTokenHash := settings.hash (db.nextId + 2)
      refreshTokenTtlSeconds := settings.refreshTokenTtlSeconds
      absoluteTtlSeconds := settings.sessionAbsoluteTtlSeconds, now }) := by
  constructor
  · intro stored hstored heq
    exact absurd heq (Nat.ne_of_lt (htables.sessionsBelow stored hstored))
  · intro token htoken row hrow heq
    obtain rfl := List.mem_singleton.mp htoken
    have hbelow := htables.tokensBelow row hrow
    rw [heq] at hbelow
    exact absurd hbelow (Nat.not_lt.mpr (Nat.le_add_right _ _))
  · exact Nat.lt_add_of_pos_right (by decide)
  · intro token htoken
    obtain rfl := List.mem_singleton.mp htoken
    exact Nat.add_lt_add_left (by decide) db.nextId

theorem SavesOwn.of_rotation (htables : SessionTables db)
    (hcopy : CopyStored db session) {hash : RefreshTokenHash} {now : Timestamp}
    {rotated : Session}
    (hrotation : rotation settings db hash session now = .rotated rotated) :
    SavesOwn { db with nextId := db.nextId + 2 } rotated := by
  obtain ⟨-, hrow, presented, -, -, -, expiresAt, htokens⟩ :=
    rotated_of_rotation hrotation
  have hown := hcopy.savesOwn htables
  have hid : rotated.id = session.id := by rw [hrow]
  have huser : rotated.userId = session.userId := by rw [hrow]
  have htoken : ∀ token ∈ rotated.tokens, token.id = db.nextId ∨
      ∃ copied ∈ session.tokens, copied.id = token.id ∧
        copied.tokenHash = token.tokenHash := by
    intro token htoken
    rw [htokens, List.mem_append] at htoken
    rcases htoken with hold | hnew
    · obtain ⟨copied, hcopied, rfl⟩ := List.mem_map.mp hold
      refine Or.inr ⟨copied, hcopied, ?_⟩
      split <;> exact ⟨rfl, rfl⟩
    · rw [List.mem_singleton.mp hnew]
      exact Or.inl rfl
  constructor
  · intro stored hstored heq
    rw [huser]
    exact hown.row stored hstored (heq.trans hid)
  · intro token hmem row hrow heq
    rw [hid]
    rcases htoken token hmem with hnew | ⟨copied, hcopied, hsame, hhash⟩
    · have hbelow := htables.tokensBelow row hrow
      rw [heq, hnew] at hbelow
      exact absurd hbelow (Nat.lt_irrefl _)
    · rw [← hhash]
      exact hown.tokens copied hcopied row hrow (heq.trans hsame.symm)
  · rw [hid]
    exact Nat.lt_of_lt_of_le hown.rowBelow (Nat.le_add_right _ _)
  · intro token hmem
    rcases htoken token hmem with hnew | ⟨copied, hcopied, hsame, -⟩
    · rw [hnew]
      exact Nat.lt_add_of_pos_right (by decide)
    · rw [← hsame]
      exact Nat.lt_of_lt_of_le (hown.tokensBelow copied hcopied)
        (Nat.le_add_right _ _)

theorem CopyStored.revoke (hcopy : CopyStored db session)
    (reason : SessionRevocationReason) (now : Timestamp) :
    CopyStored db (session.revoke reason now) := by
  cases hstatus : session.status with
  | revoked =>
      rw [Session.revoke_of_revoked hstatus]
      exact hcopy
  | active =>
      constructor
      · obtain ⟨stored, hstored, hid, huser⟩ := hcopy.row
        exact ⟨stored, hstored, hid.trans Session.revoke_id.symm,
          huser.trans Session.revoke_userId.symm⟩
      · intro token htoken
        rw [Session.revoke_tokens hstatus] at htoken
        obtain ⟨copied, hcopied, rfl⟩ := List.mem_map.mp htoken
        obtain ⟨row, hrow, hid, hhash, hsession⟩ := hcopy.tokens copied hcopied
        exact ⟨row, hrow, hid.trans (RefreshToken.revoke_id copied).symm,
          hhash.trans (RefreshToken.revoke_tokenHash copied).symm,
          hsession.trans Session.revoke_id.symm⟩

end Writers

/-- What a request knows of the rows it loaded. -/
def IdentityPlace.Stored (db : IdentityDb) : IdentityPlace → Prop
  | .presenting hash token =>
      token.tokenHash = hash ∧ TokenStored db.tokens token.sessionId token.toRefreshToken
  | .refreshing hash session _ =>
      CopyStored db session ∧
        ∃ token, session.tokens = [token] ∧ token.tokenHash = hash
  | .finding row _ => RowStored db.sessions row
  | .revoking session _ _ => CopyStored db session
  | _ => True

section Runs

variable {settings : IdentitySettings} {db db' : IdentityDb}
variable {place next : IdentityPlace} {input : IdentityInput}
variable {effects : List IdentityEffect} {log : List IdentityEffect}
variable {config : Config IdentityDb IdentityPlace}
variable {allowed : IdentityDb → IdentityPlace → IdentityInput → Prop}

theorem IdentityPlace.Stored.mono (hkept : RowsKept db db')
    (h : place.Stored db) : place.Stored db' := by
  cases place with
  | presenting hash token => exact ⟨h.1, hkept.tokenStored h.2⟩
  | refreshing hash session now => exact ⟨hkept.copyStored h.1, h.2⟩
  | finding row actorUserId => exact hkept.rowStored h
  | revoking session reason now => exact hkept.copyStored h
  | _ => trivial

theorem tables_of_step (htables : SessionTables db) (hplace : place.Stored db)
    (h : SessionStep settings db place input db' effects) :
    SessionTables db' ∧ RowsKept db db' := by
  cases h with
  | frame _ _ _ _ hsessions htokens hnext _ =>
      obtain ⟨users, sessions, tokens, revokedSessions, signed, now, nextId⟩ := db'
      obtain rfl : sessions = db.sessions := hsessions
      obtain rfl : tokens = db.tokens := htokens
      have hnew := htables.of_nextId hnext
      exact ⟨⟨hnew.sessionIds, hnew.sessionsBelow, hnew.tokenIds, hnew.tokensBelow,
        hnew.hashes⟩, (RowsKept.refl db).sessions, (RowsKept.refl db).tokens⟩
  | opened _ user _ ip userAgent now session _ hsession hsave =>
      subst hsession
      have hown := SavesOwn.of_start settings htables user ip userAgent now
      have hnew := htables.of_nextId (Nat.le_add_right db.nextId 3)
      have hkept := RowsKept.of_save hown hsave
      exact ⟨hnew.of_save hown hsave, hkept.sessions, hkept.tokens⟩
  | rotated _ hash session rotated now _ hrotation hsave =>
      have hown := SavesOwn.of_rotation htables hplace.1 hrotation
      have hnew := htables.of_nextId (Nat.le_add_right db.nextId 2)
      have hkept := RowsKept.of_save hown hsave
      exact ⟨hnew.of_save hown hsave, hkept.sessions, hkept.tokens⟩
  | reused _ hash session revoked now _ hrotation hsave =>
      obtain ⟨-, rfl⟩ := reused_of_rotation hrotation
      have hown := (hplace.1.revoke .tokenReuse now).savesOwn htables
      exact ⟨htables.of_save hown hsave, RowsKept.of_save hown hsave⟩
  | revoked _ session reason now _ hsave =>
      have hown := (CopyStored.revoke hplace reason now).savesOwn htables
      exact ⟨htables.of_save hown hsave, RowsKept.of_save hown hsave⟩
  | ended _ _ userId _ _ => exact ⟨htables.of_logoutAll, RowsKept.of_logoutAll⟩

theorem stored_of_move (hplace : place.Stored db)
    (h : IdentityMove settings db place input db' next effects)
    (hkept : RowsKept db db') :
    next.Stored db' := by
  cases h with
  | tick _ elapsed => exact hplace.mono hkept
  | present _ token htoken => exact ⟨rfl, token, htoken, rfl, rfl, rfl⟩
  | loadSession _ hash token row hrow =>
      have hid : row.id = token.sessionId := by simpa using List.find?_some hrow
      refine ⟨⟨⟨row, List.mem_of_find?_eq_some hrow, rfl, rfl⟩, ?_⟩, _, rfl, hplace.1⟩
      intro copied hcopied
      obtain rfl := List.mem_singleton.mp hcopied
      obtain ⟨stored, hstored, heq, hhash, hsession⟩ := hplace.2
      exact ⟨stored, hstored, heq, hhash, hsession.trans hid.symm⟩
  | find _ row actorUserId hrow =>
      exact ⟨row, List.mem_of_find?_eq_some hrow, rfl, rfl⟩
  | loadTokens _ row actorUserId reason =>
      refine ⟨hplace, fun token htoken => ?_⟩
      obtain ⟨stored, hstored, rfl⟩ := List.mem_map.mp htoken
      rw [List.mem_filter, Bool.and_eq_true, decide_eq_true_eq] at hstored
      exact ⟨stored, hstored.1, rfl, rfl, hstored.2.1⟩
  | saveChange _ change user changed _ hchange hsave _ hnext =>
      rcases hnext with rfl | ⟨rfl, -⟩ <;> trivial
  | _ => trivial

/-- In every run the tables keep their keys, and every copy is of stored rows. -/
theorem sessionTables_of_reaches
    (h : ReachesBy (identityExec settings) allowed emptyIdentity config log) :
    SessionTables config.store ∧ ∀ pid, (config.places pid).Stored config.store := by
  refine ReachesBy.invariant_of_places (G := fun db _ => SessionTables db)
    (L := fun db _ place => place.Stored db) ?_ (fun _ => trivial) ?_ ?_ h
  · constructor
    all_goals simp [emptyIdentity]
  · intro config log pid input out before htables hplaces _ hexec
    have hmove := identityMove_of_exec hexec
    obtain ⟨htables', hkept⟩ :=
      tables_of_step htables (hplaces pid) (sessionStep_of_move hmove)
    exact ⟨htables', stored_of_move (hplaces pid) hmove hkept⟩
  · intro config log pid input out before htables hplaces _ hexec other hne
    have hmove := identityMove_of_exec hexec
    exact (hplaces other).mono
      (tables_of_step htables (hplaces pid) (sessionStep_of_move hmove)).2

end Runs

end Identity

end Workshop
