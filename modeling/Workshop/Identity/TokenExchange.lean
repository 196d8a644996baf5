/-
The exchange of a refresh token.  A refresh checks the token on its copy; what
stops a second exchange is the index on active tokens, as long as every active
session holds one and no refresh revives a revoked session.
-/
import Workshop.Identity.Revocations

namespace Workshop

namespace Identity

open IdentityDb (saveTokens tokenTaken)

/-- A refresh token value is answered with a new pair at most once. -/
def ExchangedOnce (log : List IdentityEffect) : Prop :=
  ∀ hash, log.count (IdentityEffect.exchanged hash) ≤ 1

/-- The active session rows hold an active token, and a token that was rotated
is not active. -/
structure TokensRotate (db : IdentityDb) (log : List IdentityEffect) : Prop where
  held : ∀ row ∈ db.sessions, row.status = .active →
    ∃ token ∈ db.tokens, token.sessionId = row.id ∧ token.isActive = true
  spent : ∀ hash id, IdentityEffect.rotated hash id ∈ log →
    ∃ token ∈ db.tokens, token.tokenHash = hash ∧ token.isActive = false

/-- A revocation that loaded a revoked session loaded no rotated token as
active. -/
def IdentityPlace.Unspent (db : IdentityDb) (log : List IdentityEffect) :
    IdentityPlace → Prop
  | .finding row _ => row.status = .revoked → db.isSessionRevoked row.id = true
  | .revoking session _ _ =>
      session.status = .revoked → db.isSessionRevoked session.id = true ∧
        ∀ token ∈ session.tokens, token.isActive = true →
          ∀ id, IdentityEffect.rotated token.tokenHash id ∉ log
  | _ => True

section Saves

variable {db db' : IdentityDb} {session : Session}
variable {tokens rows saved : List TokenRow} {row : TokenRow} {hash : RefreshTokenHash}

/-- A row of the table stays when a save writes no other row under its id. -/
theorem mem_saveTokens_of_mem (hsave : saveTokens tokens rows = .ok saved)
    (hrow : row ∈ tokens) (hsame : ∀ other ∈ rows, other.id = row.id → other = row) :
    row ∈ saved := by
  refine saveTokens_induction (P := fun saved => row ∈ saved) hrow ?_ hsave
  intro current written hwritten _ ih
  by_cases hid : row.id = written.id
  · exact mem_upsert.mpr (Or.inl (hsame written hwritten hid.symm).symm)
  · exact mem_upsert.mpr (Or.inr ⟨ih, hid⟩)

/-- A written row is in the table when no other one is written under its id. -/
theorem mem_saveTokens (hsave : saveTokens tokens rows = .ok saved)
    (hrow : row ∈ rows) (hsame : ∀ other ∈ rows, other.id = row.id → other = row) :
    row ∈ saved := by
  induction rows generalizing tokens with
  | nil => cases hrow
  | cons first rest ih =>
      have hrest : ∀ other ∈ rest, other.id = row.id → other = row :=
        fun other hother => hsame other (List.mem_cons_of_mem _ hother)
      simp only [saveTokens] at hsave
      split at hsave
      · cases hsave
      · rcases List.mem_cons.mp hrow with rfl | hlater
        · exact mem_saveTokens_of_mem hsave (mem_upsert.mpr (Or.inl rfl)) hrest
        · exact ih hsave hlater hrest

theorem mem_save_of_unwritten (hsave : db.saveSession session = .ok db')
    (hrow : row ∈ db.tokens) (hids : ∀ token ∈ session.tokens, token.id ≠ row.id) :
    row ∈ db'.tokens := by
  obtain ⟨saved, htokens, rfl⟩ := saveSession_eq_ok hsave
  refine mem_saveTokens_of_mem htokens hrow fun written hwritten hid => ?_
  obtain ⟨token, htoken, rfl⟩ := mem_savedTokens.mp hwritten
  exact absurd hid (hids token htoken)

theorem mem_save_of_other (hown : SavesOwn db session)
    (hsave : db.saveSession session = .ok db') (hrow : row ∈ db.tokens)
    (hother : row.sessionId ≠ session.id) : row ∈ db'.tokens := by
  refine mem_save_of_unwritten hsave hrow fun token htoken hid => ?_
  exact hother (hown.tokens token htoken row hrow hid.symm).2

/-- A save that writes a token as inactive, or not at all, leaves it so. -/
theorem spent_of_save (hown : SavesOwn db session)
    (hsave : db.saveSession session = .ok db')
    (hinactive : ∀ token ∈ session.tokens, token.tokenHash = hash →
      token.isActive = false)
    (hspent : ∃ row ∈ db.tokens, row.tokenHash = hash ∧ row.isActive = false) :
    ∃ row ∈ db'.tokens, row.tokenHash = hash ∧ row.isActive = false := by
  obtain ⟨saved, htokens, rfl⟩ := saveSession_eq_ok hsave
  obtain ⟨row, hrow, hhash, hstill⟩ := hspent
  have hkept : ∃ other ∈ saved, other.id = row.id ∧ other.tokenHash = hash ∧
      other.isActive = false := by
    refine saveTokens_induction (P := fun saved => ∃ other ∈ saved,
      other.id = row.id ∧ other.tokenHash = hash ∧ other.isActive = false)
      ⟨row, hrow, rfl, hhash, hstill⟩ ?_ htokens
    intro current written hwritten _ ih
    obtain ⟨other, hother, hid, hsame, hactive⟩ := ih
    by_cases heq : other.id = written.id
    · obtain ⟨token, htoken, rfl⟩ := mem_savedTokens.mp hwritten
      have hid' : row.id = token.id := hid.symm.trans heq
      have htokenHash : token.tokenHash = hash :=
        (hown.tokens token htoken row hrow hid').1.symm.trans hhash
      exact ⟨_, mem_upsert.mpr (Or.inl rfl), hid'.symm, htokenHash,
        hinactive token htoken htokenHash⟩
    · exact ⟨other, mem_upsert.mpr (Or.inr ⟨hother, heq⟩), hid, hsame, hactive⟩
  obtain ⟨other, hother, -, hsame, hactive⟩ := hkept
  exact ⟨other, hother, hsame, hactive⟩

/-- What is held of the other sessions is held after a save. -/
theorem held_of_save (hown : SavesOwn db session)
    (hsave : db.saveSession session = .ok db')
    (hheld : ∀ row ∈ db.sessions, row.status = .active →
      ∃ token ∈ db.tokens, token.sessionId = row.id ∧ token.isActive = true)
    (hmine : session.status = .active →
      ∃ token ∈ db'.tokens, token.sessionId = session.id ∧ token.isActive = true) :
    ∀ row ∈ db'.sessions, row.status = .active →
      ∃ token ∈ db'.tokens, token.sessionId = row.id ∧ token.isActive = true := by
  intro row hrow hactive
  have hsessions : db'.sessions =
      upsert SessionRow.id session.toSessionRow db.sessions := by
    obtain ⟨_, -, rfl⟩ := saveSession_eq_ok hsave
    rfl
  rw [hsessions] at hrow
  rcases mem_upsert.mp hrow with rfl | ⟨hold, hne⟩
  · exact hmine hactive
  · obtain ⟨token, htoken, hsession, hstill⟩ := hheld row hold hactive
    exact ⟨token, mem_save_of_other hown hsave htoken (hsession ▸ hne), hsession, hstill⟩

end Saves

section Rotations

variable {settings : IdentitySettings} {db db' : IdentityDb} {hash : RefreshTokenHash}
variable {session rotated : Session} {now : Timestamp} {log : List IdentityEffect}

theorem id_or_hash_of_rotation {token : RefreshToken}
    (hone : session.tokens = [token])
    (hrotation : rotation settings db hash session now = .rotated rotated) :
    ∀ token ∈ rotated.tokens, token.id = db.nextId ∨ token.tokenHash = hash := by
  obtain ⟨-, -, presented, hpresented, hhash, -, expiresAt, hrotated⟩ :=
    rotated_of_rotation hrotation
  rw [hone] at hpresented hrotated
  obtain rfl := List.mem_singleton.mp hpresented
  rw [List.map_singleton, if_pos rfl, List.singleton_append] at hrotated
  rw [hrotated]
  simp only [List.mem_cons, List.not_mem_nil, or_false]
  rintro copied (rfl | rfl)
  · exact Or.inr hhash
  · exact Or.inl rfl

/-- What the save of a rotation leaves of the presented token and of the new
one, for a copy with one token. -/
theorem tokens_of_rotation (htables : SessionTables db) {token : RefreshToken}
    (hcopy : CopyStored db session) (hone : session.tokens = [token])
    (hrotation : rotation settings db hash session now = .rotated rotated)
    (hsave : { db with nextId := db.nextId + 2 }.saveSession rotated = .ok db') :
    (∃ row ∈ db'.tokens, row.tokenHash = hash ∧ row.isActive = false) ∧
      ∃ row ∈ db'.tokens, row.sessionId = session.id ∧ row.isActive = true := by
  obtain ⟨-, hrow, presented, hpresented, hhash, -, expiresAt, hrotated⟩ :=
    rotated_of_rotation hrotation
  have hid : rotated.id = session.id := by rw [hrow]
  rw [hone] at hpresented hrotated
  obtain rfl := List.mem_singleton.mp hpresented
  rw [List.map_singleton, if_pos rfl, List.singleton_append] at hrotated
  obtain ⟨stored, hstored, hsame, -, -⟩ :=
    hcopy.tokens presented (hone ▸ List.mem_singleton_self _)
  have hbelow : presented.id < db.nextId := hsame ▸ htables.tokensBelow stored hstored
  obtain ⟨saved, htokens, rfl⟩ := saveSession_eq_ok hsave
  -- The two rows of the save have different ids, so both are there after it.
  have hrows : ∀ written ∈ savedTokens rotated,
      written = toTokenRow rotated (presented.markRotated db.nextId now) ∨
        written = toTokenRow rotated (RefreshToken.issue db.nextId
          (settings.hash (db.nextId + 1)) now expiresAt) := by
    intro written hwritten
    obtain ⟨token, htoken, rfl⟩ := mem_savedTokens.mp hwritten
    rw [hrotated] at htoken
    simp only [List.mem_cons, List.not_mem_nil, or_false] at htoken
    exact htoken.imp (congrArg _) (congrArg _)
  have hmem : ∀ token ∈ rotated.tokens, toTokenRow rotated token ∈ saved := by
    intro token htoken
    refine mem_saveTokens htokens (mem_savedTokens.mpr ⟨token, htoken, rfl⟩) ?_
    intro other hother heq
    rw [hrotated] at htoken
    simp only [List.mem_cons, List.not_mem_nil, or_false] at htoken
    rcases htoken with rfl | rfl
    · rcases hrows other hother with rfl | rfl
      · rfl
      · exact absurd heq.symm (Nat.ne_of_lt hbelow)
    · rcases hrows other hother with rfl | rfl
      · exact absurd heq (Nat.ne_of_lt hbelow)
      · rfl
  constructor
  · refine ⟨_, hmem (presented.markRotated db.nextId now) ?_, hhash, rfl⟩
    rw [hrotated]
    exact List.mem_cons_self
  · refine ⟨_, hmem (RefreshToken.issue db.nextId (settings.hash (db.nextId + 1)) now
      expiresAt) ?_, hid, rfl⟩
    rw [hrotated]
    exact List.mem_cons_of_mem _ (List.mem_singleton_self _)

/-- A token that was rotated is not rotated again: the active session holds
another active token, and the index refuses the save. -/
theorem not_rotated_before (htables : SessionTables db) {token : RefreshToken}
    (hcopy : CopyStored db session) (hone : session.tokens = [token])
    (hinv : TokensRotate db log)
    (hopen : db.isSessionRevoked session.id = false)
    (hrotation : rotation settings db hash session now = .rotated rotated)
    (hsave : { db with nextId := db.nextId + 2 }.saveSession rotated = .ok db')
    (id : SessionId) : IdentityEffect.rotated hash id ∉ log := by
  intro hbefore
  obtain ⟨-, -, presented, hpresented, hhash, -⟩ := rotated_of_rotation hrotation
  obtain ⟨row, hrow, hrowHash, hspent⟩ := hinv.spent hash id hbefore
  obtain ⟨mine, hmine, hmineId, hmineHash, -⟩ := hcopy.tokens presented hpresented
  obtain rfl : mine = row := htables.token_eq hmine hrow
    (htables.hashes mine hmine row hrow (hmineHash.trans (hhash.trans hrowHash.symm)))
  obtain ⟨stored, hstored, hid, -⟩ := hcopy.row
  have hactive : stored.status = .active := by
    have hfind := htables.findSession_of_mem hstored
    rw [hid] at hfind
    rw [IdentityDb.isSessionRevoked, hfind] at hopen
    cases hstatus : stored.status with
    | active => rfl
    | revoked => simp [hstatus] at hopen
  obtain ⟨other, hother, hsession, hstill⟩ := hinv.held stored hstored hactive
  have hnone := not_otherActive_of_rotated htables hrotation hsave
  have hsome : db.otherActive session = true := by
    refine List.any_eq_true.mpr ⟨other, hother, ?_⟩
    rw [hone] at hpresented
    obtain rfl := List.mem_singleton.mp hpresented
    have hdifferent : other.id ≠ presented.id := by
      intro heq
      rw [htables.token_eq hother hmine (heq.trans hmineId.symm), hspent] at hstill
      cases hstill
    simp [hsession.trans hid, hstill, hone, hdifferent]
  rw [hsome] at hnone
  cases hnone

end Rotations

section Steps

variable {settings : IdentitySettings} {db db' : IdentityDb}
variable {place next : IdentityPlace} {input : IdentityInput}
variable {effects log : List IdentityEffect}
variable {config : Config IdentityDb IdentityPlace}

/-- A statement that rotates a token rotates it for the first time. -/
theorem not_rotated_of_effect (htables : SessionTables db) (hplace : place.Stored db)
    (hinv : TokensRotate db log)
    (hallowed : rotatesUnrevoked settings db place input = true)
    (h : SessionStep settings db place input db' effects) {hash : RefreshTokenHash}
    {id : SessionId} (heffect : IdentityEffect.rotated hash id ∈ effects)
    (id' : SessionId) : IdentityEffect.rotated hash id' ∉ log := by
  cases h with
  | frame _ _ _ _ _ _ _ hquiet =>
      exact absurd (hquiet _ heffect) (by simp [IdentityEffect.onSessions])
  | opened => simp at heffect
  | rotated _ hash session rotated now _ hrotation hsave =>
      obtain ⟨rfl, rfl⟩ : _ = hash ∧ id = rotated.id := by simpa using heffect
      obtain ⟨hcopy, token, hone, -⟩ := hplace
      exact not_rotated_before htables hcopy hone hinv
        (unrevoked_of_rotated htables hallowed hrotation hsave) hrotation hsave id'
  | reused => simp at heffect
  | revoked => simp at heffect
  | ended _ _ userId ended hended =>
      rcases List.mem_append.mp heffect with hrevoked | hchange
      · simp at hrevoked
      · obtain ⟨change, user, heq, -⟩ := hended _ hchange
        cases heq

theorem tokensRotate_step (htables : SessionTables db) (hplace : place.Stored db)
    (hunspent : place.Unspent db log) (hinv : TokensRotate db log)
    (h : SessionStep settings db place input db' effects) :
    TokensRotate db' (log ++ effects) := by
  cases h with
  | frame _ _ _ _ hsessions htokens _ hquiet =>
      constructor
      · rw [hsessions, htokens]
        exact hinv.held
      · intro hash id hmem
        rw [htokens]
        rcases List.mem_append.mp hmem with hold | hnew
        · exact hinv.spent hash id hold
        · exact absurd (hquiet _ hnew) (by simp [IdentityEffect.onSessions])
  | opened _ user _ ip userAgent now session _ hsession hsave =>
      subst hsession
      have hown := SavesOwn.of_start settings htables user ip userAgent now
      constructor
      · refine held_of_save hown hsave hinv.held fun _ => ?_
        obtain ⟨saved, htokens, rfl⟩ := saveSession_eq_ok hsave
        refine ⟨_, mem_saveTokens htokens (mem_savedTokens.mpr
          ⟨_, List.mem_singleton_self _, rfl⟩) ?_, rfl, rfl⟩
        intro other hother _
        obtain ⟨token, htoken, rfl⟩ := mem_savedTokens.mp hother
        rw [List.mem_singleton.mp htoken]
      · intro hash id hmem
        obtain ⟨row, hrow, hhash, hstill⟩ := hinv.spent hash id (by simpa using hmem)
        refine ⟨row, mem_save_of_unwritten hsave hrow ?_, hhash, hstill⟩
        intro token htoken heq
        have hbelow := htables.tokensBelow row hrow
        rw [← heq, List.mem_singleton.mp htoken] at hbelow
        exact absurd hbelow (Nat.not_lt.mpr (Nat.le_add_right _ _))
  | rotated _ hash session rotated now _ hrotation hsave =>
      obtain ⟨hcopy, token, hone, -⟩ := hplace
      have hown := SavesOwn.of_rotation htables hcopy hrotation
      have hid : rotated.id = session.id := by
        rw [(rotated_of_rotation hrotation).2.1]
      obtain ⟨hspent, hactive⟩ := tokens_of_rotation htables hcopy hone hrotation hsave
      constructor
      · refine held_of_save hown hsave hinv.held fun _ => ?_
        rw [hid]
        exact hactive
      · intro hash' id hmem
        by_cases hsame : hash' = hash
        · rw [hsame]
          exact hspent
        · have hold : IdentityEffect.rotated hash' id ∈ log := by
            simpa [hsame] using hmem
          obtain ⟨row, hrow, hhash, hstill⟩ := hinv.spent hash' id hold
          refine ⟨row, mem_save_of_unwritten hsave hrow ?_, hhash, hstill⟩
          intro token htoken heq
          rcases id_or_hash_of_rotation hone hrotation token htoken with hnew | hhash'
          · exact absurd (htables.tokensBelow row hrow) (by simp [← heq, hnew])
          · have hrowHash := (hown.tokens token htoken row hrow heq.symm).1
            exact hsame (hhash.symm.trans (hrowHash.trans hhash'))
  | reused _ hash session revoked now _ hrotation hsave =>
      obtain ⟨hactive, rfl⟩ := reused_of_rotation hrotation
      have hown := (hplace.1.revoke .tokenReuse now).savesOwn htables
      constructor
      · exact held_of_save hown hsave hinv.held fun hstill => by simp at hstill
      · intro hash' id hmem
        refine spent_of_save hown hsave ?_ (hinv.spent hash' id (by simpa using hmem))
        intro token htoken _
        rw [Session.revoke_tokens hactive] at htoken
        obtain ⟨copied, -, rfl⟩ := List.mem_map.mp htoken
        exact RefreshToken.revoke_isActive copied
  | revoked _ session reason now _ hsave =>
      have hown := (CopyStored.revoke hplace reason now).savesOwn htables
      constructor
      · exact held_of_save hown hsave hinv.held fun hstill => by simp at hstill
      · intro hash' id hmem
        have hold : IdentityEffect.rotated hash' id ∈ log := by simpa using hmem
        refine spent_of_save hown hsave ?_ (hinv.spent hash' id hold)
        intro token htoken hhash
        cases hstatus : session.status with
        | active =>
            rw [Session.revoke_tokens hstatus] at htoken
            obtain ⟨copied, -, rfl⟩ := List.mem_map.mp htoken
            exact RefreshToken.revoke_isActive copied
        | revoked =>
            rw [Session.revoke_of_revoked hstatus] at htoken
            by_contra hstill
            rw [Bool.not_eq_false] at hstill
            exact (hunspent hstatus).2 token htoken hstill id (hhash ▸ hold)
  | ended _ _ userId ended hended =>
      constructor
      · intro row hrow hactive
        rw [revokeAll_sessions] at hrow
        obtain ⟨old, hold, rfl⟩ := List.mem_map.mp hrow
        rw [loggedOut_status] at hactive
        split at hactive
        · cases hactive
        · rename_i huser
          obtain ⟨token, htoken, hsession, hstill⟩ := hinv.held old hold hactive
          refine ⟨tokenLoggedOut (db.activeSessionsOf userId) token,
            List.mem_map_of_mem htoken, ?_, ?_⟩
          · rw [tokenLoggedOut_sessionId, loggedOut_id]
            exact hsession
          · rw [tokenLoggedOut_isActive, hstill, Bool.true_and, Bool.not_eq_true',
              decide_eq_false_iff_not]
            intro hended
            obtain ⟨other, hother, heq⟩ := List.mem_map.mp hended
            rw [List.mem_filter, Bool.and_eq_true, decide_eq_true_eq] at hother
            rw [htables.session_eq hother.1 hold (heq.trans hsession)] at hother
            exact huser hother.2.1
      · intro hash id hmem
        have hold : IdentityEffect.rotated hash id ∈ log := by
          rcases List.mem_append.mp hmem with hold | hnew
          · exact hold
          · rcases List.mem_append.mp hnew with hrevoked | hchange
            · simp at hrevoked
            · obtain ⟨change, user, heq, -⟩ := hended _ hchange
              cases heq
        obtain ⟨row, hrow, hhash, hstill⟩ := hinv.spent hash id hold
        refine ⟨tokenLoggedOut (db.activeSessionsOf userId) row,
          List.mem_map_of_mem hrow, ?_, ?_⟩
        · rw [tokenLoggedOut_tokenHash]
          exact hhash
        · rw [tokenLoggedOut_isActive, hstill, Bool.false_and]

/-- A statement that rotates a token does so on a session that is open. -/
theorem open_of_rotated_effect (htables : SessionTables db) (hplace : place.Stored db)
    (hallowed : rotatesUnrevoked settings db place input = true)
    (h : SessionStep settings db place input db' effects) {hash : RefreshTokenHash}
    {id : SessionId} (heffect : IdentityEffect.rotated hash id ∈ effects) :
    ∃ row ∈ db.tokens, row.tokenHash = hash ∧
      db.isSessionRevoked row.sessionId = false := by
  cases h with
  | frame _ _ _ _ _ _ _ hquiet =>
      exact absurd (hquiet _ heffect) (by simp [IdentityEffect.onSessions])
  | opened => simp at heffect
  | rotated _ hash session rotated now _ hrotation hsave =>
      obtain ⟨rfl, -⟩ : _ = hash ∧ id = rotated.id := by simpa using heffect
      obtain ⟨hcopy, token, hone, hhash⟩ := hplace
      obtain ⟨row, hrow, -, hrowHash, hsession⟩ :=
        hcopy.tokens token (hone ▸ List.mem_singleton_self _)
      refine ⟨row, hrow, hrowHash.trans hhash, ?_⟩
      rw [hsession]
      exact unrevoked_of_rotated htables hallowed hrotation hsave
  | reused => simp at heffect
  | revoked => simp at heffect
  | ended _ _ userId ended hended =>
      rcases List.mem_append.mp heffect with hrevoked | hchange
      · simp at hrevoked
      · obtain ⟨change, user, heq, -⟩ := hended _ hchange
        cases heq

theorem unspent_step (htables : SessionTables db) (hplace : place.Stored db)
    (hallowed : rotatesUnrevoked settings db place input = true)
    (h : SessionStep settings db place input db' effects) {other : IdentityPlace}
    (hstored : other.Stored db) (hunspent : other.Unspent db log) :
    other.Unspent db' (log ++ effects) := by
  cases other with
  | finding row actorUserId =>
      exact fun hrevoked => isSessionRevoked_step htables hallowed h (hunspent hrevoked)
  | revoking session reason now =>
      intro hrevoked
      obtain ⟨hclosed, hnever⟩ := hunspent hrevoked
      refine ⟨isSessionRevoked_step htables hallowed h hclosed, ?_⟩
      intro token htoken hactive id hmem
      rcases List.mem_append.mp hmem with hold | hnew
      · exact hnever token htoken hactive id hold
      · obtain ⟨row, hrow, hhash, hopen⟩ :=
          open_of_rotated_effect htables hplace hallowed h hnew
        obtain ⟨mine, hmine, -, hmineHash, hsession⟩ :=
          CopyStored.tokens hstored token htoken
        obtain rfl : mine = row := htables.token_eq hmine hrow
          (htables.hashes mine hmine row hrow (hmineHash.trans hhash.symm))
        rw [hsession, hclosed] at hopen
        cases hopen
  | _ => trivial

theorem unspent_of_move (htables : SessionTables db) (hstored : place.Stored db)
    (hinv : TokensRotate db log) (hunspent : place.Unspent db log)
    (hallowed : rotatesUnrevoked settings db place input = true)
    (h : IdentityMove settings db place input db' next effects) :
    next.Unspent db' (log ++ effects) := by
  have hstep := sessionStep_of_move h
  cases h with
  | tick _ elapsed => exact unspent_step htables hstored hallowed hstep hstored hunspent
  | find _ row actorUserId hrow =>
      intro hrevoked
      simp [IdentityDb.isSessionRevoked, hrow, hrevoked]
  | loadTokens _ row actorUserId reason =>
      intro hrevoked
      refine ⟨hunspent hrevoked, fun token htoken _ id hmem => ?_⟩
      rw [List.append_nil] at hmem
      obtain ⟨stored, hstored, rfl⟩ := List.mem_map.mp htoken
      rw [List.mem_filter, Bool.and_eq_true] at hstored
      obtain ⟨spent, hspent, hhash, hstill⟩ := hinv.spent _ id hmem
      rw [htables.token_eq hspent hstored.1
        (htables.hashes spent hspent stored hstored.1 hhash), hstored.2.2] at hstill
      cases hstill
  | saveChange _ change user changed _ hchange hsave _ hnext =>
      rcases hnext with rfl | ⟨rfl, -⟩ <;> trivial
  | _ => trivial

theorem tokensRotate_of_reaches
    (h : ReachesBy (identityExec settings)
      (fun db place input => rotatesUnrevoked settings db place input = true)
      emptyIdentity config log) :
    TokensRotate config.store log ∧
      ∀ pid, (config.places pid).Unspent config.store log := by
  refine ReachesBy.invariant_of_places (G := TokensRotate)
    (L := IdentityPlace.Unspent) ?_ ?_ ?_ ?_ h
  · constructor
    all_goals simp [emptyIdentity]
  · exact fun _ => trivial
  · intro config log pid input out before hinv hplaces hallowed hexec
    obtain ⟨htables, hstored⟩ := sessionTables_of_reaches before
    have hmove := identityMove_of_exec hexec
    constructor
    · exact tokensRotate_step htables (hstored pid) (hplaces pid) hinv
        (sessionStep_of_move hmove)
    · exact unspent_of_move htables (hstored pid) hinv (hplaces pid) hallowed hmove
  · intro config log pid input out before hinv hplaces hallowed hexec other _
    obtain ⟨htables, hstored⟩ := sessionTables_of_reaches before
    exact unspent_step htables (hstored pid) hallowed
      (sessionStep_of_move (identityMove_of_exec hexec)) (hstored other) (hplaces other)

end Steps

/-- The token whose exchange a refresh has committed and not answered yet. -/
def IdentityPlace.pending : IdentityPlace → Option RefreshTokenHash
  | .renewing hash _ => some hash
  | .signing presented _ _ => presented
  | _ => none

/-- The answers so far, and the refreshes that have one to give: each has
rotated its token, and no two have rotated the same one. -/
structure Exchanges (config : Config IdentityDb IdentityPlace)
    (log : List IdentityEffect) : Prop where
  once : ExchangedOnce log
  answered : ∀ hash, IdentityEffect.exchanged hash ∈ log →
    ∃ id, IdentityEffect.rotated hash id ∈ log
  pending : ∀ pid hash, (config.places pid).pending = some hash →
    IdentityEffect.exchanged hash ∉ log ∧ ∃ id, IdentityEffect.rotated hash id ∈ log
  apart : ∀ pid other hash, other ≠ pid → (config.places pid).pending = some hash →
    (config.places other).pending ≠ some hash

section Exchanges

variable {settings : IdentitySettings} {db db' : IdentityDb}
variable {place next : IdentityPlace} {input : IdentityInput}
variable {effects log : List IdentityEffect} {out : IdentityOutcome}
variable {config : Config IdentityDb IdentityPlace} {pid : Nat}

/-- A statement starts an exchange, ends one with its answer, or does neither. -/
theorem pending_of_move (h : IdentityMove settings db place input db' next effects) :
    (∃ hash id, next.pending = some hash ∧ effects = [.rotated hash id]) ∨
      (next.pending = none ∧
        effects = (place.pending.map IdentityEffect.exchanged).toList) ∨
      ((next.pending = none ∨ next.pending = place.pending) ∧
        ∀ hash, IdentityEffect.exchanged hash ∉ effects) := by
  cases h with
  | rotate _ hash session rotated now _ hrotation hsave =>
      exact Or.inl ⟨hash, rotated.id, rfl, rfl⟩
  | sign _ presented session mustChangePassword => exact Or.inr (Or.inl ⟨rfl, rfl⟩)
  | tick => exact Or.inr (Or.inr ⟨Or.inr rfl, by simp⟩)
  | renew => exact Or.inr (Or.inr ⟨Or.inr rfl, by simp⟩)
  | add _ sessionIds reuse =>
      refine Or.inr (Or.inr ⟨Or.inl rfl, fun hash hmem => ?_⟩)
      split at hmem
      · cases hmem
      · simp at hmem
  | saveChange _ change user changed _ hchange hsave _ hnext =>
      rcases hnext with rfl | ⟨rfl, -⟩ <;> exact Or.inr (Or.inr ⟨Or.inl rfl, by simp⟩)
  | _ => exact Or.inr (Or.inr ⟨Or.inl rfl, by simp⟩)

theorem exchangedOnce_append (hlog : ExchangedOnce log)
    (hnone : ∀ hash, IdentityEffect.exchanged hash ∉ effects) :
    ExchangedOnce (log ++ effects) := by
  intro hash
  rw [List.count_append, List.count_eq_zero_of_not_mem (hnone hash)]
  exact hlog hash

/-- A statement that starts no exchange and answers none. -/
theorem exchanges_quiet (hinv : Exchanges config log)
    (hplace : out.place.pending = none ∨
      out.place.pending = (config.places pid).pending)
    (hnone : ∀ hash, IdentityEffect.exchanged hash ∉ out.effects) :
    Exchanges (config.after pid out) (log ++ out.effects) := by
  have hpending : ∀ other hash,
      ((config.after pid out).places other).pending = some hash →
        (config.places other).pending = some hash := by
    intro other hash hother
    by_cases heq : other = pid
    · subst heq
      rw [Config.after_places_self] at hother
      rcases hplace with hplace | hplace
      · rw [hplace] at hother
        cases hother
      · exact hplace.symm.trans hother
    · rwa [Config.after_places_of_ne config out heq] at hother
  constructor
  · exact exchangedOnce_append hinv.once hnone
  · intro hash hmem
    rcases List.mem_append.mp hmem with hold | hnew
    · exact (hinv.answered hash hold).imp fun _ hid => List.mem_append_left _ hid
    · exact absurd hnew (hnone hash)
  · intro other hash hother
    obtain ⟨hunanswered, hrotated⟩ := hinv.pending other hash (hpending other hash hother)
    refine ⟨fun hmem => ?_, hrotated.imp fun _ hid => List.mem_append_left _ hid⟩
    exact (List.mem_append.mp hmem).elim hunanswered (hnone hash)
  · intro left right hash hne hleft hright
    exact hinv.apart left right hash hne (hpending left hash hleft)
      (hpending right hash hright)

/-- A rotation starts an exchange of a token that was not rotated before. -/
theorem exchanges_start (hinv : Exchanges config log) {hash : RefreshTokenHash}
    {id : SessionId} (hplace : out.place.pending = some hash)
    (heffects : out.effects = [.rotated hash id])
    (hfresh : ∀ id, IdentityEffect.rotated hash id ∉ log) :
    Exchanges (config.after pid out) (log ++ out.effects) := by
  have hnone : ∀ hash, IdentityEffect.exchanged hash ∉ out.effects := by
    intro hash
    simp [heffects]
  have hnobody : ∀ other, (config.places other).pending ≠ some hash := by
    intro other hother
    obtain ⟨-, id, hid⟩ := hinv.pending other hash hother
    exact hfresh id hid
  constructor
  · exact exchangedOnce_append hinv.once hnone
  · intro hash' hmem
    rcases List.mem_append.mp hmem with hold | hnew
    · exact (hinv.answered hash' hold).imp fun _ hid => List.mem_append_left _ hid
    · exact absurd hnew (hnone hash')
  · intro other hash' hother
    by_cases heq : other = pid
    · subst heq
      rw [Config.after_places_self, hplace] at hother
      obtain rfl := Option.some.inj hother
      refine ⟨fun hmem => ?_, id, ?_⟩
      · rcases List.mem_append.mp hmem with hold | hnew
        · obtain ⟨id', hid'⟩ := hinv.answered hash hold
          exact hfresh id' hid'
        · exact hnone hash hnew
      · rw [heffects]
        exact List.mem_append_right _ (List.mem_singleton_self _)
    · rw [Config.after_places_of_ne config out heq] at hother
      obtain ⟨hunanswered, hrotated⟩ := hinv.pending other hash' hother
      refine ⟨fun hmem => ?_, hrotated.imp fun _ hid => List.mem_append_left _ hid⟩
      exact (List.mem_append.mp hmem).elim hunanswered (hnone hash')
  · intro left right hash' hne hleft hright
    by_cases hleftPid : left = pid
    · subst hleftPid
      rw [Config.after_places_self, hplace] at hleft
      obtain rfl := Option.some.inj hleft
      rw [Config.after_places_of_ne config out hne] at hright
      exact hnobody right hright
    · rw [Config.after_places_of_ne config out hleftPid] at hleft
      by_cases hrightPid : right = pid
      · subst hrightPid
        rw [Config.after_places_self, hplace] at hright
        obtain rfl := Option.some.inj hright
        exact hnobody left hleft
      · rw [Config.after_places_of_ne config out hrightPid] at hright
        exact hinv.apart left right hash' hne hleft hright

/-- The answer ends the exchange of the request. -/
theorem exchanges_end (hinv : Exchanges config log) {hash : RefreshTokenHash}
    (hplace : out.place.pending = none)
    (hpending : (config.places pid).pending = some hash)
    (heffects : out.effects = [.exchanged hash]) :
    Exchanges (config.after pid out) (log ++ out.effects) := by
  obtain ⟨hunanswered, hrotated⟩ := hinv.pending pid hash hpending
  have hother : ∀ other hash',
      ((config.after pid out).places other).pending = some hash' →
        other ≠ pid ∧ (config.places other).pending = some hash' := by
    intro other hash' hother
    by_cases heq : other = pid
    · rw [heq, Config.after_places_self, hplace] at hother
      cases hother
    · exact ⟨heq, by rwa [Config.after_places_of_ne config out heq] at hother⟩
  rw [heffects]
  constructor
  · intro hash'
    rw [List.count_append, List.count_singleton]
    by_cases heq : hash = hash'
    · subst heq
      rw [List.count_eq_zero_of_not_mem hunanswered]
      exact Nat.le_of_eq (by simp)
    · simpa [heq] using hinv.once hash'
  · intro hash' hmem
    rcases List.mem_append.mp hmem with hold | hnew
    · exact (hinv.answered hash' hold).imp fun _ hid => List.mem_append_left _ hid
    · cases List.mem_singleton.mp hnew
      exact hrotated.imp fun _ hid => List.mem_append_left _ hid
  · intro other hash' hpend
    obtain ⟨hne, hpend⟩ := hother other hash' hpend
    obtain ⟨hopen, hrotated'⟩ := hinv.pending other hash' hpend
    refine ⟨fun hmem => ?_, hrotated'.imp fun _ hid => List.mem_append_left _ hid⟩
    rcases List.mem_append.mp hmem with hold | hnew
    · exact hopen hold
    · cases List.mem_singleton.mp hnew
      exact hinv.apart pid other hash hne hpending hpend
  · intro left right hash' hne hleft hright
    exact hinv.apart left right hash' hne (hother left hash' hleft).2
      (hother right hash' hright).2

theorem exchanges_of_reaches
    (h : ReachesBy (identityExec settings)
      (fun db place input => rotatesUnrevoked settings db place input = true)
      emptyIdentity config log) :
    Exchanges config log := by
  refine ReachesBy.invariant (P := Exchanges) ?_ ?_ h
  · constructor
    all_goals simp [ExchangedOnce, emptyIdentity, IdentityPlace.pending]
  · intro config log pid input out before hinv hallowed hexec
    have hmove := identityMove_of_exec hexec
    rcases pending_of_move hmove with ⟨hash, id, hplace, heffects⟩ | hrest
    · obtain ⟨htables, hstored⟩ := sessionTables_of_reaches before
      refine exchanges_start hinv hplace heffects fun id' => ?_
      have hrotated : IdentityEffect.rotated hash id ∈ out.effects := by
        rw [heffects]
        exact List.mem_singleton_self _
      exact not_rotated_of_effect htables (hstored pid)
        (tokensRotate_of_reaches before).1 hallowed (sessionStep_of_move hmove)
        hrotated id'
    · rcases hrest with ⟨hplace, heffects⟩ | ⟨hplace, hnone⟩
      · cases hpending : (config.places pid).pending with
        | none =>
            rw [hpending] at heffects
            exact exchanges_quiet hinv (Or.inl hplace) (by simp [heffects])
        | some hash =>
            rw [hpending] at heffects
            exact exchanges_end hinv hplace hpending heffects
      · exact exchanges_quiet hinv hplace hnone

/-- A refresh token is exchanged at most once in every run whose refreshes
rotate no token of a revoked session. -/
theorem exchanged_once
    (h : ReachesBy (identityExec settings)
      (fun db place input => rotatesUnrevoked settings db place input = true)
      emptyIdentity config log) :
    ExchangedOnce log :=
  (exchanges_of_reaches h).once

end Exchanges

namespace ExchangeWitness

open IdentityWitness (settings loggedIn)

/-- Two requests present refresh token 4 at once; the index refuses the second
one. -/
def presentedTwice : Config IdentityDb IdentityPlace × List IdentityEffect :=
  endOfRun (identityExec settings) emptyIdentity
    (loggedIn ++ [(1, .refresh 4), (1, .proceed false), (2, .refresh 4),
      (2, .proceed false), (1, .proceed false), (2, .proceed false),
      (1, .proceed false), (1, .proceed false)])
    (by decide +kernel)

theorem exchanged_once_presentedTwice : ExchangedOnce presentedTwice.2 :=
  exchanged_once
    (reachesBy_endOfRun (rotatesUnrevoked settings) id (by decide +kernel) _)

/-- A logout between the two saves frees the index, and both requests answer a
new pair. -/
def freedBetween : Config IdentityDb IdentityPlace × List IdentityEffect :=
  endOfRun (identityExec settings) emptyIdentity
    (loggedIn ++ [(1, .refresh 4), (1, .proceed false), (2, .refresh 4),
      (2, .proceed false), (1, .proceed false), (1, .proceed false),
      (1, .proceed false), (3, .logoutAll 0), (3, .proceed false),
      (2, .proceed false), (2, .proceed false), (2, .proceed false)])
    (by decide +kernel)

theorem reaches_freedBetween : IdentityReaches settings freedBetween.1 freedBetween.2 :=
  reaches_endOfRun _

theorem not_always_exchanged_once :
    ¬ ∀ settings config log, IdentityReaches settings config log →
      ExchangedOnce log := by
  intro hall
  have honce := hall settings freedBetween.1 freedBetween.2 reaches_freedBetween 4
  have htwice : freedBetween.2.count (.exchanged 4) = 2 := by decide +kernel
  rw [htwice] at honce
  exact absurd honce (by decide)

end ExchangeWitness

end Identity

end Workshop
