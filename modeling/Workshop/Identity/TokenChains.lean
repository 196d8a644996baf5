/-
The rotation chain of the refresh tokens of a session, while requests are
served one after the other.  A save writes the tokens that were loaded with
the session and no other; what it makes of the chain is said once, for the
rows of one session, and the moves only differ in what they write there.
-/
import Workshop.Identity.SessionTables
import Workshop.Library.Walks

namespace Workshop

namespace Identity

open IdentityDb (saveTokens)

/-- The tokens of a session, in the order of their internal key. -/
def tokensOf (tokens : List TokenRow) (id : SessionId) : List TokenRow :=
  tokens.filter fun row => row.sessionId = id

/-- A rotation replaced the token by the next one. -/
structure IssuedInPlaceOf (row next : TokenRow) : Prop where
  status : row.status = .rotated
  replacedById : row.replacedById = some next.id
  rotatedAt : row.rotatedAt = some next.createdAt

/-- The tokens that following `replaced_by` visits. -/
def follow (tokens : List TokenRow) : Nat → Option RefreshTokenId → List TokenRow
  | 0, _ => []
  | _ + 1, none => []
  | fuel + 1, some id =>
      match tokens.find? fun row => row.id = id with
      | none => []
      | some row => row :: follow tokens fuel row.replacedById

/-- The tokens of a session, each replaced by the next but for the latest. -/
structure TokenChain (earlier : List TokenRow) (latest : TokenRow) : Prop where
  links : (earlier ++ [latest]).IsChain IssuedInPlaceOf
  unreplaced : latest.replacedById = none
  unrotated : latest.status ≠ .rotated

/-- The rows of a session of this status form a chain, which a revocation
ended. -/
def Chained (rows : List TokenRow) (status : SessionStatus) : Prop :=
  ∃ earlier latest, rows = earlier ++ [latest] ∧ TokenChain earlier latest ∧
    (status = .revoked → latest.isActive = false)

section Chains

variable {earlier rows : List TokenRow} {latest latest' row next : TokenRow}

/-- Every token but the latest is rotated. -/
theorem TokenChain.rotated (h : TokenChain earlier latest) (hrow : row ∈ earlier) :
    row.status = .rotated := by
  obtain ⟨next, -, hissued⟩ := exists_next_of_isChain h.links row hrow
  exact hissued.status

theorem TokenChain.isActive_of_earlier (h : TokenChain earlier latest)
    (hrow : row ∈ earlier) : row.isActive = false := by
  simp [RefreshToken.isActive, h.rotated hrow]

/-- What a rotated token was replaced by is a token of the session. -/
theorem TokenChain.exists_next (h : TokenChain earlier latest)
    (hrow : row ∈ earlier ++ [latest]) (hrotated : row.status = .rotated) :
    ∃ next ∈ earlier ++ [latest], IssuedInPlaceOf row next := by
  rcases List.mem_append.mp hrow with hearlier | hlatest
  · exact exists_next_of_isChain h.links row hearlier
  · rw [List.mem_singleton.mp hlatest] at hrotated
    exact absurd hrotated h.unrotated

theorem TokenChain.single (hunreplaced : latest.replacedById = none)
    (hunrotated : latest.status ≠ .rotated) : TokenChain [] latest :=
  ⟨List.isChain_singleton _, hunreplaced, hunrotated⟩

/-- A write of the latest row that keeps its id and its moment keeps the
links to it. -/
theorem IssuedInPlaceOf.congr (hid : latest'.id = latest.id)
    (hcreated : latest'.createdAt = latest.createdAt)
    (h : IssuedInPlaceOf row latest) : IssuedInPlaceOf row latest' :=
  ⟨h.status, hid ▸ h.replacedById, hcreated ▸ h.rotatedAt⟩

/-- A rotation of the latest token lengthens the chain. -/
theorem TokenChain.rotate (h : TokenChain earlier latest)
    (hid : latest'.id = latest.id) (hcreated : latest'.createdAt = latest.createdAt)
    (hissued : IssuedInPlaceOf latest' next) (hunreplaced : next.replacedById = none)
    (hunrotated : next.status ≠ .rotated) :
    TokenChain (earlier ++ [latest']) next := by
  have hlinks := isChain_concat_congr h.links fun row => .congr hid hcreated
  exact ⟨isChain_concat_concat hlinks hissued, hunreplaced, hunrotated⟩

/-- A revocation of the latest token keeps the chain. -/
theorem TokenChain.close (h : TokenChain earlier latest)
    (hid : latest'.id = latest.id) (hcreated : latest'.createdAt = latest.createdAt)
    (hunreplaced : latest'.replacedById = none)
    (hunrotated : latest'.status ≠ .rotated) : TokenChain earlier latest' :=
  ⟨isChain_concat_congr h.links fun _ => .congr hid hcreated, hunreplaced, hunrotated⟩

/-- Following `replaced_by` from the first token of a chain visits the chain. -/
theorem follow_eq {tokens : List TokenRow}
    (hids : (tokens.map fun row : TokenRow => row.id).Nodup) {fuel : Nat}
    (hlinks : rows.IsChain IssuedInPlaceOf) (hrows : ∀ row ∈ rows, row ∈ tokens)
    (hlast : ∀ last ∈ rows.getLast?, last.replacedById = none)
    (hfuel : rows.length ≤ fuel) :
    follow tokens fuel (rows.head?.map fun row => row.id) = rows := by
  induction rows generalizing fuel with
  | nil => cases fuel <;> rfl
  | cons row rest ih =>
      obtain ⟨fuel, rfl⟩ : ∃ less, fuel = less + 1 :=
        ⟨fuel - 1, by rw [List.length_cons] at hfuel; omega⟩
      rw [List.isChain_cons] at hlinks
      have hfind : (tokens.find? fun other => other.id = row.id) = some row :=
        find?_key_of_mem hids (hrows row List.mem_cons_self)
      have hnext : row.replacedById = rest.head?.map fun row => row.id := by
        cases rest with
        | nil => exact hlast row rfl
        | cons next rest => exact (hlinks.1 next rfl).replacedById
      simp only [List.head?_cons, Option.map_some, follow, hfind, hnext]
      congr 1
      refine ih hlinks.2 (fun other hother => hrows other
        (List.mem_cons_of_mem _ hother)) (fun last hmem => hlast last ?_) ?_
      · cases rest with
        | nil => cases hmem
        | cons next rest => rwa [List.getLast?_cons_cons]
      · simpa using hfuel

end Chains

section Saves

variable {db db' : IdentityDb} {session : Session} {id : SessionId}
variable {tokens rows saved : List TokenRow}

/-- The rows of a save, written one after another. -/
def writeTokens (tokens rows : List TokenRow) : List TokenRow :=
  rows.foldl (fun tokens row => upsert (fun row => row.id) row tokens) tokens

theorem saveTokens_eq (hsave : saveTokens tokens rows = .ok saved) :
    saved = writeTokens tokens rows := by
  induction rows generalizing tokens with
  | nil => exact (Except.ok.inj hsave).symm
  | cons row rows ih =>
      simp only [saveTokens] at hsave
      split at hsave
      · cases hsave
      · exact ih hsave

/-- A write of rows of one session is a write to the tokens of that session,
and leaves those of every other. -/
theorem tokensOf_writeTokens {owner : SessionId}
    (hrows : ∀ row ∈ rows, row.sessionId = owner)
    (hids : ∀ row ∈ tokens, ∀ written ∈ rows, row.id = written.id →
      row.sessionId = owner) :
    tokensOf (writeTokens tokens rows) id =
      if id = owner then writeTokens (tokensOf tokens id) rows
      else tokensOf tokens id := by
  induction rows generalizing tokens with
  | nil => simp [writeTokens]
  | cons written rows ih =>
      have hwritten : written.sessionId = owner := hrows written List.mem_cons_self
      have hrest : tokensOf (writeTokens
          (upsert (fun row => row.id) written tokens) rows) id =
            if id = owner then writeTokens (tokensOf
              (upsert (fun row => row.id) written tokens) id) rows
            else tokensOf (upsert (fun row => row.id) written tokens) id := by
        refine ih (fun row hrow => hrows row (List.mem_cons_of_mem _ hrow)) ?_
        intro row hrow other hother hid
        rcases mem_upsert.mp hrow with rfl | ⟨hrow, -⟩
        · exact hwritten
        · exact hids row hrow other (List.mem_cons_of_mem _ hother) hid
      have hfirst : tokensOf (upsert (fun row => row.id) written tokens) id =
          if id = owner then upsert (fun row => row.id) written (tokensOf tokens id)
          else tokensOf tokens id := by
        rw [tokensOf, filter_upsert]
        · simp [tokensOf, hwritten, eq_comm]
        · intro other hother hid
          rw [hids other hother written List.mem_cons_self hid, hwritten]
      change tokensOf (writeTokens (upsert (fun row => row.id) written tokens) rows) id
        = _
      rw [hrest, hfirst]
      split <;> rfl

/-- What the tables keep of every session: its tokens form a chain. -/
structure ChainsKept (db : IdentityDb) : Prop where
  owned : ∀ row ∈ db.tokens, ∃ session ∈ db.sessions, session.id = row.sessionId
  chains : ∀ session ∈ db.sessions,
    Chained (tokensOf db.tokens session.id) session.status

/-- A save keeps the chains when it keeps the chain of its own session. -/
theorem ChainsKept.of_save (hkept : ChainsKept db) (hown : SavesOwn db session)
    (hsave : db.saveSession session = .ok db')
    (hchained : Chained
      (writeTokens (tokensOf db.tokens session.id) (savedTokens session))
      session.status) : ChainsKept db' := by
  obtain ⟨saved, htokens, rfl⟩ := saveSession_eq_ok hsave
  constructor
  · intro row hrow
    rcases mem_of_saveTokens htokens hrow with hwritten | hold
    · obtain ⟨token, -, rfl⟩ := mem_savedTokens.mp hwritten
      exact ⟨session.toSessionRow, mem_upsert.mpr (Or.inl rfl), rfl⟩
    · obtain ⟨owner, howner, hid⟩ := hkept.owned row hold
      by_cases hsame : owner.id = session.id
      · exact ⟨session.toSessionRow, mem_upsert.mpr (Or.inl rfl),
          hsame.symm.trans hid⟩
      · exact ⟨owner, mem_upsert.mpr (Or.inr ⟨howner, hsame⟩), hid⟩
  · obtain rfl := saveTokens_eq htokens
    have hwrite : ∀ id, tokensOf (writeTokens db.tokens (savedTokens session)) id =
        if id = session.id
        then writeTokens (tokensOf db.tokens id) (savedTokens session)
        else tokensOf db.tokens id := by
      intro id
      refine tokensOf_writeTokens ?_ ?_
      · intro row hrow
        obtain ⟨token, -, rfl⟩ := mem_savedTokens.mp hrow
        rfl
      · intro row hrow written hwritten hid
        obtain ⟨token, htoken, rfl⟩ := mem_savedTokens.mp hwritten
        exact (hown.tokens token htoken row hrow hid).2
    intro row hrow
    rw [hwrite]
    rcases mem_upsert.mp hrow with rfl | ⟨hold, hne⟩
    · rw [if_pos rfl]
      exact hchained
    · rw [if_neg hne]
      exact hkept.chains row hold

/-- A logout of a user keeps the chains. -/
theorem ChainsKept.of_logoutAll (hkept : ChainsKept db) {userId : UserId}
    {reason : SessionRevocationReason} {now : Timestamp} :
    ChainsKept (db.revokeAllActiveByUserId userId reason now) := by
  constructor
  · intro row hrow
    rw [revokeAll_tokens] at hrow
    obtain ⟨old, hold, rfl⟩ := List.mem_map.mp hrow
    obtain ⟨session, hsession, hid⟩ := hkept.owned old hold
    refine ⟨loggedOut userId reason now session, List.mem_map_of_mem hsession, ?_⟩
    rw [loggedOut_id, hid, tokenLoggedOut_sessionId]
  · intro row hrow
    rw [revokeAll_sessions] at hrow
    obtain ⟨session, hsession, rfl⟩ := List.mem_map.mp hrow
    obtain ⟨earlier, latest, hrows, hchain, hended⟩ := hkept.chains session hsession
    have hmap : tokensOf (db.revokeAllActiveByUserId userId reason now).tokens
        session.id = (tokensOf db.tokens session.id).map
          (tokenLoggedOut (db.activeSessionsOf userId)) := by
      rw [revokeAll_tokens, tokensOf, tokensOf, List.filter_map]
      congr 1
      refine List.filter_congr fun row _ => ?_
      rw [Function.comp_apply, tokenLoggedOut_sessionId]
    have hfixed : ∀ row ∈ earlier,
        tokenLoggedOut (db.activeSessionsOf userId) row = row := by
      intro row hrow
      unfold tokenLoggedOut
      rw [hchain.isActive_of_earlier hrow, Bool.and_false, if_neg Bool.false_ne_true]
    rw [loggedOut_id, hmap, hrows, List.map_append, List.map_singleton,
      (List.map_congr_left hfixed).trans (List.map_id' earlier)]
    refine ⟨earlier, _, rfl, hchain.close (tokenLoggedOut_id _ _) ?_ ?_ ?_, ?_⟩
    · unfold tokenLoggedOut
      split <;> rfl
    · unfold tokenLoggedOut
      split
      · exact hchain.unreplaced
      · exact hchain.unreplaced
    · unfold tokenLoggedOut
      split
      · exact nofun
      · exact hchain.unrotated
    · intro hrevoked
      rw [tokenLoggedOut_isActive]
      rw [loggedOut_status] at hrevoked
      cases hstatus : session.status with
      | revoked => rw [hended hstatus, Bool.false_and]
      | active =>
          have huser : session.userId = userId := by
            by_contra hne
            rw [if_neg hne, hstatus] at hrevoked
            cases hrevoked
          have hmem : latest.sessionId ∈ db.activeSessionsOf userId := by
            have hlatest : latest ∈ tokensOf db.tokens session.id := by
              simp [hrows]
            have hid : latest.sessionId = session.id :=
              of_decide_eq_true (List.mem_filter.mp hlatest).2
            rw [hid]
            refine List.mem_map_of_mem (List.mem_filter.mpr ⟨hsession, ?_⟩)
            simp [huser, hstatus]
          simp [hmem]

end Saves

/-- What a request knows while it is served alone: its copies are what the
tables hold. -/
def IdentityPlace.Current (db : IdentityDb) : IdentityPlace → Prop
  | .presenting hash token => token ∈ db.tokens ∧ token.tokenHash = hash
  | .refreshing hash session _ =>
      session.toSessionRow ∈ db.sessions ∧ ∃ token ∈ db.tokens,
        session.tokens = [token.toRefreshToken] ∧ token.tokenHash = hash ∧
          token.sessionId = session.id
  | .finding row _ => row ∈ db.sessions
  | .revoking session _ _ =>
      session.toSessionRow ∈ db.sessions ∧
        session.tokens = db.activeTokens session.id
  | _ => True

/-- A refresh is not presented with a token that is no longer active while its
session is. -/
def RefreshesActive (_ : IdentityDb) : IdentityPlace → IdentityInput → Prop
  | .refreshing hash session now, .proceed _ =>
      session.isActiveAt now = true → ∀ token ∈ session.tokens,
        token.tokenHash = hash → token.isActive = true
  | _, _ => True

section Steps

variable {settings : IdentitySettings} {db db' : IdentityDb} {session : Session}
variable {hash : RefreshTokenHash} {now : Timestamp}

/-- The chain of a session with one of its tokens: the token is the latest one
or it is not active. -/
theorem eq_latest_of_active {earlier : List TokenRow} {latest token : TokenRow}
    (hchain : TokenChain earlier latest) (htoken : token ∈ earlier ++ [latest])
    (hactive : token.isActive = true) : token = latest := by
  rcases List.mem_append.mp htoken with hearlier | hlatest
  · rw [hchain.isActive_of_earlier hearlier] at hactive
    cases hactive
  · exact List.mem_singleton.mp hlatest

/-- A write of the latest token takes its place. -/
theorem SessionTables.upsert_latest (htables : SessionTables db) {id : SessionId}
    {earlier : List TokenRow} {latest : TokenRow} (written : TokenRow)
    (hrows : tokensOf db.tokens id = earlier ++ [latest])
    (hid : latest.id = written.id) :
    upsert (fun row => row.id) written (earlier ++ [latest]) =
      earlier ++ [written] := by
  have hnodup : ((tokensOf db.tokens id).map fun row => row.id).Nodup :=
    htables.tokenIds.sublist (List.filter_sublist.map _)
  rw [hrows, List.map_append, List.map_singleton, List.nodup_append] at hnodup
  refine upsert_concat hid fun hmem => ?_
  exact hnodup.2.2 _ (hid ▸ hmem) _ (List.mem_singleton_self _) rfl

/-- A login starts a chain. -/
theorem ChainsKept.of_open (htables : SessionTables db) (hkept : ChainsKept db)
    {user : User} {ip userAgent : Option String}
    (hsession : session = Session.start {
      id := db.nextId, userId := user.id, ip, userAgent
      initialTokenId := db.nextId + 1
      initialTokenHash := settings.hash (db.nextId + 2)
      refreshTokenTtlSeconds := settings.refreshTokenTtlSeconds
      absoluteTtlSeconds := settings.sessionAbsoluteTtlSeconds, now })
    (hsave : { db with nextId := db.nextId + 3 }.saveSession session = .ok db') :
    ChainsKept db' := by
  subst hsession
  have hown := SavesOwn.of_start settings htables user ip userAgent now
  have hstart : ChainsKept { db with nextId := db.nextId + 3 } :=
    ⟨hkept.owned, hkept.chains⟩
  refine hstart.of_save hown hsave ?_
  have hempty : tokensOf db.tokens db.nextId = [] := by
    refine List.filter_eq_nil_iff.mpr fun row hrow hid => ?_
    obtain ⟨owner, howner, hsame⟩ := hkept.owned row hrow
    rw [of_decide_eq_true hid] at hsame
    exact absurd (hsame ▸ htables.sessionsBelow owner howner) (Nat.lt_irrefl _)
  change Chained (writeTokens (tokensOf db.tokens db.nextId) _) .active
  rw [hempty]
  exact ⟨[], _, rfl, TokenChain.single rfl nofun, nofun⟩

/-- A rotation replaces the latest token. -/
theorem ChainsKept.of_rotate (htables : SessionTables db) (hkept : ChainsKept db)
    {rotated : Session} (hcopy : CopyStored db session)
    (hcurrent : IdentityPlace.Current db (.refreshing hash session now))
    (hrotation : rotation settings db hash session now = .rotated rotated)
    (hsave : { db with nextId := db.nextId + 2 }.saveSession rotated = .ok db') :
    ChainsKept db' := by
  have hown := SavesOwn.of_rotation htables hcopy hrotation
  obtain ⟨hrow, token, htoken, hone, -, hsession⟩ := hcurrent
  obtain ⟨hactive, hrotatedRow, presented, hpresented, -, hpresentedActive,
    expiresAt, htokens⟩ := rotated_of_rotation hrotation
  have hid : rotated.id = session.id := by rw [hrotatedRow]
  have hstatus : rotated.status = .active := by rw [hrotatedRow]; exact hactive
  rw [hone] at hpresented htokens
  obtain rfl := List.mem_singleton.mp hpresented
  rw [List.map_singleton, if_pos rfl, List.singleton_append] at htokens
  obtain ⟨earlier, latest, hrows, hchain, -⟩ := hkept.chains _ hrow
  have hmem : token ∈ tokensOf db.tokens session.id :=
    List.mem_filter.mpr ⟨htoken, decide_eq_true hsession⟩
  change tokensOf db.tokens session.id = _ at hrows
  rw [hrows] at hmem
  obtain rfl := eq_latest_of_active hchain hmem hpresentedActive
  have hbelow : token.id < db.nextId := htables.tokensBelow token htoken
  have hstart : ChainsKept { db with nextId := db.nextId + 2 } :=
    ⟨hkept.owned, hkept.chains⟩
  refine hstart.of_save hown hsave ?_
  -- The retired token is written in its place, then the new one at the end.
  have hwritten : savedTokens rotated =
      [toTokenRow rotated (token.toRefreshToken.markRotated db.nextId now),
        toTokenRow rotated (RefreshToken.issue db.nextId
          (settings.hash (db.nextId + 1)) now expiresAt)] := by
    simp [savedTokens, htokens]
  have hnew : db.nextId ∉ (earlier ++ [toTokenRow rotated
      (token.toRefreshToken.markRotated db.nextId now)]).map fun row => row.id := by
    intro hnew
    rw [List.map_append, List.mem_append] at hnew
    rcases hnew with hold | hold
    · obtain ⟨row, hrow, heq⟩ := List.mem_map.mp hold
      have hrow : row ∈ tokensOf db.tokens session.id := by
        rw [hrows]
        exact List.mem_append_left _ hrow
      have hless := htables.tokensBelow row (List.mem_of_mem_filter hrow)
      rw [heq] at hless
      exact Nat.lt_irrefl _ hless
    · rw [List.map_singleton, List.mem_singleton] at hold
      exact Nat.ne_of_gt hbelow hold
  have hchained : writeTokens (tokensOf db.tokens session.id) (savedTokens rotated) =
      earlier ++ [toTokenRow rotated
        (token.toRefreshToken.markRotated db.nextId now)] ++
        [toTokenRow rotated (RefreshToken.issue db.nextId
          (settings.hash (db.nextId + 1)) now expiresAt)] := by
    rw [hwritten, hrows]
    simp only [writeTokens, List.foldl_cons, List.foldl_nil]
    have hretired := htables.upsert_latest (toTokenRow rotated
      (token.toRefreshToken.markRotated db.nextId now)) hrows rfl
    rw [hretired, upsert_of_not_mem hnew]
  change Chained (writeTokens (tokensOf db.tokens rotated.id) _) rotated.status
  rw [hid, hchained, hstatus]
  refine ⟨_, _, rfl, hchain.rotate rfl rfl ⟨rfl, ?_, rfl⟩ rfl
    (fun hrevoked => by cases hrevoked), fun hrevoked => by cases hrevoked⟩
  simp [toTokenRow, htokens, RefreshToken.markRotated, RefreshToken.issue]

/-- A revocation that loaded the active tokens ends the chain. -/
theorem ChainsKept.of_revoke (htables : SessionTables db) (hkept : ChainsKept db)
    {reason : SessionRevocationReason} (hcopy : CopyStored db session)
    (hcurrent : IdentityPlace.Current db (.revoking session reason now))
    (hsave : db.saveSession (session.revoke reason now) = .ok db') :
    ChainsKept db' := by
  have hown := (hcopy.revoke reason now).savesOwn htables
  refine hkept.of_save hown hsave ?_
  obtain ⟨hrow, htokens⟩ := hcurrent
  obtain ⟨earlier, latest, hrows, hchain, hended⟩ := hkept.chains _ hrow
  change tokensOf db.tokens session.id = _ at hrows
  have hearlier : earlier.filter (fun row => row.isActive) = [] :=
    List.filter_eq_nil_iff.mpr fun row hrow hactive => by
      rw [hchain.isActive_of_earlier hrow] at hactive
      cases hactive
  have hloaded : session.tokens =
      if latest.isActive then [latest.toRefreshToken] else [] := by
    have hfilter : db.tokens.filter (fun row =>
        decide (row.sessionId = session.id) && row.isActive) =
          (tokensOf db.tokens session.id).filter fun row => row.isActive := by
      rw [tokensOf, List.filter_filter]
      exact List.filter_congr fun row _ => Bool.and_comm _ _
    rw [htokens, IdentityDb.activeTokens, hfilter, hrows, List.filter_append, hearlier,
      List.filter_singleton]
    cases latest.isActive <;> rfl
  rw [Session.revoke_id, Session.revoke_status, hrows]
  by_cases hactive : latest.isActive = true
  · have hstatus : session.status = .active := by
      cases hstatus : session.status with
      | active => rfl
      | revoked =>
          rw [hended hstatus] at hactive
          cases hactive
    have hwritten : savedTokens (session.revoke reason now) =
        [toTokenRow (session.revoke reason now) latest.toRefreshToken.revoke] := by
      simp [savedTokens, Session.revoke_tokens hstatus, hloaded, hactive]
    rw [hwritten]
    change Chained (upsert _ _ _) _
    have hrevoked := htables.upsert_latest (toTokenRow
      (session.revoke reason now) latest.toRefreshToken.revoke) hrows
      (RefreshToken.revoke_id _).symm
    rw [hrevoked]
    refine ⟨earlier, _, rfl, hchain.close (RefreshToken.revoke_id _) ?_ ?_ ?_, ?_⟩
    · unfold RefreshToken.revoke
      split <;> rfl
    · unfold RefreshToken.revoke
      split <;> simp [toTokenRow, hchain.unreplaced]
    · unfold RefreshToken.revoke
      split
      · exact hchain.unrotated
      · exact nofun
    · exact fun _ => RefreshToken.revoke_isActive _
  · have hwritten : savedTokens (session.revoke reason now) = [] := by
      cases hstatus : session.status with
      | active =>
          simp [savedTokens, Session.revoke_tokens hstatus, hloaded, hactive]
      | revoked =>
          simp [savedTokens, Session.revoke_of_revoked hstatus, hloaded, hactive]
    rw [hwritten]
    exact ⟨earlier, latest, rfl, hchain, fun _ => Bool.eq_false_iff.mpr hactive⟩

/-- A detected reuse was presented with a token that is not active, on a session
that is. -/
theorem inactive_of_reused {revoked : Session}
    (h : rotation settings db hash session now = .reused revoked) :
    session.isActiveAt now = true ∧ ∃ token ∈ session.tokens,
      token.tokenHash = hash ∧ token.isActive = false := by
  unfold rotation Session.rotateRefreshToken at h
  split at h
  · cases h
  · rename_i presented hfind
    split at h
    · cases h
    · rename_i hopen
      split at h
      · rename_i hinactive
        refine ⟨by simpa using hopen, presented, List.mem_of_find?_eq_some hfind, ?_, ?_⟩
        · simpa using List.find?_some hfind
        · simpa using hinactive
      · split at h
        · cases h
        · cases h

variable {place next : IdentityPlace} {input : IdentityInput}
variable {effects : List IdentityEffect}

/-- One statement of a request that is served alone keeps the chains, unless it
saves a detected reuse. -/
theorem chainsKept_of_step (htables : SessionTables db) (hstored : place.Stored db)
    (hcurrent : place.Current db) (hkept : ChainsKept db)
    (hallowed : RefreshesActive db place input)
    (h : SessionStep settings db place input db' effects) : ChainsKept db' := by
  cases h with
  | frame _ _ _ _ hsessions htokens _ _ =>
      obtain ⟨users, sessions, tokens, revokedSessions, signed, now, nextId⟩ := db'
      obtain rfl : sessions = db.sessions := hsessions
      obtain rfl : tokens = db.tokens := htokens
      exact ⟨hkept.owned, hkept.chains⟩
  | opened _ user _ ip userAgent now session _ hsession hsave =>
      exact hkept.of_open htables hsession hsave
  | rotated _ hash session rotated now _ hrotation hsave =>
      exact hkept.of_rotate htables hstored.1 hcurrent hrotation hsave
  | reused _ hash session revoked now _ hrotation hsave =>
      obtain ⟨hopen, token, htoken, hhash, hinactive⟩ := inactive_of_reused hrotation
      have hactive : token.isActive = true := hallowed hopen token htoken hhash
      rw [hinactive] at hactive
      cases hactive
  | revoked _ session reason now _ hsave =>
      exact ChainsKept.of_revoke htables hkept hstored hcurrent hsave
  | ended _ _ userId _ _ => exact hkept.of_logoutAll

/-- The copies of a request that is served alone stay what the tables hold. -/
theorem current_of_move (hcurrent : place.Current db)
    (h : IdentityMove settings db place input db' next effects) :
    next.Current db' := by
  cases h with
  | tick _ elapsed => cases place <;> exact hcurrent
  | present _ token htoken => exact ⟨htoken, rfl⟩
  | loadSession _ hash token row hrow =>
      have hid : row.id = token.sessionId := by simpa using List.find?_some hrow
      exact ⟨List.mem_of_find?_eq_some hrow, token, hcurrent.1, rfl, hcurrent.2,
        hid.symm⟩
  | find _ row actorUserId hrow => exact List.mem_of_find?_eq_some hrow
  | loadTokens _ row actorUserId reason => exact ⟨hcurrent, rfl⟩
  | saveChange _ change user changed _ hchange hsave _ hnext =>
      rcases hnext with rfl | ⟨rfl, -⟩ <;> trivial
  | _ => trivial

end Steps

/-- What the tables hold of a session whose rotations can be followed. -/
structure RotationsFollowed (db : IdentityDb) (session : SessionRow) : Prop where
  rotated : ∀ row ∈ tokensOf db.tokens session.id, row.status = .rotated →
    ∃ next ∈ tokensOf db.tokens session.id, IssuedInPlaceOf row next
  followed : ∃ first rest latest,
    tokensOf db.tokens session.id = first :: rest ∧
      (tokensOf db.tokens session.id).getLast? = some latest ∧
      follow db.tokens db.tokens.length (some first.id) =
        tokensOf db.tokens session.id ∧
      latest.replacedById = none
  once : (tokensOf db.tokens session.id).Nodup
  revoked : session.status = .revoked →
    ∀ row ∈ tokensOf db.tokens session.id, row.isActive = false

section Runs

variable {settings : IdentitySettings} {config : Config IdentityDb IdentityPlace}
variable {log : List IdentityEffect} {pid : Nat} {db : IdentityDb}
variable {session : SessionRow}

theorem rotationsFollowed_of_chained (htables : SessionTables db)
    (hchained : Chained (tokensOf db.tokens session.id) session.status) :
    RotationsFollowed db session := by
  obtain ⟨earlier, latest, hrows, hchain, hended⟩ := hchained
  constructor
  · intro row hrow hrotated
    rw [hrows] at hrow ⊢
    exact hchain.exists_next hrow hrotated
  · obtain ⟨first, rest, hfirst⟩ : ∃ first rest,
        tokensOf db.tokens session.id = first :: rest := by
      rw [hrows]
      cases earlier with
      | nil => exact ⟨_, _, rfl⟩
      | cons first rest => exact ⟨_, _, rfl⟩
    have hlast : (tokensOf db.tokens session.id).getLast? = some latest := by
      simp [hrows]
    refine ⟨first, rest, latest, hfirst, hlast, ?_, hchain.unreplaced⟩
    have hlinks : (tokensOf db.tokens session.id).IsChain IssuedInPlaceOf :=
      hrows ▸ hchain.links
    have hfollow := follow_eq htables.tokenIds hlinks
      (fun row hrow => List.mem_of_mem_filter hrow) (fun last hmem => by
        rw [hlast, Option.mem_some_iff] at hmem
        exact hmem ▸ hchain.unreplaced) (List.length_filter_le _ _)
    rwa [hfirst, List.head?_cons, Option.map_some, ← hfirst] at hfollow
  · exact (htables.tokenIds.of_map _).filter _
  · intro hrevoked row hrow
    rw [hrows] at hrow
    rcases List.mem_append.mp hrow with hearlier | hlatest
    · exact hchain.isActive_of_earlier hearlier
    · rw [List.mem_singleton.mp hlatest]
      exact hended hrevoked

theorem chainsKept_empty : ChainsKept ({} : IdentityDb) :=
  ⟨fun _ hrow => absurd hrow List.not_mem_nil,
    fun _ hsession => absurd hsession List.not_mem_nil⟩

/-- While calls are served one after the other, and no refresh is presented with
a token that was rotated on a session that is still active, following
`replaced_by` visits every token of a session, and a revoked session has no
active one. -/
theorem rotation_chain_kept
    (h : AloneBy (identityExec settings) RefreshesActive pid emptyIdentity config log) :
    ∀ session ∈ config.store.sessions, RotationsFollowed config.store session := by
  have hinv : ChainsKept config.store ∧ (config.places pid).Current config.store := by
    refine AloneBy.invariant (P := fun db place => ChainsKept db ∧ place.Current db)
      ⟨chainsKept_empty, trivial⟩ ?_ h
    intro config log input out before hinv hallowed hexec
    have hmove := identityMove_of_exec hexec
    obtain ⟨htables, hstored⟩ := sessionTables_of_reaches before.reachesBy
    exact ⟨chainsKept_of_step htables (hstored pid) hinv.2 hinv.1 hallowed
      (sessionStep_of_move hmove), current_of_move hinv.2 hmove⟩
  intro session hsession
  exact rotationsFollowed_of_chained (sessionTables_of_reaches h.reachesBy).1
    (hinv.1.chains session hsession)

end Runs

namespace ChainWitness

open IdentityWitness

/-- Whether a turn meets `RefreshesActive`. -/
def refreshesActive (_ : IdentityDb) : IdentityPlace → IdentityInput → Bool
  | .refreshing hash session now, .proceed _ =>
      !session.isActiveAt now || session.tokens.all fun token =>
        decide (token.tokenHash = hash → token.isActive = true)
  | _, _ => true

theorem refreshesActive_of {db : IdentityDb} {place : IdentityPlace}
    {input : IdentityInput} (h : refreshesActive db place input = true) :
    RefreshesActive db place input := by
  cases place with
  | refreshing hash session now =>
      cases input with
      | proceed mayRevokeAny =>
          intro hopen token htoken hhash
          simp only [refreshesActive, hopen, Bool.not_true, Bool.false_or,
            List.all_eq_true] at h
          exact of_decide_eq_true (h token htoken) hhash
      | _ => trivial
  | _ => trivial

/-- User 0 logs in and refreshes twice; the session is then revoked. -/
def inputs : List IdentityInput :=
  loggedIn.map Prod.snd ++
    [.refresh 4, .proceed false, .proceed false, .proceed false, .proceed false,
      .tick 60, .refresh 6, .proceed false, .proceed false, .proceed false,
      .proceed false, .revokeSession 2 0, .proceed false, .proceed false]

def last : Config IdentityDb IdentityPlace × List IdentityEffect :=
  endOfRun (identityExec settings) emptyIdentity (inputs.map (Prod.mk 0))
    (by decide +kernel)

theorem reaches_last :
    AloneBy (identityExec settings) RefreshesActive 0 emptyIdentity last.1 last.2 :=
  aloneBy_endOfRun refreshesActive refreshesActive_of (by decide +kernel) _

theorem rotation_chain_kept_last :
    (last.1.store.tokens.map fun row => (row.id, row.status, row.replacedById)) =
        [(3, .rotated, some 5), (5, .rotated, some 7), (7, .revoked, none)] ∧
      ∀ session ∈ last.1.store.sessions, RotationsFollowed last.1.store session :=
  ⟨by decide +kernel, rotation_chain_kept reaches_last⟩

/-- The first token is presented once more after it was rotated. -/
def reusedInputs : List IdentityInput :=
  loggedIn.map Prod.snd ++
    [.refresh 4, .proceed false, .proceed false, .proceed false, .proceed false,
      .refresh 4, .proceed false, .proceed false, .proceed false]

def reused : Config IdentityDb IdentityPlace × List IdentityEffect :=
  endOfRun (identityExec settings) emptyIdentity (reusedInputs.map (Prod.mk 0))
    (by decide +kernel)

theorem reaches_reused : AloneBy (identityExec settings) (fun _ _ _ => True) 0
    emptyIdentity reused.1 reused.2 :=
  aloneBy_endOfRun (fun _ _ _ => true) (fun _ => trivial) (by decide +kernel) _

/-- The save of a detected reuse takes `replaced_by` from the rotated token, and
leaves the active one as it is while the session is revoked. -/
theorem rotation_chain_not_always_kept :
    ∃ (config : Config IdentityDb IdentityPlace) (log : List IdentityEffect),
      AloneBy (identityExec settings) (fun _ _ _ => True) 0 emptyIdentity config log ∧
        ∃ session ∈ config.store.sessions,
          ¬ RotationsFollowed config.store session ∧ session.status = .revoked ∧
            ∃ row ∈ tokensOf config.store.tokens session.id, row.isActive = true := by
  have hbroken : ∃ session ∈ reused.1.store.sessions,
      (∃ row ∈ tokensOf reused.1.store.tokens session.id,
        row.status = .rotated ∧ row.replacedById = none) ∧
      session.status = .revoked ∧
        ∃ row ∈ tokensOf reused.1.store.tokens session.id, row.isActive = true := by
    decide +kernel
  obtain ⟨session, hsession, ⟨row, hrow, hrotated, hreplaced⟩, hrest⟩ := hbroken
  refine ⟨_, _, reaches_reused, session, hsession, fun hfollowed => ?_, hrest⟩
  obtain ⟨next, -, hissued⟩ := hfollowed.rotated row hrow hrotated
  rw [hissued.replacedById] at hreplaced
  cases hreplaced

end ChainWitness

end Identity

end Workshop
