/-
A session as the aggregate keeps it, with the events it records: what any
sequence of rotations and revocations makes of its tokens.
-/
import Mathlib.Data.List.Nodup
import Workshop.Identity.SessionWrites
import Workshop.Library.Stateful
import Workshop.Library.Walks

namespace Workshop

namespace Identity

open Session (StartSessionInput RotateRefreshTokenInput)

inductive SessionEvent
  | sessionCreated (sessionId : SessionId) (userId : UserId) (occurredAt : Timestamp)
  | refreshTokenRotated (sessionId : SessionId) (userId : UserId)
      (rotatedTokenId newTokenId : RefreshTokenId) (occurredAt : Timestamp)
  | refreshTokenReuseDetected (sessionId : SessionId) (userId : UserId)
      (tokenId : RefreshTokenId) (occurredAt : Timestamp)
  | sessionRevoked (sessionId : SessionId) (userId : UserId)
      (reason : SessionRevocationReason) (occurredAt : Timestamp)
deriving DecidableEq, Repr

/-- A session with the events recorded since it was made. -/
structure RecordedSession extends Session where
  domainEvents : List SessionEvent
deriving DecidableEq, Repr

abbrev SessionM := EStateM SessionError RecordedSession

namespace RecordedSession

def record (event : SessionEvent) : SessionM Unit :=
  modify fun session =>
    { session with domainEvents := session.domainEvents ++ [event] }

def start (input : StartSessionInput) : RecordedSession :=
  { Session.start input with
    domainEvents := [.sessionCreated input.id input.userId input.now] }

def revoke (reason : SessionRevocationReason) (now : Timestamp) : SessionM Unit := do
  let session ← get
  if session.status = .revoked then return ()
  else do
    set { session with
      status := .revoked
      revokedAt := some now
      revocationReason := some reason
      tokens := session.tokens.map RefreshToken.revoke }
    record (.sessionRevoked session.id session.userId reason now)

/-- The first token that matches the hash, and where it stands. -/
def presentedAt (tokens : List RefreshToken) (hash : RefreshTokenHash) :
    Option (RefreshToken × Nat) :=
  tokens.zipIdx.find? fun entry => entry.1.tokenHash = hash

/-- The token a rotation issues; it does not outlive the session. -/
def newTokenOf (session : Session) (input : RotateRefreshTokenInput) : RefreshToken :=
  RefreshToken.issue input.newTokenId input.newTokenHash input.now
    (min (addSeconds input.now input.refreshTokenTtlSeconds) session.absoluteExpiresAt)

/-- A token that was replaced or revoked closes the session before the throw. -/
def rotateRefreshToken (input : RotateRefreshTokenInput) : SessionM Unit := do
  let session ← get
  match presentedAt session.tokens input.presentedTokenHash with
  | none => throw .invalidRefreshToken
  | some (presented, index) =>
      if !session.isActiveAt input.now then throw .sessionNotActive
      else if !presented.isActive then do
        revoke .tokenReuse input.now
        record (.refreshTokenReuseDetected session.id session.userId presented.id
          input.now)
        throw .refreshTokenReuse
      else if presented.isExpired input.now then throw .invalidRefreshToken
      else do
        set { session with
          tokens := session.tokens.set index
              (presented.markRotated input.newTokenId input.now) ++
            [newTokenOf session.toSession input]
          lastUsedAt := input.now }
        record (.refreshTokenRotated session.id session.userId presented.id
          input.newTokenId input.now)

end RecordedSession

/-- A call on the aggregate. -/
inductive SessionCall
  | rotateRefreshToken (input : RotateRefreshTokenInput)
  | revoke (reason : SessionRevocationReason) (now : Timestamp)

namespace SessionCall

def run : SessionCall → SessionM Unit
  | .rotateRefreshToken input => RecordedSession.rotateRefreshToken input
  | .revoke reason now => RecordedSession.revoke reason now

/-- What a call leaves of the session, whether it ends well or throws. -/
def perform (call : SessionCall) (session : RecordedSession) : RecordedSession :=
  leftBy call.run session

/-- The id and the hash of a new token are those of no token of the session. -/
def Fresh (tokens : List RefreshToken) : SessionCall → Prop
  | .rotateRefreshToken input =>
      input.newTokenId ∉ tokens.map RefreshToken.id ∧
        input.newTokenHash ∉ tokens.map RefreshToken.tokenHash
  | .revoke _ _ => True

/-- Calls one after another. -/
def performAll (calls : List SessionCall) (session : RecordedSession) :
    RecordedSession :=
  calls.foldl (fun session call => call.perform session) session

end SessionCall

/-- The sessions that calls lead to, at whatever times they are made. -/
inductive RecordedSession.Reachable : RecordedSession → Prop
  | started (input : StartSessionInput) : Reachable (.start input)
  | called {session : RecordedSession} (call : SessionCall) (before : Reachable session)
      (hfresh : call.Fresh session.tokens) : Reachable (call.perform session)

/-- A rotation replaced the token by the next one. -/
structure ReplacedBy (token next : RefreshToken) : Prop where
  status : token.status = .rotated
  replacedById : token.replacedById = some next.id

/-- The tokens of a session, each replaced by the next but for the latest, which
is active as long as the session is. -/
structure Session.Links (session : Session) (earlier : List RefreshToken)
    (latest : RefreshToken) : Prop where
  tokens : session.tokens = earlier ++ [latest]
  links : (earlier ++ [latest]).IsChain ReplacedBy
  unreplaced : latest.replacedById = none
  unrotated : latest.status ≠ .rotated
  active : latest.status = .active ↔ session.status = .active
  bounded : ∀ token ∈ session.tokens, token.expiresAt ≤ session.absoluteExpiresAt
  ids : (session.tokens.map RefreshToken.id).Nodup
  hashes : (session.tokens.map RefreshToken.tokenHash).Nodup

section Calls

open RecordedSession (presentedAt newTokenOf)

variable {session left : RecordedSession} {input : RotateRefreshTokenInput}
variable {reason : SessionRevocationReason} {now : Timestamp} {done : Unit}
variable {tokens : List RefreshToken} {hash : RefreshTokenHash}
variable {presented : RefreshToken} {index : Nat}

@[simp] theorem runs_record {event : SessionEvent} :
    Runs (RecordedSession.record event) session done left ↔
      left = { session with domainEvents := session.domainEvents ++ [event] } := by
  simp [RecordedSession.record]

@[simp] theorem throws_record {event : SessionEvent} {error : SessionError} :
    Throws (RecordedSession.record event) session error left ↔ False := by
  simp [RecordedSession.record]

theorem getElem?_of_presentedAt (h : presentedAt tokens hash = some (presented, index)) :
    tokens[index]? = some presented ∧ presented.tokenHash = hash := by
  constructor
  · exact List.mem_zipIdx_iff_getElem?.mp (List.mem_of_find?_eq_some h)
  · have hpass := List.find?_some h
    exact of_decide_eq_true hpass

theorem presentedAt_isSome (h : presented ∈ tokens) (hhash : presented.tokenHash = hash) :
    ∃ found, presentedAt tokens hash = some found := by
  obtain ⟨index, hindex⟩ := List.mem_iff_getElem?.mp h
  refine Option.isSome_iff_exists.mp (List.find?_isSome.mpr
    ⟨(presented, index), List.mem_zipIdx_iff_getElem?.mpr hindex, ?_⟩)
  exact decide_eq_true hhash

/-- The first token with a hash that no other token has is that token. -/
theorem eq_of_presentedAt (hhashes : (tokens.map RefreshToken.tokenHash).Nodup)
    (h : presentedAt tokens hash = some (presented, index)) {token : RefreshToken}
    (htoken : token ∈ tokens) (hhash : token.tokenHash = hash) : presented = token := by
  obtain ⟨hindex, hpresented⟩ := getElem?_of_presentedAt h
  exact List.inj_on_of_nodup_map hhashes (List.mem_of_getElem? hindex) htoken
    (hpresented.trans hhash.symm)

/-- A revocation changes the session as `Session.revoke` says. -/
theorem revoke_runs (h : Runs (RecordedSession.revoke reason now) session done left) :
    left.toSession = session.toSession.revoke reason now := by
  simp only [RecordedSession.revoke, runs_bind, runs_get, runs_ite, runs_pure,
    runs_set, runs_record] at h
  obtain ⟨_, _, ⟨rfl, rfl⟩, h⟩ := h
  unfold Session.revoke
  split at h
  · rename_i hrevoked
    rw [if_pos hrevoked, h.2]
  · rename_i hactive
    obtain ⟨_, _, rfl, rfl⟩ := h
    rw [if_neg hactive]

theorem revoke_not_throws {error : SessionError} :
    ¬ Throws (RecordedSession.revoke reason now) session error left := by
  simp only [RecordedSession.revoke, throws_bind, throws_get, throws_ite, throws_pure,
    throws_set, throws_record, runs_get]
  rintro (h | ⟨_, _, -, h⟩)
  · exact h
  · split at h
    · exact h
    · rcases h with h | ⟨_, _, -, h⟩ <;> exact h

/-- How a rotation ends when it ends well. -/
theorem rotate_runs
    (h : Runs (RecordedSession.rotateRefreshToken input) session done left) :
    ∃ presented index, session.tokens[index]? = some presented ∧
      presented.tokenHash = input.presentedTokenHash ∧
      session.isActiveAt input.now = true ∧ presented.isActive = true ∧
      input.now < presented.expiresAt ∧
      left.toSession = { session.toSession with
        tokens := session.tokens.set index
            (presented.markRotated input.newTokenId input.now) ++
          [newTokenOf session.toSession input]
        lastUsedAt := input.now } := by
  simp only [RecordedSession.rotateRefreshToken, runs_bind, runs_get] at h
  obtain ⟨_, _, ⟨rfl, rfl⟩, h⟩ := h
  split at h
  · simp at h
  · rename_i presented index hfound
    obtain ⟨hindex, hhash⟩ := getElem?_of_presentedAt hfound
    simp only [runs_ite, runs_bind, runs_throw, runs_set, runs_record, and_false,
      exists_false, if_false_left] at h
    obtain ⟨hopen, hactive, hexpired, _, _, rfl, rfl⟩ := h
    refine ⟨presented, index, hindex, hhash, by simpa using hopen,
      by simpa using hactive, ?_, rfl⟩
    exact Nat.lt_of_not_le fun hle => hexpired (decide_eq_true hle)

/-- How a rotation ends when it throws: it changes nothing, or the token it was
given had been replaced or revoked. -/
theorem rotate_throws {error : SessionError}
    (h : Throws (RecordedSession.rotateRefreshToken input) session error left) :
    left = session ∨
      error = .refreshTokenReuse ∧ session.isActiveAt input.now = true ∧
        (∃ presented ∈ session.tokens, presented.tokenHash = input.presentedTokenHash ∧
          presented.isActive = false) ∧
        left.toSession = session.toSession.revoke .tokenReuse input.now := by
  simp only [RecordedSession.rotateRefreshToken, throws_bind, throws_get, runs_get,
    false_or] at h
  obtain ⟨_, _, ⟨rfl, rfl⟩, h⟩ := h
  split at h
  · exact Or.inl (throws_throw.mp h).2
  · rename_i presented index hfound
    obtain ⟨hindex, hhash⟩ := getElem?_of_presentedAt hfound
    simp only [throws_ite, throws_throw] at h
    split at h
    · exact Or.inl h.2
    · rename_i hopen
      split at h
      · rename_i hactive
        simp only [throws_bind, throws_record, throws_throw, runs_record] at h
        rcases h with h | ⟨_, middle, hrevoke, h | ⟨_, _, rfl, rfl, rfl⟩⟩
        · exact absurd h revoke_not_throws
        · exact h.elim
        · refine Or.inr ⟨rfl, by simpa using hopen, ⟨presented,
            List.mem_of_getElem? hindex, hhash, by simpa using hactive⟩, ?_⟩
          exact (revoke_runs hrevoke :)
      · split at h
        · exact Or.inl h.2
        · simp at h

/-- A token that was replaced or revoked, presented while the session is active. -/
theorem rotate_reuse (hfound : presentedAt session.tokens input.presentedTokenHash =
      some (presented, index)) (hopen : session.isActiveAt input.now = true)
    (hinactive : presented.isActive = false) :
    ∃ left, Throws (RecordedSession.rotateRefreshToken input) session
        .refreshTokenReuse left ∧
      left.toSession = session.toSession.revoke .tokenReuse input.now := by
  rcases leftBy_cases (RecordedSession.revoke .tokenReuse input.now) session with
    ⟨done, hrevoke⟩ | ⟨error, hthrows⟩
  · let left := leftBy (RecordedSession.revoke .tokenReuse input.now) session
    refine ⟨{ left with domainEvents := left.domainEvents ++
      [.refreshTokenReuseDetected session.id session.userId presented.id input.now] },
      ?_, (revoke_runs hrevoke :)⟩
    simp only [RecordedSession.rotateRefreshToken, throws_bind, throws_get, runs_get,
      false_or]
    refine ⟨session, session, ⟨rfl, rfl⟩, ?_⟩
    rw [hfound]
    simp only [throws_ite, throws_bind, throws_throw, throws_record, runs_record, hopen,
      hinactive]
    exact Or.inr ⟨done, _, hrevoke, Or.inr ⟨(), _, rfl, trivial, rfl⟩⟩
  · exact absurd hthrows revoke_not_throws

/-- The aggregate ends a rotation as the answer says. -/
def RecordedSession.Ends (session : RecordedSession) (input : RotateRefreshTokenInput) :
    Session.Rotation → Prop
  | .rotated changed => ∃ left,
      Runs (RecordedSession.rotateRefreshToken input) session () left ∧
        left.toSession = changed
  | .reused revoked => ∃ left,
      Throws (RecordedSession.rotateRefreshToken input) session .refreshTokenReuse left ∧
        left.toSession = revoked
  | .refused error =>
      Throws (RecordedSession.rotateRefreshToken input) session error session

theorem find?_presentedAt : (tokens.find? fun token => token.tokenHash = hash) =
    (presentedAt tokens hash).map Prod.fst := by
  have hmap : ((tokens.zipIdx.map Prod.fst).find? fun token => token.tokenHash = hash) =
      (presentedAt tokens hash).map Prod.fst := by
    rw [List.find?_map]
    rfl
  rwa [List.zipIdx_map_fst] at hmap

/-- To exchange the token at its place is to exchange the one with its id. -/
theorem set_eq_map_of_id (hids : (tokens.map RefreshToken.id).Nodup)
    (hindex : tokens[index]? = some presented) (change : RefreshToken → RefreshToken) :
    tokens.set index (change presented) =
      tokens.map fun token => if token.id = presented.id then change token else token := by
  refine List.ext_getElem? fun other => ?_
  rw [List.getElem?_set, List.getElem?_map]
  split
  · rename_i hother
    subst hother
    rw [if_pos (List.getElem?_eq_some_iff.mp hindex).1, hindex, Option.map_some, if_pos rfl]
  · rename_i hother
    cases htoken : tokens[other]? with
    | none => rfl
    | some token =>
        have hne : token.id ≠ presented.id := by
          intro hid
          refine hother ((List.getElem?_inj ?_ hids).mp ?_)
          · rw [List.length_map]
            exact (List.getElem?_eq_some_iff.mp hindex).1
          · rw [List.getElem?_map, List.getElem?_map, hindex, htoken, Option.map_some,
              Option.map_some, hid]
        rw [Option.map_some, if_neg hne]

/-- A session whose tokens have ids of their own ends a rotation as
`Session.rotateRefreshToken` answers. -/
theorem ends_rotateRefreshToken (hids : (session.tokens.map RefreshToken.id).Nodup) :
    session.Ends input (session.toSession.rotateRefreshToken input) := by
  unfold Session.rotateRefreshToken
  rw [find?_presentedAt]
  cases hfound : presentedAt session.tokens input.presentedTokenHash with
  | none =>
      simp [RecordedSession.Ends, RecordedSession.rotateRefreshToken, hfound]
  | some found =>
      obtain ⟨presented, index⟩ := found
      obtain ⟨hindex, -⟩ := getElem?_of_presentedAt hfound
      rw [Option.map_some]
      dsimp only
      cases hopen : session.isActiveAt input.now with
      | false =>
          simp [RecordedSession.Ends, RecordedSession.rotateRefreshToken, hfound, hopen]
      | true =>
          cases hactive : presented.isActive with
          | false => exact rotate_reuse hfound hopen hactive
          | true =>
              cases hexpired : presented.isExpired input.now with
              | true =>
                  simp [RecordedSession.Ends, RecordedSession.rotateRefreshToken, hfound,
                    hopen, hactive, hexpired]
              | false =>
                  simp [RecordedSession.Ends, RecordedSession.rotateRefreshToken, hfound,
                    hopen, hactive, hexpired]
                  exact ⟨set_eq_map_of_id hids hindex fun token =>
                    token.markRotated input.newTokenId input.now, rfl⟩

end Calls

section Links

open RecordedSession (presentedAt newTokenOf)

variable {session : Session} {recorded left : RecordedSession}
variable {earlier : List RefreshToken} {latest token presented next : RefreshToken}
variable {index : Nat} {reason : SessionRevocationReason} {now : Timestamp}
variable {input : RotateRefreshTokenInput}

theorem links_start (input : StartSessionInput) :
    ∃ latest, (Session.start input).Links [] latest := by
  refine ⟨_, rfl, List.isChain_singleton _, rfl, nofun, ?_, ?_, List.nodup_singleton _,
    List.nodup_singleton _⟩
  · exact ⟨fun _ => rfl, fun _ => rfl⟩
  · intro token htoken
    rw [List.mem_singleton.mp htoken]
    exact Nat.min_le_right _ _

/-- Every token but the latest is rotated. -/
theorem Session.Links.rotated (h : session.Links earlier latest) (htoken : token ∈ earlier) :
    token.status = .rotated := by
  obtain ⟨next, -, hreplaced⟩ := exists_next_of_isChain h.links token htoken
  exact hreplaced.status

theorem Session.Links.isActive_of_earlier (h : session.Links earlier latest)
    (htoken : token ∈ earlier) : token.isActive = false := by
  simp [RefreshToken.isActive, h.rotated htoken]

/-- Only the latest token can be active. -/
theorem Session.Links.eq_latest (h : session.Links earlier latest)
    (hindex : session.tokens[index]? = some presented)
    (hactive : presented.isActive = true) :
    index = earlier.length ∧ presented = latest := by
  rw [h.tokens] at hindex
  rcases Nat.lt_or_ge index earlier.length with hless | hge
  · rw [List.getElem?_append_left hless] at hindex
    rw [h.isActive_of_earlier (List.mem_of_getElem? hindex)] at hactive
    cases hactive
  · rw [List.getElem?_append_right hge, List.getElem?_singleton] at hindex
    split at hindex
    · exact ⟨by omega, (Option.some.inj hindex).symm⟩
    · cases hindex

/-- A rotation of the latest token lengthens the chain. -/
theorem Session.Links.rotate (h : session.Links earlier latest)
    (hactive : session.status = .active)
    (hid : next.id ∉ session.tokens.map RefreshToken.id)
    (hhash : next.tokenHash ∉ session.tokens.map RefreshToken.tokenHash)
    (hunreplaced : next.replacedById = none) (hnext : next.status = .active)
    (hbounded : next.expiresAt ≤ session.absoluteExpiresAt) :
    { session with
      tokens := session.tokens.set earlier.length (latest.markRotated next.id now) ++
        [next]
      lastUsedAt := now : Session }.Links
      (earlier ++ [latest.markRotated next.id now]) next := by
  have hset : session.tokens.set earlier.length (latest.markRotated next.id now) =
      earlier ++ [latest.markRotated next.id now] := by
    rw [h.tokens, List.set_append_right _ _ (Nat.le_refl _), Nat.sub_self]
    rfl
  have hids : (earlier ++ [latest.markRotated next.id now]).map RefreshToken.id =
      session.tokens.map RefreshToken.id := by
    rw [h.tokens, List.map_append, List.map_append]
    rfl
  have hhashes : (earlier ++ [latest.markRotated next.id now]).map
      RefreshToken.tokenHash = session.tokens.map RefreshToken.tokenHash := by
    rw [h.tokens, List.map_append, List.map_append]
    rfl
  refine ⟨by rw [hset], ?_, hunreplaced, by rw [hnext]; nofun, ?_, ?_, ?_, ?_⟩
  · have hlinks := isChain_concat_congr (b := latest.markRotated next.id now) h.links
      fun token hreplaced => ⟨hreplaced.status, hreplaced.replacedById⟩
    exact isChain_concat_concat hlinks ⟨rfl, rfl⟩
  · exact ⟨fun _ => hactive, fun _ => hnext⟩
  · intro token htoken
    rw [hset, List.append_assoc, List.mem_append] at htoken
    rcases htoken with hearlier | hlast
    · exact h.bounded token (h.tokens ▸ List.mem_append_left _ hearlier)
    · rcases List.mem_pair.mp hlast with rfl | rfl
      · exact h.bounded latest (h.tokens ▸ List.mem_concat_self)
      · exact hbounded
  · change ((session.tokens.set _ _ ++ [next]).map RefreshToken.id).Nodup
    rw [hset, List.map_append, hids, List.map_singleton, ← List.concat_eq_append]
    exact h.ids.concat hid
  · change ((session.tokens.set _ _ ++ [next]).map RefreshToken.tokenHash).Nodup
    rw [hset, List.map_append, hhashes, List.map_singleton, ← List.concat_eq_append]
    exact h.hashes.concat hhash

theorem revoke_of_rotated (h : token.status = .rotated) : token.revoke = token := by
  rw [RefreshToken.revoke, if_pos (by rw [h]; nofun)]

theorem RefreshToken.revoke_replacedById (token : RefreshToken) :
    token.revoke.replacedById = token.replacedById := by
  unfold RefreshToken.revoke
  split <;> rfl

theorem RefreshToken.revoke_expiresAt (token : RefreshToken) :
    token.revoke.expiresAt = token.expiresAt := by
  unfold RefreshToken.revoke
  split <;> rfl

theorem Session.revoke_absoluteExpiresAt :
    (session.revoke reason now).absoluteExpiresAt = session.absoluteExpiresAt := by
  unfold Session.revoke
  split <;> rfl

/-- A revocation ends the chain where it is. -/
theorem Session.Links.revoke (h : session.Links earlier latest)
    (reason : SessionRevocationReason) (now : Timestamp) :
    ∃ ended, (session.revoke reason now).Links earlier ended := by
  cases hstatus : session.status with
  | revoked =>
      rw [Session.revoke_of_revoked hstatus]
      exact ⟨latest, h⟩
  | active =>
      have htokens : session.tokens.map RefreshToken.revoke =
          earlier ++ [latest.revoke] := by
        have hearlier : earlier.map RefreshToken.revoke = earlier.map id :=
          List.map_congr_left fun token htoken => revoke_of_rotated (h.rotated htoken)
        rw [h.tokens, List.map_append, List.map_singleton, hearlier,
          List.map_id]
      have hids : (session.revoke reason now).tokens.map RefreshToken.id =
          session.tokens.map RefreshToken.id := by
        rw [Session.revoke_tokens hstatus, List.map_map]
        exact List.map_congr_left fun token _ => RefreshToken.revoke_id token
      have hhashes : (session.revoke reason now).tokens.map RefreshToken.tokenHash =
          session.tokens.map RefreshToken.tokenHash := by
        rw [Session.revoke_tokens hstatus, List.map_map]
        exact List.map_congr_left fun token _ => RefreshToken.revoke_tokenHash token
      have hended : latest.revoke.status = .revoked := by
        rw [RefreshToken.revoke, if_neg (not_not.mpr (h.active.mpr hstatus))]
      refine ⟨latest.revoke, by rw [Session.revoke_tokens hstatus, htokens], ?_, ?_, ?_,
        ?_, ?_, by rw [hids]; exact h.ids, by rw [hhashes]; exact h.hashes⟩
      · exact isChain_concat_congr h.links fun token hreplaced =>
          ⟨hreplaced.status, by rw [RefreshToken.revoke_id]; exact hreplaced.replacedById⟩
      · rw [RefreshToken.revoke_replacedById]
        exact h.unreplaced
      · rw [hended]
        nofun
      · rw [hended, Session.revoke_status]
        exact ⟨nofun, nofun⟩
      · intro token htoken
        rw [Session.revoke_tokens hstatus] at htoken
        obtain ⟨old, hold, rfl⟩ := List.mem_map.mp htoken
        rw [RefreshToken.revoke_expiresAt, Session.revoke_absoluteExpiresAt]
        exact h.bounded old hold

/-- A call keeps the chain, whether it ends well or throws. -/
theorem Session.Links.perform (h : recorded.Links earlier latest) (call : SessionCall)
    (hfresh : call.Fresh recorded.tokens) :
    ∃ earlier latest, (call.perform recorded).Links earlier latest := by
  rcases leftBy_cases call.run recorded with ⟨done, hruns⟩ | ⟨error, hthrows⟩
  · cases call with
    | rotateRefreshToken input =>
        obtain ⟨presented, index, hindex, -, hopen, hactive, -, hleft⟩ := rotate_runs hruns
        obtain ⟨rfl, rfl⟩ := h.eq_latest hindex hactive
        have hstatus : recorded.status = .active := h.active.mp (of_decide_eq_true hactive)
        have hbounded : (newTokenOf recorded.toSession input).expiresAt ≤
            recorded.absoluteExpiresAt := Nat.min_le_right _ _
        refine ⟨earlier ++ [presented.markRotated input.newTokenId input.now],
          newTokenOf recorded.toSession input, ?_⟩
        change (leftBy _ recorded).toSession.Links _ _
        rw [hleft]
        exact h.rotate hstatus hfresh.1 hfresh.2 rfl rfl hbounded
    | revoke reason now =>
        obtain ⟨ended, hended⟩ := h.revoke reason now
        refine ⟨earlier, ended, ?_⟩
        rw [← revoke_runs hruns] at hended
        exact hended
  · cases call with
    | rotateRefreshToken input =>
        rcases rotate_throws hthrows with hsame | ⟨-, -, -, hleft⟩
        · refine ⟨earlier, latest, ?_⟩
          change (leftBy _ recorded).toSession.Links _ _
          rw [hsame]
          exact h
        · obtain ⟨ended, hended⟩ := h.revoke .tokenReuse input.now
          rw [← hleft] at hended
          exact ⟨earlier, ended, hended⟩
    | revoke reason now => exact absurd hthrows revoke_not_throws

theorem RecordedSession.Reachable.links (h : recorded.Reachable) :
    ∃ earlier latest, recorded.Links earlier latest := by
  induction h with
  | started input => exact ⟨[], links_start input⟩
  | called call _ hfresh ih =>
      obtain ⟨earlier, latest, hlinks⟩ := ih
      exact hlinks.perform call hfresh

/-- A session that was revoked stays as it is, and every rotation of it throws. -/
theorem refused_of_revoked (hrevoked : recorded.status = .revoked) :
    (∀ calls, SessionCall.performAll calls recorded = recorded) ∧
      ∀ input, ∃ error, Throws (RecordedSession.rotateRefreshToken input) recorded error
        recorded := by
  have hclosed : ∀ now, recorded.isActiveAt now = false := fun now => by
    simp [Session.isActiveAt, hrevoked]
  have hrefused : ∀ input, ∃ error,
      Throws (RecordedSession.rotateRefreshToken input) recorded error recorded := by
    intro input
    rcases leftBy_cases (RecordedSession.rotateRefreshToken input) recorded with
      ⟨done, hruns⟩ | ⟨error, hthrows⟩
    · obtain ⟨_, _, -, -, hopen, -⟩ := rotate_runs hruns
      rw [hclosed] at hopen
      cases hopen
    · rcases rotate_throws hthrows with hsame | ⟨-, hopen, -⟩
      · rw [hsame] at hthrows
        exact ⟨error, hthrows⟩
      · rw [hclosed] at hopen
        cases hopen
  have hstays : ∀ call : SessionCall, call.perform recorded = recorded := by
    intro call
    cases call with
    | rotateRefreshToken input =>
        obtain ⟨error, hthrows⟩ := hrefused input
        exact hthrows.leftBy_eq
    | revoke reason now =>
        have hruns : Runs (RecordedSession.revoke reason now) recorded () recorded := by
          simp [RecordedSession.revoke, hrevoked]
        exact hruns.leftBy_eq
  refine ⟨fun calls => ?_, hrefused⟩
  induction calls with
  | nil => rfl
  | cons call calls ih =>
      change SessionCall.performAll calls (call.perform recorded) = recorded
      rw [hstays, ih]

/-- The tokens of a session form one chain, whatever is presented to it and whenever.
Only the latest token is exchanged, before it and the session expire.  An earlier one
closes an active session for good, and every other refusal changes nothing. -/
theorem session_chain_law (h : recorded.Reachable) :
    ∃ earlier latest, recorded.tokens = earlier ++ [latest] ∧
      (earlier ++ [latest]).IsChain ReplacedBy ∧ latest.replacedById = none ∧
      (recorded.tokens.map RefreshToken.id).Nodup ∧
      (∀ token ∈ earlier, token.status = .rotated) ∧
      (latest.status = .active ↔ recorded.status = .active) ∧
      (∀ token ∈ recorded.tokens, token.expiresAt ≤ recorded.absoluteExpiresAt) ∧
      (∀ input left, Runs (RecordedSession.rotateRefreshToken input) recorded () left →
        latest.tokenHash = input.presentedTokenHash ∧
          input.now < latest.expiresAt ∧ input.now < recorded.absoluteExpiresAt) ∧
      (∀ token ∈ earlier, ∀ input, token.tokenHash = input.presentedTokenHash →
        recorded.isActiveAt input.now = true →
          ∃ left, Throws (RecordedSession.rotateRefreshToken input) recorded
              .refreshTokenReuse left ∧
            left.status = .revoked ∧
            (∀ calls, SessionCall.performAll calls left = left) ∧
            ∀ next, ∃ error,
              Throws (RecordedSession.rotateRefreshToken next) left error left) ∧
      ∀ input error left,
        Throws (RecordedSession.rotateRefreshToken input) recorded error left →
          left = recorded ∨
            error = .refreshTokenReuse ∧ recorded.isActiveAt input.now = true ∧
              ∃ token ∈ earlier, token.tokenHash = input.presentedTokenHash := by
  obtain ⟨earlier, latest, hlinks⟩ := h.links
  refine ⟨earlier, latest, hlinks.tokens, hlinks.links, hlinks.unreplaced, hlinks.ids,
    fun token => hlinks.rotated, hlinks.active, hlinks.bounded, ?_, ?_, ?_⟩
  · intro input left hruns
    obtain ⟨presented, index, hindex, hhash, hopen, hactive, hexpires, -⟩ :=
      rotate_runs hruns
    obtain ⟨-, rfl⟩ := hlinks.eq_latest hindex hactive
    simp only [Session.isActiveAt, Bool.and_eq_true, decide_eq_true_eq] at hopen
    exact ⟨hhash, hexpires, hopen.2⟩
  · intro token htoken input hhash hopen
    have hmem : token ∈ recorded.tokens := by
      rw [hlinks.tokens]
      exact List.mem_append_left _ htoken
    obtain ⟨⟨presented, index⟩, hfound⟩ := presentedAt_isSome hmem hhash
    obtain rfl := eq_of_presentedAt hlinks.hashes hfound hmem hhash
    obtain ⟨left, hthrows, hleft⟩ := rotate_reuse hfound hopen
      (hlinks.isActive_of_earlier htoken)
    have hrevoked : left.status = .revoked := by
      rw [hleft, Session.revoke_status]
    exact ⟨left, hthrows, hrevoked, refused_of_revoked hrevoked⟩
  · intro input error left hthrows
    rcases rotate_throws hthrows with
      hsame | ⟨hreuse, hopen, ⟨presented, hmem, hhash, hinactive⟩, -⟩
    · exact Or.inl hsame
    · refine Or.inr ⟨hreuse, hopen, presented, ?_, hhash⟩
      -- The latest token of an active session is active, so it is no reuse.
      rw [hlinks.tokens] at hmem
      rcases List.mem_append.mp hmem with hearlier | hlast
      · exact hearlier
      · rw [List.mem_singleton.mp hlast] at hinactive
        simp only [Session.isActiveAt, Bool.and_eq_true, decide_eq_true_eq] at hopen
        rw [RefreshToken.isActive, hlinks.active.mpr hopen.1] at hinactive
        cases hinactive

end Links

namespace ChainWitness

/-- A session of an hour whose tokens last ten minutes. -/
def login : StartSessionInput where
  id := 1
  userId := 2
  ip := none
  userAgent := none
  initialTokenId := 10
  initialTokenHash := 100
  refreshTokenTtlSeconds := 600
  absoluteTtlSeconds := 3600
  now := 0

def first : SessionCall := .rotateRefreshToken ⟨100, 11, 101, 600, 60000⟩

def second : SessionCall := .rotateRefreshToken ⟨101, 12, 102, 600, 120000⟩

/-- The session after its token was exchanged twice. -/
def exchanged : RecordedSession := second.perform (first.perform (.start login))

theorem reachable_exchanged : exchanged.Reachable := by
  have hfirst : first.Fresh (RecordedSession.start login).tokens :=
    ⟨by decide, by decide⟩
  have hsecond : second.Fresh (first.perform (.start login)).tokens :=
    ⟨by decide, by decide⟩
  exact .called second (.called first (.started login) hfirst) hsecond

/-- The first token, presented again, closes the session. -/
theorem session_chain_law_exchanged :
    exchanged.tokens.map RefreshToken.status = [.rotated, .rotated, .active] ∧
      ∃ left, Throws (RecordedSession.rotateRefreshToken ⟨100, 13, 103, 600, 180000⟩)
          exchanged .refreshTokenReuse left ∧
        left.status = .revoked ∧ ∀ calls, SessionCall.performAll calls left = left := by
  obtain ⟨earlier, latest, htokens, -, -, -, -, -, -, -, hreuse, -⟩ :=
    session_chain_law reachable_exchanged
  have hearlier : exchanged.tokens.dropLast = earlier := by
    rw [htokens, List.dropLast_concat]
  have hstale : ∃ token ∈ exchanged.tokens.dropLast, token.tokenHash = 100 := by decide
  obtain ⟨token, htoken, hhash⟩ := hstale
  obtain ⟨left, hthrows, hrevoked, hstays, -⟩ := hreuse token (hearlier ▸ htoken)
    ⟨100, 13, 103, 600, 180000⟩ hhash (by decide)
  exact ⟨by decide, left, hthrows, hrevoked, hstays⟩

end ChainWitness

end Identity

end Workshop
