/-
Access tokens after the revocation of their session.  The guard reads the
revoked session list only; an entry covers the tokens that were signed before
it was added, and the guard has to look while the token lives.
-/
import Workshop.Identity.SessionWrites

namespace Workshop

namespace Identity

/-- Once a revocation of a session returned, no token of it is accepted. -/
def ClosedBefore (earlier later : IdentityEffect) : Prop :=
  ∀ id token, earlier = .closed id → later = .accepted token → token.sessionId ≠ id

def NeverAcceptedClosed (log : List IdentityEffect) : Prop :=
  log.Pairwise ClosedBefore

/-- A token is signed for a session with no entry it would outlive, and the
guard looks up a listed session before the token expires. -/
def signsCovered (settings : IdentitySettings) (db : IdentityDb) :
    IdentityPlace → IdentityInput → Bool
  | .signing _ session _, .proceed _ =>
      db.revokedSessions.all fun entry => decide (entry.sessionId ≠ session.id) ||
        decide (addSeconds db.now settings.accessTokenTtlSeconds ≤ entry.expiresAt)
  | .checking token, .proceed _ =>
      decide (db.now < token.expiresAt) ||
        db.revokedSessions.all fun entry => decide (entry.sessionId ≠ token.sessionId)
  | _, _ => true

/-- The entries outlive the tokens signed so far, and the closed sessions are
listed. -/
structure TokensCovered (settings : IdentitySettings) (db : IdentityDb)
    (log : List IdentityEffect) : Prop where
  covered : ∀ entry ∈ db.revokedSessions, ∀ token ∈ db.signed,
    token.sessionId = entry.sessionId → token.expiresAt ≤ entry.expiresAt
  bounded : ∀ token ∈ db.signed,
    token.expiresAt ≤ addSeconds db.now settings.accessTokenTtlSeconds
  listed : ∀ id, IdentityEffect.closed id ∈ log →
    ∃ entry ∈ db.revokedSessions, entry.sessionId = id
  order : NeverAcceptedClosed log

/-- The guard looks up a token that was signed. -/
def IdentityPlace.Signed (db : IdentityDb) : IdentityPlace → Prop
  | .checking token => token ∈ db.signed
  | _ => True

section Entries

variable {db : IdentityDb} {sessionIds : List SessionId} {ttlSeconds : Nat}
variable {entry : RevokedEntry} {id : SessionId}

theorem addManyRevoked_cons :
    db.addManyRevoked (id :: sessionIds) ttlSeconds =
      (db.addRevoked id ttlSeconds).addManyRevoked sessionIds ttlSeconds := rfl

/-- An entry was there before, or it was added and lives for the whole TTL. -/
theorem mem_addManyRevoked
    (h : entry ∈ (db.addManyRevoked sessionIds ttlSeconds).revokedSessions) :
    entry ∈ db.revokedSessions ∨
      entry.expiresAt = addSeconds db.now (max ttlSeconds 1) := by
  induction sessionIds generalizing db with
  | nil => exact Or.inl h
  | cons id rest ih =>
      rw [addManyRevoked_cons] at h
      rcases ih h with hold | hnew
      · rcases mem_upsert.mp hold with rfl | ⟨hold, -⟩
        · exact Or.inr rfl
        · exact Or.inl hold
      · exact Or.inr hnew

/-- What is listed stays listed, and what is added is. -/
theorem listed_addManyRevoked
    (h : id ∈ sessionIds ∨ ∃ entry ∈ db.revokedSessions, entry.sessionId = id) :
    ∃ entry ∈ (db.addManyRevoked sessionIds ttlSeconds).revokedSessions,
      entry.sessionId = id := by
  induction sessionIds generalizing db with
  | nil =>
      rcases h with hmem | hlisted
      · cases hmem
      · exact hlisted
  | cons first rest ih =>
      rw [addManyRevoked_cons]
      apply ih
      by_cases heq : id = first
      · exact Or.inr ⟨_, mem_upsert.mpr (Or.inl rfl), heq.symm⟩
      · rcases h with hmem | ⟨entry, hentry, hid⟩
        · exact Or.inl ((List.mem_cons.mp hmem).resolve_left heq)
        · refine Or.inr ⟨entry, mem_upsert.mpr (Or.inr ⟨hentry, ?_⟩), hid⟩
          rw [hid]
          exact heq

end Entries

/-- What the moves do to the tokens, the list and the clock. -/
inductive AccessStep (settings : IdentitySettings) (db : IdentityDb) :
    IdentityPlace → IdentityInput → IdentityDb → List IdentityEffect → Prop
  | frame (place : IdentityPlace) (input : IdentityInput) (db' : IdentityDb)
      (effects : List IdentityEffect)
      (hrevoked : db'.revokedSessions = db.revokedSessions)
      (hsigned : db'.signed = db.signed) (hnow : db.now ≤ db'.now)
      (hclosed : ∀ id, IdentityEffect.closed id ∉ effects)
      (haccepted : ∀ token, IdentityEffect.accepted token ∉ effects) :
      AccessStep settings db place input db' effects
  | signed (mayRevokeAny : Bool) (presented : Option RefreshTokenHash)
      (session : Session) (mustChangePassword : Bool) :
      AccessStep settings db (.signing presented session mustChangePassword)
        (.proceed mayRevokeAny)
        (signToken settings db presented session mustChangePassword).store
        (presented.map IdentityEffect.exchanged).toList
  | added (input : IdentityInput) (sessionIds : List SessionId) (reuse : Bool) :
      AccessStep settings db (.adding sessionIds reuse) input
        (db.addManyRevoked sessionIds settings.accessTokenTtlSeconds)
        (if reuse then [] else sessionIds.map IdentityEffect.closed)
  | accepted (mayRevokeAny : Bool) (token : AccessToken)
      (hlive : db.isRevoked token.sessionId = false) :
      AccessStep settings db (.checking token) (.proceed mayRevokeAny) db
        [.accepted token]

section Steps

variable {settings : IdentitySettings} {db db' : IdentityDb}
variable {place next : IdentityPlace} {input : IdentityInput}
variable {effects log : List IdentityEffect}
variable {config : Config IdentityDb IdentityPlace}

theorem accessStep_of_move
    (h : IdentityMove settings db place input db' next effects) :
    AccessStep settings db place input db' effects := by
  cases h with
  | sign mayRevokeAny presented session mustChangePassword =>
      exact AccessStep.signed mayRevokeAny presented session mustChangePassword
  | add _ sessionIds reuse => exact AccessStep.added _ sessionIds reuse
  | accept mayRevokeAny token hlive => exact AccessStep.accepted mayRevokeAny token hlive
  | tick _ elapsed =>
      exact AccessStep.frame _ _ _ _ rfl rfl (Nat.le_add_right _ _) (by simp) (by simp)
  | register _ user _ hid hhash hsave =>
      obtain rfl := saveUser_eq_ok hsave
      exact AccessStep.frame _ _ _ _ rfl rfl (Nat.le_refl _) (by simp) (by simp)
  | saveChange _ change user changed _ hchange hsave _ hnext =>
      obtain rfl := saveUser_eq_ok hsave
      exact AccessStep.frame _ _ _ _ rfl rfl (Nat.le_refl _) (by simp) (by simp)
  | openSession _ user mustChangePassword ip userAgent now session _ hsession hsave =>
      obtain ⟨_, -, rfl⟩ := saveSession_eq_ok hsave
      exact AccessStep.frame _ _ _ _ rfl rfl (Nat.le_refl _) (by simp) (by simp)
  | rotate _ hash session rotated now _ hrotation hsave =>
      obtain ⟨_, -, rfl⟩ := saveSession_eq_ok hsave
      exact AccessStep.frame _ _ _ _ rfl rfl (Nat.le_refl _) (by simp) (by simp)
  | reuse _ hash session revoked now _ hrotation hsave =>
      obtain ⟨_, -, rfl⟩ := saveSession_eq_ok hsave
      exact AccessStep.frame _ _ _ _ rfl rfl (Nat.le_refl _) (by simp) (by simp)
  | revoke _ session reason now _ hsave =>
      obtain ⟨_, -, rfl⟩ := saveSession_eq_ok hsave
      exact AccessStep.frame _ _ _ _ rfl rfl (Nat.le_refl _) (by simp) (by simp)
  | _ => exact AccessStep.frame _ _ _ _ rfl rfl (Nat.le_refl _) (by simp) (by simp)

theorem signed_step (h : AccessStep settings db place input db' effects)
    {token : AccessToken} (htoken : token ∈ db.signed) : token ∈ db'.signed := by
  cases h with
  | frame _ _ _ _ _ hsigned _ _ _ => rwa [hsigned]
  | signed => exact List.mem_append_left _ htoken
  | added => rwa [addManyRevoked_signed]
  | accepted => exact htoken

theorem signed_of_move (hsigned : place.Signed db)
    (h : IdentityMove settings db place input db' next effects) : next.Signed db' := by
  cases h with
  | tick _ elapsed =>
      cases place with
      | checking token => exact hsigned
      | _ => trivial
  | verifyToken _ token haccepts =>
      have hsigned : token ∈ db.signed :=
        of_decide_eq_true (Bool.and_eq_true_iff.mp haccepts).1
      exact hsigned
  | saveChange _ change user changed _ hchange hsave _ hnext =>
      rcases hnext with rfl | ⟨rfl, -⟩ <;> trivial
  | _ => trivial

theorem neverAccepted_append (hlog : NeverAcceptedClosed log)
    (hnone : ∀ token, IdentityEffect.accepted token ∉ effects) :
    NeverAcceptedClosed (log ++ effects) := by
  refine List.pairwise_append.mpr ⟨hlog, ?_, ?_⟩
  · refine List.pairwise_of_forall_mem_list ?_
    rintro _ _ _ hlater _ token - rfl
    exact absurd hlater (hnone token)
  · rintro _ _ _ hlater _ token - rfl
    exact absurd hlater (hnone token)

/-- A listed session is revoked for the guard as long as its tokens live. -/
theorem isRevoked_of_listed (hinv : TokensCovered settings db log)
    {token : AccessToken} (htoken : token ∈ db.signed)
    (hlives : db.now < token.expiresAt)
    (hlisted : ∃ entry ∈ db.revokedSessions, entry.sessionId = token.sessionId) :
    db.isRevoked token.sessionId = true := by
  obtain ⟨entry, hentry, hid⟩ := hlisted
  refine List.any_eq_true.mpr ⟨entry, hentry, ?_⟩
  have hcovered := hinv.covered entry hentry token htoken hid.symm
  simpa [hid] using Nat.lt_of_lt_of_le hlives hcovered

theorem tokensCovered_step (hsigned : place.Signed db)
    (hallowed : signsCovered settings db place input = true)
    (hinv : TokensCovered settings db log)
    (h : AccessStep settings db place input db' effects) :
    TokensCovered settings db' (log ++ effects) := by
  cases h with
  | frame _ _ _ _ hrevoked hsame hnow hclosed haccepted =>
      constructor
      · rw [hrevoked, hsame]
        exact hinv.covered
      · intro token htoken
        rw [hsame] at htoken
        exact Nat.le_trans (hinv.bounded token htoken) (Nat.add_le_add_right hnow _)
      · intro id hmem
        rw [hrevoked]
        rcases List.mem_append.mp hmem with hold | hnew
        · exact hinv.listed id hold
        · exact absurd hnew (hclosed id)
      · exact neverAccepted_append hinv.order haccepted
  | signed _ presented session mustChangePassword =>
      have hnew : ∀ entry ∈ db.revokedSessions, session.id = entry.sessionId →
          addSeconds db.now settings.accessTokenTtlSeconds ≤ entry.expiresAt := by
        intro entry hentry hid
        have hentry := List.all_eq_true.mp hallowed entry hentry
        simpa [hid] using hentry
      constructor
      · intro entry hentry token htoken hid
        rcases List.mem_append.mp htoken with hold | htoken
        · exact hinv.covered entry hentry token hold hid
        · rw [List.mem_singleton.mp htoken] at hid ⊢
          exact hnew entry hentry hid
      · intro token htoken
        rcases List.mem_append.mp htoken with hold | htoken
        · exact hinv.bounded token hold
        · rw [List.mem_singleton.mp htoken]
          exact Nat.le_refl _
      · intro id hmem
        refine hinv.listed id ?_
        simpa using hmem
      · exact neverAccepted_append hinv.order (by simp)
  | added _ sessionIds reuse =>
      constructor
      · intro entry hentry token htoken hid
        rw [addManyRevoked_signed] at htoken
        rcases mem_addManyRevoked hentry with hold | hnew
        · exact hinv.covered entry hold token htoken hid
        · rw [hnew]
          refine Nat.le_trans (hinv.bounded token htoken) ?_
          exact Nat.add_le_add_left (Nat.mul_le_mul_right _ (Nat.le_max_left _ _)) _
      · intro token htoken
        rw [addManyRevoked_signed] at htoken
        rw [addManyRevoked_now]
        exact hinv.bounded token htoken
      · intro id hmem
        apply listed_addManyRevoked
        rcases List.mem_append.mp hmem with hold | hnew
        · exact Or.inr (hinv.listed id hold)
        · split at hnew
          · cases hnew
          · exact Or.inl (by simpa using hnew)
      · refine neverAccepted_append hinv.order fun token hmem => ?_
        split at hmem
        · cases hmem
        · simp at hmem
  | accepted _ token hlive =>
      refine ⟨hinv.covered, hinv.bounded, ?_, ?_⟩
      · intro id hmem
        exact hinv.listed id (by simpa using hmem)
      · refine List.pairwise_append.mpr ⟨hinv.order, List.pairwise_singleton _ _, ?_⟩
        rintro _ hearlier _ hlater id accepted rfl rfl rfl
        cases List.mem_singleton.mp hlater
        have hlisted := hinv.listed _ hearlier
        rcases Bool.or_eq_true_iff.mp hallowed with hlives | hunlisted
        · rw [isRevoked_of_listed hinv hsigned (of_decide_eq_true hlives) hlisted] at hlive
          cases hlive
        · obtain ⟨entry, hentry, hid⟩ := hlisted
          exact of_decide_eq_true (List.all_eq_true.mp hunlisted entry hentry) hid

/-- No token of a closed session is accepted in a run whose tokens are signed
before their session is listed, and looked up before they expire. -/
theorem never_accepted_closed
    (h : ReachesBy (identityExec settings)
      (fun db place input => signsCovered settings db place input = true)
      emptyIdentity config log) :
    NeverAcceptedClosed log := by
  have hinv : TokensCovered settings config.store log ∧
      ∀ pid, (config.places pid).Signed config.store := by
    refine ReachesBy.invariant_of_places (G := TokensCovered settings)
      (L := fun db _ place => place.Signed db) ?_ ?_ ?_ ?_ h
    · constructor
      all_goals simp [emptyIdentity, NeverAcceptedClosed]
    · exact fun _ => trivial
    · intro config log pid input out before hinv hsigned hallowed hexec
      have hmove := identityMove_of_exec hexec
      exact ⟨tokensCovered_step (hsigned pid) hallowed hinv (accessStep_of_move hmove),
        signed_of_move (hsigned pid) hmove⟩
    · intro config log pid input out before hinv hsigned hallowed hexec other _
      have hstep := accessStep_of_move (identityMove_of_exec hexec)
      have hother := hsigned other
      cases hplace : config.places other with
      | checking token =>
          rw [hplace] at hother
          exact signed_step hstep hother
      | _ => trivial
  exact hinv.1.order

end Steps

namespace AccessWitness

open IdentityWitness (settings registered loggedIn)

/-- The access token of session 2, signed at the given moment. -/
def tokenSignedAt (moment : Timestamp) : AccessToken where
  userId := 0
  sessionId := 2
  mustChangePassword := false
  expiresAt := moment + 900000

/-- The token is accepted, the session is revoked, and the token is presented
again. -/
def closedAfterUse : Config IdentityDb IdentityPlace × List IdentityEffect :=
  endOfRun (identityExec settings) emptyIdentity
    (loggedIn ++ [(1, .authorize (tokenSignedAt 0)), (1, .proceed false),
      (2, .revokeSession 2 0), (2, .proceed false), (2, .proceed false),
      (2, .proceed false), (1, .authorize (tokenSignedAt 0)), (1, .proceed false)])
    (by decide +kernel)

theorem never_accepted_closed_afterUse : NeverAcceptedClosed closedAfterUse.2 :=
  never_accepted_closed
    (reachesBy_endOfRun (signsCovered settings) id (by decide +kernel) _)

/-- A login opens its session, a logout ends it and returns, and one second
later the login signs its token: it outlives the entry by that second. -/
def signedLate : Config IdentityDb IdentityPlace × List IdentityEffect :=
  endOfRun (identityExec settings) emptyIdentity
    (registered ++ [(0, .authenticate "ana@example.com" "secret" none none),
      (0, .proceed false), (0, .proceed false), (1, .logoutAll 0),
      (1, .proceed false), (1, .tick 1000), (0, .proceed false), (1, .tick 899500),
      (2, .authorize (tokenSignedAt 1000)), (2, .proceed false)])
    (by decide +kernel)

theorem reaches_signedLate : IdentityReaches settings signedLate.1 signedLate.2 :=
  reaches_endOfRun _

theorem closed_sometimes_accepted :
    ¬ ∀ settings config log, IdentityReaches settings config log →
      NeverAcceptedClosed log := by
  intro hall
  have hnever := hall settings signedLate.1 signedLate.2 reaches_signedLate
  have horder : [.closed 2, .accepted (tokenSignedAt 1000)].Sublist signedLate.2 := by
    decide +kernel
  have hclosed := List.rel_of_pairwise_cons (hnever.sublist horder)
    (List.mem_singleton_self _)
  exact hclosed 2 (tokenSignedAt 1000) rfl rfl rfl

end AccessWitness

end Identity

end Workshop
