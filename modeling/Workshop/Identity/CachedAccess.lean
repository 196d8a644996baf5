/-
What the cache forgets.  A call that begins after the invalidation of a role
change answers an access that the user had since the change, in a run that
caches nothing read before an invalidated change.
-/
import Workshop.Identity.AccessCache
import Workshop.Library.Recording

namespace Workshop

namespace Identity

abbrev AccessNow := Recorded AccessDb AccessEvent
abbrev AccessRequest := Recalled AccessDb AccessPlace AccessEvent

/-- The read of the tables is what a call remembers. -/
def AccessPlace.reads : AccessPlace → Bool
  | .missed .. => true
  | _ => false

/-- One statement of a request, which remembers the run up to its read. -/
def rememberingExec : AccessNow → AccessRequest → AccessInput →
    Option (Outcome AccessNow AccessRequest AccessEvent) :=
  recording AccessPlace.reads accessExec

/-- The changes of the roles of a user that committed. -/
def committedChanges (userId : UserId) (log : List AccessEvent) : List Nat :=
  log.filterMap fun
    | .changed change userId' _ => if userId' = userId then some change else none
    | _ => none

/-- The user had the access when the change had committed, or after a later
change. -/
def HadSince (log : List AccessEvent) (userId : UserId) (change : Nat)
    (access : EffectiveAccess) : Prop :=
  ∃ earlier later after, log = earlier ++ .changed change userId after :: later ∧
    (access = after ∨ ∃ other, AccessEvent.changed other userId access ∈ later)

/-- A call that begins after a change of its user committed and the
invalidation of the change ran answers an access of the time since, never the
one from before. -/
def AccessForgotten (log : List AccessEvent) : Prop :=
  ∀ call userId access, AccessEvent.answered call userId access ∈ log →
    ∀ earlier later, log = earlier ++ .called call userId :: later →
      ∀ change ∈ committedChanges userId earlier,
        AccessEvent.invalidated change userId ∈ earlier →
          HadSince log userId change access

/-- No access is cached once a change that committed after its read is
invalidated, and no registration whose invalidation ran already commits while
the access of its user is cached. -/
def forgetsInTime (now : AccessNow) (request : AccessRequest) (input : AccessInput) :
    Bool :=
  match request.place, input with
  | .caching _ userId _ _, .proceed =>
      (committedChanges userId now.log).all fun change =>
        decide (change ∈ committedChanges userId request.since.log) ||
          decide (AccessEvent.invalidated change userId ∉ now.log)
  | .committing change userId _, .proceed =>
      (now.store.cache userId).isNone ||
        decide (AccessEvent.invalidated change userId ∉ now.log)
  | _, _ => true

section Logs

variable {log effects earlier later : List AccessEvent} {userId : UserId}
variable {change other : Nat} {access : EffectiveAccess}

theorem mem_committedChanges : change ∈ committedChanges userId log ↔
    ∃ access, AccessEvent.changed change userId access ∈ log := by
  unfold committedChanges
  rw [List.mem_filterMap]
  constructor
  · rintro ⟨event, hevent, hchange⟩
    cases event with
    | changed change' userId' access =>
        dsimp only at hchange
        split at hchange
        · rename_i heq
          cases hchange
          exact ⟨access, heq ▸ hevent⟩
        · cases hchange
    | _ => cases hchange
  · rintro ⟨access, hevent⟩
    exact ⟨_, hevent, if_pos rfl⟩

theorem committedChanges_subset (h : log ⊆ effects) :
    committedChanges userId log ⊆ committedChanges userId effects := by
  intro change hchange
  obtain ⟨access, hevent⟩ := mem_committedChanges.mp hchange
  exact mem_committedChanges.mpr ⟨access, h hevent⟩

/-- An event that is no change of a role. -/
theorem committedChanges_append
    (h : ∀ change access, AccessEvent.changed change userId access ∉ effects) :
    committedChanges userId (log ++ effects) = committedChanges userId log := by
  have hnone : committedChanges userId effects = [] := by
    refine List.eq_nil_iff_forall_not_mem.mpr fun change hchange => ?_
    obtain ⟨access, hevent⟩ := mem_committedChanges.mp hchange
    exact h change access hevent
  unfold committedChanges at hnone ⊢
  rw [List.filterMap_append, hnone, List.append_nil]

theorem HadSince.append (h : HadSince log userId change access) :
    HadSince (log ++ effects) userId change access := by
  obtain ⟨earlier, later, after, rfl, haccess⟩ := h
  refine ⟨earlier, later ++ effects, after, by simp, haccess.imp_right ?_⟩
  rintro ⟨other, hother⟩
  exact ⟨other, List.mem_append_left _ hother⟩

/-- After a change the user has its access, since this change and since every
one before it. -/
theorem hadSince_changed (h : change ∈ committedChanges userId
      (log ++ [.changed other userId access])) :
    HadSince (log ++ [.changed other userId access]) userId change access := by
  obtain ⟨after, hafter⟩ := mem_committedChanges.mp h
  rcases List.mem_append.mp hafter with hold | hlast
  · obtain ⟨earlier, later, rfl⟩ := List.append_of_mem hold
    exact ⟨earlier, later ++ [.changed other userId access], after, by simp,
      Or.inr ⟨other, List.mem_append_right _ List.mem_cons_self⟩⟩
  · rw [List.mem_singleton, AccessEvent.changed.injEq] at hlast
    obtain ⟨rfl, -, rfl⟩ := hlast
    exact ⟨log, [], after, rfl, Or.inl rfl⟩

/-- An event that is not among the last ones splits the log before them. -/
theorem split_of_append {event : AccessEvent} (hnew : event ∉ effects)
    (h : log ++ effects = earlier ++ event :: later) :
    ∃ later', log = earlier ++ event :: later' := by
  rcases List.append_eq_append_iff.mp h with ⟨middle, -, heffects⟩ | ⟨middle, hlog, hrest⟩
  · refine absurd ?_ hnew
    rw [heffects]
    exact List.mem_append_right _ List.mem_cons_self
  · cases middle with
    | nil =>
        rw [List.nil_append] at hrest
        exact absurd (hrest ▸ List.mem_cons_self) hnew
    | cons first middle =>
        rw [List.cons_append, List.cons.injEq] at hrest
        obtain ⟨rfl, -⟩ := hrest
        exact ⟨middle, hlog⟩

/-- New answers that are right, and no new call under an old number. -/
theorem AccessForgotten.append (h : AccessForgotten log)
    (hcalls : ∀ call userId access, AccessEvent.answered call userId access ∈ log →
      AccessEvent.called call userId ∉ effects)
    (hanswers : ∀ call userId access,
      AccessEvent.answered call userId access ∈ effects →
      ∀ earlier later, log ++ effects = earlier ++ .called call userId :: later →
        ∀ change ∈ committedChanges userId earlier,
          AccessEvent.invalidated change userId ∈ earlier →
            HadSince log userId change access) :
    AccessForgotten (log ++ effects) := by
  intro call userId access hanswered earlier later hsplit change hchange hinvalidated
  rcases List.mem_append.mp hanswered with hold | hadded
  · obtain ⟨later', hlog⟩ := split_of_append (hcalls call userId access hold) hsplit
    exact (h call userId access hold earlier later' hlog change hchange
      hinvalidated).append
  · exact (hanswers call userId access hadded earlier later hsplit change hchange
      hinvalidated).append

end Logs

section Tables

variable {db : AccessDb} {userId other : UserId} {roleId : Nat}

theorem read_congr {db' : AccessDb} (hroles : db'.roleDb = db.roleDb)
    (hids : db'.roleIdsOf userId = db.roleIdsOf userId) :
    db'.read userId = db.read userId := by
  unfold AccessDb.read
  rw [hroles, hids]

/-- A new row of a user is no row of another. -/
theorem roleIdsOf_assign (hne : other ≠ userId) :
    (db.assign userId roleId).roleIdsOf other = db.roleIdsOf other := by
  unfold AccessDb.assign
  split
  · rfl
  · unfold AccessDb.roleIdsOf
    rw [List.filter_append]
    simp [Ne.symm hne]

theorem roleIdsOf_remove (hne : other ≠ userId) :
    (db.remove userId roleId).roleIdsOf other = db.roleIdsOf other := by
  unfold AccessDb.remove AccessDb.roleIdsOf
  rw [List.filter_filter]
  congr 1
  refine List.filter_congr fun row _ => ?_
  by_cases heq : row.userId = other
  · have hrow : row ≠ ⟨userId, roleId⟩ := by
      rintro rfl
      exact hne heq.symm
    simp [heq, hrow]
  · simp [heq]

theorem roleIdsOf_register (hne : other ≠ userId) :
    ({ db with users := db.users ++ [userId] } : AccessDb).roleIdsOf other =
      db.roleIdsOf other := by
  unfold AccessDb.roleIdsOf
  congr 1
  refine List.filter_congr fun row _ => ?_
  simp [hne]

end Tables

/-- A place that keeps the number of a call or of a change. -/
def AccessPlace.carries : AccessPlace → Bool
  | .missed .. => true
  | .caching .. => true
  | .publishing .. => true
  | .committing .. => true
  | _ => false

/-- Only the roles of one user may differ. -/
structure ChangesOnly (userId : UserId) (db store : AccessDb) : Prop where
  read : ∀ other, other ≠ userId → store.read other = db.read other
  cache : store.cache = db.cache
  started : store.started = db.started
  nextCall : store.nextCall = db.nextCall

/-- No access is another, and the cache holds nothing new. -/
structure KeepsAccess (db store : AccessDb) : Prop where
  read : ∀ userId, store.read userId = db.read userId
  cache : ∀ userId, store.cache userId = db.cache userId ∨ store.cache userId = none
  started : ∀ invalidation ∈ store.started, invalidation ∈ db.started
  nextCall : store.nextCall = db.nextCall
  nextChange : store.nextChange = db.nextChange

/-- What one statement of a request does. -/
inductive AccessMove (db : AccessDb) :
    AccessPlace → AccessInput → AccessOutcome → Prop
  | quiet (place : AccessPlace) (input : AccessInput) (store : AccessDb)
      (next : AccessPlace) (hkeeps : KeepsAccess db store)
      (hplace : next.carries = false) :
      AccessMove db place input { store, place := next }
  | hit (place : AccessPlace) (input : AccessInput) (userId : UserId)
      (access : EffectiveAccess) (next : AccessPlace)
      (hcached : db.cache userId = some access) (hplace : next.carries = false) :
      AccessMove db place input {
        store := { db with nextCall := db.nextCall + 1 }, place := next
        effects := [.called db.nextCall userId,
          .answered db.nextCall userId access] }
  | missed (place : AccessPlace) (input : AccessInput) (userId : UserId)
      (purpose : Purpose) :
      AccessMove db place input {
        store := { db with nextCall := db.nextCall + 1 }
        place := .missed db.nextCall userId purpose
        effects := [.called db.nextCall userId] }
  | read (input : AccessInput) (call : Nat) (userId : UserId) (purpose : Purpose) :
      AccessMove db (.missed call userId purpose) input {
        store := db, place := .caching call userId (db.read userId) purpose }
  | stored (call : Nat) (userId : UserId) (access : EffectiveAccess)
      (purpose : Purpose) :
      AccessMove db (.caching call userId access purpose) .proceed {
        store := db.setCache userId (some access), place := afterAccess access purpose
        effects := [.answered call userId access] }
  | changed (place : AccessPlace) (input : AccessInput) (userId : UserId)
      (store : AccessDb) (honly : ChangesOnly userId db store)
      (hnext : store.nextChange = db.nextChange + 1) :
      AccessMove db place input {
        store, place := .publishing db.nextChange userId
        effects := [.changed db.nextChange userId (store.read userId)] }
  | published (input : AccessInput) (change : Nat) (userId : UserId) :
      AccessMove db (.publishing change userId) input {
        store := { db with started := db.started ++ [⟨change, userId⟩] }
        place := .idle }
  | registered (input : AccessInput) (userId : UserId) (roleId : Nat) :
      AccessMove db (.registering userId roleId) input {
        store := { db with
          started := db.started ++ [⟨db.nextChange, userId⟩]
          nextChange := db.nextChange + 1 }
        place := .committing db.nextChange userId roleId }
  | committed (change : Nat) (userId : UserId) (roleId : Nat) (store : AccessDb)
      (honly : ChangesOnly userId db store)
      (hnext : store.nextChange = db.nextChange) :
      AccessMove db (.committing change userId roleId) .proceed {
        store, place := .idle
        effects := [.changed change userId (store.read userId)] }
  | invalidated (place : AccessPlace) (input : AccessInput)
      (invalidation : Invalidation) (hstarted : invalidation ∈ db.started) :
      AccessMove db place input {
        store := { db.setCache invalidation.userId none with
          started := db.started.erase invalidation }
        place := .idle
        effects := [.invalidated invalidation.change invalidation.userId] }

section Moves

variable {db : AccessDb} {place : AccessPlace} {input : AccessInput}
variable {out : AccessOutcome} {userId : UserId} {access : EffectiveAccess}
variable {purpose : Purpose} {next : AccessPlace}

@[simp] theorem afterAccess_carries : (afterAccess access purpose).carries = false := by
  cases purpose with
  | answer => rfl
  | authorise userId roleId =>
      simp only [afterAccess]
      split <;> rfl

theorem setCache_none (other : UserId) :
    (db.setCache userId none).cache other = db.cache other ∨
      (db.setCache userId none).cache other = none := by
  by_cases heq : other = userId
  · subst heq
    exact Or.inr (Function.update_self ..)
  · exact Or.inl (Function.update_of_ne heq ..)

theorem keepsAccess_refl : KeepsAccess db db :=
  ⟨fun _ => rfl, fun _ => Or.inl rfl, fun _ h => h, rfl, rfl⟩

theorem accessMove_still (hplace : next.carries = false) :
    AccessMove db place input { store := db, place := next } :=
  AccessMove.quiet _ _ _ _ keepsAccess_refl hplace

theorem accessMove_of_call :
    AccessMove db place input (getEffectiveAccess db userId purpose) := by
  unfold getEffectiveAccess
  dsimp only
  split
  · rename_i access hcached
    exact AccessMove.hit _ _ _ _ _ hcached afterAccess_carries
  · exact AccessMove.missed _ _ _ _

theorem assignRoleToUser_carries {reference : RoleReference}
    {actorUserId : Option UserId} :
    (assignRoleToUser db userId reference actorUserId).carries = false := by
  unfold assignRoleToUser
  repeat' split
  all_goals rfl

theorem changesOnly_assign {roleId : Nat} {nextChange : Nat} :
    ChangesOnly userId db { db.assign userId roleId with nextChange } := by
  have hroles : (db.assign userId roleId).roleDb = db.roleDb ∧
      (db.assign userId roleId).cache = db.cache ∧
      (db.assign userId roleId).started = db.started ∧
      (db.assign userId roleId).nextCall = db.nextCall := by
    unfold AccessDb.assign
    split <;> exact ⟨rfl, rfl, rfl, rfl⟩
  refine ⟨fun other hne => ?_, hroles.2.1, hroles.2.2.1, hroles.2.2.2⟩
  exact read_congr hroles.1 (roleIdsOf_assign hne)

theorem changesOnly_remove {roleId : Nat} {nextChange : Nat} :
    ChangesOnly userId db { db.remove userId roleId with nextChange } := by
  refine ⟨fun other hne => ?_, rfl, rfl, rfl⟩
  have hids : (db.remove userId roleId).roleIdsOf other = db.roleIdsOf other :=
    roleIdsOf_remove hne
  exact read_congr rfl hids

/-- The rows of a registration: the user and the default role. -/
theorem changesOnly_register {roleId : Nat} :
    ChangesOnly userId db
      ({ db with users := db.users ++ [userId] }.assign userId roleId) := by
  have hassign : ChangesOnly userId { db with users := db.users ++ [userId] }
      ({ db with users := db.users ++ [userId] }.assign userId roleId) :=
    changesOnly_assign
  refine ⟨fun other hne => ?_, hassign.cache, hassign.started, hassign.nextCall⟩
  rw [hassign.read other hne]
  exact read_congr rfl (roleIdsOf_register hne)

theorem assign_nextChange {roleId : Nat} :
    (db.assign userId roleId).nextChange = db.nextChange := by
  unfold AccessDb.assign
  split <;> rfl

theorem accessMove_of_exec (hexec : accessExec db place input = some out) :
    AccessMove db place input out := by
  unfold accessExec at hexec
  split at hexec
  case h_1 userId =>
    cases hexec
    exact accessMove_of_call
  case h_2 userId role actorUserId =>
    cases hexec
    exact accessMove_still assignRoleToUser_carries
  case h_3 userId roleId =>
    cases hexec
    refine accessMove_still ?_
    repeat' split
    all_goals rfl
  case h_4 userId =>
    cases hexec
    refine accessMove_still ?_
    repeat' split
    all_goals rfl
  case h_5 invalidation =>
    split at hexec
    · rename_i hstarted
      cases hexec
      exact AccessMove.invalidated _ _ _ hstarted
    · cases hexec
  case h_6 invalidation =>
    cases hexec
    refine AccessMove.quiet _ _ _ _ ⟨fun _ => rfl, fun _ => Or.inl rfl, ?_, rfl, rfl⟩ rfl
    exact fun _ hmem => List.mem_of_mem_erase hmem
  case h_7 userId =>
    cases hexec
    exact AccessMove.quiet _ _ _ _
      ⟨fun _ => rfl, setCache_none, fun _ h => h, rfl, rfl⟩ rfl
  case h_8 userId purpose =>
    cases hexec
    exact accessMove_of_call
  case h_9 call userId purpose =>
    cases hexec
    exact AccessMove.read _ _ _ _
  case h_10 call userId access purpose =>
    cases hexec
    exact AccessMove.stored _ _ _ _
  case h_11 userId roleId =>
    cases hexec
    refine accessMove_still ?_
    split <;> rfl
  case h_12 userId roleId =>
    cases hexec
    exact AccessMove.changed _ _ _ _ changesOnly_assign rfl
  case h_13 userId roleId =>
    split at hexec
    · cases hexec
      exact AccessMove.changed _ _ _ _ changesOnly_remove rfl
    · cases hexec
      exact accessMove_still rfl
  case h_14 change userId =>
    cases hexec
    exact AccessMove.published _ _ _
  case h_15 userId roleId =>
    cases hexec
    exact AccessMove.registered _ _ _
  case h_16 change userId roleId =>
    split at hexec
    · cases hexec
      exact accessMove_still rfl
    · cases hexec
      exact AccessMove.committed _ _ _ _ changesOnly_register assign_nextChange
  case h_17 =>
    cases hexec
    exact accessMove_still rfl
  case h_18 => cases hexec

end Moves

/-- What the log, the cache and the tables have to do with each other. -/
structure AccessInv (now : AccessNow) : Prop where
  called : ∀ call userId, AccessEvent.called call userId ∈ now.log →
    call < now.store.nextCall
  answered : ∀ call userId access, AccessEvent.answered call userId access ∈ now.log →
    call < now.store.nextCall
  invalidated : ∀ change userId, AccessEvent.invalidated change userId ∈ now.log →
    change < now.store.nextChange
  started : ∀ invalidation ∈ now.store.started,
    invalidation.change < now.store.nextChange
  current : ∀ userId, ∀ change ∈ committedChanges userId now.log,
    HadSince now.log userId change (now.store.read userId)
  fresh : ∀ userId access, now.store.cache userId = some access →
    ∀ change ∈ committedChanges userId now.log,
      AccessEvent.invalidated change userId ∈ now.log →
        HadSince now.log userId change access
  forgotten : AccessForgotten now.log

/-- What a request knows between two statements. -/
def AccessRequest.Holds (now : AccessNow) (request : AccessRequest) : Prop :=
  match request.place with
  | .missed call _ _ => call < now.store.nextCall
  | .caching call userId access _ =>
      call < now.store.nextCall ∧
        (∀ change ∈ committedChanges userId request.since.log,
          HadSince now.log userId change access) ∧
        ∀ earlier later, now.log = earlier ++ .called call userId :: later →
          committedChanges userId earlier ⊆ committedChanges userId request.since.log
  | .publishing change _ => change < now.store.nextChange
  | .committing change _ _ => change < now.store.nextChange
  | _ => True

section Invariant

variable {db : AccessDb} {log : List AccessEvent} {userId : UserId}
variable {place : AccessPlace} {input : AccessInput} {out : AccessOutcome}
variable {request : AccessRequest}

/-- The numbers only grow, and a call takes the next one. -/
theorem numbers_of_move (h : AccessMove db place input out) :
    db.nextCall ≤ out.store.nextCall ∧ db.nextChange ≤ out.store.nextChange ∧
      ∀ call userId, AccessEvent.called call userId ∈ out.effects →
        call = db.nextCall := by
  cases h with
  | quiet _ _ store next hkeeps hplace =>
      exact ⟨hkeeps.nextCall.ge, hkeeps.nextChange.ge, nofun⟩
  | hit _ _ userId access next hcached hplace =>
      refine ⟨Nat.le_succ _, Nat.le_refl _, fun call other hcalled => ?_⟩
      simp only [List.mem_cons, reduceCtorEq, AccessEvent.called.injEq,
        List.not_mem_nil, or_false] at hcalled
      exact hcalled.1
  | missed _ _ userId purpose =>
      refine ⟨Nat.le_succ _, Nat.le_refl _, fun call other hcalled => ?_⟩
      rw [List.mem_singleton, AccessEvent.called.injEq] at hcalled
      exact hcalled.1
  | read => exact ⟨Nat.le_refl _, Nat.le_refl _, nofun⟩
  | stored => exact ⟨Nat.le_refl _, Nat.le_refl _, by simp⟩
  | changed _ _ userId store honly hnext =>
      refine ⟨honly.nextCall.ge, ?_, by simp⟩
      rw [hnext]
      exact Nat.le_succ _
  | published => exact ⟨Nat.le_refl _, Nat.le_refl _, nofun⟩
  | registered => exact ⟨Nat.le_refl _, Nat.le_succ _, nofun⟩
  | committed change userId roleId store honly hnext =>
      exact ⟨honly.nextCall.ge, hnext.ge, by simp⟩
  | invalidated => exact ⟨Nat.le_refl _, Nat.le_refl _, by simp⟩

/-- What a request knows survives the statements of the others. -/
theorem AccessRequest.Holds.mono (hmove : AccessMove db place input out)
    (h : request.Holds ⟨db, log⟩) : request.Holds ⟨out.store, log ++ out.effects⟩ := by
  obtain ⟨hcalls, hchanges, hfresh⟩ := numbers_of_move hmove
  obtain ⟨held, since⟩ := request
  cases held with
  | missed call userId purpose => exact Nat.lt_of_lt_of_le h hcalls
  | caching call userId access purpose =>
      refine ⟨Nat.lt_of_lt_of_le h.1 hcalls, fun change hchange => ?_, ?_⟩
      · exact (h.2.1 change hchange).append
      · intro earlier later hsplit
        have hold : AccessEvent.called call userId ∉ out.effects := by
          intro hcalled
          have hlt : call < db.nextCall := h.1
          rw [hfresh call userId hcalled] at hlt
          exact Nat.lt_irrefl _ hlt
        obtain ⟨later', hlog⟩ := split_of_append hold hsplit
        exact h.2.2 earlier later' hlog
  | publishing change userId => exact Nat.lt_of_lt_of_le h hchanges
  | committing change userId roleId => exact Nat.lt_of_lt_of_le h hchanges
  | _ => trivial

/-- A statement that tells nobody anything. -/
theorem AccessInv.quiet (hinv : AccessInv ⟨db, log⟩) {store : AccessDb}
    (hkeeps : KeepsAccess db store) : AccessInv ⟨store, log⟩ := by
  constructor
  · rw [hkeeps.nextCall]
    exact hinv.called
  · rw [hkeeps.nextCall]
    exact hinv.answered
  · rw [hkeeps.nextChange]
    exact hinv.invalidated
  · intro invalidation hmem
    rw [hkeeps.nextChange]
    exact hinv.started invalidation (hkeeps.started invalidation hmem)
  · intro userId change hchange
    rw [hkeeps.read]
    exact hinv.current userId change hchange
  · intro userId access hcached
    rcases hkeeps.cache userId with hsame | hnone
    · rw [hsame] at hcached
      exact hinv.fresh userId access hcached
    · rw [hnone] at hcached
      cases hcached
  · exact hinv.forgotten

/-- A call begins. -/
theorem AccessInv.call (hinv : AccessInv ⟨db, log⟩) (userId : UserId) :
    AccessInv ⟨{ db with nextCall := db.nextCall + 1 },
      log ++ [.called db.nextCall userId]⟩ := by
  have hchanges : ∀ userId', committedChanges userId'
      (log ++ [AccessEvent.called db.nextCall userId]) = committedChanges userId' log :=
    fun _ => committedChanges_append (by simp)
  constructor
  · intro call userId' hcalled
    rcases List.mem_append.mp hcalled with hold | hnew
    · exact Nat.lt_succ_of_lt (hinv.called call userId' hold)
    · rw [List.mem_singleton, AccessEvent.called.injEq] at hnew
      rw [hnew.1]
      exact Nat.lt_succ_self _
  · intro call userId' access hanswered
    exact Nat.lt_succ_of_lt (hinv.answered call userId' access (by simpa using hanswered))
  · intro change userId' hinvalidated
    exact hinv.invalidated change userId' (by simpa using hinvalidated)
  · exact hinv.started
  · intro userId' change hchange
    rw [hchanges] at hchange
    exact (hinv.current userId' change hchange).append
  · intro userId' access hcached change hchange hinvalidated
    rw [hchanges] at hchange
    exact (hinv.fresh userId' access hcached change hchange
      (by simpa using hinvalidated)).append
  · refine hinv.forgotten.append (fun call userId' access hanswered hcalled => ?_)
      (by simp)
    have hlt : call < db.nextCall := hinv.answered call userId' access hanswered
    rw [List.mem_singleton, AccessEvent.called.injEq] at hcalled
    rw [hcalled.1] at hlt
    exact Nat.lt_irrefl _ hlt

/-- A call answers an access of the time since every change that was invalidated
before it began. -/
theorem AccessInv.answer (hinv : AccessInv ⟨db, log⟩) {call : Nat}
    {access : EffectiveAccess} (hcall : call < db.nextCall)
    (hsince : ∀ earlier later, log = earlier ++ .called call userId :: later →
      ∀ change ∈ committedChanges userId earlier,
        AccessEvent.invalidated change userId ∈ earlier →
          HadSince log userId change access) :
    AccessInv ⟨db, log ++ [.answered call userId access]⟩ := by
  have hchanges : ∀ userId', committedChanges userId'
      (log ++ [AccessEvent.answered call userId access]) =
        committedChanges userId' log :=
    fun _ => committedChanges_append (by simp)
  constructor
  · intro other userId' hcalled
    exact hinv.called other userId' (by simpa using hcalled)
  · intro other userId' access' hanswered
    rcases List.mem_append.mp hanswered with hold | hnew
    · exact hinv.answered other userId' access' hold
    · rw [List.mem_singleton, AccessEvent.answered.injEq] at hnew
      rw [hnew.1]
      exact hcall
  · intro change userId' hinvalidated
    exact hinv.invalidated change userId' (by simpa using hinvalidated)
  · exact hinv.started
  · intro userId' change hchange
    rw [hchanges] at hchange
    exact (hinv.current userId' change hchange).append
  · intro userId' access' hcached change hchange hinvalidated
    rw [hchanges] at hchange
    exact (hinv.fresh userId' access' hcached change hchange
      (by simpa using hinvalidated)).append
  · refine hinv.forgotten.append (by simp) ?_
    intro other userId' access' hanswered earlier later hsplit
    rw [List.mem_singleton, AccessEvent.answered.injEq] at hanswered
    obtain ⟨rfl, rfl, rfl⟩ := hanswered
    obtain ⟨later', hlog⟩ := split_of_append (by simp) hsplit
    exact hsince earlier later' hlog

/-- The cache takes an access of the time since every invalidated change. -/
theorem AccessInv.cache (hinv : AccessInv ⟨db, log⟩) {access : EffectiveAccess}
    (hfresh : ∀ change ∈ committedChanges userId log,
      AccessEvent.invalidated change userId ∈ log →
        HadSince log userId change access) :
    AccessInv ⟨db.setCache userId (some access), log⟩ := by
  refine ⟨hinv.called, hinv.answered, hinv.invalidated, hinv.started, hinv.current, ?_,
    hinv.forgotten⟩
  intro userId' access' hcached
  by_cases heq : userId' = userId
  · subst heq
    have haccess : (db.setCache userId' (some access)).cache userId' = some access :=
      Function.update_self ..
    rw [haccess, Option.some.injEq] at hcached
    subst hcached
    exact hfresh
  · refine hinv.fresh userId' access' ?_
    rw [← hcached]
    exact (Function.update_of_ne heq ..).symm

/-- A change of the roles of a user commits, and its invalidation has not run
or there is nothing to forget. -/
theorem AccessInv.change (hinv : AccessInv ⟨db, log⟩) {store : AccessDb} {change : Nat}
    (honly : ChangesOnly userId db store) (hnext : db.nextChange ≤ store.nextChange)
    (hforgets : db.cache userId = none ∨
      AccessEvent.invalidated change userId ∉ log) :
    AccessInv ⟨store, log ++ [.changed change userId (store.read userId)]⟩ := by
  have hchanges : ∀ userId', userId' ≠ userId → committedChanges userId'
      (log ++ [AccessEvent.changed change userId (store.read userId)]) =
        committedChanges userId' log :=
    fun userId' hne => committedChanges_append (by simp [hne])
  constructor
  · intro call userId' hcalled
    rw [honly.nextCall]
    exact hinv.called call userId' (by simpa using hcalled)
  · intro call userId' access hanswered
    rw [honly.nextCall]
    exact hinv.answered call userId' access (by simpa using hanswered)
  · intro other userId' hinvalidated
    exact Nat.lt_of_lt_of_le
      (hinv.invalidated other userId' (by simpa using hinvalidated)) hnext
  · intro invalidation hmem
    rw [honly.started] at hmem
    exact Nat.lt_of_lt_of_le (hinv.started invalidation hmem) hnext
  · intro userId' other hother
    by_cases heq : userId' = userId
    · subst heq
      exact hadSince_changed hother
    · rw [hchanges userId' heq] at hother
      rw [honly.read userId' heq]
      exact (hinv.current userId' other hother).append
  · intro userId' access hcached other hother hinvalidated
    rw [honly.cache] at hcached
    have hran : AccessEvent.invalidated other userId' ∈ log := by
      simpa using hinvalidated
    refine (hinv.fresh userId' access hcached other ?_ hran).append
    by_cases heq : userId' = userId
    · subst heq
      obtain ⟨after, hafter⟩ := mem_committedChanges.mp hother
      rcases List.mem_append.mp hafter with hold | hnew
      · exact mem_committedChanges.mpr ⟨after, hold⟩
      · -- the change itself: its invalidation did not run, or nothing is cached
        rw [List.mem_singleton, AccessEvent.changed.injEq] at hnew
        rw [hnew.1] at hran
        rcases hforgets with hnone | hnot
        · rw [hnone] at hcached
          cases hcached
        · exact absurd hran hnot
    · rw [hchanges userId' heq] at hother
      exact hother
  · exact hinv.forgotten.append (by simp) (by simp)

/-- A change starts an invalidation. -/
theorem AccessInv.start (hinv : AccessInv ⟨db, log⟩) {change nextChange : Nat}
    (hchange : change < nextChange) (hle : db.nextChange ≤ nextChange) :
    AccessInv ⟨{ db with
      started := db.started ++ [⟨change, userId⟩], nextChange }, log⟩ := by
  refine ⟨hinv.called, hinv.answered, ?_, ?_, hinv.current, hinv.fresh,
    hinv.forgotten⟩
  · intro other userId' hinvalidated
    exact Nat.lt_of_lt_of_le (hinv.invalidated other userId' hinvalidated) hle
  · intro invalidation hmem
    rcases List.mem_append.mp hmem with hold | hnew
    · exact Nat.lt_of_lt_of_le (hinv.started invalidation hold) hle
    · rw [List.mem_singleton.mp hnew]
      exact hchange

/-- An invalidation empties the cache of its user. -/
theorem AccessInv.invalidate (hinv : AccessInv ⟨db, log⟩) {invalidation : Invalidation}
    (hstarted : invalidation ∈ db.started) :
    AccessInv ⟨{ db.setCache invalidation.userId none with
      started := db.started.erase invalidation },
      log ++ [.invalidated invalidation.change invalidation.userId]⟩ := by
  have hchanges : ∀ userId', committedChanges userId'
      (log ++ [AccessEvent.invalidated invalidation.change invalidation.userId]) =
        committedChanges userId' log :=
    fun _ => committedChanges_append (by simp)
  constructor
  · intro call userId' hcalled
    exact hinv.called call userId' (by simpa using hcalled)
  · intro call userId' access hanswered
    exact hinv.answered call userId' access (by simpa using hanswered)
  · intro change userId' hinvalidated
    rcases List.mem_append.mp hinvalidated with hold | hnew
    · exact hinv.invalidated change userId' hold
    · rw [List.mem_singleton, AccessEvent.invalidated.injEq] at hnew
      rw [hnew.1]
      exact hinv.started invalidation hstarted
  · exact fun other hmem => hinv.started other (List.mem_of_mem_erase hmem)
  · intro userId' change hchange
    rw [hchanges] at hchange
    exact (hinv.current userId' change hchange).append
  · intro userId' access hcached change hchange hinvalidated
    rw [hchanges] at hchange
    by_cases heq : userId' = invalidation.userId
    · have hnone : (db.setCache invalidation.userId none).cache userId' = none := by
        rw [heq]
        exact Function.update_self ..
      rw [hnone] at hcached
      cases hcached
    · have hsame : (db.setCache invalidation.userId none).cache userId' =
          db.cache userId' := Function.update_of_ne heq ..
      rw [hsame] at hcached
      refine (hinv.fresh userId' access hcached change hchange ?_).append
      simpa [heq] using hinvalidated
  · exact hinv.forgotten.append (by simp) (by simp)

/-- The place of a request after one of its statements, with what it
remembers. -/
def AccessRequest.next (now : AccessNow) (request : AccessRequest)
    (place : AccessPlace) : AccessRequest :=
  ⟨place, if request.place.reads then now else request.since⟩

/-- A statement keeps the invariant and what its own request knows. -/
theorem accessInv_step (hinv : AccessInv ⟨db, log⟩) (hrequest : request.Holds ⟨db, log⟩)
    (hallowed : forgetsInTime ⟨db, log⟩ request input = true)
    (hmove : AccessMove db request.place input out) :
    AccessInv ⟨out.store, log ++ out.effects⟩ ∧
      (request.next ⟨db, log⟩ out.place).Holds ⟨out.store, log ++ out.effects⟩ := by
  have hsimple : ∀ {now : AccessNow} {next : AccessPlace}, next.carries = false →
      (request.next ⟨db, log⟩ next).Holds now := by
    intro now next hplace
    cases next with
    | missed | caching | publishing | committing => cases hplace
    | _ => trivial
  obtain ⟨place, since⟩ := request
  cases hmove with
  | quiet _ _ store next hkeeps hplace =>
      rw [List.append_nil]
      exact ⟨hinv.quiet hkeeps, hsimple hplace⟩
  | hit _ _ userId access next hcached hplace =>
      refine ⟨?_, hsimple hplace⟩
      have hcall := hinv.call userId
      rw [List.append_cons]
      refine hcall.answer (Nat.lt_succ_self _) ?_
      intro earlier later hsplit change hchange hinvalidated
      -- the call is new, so the log before it is the log so far
      obtain rfl : earlier = log := by
        have hnew : AccessEvent.called db.nextCall userId ∉ log := fun hold =>
          Nat.lt_irrefl _ (hinv.called _ _ hold)
        rcases List.append_eq_append_iff.mp hsplit with
          ⟨middle, hearlier, hrest⟩ | ⟨middle, hlog, hrest⟩
        · cases middle with
          | nil => rw [hearlier, List.append_nil]
          | cons first middle => simp at hrest
        · cases middle with
          | nil => rw [hlog, List.append_nil]
          | cons first middle =>
              rw [List.cons_append, List.cons.injEq] at hrest
              refine absurd ?_ hnew
              rw [hlog, hrest.1]
              exact List.mem_append_right _ List.mem_cons_self
      exact (hinv.fresh userId access hcached change hchange hinvalidated).append
  | missed _ _ userId purpose => exact ⟨hinv.call userId, Nat.lt_succ_self _⟩
  | read _ call userId purpose =>
      rw [List.append_nil]
      refine ⟨hinv, hrequest, hinv.current userId, ?_⟩
      intro earlier later hsplit
      have hlog : log = earlier ++ .called call userId :: later := hsplit
      refine committedChanges_subset ?_
      rw [hlog]
      exact List.subset_append_left _ _
  | stored call userId access purpose =>
      obtain ⟨hcall, hsince, hearlier⟩ := hrequest
      refine ⟨?_, hsimple afterAccess_carries⟩
      have hcached : AccessInv ⟨db.setCache userId (some access), log⟩ := by
        refine hinv.cache fun change hchange hinvalidated => hsince change ?_
        have hchecked := List.all_eq_true.mp hallowed change hchange
        rcases Bool.or_eq_true_iff.mp hchecked with hread | hnot
        · exact of_decide_eq_true hread
        · exact absurd hinvalidated (of_decide_eq_true hnot)
      refine hcached.answer hcall ?_
      intro earlier later hsplit change hchange hinvalidated
      exact hsince change (hearlier earlier later hsplit hchange)
  | changed _ _ userId store honly hnext =>
      have hle : db.nextChange ≤ store.nextChange := by omega
      refine ⟨hinv.change honly hle (Or.inr fun hran => ?_), ?_⟩
      · exact Nat.lt_irrefl _ (hinv.invalidated _ _ hran)
      · have hlt : db.nextChange < store.nextChange := by omega
        exact hlt
  | published _ change userId =>
      rw [List.append_nil]
      exact ⟨hinv.start hrequest (Nat.le_refl _), trivial⟩
  | registered _ userId roleId =>
      rw [List.append_nil]
      exact ⟨hinv.start (Nat.lt_succ_self _) (Nat.le_succ _), Nat.lt_succ_self _⟩
  | committed change userId roleId store honly hnext =>
      refine ⟨hinv.change honly hnext.ge ?_, trivial⟩
      rcases Bool.or_eq_true_iff.mp hallowed with hnone | hnot
      · exact Or.inl (Option.isNone_iff_eq_none.mp hnone)
      · exact Or.inr (of_decide_eq_true hnot)
  | invalidated _ _ invalidation hstarted =>
      exact ⟨hinv.invalidate hstarted, trivial⟩

variable {roleDb : RoleDb} {config : Config AccessNow AccessRequest}

theorem accessInv_of_reaches
    (h : ReachesBy rememberingExec
      (fun now request input => forgetsInTime now request input = true)
      (emptyAccess roleDb).record config log) :
    AccessInv config.store := by
  refine (ReachesBy.invariant_of_places (G := fun now _ => AccessInv now)
    (L := fun now _ request => request.Holds now) ?_ ?_ ?_ ?_ h).1
  · constructor
    all_goals simp [Config.record, emptyAccess, committedChanges, AccessForgotten]
  · exact fun _ => trivial
  · intro config log pid input out before hinv hplaces hallowed hexec
    obtain ⟨plain, hplain, rfl⟩ := recording_eq_some.mp hexec
    exact accessInv_step hinv (hplaces pid) hallowed (accessMove_of_exec hplain)
  · intro config log pid input out before hinv hplaces hallowed hexec other hne
    obtain ⟨plain, hplain, rfl⟩ := recording_eq_some.mp hexec
    exact (hplaces other).mono (accessMove_of_exec hplain)

/-- The cache forgets what was revoked in a run that caches nothing read before
an invalidated change. -/
theorem access_forgotten
    (h : ReachesBy rememberingExec
      (fun now request input => forgetsInTime now request input = true)
      (emptyAccess roleDb).record config log) :
    AccessForgotten log := by
  have hplain : Reaches accessExec (emptyAccess roleDb) config.forget log ∧
      config.store.log = log := ReachesBy.forget (fun _ => trivial) h
  rw [← hplain.2]
  exact (accessInv_of_reaches h).forgotten

end Invariant

namespace AccessWitness

/-- The default role and a role with a permission. -/
def roleDb : RoleDb where
  roles := [⟨1, 201, "CUSTOMER", none, true, 0, 0⟩,
    ⟨2, 202, "MECHANIC", none, true, 0, 0⟩]
  rolePermissions := [⟨2, 1⟩]
  permissions := {
    rows := [⟨1, 101, "work-orders:execute"⟩]
    ids := by decide
    externalIds := by decide
    codes := by decide }
  nextId := 300
  nextKey := 3

/-- User 7 is registered and becomes a mechanic; both invalidations run. -/
def mechanic : List (Nat × AccessInput) :=
  [(0, .registerUser 7), (0, .proceed), (0, .proceed), (0, .invalidate ⟨0, 7⟩),
    (1, .assignRoleToUser 7 (.name "MECHANIC") none), (1, .proceed), (1, .proceed),
    (1, .proceed), (1, .invalidate ⟨1, 7⟩)]

/-- The access is cached, the role is revoked and the cache forgets. -/
def oneAfterAnother : Config AccessNow AccessRequest × List AccessEvent :=
  endOfRun rememberingExec (emptyAccess roleDb).record
    (mechanic ++ [(2, .getEffectiveAccess 7), (2, .proceed), (2, .proceed),
      (1, .revokeRoleFromUser 7 202), (1, .proceed), (1, .proceed),
      (1, .invalidate ⟨2, 7⟩), (2, .getEffectiveAccess 7), (2, .proceed),
      (2, .proceed)])
    (by decide +kernel)

theorem access_forgotten_oneAfterAnother : AccessForgotten oneAfterAnother.2 :=
  access_forgotten (reachesBy_endOfRun forgetsInTime id (by decide +kernel) _)

/-- The call reads before the role is revoked and caches after the
invalidation: the next call answers the revoked access. -/
def remembered : Config AccessDb AccessPlace × List AccessEvent :=
  endOfRun accessExec (emptyAccess roleDb)
    (mechanic ++ [(2, .getEffectiveAccess 7), (2, .proceed),
      (1, .revokeRoleFromUser 7 202), (1, .proceed), (1, .proceed),
      (1, .invalidate ⟨2, 7⟩), (2, .proceed), (3, .getEffectiveAccess 7)])
    (by decide +kernel)

theorem reaches_remembered :
    Reaches accessExec (emptyAccess roleDb) remembered.1 remembered.2 :=
  reaches_endOfRun _

/-- What a mechanic may do. -/
def mechanicAccess : EffectiveAccess :=
  ⟨{"CUSTOMER", "MECHANIC"}, {"work-orders:execute"}⟩

/-- A change that left a user this access. -/
def leaves (access : EffectiveAccess) : AccessEvent → Bool
  | .changed _ _ access' => access' = access
  | _ => false

/-- From the revocation on no change leaves what a mechanic may do. -/
theorem revoked_for_good :
    ∀ rest ∈ remembered.2.tails, ∀ after, rest.head? = some (.changed 2 7 after) →
      rest.any (leaves mechanicAccess) = false := by
  have hchecked : ∀ rest ∈ remembered.2.tails,
      (rest.head?.any fun event =>
        match event with
        | .changed change _ _ => change = 2
        | _ => false) = true → rest.any (leaves mechanicAccess) = false := by
    decide +kernel
  intro rest hrest after hhead
  refine hchecked rest hrest ?_
  rw [hhead]
  rfl

theorem access_not_always_forgotten :
    ¬ ∀ roleDb config log, Reaches accessExec (emptyAccess roleDb) config log →
      AccessForgotten log := by
  intro hall
  have hanswered : .answered 1 7 mechanicAccess ∈ remembered.2 := by decide +kernel
  have hsplit : remembered.2 =
      remembered.2.take 8 ++ .called 1 7 :: remembered.2.drop 9 := by decide +kernel
  have hchange : 2 ∈ committedChanges 7 (remembered.2.take 8) := by decide +kernel
  have hran : .invalidated 2 7 ∈ remembered.2.take 8 := by decide +kernel
  obtain ⟨earlier, later, after, hlog, hsince⟩ :=
    hall roleDb remembered.1 remembered.2 reaches_remembered 1 7 mechanicAccess
      hanswered _ _ hsplit 2 hchange hran
  have hnone := revoked_for_good (.changed 2 7 after :: later)
    (List.mem_tails _ _ |>.mpr ⟨earlier, hlog.symm⟩) after rfl
  rw [List.any_eq_false] at hnone
  rcases hsince with rfl | ⟨other, hother⟩
  · exact hnone _ List.mem_cons_self (by simp [leaves])
  · exact hnone _ (List.mem_cons_of_mem _ hother) (by simp [leaves])

end AccessWitness

end Identity

end Workshop
