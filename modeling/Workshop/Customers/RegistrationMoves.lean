/-
What one statement of a registration can do, said once: the moves, and the rows
they may add to the tables.
-/
import Workshop.Customers.Registrations
import Workshop.Identity.SessionWrites

namespace Workshop

namespace Customers

open Identity (IdentityDb Session User)

/-- A place whose program holds neither an attempt nor a step. -/
def RegistrationPlace.isFree : RegistrationPlace → Bool
  | .idle | .checkingUser .. | .checkingRole .. | .checkingCustomer .. | .linking ..
  | .claiming .. => true
  | _ => false

/-- What a statement leaves behind: the tables, the place and its effects. -/
inductive RegistrationMove (settings : OutboxSettings) (db : RegistrationDb) :
    RegistrationPlace → RegistrationDb → RegistrationPlace →
      List RegistrationEffect → Prop
  /- It wrote nothing, and the program holds nothing either. -/
  | free (place next : RegistrationPlace) (hfree : next.isFree = true) :
      RegistrationMove settings db place db next []
  | fail (place : RegistrationPlace) (error : String) :
      RegistrationMove settings db place db (place.onError error) []
  | tick (place : RegistrationPlace) (elapsed : Nat) :
      RegistrationMove settings db place
        { db with identity := { db.identity with now := db.now + elapsed } } place []
  | begin (command : RegisterCustomerCommand) (dueAt : Timestamp) :
      RegistrationMove settings db .idle (db.withNextId (db.nextId + 3))
        (.arming {
          command, userId := db.nextId, customerId := db.nextId + 1
          operationId := db.nextId + 2 } dueAt) []
  | link (place : RegistrationPlace) (customer : Customer) (saved : RegistrationDb)
      (hid : customer.id = db.nextId)
      (hsave : (db.withNextId (db.nextId + 1)).saveCustomer customer = .ok saved) :
      RegistrationMove settings db place saved .idle [.registered customer]
  | arm (attempt : Attempt) (dueAt : Timestamp) (steps : List AccountStepRow)
      (harm : AccountSteps.arm db.steps attempt.step dueAt db.now = .ok steps) :
      RegistrationMove settings db (.arming attempt dueAt) { db with steps }
        (.checkingEmail attempt) []
  | checkEmail (attempt : Attempt) :
      RegistrationMove settings db (.checkingEmail attempt) db
        (.checkingDocument attempt) []
  | checkDocument (attempt : Attempt) :
      RegistrationMove settings db (.checkingDocument attempt) db (.opening attempt) []
  | opens (attempt : Attempt) (user : User) (customer : Customer)
      (identity : IdentityDb) (huser : user.id = attempt.userId)
      (hid : customer.id = attempt.customerId)
      (huserId : customer.userId = attempt.userId)
      (hsave : { db.identity with nextId := db.nextId + 1 }.saveUser user =
        .ok identity) :
      RegistrationMove settings db (.opening attempt) { db with identity }
        (.saving attempt customer) [.opened attempt]
  | save (attempt : Attempt) (customer : Customer) (saved : RegistrationDb)
      (hsave : { db with
        steps := AccountSteps.disarm db.steps attempt.operationId db.now
      }.saveCustomer customer = .ok saved) :
      RegistrationMove settings db (.saving attempt customer) saved .idle
        [.registered customer]
  | checkSessions (errand : Errand) :
      RegistrationMove settings db (.discarding errand) db (.deleting errand) []
  | delete (errand : Errand) (deleted : RegistrationDb)
      (hdelete : db.deleteUser errand.step.userId = .ok deleted) :
      RegistrationMove settings db (.deleting errand) deleted (.completing errand)
        (discardEffects db errand)
  | complete (errand : Errand) :
      RegistrationMove settings db (.completing errand) { db with
        steps := AccountSteps.complete db.steps errand.step.operationId db.now }
        errand.afterwards []
  | release (attempt : Attempt) :
      RegistrationMove settings db (.releasing attempt) { db with
        steps := AccountSteps.release db.steps attempt.operationId db.now } .idle []
  | claim (now : Timestamp) (operationIds : Option (List OperationId))
      (surroundings : Surroundings) :
      RegistrationMove settings db (.claiming now operationIds)
        (claimDue settings db now operationIds surroundings).store
        (claimDue settings db now operationIds surroundings).place []
  | recordError (step : ClaimedAccountStep) (queue : List ClaimedAccountStep)
      (error : String) :
      RegistrationMove settings db (.failing step queue error)
        { db with steps := recordError settings db step error }
        (nextApplication queue) []
  | registerUser (user : User) (identity : IdentityDb) (hid : user.id = db.nextId)
      (hsave : { db.identity with nextId := db.nextId + 2 }.saveUser user =
        .ok identity) :
      RegistrationMove settings db .idle { db with identity } .idle []
  | saveSession (session : Session) (identity : IdentityDb)
      (hsave : db.identity.saveSession session = .ok identity) :
      RegistrationMove settings db .idle { db with identity } .idle []
  | refer (userId : UserId) :
      RegistrationMove settings db .idle
        { db with references := db.references ++ [userId] } .idle []

section Moves

variable {settings : OutboxSettings} {db : RegistrationDb} {place : RegistrationPlace}
variable {input : RegistrationInput} {out : RegistrationOutcome}

theorem proceed_move {surroundings : Surroundings}
    (h : proceed settings db surroundings place = some out) :
    RegistrationMove settings db place out.store out.place out.effects := by
  cases place with
  | idle => cases h
  | checkingUser command userId =>
      simp only [proceed] at h
      split at h <;> cases h <;> exact .free _ _ rfl
  | checkingRole command userId =>
      simp only [proceed] at h
      split at h <;> cases h <;> exact .free _ _ rfl
  | checkingCustomer command userId =>
      simp only [proceed] at h
      split at h <;> cases h <;> exact .free _ _ rfl
  | linking command userId =>
      simp only [proceed] at h
      split at h
      · cases h
        exact .free _ _ rfl
      · rename_i saved hsave
        cases h
        exact .link _ _ saved rfl hsave
  | arming attempt dueAt =>
      simp only [proceed] at h
      split at h
      · cases h
        exact .free _ _ rfl
      · rename_i steps harm
        cases h
        exact .arm attempt dueAt steps harm
  | checkingEmail attempt =>
      simp only [proceed] at h
      split at h
      · cases h
        exact .checkEmail attempt
      · cases h
        exact .fail (.checkingEmail attempt) ""
  | checkingDocument attempt =>
      simp only [proceed] at h
      split at h
      · cases h
        exact .checkDocument attempt
      · cases h
        exact .fail (.checkingDocument attempt) ""
  | opening attempt =>
      simp only [proceed] at h
      split at h
      · cases h
        exact .fail (.opening attempt) ""
      · rename_i identity hopen
        cases h
        obtain ⟨user, huser, hsave⟩ := bind_eq_ok_iff.mp hopen
        obtain ⟨_, -, huser⟩ := bind_eq_ok_iff.mp huser
        rw [pure_eq_ok_iff] at huser
        exact .opens attempt user _ identity (by rw [← huser]) rfl rfl hsave
  | saving attempt customer =>
      simp only [proceed] at h
      split at h
      · cases h
        exact .fail (.saving attempt customer) ""
      · rename_i saved hcommit
        cases h
        unfold commitRegistration at hcommit
        split at hcommit
        · exact .save attempt customer saved hcommit
        · cases hcommit
  | discarding errand =>
      simp only [proceed] at h
      split at h
      · cases h
        exact .fail (.discarding errand) _
      · cases h
        exact .checkSessions errand
  | deleting errand =>
      simp only [proceed] at h
      split at h
      · cases h
        exact .fail (.deleting errand) _
      · rename_i deleted hdelete
        cases h
        exact .delete errand deleted hdelete
  | completing errand =>
      cases h
      exact .complete errand
  | releasing attempt =>
      cases h
      exact .release attempt
  | claiming now operationIds =>
      cases h
      exact .claim now operationIds surroundings
  | failing step queue error =>
      cases h
      exact .recordError step queue error

/-- Every statement of a registration is one of the moves. -/
theorem registrationMove_of_exec
    (h : registrationExec settings db place input = some out) :
    RegistrationMove settings db place out.store out.place out.effects := by
  unfold registrationExec at h
  split at h
  case h_1 elapsed => cases h; exact .tick _ elapsed
  case h_2 => cases h; exact .free _ _ rfl
  case h_3 error => cases h; exact .fail _ error
  case h_4 command =>
    cases h
    unfold registerCustomer
    split
    · exact .free _ _ rfl
    · split
      · exact .free _ _ rfl
      · exact .begin command _
  case h_5 => cases h; exact .free _ _ rfl
  case h_6 => cases h; exact .free _ _ rfl
  case h_7 email name document issuedByStaff =>
    cases h
    simp only [Identity.registerUser]
    split
    · exact .free _ _ rfl
    · rename_i user hregister
      split
      · exact .free _ _ rfl
      · rename_i identity hsave
        obtain ⟨_, -, huser⟩ := bind_eq_ok_iff.mp hregister
        rw [pure_eq_ok_iff] at huser
        exact .registerUser user identity (by rw [← huser]; rfl) hsave
  case h_8 session =>
    split at h
    · cases h
      exact .free _ _ rfl
    · rename_i identity hsave
      cases h
      exact .saveSession session identity hsave
  case h_9 userId =>
    split at h
    · cases h
      exact .free _ _ rfl
    · cases h
      exact .refer userId
  case h_10 => exact proceed_move h
  case h_11 => cases h

end Moves

/-- The registration a program works for. -/
def RegistrationPlace.attempt : RegistrationPlace → Option Attempt
  | .arming attempt _ | .checkingEmail attempt | .checkingDocument attempt
  | .opening attempt | .saving attempt _ | .releasing attempt
  | .discarding (.compensation attempt) | .deleting (.compensation attempt)
  | .completing (.compensation attempt) => some attempt
  | _ => none

/-- The steps an applier has claimed and not yet seen through. -/
def RegistrationPlace.held : RegistrationPlace → List AccountStep
  | .discarding (.application step queue) | .deleting (.application step queue)
  | .completing (.application step queue) | .failing step queue _ =>
      (step :: queue).map ClaimedAccountStep.toAccountStep
  | _ => []

/-- The operation whose row a program closes. -/
def RegistrationPlace.Closes (place : RegistrationPlace)
    (effects : List RegistrationEffect) (operationId : OperationId) : Prop :=
  (∃ attempt customer, place = .saving attempt customer ∧
      .registered customer ∈ effects ∧ operationId = attempt.operationId) ∨
    ∃ errand, place = .completing errand ∧ operationId = errand.step.operationId

def RegistrationDb.HasUser (db : RegistrationDb) (userId : UserId) : Prop :=
  ∃ user ∈ db.identity.users, user.id = userId

/-- A saved customer refers to the account. -/
def RegistrationDb.Refers (db : RegistrationDb) (userId : UserId) : Prop :=
  ∃ customer ∈ db.customers, customer.userId = userId

/-- What a program may add to the tables. -/
structure Advances (db db' : RegistrationDb) (place : RegistrationPlace)
    (effects : List RegistrationEffect) : Prop where
  nextId : db.nextId ≤ db'.nextId
  users : ∀ userId, db'.HasUser userId → db.HasUser userId ∨
    (userId = db.nextId ∧ db.nextId < db'.nextId) ∨
    ∃ attempt, place = .opening attempt ∧ .opened attempt ∈ effects ∧
      userId = attempt.userId
  steps : ∃ kept added, db'.steps = kept ++ added ∧
    StepsChange (place.Closes effects) db.steps kept ∧
    ∀ row ∈ added, ∃ attempt dueAt, place = .arming attempt dueAt ∧
      row.toAccountStep = attempt.step ∧ row.status = .armed
  customers : ∀ customer ∈ db'.customers, customer ∈ db.customers ∨
    (customer.id = db.nextId ∧ db.nextId < db'.nextId) ∨
    ∃ attempt, place = .saving attempt customer
  opened : ∀ attempt, .opened attempt ∈ effects → place = .opening attempt

section Advances

variable {settings : OutboxSettings} {db db' : RegistrationDb}
variable {place next : RegistrationPlace} {effects : List RegistrationEffect}

theorem findUserById_isNone {userId : UserId} :
    (db.identity.findUserById userId).isNone = true ↔ ¬ db.HasUser userId := by
  simp [IdentityDb.findUserById, RegistrationDb.HasUser]

theorem saveCustomer_ok {customer : Customer} (h : db.saveCustomer customer = .ok db') :
    db.HasUser customer.userId ∧
      db' = { db with customers := upsert Customer.id customer db.customers } := by
  unfold RegistrationDb.saveCustomer at h
  split at h
  · cases h
  · rename_i huser
    split at h
    · cases h
    · refine ⟨?_, (Except.ok.inj h).symm⟩
      by_contra hnone
      exact huser (findUserById_isNone.mpr hnone)

/-- A discard that was not refused leaves no account, and no customer loses
its own. -/
theorem deleteUser_ok {userId : UserId} (h : db.deleteUser userId = .ok db') :
    (¬ db.HasUser userId ∧ db' = db) ∨
      (¬ db.Refers userId ∧ db' = { db with identity := { db.identity with
        users := db.identity.users.filter fun user => decide (user.id ≠ userId) } }) := by
  unfold RegistrationDb.deleteUser at h
  split at h
  · rename_i hnone
    exact Or.inl ⟨findUserById_isNone.mp hnone, (Except.ok.inj h).symm⟩
  · split at h
    · cases h
    · rename_i hrefers
      refine Or.inr ⟨?_, (Except.ok.inj h).symm⟩
      rintro ⟨customer, hcustomer, huserId⟩
      apply hrefers
      have hexists : db.existsByUserId userId = true :=
        List.any_eq_true.mpr ⟨customer, hcustomer, decide_eq_true huserId⟩
      simp [RegistrationDb.refersTo, hexists]

/-- A save of a user adds at most its own row. -/
theorem hasUser_saveUser {nextId : Uuid} {user : User} {identity : IdentityDb}
    (h : { db.identity with nextId }.saveUser user = .ok identity) (userId : UserId) :
    ({ db with identity } : RegistrationDb).HasUser userId ↔
      db.HasUser userId ∨ userId = user.id := by
  rw [Identity.saveUser_eq_ok h]
  simp only [RegistrationDb.HasUser, mem_upsert]
  constructor
  · rintro ⟨row, rfl | ⟨hrow, -⟩, rfl⟩
    · exact Or.inr rfl
    · exact Or.inl ⟨row, hrow, rfl⟩
  · rintro (⟨row, hrow, rfl⟩ | rfl)
    · by_cases hid : row.id = user.id
      · exact ⟨user, Or.inl rfl, hid.symm⟩
      · exact ⟨row, Or.inr ⟨hrow, hid⟩, rfl⟩
    · exact ⟨user, Or.inl rfl, rfl⟩

theorem hasUser_deleteUser {userId other : UserId}
    (h : db.deleteUser userId = .ok db') :
    db'.HasUser other ↔ db.HasUser other ∧ other ≠ userId := by
  rcases deleteUser_ok h with ⟨hnone, rfl⟩ | ⟨-, rfl⟩
  · refine ⟨fun huser => ⟨huser, ?_⟩, And.left⟩
    rintro rfl
    exact hnone huser
  · simp only [RegistrationDb.HasUser, List.mem_filter, decide_eq_true_eq]
    constructor
    · rintro ⟨user, ⟨huser, hne⟩, rfl⟩
      exact ⟨⟨user, huser, rfl⟩, hne⟩
    · rintro ⟨⟨user, huser, rfl⟩, hne⟩
      exact ⟨user, ⟨huser, hne⟩, rfl⟩

theorem opened_nil (attempt : Attempt)
    (h : .opened attempt ∈ ([] : List RegistrationEffect)) :
    place = .opening attempt :=
  absurd h List.not_mem_nil

theorem opened_registered {customer : Customer} (attempt : Attempt)
    (h : .opened attempt ∈ [RegistrationEffect.registered customer]) :
    place = .opening attempt := by
  cases List.mem_singleton.mp h

/-- A statement that leaves users, customers and the next id. -/
theorem Advances.of_steps {steps : List AccountStepRow}
    (h : StepsChange (place.Closes []) db.steps steps) :
    Advances db { db with steps } place [] where
  nextId := le_refl _
  users := fun _ huser => Or.inl huser
  steps := ⟨steps, [], (List.append_nil _).symm, h, fun _ hrow => nomatch hrow⟩
  customers := fun _ hcustomer => Or.inl hcustomer
  opened := opened_nil

/-- A statement that leaves customers and steps. -/
theorem Advances.of_identity {identity : IdentityDb}
    (hnextId : db.nextId ≤ identity.nextId)
    (husers : ∀ userId, ({ db with identity } : RegistrationDb).HasUser userId →
      db.HasUser userId ∨ (userId = db.nextId ∧ db.nextId < identity.nextId) ∨
      ∃ attempt, place = .opening attempt ∧ .opened attempt ∈ effects ∧
        userId = attempt.userId)
    (hopened : ∀ attempt, .opened attempt ∈ effects → place = .opening attempt) :
    Advances db { db with identity } place effects where
  nextId := hnextId
  users := husers
  steps := ⟨db.steps, [], (List.append_nil _).symm, StepsChange.refl _,
    fun _ hrow => nomatch hrow⟩
  customers := fun _ hcustomer => Or.inl hcustomer
  opened := hopened

theorem RegistrationMove.advances
    (h : RegistrationMove settings db place db' next effects) :
    Advances db db' place effects := by
  have hsame : Advances db db place [] := Advances.of_steps (StepsChange.refl _)
  cases h with
  | free => exact hsame
  | fail => exact hsame
  | tick elapsed =>
      exact Advances.of_identity (le_refl _) (fun _ huser => Or.inl huser) opened_nil
  | begin =>
      exact Advances.of_identity (Nat.le_add_right _ _) (fun _ huser => Or.inl huser)
        opened_nil
  | link _ customer _ hid hsave =>
      obtain ⟨-, rfl⟩ := saveCustomer_ok hsave
      refine ⟨Nat.le_succ _, fun _ huser => Or.inl huser, ?_, ?_, opened_registered⟩
      · exact ⟨_, [], (List.append_nil _).symm, StepsChange.refl _,
          fun _ hrow => nomatch hrow⟩
      · intro other hother
        rcases mem_upsert.mp hother with rfl | ⟨hold, -⟩
        · exact Or.inr (Or.inl ⟨hid, Nat.lt_succ_self _⟩)
        · exact Or.inl hold
  | arm attempt dueAt steps harm =>
      unfold AccountSteps.arm at harm
      split at harm
      · cases harm
      · cases harm
        refine ⟨le_refl _, fun _ huser => Or.inl huser, ?_,
          fun _ hcustomer => Or.inl hcustomer, opened_nil⟩
        refine ⟨db.steps, _, rfl, StepsChange.refl _, fun row hrow => ?_⟩
        obtain rfl := List.mem_singleton.mp hrow
        exact ⟨attempt, dueAt, rfl, rfl, rfl⟩
  | checkEmail => exact hsame
  | checkDocument => exact hsame
  | opens attempt user customer identity huser hid huserId hsave =>
      refine Advances.of_identity ?_ (fun userId hhas => ?_) ?_
      · rw [Identity.saveUser_eq_ok hsave]
        exact Nat.le_succ _
      · rcases (hasUser_saveUser hsave userId).mp hhas with hold | rfl
        · exact Or.inl hold
        · exact Or.inr (Or.inr ⟨attempt, rfl, List.mem_singleton_self _, huser⟩)
      · intro other hother
        rw [List.mem_singleton, RegistrationEffect.opened.injEq] at hother
        rw [hother]
  | save attempt customer _ hsave =>
      obtain ⟨-, rfl⟩ := saveCustomer_ok hsave
      refine ⟨le_refl _, fun _ huser => Or.inl huser, ?_, ?_, opened_registered⟩
      · exact ⟨_, [], (List.append_nil _).symm,
          StepsChange.disarm _ (Or.inl ⟨attempt, customer, rfl,
            List.mem_singleton_self _, rfl⟩),
          fun _ hrow => nomatch hrow⟩
      · intro other hother
        rcases mem_upsert.mp hother with rfl | ⟨hold, -⟩
        · exact Or.inr (Or.inr ⟨attempt, rfl⟩)
        · exact Or.inl hold
  | checkSessions => exact hsame
  | delete errand _ hdelete =>
      have hopened : ∀ attempt, .opened attempt ∈ discardEffects db errand →
          RegistrationPlace.deleting errand = .opening attempt := by
        intro attempt hmem
        unfold discardEffects at hmem
        split at hmem
        · cases hmem
        · split at hmem
          · cases List.mem_singleton.mp hmem
          · cases hmem
      have husers : ∀ userId, db'.HasUser userId → db.HasUser userId :=
        fun userId huser => ((hasUser_deleteUser hdelete).mp huser).1
      rcases deleteUser_ok hdelete with ⟨-, rfl⟩ | ⟨-, rfl⟩
      · exact ⟨le_refl _, fun _ huser => Or.inl huser,
          ⟨_, [], (List.append_nil _).symm, StepsChange.refl _,
            fun _ hrow => nomatch hrow⟩,
          fun _ hcustomer => Or.inl hcustomer, hopened⟩
      · exact Advances.of_identity (le_refl _)
          (fun userId huser => Or.inl (husers userId huser)) hopened
  | complete errand =>
      exact Advances.of_steps (StepsChange.complete _ (Or.inr ⟨errand, rfl, rfl⟩))
  | release attempt => exact Advances.of_steps (StepsChange.release _)
  | claim now operationIds surroundings =>
      exact Advances.of_steps (StepsChange.markClaimed _ _)
  | recordError step queue error =>
      refine Advances.of_steps ?_
      unfold Customers.recordError
      split
      · exact StepsChange.markFailed _
      · exact StepsChange.recordFailure _ _
  | registerUser user identity hid hsave =>
      refine Advances.of_identity ?_ (fun userId hhas => ?_) opened_nil
      · rw [Identity.saveUser_eq_ok hsave]
        exact Nat.le_add_right _ _
      · rcases (hasUser_saveUser hsave userId).mp hhas with hold | rfl
        · exact Or.inl hold
        · refine Or.inr (Or.inl ⟨hid, ?_⟩)
          rw [Identity.saveUser_eq_ok hsave]
          exact Nat.lt_add_of_pos_right (by decide)
  | saveSession session identity hsave =>
      obtain ⟨tokens, -, rfl⟩ := Identity.saveSession_eq_ok hsave
      exact Advances.of_identity (le_refl _) (fun _ huser => Or.inl huser) opened_nil
  | refer userId =>
      exact ⟨le_refl _, fun _ huser => Or.inl huser, hsame.steps,
        fun _ hcustomer => Or.inl hcustomer, opened_nil⟩

end Advances

end Customers

end Workshop
