/-
The registration of customers, as programs that interleave statement by
statement: the requests, the appliers of the outbox, and what the other modules
commit to the accounts meanwhile.  A transaction is one statement; it commits as
a whole or leaves the tables it found.
-/
import Workshop.Customers.AccountSteps
import Workshop.Identity.IdentityProgram

namespace Workshop

namespace Customers

open Identity (IdentityDb Session User UserError addSeconds)

abbrev CustomerId := Uuid

structure Address where
  street : String
  number : String
  complement : Option String
  district : String
  city : String
  state : String
  zipCode : String
deriving DecidableEq, Repr

inductive CustomerStatus
  | active
  | inactive
deriving DecidableEq, Repr

/-- A row of `customers`. -/
structure Customer where
  id : CustomerId
  userId : UserId
  address : Option Address
  phoneNumber : Option String
  status : CustomerStatus
  createdAt : Timestamp
  updatedAt : Timestamp
  deletedAt : Option Timestamp
deriving DecidableEq, Repr

/-- `Customer.register` -/
def Customer.register (id : CustomerId) (userId : UserId) (address : Option Address)
    (phoneNumber : Option String) (now : Timestamp) : Customer where
  id := id
  userId := userId
  address := address
  phoneNumber := phoneNumber
  status := .active
  createdAt := now
  updatedAt := now
  deletedAt := none

inductive CustomerError
  | customerAlreadyExistsForUser
  | userRowNotFound (userId : UserId)
  | concurrentModification
  /-- An account somebody has logged into, or that other rows refer to. -/
  | accountInUse
deriving DecidableEq, Repr

structure OutboxSettings where
  /-- How long an armed step waits before it is applied, and a claim lasts. -/
  graceSeconds : Nat
  /-- The attempt at which a step that keeps failing is marked failed. -/
  maxAttempts : Nat

/-- The tables of identity and of customers.  `references` are the users that
the rows of the other modules point at. -/
structure RegistrationDb where
  identity : IdentityDb := {}
  customers : List Customer := []
  steps : List AccountStepRow := []
  references : List UserId := []

namespace RegistrationDb

def now (db : RegistrationDb) : Timestamp := db.identity.now

def nextId (db : RegistrationDb) : Uuid := db.identity.nextId

/-- The tables once the generator handed out every id below this one. -/
def withNextId (db : RegistrationDb) (nextId : Uuid) : RegistrationDb :=
  { db with identity := { db.identity with nextId } }

def existsByUserId (db : RegistrationDb) (userId : UserId) : Bool :=
  db.customers.any fun customer => customer.userId = userId

/-- `TypeOrmCustomerRepository.save`, with `ux_customers_user_id`. -/
def saveCustomer (db : RegistrationDb) (customer : Customer) :
    Except CustomerError RegistrationDb :=
  if (db.identity.findUserById customer.userId).isNone then
    .error (.userRowNotFound customer.userId)
  else if db.customers.any fun other =>
      decide (other.id ≠ customer.id) && other.userId = customer.userId then
    .error .customerAlreadyExistsForUser
  else .ok { db with customers := upsert Customer.id customer db.customers }

/-- `SessionRepository.existsByUserId` -/
def sessionExists (db : RegistrationDb) (userId : UserId) : Bool :=
  db.identity.sessions.any fun row => row.userId = userId

/-- A row that keeps the user from being deleted. -/
def refersTo (db : RegistrationDb) (userId : UserId) : Bool :=
  db.sessionExists userId || db.existsByUserId userId ||
    decide (userId ∈ db.references)

/-- `TypeOrmUserRepository.delete`: a user that does not exist is already
gone. -/
def deleteUser (db : RegistrationDb) (userId : UserId) :
    Except CustomerError RegistrationDb :=
  if (db.identity.findUserById userId).isNone then .ok db
  else if db.refersTo userId then .error .accountInUse
  else .ok { db with identity := { db.identity with
    users := db.identity.users.filter fun user => decide (user.id ≠ userId) } }

end RegistrationDb

/-- `RegisterCustomerCommand`; the address and the phone number are checked. -/
structure RegisterCustomerCommand where
  userId : Option UserId
  email : Option String
  name : Option String
  document : Option String
  address : Option Address
  phoneNumber : Option String
deriving DecidableEq, Repr

def RegisterCustomerCommand.hasAccountData (command : RegisterCustomerCommand) : Bool :=
  command.email.isSome || command.name.isSome || command.document.isSome

/-- A registration that opens an account, with the ids it chose. -/
structure Attempt where
  command : RegisterCustomerCommand
  userId : UserId
  customerId : CustomerId
  operationId : OperationId
deriving DecidableEq, Repr

def Attempt.step (attempt : Attempt) : AccountStep where
  operationId := attempt.operationId
  kind := .discardAccount
  userId := attempt.userId

/-- On whose behalf an account is discarded and a step is completed. -/
inductive Errand
  /-- The registration that failed. -/
  | compensation (attempt : Attempt)
  /-- An applier, with the steps it still has to apply. -/
  | application (step : ClaimedAccountStep) (queue : List ClaimedAccountStep)

def Errand.step : Errand → AccountStep
  | .compensation attempt => attempt.step
  | .application step _ => step.toAccountStep

/-- Where a program stands between two statements. -/
inductive RegistrationPlace
  | idle
  /-- A registration over an existing user, before its three checks and its
  save. -/
  | checkingUser (command : RegisterCustomerCommand) (userId : UserId)
  | checkingRole (command : RegisterCustomerCommand) (userId : UserId)
  | checkingCustomer (command : RegisterCustomerCommand) (userId : UserId)
  | linking (command : RegisterCustomerCommand) (userId : UserId)
  | arming (attempt : Attempt) (dueAt : Timestamp)
  /-- `open`: the reads by email and by document, and the insert with the role. -/
  | checkingEmail (attempt : Attempt)
  | checkingDocument (attempt : Attempt)
  | opening (attempt : Attempt)
  /-- The transaction that disarms the step and saves the customer is next. -/
  | saving (attempt : Attempt) (customer : Customer)
  /-- `discard`: the read of the sessions is next, then the delete. -/
  | discarding (errand : Errand)
  | deleting (errand : Errand)
  | completing (errand : Errand)
  | releasing (attempt : Attempt)
  | claiming (now : Timestamp) (operationIds : Option (List OperationId))
  | failing (step : ClaimedAccountStep) (queue : List ClaimedAccountStep)
      (error : String)

/-- The next step of an applier, or the end of its work. -/
def nextApplication : List ClaimedAccountStep → RegistrationPlace
  | [] => .idle
  | step :: queue => .discarding (.application step queue)

/-- Where a program goes once its step is complete. -/
def Errand.afterwards : Errand → RegistrationPlace
  | .compensation _ => .idle
  | .application _ queue => nextApplication queue

/-- Where a program goes when its discard or its completion failed. -/
def Errand.onError (error : String) : Errand → RegistrationPlace
  | .compensation attempt => .releasing attempt
  | .application step queue => .failing step queue error

/-- Where a program goes when its statement failed. -/
def RegistrationPlace.onError (error : String) : RegistrationPlace → RegistrationPlace
  | .checkingEmail attempt | .checkingDocument attempt | .opening attempt
  | .saving attempt _ => .discarding (.compensation attempt)
  | .discarding errand | .deleting errand | .completing errand => errand.onError error
  | _ => .idle

/-- What a statement finds outside the tables: whether the user has the role of
customers, the steps other statements have locked, and the order of the rows a
claim answers. -/
structure Surroundings where
  hasCustomerRole : Bool := true
  locked : List OperationId := []
  claimOrder : RowOrder ClaimedAccountStep := .byKey

inductive RegistrationInput
  | register (command : RegisterCustomerCommand)
  /-- The processor polls. -/
  | applyDue
  | applyOperations (operationIds : List OperationId)
  /-- Identity registers an account that no registration of a customer asked
  for, or saves a session. -/
  | registerUser (email name document : String) (issuedByStaff : Bool)
  | saveSession (session : Session)
  /-- Another module saves a row that points at a user. -/
  | refer (userId : UserId)
  /-- Time passes. -/
  | tick (elapsed : Nat)
  /-- The statement the program stands at runs. -/
  | proceed (surroundings : Surroundings)
  /-- The statement reports an error, so it has rolled back. -/
  | fail (error : String)
  | crash

/-- What the runs of registrations commit, in order. -/
inductive RegistrationEffect
  /-- The account of a registration was opened. -/
  | opened (attempt : Attempt)
  /-- An applier discarded for this step and found no account. -/
  | foundNoAccount (step : AccountStep)
  | registered (customer : Customer)
deriving DecidableEq, Repr

abbrev RegistrationOutcome :=
  Outcome RegistrationDb RegistrationPlace RegistrationEffect

/-- The outcome of a statement that wrote nothing. -/
def stay (db : RegistrationDb) (place : RegistrationPlace) : RegistrationOutcome :=
  { store := db, place }

/-- The wait after a failed attempt, by attempt. -/
def retryDelaysSeconds : List Nat := [1, 5, 30, 120, 600, 3600]

def retryDelaySeconds (attempts : Nat) : Nat :=
  retryDelaysSeconds.getD (min attempts retryDelaysSeconds.length - 1) 0

/-- `CLAIM_BATCH_SIZE` -/
def claimBatchSize : Nat := 20

/-- `AccountStepApplier.fail` -/
def recordError (settings : OutboxSettings) (db : RegistrationDb)
    (step : ClaimedAccountStep) (error : String) : List AccountStepRow :=
  if settings.maxAttempts ≤ step.attempts then
    AccountSteps.markFailed db.steps step.operationId error
  else
    AccountSteps.recordFailure db.steps step.operationId error
      (addSeconds db.now (retryDelaySeconds step.attempts))

/-- `execute`, up to the first statement of either kind of registration.  The
ids are chosen up front. -/
def registerCustomer (settings : OutboxSettings) (db : RegistrationDb)
    (command : RegisterCustomerCommand) : RegistrationOutcome :=
  if command.userId.isSome = command.hasAccountData then stay db .idle
  else
    match command.userId with
    | some userId => stay db (.checkingUser command userId)
    | none => {
        store := db.withNextId (db.nextId + 3)
        place := .arming {
          command, userId := db.nextId, customerId := db.nextId + 1
          operationId := db.nextId + 2 } (addSeconds db.now settings.graceSeconds) }

/-- The insert of the account `RegisterUserUseCase` opens for a registration,
with a generated password. -/
def openAccount (db : RegistrationDb) (attempt : Attempt)
    (email name document : String) : Except UserError IdentityDb := do
  let user ← User.register {
    id := attempt.userId, email, name, document, passwordHash := db.nextId
    now := db.now, temporary := true }
  { db.identity with nextId := db.nextId + 1 }.saveUser user

/-- The transaction that disarms the step and saves the customer. -/
def commitRegistration (db : RegistrationDb) (attempt : Attempt)
    (customer : Customer) : Except CustomerError RegistrationDb :=
  if AccountSteps.isArmed db.steps attempt.operationId then
    { db with
      steps := AccountSteps.disarm db.steps attempt.operationId db.now
    }.saveCustomer customer
  else .error .concurrentModification

/-- What an applier tells of a discard. -/
def discardEffects (db : RegistrationDb) : Errand → List RegistrationEffect
  | .compensation _ => []
  | .application step _ =>
      if (db.identity.findUserById step.userId).isNone
      then [.foundNoAccount step.toAccountStep] else []

/-- `claimAndApply`, up to the steps it claimed. -/
def claimDue (settings : OutboxSettings) (db : RegistrationDb) (now : Timestamp)
    (operationIds : Option (List OperationId)) (surroundings : Surroundings) :
    RegistrationOutcome :=
  let limit := match operationIds with
    | none => claimBatchSize
    | some ids => ids.length
  let picked := AccountSteps.pickedRows db.steps now limit operationIds
    surroundings.locked
  { store := { db with
      steps := AccountSteps.markClaimed db.steps picked
        (addSeconds now settings.graceSeconds) }
    place := nextApplication
      (AccountSteps.claimedSteps picked surroundings.claimOrder) }

/-- The statement a program stands at, and where it goes. -/
def proceed (settings : OutboxSettings) (db : RegistrationDb)
    (surroundings : Surroundings) : RegistrationPlace → Option RegistrationOutcome
  | .checkingUser command userId =>
      if (Identity.getUserById db.identity userId).isSome
      then some (stay db (.checkingRole command userId)) else some (stay db .idle)
  | .checkingRole command userId =>
      if surroundings.hasCustomerRole
      then some (stay db (.checkingCustomer command userId)) else some (stay db .idle)
  | .checkingCustomer command userId =>
      if db.existsByUserId userId then some (stay db .idle)
      else some (stay db (.linking command userId))
  | .linking command userId =>
      let customer := Customer.register db.nextId userId command.address
        command.phoneNumber db.now
      match (db.withNextId (db.nextId + 1)).saveCustomer customer with
      | .error _ => some (stay db .idle)
      | .ok saved => some {
          store := saved, place := .idle, effects := [.registered customer] }
  | .arming attempt dueAt =>
      match AccountSteps.arm db.steps attempt.step dueAt db.now with
      | .error _ => some (stay db .idle)
      | .ok steps => some (stay { db with steps } (.checkingEmail attempt))
  | .checkingEmail attempt =>
      -- An email that is missing is refused as an invalid one is.
      if attempt.command.email.any fun email =>
          (db.identity.findUserByEmail email).isNone
      then some (stay db (.checkingDocument attempt))
      else some (stay db (.discarding (.compensation attempt)))
  | .checkingDocument attempt =>
      if attempt.command.document.any fun document =>
          (db.identity.findUserByDocument document).isNone
      then some (stay db (.opening attempt))
      else some (stay db (.discarding (.compensation attempt)))
  | .opening attempt =>
      match openAccount db attempt (attempt.command.email.getD "")
        (attempt.command.name.getD "") (attempt.command.document.getD "") with
      | .error _ => some (stay db (.discarding (.compensation attempt)))
      | .ok identity => some {
          store := { db with identity }
          place := .saving attempt (Customer.register attempt.customerId
            attempt.userId attempt.command.address attempt.command.phoneNumber db.now)
          effects := [.opened attempt] }
  | .saving attempt customer =>
      match commitRegistration db attempt customer with
      | .error _ => some (stay db (.discarding (.compensation attempt)))
      | .ok saved => some {
          store := saved, place := .idle, effects := [.registered customer] }
  | .discarding errand =>
      if db.sessionExists errand.step.userId
      then some (stay db (errand.onError "AccountInUseError"))
      else some (stay db (.deleting errand))
  | .deleting errand =>
      match db.deleteUser errand.step.userId with
      | .error _ => some (stay db (errand.onError "AccountInUseError"))
      | .ok deleted => some {
          store := deleted, place := .completing errand
          effects := discardEffects db errand }
  | .completing errand =>
      some (stay { db with
        steps := AccountSteps.complete db.steps errand.step.operationId db.now }
        errand.afterwards)
  | .releasing attempt =>
      some (stay { db with
        steps := AccountSteps.release db.steps attempt.operationId db.now } .idle)
  | .claiming now operationIds =>
      some (claimDue settings db now operationIds surroundings)
  | .failing step queue error =>
      some (stay { db with steps := recordError settings db step error }
        (nextApplication queue))
  | .idle => none

/-- One statement of a program. -/
def registrationExec (settings : OutboxSettings) (db : RegistrationDb) :
    RegistrationPlace → RegistrationInput → Option RegistrationOutcome
  | place, .tick elapsed =>
      some (stay { db with identity := { db.identity with now := db.now + elapsed } }
        place)
  | _, .crash => some (stay db .idle)
  | place, .fail error => some (stay db (place.onError error))
  | .idle, .register command => some (registerCustomer settings db command)
  | .idle, .applyDue => some (stay db (.claiming db.now none))
  | .idle, .applyOperations operationIds =>
      some (stay db (.claiming db.now (some operationIds)))
  | .idle, .registerUser email name document issuedByStaff =>
      let out := Identity.registerUser db.identity email name document issuedByStaff
      some (stay { db with identity := out.store } .idle)
  | .idle, .saveSession session =>
      match db.identity.saveSession session with
      | .error _ => some (stay db .idle)
      | .ok identity => some (stay { db with identity } .idle)
  | .idle, .refer userId =>
      if (db.identity.findUserById userId).isNone then some (stay db .idle)
      else some (stay { db with references := db.references ++ [userId] } .idle)
  | place, .proceed surroundings => proceed settings db surroundings place
  | _, _ => none

/-- No account, no customer and no request under way. -/
def emptyRegistrations : Config RegistrationDb RegistrationPlace :=
  ⟨{}, fun _ => .idle⟩

/-- The configurations and logs that registrations and appliers lead to. -/
abbrev RegistrationReaches (settings : OutboxSettings) :
    Config RegistrationDb RegistrationPlace → List RegistrationEffect → Prop :=
  Reaches (registrationExec settings) emptyRegistrations

end Customers

end Workshop
