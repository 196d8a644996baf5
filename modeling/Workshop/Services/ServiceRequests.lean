/-
The requests that create, update and deactivate services, as programs that interleave
at their reads and writes.  A name is checked by a query before the save and once more by
the unique index as the row is written.
-/
import Workshop.Library.Interleaving
import Workshop.Services.Service

namespace Workshop

namespace Services

structure CreateServiceCommand where
  name : String
  priceCents : ℚ
  estimatedDurationMinutes : ℚ
  description : Option String

structure UpdateServiceCommand where
  serviceId : ServiceId
  name : Option String
  description : Option (Option String)
  priceCents : Option ℚ
  estimatedDurationMinutes : Option ℚ

/-- A request that changes a service it loads. -/
inductive ServiceRequest
  | update (command : UpdateServiceCommand)
  | deactivate (serviceId : ServiceId)

def ServiceRequest.serviceId : ServiceRequest → ServiceId
  | .update command => command.serviceId
  | .deactivate serviceId => serviceId

/-- The checked values of a service to create. -/
structure NewService where
  name : ServiceName
  price : ServicePrice
  duration : ServiceDuration
  description : Option String

/-- The table `services` and the id generator. -/
abbrev ServiceDb := RowStore ServiceRow

/-- `TypeOrmServiceRepository.existsActiveByName` -/
def ServiceDb.existsActiveByName (lower : String → String) (db : ServiceDb)
    (name : ServiceName) (excludingId : Option ServiceId) : Bool :=
  db.rows.any fun row => lower row.name = lower name.value && row.status = .active &&
    excludingId.all fun excluded => row.externalId ≠ excluded

/-- Where a request stands between two statements. -/
inductive ServicePlace
  | idle
  /-- The values of a new service are checked; the look at its name is next. -/
  | naming (new : NewService)
  /-- The service is loaded; the look at the new name, if any, and the change are next. -/
  | loaded (request : ServiceRequest) (service : Service)
  | saving (place : SavePlace ServiceRow)

/-- What a request asks for, or how the statement it stands at ends. -/
inductive ServiceInput
  | create (command : CreateServiceCommand)
  | find (request : ServiceRequest)
  /-- The name is looked at, if there is one, and then the clock. -/
  | change (now : Timestamp)
  | proceed
  /-- The statement fails, or the program stops. -/
  | fail

inductive ServiceEffect
  /-- A request made the service, under an id of its own. -/
  | creating (row : ServiceRow)
  | saved (row : ServiceRow)
  | refused (error : ServiceError)
deriving DecidableEq, Repr

abbrev ServiceOutcome := Outcome ServiceDb ServicePlace ServiceEffect

/-- `CreateServiceUseCase.execute`, up to the look at the name. -/
def checkNewService (command : CreateServiceCommand) : Except ServiceError NewService := do
  let name ← ServiceName.create command.name
  let price ← priceFromCents command.priceCents
  let duration ← ServiceDuration.fromMinutes command.estimatedDurationMinutes
  return {
    name := name
    price := price
    duration := duration
    description := command.description }

/-- `TypeOrmServiceRepository.findById` -/
def ServiceDb.findById (lower : String → String) (db : ServiceDb) (id : ServiceId) :
    Except ServiceError Service :=
  match (serviceTable lower).findRow db.rows id with
  | none => .error .serviceNotFound
  | some row => ServiceMapper.toDomain row

/-- A value of an update, if the request has one. -/
def checkGiven {α β : Type} (check : α → Except ServiceError β) :
    Option α → Except ServiceError (Option β)
  | some raw => (check raw).map some
  | none => .ok none

/-- A service may keep its own name. -/
def ServiceDb.checkRename (lower : String → String) (db : ServiceDb) (id : ServiceId)
    (name : Option ServiceName) : Except ServiceError Unit :=
  if name.any fun name => db.existsActiveByName lower name (some id) then
    .error .serviceNameAlreadyInUse
  else .ok ()

/-- `UpdateServiceUseCase.execute`, from the name to the change. -/
def updateService (lower : String → String) (db : ServiceDb) (service : Service)
    (command : UpdateServiceCommand) (now : Timestamp) : Except ServiceError Service := do
  let name ← checkGiven ServiceName.create command.name
  db.checkRename lower command.serviceId name
  let price ← checkGiven priceFromCents command.priceCents
  let duration ← checkGiven ServiceDuration.fromMinutes command.estimatedDurationMinutes
  return service.updateDetails ⟨name, command.description, price, duration⟩ now

def ServiceRequest.change (lower : String → String) (db : ServiceDb) (service : Service)
    (now : Timestamp) : ServiceRequest → Except ServiceError Service
  | .update command => updateService lower db service command now
  | .deactivate _ => .ok (service.deactivate now)

/-- A violation of `ux_services_active_name` is a name in use. -/
def saveError : RowError → ServiceError
  | .entryTaken => .serviceNameAlreadyInUse
  | .keyTaken => .uniqueViolation
  | .unfit => .queryFailed

def ServiceDb.refuse (db : ServiceDb) (error : ServiceError) : ServiceOutcome where
  store := db
  place := .idle
  effects := [.refused error]

/-- A request goes on where it can. -/
def ServiceDb.continue (db : ServiceDb) : Except ServiceError ServicePlace → ServiceOutcome
  | .ok place => { store := db, place := place }
  | .error error => db.refuse error

/-- The save of a service begins. -/
def ServicePlace.save (service : Service) : ServicePlace :=
  .saving (.finding (ServiceMapper.toOrm service))

/-- `CreateServiceUseCase.execute`, from the look at the name to the save. -/
def ServiceDb.create (lower : String → String) (db : ServiceDb) (new : NewService)
    (now : Timestamp) : ServiceOutcome :=
  if db.existsActiveByName lower new.name none then db.refuse .serviceNameAlreadyInUse
  else
    let service := Service.create {
      id := db.nextId
      name := new.name
      description := new.description
      price := new.price
      duration := new.duration
      now := now }
    { store := { db with nextId := db.nextId + 1 }
      place := .save service
      effects := [.creating (ServiceMapper.toOrm service)] }

def serviceSaves : SaveEnds ServiceRow ServicePlace ServiceEffect where
  saving := .saving
  idle := .idle
  saved := .saved
  failed := fun error => .refused (saveError error)

/-- `TypeOrmServiceRepository.save` after one more statement. -/
abbrev ServiceDb.afterSave (db : ServiceDb) (step : SaveStep ServiceRow) : ServiceOutcome :=
  RowStore.afterSave serviceSaves db step

/-- One statement of a request. -/
def serviceExec (lower : String → String) (db : ServiceDb) :
    ServicePlace → ServiceInput → Option ServiceOutcome
  | .idle, .create command =>
      some (db.continue ((checkNewService command).map ServicePlace.naming))
  | .naming new, .change now => some (db.create lower new now)
  | .idle, .find request =>
      some (db.continue ((db.findById lower request.serviceId).map (.loaded request)))
  | .loaded request service, .change now =>
      some (db.continue ((request.change lower db service now).map ServicePlace.save))
  | .saving place, .proceed =>
      some (db.afterSave ((serviceTable lower).saveStep db.rows place))
  | _, .fail => some (db.refuse .queryFailed)
  | _, _ => none

/-- The catalog is empty. -/
def noServices : Config ServiceDb ServicePlace := ⟨{}, fun _ => .idle⟩

/-- The configurations the requests reach, however they interleave. -/
abbrev CatalogReaches (lower : String → String) :=
  Reaches (serviceExec lower) noServices

/-- What the statements of a request can do. -/
inductive ServiceMove (lower : String → String) (db : ServiceDb) :
    ServicePlace → ServiceInput → ServiceOutcome → Prop
  | refuse (place : ServicePlace) (input : ServiceInput) (error : ServiceError)
      (hname : error ≠ .serviceNameAlreadyInUse) (hunique : error ≠ .uniqueViolation) :
      ServiceMove lower db place input (db.refuse error)
  | check (command : CreateServiceCommand) (new : NewService)
      (hcheck : checkNewService command = .ok new) :
      ServiceMove lower db .idle (.create command) { store := db, place := .naming new }
  | createTaken (new : NewService) (now : Timestamp)
      (htaken : db.existsActiveByName lower new.name none = true) :
      ServiceMove lower db (.naming new) (.change now) (db.refuse .serviceNameAlreadyInUse)
  | create (new : NewService) (now : Timestamp) (service : Service)
      (hid : service.id = db.nextId) (hname : service.name = new.name)
      (hfree : db.existsActiveByName lower new.name none = false) :
      ServiceMove lower db (.naming new) (.change now)
        { store := { db with nextId := db.nextId + 1 }
          place := .save service
          effects := [.creating (ServiceMapper.toOrm service)] }
  | find (request : ServiceRequest) (row : ServiceRow) (service : Service)
      (hrow : row ∈ db.rows) (hid : row.externalId = request.serviceId)
      (hload : ServiceMapper.toDomain row = .ok service) :
      ServiceMove lower db .idle (.find request)
        { store := db, place := .loaded request service }
  | renameTaken (command : UpdateServiceCommand) (service : Service) (now : Timestamp)
      (name : ServiceName)
      (hname : checkGiven ServiceName.create command.name = .ok (some name))
      (htaken : db.existsActiveByName lower name (some command.serviceId) = true) :
      ServiceMove lower db (.loaded (.update command) service) (.change now)
        (db.refuse .serviceNameAlreadyInUse)
  | update (command : UpdateServiceCommand) (service : Service)
      (input : Service.UpdateServiceInput) (now : Timestamp)
      (hfree : ∀ name ∈ input.name,
        db.existsActiveByName lower name (some command.serviceId) = false) :
      ServiceMove lower db (.loaded (.update command) service) (.change now)
        { store := db, place := .save (service.updateDetails input now) }
  | deactivate (serviceId : ServiceId) (service : Service) (now : Timestamp) :
      ServiceMove lower db (.loaded (.deactivate serviceId) service) (.change now)
        { store := db, place := .save (service.deactivate now) }
  | save (place : SavePlace ServiceRow) (step : SaveStep ServiceRow)
      (hmove : (serviceTable lower).SaveMove db.rows place step) :
      ServiceMove lower db (.saving place) .proceed (db.afterSave step)

section Errors

/-- An error that says nothing of names or of keys. -/
def Plain (error : ServiceError) : Prop :=
  error ≠ .serviceNameAlreadyInUse ∧ error ≠ .uniqueViolation

theorem plain_nameCreate (raw : String) : ErrorsIn Plain (ServiceName.create raw) := by
  unfold ServiceName.create
  split
  · exact ErrorsIn.ok _
  · exact ErrorsIn.error ⟨by decide, by decide⟩

theorem plain_priceFromCents (raw : ℚ) : ErrorsIn Plain (priceFromCents raw) := by
  unfold priceFromCents
  split
  · exact ErrorsIn.ok _
  · exact ErrorsIn.error ⟨by decide, by decide⟩

theorem plain_fromMinutes (raw : ℚ) : ErrorsIn Plain (ServiceDuration.fromMinutes raw) := by
  unfold ServiceDuration.fromMinutes
  split
  · exact ErrorsIn.ok _
  · exact ErrorsIn.error ⟨by decide, by decide⟩

theorem plain_checkGiven {α β : Type} {check : α → Except ServiceError β}
    (hcheck : ∀ raw, ErrorsIn Plain (check raw)) (given : Option α) :
    ErrorsIn Plain (checkGiven check given) := by
  cases given with
  | none => exact ErrorsIn.ok _
  | some raw =>
      intro error herror
      cases hraw : check raw with
      | ok value =>
          rw [checkGiven, hraw] at herror
          cases herror
      | error other =>
          rw [checkGiven, hraw] at herror
          cases herror
          exact hcheck raw error hraw

theorem plain_checkNewService (command : CreateServiceCommand) :
    ErrorsIn Plain (checkNewService command) :=
  (plain_nameCreate _).bind fun _ _ => (plain_priceFromCents _).bind fun _ _ =>
    (plain_fromMinutes _).bind fun _ _ => ErrorsIn.ok _

theorem plain_toDomain (row : ServiceRow) : ErrorsIn Plain (ServiceMapper.toDomain row) := by
  refine (plain_nameCreate _).bind fun _ _ => ErrorsIn.bind ?_ fun _ _ =>
    (plain_fromMinutes _).bind fun _ _ => ErrorsIn.ok _
  unfold priceFromDatabase
  split
  · exact plain_priceFromCents _
  · exact ErrorsIn.error ⟨by decide, by decide⟩

end Errors

section Moves

variable {lower : String → String} {db : ServiceDb} {place : ServicePlace}
variable {input : ServiceInput} {out : ServiceOutcome}

theorem serviceMove_of_create (command : CreateServiceCommand) :
    ServiceMove lower db .idle (.create command)
      (db.continue ((checkNewService command).map ServicePlace.naming)) := by
  cases hcheck : checkNewService command with
  | error error =>
      have hplain := plain_checkNewService command error hcheck
      exact ServiceMove.refuse _ _ error hplain.1 hplain.2
  | ok new => exact ServiceMove.check command new hcheck

theorem serviceMove_of_naming (new : NewService) (now : Timestamp) :
    ServiceMove lower db (.naming new) (.change now) (db.create lower new now) := by
  unfold ServiceDb.create
  split
  · rename_i htaken
    exact ServiceMove.createTaken new now htaken
  · rename_i hfree
    exact ServiceMove.create new now _ rfl rfl (Bool.eq_false_iff.mpr hfree)

theorem serviceMove_of_find (request : ServiceRequest) :
    ServiceMove lower db .idle (.find request) (db.continue
      ((db.findById lower request.serviceId).map (.loaded request))) := by
  unfold ServiceDb.findById
  cases hfind : (serviceTable lower).findRow db.rows request.serviceId with
  | none => exact ServiceMove.refuse _ _ .serviceNotFound (by decide) (by decide)
  | some row =>
      dsimp only
      cases hload : ServiceMapper.toDomain row with
      | error error =>
          have hplain := plain_toDomain row error hload
          exact ServiceMove.refuse _ _ error hplain.1 hplain.2
      | ok service =>
          have hfound := List.find?_some hfind
          have hid : row.externalId = request.serviceId := of_decide_eq_true hfound
          exact ServiceMove.find request row service (List.mem_of_find?_eq_some hfind) hid hload

theorem serviceMove_of_update (command : UpdateServiceCommand) (service : Service)
    (now : Timestamp) :
    ServiceMove lower db (.loaded (.update command) service) (.change now)
      (db.continue ((updateService lower db service command now).map ServicePlace.save)) := by
  unfold updateService
  simp only [bind, Except.bind]
  cases hname : checkGiven ServiceName.create command.name with
  | error error =>
      have hplain := plain_checkGiven plain_nameCreate _ error hname
      exact ServiceMove.refuse _ _ error hplain.1 hplain.2
  | ok name =>
      dsimp only
      cases hrename : db.checkRename lower command.serviceId name with
      | error error =>
          unfold ServiceDb.checkRename at hrename
          cases name with
          | none => cases hrename
          | some wanted =>
              split at hrename
              · rename_i htaken
                cases hrename
                exact ServiceMove.renameTaken command service now wanted hname htaken
              · cases hrename
      | ok _ =>
          have hfree : ∀ wanted ∈ name,
              db.existsActiveByName lower wanted (some command.serviceId) = false := by
            rintro wanted rfl
            unfold ServiceDb.checkRename at hrename
            split at hrename
            · cases hrename
            · rename_i hfree
              exact Bool.eq_false_iff.mpr hfree
          dsimp only
          cases hprice : checkGiven priceFromCents command.priceCents with
          | error error =>
              have hplain := plain_checkGiven plain_priceFromCents _ error hprice
              exact ServiceMove.refuse _ _ error hplain.1 hplain.2
          | ok price =>
              dsimp only
              cases hduration : checkGiven ServiceDuration.fromMinutes
                  command.estimatedDurationMinutes with
              | error error =>
                  have hplain := plain_checkGiven plain_fromMinutes _ error hduration
                  exact ServiceMove.refuse _ _ error hplain.1 hplain.2
              | ok duration =>
                  exact ServiceMove.update command service
                    ⟨name, command.description, price, duration⟩ now hfree

/-- Every statement of a request is one of these moves. -/
theorem serviceMove_of_exec (h : serviceExec lower db place input = some out) :
    ServiceMove lower db place input out := by
  unfold serviceExec at h
  split at h
  · rename_i command
    cases h
    exact serviceMove_of_create command
  · rename_i new now
    cases h
    exact serviceMove_of_naming new now
  · rename_i request
    cases h
    exact serviceMove_of_find request
  · rename_i request service now
    cases h
    cases request with
    | update command => exact serviceMove_of_update command service now
    | deactivate serviceId => exact ServiceMove.deactivate serviceId service now
  · rename_i place
    cases h
    exact ServiceMove.save place _ ((serviceTable lower).saveMove db.rows place)
  · cases h
    exact ServiceMove.refuse _ _ .queryFailed (by decide) (by decide)
  · cases h

end Moves

end Services

end Workshop
