/-
The requests that register, update and remove vehicles, as programs that interleave
at their reads and writes.  A request changes the copy it loaded and saves the whole
copy; what the customers' module says of an owner is part of the input.
-/
import Workshop.Library.ClockedRuns
import Workshop.Vehicles.Vehicle

namespace Workshop

namespace Vehicles

structure RegisterVehicleCommand where
  customerId : CustomerId
  plate : String
  brand : String
  model : String
  year : ℚ

structure UpdateVehicleCommand where
  vehicleId : VehicleId
  brand : Option String
  model : Option String
  year : Option ℚ
  customerId : Option CustomerId

/-- A request that changes a vehicle it loads. -/
inductive VehicleRequest
  | update (command : UpdateVehicleCommand)
  | remove (vehicleId : VehicleId)

def VehicleRequest.vehicleId : VehicleRequest → VehicleId
  | .update command => command.vehicleId
  | .remove vehicleId => vehicleId

/-- What the owner directory answers: no such customer, or whether it is active. -/
abbrev OwnerAnswer := Option Bool

def checkOwner : OwnerAnswer → Except VehicleError Unit
  | none => .error .referencedCustomerNotFound
  | some false => .error .owningCustomerInactive
  | some true => .ok ()

/-- The table `vehicles` and the id generator. -/
abbrev VehicleDb := RowStore VehicleRow

/-- `TypeOrmVehicleRepository.findById`, on the day it is read. -/
def VehicleDb.findById (db : VehicleDb) (id : VehicleId) (currentYear : Int) :
    Except VehicleError Vehicle :=
  match vehicleTable.findRow db.rows id with
  | none => .error .vehicleNotFound
  | some row => VehicleMapper.toDomain row currentYear

/-- Where a request stands between two statements. -/
inductive VehiclePlace
  | idle
  /-- The vehicle is loaded; the clock and the change are next. -/
  | loaded (request : VehicleRequest) (vehicle : Vehicle)
  /-- The details are changed; the look at the new owner is next. -/
  | transferring (vehicle : Vehicle) (customerId : CustomerId) (now : Timestamp)
  | saving (place : SavePlace VehicleRow)

/-- What a request asks for, or how the statement it stands at ends. -/
inductive VehicleInput
  | register (command : RegisterVehicleCommand) (owner : OwnerAnswer) (now : Timestamp)
  | find (request : VehicleRequest) (today : Timestamp)
  | change (now : Timestamp)
  | owner (answer : OwnerAnswer)
  | proceed
  /-- The statement fails, or the program stops. -/
  | fail

inductive VehicleEffect
  /-- A registration made the vehicle, under an id of its own. -/
  | registering (row : VehicleRow)
  | saved (row : VehicleRow)
  | refused (error : VehicleError)

abbrev VehicleOutcome := Outcome VehicleDb VehiclePlace VehicleEffect

/-- `RegisterVehicleUseCase.execute`, up to the save. -/
def registerVehicle (id : VehicleId) (command : RegisterVehicleCommand) (owner : OwnerAnswer)
    (now : Timestamp) (currentYear : Int) : Except VehicleError Vehicle := do
  checkOwner owner
  let plate ← LicensePlate.create command.plate
  let year ← VehicleYear.create command.year currentYear
  Vehicle.register {
    id := id
    customerId := command.customerId
    plate := plate
    brand := command.brand
    model := command.model
    year := year
    now := now }

/-- The year of an update, if it has one. -/
def updatedYear (raw : Option ℚ) (currentYear : Int) :
    Except VehicleError (Option VehicleYear) :=
  match raw with
  | some raw => (VehicleYear.create raw currentYear).map some
  | none => .ok none

/-- `UpdateVehicleUseCase.execute`, from the clock to the details. -/
def updateVehicle (vehicle : Vehicle) (command : UpdateVehicleCommand) (now : Timestamp)
    (currentYear : Int) : Except VehicleError Vehicle := do
  let year ← updatedYear command.year currentYear
  vehicle.updateDetails command.brand command.model year now

/-- The save of a vehicle begins. -/
def VehiclePlace.save (vehicle : Vehicle) : VehiclePlace :=
  .saving (.finding (VehicleMapper.toOrm vehicle))

/-- The change of a loaded vehicle, and where it leads. -/
def VehicleRequest.change (request : VehicleRequest) (vehicle : Vehicle) (now : Timestamp)
    (currentYear : Int) : Except VehicleError VehiclePlace :=
  match request with
  | .remove _ => .ok (.save (vehicle.remove now))
  | .update command =>
      match command.customerId with
      | none => (updateVehicle vehicle command now currentYear).map VehiclePlace.save
      | some customerId =>
          (updateVehicle vehicle command now currentYear).map fun changed =>
            .transferring changed customerId now

/-- A violation of `ux_vehicles_plate` is a plate in use. -/
def saveError : RowError → VehicleError
  | .entryTaken => .licensePlateAlreadyInUse
  | _ => .queryFailed

def VehicleDb.refuse (db : VehicleDb) (error : VehicleError) : VehicleOutcome where
  store := db
  place := .idle
  effects := [.refused error]

/-- A request goes on where it can. -/
def VehicleDb.continue (db : VehicleDb) : Except VehicleError VehiclePlace → VehicleOutcome
  | .ok place => { store := db, place := place }
  | .error error => db.refuse error

def vehicleSaves : SaveEnds VehicleRow VehiclePlace VehicleEffect where
  saving := .saving
  idle := .idle
  saved := .saved
  failed := fun error => .refused (saveError error)

/-- `TypeOrmVehicleRepository.save` after one more statement. -/
abbrev VehicleDb.afterSave (db : VehicleDb) (step : SaveStep VehicleRow) : VehicleOutcome :=
  RowStore.afterSave vehicleSaves db step

def VehicleDb.afterRegister (db : VehicleDb) : Except VehicleError Vehicle → VehicleOutcome
  | .ok vehicle =>
      { store := { db with nextId := db.nextId + 1 }
        place := .save vehicle
        effects := [.registering (VehicleMapper.toOrm vehicle)] }
  | .error error => db.refuse error

/-- One statement of a request. -/
def vehicleExec (calendar : Calendar) (db : VehicleDb) :
    VehiclePlace → VehicleInput → Option VehicleOutcome
  | .idle, .register command owner now =>
      some (db.afterRegister
        (registerVehicle db.nextId command owner now (calendar.fullYear now)))
  | .idle, .find request today =>
      some (db.continue
        ((db.findById request.vehicleId (calendar.fullYear today)).map (.loaded request)))
  | .loaded request vehicle, .change now =>
      some (db.continue (request.change vehicle now (calendar.fullYear now)))
  | .transferring vehicle customerId now, .owner answer =>
      some (db.continue
        ((checkOwner answer).map fun _ => .save (vehicle.transferTo customerId now)))
  | .saving place, .proceed => some (db.afterSave (vehicleTable.saveStep db.rows place))
  | _, .fail => some (db.refuse .queryFailed)
  | _, _ => none

/-- The clock a turn reads. -/
def VehicleInput.reading : VehicleInput → Option Timestamp
  | .register _ _ now => some now
  | .find _ today => some today
  | .change now => some now
  | _ => none

/-- No vehicle is registered. -/
def noVehicles : Config VehicleDb VehiclePlace := ⟨{}, fun _ => .idle⟩

/-- The configurations the requests reach, with a clock that never goes back. -/
abbrev VehiclesReachAt (calendar : Calendar) :=
  ClockedReaches (vehicleExec calendar) (fun _ _ _ => True) VehicleInput.reading noVehicles 0

/-- What the statements of a request can do. -/
inductive VehicleMove (calendar : Calendar) (db : VehicleDb) :
    VehiclePlace → VehicleInput → VehicleOutcome → Prop
  | refuse (place : VehiclePlace) (input : VehicleInput) (error : VehicleError) :
      VehicleMove calendar db place input (db.refuse error)
  | register (command : RegisterVehicleCommand) (owner : OwnerAnswer) (now : Timestamp)
      (vehicle : Vehicle) (hregister : registerVehicle db.nextId command owner now
        (calendar.fullYear now) = .ok vehicle) :
      VehicleMove calendar db .idle (.register command owner now)
        (db.afterRegister (.ok vehicle))
  | find (request : VehicleRequest) (today : Timestamp) (row : VehicleRow)
      (vehicle : Vehicle) (hrow : row ∈ db.rows)
      (hload : VehicleMapper.toDomain row (calendar.fullYear today) = .ok vehicle) :
      VehicleMove calendar db .idle (.find request today)
        { store := db, place := .loaded request vehicle }
  | remove (vehicleId : VehicleId) (vehicle : Vehicle) (now : Timestamp) :
      VehicleMove calendar db (.loaded (.remove vehicleId) vehicle) (.change now)
        { store := db, place := .save (vehicle.remove now) }
  | update (command : UpdateVehicleCommand) (vehicle changed : Vehicle) (now : Timestamp)
      (hupdate : updateVehicle vehicle command now (calendar.fullYear now) = .ok changed)
      (place : VehiclePlace) (hplace : place = .save changed ∨
        ∃ customerId, place = .transferring changed customerId now) :
      VehicleMove calendar db (.loaded (.update command) vehicle) (.change now)
        { store := db, place := place }
  | transfer (vehicle : Vehicle) (customerId : CustomerId) (now : Timestamp)
      (answer : OwnerAnswer) :
      VehicleMove calendar db (.transferring vehicle customerId now) (.owner answer)
        { store := db, place := .save (vehicle.transferTo customerId now) }
  | save (place : SavePlace VehicleRow) (step : SaveStep VehicleRow)
      (hmove : vehicleTable.SaveMove db.rows place step) :
      VehicleMove calendar db (.saving place) .proceed (db.afterSave step)

section Moves

variable {calendar : Calendar} {db : VehicleDb} {place : VehiclePlace}
variable {input : VehicleInput} {out : VehicleOutcome}

theorem vehicleMove_of_find (request : VehicleRequest) (today : Timestamp) :
    VehicleMove calendar db .idle (.find request today) (db.continue
      ((db.findById request.vehicleId (calendar.fullYear today)).map (.loaded request))) := by
  unfold VehicleDb.findById
  cases hfind : vehicleTable.findRow db.rows request.vehicleId with
  | none => exact VehicleMove.refuse _ _ .vehicleNotFound
  | some row =>
      dsimp only
      cases hload : VehicleMapper.toDomain row (calendar.fullYear today) with
      | error error => exact VehicleMove.refuse _ _ error
      | ok vehicle =>
          exact VehicleMove.find request today row vehicle
            (List.mem_of_find?_eq_some hfind) hload

theorem vehicleMove_of_change (request : VehicleRequest) (vehicle : Vehicle)
    (now : Timestamp) :
    VehicleMove calendar db (.loaded request vehicle) (.change now)
      (db.continue (request.change vehicle now (calendar.fullYear now))) := by
  cases request with
  | remove vehicleId => exact VehicleMove.remove vehicleId vehicle now
  | update command =>
      unfold VehicleRequest.change
      dsimp only
      cases hupdate : updateVehicle vehicle command now (calendar.fullYear now) with
      | error error => split <;> exact VehicleMove.refuse _ _ error
      | ok changed =>
          split
          · exact VehicleMove.update command vehicle changed now hupdate _ (Or.inl rfl)
          · rename_i customerId _
            exact VehicleMove.update command vehicle changed now hupdate _
              (Or.inr ⟨customerId, rfl⟩)

/-- Every statement of a request is one of these moves. -/
theorem vehicleMove_of_exec (h : vehicleExec calendar db place input = some out) :
    VehicleMove calendar db place input out := by
  unfold vehicleExec at h
  split at h
  · rename_i command owner now
    cases h
    cases hregister : registerVehicle db.nextId command owner now
        (calendar.fullYear now) with
    | error error => exact VehicleMove.refuse _ _ error
    | ok vehicle => exact VehicleMove.register command owner now vehicle hregister
  · rename_i request today
    cases h
    exact vehicleMove_of_find request today
  · rename_i request vehicle now
    cases h
    exact vehicleMove_of_change request vehicle now
  · rename_i vehicle customerId now answer
    cases h
    cases hanswer : checkOwner answer with
    | error error => exact VehicleMove.refuse _ _ error
    | ok _ => exact VehicleMove.transfer vehicle customerId now answer
  · rename_i place
    cases h
    exact VehicleMove.save place _ (vehicleTable.saveMove db.rows place)
  · cases h
    exact VehicleMove.refuse _ _ .queryFailed
  · cases h

end Moves

end Vehicles

end Workshop
