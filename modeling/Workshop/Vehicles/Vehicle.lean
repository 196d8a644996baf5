/-
Vehicles: the license plate, the year, the aggregate and the row a mapper makes of it.
-/
import Mathlib.Data.Rat.Defs
import Workshop.Library.Results
import Workshop.Library.RowSaves
import Workshop.Shared.Calendar
import Workshop.Shared.Texts

namespace Workshop

namespace Vehicles

abbrev VehicleId := Uuid

/-- The external id of a customer. -/
abbrev CustomerId := Uuid

inductive VehicleError
  | vehicleNotFound
  | referencedCustomerNotFound
  | owningCustomerInactive
  | invalidLicensePlate
  | invalidVehicleYear
  | invalidVehicleDetails
  | licensePlateAlreadyInUse
  /-- Any other error of a statement. -/
  | queryFailed
deriving DecidableEq, Repr

/-- `OLD_FORMAT`: AAA0000 -/
def isOldPlate : List Char → Bool
  | [a, b, c, d, e, f, g] =>
      a.isUpper && b.isUpper && c.isUpper && d.isDigit && e.isDigit && f.isDigit && g.isDigit
  | _ => false

/-- `MERCOSUL_FORMAT`: AAA0A00 -/
def isMercosulPlate : List Char → Bool
  | [a, b, c, d, e, f, g] =>
      a.isUpper && b.isUpper && c.isUpper && d.isDigit && e.isUpper && f.isDigit && g.isDigit
  | _ => false

def isPlate (chars : List Char) : Bool := isOldPlate chars || isMercosulPlate chars

/-- What is left of a plate without its punctuation, in upper case. -/
def plateChars (raw : String) : List Char :=
  (raw.toList.filter Char.isAlphanum).map Char.toUpper

structure LicensePlate where
  value : String
  valid : isPlate value.toList = true

def LicensePlate.create (raw : String) : Except VehicleError LicensePlate :=
  if h : isPlate (plateChars raw) = true then
    .ok ⟨String.ofList (plateChars raw), by rwa [String.toList_ofList]⟩
  else .error .invalidLicensePlate

def minYear : Int := 1950

structure VehicleYear where
  value : Int
  least : minYear ≤ value

/-- A year up to the one after the current year. -/
def VehicleYear.create (raw : ℚ) (currentYear : Int) : Except VehicleError VehicleYear :=
  if h : raw.isInt = true ∧ minYear ≤ raw.num ∧ raw.num ≤ currentYear + 1 then
    .ok ⟨raw.num, h.2.1⟩
  else .error .invalidVehicleYear

def normaliseText (raw : String) : Except VehicleError String :=
  if trim raw = "" then .error .invalidVehicleDetails else .ok (trim raw)

structure Vehicle where
  id : VehicleId
  customerId : CustomerId
  plate : LicensePlate
  brand : String
  model : String
  year : VehicleYear
  createdAt : Timestamp
  updatedAt : Timestamp
  deletedAt : Option Timestamp

namespace Vehicle

structure RegisterVehicleInput where
  id : VehicleId
  customerId : CustomerId
  plate : LicensePlate
  brand : String
  model : String
  year : VehicleYear
  now : Timestamp

def register (input : RegisterVehicleInput) : Except VehicleError Vehicle := do
  let brand ← normaliseText input.brand
  let model ← normaliseText input.model
  return {
    id := input.id
    customerId := input.customerId
    plate := input.plate
    brand := brand
    model := model
    year := input.year
    createdAt := input.now
    updatedAt := input.now
    deletedAt := none }

/-- A text of an update; one that is absent is left as it is. -/
def updatedText (raw : Option String) (kept : String) : Except VehicleError String :=
  match raw with
  | some raw => normaliseText raw
  | none => .ok kept

def updateDetails (vehicle : Vehicle) (brand model : Option String)
    (year : Option VehicleYear) (now : Timestamp) : Except VehicleError Vehicle := do
  let brand ← updatedText brand vehicle.brand
  let model ← updatedText model vehicle.model
  return { vehicle with
    brand := brand
    model := model
    year := year.getD vehicle.year
    updatedAt := now }

def transferTo (vehicle : Vehicle) (customerId : CustomerId) (now : Timestamp) : Vehicle :=
  { vehicle with customerId := customerId, updatedAt := now }

def remove (vehicle : Vehicle) (now : Timestamp) : Vehicle :=
  if vehicle.deletedAt.isSome then vehicle
  else { vehicle with deletedAt := some now, updatedAt := now }

end Vehicle

/-- A row of `vehicles`.  No row is ever deleted, so its external id stands for its
internal key, and so does the owner's. -/
structure VehicleRow where
  externalId : VehicleId
  customerId : CustomerId
  plate : String
  brand : String
  model : String
  year : Int
  createdAt : Timestamp
  updatedAt : Timestamp
  deletedAt : Option Timestamp
deriving DecidableEq, Repr

namespace VehicleMapper

/-- The year is checked again, against the year it is today. -/
def toDomain (row : VehicleRow) (currentYear : Int) : Except VehicleError Vehicle := do
  let plate ← LicensePlate.create row.plate
  let year ← VehicleYear.create row.year currentYear
  return {
    id := row.externalId
    customerId := row.customerId
    plate := plate
    brand := row.brand
    model := row.model
    year := year
    createdAt := row.createdAt
    updatedAt := row.updatedAt
    deletedAt := row.deletedAt }

def toOrm (vehicle : Vehicle) : VehicleRow where
  externalId := vehicle.id
  customerId := vehicle.customerId
  plate := vehicle.plate.value
  brand := vehicle.brand
  model := vehicle.model
  year := vehicle.year.value
  createdAt := vehicle.createdAt
  updatedAt := vehicle.updatedAt
  deletedAt := vehicle.deletedAt

end VehicleMapper

/-- The lengths and the range the columns of `vehicles` allow. -/
def VehicleRow.fits (row : VehicleRow) : Bool :=
  row.plate.length ≤ 7 && row.brand.length ≤ 60 && row.model.length ≤ 60 &&
    -32768 ≤ row.year && row.year ≤ 32767

/-- `ux_vehicles_plate` has the plates of the vehicles that are not removed. -/
def VehicleRow.activePlate (row : VehicleRow) : Option String :=
  if row.deletedAt.isNone then some row.plate else none

def VehicleRow.merge (read written current : VehicleRow) : VehicleRow where
  externalId := mergeColumn read.externalId written.externalId current.externalId
  customerId := mergeColumn read.customerId written.customerId current.customerId
  plate := mergeColumn read.plate written.plate current.plate
  brand := mergeColumn read.brand written.brand current.brand
  model := mergeColumn read.model written.model current.model
  year := mergeColumn read.year written.year current.year
  createdAt := mergeColumn read.createdAt written.createdAt current.createdAt
  updatedAt := mergeColumn read.updatedAt written.updatedAt current.updatedAt
  deletedAt := mergeColumn read.deletedAt written.deletedAt current.deletedAt

theorem VehicleRow.merge_self (read written : VehicleRow) :
    VehicleRow.merge read written read = written := by
  simp only [VehicleRow.merge, mergeColumn_self]

/-- The table `vehicles`. -/
def vehicleTable : TableSpec VehicleRow VehicleId String where
  key := VehicleRow.externalId
  entry := VehicleRow.activePlate
  fits := VehicleRow.fits
  merge := VehicleRow.merge
  merge_key := fun _ hcurrent => (mergeColumn_of_eq hcurrent.symm).trans hcurrent
  merge_self := VehicleRow.merge_self

end Vehicles

end Workshop
