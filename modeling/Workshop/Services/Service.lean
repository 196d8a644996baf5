/-
Services of the catalog: their value objects, the aggregate and the row a mapper makes
of it.
-/
import Mathlib.Data.Rat.Defs
import Workshop.Library.Results
import Workshop.Library.RowSaves
import Workshop.Shared.CodeUnits
import Workshop.Shared.Numbers
import Workshop.Shared.Texts

namespace Workshop

namespace Services

abbrev ServiceId := Uuid

inductive ServiceError
  | serviceNotFound
  | invalidServiceName
  | invalidServiceDuration
  | invalidMoneyAmount
  | serviceNameAlreadyInUse
  /-- A violation of another unique constraint, which nothing translates. -/
  | uniqueViolation
  /-- Any other error of a statement. -/
  | queryFailed
deriving DecidableEq, Repr

def maxNameLength : Nat := 120

/-- A name without white space around it and with single blanks within. -/
structure ServiceName where
  value : String
  tidy : tidyName value = value
  nonempty : value ≠ ""
  short : (codeUnits value).length ≤ maxNameLength

def ServiceName.create (raw : String) : Except ServiceError ServiceName :=
  if h : tidyName raw ≠ "" ∧ (codeUnits (tidyName raw)).length ≤ maxNameLength then
    .ok ⟨tidyName raw, tidyName_tidyName raw, h.1, h.2⟩
  else .error .invalidServiceName

structure ServiceDuration where
  minutes : Int
  pos : 0 < minutes

def ServiceDuration.fromMinutes (raw : ℚ) : Except ServiceError ServiceDuration :=
  if h : raw.isInt = true ∧ 0 < raw.num then .ok ⟨raw.num, h.2⟩
  else .error .invalidServiceDuration

/-- An amount whose cents are a `Number`. -/
structure ServicePrice where
  amount : Money
  isNumber : toNumber amount.cents = amount.cents

/-- `Money.fromCents` of a number that may be no integer. -/
def priceFromCents (raw : ℚ) : Except ServiceError ServicePrice :=
  if h : raw.isInt = true ∧ 0 ≤ raw.num then
    .ok ⟨⟨toNumber raw.num, toNumber_nonneg h.2⟩, toNumber_toNumber raw.num⟩
  else .error .invalidMoneyAmount

/-- `Money.fromDatabase` -/
def priceFromDatabase (raw : String) : Except ServiceError ServicePrice :=
  match readNumber raw with
  | some cents => priceFromCents cents
  | none => .error .invalidMoneyAmount

inductive ServiceStatus
  | active
  | inactive
deriving DecidableEq, Repr

structure Service where
  id : ServiceId
  name : ServiceName
  description : Option String
  price : ServicePrice
  duration : ServiceDuration
  status : ServiceStatus
  createdAt : Timestamp
  updatedAt : Timestamp

namespace Service

structure CreateServiceInput where
  id : ServiceId
  name : ServiceName
  description : Option String
  price : ServicePrice
  duration : ServiceDuration
  now : Timestamp

def create (input : CreateServiceInput) : Service where
  id := input.id
  name := input.name
  description := input.description
  price := input.price
  duration := input.duration
  status := .active
  createdAt := input.now
  updatedAt := input.now

/-- Of a description, `some none` clears it and `none` leaves it as it is. -/
structure UpdateServiceInput where
  name : Option ServiceName
  description : Option (Option String)
  price : Option ServicePrice
  duration : Option ServiceDuration

def updateDetails (service : Service) (input : UpdateServiceInput) (now : Timestamp) :
    Service :=
  { service with
    name := input.name.getD service.name
    description := input.description.getD service.description
    price := input.price.getD service.price
    duration := input.duration.getD service.duration
    updatedAt := now }

def deactivate (service : Service) (now : Timestamp) : Service :=
  if service.status = .inactive then service
  else { service with status := .inactive, updatedAt := now }

end Service

/-- A row of `services`.  No row is ever deleted, so its external id stands for its
internal key; its price is the text the driver makes of a `bigint`. -/
structure ServiceRow where
  externalId : ServiceId
  name : String
  description : Option String
  priceCents : String
  estimatedDurationMinutes : Int
  status : ServiceStatus
  createdAt : Timestamp
  updatedAt : Timestamp
deriving DecidableEq, Repr

namespace ServiceMapper

def toDomain (row : ServiceRow) : Except ServiceError Service := do
  let name ← ServiceName.create row.name
  let price ← priceFromDatabase row.priceCents
  let duration ← ServiceDuration.fromMinutes row.estimatedDurationMinutes
  return {
    id := row.externalId
    name := name
    description := row.description
    price := price
    duration := duration
    status := row.status
    createdAt := row.createdAt
    updatedAt := row.updatedAt }

def toOrm (service : Service) : ServiceRow where
  externalId := service.id
  name := service.name.value
  description := service.description
  priceCents := service.price.amount.toText
  estimatedDurationMinutes := service.duration.minutes
  status := service.status
  createdAt := service.createdAt
  updatedAt := service.updatedAt

end ServiceMapper

/-- The types, the lengths and the checks of the columns of `services`. -/
def ServiceRow.fits (row : ServiceRow) : Bool :=
  row.name.length ≤ 120 && (row.description.all fun text => text.length ≤ 255) &&
    ((numberOf row.priceCents).any fun cents => 0 ≤ cents && cents < 2 ^ 63) &&
    0 < row.estimatedDurationMinutes && row.estimatedDurationMinutes < 2 ^ 31

/-- `ux_services_active_name` has the names of the active services in lower case. -/
def ServiceRow.activeName (lower : String → String) (row : ServiceRow) : Option String :=
  if row.status = .active then some (lower row.name) else none

def ServiceRow.merge (read written current : ServiceRow) : ServiceRow where
  externalId := mergeColumn read.externalId written.externalId current.externalId
  name := mergeColumn read.name written.name current.name
  description := mergeColumn read.description written.description current.description
  priceCents := mergeColumn read.priceCents written.priceCents current.priceCents
  estimatedDurationMinutes := mergeColumn read.estimatedDurationMinutes
    written.estimatedDurationMinutes current.estimatedDurationMinutes
  status := mergeColumn read.status written.status current.status
  createdAt := mergeColumn read.createdAt written.createdAt current.createdAt
  updatedAt := mergeColumn read.updatedAt written.updatedAt current.updatedAt

theorem ServiceRow.merge_self (read written : ServiceRow) :
    ServiceRow.merge read written read = written := by
  simp only [ServiceRow.merge, mergeColumn_self]

/-- The table `services`, under the `lower` of the database. -/
def serviceTable (lower : String → String) : TableSpec ServiceRow ServiceId String where
  key := ServiceRow.externalId
  entry := ServiceRow.activeName lower
  fits := ServiceRow.fits
  merge := ServiceRow.merge
  merge_key := fun _ hcurrent => (mergeColumn_of_eq hcurrent.symm).trans hcurrent
  merge_self := ServiceRow.merge_self

end Services

end Workshop
