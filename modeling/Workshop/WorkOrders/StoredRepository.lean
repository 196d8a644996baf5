/-
The mapper and the repository over the stored rows.  A save resolves every
external id, writes the row under its version guard, then the budgets, whose
keys the items need, and the items; a load reads them back.
-/
import Mathlib.Data.List.Sort
import Workshop.Library.KeptKeys
import Workshop.Library.Upserts
import Workshop.WorkOrders.Repository
import Workshop.WorkOrders.StoredRows

namespace Workshop

namespace WorkOrders

/-- The row of a work order, with the keys of what it refers to. -/
def workOrderRow (owners : Owners) (id : InternalId) (row : WorkOrderRow) :
    Except StoredError StoredWorkOrder := do
  let customerInternalId ← internalKey owners.customers "customers" row.customerId
  let vehicleInternalId ← internalKey owners.vehicles "vehicles" row.vehicleId
  let createdByInternalId ← internalKey owners.users "users" row.createdByUserId
  let assignedMechanicInternalId ←
    internalKeyOrNull owners.users "users" row.assignedMechanicUserId
  let budgetDecidedByInternalId ←
    internalKeyOrNull owners.users "users" row.budgetDecidedByUserId
  let discountAppliedByInternalId ←
    internalKeyOrNull owners.users "users" row.discountAppliedByUserId
  let deliveredByInternalId ←
    internalKeyOrNull owners.users "users" row.deliveredByUserId
  let canceledByInternalId ←
    internalKeyOrNull owners.users "users" row.canceledByUserId
  return {
    id, externalId := row.id, number := row.number, customerInternalId
    vehicleInternalId, assignedMechanicInternalId, createdByInternalId
    status := row.status, customerName := row.customerName
    vehiclePlate := row.vehiclePlate, vehicleBrand := row.vehicleBrand
    vehicleModel := row.vehicleModel, vehicleYear := row.vehicleYear
    createdAt := row.createdAt, updatedAt := row.updatedAt
    diagnosisStartedAt := row.diagnosisStartedAt
    diagnosisCompletedAt := row.diagnosisCompletedAt
    budgetDecidedAt := row.budgetDecidedAt, budgetDecidedByInternalId
    executionStartedAt := row.executionStartedAt
    chargedTotalCents := row.chargedTotal.map Money.toText
    discountCents := row.discount.toText, discountNote := row.discountNote
    discountAppliedByInternalId, discountAppliedAt := row.discountAppliedAt
    completedAt := row.completedAt, deliveredAt := row.deliveredAt
    deliveredByInternalId, canceledAt := row.canceledAt, canceledByInternalId
    cancellationReason := row.cancellationReason, version := row.version }

def budgetRow (owners : Owners) (workOrderInternalId id : InternalId)
    (budget : Budget) : Except StoredError StoredBudget := do
  let decidedByInternalId ←
    internalKeyOrNull owners.users "users" budget.decidedByUserId
  return {
    id, externalId := budget.id, workOrderInternalId, round := budget.round
    totalCents := budget.total.toText, status := budget.status
    generatedAt := budget.generatedAt, decidedAt := budget.decidedAt
    decidedByInternalId }

def serviceRow (owners : Owners) (workOrderInternalId id : InternalId)
    (internalIdByRound : Nat → Option InternalId) (createdAt : Timestamp)
    (item : WorkOrderServiceItem) : Except StoredError StoredService := do
  let serviceInternalId ← internalKey owners.services "services" item.serviceId
  return {
    id, externalId := item.id, workOrderInternalId, serviceInternalId
    serviceName := item.serviceName, unitPriceCents := item.unitPrice.toText
    createdAt, budgetInternalId := item.budgetRound.bind internalIdByRound
    budgetedUnitPriceCents := item.budgetedUnitPrice.map Money.toText }

def partRow (owners : Owners) (workOrderInternalId id : InternalId)
    (internalIdByRound : Nat → Option InternalId) (createdAt : Timestamp)
    (item : WorkOrderPartItem) : Except StoredError StoredPart := do
  let inventoryItemInternalId ←
    internalKey owners.inventoryItems "inventory_items" item.inventoryItemId
  return {
    id, externalId := item.id, workOrderInternalId, inventoryItemInternalId
    sku := item.sku, itemName := item.itemName
    plannedQuantity := item.plannedQuantity.units
    withdrawnQuantity := item.withdrawnQuantity
    unitPriceCents := item.unitPrice.toText, createdAt
    budgetInternalId := item.budgetRound.bind internalIdByRound
    budgetedUnitPriceCents := item.budgetedUnitPrice.map Money.toText }

def eventRow (owners : Owners) (workOrderInternalId id : InternalId)
    (event : TrailEvent) : Except StoredError StoredEvent := do
  let actorInternalId ← internalKey owners.users "users" event.actorUserId
  return {
    id, workOrderInternalId, eventType := event.eventType
    fromStatus := event.fromStatus, toStatus := event.toStatus, actorInternalId
    occurredAt := event.occurredAt }

/-- `internalIdByRound`, a map the later rows win in. -/
def internalIdByRound (budgetRows : List StoredBudget) (round : Nat) :
    Option InternalId :=
  (budgetRows.reverse.find? fun row => row.round = round).map StoredBudget.id

namespace StoredTables

variable (tables : StoredTables) (owners : Owners) (self : InternalId)

/-- The row of the work order, after the guarded `UPDATE` or the `INSERT`. -/
def writeRow (workOrder : WorkOrder) : Except StoredError StoredWorkOrder :=
  match tables.workOrders.find? fun row => row.externalId = workOrder.id with
  | none =>
      workOrderRow owners tables.nextKey
        { workOrder.toWorkOrderRow with version := 0 }
  | some existing => do
      let row ← workOrderRow owners existing.id
        { workOrder.toWorkOrderRow with
          createdAt := existing.createdAt, version := workOrder.version + 1 }
      if existing.version = workOrder.version then return row
      else throw .concurrentModification

/-- The rows `replaceBudgets` saves.  A budget that has a row keeps its key. -/
def budgetRows (budgets : List Budget) (nextKey : InternalId) :
    Except StoredError (List StoredBudget) :=
  let existing := rowsOf StoredBudget.workOrderInternalId self tables.budgets
  (budgets.zipIdx nextKey).mapM fun entry =>
    budgetRow owners self
      (keptKey StoredBudget.id StoredBudget.externalId existing entry.1.id entry.2)
      entry.1

/-- The rows `replaceServiceItems` saves. -/
def serviceRows (workOrder : WorkOrder) (written : List StoredBudget)
    (nextKey : InternalId) : Except StoredError (List StoredService) :=
  let existing := rowsOf StoredService.workOrderInternalId self tables.services
  (workOrder.serviceItems.zipIdx nextKey).mapM fun entry =>
    serviceRow owners self
      (keptKey StoredService.id StoredService.externalId existing entry.1.id entry.2)
      (internalIdByRound written)
      (((existing.find? fun row => row.externalId = entry.1.id).map
        StoredService.createdAt).getD workOrder.updatedAt)
      entry.1

/-- The rows `replacePartItems` saves. -/
def partRows (workOrder : WorkOrder) (written : List StoredBudget)
    (nextKey : InternalId) : Except StoredError (List StoredPart) :=
  let existing := rowsOf StoredPart.workOrderInternalId self tables.parts
  (workOrder.partItems.zipIdx nextKey).mapM fun entry =>
    partRow owners self
      (keptKey StoredPart.id StoredPart.externalId existing entry.1.id entry.2)
      (internalIdByRound written)
      (((existing.find? fun row => row.externalId = entry.1.id).map
        StoredPart.createdAt).getD workOrder.updatedAt)
      entry.1

/-- `appendTrail` -/
def eventRows (events : List TrailEvent) (nextKey : InternalId) :
    Except StoredError (List StoredEvent) :=
  (events.zipIdx nextKey).mapM fun entry => eventRow owners self entry.2 entry.1

/-- The rows of a table once `save` wrote those with these keys. -/
def saveBudgets (written : List StoredBudget) : List StoredBudget :=
  writeRows StoredBudget.id StoredBudget.workOrderInternalId self written
    tables.budgets

/-- The rows whose external id is not written again are removed first. -/
def saveServices (written : List StoredService) : List StoredService :=
  writeRows StoredService.id StoredService.workOrderInternalId self written
    (dropRows StoredService.externalId StoredService.workOrderInternalId self
      written tables.services)

def saveParts (written : List StoredPart) : List StoredPart :=
  writeRows StoredPart.id StoredPart.workOrderInternalId self written
    (dropRows StoredPart.externalId StoredPart.workOrderInternalId self written
      tables.parts)

/-- What a transaction commits, unless it violates a constraint. -/
def commitRows (rows : StoredRows) : Except StoredError StoredTables :=
  if hconstraints : rows.Constraints then .ok ⟨rows, hconstraints⟩
  else .error .constraintViolation

/-- `save` -/
def save (workOrder : WorkOrder) : Except StoredError StoredTables := do
  let row ← tables.writeRow owners workOrder
  let budgets ← tables.budgetRows owners row.id workOrder.budgets
    (tables.nextKey + 1)
  let servicesKey := tables.nextKey + 1 + budgets.length
  let services ← tables.serviceRows owners row.id workOrder budgets servicesKey
  let partsKey := servicesKey + services.length
  let parts ← tables.partRows owners row.id workOrder budgets partsKey
  let eventsKey := partsKey + parts.length
  let events ← eventRows owners row.id workOrder.trailEvents eventsKey
  commitRows {
    workOrders := upsert StoredWorkOrder.id row tables.workOrders
    services := tables.saveServices row.id services
    parts := tables.saveParts row.id parts
    budgets := tables.saveBudgets row.id budgets
    events := tables.events ++ events
    nextKey := eventsKey + events.length }

end StoredTables

/-- `roundByBudgetInternalId` -/
def roundByBudgetInternalId (budgetRows : List StoredBudget) (id : InternalId) :
    Option Nat :=
  (budgetRows.reverse.find? fun row => row.id = id).map StoredBudget.round

/-- The columns of a work order, read back. -/
def restoreRow (owners : Owners) (row : StoredWorkOrder) :
    Except StoredError WorkOrderRow := do
  let customerId ← externalKey owners.customers "customers" row.customerInternalId
  let vehicleId ← externalKey owners.vehicles "vehicles" row.vehicleInternalId
  let createdByUserId ← externalKey owners.users "users" row.createdByInternalId
  let assignedMechanicUserId ←
    externalKeyOrNull owners.users "users" row.assignedMechanicInternalId
  let budgetDecidedByUserId ←
    externalKeyOrNull owners.users "users" row.budgetDecidedByInternalId
  let discountAppliedByUserId ←
    externalKeyOrNull owners.users "users" row.discountAppliedByInternalId
  let deliveredByUserId ←
    externalKeyOrNull owners.users "users" row.deliveredByInternalId
  let canceledByUserId ←
    externalKeyOrNull owners.users "users" row.canceledByInternalId
  let chargedTotal ← moneyOrNull row.chargedTotalCents
  let discount ← moneyFromDatabase row.discountCents
  return {
    id := row.externalId, number := row.number, customerId, vehicleId
    assignedMechanicUserId, createdByUserId, status := row.status
    customerName := row.customerName, vehiclePlate := row.vehiclePlate
    vehicleBrand := row.vehicleBrand, vehicleModel := row.vehicleModel
    vehicleYear := row.vehicleYear, createdAt := row.createdAt
    updatedAt := row.updatedAt, diagnosisStartedAt := row.diagnosisStartedAt
    diagnosisCompletedAt := row.diagnosisCompletedAt
    budgetDecidedAt := row.budgetDecidedAt, budgetDecidedByUserId
    executionStartedAt := row.executionStartedAt, chargedTotal, discount
    discountNote := row.discountNote, discountAppliedByUserId
    discountAppliedAt := row.discountAppliedAt, completedAt := row.completedAt
    deliveredAt := row.deliveredAt, deliveredByUserId, canceledAt := row.canceledAt
    canceledByUserId, cancellationReason := row.cancellationReason
    version := row.version }

def restoreBudget (owners : Owners) (row : StoredBudget) :
    Except StoredError Budget := do
  let total ← moneyFromDatabase row.totalCents
  return {
    id := row.externalId, round := row.round, total, status := row.status
    generatedAt := row.generatedAt, decidedAt := row.decidedAt
    decidedByUserId := row.decidedByInternalId.bind owners.users.toExternalId }

def restoreService (owners : Owners) (budgetRows : List StoredBudget)
    (row : StoredService) : Except StoredError WorkOrderServiceItem := do
  let serviceId ← resolved owners.services "Service" row.serviceInternalId
  let unitPrice ← moneyFromDatabase row.unitPriceCents
  let budgetedUnitPrice ← moneyOrNull row.budgetedUnitPriceCents
  return {
    id := row.externalId, serviceId, serviceName := row.serviceName, unitPrice
    budgetRound := row.budgetInternalId.bind (roundByBudgetInternalId budgetRows)
    budgetedUnitPrice }

/-- `PlannedQuantity.create`, whose error a load passes on. -/
def plannedQuantityFrom (raw : Int) : Except StoredError PlannedQuantity :=
  match PlannedQuantity.create raw with
  | .ok quantity => .ok quantity
  | .error error => .error (.workOrder error)

def restorePart (owners : Owners) (budgetRows : List StoredBudget)
    (row : StoredPart) : Except StoredError WorkOrderPartItem := do
  let inventoryItemId ←
    resolved owners.inventoryItems "Inventory item" row.inventoryItemInternalId
  let unitPrice ← moneyFromDatabase row.unitPriceCents
  let plannedQuantity ← plannedQuantityFrom row.plannedQuantity
  let budgetedUnitPrice ← moneyOrNull row.budgetedUnitPriceCents
  return {
    id := row.externalId, inventoryItemId, sku := row.sku, itemName := row.itemName
    unitPrice, plannedQuantity, withdrawnQuantity := row.withdrawnQuantity
    budgetRound := row.budgetInternalId.bind (roundByBudgetInternalId budgetRows)
    budgetedUnitPrice }

/-- `WorkOrderMapper.toDomain`, over rows whose keys the repository resolved. -/
def restoreWorkOrder (owners : Owners) (row : StoredWorkOrder)
    (services : List StoredService) (parts : List StoredPart)
    (budgets : List StoredBudget) : Except StoredError WorkOrder := do
  let restored ← restoreRow owners row
  let rounds ← (budgets.insertionSort fun a b => a.round ≤ b.round).mapM
    (restoreBudget owners)
  let serviceItems ← services.mapM (restoreService owners budgets)
  let partItems ← parts.mapM (restorePart owners budgets)
  return { restored with
    serviceItems, partItems, budgets := rounds, domainEvents := [] }

/-- The orders the reads of a load list their rows in. -/
structure LoadOrders where
  services : RowOrder StoredService := .byKey
  parts : RowOrder StoredPart := .byKey
  budgets : RowOrder StoredBudget := .byKey

/-- `findByNumber` -/
def StoredTables.findByNumber (tables : StoredTables) (owners : Owners)
    (orders : LoadOrders) (number : String) :
    Except StoredError (Option WorkOrder) :=
  match tables.workOrders.find? fun row => row.number = number with
  | none => .ok none
  | some row =>
      (restoreWorkOrder owners row
        (orders.services.arrange
          (rowsOf StoredService.workOrderInternalId row.id tables.services))
        (orders.parts.arrange
          (rowsOf StoredPart.workOrderInternalId row.id tables.parts))
        (orders.budgets.arrange
          (rowsOf StoredBudget.workOrderInternalId row.id tables.budgets))).map some

end WorkOrders

end Workshop
