/-
The read side of a work order: the summaries its query adapter composes from
the stored rows, apart from the mapper and the repository.
-/
import Workshop.WorkOrders.StoredRepository

namespace Workshop

namespace WorkOrders

structure WorkOrderServiceItemDto where
  id : WorkOrderItemId
  serviceId : Uuid
  serviceName : String
  unitPriceCents : Int
  budgetRound : Option Nat
  budgetedUnitPriceCents : Option Int
deriving DecidableEq, Repr

structure WorkOrderPartItemDto where
  id : WorkOrderItemId
  inventoryItemId : ItemId
  sku : String
  itemName : String
  plannedQuantity : Int
  withdrawnQuantity : Int
  unitPriceCents : Int
  budgetRound : Option Nat
  budgetedUnitPriceCents : Option Int
deriving DecidableEq, Repr

structure WorkOrderBudgetDto where
  id : BudgetId
  round : Nat
  totalCents : Int
  status : BudgetStatus
  generatedAt : Timestamp
  decidedAt : Option Timestamp
  decidedByUserId : Option UserId
deriving DecidableEq, Repr

structure WorkOrderSummaryDto where
  id : WorkOrderId
  number : String
  customerId : Uuid
  vehicleId : Uuid
  assignedMechanicUserId : Option UserId
  createdByUserId : UserId
  status : WorkOrderStatus
  customerName : String
  vehiclePlate : String
  vehicleBrand : String
  vehicleModel : String
  vehicleYear : Nat
  serviceItems : List WorkOrderServiceItemDto
  partItems : List WorkOrderPartItemDto
  budgets : List WorkOrderBudgetDto
  chargedTotalCents : Option Int
  discountCents : Int
  discountNote : Option String
  completedAt : Option Timestamp
  deliveredAt : Option Timestamp
  canceledAt : Option Timestamp
  cancellationReason : Option String
deriving DecidableEq, Repr

/-- The round a `LEFT JOIN work_order_budgets` finds. -/
def joinedRound (budgets : List StoredBudget) (budgetId : Option InternalId) :
    Option Nat :=
  budgetId.bind fun id =>
    (budgets.find? fun row => row.id = id).map StoredBudget.round

/-- The summary of a service, left out when its service is missing. -/
def serviceItemToDto (owners : Owners) (budgets : List StoredBudget)
    (row : StoredService) : Except StoredError (Option WorkOrderServiceItemDto) :=
  match owners.services.toExternalId row.serviceInternalId with
  | none => .ok none
  | some serviceId => do
      let unitPrice ← moneyFromDatabase row.unitPriceCents
      let budgetedUnitPriceCents ← centsOrNull row.budgetedUnitPriceCents
      return some {
        id := row.externalId, serviceId, serviceName := row.serviceName
        unitPriceCents := unitPrice.cents
        budgetRound := joinedRound budgets row.budgetInternalId
        budgetedUnitPriceCents }

def partItemToDto (owners : Owners) (budgets : List StoredBudget)
    (row : StoredPart) : Except StoredError (Option WorkOrderPartItemDto) :=
  match owners.inventoryItems.toExternalId row.inventoryItemInternalId with
  | none => .ok none
  | some inventoryItemId => do
      let unitPrice ← moneyFromDatabase row.unitPriceCents
      let budgetedUnitPriceCents ← centsOrNull row.budgetedUnitPriceCents
      return some {
        id := row.externalId, inventoryItemId, sku := row.sku
        itemName := row.itemName, plannedQuantity := row.plannedQuantity
        withdrawnQuantity := row.withdrawnQuantity
        unitPriceCents := unitPrice.cents
        budgetRound := joinedRound budgets row.budgetInternalId
        budgetedUnitPriceCents }

def budgetToDto (owners : Owners) (row : StoredBudget) :
    Except StoredError WorkOrderBudgetDto := do
  let total ← moneyFromDatabase row.totalCents
  return {
    id := row.externalId, round := row.round, totalCents := total.cents
    status := row.status, generatedAt := row.generatedAt
    decidedAt := row.decidedAt
    decidedByUserId := row.decidedByInternalId.bind owners.users.toExternalId }

namespace StoredTables

variable (tables : StoredTables) (owners : Owners)

/-- `toDtos` for one row, left out when its customer, its vehicle or its
creator is missing.  Items come in the order of their keys, budgets by round. -/
def toDto (row : StoredWorkOrder) :
    Except StoredError (Option WorkOrderSummaryDto) :=
  match owners.customers.toExternalId row.customerInternalId,
      owners.vehicles.toExternalId row.vehicleInternalId,
      owners.users.toExternalId row.createdByInternalId with
  | some customerId, some vehicleId, some createdByUserId => do
      let serviceItems ←
        ((rowsOf StoredService.workOrderInternalId row.id tables.services).insertionSort
          fun a b => a.id ≤ b.id).mapM (serviceItemToDto owners tables.budgets)
      let partItems ←
        ((rowsOf StoredPart.workOrderInternalId row.id tables.parts).insertionSort
          fun a b => a.id ≤ b.id).mapM (partItemToDto owners tables.budgets)
      let budgets ←
        ((rowsOf StoredBudget.workOrderInternalId row.id tables.budgets).insertionSort
          fun a b => a.round ≤ b.round).mapM (budgetToDto owners)
      let chargedTotalCents ← centsOrNull row.chargedTotalCents
      let discount ← moneyFromDatabase row.discountCents
      return some {
        id := row.externalId, number := row.number, customerId, vehicleId
        assignedMechanicUserId :=
          row.assignedMechanicInternalId.bind owners.users.toExternalId
        createdByUserId, status := row.status, customerName := row.customerName
        vehiclePlate := row.vehiclePlate, vehicleBrand := row.vehicleBrand
        vehicleModel := row.vehicleModel, vehicleYear := row.vehicleYear
        serviceItems := serviceItems.reduceOption
        partItems := partItems.reduceOption, budgets, chargedTotalCents
        discountCents := discount.cents, discountNote := row.discountNote
        completedAt := row.completedAt, deliveredAt := row.deliveredAt
        canceledAt := row.canceledAt
        cancellationReason := row.cancellationReason }
  | _, _, _ => .ok none

/-- `getByNumber` -/
def getByNumber (number : String) :
    Except StoredError (Option WorkOrderSummaryDto) := do
  let summaries ← (tables.workOrders.filter fun row => row.number = number).mapM
    (tables.toDto owners)
  return summaries.reduceOption.head?

end StoredTables

end WorkOrders

end Workshop
