/-
Reading back what was written: each row of a work order restores what it was
written from, and its summary says the same.
-/
import Workshop.WorkOrders.LoadAndSave
import Workshop.WorkOrders.StoredQueries

namespace Workshop

namespace WorkOrders

def WorkOrderServiceItem.toDto (item : WorkOrderServiceItem) :
    WorkOrderServiceItemDto where
  id := item.id
  serviceId := item.serviceId
  serviceName := item.serviceName
  unitPriceCents := item.unitPrice.cents
  budgetRound := item.budgetRound
  budgetedUnitPriceCents := item.budgetedUnitPrice.map Money.cents

def WorkOrderPartItem.toDto (item : WorkOrderPartItem) : WorkOrderPartItemDto where
  id := item.id
  inventoryItemId := item.inventoryItemId
  sku := item.sku
  itemName := item.itemName
  plannedQuantity := item.plannedQuantity.units
  withdrawnQuantity := item.withdrawnQuantity
  unitPriceCents := item.unitPrice.cents
  budgetRound := item.budgetRound
  budgetedUnitPriceCents := item.budgetedUnitPrice.map Money.cents

def Budget.toDto (budget : Budget) : WorkOrderBudgetDto where
  id := budget.id
  round := budget.round
  totalCents := budget.total.cents
  status := budget.status
  generatedAt := budget.generatedAt
  decidedAt := budget.decidedAt
  decidedByUserId := budget.decidedByUserId

/-- What the read side has to say of a work order. -/
def WorkOrder.toDto (workOrder : WorkOrder) : WorkOrderSummaryDto where
  id := workOrder.id
  number := workOrder.number
  customerId := workOrder.customerId
  vehicleId := workOrder.vehicleId
  assignedMechanicUserId := workOrder.assignedMechanicUserId
  createdByUserId := workOrder.createdByUserId
  status := workOrder.status
  customerName := workOrder.customerName
  vehiclePlate := workOrder.vehiclePlate
  vehicleBrand := workOrder.vehicleBrand
  vehicleModel := workOrder.vehicleModel
  vehicleYear := workOrder.vehicleYear
  serviceItems := workOrder.serviceItems.map WorkOrderServiceItem.toDto
  partItems := workOrder.partItems.map WorkOrderPartItem.toDto
  budgets := workOrder.budgets.map Budget.toDto
  chargedTotalCents := workOrder.chargedTotal.map Money.cents
  discountCents := workOrder.discount.cents
  discountNote := workOrder.discountNote
  completedAt := workOrder.completedAt
  deliveredAt := workOrder.deliveredAt
  canceledAt := workOrder.canceledAt
  cancellationReason := workOrder.cancellationReason

/-- A summary that says what a work order is, its items in any order and its
budgets by round. -/
structure WorkOrderSummaryDto.Answers (dto : WorkOrderSummaryDto)
    (workOrder : WorkOrder) : Prop where
  columns : { dto with serviceItems := [], partItems := [], budgets := [] } =
    { workOrder.toDto with serviceItems := [], partItems := [], budgets := [] }
  services : dto.serviceItems.Perm workOrder.toDto.serviceItems
  parts : dto.partItems.Perm workOrder.toDto.partItems
  budgets : dto.budgets.Perm workOrder.toDto.budgets
  rounds : dto.budgets.Pairwise fun left right => left.round < right.round

section Rows

variable {owners : Owners} {self id : InternalId} {createdAt : Timestamp}
variable {keyOf : Nat → Option InternalId} {budgets : List StoredBudget}

/-- The row of a work order: its keys, and what both readers make of it. -/
structure RowWritten (owners : Owners) (id : InternalId) (state : WorkOrder)
    (row : StoredWorkOrder) : Prop where
  id : row.id = id
  externalId : row.externalId = state.id
  number : row.number = state.number
  version : row.version = state.version
  createdAt : row.createdAt = state.createdAt
  restored : restoreRow owners row = .ok state.toWorkOrderRow
  answered : ∀ (tables : StoredTables) serviceItems partItems budgets,
    ((rowsOf StoredService.workOrderInternalId row.id tables.services).insertionSort
      fun a b => a.id ≤ b.id).mapM (serviceItemToDto owners tables.budgets) =
        .ok serviceItems →
    ((rowsOf StoredPart.workOrderInternalId row.id tables.parts).insertionSort
      fun a b => a.id ≤ b.id).mapM (partItemToDto owners tables.budgets) =
        .ok partItems →
    ((rowsOf StoredBudget.workOrderInternalId row.id tables.budgets).insertionSort
      fun a b => a.round ≤ b.round).mapM (budgetToDto owners) = .ok budgets →
    tables.toDto owners row = .ok (some { state.toDto with
      serviceItems := serviceItems.reduceOption
      partItems := partItems.reduceOption, budgets })

theorem rowWritten {state : WorkOrder} {row : StoredWorkOrder}
    (h : workOrderRow owners id state.toWorkOrderRow = .ok row) :
    RowWritten owners id state row := by
  obtain ⟨customer, hcustomer, h⟩ := bind_eq_ok_iff.mp h
  obtain ⟨vehicle, hvehicle, h⟩ := bind_eq_ok_iff.mp h
  obtain ⟨creator, hcreator, h⟩ := bind_eq_ok_iff.mp h
  obtain ⟨mechanic, hmechanic, h⟩ := bind_eq_ok_iff.mp h
  obtain ⟨decider, hdecider, h⟩ := bind_eq_ok_iff.mp h
  obtain ⟨discounter, hdiscounter, h⟩ := bind_eq_ok_iff.mp h
  obtain ⟨deliverer, hdeliverer, h⟩ := bind_eq_ok_iff.mp h
  obtain ⟨canceler, hcanceler, h⟩ := bind_eq_ok_iff.mp h
  rw [pure_eq_ok_iff] at h
  subst h
  refine ⟨rfl, rfl, rfl, rfl, rfl, ?_, ?_⟩
  · simp only [restoreRow, externalKey_of_internalKey hcustomer,
      externalKey_of_internalKey hvehicle, externalKey_of_internalKey hcreator,
      externalKeyOrNull_of_internalKeyOrNull hmechanic,
      externalKeyOrNull_of_internalKeyOrNull hdecider,
      externalKeyOrNull_of_internalKeyOrNull hdiscounter,
      externalKeyOrNull_of_internalKeyOrNull hdeliverer,
      externalKeyOrNull_of_internalKeyOrNull hcanceler, moneyOrNull_toText,
      moneyFromDatabase_toText]
    rfl
  · intro tables serviceItems partItems budgets hservices hparts hbudgets
    simp only [StoredTables.toDto, toExternalId_of_internalKey hcustomer,
      toExternalId_of_internalKey hvehicle, toExternalId_of_internalKey hcreator,
      bind_of_internalKeyOrNull hmechanic, hservices, hparts, hbudgets,
      centsOrNull_toText, moneyFromDatabase_toText]
    rfl

/-- A budget row: its columns, and what both readers make of it. -/
structure BudgetWritten (owners : Owners) (holder id : InternalId) (budget : Budget)
    (row : StoredBudget) : Prop where
  id : row.id = id
  externalId : row.externalId = budget.id
  owner : row.workOrderInternalId = holder
  round : row.round = budget.round
  restored : restoreBudget owners row = .ok budget
  answered : budgetToDto owners row = .ok budget.toDto

theorem budgetWritten {budget : Budget} {row : StoredBudget}
    (h : budgetRow owners self id budget = .ok row) :
    BudgetWritten owners self id budget row := by
  obtain ⟨decider, hdecider, h⟩ := bind_eq_ok_iff.mp h
  rw [pure_eq_ok_iff] at h
  subst h
  refine ⟨rfl, rfl, rfl, rfl, ?_, ?_⟩
  · simp only [restoreBudget, moneyFromDatabase_toText,
      bind_of_internalKeyOrNull hdecider]
    rfl
  · simp only [budgetToDto, moneyFromDatabase_toText,
      bind_of_internalKeyOrNull hdecider]
    rfl

/-- A service row: its columns, and what both readers make of it when its
budget leads back to its round. -/
structure ServiceWritten (owners : Owners) (holder id : InternalId)
    (keyOf : Nat → Option InternalId) (item : WorkOrderServiceItem)
    (row : StoredService) : Prop where
  id : row.id = id
  externalId : row.externalId = item.id
  owner : row.workOrderInternalId = holder
  restored : ∀ budgets,
    (item.budgetRound.bind keyOf).bind (roundByBudgetInternalId budgets) =
      item.budgetRound → restoreService owners budgets row = .ok item
  answered : ∀ budgets,
    joinedRound budgets (item.budgetRound.bind keyOf) = item.budgetRound →
      serviceItemToDto owners budgets row = .ok (some item.toDto)

theorem serviceWritten {item : WorkOrderServiceItem} {row : StoredService}
    (h : serviceRow owners self id keyOf createdAt item = .ok row) :
    ServiceWritten owners self id keyOf item row := by
  obtain ⟨service, hservice, h⟩ := bind_eq_ok_iff.mp h
  rw [pure_eq_ok_iff] at h
  subst h
  refine ⟨rfl, rfl, rfl, fun budgets hround => ?_, fun budgets hround => ?_⟩
  · simp only [restoreService, resolved_of_internalKey hservice,
      moneyFromDatabase_toText, moneyOrNull_toText, hround]
    rfl
  · simp only [serviceItemToDto, toExternalId_of_internalKey hservice,
      moneyFromDatabase_toText, centsOrNull_toText, hround]
    rfl

theorem plannedQuantityFrom_units (quantity : PlannedQuantity) :
    plannedQuantityFrom quantity.units = .ok quantity := by
  rw [plannedQuantityFrom, PlannedQuantity.create,
    dif_pos ⟨quantity.positive, quantity.le_max⟩]

structure PartWritten (owners : Owners) (holder id : InternalId)
    (keyOf : Nat → Option InternalId) (item : WorkOrderPartItem)
    (row : StoredPart) : Prop where
  id : row.id = id
  externalId : row.externalId = item.id
  owner : row.workOrderInternalId = holder
  restored : ∀ budgets,
    (item.budgetRound.bind keyOf).bind (roundByBudgetInternalId budgets) =
      item.budgetRound → restorePart owners budgets row = .ok item
  answered : ∀ budgets,
    joinedRound budgets (item.budgetRound.bind keyOf) = item.budgetRound →
      partItemToDto owners budgets row = .ok (some item.toDto)

theorem partWritten {item : WorkOrderPartItem} {row : StoredPart}
    (h : partRow owners self id keyOf createdAt item = .ok row) :
    PartWritten owners self id keyOf item row := by
  obtain ⟨inventoryItem, hitem, h⟩ := bind_eq_ok_iff.mp h
  rw [pure_eq_ok_iff] at h
  subst h
  refine ⟨rfl, rfl, rfl, fun budgets hround => ?_, fun budgets hround => ?_⟩
  · simp only [restorePart, resolved_of_internalKey hitem,
      moneyFromDatabase_toText, moneyOrNull_toText, plannedQuantityFrom_units, hround]
    rfl
  · simp only [partItemToDto, toExternalId_of_internalKey hitem,
      moneyFromDatabase_toText, centsOrNull_toText, hround]
    rfl

end Rows

end WorkOrders

end Workshop
