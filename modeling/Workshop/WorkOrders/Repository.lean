/-
The tables of a work order and the repository over them.  A load is four
statements, each of which sees the commits before it; a save is one
transaction, guarded by the version of the row it was loaded at.
-/
import Mathlib.Data.List.Sort
import Mathlib.Tactic.MkIffOfInductiveProp
import Workshop.Library.OwnedRows
import Workshop.WorkOrders.WorkOrder

namespace Workshop

namespace WorkOrders

/-- A row of `work_order_services`.  Its budget is a reference, its round is
not stored. -/
structure ServiceRow where
  id : WorkOrderItemId
  workOrderId : WorkOrderId
  serviceId : Uuid
  serviceName : String
  unitPrice : Money
  budgetId : Option BudgetId
  budgetedUnitPrice : Option Money
deriving DecidableEq, Repr

/-- A row of `work_order_parts`. -/
structure PartRow where
  id : WorkOrderItemId
  workOrderId : WorkOrderId
  inventoryItemId : ItemId
  sku : String
  itemName : String
  unitPrice : Money
  plannedQuantity : PlannedQuantity
  withdrawnQuantity : Int
  budgetId : Option BudgetId
  budgetedUnitPrice : Option Money
deriving DecidableEq, Repr

/-- A row of `work_order_budgets`. -/
structure BudgetRow extends Budget where
  workOrderId : WorkOrderId
deriving DecidableEq, Repr

structure WorkOrderRows where
  workOrders : List WorkOrderRow := []
  services : List ServiceRow := []
  parts : List PartRow := []
  budgets : List BudgetRow := []
  trail : List TrailEvent := []
deriving DecidableEq, Repr

/-- The constraints of the migrations, under the names they carry there: the
unique keys, the check on the withdrawn quantity and the references to the work
order. -/
@[mk_iff] structure WorkOrderRows.Constraints (rows : WorkOrderRows) : Prop where
  uxExternalId : (rows.workOrders.map WorkOrderRow.id).Nodup
  uxNumber : (rows.workOrders.map WorkOrderRow.number).Nodup
  uxActiveVehicle : ((rows.workOrders.filter fun row =>
    !row.status.isClosed).map WorkOrderRow.vehicleId).Nodup
  uxServicesExternalId : (rows.services.map ServiceRow.id).Nodup
  uxPartsExternalId : (rows.parts.map PartRow.id).Nodup
  uxBudgetsExternalId : (rows.budgets.map fun row => row.id).Nodup
  uxBudgetsRound :
    (rows.budgets.map fun row => (row.workOrderId, row.round)).Nodup
  chkWithdrawnQuantity : ∀ row ∈ rows.parts, 0 ≤ row.withdrawnQuantity
  fkServices : ∀ row ∈ rows.services,
    row.workOrderId ∈ rows.workOrders.map WorkOrderRow.id
  fkParts : ∀ row ∈ rows.parts,
    row.workOrderId ∈ rows.workOrders.map WorkOrderRow.id
  fkBudgets : ∀ row ∈ rows.budgets,
    row.workOrderId ∈ rows.workOrders.map WorkOrderRow.id

instance (rows : WorkOrderRows) : Decidable rows.Constraints :=
  decidable_of_iff _ (WorkOrderRows.constraints_iff rows).symm

/-- The tables, which hold no rows that violate a constraint. -/
structure WorkOrderTables extends WorkOrderRows where
  constraints : toWorkOrderRows.Constraints

/-- The tables as the migrations leave them. -/
def WorkOrderTables.empty : WorkOrderTables := ⟨{}, by decide⟩

/-- `roundByBudgetInternalId` -/
def roundOfBudget (budgets : List BudgetRow) (id : BudgetId) : Option Nat :=
  (budgets.reverse.find? fun row => row.id = id).map fun row => row.round

/-- `internalIdByRound` -/
def budgetOfRound (budgets : List Budget) (round : Nat) : Option BudgetId :=
  (budgets.reverse.find? fun budget => budget.round = round).map Budget.id

def ServiceRow.toDomain (budgets : List BudgetRow) (row : ServiceRow) :
    WorkOrderServiceItem where
  id := row.id
  serviceId := row.serviceId
  serviceName := row.serviceName
  unitPrice := row.unitPrice
  budgetRound := row.budgetId.bind (roundOfBudget budgets)
  budgetedUnitPrice := row.budgetedUnitPrice

def PartRow.toDomain (budgets : List BudgetRow) (row : PartRow) :
    WorkOrderPartItem where
  id := row.id
  inventoryItemId := row.inventoryItemId
  sku := row.sku
  itemName := row.itemName
  unitPrice := row.unitPrice
  plannedQuantity := row.plannedQuantity
  withdrawnQuantity := row.withdrawnQuantity
  budgetRound := row.budgetId.bind (roundOfBudget budgets)
  budgetedUnitPrice := row.budgetedUnitPrice

/-- `WorkOrderMapper.toDomain`: the budgets are sorted by round. -/
def toDomain (row : WorkOrderRow) (services : List ServiceRow)
    (parts : List PartRow) (budgets : List BudgetRow) : WorkOrder :=
  { row with
    serviceItems := services.map (ServiceRow.toDomain budgets)
    partItems := parts.map (PartRow.toDomain budgets)
    budgets := (budgets.insertionSort fun a b => a.round ≤ b.round).map
      BudgetRow.toBudget
    domainEvents := [] }

namespace WorkOrder

/-- The service rows of `WorkOrderMapper.toOrm`, with their references. -/
def serviceRows (workOrder : WorkOrder) : List ServiceRow :=
  workOrder.serviceItems.map fun item =>
    { id := item.id, workOrderId := workOrder.id, serviceId := item.serviceId
      serviceName := item.serviceName, unitPrice := item.unitPrice
      budgetId := item.budgetRound.bind (budgetOfRound workOrder.budgets)
      budgetedUnitPrice := item.budgetedUnitPrice }

def partRows (workOrder : WorkOrder) : List PartRow :=
  workOrder.partItems.map fun item =>
    { id := item.id, workOrderId := workOrder.id
      inventoryItemId := item.inventoryItemId, sku := item.sku
      itemName := item.itemName, unitPrice := item.unitPrice
      plannedQuantity := item.plannedQuantity
      withdrawnQuantity := item.withdrawnQuantity
      budgetId := item.budgetRound.bind (budgetOfRound workOrder.budgets)
      budgetedUnitPrice := item.budgetedUnitPrice }

def budgetRows (workOrder : WorkOrder) : List BudgetRow :=
  workOrder.budgets.map fun budget =>
    { budget with workOrderId := workOrder.id }

/-- The trail events among the recorded ones. -/
def trailEvents (workOrder : WorkOrder) : List TrailEvent :=
  workOrder.domainEvents.filterMap fun
    | .trail event => some event
    | .statusChanged _ => none

end WorkOrder

inductive StoreError
  /-- The version of the row is not the one the aggregate was loaded at. -/
  | concurrentModification
  /-- The rows would violate a constraint, `ux_work_orders_number` and
  `ux_work_orders_active_vehicle` among them. -/
  | constraintViolation
  /-- `work_orders row for external id … not found` -/
  | workOrderRowNotFound
deriving DecidableEq, Repr

namespace WorkOrderTables

/-- The first read of `findByNumber`. -/
def findRow (tables : WorkOrderTables) (number : String) : Option WorkOrderRow :=
  tables.workOrders.find? fun row => row.number = number

def findServices (tables : WorkOrderTables) (order : RowOrder ServiceRow)
    (workOrderId : WorkOrderId) : List ServiceRow :=
  order.arrange (rowsOf ServiceRow.workOrderId workOrderId tables.services)

def findParts (tables : WorkOrderTables) (order : RowOrder PartRow)
    (workOrderId : WorkOrderId) : List PartRow :=
  order.arrange (rowsOf PartRow.workOrderId workOrderId tables.parts)

def findBudgets (tables : WorkOrderTables) (order : RowOrder BudgetRow)
    (workOrderId : WorkOrderId) : List BudgetRow :=
  order.arrange (rowsOf BudgetRow.workOrderId workOrderId tables.budgets)

/-- The guarded `UPDATE`, or the `INSERT` of a work order that has no row.
`none` when the update finds no row at the version. -/
def writeRow (tables : WorkOrderTables) (workOrder : WorkOrder) :
    Option (List WorkOrderRow) :=
  match tables.workOrders.find? fun row => row.id = workOrder.id with
  | none =>
      some (tables.workOrders ++ [{ workOrder.toWorkOrderRow with version := 0 }])
  | some existing =>
      if existing.version = workOrder.version then
        some (tables.workOrders.map fun row =>
          if row.id = workOrder.id then
            { workOrder.toWorkOrderRow with
              createdAt := existing.createdAt, version := workOrder.version + 1 }
          else row)
      else none

/-- A budget round is never removed. -/
def replaceBudgets (tables : WorkOrderTables) (workOrder : WorkOrder) :
    List BudgetRow :=
  writeRows (fun row => row.id) BudgetRow.workOrderId workOrder.id
    workOrder.budgetRows tables.budgets

def replaceServiceItems (tables : WorkOrderTables) (workOrder : WorkOrder) :
    List ServiceRow :=
  writeRows ServiceRow.id ServiceRow.workOrderId workOrder.id
    workOrder.serviceRows
    (dropRows ServiceRow.id ServiceRow.workOrderId workOrder.id
      workOrder.serviceRows tables.services)

def replacePartItems (tables : WorkOrderTables) (workOrder : WorkOrder) :
    List PartRow :=
  writeRows PartRow.id PartRow.workOrderId workOrder.id workOrder.partRows
    (dropRows PartRow.id PartRow.workOrderId workOrder.id workOrder.partRows
      tables.parts)

/-- `save` -/
def save (tables : WorkOrderTables) (workOrder : WorkOrder) :
    Except StoreError WorkOrderTables :=
  match tables.writeRow workOrder with
  | none => .error .concurrentModification
  | some workOrders =>
      let rows : WorkOrderRows := {
        workOrders
        services := tables.replaceServiceItems workOrder
        parts := tables.replacePartItems workOrder
        budgets := tables.replaceBudgets workOrder
        trail := tables.trail ++ workOrder.trailEvents }
      if hconstraints : rows.Constraints then .ok ⟨rows, hconstraints⟩
      else .error .constraintViolation

end WorkOrderTables

end WorkOrders

end Workshop
