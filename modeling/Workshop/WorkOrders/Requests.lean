/-
The requests that change a work order, up to their save: what each one does in
memory to the work order it loaded, or opens.
-/
import Workshop.Inventory.Batches
import Workshop.WorkOrders.StockSteps
import Workshop.WorkOrders.WorkOrder

namespace Workshop

namespace WorkOrders

open Inventory (StockLine)

structure OutboxSettings where
  /-- How long an armed step waits before it is undone, and a claim lasts. -/
  graceSeconds : Nat
  /-- The attempt at which a step that keeps failing is marked failed. -/
  maxAttempts : Nat

/-- `WithdrawPartsLineRequestDto`: the boundary takes positive whole numbers. -/
structure BatchLineDto where
  itemId : WorkOrderItemId
  quantity : Int
  positive : 0 < quantity
deriving Repr

theorem BatchLineDto.eq_iff {line other : BatchLineDto} :
    line.itemId = other.itemId ∧ line.quantity = other.quantity ↔ line = other := by
  constructor
  · cases line
    cases other
    rintro ⟨rfl, rfl⟩
    rfl
  · rintro rfl
    exact ⟨rfl, rfl⟩

instance : DecidableEq BatchLineDto := fun line other =>
  decidable_of_iff (line.itemId = other.itemId ∧ line.quantity = other.quantity)
    BatchLineDto.eq_iff

/-- `WithdrawPartsCommand` and `ReturnPartsCommand`.  The boundary refuses a
request without lines. -/
structure BatchCommand where
  lines : List BatchLineDto
  notEmpty : lines ≠ []
  actorUserId : UserId

namespace BatchCommand

/-- The input the use case passes to the aggregate. -/
def toInput (command : BatchCommand) (now : Timestamp) : WithdrawPartsInput where
  lines := command.lines.map fun line =>
    { itemId := line.itemId, quantity := line.quantity }
  actorUserId := command.actorUserId
  now := now

end BatchCommand

/-- The lines the use case passes to inventory. -/
def toStockLines (resolved : List ResolvedBatchLine) : List StockLine :=
  resolved.map fun line =>
    { inventoryItemId := line.inventoryItemId, quantity := line.quantity }

structure ServiceRef where
  serviceId : Uuid
  name : String
  price : Money

structure OpeningPart where
  inventoryItemId : ItemId
  sku : String
  name : String
  unitPrice : Money
  quantity : PlannedQuantity

/-- `CreateWorkOrderCommand`, with what its directories and catalogs answer and
the number it draws. -/
structure CreateCommand where
  number : String
  customerId : Uuid
  vehicleId : Uuid
  createdByUserId : UserId
  customerName : String
  vehiclePlate : String
  vehicleBrand : String
  vehicleModel : String
  vehicleYear : Nat
  services : List ServiceRef
  parts : List OpeningPart

/-- The service loop of `CreateWorkOrderUseCase`, which draws an id for every
item. -/
def addServices (actorUserId : UserId) (now : Timestamp) :
    List ServiceRef → Uuid → WorkOrderM Uuid
  | [], nextId => return nextId
  | service :: services, nextId => do
      WorkOrder.addService {
        itemId := nextId, serviceId := service.serviceId
        serviceName := service.name, unitPrice := service.price
        actorUserId, now }
      addServices actorUserId now services (nextId + 1)

/-- The part loop of `CreateWorkOrderUseCase`. -/
def planParts (actorUserId : UserId) (now : Timestamp) :
    List OpeningPart → Uuid → WorkOrderM Uuid
  | [], nextId => return nextId
  | part :: parts, nextId => do
      WorkOrder.planPart {
        itemId := nextId, inventoryItemId := part.inventoryItemId
        sku := part.sku, itemName := part.name, unitPrice := part.unitPrice
        plannedQuantity := part.quantity, actorUserId, now }
      planParts actorUserId now parts (nextId + 1)

/-- The work order `CreateWorkOrderUseCase` is about to save, and the next id
after those it drew. -/
def CreateCommand.openWith (command : CreateCommand) (nextId : Uuid)
    (now : Timestamp) : Except WorkOrderError (Uuid × WorkOrder) :=
  let opened := WorkOrder.openWorkOrder {
    id := nextId, number := command.number, customerId := command.customerId
    vehicleId := command.vehicleId, createdByUserId := command.createdByUserId
    customerName := command.customerName, vehiclePlate := command.vehiclePlate
    vehicleBrand := command.vehicleBrand, vehicleModel := command.vehicleModel
    vehicleYear := command.vehicleYear, now }
  let items : WorkOrderM Uuid := do
    let nextId ← addServices command.createdByUserId now command.services
      (nextId + 1)
    planParts command.createdByUserId now command.parts nextId
  match items opened with
  | .ok nextId workOrder => .ok (nextId, workOrder)
  | .error error _ => .error error

/-- The use cases that load a work order, change it and save it. -/
inductive WorkOrderChange
  | addRequestedService (service : ServiceRef) (actorUserId : UserId)
  | planPart (part : OpeningPart) (actorUserId : UserId)
  | removeItem (itemId : WorkOrderItemId) (actorUserId : UserId)
  | startDiagnosis (actorUserId : UserId)
  | completeDiagnosis (actorUserId : UserId)
  | approveBudget (actorUserId : UserId) (budgetId : Option BudgetId)
  | rejectBudget (actorUserId : UserId) (budgetId : Option BudgetId)
  | submitSupplementaryBudget (actorUserId : UserId)
  | assignMechanic (mechanicUserId actorUserId : UserId)
  | applyDiscount (amount : Money) (note : String) (actorUserId : UserId)
  | completeWorkOrder (actorUserId : UserId)

/-- What the use case does in memory.  `nextId` is the id it draws for what it
adds. -/
def WorkOrderChange.apply (nextId : Uuid) (now : Timestamp) :
    WorkOrderChange → WorkOrderM Unit
  | .addRequestedService service actorUserId =>
      WorkOrder.addService {
        itemId := nextId, serviceId := service.serviceId
        serviceName := service.name, unitPrice := service.price
        actorUserId, now }
  | .planPart part actorUserId =>
      WorkOrder.planPart {
        itemId := nextId, inventoryItemId := part.inventoryItemId
        sku := part.sku, itemName := part.name, unitPrice := part.unitPrice
        plannedQuantity := part.quantity, actorUserId, now }
  | .removeItem itemId actorUserId =>
      WorkOrder.removeItem { itemId, actorUserId, now }
  | .startDiagnosis actorUserId => WorkOrder.startDiagnosis { actorUserId, now }
  | .completeDiagnosis actorUserId =>
      WorkOrder.completeDiagnosis { budgetId := nextId, actorUserId, now }
  | .approveBudget actorUserId budgetId =>
      WorkOrder.approveBudget { actorUserId, now, budgetId }
  | .rejectBudget actorUserId budgetId =>
      WorkOrder.rejectBudget { actorUserId, now, budgetId }
  | .submitSupplementaryBudget actorUserId =>
      WorkOrder.submitSupplementaryBudget { budgetId := nextId, actorUserId, now }
  | .assignMechanic mechanicUserId actorUserId =>
      WorkOrder.assignMechanic { mechanicUserId, actorUserId, now }
  | .applyDiscount amount note actorUserId =>
      WorkOrder.applyDiscount { amount, note, actorUserId, now }
  | .completeWorkOrder actorUserId => WorkOrder.complete { actorUserId, now }

inductive WorkOrderRequest
  | withdrawParts (command : BatchCommand)
  | returnParts (command : BatchCommand)
  | deliverVehicle (actorUserId : UserId)
  | cancelWorkOrder (reason : String) (actorUserId : UserId)
  | plain (change : WorkOrderChange)

/-- The work order a request loaded and what it made of it. -/
structure Edit where
  loaded : WorkOrder
  changed : WorkOrder
deriving DecidableEq, Repr

/-- What `WithdrawPartsUseCase` holds once its aggregate accepted the batch. -/
structure Withdrawal where
  edit : Edit
  undo : StockStep
  confirmation : StockStep
  lines : List StockLine

/-- What a request does after its work in memory. -/
inductive Prepared
  /-- The request ends with the error of the aggregate. -/
  | refused
  | withdraw (withdrawal : Withdrawal)
  /-- It saves the work order, with a step of its own when it records one. -/
  | save (edit : Edit) (step : Option StockStep)

/-- `CancellationAuthorizer.assertMayCancel`: whether the actor may cancel,
given whether it holds the capability. -/
def assertMayCancel (workOrder : WorkOrder) (cancelsInExecution : Bool) : Bool :=
  !workOrder.hasOutstandingWithdrawals || cancelsInExecution

/-- A withdrawal, up to the step it arms.  The confirmation has an operation id
of its own and carries the id the consumption is tagged with. -/
def prepareWithdrawal (command : BatchCommand) (workOrder : WorkOrder)
    (nextId : Uuid) (now : Timestamp) : Prepared :=
  match WorkOrder.withdrawParts (command.toInput now) workOrder with
  | .error _ _ => .refused
  | .ok resolved changed =>
      let undo : StockStep := {
        operationId := nextId, kind := .undoConsumption
        workOrderId := changed.id, actorUserId := command.actorUserId }
      .withdraw {
        edit := ⟨workOrder, changed⟩
        undo
        confirmation := {
          operationId := nextId + 1, kind := .confirmConsumption
          workOrderId := undo.workOrderId, actorUserId := undo.actorUserId
          consumptionOperationId := some undo.operationId }
        lines := toStockLines resolved }

/-- A return, up to the transaction that saves it. -/
def prepareReturn (command : BatchCommand) (workOrder : WorkOrder)
    (nextId : Uuid) (now : Timestamp) : Prepared :=
  match WorkOrder.returnParts (command.toInput now) workOrder with
  | .error _ _ => .refused
  | .ok resolved changed =>
      .save ⟨workOrder, changed⟩ (some {
        operationId := nextId, kind := .restore, workOrderId := changed.id
        actorUserId := command.actorUserId
        lines := some (toStockLines resolved) })

def prepareDelivery (actorUserId : UserId) (workOrder : WorkOrder)
    (nextId : Uuid) (now : Timestamp) : Prepared :=
  match WorkOrder.deliver { actorUserId, now } workOrder with
  | .error _ _ => .refused
  | .ok _ changed =>
      .save ⟨workOrder, changed⟩ (some {
        operationId := nextId, kind := .settle, workOrderId := changed.id
        actorUserId })

/-- A cancellation.  It records its step whether or not units are out. -/
def prepareCancellation (reason : String) (actorUserId : UserId)
    (cancelsInExecution : Bool) (workOrder : WorkOrder) (nextId : Uuid)
    (now : Timestamp) : Prepared :=
  if assertMayCancel workOrder cancelsInExecution then
    match WorkOrder.cancel { reason, actorUserId, now } workOrder with
    | .error _ _ => .refused
    | .ok _ changed =>
        .save ⟨workOrder, changed⟩ (some {
          operationId := nextId, kind := .writeOff, workOrderId := changed.id
          actorUserId })
  else .refused

def prepareChange (change : WorkOrderChange) (workOrder : WorkOrder)
    (nextId : Uuid) (now : Timestamp) : Prepared :=
  match change.apply nextId now workOrder with
  | .error _ _ => .refused
  | .ok _ changed => .save ⟨workOrder, changed⟩ none

/-- What a request does in memory to the work order it loaded. -/
def WorkOrderRequest.prepare (request : WorkOrderRequest) (workOrder : WorkOrder)
    (nextId : Uuid) (now : Timestamp) (cancelsInExecution : Bool) : Prepared :=
  match request with
  | .withdrawParts command => prepareWithdrawal command workOrder nextId now
  | .returnParts command => prepareReturn command workOrder nextId now
  | .deliverVehicle actorUserId =>
      prepareDelivery actorUserId workOrder nextId now
  | .cancelWorkOrder reason actorUserId =>
      prepareCancellation reason actorUserId cancelsInExecution workOrder nextId
        now
  | .plain change => prepareChange change workOrder nextId now

end WorkOrders

end Workshop
