/-
The work order aggregate.  A method changes the aggregate in place and may
throw half way, so each one is a computation over the aggregate whose error
answers the state it left behind.
-/
import Workshop.WorkOrders.WorkOrderItem

namespace Workshop

namespace WorkOrders

inductive TrailEventType
  | workOrderCreated
  | serviceAddedToWorkOrder
  | partPlannedForWorkOrder
  | itemRemovedFromWorkOrder
  | diagnosisStarted
  | diagnosisCompleted
  | budgetGenerated
  | budgetSent
  | budgetApproved
  | budgetRejected
  | executionStarted
  | supplementaryBudgetGenerated
  | partWithdrawn
  | partReturned
  | mechanicAssigned
  | discountApplied
  | workOrderCompleted
  | vehicleDelivered
  | workOrderCanceled
deriving DecidableEq, Repr

/-- A `WorkOrderTrailEvent`. -/
structure TrailEvent where
  eventType : TrailEventType
  workOrderId : WorkOrderId
  actorUserId : UserId
  fromStatus : Option WorkOrderStatus
  toStatus : Option WorkOrderStatus
  occurredAt : Timestamp
deriving DecidableEq, Repr

/-- The pending round a status change to `AWAITING_APPROVAL` carries. -/
structure BudgetToDecide where
  id : BudgetId
  totalCents : Int
  generatedAt : Timestamp
deriving DecidableEq, Repr

structure WorkOrderStatusChanged where
  workOrderId : WorkOrderId
  workOrderNumber : String
  customerId : Uuid
  vehiclePlate : String
  fromStatus : Option WorkOrderStatus
  toStatus : WorkOrderStatus
  budgetToDecide : Option BudgetToDecide
  occurredAt : Timestamp
deriving DecidableEq, Repr

inductive WorkOrderEvent
  | trail (event : TrailEvent)
  | statusChanged (event : WorkOrderStatusChanged)
deriving DecidableEq, Repr

/-- A row of `work_orders`. -/
structure WorkOrderRow where
  id : WorkOrderId
  number : String
  customerId : Uuid
  vehicleId : Uuid
  assignedMechanicUserId : Option UserId
  createdByUserId : UserId
  status : WorkOrderStatus
  customerName : String
  vehiclePlate : String
  vehicleBrand : String
  vehicleModel : String
  vehicleYear : Nat
  createdAt : Timestamp
  updatedAt : Timestamp
  diagnosisStartedAt : Option Timestamp
  diagnosisCompletedAt : Option Timestamp
  budgetDecidedAt : Option Timestamp
  budgetDecidedByUserId : Option UserId
  executionStartedAt : Option Timestamp
  chargedTotal : Option Money
  discount : Money
  discountNote : Option String
  discountAppliedByUserId : Option UserId
  discountAppliedAt : Option Timestamp
  completedAt : Option Timestamp
  deliveredAt : Option Timestamp
  deliveredByUserId : Option UserId
  canceledAt : Option Timestamp
  canceledByUserId : Option UserId
  cancellationReason : Option String
  version : Nat
deriving DecidableEq, Repr

/-- One visit: its row, as it was loaded or as it will be written, its items,
its budgets and the events recorded since. -/
structure WorkOrder extends WorkOrderRow where
  serviceItems : List WorkOrderServiceItem
  partItems : List WorkOrderPartItem
  budgets : List Budget
  domainEvents : List WorkOrderEvent
deriving DecidableEq, Repr

/-- A method of the aggregate. -/
abbrev WorkOrderM := EStateM WorkOrderError WorkOrder

/-- A call of an entity, which answers its error as its own. -/
def call {α : Type} (result : Except WorkOrderError α) : WorkOrderM α :=
  match result with
  | .ok a => return a
  | .error error => throw error

/-- A guard of a method: `if (condition) throw error`. -/
def refuseIf (condition : Bool) (error : WorkOrderError) : WorkOrderM Unit :=
  if condition then throw error else return ()

structure OpenWorkOrderInput where
  id : WorkOrderId
  number : String
  customerId : Uuid
  vehicleId : Uuid
  createdByUserId : UserId
  customerName : String
  vehiclePlate : String
  vehicleBrand : String
  vehicleModel : String
  vehicleYear : Nat
  now : Timestamp

structure AddServiceInput where
  itemId : WorkOrderItemId
  serviceId : Uuid
  serviceName : String
  unitPrice : Money
  actorUserId : UserId
  now : Timestamp

structure PlanPartInput where
  itemId : WorkOrderItemId
  inventoryItemId : ItemId
  sku : String
  itemName : String
  unitPrice : Money
  plannedQuantity : PlannedQuantity
  actorUserId : UserId
  now : Timestamp

structure RemoveItemInput where
  itemId : WorkOrderItemId
  actorUserId : UserId
  now : Timestamp

structure AssignMechanicInput where
  mechanicUserId : UserId
  actorUserId : UserId
  now : Timestamp

structure StartDiagnosisInput where
  actorUserId : UserId
  now : Timestamp

/-- `CompleteDiagnosisInput` and `SubmitSupplementaryBudgetInput`. -/
structure GenerateBudgetInput where
  budgetId : BudgetId
  actorUserId : UserId
  now : Timestamp

structure DecideBudgetActionInput where
  actorUserId : UserId
  now : Timestamp
  /-- The budget a link names.  Left out, the pending round is decided. -/
  budgetId : Option BudgetId

structure BatchLine where
  itemId : WorkOrderItemId
  quantity : Int
deriving DecidableEq, Repr

structure ResolvedBatchLine where
  inventoryItemId : ItemId
  quantity : Int
deriving DecidableEq, Repr

structure WithdrawPartsInput where
  lines : List BatchLine
  actorUserId : UserId
  now : Timestamp

structure ApplyDiscountInput where
  amount : Money
  note : String
  actorUserId : UserId
  now : Timestamp

structure CloseActionInput where
  actorUserId : UserId
  now : Timestamp

structure CancelInput where
  reason : String
  actorUserId : UserId
  now : Timestamp

/-- Every state but the terminal ones and `COMPLETED`. -/
def cancelableStates : List WorkOrderStatus :=
  [.received, .inDiagnosis, .awaitingApproval, .inExecution]

def itemEditableStates : List WorkOrderStatus :=
  [.received, .inDiagnosis, .inExecution]

def partPlannableStates : List WorkOrderStatus :=
  [.received, .inDiagnosis, .inExecution]

def mechanicAssignableTerminalStates : List WorkOrderStatus :=
  [.delivered, .canceled]

/-- The first entry that passes a test, and where it stands. -/
def findAt {α : Type} (p : α → Bool) (l : List α) : Option (Nat × α) :=
  (l.zipIdx.find? fun entry => p entry.1).map fun entry => (entry.2, entry.1)

namespace WorkOrder

def record (event : WorkOrderEvent) : WorkOrderM Unit :=
  modify fun workOrder =>
    { workOrder with domainEvents := workOrder.domainEvents ++ [event] }

/-- A trail event that is no move: its from and to status are null. -/
def recordFact (eventType : TrailEventType) (actorUserId : UserId)
    (now : Timestamp) : WorkOrderM Unit := do
  let workOrder ← get
  record (.trail {
    eventType, workOrderId := workOrder.id, actorUserId
    fromStatus := none, toStatus := none, occurredAt := now })

/-- A trail event that carries the move it describes. -/
def recordMove (eventType : TrailEventType) (actorUserId : UserId)
    (fromStatus : Option WorkOrderStatus) (toStatus : WorkOrderStatus)
    (now : Timestamp) : WorkOrderM Unit := do
  let workOrder ← get
  record (.trail {
    eventType, workOrderId := workOrder.id, actorUserId
    fromStatus, toStatus := some toStatus, occurredAt := now })

/-- The pending round of a work order that awaits approval. -/
def budgetOfStatusChange (workOrder : WorkOrder) : Option BudgetToDecide :=
  if workOrder.status = .awaitingApproval then
    (workOrder.budgets.find? fun budget => budget.status = .pending).map
      fun pending =>
        { id := pending.id, totalCents := pending.total.cents
          generatedAt := pending.generatedAt }
  else none

/-- Records the one status change of a transition, after its facts. -/
def recordStatusChange (fromStatus : Option WorkOrderStatus) (now : Timestamp) :
    WorkOrderM Unit := do
  let workOrder ← get
  record (.statusChanged {
    workOrderId := workOrder.id, workOrderNumber := workOrder.number
    customerId := workOrder.customerId, vehiclePlate := workOrder.vehiclePlate
    fromStatus, toStatus := workOrder.status
    budgetToDecide := workOrder.budgetOfStatusChange, occurredAt := now })

def assertStateAllows (allowed : List WorkOrderStatus) : WorkOrderM Unit := do
  let workOrder ← get
  refuseIf (decide (workOrder.status ∉ allowed)) (.workOrderState workOrder.status)

/-- `WorkOrder.open` -/
def openWorkOrder (input : OpenWorkOrderInput) : WorkOrder where
  id := input.id
  number := input.number
  customerId := input.customerId
  vehicleId := input.vehicleId
  assignedMechanicUserId := none
  createdByUserId := input.createdByUserId
  status := .received
  customerName := input.customerName
  vehiclePlate := input.vehiclePlate
  vehicleBrand := input.vehicleBrand
  vehicleModel := input.vehicleModel
  vehicleYear := input.vehicleYear
  createdAt := input.now
  updatedAt := input.now
  serviceItems := []
  partItems := []
  diagnosisStartedAt := none
  diagnosisCompletedAt := none
  budgets := []
  budgetDecidedAt := none
  budgetDecidedByUserId := none
  executionStartedAt := none
  chargedTotal := none
  discount := Money.zero
  discountNote := none
  discountAppliedByUserId := none
  discountAppliedAt := none
  completedAt := none
  deliveredAt := none
  deliveredByUserId := none
  canceledAt := none
  canceledByUserId := none
  cancellationReason := none
  version := 0
  domainEvents :=
    [.trail {
       eventType := .workOrderCreated, workOrderId := input.id
       actorUserId := input.createdByUserId
       fromStatus := none, toStatus := some .received, occurredAt := input.now },
     .statusChanged {
       workOrderId := input.id, workOrderNumber := input.number
       customerId := input.customerId, vehiclePlate := input.vehiclePlate
       fromStatus := none, toStatus := .received
       budgetToDecide := none, occurredAt := input.now }]

def addService (input : AddServiceInput) : WorkOrderM Unit := do
  assertStateAllows itemEditableStates
  let item : WorkOrderServiceItem := {
    id := input.itemId, serviceId := input.serviceId
    serviceName := input.serviceName, unitPrice := input.unitPrice
    budgetRound := none, budgetedUnitPrice := none }
  modify fun workOrder => { workOrder with
    serviceItems := workOrder.serviceItems ++ [item], updatedAt := input.now }
  recordFact .serviceAddedToWorkOrder input.actorUserId input.now

def planPart (input : PlanPartInput) : WorkOrderM Unit := do
  assertStateAllows partPlannableStates
  let item : WorkOrderPartItem := {
    id := input.itemId, inventoryItemId := input.inventoryItemId
    sku := input.sku, itemName := input.itemName, unitPrice := input.unitPrice
    plannedQuantity := input.plannedQuantity, withdrawnQuantity := 0
    budgetRound := none, budgetedUnitPrice := none }
  modify fun workOrder => { workOrder with
    partItems := workOrder.partItems ++ [item], updatedAt := input.now }
  recordFact .partPlannedForWorkOrder input.actorUserId input.now

/-- Takes the item off its list, a service first; refuses an item already
attached to a budget round. -/
def eraseItem (itemId : WorkOrderItemId) : WorkOrderM Unit := do
  let workOrder ← get
  match findAt (fun item => item.id = itemId) workOrder.serviceItems with
  | some (index, item) =>
      refuseIf (!item.isDraft) .budgetedItemNotRemovable
      modify fun workOrder => { workOrder with
        serviceItems := workOrder.serviceItems.eraseIdx index }
  | none =>
      match findAt (fun item => item.id = itemId) workOrder.partItems with
      | none => throw .itemNotFound
      | some (index, item) =>
          refuseIf (!item.isDraft) .budgetedItemNotRemovable
          modify fun workOrder => { workOrder with
            partItems := workOrder.partItems.eraseIdx index }

def removeItem (input : RemoveItemInput) : WorkOrderM Unit := do
  assertStateAllows itemEditableStates
  eraseItem input.itemId
  modify fun workOrder => { workOrder with updatedAt := input.now }
  recordFact .itemRemovedFromWorkOrder input.actorUserId input.now

def startDiagnosis (input : StartDiagnosisInput) : WorkOrderM Unit := do
  assertStateAllows [.received]
  let fromStatus := (← get).status
  modify fun workOrder => { workOrder with
    status := .inDiagnosis
    diagnosisStartedAt := some input.now
    assignedMechanicUserId :=
      some (workOrder.assignedMechanicUserId.getD input.actorUserId)
    updatedAt := input.now }
  recordMove .diagnosisStarted input.actorUserId (some .received) .inDiagnosis
    input.now
  recordStatusChange (some fromStatus) input.now

/-- At least one item is a draft or already attached to the round. -/
def hasItemsForRound (workOrder : WorkOrder) (round : Nat) : Bool :=
  (workOrder.serviceItems.any fun item =>
      item.isDraft || decide (item.budgetRound = some round)) ||
    workOrder.partItems.any fun item =>
      item.isDraft || decide (item.budgetRound = some round)

/-- The service loop of `generateRound`: what the eligible services add to the
total, and the services attached. -/
def attachServices (round : Nat) :
    List WorkOrderServiceItem → Money → List WorkOrderServiceItem × Money
  | [], total => ([], total)
  | item :: items, total =>
      if item.isDraft || decide (item.budgetRound = some round) then
        let (items, total) := attachServices round items (total.add item.unitPrice)
        (item.attachToBudget round :: items, total)
      else
        let (items, total) := attachServices round items total
        (item :: items, total)

/-- The part loop of `generateRound`: a part counts its planned quantity. -/
def attachParts (round : Nat) :
    List WorkOrderPartItem → Money → List WorkOrderPartItem × Money
  | [], total => ([], total)
  | item :: items, total =>
      if item.isDraft || decide (item.budgetRound = some round) then
        let (items, total) := attachParts round items
          (total.add (item.plannedQuantity.timesPrice item.unitPrice))
        (item.attachToBudget round :: items, total)
      else
        let (items, total) := attachParts round items total
        (item :: items, total)

/-- Sums and attaches every item eligible for the round. -/
def generateRound (round : Nat) : WorkOrderM Money := do
  let workOrder ← get
  let (serviceItems, servicesTotal) :=
    attachServices round workOrder.serviceItems Money.zero
  let (partItems, total) := attachParts round workOrder.partItems servicesTotal
  set { workOrder with serviceItems, partItems }
  return total

/-- Round one, regenerated in place when there is one, else generated. -/
def writeRoundOne (budgetId : BudgetId) (total : Money) (now : Timestamp) :
    WorkOrderM Unit := do
  let workOrder ← get
  match findAt (fun budget => budget.round = 1) workOrder.budgets with
  | some (index, existingRoundOne) =>
      let budget ← call (existingRoundOne.regenerate total now)
      modify fun workOrder => { workOrder with
        budgets := workOrder.budgets.set index budget }
  | none =>
      modify fun workOrder => { workOrder with
        budgets := workOrder.budgets ++ [Budget.generate budgetId 1 total now] }

def completeDiagnosis (input : GenerateBudgetInput) : WorkOrderM Unit := do
  assertStateAllows [.inDiagnosis]
  let workOrder ← get
  refuseIf (!workOrder.hasItemsForRound 1) .diagnosisWithoutItems
  let total ← generateRound 1
  writeRoundOne input.budgetId total input.now
  modify fun workOrder => { workOrder with
    status := .awaitingApproval
    diagnosisCompletedAt := some input.now
    updatedAt := input.now }
  recordMove .diagnosisCompleted input.actorUserId (some .inDiagnosis)
    .awaitingApproval input.now
  recordFact .budgetGenerated input.actorUserId input.now
  recordFact .budgetSent input.actorUserId input.now
  recordStatusChange (some workOrder.status) input.now

/-- One of this work order's budgets, whatever its status. -/
def budgetById (budgetId : BudgetId) : WorkOrderM (Nat × Budget) := do
  let workOrder ← get
  match findAt (fun budget => budget.id = budgetId) workOrder.budgets with
  | some found => return found
  | none => throw .budgetNotFound

def pendingBudget : WorkOrderM (Nat × Budget) := do
  let workOrder ← get
  match findAt (fun budget => budget.status = .pending) workOrder.budgets with
  | some found => return found
  | none => throw (.workOrderState workOrder.status)

/-- The budget a decision applies to: the pending round, or the one a link
names, which answers its own state before the work order's. -/
def budgetToDecide (budgetId : Option BudgetId) : WorkOrderM (Nat × Budget) :=
  match budgetId with
  | none => do
      assertStateAllows [.awaitingApproval]
      pendingBudget
  | some budgetId => do
      let found ← budgetById budgetId
      refuseIf (decide (found.2.status ≠ .pending)) (.budgetState found.2.status)
      assertStateAllows [.awaitingApproval]
      return found

def writeBudget (index : Nat) (budget : Budget) : WorkOrderM Unit :=
  modify fun workOrder => { workOrder with
    budgets := workOrder.budgets.set index budget }

def approveBudget (input : DecideBudgetActionInput) : WorkOrderM Unit := do
  let found ← budgetToDecide input.budgetId
  let budget ← call (found.2.approve input.actorUserId input.now)
  writeBudget found.1 budget
  let fromStatus := (← get).status
  modify fun workOrder => { workOrder with
    status := .inExecution
    budgetDecidedAt := some input.now
    budgetDecidedByUserId := some input.actorUserId
    executionStartedAt := some (workOrder.executionStartedAt.getD input.now)
    updatedAt := input.now }
  recordMove .budgetApproved input.actorUserId (some .awaitingApproval)
    .inExecution input.now
  recordMove .executionStarted input.actorUserId (some .awaitingApproval)
    .inExecution input.now
  recordStatusChange (some fromStatus) input.now

/-- Where a rejection sends the work order. -/
def rejectionDestination (budget : Budget) : WorkOrderStatus :=
  if budget.round = 1 then .inDiagnosis else .inExecution

/-- Every entry into execution is recorded. -/
def recordExecutionStarted (destination : WorkOrderStatus) (actorUserId : UserId)
    (now : Timestamp) : WorkOrderM Unit :=
  if destination = .inExecution then
    recordMove .executionStarted actorUserId (some .awaitingApproval) .inExecution
      now
  else return ()

def rejectBudget (input : DecideBudgetActionInput) : WorkOrderM Unit := do
  let found ← budgetToDecide input.budgetId
  let budget ← call (found.2.reject input.actorUserId input.now)
  writeBudget found.1 budget
  let fromStatus := (← get).status
  modify fun workOrder => { workOrder with
    status := rejectionDestination budget
    budgetDecidedAt := some input.now
    budgetDecidedByUserId := some input.actorUserId
    updatedAt := input.now }
  recordMove .budgetRejected input.actorUserId (some .awaitingApproval)
    (rejectionDestination budget) input.now
  recordExecutionStarted (rejectionDestination budget) input.actorUserId input.now
  recordStatusChange (some fromStatus) input.now

/-- The number after the largest round. -/
def nextRound (workOrder : WorkOrder) : Nat :=
  workOrder.budgets.foldl (fun max budget => Nat.max max budget.round) 0 + 1

def submitSupplementaryBudget (input : GenerateBudgetInput) :
    WorkOrderM Unit := do
  assertStateAllows [.inExecution]
  let workOrder ← get
  refuseIf (!workOrder.hasItemsForRound workOrder.nextRound) .emptyDraftBudget
  let total ← generateRound workOrder.nextRound
  modify fun changed => { changed with
    budgets := changed.budgets ++
      [Budget.generate input.budgetId workOrder.nextRound total input.now]
    status := .awaitingApproval
    updatedAt := input.now }
  recordFact .supplementaryBudgetGenerated input.actorUserId input.now
  recordFact .budgetSent input.actorUserId input.now
  recordStatusChange (some workOrder.status) input.now

/-- Only an item attached to an `APPROVED` round can be withdrawn. -/
def assertWithdrawable (workOrder : WorkOrder) (item : WorkOrderPartItem)
    (quantity : Int) : Except WorkOrderError Unit :=
  match item.budgetRound with
  | none => .error .partNotWithdrawable
  | some round =>
      match workOrder.budgets.find? fun budget => budget.round = round with
      | none => .error .partNotWithdrawable
      | some budget =>
          if budget.status ≠ .approved then .error .partNotWithdrawable
          else if item.plannedQuantity.units < item.withdrawnQuantity + quantity
          then .error .withdrawalExceedsPlanned
          else .ok ()

/-- The check of a line of a return. -/
def assertReturnable (item : WorkOrderPartItem) (quantity : Int) :
    Except WorkOrderError Unit :=
  if item.withdrawnQuantity - quantity < 0 then .error .returnExceedsWithdrawn
  else .ok ()

def assertNoDuplicateLines (lines : List BatchLine) : Except WorkOrderError Unit :=
  if (lines.map BatchLine.itemId).Nodup then .ok ()
  else .error .duplicateBatchLine

/-- The part item of every line, in the order of the lines, each checked. -/
def resolveLines (workOrder : WorkOrder)
    (check : WorkOrderPartItem → Int → Except WorkOrderError Unit)
    (lines : List BatchLine) :
    Except WorkOrderError (List (WorkOrderPartItem × Int)) :=
  lines.mapM fun line => do
    match workOrder.partItems.find? fun item => item.id = line.itemId with
    | none => throw .itemNotFound
    | some item =>
        check item line.quantity
        return (item, line.quantity)

/-- Changes the first part item with this id, as a method of the item. -/
def changePart (itemId : WorkOrderItemId)
    (change : WorkOrderPartItem → Except WorkOrderError WorkOrderPartItem) :
    WorkOrderM Unit := do
  match findAt (fun item => item.id = itemId) (← get).partItems with
  | none => throw .itemNotFound
  | some (index, item) =>
      let item ← call (change item)
      modify fun workOrder => { workOrder with
        partItems := workOrder.partItems.set index item }

/-- Applies every resolved line. -/
def changeParts
    (change : WorkOrderPartItem → Int → Except WorkOrderError WorkOrderPartItem) :
    List (WorkOrderPartItem × Int) → WorkOrderM Unit
  | [] => return ()
  | (item, quantity) :: resolved => do
      changePart item.id fun item => change item quantity
      changeParts change resolved

/-- The inventory side of resolved lines. -/
def toResolvedBatchLines (resolved : List (WorkOrderPartItem × Int)) :
    List ResolvedBatchLine :=
  resolved.map fun (item, quantity) =>
    { inventoryItemId := item.inventoryItemId, quantity }

/-- Validates the whole batch before it touches anything. -/
def withdrawParts (input : WithdrawPartsInput) :
    WorkOrderM (List ResolvedBatchLine) := do
  assertStateAllows [.inExecution]
  call (assertNoDuplicateLines input.lines)
  let workOrder ← get
  let resolved ← call
    (workOrder.resolveLines workOrder.assertWithdrawable input.lines)
  changeParts WorkOrderPartItem.withdraw resolved
  modify fun workOrder => { workOrder with updatedAt := input.now }
  recordFact .partWithdrawn input.actorUserId input.now
  return toResolvedBatchLines resolved

/-- The same shape as `withdrawParts`, without a round guard. -/
def returnParts (input : WithdrawPartsInput) :
    WorkOrderM (List ResolvedBatchLine) := do
  assertStateAllows [.inExecution]
  call (assertNoDuplicateLines input.lines)
  let workOrder ← get
  let resolved ← call (workOrder.resolveLines assertReturnable input.lines)
  changeParts WorkOrderPartItem.returnUnits resolved
  modify fun workOrder => { workOrder with updatedAt := input.now }
  recordFact .partReturned input.actorUserId input.now
  return toResolvedBatchLines resolved

def assignMechanic (input : AssignMechanicInput) : WorkOrderM Unit := do
  let workOrder ← get
  refuseIf (decide (workOrder.status ∈ mechanicAssignableTerminalStates))
    (.workOrderState workOrder.status)
  modify fun workOrder => { workOrder with
    assignedMechanicUserId := some input.mechanicUserId, updatedAt := input.now }
  recordFact .mechanicAssigned input.actorUserId input.now

/-- `Money.multiply` and `Money.subtract`, whose error the aggregate passes
on. -/
def money (result : Except InvalidMoneyAmountError Money) :
    Except WorkOrderError Money :=
  match result with
  | .ok amount => .ok amount
  | .error error => .error (.invalidMoneyAmount error.cents)

/-- The rounds that were approved. -/
def approvedRounds (workOrder : WorkOrder) : List Nat :=
  (workOrder.budgets.filter fun budget => budget.status = .approved).map
    Budget.round

/-- The budgeted price of an item on an approved round. -/
def chargedPrice (approvedRounds : List Nat) (budgetRound : Option Nat)
    (budgetedUnitPrice : Option Money) : Option Money :=
  match budgetRound, budgetedUnitPrice with
  | some round, some price => if round ∈ approvedRounds then some price else none
  | _, _ => none

/-- Services on approved rounds, plus each part's withdrawn quantity at its
budgeted price. -/
def chargedTotalBeforeDiscount (workOrder : WorkOrder) :
    Except WorkOrderError Money := do
  let services := workOrder.serviceItems.foldl
    (fun total item =>
      match chargedPrice workOrder.approvedRounds item.budgetRound
          item.budgetedUnitPrice with
      | some price => total.add price
      | none => total) Money.zero
  workOrder.partItems.foldlM
    (fun total item =>
      match chargedPrice workOrder.approvedRounds item.budgetRound
          item.budgetedUnitPrice with
      | some price => do
          let charge ← money (price.multiply item.withdrawnQuantity)
          return total.add charge
      | none => return total) services

/-- A completed work order has its charged total frozen again. -/
def refreshChargedTotal (preDiscountTotal amount : Money) : WorkOrderM Unit := do
  let workOrder ← get
  if workOrder.status = .completed then
    let chargedTotal ← call (money (preDiscountTotal.subtract amount))
    modify fun workOrder => { workOrder with chargedTotal := some chargedTotal }
  else return ()

/-- A second call replaces the first. -/
def applyDiscount (input : ApplyDiscountInput) : WorkOrderM Unit := do
  assertStateAllows [.inExecution, .completed]
  let preDiscountTotal ← call (← get).chargedTotalBeforeDiscount
  refuseIf (input.amount.isGreaterThan preDiscountTotal)
    .discountExceedsChargedTotal
  modify fun workOrder => { workOrder with
    discount := input.amount
    discountNote := some input.note
    discountAppliedByUserId := some input.actorUserId
    discountAppliedAt := some input.now }
  refreshChargedTotal preDiscountTotal input.amount
  modify fun workOrder => { workOrder with updatedAt := input.now }
  recordFact .discountApplied input.actorUserId input.now

/-- Freezes the charged total, with the discount checked again. -/
def complete (input : CloseActionInput) : WorkOrderM Unit := do
  assertStateAllows [.inExecution]
  let workOrder ← get
  let preDiscountTotal ← call workOrder.chargedTotalBeforeDiscount
  refuseIf (workOrder.discount.isGreaterThan preDiscountTotal)
    .discountExceedsChargedTotal
  let chargedTotal ← call (money (preDiscountTotal.subtract workOrder.discount))
  modify fun workOrder => { workOrder with
    chargedTotal := some chargedTotal
    status := .completed
    completedAt := some input.now
    updatedAt := input.now }
  recordMove .workOrderCompleted input.actorUserId (some .inExecution)
    .completed input.now
  recordStatusChange (some workOrder.status) input.now

def deliver (input : CloseActionInput) : WorkOrderM Unit := do
  assertStateAllows [.completed]
  let fromStatus := (← get).status
  modify fun workOrder => { workOrder with
    status := .delivered
    deliveredAt := some input.now
    deliveredByUserId := some input.actorUserId
    updatedAt := input.now }
  recordMove .vehicleDelivered input.actorUserId (some .completed) .delivered
    input.now
  recordStatusChange (some fromStatus) input.now

def cancel (input : CancelInput) : WorkOrderM Unit := do
  assertStateAllows cancelableStates
  let fromStatus := (← get).status
  modify fun workOrder => { workOrder with
    status := .canceled
    canceledAt := some input.now
    canceledByUserId := some input.actorUserId
    cancellationReason := some input.reason
    updatedAt := input.now }
  recordMove .workOrderCanceled input.actorUserId (some fromStatus) .canceled
    input.now
  recordStatusChange (some fromStatus) input.now

/-- What `CancellationAuthorizer` reads. -/
def hasOutstandingWithdrawals (workOrder : WorkOrder) : Bool :=
  workOrder.partItems.any fun item => decide (0 < item.withdrawnQuantity)

end WorkOrder

end WorkOrders

end Workshop
