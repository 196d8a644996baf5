/-
The entities inside a work order: its budgets, the services it asks for and
the parts it plans.  A method that refuses answers an error and changes
nothing.
-/
import Workshop.Shared.Values

namespace Workshop

namespace WorkOrders

abbrev WorkOrderItemId := Uuid
abbrev BudgetId := Uuid

inductive WorkOrderStatus
  | received
  | inDiagnosis
  | awaitingApproval
  | inExecution
  | completed
  | delivered
  | canceled
deriving DecidableEq, Repr

/-- The two statuses nothing leaves. -/
def WorkOrderStatus.isClosed (status : WorkOrderStatus) : Bool :=
  status = .delivered || status = .canceled

inductive BudgetStatus
  | pending
  | approved
  | rejected
deriving DecidableEq, Repr

inductive WorkOrderError
  | workOrderState (status : WorkOrderStatus)
  | budgetState (status : BudgetStatus)
  | budgetNotFound
  | itemNotFound
  | budgetedItemNotRemovable
  | diagnosisWithoutItems
  | emptyDraftBudget
  | partNotWithdrawable
  | withdrawalExceedsPlanned
  | returnExceedsWithdrawn
  | duplicateBatchLine
  | discountExceedsChargedTotal
  | invalidPlannedQuantity
  | invalidMoneyAmount (cents : Int)
deriving DecidableEq, Repr

/-- The largest value of the `integer` column that stores a planned quantity. -/
def maxPlannedQuantity : Int := 2147483647

structure PlannedQuantity where
  units : Int
  positive : 0 < units
  le_max : units ≤ maxPlannedQuantity
deriving DecidableEq, Repr

def PlannedQuantity.create (raw : Int) : Except WorkOrderError PlannedQuantity :=
  if h : 0 < raw ∧ raw ≤ maxPlannedQuantity then .ok ⟨raw, h.1, h.2⟩
  else .error .invalidPlannedQuantity

/-- `Money.multiply` by a planned quantity, which never refuses. -/
def PlannedQuantity.timesPrice (quantity : PlannedQuantity) (price : Money) :
    Money :=
  ⟨toNumber (price.cents * quantity.units),
    toNumber_nonneg (Int.mul_nonneg price.nonneg (Int.le_of_lt quantity.positive))⟩

structure WorkOrderServiceItem where
  id : WorkOrderItemId
  serviceId : Uuid
  serviceName : String
  unitPrice : Money
  budgetRound : Option Nat
  budgetedUnitPrice : Option Money
deriving DecidableEq, Repr

namespace WorkOrderServiceItem

def isDraft (item : WorkOrderServiceItem) : Bool := item.budgetRound.isNone

def attachToBudget (item : WorkOrderServiceItem) (round : Nat) :
    WorkOrderServiceItem :=
  { item with
    budgetRound := some round, budgetedUnitPrice := some item.unitPrice }

end WorkOrderServiceItem

structure WorkOrderPartItem where
  id : WorkOrderItemId
  inventoryItemId : ItemId
  sku : String
  itemName : String
  unitPrice : Money
  plannedQuantity : PlannedQuantity
  withdrawnQuantity : Int
  budgetRound : Option Nat
  budgetedUnitPrice : Option Money
deriving DecidableEq, Repr

namespace WorkOrderPartItem

def isDraft (item : WorkOrderPartItem) : Bool := item.budgetRound.isNone

def attachToBudget (item : WorkOrderPartItem) (round : Nat) :
    WorkOrderPartItem :=
  { item with
    budgetRound := some round, budgetedUnitPrice := some item.unitPrice }

/-- Raises the withdrawn quantity, refusing to pass the planned one. -/
def withdraw (item : WorkOrderPartItem) (quantity : Int) :
    Except WorkOrderError WorkOrderPartItem :=
  let next := item.withdrawnQuantity + quantity
  if item.plannedQuantity.units < next then .error .withdrawalExceedsPlanned
  else .ok { item with withdrawnQuantity := next }

/-- Lowers the withdrawn quantity, refusing to go below zero. -/
def returnUnits (item : WorkOrderPartItem) (quantity : Int) :
    Except WorkOrderError WorkOrderPartItem :=
  let next := item.withdrawnQuantity - quantity
  if next < 0 then .error .returnExceedsWithdrawn
  else .ok { item with withdrawnQuantity := next }

end WorkOrderPartItem

/-- One numbered round. -/
structure Budget where
  id : BudgetId
  round : Nat
  total : Money
  status : BudgetStatus
  generatedAt : Timestamp
  decidedAt : Option Timestamp
  decidedByUserId : Option UserId
deriving DecidableEq, Repr

namespace Budget

def generate (id : BudgetId) (round : Nat) (total : Money)
    (generatedAt : Timestamp) : Budget where
  id := id
  round := round
  total := total
  status := .pending
  generatedAt := generatedAt
  decidedAt := none
  decidedByUserId := none

def assertStatusIs (budget : Budget) (expected : BudgetStatus) :
    Except WorkOrderError Unit :=
  if budget.status ≠ expected then .error (.budgetState budget.status) else .ok ()

/-- Resets a rejected round to `PENDING` with a fresh total. -/
def regenerate (budget : Budget) (total : Money) (generatedAt : Timestamp) :
    Except WorkOrderError Budget := do
  budget.assertStatusIs .rejected
  return { budget with
    status := .pending, total, generatedAt
    decidedAt := none, decidedByUserId := none }

/-- `approve` and `reject` differ in the status they set. -/
def decide (budget : Budget) (status : BudgetStatus) (actorUserId : UserId)
    (decidedAt : Timestamp) : Except WorkOrderError Budget := do
  budget.assertStatusIs .pending
  return { budget with
    status, decidedAt := some decidedAt, decidedByUserId := some actorUserId }

def approve (budget : Budget) (actorUserId : UserId) (decidedAt : Timestamp) :
    Except WorkOrderError Budget :=
  budget.decide .approved actorUserId decidedAt

def reject (budget : Budget) (actorUserId : UserId) (decidedAt : Timestamp) :
    Except WorkOrderError Budget :=
  budget.decide .rejected actorUserId decidedAt

end Budget

end WorkOrders

end Workshop
