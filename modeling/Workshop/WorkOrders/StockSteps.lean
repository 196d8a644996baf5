/-
The outbox of work orders over `work_order_stock_steps`.  Each definition is
one statement; the rows stand in the order of their internal key, which is the
order they were recorded in, and the operation id names a row.
-/
import Mathlib.Data.List.Sort
import Workshop.Inventory.Batches

namespace Workshop

namespace WorkOrders

open Inventory (StockLine)

inductive StockStepKind
  | undoConsumption
  | confirmConsumption
  | restore
  | settle
  | writeOff
deriving DecidableEq, Repr

inductive StepStatus
  | armed
  | pending
  | done
  | failed
deriving DecidableEq, Repr

structure StockStep where
  operationId : OperationId
  kind : StockStepKind
  workOrderId : WorkOrderId
  actorUserId : UserId
  lines : Option (List StockLine) := none
  consumptionOperationId : Option OperationId := none
deriving DecidableEq, Repr

structure ClaimedStockStep extends StockStep where
  attempts : Nat
deriving DecidableEq, Repr

/-- A row of `work_order_stock_steps`. -/
structure StockStepRow extends StockStep where
  status : StepStatus
  attempts : Nat
  dueAt : Timestamp
  lastError : Option String
  createdAt : Timestamp
  completedAt : Option Timestamp
deriving DecidableEq, Repr

/-- The row an insert writes. -/
def StockStep.toRow (step : StockStep) (status : StepStatus) (dueAt : Timestamp)
    (now : Timestamp) : StockStepRow :=
  { step with
    status, attempts := 0, dueAt, lastError := none, createdAt := now
    completedAt := none }

/-- A step that is neither done nor failed. -/
def StepStatus.isOpen (status : StepStatus) : Bool :=
  status = .armed || status = .pending

namespace StockSteps

/-- A violation of `ux_work_order_stock_steps_operation_id`. -/
structure OperationIdTaken where

/-- `insert`, into the table of a work order that exists. -/
def insert (steps : List StockStepRow) (row : StockStepRow) :
    Except OperationIdTaken (List StockStepRow) :=
  if steps.any fun other => other.operationId = row.operationId then .error {}
  else .ok (steps ++ [row])

/-- An `UPDATE` of the row with this operation id, where its status is one of
these. -/
def updateWhere (steps : List StockStepRow) (operationId : OperationId)
    (allowed : List StepStatus) (change : StockStepRow → StockStepRow) :
    List StockStepRow :=
  steps.map fun row =>
    if row.operationId = operationId && decide (row.status ∈ allowed)
    then change row else row

/-- Whether `disarm` finds its row armed, which is what it answers. -/
def isArmed (steps : List StockStepRow) (operationId : OperationId) : Bool :=
  steps.any fun row => row.operationId = operationId && row.status = .armed

def disarm (steps : List StockStepRow) (operationId : OperationId)
    (now : Timestamp) : List StockStepRow :=
  updateWhere steps operationId [.armed] fun row =>
    { row with status := .done, completedAt := some now }

def complete (steps : List StockStepRow) (operationId : OperationId)
    (now : Timestamp) : List StockStepRow :=
  updateWhere steps operationId [.armed, .pending] fun row =>
    { row with status := .done, completedAt := some now }

def release (steps : List StockStepRow) (operationId : OperationId)
    (now : Timestamp) : List StockStepRow :=
  updateWhere steps operationId [.armed] fun row =>
    { row with status := .pending, dueAt := now }

def recordFailure (steps : List StockStepRow) (operationId : OperationId)
    (error : String) (nextDueAt : Timestamp) : List StockStepRow :=
  updateWhere steps operationId [.armed, .pending] fun row =>
    { row with lastError := some error, dueAt := nextDueAt }

def markFailed (steps : List StockStepRow) (operationId : OperationId)
    (error : String) : List StockStepRow :=
  updateWhere steps operationId [.armed, .pending] fun row =>
    { row with status := .failed, lastError := some error }

/-- The operator who sets a failed step back to pending. -/
def retry (steps : List StockStepRow) (operationId : OperationId)
    (now : Timestamp) : List StockStepRow :=
  updateWhere steps operationId [.failed] fun row =>
    { row with status := .pending, dueAt := now }

/-- An older step that holds the later steps of its work order. -/
def holds (workOrderId : WorkOrderId) (older : StockStepRow) : Bool :=
  older.workOrderId = workOrderId && decide (older.kind ≠ .undoConsumption) &&
    decide (older.status ∈ [.armed, .pending, .failed])

/-- The condition of `CLAIM_DUE` on a row: open, due, named when it names any,
and either an undo or not held by an older step. -/
def isDue (now : Timestamp) (operationIds : Option (List OperationId))
    (older : List StockStepRow) (row : StockStepRow) : Bool :=
  row.status.isOpen && decide (row.dueAt ≤ now) &&
    (match operationIds with
      | none => true
      | some ids => decide (row.operationId ∈ ids)) &&
    (decide (row.kind = .undoConsumption) || !older.any (holds row.workOrderId))

/-- The rows `CLAIM_DUE` may pick, given the older rows. -/
def dueRows (now : Timestamp) (operationIds : Option (List OperationId)) :
    List StockStepRow → List StockStepRow → List StockStepRow
  | _, [] => []
  | older, row :: rows =>
      if isDue now operationIds older row
      then row :: dueRows now operationIds (older ++ [row]) rows
      else dueRows now operationIds (older ++ [row]) rows

/-- The rows a claim picks: the due ones that no other claim has locked, by
due time and then by key, up to the limit. -/
def pickedRows (steps : List StockStepRow) (now : Timestamp) (limit : Nat)
    (operationIds : Option (List OperationId)) (locked : List OperationId) :
    List StockStepRow :=
  (((dueRows now operationIds [] steps).filter fun row =>
      decide (row.operationId ∉ locked)).insertionSort
        fun a b => a.dueAt ≤ b.dueAt).take limit

/-- The table after a claim picked these rows. -/
def markClaimed (steps picked : List StockStepRow) (leaseUntil : Timestamp) :
    List StockStepRow :=
  steps.map fun row =>
    if decide (row.operationId ∈ picked.map fun other => other.operationId)
    then { row with
      status := .pending, attempts := row.attempts + 1, dueAt := leaseUntil }
    else row

/-- What a claim answers, in any order. -/
def claimedSteps (picked : List StockStepRow)
    (order : RowOrder ClaimedStockStep) : List ClaimedStockStep :=
  order.arrange (picked.map fun row =>
    { row.toStockStep with attempts := row.attempts + 1 })

end StockSteps

end WorkOrders

end Workshop
