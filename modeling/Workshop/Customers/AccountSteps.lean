/-
The outbox of customers over `customer_account_steps`.  Each definition is one
statement; the rows stand in the order of their internal key, and the operation
id names a row.
-/
import Mathlib.Data.List.Sort
import Workshop.Library.Results
import Workshop.Shared.Values

namespace Workshop

namespace Customers

inductive AccountStepKind
  | discardAccount
deriving DecidableEq, Repr

inductive StepStatus
  | armed
  | pending
  | done
  | failed
deriving DecidableEq, Repr

/-- An account operation customers hands to identity. -/
structure AccountStep where
  operationId : OperationId
  kind : AccountStepKind
  /-- The id the registration chose before the account existed. -/
  userId : UserId
deriving DecidableEq, Repr

structure ClaimedAccountStep extends AccountStep where
  attempts : Nat
deriving DecidableEq, Repr

/-- A row of `customer_account_steps`. -/
structure AccountStepRow extends AccountStep where
  status : StepStatus
  attempts : Nat
  dueAt : Timestamp
  lastError : Option String
  createdAt : Timestamp
  completedAt : Option Timestamp
deriving DecidableEq, Repr

/-- A step that is neither done nor failed. -/
def StepStatus.isOpen (status : StepStatus) : Bool :=
  status = .armed || status = .pending

namespace AccountSteps

/-- A violation of `ux_customer_account_steps_operation_id`. -/
structure OperationIdTaken where

def arm (steps : List AccountStepRow) (step : AccountStep)
    (dueAt now : Timestamp) : Except OperationIdTaken (List AccountStepRow) :=
  if steps.any fun other => other.operationId = step.operationId then .error {}
  else .ok (steps ++ [{ step with
    status := .armed, attempts := 0, dueAt, lastError := none, createdAt := now
    completedAt := none }])

/-- An `UPDATE` of the row with this operation id, where its status is one of
these. -/
def updateWhere (steps : List AccountStepRow) (operationId : OperationId)
    (allowed : List StepStatus) (change : AccountStepRow → AccountStepRow) :
    List AccountStepRow :=
  steps.map fun row =>
    if row.operationId = operationId && decide (row.status ∈ allowed)
    then change row else row

/-- Whether `disarm` finds its row armed, which is what it answers. -/
def isArmed (steps : List AccountStepRow) (operationId : OperationId) : Bool :=
  steps.any fun row => row.operationId = operationId && row.status = .armed

def disarm (steps : List AccountStepRow) (operationId : OperationId)
    (now : Timestamp) : List AccountStepRow :=
  updateWhere steps operationId [.armed] fun row =>
    { row with status := .done, completedAt := some now }

def complete (steps : List AccountStepRow) (operationId : OperationId)
    (now : Timestamp) : List AccountStepRow :=
  updateWhere steps operationId [.armed, .pending] fun row =>
    { row with status := .done, completedAt := some now }

def release (steps : List AccountStepRow) (operationId : OperationId)
    (now : Timestamp) : List AccountStepRow :=
  updateWhere steps operationId [.armed] fun row =>
    { row with status := .pending, dueAt := now }

def recordFailure (steps : List AccountStepRow) (operationId : OperationId)
    (error : String) (nextDueAt : Timestamp) : List AccountStepRow :=
  updateWhere steps operationId [.armed, .pending] fun row =>
    { row with lastError := some error, dueAt := nextDueAt }

def markFailed (steps : List AccountStepRow) (operationId : OperationId)
    (error : String) : List AccountStepRow :=
  updateWhere steps operationId [.armed, .pending] fun row =>
    { row with status := .failed, lastError := some error }

/-- The condition of `CLAIM_DUE` on a row: open, due, and named when it names
any. -/
def isDue (now : Timestamp) (operationIds : Option (List OperationId))
    (row : AccountStepRow) : Bool :=
  row.status.isOpen && decide (row.dueAt ≤ now) &&
    match operationIds with
    | none => true
    | some ids => decide (row.operationId ∈ ids)

/-- The rows a claim picks: the due ones that no other statement has locked, by
due time and then by key, up to the limit. -/
def pickedRows (steps : List AccountStepRow) (now : Timestamp) (limit : Nat)
    (operationIds : Option (List OperationId)) (locked : List OperationId) :
    List AccountStepRow :=
  ((steps.filter fun row =>
      isDue now operationIds row && decide (row.operationId ∉ locked)).insertionSort
        fun a b => a.dueAt ≤ b.dueAt).take limit

/-- The table after a claim picked these rows. -/
def markClaimed (steps picked : List AccountStepRow) (leaseUntil : Timestamp) :
    List AccountStepRow :=
  steps.map fun row =>
    if decide (row.operationId ∈ picked.map fun other => other.operationId)
    then { row with
      status := .pending, attempts := row.attempts + 1, dueAt := leaseUntil }
    else row

/-- What a claim answers, in any order. -/
def claimedSteps (picked : List AccountStepRow)
    (order : RowOrder ClaimedAccountStep) : List ClaimedAccountStep :=
  order.arrange (picked.map fun row =>
    { row.toAccountStep with attempts := row.attempts + 1 })

end AccountSteps

/-- Every row is the step it was, and a row is closed only where the statement
closes it. -/
def StepsChange (closes : OperationId → Prop) (before after : List AccountStepRow) :
    Prop :=
  List.Forall₂ (fun old row => row.toAccountStep = old.toAccountStep ∧
    (row.status = .done → old.status = .done ∨ closes old.operationId)) before after

namespace StepsChange

open AccountSteps

variable {closes : OperationId → Prop} {steps after : List AccountStepRow}
variable {operationId : OperationId}

/-- An `UPDATE` that maps the rows. -/
theorem of_map {change : AccountStepRow → AccountStepRow}
    (hchange : ∀ row ∈ steps, (change row).toAccountStep = row.toAccountStep ∧
      ((change row).status = .done → row.status = .done ∨ closes row.operationId)) :
    StepsChange closes steps (steps.map change) := by
  rw [StepsChange, List.forall₂_map_right_iff, List.forall₂_same]
  exact hchange

theorem refl (steps : List AccountStepRow) : StepsChange closes steps steps := by
  rw [StepsChange, List.forall₂_same]
  exact fun row _ => ⟨rfl, Or.inl⟩

/-- An `UPDATE` of one row, where its status allows it. -/
theorem updateWhere {allowed : List StepStatus}
    {change : AccountStepRow → AccountStepRow}
    (hstep : ∀ row, (change row).toAccountStep = row.toAccountStep)
    (hcloses : ∀ row, (change row).status = .done →
      row.status = .done ∨ closes operationId) :
    StepsChange closes steps
      (AccountSteps.updateWhere steps operationId allowed change) := by
  refine of_map fun row _ => ?_
  split
  · rename_i hmatch
    simp only [Bool.and_eq_true, decide_eq_true_eq] at hmatch
    exact ⟨hstep row, hmatch.1 ▸ hcloses row⟩
  · exact ⟨rfl, Or.inl⟩

theorem disarm (now : Timestamp) (hcloses : closes operationId) :
    StepsChange closes steps (AccountSteps.disarm steps operationId now) :=
  updateWhere (fun _ => rfl) fun _ _ => Or.inr hcloses

theorem complete (now : Timestamp) (hcloses : closes operationId) :
    StepsChange closes steps (AccountSteps.complete steps operationId now) :=
  updateWhere (fun _ => rfl) fun _ _ => Or.inr hcloses

theorem release (now : Timestamp) :
    StepsChange closes steps (AccountSteps.release steps operationId now) :=
  updateWhere (fun _ => rfl) fun _ => nofun

theorem recordFailure (error : String) (nextDueAt : Timestamp) :
    StepsChange closes steps
      (AccountSteps.recordFailure steps operationId error nextDueAt) :=
  updateWhere (fun _ => rfl) fun _ => Or.inl

theorem markFailed (error : String) :
    StepsChange closes steps (AccountSteps.markFailed steps operationId error) :=
  updateWhere (fun _ => rfl) fun _ => nofun

theorem markClaimed (picked : List AccountStepRow) (leaseUntil : Timestamp) :
    StepsChange closes steps (AccountSteps.markClaimed steps picked leaseUntil) := by
  refine of_map fun row _ => ?_
  split
  · exact ⟨rfl, nofun⟩
  · exact ⟨rfl, Or.inl⟩

theorem mem (h : StepsChange closes steps after) {row : AccountStepRow}
    (hrow : row ∈ after) :
    ∃ old ∈ steps, row.toAccountStep = old.toAccountStep ∧
      (row.status = .done → old.status = .done ∨ closes old.operationId) :=
  exists_left_of_forall₂ h hrow

theorem kept (h : StepsChange closes steps after) {old : AccountStepRow}
    (hold : old ∈ steps) :
    ∃ row ∈ after, row.toAccountStep = old.toAccountStep ∧
      (row.status = .done → old.status = .done ∨ closes old.operationId) :=
  exists_right_of_forall₂ h hold

end StepsChange

/-- What a claim hands out are steps of the table. -/
theorem mem_claimedSteps {steps : List AccountStepRow} {now : Timestamp} {limit : Nat}
    {operationIds : Option (List OperationId)} {locked : List OperationId}
    {order : RowOrder ClaimedAccountStep} {step : ClaimedAccountStep}
    (h : step ∈ AccountSteps.claimedSteps
      (AccountSteps.pickedRows steps now limit operationIds locked) order) :
    ∃ row ∈ steps, row.toAccountStep = step.toAccountStep := by
  obtain ⟨row, hrow, rfl⟩ := List.mem_map.mp ((order.perm _).mem_iff.mp h)
  have hsorted := (List.mem_insertionSort _).mp (List.mem_of_mem_take hrow)
  exact ⟨row, (List.mem_filter.mp hsorted).1, rfl⟩

end Customers

end Workshop
