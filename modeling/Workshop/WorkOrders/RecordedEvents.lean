/-
What the methods of the aggregate record.  A method either notes one fact and
moves nothing, or moves the status and records the facts it consists of and
then one notice of the move.
-/
import Workshop.WorkOrders.Operations

namespace Workshop

namespace WorkOrders

namespace TrailEvent

/-- A trail event that is no move. -/
def IsFact (event : TrailEvent) : Prop :=
  event.fromStatus = none ∧ event.toStatus = none

/-- A trail event that carries a move of the status. -/
def IsMove (event : TrailEvent) (source target : WorkOrderStatus) : Prop :=
  event.fromStatus = some source ∧ event.toStatus = some target

end TrailEvent

/-- What a call that ended well recorded.  `carried` says whether one of the
trail events of a move carries it. -/
inductive Records (carried : Bool) (now : Timestamp) (before after : WorkOrder) :
    Prop
  | fact (event : TrailEvent) (hstatus : after.status = before.status)
      (hfact : event.IsFact)
      (hstamp : event.workOrderId = before.id ∧ event.occurredAt = now)
      (hevents : after.domainEvents = before.domainEvents ++ [.trail event])
  | move (trail : List TrailEvent) (notice : WorkOrderStatusChanged)
      (hevents : after.domainEvents =
        before.domainEvents ++ (trail.map .trail ++ [.statusChanged notice]))
      (hstatus : after.status ≠ before.status)
      (htrail : ∀ event ∈ trail,
        event.IsFact ∨ event.IsMove before.status after.status)
      (hstamp : ∀ event ∈ trail,
        event.workOrderId = before.id ∧ event.occurredAt = now)
      (hcarried : carried = true → ∃ event ∈ trail, ¬ event.IsFact)
      (hhidden : carried = false → before.status = .inExecution ∧
        after.status = .awaitingApproval ∧ ∀ event ∈ trail, event.IsFact)
      (hfrom : notice.fromStatus = some before.status)
      (hto : notice.toStatus = after.status)
      (hbudget : notice.budgetToDecide = after.budgetOfStatusChange)

namespace WorkOrder

variable {before after : WorkOrder} {done : Unit} {now : Timestamp}
variable {fromStatus toStatus : WorkOrderStatus}

/-- A method that noted one fact. -/
theorem records_fact (eventType : TrailEventType) (actorUserId : UserId)
    {carried : Bool} (hstatus : after.status = before.status)
    (hevents : after.domainEvents = before.domainEvents ++ [.trail {
      eventType, workOrderId := before.id, actorUserId
      fromStatus := none, toStatus := none, occurredAt := now }]) :
    Records carried now before after :=
  Records.fact _ hstatus ⟨rfl, rfl⟩ ⟨rfl, rfl⟩ hevents

/-- A method whose move is carried by one of its trail events. -/
theorem records_move (trail : List TrailEvent) (notice : WorkOrderStatusChanged)
    (hevents : after.domainEvents =
      before.domainEvents ++ (trail.map .trail ++ [.statusChanged notice]))
    (hstatus : after.status ≠ before.status)
    (htrail : ∀ event ∈ trail,
      event.IsFact ∨ event.IsMove before.status after.status)
    (hstamp : ∀ event ∈ trail,
      event.workOrderId = before.id ∧ event.occurredAt = now)
    (hcarried : ∃ event ∈ trail, event.IsMove before.status after.status)
    (hnotice : notice.fromStatus = some before.status ∧
      notice.toStatus = after.status ∧
      notice.budgetToDecide = after.budgetOfStatusChange) :
    Records true now before after := by
  refine Records.move trail notice hevents hstatus htrail hstamp (fun _ => ?_)
    nofun hnotice.1 hnotice.2.1 hnotice.2.2
  obtain ⟨event, hevent, hmove⟩ := hcarried
  refine ⟨event, hevent, fun hfact => ?_⟩
  have hnone := hmove.1.symm.trans hfact.1
  cases hnone

section Appended

variable (events : List WorkOrderEvent) (first second third last : WorkOrderEvent)

/-- Events recorded one by one are recorded as a list. -/
theorem append_two : events ++ [first] ++ [last] = events ++ ([first] ++ [last]) :=
  List.append_assoc _ _ _

theorem append_three : events ++ [first] ++ [second] ++ [last] =
    events ++ ([first, second] ++ [last]) := by simp

theorem append_four : events ++ [first] ++ [second] ++ [third] ++ [last] =
    events ++ ([first, second, third] ++ [last]) := by simp

end Appended

section Items

theorem addService_records {input : AddServiceInput}
    (h : Runs (addService input) before done after) :
    Records true input.now before after := by
  simp [addService, recordFact] at h
  obtain ⟨-, rfl⟩ := h
  exact records_fact _ _ rfl rfl

theorem planPart_records {input : PlanPartInput}
    (h : Runs (planPart input) before done after) :
    Records true input.now before after := by
  simp [planPart, recordFact] at h
  obtain ⟨-, rfl⟩ := h
  exact records_fact _ _ rfl rfl

/-- Erasing an item changes nothing but the items. -/
theorem eraseItem_keeps {itemId : WorkOrderItemId}
    (h : Runs (eraseItem itemId) before done after) :
    after.toWorkOrderRow = before.toWorkOrderRow ∧
      after.domainEvents = before.domainEvents ∧ after.budgets = before.budgets := by
  simp only [eraseItem, runs_bind, runs_get] at h
  obtain ⟨workOrder, middle, ⟨rfl, rfl⟩, h⟩ := h
  split at h
  · simp at h
    obtain ⟨-, rfl⟩ := h
    exact ⟨rfl, rfl, rfl⟩
  · split at h
    · simp at h
    · simp at h
      obtain ⟨-, rfl⟩ := h
      exact ⟨rfl, rfl, rfl⟩

theorem removeItem_records {input : RemoveItemInput}
    (h : Runs (removeItem input) before done after) :
    Records true input.now before after := by
  simp [removeItem, recordFact] at h
  obtain ⟨-, _, middle, herase, rfl⟩ := h
  obtain ⟨hrow, hevents, -⟩ := eraseItem_keeps herase
  have hid : middle.id = before.id := congrArg WorkOrderRow.id hrow
  have hstatus : middle.status = before.status := congrArg WorkOrderRow.status hrow
  refine records_fact .itemRemovedFromWorkOrder input.actorUserId hstatus ?_
  change middle.domainEvents ++ [_] = _
  rw [hevents, hid]

end Items

section Parts

variable {change : WorkOrderPartItem → Int → Except WorkOrderError WorkOrderPartItem}
variable {resolved : List (WorkOrderPartItem × Int)}

/-- A batch changes nothing but the parts. -/
theorem changeParts_keeps :
    ∀ {before : WorkOrder}, Runs (changeParts change resolved) before done after →
      after.toWorkOrderRow = before.toWorkOrderRow ∧
        after.domainEvents = before.domainEvents ∧ after.budgets = before.budgets := by
  induction resolved with
  | nil =>
      intro before h
      simp [changeParts] at h
      rw [h]
      exact ⟨rfl, rfl, rfl⟩
  | cons entry resolved ih =>
      intro before h
      simp only [changeParts, runs_bind] at h
      obtain ⟨_, middle, hfirst, hrest⟩ := h
      have hkept := ih hrest
      simp only [changePart, runs_bind, runs_get] at hfirst
      obtain ⟨workOrder, _, ⟨rfl, rfl⟩, hfirst⟩ := hfirst
      split at hfirst
      · simp at hfirst
      · simp at hfirst
        obtain ⟨changed, -, rfl⟩ := hfirst
        exact hkept

theorem withdrawParts_records {input : WithdrawPartsInput}
    {lines : List ResolvedBatchLine}
    (h : Runs (withdrawParts input) before lines after) :
    Records true input.now before after := by
  simp [withdrawParts, recordFact] at h
  obtain ⟨-, -, resolved, -, _, middle, hchange, rfl, -⟩ := h
  obtain ⟨hrow, hevents, -⟩ := changeParts_keeps hchange
  have hid : middle.id = before.id := congrArg WorkOrderRow.id hrow
  have hstatus : middle.status = before.status := congrArg WorkOrderRow.status hrow
  refine records_fact .partWithdrawn input.actorUserId hstatus ?_
  change middle.domainEvents ++ [_] = _
  rw [hevents, hid]

theorem returnParts_records {input : WithdrawPartsInput}
    {lines : List ResolvedBatchLine}
    (h : Runs (returnParts input) before lines after) :
    Records true input.now before after := by
  simp [returnParts, recordFact] at h
  obtain ⟨-, -, resolved, -, _, middle, hchange, rfl, -⟩ := h
  obtain ⟨hrow, hevents, -⟩ := changeParts_keeps hchange
  have hid : middle.id = before.id := congrArg WorkOrderRow.id hrow
  have hstatus : middle.status = before.status := congrArg WorkOrderRow.status hrow
  refine records_fact .partReturned input.actorUserId hstatus ?_
  change middle.domainEvents ++ [_] = _
  rw [hevents, hid]

end Parts

theorem assignMechanic_records {input : AssignMechanicInput}
    (h : Runs (assignMechanic input) before done after) :
    Records true input.now before after := by
  simp [assignMechanic, recordFact] at h
  obtain ⟨-, rfl⟩ := h
  exact records_fact _ _ rfl rfl

theorem applyDiscount_records {input : ApplyDiscountInput}
    (h : Runs (applyDiscount input) before done after) :
    Records true input.now before after := by
  simp [applyDiscount, recordFact] at h
  obtain ⟨-, _, -, -, _, middle, hrefresh, rfl⟩ := h
  obtain ⟨chargedTotal, rfl⟩ := refreshChargedTotal_row hrefresh
  exact records_fact _ _ rfl rfl

section Moves

theorem startDiagnosis_records {input : StartDiagnosisInput}
    (h : Runs (startDiagnosis input) before done after) :
    Records true input.now before after := by
  simp [startDiagnosis, recordMove, recordStatusChange] at h
  obtain ⟨hstatus, rfl⟩ := h
  refine records_move [_] _ (append_two _ _ _) ?_ ?_ ?_
    ⟨_, List.mem_singleton_self _, ?_⟩ ⟨rfl, rfl, rfl⟩
  · rw [hstatus]
    exact fun hstays => by cases hstays
  · simp [TrailEvent.IsMove, noting, hstatus]
  · simp
  · exact ⟨congrArg some hstatus.symm, rfl⟩

theorem completeDiagnosis_records {input : GenerateBudgetInput}
    (h : Runs (completeDiagnosis input) before done after) :
    Records true input.now before after := by
  simp [completeDiagnosis, recordMove, recordFact, recordStatusChange] at h
  obtain ⟨hstatus, -, total, middle, hround, _, last, hwrite, rfl⟩ := h
  obtain ⟨rfl, -⟩ := generateRound_eq hround
  obtain ⟨budget, budgets, rfl, -⟩ := writeRoundOne_eq hwrite
  refine records_move [_, _, _] _ (append_four _ _ _ _ _) ?_ ?_ ?_
    ⟨_, List.mem_cons_self, ?_⟩ ⟨rfl, rfl, rfl⟩
  · rw [hstatus]
    exact fun hstays => by cases hstays
  · simp [TrailEvent.IsFact, TrailEvent.IsMove, noting, hstatus]
  · simp
  · exact ⟨congrArg some hstatus.symm, rfl⟩

/-- A supplementary round moves the status, and none of its trail events
carries the move. -/
theorem submitSupplementaryBudget_records {input : GenerateBudgetInput}
    (h : Runs (submitSupplementaryBudget input) before done after) :
    Records false input.now before after := by
  simp [submitSupplementaryBudget, recordFact, recordStatusChange] at h
  obtain ⟨hstatus, -, total, middle, hround, rfl⟩ := h
  obtain ⟨rfl, -⟩ := generateRound_eq hround
  refine Records.move [_, _] _ (append_three _ _ _ _) ?_ ?_ ?_ (by simp)
    (fun _ => ⟨hstatus, rfl, ?_⟩) rfl rfl rfl
  · rw [hstatus]
    exact fun hstays => by cases hstays
  · simp [TrailEvent.IsFact]
  · simp
  · simp [TrailEvent.IsFact]

theorem approveBudget_records {input : DecideBudgetActionInput}
    (h : Runs (approveBudget input) before done after) :
    Records true input.now before after := by
  simp [approveBudget, writeBudget, recordMove, recordStatusChange] at h
  obtain ⟨index, budget, middle, hfound, decided, -, rfl⟩ := h
  obtain ⟨rfl, hstatus, -⟩ := budgetToDecide_runs hfound
  refine records_move [_, _] _ (append_three _ _ _ _) ?_ ?_ ?_
    ⟨_, List.mem_cons_self, ?_⟩ ⟨rfl, rfl, rfl⟩
  · rw [hstatus]
    exact fun hstays => by cases hstays
  · simp [TrailEvent.IsMove, noting, hstatus]
  · simp
  · exact ⟨congrArg some hstatus.symm, rfl⟩

theorem rejectBudget_records {input : DecideBudgetActionInput}
    (h : Runs (rejectBudget input) before done after) :
    Records true input.now before after := by
  simp [rejectBudget, writeBudget, recordMove, recordStatusChange,
    recordExecutionStarted] at h
  obtain ⟨index, budget, middle, hfound, decided, -, state, hstate, rfl⟩ := h
  obtain ⟨rfl, hstatus, -⟩ := budgetToDecide_runs hfound
  have hmoved : rejectionDestination decided ≠ .awaitingApproval := by
    rw [rejectionDestination]
    split <;> decide
  split at hstate
  · rename_i hdestination
    subst hstate
    refine records_move [_, _] _ (append_three _ _ _ _) ?_ ?_ ?_
      ⟨_, List.mem_cons_self, ?_⟩ ⟨rfl, rfl, rfl⟩
    · rw [hstatus]
      exact hmoved
    · simp [TrailEvent.IsMove, noting, hstatus, hdestination]
    · simp
    · exact ⟨congrArg some hstatus.symm, rfl⟩
  · subst hstate
    refine records_move [_] _ (append_two _ _ _) ?_ ?_ ?_
      ⟨_, List.mem_singleton_self _, ?_⟩ ⟨rfl, rfl, rfl⟩
    · rw [hstatus]
      exact hmoved
    · simp [TrailEvent.IsMove, noting, hstatus]
    · simp
    · exact ⟨congrArg some hstatus.symm, rfl⟩

theorem complete_records {input : CloseActionInput}
    (h : Runs (complete input) before done after) :
    Records true input.now before after := by
  simp [complete, recordMove, recordStatusChange] at h
  obtain ⟨hstatus, _, -, -, chargedTotal, -, rfl⟩ := h
  refine records_move [_] _ (append_two _ _ _) ?_ ?_ ?_
    ⟨_, List.mem_singleton_self _, ?_⟩ ⟨rfl, rfl, rfl⟩
  · rw [hstatus]
    exact fun hstays => by cases hstays
  · simp [TrailEvent.IsMove, noting, hstatus]
  · simp
  · exact ⟨congrArg some hstatus.symm, rfl⟩

theorem deliver_records {input : CloseActionInput}
    (h : Runs (deliver input) before done after) :
    Records true input.now before after := by
  simp [deliver, recordMove, recordStatusChange] at h
  obtain ⟨hstatus, rfl⟩ := h
  refine records_move [_] _ (append_two _ _ _) ?_ ?_ ?_
    ⟨_, List.mem_singleton_self _, ?_⟩ ⟨rfl, rfl, rfl⟩
  · rw [hstatus]
    exact fun hstays => by cases hstays
  · simp [TrailEvent.IsMove, noting, hstatus]
  · simp
  · exact ⟨congrArg some hstatus.symm, rfl⟩

/-- A cancellation records the status it left. -/
theorem cancel_records {input : CancelInput}
    (h : Runs (cancel input) before done after) :
    Records true input.now before after := by
  simp [cancel, recordMove, recordStatusChange] at h
  obtain ⟨hstatus, rfl⟩ := h
  refine records_move [_] _ (append_two _ _ _) ?_ ?_ ?_
    ⟨_, List.mem_singleton_self _, ⟨rfl, rfl⟩⟩ ⟨rfl, rfl, rfl⟩
  · intro hclosed
    change WorkOrderStatus.canceled = before.status at hclosed
    rw [← hclosed] at hstatus
    exact absurd hstatus (by decide)
  · simp [TrailEvent.IsMove, noting]
  · simp

end Moves

end WorkOrder

namespace WorkOrderOperation

/-- The clock reading an operation works with. -/
def now : WorkOrderOperation → Timestamp
  | .addService input => input.now
  | .planPart input => input.now
  | .removeItem input => input.now
  | .startDiagnosis input => input.now
  | .completeDiagnosis input => input.now
  | .approveBudget input => input.now
  | .rejectBudget input => input.now
  | .submitSupplementaryBudget input => input.now
  | .withdrawParts input => input.now
  | .returnParts input => input.now
  | .assignMechanic input => input.now
  | .applyDiscount input => input.now
  | .complete input => input.now
  | .deliver input => input.now
  | .cancel input => input.now

/-- Whether the trail carries the move of an operation that moves the status. -/
def carriesMove : WorkOrderOperation → Bool
  | .submitSupplementaryBudget _ => false
  | _ => true

variable {before after : WorkOrder} {done : Unit}

/-- What an operation that ended well recorded. -/
theorem records (operation : WorkOrderOperation)
    (h : Runs operation.run before done after) :
    Records operation.carriesMove operation.now before after := by
  cases operation with
  | addService input => exact WorkOrder.addService_records h
  | planPart input => exact WorkOrder.planPart_records h
  | removeItem input => exact WorkOrder.removeItem_records h
  | startDiagnosis input => exact WorkOrder.startDiagnosis_records h
  | completeDiagnosis input => exact WorkOrder.completeDiagnosis_records h
  | approveBudget input => exact WorkOrder.approveBudget_records h
  | rejectBudget input => exact WorkOrder.rejectBudget_records h
  | submitSupplementaryBudget input =>
      exact WorkOrder.submitSupplementaryBudget_records h
  | withdrawParts input =>
      obtain ⟨lines, hruns, -⟩ := runs_map.mp h
      exact WorkOrder.withdrawParts_records hruns
  | returnParts input =>
      obtain ⟨lines, hruns, -⟩ := runs_map.mp h
      exact WorkOrder.returnParts_records hruns
  | assignMechanic input => exact WorkOrder.assignMechanic_records h
  | applyDiscount input => exact WorkOrder.applyDiscount_records h
  | complete input => exact WorkOrder.complete_records h
  | deliver input => exact WorkOrder.deliver_records h
  | cancel input => exact WorkOrder.cancel_records h

end WorkOrderOperation

end WorkOrders

end Workshop
