/-
The notices of status changes over a run of the aggregate: one for every change
of the status, each starting where the one before it ended, with the pending
round when there is one to decide.
-/
import Workshop.Library.Walks
import Workshop.WorkOrders.RecordedEvents

namespace Workshop

namespace WorkOrders

/-- The notice an event is, when it is one. -/
def WorkOrderEvent.notice : WorkOrderEvent → Option WorkOrderStatusChanged
  | .trail _ => none
  | .statusChanged event => some event

/-- The status notices among the recorded events. -/
def WorkOrder.statusChanges (workOrder : WorkOrder) : List WorkOrderStatusChanged :=
  workOrder.domainEvents.filterMap WorkOrderEvent.notice

/-- What the notice of a move to a work order carries: the one pending round when
it awaits approval, and no round otherwise. -/
structure Carries (workOrder : WorkOrder) (budgetToDecide : Option BudgetToDecide) :
    Prop where
  awaiting : workOrder.status = .awaitingApproval → ∃ pending,
    (workOrder.budgets.filter fun budget => budget.status = .pending) = [pending] ∧
      budgetToDecide = some {
        id := pending.id, totalCents := pending.total.cents
        generatedAt := pending.generatedAt }
  settled : workOrder.status ≠ .awaitingApproval → budgetToDecide = none

/-- What a call adds to the notices: one when it changed the status, none when
it did not. -/
structure NoticesOnce (before after : WorkOrder) : Prop where
  moved : after.status ≠ before.status → ∃ notice,
    after.statusChanges = before.statusChanges ++ [notice] ∧
      notice.fromStatus = some before.status ∧ notice.toStatus = after.status ∧
      Carries after notice.budgetToDecide
  stayed : after.status = before.status →
    after.statusChanges = before.statusChanges

/-- The notices recorded so far lead from the opening to the current status, and
a round is carried to every decision and nowhere else. -/
structure NoticesChained (workOrder : WorkOrder) : Prop where
  opened : ∃ first rest, workOrder.statusChanges = first :: rest ∧
    first.fromStatus = none ∧ first.toStatus = .received
  walk : Walk WorkOrderStatusChanged.fromStatus (fun notice => some notice.toStatus)
    none workOrder.statusChanges (some workOrder.status)
  budgets : ∀ notice ∈ workOrder.statusChanges,
    notice.budgetToDecide.isSome = true ↔ notice.toStatus = .awaitingApproval

section Calls

variable {rules : BillingRules} {before after : WorkOrder} {workOrder : WorkOrder}

theorem statusChanges_append {events : List WorkOrderEvent}
    (h : after.domainEvents = before.domainEvents ++ events) :
    after.statusChanges =
      before.statusChanges ++ events.filterMap WorkOrderEvent.notice := by
  rw [WorkOrder.statusChanges, h, List.filterMap_append]
  rfl

/-- The notice that ends the events of a move is their only one. -/
theorem notices_of_move (trail : List TrailEvent) (notice : WorkOrderStatusChanged) :
    (trail.map WorkOrderEvent.trail ++ [WorkOrderEvent.statusChanged notice]).filterMap
      WorkOrderEvent.notice = [notice] := by
  have hnone : (trail.map WorkOrderEvent.trail).filterMap
      WorkOrderEvent.notice = [] := by
    rw [List.filterMap_map, List.filterMap_eq_nil_iff]
    exact fun _ _ => rfl
  rw [List.filterMap_append, hnone]
  rfl

/-- The round a work order in order carries is its one pending round. -/
theorem carries_budgetOfStatusChange (hsound : workOrder.billing.RoundsSound rules) :
    Carries workOrder workOrder.budgetOfStatusChange := by
  constructor
  · intro hstatus
    have hopen : workOrder.status ≠ .canceled := by
      rw [hstatus]
      exact nofun
    obtain ⟨pending, hpending, hmem⟩ :=
      (hsound.staged.pendingWhile hopen).mpr hstatus
    obtain ⟨only, honly⟩ : ∃ only,
        (workOrder.budgets.filter fun budget => budget.status = .pending) =
          [only] := by
      have hfound : pending ∈
          workOrder.budgets.filter fun budget => budget.status = .pending :=
        List.mem_filter.mpr ⟨hpending, decide_eq_true hmem⟩
      apply List.length_eq_one_iff.mp
      have hone := hsound.staged.onePending
      have hsome := List.length_pos_of_mem hfound
      exact Nat.le_antisymm hone hsome
    refine ⟨only, honly, ?_⟩
    rw [WorkOrder.budgetOfStatusChange, if_pos hstatus, ← List.head?_filter, honly]
    rfl
  · intro hstatus
    rw [WorkOrder.budgetOfStatusChange, if_neg hstatus]

/-- A call that ended well. -/
theorem noticesOnce_of_records {carried : Bool} {now : Timestamp}
    (hsound : after.billing.RoundsSound rules)
    (h : Records carried now before after) : NoticesOnce before after := by
  cases h with
  | fact event hstatus hfact hstamp hevents =>
      refine ⟨fun hmoved => absurd hstatus hmoved, fun _ => ?_⟩
      rw [statusChanges_append hevents]
      exact List.append_nil _
  | move trail notice hevents hstatus htrail hstamp hcarried hhidden hfrom hto
      hbudget =>
      refine ⟨fun _ => ⟨notice, ?_, hfrom, hto, ?_⟩,
        fun hstayed => absurd hstayed hstatus⟩
      · rw [statusChanges_append hevents]
        rw [notices_of_move]
      · rw [hbudget]
        exact carries_budgetOfStatusChange hsound

/-- Every call, failed or not. -/
theorem WorkOrderOperation.noticesOnce (operation : WorkOrderOperation)
    (hsound : before.billing.RoundsSound (roundedRules fun _ => True)) :
    NoticesOnce before (operation.perform before) := by
  have hsteps := operation.perform_steps hsound (obeys_rounded fun _ _ => trivial)
  rcases leftBy_cases operation.run before with ⟨done, hruns⟩ | ⟨error, hthrows⟩
  · exact noticesOnce_of_records (hsound.steps hsteps) (operation.records hruns)
  · have hsame : operation.perform before = before :=
      operation.unchanged_of_throws hsound hthrows
    rw [hsame]
    exact ⟨fun hmoved => absurd rfl hmoved, fun _ => rfl⟩

/-- The notices of an opened work order. -/
theorem noticesChained_open (input : OpenWorkOrderInput) :
    NoticesChained (WorkOrder.openWorkOrder input) where
  opened := ⟨_, [], rfl, rfl, rfl⟩
  walk := ⟨rfl, rfl⟩
  budgets := by
    intro notice hnotice
    obtain rfl := List.mem_singleton.mp hnotice
    simp

theorem NoticesChained.call (h : NoticesChained before)
    (honce : NoticesOnce before after) : NoticesChained after := by
  by_cases hstatus : after.status = before.status
  · have hsame := honce.stayed hstatus
    exact ⟨hsame ▸ h.opened, by rw [hsame, hstatus]; exact h.walk, hsame ▸ h.budgets⟩
  · obtain ⟨notice, hnotices, hfrom, hto, hcarries⟩ := honce.moved hstatus
    obtain ⟨first, rest, hfirst, hnone, hreceived⟩ := h.opened
    refine ⟨⟨first, rest ++ [notice], ?_, hnone, hreceived⟩, ?_, ?_⟩
    · rw [hnotices, hfirst, List.cons_append]
    · rw [hnotices, walk_concat, hfrom, hto]
      exact ⟨h.walk, rfl⟩
    · intro other hother
      rw [hnotices, List.mem_append, List.mem_singleton] at hother
      rcases hother with hother | rfl
      · exact h.budgets other hother
      · rw [hto]
        constructor
        · intro hsome
          by_contra hsettled
          rw [hcarries.settled hsettled] at hsome
          cases hsome
        · intro hawaiting
          obtain ⟨pending, -, hbudget⟩ := hcarries.awaiting hawaiting
          rw [hbudget]
          rfl

end Calls

/-- Over every run of the aggregate the notices form one chain from the opening
to the current status; a call that changes the status adds one, with the one
pending round when the work order now awaits approval, and a call that changes
it not, or throws, adds none. -/
theorem one_notice_per_status_change (input : OpenWorkOrderInput)
    (operations : List WorkOrderOperation) :
    NoticesChained (performAll operations (.openWorkOrder input)) ∧
      ∀ operation : WorkOrderOperation,
        NoticesOnce (performAll operations (.openWorkOrder input))
          (operation.perform (performAll operations (.openWorkOrder input))) ∧
        ∀ error left,
          Throws operation.run (performAll operations (.openWorkOrder input))
            error left →
          left.statusChanges =
            (performAll operations (.openWorkOrder input)).statusChanges := by
  have hrun : ∀ operations : List WorkOrderOperation, ∀ {before : WorkOrder},
      before.billing.RoundsSound (roundedRules fun _ => True) → NoticesChained before →
        NoticesChained (performAll operations before) := by
    intro operations
    induction operations with
    | nil => exact fun _ hchained => hchained
    | cons operation operations ih =>
        intro before hsound hchained
        have hsteps := operation.perform_steps hsound (obeys_rounded fun _ _ => trivial)
        exact ih (hsound.steps hsteps)
          (hchained.call (operation.noticesOnce hsound))
  have hsound := roundsSound_of_performAll input operations
  refine ⟨hrun operations (roundsSound_open input) (noticesChained_open input),
    fun operation => ⟨operation.noticesOnce hsound, fun error left hthrows => ?_⟩⟩
  rw [operation.unchanged_of_throws hsound hthrows]

end WorkOrders

end Workshop
