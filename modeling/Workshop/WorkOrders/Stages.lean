/-
How far a work order got, and when.  The columns of the stages are those of a
machine with one move for each stage a visit goes through; every method of the
aggregate that ends well makes one of its moves.
-/
import Workshop.WorkOrders.SavedOperations

namespace Workshop

namespace WorkOrders

/-- The status of a work order, its number of rounds and the times it reached its
stages at. -/
structure Stages where
  status : WorkOrderStatus
  rounds : Nat
  createdAt : Timestamp
  updatedAt : Timestamp
  diagnosisStartedAt : Option Timestamp
  diagnosisCompletedAt : Option Timestamp
  budgetDecidedAt : Option Timestamp
  executionStartedAt : Option Timestamp
  completedAt : Option Timestamp
  deliveredAt : Option Timestamp
  canceledAt : Option Timestamp
deriving DecidableEq, Repr

namespace Stages

/-- A work order that was opened. -/
def opened (now : Timestamp) : Stages where
  status := .received
  rounds := 0
  createdAt := now
  updatedAt := now
  diagnosisStartedAt := none
  diagnosisCompletedAt := none
  budgetDecidedAt := none
  executionStartedAt := none
  completedAt := none
  deliveredAt := none
  canceledAt := none

/-- One move of the stages at a time. -/
inductive Moves (now : Timestamp) (stages : Stages) : Stages → Prop
  | edit : Moves now stages { stages with updatedAt := now }
  | startDiagnosis (hstatus : stages.status = .received) :
      Moves now stages { stages with
        status := .inDiagnosis, diagnosisStartedAt := some now, updatedAt := now }
  | completeDiagnosis (hstatus : stages.status = .inDiagnosis) :
      Moves now stages { stages with
        status := .awaitingApproval, rounds := 1
        diagnosisCompletedAt := some now, updatedAt := now }
  | approve (hstatus : stages.status = .awaitingApproval) :
      Moves now stages { stages with
        status := .inExecution, budgetDecidedAt := some now
        executionStartedAt := some (stages.executionStartedAt.getD now)
        updatedAt := now }
  | reject (hstatus : stages.status = .awaitingApproval) :
      Moves now stages { stages with
        status := if stages.rounds = 1 then .inDiagnosis else .inExecution
        budgetDecidedAt := some now, updatedAt := now }
  | supplement (hstatus : stages.status = .inExecution) :
      Moves now stages { stages with
        status := .awaitingApproval, rounds := stages.rounds + 1, updatedAt := now }
  | complete (hstatus : stages.status = .inExecution) :
      Moves now stages { stages with
        status := .completed, completedAt := some now, updatedAt := now }
  | deliver (hstatus : stages.status = .completed) :
      Moves now stages { stages with
        status := .delivered, deliveredAt := some now, updatedAt := now }
  | cancel (hstatus : stages.status ∈ cancelableStates) :
      Moves now stages { stages with
        status := .canceled, canceledAt := some now, updatedAt := now }

/-- Which stages have a time in which status.  A cancellation leaves the times of the
diagnosis and the execution as they were, and a work order that awaits an approval is in
execution already when this is not its first round. -/
structure Stamped (stages : Stages) : Prop where
  received : stages.status = .received → stages.rounds = 0
  quoted : stages.status ∈ .awaitingApproval :: executedStates → stages.rounds ≠ 0
  diagnosisStarted : stages.status ≠ .canceled →
    (stages.diagnosisStartedAt.isSome ↔ stages.status ≠ .received)
  diagnosisCompleted : stages.diagnosisCompletedAt.isSome ↔ stages.rounds ≠ 0
  executionStarted : stages.status ≠ .canceled →
    (stages.executionStartedAt.isSome ↔ stages.status ∈ executedStates ∨
      stages.status = .awaitingApproval ∧ 1 < stages.rounds)
  decided : stages.executionStartedAt.isSome → stages.budgetDecidedAt.isSome
  completed : stages.completedAt.isSome ↔
    stages.status = .completed ∨ stages.status = .delivered
  delivered : stages.deliveredAt.isSome ↔ stages.status = .delivered
  canceled : stages.canceledAt.isSome ↔ stages.status = .canceled

/-- The times of the stages, in the order a visit goes through them. -/
def way (stages : Stages) : List Timestamp :=
  stages.createdAt :: (stages.diagnosisStartedAt.toList ++
    (stages.diagnosisCompletedAt.toList ++ (stages.executionStartedAt.toList ++
      (stages.completedAt.toList ++
        (stages.deliveredAt.toList ++ stages.canceledAt.toList)))))

/-- The stages were reached one after another, the last of them no later than the last
change; and the last decision falls between the start of the execution and its end. -/
structure Ordered (stages : Stages) : Prop where
  way : stages.way.Pairwise (· ≤ ·)
  changed : ∀ time ∈ stages.way, time ≤ stages.updatedAt
  decided : ∀ decided ∈ stages.budgetDecidedAt, decided ≤ stages.updatedAt ∧
    (∀ started ∈ stages.executionStartedAt, started ≤ decided) ∧
    ∀ completed ∈ stages.completedAt, decided ≤ completed

section Machine

variable {stages after : Stages} {now : Timestamp}

theorem stamped_opened : (opened now).Stamped := by
  refine ⟨fun _ => rfl, ?_, ?_, ?_, ?_, ?_, ?_, ?_, ?_⟩ <;> simp [opened, executedStates]

theorem ordered_opened : (opened now).Ordered := by
  refine ⟨?_, ?_, ?_⟩ <;> simp [opened, way]

/-- The time of the creation is no time of a stage. -/
theorem Stamped.recreated (h : stages.Stamped) (createdAt : Timestamp) :
    { stages with createdAt }.Stamped :=
  ⟨h.received, h.quoted, h.diagnosisStarted, h.diagnosisCompleted, h.executionStarted,
    h.decided, h.completed, h.delivered, h.canceled⟩

/-- A move leaves a stage its time exactly when the status says so. -/
theorem Moves.stamped (hmove : Moves now stages after) (h : stages.Stamped) :
    after.Stamped := by
  obtain ⟨hreceived, hquoted, hstarted, hcompleted, hexecution, hdecided, hdone,
    hdelivered, hcanceled⟩ := h
  cases hmove with
  | edit =>
      exact ⟨hreceived, hquoted, hstarted, hcompleted, hexecution, hdecided, hdone,
        hdelivered, hcanceled⟩
  | reject hstatus =>
      by_cases hone : stages.rounds = 1
      · constructor <;> simp_all [executedStates]
      · have hmany : 1 < stages.rounds := by
          have hsome : stages.rounds ≠ 0 := hquoted (by rw [hstatus]; decide)
          omega
        constructor <;> simp_all [executedStates]
  | cancel hstatus =>
      have hopen : stages.status ≠ .completed ∧ stages.status ≠ .delivered := by
        constructor <;> exact fun heq => absurd hstatus (by rw [heq]; decide)
      constructor <;> simp_all [executedStates]
  | _ => constructor <;> simp_all [executedStates]; try omega

/-- Times that were reached, and after them the present one, are in order. -/
theorem Ordered.append (h : stages.Ordered) (hnow : stages.updatedAt ≤ now)
    (reached later : List Timestamp) (hreached : reached.Sublist stages.way)
    (hlater : ∀ time ∈ later, time = now) (hway : after.way = reached ++ later)
    (hchanged : after.updatedAt = now)
    (hdecided : ∀ decided ∈ after.budgetDecidedAt, decided ≤ now ∧
      (∀ started ∈ after.executionStartedAt, started ≤ decided) ∧
      ∀ completed ∈ after.completedAt, decided ≤ completed) : after.Ordered := by
  have hbefore : ∀ time ∈ reached, time ≤ now := fun time htime =>
    (h.changed time (hreached.subset htime)).trans hnow
  have hpresent : ∀ time ∈ later, time ≤ now := fun time htime => (hlater time htime).le
  refine ⟨?_, ?_, hchanged ▸ hdecided⟩
  · rw [hway, List.pairwise_append]
    refine ⟨h.way.sublist hreached, ?_, ?_⟩
    · exact List.pairwise_of_forall_mem_list fun left hleft right hright =>
        (hpresent left hleft).trans_eq (hlater right hright).symm
    · exact fun time htime other hother =>
        (hbefore time htime).trans_eq (hlater other hother).symm
  · intro time htime
    rw [hway] at htime
    rw [hchanged]
    exact (List.mem_append.mp htime).elim (hbefore time) (hpresent time)

/-- An execution does not end before it started. -/
theorem Ordered.started_le_completed (h : stages.Ordered) {started completed : Timestamp}
    (hstarted : stages.executionStartedAt = some started)
    (hcompleted : stages.completedAt = some completed) : started ≤ completed := by
  have hsublist : [started, completed].Sublist stages.way := by
    rw [Stages.way, hstarted, hcompleted]
    refine .cons _ ((List.Sublist.trans ?_ (List.sublist_append_right _ _)).trans
      (List.sublist_append_right _ _))
    exact .cons_cons _ (List.sublist_append_left [completed] _)
  exact List.rel_of_pairwise_cons (h.way.sublist hsublist) (List.mem_singleton_self _)

/-- No stage after the last one reached has a time. -/
theorem Stamped.unfinished (h : stages.Stamped) (hcompleted : stages.status ≠ .completed)
    (hdelivered : stages.status ≠ .delivered) :
    stages.completedAt = none ∧ stages.deliveredAt = none := by
  rw [← Option.not_isSome_iff_eq_none, ← Option.not_isSome_iff_eq_none, h.completed,
    h.delivered]
  exact ⟨fun hdone => hdone.elim hcompleted hdelivered, hdelivered⟩

theorem Stamped.uncanceled (h : stages.Stamped) (hstatus : stages.status ≠ .canceled) :
    stages.canceledAt = none := by
  rw [← Option.not_isSome_iff_eq_none, h.canceled]
  exact hstatus

/-- Before the approval of a round no execution has a start. -/
theorem Stamped.unexecuted (h : stages.Stamped)
    (hstatus : stages.status = .received ∨ stages.status = .inDiagnosis) :
    stages.executionStartedAt = none := by
  rw [← Option.not_isSome_iff_eq_none, h.executionStarted
    (by rcases hstatus with hstatus | hstatus <;> rw [hstatus] <;> decide)]
  rcases hstatus with hstatus | hstatus <;> rw [hstatus] <;> simp [executedStates]

/-- A move at a time no earlier than the last change keeps the times in order. -/
theorem Moves.ordered (hmove : Moves now stages after) (hstamped : stages.Stamped)
    (h : stages.Ordered) (hnow : stages.updatedAt ≤ now) : after.Ordered := by
  have hdecided : ∀ decided ∈ stages.budgetDecidedAt, decided ≤ now := fun decided hmem =>
    (h.decided decided hmem).1.trans hnow
  have hkept : ∀ decided ∈ stages.budgetDecidedAt, decided ≤ now ∧
      (∀ started ∈ stages.executionStartedAt, started ≤ decided) ∧
      ∀ completed ∈ stages.completedAt, decided ≤ completed := fun decided hmem =>
    ⟨hdecided decided hmem, (h.decided decided hmem).2⟩
  cases hmove with
  | edit => exact h.append hnow stages.way [] (.refl _) (by simp) (by simp [way]) rfl hkept
  | startDiagnosis hstatus =>
      obtain ⟨hdone, hdelivered⟩ :=
        hstamped.unfinished (by simp [hstatus]) (by simp [hstatus])
      have hcanceled := hstamped.uncanceled (by simp [hstatus])
      have hexecution := hstamped.unexecuted (Or.inl hstatus)
      have hcompleted : stages.diagnosisCompletedAt = none := by
        rw [← Option.not_isSome_iff_eq_none, hstamped.diagnosisCompleted]
        exact fun hsome => hsome (hstamped.received hstatus)
      refine h.append hnow [stages.createdAt] [now] (by simp [way]) (by simp) ?_ rfl hkept
      simp [way, hdone, hdelivered, hcanceled, hexecution, hcompleted]
  | completeDiagnosis hstatus =>
      obtain ⟨hdone, hdelivered⟩ :=
        hstamped.unfinished (by simp [hstatus]) (by simp [hstatus])
      have hcanceled := hstamped.uncanceled (by simp [hstatus])
      have hexecution := hstamped.unexecuted (Or.inr hstatus)
      refine h.append hnow (stages.createdAt :: stages.diagnosisStartedAt.toList) [now]
        ?_ (by simp) ?_ rfl hkept
      · exact (List.sublist_append_left _ _).cons_cons _
      · simp [way, hdone, hdelivered, hcanceled, hexecution]
  | approve hstatus =>
      obtain ⟨hdone, hdelivered⟩ :=
        hstamped.unfinished (by simp [hstatus]) (by simp [hstatus])
      have hcanceled := hstamped.uncanceled (by simp [hstatus])
      have hstarted : ∀ started ∈ stages.executionStartedAt, started ≤ now :=
        fun started hmem => (h.changed started (by simp_all [way])).trans hnow
      cases hexecution : stages.executionStartedAt with
      | none =>
          refine h.append hnow stages.way [now] (.refl _) (by simp) ?_ rfl ?_
          · simp [way, hdone, hdelivered, hcanceled, hexecution]
          · simp [hdone]
      | some started =>
          refine h.append hnow stages.way [] (.refl _) (by simp) ?_ rfl ?_
          · simp [way, hexecution]
          · simpa [hdone] using hstarted started hexecution
  | reject hstatus =>
      obtain ⟨hdone, -⟩ := hstamped.unfinished (by simp [hstatus]) (by simp [hstatus])
      have hstarted : ∀ started ∈ stages.executionStartedAt, started ≤ now :=
        fun started hmem => (h.changed started (by simp_all [way])).trans hnow
      refine h.append hnow stages.way [] (.refl _) (by simp) (by simp [way]) rfl ?_
      simpa [hdone] using hstarted
  | supplement hstatus =>
      exact h.append hnow stages.way [] (.refl _) (by simp) (by simp [way]) rfl hkept
  | complete hstatus =>
      obtain ⟨hdone, hdelivered⟩ :=
        hstamped.unfinished (by simp [hstatus]) (by simp [hstatus])
      have hcanceled := hstamped.uncanceled (by simp [hstatus])
      refine h.append hnow stages.way [now] (.refl _) (by simp) ?_ rfl ?_
      · simp [way, hdone, hdelivered, hcanceled]
      · intro decided hmem
        refine ⟨hdecided decided hmem, (hkept decided hmem).2.1, fun completed hsome => ?_⟩
        rw [← Option.some.inj hsome]
        exact hdecided decided hmem
  | deliver hstatus =>
      have hdelivered : stages.deliveredAt = none := by
        rw [← Option.not_isSome_iff_eq_none, hstamped.delivered, hstatus]
        decide
      have hcanceled := hstamped.uncanceled (by simp [hstatus])
      refine h.append hnow stages.way [now] (.refl _) (by simp) ?_ rfl hkept
      simp [way, hdelivered, hcanceled]
  | cancel hstatus =>
      have hcanceled : stages.canceledAt = none :=
        hstamped.uncanceled fun heq => absurd hstatus (by rw [heq]; decide)
      refine h.append hnow stages.way [now] (.refl _) (by simp) ?_ rfl hkept
      simp [way, hcanceled]

end Machine

end Stages

/-- The stages of a work order. -/
def WorkOrder.stages (workOrder : WorkOrder) : Stages where
  status := workOrder.status
  rounds := workOrder.budgets.length
  createdAt := workOrder.createdAt
  updatedAt := workOrder.updatedAt
  diagnosisStartedAt := workOrder.diagnosisStartedAt
  diagnosisCompletedAt := workOrder.diagnosisCompletedAt
  budgetDecidedAt := workOrder.budgetDecidedAt
  executionStartedAt := workOrder.executionStartedAt
  completedAt := workOrder.completedAt
  deliveredAt := workOrder.deliveredAt
  canceledAt := workOrder.canceledAt

/-- Two aggregates of one state have the same stages. -/
theorem SameState.stages {left right : WorkOrder} (h : SameState left right) :
    left.stages = right.stages := by
  rw [WorkOrder.stages, WorkOrder.stages, h.row, h.budgets.length_eq]

/-- What is written beside the time of a stage: who reached it, and what for. -/
structure WorkOrderRow.Signed (row : WorkOrderRow) : Prop where
  assigned : row.diagnosisStartedAt.isSome → row.assignedMechanicUserId.isSome
  decided : row.budgetDecidedAt.isSome = row.budgetDecidedByUserId.isSome
  discounted : row.discountAppliedAt.isSome = row.discountAppliedByUserId.isSome ∧
    row.discountAppliedAt.isSome = row.discountNote.isSome
  undiscounted : row.discountAppliedAt = none → row.discount = Money.zero
  charged : row.completedAt.isSome = row.chargedTotal.isSome
  delivered : row.deliveredAt.isSome = row.deliveredByUserId.isSome
  canceled : row.canceledAt.isSome = row.canceledByUserId.isSome ∧
    row.canceledAt.isSome = row.cancellationReason.isSome

theorem WorkOrderRow.Signed.rewritten {row : WorkOrderRow} (h : row.Signed)
    (createdAt : Timestamp) (version : Nat) : { row with createdAt, version }.Signed :=
  ⟨h.assigned, h.decided, h.discounted, h.undiscounted, h.charged, h.delivered, h.canceled⟩

/-- A method makes one move of the stages and signs it. -/
structure Advances (now : Timestamp) (before after : WorkOrder) : Prop where
  moves : Stages.Moves now before.stages after.stages
  signed : before.stages.Stamped → before.Signed → after.Signed

namespace WorkOrder

variable {before after : WorkOrder} {done : Unit}

section Edits

variable {now : Timestamp}

/-- A method that changes no column of a stage. -/
theorem advances_edit (edited : WorkOrder)
    (hrow : edited.toWorkOrderRow = before.toWorkOrderRow)
    (hbudgets : edited.budgets = before.budgets)
    (hafter : after.toWorkOrderRow = { edited.toWorkOrderRow with updatedAt := now })
    (hsame : after.budgets = edited.budgets) : Advances now before after := by
  rw [hrow] at hafter
  have hstages : after.stages = { before.stages with updatedAt := now } := by
    rw [stages, hsame, hbudgets, hafter]
    rfl
  refine ⟨hstages ▸ Stages.Moves.edit, fun _ h => ?_⟩
  rw [hafter]
  exact ⟨h.assigned, h.decided, h.discounted, h.undiscounted, h.charged, h.delivered,
    h.canceled⟩

theorem addService_advances {input : AddServiceInput}
    (h : Runs (addService input) before done after) : Advances input.now before after := by
  simp [addService, recordFact] at h
  obtain ⟨-, rfl⟩ := h
  exact advances_edit before rfl rfl rfl rfl

theorem planPart_advances {input : PlanPartInput}
    (h : Runs (planPart input) before done after) : Advances input.now before after := by
  simp [planPart, recordFact] at h
  obtain ⟨-, rfl⟩ := h
  exact advances_edit before rfl rfl rfl rfl

theorem removeItem_advances {input : RemoveItemInput}
    (h : Runs (removeItem input) before done after) : Advances input.now before after := by
  simp [removeItem, recordFact] at h
  obtain ⟨-, _, middle, herase, rfl⟩ := h
  obtain ⟨hrow, -, hbudgets⟩ := eraseItem_keeps herase
  exact advances_edit _ hrow hbudgets rfl rfl

theorem withdrawParts_advances {input : WithdrawPartsInput}
    {lines : List ResolvedBatchLine} (h : Runs (withdrawParts input) before lines after) :
    Advances input.now before after := by
  simp [withdrawParts, recordFact] at h
  obtain ⟨-, -, resolved, -, _, middle, hchange, rfl, -⟩ := h
  obtain ⟨hrow, -, hbudgets⟩ := changeParts_keeps hchange
  exact advances_edit _ hrow hbudgets rfl rfl

theorem returnParts_advances {input : WithdrawPartsInput}
    {lines : List ResolvedBatchLine} (h : Runs (returnParts input) before lines after) :
    Advances input.now before after := by
  simp [returnParts, recordFact] at h
  obtain ⟨-, -, resolved, -, _, middle, hchange, rfl, -⟩ := h
  obtain ⟨hrow, -, hbudgets⟩ := changeParts_keeps hchange
  exact advances_edit _ hrow hbudgets rfl rfl

theorem assignMechanic_advances {input : AssignMechanicInput}
    (h : Runs (assignMechanic input) before done after) :
    Advances input.now before after := by
  simp [assignMechanic, recordFact] at h
  obtain ⟨-, rfl⟩ := h
  refine ⟨.edit, fun _ h => ?_⟩
  exact ⟨fun _ => rfl, h.decided, h.discounted, h.undiscounted, h.charged, h.delivered,
    h.canceled⟩

/-- A discount on a completed work order freezes another charged total. -/
theorem applyDiscount_advances {input : ApplyDiscountInput}
    (h : Runs (applyDiscount input) before done after) :
    Advances input.now before after := by
  simp [applyDiscount, recordFact] at h
  obtain ⟨-, _, -, -, _, middle, hrefresh, rfl⟩ := h
  rcases refreshChargedTotal_eq hrefresh with
    ⟨hcompleted, chargedTotal, -, rfl⟩ | ⟨-, rfl⟩
  · refine ⟨.edit, fun hstamped h => ?_⟩
    have hdone : before.completedAt.isSome = true :=
      hstamped.completed.mpr (Or.inl hcompleted)
    exact ⟨h.assigned, h.decided, ⟨rfl, rfl⟩, fun hnone => (by cases hnone), hdone,
      h.delivered, h.canceled⟩
  · refine ⟨.edit, fun _ h => ?_⟩
    exact ⟨h.assigned, h.decided, ⟨rfl, rfl⟩, fun hnone => (by cases hnone), h.charged,
      h.delivered, h.canceled⟩

end Edits

section Stages

variable {rules : BillingRules}

theorem startDiagnosis_advances {input : StartDiagnosisInput}
    (h : Runs (startDiagnosis input) before done after) :
    Advances input.now before after := by
  simp [startDiagnosis, recordMove, recordStatusChange] at h
  obtain ⟨hstatus, rfl⟩ := h
  refine ⟨.startDiagnosis hstatus, fun _ h => ?_⟩
  exact ⟨fun _ => rfl, h.decided, h.discounted, h.undiscounted, h.charged, h.delivered,
    h.canceled⟩

/-- Round one is the only round when the diagnosis is completed. -/
theorem completeDiagnosis_advances {input : GenerateBudgetInput}
    (hsound : before.billing.RoundsSound rules)
    (h : Runs (completeDiagnosis input) before done after) :
    Advances input.now before after := by
  simp [completeDiagnosis, recordMove, recordFact, recordStatusChange] at h
  obtain ⟨hstatus, -, total, middle, hround, _, last, hwrite, rfl⟩ := h
  obtain ⟨rfl, -⟩ := generateRound_eq hround
  obtain ⟨budget, budgets, rfl, -, -, -, hplaced⟩ := writeRoundOne_eq hwrite
  have hone : budgets.length = 1 := by
    rcases hsound.staged.inDiagnosis hstatus with hnone | ⟨only, honly, hfirst, -⟩
    · rcases hplaced with ⟨-, rfl⟩ | ⟨index, old, hold, -⟩
      · change before.budgets = [] at hnone
        simp [hnone]
      · change before.budgets = [] at hnone
        change before.budgets[index]? = some old at hold
        rw [hnone] at hold
        cases hold
    · change before.budgets = [only] at honly
      rcases hplaced with ⟨habsent, -⟩ | ⟨index, old, -, -, -, rfl⟩
      · exact absurd hfirst (habsent only (by
          change only ∈ before.budgets
          rw [honly]
          exact List.mem_cons_self))
      · change (before.budgets.set index budget).length = 1
        rw [List.length_set, honly]
        rfl
  have hstages : Stages.Moves input.now before.stages { before.stages with
      status := .awaitingApproval, rounds := budgets.length
      diagnosisCompletedAt := some input.now, updatedAt := input.now } := by
    rw [hone]
    exact .completeDiagnosis hstatus
  refine ⟨hstages, fun _ h => ?_⟩
  exact ⟨h.assigned, h.decided, h.discounted, h.undiscounted, h.charged, h.delivered,
    h.canceled⟩

theorem submitSupplementaryBudget_advances {input : GenerateBudgetInput}
    (h : Runs (submitSupplementaryBudget input) before done after) :
    Advances input.now before after := by
  simp [submitSupplementaryBudget, recordFact, recordStatusChange] at h
  obtain ⟨hstatus, -, total, middle, hround, rfl⟩ := h
  obtain ⟨rfl, -⟩ := generateRound_eq hround
  have hstages : Stages.Moves input.now before.stages { before.stages with
      status := .awaitingApproval
      rounds := (before.budgets ++ [Budget.generate input.budgetId before.nextRound total
        input.now]).length
      updatedAt := input.now } := by
    rw [List.length_append]
    exact .supplement hstatus
  refine ⟨hstages, fun _ h => ?_⟩
  exact ⟨h.assigned, h.decided, h.discounted, h.undiscounted, h.charged, h.delivered,
    h.canceled⟩

theorem approveBudget_advances {input : DecideBudgetActionInput}
    (h : Runs (approveBudget input) before done after) :
    Advances input.now before after := by
  simp [approveBudget, writeBudget, recordMove, recordStatusChange] at h
  obtain ⟨index, budget, middle, hfound, decided, -, rfl⟩ := h
  obtain ⟨hsame, hstatus, -⟩ := budgetToDecide_runs hfound
  obtain rfl := hsame.symm
  have hstages : Stages.Moves input.now before.stages { before.stages with
      status := .inExecution, rounds := (before.budgets.set index decided).length
      budgetDecidedAt := some input.now
      executionStartedAt := some (before.executionStartedAt.getD input.now)
      updatedAt := input.now } := by
    rw [List.length_set]
    exact .approve hstatus
  refine ⟨hstages, fun _ h => ?_⟩
  exact ⟨h.assigned, rfl, h.discounted, h.undiscounted, h.charged, h.delivered,
    h.canceled⟩

/-- The pending round is the last, so a rejection leads back to the diagnosis exactly
when there is no other. -/
theorem rejectBudget_advances {input : DecideBudgetActionInput}
    (hsound : before.billing.RoundsSound rules)
    (h : Runs (rejectBudget input) before done after) :
    Advances input.now before after := by
  simp [rejectBudget, writeBudget, recordMove, recordStatusChange,
    recordExecutionStarted] at h
  obtain ⟨index, budget, middle, hfound, decided, hdecided, state, hstate, rfl⟩ := h
  obtain ⟨hsame, hstatus, hindex⟩ := budgetToDecide_runs hfound
  obtain rfl := hsame.symm
  obtain ⟨hpending, -, hround, -⟩ := decide_ok hdecided
  have hlast : decided.round = before.budgets.length :=
    hround.trans (hsound.staged.pendingLast budget (List.mem_of_getElem? hindex) hpending)
  have hmoves : Stages.Moves input.now before.stages { before.stages with
      status := rejectionDestination decided
      rounds := (before.budgets.set index decided).length
      budgetDecidedAt := some input.now, updatedAt := input.now } := by
    rw [List.length_set, rejectionDestination, hlast]
    exact .reject hstatus
  split at hstate
  all_goals
    subst hstate
    refine ⟨hmoves, fun _ h => ?_⟩
    exact ⟨h.assigned, rfl, h.discounted, h.undiscounted, h.charged, h.delivered,
      h.canceled⟩

theorem complete_advances {input : CloseActionInput}
    (h : Runs (complete input) before done after) : Advances input.now before after := by
  simp [complete, recordMove, recordStatusChange] at h
  obtain ⟨hstatus, _, -, -, chargedTotal, -, rfl⟩ := h
  refine ⟨.complete hstatus, fun _ h => ?_⟩
  exact ⟨h.assigned, h.decided, h.discounted, h.undiscounted, rfl, h.delivered, h.canceled⟩

theorem deliver_advances {input : CloseActionInput}
    (h : Runs (deliver input) before done after) : Advances input.now before after := by
  simp [deliver, recordMove, recordStatusChange] at h
  obtain ⟨hstatus, rfl⟩ := h
  refine ⟨.deliver hstatus, fun _ h => ?_⟩
  exact ⟨h.assigned, h.decided, h.discounted, h.undiscounted, h.charged, rfl, h.canceled⟩

theorem cancel_advances {input : CancelInput}
    (h : Runs (cancel input) before done after) : Advances input.now before after := by
  simp [cancel, recordMove, recordStatusChange] at h
  obtain ⟨hstatus, rfl⟩ := h
  refine ⟨.cancel hstatus, fun _ h => ?_⟩
  exact ⟨h.assigned, h.decided, h.discounted, h.undiscounted, h.charged, h.delivered,
    ⟨rfl, rfl⟩⟩

end Stages

end WorkOrder

/-- Every method that ends well makes one move of the stages. -/
theorem WorkOrderOperation.advances {rules : BillingRules} {before after : WorkOrder}
    {done : Unit}
    (operation : WorkOrderOperation) (hsound : before.billing.RoundsSound rules)
    (h : Runs operation.run before done after) :
    Advances operation.now before after := by
  cases operation with
  | addService input => exact WorkOrder.addService_advances h
  | planPart input => exact WorkOrder.planPart_advances h
  | removeItem input => exact WorkOrder.removeItem_advances h
  | startDiagnosis input => exact WorkOrder.startDiagnosis_advances h
  | completeDiagnosis input => exact WorkOrder.completeDiagnosis_advances hsound h
  | approveBudget input => exact WorkOrder.approveBudget_advances h
  | rejectBudget input => exact WorkOrder.rejectBudget_advances hsound h
  | submitSupplementaryBudget input =>
      exact WorkOrder.submitSupplementaryBudget_advances h
  | withdrawParts input =>
      obtain ⟨lines, hruns, -⟩ := runs_map.mp h
      exact WorkOrder.withdrawParts_advances hruns
  | returnParts input =>
      obtain ⟨lines, hruns, -⟩ := runs_map.mp h
      exact WorkOrder.returnParts_advances hruns
  | assignMechanic input => exact WorkOrder.assignMechanic_advances h
  | applyDiscount input => exact WorkOrder.applyDiscount_advances h
  | complete input => exact WorkOrder.complete_advances h
  | deliver input => exact WorkOrder.deliver_advances h
  | cancel input => exact WorkOrder.cancel_advances h

/-- The work orders that openings, operations and loads lead to while the clock never
goes back. -/
inductive WorkOrder.Timely : WorkOrder → Prop
  | opened (input : OpenWorkOrderInput) :
      WorkOrder.Timely (WorkOrder.openWorkOrder input)
  | performed {before after : WorkOrder} (operation : WorkOrderOperation)
      (htimely : WorkOrder.Timely before) (hnow : before.updatedAt ≤ operation.now)
      (hruns : Runs operation.run before () after) : WorkOrder.Timely after
  | loaded {saved loaded : WorkOrder} (htimely : WorkOrder.Timely saved)
      (hload : LoadedFrom saved loaded) (hcreated : loaded.createdAt = saved.createdAt) :
      WorkOrder.Timely loaded

namespace WorkOrder

variable {workOrder saved loaded : WorkOrder}

/-- A load answers the stages that were saved, under the time of the row. -/
theorem stages_of_loaded (hload : LoadedFrom saved loaded) :
    loaded.stages = { saved.stages with createdAt := loaded.createdAt } := by
  rw [hload.state.stages]
  rfl

/-- In every work order that can be held the status says which stages have a time, and
every time stands beside who reached the stage. -/
theorem Reachable.stamped (h : workOrder.Reachable) :
    workOrder.stages.Stamped ∧ workOrder.Signed := by
  induction h with
  | opened input =>
      refine ⟨Stages.stamped_opened, ?_⟩
      exact ⟨fun hsome => (by cases hsome), rfl, ⟨rfl, rfl⟩, fun _ => rfl, rfl, rfl,
        ⟨rfl, rfl⟩⟩
  | @performed before operation hreachable ih =>
      have hsound := hreachable.roundsSound
      rcases leftBy_cases operation.run before with ⟨done, hruns⟩ | ⟨error, hthrows⟩
      · have hadvances := operation.advances hsound hruns
        exact ⟨hadvances.moves.stamped ih.1, hadvances.signed ih.1 ih.2⟩
      · have hsame : operation.perform before = before :=
          operation.unchanged_of_throws hsound hthrows
        rw [hsame]
        exact ih
  | @loaded saved loaded _ hload ih =>
      obtain ⟨hstamped, hsigned⟩ := ih
      have hrow : loaded.toWorkOrderRow = { saved.toWorkOrderRow with
        createdAt := loaded.createdAt, version := loaded.version } := hload.state.row
      rw [stages_of_loaded hload, hrow]
      exact ⟨hstamped.recreated _, hsigned.rewritten _ _⟩

theorem Timely.reachable (h : workOrder.Timely) : workOrder.Reachable := by
  induction h with
  | opened input => exact .opened input
  | performed operation _ _ hruns ih => exact reachable_of_runs ih hruns
  | loaded _ hload _ ih => exact ih.loaded hload

/-- While the clock never goes back the stages are reached one after another. -/
theorem Timely.ordered (h : workOrder.Timely) : workOrder.stages.Ordered := by
  induction h with
  | opened input => exact Stages.ordered_opened
  | performed operation htimely hnow hruns ih =>
      have hreachable := htimely.reachable
      exact (operation.advances hreachable.roundsSound hruns).moves.ordered
        hreachable.stamped.1 ih hnow
  | loaded _ hload hcreated ih =>
      rw [stages_of_loaded hload, hcreated]
      exact ih

end WorkOrder

end WorkOrders

end Workshop
