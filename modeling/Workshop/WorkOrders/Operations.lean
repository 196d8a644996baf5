/-
Runs of the aggregate.  Whatever method is called, whether it ends well or
throws half way, the bill it leaves is one that the bill's own steps reach.
-/
import Workshop.WorkOrders.Charges

namespace Workshop

namespace WorkOrders

section Rules

variable {start last : WorkOrder} {error : WorkOrderError} {α : Type}

@[simp] theorem throws_call {result : Except WorkOrderError α} :
    Throws (call result) start error last ↔
      result = .error error ∧ last = start := by
  cases result <;> simp [call, eq_comm]

@[simp] theorem throws_refuseIf {condition : Bool} {thrown : WorkOrderError} :
    Throws (refuseIf condition thrown) start error last ↔
      condition = true ∧ error = thrown ∧ last = start := by
  cases condition <;> simp [refuseIf]

@[simp] theorem throws_assertStateAllows {allowed : List WorkOrderStatus} :
    Throws (WorkOrder.assertStateAllows allowed) start error last ↔
      start.status ∉ allowed ∧ error = .workOrderState start.status ∧
        last = start := by
  simp [WorkOrder.assertStateAllows]

@[simp] theorem throws_record {event : WorkOrderEvent} :
    Throws (WorkOrder.record event) start error last ↔ False := by
  simp [WorkOrder.record]

end Rules

/-- A call of a method of the aggregate. -/
inductive WorkOrderOperation
  | addService (input : AddServiceInput)
  | planPart (input : PlanPartInput)
  | removeItem (input : RemoveItemInput)
  | startDiagnosis (input : StartDiagnosisInput)
  | completeDiagnosis (input : GenerateBudgetInput)
  | approveBudget (input : DecideBudgetActionInput)
  | rejectBudget (input : DecideBudgetActionInput)
  | submitSupplementaryBudget (input : GenerateBudgetInput)
  | withdrawParts (input : WithdrawPartsInput)
  | returnParts (input : WithdrawPartsInput)
  | assignMechanic (input : AssignMechanicInput)
  | applyDiscount (input : ApplyDiscountInput)
  | complete (input : CloseActionInput)
  | deliver (input : CloseActionInput)
  | cancel (input : CancelInput)

/-- The two sums of the aggregate. -/
inductive Adds
  /-- `generateRound` -/
  | round (round : Nat)
  /-- `chargedTotalBeforeDiscount` -/
  | charge

namespace WorkOrderOperation

/-- The method an operation calls; what a batch answers is the caller's. -/
def run : WorkOrderOperation → WorkOrderM Unit
  | .addService input => WorkOrder.addService input
  | .planPart input => WorkOrder.planPart input
  | .removeItem input => WorkOrder.removeItem input
  | .startDiagnosis input => WorkOrder.startDiagnosis input
  | .completeDiagnosis input => WorkOrder.completeDiagnosis input
  | .approveBudget input => WorkOrder.approveBudget input
  | .rejectBudget input => WorkOrder.rejectBudget input
  | .submitSupplementaryBudget input => WorkOrder.submitSupplementaryBudget input
  | .withdrawParts input => (fun _ => ()) <$> WorkOrder.withdrawParts input
  | .returnParts input => (fun _ => ()) <$> WorkOrder.returnParts input
  | .assignMechanic input => WorkOrder.assignMechanic input
  | .applyDiscount input => WorkOrder.applyDiscount input
  | .complete input => WorkOrder.complete input
  | .deliver input => WorkOrder.deliver input
  | .cancel input => WorkOrder.cancel input

/-- The quantities the lines of a batch ask for. -/
def quantities : WorkOrderOperation → List Int
  | .withdrawParts input => input.lines.map BatchLine.quantity
  | .returnParts input => input.lines.map BatchLine.quantity
  | _ => []

/-- The sum a call comes to on a work order whose status it accepts. -/
def adds (operation : WorkOrderOperation) (workOrder : WorkOrder) : Option Adds :=
  match operation with
  | .completeDiagnosis _ =>
      if workOrder.status = .inDiagnosis then some (.round 1) else none
  | .submitSupplementaryBudget _ =>
      if workOrder.status = .inExecution then some (.round workOrder.nextRound)
      else none
  | .applyDiscount _ =>
      if workOrder.status ∈ [.inExecution, .completed] then some .charge else none
  | .complete _ => if workOrder.status = .inExecution then some .charge else none
  | _ => none

/-- What the items of the round that a call quotes add up to, as integers. -/
def quotes (operation : WorkOrderOperation) (workOrder : WorkOrder) : Option Int :=
  match operation.adds workOrder with
  | some (.round round) => some ((workOrder.billing.joined round).roundTotal round)
  | _ => none

/-- What a call charges for comes to, as integers. -/
def charges (operation : WorkOrderOperation) (workOrder : WorkOrder) : Option Int :=
  match operation.adds workOrder with
  | some .charge => some workOrder.billing.charge
  | _ => none

/-- A call within the rules: it asks for quantities that may be asked for, and whatever
agrees with its sums up to what a `Number` holds exactly is what the rules say. -/
structure Obeys (rules : BillingRules) (operation : WorkOrderOperation)
    (workOrder : WorkOrder) : Prop where
  asked : ∀ quantity ∈ operation.quantities, rules.asked quantity
  quoted : ∀ exact ∈ operation.quotes workOrder, ∀ total,
    AgreesUpTo maxExactCents total exact → rules.quoted total exact
  charged : ∀ exact ∈ operation.charges workOrder, ∀ total,
    AgreesUpTo maxExactCents total exact → rules.charged total exact

/-- What a call leaves of the aggregate, whether it ends well or throws. -/
def perform (operation : WorkOrderOperation) (workOrder : WorkOrder) : WorkOrder :=
  leftBy operation.run workOrder

end WorkOrderOperation

/-- A run of the aggregate. -/
def performAll (operations : List WorkOrderOperation) (workOrder : WorkOrder) :
    WorkOrder :=
  operations.foldl (fun workOrder operation => operation.perform workOrder)
    workOrder

namespace WorkOrder

variable {before after : WorkOrder} {rules : BillingRules} {done : Unit}
variable {error : WorkOrderError} {round : Nat}

section Items

theorem addService_steps {input : AddServiceInput}
    (h : Runs (addService input) before done after) :
    BillingStep rules before.billing after.billing := by
  simp [addService, recordFact] at h
  obtain ⟨hstatus, rfl⟩ := h
  exact BillingStep.addService before.billing _ hstatus rfl rfl

theorem addService_throws {input : AddServiceInput}
    (h : Throws (addService input) before error after) : after = before := by
  simp [addService, recordFact] at h
  exact h.2.2

theorem planPart_steps {input : PlanPartInput}
    (h : Runs (planPart input) before done after) :
    BillingStep rules before.billing after.billing := by
  simp [planPart, recordFact] at h
  obtain ⟨hstatus, rfl⟩ := h
  exact BillingStep.planPart before.billing _ hstatus rfl rfl rfl

theorem planPart_throws {input : PlanPartInput}
    (h : Throws (planPart input) before error after) : after = before := by
  simp [planPart, recordFact] at h
  exact h.2.2

theorem eraseItem_steps {itemId : WorkOrderItemId}
    (hstatus : before.status ∈ itemEditableStates)
    (h : Runs (eraseItem itemId) before done after) :
    BillingStep rules before.billing after.billing := by
  simp only [eraseItem, runs_bind, runs_get] at h
  obtain ⟨workOrder, middle, ⟨rfl, rfl⟩, h⟩ := h
  split at h
  · rename_i index item hfound
    simp [WorkOrderServiceItem.isDraft] at h
    obtain ⟨hdraft, rfl⟩ := h
    exact BillingStep.removeService _ index item hstatus
      (getElem?_of_findAt hfound).1 hdraft
  · split at h
    · simp at h
    · rename_i index item hfound
      simp [WorkOrderPartItem.isDraft] at h
      obtain ⟨hdraft, rfl⟩ := h
      exact BillingStep.removePart _ index item hstatus
        (getElem?_of_findAt hfound).1 hdraft

theorem eraseItem_throws {itemId : WorkOrderItemId}
    (h : Throws (eraseItem itemId) before error after) : after = before := by
  simp only [eraseItem, throws_bind, throws_get, false_or, runs_get] at h
  obtain ⟨workOrder, middle, ⟨rfl, rfl⟩, h⟩ := h
  split at h
  · simp at h
    exact h.2.2
  · split at h
    · simp at h
      exact h.2
    · simp at h
      exact h.2.2

theorem removeItem_steps {input : RemoveItemInput}
    (h : Runs (removeItem input) before done after) :
    BillingStep rules before.billing after.billing := by
  simp [removeItem, recordFact] at h
  obtain ⟨hstatus, _, middle, herase, rfl⟩ := h
  have hstep : BillingStep rules before.billing middle.billing :=
    eraseItem_steps hstatus herase
  exact hstep

theorem removeItem_throws {input : RemoveItemInput}
    (h : Throws (removeItem input) before error after) : after = before := by
  simp [removeItem, recordFact] at h
  rcases h with h | h
  · exact h.2.2
  · exact eraseItem_throws h.2

end Items

section Rounds

/-- What the service loop adds to the total agrees with what the round's services are
quoted at afterwards. -/
theorem attachServices_total (items : List WorkOrderServiceItem) :
    ∀ {total : Money} {exact : Int}, 0 ≤ exact →
      AgreesUpTo maxExactCents total.cents exact →
      AgreesUpTo maxExactCents (attachServices round items total).2.cents (exact +
        servicesOn (fun named => decide (named = round))
          (items.map (joinService round))) := by
  induction items with
  | nil =>
      intro total exact _ htotal
      exact (Int.add_zero exact).symm ▸ htotal
  | cons item items ih =>
      intro total exact hexact htotal
      rw [List.map_cons, servicesOn_cons, attachServices, joinService, ← Int.add_assoc]
      split
      · have hprice := item.unitPrice.nonneg
        have hadded := ih (Int.add_nonneg hexact hprice)
          (Money.add_agrees htotal (.refl item.unitPrice.cents) hexact hprice)
        simpa [WorkOrderServiceItem.attachToBudget, budgetedCents] using hadded
      · rename_i hkept
        have hother : item.budgetRound ≠ some round := by
          intro hround
          simp [hround] at hkept
        rw [if_neg (fun hround => hother (Billing.any_eq_iff.mp hround)), Int.add_zero]
        exact ih hexact htotal

theorem attachParts_total (items : List WorkOrderPartItem) :
    ∀ {total : Money} {exact : Int}, 0 ≤ exact →
      AgreesUpTo maxExactCents total.cents exact →
      AgreesUpTo maxExactCents (attachParts round items total).2.cents (exact +
        partsOn (fun named => decide (named = round))
          (fun item => item.plannedQuantity.units) (items.map (joinPart round))) := by
  induction items with
  | nil =>
      intro total exact _ htotal
      exact (Int.add_zero exact).symm ▸ htotal
  | cons item items ih =>
      intro total exact hexact htotal
      rw [List.map_cons, partsOn_cons, attachParts, joinPart, ← Int.add_assoc]
      split
      · have hprice : 0 ≤ item.unitPrice.cents * item.plannedQuantity.units :=
          Int.mul_nonneg item.unitPrice.nonneg
            (Int.le_of_lt item.plannedQuantity.positive)
        have hterm : AgreesUpTo maxExactCents
            (item.plannedQuantity.timesPrice item.unitPrice).cents _ :=
          toNumber_exactUpTo.agrees hprice
        have hadded := ih (Int.add_nonneg hexact hprice)
          (Money.add_agrees htotal hterm hexact hprice)
        simpa [WorkOrderPartItem.attachToBudget, budgetedCents] using hadded
      · rename_i hkept
        have hother : item.budgetRound ≠ some round := by
          intro hround
          simp [hround] at hkept
        rw [if_neg (fun hround => hother (Billing.any_eq_iff.mp hround)), Int.zero_mul,
          Int.add_zero]
        exact ih hexact htotal

/-- What is quoted of services is not negative. -/
theorem servicesOn_nonneg (rounds : Nat → Bool) (items : List WorkOrderServiceItem) :
    0 ≤ servicesOn rounds items :=
  sumWhere_nonneg fun item _ _ => budgetedCents_nonneg item.budgetedUnitPrice

/-- A generated round is quoted over the items it joined. -/
theorem generateRound_eq {total : Money}
    (h : Runs (generateRound round) before total after) :
    after = { before with
        serviceItems := before.serviceItems.map (joinService round)
        partItems := before.partItems.map (joinPart round) } ∧
      AgreesUpTo maxExactCents total.cents
        ((before.billing.joined round).roundTotal round) := by
  simp [generateRound] at h
  obtain ⟨rfl, rfl⟩ := h
  constructor
  · rw [attachServices_items, attachParts_items]
    rfl
  · have hservices := @attachServices_total round before.serviceItems _ _
      (Int.le_refl 0) (.refl Money.zero.cents)
    rw [Int.zero_add] at hservices
    exact attachParts_total before.partItems (servicesOn_nonneg _ _) hservices

theorem generateRound_throws
    (h : Throws (generateRound round) before error after) : False := by
  simp [generateRound] at h

theorem findAt_eq_none {α : Type} {p : α → Bool} {l : List α}
    (h : findAt p l = none) : ∀ a ∈ l, p a = false := by
  intro a ha
  rw [findAt, Option.map_eq_none_iff, List.find?_eq_none] at h
  obtain ⟨index, hindex⟩ := List.mem_iff_getElem?.mp ha
  have hfails := h (a, index) (List.mem_zipIdx_iff_getElem?.mpr hindex)
  exact Bool.eq_false_iff.mpr hfails

theorem regenerate_ok {budget regenerated : Budget} {total : Money}
    {now : Timestamp} (h : budget.regenerate total now = .ok regenerated) :
    budget.status = .rejected ∧ regenerated.status = .pending ∧
      regenerated.total = total := by
  obtain ⟨_, hassert, h⟩ := bind_eq_ok_iff.mp h
  rw [Budget.assertStatusIs] at hassert
  split at hassert
  · cases hassert
  · rename_i hstatus
    rw [pure_eq_ok_iff] at h
    subst h
    exact ⟨not_not.mp hstatus, rfl, rfl⟩

/-- Round one is pending with the new total, at the end or where it was. -/
theorem writeRoundOne_eq {budgetId : BudgetId} {total : Money} {now : Timestamp}
    (h : Runs (writeRoundOne budgetId total now) before done after) :
    ∃ budget budgets, after = { before with budgets } ∧ budget.round = 1 ∧
      budget.status = .pending ∧ budget.total = total ∧
      (((∀ old ∈ before.budgets, old.round ≠ 1) ∧
          budgets = before.budgets ++ [budget]) ∨
        ∃ index old, before.budgets[index]? = some old ∧ old.round = 1 ∧
          old.status = .rejected ∧ budgets = before.budgets.set index budget) := by
  simp only [writeRoundOne, runs_bind, runs_get] at h
  obtain ⟨workOrder, middle, ⟨rfl, rfl⟩, h⟩ := h
  split at h
  · rename_i index existing hfound
    simp at h
    obtain ⟨budget, hbudget, rfl⟩ := h
    obtain ⟨hindex, hround⟩ := getElem?_of_findAt hfound
    obtain ⟨hrejected, hpending, htotal⟩ := regenerate_ok hbudget
    have hsame := (regenerate_ids hbudget).2.trans (of_decide_eq_true hround)
    exact ⟨budget, _, rfl, hsame, hpending, htotal, Or.inr ⟨index, existing, hindex,
      of_decide_eq_true hround, hrejected, rfl⟩⟩
  · rename_i hnone
    simp at h
    subst h
    refine ⟨_, _, rfl, rfl, rfl, rfl, Or.inl ⟨fun old hold => ?_, rfl⟩⟩
    exact of_decide_eq_false (findAt_eq_none hnone old hold)

/-- Only a round one that was not rejected stops the regeneration. -/
theorem writeRoundOne_throws {budgetId : BudgetId} {total : Money} {now : Timestamp}
    (h : Throws (writeRoundOne budgetId total now) before error after) :
    ∃ old ∈ before.budgets, old.round = 1 ∧ old.status ≠ .rejected := by
  simp only [writeRoundOne, throws_bind, throws_get, false_or, runs_get] at h
  obtain ⟨workOrder, middle, ⟨rfl, rfl⟩, h⟩ := h
  split at h
  · rename_i index existing hfound
    simp at h
    obtain ⟨hindex, hround⟩ := getElem?_of_findAt hfound
    refine ⟨existing, List.mem_of_getElem? hindex, of_decide_eq_true hround, ?_⟩
    intro hrejected
    have hnever := h.1
    simp [Budget.regenerate, Budget.assertStatusIs, hrejected] at hnever
  · simp at h

/-- The diagnosis quotes round one, anew or again. -/
theorem completeDiagnosis_steps {input : GenerateBudgetInput}
    (hobeys : (WorkOrderOperation.completeDiagnosis input).Obeys rules before)
    (h : Runs (completeDiagnosis input) before done after) :
    BillingStep rules before.billing after.billing := by
  simp [completeDiagnosis, recordMove, recordFact, recordStatusChange] at h
  obtain ⟨hstatus, -, total, middle, hround, _, last, hwrite, rfl⟩ := h
  obtain ⟨rfl, htotal⟩ := generateRound_eq hround
  obtain ⟨budget, budgets, rfl, hone, hpending, hamount, hbudgets⟩ :=
    writeRoundOne_eq hwrite
  have hquotes : before.billing.Quotes rules budget := by
    refine ⟨hpending, ?_⟩
    rw [hone, hamount]
    refine hobeys.quoted _ ?_ _ htotal
    simp [WorkOrderOperation.quotes, WorkOrderOperation.adds, hstatus]
  rcases hbudgets with ⟨hnone, rfl⟩ | ⟨index, old, hindex, hold, hrejected, rfl⟩
  · exact BillingStep.quoteFirst before.billing budget hstatus hnone hone hquotes
  · exact BillingStep.quoteAgain before.billing index old budget hstatus hindex hold
      hrejected hone hquotes

/-- A diagnosis that is refused was refused before anything changed. -/
theorem completeDiagnosis_throws {input : GenerateBudgetInput}
    (hsound : before.billing.RoundsSound rules)
    (h : Throws (completeDiagnosis input) before error after) : after = before := by
  simp [completeDiagnosis, recordMove, recordFact, recordStatusChange] at h
  rcases h with h | ⟨hstatus, h | ⟨-, hround | ⟨total, middle, hround, hwrite⟩⟩⟩
  · exact h.2.2
  · exact h.2.2
  · exact absurd hround generateRound_throws
  · obtain ⟨rfl, -⟩ := generateRound_eq hround
    obtain ⟨old, hold, hone, hkept⟩ := writeRoundOne_throws hwrite
    rcases hsound.staged.inDiagnosis hstatus with hnone | ⟨only, hall, -, hrejected⟩
    · change before.budgets = [] at hnone
      simp [hnone] at hold
    · change before.budgets = [only] at hall
      simp [hall] at hold
      rw [hold] at hkept
      exact absurd hrejected hkept

theorem submitSupplementaryBudget_steps {input : GenerateBudgetInput}
    (hobeys : (WorkOrderOperation.submitSupplementaryBudget input).Obeys rules before)
    (h : Runs (submitSupplementaryBudget input) before done after) :
    BillingStep rules before.billing after.billing := by
  simp [submitSupplementaryBudget, recordFact, recordStatusChange] at h
  obtain ⟨hstatus, -, total, middle, hround, rfl⟩ := h
  obtain ⟨rfl, htotal⟩ := generateRound_eq hround
  refine BillingStep.quoteNext before.billing
    (Budget.generate input.budgetId before.nextRound total input.now) hstatus rfl
    ⟨rfl, hobeys.quoted _ ?_ _ htotal⟩
  simp [WorkOrderOperation.quotes, WorkOrderOperation.adds, hstatus, Budget.generate]

theorem submitSupplementaryBudget_throws {input : GenerateBudgetInput}
    (h : Throws (submitSupplementaryBudget input) before error after) :
    after = before := by
  simp [submitSupplementaryBudget, recordFact, recordStatusChange] at h
  rcases h with h | ⟨-, h | ⟨-, hround⟩⟩
  · exact h.2.2
  · exact h.2.2
  · exact absurd hround generateRound_throws

end Rounds

section Decisions

theorem decide_ok {budget decided : Budget} {status : BudgetStatus}
    {actorUserId : UserId} {now : Timestamp}
    (h : budget.decide status actorUserId now = .ok decided) :
    budget.status = .pending ∧ decided.status = status ∧
      decided.round = budget.round ∧ decided.total = budget.total := by
  obtain ⟨_, hassert, h⟩ := bind_eq_ok_iff.mp h
  rw [Budget.assertStatusIs] at hassert
  split at hassert
  · cases hassert
  · rename_i hstatus
    rw [pure_eq_ok_iff] at h
    subst h
    exact ⟨not_not.mp hstatus, rfl, rfl, rfl⟩

theorem budgetToDecide_throws {budgetId : Option BudgetId}
    (h : Throws (budgetToDecide budgetId) before error after) : after = before := by
  cases budgetId with
  | none =>
      simp [budgetToDecide, pendingBudget] at h
      rcases h with h | ⟨-, h⟩
      · exact h.2.2
      · split at h
        · simp at h
        · simp at h
          exact h.2
  | some budgetId =>
      simp [budgetToDecide, budgetById] at h
      rcases h with h | ⟨index, budget, middle, hfound, h⟩
      · split at h
        · simp at h
        · simp at h
          exact h.2
      · have hsame : middle = before := by
          split at hfound
          · simp at hfound
            exact hfound.2
          · simp at hfound
        subst hsame
        rcases h with h | h
        · exact h.2.2
        · exact h.2.2.2

theorem approveBudget_steps {input : DecideBudgetActionInput}
    (h : Runs (approveBudget input) before done after) :
    BillingStep rules before.billing after.billing := by
  simp [approveBudget, writeBudget, recordMove, recordStatusChange] at h
  obtain ⟨index, budget, middle, hfound, decided, hdecided, rfl⟩ := h
  obtain ⟨rfl, hstatus, hindex⟩ := budgetToDecide_runs hfound
  obtain ⟨hpending, happroved, hround, htotal⟩ := decide_ok hdecided
  exact BillingStep.decideBudget _ index budget decided .inExecution hstatus hindex
    hpending hround htotal (Or.inl ⟨happroved, rfl⟩)

theorem rejectBudget_steps {input : DecideBudgetActionInput}
    (h : Runs (rejectBudget input) before done after) :
    BillingStep rules before.billing after.billing := by
  simp [rejectBudget, writeBudget, recordMove, recordStatusChange,
    recordExecutionStarted] at h
  obtain ⟨index, budget, middle, hfound, decided, hdecided, state, hstate, rfl⟩ := h
  obtain ⟨rfl, hstatus, hindex⟩ := budgetToDecide_runs hfound
  obtain ⟨hpending, hrejected, hround, htotal⟩ := decide_ok hdecided
  have hstep : BillingStep rules middle.billing _ :=
    BillingStep.decideBudget middle.billing index budget decided
      (rejectionDestination decided) hstatus hindex hpending hround htotal
      (Or.inr ⟨hrejected, rfl⟩)
  split at hstate
  · subst hstate
    exact hstep
  · subst hstate
    exact hstep

/-- A decision that is refused was refused before anything changed. -/
theorem approveBudget_throws {input : DecideBudgetActionInput}
    (h : Throws (approveBudget input) before error after) : after = before := by
  simp [approveBudget, writeBudget, recordMove, recordStatusChange] at h
  rcases h with h | ⟨index, budget, hfound, -⟩
  · exact budgetToDecide_throws h
  · exact (budgetToDecide_runs hfound).1

theorem rejectBudget_throws {input : DecideBudgetActionInput}
    (h : Throws (rejectBudget input) before error after) : after = before := by
  simp [rejectBudget, writeBudget, recordMove, recordStatusChange,
    recordExecutionStarted] at h
  rcases h with h | ⟨index, budget, hfound, -⟩
  · exact budgetToDecide_throws h
  · exact (budgetToDecide_runs hfound).1

theorem startDiagnosis_steps {input : StartDiagnosisInput}
    (h : Runs (startDiagnosis input) before done after) :
    BillingStep rules before.billing after.billing := by
  simp [startDiagnosis, recordMove, recordStatusChange] at h
  obtain ⟨hstatus, rfl⟩ := h
  exact BillingStep.startDiagnosis before.billing hstatus

theorem startDiagnosis_throws {input : StartDiagnosisInput}
    (h : Throws (startDiagnosis input) before error after) : after = before := by
  simp [startDiagnosis, recordMove, recordStatusChange] at h
  exact h.2.2

theorem deliver_steps {input : CloseActionInput}
    (h : Runs (deliver input) before done after) :
    BillingStep rules before.billing after.billing := by
  simp [deliver, recordMove, recordStatusChange] at h
  obtain ⟨hstatus, rfl⟩ := h
  exact BillingStep.deliver before.billing hstatus

theorem deliver_throws {input : CloseActionInput}
    (h : Throws (deliver input) before error after) : after = before := by
  simp [deliver, recordMove, recordStatusChange] at h
  exact h.2.2

theorem cancel_steps {input : CancelInput}
    (h : Runs (cancel input) before done after) :
    BillingStep rules before.billing after.billing := by
  simp [cancel, recordMove, recordStatusChange] at h
  obtain ⟨hstatus, rfl⟩ := h
  exact BillingStep.cancel before.billing hstatus

theorem cancel_throws {input : CancelInput}
    (h : Throws (cancel input) before error after) : after = before := by
  simp [cancel, recordMove, recordStatusChange] at h
  exact h.2.2

theorem assignMechanic_billing {input : AssignMechanicInput}
    (h : Runs (assignMechanic input) before done after) :
    after.billing = before.billing := by
  simp [assignMechanic, recordFact] at h
  obtain ⟨-, rfl⟩ := h
  rfl

theorem assignMechanic_throws {input : AssignMechanicInput}
    (h : Throws (assignMechanic input) before error after) : after = before := by
  simp [assignMechanic, recordFact] at h
  exact h.2.2

end Decisions

section Charged

theorem mem_approvedRounds {workOrder : WorkOrder} :
    round ∈ workOrder.approvedRounds ↔ workOrder.billing.isApproved round = true := by
  simp only [approvedRounds, Billing.isApproved, billing, List.mem_map,
    List.mem_filter, List.any_eq_true, decide_eq_true_eq]
  exact exists_congr fun budget => by tauto

theorem chargedPrice_cents (named : Option Nat) (price : Option Money)
    (workOrder : WorkOrder) :
    budgetedCents (chargedPrice workOrder.approvedRounds named price) =
      if named.any workOrder.billing.isApproved = true then budgetedCents price
      else 0 := by
  cases named with
  | none => rfl
  | some round =>
      cases price with
      | none => simp [chargedPrice, budgetedCents]
      | some price =>
          simp only [chargedPrice, mem_approvedRounds, Option.any_some]
          split <;> rfl

/-- Services on approved rounds add their budgeted price. -/
theorem foldl_services (workOrder : WorkOrder) (items : List WorkOrderServiceItem) :
    ∀ {total : Money} {exact : Int}, 0 ≤ exact →
      AgreesUpTo maxExactCents total.cents exact →
      AgreesUpTo maxExactCents (items.foldl (fun total item =>
        match chargedPrice workOrder.approvedRounds item.budgetRound
            item.budgetedUnitPrice with
        | some price => total.add price
        | none => total) total).cents
        (exact + servicesOn workOrder.billing.isApproved items) := by
  induction items with
  | nil =>
      intro total exact _ htotal
      exact (Int.add_zero exact).symm ▸ htotal
  | cons item items ih =>
      intro total exact hexact htotal
      have hprice := chargedPrice_cents item.budgetRound item.budgetedUnitPrice
        workOrder
      rw [List.foldl_cons, servicesOn_cons, ← hprice, ← Int.add_assoc]
      cases chargedPrice workOrder.approvedRounds item.budgetRound
          item.budgetedUnitPrice with
      | none => simpa [budgetedCents] using ih hexact htotal
      | some price =>
          exact ih (Int.add_nonneg hexact price.nonneg)
            (Money.add_agrees htotal (.refl price.cents) hexact price.nonneg)

theorem money_ok {result : Except InvalidMoneyAmountError Money} {amount : Money}
    (h : money result = .ok amount) : result = .ok amount := by
  cases result with
  | ok made =>
      cases h
      rfl
  | error error => cases h

theorem money_error {result : Except InvalidMoneyAmountError Money}
    {error : WorkOrderError} (h : money result = .error error) :
    ∃ refused, result = .error refused := by
  cases result with
  | ok made => cases h
  | error refused => exact ⟨refused, rfl⟩

theorem multiply_ok {price charge : Money} {quantity : Int}
    (h : money (price.multiply quantity) = .ok charge) :
    0 ≤ price.cents * quantity ∧
      AgreesUpTo maxExactCents charge.cents (price.cents * quantity) := by
  obtain ⟨hnonneg, hcents⟩ := Money.fromCents_toNumber_ok (money_ok h)
  rw [hcents]
  exact ⟨hnonneg, toNumber_exactUpTo.agrees hnonneg⟩

theorem subtract_ok {total amount left : Money} {exact : Int}
    (htotal : AgreesUpTo maxExactCents total.cents exact)
    (h : money (total.subtract amount) = .ok left) :
    AgreesUpTo maxExactCents (left.cents + amount.cents) exact := by
  obtain ⟨hfits, hcents⟩ := Money.fromCents_toNumber_ok (money_ok h)
  rw [hcents]
  exact htotal.subtract toNumber_exactUpTo amount.nonneg hfits

theorem subtract_error {total amount : Money} {error : WorkOrderError}
    (h : money (total.subtract amount) = .error error) :
    total.cents < amount.cents := by
  obtain ⟨refused, hrefused⟩ := money_error h
  have hneg := Money.fromCents_toNumber_error hrefused
  omega

/-- Parts on approved rounds add what was withdrawn of them. -/
theorem foldlM_parts (workOrder : WorkOrder) (items : List WorkOrderPartItem) :
    ∀ {total result : Money} {exact : Int}, 0 ≤ exact →
      AgreesUpTo maxExactCents total.cents exact → items.foldlM (fun total item =>
        match chargedPrice workOrder.approvedRounds item.budgetRound
            item.budgetedUnitPrice with
        | some price => do
            let charge ← money (price.multiply item.withdrawnQuantity)
            return total.add charge
        | none => return total) total = .ok result →
      AgreesUpTo maxExactCents result.cents (exact +
        partsOn workOrder.billing.isApproved
          (fun item => item.withdrawnQuantity) items) := by
  induction items with
  | nil =>
      intro total result exact _ htotal h
      cases h
      exact (Int.add_zero exact).symm ▸ htotal
  | cons item items ih =>
      intro total result exact hexact htotal h
      have hprice := chargedPrice_cents item.budgetRound item.budgetedUnitPrice
        workOrder
      rw [List.foldlM_cons, bind_eq_ok_iff] at h
      obtain ⟨middle, hfirst, hrest⟩ := h
      rw [partsOn_cons, ← hprice, ← Int.add_assoc]
      split at hfirst
      · rename_i price hsome
        obtain ⟨charge, hcharge, hadd⟩ := bind_eq_ok_iff.mp hfirst
        rw [pure_eq_ok_iff] at hadd
        subst hadd
        rw [hsome]
        obtain ⟨hnonneg, hcents⟩ := multiply_ok hcharge
        exact ih (Int.add_nonneg hexact hnonneg)
          (Money.add_agrees htotal hcents hexact hnonneg) hrest
      · rename_i hnone
        rw [pure_eq_ok_iff] at hfirst
        subst hfirst
        rw [hnone]
        simpa [budgetedCents] using ih hexact htotal hrest

/-- The total a completion or a discount works with agrees with the charge of the
bill. -/
theorem chargedTotalBeforeDiscount_ok {workOrder : WorkOrder} {total : Money}
    (h : workOrder.chargedTotalBeforeDiscount = .ok total) :
    AgreesUpTo maxExactCents total.cents workOrder.billing.charge := by
  rw [chargedTotalBeforeDiscount] at h
  have hservices := foldl_services workOrder workOrder.serviceItems (Int.le_refl 0)
    (.refl Money.zero.cents)
  rw [Int.zero_add] at hservices
  exact foldlM_parts workOrder workOrder.partItems (servicesOn_nonneg _ _) hservices h

/-- What a discount of a completed work order freezes the total to. -/
theorem refreshChargedTotal_eq {preDiscountTotal amount : Money}
    (h : Runs (refreshChargedTotal preDiscountTotal amount) before done after) :
    (before.status = .completed ∧ ∃ chargedTotal,
        money (preDiscountTotal.subtract amount) = .ok chargedTotal ∧
          after = { before with chargedTotal := some chargedTotal }) ∨
      (before.status ≠ .completed ∧ after = before) := by
  simp only [refreshChargedTotal, runs_bind, runs_get, runs_ite, runs_call,
    runs_modify, runs_pure] at h
  obtain ⟨workOrder, middle, ⟨rfl, rfl⟩, h⟩ := h
  split at h
  · rename_i hstatus
    obtain ⟨total, _, ⟨htotal, rfl⟩, rfl⟩ := h
    exact Or.inl ⟨hstatus, total, htotal, rfl⟩
  · rename_i hstatus
    exact Or.inr ⟨hstatus, h.2⟩

theorem applyDiscount_steps {input : ApplyDiscountInput}
    (hobeys : (WorkOrderOperation.applyDiscount input).Obeys rules before)
    (h : Runs (applyDiscount input) before done after) :
    BillingStep rules before.billing after.billing := by
  simp [applyDiscount, recordFact] at h
  obtain ⟨hstatus, total, htotal, -, _, middle, hrefresh, rfl⟩ := h
  have hcharge := chargedTotalBeforeDiscount_ok htotal
  rcases refreshChargedTotal_eq hrefresh with
    ⟨hcompleted, chargedTotal, hcharged, rfl⟩ | ⟨hopen, rfl⟩
  · change before.status = .completed at hcompleted
    refine BillingStep.applyDiscountAgain before.billing input.amount chargedTotal
      hcompleted (hobeys.charged _ ?_ _ (subtract_ok hcharge hcharged))
    simp [WorkOrderOperation.charges, WorkOrderOperation.adds, hcompleted]
  · exact BillingStep.applyDiscount before.billing input.amount
      (hstatus.resolve_right hopen)

/-- The guard on the discount leaves nothing to refuse after the writes. -/
theorem applyDiscount_throws {input : ApplyDiscountInput}
    (h : Throws (applyDiscount input) before error after) : after = before := by
  simp [applyDiscount, recordFact] at h
  rcases h with h | ⟨-, h | ⟨total, htotal, h | ⟨hfits, hrefresh⟩⟩⟩
  · exact h.2.2
  · exact h.2
  · exact h.2.2
  · simp only [refreshChargedTotal, throws_bind, throws_get, false_or, runs_get,
      throws_ite, throws_call, throws_modify, and_false, exists_false, or_false,
      throws_pure] at hrefresh
    obtain ⟨workOrder, middle, ⟨rfl, rfl⟩, hrefresh⟩ := hrefresh
    split at hrefresh
    · have hless := subtract_error hrefresh.1
      simp only [Money.isGreaterThan, decide_eq_false_iff_not] at hfits
      omega
    · exact absurd hrefresh id

theorem complete_steps {input : CloseActionInput}
    (hobeys : (WorkOrderOperation.complete input).Obeys rules before)
    (h : Runs (complete input) before done after) :
    BillingStep rules before.billing after.billing := by
  simp [complete, recordMove, recordStatusChange] at h
  obtain ⟨hstatus, total, htotal, -, chargedTotal, hcharged, rfl⟩ := h
  have hcharge := chargedTotalBeforeDiscount_ok htotal
  refine BillingStep.complete before.billing chargedTotal hstatus
    (hobeys.charged _ ?_ _ (subtract_ok hcharge hcharged))
  simp [WorkOrderOperation.charges, WorkOrderOperation.adds, hstatus]

theorem complete_throws {input : CloseActionInput}
    (h : Throws (complete input) before error after) : after = before := by
  simp [complete, recordMove, recordStatusChange] at h
  rcases h with h | ⟨-, h | ⟨total, -, h | h⟩⟩
  · exact h.2.2
  · exact h.2
  · exact h.2.2
  · exact h.1.2

end Charged

section Batches

variable {change : WorkOrderPartItem → Int → Except WorkOrderError WorkOrderPartItem}
variable {sign : Int} {resolved : List (WorkOrderPartItem × Int)}

/-- Each line of a batch is a step of the bill on a work order whose parts moved
at most since the batch was resolved. -/
def LineSteps (rules : BillingRules)
    (change : WorkOrderPartItem → Int → Except WorkOrderError WorkOrderPartItem)
    (before : WorkOrder) (resolved : List (WorkOrderPartItem × Int)) : Prop :=
  ∀ entry ∈ resolved, ∀ workOrder : WorkOrder, workOrder.status = before.status →
    workOrder.budgets = before.budgets → ∀ index item changed,
      workOrder.partItems[index]? = some item → unmoved item = unmoved entry.1 →
      change item entry.2 = .ok changed →
      BillingStep rules workOrder.billing
        { workOrder.billing with
          partItems := workOrder.partItems.set index changed }

/-- A line changes the part the batch resolved it to. -/
theorem changePart_eq {entry : WorkOrderPartItem × Int}
    (hresolves : Resolves before [entry])
    (h : Runs (changePart entry.1.id fun item => change item entry.2)
      before done after) :
    ∃ index item changed, before.partItems[index]? = some item ∧
      unmoved item = unmoved entry.1 ∧ change item entry.2 = .ok changed ∧
      after = { before with partItems := before.partItems.set index changed } := by
  simp only [changePart, runs_bind, runs_get] at h
  obtain ⟨workOrder, middle, ⟨rfl, rfl⟩, h⟩ := h
  split at h
  · simp at h
  · rename_i index item hfound
    simp at h
    obtain ⟨changed, hchanged, rfl⟩ := h
    have hfind := hresolves entry List.mem_cons_self
    rw [find?_of_findAt hfound, Option.map_some, Option.some.injEq] at hfind
    exact ⟨index, item, changed, (getElem?_of_findAt hfound).1, hfind, hchanged, rfl⟩

/-- The bill a batch leaves is one that its lines reach. -/
theorem changeParts_steps (hmoves : MovesUnits sign change) :
    ∀ {before : WorkOrder}, Resolves before resolved →
      LineSteps rules change before resolved →
      Runs (changeParts change resolved) before done after →
      BillingSteps rules before.billing after.billing := by
  induction resolved with
  | nil =>
      intro before _ _ h
      simp [changeParts] at h
      rw [h]
  | cons entry resolved ih =>
      intro before hresolves hlines h
      simp only [changeParts, runs_bind] at h
      obtain ⟨_, middle, hfirst, hrest⟩ := h
      obtain ⟨index, item, changed, hindex, hitem, hchanged, rfl⟩ :=
        changePart_eq (fun other hother => hresolves other (List.mem_cons.mpr
          (Or.inl (List.mem_singleton.mp hother)))) hfirst
      have hsame : (before.partItems.set index changed).map unmoved =
          before.partItems.map unmoved := by
        refine map_set_of_getElem? hindex ?_
        rw [hmoves item entry.2 changed hchanged]
        rfl
      have hstep := hlines entry List.mem_cons_self before rfl rfl index item
        changed hindex hitem hchanged
      have hresolves' : Resolves { before with
          partItems := before.partItems.set index changed } resolved :=
        fun other hother => (find?_unmoved hsame _).trans
          (hresolves other (List.mem_cons_of_mem _ hother))
      exact Relation.ReflTransGen.head hstep (ih hresolves'
        (fun other hother => hlines other (List.mem_cons_of_mem _ hother)) hrest)

/-- Rewriting an entry that fails a test, by one that fails it too, leaves what
the test finds. -/
theorem find?_set_of_fails {α : Type} {p : α → Bool} {a' : α} (hnew : p a' = false) :
    ∀ {l : List α} {index : Nat} {a : α}, l[index]? = some a → p a = false →
      (l.set index a').find? p = l.find? p := by
  intro l
  induction l with
  | nil =>
      intro index a _ _
      rw [List.set_nil]
  | cons head l ih =>
      intro index a hindex hold
      cases index with
      | zero =>
          obtain rfl := Option.some.inj hindex
          rw [List.set_cons_zero, List.find?_cons_of_neg (by simp [hnew]),
            List.find?_cons_of_neg (by simp [hold])]
      | succ index =>
          rw [List.set_cons_succ, List.find?_cons, List.find?_cons,
            ih hindex hold]

/-- Every line stands in the work order as it was resolved, and can be
applied. -/
def Applicable
    (change : WorkOrderPartItem → Int → Except WorkOrderError WorkOrderPartItem)
    (workOrder : WorkOrder) (resolved : List (WorkOrderPartItem × Int)) : Prop :=
  ∀ entry ∈ resolved,
    (workOrder.partItems.find? fun item => item.id = entry.1.id) = some entry.1 ∧
      ∃ changed, change entry.1 entry.2 = .ok changed

/-- A line leaves every part but its own where a search finds it. -/
theorem changePart_find? {itemId other : WorkOrderItemId}
    {change : WorkOrderPartItem → Except WorkOrderError WorkOrderPartItem}
    (hkeeps : ∀ item changed, change item = .ok changed → changed.id = item.id)
    (hne : other ≠ itemId)
    (h : Runs (changePart itemId change) before done after) :
    (after.partItems.find? fun item => item.id = other) =
      before.partItems.find? fun item => item.id = other := by
  simp only [changePart, runs_bind, runs_get] at h
  obtain ⟨workOrder, middle, ⟨rfl, rfl⟩, h⟩ := h
  split at h
  · simp at h
  · rename_i index item hfound
    simp at h
    obtain ⟨changed, hchanged, rfl⟩ := h
    obtain ⟨hindex, hid⟩ := getElem?_of_findAt hfound
    have hid' : item.id = itemId := of_decide_eq_true hid
    refine find?_set_of_fails ?_ hindex ?_
    · exact decide_eq_false fun heq =>
        hne (heq.symm.trans ((hkeeps item changed hchanged).trans hid'))
    · exact decide_eq_false fun heq => hne (heq.symm.trans hid')

/-- A batch whose lines name distinct parts, each of which can be applied, is
applied to the end. -/
theorem changeParts_throws (hmoves : MovesUnits sign change) :
    ∀ {before : WorkOrder}, (resolved.map fun entry => entry.1.id).Nodup →
      Applicable change before resolved →
      ¬ Throws (changeParts change resolved) before error after := by
  induction resolved with
  | nil =>
      intro before _ _ h
      simp [changeParts] at h
  | cons entry resolved ih =>
      intro before hids happlicable h
      obtain ⟨hfind, changed, hchanged⟩ := happlicable entry List.mem_cons_self
      rw [List.map_cons, List.nodup_cons] at hids
      simp only [changeParts, throws_bind] at h
      rcases h with h | ⟨_, middle, hfirst, hrest⟩
      · simp only [changePart, throws_bind, throws_get, false_or, runs_get] at h
        obtain ⟨workOrder, _, ⟨rfl, rfl⟩, h⟩ := h
        split at h
        · rename_i hnone
          have hmem := List.mem_of_find?_eq_some hfind
          have hfails := findAt_eq_none hnone _ hmem
          simp at hfails
        · rename_i index item hfound
          have hitem : item = entry.1 :=
            Option.some.inj ((find?_of_findAt hfound).symm.trans hfind)
          simp [hitem, hchanged] at h
      · refine ih hids.2 (fun other hother => ?_) hrest
        obtain ⟨hother', hok⟩ := happlicable other (List.mem_cons_of_mem _ hother)
        refine ⟨?_, hok⟩
        have hne : other.1.id ≠ entry.1.id := fun heq =>
          hids.1 (heq ▸ List.mem_map_of_mem hother)
        rw [← hother']
        refine changePart_find? (fun item changed hchanged => ?_) hne hfirst
        rw [hmoves item entry.2 changed hchanged]

/-- Lines that name distinct parts and pass a check that admits only what can be
applied leave nothing to refuse. -/
theorem applicable_of_resolveLines {lines : List BatchLine}
    {check : WorkOrderPartItem → Int → Except WorkOrderError Unit}
    (hcheck : ∀ item quantity, check item quantity = .ok () →
      ∃ changed, change item quantity = .ok changed)
    (hlines : assertNoDuplicateLines lines = .ok ())
    (h : before.resolveLines check lines = .ok resolved) :
    (resolved.map fun entry => entry.1.id).Nodup ∧
      Applicable change before resolved := by
  have hfound : List.Forall₂ (fun (line : BatchLine) (entry : WorkOrderPartItem × Int) =>
      entry.1.id = line.itemId ∧
        (before.partItems.find? fun item => item.id = line.itemId) = some entry.1 ∧
        check entry.1 entry.2 = .ok ()) lines resolved := by
    refine (forall₂_of_mapM_eq_ok h).imp fun line entry hline => ?_
    split at hline
    · cases hline
    · rename_i item hfind
      obtain ⟨_, hok, hline⟩ := bind_eq_ok_iff.mp hline
      rw [pure_eq_ok_iff] at hline
      subst hline
      exact ⟨by simpa using List.find?_some hfind, hfind, hok⟩
  constructor
  · have hsame : resolved.map (fun entry => entry.1.id) = lines.map BatchLine.itemId := by
      clear h hlines
      induction hfound with
      | nil => rfl
      | cons hline _ ih => rw [List.map_cons, List.map_cons, hline.1, ih]
    rw [assertNoDuplicateLines] at hlines
    split at hlines
    · rename_i hnodup
      rw [hsame]
      exact hnodup
    · cases hlines
  · intro entry hentry
    obtain ⟨line, -, hid, hfind, hok⟩ := exists_left_of_forall₂ hfound hentry
    rw [hid]
    exact ⟨hfind, hcheck entry.1 entry.2 hok⟩

/-- A line of a withdrawal is a step when its part is on an approved round. -/
theorem withdraw_lineSteps {lines : List BatchLine}
    (hstatus : before.status = .inExecution)
    (hasked : ∀ line ∈ lines, rules.asked line.quantity)
    (hlines : List.Forall₂ (fun line entry => entry.2 = line.quantity ∧
      before.assertWithdrawable entry.1 entry.2 = .ok ()) lines resolved) :
    LineSteps rules WorkOrderPartItem.withdraw before resolved := by
  intro entry hentry workOrder hsame hbudgets index item changed hindex hitem hchanged
  obtain ⟨line, hline, hquantity, hcheck⟩ := exists_left_of_forall₂ hlines hentry
  have hround := congrArg WorkOrderPartItem.budgetRound hitem
  change item.budgetRound = entry.1.budgetRound at hround
  simp only [WorkOrderPartItem.withdraw] at hchanged
  simp only [assertWithdrawable] at hcheck
  split at hchanged
  · cases hchanged
  · rename_i hfits
    cases hchanged
    split at hcheck
    · cases hcheck
    · rename_i round hnamed
      split at hcheck
      · cases hcheck
      · rename_i budget hfind
        have hmem := List.mem_of_find?_eq_some hfind
        have hnumber : budget.round = round := by simpa using List.find?_some hfind
        rw [← hbudgets] at hmem
        by_cases happroved : budget.status = .approved
        · have hbilled : item.budgetRound = some budget.round := by
            rw [hround, hnamed, hnumber]
          exact BillingStep.withdraw workOrder.billing index item entry.2 budget
            (hsame.trans hstatus) hindex hmem happroved hbilled
            (by rw [hquantity]; exact hasked line hline) (not_lt.mp hfits)
        · rw [if_pos happroved] at hcheck
          cases hcheck

theorem returnUnits_lineSteps {lines : List BatchLine}
    {check : WorkOrderPartItem → Int → Except WorkOrderError Unit}
    (hstatus : before.status = .inExecution)
    (hasked : ∀ line ∈ lines, rules.asked line.quantity)
    (hlines : List.Forall₂ (fun line entry => entry.2 = line.quantity ∧
      check entry.1 entry.2 = .ok ()) lines resolved) :
    LineSteps rules WorkOrderPartItem.returnUnits before resolved := by
  intro entry hentry workOrder hsame hbudgets index item changed hindex hitem hchanged
  obtain ⟨line, hline, hquantity, -⟩ := exists_left_of_forall₂ hlines hentry
  simp only [WorkOrderPartItem.returnUnits] at hchanged
  split at hchanged
  · cases hchanged
  · rename_i hfits
    cases hchanged
    exact BillingStep.returnUnits workOrder.billing index item entry.2
      (hsame.trans hstatus) hindex (by rw [hquantity]; exact hasked line hline)
      (not_lt.mp hfits)

/-- A withdrawal the check admits can be applied. -/
theorem withdraw_of_assertWithdrawable (item : WorkOrderPartItem) (quantity : Int)
    (h : before.assertWithdrawable item quantity = .ok ()) :
    ∃ changed, item.withdraw quantity = .ok changed := by
  simp only [assertWithdrawable] at h
  split at h
  · cases h
  · split at h
    · cases h
    · split at h
      · cases h
      · split at h
        · cases h
        · rename_i hfits
          exact ⟨_, by rw [WorkOrderPartItem.withdraw, if_neg hfits]⟩

theorem returnUnits_of_assertReturnable (item : WorkOrderPartItem) (quantity : Int)
    (h : assertReturnable item quantity = .ok ()) :
    ∃ changed, item.returnUnits quantity = .ok changed := by
  rw [assertReturnable] at h
  split at h
  · cases h
  · rename_i hfits
    exact ⟨_, by rw [WorkOrderPartItem.returnUnits, if_neg hfits]⟩

theorem withdrawParts_steps {input : WithdrawPartsInput}
    {lines : List ResolvedBatchLine}
    (hasked : ∀ line ∈ input.lines, rules.asked line.quantity)
    (h : Runs (withdrawParts input) before lines after) :
    BillingSteps rules before.billing after.billing := by
  simp [withdrawParts, recordFact] at h
  obtain ⟨hstatus, -, resolved, hresolved, _, middle, hchange, hafter, rfl⟩ := h
  obtain ⟨hresolves, hlines⟩ := resolveLines_ok hresolved
  have hsteps := changeParts_steps withdraw_movesUnits hresolves
    (withdraw_lineSteps hstatus hasked hlines) hchange
  rw [hafter]
  exact hsteps

/-- A withdrawal that is refused was refused before its first line was applied. -/
theorem withdrawParts_throws {input : WithdrawPartsInput}
    (h : Throws (withdrawParts input) before error after) : after = before := by
  simp [withdrawParts, recordFact] at h
  rcases h with h | ⟨-, h | ⟨⟨_, hlines⟩, h | ⟨resolved, hresolved, hchange⟩⟩⟩
  · exact h.2.2
  · exact h.2
  · exact h.2
  · obtain ⟨hids, happlicable⟩ := applicable_of_resolveLines
      withdraw_of_assertWithdrawable hlines hresolved
    exact absurd hchange (changeParts_throws withdraw_movesUnits hids happlicable)

theorem returnParts_steps {input : WithdrawPartsInput}
    {lines : List ResolvedBatchLine}
    (hasked : ∀ line ∈ input.lines, rules.asked line.quantity)
    (h : Runs (returnParts input) before lines after) :
    BillingSteps rules before.billing after.billing := by
  simp [returnParts, recordFact] at h
  obtain ⟨hstatus, -, resolved, hresolved, _, middle, hchange, hafter, rfl⟩ := h
  obtain ⟨hresolves, hlines⟩ := resolveLines_ok hresolved
  have hsteps := changeParts_steps returnUnits_movesUnits hresolves
    (returnUnits_lineSteps hstatus hasked hlines) hchange
  rw [hafter]
  exact hsteps

theorem returnParts_throws {input : WithdrawPartsInput}
    (h : Throws (returnParts input) before error after) : after = before := by
  simp [returnParts, recordFact] at h
  rcases h with h | ⟨-, h | ⟨⟨_, hlines⟩, h | ⟨resolved, hresolved, hchange⟩⟩⟩
  · exact h.2.2
  · exact h.2
  · exact h.2
  · obtain ⟨hids, happlicable⟩ := applicable_of_resolveLines
      returnUnits_of_assertReturnable hlines hresolved
    exact absurd hchange
      (changeParts_throws returnUnits_movesUnits hids happlicable)

end Batches

end WorkOrder

namespace WorkOrderOperation

variable {before : WorkOrder} {rules : BillingRules} (operation : WorkOrderOperation)

/-- What a call leaves when it ends well. -/
theorem steps_of_runs {after : WorkOrder} {done : Unit}
    (hobeys : operation.Obeys rules before)
    (h : Runs operation.run before done after) :
    BillingSteps rules before.billing after.billing := by
  have hlines : ∀ {lines : List BatchLine},
      (∀ quantity ∈ lines.map BatchLine.quantity, rules.asked quantity) →
      ∀ line ∈ lines, rules.asked line.quantity :=
    fun hquantities line hline => hquantities _ (List.mem_map_of_mem hline)
  cases operation with
  | addService input => exact .single (WorkOrder.addService_steps h)
  | planPart input => exact .single (WorkOrder.planPart_steps h)
  | removeItem input => exact .single (WorkOrder.removeItem_steps h)
  | startDiagnosis input => exact .single (WorkOrder.startDiagnosis_steps h)
  | completeDiagnosis input => exact .single (WorkOrder.completeDiagnosis_steps hobeys h)
  | approveBudget input => exact .single (WorkOrder.approveBudget_steps h)
  | rejectBudget input => exact .single (WorkOrder.rejectBudget_steps h)
  | submitSupplementaryBudget input =>
      exact .single (WorkOrder.submitSupplementaryBudget_steps hobeys h)
  | withdrawParts input =>
      obtain ⟨lines, hruns, -⟩ := runs_map.mp h
      exact WorkOrder.withdrawParts_steps (hlines hobeys.asked) hruns
  | returnParts input =>
      obtain ⟨lines, hruns, -⟩ := runs_map.mp h
      exact WorkOrder.returnParts_steps (hlines hobeys.asked) hruns
  | assignMechanic input => rw [WorkOrder.assignMechanic_billing h]
  | applyDiscount input => exact .single (WorkOrder.applyDiscount_steps hobeys h)
  | complete input => exact .single (WorkOrder.complete_steps hobeys h)
  | deliver input => exact .single (WorkOrder.deliver_steps h)
  | cancel input => exact .single (WorkOrder.cancel_steps h)

/-- A call that throws leaves the work order as it was. -/
theorem unchanged_of_throws {after : WorkOrder} {error : WorkOrderError}
    (hsound : before.billing.RoundsSound rules)
    (h : Throws operation.run before error after) : after = before := by
  cases operation with
  | addService input => exact WorkOrder.addService_throws h
  | planPart input => exact WorkOrder.planPart_throws h
  | removeItem input => exact WorkOrder.removeItem_throws h
  | startDiagnosis input => exact WorkOrder.startDiagnosis_throws h
  | completeDiagnosis input => exact WorkOrder.completeDiagnosis_throws hsound h
  | approveBudget input => exact WorkOrder.approveBudget_throws h
  | rejectBudget input => exact WorkOrder.rejectBudget_throws h
  | submitSupplementaryBudget input =>
      exact WorkOrder.submitSupplementaryBudget_throws h
  | withdrawParts input => exact WorkOrder.withdrawParts_throws (throws_map.mp h)
  | returnParts input => exact WorkOrder.returnParts_throws (throws_map.mp h)
  | assignMechanic input => exact WorkOrder.assignMechanic_throws h
  | applyDiscount input => exact WorkOrder.applyDiscount_throws h
  | complete input => exact WorkOrder.complete_throws h
  | deliver input => exact WorkOrder.deliver_throws h
  | cancel input => exact WorkOrder.cancel_throws h

/-- Every call, failed or not, is a run of the bill. -/
theorem perform_steps (hsound : before.billing.RoundsSound rules)
    (hobeys : operation.Obeys rules before) :
    BillingSteps rules before.billing (operation.perform before).billing := by
  rcases leftBy_cases operation.run before with ⟨done, hruns⟩ | ⟨error, hthrows⟩
  · exact operation.steps_of_runs hobeys hruns
  · have hsame : operation.perform before = before :=
      operation.unchanged_of_throws hsound hthrows
    rw [hsame]

end WorkOrderOperation

theorem performAll_append (operations more : List WorkOrderOperation)
    (workOrder : WorkOrder) : performAll (operations ++ more) workOrder =
      performAll more (performAll operations workOrder) :=
  List.foldl_append

/-- Every call of a run meets a condition on the work order it is made on. -/
def Along (condition : WorkOrderOperation → WorkOrder → Prop) :
    List WorkOrderOperation → WorkOrder → Prop
  | [], _ => True
  | operation :: operations, workOrder =>
      condition operation workOrder ∧
        Along condition operations (operation.perform workOrder)

section Along

variable {condition other : WorkOrderOperation → WorkOrder → Prop}

instance Along.decidable
    [∀ operation workOrder, Decidable (condition operation workOrder)] :
    ∀ operations workOrder, Decidable (Along condition operations workOrder)
  | [], _ => .isTrue trivial
  | operation :: operations, workOrder =>
      have := Along.decidable operations (operation.perform workOrder)
      inferInstanceAs (Decidable (_ ∧ _))

theorem along_true (operations : List WorkOrderOperation) :
    ∀ workOrder, Along (fun _ _ => True) operations workOrder := by
  induction operations with
  | nil => exact fun _ => trivial
  | cons operation operations ih => exact fun _ => ⟨trivial, ih _⟩

theorem Along.imp {operations : List WorkOrderOperation}
    (himp : ∀ operation ∈ operations, ∀ workOrder,
      condition operation workOrder → other operation workOrder) :
    ∀ {workOrder}, Along condition operations workOrder →
      Along other operations workOrder := by
  induction operations with
  | nil => exact fun _ => trivial
  | cons operation operations ih =>
      intro workOrder h
      exact ⟨himp operation List.mem_cons_self workOrder h.1,
        ih (fun other hother => himp other (List.mem_cons_of_mem _ hother)) h.2⟩

end Along

variable {rules : BillingRules}

/-- A run of the aggregate is a run of the bill. -/
theorem performAll_steps (operations : List WorkOrderOperation) :
    ∀ {before : WorkOrder}, before.billing.RoundsSound rules →
      Along (WorkOrderOperation.Obeys rules) operations before →
      BillingSteps rules before.billing (performAll operations before).billing := by
  induction operations with
  | nil =>
      intro before _ _
      exact Relation.ReflTransGen.refl
  | cons operation operations ih =>
      intro before hsound hobeys
      have hfirst := operation.perform_steps hsound hobeys.1
      exact hfirst.trans (ih (hsound.steps hfirst) hobeys.2)

/-- An opened work order has no round and no item. -/
theorem roundsSound_open (input : OpenWorkOrderInput) :
    (WorkOrder.openWorkOrder input).billing.RoundsSound rules where
  staged := by
    refine ⟨rfl, nofun, fun _ => ?_, fun _ => rfl, nofun, nofun, ?_⟩
    · constructor
      · rintro ⟨budget, hbudget, -⟩
        cases hbudget
      · exact nofun
    · change WorkOrderStatus.received ∈ executedStates → _
      intro hmem
      exact absurd hmem (by decide)
  quoted := ⟨nofun, nofun, nofun, nofun, nofun⟩

theorem chargesSound_open (input : OpenWorkOrderInput) :
    (WorkOrder.openWorkOrder input).billing.ChargesSound rules where
  withdrawn := nofun
  approved := nofun
  settled := Billing.Unsettled.settled ⟨nofun, nofun⟩

/-- What any run keeps to: amounts are what their sums are up to what a `Number` holds
exactly, and larger when the sums are. -/
def roundedRules (asked : Int → Prop) : BillingRules where
  asked := asked
  quoted := AgreesUpTo maxExactCents
  charged := AgreesUpTo maxExactCents

theorem obeys_rounded {asked : Int → Prop} {operation : WorkOrderOperation}
    {workOrder : WorkOrder} (hasked : ∀ quantity ∈ operation.quantities, asked quantity) :
    operation.Obeys (roundedRules asked) workOrder :=
  ⟨hasked, fun _ _ _ hagrees => hagrees, fun _ _ _ hagrees => hagrees⟩

/-- What any run of the bill keeps to, when its batches ask for what they may. -/
theorem performAll_rounded {asked : Int → Prop} (operations : List WorkOrderOperation)
    (hasked : ∀ operation ∈ operations, ∀ quantity ∈ operation.quantities,
      asked quantity) {before : WorkOrder}
    (hsound : before.billing.RoundsSound (roundedRules asked)) :
    BillingSteps (roundedRules asked) before.billing
      (performAll operations before).billing :=
  performAll_steps operations hsound
    ((along_true operations before).imp fun operation hoperation _ _ =>
      obeys_rounded (hasked operation hoperation))

/-- The rounds of a work order that any run leaves. -/
theorem roundsSound_of_performAll (input : OpenWorkOrderInput)
    (operations : List WorkOrderOperation) :
    (performAll operations (.openWorkOrder input)).billing.RoundsSound
      (roundedRules fun _ => True) :=
  (roundsSound_open input).steps
    (performAll_rounded operations (fun _ _ _ _ => trivial) (roundsSound_open input))

/-- The items of the round that a call quotes come to an amount a `Number` holds
exactly. -/
def WorkOrderOperation.QuotesWithin (operation : WorkOrderOperation)
    (workOrder : WorkOrder) : Prop :=
  ∀ exact ∈ operation.quotes workOrder, exact ≤ maxExactCents

/-- What a call charges for comes to an amount a `Number` holds exactly. -/
def WorkOrderOperation.ChargesWithin (operation : WorkOrderOperation)
    (workOrder : WorkOrder) : Prop :=
  ∀ exact ∈ operation.charges workOrder, exact ≤ maxExactCents

instance (operation : WorkOrderOperation) (workOrder : WorkOrder) :
    Decidable (operation.ChargesWithin workOrder) :=
  inferInstanceAs (Decidable (∀ exact ∈ operation.charges workOrder, _))

/-- What a run keeps to that quotes exact sums only. -/
def exactQuotes : BillingRules where
  asked := fun _ => True
  quoted := fun total exact => total = exact
  charged := fun _ _ => True

/-- What a run keeps to that charges exact sums only, for positive quantities. -/
def exactCharges : BillingRules where
  asked := fun quantity => 0 < quantity
  quoted := AgreesUpTo maxExactCents
  charged := fun total exact => total = exact ∧ exact ≤ maxExactCents

/-- In every work order that a run of the aggregate leaves, failed calls included, the
rounds are in order and at most one is pending; an approved round, the items on it and
their prices stay as they are through any further run; and when the sums that were
quoted are exact, the total of each round is what its items add up to. -/
theorem rounds_of_performAll (input : OpenWorkOrderInput)
    (operations more : List WorkOrderOperation) :
    (performAll operations (.openWorkOrder input)).billing.RoundsSound
        (roundedRules fun _ => True) ∧
      ((performAll operations (.openWorkOrder input)).budgets.filter
        fun budget => budget.status = .pending).length ≤ 1 ∧
      (∀ budget ∈ (performAll operations (.openWorkOrder input)).budgets,
        budget.status = .approved →
          Billing.Keeps budget (performAll operations (.openWorkOrder input)).billing
            (performAll (operations ++ more) (.openWorkOrder input)).billing) ∧
      (Along WorkOrderOperation.QuotesWithin operations (.openWorkOrder input) →
        ∀ budget ∈ (performAll operations (.openWorkOrder input)).budgets,
          budget.total.cents = (performAll operations
            (.openWorkOrder input)).billing.roundTotal budget.round) := by
  have hsound := roundsSound_of_performAll input operations
  refine ⟨hsound, hsound.staged.onePending, fun budget hbudget happroved => ?_,
    fun hwithin => ?_⟩
  · rw [performAll_append]
    exact Billing.Keeps.of_steps hsound hbudget happroved
      (performAll_rounded more (fun _ _ _ _ => trivial) hsound)
  · have hobeys : Along (WorkOrderOperation.Obeys exactQuotes) operations _ :=
      hwithin.imp fun operation _ workOrder hquotes =>
        ⟨fun _ _ => trivial,
          fun exact hexact total htotal => htotal.within (hquotes exact hexact),
          fun _ _ _ _ => trivial⟩
    have hexact := (roundsSound_open input).steps
      (performAll_steps operations (roundsSound_open input) hobeys)
    exact hexact.quoted.totals

/-- In every work order that a run of the aggregate leaves, parts are withdrawn from
approved rounds only and never beyond the plan; and when the sums that were charged for
are exact, a completed one charges, with its discount, exactly what was done on the
approved rounds, and no more than these came to. -/
theorem charges_of_performAll (input : OpenWorkOrderInput)
    (operations : List WorkOrderOperation)
    (hpositive : ∀ operation ∈ operations, ∀ quantity ∈ operation.quantities,
      0 < quantity) :
    (performAll operations (.openWorkOrder input)).billing.ChargesSound
        (roundedRules fun quantity => 0 < quantity) ∧
      (Along WorkOrderOperation.ChargesWithin operations (.openWorkOrder input) →
        (performAll operations (.openWorkOrder input)).billing.PaidFor) := by
  have hsteps := performAll_rounded operations hpositive (roundsSound_open input)
  refine ⟨(chargesSound_open input).steps (roundsSound_open input) (fun _ => id) hsteps,
    fun hwithin => ?_⟩
  have hobeys : Along (WorkOrderOperation.Obeys exactCharges) operations _ :=
    hwithin.imp fun operation hoperation workOrder hcharges =>
      ⟨hpositive operation hoperation, fun _ _ _ hagrees => hagrees,
        fun exact hexact total htotal =>
          ⟨htotal.within (hcharges exact hexact), hcharges exact hexact⟩⟩
  have hexact := performAll_steps operations (roundsSound_open input) hobeys
  have hsound := (roundsSound_open input).steps hexact
  have hcharges := (chargesSound_open input).steps (roundsSound_open input)
    (fun _ => id) hexact
  intro hsettled
  obtain ⟨chargedTotal, hcharged, hnonneg, htotal, hle⟩ := hcharges.settled hsettled
  refine ⟨chargedTotal, hcharged, hnonneg, htotal, ?_⟩
  rw [htotal]
  exact Billing.charge_le_approvedTotal hsound hcharges hsound.quoted.totals hle

namespace BillingWitness

def opened : OpenWorkOrderInput where
  id := 1
  number := "OS-1"
  customerId := 2
  vehicleId := 3
  createdByUserId := 4
  customerName := "Ana"
  vehiclePlate := "ABC1D23"
  vehicleBrand := "Fiat"
  vehicleModel := "Uno"
  vehicleYear := 2012
  now := 100

/-- A service at 50.00 and four filters at 10.00, of which three are withdrawn
and one is returned, with a discount of 5.00 after completion. -/
def visit : List WorkOrderOperation :=
  [.addService ⟨10, 20, "Revision", ⟨5000, by decide⟩, 4, 101⟩,
    .planPart ⟨11, 21, "F-1", "Filter", ⟨1000, by decide⟩, ⟨4, by decide, by decide⟩,
      4, 102⟩,
    .startDiagnosis ⟨5, 103⟩, .completeDiagnosis ⟨30, 5, 104⟩,
    .approveBudget ⟨4, 105, none⟩, .withdrawParts ⟨[⟨11, 3⟩], 5, 106⟩,
    .withdrawParts ⟨[⟨11, 2⟩], 5, 107⟩, .returnParts ⟨[⟨11, 1⟩], 5, 108⟩,
    .complete ⟨5, 109⟩, .applyDiscount ⟨⟨500, by decide⟩, "loyalty", 5, 110⟩,
    .deliver ⟨5, 111⟩]

theorem charges_of_visit :
    (performAll visit (.openWorkOrder opened)).status = .delivered ∧
      (performAll visit (.openWorkOrder opened)).chargedTotal.map Money.cents =
        some 6500 ∧
      (performAll visit (.openWorkOrder opened)).billing.charge = 7000 ∧
      (performAll visit (.openWorkOrder opened)).billing.PaidFor :=
  ⟨by decide +kernel, by decide +kernel, by decide +kernel,
    (charges_of_performAll opened visit (by decide)).2 (by decide +kernel)⟩

/-- Three units of a part at the largest price that a `Number` holds exactly. -/
def dearVisit : List WorkOrderOperation :=
  [.planPart ⟨11, 21, "F-1", "Filter", ⟨9007199254740991, by decide⟩,
      ⟨3, by decide, by decide⟩, 4, 102⟩,
    .startDiagnosis ⟨5, 103⟩, .completeDiagnosis ⟨30, 5, 104⟩]

/-- The round is quoted one cent short. -/
theorem total_may_be_rounded :
    ¬ ∀ input operations, ∀ budget ∈ (performAll operations (.openWorkOrder input)).budgets,
      budget.total.cents =
        (performAll operations (.openWorkOrder input)).billing.roundTotal budget.round := by
  intro hall
  have hshort : ¬ ∀ budget ∈ (performAll dearVisit (.openWorkOrder opened)).budgets,
      budget.total.cents =
        (performAll dearVisit (.openWorkOrder opened)).billing.roundTotal
          budget.round := by decide +kernel
  exact hshort (hall opened dearVisit)

/-- Two services at prices that are exact, and whose sum is not. -/
def dearServices : List WorkOrderOperation :=
  [.addService ⟨10, 20, "Revision", ⟨9007199254740991, by decide⟩, 4, 101⟩,
    .addService ⟨11, 21, "Wash", ⟨2, by decide⟩, 4, 102⟩,
    .startDiagnosis ⟨5, 103⟩, .completeDiagnosis ⟨30, 5, 104⟩,
    .approveBudget ⟨4, 105, none⟩, .complete ⟨5, 106⟩]

/-- The customer is charged one cent less than the services cost. -/
theorem charge_may_be_rounded :
    ¬ ∀ input operations,
      (∀ operation ∈ operations, ∀ quantity ∈ WorkOrderOperation.quantities operation,
        0 < quantity) →
      (performAll operations (.openWorkOrder input)).billing.PaidFor := by
  intro hall
  obtain ⟨chargedTotal, hcharged, -, htotal, -⟩ :=
    hall opened dearServices (by decide) (Or.inl (by decide +kernel))
  have hshort : ∀ charged ∈ (performAll dearServices (.openWorkOrder opened)).chargedTotal,
      charged.cents + (performAll dearServices (.openWorkOrder opened)).discount.cents ≠
        (performAll dearServices (.openWorkOrder opened)).billing.charge := by
    decide +kernel
  exact hshort chargedTotal hcharged htotal

end BillingWitness

end WorkOrders

end Workshop
