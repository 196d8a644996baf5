/-
The items a work order plans.  Of all methods only `planPart` plans an item the
work order did not plan, so a request plans a new one only when it asks for it.
-/
import Workshop.WorkOrders.SavedOperations

namespace Workshop

namespace WorkOrders

open Inventory

/-- The items a work order plans. -/
def WorkOrder.plannedItems (workOrder : WorkOrder) : List ItemId :=
  workOrder.partItems.map WorkOrderPartItem.inventoryItemId

/-- The items an edit plans that the work order it loaded does not. -/
def Edit.newItems (edit : Edit) : List ItemId :=
  edit.changed.plannedItems.filter fun itemId =>
    decide (itemId ∉ edit.loaded.plannedItems)

theorem Edit.mem_newItems {edit : Edit} {itemId : ItemId} :
    itemId ∈ edit.newItems ↔
      itemId ∈ edit.changed.plannedItems ∧ itemId ∉ edit.loaded.plannedItems := by
  rw [Edit.newItems, List.mem_filter, decide_eq_true_eq]

/-- The item a method plans. -/
def WorkOrderOperation.plans : WorkOrderOperation → List ItemId
  | .planPart input => [input.inventoryItemId]
  | _ => []

/-- The item a request plans. -/
def WorkOrderRequest.plans : WorkOrderRequest → List ItemId
  | .plain (.planPart part _) => [part.inventoryItemId]
  | _ => []

/-- The items a new work order is to plan. -/
def CreateCommand.items (command : CreateCommand) : List ItemId :=
  command.parts.map OpeningPart.inventoryItemId

namespace WorkOrder

section Methods

variable {before after : WorkOrder} {done : Unit} {itemId : ItemId}

theorem eraseItem_plannedItems {item : WorkOrderItemId}
    (h : Runs (eraseItem item) before done after)
    (hitem : itemId ∈ after.plannedItems) : itemId ∈ before.plannedItems := by
  simp only [eraseItem, runs_bind, runs_get] at h
  obtain ⟨workOrder, middle, ⟨rfl, rfl⟩, h⟩ := h
  split at h
  · simp at h
    obtain ⟨-, rfl⟩ := h
    exact hitem
  · split at h
    · simp at h
    · simp at h
      obtain ⟨-, rfl⟩ := h
      exact ((List.eraseIdx_sublist _ _).map _).subset hitem

/-- Attaching the parts to a round keeps what they are parts of. -/
theorem generateRound_plannedItems {round : Nat} {total : Money}
    (h : Runs (generateRound round) before total after) :
    after.plannedItems = before.plannedItems := by
  simp [generateRound] at h
  obtain ⟨rfl, -⟩ := h
  simp only [plannedItems, attachParts_items, List.map_map]
  refine List.map_congr_left fun item _ => ?_
  simp only [Function.comp]
  split <;> rfl

theorem changeParts_plannedItems {sign : Int}
    {change : WorkOrderPartItem → Int → Except WorkOrderError WorkOrderPartItem}
    (hmoves : MovesUnits sign change) {resolved : List (WorkOrderPartItem × Int)} :
    ∀ {before : WorkOrder}, Runs (changeParts change resolved) before done after →
      after.plannedItems = before.plannedItems := by
  induction resolved with
  | nil =>
      intro before h
      simp [changeParts] at h
      rw [h]
  | cons entry resolved ih =>
      intro before h
      simp only [changeParts, runs_bind] at h
      obtain ⟨_, middle, hfirst, hrest⟩ := h
      obtain ⟨index, item, changed, hindex, -, hchanged, rfl⟩ := changePart_set hfirst
      refine (ih hrest).trans (map_set_of_getElem? hindex ?_)
      rw [hmoves item entry.2 changed hchanged]

theorem withdrawParts_plannedItems {input : WithdrawPartsInput}
    {lines : List ResolvedBatchLine}
    (h : Runs (withdrawParts input) before lines after) :
    after.plannedItems = before.plannedItems := by
  simp [withdrawParts, recordFact] at h
  obtain ⟨-, -, resolved, -, _, middle, hchange, rfl, -⟩ := h
  have hsame := changeParts_plannedItems withdraw_movesUnits hchange
  exact hsame

theorem returnParts_plannedItems {input : WithdrawPartsInput}
    {lines : List ResolvedBatchLine}
    (h : Runs (returnParts input) before lines after) :
    after.plannedItems = before.plannedItems := by
  simp [returnParts, recordFact] at h
  obtain ⟨-, -, resolved, -, _, middle, hchange, rfl, -⟩ := h
  have hsame := changeParts_plannedItems returnUnits_movesUnits hchange
  exact hsame

end Methods

end WorkOrder

section Requests

variable {before after workOrder : WorkOrder} {itemId : ItemId}
variable {nextId nextId' : Uuid} {now : Timestamp}

open WorkOrder (recordFact recordMove recordStatusChange writeBudget
  recordExecutionStarted eraseItem_plannedItems generateRound_plannedItems
  writeRoundOne_runs budgetToDecide_runs withdrawParts_plannedItems
  returnParts_plannedItems refreshChargedTotal_row) in
/-- A method plans no item but the one it was called for. -/
theorem WorkOrderOperation.mem_plans (operation : WorkOrderOperation)
    (h : Runs operation.run before () after) (hitem : itemId ∈ after.plannedItems) :
    itemId ∈ before.plannedItems ∨ itemId ∈ operation.plans := by
  cases operation with
  | addService input =>
      simp [run, WorkOrder.addService, recordFact] at h
      obtain ⟨-, rfl⟩ := h
      exact Or.inl hitem
  | planPart input =>
      simp [run, WorkOrder.planPart, recordFact] at h
      obtain ⟨-, rfl⟩ := h
      simpa [WorkOrder.plannedItems, plans] using hitem
  | removeItem input =>
      simp [run, WorkOrder.removeItem, recordFact] at h
      obtain ⟨-, _, middle, herase, rfl⟩ := h
      exact Or.inl (eraseItem_plannedItems herase hitem)
  | startDiagnosis input =>
      simp [run, WorkOrder.startDiagnosis, recordMove, recordStatusChange] at h
      obtain ⟨-, rfl⟩ := h
      exact Or.inl hitem
  | completeDiagnosis input =>
      simp [run, WorkOrder.completeDiagnosis, recordMove, recordFact, recordStatusChange] at h
      obtain ⟨-, -, total, middle, hround, _, last, hwrite, rfl⟩ := h
      obtain ⟨budgets, rfl, -⟩ := writeRoundOne_runs hwrite
      rw [← generateRound_plannedItems hround]
      exact Or.inl hitem
  | approveBudget input =>
      simp [run, WorkOrder.approveBudget, writeBudget, recordMove, recordStatusChange] at h
      obtain ⟨index, budget, middle, hfound, decided, -, rfl⟩ := h
      obtain ⟨rfl, -⟩ := budgetToDecide_runs hfound
      exact Or.inl hitem
  | rejectBudget input =>
      simp [run, WorkOrder.rejectBudget, writeBudget, recordMove, recordStatusChange,
        recordExecutionStarted] at h
      obtain ⟨index, budget, middle, hfound, decided, -, state, hstate, rfl⟩ := h
      obtain ⟨rfl, -⟩ := budgetToDecide_runs hfound
      split at hstate <;> subst hstate <;> exact Or.inl hitem
  | submitSupplementaryBudget input =>
      simp [run, WorkOrder.submitSupplementaryBudget, recordFact, recordStatusChange] at h
      obtain ⟨-, -, total, middle, hround, rfl⟩ := h
      rw [← generateRound_plannedItems hround]
      exact Or.inl hitem
  | withdrawParts input =>
      obtain ⟨lines, hruns, -⟩ := runs_map.mp h
      rw [← withdrawParts_plannedItems hruns]
      exact Or.inl hitem
  | returnParts input =>
      obtain ⟨lines, hruns, -⟩ := runs_map.mp h
      rw [← returnParts_plannedItems hruns]
      exact Or.inl hitem
  | assignMechanic input =>
      simp [run, WorkOrder.assignMechanic, recordFact] at h
      obtain ⟨-, rfl⟩ := h
      exact Or.inl hitem
  | applyDiscount input =>
      simp [run, WorkOrder.applyDiscount, recordFact] at h
      obtain ⟨-, _, -, -, _, middle, hrefresh, rfl⟩ := h
      obtain ⟨chargedTotal, rfl⟩ := refreshChargedTotal_row hrefresh
      exact Or.inl hitem
  | complete input =>
      simp [run, WorkOrder.complete, recordMove, recordStatusChange] at h
      obtain ⟨-, _, -, -, _, -, rfl⟩ := h
      exact Or.inl hitem
  | deliver input =>
      simp [run, WorkOrder.deliver, recordMove, recordStatusChange] at h
      obtain ⟨-, rfl⟩ := h
      exact Or.inl hitem
  | cancel input =>
      simp [run, WorkOrder.cancel, recordMove, recordStatusChange] at h
      obtain ⟨-, rfl⟩ := h
      exact Or.inl hitem

theorem WorkOrderRequest.operation_plans (request : WorkOrderRequest) :
    (request.operation nextId now).plans = request.plans := by
  cases request with
  | plain change => cases change <;> rfl
  | _ => rfl

/-- A request plans no item but the one it asks for. -/
theorem newItems_of_prepare {request : WorkOrderRequest} {cancelsInExecution : Bool}
    {edit : Edit}
    (h : (request.prepare workOrder nextId now cancelsInExecution).place.edit =
      some edit) : edit.newItems ⊆ request.plans := by
  intro itemId hitem
  obtain ⟨hchanged, hloaded⟩ := Edit.mem_newItems.mp hitem
  obtain ⟨hsame, hruns⟩ := prepare_edit h
  rw [hsame] at hloaded
  rw [← request.operation_plans ]
  exact ((request.operation nextId now).mem_plans hruns hchanged).resolve_left hloaded

theorem addServices_plannedItems {actorUserId : UserId} {services : List ServiceRef} :
    ∀ {nextId : Uuid} {before : WorkOrder},
      Runs (addServices actorUserId now services nextId) before nextId' after →
      itemId ∈ after.plannedItems → itemId ∈ before.plannedItems := by
  induction services with
  | nil =>
      intro nextId before h hitem
      simp only [addServices, runs_pure] at h
      rwa [← h.2]
  | cons service services ih =>
      intro nextId before h hitem
      simp only [addServices, runs_bind] at h
      obtain ⟨_, middle, hadd, hrest⟩ := h
      exact ((WorkOrderOperation.addService _).mem_plans hadd
        (ih hrest hitem)).resolve_right List.not_mem_nil

theorem planParts_plannedItems {actorUserId : UserId} {parts : List OpeningPart} :
    ∀ {nextId : Uuid} {before : WorkOrder},
      Runs (planParts actorUserId now parts nextId) before nextId' after →
      itemId ∈ after.plannedItems → itemId ∈ before.plannedItems ∨
        itemId ∈ parts.map OpeningPart.inventoryItemId := by
  induction parts with
  | nil =>
      intro nextId before h hitem
      simp only [planParts, runs_pure] at h
      rw [← h.2]
      exact Or.inl hitem
  | cons part parts ih =>
      intro nextId before h hitem
      simp only [planParts, runs_bind] at h
      obtain ⟨_, middle, hplan, hrest⟩ := h
      rw [List.map_cons, List.mem_cons]
      rcases ih hrest hitem with hmiddle | hlater
      · rcases (WorkOrderOperation.planPart _).mem_plans hplan hmiddle with
          hbefore | hnew
        · exact Or.inl hbefore
        · exact Or.inr (Or.inl (List.mem_singleton.mp hnew))
      · exact Or.inr (Or.inr hlater)

/-- A new work order plans no item but those it is created with. -/
theorem CreateCommand.openWith_plannedItems {command : CreateCommand}
    (h : command.openWith nextId now = .ok (nextId', workOrder)) :
    workOrder.plannedItems ⊆ command.items := by
  intro itemId hitem
  simp only [CreateCommand.openWith] at h
  split at h
  · rename_i last opened hruns
    cases h
    obtain ⟨middle, state, hservices, hparts⟩ := runs_bind.mp hruns
    rcases planParts_plannedItems hparts hitem with hstate | hasked
    · exact absurd (addServices_plannedItems hservices hstate) List.not_mem_nil
    · exact hasked
  · cases h

end Requests

end WorkOrders

end Workshop
