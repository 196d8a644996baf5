/-
What the methods of the aggregate keep and what they change: the identity of
the work order and of its children, the rounds its items name, and the units
its parts count as withdrawn.
-/
import Workshop.Library.KeyedSums
import Workshop.Library.Results
import Workshop.Library.Stateful
import Workshop.WorkOrders.WorkOrder

namespace Workshop

namespace WorkOrders

namespace WorkOrder

/-- The units the parts that name an item count as withdrawn. -/
def withdrawnOf (workOrder : WorkOrder) (itemId : ItemId) : Int :=
  sumWhere (fun item => decide (item.inventoryItemId = itemId))
    (fun item => item.withdrawnQuantity) workOrder.partItems

/-- Nothing was withdrawn on a part before it entered a round. -/
def DraftsUntouched (workOrder : WorkOrder) : Prop :=
  ∀ item ∈ workOrder.partItems, item.budgetRound = none →
    item.withdrawnQuantity = 0

/-- Every round an item names has its budget. -/
def RoundsKnown (workOrder : WorkOrder) : Prop :=
  (∀ item ∈ workOrder.serviceItems, ∀ round, item.budgetRound = some round →
      round ∈ workOrder.budgets.map Budget.round) ∧
    ∀ item ∈ workOrder.partItems, ∀ round, item.budgetRound = some round →
      round ∈ workOrder.budgets.map Budget.round

/-- What a method keeps when `fresh` is the one id it may hand out and `moved`
is what it adds to the withdrawn units of each item. -/
structure Evolves (fresh : Uuid) (moved : ItemId → Int)
    (before after : WorkOrder) : Prop where
  id : after.id = before.id
  version : after.version = before.version
  services : (after.serviceItems.map WorkOrderServiceItem.id).Sublist
    (before.serviceItems.map WorkOrderServiceItem.id ++ [fresh])
  parts : (after.partItems.map WorkOrderPartItem.id).Sublist
    (before.partItems.map WorkOrderPartItem.id ++ [fresh])
  budgets : (before.budgets.map Budget.id).Sublist (after.budgets.map Budget.id)
  rounds : (after.budgets.map Budget.id).Sublist
    (before.budgets.map Budget.id ++ [fresh])
  known : before.RoundsKnown → after.RoundsKnown
  drafts : before.DraftsUntouched → after.DraftsUntouched
  withdrawn : before.DraftsUntouched → ∀ itemId,
    after.withdrawnOf itemId = before.withdrawnOf itemId + moved itemId

/-- The work order after an event was recorded. -/
def noting (workOrder : WorkOrder) (event : WorkOrderEvent) : WorkOrder :=
  { workOrder with domainEvents := workOrder.domainEvents ++ [event] }

section Noting

variable (workOrder : WorkOrder) (event : WorkOrderEvent)

@[simp] theorem noting_toWorkOrderRow :
    (workOrder.noting event).toWorkOrderRow = workOrder.toWorkOrderRow := rfl

@[simp] theorem noting_serviceItems :
    (workOrder.noting event).serviceItems = workOrder.serviceItems := rfl

@[simp] theorem noting_partItems :
    (workOrder.noting event).partItems = workOrder.partItems := rfl

@[simp] theorem noting_budgets :
    (workOrder.noting event).budgets = workOrder.budgets := rfl

end Noting

end WorkOrder

section Rules

variable {start last : WorkOrder} {α : Type} {answer : α} {done : Unit}

@[simp] theorem runs_call {result : Except WorkOrderError α} :
    Runs (call result) start answer last ↔ result = .ok answer ∧ last = start := by
  cases result <;> simp [call, eq_comm]

@[simp] theorem runs_refuseIf {condition : Bool} {error : WorkOrderError} :
    Runs (refuseIf condition error) start done last ↔
      condition = false ∧ last = start := by
  cases condition <;> simp [refuseIf]

@[simp] theorem runs_assertStateAllows {allowed : List WorkOrderStatus} :
    Runs (WorkOrder.assertStateAllows allowed) start done last ↔
      start.status ∈ allowed ∧ last = start := by
  simp [WorkOrder.assertStateAllows, and_comm]

@[simp] theorem runs_record {event : WorkOrderEvent} :
    Runs (WorkOrder.record event) start done last ↔ last = start.noting event := by
  simp [WorkOrder.record, WorkOrder.noting]

/-- The first entry that passes the test is where the search says it is. -/
theorem getElem?_of_findAt {p : α → Bool} {l : List α} {index : Nat} {a : α}
    (h : findAt p l = some (index, a)) : l[index]? = some a ∧ p a = true := by
  obtain ⟨⟨found, position⟩, hfound, heq⟩ := Option.map_eq_some_iff.mp h
  obtain ⟨hposition, hvalue⟩ := Prod.mk.inj heq
  subst hposition hvalue
  have hmem : (found, position) ∈ l.zipIdx := List.mem_of_find?_eq_some hfound
  have hpass : p found = true := List.find?_some
    (p := fun entry : α × Nat => p entry.1) hfound
  exact ⟨List.mem_zipIdx_iff_getElem?.mp hmem, hpass⟩

/-- Rewriting one entry in place keeps what the entries are told apart by. -/
theorem map_set_of_getElem? {β : Type} {f : α → β} {l : List α} {index : Nat}
    {a a' : α} (h : l[index]? = some a) (hsame : f a' = f a) :
    (l.set index a').map f = l.map f := by
  rw [List.map_set, hsame]
  refine List.ext_getElem? fun i => ?_
  rw [List.getElem?_set]
  split
  · rename_i heq
    subst heq
    split
    · rw [List.getElem?_map, h, Option.map_some]
    · rename_i hlength
      rw [List.getElem?_eq_none (not_lt.mp hlength)]
  · rfl

end Rules

namespace WorkOrder

/-- A method that moves no stock and neither starts nor ends at a closed
status. -/
structure Plain (fresh : Uuid) (before after : WorkOrder) : Prop where
  evolves : Evolves fresh (fun _ => 0) before after
  open_before : before.status.isClosed = false
  open_after : after.status.isClosed = false

section Methods

variable {before after : WorkOrder} {fresh : Uuid} {done : Unit}

/-- A method that leaves the parts and the rounds of the items alone, and
rewrites budgets in place at most. -/
theorem Evolves.of_children (hid : after.id = before.id)
    (hversion : after.version = before.version)
    (hservices : after.serviceItems = before.serviceItems)
    (hparts : after.partItems = before.partItems)
    (hids : after.budgets.map Budget.id = before.budgets.map Budget.id)
    (hrounds : after.budgets.map Budget.round = before.budgets.map Budget.round) :
    Evolves fresh (fun _ => 0) before after where
  id := hid
  version := hversion
  services := by
    rw [hservices]
    exact List.sublist_append_left _ _
  parts := by
    rw [hparts]
    exact List.sublist_append_left _ _
  budgets := by
    rw [hids]
  rounds := by
    rw [hids]
    exact List.sublist_append_left _ _
  known := fun hknown => by
    rw [RoundsKnown, hservices, hparts, hrounds]
    exact hknown
  drafts := fun hdrafts => by
    rw [DraftsUntouched, hparts]
    exact hdrafts
  withdrawn := fun _ itemId => by
    rw [withdrawnOf, hparts, withdrawnOf, Int.add_zero]

theorem startDiagnosis_plain {input : StartDiagnosisInput}
    (h : Runs (startDiagnosis input) before done after) :
    Plain fresh before after := by
  simp [startDiagnosis, recordMove, recordStatusChange] at h
  obtain ⟨hstatus, rfl⟩ := h
  exact ⟨Evolves.of_children rfl rfl rfl rfl rfl rfl, by rw [hstatus]; rfl, rfl⟩

theorem assignMechanic_plain {input : AssignMechanicInput}
    (h : Runs (assignMechanic input) before done after) :
    Plain fresh before after := by
  simp [assignMechanic, recordFact, mechanicAssignableTerminalStates] at h
  obtain ⟨⟨hdelivered, hcanceled⟩, rfl⟩ := h
  have hopen : before.status.isClosed = false := by
    simp [WorkOrderStatus.isClosed, hdelivered, hcanceled]
  exact ⟨Evolves.of_children rfl rfl rfl rfl rfl rfl, hopen, hopen⟩

theorem refreshChargedTotal_row {preDiscountTotal amount : Money}
    (h : Runs (refreshChargedTotal preDiscountTotal amount) before done after) :
    ∃ chargedTotal, after = { before with chargedTotal } := by
  simp only [refreshChargedTotal, runs_bind, runs_get, runs_ite, runs_call,
    runs_modify, runs_pure] at h
  obtain ⟨workOrder, middle, ⟨rfl, rfl⟩, h⟩ := h
  split at h
  · obtain ⟨total, _, ⟨-, rfl⟩, rfl⟩ := h
    exact ⟨some total, rfl⟩
  · exact ⟨_, h.2⟩

theorem applyDiscount_plain {input : ApplyDiscountInput}
    (h : Runs (applyDiscount input) before done after) :
    Plain fresh before after := by
  simp [applyDiscount, recordFact] at h
  obtain ⟨hstatus, _, -, -, _, middle, hrefresh, rfl⟩ := h
  obtain ⟨chargedTotal, rfl⟩ := refreshChargedTotal_row hrefresh
  have hopen : before.status.isClosed = false := by
    rcases hstatus with hstatus | hstatus <;> rw [hstatus] <;> rfl
  exact ⟨Evolves.of_children rfl rfl rfl rfl rfl rfl, hopen, hopen⟩

theorem complete_plain {input : CloseActionInput}
    (h : Runs (complete input) before done after) : Plain fresh before after := by
  simp [complete, recordMove, recordStatusChange] at h
  obtain ⟨hstatus, _, -, -, _, -, rfl⟩ := h
  exact ⟨Evolves.of_children rfl rfl rfl rfl rfl rfl, by rw [hstatus]; rfl, rfl⟩

variable (fresh) in
/-- A delivery changes the status of a completed work order. -/
theorem deliver_runs {input : CloseActionInput}
    (h : Runs (deliver input) before done after) :
    Evolves fresh (fun _ => 0) before after ∧ before.status = .completed ∧
      after.status = .delivered := by
  simp [deliver, recordMove, recordStatusChange] at h
  obtain ⟨hstatus, rfl⟩ := h
  exact ⟨Evolves.of_children rfl rfl rfl rfl rfl rfl, hstatus, rfl⟩

variable (fresh) in
/-- A cancellation changes the status of an open work order and keeps its
parts. -/
theorem cancel_runs {input : CancelInput}
    (h : Runs (cancel input) before done after) :
    Evolves fresh (fun _ => 0) before after ∧ before.status.isClosed = false ∧
      after.status = .canceled ∧ after.partItems = before.partItems := by
  simp [cancel, recordMove, recordStatusChange] at h
  obtain ⟨hstatus, rfl⟩ := h
  refine ⟨Evolves.of_children rfl rfl rfl rfl rfl rfl, ?_, rfl, rfl⟩
  cases hcase : before.status <;> rw [hcase] at hstatus <;>
    first | rfl | exact absurd hstatus (by decide)

/-- The budget a decision found stands at the index it answers. -/
theorem budgetToDecide_runs {budgetId : Option BudgetId} {found : Nat × Budget}
    (h : Runs (budgetToDecide budgetId) before found after) :
    after = before ∧ before.status = .awaitingApproval ∧
      before.budgets[found.1]? = some found.2 := by
  cases budgetId with
  | none =>
      simp [budgetToDecide, pendingBudget] at h
      obtain ⟨hstatus, h⟩ := h
      split at h
      · rename_i found' hfound
        simp at h
        obtain ⟨rfl, rfl⟩ := h
        exact ⟨rfl, hstatus, (getElem?_of_findAt hfound).1⟩
      · simp at h
  | some budgetId =>
      simp [budgetToDecide, budgetById] at h
      obtain ⟨index, budget, hbudget, -, hstatus, rfl⟩ := h
      split at hbudget
      · rename_i found' hfound
        simp at hbudget
        obtain ⟨rfl, rfl⟩ := hbudget
        exact ⟨rfl, hstatus, (getElem?_of_findAt hfound).1⟩
      · simp at hbudget

theorem decide_ids {budget decided : Budget} {status : BudgetStatus}
    {actorUserId : UserId} {now : Timestamp}
    (h : budget.decide status actorUserId now = .ok decided) :
    decided.id = budget.id ∧ decided.round = budget.round := by
  obtain ⟨_, -, h⟩ := bind_eq_ok_iff.mp h
  rw [pure_eq_ok_iff] at h
  subst h
  exact ⟨rfl, rfl⟩

theorem approveBudget_plain {input : DecideBudgetActionInput}
    (h : Runs (approveBudget input) before done after) :
    Plain fresh before after := by
  simp [approveBudget, writeBudget, recordMove, recordStatusChange] at h
  obtain ⟨index, budget, middle, hfound, decided, hdecided, rfl⟩ := h
  obtain ⟨rfl, hstatus, hindex⟩ := budgetToDecide_runs hfound
  obtain ⟨hid, hround⟩ := decide_ids hdecided
  exact ⟨Evolves.of_children rfl rfl rfl rfl (map_set_of_getElem? hindex hid)
    (map_set_of_getElem? hindex hround), by rw [hstatus]; rfl, rfl⟩

theorem rejectBudget_plain {input : DecideBudgetActionInput}
    (h : Runs (rejectBudget input) before done after) :
    Plain fresh before after := by
  simp [rejectBudget, writeBudget, recordMove, recordStatusChange,
    recordExecutionStarted] at h
  obtain ⟨index, budget, middle, hfound, decided, hdecided, h⟩ := h
  obtain ⟨rfl, hstatus, hindex⟩ := budgetToDecide_runs hfound
  obtain ⟨hid, hround⟩ := decide_ids hdecided
  have hopen : (rejectionDestination decided).isClosed = false := by
    unfold rejectionDestination
    split <;> rfl
  obtain ⟨state, hstate, rfl⟩ := h
  split at hstate <;> subst hstate <;>
    exact ⟨Evolves.of_children rfl rfl rfl rfl (map_set_of_getElem? hindex hid)
      (map_set_of_getElem? hindex hround), by rw [hstatus]; rfl, hopen⟩

theorem isClosed_of_itemEditable (h : before.status ∈ itemEditableStates) :
    before.status.isClosed = false := by
  cases hcase : before.status <;> rw [hcase] at h <;>
    first | rfl | exact absurd h (by decide)

theorem addService_plain {input : AddServiceInput}
    (h : Runs (addService input) before done after) :
    Plain input.itemId before after := by
  simp [addService, recordFact] at h
  obtain ⟨hstatus, rfl⟩ := h
  have hopen := isClosed_of_itemEditable hstatus
  refine ⟨⟨rfl, rfl, ?_, ?_, ?_, ?_, ?_, fun hdrafts => hdrafts,
    fun _ itemId => (Int.add_zero _).symm⟩, hopen, hopen⟩
  · simp
  · exact List.sublist_append_left _ _
  · exact List.Sublist.refl _
  · exact List.sublist_append_left _ _
  · intro hknown
    refine ⟨fun item hitem round hround => ?_, hknown.2⟩
    rcases List.mem_append.mp hitem with hitem | hitem
    · exact hknown.1 item hitem round hround
    · rw [List.mem_singleton.mp hitem] at hround
      cases hround

theorem planPart_plain {input : PlanPartInput}
    (h : Runs (planPart input) before done after) :
    Plain input.itemId before after := by
  simp [planPart, recordFact] at h
  obtain ⟨hstatus, rfl⟩ := h
  have hopen := isClosed_of_itemEditable hstatus
  refine ⟨⟨rfl, rfl, ?_, ?_, ?_, ?_, ?_, ?_, ?_⟩, hopen, hopen⟩
  · exact List.sublist_append_left _ _
  · simp
  · exact List.Sublist.refl _
  · exact List.sublist_append_left _ _
  · intro hknown
    refine ⟨hknown.1, fun item hitem round hround => ?_⟩
    rcases List.mem_append.mp hitem with hitem | hitem
    · exact hknown.2 item hitem round hround
    · rw [List.mem_singleton.mp hitem] at hround
      cases hround
  · intro hdrafts item hitem hround
    rcases List.mem_append.mp hitem with hitem | hitem
    · exact hdrafts item hitem hround
    · rw [List.mem_singleton.mp hitem]
  · intro _ itemId
    simp [withdrawnOf, sumWhere_cons]

variable (fresh) in
/-- An erased item was a draft, so it had nothing withdrawn. -/
theorem eraseItem_evolves {itemId : WorkOrderItemId}
    (h : Runs (eraseItem itemId) before done after) :
    Evolves fresh (fun _ => 0) before after ∧ after.status = before.status := by
  simp only [eraseItem, runs_bind, runs_get] at h
  obtain ⟨workOrder, middle, ⟨rfl, rfl⟩, h⟩ := h
  split at h
  · rename_i index item hfound
    simp at h
    obtain ⟨-, rfl⟩ := h
    refine ⟨⟨rfl, rfl, ?_, ?_, ?_, ?_, ?_, fun hdrafts => hdrafts,
      fun _ itemId => (Int.add_zero _).symm⟩, rfl⟩
    · exact ((List.eraseIdx_sublist _ _).map _).trans
        (List.sublist_append_left _ _)
    · exact List.sublist_append_left _ _
    · exact List.Sublist.refl _
    · exact List.sublist_append_left _ _
    · intro hknown
      exact ⟨fun item hitem => hknown.1 item (List.mem_of_mem_eraseIdx hitem),
        hknown.2⟩
  · split at h
    · simp at h
    · rename_i index item hfound
      simp at h
      obtain ⟨hdraft, rfl⟩ := h
      refine ⟨⟨rfl, rfl, ?_, ?_, ?_, ?_, ?_, ?_, ?_⟩, rfl⟩
      · exact List.sublist_append_left _ _
      · exact ((List.eraseIdx_sublist _ _).map _).trans
          (List.sublist_append_left _ _)
      · exact List.Sublist.refl _
      · exact List.sublist_append_left _ _
      · intro hknown
        exact ⟨hknown.1,
          fun item hitem => hknown.2 item (List.mem_of_mem_eraseIdx hitem)⟩
      · intro hdrafts item hitem
        exact hdrafts item (List.mem_of_mem_eraseIdx hitem)
      · intro hdrafts itemId
        have hindex := (getElem?_of_findAt hfound).1
        have hzero := hdrafts item (List.mem_of_getElem? hindex)
          (by simpa [WorkOrderPartItem.isDraft] using hdraft)
        simp only [withdrawnOf]
        rw [sumWhere_eraseIdx hindex, hzero, ite_self, sub_zero, add_zero]

theorem removeItem_plain {input : RemoveItemInput}
    (h : Runs (removeItem input) before done after) :
    Plain fresh before after := by
  simp [removeItem, recordFact] at h
  obtain ⟨hstatus, _, middle, herase, rfl⟩ := h
  obtain ⟨hevolves, hsame⟩ := eraseItem_evolves fresh herase
  have hopen := isClosed_of_itemEditable hstatus
  refine ⟨⟨hevolves.id, hevolves.version, hevolves.services, hevolves.parts,
    hevolves.budgets, hevolves.rounds, hevolves.known, hevolves.drafts,
    hevolves.withdrawn⟩, hopen, ?_⟩
  rw [← hsame] at hopen
  exact hopen

end Methods

section Rounds

variable {before after : WorkOrder} {fresh : Uuid} {done : Unit} {round : Nat}

/-- The service loop attaches the eligible services where they stand. -/
theorem attachServices_items (items : List WorkOrderServiceItem) :
    ∀ total, (attachServices round items total).1 = items.map fun item =>
      if item.isDraft || decide (item.budgetRound = some round)
      then item.attachToBudget round else item := by
  induction items with
  | nil => exact fun _ => rfl
  | cons item items ih =>
      intro total
      simp only [attachServices, List.map_cons]
      split
      · rw [ih]
      · rw [ih]

/-- The part loop attaches the eligible parts where they stand. -/
theorem attachParts_items (items : List WorkOrderPartItem) :
    ∀ total, (attachParts round items total).1 = items.map fun item =>
      if item.isDraft || decide (item.budgetRound = some round)
      then item.attachToBudget round else item := by
  induction items with
  | nil => exact fun _ => rfl
  | cons item items ih =>
      intro total
      simp only [attachParts, List.map_cons]
      split
      · rw [ih]
      · rw [ih]

/-- Attaching items to a round leaves every item where it was, under its id
and with what was withdrawn on it; the rounds its items name grow by that one
at most. -/
structure Attaches (round : Nat) (before after : WorkOrder) : Prop where
  services : after.serviceItems.map WorkOrderServiceItem.id =
    before.serviceItems.map WorkOrderServiceItem.id
  parts : after.partItems.map WorkOrderPartItem.id =
    before.partItems.map WorkOrderPartItem.id
  serviceRounds : ∀ item ∈ after.serviceItems, ∀ named,
    item.budgetRound = some named → named = round ∨
      ∃ old ∈ before.serviceItems, old.budgetRound = some named
  partRounds : ∀ item ∈ after.partItems, ∀ named,
    item.budgetRound = some named → named = round ∨
      ∃ old ∈ before.partItems, old.budgetRound = some named
  drafts : before.DraftsUntouched → after.DraftsUntouched
  withdrawn : ∀ itemId, after.withdrawnOf itemId = before.withdrawnOf itemId

theorem generateRound_runs {total : Money}
    (h : Runs (generateRound round) before total after) :
    Attaches round before after ∧ after.toWorkOrderRow = before.toWorkOrderRow ∧
      after.budgets = before.budgets := by
  simp [generateRound] at h
  obtain ⟨rfl, -⟩ := h
  refine ⟨⟨?_, ?_, ?_, ?_, ?_, ?_⟩, rfl, rfl⟩
  · simp only [attachServices_items, List.map_map]
    refine List.map_congr_left fun item _ => ?_
    simp only [Function.comp]
    split <;> rfl
  · simp only [attachParts_items, List.map_map]
    refine List.map_congr_left fun item _ => ?_
    simp only [Function.comp]
    split <;> rfl
  · intro item hitem named hnamed
    simp only [attachServices_items] at hitem
    obtain ⟨old, hold, rfl⟩ := List.mem_map.mp hitem
    split at hnamed
    · exact Or.inl (Option.some.inj hnamed).symm
    · exact Or.inr ⟨old, hold, hnamed⟩
  · intro item hitem named hnamed
    simp only [attachParts_items] at hitem
    obtain ⟨old, hold, rfl⟩ := List.mem_map.mp hitem
    split at hnamed
    · exact Or.inl (Option.some.inj hnamed).symm
    · exact Or.inr ⟨old, hold, hnamed⟩
  · intro hdrafts item hitem hround
    simp only [attachParts_items] at hitem
    obtain ⟨old, hold, rfl⟩ := List.mem_map.mp hitem
    split at hround
    · cases hround
    · rename_i hkept
      rw [if_neg hkept]
      exact hdrafts old hold hround
  · intro itemId
    simp only [withdrawnOf, attachParts_items]
    rw [sumWhere_map]
    refine sumWhere_congr (fun item _ => ?_) fun item _ _ => ?_
    · simp only [Function.comp]
      split <;> rfl
    · simp only [Function.comp]
      split <;> rfl

theorem regenerate_ids {budget regenerated : Budget} {total : Money}
    {now : Timestamp} (h : budget.regenerate total now = .ok regenerated) :
    regenerated.id = budget.id ∧ regenerated.round = budget.round := by
  obtain ⟨_, -, h⟩ := bind_eq_ok_iff.mp h
  rw [pure_eq_ok_iff] at h
  subst h
  exact ⟨rfl, rfl⟩

/-- Round one is rewritten in place, or is new and goes to the end. -/
theorem writeRoundOne_runs {budgetId : BudgetId} {total : Money} {now : Timestamp}
    (h : Runs (writeRoundOne budgetId total now) before done after) :
    ∃ budgets, after = { before with budgets } ∧
      (before.budgets.map Budget.id).Sublist (budgets.map Budget.id) ∧
      (budgets.map Budget.id).Sublist (before.budgets.map Budget.id ++ [budgetId]) ∧
      before.budgets.map Budget.round ⊆ budgets.map Budget.round ∧
      1 ∈ budgets.map Budget.round := by
  simp only [writeRoundOne, runs_bind, runs_get] at h
  obtain ⟨workOrder, middle, ⟨rfl, rfl⟩, h⟩ := h
  split at h
  · rename_i index existing hfound
    simp at h
    obtain ⟨budget, hbudget, rfl⟩ := h
    obtain ⟨hindex, hround⟩ := getElem?_of_findAt hfound
    obtain ⟨hid, hsame⟩ := regenerate_ids hbudget
    refine ⟨_, rfl, ?_, ?_, ?_, ?_⟩
    · rw [map_set_of_getElem? hindex hid]
    · rw [map_set_of_getElem? hindex hid]
      exact List.sublist_append_left _ _
    · rw [map_set_of_getElem? hindex hsame]
      exact List.Subset.refl _
    · rw [map_set_of_getElem? hindex hsame]
      exact List.mem_map.mpr ⟨existing, List.mem_of_getElem? hindex,
        of_decide_eq_true hround⟩
  · simp at h
    subst h
    refine ⟨_, rfl, ?_, ?_, ?_, ?_⟩ <;> simp [Budget.generate]

/-- Attaching items to a round whose budget stands afterwards. -/
theorem Attaches.evolves {middle : WorkOrder} (hattaches : Attaches round before middle)
    (hid : after.id = before.id) (hversion : after.version = before.version)
    (hservices : after.serviceItems = middle.serviceItems)
    (hparts : after.partItems = middle.partItems)
    (hbudgets : (before.budgets.map Budget.id).Sublist
      (after.budgets.map Budget.id))
    (hfresh : (after.budgets.map Budget.id).Sublist
      (before.budgets.map Budget.id ++ [fresh]))
    (hrounds : before.budgets.map Budget.round ⊆ after.budgets.map Budget.round)
    (hround : round ∈ after.budgets.map Budget.round) :
    Evolves fresh (fun _ => 0) before after where
  id := hid
  version := hversion
  services := by
    rw [hservices, hattaches.services]
    exact List.sublist_append_left _ _
  parts := by
    rw [hparts, hattaches.parts]
    exact List.sublist_append_left _ _
  budgets := hbudgets
  rounds := hfresh
  known := fun hknown => by
    rw [RoundsKnown, hservices, hparts]
    constructor
    · intro item hitem named hnamed
      rcases hattaches.serviceRounds item hitem named hnamed with
        rfl | ⟨old, hold, hnamed⟩
      · exact hround
      · exact hrounds (hknown.1 old hold named hnamed)
    · intro item hitem named hnamed
      rcases hattaches.partRounds item hitem named hnamed with
        rfl | ⟨old, hold, hnamed⟩
      · exact hround
      · exact hrounds (hknown.2 old hold named hnamed)
  drafts := fun hdrafts => by
    rw [DraftsUntouched, hparts]
    exact hattaches.drafts hdrafts
  withdrawn := fun _ itemId => by
    rw [withdrawnOf, hparts, Int.add_zero]
    exact hattaches.withdrawn itemId

theorem completeDiagnosis_plain {input : GenerateBudgetInput}
    (h : Runs (completeDiagnosis input) before done after) :
    Plain input.budgetId before after := by
  simp [completeDiagnosis, recordMove, recordFact, recordStatusChange] at h
  obtain ⟨hstatus, -, total, middle, hround, _, last, hwrite, rfl⟩ := h
  obtain ⟨hattaches, hrow, hbudgets⟩ := generateRound_runs hround
  obtain ⟨budgets, rfl, hkept, hfresh, hrounds, hone⟩ := writeRoundOne_runs hwrite
  rw [hbudgets] at hkept hfresh hrounds
  have hid : middle.id = before.id := congrArg WorkOrderRow.id hrow
  have hversion : middle.version = before.version :=
    congrArg WorkOrderRow.version hrow
  exact ⟨hattaches.evolves hid hversion rfl rfl hkept hfresh hrounds hone,
    by rw [hstatus]; rfl, rfl⟩

theorem submitSupplementaryBudget_plain {input : GenerateBudgetInput}
    (h : Runs (submitSupplementaryBudget input) before done after) :
    Plain input.budgetId before after := by
  simp [submitSupplementaryBudget, recordFact, recordStatusChange] at h
  obtain ⟨hstatus, -, total, middle, hround, rfl⟩ := h
  obtain ⟨hattaches, hrow, hbudgets⟩ := generateRound_runs hround
  have hid : middle.id = before.id := congrArg WorkOrderRow.id hrow
  have hversion : middle.version = before.version :=
    congrArg WorkOrderRow.version hrow
  refine ⟨hattaches.evolves hid hversion rfl rfl ?_ ?_ ?_ ?_,
    by rw [hstatus]; rfl, rfl⟩ <;> simp [hbudgets, Budget.generate]

end Rounds

section Batches

variable {before after : WorkOrder} {fresh : Uuid} {done : Unit}
variable {change : WorkOrderPartItem → Int → Except WorkOrderError WorkOrderPartItem}
variable {sign : Int} {resolved : List (WorkOrderPartItem × Int)}

/-- A part without its withdrawn units. -/
def unmoved (item : WorkOrderPartItem) : WorkOrderPartItem :=
  { item with withdrawnQuantity := 0 }

/-- The search that answers an index finds the entry that the plain search
finds. -/
theorem find?_of_findAt {α : Type} {p : α → Bool} {l : List α} {index : Nat}
    {a : α} (h : findAt p l = some (index, a)) : l.find? p = some a := by
  obtain ⟨found, hfound, heq⟩ := Option.map_eq_some_iff.mp h
  obtain ⟨-, rfl⟩ := Prod.mk.inj heq
  have hmap : (l.zipIdx.map Prod.fst).find? p = some found.1 := by
    rw [List.find?_map]
    exact Option.map_eq_some_iff.mpr ⟨found, hfound, rfl⟩
  rwa [List.zipIdx_map_fst] at hmap

/-- A method of a part that moves its withdrawn units one way. -/
def MovesUnits (sign : Int)
    (change : WorkOrderPartItem → Int → Except WorkOrderError WorkOrderPartItem) :
    Prop :=
  ∀ item quantity changed, change item quantity = .ok changed →
    changed = { item with
      withdrawnQuantity := item.withdrawnQuantity + sign * quantity }

theorem withdraw_movesUnits : MovesUnits 1 WorkOrderPartItem.withdraw := by
  intro item quantity changed h
  simp only [WorkOrderPartItem.withdraw] at h
  split at h
  · cases h
  · cases h
    rw [one_mul]

theorem returnUnits_movesUnits : MovesUnits (-1) WorkOrderPartItem.returnUnits := by
  intro item quantity changed h
  simp only [WorkOrderPartItem.returnUnits] at h
  split at h
  · cases h
  · cases h
    rw [Int.neg_one_mul, sub_eq_add_neg]

/-- The part every resolved line names stands in the work order, whatever was
withdrawn on it since. -/
def Resolves (workOrder : WorkOrder) (resolved : List (WorkOrderPartItem × Int)) :
    Prop :=
  ∀ entry ∈ resolved, (workOrder.partItems.find? fun item =>
    item.id = entry.1.id).map unmoved = some (unmoved entry.1)

/-- Whether a part can be found, and what it is apart from its withdrawn
units, depends on nothing else. -/
theorem find?_unmoved {items items' : List WorkOrderPartItem}
    (hsame : items.map unmoved = items'.map unmoved) (itemId : WorkOrderItemId) :
    (items.find? fun item => item.id = itemId).map unmoved =
      (items'.find? fun item => item.id = itemId).map unmoved := by
  have hfind : ∀ items : List WorkOrderPartItem,
      (items.find? fun item => item.id = itemId).map unmoved =
        (items.map unmoved).find? fun item => item.id = itemId := fun items => by
    rw [List.find?_map]
    rfl
  rw [hfind, hfind, hsame]

/-- A draft a change can apply to keeps nothing withdrawn. -/
def KeepsDrafts
    (change : WorkOrderPartItem → Int → Except WorkOrderError WorkOrderPartItem)
    (resolved : List (WorkOrderPartItem × Int)) : Prop :=
  ∀ entry ∈ resolved, ∀ item changed, unmoved item = unmoved entry.1 →
    item.budgetRound = none → item.withdrawnQuantity = 0 →
    change item entry.2 = .ok changed → changed.withdrawnQuantity = 0

/-- One line rewrites the part it names where it stands. -/
theorem changePart_set {itemId : WorkOrderItemId}
    {method : WorkOrderPartItem → Except WorkOrderError WorkOrderPartItem}
    (h : Runs (changePart itemId method) before done after) :
    ∃ index item changed, before.partItems[index]? = some item ∧
      (before.partItems.find? fun other => other.id = itemId) = some item ∧
      method item = .ok changed ∧
      after = { before with partItems := before.partItems.set index changed } := by
  simp only [changePart, runs_bind, runs_get] at h
  obtain ⟨workOrder, middle, ⟨rfl, rfl⟩, h⟩ := h
  split at h
  · simp at h
  · rename_i index item hfound
    simp at h
    obtain ⟨changed, hchanged, rfl⟩ := h
    exact ⟨index, item, changed, (getElem?_of_findAt hfound).1, find?_of_findAt hfound,
      hchanged, rfl⟩

/-- One line changes the withdrawn units of the part it names. -/
theorem changePart_runs (hmoves : MovesUnits sign change)
    {entry : WorkOrderPartItem × Int} (hresolves : Resolves before [entry])
    (hkeeps : KeepsDrafts change [entry])
    (h : Runs (changePart entry.1.id fun item => change item entry.2)
      before done after) :
    ∃ items, after = { before with partItems := items } ∧
      items.map unmoved = before.partItems.map unmoved ∧
      (before.DraftsUntouched → after.DraftsUntouched) ∧
      ∀ itemId, after.withdrawnOf itemId = before.withdrawnOf itemId +
        if entry.1.inventoryItemId = itemId then sign * entry.2 else 0 := by
  obtain ⟨index, item, changed, hindex, hfound, hchanged, rfl⟩ := changePart_set h
  have hchange := hmoves item entry.2 changed hchanged
  have hsame : unmoved changed = unmoved item := by rw [hchange]; rfl
  have hentry : unmoved item = unmoved entry.1 := by
    have hfind := hresolves entry List.mem_cons_self
    rw [hfound, Option.map_some, Option.some.injEq] at hfind
    exact hfind
  refine ⟨_, rfl, map_set_of_getElem? hindex hsame, ?_, fun itemId => ?_⟩
  · intro hdrafts other hother hround
    rcases List.mem_or_eq_of_mem_set hother with hother | rfl
    · exact hdrafts other hother hround
    · have hdraft : item.budgetRound = none := by
        rw [hchange] at hround
        exact hround
      exact hkeeps entry List.mem_cons_self item other hentry hdraft
        (hdrafts item (List.mem_of_getElem? hindex) hdraft) hchanged
  · have hname := congrArg WorkOrderPartItem.inventoryItemId hentry
    change item.inventoryItemId = entry.1.inventoryItemId at hname
    simp only [withdrawnOf]
    rw [sumWhere_set hindex, hchange, ← hname]
    by_cases hitem : item.inventoryItemId = itemId
    · simp only [hitem, decide_true, if_true]
      omega
    · simp [hitem]

/-- What the resolved lines ask of one item. -/
def resolvedOf (itemId : ItemId) (resolved : List (WorkOrderPartItem × Int)) :
    Int :=
  sumWhere (fun entry => decide (entry.1.inventoryItemId = itemId))
    (fun entry => entry.2) resolved

theorem changeParts_runs (hmoves : MovesUnits sign change) :
    ∀ {before : WorkOrder}, Resolves before resolved →
      KeepsDrafts change resolved →
      Runs (changeParts change resolved) before done after →
      ∃ items, after = { before with partItems := items } ∧
        items.map unmoved = before.partItems.map unmoved ∧
        (before.DraftsUntouched → after.DraftsUntouched) ∧
        ∀ itemId, after.withdrawnOf itemId =
          before.withdrawnOf itemId + sign * resolvedOf itemId resolved := by
  induction resolved with
  | nil =>
      intro before _ _ h
      simp [changeParts] at h
      subst h
      refine ⟨after.partItems, rfl, rfl, fun hdrafts => hdrafts, fun itemId => ?_⟩
      simp [resolvedOf]
  | cons entry resolved ih =>
      intro before hresolves hkeeps h
      simp only [changeParts, runs_bind] at h
      obtain ⟨_, middle, hfirst, hrest⟩ := h
      obtain ⟨items, rfl, hsame, hdrafts, hwithdrawn⟩ := changePart_runs hmoves
        (fun other hother => hresolves other (List.mem_cons.mpr
          (Or.inl (List.mem_singleton.mp hother))))
        (fun other hother => hkeeps other (List.mem_cons.mpr
          (Or.inl (List.mem_singleton.mp hother)))) hfirst
      obtain ⟨items', rfl, hsame', hdrafts', hwithdrawn'⟩ := ih
        (fun other hother => (find?_unmoved hsame _).trans
          (hresolves other (List.mem_cons_of_mem _ hother)))
        (fun other hother => hkeeps other (List.mem_cons_of_mem _ hother)) hrest
      refine ⟨items', rfl, hsame'.trans hsame,
        fun hbefore => hdrafts' (hdrafts hbefore), fun itemId => ?_⟩
      rw [hwithdrawn', hwithdrawn, resolvedOf, resolvedOf, sumWhere_cons]
      by_cases hitem : entry.1.inventoryItemId = itemId
      · simp only [hitem, decide_true, if_true]
        rw [Int.mul_add, add_assoc]
      · simp [hitem]

/-- Resolved lines name parts of the work order, each with the quantity of its
line and past the check. -/
theorem resolveLines_ok {lines : List BatchLine}
    {check : WorkOrderPartItem → Int → Except WorkOrderError Unit}
    (h : before.resolveLines check lines = .ok resolved) :
    Resolves before resolved ∧
      List.Forall₂ (fun line entry => entry.2 = line.quantity ∧
        check entry.1 entry.2 = .ok ()) lines resolved := by
  have hlines : List.Forall₂ (fun (line : BatchLine) entry =>
      (before.partItems.find? fun item => item.id = entry.1.id).map unmoved =
          some (unmoved entry.1) ∧
        entry.2 = line.quantity ∧ check entry.1 entry.2 = .ok ()) lines resolved := by
    refine (forall₂_of_mapM_eq_ok h).imp fun line entry hline => ?_
    split at hline
    · cases hline
    · rename_i item hfind
      obtain ⟨_, hcheck, hline⟩ := bind_eq_ok_iff.mp hline
      rw [pure_eq_ok_iff] at hline
      subst hline
      have hid : item.id = line.itemId := by simpa using List.find?_some hfind
      exact ⟨by rw [hid, hfind]; rfl, rfl, hcheck⟩
  constructor
  · intro entry hmem
    obtain ⟨line, -, hline⟩ := exists_left_of_forall₂ hlines hmem
    exact hline.1
  · exact hlines.imp fun line entry hline => hline.2

/-- The units inventory is asked to move of one item. -/
def requestedOf (itemId : ItemId) (lines : List ResolvedBatchLine) : Int :=
  sumWhere (fun line => decide (line.inventoryItemId = itemId))
    (fun line => line.quantity) lines

theorem requestedOf_toResolvedBatchLines (itemId : ItemId) :
    requestedOf itemId (toResolvedBatchLines resolved) =
      resolvedOf itemId resolved := by
  rw [requestedOf, toResolvedBatchLines, sumWhere_map]
  rfl

variable (after fresh) in
/-- A batch that resolved, moved every part and recorded its fact. -/
theorem evolves_of_changeParts {middle : WorkOrder}
    (hmoves : MovesUnits sign change) (hresolves : Resolves before resolved)
    (hkeeps : KeepsDrafts change resolved)
    (hchange : Runs (changeParts change resolved) before done middle)
    (hrow : after.id = middle.id ∧ after.version = middle.version ∧
      after.status = middle.status)
    (hservices : after.serviceItems = middle.serviceItems)
    (hparts : after.partItems = middle.partItems)
    (hbudgets : after.budgets = middle.budgets) :
    Evolves fresh (fun itemId => sign * resolvedOf itemId resolved)
      before after ∧ after.status = before.status := by
  obtain ⟨items, rfl, hsame, hdrafts, hwithdrawn⟩ :=
    changeParts_runs hmoves hresolves hkeeps hchange
  have hrounds : items.map WorkOrderPartItem.budgetRound =
      before.partItems.map WorkOrderPartItem.budgetRound := by
    have hmap := congrArg (List.map WorkOrderPartItem.budgetRound) hsame
    simpa [Function.comp_def, unmoved] using hmap
  have hids : items.map WorkOrderPartItem.id =
      before.partItems.map WorkOrderPartItem.id := by
    have hmap := congrArg (List.map WorkOrderPartItem.id) hsame
    simpa [Function.comp_def, unmoved] using hmap
  refine ⟨⟨hrow.1, hrow.2.1, ?_, ?_, ?_, ?_, ?_, ?_, ?_⟩, hrow.2.2⟩
  · rw [hservices]
    exact List.sublist_append_left _ _
  · rw [hparts, hids]
    exact List.sublist_append_left _ _
  · rw [hbudgets]
  · rw [hbudgets]
    exact List.sublist_append_left _ _
  · intro hknown
    rw [RoundsKnown, hservices, hparts, hbudgets]
    refine ⟨hknown.1, fun item hitem round hround => ?_⟩
    have hmem : item.budgetRound ∈ items.map WorkOrderPartItem.budgetRound :=
      List.mem_map_of_mem hitem
    rw [hrounds] at hmem
    obtain ⟨old, hold, hsameRound⟩ := List.mem_map.mp hmem
    exact hknown.2 old hold round (hsameRound.trans hround)
  · intro hbefore
    rw [DraftsUntouched, hparts]
    exact hdrafts hbefore
  · intro _ itemId
    rw [withdrawnOf, hparts]
    exact hwithdrawn itemId

/-- Each resolved line asks for what its line asks for. -/
theorem toResolvedBatchLines_positive {lines : List BatchLine}
    {check : WorkOrderPartItem → Int → Except WorkOrderError Unit}
    (hpositive : ∀ line ∈ lines, 0 < line.quantity)
    (hlines : List.Forall₂ (fun line entry => entry.2 = line.quantity ∧
      check entry.1 entry.2 = .ok ()) lines resolved) :
    (∀ line ∈ toResolvedBatchLines resolved, 0 < line.quantity) ∧
      (toResolvedBatchLines resolved).length = lines.length := by
  constructor
  · intro line hline
    obtain ⟨entry, hentry, rfl⟩ := List.mem_map.mp hline
    obtain ⟨asked, hasked, hquantity, -⟩ := exists_left_of_forall₂ hlines hentry
    change 0 < entry.2
    rw [hquantity]
    exact hpositive asked hasked
  · rw [toResolvedBatchLines, List.length_map, hlines.length_eq]

variable (fresh) in
/-- A withdrawal adds what it asks inventory for. -/
theorem withdrawParts_runs {input : WithdrawPartsInput}
    {lines : List ResolvedBatchLine}
    (hpositive : ∀ line ∈ input.lines, 0 < line.quantity)
    (h : Runs (withdrawParts input) before lines after) :
    Evolves fresh (fun itemId => requestedOf itemId lines) before after ∧
      before.status = .inExecution ∧ after.status = .inExecution ∧
      (∀ line ∈ lines, 0 < line.quantity) ∧ lines.length = input.lines.length := by
  simp [withdrawParts, recordFact] at h
  obtain ⟨hstatus, -, resolved, hresolved, _, middle, hchange, hafter, rfl⟩ := h
  obtain ⟨hresolves, hlines⟩ := resolveLines_ok hresolved
  have hkeeps : KeepsDrafts WorkOrderPartItem.withdraw resolved := by
    intro entry hentry item changed hsame hdraft
    obtain ⟨line, -, -, hcheck⟩ := exists_left_of_forall₂ hlines hentry
    have hround := congrArg WorkOrderPartItem.budgetRound hsame
    change item.budgetRound = entry.1.budgetRound at hround
    simp only [assertWithdrawable, ← hround, hdraft] at hcheck
    cases hcheck
  obtain ⟨hevolves, hsame⟩ := evolves_of_changeParts after fresh
    withdraw_movesUnits hresolves hkeeps hchange
    (by simp [hafter]) (by simp [hafter]) (by simp [hafter]) (by simp [hafter])
  refine ⟨?_, hstatus, hsame.trans hstatus,
    toResolvedBatchLines_positive hpositive hlines⟩
  simpa only [requestedOf_toResolvedBatchLines, Int.one_mul] using hevolves

variable (fresh) in
/-- A return takes back what it asks inventory for. -/
theorem returnParts_runs {input : WithdrawPartsInput}
    {lines : List ResolvedBatchLine}
    (hpositive : ∀ line ∈ input.lines, 0 < line.quantity)
    (h : Runs (returnParts input) before lines after) :
    Evolves fresh (fun itemId => -requestedOf itemId lines) before after ∧
      before.status = .inExecution ∧ after.status = .inExecution ∧
      (∀ line ∈ lines, 0 < line.quantity) ∧ lines.length = input.lines.length := by
  simp [returnParts, recordFact] at h
  obtain ⟨hstatus, -, resolved, hresolved, _, middle, hchange, hafter, rfl⟩ := h
  obtain ⟨hresolves, hlines⟩ := resolveLines_ok hresolved
  have hkeeps : KeepsDrafts WorkOrderPartItem.returnUnits resolved := by
    intro entry hentry item changed _ _ hzero hreturn
    obtain ⟨line, hline, hquantity, -⟩ := exists_left_of_forall₂ hlines hentry
    have hasked := hpositive line hline
    simp only [WorkOrderPartItem.returnUnits, hzero, hquantity] at hreturn
    rw [if_pos (by omega)] at hreturn
    cases hreturn
  obtain ⟨hevolves, hsame⟩ := evolves_of_changeParts after fresh
    returnUnits_movesUnits hresolves hkeeps hchange
    (by simp [hafter]) (by simp [hafter]) (by simp [hafter]) (by simp [hafter])
  refine ⟨?_, hstatus, hsame.trans hstatus,
    toResolvedBatchLines_positive hpositive hlines⟩
  simpa only [requestedOf_toResolvedBatchLines, Int.neg_one_mul] using hevolves

end Batches

end WorkOrder

end WorkOrders

end Workshop
