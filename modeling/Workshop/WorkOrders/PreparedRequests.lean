/-
What holds of a request once its work in memory is done, whatever it loaded:
the step it records says what it made of the work order.
-/
import Workshop.WorkOrders.Requests
import Workshop.WorkOrders.WorkOrderMethods

namespace Workshop

namespace WorkOrders

open Inventory (StockLine)

/-- The units some lines ask of one item. -/
def unitsOf (itemId : ItemId) (lines : List StockLine) : Int :=
  sumWhere (fun line => decide (line.inventoryItemId = itemId))
    (fun line => line.quantity) lines

theorem unitsOf_cons (itemId : ItemId) (line : StockLine) (lines : List StockLine) :
    unitsOf itemId (line :: lines) =
      (if line.inventoryItemId = itemId then line.quantity else 0) +
        unitsOf itemId lines := by
  simp [unitsOf, sumWhere_cons]

/-- The lines of a step. -/
def StockStep.lineList (step : StockStep) : List StockLine := step.lines.getD []

/-- The ids of the children of a work order. -/
def WorkOrder.childIds (workOrder : WorkOrder) : List Uuid :=
  workOrder.serviceItems.map WorkOrderServiceItem.id ++
    workOrder.partItems.map WorkOrderPartItem.id ++
    workOrder.budgets.map Budget.id

/-- An edit made with the id `fresh`, drawn after the children it loaded were
named. -/
structure Edit.Follows (edit : Edit) (fresh : Uuid) (moved : ItemId → Int) :
    Prop where
  below : ∀ id ∈ edit.loaded.childIds, id < fresh
  evolves : WorkOrder.Evolves fresh moved edit.loaded edit.changed

/-- What the step of a save takes back from the withdrawn units. -/
def takenBack (step : Option StockStep) (itemId : ItemId) : Int :=
  match step with
  | none => 0
  | some step =>
      if step.kind = .restore then unitsOf itemId step.lineList else 0

/-- A step that is about to be saved with the edit it belongs to. -/
structure StepSound (edit : Edit) (step : StockStep) : Prop where
  owner : step.workOrderId = edit.changed.id
  kind : step.kind = .restore ∨ step.kind = .settle ∨ step.kind = .writeOff
  positive : ∀ line ∈ step.lineList, 0 < line.quantity
  notEmpty : step.kind = .restore → step.lineList ≠ []
  delivered : step.kind = .settle ↔ edit.changed.status = .delivered
  canceled : step.kind = .writeOff ↔ edit.changed.status = .canceled
  sameParts : step.kind = .writeOff →
    edit.changed.partItems = edit.loaded.partItems

/-- An edit that is about to be saved, with the step it records. -/
structure SaveSound (bound : Uuid) (edit : Edit) (step : Option StockStep) :
    Prop where
  follows : ∃ fresh < bound,
    edit.Follows fresh fun itemId => -takenBack step itemId
  open_before : edit.loaded.status.isClosed = false
  plain : step = none → edit.changed.status.isClosed = false
  step : ∀ recorded, step = some recorded → StepSound edit recorded

/-- A withdrawal that the aggregate accepted. -/
structure WithdrawalSound (bound : Uuid) (withdrawal : Withdrawal) : Prop where
  undoKind : withdrawal.undo.kind = .undoConsumption
  confirmKind : withdrawal.confirmation.kind = .confirmConsumption
  carries : withdrawal.confirmation.consumptionOperationId =
    some withdrawal.undo.operationId
  distinct : withdrawal.undo.operationId ≠ withdrawal.confirmation.operationId
  undoOwner : withdrawal.undo.workOrderId = withdrawal.edit.changed.id
  confirmOwner : withdrawal.confirmation.workOrderId = withdrawal.edit.changed.id
  positive : ∀ line ∈ withdrawal.lines, 0 < line.quantity
  follows : ∃ fresh < bound,
    withdrawal.edit.Follows fresh fun itemId => unitsOf itemId withdrawal.lines
  inExecution : withdrawal.edit.loaded.status = .inExecution
  stillInExecution : withdrawal.edit.changed.status = .inExecution

theorem SaveSound.mono {bound bound' : Uuid} {edit : Edit} {step : Option StockStep}
    (h : SaveSound bound edit step) (hle : bound ≤ bound') :
    SaveSound bound' edit step := by
  obtain ⟨fresh, hfresh, hfollows⟩ := h.follows
  exact ⟨⟨fresh, hfresh.trans_le hle, hfollows⟩, h.open_before, h.plain, h.step⟩

theorem WithdrawalSound.mono {bound bound' : Uuid} {withdrawal : Withdrawal}
    (h : WithdrawalSound bound withdrawal) (hle : bound ≤ bound') :
    WithdrawalSound bound' withdrawal := by
  obtain ⟨fresh, hfresh, hfollows⟩ := h.follows
  exact { h with follows := ⟨fresh, hfresh.trans_le hle, hfollows⟩ }

section Preparing

variable {workOrder : WorkOrder} {nextId : Uuid} {now : Timestamp}

theorem toInput_positive (command : BatchCommand) :
    ∀ line ∈ (command.toInput now).lines, 0 < line.quantity := by
  intro line hline
  obtain ⟨dto, -, rfl⟩ := List.mem_map.mp hline
  exact dto.positive

theorem unitsOf_toStockLines (itemId : ItemId) (resolved : List ResolvedBatchLine) :
    unitsOf itemId (toStockLines resolved) =
      WorkOrder.requestedOf itemId resolved := by
  rw [unitsOf, toStockLines, sumWhere_map]
  rfl

theorem toStockLines_positive {resolved : List ResolvedBatchLine}
    (h : ∀ line ∈ resolved, 0 < line.quantity) :
    ∀ line ∈ toStockLines resolved, 0 < line.quantity := by
  intro line hline
  obtain ⟨asked, hasked, rfl⟩ := List.mem_map.mp hline
  exact h asked hasked

theorem toStockLines_ne_nil {command : BatchCommand}
    {resolved : List ResolvedBatchLine}
    (hlength : resolved.length = (command.toInput now).lines.length) :
    toStockLines resolved ≠ [] := by
  intro hnil
  have hempty : resolved = [] := by simpa [toStockLines] using hnil
  rw [hempty] at hlength
  simp only [List.length_nil, BatchCommand.toInput, List.length_map] at hlength
  exact command.notEmpty (List.length_eq_zero_iff.mp hlength.symm)

/-- A request that goes on withdraws what the aggregate accepted. -/
theorem prepareWithdrawal_sound {command : BatchCommand} {withdrawal : Withdrawal}
    (hbelow : ∀ id ∈ workOrder.childIds, id < nextId)
    (h : prepareWithdrawal command workOrder nextId now = .withdraw withdrawal) :
    WithdrawalSound (nextId + 2) withdrawal ∧
      withdrawal.edit.loaded = workOrder ∧
      withdrawal.undo.operationId = nextId ∧
      withdrawal.confirmation.operationId = nextId + 1 := by
  unfold prepareWithdrawal at h
  split at h
  · cases h
  · rename_i resolved changed hruns
    cases h
    obtain ⟨hevolves, hbefore, hafter, hpositive, hlength⟩ :=
      WorkOrder.withdrawParts_runs nextId (toInput_positive command) hruns
    refine ⟨⟨rfl, rfl, rfl, (Nat.lt_succ_self nextId).ne, rfl, rfl,
      toStockLines_positive hpositive,
      ⟨nextId, Nat.lt_add_of_pos_right Nat.two_pos, hbelow, ?_⟩, hbefore, hafter⟩, rfl,
      rfl, rfl⟩
    simpa only [unitsOf_toStockLines] using hevolves

theorem prepareReturn_sound {command : BatchCommand} {edit : Edit}
    {step : Option StockStep} (hbelow : ∀ id ∈ workOrder.childIds, id < nextId)
    (h : prepareReturn command workOrder nextId now = .save edit step) :
    SaveSound (nextId + 2) edit step ∧ edit.loaded = workOrder ∧
      ∀ recorded, step = some recorded → recorded.operationId = nextId := by
  unfold prepareReturn at h
  split at h
  · cases h
  · rename_i resolved changed hruns
    cases h
    obtain ⟨hevolves, hbefore, hafter, hpositive, hlength⟩ :=
      WorkOrder.returnParts_runs nextId (toInput_positive command) hruns
    refine ⟨⟨⟨nextId, Nat.lt_add_of_pos_right Nat.two_pos, hbelow, ?_⟩,
      by rw [hbefore]; rfl, nofun, ?_⟩, rfl, ?_⟩
    · simpa [takenBack, StockStep.lineList, unitsOf_toStockLines] using hevolves
    · intro recorded hrecorded
      cases hrecorded
      refine ⟨rfl, Or.inl rfl, toStockLines_positive hpositive,
        fun _ => toStockLines_ne_nil hlength, ?_, ?_, nofun⟩ <;> simp [hafter]
    · intro recorded hrecorded
      cases hrecorded
      rfl

theorem prepareDelivery_sound {actorUserId : UserId} {edit : Edit}
    {step : Option StockStep} (hbelow : ∀ id ∈ workOrder.childIds, id < nextId)
    (h : prepareDelivery actorUserId workOrder nextId now = .save edit step) :
    SaveSound (nextId + 2) edit step ∧ edit.loaded = workOrder ∧
      ∀ recorded, step = some recorded → recorded.operationId = nextId := by
  unfold prepareDelivery at h
  split at h
  · cases h
  · rename_i changed hruns
    cases h
    obtain ⟨hevolves, hbefore, hafter⟩ :=
      WorkOrder.deliver_runs nextId hruns
    refine ⟨⟨⟨nextId, Nat.lt_add_of_pos_right Nat.two_pos, hbelow, hevolves⟩,
      by rw [hbefore]; rfl, nofun, ?_⟩, rfl, ?_⟩
    · intro recorded hrecorded
      cases hrecorded
      refine ⟨rfl, Or.inr (Or.inl rfl), nofun, nofun, ?_, ?_, nofun⟩ <;>
        simp [hafter]
    · intro recorded hrecorded
      cases hrecorded
      rfl

theorem prepareCancellation_sound {reason : String} {actorUserId : UserId}
    {cancelsInExecution : Bool} {edit : Edit} {step : Option StockStep}
    (hbelow : ∀ id ∈ workOrder.childIds, id < nextId)
    (h : prepareCancellation reason actorUserId cancelsInExecution workOrder nextId
      now = .save edit step) :
    SaveSound (nextId + 2) edit step ∧ edit.loaded = workOrder ∧
      ∀ recorded, step = some recorded → recorded.operationId = nextId := by
  unfold prepareCancellation at h
  split at h
  · split at h
    · cases h
    · rename_i changed hruns
      cases h
      obtain ⟨hevolves, hbefore, hafter, hparts⟩ :=
        WorkOrder.cancel_runs nextId hruns
      refine ⟨⟨⟨nextId, Nat.lt_add_of_pos_right Nat.two_pos, hbelow, hevolves⟩,
        hbefore, nofun, ?_⟩, rfl, ?_⟩
      · intro recorded hrecorded
        cases hrecorded
        refine ⟨rfl, Or.inr (Or.inr rfl), nofun, nofun, ?_, ?_, fun _ => hparts⟩ <;>
          simp [hafter]
      · intro recorded hrecorded
        cases hrecorded
        rfl
  · cases h

/-- Every plain use case is one method of the aggregate. -/
theorem WorkOrderChange.apply_plain (change : WorkOrderChange) {done : Unit}
    {changed : WorkOrder}
    (h : Runs (change.apply nextId now) workOrder done changed) :
    WorkOrder.Plain nextId workOrder changed := by
  cases change with
  | addRequestedService service actorUserId => exact WorkOrder.addService_plain h
  | planPart part actorUserId => exact WorkOrder.planPart_plain h
  | removeItem itemId actorUserId => exact WorkOrder.removeItem_plain h
  | startDiagnosis actorUserId => exact WorkOrder.startDiagnosis_plain h
  | completeDiagnosis actorUserId => exact WorkOrder.completeDiagnosis_plain h
  | approveBudget actorUserId budgetId => exact WorkOrder.approveBudget_plain h
  | rejectBudget actorUserId budgetId => exact WorkOrder.rejectBudget_plain h
  | submitSupplementaryBudget actorUserId =>
      exact WorkOrder.submitSupplementaryBudget_plain h
  | assignMechanic mechanicUserId actorUserId =>
      exact WorkOrder.assignMechanic_plain h
  | applyDiscount amount note actorUserId => exact WorkOrder.applyDiscount_plain h
  | completeWorkOrder actorUserId => exact WorkOrder.complete_plain h

theorem prepareChange_sound {change : WorkOrderChange} {edit : Edit}
    {step : Option StockStep} (hbelow : ∀ id ∈ workOrder.childIds, id < nextId)
    (h : prepareChange change workOrder nextId now = .save edit step) :
    SaveSound (nextId + 2) edit step ∧ edit.loaded = workOrder ∧
      ∀ recorded, step = some recorded → recorded.operationId = nextId := by
  unfold prepareChange at h
  split at h
  · cases h
  · rename_i changed hruns
    cases h
    have hplain := WorkOrderChange.apply_plain change hruns
    exact ⟨⟨⟨nextId, Nat.lt_add_of_pos_right Nat.two_pos, hbelow, hplain.evolves⟩,
      hplain.open_before, fun _ => hplain.open_after, nofun⟩, rfl, nofun⟩

/-- What a request that saves is about to save. -/
theorem prepare_save_sound {request : WorkOrderRequest} {edit : Edit}
    {step : Option StockStep} {cancelsInExecution : Bool}
    (hbelow : ∀ id ∈ workOrder.childIds, id < nextId)
    (h : request.prepare workOrder nextId now cancelsInExecution =
      .save edit step) :
    SaveSound (nextId + 2) edit step ∧ edit.loaded = workOrder ∧
      ∀ recorded, step = some recorded → recorded.operationId = nextId := by
  cases request with
  | withdrawParts command =>
      simp only [WorkOrderRequest.prepare, prepareWithdrawal] at h
      split at h <;> cases h
  | returnParts command => exact prepareReturn_sound hbelow h
  | deliverVehicle actorUserId => exact prepareDelivery_sound hbelow h
  | cancelWorkOrder reason actorUserId => exact prepareCancellation_sound hbelow h
  | plain change => exact prepareChange_sound hbelow h

theorem prepare_withdraw_sound {request : WorkOrderRequest}
    {withdrawal : Withdrawal} {cancelsInExecution : Bool}
    (hbelow : ∀ id ∈ workOrder.childIds, id < nextId)
    (h : request.prepare workOrder nextId now cancelsInExecution =
      .withdraw withdrawal) :
    WithdrawalSound (nextId + 2) withdrawal ∧
      withdrawal.edit.loaded = workOrder ∧
      withdrawal.undo.operationId = nextId ∧
      withdrawal.confirmation.operationId = nextId + 1 := by
  cases request with
  | withdrawParts command => exact prepareWithdrawal_sound hbelow h
  | returnParts command =>
      simp only [WorkOrderRequest.prepare, prepareReturn] at h
      split at h <;> cases h
  | deliverVehicle actorUserId =>
      simp only [WorkOrderRequest.prepare, prepareDelivery] at h
      split at h <;> cases h
  | cancelWorkOrder reason actorUserId =>
      simp only [WorkOrderRequest.prepare, prepareCancellation] at h
      split at h
      · split at h <;> cases h
      · cases h
  | plain change =>
      simp only [WorkOrderRequest.prepare, prepareChange] at h
      split at h <;> cases h

end Preparing

section Children

variable {fresh : Uuid} {moved : ItemId → Int} {before after : WorkOrder}

/-- A method names at most one child, with the id it was given. -/
theorem childIds_of_evolves (h : WorkOrder.Evolves fresh moved before after)
    {id : Uuid} (hid : id ∈ after.childIds) :
    id ∈ before.childIds ∨ id = fresh := by
  simp only [WorkOrder.childIds, List.mem_append] at hid ⊢
  rcases hid with (hid | hid) | hid
  · rcases List.mem_append.mp (h.services.subset hid) with hid | hid
    · exact Or.inl (Or.inl (Or.inl hid))
    · exact Or.inr (List.mem_singleton.mp hid)
  · rcases List.mem_append.mp (h.parts.subset hid) with hid | hid
    · exact Or.inl (Or.inl (Or.inr hid))
    · exact Or.inr (List.mem_singleton.mp hid)
  · rcases List.mem_append.mp (h.rounds.subset hid) with hid | hid
    · exact Or.inl (Or.inr hid)
    · exact Or.inr (List.mem_singleton.mp hid)

theorem nodup_of_sublist_fresh {ids ids' : List Uuid} (hids : ids.Nodup)
    (hfresh : ∀ id ∈ ids, id < fresh) (h : ids'.Sublist (ids ++ [fresh])) :
    ids'.Nodup := by
  apply List.Nodup.sublist h
  rw [List.nodup_append]
  refine ⟨hids, List.nodup_singleton _, fun id hid other hother heq => ?_⟩
  rw [heq, List.mem_singleton.mp hother] at hid
  exact absurd (hfresh fresh hid) (lt_irrefl fresh)

/-- The children of a work order are told apart by their ids. -/
structure WorkOrder.ChildrenNamed (workOrder : WorkOrder) : Prop where
  services : (workOrder.serviceItems.map WorkOrderServiceItem.id).Nodup
  parts : (workOrder.partItems.map WorkOrderPartItem.id).Nodup
  budgets : (workOrder.budgets.map Budget.id).Nodup

theorem childrenNamed_of_evolves (h : WorkOrder.Evolves fresh moved before after)
    (hbelow : ∀ id ∈ before.childIds, id < fresh) (hbefore : before.ChildrenNamed) :
    after.ChildrenNamed := by
  have hmem : ∀ id, (id ∈ before.serviceItems.map WorkOrderServiceItem.id ∨
      id ∈ before.partItems.map WorkOrderPartItem.id) ∨
      id ∈ before.budgets.map Budget.id → id < fresh := fun id hid =>
    hbelow id (by simpa only [WorkOrder.childIds, List.mem_append] using hid)
  exact ⟨
    nodup_of_sublist_fresh hbefore.services
      (fun id hid => hmem id (Or.inl (Or.inl hid))) h.services,
    nodup_of_sublist_fresh hbefore.parts
      (fun id hid => hmem id (Or.inl (Or.inr hid))) h.parts,
    nodup_of_sublist_fresh hbefore.budgets
      (fun id hid => hmem id (Or.inr hid)) h.rounds⟩

end Children

/-- A work order that is about to be inserted: everything it has was named
below `bound`, and nothing is withdrawn. -/
structure Opened (bound : Uuid) (workOrder : WorkOrder) : Prop where
  id_lt : workOrder.id < bound
  below : ∀ id ∈ workOrder.childIds, id < bound
  named : workOrder.ChildrenNamed
  known : workOrder.RoundsKnown
  drafts : workOrder.DraftsUntouched
  withdrawn : ∀ itemId, workOrder.withdrawnOf itemId = 0
  status : workOrder.status.isClosed = false
  version : workOrder.version = 0

theorem Opened.mono {bound bound' : Uuid} {workOrder : WorkOrder}
    (h : Opened bound workOrder) (hle : bound ≤ bound') : Opened bound' workOrder :=
  { h with
    id_lt := h.id_lt.trans_le hle
    below := fun id hid => (h.below id hid).trans_le hle }

section Opening

variable {nextId nextId' : Uuid} {before after : WorkOrder}

/-- Adding an item keeps a work order that is being opened. -/
theorem Opened.of_plain (h : Opened nextId before)
    (hplain : WorkOrder.Plain nextId before after) : Opened (nextId + 1) after where
  id_lt := by
    rw [hplain.evolves.id]
    exact h.id_lt.trans (Nat.lt_succ_self nextId)
  below := fun id hid => by
    rcases childIds_of_evolves hplain.evolves hid with hid | rfl
    · exact (h.below id hid).trans (Nat.lt_succ_self nextId)
    · exact Nat.lt_succ_self id
  named := childrenNamed_of_evolves hplain.evolves h.below h.named
  known := hplain.evolves.known h.known
  drafts := hplain.evolves.drafts h.drafts
  withdrawn := fun itemId => by
    rw [hplain.evolves.withdrawn h.drafts, h.withdrawn, Int.add_zero]
  status := hplain.open_after
  version := hplain.evolves.version.trans h.version

theorem addServices_runs {actorUserId : UserId} {now : Timestamp}
    {services : List ServiceRef} :
    ∀ {nextId : Uuid} {before : WorkOrder}, Opened nextId before →
      Runs (addServices actorUserId now services nextId) before nextId' after →
      Opened nextId' after ∧ nextId ≤ nextId' ∧ after.id = before.id := by
  induction services with
  | nil =>
      intro nextId before hopened h
      simp only [addServices, runs_pure] at h
      obtain ⟨rfl, rfl⟩ := h
      exact ⟨hopened, le_rfl, rfl⟩
  | cons service services ih =>
      intro nextId before hopened h
      simp only [addServices, runs_bind] at h
      obtain ⟨_, middle, hadd, hrest⟩ := h
      have hplain := WorkOrder.addService_plain hadd
      obtain ⟨hopened', hle, hid⟩ := ih (hopened.of_plain hplain) hrest
      exact ⟨hopened', (Nat.le_succ nextId).trans hle,
        hid.trans hplain.evolves.id⟩

theorem planParts_runs {actorUserId : UserId} {now : Timestamp}
    {parts : List OpeningPart} :
    ∀ {nextId : Uuid} {before : WorkOrder}, Opened nextId before →
      Runs (planParts actorUserId now parts nextId) before nextId' after →
      Opened nextId' after ∧ nextId ≤ nextId' ∧ after.id = before.id := by
  induction parts with
  | nil =>
      intro nextId before hopened h
      simp only [planParts, runs_pure] at h
      obtain ⟨rfl, rfl⟩ := h
      exact ⟨hopened, le_rfl, rfl⟩
  | cons part parts ih =>
      intro nextId before hopened h
      simp only [planParts, runs_bind] at h
      obtain ⟨_, middle, hadd, hrest⟩ := h
      have hplain := WorkOrder.planPart_plain hadd
      obtain ⟨hopened', hle, hid⟩ := ih (hopened.of_plain hplain) hrest
      exact ⟨hopened', (Nat.le_succ nextId).trans hle,
        hid.trans hplain.evolves.id⟩

theorem opened_openWorkOrder (input : OpenWorkOrderInput) :
    Opened (input.id + 1) (WorkOrder.openWorkOrder input) where
  id_lt := Nat.lt_succ_self input.id
  below := fun _ hid => absurd hid List.not_mem_nil
  named := ⟨List.nodup_nil, List.nodup_nil, List.nodup_nil⟩
  known := ⟨fun _ hitem => absurd hitem List.not_mem_nil,
    fun _ hitem => absurd hitem List.not_mem_nil⟩
  drafts := fun _ hitem => absurd hitem List.not_mem_nil
  withdrawn := fun _ => rfl
  status := rfl
  version := rfl

/-- A work order that is opened has its own id, and everything it names comes
after it. -/
theorem CreateCommand.openWith_opened {command : CreateCommand} {now : Timestamp}
    {workOrder : WorkOrder}
    (h : command.openWith nextId now = .ok (nextId', workOrder)) :
    Opened nextId' workOrder ∧ nextId < nextId' ∧ workOrder.id = nextId := by
  simp only [CreateCommand.openWith] at h
  split at h
  · rename_i last opened hruns
    cases h
    obtain ⟨middle, state, hservices, hparts⟩ := runs_bind.mp hruns
    have hstart : Opened (nextId + 1) _ := opened_openWorkOrder {
      id := nextId, number := command.number, customerId := command.customerId
      vehicleId := command.vehicleId, createdByUserId := command.createdByUserId
      customerName := command.customerName, vehiclePlate := command.vehiclePlate
      vehicleBrand := command.vehicleBrand, vehicleModel := command.vehicleModel
      vehicleYear := command.vehicleYear, now }
    obtain ⟨hopened, hle, hid⟩ := addServices_runs hstart hservices
    obtain ⟨hopened', hle', hid'⟩ := planParts_runs hopened hparts
    exact ⟨hopened', (Nat.lt_succ_self nextId).trans_le (hle.trans hle'),
      hid'.trans hid⟩
  · cases h

end Opening

end WorkOrders

end Workshop
