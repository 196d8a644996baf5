/-
The operation behind every save.  A request loads a work order, calls one method
of it and saves; a new work order is opened and then given its items.
-/
import Mathlib.Data.List.Induction
import Mathlib.Logic.Relation
import Workshop.WorkOrders.RecordedEvents
import Workshop.WorkOrders.Refusals
import Workshop.WorkOrders.SerialSaves

namespace Workshop

namespace WorkOrders

/-- The method a plain use case calls. -/
def WorkOrderChange.operation (nextId : Uuid) (now : Timestamp) :
    WorkOrderChange → WorkOrderOperation
  | .addRequestedService service actorUserId =>
      .addService {
        itemId := nextId, serviceId := service.serviceId
        serviceName := service.name, unitPrice := service.price
        actorUserId, now }
  | .planPart part actorUserId =>
      .planPart {
        itemId := nextId, inventoryItemId := part.inventoryItemId
        sku := part.sku, itemName := part.name, unitPrice := part.unitPrice
        plannedQuantity := part.quantity, actorUserId, now }
  | .removeItem itemId actorUserId => .removeItem { itemId, actorUserId, now }
  | .startDiagnosis actorUserId => .startDiagnosis { actorUserId, now }
  | .completeDiagnosis actorUserId =>
      .completeDiagnosis { budgetId := nextId, actorUserId, now }
  | .approveBudget actorUserId budgetId => .approveBudget { actorUserId, now, budgetId }
  | .rejectBudget actorUserId budgetId => .rejectBudget { actorUserId, now, budgetId }
  | .submitSupplementaryBudget actorUserId =>
      .submitSupplementaryBudget { budgetId := nextId, actorUserId, now }
  | .assignMechanic mechanicUserId actorUserId =>
      .assignMechanic { mechanicUserId, actorUserId, now }
  | .applyDiscount amount note actorUserId =>
      .applyDiscount { amount, note, actorUserId, now }
  | .completeWorkOrder actorUserId => .complete { actorUserId, now }

/-- The method a request calls. -/
def WorkOrderRequest.operation (nextId : Uuid) (now : Timestamp) :
    WorkOrderRequest → WorkOrderOperation
  | .withdrawParts command => .withdrawParts (command.toInput now)
  | .returnParts command => .returnParts (command.toInput now)
  | .deliverVehicle actorUserId => .deliver { actorUserId, now }
  | .cancelWorkOrder reason actorUserId => .cancel { reason, actorUserId, now }
  | .plain change => change.operation nextId now

/-- What one method made of the work order that was loaded. -/
structure Edit.By (edit : Edit) (operation : WorkOrderOperation) : Prop where
  recorded : edit.loaded.domainEvents = []
  ordered : edit.loaded.budgets.Pairwise fun left right => left.round ≤ right.round
  runs : Runs operation.run edit.loaded () edit.changed

/-- An item is added to a work order that is being created. -/
def AddsItem (now : Timestamp) (before after : WorkOrder) : Prop :=
  ∃ operation : WorkOrderOperation, operation.now = now ∧
    ((∃ input, operation = .addService input) ∨ ∃ input, operation = .planPart input) ∧
    Runs operation.run before () after

/-- A work order as its creation leaves it. -/
def WorkOrder.Assembled (workOrder : WorkOrder) : Prop :=
  ∃ input : OpenWorkOrderInput, Relation.ReflTransGen (AddsItem input.now)
    (WorkOrder.openWorkOrder input) workOrder

/-- What a program is about to save was made by the methods. -/
def SagaPlace.Performs : SagaPlace → Prop
  | .creating workOrder => workOrder.Assembled
  | .saving edit _ => ∃ operation, edit.By operation
  | .arming withdrawal | .consuming withdrawal | .committing withdrawal =>
      ∃ operation, withdrawal.edit.By operation
  | _ => True

/-- The work order a save wrote. -/
def SagaEffect.saves : SagaEffect → Option WorkOrder
  | .created workOrder => some workOrder
  | .saved edit => some edit.changed
  | _ => none

/-- What was saved was made by the methods. -/
def SagaEffect.Performed : SagaEffect → Prop
  | .created workOrder => workOrder.Assembled
  | .saved edit => edit.changed.id = edit.loaded.id ∧ ∃ operation, edit.By operation
  | _ => True

theorem saves_none {effects : List SagaEffect} (hsaved : ∀ edit, .saved edit ∉ effects)
    (hcreated : ∀ workOrder, .created workOrder ∉ effects) :
    ∀ effect ∈ effects, effect.saves = none := by
  intro effect heffect
  cases effect with
  | created workOrder => exact absurd heffect (hcreated workOrder)
  | saved edit => exact absurd heffect (hsaved edit)
  | _ => rfl

section Requests

variable {nextId nextId' : Uuid} {now : Timestamp} {workOrder after : WorkOrder}

theorem WorkOrderChange.operation_run (change : WorkOrderChange) :
    (change.operation nextId now).run = change.apply nextId now := by
  cases change <;> rfl

theorem WorkOrderChange.operation_now (change : WorkOrderChange) :
    (change.operation nextId now).now = now := by
  cases change <;> rfl

theorem WorkOrderRequest.operation_now (request : WorkOrderRequest) :
    (request.operation nextId now).now = now := by
  cases request with
  | plain change => exact change.operation_now
  | _ => rfl

/-- A request that goes on holds what its method made of the work order it
loaded. -/
theorem prepare_edit {request : WorkOrderRequest} {cancelsInExecution : Bool}
    {edit : Edit}
    (h : (request.prepare workOrder nextId now cancelsInExecution).place.edit =
      some edit) :
    edit.loaded = workOrder ∧
      Runs (request.operation nextId now).run workOrder () edit.changed := by
  cases request with
  | withdrawParts command =>
      simp only [WorkOrderRequest.prepare, prepareWithdrawal] at h
      split at h
      · cases h
      · rename_i resolved changed hruns
        cases h
        exact ⟨rfl, runs_map.mpr ⟨resolved, hruns, rfl⟩⟩
  | returnParts command =>
      simp only [WorkOrderRequest.prepare, prepareReturn] at h
      split at h
      · cases h
      · rename_i resolved changed hruns
        cases h
        exact ⟨rfl, runs_map.mpr ⟨resolved, hruns, rfl⟩⟩
  | deliverVehicle actorUserId =>
      simp only [WorkOrderRequest.prepare, prepareDelivery] at h
      split at h
      · cases h
      · rename_i hruns
        cases h
        exact ⟨rfl, hruns⟩
  | cancelWorkOrder reason actorUserId =>
      simp only [WorkOrderRequest.prepare, prepareCancellation] at h
      split at h
      · split at h
        · cases h
        · rename_i hruns
          cases h
          exact ⟨rfl, hruns⟩
      · cases h
  | plain change =>
      simp only [WorkOrderRequest.prepare, prepareChange] at h
      split at h
      · cases h
      · rename_i hruns
        cases h
        refine ⟨rfl, ?_⟩
        change Runs (change.operation nextId now).run workOrder () _
        rw [change.operation_run]
        exact hruns

theorem addServices_adds {actorUserId : UserId} {services : List ServiceRef} :
    ∀ {nextId : Uuid} {workOrder : WorkOrder},
      Runs (addServices actorUserId now services nextId) workOrder nextId' after →
      Relation.ReflTransGen (AddsItem now) workOrder after := by
  induction services with
  | nil =>
      intro nextId workOrder h
      simp only [addServices, runs_pure] at h
      rw [h.2]
  | cons service services ih =>
      intro nextId workOrder h
      simp only [addServices, runs_bind] at h
      obtain ⟨_, middle, hadd, hrest⟩ := h
      exact (ih hrest).head ⟨.addService _, rfl, Or.inl ⟨_, rfl⟩, hadd⟩

theorem planParts_adds {actorUserId : UserId} {parts : List OpeningPart} :
    ∀ {nextId : Uuid} {workOrder : WorkOrder},
      Runs (planParts actorUserId now parts nextId) workOrder nextId' after →
      Relation.ReflTransGen (AddsItem now) workOrder after := by
  induction parts with
  | nil =>
      intro nextId workOrder h
      simp only [planParts, runs_pure] at h
      rw [h.2]
  | cons part parts ih =>
      intro nextId workOrder h
      simp only [planParts, runs_bind] at h
      obtain ⟨_, middle, hplan, hrest⟩ := h
      exact (ih hrest).head ⟨.planPart _, rfl, Or.inr ⟨_, rfl⟩, hplan⟩

theorem CreateCommand.openWith_assembled {command : CreateCommand}
    (h : command.openWith nextId now = .ok (nextId', workOrder)) :
    workOrder.Assembled := by
  simp only [CreateCommand.openWith] at h
  split at h
  · rename_i last opened hruns
    cases h
    obtain ⟨middle, state, hservices, hparts⟩ := runs_bind.mp hruns
    exact ⟨{
      id := nextId, number := command.number, customerId := command.customerId
      vehicleId := command.vehicleId, createdByUserId := command.createdByUserId
      customerName := command.customerName, vehiclePlate := command.vehiclePlate
      vehicleBrand := command.vehicleBrand, vehicleModel := command.vehicleModel
      vehicleYear := command.vehicleYear, now },
      (addServices_adds hservices).trans (planParts_adds hparts)⟩
  · cases h

end Requests

section Creation

namespace WorkOrder

/-- A method that leaves the time of the creation alone. -/
abbrev KeepsCreation {α : Type} (method : WorkOrderM α) : Prop :=
  Keeps (fun workOrder : WorkOrder => workOrder.createdAt) method

theorem keeps_call {α : Type} (result : Except WorkOrderError α) :
    KeepsCreation (call result) := by
  cases result with
  | ok answer => exact keeps_pure answer
  | error error => exact keeps_throw error

theorem keeps_refuseIf (condition : Bool) (error : WorkOrderError) :
    KeepsCreation (refuseIf condition error) :=
  .ite (keeps_throw error) (keeps_pure ())

theorem keeps_assertStateAllows (allowed : List WorkOrderStatus) :
    KeepsCreation (assertStateAllows allowed) :=
  .bind keeps_get fun _ => keeps_refuseIf _ _

theorem keeps_record (event : WorkOrderEvent) : KeepsCreation (record event) :=
  keeps_modify fun _ => rfl

theorem keeps_recordFact (eventType : TrailEventType) (actorUserId : UserId)
    (now : Timestamp) : KeepsCreation (recordFact eventType actorUserId now) :=
  .bind keeps_get fun _ => keeps_record _

theorem keeps_recordMove (eventType : TrailEventType) (actorUserId : UserId)
    (fromStatus : Option WorkOrderStatus) (toStatus : WorkOrderStatus)
    (now : Timestamp) :
    KeepsCreation (recordMove eventType actorUserId fromStatus toStatus now) :=
  .bind keeps_get fun _ => keeps_record _

theorem keeps_recordStatusChange (fromStatus : Option WorkOrderStatus)
    (now : Timestamp) : KeepsCreation (recordStatusChange fromStatus now) :=
  .bind keeps_get fun _ => keeps_record _

/-- The item loops of a round leave the row alone. -/
theorem keeps_generateRound (round : Nat) : KeepsCreation (generateRound round) := by
  intro start result last h
  simp only [generateRound, runs_bind, runs_get, runs_set, runs_pure] at h
  obtain ⟨_, _, ⟨rfl, rfl⟩, _, _, rfl, -, rfl⟩ := h
  rfl

theorem keeps_writeRoundOne (budgetId : BudgetId) (total : Money) (now : Timestamp) :
    KeepsCreation (writeRoundOne budgetId total now) := by
  refine .bind keeps_get fun workOrder => ?_
  split
  · exact .bind (keeps_call _) fun _ => keeps_modify fun _ => rfl
  · exact keeps_modify fun _ => rfl

theorem keeps_eraseItem (itemId : WorkOrderItemId) : KeepsCreation (eraseItem itemId) := by
  refine .bind keeps_get fun workOrder => ?_
  split
  · exact .bind (keeps_refuseIf _ _) fun _ => keeps_modify fun _ => rfl
  · split
    · exact keeps_throw _
    · exact .bind (keeps_refuseIf _ _) fun _ => keeps_modify fun _ => rfl

theorem keeps_budgetToDecide (budgetId : Option BudgetId) :
    KeepsCreation (budgetToDecide budgetId) := by
  cases budgetId with
  | none =>
      refine .bind (keeps_assertStateAllows _) fun _ => .bind keeps_get fun workOrder => ?_
      split
      · exact keeps_pure _
      · exact keeps_throw _
  | some budgetId =>
      refine .bind (.bind keeps_get fun workOrder => ?_) fun found =>
        .bind (keeps_refuseIf _ _) fun _ =>
          .bind (keeps_assertStateAllows _) fun _ => keeps_pure _
      split
      · exact keeps_pure _
      · exact keeps_throw _

theorem keeps_changeParts
    (change : WorkOrderPartItem → Int → Except WorkOrderError WorkOrderPartItem)
    (resolved : List (WorkOrderPartItem × Int)) :
    KeepsCreation (changeParts change resolved) := by
  induction resolved with
  | nil => exact keeps_pure ()
  | cons entry resolved ih =>
      refine .bind (.bind keeps_get fun workOrder => ?_) fun _ => ih
      split
      · exact keeps_throw _
      · exact .bind (keeps_call _) fun _ => keeps_modify fun _ => rfl

theorem keeps_refreshChargedTotal (preDiscountTotal amount : Money) :
    KeepsCreation (refreshChargedTotal preDiscountTotal amount) :=
  .bind keeps_get fun _ => .ite
    (.bind (keeps_call _) fun _ => keeps_modify fun _ => rfl) (keeps_pure _)

end WorkOrder

open WorkOrder in
/-- No method moves the time of the creation. -/
theorem WorkOrderOperation.keepsCreation (operation : WorkOrderOperation) :
    KeepsCreation operation.run := by
  have hmoved : ∀ {change : WorkOrder → WorkOrder} {eventType : TrailEventType}
      {actorUserId : UserId} {fromStatus notified : Option WorkOrderStatus}
      {toStatus : WorkOrderStatus} {now : Timestamp},
      (∀ workOrder, (change workOrder).createdAt = workOrder.createdAt) →
      KeepsCreation (do
        modify change
        recordMove eventType actorUserId fromStatus toStatus now
        recordStatusChange notified now) := fun h =>
    .bind (keeps_modify h) fun _ => .bind (keeps_recordMove _ _ _ _ _) fun _ =>
      keeps_recordStatusChange _ _
  cases operation with
  | addService input =>
      exact .bind (keeps_assertStateAllows _) fun _ =>
        .bind (keeps_modify fun _ => rfl) fun _ => keeps_recordFact _ _ _
  | planPart input =>
      exact .bind (keeps_assertStateAllows _) fun _ =>
        .bind (keeps_modify fun _ => rfl) fun _ => keeps_recordFact _ _ _
  | removeItem input =>
      exact .bind (keeps_assertStateAllows _) fun _ => .bind (keeps_eraseItem _) fun _ =>
        .bind (keeps_modify fun _ => rfl) fun _ => keeps_recordFact _ _ _
  | startDiagnosis input =>
      exact .bind (keeps_assertStateAllows _) fun _ => .bind keeps_get fun _ =>
        hmoved fun _ => rfl
  | completeDiagnosis input =>
      exact .bind (keeps_assertStateAllows _) fun _ => .bind keeps_get fun _ =>
        .bind (keeps_refuseIf _ _) fun _ => .bind (keeps_generateRound _) fun _ =>
        .bind (keeps_writeRoundOne _ _ _) fun _ => .bind (keeps_modify fun _ => rfl) fun _ =>
        .bind (keeps_recordMove _ _ _ _ _) fun _ => .bind (keeps_recordFact _ _ _) fun _ =>
        .bind (keeps_recordFact _ _ _) fun _ => keeps_recordStatusChange _ _
  | approveBudget input =>
      exact .bind (keeps_budgetToDecide _) fun _ => .bind (keeps_call _) fun _ =>
        .bind (keeps_modify fun _ => rfl) fun _ => .bind keeps_get fun _ =>
        .bind (keeps_modify fun _ => rfl) fun _ => .bind (keeps_recordMove _ _ _ _ _) fun _ =>
        .bind (keeps_recordMove _ _ _ _ _) fun _ => keeps_recordStatusChange _ _
  | rejectBudget input =>
      exact .bind (keeps_budgetToDecide _) fun _ => .bind (keeps_call _) fun _ =>
        .bind (keeps_modify fun _ => rfl) fun _ => .bind keeps_get fun _ =>
        .bind (keeps_modify fun _ => rfl) fun _ => .bind (keeps_recordMove _ _ _ _ _) fun _ =>
        .bind (.ite (keeps_recordMove _ _ _ _ _) (keeps_pure ())) fun _ =>
          keeps_recordStatusChange _ _
  | submitSupplementaryBudget input =>
      exact .bind (keeps_assertStateAllows _) fun _ => .bind keeps_get fun _ =>
        .bind (keeps_refuseIf _ _) fun _ => .bind (keeps_generateRound _) fun _ =>
        .bind (keeps_modify fun _ => rfl) fun _ => .bind (keeps_recordFact _ _ _) fun _ =>
        .bind (keeps_recordFact _ _ _) fun _ => keeps_recordStatusChange _ _
  | withdrawParts input =>
      exact .map _ (.bind (keeps_assertStateAllows _) fun _ =>
        .bind (keeps_call _) fun _ => .bind keeps_get fun _ => .bind (keeps_call _) fun _ =>
        .bind (keeps_changeParts _ _) fun _ => .bind (keeps_modify fun _ => rfl) fun _ =>
        .bind (keeps_recordFact _ _ _) fun _ => keeps_pure _)
  | returnParts input =>
      exact .map _ (.bind (keeps_assertStateAllows _) fun _ =>
        .bind (keeps_call _) fun _ => .bind keeps_get fun _ => .bind (keeps_call _) fun _ =>
        .bind (keeps_changeParts _ _) fun _ => .bind (keeps_modify fun _ => rfl) fun _ =>
        .bind (keeps_recordFact _ _ _) fun _ => keeps_pure _)
  | assignMechanic input =>
      exact .bind keeps_get fun _ => .bind (keeps_refuseIf _ _) fun _ =>
        .bind (keeps_modify fun _ => rfl) fun _ => keeps_recordFact _ _ _
  | applyDiscount input =>
      exact .bind (keeps_assertStateAllows _) fun _ => .bind keeps_get fun _ =>
        .bind (keeps_call _) fun _ => .bind (keeps_refuseIf _ _) fun _ =>
        .bind (keeps_modify fun _ => rfl) fun _ =>
        .bind (keeps_refreshChargedTotal _ _) fun _ =>
        .bind (keeps_modify fun _ => rfl) fun _ => keeps_recordFact _ _ _
  | complete input =>
      exact .bind (keeps_assertStateAllows _) fun _ => .bind keeps_get fun _ =>
        .bind (keeps_call _) fun _ => .bind (keeps_refuseIf _ _) fun _ =>
        .bind (keeps_call _) fun _ => hmoved fun _ => rfl
  | deliver input =>
      exact .bind (keeps_assertStateAllows _) fun _ => .bind keeps_get fun _ =>
        hmoved fun _ => rfl
  | cancel input =>
      exact .bind (keeps_assertStateAllows _) fun _ => .bind keeps_get fun _ =>
        hmoved fun _ => rfl

end Creation

section Runs

variable {settings : OutboxSettings} {db : WorkshopDb} {place : SagaPlace}
variable {input : SagaInput} {out : SagaOutcome}
variable {config : Config WorkshopDb SagaPlace} {log : List SagaEffect}

/-- A load puts the rounds in order. -/
theorem ordered_toDomain {row : WorkOrderRow} {services : List ServiceRow}
    {parts : List PartRow} {budgets : List BudgetRow} :
    (toDomain row services parts budgets).budgets.Pairwise
      fun left right => left.round ≤ right.round :=
  List.pairwise_map.mpr (List.pairwise_insertionSort _ budgets)

/-- An edit that a program holds is the one it held, or what its request has just
made of the work order it read. -/
theorem SagaMove.edit_cases (hmove : SagaMove settings db place input out)
    {edit : Edit} (h : out.place.edit = some edit) :
    out.store.tables = db.tables ∧ (place.edit = some edit ∨
      ∃ surroundings request row services parts,
        place = .loadingBudgets request row services parts ∧
        input = .proceed surroundings ∧
        edit.loaded = toDomain row services parts
          (db.tables.findBudgets surroundings.budgetOrder row.id) ∧
        Runs (request.operation db.nextId surroundings.now).run edit.loaded ()
          edit.changed) := by
  have hnext : ∀ queue, (nextApplication queue).edit = none := by
    intro queue
    cases queue <;> rfl
  cases hmove with
  | errandFails input errand error hplace => cases errand <;> cases h
  | readBudgets surroundings request row services parts =>
      obtain ⟨hloaded, hruns⟩ := prepare_edit h
      exact ⟨rfl, Or.inr ⟨surroundings, request, row, services, parts, rfl, rfl,
        hloaded, hloaded ▸ hruns⟩⟩
  | shelfRead input nextId hle next hnext => cases next <;> cases h
  | arm surroundings withdrawal dueAt steps hinsert => exact ⟨rfl, Or.inl h⟩
  | consume surroundings withdrawal inventory hconsume => exact ⟨rfl, Or.inl h⟩
  | complete surroundings errand =>
      cases errand with
      | compensation undo => cases h
      | application step queue =>
          have hnone := hnext queue
          simp only [stay, Errand.afterwards, hnone] at h
          cases h
  | claim surroundings operationIds =>
      simp only [claimDue, hnext] at h
      cases h
  | recordError surroundings step queue error =>
      simp only [stay, hnext] at h
      cases h
  | _ => cases h

/-- The next application holds no work order. -/
theorem performs_nextApplication (queue : List ClaimedStockStep) :
    (nextApplication queue).Performs := by
  cases queue <;> trivial

/-- What a program is about to save was made by the methods. -/
theorem SagaMove.performs (hmove : SagaMove settings db place input out)
    (hplace : place.Performs) : out.place.Performs := by
  cases hmove with
  | errandFails input errand error hplace' => cases errand <;> trivial
  | openNew command now nextId workOrder hopen =>
      exact CreateCommand.openWith_assembled hopen
  | readBudgets surroundings request row services parts =>
      generalize hprepared : request.prepare _ db.nextId surroundings.now
        surroundings.cancelsInExecution = prepared
      have hedit : ∀ edit, prepared.place.edit = some edit →
          ∃ operation, edit.By operation := by
        intro edit hedit
        rw [← hprepared] at hedit
        obtain ⟨hloaded, hruns⟩ := prepare_edit hedit
        refine ⟨_, ?_, ?_, hloaded ▸ hruns⟩
        · rw [hloaded]
          rfl
        · rw [hloaded]
          exact ordered_toDomain
      cases prepared with
      | refused => trivial
      | withdraw withdrawal => exact hedit _ rfl
      | save edit step => exact hedit _ rfl
  | shelfRead input nextId hle next hnext => cases next <;> trivial
  | arm surroundings withdrawal dueAt steps hinsert => exact hplace
  | consume surroundings withdrawal inventory hconsume => exact hplace
  | complete surroundings errand =>
      cases errand with
      | compensation undo => trivial
      | application step queue => exact performs_nextApplication queue
  | claim surroundings operationIds => exact performs_nextApplication _
  | recordError surroundings step queue error => exact performs_nextApplication queue
  | _ => trivial

/-- In every run every save that committed saved what a method made. -/
theorem performed_of_reaches (h : SagaReaches settings config log) :
    (∀ effect ∈ log, effect.Performed) ∧ ∀ pid, (config.places pid).Performs := by
  refine ReachesBy.invariant_of_places
    (G := fun _ log => ∀ effect ∈ log, effect.Performed)
    (L := fun _ _ place => place.Performs)
    (fun _ heffect => absurd heffect List.not_mem_nil) (fun _ => trivial) ?_ ?_ h
  · intro config log pid input out before hlog hplaces _ hexec
    have hmove := sagaMove_of_exec hexec
    refine ⟨fun effect heffect => ?_, hmove.performs (hplaces pid)⟩
    rcases List.mem_append.mp heffect with hold | hnew
    · exact hlog effect hold
    · have hplace := hplaces pid
      have hid := fun edit (hedit : (config.places pid).edit = some edit) =>
        (edit_of_reaches before hedit).1
      have hchange := hmove.tables
      revert hchange hplace hid hnew
      generalize out.store.tables = tables'
      generalize out.effects = effects
      generalize config.places pid = place
      intro hnew hplace hid hchange
      cases hchange with
      | same _ hsaved hcreated =>
          cases effect with
          | created workOrder => exact absurd hnew (hcreated workOrder)
          | saved edit => exact absurd hnew (hsaved edit)
          | _ => trivial
      | create workOrder _ hsave =>
          obtain rfl := List.mem_singleton.mp hnew
          exact hplace
      | save edit step _ hsave =>
          obtain rfl := List.mem_singleton.mp hnew
          exact ⟨hid edit rfl, hplace⟩
      | commit withdrawal _ hsave =>
          rcases List.mem_cons.mp hnew with rfl | hnew
          · exact ⟨hid withdrawal.edit rfl, hplace⟩
          · obtain rfl := List.mem_singleton.mp hnew
            trivial
  · intro config log pid input out _ _ hplaces _ _ other _
    exact hplaces other

end Runs

section Reachable

variable {settings : OutboxSettings} {config : Config WorkshopDb SagaPlace}
variable {log : List SagaEffect} {workOrder : WorkOrder} {workOrderId : WorkOrderId}

theorem reachable_of_runs {before after : WorkOrder} {operation : WorkOrderOperation}
    (hbefore : before.Reachable) (h : Runs operation.run before () after) :
    after.Reachable := by
  rw [← h.leftBy_eq]
  exact hbefore.performed operation

theorem Assembled.reachable (h : workOrder.Assembled) : workOrder.Reachable := by
  obtain ⟨input, hadds⟩ := h
  induction hadds with
  | refl => exact WorkOrder.Reachable.opened input
  | tail _ hadd ih =>
      obtain ⟨operation, -, -, hruns⟩ := hadd
      exact reachable_of_runs ih hruns

/-- What the log says was saved last was saved. -/
theorem lastSaved_mem {state : WorkOrder} (h : lastSaved workOrderId log = some state) :
    ∃ effect ∈ log, ∃ saved, effect.saves = some saved ∧ saved.id = workOrderId ∧
      state = { saved with createdAt := state.createdAt, version := state.version } := by
  induction log using List.reverseRecOn with
  | nil => cases h
  | append_singleton log effect ih =>
      have hold : lastSaved workOrderId log = some state →
          ∃ other ∈ log ++ [effect], ∃ saved, other.saves = some saved ∧
            saved.id = workOrderId ∧ state = { saved with
              createdAt := state.createdAt, version := state.version } := by
        intro hlast
        obtain ⟨other, hother, hsaved⟩ := ih hlast
        exact ⟨other, List.mem_append_left _ hother, hsaved⟩
      have hnew : effect ∈ log ++ [effect] :=
        List.mem_append_right _ (List.mem_singleton_self _)
      rw [lastSaved_append, List.foldl_cons, List.foldl_nil] at h
      cases effect with
      | created saved =>
          rw [SagaEffect.leaves] at h
          split at h
          · rename_i hid
            cases h
            exact ⟨_, hnew, saved, rfl, hid, rfl⟩
          · exact hold h
      | saved edit =>
          rw [SagaEffect.leaves] at h
          split at h
          · rename_i hid
            cases h
            exact ⟨_, hnew, edit.changed, rfl, hid, rfl⟩
          · exact hold h
      | _ => exact hold h

/-- A saved edit loaded what an earlier save wrote. -/
theorem loaded_of_reaches (h : SagaReaches settings config log) {edit : Edit}
    {earlier later : List SagaEffect} (hlog : log = earlier ++ .saved edit :: later) :
    ∃ effect ∈ earlier, ∃ saved, effect.saves = some saved ∧
      saved.id = edit.changed.id ∧ LoadedFrom saved edit.loaded := by
  obtain ⟨state, hlast, hsame⟩ := (serial_of_reaches h).1.follow earlier edit later hlog
  obtain ⟨effect, heffect, saved, hsaves, hid, hstate⟩ := lastSaved_mem hlast
  have hmem : SagaEffect.saved edit ∈ log := by
    rw [hlog]
    exact List.mem_append_right _ List.mem_cons_self
  obtain ⟨-, operation, hby⟩ := (performed_of_reaches h).1 _ hmem
  refine ⟨effect, heffect, saved, hsaves, hid, ?_, hby.ordered, hby.recorded⟩
  have hcreated : edit.loaded.createdAt = state.createdAt :=
    congrArg WorkOrderRow.createdAt hsame.row
  rw [hcreated, hsame.version, ← hstate]
  exact hsame

/-- Every work order that was saved is one that the methods and loads lead to. -/
theorem reachable_of_reaches (h : SagaReaches settings config log) :
    ∀ effect ∈ log, ∀ saved, effect.saves = some saved → saved.Reachable := by
  have hperformed := (performed_of_reaches h).1
  have hloads : ∀ earlier edit later, log = earlier ++ .saved edit :: later →
      ∃ effect ∈ earlier, ∃ saved, effect.saves = some saved ∧
        saved.id = edit.changed.id ∧ LoadedFrom saved edit.loaded :=
    fun earlier edit later hlog => loaded_of_reaches h hlog
  clear h
  induction log using List.reverseRecOn with
  | nil => exact fun _ heffect => absurd heffect List.not_mem_nil
  | append_singleton log effect ih =>
      have hearlier := ih
        (fun other hother => hperformed other (List.mem_append_left _ hother))
        (fun earlier edit later hlog => hloads earlier edit (later ++ [effect]) (by
          rw [hlog, List.append_assoc, List.cons_append]))
      intro other hother saved hsaves
      rcases List.mem_append.mp hother with hold | hnew
      · exact hearlier other hold saved hsaves
      · obtain rfl := List.mem_singleton.mp hnew
        have hperform := hperformed other hother
        cases other with
        | created opened =>
            cases hsaves
            exact Assembled.reachable hperform
        | saved edit =>
            cases hsaves
            obtain ⟨-, operation, hby⟩ := hperform
            obtain ⟨effect, heffect, loadedFrom, hsaved, -, hload⟩ := hloads log edit [] rfl
            exact reachable_of_runs
              ((hearlier effect heffect _ hsaved).loaded hload) hby.runs
        | _ => cases hsaves

end Reachable

end WorkOrders

end Workshop
