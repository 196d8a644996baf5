/-
What a statement of the saga can do, move by move, with the place it was made
from and what the program then holds.
-/
import Workshop.WorkOrders.StockSaga

namespace Workshop

namespace WorkOrders

open Inventory

/-- The place of a request that inventory serves on its own. -/
def shelfPlace : StockPlace → SagaPlace
  | .saving item => .shelf item
  | _ => .idle

/-- The place an undo starts from, and on whose behalf. -/
inductive StartsUndo : SagaPlace → Errand → Prop
  | compensation (undo : StockStep) :
      StartsUndo (.compensating undo) (.compensation undo)
  | application (step : ClaimedStockStep) (queue : List ClaimedStockStep)
      (hkind : step.kind = .undoConsumption) :
      StartsUndo (.applying step queue) (.application step queue)

theorem StartsUndo.undoKind {place : SagaPlace} {step : ClaimedStockStep}
    {queue : List ClaimedStockStep}
    (h : StartsUndo place (.application step queue)) :
    step.kind = .undoConsumption := by
  cases h
  assumption

/-- One move of a program. -/
inductive SagaMove (settings : OutboxSettings) (db : WorkshopDb) :
    SagaPlace → SagaInput → SagaOutcome → Prop
  /-- The program ends: it crashed, failed or was refused. -/
  | leave (place : SagaPlace) (input : SagaInput) :
      SagaMove settings db place input (stay db .idle)
  | giveUp {place : SagaPlace} (input : SagaInput) (withdrawal : Withdrawal)
      (hplace : place = .consuming withdrawal ∨ place = .committing withdrawal) :
      SagaMove settings db place input (stay db (.compensating withdrawal.undo))
  | handOver (input : SagaInput) (undo : StockStep) :
      SagaMove settings db (.compensating undo) input (stay db (.releasing undo))
  | errandFails {place : SagaPlace} (input : SagaInput) (errand : Errand)
      (error : String)
      (hplace : (∃ named, place = .undoing errand named) ∨
        place = .completing errand) :
      SagaMove settings db place input (stay db (errand.onError error))
  | stepFails {place : SagaPlace} (input : SagaInput) (step : ClaimedStockStep)
      (queue : List ClaimedStockStep) (error : String)
      (hplace : place = .applying step queue ∨
        ∃ closure candidates, place = .closing step queue closure candidates) :
      SagaMove settings db place input (stay db (.failing step queue error))
  | openNew (command : CreateCommand) (now : Timestamp) (nextId : Uuid)
      (workOrder : WorkOrder)
      (hopen : command.openWith db.nextId now = .ok (nextId, workOrder)) :
      SagaMove settings db .idle (.create command now)
        (stay (db.withNextId nextId) (.creating workOrder))
  | readRow (number : String) (request : WorkOrderRequest) (row : WorkOrderRow)
      (hrow : row ∈ db.tables.workOrders) :
      SagaMove settings db .idle (.request number request)
        (stay db (.loadingServices request row))
  | readServices (surroundings : Surroundings) (request : WorkOrderRequest)
      (row : WorkOrderRow) :
      SagaMove settings db (.loadingServices request row) (.proceed surroundings)
        (stay db (.loadingParts request row
          (db.tables.findServices surroundings.serviceOrder row.id)))
  | readParts (surroundings : Surroundings) (request : WorkOrderRequest)
      (row : WorkOrderRow) (services : List ServiceRow) :
      SagaMove settings db (.loadingParts request row services)
        (.proceed surroundings)
        (stay db (.loadingBudgets request row services
          (db.tables.findParts surroundings.partOrder row.id)))
  | readBudgets (surroundings : Surroundings) (request : WorkOrderRequest)
      (row : WorkOrderRow) (services : List ServiceRow) (parts : List PartRow) :
      SagaMove settings db (.loadingBudgets request row services parts)
        (.proceed surroundings)
        (stay (db.withNextId (db.nextId + 2))
          (request.prepare
            (toDomain row services parts
              (db.tables.findBudgets surroundings.budgetOrder row.id))
            db.nextId surroundings.now surroundings.cancelsInExecution).place)
  | poll : SagaMove settings db .idle .applyDue (stay db (.claiming none))
  | retry (operationId : OperationId) (now : Timestamp) :
      SagaMove settings db .idle (.retry operationId now)
        (stay { db with steps := StockSteps.retry db.steps operationId now } .idle)
  | shelfRead (input : SagaInput) (nextId : Uuid) (hle : db.nextId ≤ nextId)
      (next : StockPlace) (hnext : FreshCopy db.inventory next) :
      SagaMove settings db .idle input
        (stay (db.withNextId nextId) (shelfPlace next))
  | shelfSave (surroundings : Surroundings) (item : InventoryItem)
      (inventory : InventoryDb) (hsave : db.inventory.save item = .ok inventory) :
      SagaMove settings db (.shelf item) (.proceed surroundings)
        (stay { db with inventory } .idle)
  | create (surroundings : Surroundings) (workOrder : WorkOrder)
      (tables : WorkOrderTables) (hsave : db.tables.save workOrder = .ok tables) :
      SagaMove settings db (.creating workOrder) (.proceed surroundings)
        { store := { db with tables }
          place := .idle, effects := [.created workOrder] }
  | save (surroundings : Surroundings) (edit : Edit) (tables : WorkOrderTables)
      (hsave : db.tables.save edit.changed = .ok tables) :
      SagaMove settings db (.saving edit none) (.proceed surroundings)
        { store := { db with tables }, place := .idle, effects := [.saved edit] }
  | saveStep (surroundings : Surroundings) (edit : Edit) (step : StockStep)
      (tables : WorkOrderTables) (steps : List StockStepRow)
      (hsave : db.tables.save edit.changed = .ok tables)
      (hinsert : StockSteps.insert db.steps
        (step.toRow .pending surroundings.now surroundings.now) = .ok steps) :
      SagaMove settings db (.saving edit (some step)) (.proceed surroundings)
        { store := { db with tables, steps }
          place := .claiming (some [step.operationId]), effects := [.saved edit] }
  | arm (surroundings : Surroundings) (withdrawal : Withdrawal)
      (dueAt : Timestamp) (steps : List StockStepRow)
      (hinsert : StockSteps.insert db.steps
        (withdrawal.undo.toRow .armed dueAt surroundings.now) = .ok steps) :
      SagaMove settings db (.arming withdrawal) (.proceed surroundings)
        (stay { db with steps } (.consuming withdrawal))
  | consume (surroundings : Surroundings) (withdrawal : Withdrawal)
      (inventory : InventoryDb)
      (hconsume : db.inventory.consumeStockBatch withdrawal.consumeCommand
        surroundings.now = .ok inventory) :
      SagaMove settings db (.consuming withdrawal) (.proceed surroundings)
        { store := { db with inventory }
          place := .committing withdrawal
          effects := [.consumed withdrawal.undo.operationId] }
  | commit (surroundings : Surroundings) (withdrawal : Withdrawal)
      (tables : WorkOrderTables) (steps : List StockStepRow)
      (harmed : StockSteps.isArmed db.steps withdrawal.undo.operationId = true)
      (hsave : db.tables.save withdrawal.edit.changed = .ok tables)
      (hinsert : StockSteps.insert
        (StockSteps.disarm db.steps withdrawal.undo.operationId surroundings.now)
        (withdrawal.confirmation.toRow .pending surroundings.now surroundings.now) =
          .ok steps) :
      SagaMove settings db (.committing withdrawal) (.proceed surroundings)
        { store := { db with tables, steps }
          place := .claiming (some [withdrawal.confirmation.operationId])
          effects :=
            [.saved withdrawal.edit, .withdrawn withdrawal.undo.operationId] }
  /-- The first read of an undo, which found nothing to give back. -/
  | findNothing {place : SagaPlace} (surroundings : Surroundings) (errand : Errand)
      (hplace : StartsUndo place errand)
      (hnone : db.inventory.undoNames errand.step.undoCommand = []) :
      SagaMove settings db place (.proceed surroundings)
        { store := db
          place := .completing errand, effects := errand.nothingFound }
  | nameItems {place : SagaPlace} (surroundings : Surroundings) (errand : Errand)
      (named : List ItemId)
      (hplace : StartsUndo place errand)
      (hnamed : db.inventory.undoNames errand.step.undoCommand ≠ []) :
      SagaMove settings db place (.proceed surroundings)
        (stay db (.undoing errand named))
  | undo (surroundings : Surroundings) (errand : Errand) (named : List ItemId)
      (inventory : InventoryDb)
      (hundo : db.inventory.undoConsumption errand.step.undoCommand named
        surroundings.now = .ok inventory) :
      SagaMove settings db (.undoing errand named) (.proceed surroundings)
        (stay { db with inventory } (.completing errand))
  | complete (surroundings : Surroundings) (errand : Errand) :
      SagaMove settings db (.completing errand) (.proceed surroundings)
        (stay
          { db with
            steps := StockSteps.complete db.steps errand.step.operationId
              surroundings.now }
          errand.afterwards)
  | release (surroundings : Surroundings) (undo : StockStep) :
      SagaMove settings db (.releasing undo) (.proceed surroundings)
        (stay
          { db with
            steps := StockSteps.release db.steps undo.operationId
              surroundings.now }
          .idle)
  | claim (surroundings : Surroundings) (operationIds : Option (List OperationId)) :
      SagaMove settings db (.claiming operationIds) (.proceed surroundings)
        (claimDue settings db operationIds surroundings)
  | confirm (surroundings : Surroundings) (step : ClaimedStockStep)
      (queue : List ClaimedStockStep) (operationId : OperationId)
      (hkind : step.kind = .confirmConsumption)
      (hoperation : step.consumptionOperationId = some operationId) :
      SagaMove settings db (.applying step queue) (.proceed surroundings)
        { store := { db with
            inventory := db.inventory.confirmConsumptionsOfOperation operationId
              surroundings.now }
          place := .completing (.application step queue)
          effects := [.applied step.toStockStep] }
  | restore (surroundings : Surroundings) (step : ClaimedStockStep)
      (queue : List ClaimedStockStep) (inventory : InventoryDb)
      (hkind : step.kind = .restore)
      (hrestore : db.inventory.restoreStockBatch surroundings.movementOrder
        step.toStockStep.restoreCommand surroundings.now = .ok inventory) :
      SagaMove settings db (.applying step queue) (.proceed surroundings)
        { store := { db with inventory }
          place := .completing (.application step queue)
          effects := [.applied step.toStockStep] }
  /-- The first read of a settlement or a write-off. -/
  | pick (surroundings : Surroundings) (step : ClaimedStockStep)
      (queue : List ClaimedStockStep) (closure : Closure)
      (hkind : closure = .settle ∧ step.kind = .settle ∨
        closure = .writeOff ∧ step.kind = .writeOff) :
      SagaMove settings db (.applying step queue) (.proceed surroundings)
        (stay db (.closing step queue closure
          (db.inventory.closureCandidates closure step.workOrderId)))
  | close (surroundings : Surroundings) (step : ClaimedStockStep)
      (queue : List ClaimedStockStep) (closure : Closure)
      (candidates : List ClosureCandidate) :
      SagaMove settings db (.closing step queue closure candidates)
        (.proceed surroundings)
        { store := { db with
            inventory := db.inventory.closeConsumptions closure candidates
              step.actorUserId surroundings.now }
          place := .completing (.application step queue)
          effects := [.applied step.toStockStep] }
  | recordError (surroundings : Surroundings) (step : ClaimedStockStep)
      (queue : List ClaimedStockStep) (error : String) :
      SagaMove settings db (.failing step queue error) (.proceed surroundings)
        (stay
          { db with
            steps := recordError settings db.steps step error surroundings.now }
          (nextApplication queue))

section Inversion

variable {settings : OutboxSettings} {db : WorkshopDb} {place : SagaPlace}
variable {input : SagaInput} {out : SagaOutcome}

/-- Where a program goes when its statement fails. -/
theorem sagaMove_of_onError (error : String) :
    SagaMove settings db place input (stay db (place.onError error)) := by
  cases place with
  | consuming withdrawal => exact SagaMove.giveUp input withdrawal (Or.inl rfl)
  | committing withdrawal => exact SagaMove.giveUp input withdrawal (Or.inr rfl)
  | compensating undo => exact SagaMove.handOver input undo
  | undoing errand named =>
      exact SagaMove.errandFails input errand error (Or.inl ⟨named, rfl⟩)
  | completing errand =>
      exact SagaMove.errandFails input errand error (Or.inr rfl)
  | applying step queue =>
      exact SagaMove.stepFails input step queue error (Or.inl rfl)
  | closing step queue closure candidates =>
      exact SagaMove.stepFails input step queue error
        (Or.inr ⟨closure, candidates, rfl⟩)
  | _ => exact SagaMove.leave _ input

theorem insertStep_ok {step : StockStep} {status : StepStatus}
    {dueAt now : Timestamp} {db' : WorkshopDb}
    (h : db.insertStep step status dueAt now = .ok db') :
    ∃ steps, StockSteps.insert db.steps (step.toRow status dueAt now) = .ok steps ∧
      db' = { db with steps } := by
  simp only [WorkshopDb.insertStep] at h
  split at h
  · split at h
    · cases h
    · rename_i steps hsteps
      cases h
      exact ⟨steps, hsteps, rfl⟩
  · cases h

theorem saveWithStep_ok {workOrder : WorkOrder} {step : Option StockStep}
    {now : Timestamp} {db' : WorkshopDb}
    (h : db.saveWithStep workOrder step now = .ok db') :
    ∃ tables, db.tables.save workOrder = .ok tables ∧
      match step with
      | none => db' = { db with tables }
      | some step => ∃ steps, StockSteps.insert db.steps
          (step.toRow .pending now now) = .ok steps ∧
          db' = { db with tables, steps } := by
  obtain ⟨tables, hsave, h⟩ := bind_eq_ok_iff.mp h
  refine ⟨tables, hsave, ?_⟩
  cases step with
  | none => exact (pure_eq_ok_iff.mp h).symm
  | some step =>
      obtain ⟨steps, hinsert, hdb⟩ := insertStep_ok h
      exact ⟨steps, hinsert, hdb⟩

theorem sagaMove_of_startUndo {surroundings : Surroundings} {errand : Errand}
    (hplace : StartsUndo place errand) :
    SagaMove settings db place (.proceed surroundings) (startUndo db errand) := by
  unfold startUndo
  split
  · rename_i hnone
    exact SagaMove.findNothing surroundings errand hplace hnone
  · rename_i hnamed
    exact SagaMove.nameItems surroundings errand _ hplace hnamed

theorem sagaMove_of_runStep {surroundings : Surroundings} {step : ClaimedStockStep}
    {queue : List ClaimedStockStep} :
    SagaMove settings db (.applying step queue) (.proceed surroundings)
      (runStep db step queue surroundings) := by
  unfold runStep
  split
  · rename_i hkind
    exact sagaMove_of_startUndo (.application step queue hkind)
  · rename_i hkind
    split
    · exact SagaMove.stepFails _ step queue _ (Or.inl rfl)
    · rename_i operationId hoperation
      exact SagaMove.confirm surroundings step queue operationId hkind hoperation
  · rename_i hkind
    split
    · exact SagaMove.stepFails _ step queue _ (Or.inl rfl)
    · rename_i inventory hrestore
      exact SagaMove.restore surroundings step queue inventory hkind hrestore
  · rename_i hkind
    exact SagaMove.pick surroundings step queue .settle (Or.inl ⟨rfl, hkind⟩)
  · rename_i hkind
    exact SagaMove.pick surroundings step queue .writeOff (Or.inr ⟨rfl, hkind⟩)

/-- A statement of a request that inventory serves on its own. -/
theorem sagaMove_of_shelf {stockInput : StockInput} {stockOut : StockOutcome}
    (hshelf : isShelfInput stockInput = true)
    (hexec : stockExec db.inventory .idle stockInput = some stockOut) :
    SagaMove settings db .idle input (shelfOutcome db stockOut) := by
  have hmove := stockMove_of_exec hexec
  obtain ⟨store, next, effects⟩ := stockOut
  cases hmove with
  | read nextId hle next hnext =>
      have hout : shelfOutcome db ⟨{ db.inventory with nextId }, next, effects⟩ =
          stay (db.withNextId nextId) (shelfPlace next) := by
        cases next <;> rfl
      rw [hout]
      exact SagaMove.shelfRead input nextId hle next hnext
  | consume command now hconsume => cases hshelf
  | restore command order now hrestore => cases hshelf
  | confirm operationId now => cases hshelf

/-- Every statement of the saga is one of the moves. -/
theorem sagaMove_of_exec (hexec : sagaExec settings db place input = some out) :
    SagaMove settings db place input out := by
  unfold sagaExec at hexec
  split at hexec
  case h_1 =>
    cases hexec
    exact SagaMove.leave _ _
  case h_2 =>
    cases hexec
    exact sagaMove_of_onError _
  case h_3 command now =>
    split at hexec
    · cases hexec
      exact SagaMove.leave _ _
    · rename_i nextId workOrder hopen
      cases hexec
      exact SagaMove.openNew command now nextId workOrder hopen
  case h_4 number request =>
    split at hexec
    · cases hexec
      exact SagaMove.leave _ _
    · rename_i row hrow
      cases hexec
      exact SagaMove.readRow number request row (List.mem_of_find?_eq_some hrow)
  case h_5 =>
    cases hexec
    exact SagaMove.poll
  case h_6 operationId now =>
    cases hexec
    exact SagaMove.retry operationId now
  case h_7 stockInput =>
    split at hexec
    · rename_i hshelf
      obtain ⟨stockOut, hstock, rfl⟩ := Option.map_eq_some_iff.mp hexec
      exact sagaMove_of_shelf hshelf hstock
    · cases hexec
  case h_8 item surroundings =>
    obtain ⟨stockOut, hstock, rfl⟩ := Option.map_eq_some_iff.mp hexec
    cases hstock
    unfold commit
    split
    · rename_i inventory hsave
      exact SagaMove.shelfSave surroundings item inventory hsave
    · exact SagaMove.leave _ _
  case h_9 request row surroundings =>
    cases hexec
    exact SagaMove.readServices surroundings request row
  case h_10 request row services surroundings =>
    cases hexec
    exact SagaMove.readParts surroundings request row services
  case h_11 request row services parts surroundings =>
    cases hexec
    exact SagaMove.readBudgets surroundings request row services parts
  case h_12 workOrder surroundings =>
    split at hexec
    · cases hexec
      exact SagaMove.leave _ _
    · rename_i tables hsave
      cases hexec
      exact SagaMove.create surroundings workOrder tables hsave
  case h_13 edit step surroundings =>
    split at hexec
    · cases hexec
      exact SagaMove.leave _ _
    · rename_i db' hsaved
      cases hexec
      obtain ⟨tables, hsave, hstep⟩ := saveWithStep_ok hsaved
      cases step with
      | none =>
          cases hstep
          exact SagaMove.save surroundings edit tables hsave
      | some step =>
          obtain ⟨steps, hinsert, rfl⟩ := hstep
          exact SagaMove.saveStep surroundings edit step tables steps hsave hinsert
  case h_14 withdrawal surroundings =>
    split at hexec
    · cases hexec
      exact SagaMove.leave _ _
    · rename_i db' harmed
      cases hexec
      obtain ⟨steps, hinsert, rfl⟩ := insertStep_ok harmed
      exact SagaMove.arm surroundings withdrawal _ steps hinsert
  case h_15 withdrawal surroundings =>
    split at hexec
    · cases hexec
      exact SagaMove.giveUp _ withdrawal (Or.inl rfl)
    · rename_i inventory hconsume
      cases hexec
      exact SagaMove.consume surroundings withdrawal inventory hconsume
  case h_16 withdrawal surroundings =>
    split at hexec
    · cases hexec
      exact SagaMove.giveUp _ withdrawal (Or.inr rfl)
    · rename_i db' hcommit
      cases hexec
      unfold WorkshopDb.commitWithdrawal at hcommit
      split at hcommit
      · rename_i harmed
        obtain ⟨tables, hsave, steps, hinsert, rfl⟩ := saveWithStep_ok hcommit
        exact SagaMove.commit surroundings withdrawal tables steps harmed hsave
          hinsert
      · cases hcommit
  case h_17 undo surroundings =>
    cases hexec
    exact sagaMove_of_startUndo (.compensation undo)
  case h_18 errand named surroundings =>
    split at hexec
    · cases hexec
      exact SagaMove.errandFails _ errand _ (Or.inl ⟨named, rfl⟩)
    · rename_i inventory hundo
      cases hexec
      exact SagaMove.undo surroundings errand named inventory hundo
  case h_19 errand surroundings =>
    cases hexec
    exact SagaMove.complete surroundings errand
  case h_20 undo surroundings =>
    cases hexec
    exact SagaMove.release surroundings undo
  case h_21 operationIds surroundings =>
    cases hexec
    exact SagaMove.claim surroundings operationIds
  case h_22 step queue surroundings =>
    cases hexec
    exact sagaMove_of_runStep
  case h_23 step queue closure candidates surroundings =>
    cases hexec
    exact SagaMove.close surroundings step queue closure candidates
  case h_24 step queue error surroundings =>
    cases hexec
    exact SagaMove.recordError surroundings step queue error
  case h_25 => cases hexec

end Inversion

end WorkOrders

end Workshop
