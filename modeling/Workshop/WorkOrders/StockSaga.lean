/-
The stock saga: the requests of work orders, the appliers of the outbox and the
requests inventory serves on its own, as programs that share the tables and
interleave statement by statement.  A transaction is one statement; it commits
as a whole or leaves the tables it found.
-/
import Workshop.Inventory.StockProgram
import Workshop.WorkOrders.Repository
import Workshop.WorkOrders.Requests

namespace Workshop

namespace WorkOrders

open Inventory

/-- The tables of both modules.  The id generator is the one of inventory. -/
structure WorkshopDb where
  tables : WorkOrderTables
  steps : List StockStepRow
  inventory : InventoryDb

namespace WorkshopDb

/-- The next id of the generator. -/
def nextId (db : WorkshopDb) : Uuid := db.inventory.nextId

/-- The tables once the generator handed out every id below this one. -/
def withNextId (db : WorkshopDb) (nextId : Uuid) : WorkshopDb :=
  { db with inventory := { db.inventory with nextId } }

/-- `insert`: the step goes to the row of its work order. -/
def insertStep (db : WorkshopDb) (step : StockStep) (status : StepStatus)
    (dueAt now : Timestamp) : Except StoreError WorkshopDb :=
  if db.tables.workOrders.any fun row => row.id = step.workOrderId then
    match StockSteps.insert db.steps (step.toRow status dueAt now) with
    | .error _ => .error .constraintViolation
    | .ok steps => .ok { db with steps }
  else .error .workOrderRowNotFound

/-- The transaction that saves a work order and records its step. -/
def saveWithStep (db : WorkshopDb) (workOrder : WorkOrder)
    (step : Option StockStep) (now : Timestamp) : Except StoreError WorkshopDb := do
  let tables ← db.tables.save workOrder
  match step with
  | none => return { db with tables }
  | some step => ({ db with tables }).insertStep step .pending now now

/-- The transaction that disarms the undo step, saves the work order and
records the confirmation. -/
def commitWithdrawal (db : WorkshopDb) (withdrawal : Withdrawal)
    (now : Timestamp) : Except StoreError WorkshopDb :=
  if StockSteps.isArmed db.steps withdrawal.undo.operationId then
    { db with
      steps := StockSteps.disarm db.steps withdrawal.undo.operationId now
    }.saveWithStep withdrawal.edit.changed (some withdrawal.confirmation) now
  else .error .concurrentModification

end WorkshopDb

/-- On whose behalf an undo runs and a step is completed. -/
inductive Errand
  /-- The request whose withdrawal failed. -/
  | compensation (undo : StockStep)
  /-- An applier, with the steps it still has to apply. -/
  | application (step : ClaimedStockStep) (queue : List ClaimedStockStep)

def Errand.step : Errand → StockStep
  | .compensation undo => undo
  | .application step _ => step.toStockStep

/-- Where a program stands between two statements. -/
inductive SagaPlace
  | idle
  /-- The root row is read; the services are next. -/
  | loadingServices (request : WorkOrderRequest) (row : WorkOrderRow)
  | loadingParts (request : WorkOrderRequest) (row : WorkOrderRow)
      (services : List ServiceRow)
  | loadingBudgets (request : WorkOrderRequest) (row : WorkOrderRow)
      (services : List ServiceRow) (parts : List PartRow)
  | creating (workOrder : WorkOrder)
  | saving (edit : Edit) (step : Option StockStep)
  | arming (withdrawal : Withdrawal)
  | consuming (withdrawal : Withdrawal)
  | committing (withdrawal : Withdrawal)
  /-- `compensate`, before the first read of its undo. -/
  | compensating (undo : StockStep)
  /-- An undo named its items; the transaction that locks them is next. -/
  | undoing (errand : Errand) (named : List ItemId)
  | completing (errand : Errand)
  | releasing (undo : StockStep)
  | claiming (operationIds : Option (List OperationId))
  | applying (step : ClaimedStockStep) (queue : List ClaimedStockStep)
  /-- A settlement or a write-off picked its consumptions. -/
  | closing (step : ClaimedStockStep) (queue : List ClaimedStockStep)
      (closure : Closure) (candidates : List ClosureCandidate)
  | failing (step : ClaimedStockStep) (queue : List ClaimedStockStep)
      (error : String)
  /-- A request inventory serves on its own, about to save an item. -/
  | shelf (item : InventoryItem)

/-- The next step of an applier, or the end of its work. -/
def nextApplication : List ClaimedStockStep → SagaPlace
  | [] => .idle
  | step :: queue => .applying step queue

/-- Where a program goes once its step is complete. -/
def Errand.afterwards : Errand → SagaPlace
  | .compensation _ => .idle
  | .application _ queue => nextApplication queue

/-- Where a program goes when its undo or its completion failed. -/
def Errand.onError (error : String) : Errand → SagaPlace
  | .compensation undo => .releasing undo
  | .application step queue => .failing step queue error

/-- Where a program goes when its statement failed. -/
def SagaPlace.onError (error : String) : SagaPlace → SagaPlace
  | .consuming withdrawal | .committing withdrawal =>
      .compensating withdrawal.undo
  | .compensating undo => .releasing undo
  | .undoing errand _ | .completing errand => errand.onError error
  | .applying step queue | .closing step queue _ _ => .failing step queue error
  | _ => .idle

/-- What a statement finds outside the tables: the clock, the order of rows an
`ORDER BY` leaves tied, the steps other claims have locked, and whether the
actor holds `cancelsInExecution`. -/
structure Surroundings where
  now : Timestamp := 0
  serviceOrder : RowOrder ServiceRow := .byKey
  partOrder : RowOrder PartRow := .byKey
  budgetOrder : RowOrder BudgetRow := .byKey
  movementOrder : RowOrder MovementRow := .byKey
  claimOrder : RowOrder ClaimedStockStep := .byKey
  locked : List OperationId := []
  cancelsInExecution : Bool := false

inductive SagaInput
  | create (command : CreateCommand) (now : Timestamp)
  | request (number : String) (request : WorkOrderRequest)
  /-- The processor polls. -/
  | applyDue
  /-- An operator sets a failed step back to pending. -/
  | retry (operationId : OperationId) (now : Timestamp)
  | shelf (input : StockInput)
  /-- The statement the program stands at runs. -/
  | proceed (surroundings : Surroundings)
  /-- The statement reports an error, so it has rolled back. -/
  | fail (error : String)
  | crash

/-- What the runs of the saga commit, in order. -/
inductive SagaEffect
  | created (workOrder : WorkOrder)
  | saved (edit : Edit)
  /-- The transaction of a withdrawal committed. -/
  | withdrawn (operationId : OperationId)
  | consumed (operationId : OperationId)
  | claimed (operationId : OperationId)
  /-- The undo of an applier found nothing to give back. -/
  | foundNothing (operationId : OperationId)
  /-- Inventory committed what a step that is no undo asks for. -/
  | applied (step : StockStep)
deriving DecidableEq, Repr

abbrev SagaOutcome := Outcome WorkshopDb SagaPlace SagaEffect

/-- A request that inventory serves without a work order. -/
def isShelfInput : StockInput → Bool
  | .create .. | .update .. | .deactivate .. | .replenish .. | .adjust .. => true
  | _ => false

/-- The outcome of a statement that wrote nothing. -/
def stay (db : WorkshopDb) (place : SagaPlace) : SagaOutcome :=
  { store := db, place }

/-- The outcome of a statement of inventory on its own. -/
def shelfOutcome (db : WorkshopDb) (out : StockOutcome) : SagaOutcome where
  store := { db with inventory := out.store }
  place :=
    match out.place with
    | .saving item => .shelf item
    | _ => .idle

/-- The place a request reaches after its work in memory. -/
def Prepared.place : Prepared → SagaPlace
  | .refused => .idle
  | .withdraw withdrawal => .arming withdrawal
  | .save edit step => .saving edit step

def milliseconds (seconds : Nat) : Nat := seconds * 1000

/-- `RETRY_DELAYS_SECONDS` -/
def retryDelaysSeconds : List Nat := [1, 5, 30, 120, 600, 3600]

/-- The delay after a failed attempt. -/
def retryDelaySeconds (attempts : Nat) : Nat :=
  retryDelaysSeconds.getD (min attempts retryDelaysSeconds.length - 1) 0

/-- `StockStepApplier.fail` -/
def recordError (settings : OutboxSettings) (steps : List StockStepRow)
    (step : ClaimedStockStep) (error : String) (now : Timestamp) :
    List StockStepRow :=
  if settings.maxAttempts ≤ step.attempts then
    StockSteps.markFailed steps step.operationId error
  else
    StockSteps.recordFailure steps step.operationId error
      (now + milliseconds (retryDelaySeconds step.attempts))

/-- `CLAIM_BATCH_SIZE` -/
def claimBatchSize : Nat := 20

/-- `claimAndApply`, up to the steps it claimed. -/
def claimDue (settings : OutboxSettings) (db : WorkshopDb)
    (operationIds : Option (List OperationId)) (surroundings : Surroundings) :
    SagaOutcome :=
  let limit := match operationIds with
    | none => claimBatchSize
    | some ids => ids.length
  let picked := StockSteps.pickedRows db.steps surroundings.now limit operationIds
    surroundings.locked
  { store := { db with
      steps := StockSteps.markClaimed db.steps picked
        (surroundings.now + milliseconds settings.graceSeconds) }
    place := nextApplication
      (StockSteps.claimedSteps picked surroundings.claimOrder)
    effects := picked.map fun row => .claimed row.operationId }

/-- The command an undo step stands for. -/
def StockStep.undoCommand (step : StockStep) : UndoConsumptionCommand where
  operationId := step.operationId
  actorUserId := step.actorUserId

def StockStep.restoreCommand (step : StockStep) : RestoreStockBatchCommand where
  lines := step.lines.getD []
  workOrderId := step.workOrderId
  actorUserId := step.actorUserId
  operationId := step.operationId

/-- The command a withdrawal consumes with. -/
def Withdrawal.consumeCommand (withdrawal : Withdrawal) :
    ConsumeStockBatchCommand where
  lines := withdrawal.lines
  workOrderId := withdrawal.undo.workOrderId
  actorUserId := withdrawal.undo.actorUserId
  operationId := some withdrawal.undo.operationId

/-- What an undo that found nothing to give back leaves in the log. -/
def Errand.nothingFound : Errand → List SagaEffect
  | .compensation _ => []
  | .application step _ => [.foundNothing step.operationId]

/-- The first read of an undo. -/
def startUndo (db : WorkshopDb) (errand : Errand) : SagaOutcome :=
  match db.inventory.undoNames errand.step.undoCommand with
  | [] =>
      { store := db
        place := .completing errand
        effects := errand.nothingFound }
  | named => stay db (.undoing errand named)

/-- `StockStepApplier.run`, up to the commit of a step that takes one
statement, or to the first read of one that takes two. -/
def runStep (db : WorkshopDb) (step : ClaimedStockStep)
    (queue : List ClaimedStockStep) (surroundings : Surroundings) : SagaOutcome :=
  match step.kind with
  | .undoConsumption => startUndo db (.application step queue)
  | .confirmConsumption =>
      match step.consumptionOperationId with
      | none =>
          stay db (.failing step queue
            "A confirmation step carries no consumption operation id")
      | some operationId =>
          { store := { db with
              inventory := db.inventory.confirmConsumptionsOfOperation operationId
                surroundings.now }
            place := .completing (.application step queue)
            effects := [.applied step.toStockStep] }
  | .restore =>
      match db.inventory.restoreStockBatch surroundings.movementOrder
          step.toStockStep.restoreCommand surroundings.now with
      | .error error => stay db (.failing step queue error.message)
      | .ok inventory =>
          { store := { db with inventory }
            place := .completing (.application step queue)
            effects := [.applied step.toStockStep] }
  | .settle =>
      stay db (.closing step queue .settle
        (db.inventory.closureCandidates .settle step.workOrderId))
  | .writeOff =>
      stay db (.closing step queue .writeOff
        (db.inventory.closureCandidates .writeOff step.workOrderId))

/-- One statement of a program. -/
def sagaExec (settings : OutboxSettings) (db : WorkshopDb) :
    SagaPlace → SagaInput → Option SagaOutcome
  | _, .crash => some (stay db .idle)
  | place, .fail error => some (stay db (place.onError error))
  | .idle, .create command now =>
      match command.openWith db.nextId now with
      | .error _ => some (stay db .idle)
      | .ok (nextId, workOrder) =>
          some (stay (db.withNextId nextId) (.creating workOrder))
  | .idle, .request number request =>
      match db.tables.findRow number with
      | none => some (stay db .idle)
      | some row => some (stay db (.loadingServices request row))
  | .idle, .applyDue => some (stay db (.claiming none))
  | .idle, .retry operationId now =>
      some {
        store := { db with steps := StockSteps.retry db.steps operationId now }
        place := .idle }
  | .idle, .shelf input =>
      if isShelfInput input then
        (stockExec db.inventory .idle input).map (shelfOutcome db)
      else none
  | .shelf item, .proceed surroundings =>
      (stockExec db.inventory (.saving item) (.proceed surroundings.now)).map
        (shelfOutcome db)
  | .loadingServices request row, .proceed surroundings =>
      some (stay db (.loadingParts request row
        (db.tables.findServices surroundings.serviceOrder row.id)))
  | .loadingParts request row services, .proceed surroundings =>
      some (stay db (.loadingBudgets request row services
        (db.tables.findParts surroundings.partOrder row.id)))
  | .loadingBudgets request row services parts, .proceed surroundings =>
      let workOrder := toDomain row services parts
        (db.tables.findBudgets surroundings.budgetOrder row.id)
      -- A request draws two ids at most.
      some (stay (db.withNextId (db.nextId + 2))
        (request.prepare workOrder db.nextId surroundings.now
          surroundings.cancelsInExecution).place)
  | .creating workOrder, .proceed _ =>
      match db.tables.save workOrder with
      | .error _ => some (stay db .idle)
      | .ok tables =>
          some {
            store := { db with tables }
            place := .idle
            effects := [.created workOrder] }
  | .saving edit step, .proceed surroundings =>
      match db.saveWithStep edit.changed step surroundings.now with
      | .error _ => some (stay db .idle)
      | .ok db' =>
          some {
            store := db'
            place := match step with
              | none => .idle
              | some step => .claiming (some [step.operationId])
            effects := [.saved edit] }
  | .arming withdrawal, .proceed surroundings =>
      match db.insertStep withdrawal.undo .armed
          (surroundings.now + milliseconds settings.graceSeconds)
          surroundings.now with
      | .error _ => some (stay db .idle)
      | .ok db' => some (stay db' (.consuming withdrawal))
  | .consuming withdrawal, .proceed surroundings =>
      match db.inventory.consumeStockBatch withdrawal.consumeCommand
          surroundings.now with
      | .error _ => some (stay db (.compensating withdrawal.undo))
      | .ok inventory =>
          some {
            store := { db with inventory }
            place := .committing withdrawal
            effects := [.consumed withdrawal.undo.operationId] }
  | .committing withdrawal, .proceed surroundings =>
      match db.commitWithdrawal withdrawal surroundings.now with
      | .error _ => some (stay db (.compensating withdrawal.undo))
      | .ok db' =>
          some {
            store := db'
            place := .claiming (some [withdrawal.confirmation.operationId])
            effects :=
              [.saved withdrawal.edit, .withdrawn withdrawal.undo.operationId] }
  | .compensating undo, .proceed _ =>
      some (startUndo db (.compensation undo))
  | .undoing errand named, .proceed surroundings =>
      match db.inventory.undoConsumption errand.step.undoCommand named
          surroundings.now with
      | .error error => some (stay db (errand.onError error.message))
      | .ok inventory => some (stay { db with inventory } (.completing errand))
  | .completing errand, .proceed surroundings =>
      some (stay
        { db with
          steps := StockSteps.complete db.steps errand.step.operationId
            surroundings.now }
        errand.afterwards)
  | .releasing undo, .proceed surroundings =>
      some (stay
        { db with
          steps := StockSteps.release db.steps undo.operationId surroundings.now }
        .idle)
  | .claiming operationIds, .proceed surroundings =>
      some (claimDue settings db operationIds surroundings)
  | .applying step queue, .proceed surroundings =>
      some (runStep db step queue surroundings)
  | .closing step queue closure candidates, .proceed surroundings =>
      some {
        store := { db with
          inventory := db.inventory.closeConsumptions closure candidates
            step.actorUserId surroundings.now }
        place := .completing (.application step queue)
        effects := [.applied step.toStockStep] }
  | .failing step queue error, .proceed surroundings =>
      some (stay
        { db with
          steps := recordError settings db.steps step error surroundings.now }
        (nextApplication queue))
  | _, _ => none

/-- The tables as the migrations leave them, and no program under way. -/
def emptyWorkshop : Config WorkshopDb SagaPlace :=
  ⟨⟨WorkOrderTables.empty, [], {}⟩, fun _ => .idle⟩

end WorkOrders

end Workshop
