/-
The batches other modules ask inventory for: a withdrawal consumes, a return
restores and a failed withdrawal is undone.  Each applies every line to the
loaded items first and saves the items only when no line was refused.
-/
import Workshop.Inventory.Repository

namespace Workshop

namespace Inventory

structure StockLine where
  inventoryItemId : ItemId
  quantity : Int
deriving DecidableEq, Repr

structure ConsumeStockBatchCommand where
  lines : List StockLine
  workOrderId : WorkOrderId
  actorUserId : UserId
  operationId : Option OperationId

structure RestoreStockBatchCommand where
  lines : List StockLine
  workOrderId : WorkOrderId
  actorUserId : UserId
  operationId : OperationId

structure UndoConsumptionCommand where
  operationId : OperationId
  actorUserId : UserId

/-- The loaded item a line names. -/
def findLoaded (loaded : List InventoryItem) (id : ItemId) :
    Except InventoryError InventoryItem :=
  match loaded.find? (fun item => item.id = id) with
  | none => .error .inventoryItemNotFound
  | some item => .ok item

/-- The loaded items after one of them changed in place. -/
def updateLoaded (loaded : List InventoryItem) (item : InventoryItem) :
    List InventoryItem :=
  loaded.map fun other => if other.id = item.id then item else other

/-- The line loop of `ConsumeStockBatchUseCase`. -/
def consumeLines (command : ConsumeStockBatchCommand) (now : Timestamp) :
    List StockLine → List InventoryItem → Uuid →
      Except InventoryError (List InventoryItem × Uuid)
  | [], loaded, nextId => .ok (loaded, nextId)
  | line :: lines, loaded, nextId => do
      let item ← findLoaded loaded line.inventoryItemId
      let item ← item.consume {
        quantity := line.quantity, workOrderId := command.workOrderId
        actorUserId := command.actorUserId, movementId := nextId
        operationId := command.operationId, now }
      consumeLines command now lines (updateLoaded loaded item) (nextId + 1)

/-- The draws of one line: the item's pending consumptions in the order they
are offered, until the line is covered.  What is left over is answered. -/
def drawFrom (command : RestoreStockBatchCommand) (now : Timestamp) :
    List PendingConsumptionDto → Int → InventoryItem → Uuid →
      Except InventoryError (Int × InventoryItem × Uuid)
  | [], remaining, item, nextId => .ok (remaining, item, nextId)
  | consumption :: pending, remaining, item, nextId =>
      if remaining ≤ 0 then .ok (remaining, item, nextId)
      else do
        let draw := min remaining consumption.quantity
        let item ← item.restoreUnits {
          quantity := draw, workOrderId := command.workOrderId
          actorUserId := command.actorUserId, movementId := nextId
          undoesMovementId := consumption.movementId
          operationId := some command.operationId, now }
        drawFrom command now pending (remaining - draw) item (nextId + 1)

/-- The line loop of `RestoreStockBatchUseCase`.  Every line reads the
pending consumptions from `db`: what the lines before it drew is only in the
loaded items. -/
def restoreLines (db : InventoryDb) (order : RowOrder MovementRow)
    (command : RestoreStockBatchCommand) (now : Timestamp) :
    List StockLine → List InventoryItem → Uuid →
      Except InventoryError (List InventoryItem × Uuid)
  | [], loaded, nextId => .ok (loaded, nextId)
  | line :: lines, loaded, nextId => do
      let item ← findLoaded loaded line.inventoryItemId
      let pending := db.findPendingConsumptions order item.id command.workOrderId
      let (remaining, item, nextId) ←
        drawFrom command now pending line.quantity item nextId
      if 0 < remaining then
        throw (.noPendingConsumptionCovers line.quantity line.inventoryItemId
          command.workOrderId)
      restoreLines db order command now lines (updateLoaded loaded item) nextId

/-- The loop of `UndoConsumptionUseCase`: one return for each consumption of
the operation, for all it still holds. -/
def undoLines (command : UndoConsumptionCommand) (now : Timestamp) :
    List OperationConsumptionDto → List InventoryItem → Uuid →
      Except InventoryError (List InventoryItem × Uuid)
  | [], loaded, nextId => .ok (loaded, nextId)
  | consumption :: pending, loaded, nextId => do
      let item ← findLoaded loaded consumption.inventoryItemId
      let item ← item.restoreUnits {
        quantity := consumption.quantity, workOrderId := consumption.workOrderId
        actorUserId := command.actorUserId, movementId := nextId
        undoesMovementId := consumption.movementId
        operationId := some command.operationId, now }
      undoLines command now pending (updateLoaded loaded item) (nextId + 1)

namespace InventoryDb

/-- `ConsumeStockBatchUseCase.execute` -/
def consumeStockBatch (db : InventoryDb) (command : ConsumeStockBatchCommand)
    (now : Timestamp) : Except InventoryError InventoryDb := do
  let loaded ← db.findAllByIdsForUpdate
    (command.lines.map StockLine.inventoryItemId)
  let (loaded, nextId) ← consumeLines command now command.lines loaded db.nextId
  let db ← db.saveAll loaded
  return { db with nextId }

/-- `RestoreStockBatchUseCase.execute` -/
def restoreStockBatch (db : InventoryDb) (order : RowOrder MovementRow)
    (command : RestoreStockBatchCommand) (now : Timestamp) :
    Except InventoryError InventoryDb := do
  let loaded ← db.findAllByIdsForUpdate
    (command.lines.map StockLine.inventoryItemId)
  if db.hasReturnOfOperation command.operationId then
    return db
  let (loaded, nextId) ←
    restoreLines db order command now command.lines loaded db.nextId
  let db ← db.saveAll loaded
  return { db with nextId }

/-- The first read of `UndoConsumptionUseCase.execute`: the items to lock. -/
def undoNames (db : InventoryDb) (command : UndoConsumptionCommand) :
    List ItemId :=
  ((db.findPendingConsumptionsOfOperation command.operationId).map
    fun consumption => consumption.inventoryItemId).dedup

/-- The transaction of `UndoConsumptionUseCase.execute` over the items its
first read named. -/
def undoConsumption (db : InventoryDb) (command : UndoConsumptionCommand)
    (named : List ItemId) (now : Timestamp) :
    Except InventoryError InventoryDb := do
  let loaded ← db.findAllByIdsForUpdate named
  let (loaded, nextId) ← undoLines command now
    (db.findPendingConsumptionsOfOperation command.operationId) loaded db.nextId
  let db ← db.saveAll loaded
  return { db with nextId }

end InventoryDb

end Inventory

end Workshop
