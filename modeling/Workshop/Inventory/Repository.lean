/-
The tables inventory owns and the repository over them.  Each definition
below is one statement or one transaction of `TypeOrmInventoryItemRepository`;
a transaction that reports an error leaves the tables it started from.
-/
import Mathlib.Data.List.Sort
import Mathlib.Data.List.Perm.Basic
import Workshop.Inventory.InventoryItem
import Workshop.Library.KeyedSums

namespace Workshop

namespace Inventory

/-- The bounds of the column type `integer`. -/
def minInteger : Int := -2147483648

def maxInteger : Int := 2147483647

/-- The value fits a column of type `integer`. -/
def fitsInteger (value : Int) : Bool :=
  decide (minInteger ≤ value) && decide (value ≤ maxInteger)

/-- A row of `inventory_items`.  `quantityOnHand` is a column of type `integer`. -/
structure ItemRow where
  id : ItemId
  sku : String
  name : String
  description : Option String
  kind : InventoryItemKind
  unitPrice : Money
  quantityOnHand : Int
  status : InventoryItemStatus
  createdAt : Timestamp
  updatedAt : Timestamp
deriving DecidableEq, Repr

/-- A row of `stock_movements`: the movement, the item it belongs to and the
moment its work order confirmed it. -/
structure MovementRow extends StockMovement where
  inventoryItemId : ItemId
  confirmedAt : Option Timestamp
deriving DecidableEq, Repr

/-- A row of `stock_movement_transitions`. -/
structure TransitionRow where
  movementId : MovementId
  fromStatus : StockMovementStatus
  toStatus : StockMovementStatus
  actorUserId : UserId
  occurredAt : Timestamp
  quantity : Option Int
deriving DecidableEq, Repr

/-- The tables of inventory.  Rows stand in the order of their internal key;
`nextId` is the next value of the id generator. -/
structure InventoryDb where
  items : List ItemRow := []
  movements : List MovementRow := []
  transitions : List TransitionRow := []
  nextId : Uuid := 0
deriving DecidableEq, Repr

/-- `InventoryItemMapper.toDomain` -/
def toDomain (row : ItemRow) : Except InventoryError InventoryItem := do
  let quantityOnHand ← StockQuantity.ofUnits row.quantityOnHand
  return {
    id := row.id, sku := row.sku, name := row.name
    description := row.description, kind := row.kind
    unitPrice := row.unitPrice, quantityOnHand, status := row.status
    createdAt := row.createdAt, updatedAt := row.updatedAt, movements := [] }

/-- The item row of `InventoryItemMapper.toOrm`. -/
def toItemRow (item : InventoryItem) : ItemRow where
  id := item.id
  sku := item.sku
  name := item.name
  description := item.description
  kind := item.kind
  unitPrice := item.unitPrice
  quantityOnHand := item.quantityOnHand.units
  status := item.status
  createdAt := item.createdAt
  updatedAt := item.updatedAt

/-- A movement row of `InventoryItemMapper.toOrm`, under its item. -/
def toMovementRow (inventoryItemId : ItemId) (movement : StockMovement) :
    MovementRow :=
  { movement with inventoryItemId, confirmedAt := none }

/-- What a movement adds to the shelf: `INBOUND` and `RETURN` put units back,
`CONSUMPTION` and `ADJUSTMENT` take them off. -/
def StockMovement.signedQuantity (movement : StockMovement) : Int :=
  match movement.kind with
  | .inbound | .returned => movement.quantity
  | .consumption | .adjustment => -movement.quantity

/-- The `delta` of a save. -/
def InventoryItem.delta (item : InventoryItem) : Int :=
  (item.movements.map StockMovement.signedQuantity).sum

/-- `ORDER BY occurred_at DESC` over rows listed in the order of `order`. -/
def newestFirst (rows : List MovementRow) : List MovementRow :=
  rows.insertionSort fun a b => b.occurredAt ≤ a.occurredAt

/-- `CONFIRMED_CONSUMPTION` -/
def confirmedConsumption (row : MovementRow) : Bool :=
  row.operationId.isNone || row.confirmedAt.isSome

/-- The condition the restore, the settlement and the write-off share: a
confirmed pending consumption of the work order. -/
def isOpenConsumption (workOrderId : WorkOrderId) (row : MovementRow) : Bool :=
  row.workOrderId = some workOrderId && row.kind = .consumption &&
    row.status = some .pending && confirmedConsumption row

/-- The row a save writes for an item: the item's own columns, with the count
re-derived from the row the lock just read. -/
def savedRow (existing : Option ItemRow) (item : InventoryItem) : ItemRow :=
  match existing with
  | some row =>
      { toItemRow item with quantityOnHand := row.quantityOnHand + item.delta }
  | none => toItemRow item

def writeItemRow (items : List ItemRow) (row : ItemRow) : List ItemRow :=
  if items.any fun other => other.id = row.id
  then items.map fun other => if other.id = row.id then row else other
  else items ++ [row]

namespace InventoryDb

def findById (db : InventoryDb) (id : ItemId) :
    Except InventoryError (Option InventoryItem) :=
  match db.items.find? (fun row => row.id = id) with
  | none => .ok none
  | some row => (toDomain row).map some

def existsActiveBySku (db : InventoryDb) (sku : String) : Bool :=
  db.items.any fun row => row.sku = sku && row.status = .active

/-- Locks the items in internal-key order; an id matching nothing is simply
absent. -/
def findAllByIdsForUpdate (db : InventoryDb) (ids : List ItemId) :
    Except InventoryError (List InventoryItem) :=
  (db.items.filter fun row => row.id ∈ ids).mapM toDomain

/-- The units the `RETURN` rows that point at a movement gave back. -/
def returnedTotal (db : InventoryDb) (movementId : MovementId) : Int :=
  sumWhere (fun row => row.kind = .returned &&
    decide (row.undoesMovementId = some movementId))
    (fun row => row.quantity) db.movements

/-- `NET_REMAINING_EXPR` -/
def netRemaining (db : InventoryDb) (row : MovementRow) : Int :=
  row.quantity - db.returnedTotal row.id

end InventoryDb

structure PendingConsumptionDto where
  movementId : MovementId
  quantity : Int
deriving DecidableEq, Repr

structure OperationConsumptionDto extends PendingConsumptionDto where
  inventoryItemId : ItemId
  workOrderId : WorkOrderId
deriving DecidableEq, Repr

namespace InventoryDb

/-- The rows `findPendingConsumptions` offers, before it orders them. -/
def pendingRows (db : InventoryDb) (inventoryItemId : ItemId)
    (workOrderId : WorkOrderId) : List MovementRow :=
  db.movements.filter fun row =>
    row.inventoryItemId = inventoryItemId && isOpenConsumption workOrderId row &&
      decide (0 < db.netRemaining row)

def findPendingConsumptions (db : InventoryDb) (order : RowOrder MovementRow)
    (inventoryItemId : ItemId) (workOrderId : WorkOrderId) :
    List PendingConsumptionDto :=
  (newestFirst (order.arrange (db.pendingRows inventoryItemId workOrderId))).map
    fun row => ⟨row.id, db.netRemaining row⟩

/-- The rows an undo gives back, whatever their status or confirmation. -/
def operationRows (db : InventoryDb) (operationId : OperationId) :
    List MovementRow :=
  db.movements.filter fun row =>
    row.operationId = some operationId && row.kind = .consumption &&
      decide (0 < db.netRemaining row)

/-- `ORDER BY occurred_at DESC, id DESC`.  A consumption always carries its
work order. -/
def findPendingConsumptionsOfOperation (db : InventoryDb)
    (operationId : OperationId) : List OperationConsumptionDto :=
  (newestFirst (db.operationRows operationId).reverse).map fun row =>
    { movementId := row.id, quantity := db.netRemaining row
      inventoryItemId := row.inventoryItemId
      workOrderId := row.workOrderId.getD 0 }

def hasReturnOfOperation (db : InventoryDb) (operationId : OperationId) : Bool :=
  db.movements.any fun row =>
    row.operationId = some operationId && row.kind = .returned

def confirmConsumptionsOfOperation (db : InventoryDb)
    (operationId : OperationId) (confirmedAt : Timestamp) : InventoryDb :=
  { db with
    movements := db.movements.map fun row =>
      if row.operationId = some operationId && row.kind = .consumption &&
          row.confirmedAt.isNone
      then { row with confirmedAt := some confirmedAt }
      else row }

end InventoryDb

/-- The two ways a work order closes its consumptions. -/
inductive Closure
  | settle
  | writeOff
deriving DecidableEq, Repr

namespace Closure

def toStatus : Closure → StockMovementStatus
  | .settle => .settled
  | .writeOff => .writtenOff

/-- The quantity of the transition: a settlement records none, a write-off
the units that were still outstanding when it read the consumption. -/
def quantity : Closure → Int → Option Int
  | .settle, _ => none
  | .writeOff, remaining => some remaining

end Closure

/-- A consumption a closing transaction picked, with the units it read. -/
structure ClosureCandidate where
  movementId : MovementId
  remaining : Int
deriving DecidableEq, Repr

def remainingOf (candidates : List ClosureCandidate) (id : MovementId) : Int :=
  match candidates.find? (fun candidate => candidate.movementId = id) with
  | none => 0
  | some candidate => candidate.remaining

namespace InventoryDb

/-- The consumptions a closing transaction picks.  For a write-off this is its
`SELECT`; for a settlement it is the snapshot its `UPDATE` finds rows in.
Only the write-off asks for units left. -/
def closureCandidates (db : InventoryDb) (closure : Closure)
    (workOrderId : WorkOrderId) : List ClosureCandidate :=
  (db.movements.filter fun row =>
    isOpenConsumption workOrderId row &&
      match closure with
      | .settle => true
      | .writeOff => decide (0 < db.netRemaining row)).map
    fun row => ⟨row.id, db.netRemaining row⟩

/-- The rows the `UPDATE` of a closing transaction changes: the picked ones
that are still pending once it holds their locks. -/
def closureRows (db : InventoryDb) (candidates : List ClosureCandidate) :
    List MovementRow :=
  db.movements.filter fun row =>
    decide (row.id ∈ candidates.map ClosureCandidate.movementId) &&
      row.status = some .pending

/-- The `UPDATE` and the `INSERT` of a closing transaction:
`settleWorkOrderConsumptions` and `writeOffWorkOrderConsumptions`. -/
def closeConsumptions (db : InventoryDb) (closure : Closure)
    (candidates : List ClosureCandidate) (actorUserId : UserId)
    (now : Timestamp) : InventoryDb :=
  { db with
    movements := db.movements.map fun row =>
      if decide (row.id ∈ candidates.map ClosureCandidate.movementId) &&
          row.status = some .pending
      then { row with status := some closure.toStatus }
      else row
    transitions := db.transitions ++ (db.closureRows candidates).map fun row =>
      { movementId := row.id, fromStatus := .pending
        toStatus := closure.toStatus, actorUserId, occurredAt := now
        quantity := closure.quantity (remainingOf candidates row.id) } }

/-- Another active row holds the SKU: `ux_inventory_items_active_sku`. -/
def skuTaken (db : InventoryDb) (row : ItemRow) : Bool :=
  row.status = .active && db.items.any fun other =>
    decide (other.id ≠ row.id) && other.sku = row.sku && other.status = .active

/-- `movementInternalId` for every movement that undoes another. -/
def unresolvedMovement (db : InventoryDb) (item : InventoryItem) :
    Option MovementId :=
  (item.movements.filterMap fun movement => movement.undoesMovementId).find?
    fun id => !(db.movements.any fun row => row.id = id)

/-- `save`: the locked row, the re-derived count, the checks of the table and
the movement rows, committed together.  A count that its column cannot hold is
refused before the row is checked, with an error that `save` does not translate;
the `CHECK` of the count is tested before the index on the SKU. -/
def save (db : InventoryDb) (item : InventoryItem) :
    Except InventoryError InventoryDb :=
  let row := savedRow (db.items.find? fun other => other.id = item.id) item
  if !fitsInteger row.quantityOnHand then .error (.valueOutOfRange row.quantityOnHand)
  else if row.quantityOnHand < 0 then .error .insufficientStock
  else if db.skuTaken row then .error .skuAlreadyInUse
  else
    match db.unresolvedMovement item with
    | some id => .error (.movementRowNotFound id)
    | none => .ok { db with
        items := writeItemRow db.items row
        movements := db.movements ++ item.movements.map (toMovementRow item.id) }

/-- The saves of a batch, one after another in the transaction it opened. -/
def saveAll : InventoryDb → List InventoryItem → Except InventoryError InventoryDb
  | db, [] => .ok db
  | db, item :: items => do
      let db ← db.save item
      saveAll db items

end InventoryDb

end Inventory

end Workshop
