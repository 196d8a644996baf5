/-
The row locks of `inventory_items`.  Here a batch takes its locks one by one,
waits where another transaction holds the row, and keeps every lock until it
ends, so that it can be said who waits for whom.  All other requests run as
`stockExec` has them, up to the transaction that saves their item.
-/
import Workshop.Inventory.StockProgram
import Workshop.Library.LockOrder

namespace Workshop

namespace Inventory

/-- The internal keys of `inventory_items`: which value of the sequence every
row got. -/
structure RowKeys where
  key : ItemId → Nat
  injective : Function.Injective key

/-- The number of a transaction. -/
abbrev Xid := Nat

/-- What has been committed, and which transaction holds each item row. -/
structure LockedDb where
  tables : InventoryDb := {}
  holder : ItemId → Option Xid := fun _ => none
  nextXid : Xid := 0

/-- The use cases that lock more than one item; an undo carries the items its
first read named. -/
inductive Batch
  | consume (command : ConsumeStockBatchCommand)
  | restore (command : RestoreStockBatchCommand) (order : RowOrder MovementRow)
  | undo (command : UndoConsumptionCommand) (named : List ItemId)

/-- The ids of its locking query. -/
def Batch.ids : Batch → List ItemId
  | .consume command => command.lines.map StockLine.inventoryItemId
  | .restore command _ => command.lines.map StockLine.inventoryItemId
  | .undo _ named => named

/-- The batch as one step, which `stockExec` takes. -/
def Batch.inOneStep (db : InventoryDb) (now : Timestamp) :
    Batch → Except InventoryError InventoryDb
  | .consume command => db.consumeStockBatch command now
  | .restore command order => db.restoreStockBatch order command now
  | .undo command named => db.undoConsumption command named now

/-- Where a request stands between two statements. -/
inductive LockPlace
  /-- It has no transaction open that touches an item. -/
  | plain (place : StockPlace)
  /-- A batch is in its locking query, which found `rows` and still has to
  lock `left`. -/
  | locking (xid : Xid) (batch : Batch) (rows left : List ItemId)
  /-- A batch applied its lines to `items` and still has to save `left`. -/
  | saving (xid : Xid) (left items : List InventoryItem)
  /-- The transaction of a single save is open; the row is locked next. -/
  | lockingOne (xid : Xid) (item : InventoryItem)
  /-- A single save has its row; it writes and commits next. -/
  | savingOne (xid : Xid) (item : InventoryItem)

/-- The transaction a request has open. -/
def LockPlace.xid : LockPlace → Option Xid
  | .plain _ => none
  | .locking xid _ _ _ => some xid
  | .saving xid _ _ => some xid
  | .lockingOne xid _ => some xid
  | .savingOne xid _ => some xid

/-- The rows of the locking query, `ORDER BY item.id ASC`. -/
def rowsInKeyOrder (keys : RowKeys) (db : InventoryDb) (ids : List ItemId) :
    List ItemRow :=
  (db.items.filter fun row => row.id ∈ ids).insertionSort fun a b =>
    keys.key a.id ≤ keys.key b.id

/-- What a batch does in memory once it holds its rows: the items it will
save and the next value of the id generator. -/
def Batch.apply (keys : RowKeys) (db : InventoryDb) (now : Timestamp)
    (rows : List ItemId) (batch : Batch) :
    Except InventoryError (List InventoryItem × Uuid) := do
  let loaded ← (rowsInKeyOrder keys db rows).mapM toDomain
  match batch with
  | .consume command =>
      consumeLines command now command.lines loaded db.nextId
  | .restore command order =>
      if db.hasReturnOfOperation command.operationId then
        return ([], db.nextId)
      restoreLines db order command now command.lines loaded db.nextId
  | .undo command _ =>
      undoLines command now
        (db.findPendingConsumptionsOfOperation command.operationId) loaded
        db.nextId

/-- The outcome of one statement. -/
abbrev LockOutcome := Outcome LockedDb LockPlace Unit

namespace LockedDb

/-- `BEGIN` and the start of the locking query of a batch. -/
def beginBatch (s : LockedDb) (keys : RowKeys) (batch : Batch) : LockOutcome :=
  let rows := (rowsInKeyOrder keys s.tables batch.ids).map ItemRow.id
  { store := { s with nextXid := s.nextXid + 1 }
    place := .locking s.nextXid batch rows rows }

/-- A row can be locked unless another transaction holds it. -/
def isFree (s : LockedDb) (xid : Xid) (row : ItemId) : Bool :=
  s.holder row = none || s.holder row = some xid

/-- The row locked by the transaction. -/
def lock (s : LockedDb) (xid : Xid) (row : ItemId) : LockedDb :=
  { s with holder := Function.update s.holder row (some xid) }

/-- The locks of a transaction that ended. -/
def release (s : LockedDb) (xid : Xid) : LockedDb :=
  { s with
    holder := fun row => if s.holder row = some xid then none else s.holder row }

/-- The end of a transaction: it commits its tables, or it is rolled back when
a statement reported an error.  Either way it holds no lock any more. -/
def finish (s : LockedDb) (xid : Xid)
    (result : Except InventoryError InventoryDb) : LockOutcome :=
  match result with
  | .ok tables => {
      store := { s with tables }.release xid
      place := .plain .idle }
  | .error _ => { store := s.release xid, place := .plain .idle }

/-- `findOne` with `pessimistic_write`, by which a save starts.  The update of
the row and the foreign keys of its movements ask for the same row again. -/
def lockForSave (s : LockedDb) (xid : Xid) (item : InventoryItem)
    (next : LockPlace) : Option LockOutcome :=
  if item.id ∈ s.tables.itemIds then
    if s.isFree xid item.id
    then some { store := s.lock xid item.id, place := next }
    else none
  else some { store := s, place := next }

end LockedDb

/-- A statement of a request that has no transaction on an item open. -/
def plainExec (keys : RowKeys) (s : LockedDb) (place : StockPlace)
    (input : StockInput) : Option LockOutcome :=
  match place, input with
  | .idle, .consume command _ =>
      some (s.beginBatch keys (.consume command))
  | .idle, .restore command order _ =>
      some (s.beginBatch keys (.restore command order))
  | .undoing command named, .proceed _ =>
      some (s.beginBatch keys (.undo command named))
  | .saving item, .proceed _ =>
      some {
        store := { s with nextXid := s.nextXid + 1 }
        place := .lockingOne s.nextXid item }
  | place, input =>
      (stockExec s.tables place input).map fun out =>
        { store := { s with tables := out.store }, place := .plain out.place }

/-- One statement of a request.  It answers nothing where the request waits
for a lock. -/
def lockExec (keys : RowKeys) (s : LockedDb) :
    LockPlace → StockInput → Option LockOutcome
  | .plain place, input => plainExec keys s place input
  | .locking xid batch rows (row :: left), .proceed _ =>
      if s.isFree xid row
      then some { store := s.lock xid row, place := .locking xid batch rows left }
      else none
  | .locking xid batch rows [], .proceed now =>
      match batch.apply keys s.tables now rows with
      | .error error => some (s.finish xid (.error error))
      | .ok (items, nextId) =>
          some {
            store := { s with tables := { s.tables with nextId } }
            place := .saving xid items items }
  | .saving xid (item :: left) items, .proceed _ =>
      s.lockForSave xid item (.saving xid left items)
  | .saving xid [] items, .proceed _ =>
      some (s.finish xid (s.tables.saveAll items))
  | .lockingOne xid item, .proceed _ =>
      s.lockForSave xid item (.savingOne xid item)
  | .savingOne xid item, .proceed _ =>
      some (s.finish xid (s.tables.save item))
  | place, .abort => place.xid.map fun xid => s.finish xid (.ok s.tables)
  | _, _ => none

/-- The tables as the migrations leave them, and no request under way. -/
def emptyLocks : Config LockedDb LockPlace := ⟨{}, fun _ => .plain .idle⟩

/-- The row lock the next statement of a request asks for. -/
def WantsRow (s : LockedDb) : LockPlace → ItemId → Prop
  | .locking _ _ _ (next :: _), row => row = next
  | .saving _ (item :: _) _, row => row = item.id ∧ item.id ∈ s.tables.itemIds
  | .lockingOne _ item, row => row = item.id ∧ item.id ∈ s.tables.itemIds
  | _, _ => False

/-- The row is locked by the transaction the request has open. -/
def HoldsRow (s : LockedDb) (place : LockPlace) (row : ItemId) : Prop :=
  ∃ xid, place.xid = some xid ∧ s.holder row = some xid

/-- The wait-for graph over the row locks of `inventory_items`. -/
def RowWaits (config : Config LockedDb LockPlace) : Nat → Nat → Prop :=
  WaitsFor (fun pid => WantsRow config.store (config.places pid))
    (fun pid => HoldsRow config.store (config.places pid))

/-- How the transaction of a request stands to the row locks.  A batch in its
locking query holds what comes first in key order and nothing else; once it
saves, it asks only for rows it holds; any other transaction holds no row
but that of its item. -/
def LocksInOrder (keys : RowKeys) (s : LockedDb) : LockPlace → Prop
  | .plain _ => True
  | .locking xid _ rows left =>
      ∃ locked, rows = locked ++ left ∧
        rows.Pairwise (fun a b => keys.key a ≤ keys.key b) ∧
        ∀ row, s.holder row = some xid ↔ row ∈ locked
  | .saving xid left _ => ∀ item ∈ left, s.holder item.id = some xid
  | .lockingOne xid _ => ∀ row, s.holder row ≠ some xid
  | .savingOne xid item => ∀ row, s.holder row = some xid → row = item.id

end Inventory

end Workshop
