/-
The inventory item and its movements, as the domain layer of inventory
defines them.  Every operation computes the movement and the new count before
it changes anything, so a refusal is a plain error.
-/
import Workshop.Shared.Values

namespace Workshop

namespace Inventory

inductive StockMovementKind
  | inbound
  | consumption
  | returned
  | adjustment
deriving DecidableEq, Repr

inductive StockMovementStatus
  | pending
  | settled
  | writtenOff
deriving DecidableEq, Repr

inductive InventoryItemKind
  | part
  | supply
deriving DecidableEq, Repr

inductive InventoryItemStatus
  | active
  | inactive
deriving DecidableEq, Repr

inductive InventoryError
  /-- The error of `Money.fromCents`. -/
  | invalidUnitPrice (cents : Int)
  | invalidMovementQuantity
  | invalidStockQuantity
  | insufficientStock
  | adjustmentNoteRequired
  | inventoryItemNotFound
  | inventoryItemInUse (workOrderNumbers : List String)
  | skuAlreadyInUse
  /-- What PostgreSQL answers to a value that its column cannot hold. -/
  | valueOutOfRange (value : Int)
  /-- `stock_movements row for external id … not found` -/
  | movementRowNotFound (movementId : MovementId)
  /-- `No pending consumption covers a return of … on item … for work order …` -/
  | noPendingConsumptionCovers (quantity : Int) (inventoryItemId : ItemId)
      (workOrderId : WorkOrderId)
deriving DecidableEq, Repr

def InventoryError.message : InventoryError → String
  | .invalidUnitPrice cents => s!"Invalid monetary amount: {cents}"
  | .invalidMovementQuantity => "Movement quantity must be a positive whole number."
  | .invalidStockQuantity => "Quantity on hand must be a non-negative whole number."
  | .insufficientStock => "The quantity on hand cannot go below zero."
  | .adjustmentNoteRequired => "An adjustment must carry a note explaining it."
  | .inventoryItemNotFound => "Inventory item not found."
  | .inventoryItemInUse workOrderNumbers =>
      "This item is planned on an open work order: " ++
        ", ".intercalate workOrderNumbers ++ "."
  | .skuAlreadyInUse => "Another active item already uses this SKU."
  | .valueOutOfRange value => s!"value \"{value}\" is out of range for type integer"
  | .movementRowNotFound movementId =>
      s!"stock_movements row for external id {movementId} not found"
  | .noPendingConsumptionCovers quantity inventoryItemId workOrderId =>
      s!"No pending consumption covers a return of {quantity} on item {inventoryItemId} for work order {workOrderId}"

/-- A count of units on the shelf. -/
structure StockQuantity where
  units : Int
  nonneg : 0 ≤ units
deriving Repr

namespace StockQuantity

theorem units_inj {quantity other : StockQuantity} :
    quantity.units = other.units ↔ quantity = other := by
  constructor
  · cases quantity
    cases other
    rintro rfl
    rfl
  · rintro rfl
    rfl

instance : DecidableEq StockQuantity := fun quantity other =>
  decidable_of_iff (quantity.units = other.units) units_inj

theorem empty_nonneg : (0 : Int) ≤ 0 := Int.le_refl 0

/-- `StockQuantity.of` -/
def ofUnits (raw : Int) : Except InventoryError StockQuantity :=
  if h : 0 ≤ raw then .ok ⟨raw, h⟩ else .error .invalidStockQuantity

def plus (quantity : StockQuantity) (units : Int) :
    Except InventoryError StockQuantity :=
  ofUnits (quantity.units + units)

def minus (quantity : StockQuantity) (units : Int) :
    Except InventoryError StockQuantity :=
  if quantity.units < units then .error .insufficientStock
  else ofUnits (quantity.units - units)

end StockQuantity

/-- One line of the ledger, as the domain builds it. -/
structure StockMovement where
  id : MovementId
  kind : StockMovementKind
  quantity : Int
  unitPrice : Money
  actorUserId : UserId
  note : Option String
  occurredAt : Timestamp
  status : Option StockMovementStatus
  workOrderId : Option WorkOrderId
  undoesMovementId : Option MovementId
  operationId : Option OperationId
deriving DecidableEq, Repr

/-- What every constructor of a movement checks first. -/
def StockMovement.checkQuantity (quantity : Int) : Except InventoryError Unit :=
  if quantity ≤ 0 then .error .invalidMovementQuantity else .ok ()

/-- `StockMovement.record`: an `INBOUND` or an `ADJUSTMENT`. -/
def StockMovement.record (id : MovementId) (kind : StockMovementKind)
    (quantity : Int) (unitPrice : Money) (actorUserId : UserId)
    (note : Option String) (now : Timestamp) :
    Except InventoryError StockMovement := do
  StockMovement.checkQuantity quantity
  return {
    id, kind, quantity, unitPrice, actorUserId, note, occurredAt := now
    status := none, workOrderId := none, undoesMovementId := none
    operationId := none }

structure ConsumeStockInput where
  quantity : Int
  workOrderId : WorkOrderId
  actorUserId : UserId
  movementId : MovementId
  operationId : Option OperationId
  now : Timestamp

/-- The `CONSUMPTION` an input describes. -/
def ConsumeStockInput.toMovement (input : ConsumeStockInput) (unitPrice : Money) :
    StockMovement where
  id := input.movementId
  kind := .consumption
  quantity := input.quantity
  unitPrice := unitPrice
  actorUserId := input.actorUserId
  note := none
  occurredAt := input.now
  status := some .pending
  workOrderId := some input.workOrderId
  undoesMovementId := none
  operationId := input.operationId

/-- `StockMovement.consume` -/
def StockMovement.consume (input : ConsumeStockInput) (unitPrice : Money) :
    Except InventoryError StockMovement := do
  StockMovement.checkQuantity input.quantity
  return input.toMovement unitPrice

structure RestoreStockInput where
  quantity : Int
  workOrderId : WorkOrderId
  actorUserId : UserId
  movementId : MovementId
  undoesMovementId : MovementId
  operationId : Option OperationId
  now : Timestamp

/-- The `RETURN` an input describes. -/
def RestoreStockInput.toMovement (input : RestoreStockInput) (unitPrice : Money) :
    StockMovement where
  id := input.movementId
  kind := .returned
  quantity := input.quantity
  unitPrice := unitPrice
  actorUserId := input.actorUserId
  note := none
  occurredAt := input.now
  status := none
  workOrderId := some input.workOrderId
  undoesMovementId := some input.undoesMovementId
  operationId := input.operationId

/-- `StockMovement.undo` -/
def StockMovement.undo (input : RestoreStockInput) (unitPrice : Money) :
    Except InventoryError StockMovement := do
  StockMovement.checkQuantity input.quantity
  return input.toMovement unitPrice

/-- One part or supply, its count, and the movements appended during this
request. -/
structure InventoryItem where
  id : ItemId
  sku : String
  name : String
  description : Option String
  kind : InventoryItemKind
  unitPrice : Money
  quantityOnHand : StockQuantity
  status : InventoryItemStatus
  createdAt : Timestamp
  updatedAt : Timestamp
  movements : List StockMovement

namespace InventoryItem

def create (id : ItemId) (sku name : String) (description : Option String)
    (kind : InventoryItemKind) (unitPrice : Money) (now : Timestamp) :
    InventoryItem where
  id := id
  sku := sku
  name := name
  description := description
  kind := kind
  unitPrice := unitPrice
  quantityOnHand := ⟨0, StockQuantity.empty_nonneg⟩
  status := .active
  createdAt := now
  updatedAt := now
  movements := []

structure UpdateInventoryItemInput where
  name : Option String
  /-- `some none` clears the description, `none` leaves it untouched. -/
  description : Option (Option String)
  unitPrice : Option Money

def updateDetails (item : InventoryItem) (input : UpdateInventoryItemInput)
    (now : Timestamp) : InventoryItem :=
  { item with
    name := input.name.getD item.name
    description := input.description.getD item.description
    unitPrice := input.unitPrice.getD item.unitPrice
    updatedAt := now }

def deactivate (item : InventoryItem) (now : Timestamp) : InventoryItem :=
  if item.status = .inactive then item
  else { item with status := .inactive, updatedAt := now }

/-- Append a movement that leaves `quantityOnHand` units on the shelf. -/
def push (item : InventoryItem) (movement : StockMovement)
    (quantityOnHand : StockQuantity) (now : Timestamp) : InventoryItem :=
  { item with
    quantityOnHand
    movements := item.movements ++ [movement]
    updatedAt := now }

structure ReplenishStockInput where
  quantity : Int
  unitPrice : Money
  actorUserId : UserId
  note : Option String
  movementId : MovementId
  now : Timestamp

def replenish (item : InventoryItem) (input : ReplenishStockInput) :
    Except InventoryError InventoryItem := do
  let movement ← StockMovement.record input.movementId .inbound input.quantity
    input.unitPrice input.actorUserId input.note input.now
  let quantityOnHand ← item.quantityOnHand.plus input.quantity
  return item.push movement quantityOnHand input.now

structure AdjustStockDownInput where
  quantity : Int
  actorUserId : UserId
  /-- The note, trimmed. -/
  note : String
  movementId : MovementId
  now : Timestamp

def adjustDown (item : InventoryItem) (input : AdjustStockDownInput) :
    Except InventoryError InventoryItem := do
  if input.note = "" then throw .adjustmentNoteRequired
  let movement ← StockMovement.record input.movementId .adjustment
    input.quantity item.unitPrice input.actorUserId (some input.note) input.now
  let quantityOnHand ← item.quantityOnHand.minus input.quantity
  return item.push movement quantityOnHand input.now

def consume (item : InventoryItem) (input : ConsumeStockInput) :
    Except InventoryError InventoryItem := do
  let movement ← StockMovement.consume input item.unitPrice
  let quantityOnHand ← item.quantityOnHand.minus input.quantity
  return item.push movement quantityOnHand input.now

def restoreUnits (item : InventoryItem) (input : RestoreStockInput) :
    Except InventoryError InventoryItem := do
  let movement ← StockMovement.undo input item.unitPrice
  let quantityOnHand ← item.quantityOnHand.plus input.quantity
  return item.push movement quantityOnHand input.now

end InventoryItem

end Inventory

end Workshop
