/-
The checks the two modules make of each other's tables.  Creating a work order
and planning a part read the catalog, deactivating an item reads the open work
orders; each reads in a statement of its own, before the one that writes.  The
programs are those of the saga, held up at these reads.
-/
import Workshop.Inventory.Catalog
import Workshop.WorkOrders.PlannedItems

namespace Workshop

namespace WorkOrders

open Inventory

/-- `MAX_NUMBER_ATTEMPTS` -/
def maxNumberAttempts : Nat := 5

/-- An item that left the catalog. -/
def hasLeft (inventory : InventoryDb) (itemId : ItemId) : Bool :=
  (inventory.catalogOf itemId).any fun entry => entry.status = .inactive

/-- The catalog answers with this part, which is active. -/
def offers (inventory : InventoryDb) (part : OpeningPart) : Bool :=
  (inventory.items.find? fun row => row.id = part.inventoryItemId).any fun row =>
    row.status = .active && row.sku = part.sku && row.name = part.name &&
      row.unitPrice = part.unitPrice

/-- `SELECT_OPEN_WORK_ORDERS_USING_ITEM` -/
def openWorkOrderNumbersUsing (tables : WorkOrderTables) (itemId : ItemId) :
    List String :=
  ((tables.workOrders.filter fun row => !row.status.isClosed &&
    tables.parts.any fun part =>
      part.workOrderId = row.id && part.inventoryItemId = itemId).map
    WorkOrderRow.number).insertionSort fun number other => number ≤ other

/-- Where a program stands between two statements, the reads of the other
module's tables among them. -/
inductive CheckedPlace
  | running (place : SagaPlace)
  /-- `resolveParts`, with the parts it has not read yet. -/
  | resolvingParts (command : CreateCommand) (now : Timestamp)
      (left : List OpeningPart)
  /-- The next attempt draws a number. -/
  | drawing (command : CreateCommand) (now : Timestamp) (attempts : Nat)
  | creating (command : CreateCommand) (now : Timestamp) (attempts : Nat)
      (workOrder : WorkOrder)
  /-- `PlanPartUseCase` reads the part it plans. -/
  | readingPart (edit : Edit) (part : OpeningPart)
  /-- `DeactivateInventoryItemUseCase` reads the work orders that use the item
  it deactivates. -/
  | readingUse (item : InventoryItem)

inductive CheckedInput
  | saga (input : SagaInput)
  /-- The number generator answers. -/
  | draw (number : String)

abbrev CheckedOutcome := Outcome WorkshopDb CheckedPlace SagaEffect

/-- What the saga knows of a place. -/
def CheckedPlace.saga : CheckedPlace → SagaPlace
  | .running place => place
  | .resolvingParts .. | .drawing .. => .idle
  | .creating _ _ _ workOrder => .creating workOrder
  | .readingPart edit _ => .saving edit none
  | .readingUse item => .shelf item

/-- Where a program goes after a statement of the saga.  The part of a request
is what its catalog answers, which is read once the work order is loaded. -/
def afterStatement (before next : SagaPlace) : CheckedPlace :=
  match before, next with
  | .loadingBudgets (.plain (.planPart part _)) .., .saving edit none =>
      .readingPart edit part
  | _, next => .running next

/-- The read is skipped once the item is inactive. -/
def afterLoad (inventory : InventoryDb) : SagaPlace → CheckedPlace
  | .shelf item =>
      if hasLeft inventory item.id then .running (.shelf item) else .readingUse item
  | next => .running next

def afterDraw (command : CreateCommand) (now : Timestamp) (attempts : Nat) :
    SagaPlace → CheckedPlace
  | .creating workOrder => .creating command now attempts workOrder
  | next => .running next

/-- A number that is taken is drawn again. -/
def afterAttempt (tables : WorkOrderTables) (command : CreateCommand)
    (now : Timestamp) (attempts : Nat) (workOrder : WorkOrder) (next : SagaPlace) :
    CheckedPlace :=
  if (tables.findRow workOrder.number).isSome && decide (attempts < maxNumberAttempts)
  then .drawing command now attempts
  else .running next

/-- A statement that only reads, and goes on when the check holds. -/
def checkThen (db : WorkshopDb) (check : Bool) (next : CheckedPlace) :
    CheckedOutcome :=
  { store := db, place := if check then next else .running .idle }

/-- A statement of the saga, and where the program goes from there. -/
def sagaThen (settings : OutboxSettings) (db : WorkshopDb) (place : SagaPlace)
    (input : SagaInput) (next : SagaPlace → CheckedPlace) : Option CheckedOutcome :=
  (sagaExec settings db place input).map fun out =>
    { store := out.store, place := next out.place, effects := out.effects }

/-- One statement of a program that makes the checks. -/
def checkedExec (settings : OutboxSettings) (db : WorkshopDb) :
    CheckedPlace → CheckedInput → Option CheckedOutcome
  | .running .idle, .saga (.create command now) =>
      some { store := db, place := .resolvingParts command now command.parts }
  | .running .idle, .saga (.shelf (.deactivate itemId _ now)) =>
      sagaThen settings db .idle (.shelf (.deactivate itemId [] now))
        (afterLoad db.inventory)
  | .running place, .saga input =>
      sagaThen settings db place input (afterStatement place)
  | .resolvingParts command now [], .saga (.proceed _) =>
      some { store := db, place := .drawing command now 0 }
  | .resolvingParts command now (part :: left), .saga (.proceed _) =>
      some (checkThen db (offers db.inventory part)
        (.resolvingParts command now left))
  | .drawing command now attempts, .draw number =>
      sagaThen settings db .idle (.create { command with number } now)
        (afterDraw command now (attempts + 1))
  | .creating command now attempts workOrder, .saga (.proceed surroundings) =>
      sagaThen settings db (.creating workOrder) (.proceed surroundings)
        (afterAttempt db.tables command now attempts workOrder)
  | .readingPart edit part, .saga (.proceed _) =>
      some (checkThen db (offers db.inventory part) (.running (.saving edit none)))
  | .readingUse item, .saga (.proceed _) =>
      some (checkThen db (openWorkOrderNumbersUsing db.tables item.id).isEmpty
        (.running (.shelf item)))
  | _, .saga (.fail _) | _, .saga .crash =>
      some { store := db, place := .running .idle }
  | _, _ => none

/-- The tables as the migrations leave them, and no program under way. -/
def emptyChecked : Config WorkshopDb CheckedPlace :=
  ⟨emptyWorkshop.store, fun _ => .running .idle⟩

/-- The items a program is about to plan on a work order that did not plan
them. -/
def SagaPlace.plans : SagaPlace → List ItemId
  | .creating workOrder => workOrder.plannedItems
  | place => (place.edit.map Edit.newItems).getD []

/-- The item a program is about to save an inactive copy of. -/
def SagaPlace.takesOut : SagaPlace → List ItemId
  | .shelf item => if item.status = .inactive then [item.id] else []
  | _ => []

/-- The items a program read in the catalog for a work order it has not saved
yet. -/
def CheckedPlace.reliesOn : CheckedPlace → List ItemId
  | .running place => place.plans
  | .resolvingParts command _ left =>
      command.items.filter fun itemId =>
        decide (itemId ∉ left.map OpeningPart.inventoryItemId)
  | .drawing command .. | .creating command .. => command.items
  | .readingPart .. | .readingUse .. => []

/-- The item a program may take out of the catalog, once it read the work orders
that use it. -/
def CheckedPlace.takesOut : CheckedPlace → List ItemId
  | .running place => place.takesOut
  | _ => []

/-- What another program commits leaves the answers this one goes by as they
are: an item it read in the catalog does not leave it, and no open work order
begins to use an item it is about to take out. -/
structure KeepsChecks (db db' : WorkshopDb) (place : CheckedPlace) : Prop where
  listed : ∀ itemId ∈ place.reliesOn, hasLeft db.inventory itemId = false →
    hasLeft db'.inventory itemId = false
  unused : ∀ itemId ∈ place.takesOut,
    openWorkOrderNumbersUsing db.tables itemId = [] →
      openWorkOrderNumbersUsing db'.tables itemId = []

instance (db db' : WorkshopDb) (place : CheckedPlace) :
    Decidable (KeepsChecks db db' place) :=
  decidable_of_iff
    ((∀ itemId ∈ place.reliesOn, hasLeft db.inventory itemId = false →
        hasLeft db'.inventory itemId = false) ∧
      ∀ itemId ∈ place.takesOut, openWorkOrderNumbersUsing db.tables itemId = [] →
        openWorkOrderNumbersUsing db'.tables itemId = [])
    ⟨fun h => ⟨h.1, h.2⟩, fun h => ⟨h.listed, h.unused⟩⟩

/-- The program stands before a check. -/
def CheckedPlace.isReading : CheckedPlace → Bool
  | .readingPart .. | .readingUse .. => true
  | _ => false

section Projection

variable {settings : OutboxSettings} {db : WorkshopDb} {place : CheckedPlace}
variable {input : CheckedInput} {out : CheckedOutcome}

/-- A turn is no turn of the saga, or it is one; before a check the only turn of
the saga is that the program ends. -/
def SeenBySaga (settings : OutboxSettings) (db : WorkshopDb) (place : CheckedPlace)
    (out : CheckedOutcome) : Prop :=
  (out.store = db ∧ out.place.saga = place.saga ∧ out.effects = []) ∨
    ∃ sagaInput, (place.isReading = true → sagaInput = .crash) ∧
      sagaExec settings db place.saga sagaInput =
        some ⟨out.store, out.place.saga, out.effects⟩

theorem seen_of_sagaThen {sagaInput : SagaInput} {next : SagaPlace → CheckedPlace}
    (hexec : sagaThen settings db place.saga sagaInput next = some out)
    (hreading : place.isReading = false)
    (hnext : ∀ sagaOut, sagaExec settings db place.saga sagaInput = some sagaOut →
      (next sagaOut.place).saga = sagaOut.place) :
    SeenBySaga settings db place out := by
  obtain ⟨sagaOut, hsaga, rfl⟩ := Option.map_eq_some_iff.mp hexec
  refine Or.inr ⟨sagaInput, fun hreads => ?_, ?_⟩
  · rw [hreading] at hreads
    cases hreads
  · rw [hnext sagaOut hsaga]
    exact hsaga

/-- A program that ends, as the saga sees it. -/
theorem seen_of_leaving :
    SeenBySaga settings db place { store := db, place := .running .idle } :=
  Or.inr ⟨.crash, fun _ => rfl, rfl⟩

/-- A read of the other module's table is no turn of the saga, or the program
ends with it. -/
theorem seen_of_checkThen {check : Bool} {next : CheckedPlace}
    (hnext : next.saga = place.saga) :
    SeenBySaga settings db place (checkThen db check next) := by
  cases check with
  | true => exact Or.inl ⟨rfl, hnext, rfl⟩
  | false => exact seen_of_leaving

theorem saga_afterStatement (before next : SagaPlace) :
    (afterStatement before next).saga = next := by
  unfold afterStatement
  split <;> rfl

theorem saga_afterLoad (inventory : InventoryDb) (next : SagaPlace) :
    (afterLoad inventory next).saga = next := by
  unfold afterLoad
  split
  · split <;> rfl
  · rfl

theorem saga_afterDraw {command : CreateCommand} {now : Timestamp} (attempts : Nat)
    (next : SagaPlace) : (afterDraw command now attempts next).saga = next := by
  unfold afterDraw
  split <;> rfl

/-- An attempt ends where the save ends. -/
theorem saga_afterAttempt {command : CreateCommand} {now : Timestamp}
    {attempts : Nat} {workOrder : WorkOrder} {surroundings : Surroundings}
    {sagaOut : SagaOutcome}
    (hexec : sagaExec settings db (.creating workOrder) (.proceed surroundings) =
      some sagaOut) :
    (afterAttempt db.tables command now attempts workOrder sagaOut.place).saga =
      sagaOut.place := by
  have hidle : sagaOut.place = .idle := by
    simp only [sagaExec] at hexec
    split at hexec <;> cases hexec <;> rfl
  unfold afterAttempt
  split
  · exact hidle.symm
  · rfl

/-- What a turn is to the saga. -/
theorem seen_of_exec (hexec : checkedExec settings db place input = some out) :
    SeenBySaga settings db place out := by
  unfold checkedExec at hexec
  split at hexec
  case h_1 command now =>
    cases hexec
    exact Or.inl ⟨rfl, rfl, rfl⟩
  case h_2 itemId numbers now =>
    exact seen_of_sagaThen hexec rfl fun _ _ => saga_afterLoad _ _
  case h_3 place input hcreate hdeactivate =>
    exact seen_of_sagaThen hexec rfl fun _ _ => saga_afterStatement place _
  case h_4 command now surroundings =>
    cases hexec
    exact Or.inl ⟨rfl, rfl, rfl⟩
  case h_5 command now part left surroundings =>
    cases hexec
    exact seen_of_checkThen rfl
  case h_6 command now attempts number =>
    exact seen_of_sagaThen hexec rfl fun _ _ => saga_afterDraw _ _
  case h_7 command now attempts workOrder surroundings =>
    exact seen_of_sagaThen hexec rfl fun _ => saga_afterAttempt
  case h_8 edit part surroundings =>
    cases hexec
    exact seen_of_checkThen rfl
  case h_9 item surroundings =>
    cases hexec
    exact seen_of_checkThen rfl
  case h_10 =>
    cases hexec
    exact seen_of_leaving
  case h_11 =>
    cases hexec
    exact seen_of_leaving
  case h_12 => cases hexec

end Projection

end WorkOrders

end Workshop
