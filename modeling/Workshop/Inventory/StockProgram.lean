/-
The requests inventory serves, as programs that interleave at the statements
that commit or that read before they lock.  A request that loads an item
carries its copy until it saves; a batch, which locks before it reads, is one
step.
-/
import Workshop.Inventory.LedgerShape
import Workshop.Library.Interleaving

namespace Workshop

namespace Inventory

/-- Where a request stands between two statements. -/
inductive StockPlace
  | idle
  /-- The loaded item changed in memory; the save is next. -/
  | saving (item : InventoryItem)
  /-- An undo named its items; the transaction that locks them is next. -/
  | undoing (command : UndoConsumptionCommand) (named : List ItemId)
  /-- A settlement or a write-off picked its consumptions; the update is
  next. -/
  | closing (closure : Closure) (actorUserId : UserId)
      (candidates : List ClosureCandidate)

/-- What a request asks for, or how the statement it stands at ends. -/
inductive StockInput
  | create (sku name : String) (description : Option String)
      (kind : InventoryItemKind) (unitPriceCents : Int) (now : Timestamp)
  | update (itemId : ItemId) (name : Option String)
      (description : Option (Option String)) (unitPriceCents : Option Int)
      (now : Timestamp)
  /-- The numbers are those of the open work orders that use the item. -/
  | deactivate (itemId : ItemId) (workOrderNumbers : List String) (now : Timestamp)
  | replenish (itemId : ItemId) (quantity unitPriceCents : Int)
      (actorUserId : UserId) (note : Option String) (now : Timestamp)
  | adjust (itemId : ItemId) (quantity : Int) (actorUserId : UserId)
      (note : String) (now : Timestamp)
  | consume (command : ConsumeStockBatchCommand) (now : Timestamp)
  | restore (command : RestoreStockBatchCommand) (order : RowOrder MovementRow)
      (now : Timestamp)
  | undo (command : UndoConsumptionCommand)
  | confirm (operationId : OperationId) (now : Timestamp)
  | close (closure : Closure) (workOrderId : WorkOrderId) (actorUserId : UserId)
  /-- The statement the request stands at commits. -/
  | proceed (now : Timestamp)
  /-- The statement fails or the process crashes. -/
  | abort

/-- The outcome of one statement of a request.  Inventory logs nothing. -/
abbrev StockOutcome := Outcome InventoryDb StockPlace Unit

/-- A transaction that reports an error leaves the tables it started from. -/
def commit (db : InventoryDb) (result : Except InventoryError InventoryDb) :
    StockOutcome :=
  match result with
  | .ok db => { store := db, place := .idle }
  | .error _ => { store := db, place := .idle }

/-- The load of one item and what the request does to it in memory. -/
def loadThen (db : InventoryDb) (itemId : ItemId)
    (change : InventoryItem → Except InventoryError InventoryItem) :
    StockPlace :=
  match db.findById itemId with
  | .ok (some item) =>
      match change item with
      | .ok item => .saving item
      | .error _ => .idle
  | _ => .idle

/-- `Money.fromCents`, whose error inventory passes on. -/
def priceOf (cents : Int) : Except InventoryError Money :=
  match Money.fromCents cents with
  | .ok price => .ok price
  | .error error => .error (.invalidUnitPrice error.cents)

/-- `CreateInventoryItemUseCase`, up to its save. -/
def createItem (db : InventoryDb) (sku name : String)
    (description : Option String) (kind : InventoryItemKind)
    (unitPriceCents : Int) (now : Timestamp) : StockOutcome :=
  match priceOf unitPriceCents with
  | .error _ => { store := db, place := .idle }
  | .ok unitPrice =>
      if db.existsActiveBySku sku then { store := db, place := .idle }
      else {
        store := { db with nextId := db.nextId + 1 }
        place := .saving
          (InventoryItem.create db.nextId sku name description kind unitPrice now) }

/-- The change `UpdateInventoryItemUseCase` makes. -/
def updateItem (name : Option String) (description : Option (Option String))
    (unitPriceCents : Option Int) (now : Timestamp) (item : InventoryItem) :
    Except InventoryError InventoryItem := do
  let unitPrice ← unitPriceCents.mapM priceOf
  return item.updateDetails { name, description, unitPrice } now

/-- The change `DeactivateInventoryItemUseCase` makes. -/
def deactivateItem (workOrderNumbers : List String) (now : Timestamp)
    (item : InventoryItem) : Except InventoryError InventoryItem :=
  if item.status ≠ .inactive ∧ 0 < workOrderNumbers.length
  then .error (.inventoryItemInUse workOrderNumbers)
  else .ok (item.deactivate now)

/-- One statement of a request of inventory. -/
def stockExec (db : InventoryDb) :
    StockPlace → StockInput → Option StockOutcome
  | .idle, .create sku name description kind unitPriceCents now =>
      some (createItem db sku name description kind unitPriceCents now)
  | .idle, .update itemId name description unitPriceCents now =>
      some {
        store := db
        place := loadThen db itemId
          (updateItem name description unitPriceCents now) }
  | .idle, .deactivate itemId workOrderNumbers now =>
      some {
        store := db
        place := loadThen db itemId (deactivateItem workOrderNumbers now) }
  | .idle, .replenish itemId quantity unitPriceCents actorUserId note now =>
      some {
        store := { db with nextId := db.nextId + 1 }
        place := loadThen db itemId fun item => do
          let unitPrice ← priceOf unitPriceCents
          item.replenish {
            quantity, unitPrice, actorUserId, note, now
            movementId := db.nextId } }
  | .idle, .adjust itemId quantity actorUserId note now =>
      some {
        store := { db with nextId := db.nextId + 1 }
        place := loadThen db itemId fun item =>
          item.adjustDown {
            quantity, actorUserId, note, now, movementId := db.nextId } }
  | .idle, .consume command now =>
      some (commit db (db.consumeStockBatch command now))
  | .idle, .restore command order now =>
      some (commit db (db.restoreStockBatch order command now))
  | .idle, .undo command =>
      match db.undoNames command with
      | [] => some { store := db, place := .idle }
      | named => some { store := db, place := .undoing command named }
  | .idle, .confirm operationId now =>
      some {
        store := db.confirmConsumptionsOfOperation operationId now
        place := .idle }
  | .idle, .close closure workOrderId actorUserId =>
      some {
        store := db
        place := .closing closure actorUserId
          (db.closureCandidates closure workOrderId) }
  | .saving item, .proceed _ => some (commit db (db.save item))
  | .undoing command named, .proceed now =>
      some (commit db (db.undoConsumption command named now))
  | .closing closure actorUserId candidates, .proceed now =>
      some {
        store := db.closeConsumptions closure candidates actorUserId now
        place := .idle }
  | _, .abort => some { store := db, place := .idle }
  | _, _ => none

/-- A copy of an item that waits for its save: the item is in the table, or
it is new, empty and has moved nothing. -/
def Saveable (db : InventoryDb) (item : InventoryItem) : Prop :=
  item.id ∈ db.itemIds ∨ item.movements = [] ∧ item.quantityOnHand.units = 0

/-- What holds of the copy a request is about to save when it took it. -/
def FreshCopy (db : InventoryDb) (place : StockPlace) : Prop :=
  ∀ item, place = .saving item → Saveable db item ∧ PlainItem item

/-- What a statement of inventory can do to the tables, and the input and the
place it did it from. -/
inductive StockMove (db : InventoryDb) :
    StockPlace → StockInput → InventoryDb → StockPlace → Prop
  /-- It read, drew an id, failed or was refused. -/
  | read {place : StockPlace} {input : StockInput} (nextId : Uuid)
      (hle : db.nextId ≤ nextId) (next : StockPlace) (hnext : FreshCopy db next) :
      StockMove db place input { db with nextId } next
  | save {input : StockInput} {db' : InventoryDb} (item : InventoryItem)
      (hsave : db.save item = .ok db') :
      StockMove db (.saving item) input db' .idle
  | consume {db' : InventoryDb} (command : ConsumeStockBatchCommand)
      (now : Timestamp) (hconsume : db.consumeStockBatch command now = .ok db') :
      StockMove db .idle (.consume command now) db' .idle
  | restore {db' : InventoryDb} (command : RestoreStockBatchCommand)
      (order : RowOrder MovementRow) (now : Timestamp)
      (hrestore : db.restoreStockBatch order command now = .ok db') :
      StockMove db .idle (.restore command order now) db' .idle
  | undo {input : StockInput} {db' : InventoryDb}
      (command : UndoConsumptionCommand) (named : List ItemId) (now : Timestamp)
      (hundo : db.undoConsumption command named now = .ok db') :
      StockMove db (.undoing command named) input db' .idle
  | confirm (operationId : OperationId) (now : Timestamp) :
      StockMove db .idle (.confirm operationId now)
        (db.confirmConsumptionsOfOperation operationId now) .idle
  | close {input : StockInput} (closure : Closure) (actorUserId : UserId)
      (candidates : List ClosureCandidate) (now : Timestamp) :
      StockMove db (.closing closure actorUserId candidates) input
        (db.closeConsumptions closure candidates actorUserId now) .idle

section Moves

variable {db : InventoryDb} {place : StockPlace} {input : StockInput}
variable {out : StockOutcome}

/-- Staying at the same tables is a move whatever the place. -/
theorem StockMove.stay (next : StockPlace) (hnext : FreshCopy db next) :
    StockMove db place input db next :=
  StockMove.read db.nextId le_rfl next hnext

/-- A transaction either commits what it computed or leaves the tables. -/
theorem stockMove_of_commit {result : Except InventoryError InventoryDb}
    (hresult : ∀ db', result = .ok db' → StockMove db place input db' .idle) :
    StockMove db place input (commit db result).store (commit db result).place := by
  cases result with
  | error e => exact StockMove.stay .idle nofun
  | ok db' => exact hresult db' rfl

/-- A change in memory that keeps the item and makes no consumption and no
return. -/
def PlainChange (change : InventoryItem → Except InventoryError InventoryItem) :
    Prop :=
  ∀ item item', item.movements = [] → change item = .ok item' →
    item'.id = item.id ∧ PlainItem item'

/-- An item that was loaded and changed in memory can be saved. -/
theorem loadThen_fresh {itemId : ItemId}
    {change : InventoryItem → Except InventoryError InventoryItem}
    (hchange : PlainChange change) : FreshCopy db (loadThen db itemId change) := by
  intro item h
  unfold loadThen InventoryDb.findById at h
  cases hfind : db.items.find? (fun row => row.id = itemId) with
  | none => simp [hfind] at h
  | some row =>
      cases hload : toDomain row with
      | error e => simp [hfind, hload, Except.map] at h
      | ok loaded =>
          cases hchanged : change loaded with
          | error e => simp [hfind, hload, hchanged, Except.map] at h
          | ok changed =>
              simp only [hfind, hload, hchanged, Except.map,
                StockPlace.saving.injEq] at h
              subst h
              obtain ⟨hid, hmovements, -⟩ := toDomain_ok hload
              obtain ⟨hsame, hplain⟩ := hchange _ _ hmovements hchanged
              refine ⟨Or.inl ?_, hplain⟩
              rw [hsame, hid]
              exact List.mem_map_of_mem (List.mem_of_find?_eq_some hfind)

theorem plainItem_of_nil {item : InventoryItem} (h : item.movements = []) :
    PlainItem item := by
  intro movement hmovement
  simp [h] at hmovement

theorem updateItem_plain (name : Option String)
    (description : Option (Option String)) (unitPriceCents : Option Int)
    (now : Timestamp) :
    PlainChange (updateItem name description unitPriceCents now) := by
  intro item item' hnil h
  obtain ⟨unitPrice, -, h⟩ := bind_eq_ok_iff.mp h
  rw [pure_eq_ok_iff] at h
  subst h
  exact ⟨rfl, plainItem_of_nil hnil⟩

theorem deactivateItem_plain (workOrderNumbers : List String) (now : Timestamp) :
    PlainChange (deactivateItem workOrderNumbers now) := by
  intro item item' hnil h
  unfold deactivateItem InventoryItem.deactivate at h
  split at h
  · cases h
  · cases h
    split
    · exact ⟨rfl, plainItem_of_nil hnil⟩
    · exact ⟨rfl, plainItem_of_nil hnil⟩

/-- Appending one plain movement to a loaded item. -/
theorem push_plain {item : InventoryItem} (hnil : item.movements = [])
    {movement : StockMovement} (hplain : movement.Plain)
    (quantityOnHand : StockQuantity) (now : Timestamp) :
    PlainItem (item.push movement quantityOnHand now) := by
  intro other hother
  simp only [InventoryItem.push, hnil, List.nil_append, List.mem_singleton] at hother
  subst hother
  exact hplain

/-- What `record` makes of the other kinds is plain. -/
theorem record_plain {id : MovementId} {kind : StockMovementKind} {quantity : Int}
    {unitPrice : Money} {actorUserId : UserId} {note : Option String}
    {now : Timestamp} {movement : StockMovement}
    (hconsumption : kind ≠ .consumption) (hreturned : kind ≠ .returned)
    (h : StockMovement.record id kind quantity unitPrice actorUserId note now =
      .ok movement) : movement.Plain := by
  obtain ⟨⟨⟩, -, h⟩ := bind_eq_ok_iff.mp h
  rw [pure_eq_ok_iff] at h
  subst h
  exact ⟨hconsumption, hreturned, rfl⟩

theorem replenish_plain (input : Money → InventoryItem.ReplenishStockInput)
    (unitPriceCents : Int) :
    PlainChange (fun item => do
      let unitPrice ← priceOf unitPriceCents
      item.replenish (input unitPrice)) := by
  intro item item' hnil h
  obtain ⟨unitPrice, -, h⟩ := bind_eq_ok_iff.mp h
  obtain ⟨movement, hmovement, h⟩ := bind_eq_ok_iff.mp h
  obtain ⟨quantityOnHand, -, h⟩ := bind_eq_ok_iff.mp h
  rw [pure_eq_ok_iff] at h
  subst h
  exact ⟨rfl, push_plain hnil
    (record_plain (by decide) (by decide) hmovement) _ _⟩

theorem adjustDown_plain (input : InventoryItem.AdjustStockDownInput) :
    PlainChange fun item => item.adjustDown input := by
  intro item item' hnil h
  simp only [InventoryItem.adjustDown] at h
  by_cases hnote : input.note = ""
  · simp [hnote, bind_eq_ok_iff] at h
  simp only [hnote, if_false] at h
  obtain ⟨movement, hmovement, h⟩ := bind_eq_ok_iff.mp h
  obtain ⟨quantityOnHand, -, h⟩ := bind_eq_ok_iff.mp h
  rw [pure_eq_ok_iff] at h
  subst h
  exact ⟨rfl, push_plain hnil
    (record_plain (by decide) (by decide) hmovement) _ _⟩

/-- Every statement of inventory is one of the moves. -/
theorem stockMove_of_exec (hexec : stockExec db place input = some out) :
    StockMove db place input out.store out.place := by
  unfold stockExec at hexec
  split at hexec
  case h_1 sku name description kind unitPriceCents now =>
    cases hexec
    unfold createItem
    split
    · exact StockMove.stay .idle nofun
    · split
      · exact StockMove.stay .idle nofun
      · refine StockMove.read _ (Nat.le_succ _) _ fun item hitem => ?_
        cases hitem
        exact ⟨Or.inr ⟨rfl, rfl⟩, plainItem_of_nil rfl⟩
  case h_2 itemId name description unitPriceCents now =>
    cases hexec
    exact StockMove.stay _ (loadThen_fresh (updateItem_plain _ _ _ _))
  case h_3 itemId workOrderNumbers now =>
    cases hexec
    exact StockMove.stay _ (loadThen_fresh (deactivateItem_plain _ _))
  case h_4 itemId quantity unitPriceCents actorUserId note now =>
    cases hexec
    exact StockMove.read _ (Nat.le_succ _) _ (loadThen_fresh (replenish_plain _ _))
  case h_5 itemId quantity actorUserId note now =>
    cases hexec
    exact StockMove.read _ (Nat.le_succ _) _ (loadThen_fresh (adjustDown_plain _))
  case h_6 command now =>
    cases hexec
    exact stockMove_of_commit fun db' h => StockMove.consume command now h
  case h_7 command order now =>
    cases hexec
    exact stockMove_of_commit fun db' h => StockMove.restore command order now h
  case h_8 command =>
    split at hexec
    · cases hexec
      exact StockMove.stay .idle nofun
    · cases hexec
      exact StockMove.stay _ nofun
  case h_9 operationId now =>
    cases hexec
    exact StockMove.confirm operationId now
  case h_10 closure workOrderId actorUserId =>
    cases hexec
    exact StockMove.stay _ nofun
  case h_11 item now =>
    cases hexec
    exact stockMove_of_commit fun db' h => StockMove.save item h
  case h_12 command named now =>
    cases hexec
    exact stockMove_of_commit fun db' h => StockMove.undo command named now h
  case h_13 closure actorUserId candidates now =>
    cases hexec
    exact StockMove.close closure actorUserId candidates now
  case h_14 =>
    cases hexec
    exact StockMove.stay .idle nofun
  case h_15 => cases hexec

variable {db' : InventoryDb} {place' : StockPlace}

/-- A copy is under way only once it was loaded or created. -/
theorem StockMove.freshCopy
    (hmove : StockMove db place input db' place') : FreshCopy db' place' := by
  intro item hitem
  subst hitem
  cases hmove with
  | read nextId hle next hnext => exact hnext item rfl

/-- No statement removes an item. -/
theorem StockMove.itemIds_subset (hnodup : db.itemIds.Nodup)
    (hmove : StockMove db place input db' place') : db.itemIds ⊆ db'.itemIds := by
  cases hmove with
  | read nextId hle next hnext => exact List.Subset.refl _
  | save item hsave => exact save_itemIds_subset hsave
  | consume command now hconsume =>
      obtain ⟨posts, hposted, -⟩ := consumeStockBatch_ok hnodup hconsume
      rw [hposted.itemIds]
      exact List.Subset.refl _
  | restore command order now hrestore =>
      rcases restoreStockBatch_ok hnodup hrestore with
        ⟨-, rfl⟩ | ⟨-, posts, hposted, -⟩
      · exact List.Subset.refl _
      · rw [hposted.itemIds]
        exact List.Subset.refl _
  | undo command named now hundo =>
      obtain ⟨posts, hposted, -⟩ := undoConsumption_ok hnodup hundo
      rw [hposted.itemIds]
      exact List.Subset.refl _
  | confirm operationId now => exact List.Subset.refl _
  | close closure actorUserId candidates now => exact List.Subset.refl _

/-- A copy another request holds can still be saved after the statement. -/
theorem StockMove.freshCopy_other (hnodup : db.itemIds.Nodup)
    (hmove : StockMove db place input db' place') {other : StockPlace}
    (hother : FreshCopy db other) : FreshCopy db' other := fun item hitem =>
  (hother item hitem).imp_left
    (Or.imp_left fun hmem => hmove.itemIds_subset hnodup hmem)

end Moves

/-- The tables as the migrations leave them, and no request under way. -/
def emptyStock : Config InventoryDb StockPlace := ⟨{}, fun _ => .idle⟩

end Inventory

end Workshop
