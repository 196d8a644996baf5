/-
The batches that give units back.  Nothing stops a return whose lines are covered, nor
an undo that holds the items of all its consumptions.
-/
import Workshop.Inventory.ReturnBounds
import Workshop.WorkOrders.ShortBatches

namespace Workshop

namespace WorkOrders

open Inventory

/-- What is left of the consumptions of an operation that are of one item. -/
def leftOf (db : InventoryDb) (operationId : OperationId) (itemId : ItemId) : Int :=
  sumWhere (fun row => decide (row.inventoryItemId = itemId)) db.netRemaining
    (db.operationRows operationId)

section Items

variable {db : InventoryDb} {item : InventoryItem}

theorem plus_ok {quantity more : StockQuantity} {units : Int}
    (h : quantity.plus units = .ok more) : more.units = quantity.units + units := by
  unfold StockQuantity.plus StockQuantity.ofUnits at h
  split at h
  · cases h
    rfl
  · cases h

theorem restoreUnits_units {restored : InventoryItem} {input : RestoreStockInput}
    (h : item.restoreUnits input = .ok restored) :
    restored.quantityOnHand.units = item.quantityOnHand.units + input.quantity := by
  obtain ⟨movement, -, h⟩ := bind_eq_ok_iff.mp h
  obtain ⟨more, hmore, h⟩ := bind_eq_ok_iff.mp h
  rw [pure_eq_ok_iff] at h
  subst h
  exact plus_ok hmore

/-- A positive number of units can always be put back, and this is what it changes. -/
theorem restoreUnits_total (item : InventoryItem) (input : RestoreStockInput)
    (hpositive : 0 < input.quantity) :
    ∃ restored, item.restoreUnits input = .ok restored ∧ restored.sku = item.sku ∧
      restored.status = item.status ∧
      restored.quantityOnHand.units = item.quantityOnHand.units + input.quantity := by
  have hcheck : StockMovement.checkQuantity input.quantity = .ok () := if_neg (by omega)
  have hmovement : StockMovement.undo input item.unitPrice =
      .ok (input.toMovement item.unitPrice) := by
    rw [StockMovement.undo, hcheck]
    rfl
  have hnonneg : 0 ≤ item.quantityOnHand.units + input.quantity := by
    have := item.quantityOnHand.nonneg
    omega
  have hplus : item.quantityOnHand.plus input.quantity =
      .ok ⟨item.quantityOnHand.units + input.quantity, hnonneg⟩ := dif_pos hnonneg
  refine ⟨item.push (input.toMovement item.unitPrice) ⟨_, hnonneg⟩ input.now,
    ?_, rfl, rfl, rfl⟩
  rw [InventoryItem.restoreUnits, hmovement]
  change (item.quantityOnHand.plus input.quantity >>= _) = _
  rw [hplus]
  rfl

/-- Putting units back on a movement of the ledger goes through and leaves an item that
can be saved. -/
theorem SavesOver.restore (h : SavesOver db item) (input : RestoreStockInput)
    (hpositive : 0 < input.quantity)
    (hundone : ∃ row ∈ db.movements, row.id = input.undoesMovementId) :
    ∃ restored, item.restoreUnits input = .ok restored ∧ restored.id = item.id ∧
      SavesOver db restored := by
  obtain ⟨restored, hrestored, hsku, hstatus, hunits⟩ :=
    restoreUnits_total item input hpositive
  obtain ⟨-, hid, hmovements⟩ := restoreUnits_ok hrestored
  obtain ⟨row, hrow, hsame, hrowSku, hrowStatus, hcount⟩ := h.row
  have hdelta : restored.delta = item.delta + input.quantity := by
    rw [InventoryItem.delta, hmovements, List.map_append, List.sum_append]
    exact congrArg (item.delta + ·) (add_zero _)
  refine ⟨restored, hrestored, hid, ⟨row, hrow, hsame.trans hid.symm,
    hrowSku.trans hsku.symm, hrowStatus.trans hstatus.symm, ?_⟩,
    fun movement hmovement id hundoes => ?_⟩
  · rw [hdelta, hunits, ← hcount, Int.add_assoc]
  · rw [hmovements] at hmovement
    rcases List.mem_append.mp hmovement with hmovement | hmovement
    · exact h.undoes movement hmovement id hundoes
    · rw [List.mem_singleton.mp hmovement] at hundoes
      obtain ⟨target, htarget, htargetId⟩ := hundone
      exact ⟨target, htarget, htargetId.trans (Option.some.inj hundoes)⟩

theorem forall_updateLoaded {P : InventoryItem → Prop} {loaded : List InventoryItem}
    (hloaded : ∀ other ∈ loaded, P other) (hitem : P item) :
    ∀ other ∈ updateLoaded loaded item, P other := by
  intro other hother
  rcases mem_updateLoaded hother with rfl | ⟨hold, -⟩
  · exact hitem
  · exact hloaded other hold

end Items

section Loops

variable {db : InventoryDb} {order : RowOrder MovementRow} {now : Timestamp}

/-- The draws of a line go through. -/
theorem drawFrom_total {command : RestoreStockBatchCommand}
    {pending : List PendingConsumptionDto} :
    ∀ {remaining : Int} {item : InventoryItem} (nextId : Uuid),
      (∀ consumption ∈ pending, 0 < consumption.quantity ∧
        ∃ row ∈ db.movements, row.id = consumption.movementId) →
      SavesOver db item →
      ∃ left drawn last, drawFrom command now pending remaining item nextId =
        .ok (left, drawn, last) ∧ SavesOver db drawn := by
  induction pending with
  | nil => exact fun nextId _ hitem => ⟨_, _, nextId, rfl, hitem⟩
  | cons consumption pending ih =>
      intro remaining item nextId hpending hitem
      unfold drawFrom
      by_cases hdone : remaining ≤ 0
      · rw [if_pos hdone]
        exact ⟨_, _, nextId, rfl, hitem⟩
      · obtain ⟨hpositive, hundone⟩ := hpending consumption List.mem_cons_self
        obtain ⟨restored, hrestored, -, hkept⟩ := hitem.restore
          { quantity := min remaining consumption.quantity
            workOrderId := command.workOrderId, actorUserId := command.actorUserId
            movementId := nextId, undoesMovementId := consumption.movementId
            operationId := some command.operationId, now }
          (lt_min (not_le.mp hdone) hpositive) hundone
        rw [if_neg hdone]
        dsimp only
        rw [hrestored]
        exact ih (nextId + 1) (fun other hother =>
          hpending other (List.mem_cons_of_mem _ hother)) hkept

/-- What the draws of a line put on the shelf is what they cover of it. -/
theorem drawFrom_units {command : RestoreStockBatchCommand}
    {pending : List PendingConsumptionDto} :
    ∀ {remaining left : Int} {item drawn : InventoryItem} {nextId last : Uuid},
      drawFrom command now pending remaining item nextId = .ok (left, drawn, last) →
      drawn.quantityOnHand.units + left = item.quantityOnHand.units + remaining ∧
        (0 ≤ remaining → 0 ≤ left) := by
  induction pending with
  | nil =>
      intro remaining left item drawn nextId last h
      simp only [drawFrom, Except.ok.injEq, Prod.mk.injEq] at h
      obtain ⟨rfl, rfl, -⟩ := h
      exact ⟨rfl, id⟩
  | cons consumption pending ih =>
      intro remaining left item drawn nextId last h
      unfold drawFrom at h
      by_cases hdone : remaining ≤ 0
      · rw [if_pos hdone] at h
        simp only [Except.ok.injEq, Prod.mk.injEq] at h
        obtain ⟨rfl, rfl, -⟩ := h
        exact ⟨rfl, id⟩
      · rw [if_neg hdone] at h
        obtain ⟨restored, hrestored, h⟩ := bind_eq_ok_iff.mp h
        obtain ⟨hunits, hleft⟩ := ih h
        rw [restoreUnits_units hrestored] at hunits
        dsimp only at hunits
        exact ⟨by omega, fun _ => hleft (by omega)⟩

/-- What a restore line is offered stands in the ledger with units left. -/
theorem pendingConsumption_sound {itemId : ItemId} {workOrderId : WorkOrderId}
    {consumption : PendingConsumptionDto}
    (h : consumption ∈ db.findPendingConsumptions order itemId workOrderId) :
    0 < consumption.quantity ∧ ∃ row ∈ db.movements, row.id = consumption.movementId := by
  have hoffer : (consumption.movementId, consumption.quantity) ∈
      db.offers order itemId workOrderId := List.mem_map_of_mem h
  obtain ⟨row, hrow, heq⟩ := mem_offers.mp hoffer
  rw [Prod.mk.injEq] at heq
  obtain ⟨hmem, -, -, hleft⟩ := mem_pendingRows.mp hrow
  exact ⟨heq.2 ▸ hleft, row, hmem, heq.1⟩

/-- The line loop of a return goes through when the pending consumptions cover every
line and its item is locked. -/
theorem restoreLines_total {command : RestoreStockBatchCommand} {lines : List StockLine} :
    ∀ {loaded : List InventoryItem} (nextId : Uuid),
      (∀ line ∈ lines, line.inventoryItemId ∈ loaded.map InventoryItem.id) →
      (∀ line ∈ lines, line.quantity ≤ drawnTotal (allocate
        (db.offers order line.inventoryItemId command.workOrderId) line.quantity)) →
      (∀ item ∈ loaded, SavesOver db item) →
      ∃ changed last, restoreLines db order command now lines loaded nextId =
        .ok (changed, last) ∧ ∀ item ∈ changed, SavesOver db item := by
  induction lines with
  | nil => exact fun nextId _ _ hloaded => ⟨_, nextId, rfl, hloaded⟩
  | cons line lines ih =>
      intro loaded nextId hknown hcovered hloaded
      obtain ⟨item, hitem⟩ := findLoaded_of_mem (hknown line List.mem_cons_self)
      obtain ⟨hmem, hid⟩ := findLoaded_ok hitem
      have hdraw : ∃ left drawn last, drawFrom command now
          (db.findPendingConsumptions order item.id command.workOrderId) line.quantity
          item nextId = .ok (left, drawn, last) ∧ SavesOver db drawn :=
        drawFrom_total nextId (fun _ => pendingConsumption_sound) (hloaded item hmem)
      obtain ⟨left, drawn, last, hdrawn, hkept⟩ := hdraw
      obtain ⟨-, -, -, -, -, -, hleft⟩ := drawFrom_ok hdrawn
      have henough : ¬ 0 < left := by
        have hline := hcovered line List.mem_cons_self
        rw [InventoryDb.offers, ← hid] at hline
        omega
      obtain ⟨changed, final, hrest, hall⟩ := ih last (fun other hother => by
        rw [updateLoaded_ids]
        exact hknown other (List.mem_cons_of_mem _ hother))
        (fun other hother => hcovered other (List.mem_cons_of_mem _ hother))
        (forall_updateLoaded hloaded hkept)
      refine ⟨changed, final, ?_, hall⟩
      rw [restoreLines, hitem]
      change (drawFrom _ _ _ _ _ _ >>= _) = _
      rw [hdrawn]
      change (if 0 < left then _ else _) = _
      rw [if_neg henough]
      exact hrest

/-- The line loop of a return puts no more on the shelf than its lines ask for. -/
theorem restoreLines_units {command : RestoreStockBatchCommand} {lines : List StockLine} :
    ∀ {loaded changed : List InventoryItem} {nextId last : Uuid},
      (∀ line ∈ lines, 0 < line.quantity) →
      restoreLines db order command now lines loaded nextId = .ok (changed, last) →
      ∀ item' ∈ changed, ∃ item ∈ loaded, item.id = item'.id ∧
        item'.quantityOnHand.units ≤ item.quantityOnHand.units + unitsOf item'.id lines := by
  induction lines with
  | nil =>
      intro loaded changed nextId last _ h item' hitem
      simp only [restoreLines, Except.ok.injEq, Prod.mk.injEq] at h
      obtain ⟨rfl, -⟩ := h
      exact ⟨item', hitem, rfl, by simp [unitsOf]⟩
  | cons line lines ih =>
      intro loaded changed nextId last hpositive h item' hitem
      simp only [restoreLines] at h
      obtain ⟨found, hfound, h⟩ := bind_eq_ok_iff.mp h
      obtain ⟨⟨left, drawn, next⟩, hdraw, h⟩ := bind_eq_ok_iff.mp h
      obtain ⟨hmem, hid⟩ := findLoaded_ok hfound
      obtain ⟨-, hsame, -⟩ := drawFrom_ok hdraw
      obtain ⟨hunits, hleft⟩ := drawFrom_units hdraw
      have hline := hpositive line List.mem_cons_self
      have hcovered := hleft hline.le
      by_cases hmore : 0 < left
      · rw [if_pos hmore] at h
        cases h
      rw [if_neg hmore] at h
      obtain ⟨middle, hmiddle, hmiddleId, hrest⟩ :=
        ih (fun other hother => hpositive other (List.mem_cons_of_mem _ hother)) h item' hitem
      rw [unitsOf_cons]
      rcases mem_updateLoaded hmiddle with rfl | ⟨hold, -⟩
      · refine ⟨found, hmem, hsame.symm.trans hmiddleId, ?_⟩
        rw [if_pos (hid.symm.trans (hsame.symm.trans hmiddleId))]
        omega
      · refine ⟨middle, hold, hmiddleId, ?_⟩
        split <;> omega

/-- The loop of an undo goes through when the items of the consumptions are locked. -/
theorem undoLines_total {command : UndoConsumptionCommand}
    {pending : List OperationConsumptionDto} :
    ∀ {loaded : List InventoryItem} (nextId : Uuid),
      (∀ consumption ∈ pending, 0 < consumption.quantity ∧
        (∃ row ∈ db.movements, row.id = consumption.movementId) ∧
        consumption.inventoryItemId ∈ loaded.map InventoryItem.id) →
      (∀ item ∈ loaded, SavesOver db item) →
      ∃ changed last, undoLines command now pending loaded nextId = .ok (changed, last) ∧
        ∀ item ∈ changed, SavesOver db item := by
  induction pending with
  | nil => exact fun nextId _ hloaded => ⟨_, nextId, rfl, hloaded⟩
  | cons consumption pending ih =>
      intro loaded nextId hpending hloaded
      obtain ⟨hpositive, hundone, hknown⟩ := hpending consumption List.mem_cons_self
      obtain ⟨item, hitem⟩ := findLoaded_of_mem hknown
      obtain ⟨restored, hrestored, -, hkept⟩ :=
        (hloaded item (findLoaded_ok hitem).1).restore
          { quantity := consumption.quantity, workOrderId := consumption.workOrderId
            actorUserId := command.actorUserId, movementId := nextId
            undoesMovementId := consumption.movementId
            operationId := some command.operationId, now } hpositive hundone
      obtain ⟨changed, last, hrest, hall⟩ := ih (nextId + 1) (fun other hother => by
        rw [updateLoaded_ids]
        exact hpending other (List.mem_cons_of_mem _ hother))
        (forall_updateLoaded hloaded hkept)
      refine ⟨changed, last, ?_, hall⟩
      rw [undoLines, hitem]
      change (item.restoreUnits _ >>= _) = _
      rw [hrestored]
      exact hrest

/-- The loop of an undo puts back what it is given to undo. -/
theorem undoLines_units {command : UndoConsumptionCommand}
    {pending : List OperationConsumptionDto} :
    ∀ {loaded changed : List InventoryItem} {nextId last : Uuid},
      (∀ consumption ∈ pending, 0 < consumption.quantity) →
      undoLines command now pending loaded nextId = .ok (changed, last) →
      ∀ item' ∈ changed, ∃ item ∈ loaded, item.id = item'.id ∧
        item'.quantityOnHand.units ≤ item.quantityOnHand.units +
          sumWhere (fun consumption => decide (consumption.inventoryItemId = item'.id))
            (fun consumption => consumption.quantity) pending := by
  induction pending with
  | nil =>
      intro loaded changed nextId last _ h item' hitem
      simp only [undoLines, Except.ok.injEq, Prod.mk.injEq] at h
      obtain ⟨rfl, -⟩ := h
      exact ⟨item', hitem, rfl, by simp⟩
  | cons consumption pending ih =>
      intro loaded changed nextId last hpositive h item' hitem
      simp only [undoLines] at h
      obtain ⟨found, hfound, h⟩ := bind_eq_ok_iff.mp h
      obtain ⟨restored, hrestored, h⟩ := bind_eq_ok_iff.mp h
      obtain ⟨hmem, hid⟩ := findLoaded_ok hfound
      obtain ⟨-, hsame, -⟩ := restoreUnits_ok hrestored
      have hunits := restoreUnits_units hrestored
      dsimp only at hunits
      have hgiven := hpositive consumption List.mem_cons_self
      obtain ⟨middle, hmiddle, hmiddleId, hrest⟩ :=
        ih (fun other hother => hpositive other (List.mem_cons_of_mem _ hother)) h item' hitem
      rw [sumWhere_cons]
      rcases mem_updateLoaded hmiddle with rfl | ⟨hold, -⟩
      · refine ⟨found, hmem, hsame.symm.trans hmiddleId, ?_⟩
        rw [if_pos (decide_eq_true (hid.symm.trans (hsame.symm.trans hmiddleId)))]
        omega
      · refine ⟨middle, hold, hmiddleId, ?_⟩
        split <;> omega

/-- What an undo is given is what is left of its operation. -/
theorem sum_pendingOfOperation (db : InventoryDb) (operationId : OperationId)
    (itemId : ItemId) :
    sumWhere (fun consumption => decide (consumption.inventoryItemId = itemId))
        (fun consumption => consumption.quantity)
        (db.findPendingConsumptionsOfOperation operationId) =
      leftOf db operationId itemId := by
  rw [InventoryDb.findPendingConsumptionsOfOperation, sumWhere_map]
  exact sumWhere_perm ((List.perm_insertionSort
    (fun a b : MovementRow => b.occurredAt ≤ a.occurredAt) _).trans
    (List.reverse_perm (db.operationRows operationId)))

end Loops

section Batches

variable {db : InventoryDb} {now : Timestamp}

/-- The items a batch locks load. -/
theorem findAllByIdsForUpdate_total (hshelf : ShelfMatches db) (ids : List ItemId) :
    ∃ loaded, db.findAllByIdsForUpdate ids = .ok loaded ∧
      (∀ item ∈ loaded, SavesOver db item) ∧
      ∀ id ∈ ids, id ∈ db.itemIds → id ∈ loaded.map InventoryItem.id := by
  obtain ⟨loaded, hload⟩ : ∃ loaded, db.findAllByIdsForUpdate ids = .ok loaded := by
    refine exists_mapM_of_forall fun row hrow => ?_
    have hcount := (hshelf.count row (List.mem_of_mem_filter hrow)).2
    rw [Inventory.toDomain, StockQuantity.ofUnits, dif_pos hcount]
    exact ⟨_, rfl⟩
  refine ⟨loaded, hload, fun item hitem =>
    (loaded_savesOver hshelf.nodup hload item hitem).2.2, fun id hid hknown => ?_⟩
  obtain ⟨row, hrow, rfl⟩ := List.mem_map.mp hknown
  rw [(findAllByIdsForUpdate_ok hload).1]
  exact List.mem_map_of_mem (List.mem_filter.mpr ⟨hrow, decide_eq_true hid⟩)

/-- A return that was made before goes through and changes nothing. -/
theorem restoreStockBatch_again {order : RowOrder MovementRow}
    {command : RestoreStockBatchCommand} (hshelf : ShelfMatches db)
    (hrepeat : db.hasReturnOfOperation command.operationId = true) :
    db.restoreStockBatch order command now = .ok db := by
  obtain ⟨loaded, hload, -⟩ := findAllByIdsForUpdate_total hshelf
    (command.lines.map StockLine.inventoryItemId)
  rw [InventoryDb.restoreStockBatch, hload]
  change (if _ then _ else _) = _
  rw [if_pos hrepeat]
  rfl

/-- A return whose lines are covered by the pending consumptions goes through, if the
shelf has room for them. -/
theorem restoreStockBatch_total {order : RowOrder MovementRow}
    {command : RestoreStockBatchCommand} (hshelf : ShelfMatches db)
    (hskus : SkusHeldOnce db)
    (hknown : ∀ line ∈ command.lines, line.inventoryItemId ∈ db.itemIds)
    (hpositive : ∀ line ∈ command.lines, 0 < line.quantity)
    (hcovered : ∀ line ∈ command.lines, line.quantity ≤ drawnTotal (allocate
      (db.offers order line.inventoryItemId command.workOrderId) line.quantity))
    (hroom : ∀ row ∈ db.items,
      row.quantityOnHand + unitsOf row.id command.lines ≤ maxInteger) :
    ∃ db', db.restoreStockBatch order command now = .ok db' := by
  by_cases hrepeat : db.hasReturnOfOperation command.operationId = true
  · exact ⟨db, restoreStockBatch_again hshelf hrepeat⟩
  obtain ⟨loaded, hload, hloaded, hlocked⟩ := findAllByIdsForUpdate_total hshelf
    (command.lines.map StockLine.inventoryItemId)
  have hloop : ∃ changed last, restoreLines db order command now command.lines loaded
      db.nextId = .ok (changed, last) ∧ ∀ item ∈ changed, SavesOver db item :=
    restoreLines_total db.nextId
      (fun line hline => hlocked _ (List.mem_map_of_mem hline) (hknown line hline))
      hcovered hloaded
  obtain ⟨changed, last, hlines, hall⟩ := hloop
  have hnodup := nodup_of_findAllByIdsForUpdate hshelf.nodup hload
  obtain ⟨posts, hextends, -⟩ := restoreLines_ok hnodup hlines
  obtain ⟨saved, hsaved⟩ := saveAll_of_savesOver hshelf.nodup hskus (hextends.nodup hnodup)
    hall (fits_of_room hshelf hload (fun itemId => unitsOf itemId command.lines)
      (restoreLines_units hpositive hlines) hroom)
  refine ⟨{ saved with nextId := last }, ?_⟩
  rw [InventoryDb.restoreStockBatch, hload]
  change (if _ then _ else _) = _
  rw [if_neg hrepeat, hlines]
  change (InventoryDb.saveAll _ _ >>= _) = _
  rw [hsaved]
  rfl

/-- An undo whose first read named the items of all its consumptions goes through, if the
shelf has room for what is left of them. -/
theorem undoConsumption_total {command : UndoConsumptionCommand} {named : List ItemId}
    (hshelf : ShelfMatches db) (hskus : SkusHeldOnce db)
    (hnamed : ∀ row ∈ db.operationRows command.operationId, row.inventoryItemId ∈ named)
    (hroom : ∀ row ∈ db.items,
      row.quantityOnHand + leftOf db command.operationId row.id ≤ maxInteger) :
    ∃ db', db.undoConsumption command named now = .ok db' := by
  obtain ⟨loaded, hload, hloaded, hlocked⟩ := findAllByIdsForUpdate_total hshelf named
  have hgiven : ∀ consumption ∈ db.findPendingConsumptionsOfOperation command.operationId,
      0 < consumption.quantity ∧ (∃ row ∈ db.movements, row.id = consumption.movementId) ∧
        consumption.inventoryItemId ∈ loaded.map InventoryItem.id := by
    intro consumption hconsumption
    obtain ⟨row, hrow, rfl⟩ := mem_findPendingConsumptionsOfOperation.mp hconsumption
    obtain ⟨hmem, -, -, hleft⟩ := mem_operationRows.mp hrow
    exact ⟨hleft, ⟨row, hmem, rfl⟩, hlocked _ (hnamed row hrow) (hshelf.known row hmem)⟩
  have hloop : ∃ changed last, undoLines command now
      (db.findPendingConsumptionsOfOperation command.operationId) loaded db.nextId =
        .ok (changed, last) ∧ ∀ item ∈ changed, SavesOver db item :=
    undoLines_total db.nextId hgiven hloaded
  obtain ⟨changed, last, hlines, hall⟩ := hloop
  have hnodup := nodup_of_findAllByIdsForUpdate hshelf.nodup hload
  obtain ⟨posts, hextends, -⟩ := undoLines_ok hnodup hlines
  have hadded : ∀ item' ∈ changed, ∃ item ∈ loaded, item.id = item'.id ∧
      item'.quantityOnHand.units ≤ item.quantityOnHand.units +
        leftOf db command.operationId item'.id := by
    intro item' hitem'
    rw [← sum_pendingOfOperation]
    exact undoLines_units (fun consumption hconsumption => (hgiven _ hconsumption).1) hlines
      item' hitem'
  obtain ⟨saved, hsaved⟩ := saveAll_of_savesOver hshelf.nodup hskus (hextends.nodup hnodup)
    hall (fits_of_room hshelf hload _ hadded hroom)
  refine ⟨{ saved with nextId := last }, ?_⟩
  rw [InventoryDb.undoConsumption, hload]
  change (undoLines _ _ _ _ _ >>= _) = _
  rw [hlines]
  change (InventoryDb.saveAll _ _ >>= _) = _
  rw [hsaved]
  rfl

end Batches

end WorkOrders

end Workshop
