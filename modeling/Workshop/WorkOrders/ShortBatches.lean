/-
The batches inventory refuses for lack of an item: which line stops the loop, what
the lines before it took, and that nothing else stops a batch of known items.
-/
import Workshop.Inventory.ShelfLedger
import Workshop.Library.Upserts
import Workshop.WorkOrders.PreparedRequests

namespace Workshop

namespace WorkOrders

open Inventory

/-- The units of an item on the shelf. -/
def onHand (db : InventoryDb) (itemId : ItemId) : Int :=
  match db.items.find? fun row => row.id = itemId with
  | none => 0
  | some row => row.quantityOnHand

/-- What the line loop asks the item of a line to consume. -/
def lineInput (command : ConsumeStockBatchCommand) (now : Timestamp) (line : StockLine)
    (movementId : Uuid) : ConsumeStockInput where
  quantity := line.quantity
  workOrderId := command.workOrderId
  actorUserId := command.actorUserId
  movementId := movementId
  operationId := command.operationId
  now := now

/-- The line loop of a batch throws `InsufficientStock` at a line of this item. -/
def LacksItem (db : InventoryDb) (command : ConsumeStockBatchCommand) (now : Timestamp)
    (itemId : ItemId) : Prop :=
  ∃ loaded front line back changed nextId item,
    db.findAllByIdsForUpdate (command.lines.map StockLine.inventoryItemId) = .ok loaded ∧
      command.lines = front ++ line :: back ∧ line.inventoryItemId = itemId ∧
      consumeLines command now front loaded db.nextId = .ok (changed, nextId) ∧
      findLoaded changed line.inventoryItemId = .ok item ∧
      item.consume (lineInput command now line nextId) = .error .insufficientStock

/-- No SKU is held by two active items: `ux_inventory_items_active_sku`. -/
def SkusHeldOnce (db : InventoryDb) : Prop :=
  ∀ row ∈ db.items, ∀ other ∈ db.items, row.status = .active → other.status = .active →
    other.sku = row.sku → other.id = row.id

/-- A loaded item that can be saved while its count fits: its row is in the table under
its SKU and status, its count is the count of the row and what it moved since, and the
ledger has every movement it undoes. -/
structure SavesOver (db : InventoryDb) (item : InventoryItem) : Prop where
  row : ∃ row ∈ db.items, row.id = item.id ∧ row.sku = item.sku ∧
    row.status = item.status ∧ row.quantityOnHand + item.delta = item.quantityOnHand.units
  undoes : ∀ movement ∈ item.movements, ∀ id, movement.undoesMovementId = some id →
    ∃ row ∈ db.movements, row.id = id

section Counts

variable {db : InventoryDb} {itemId : ItemId}

theorem onHand_of_mem (hids : db.itemIds.Nodup) {row : ItemRow} (hrow : row ∈ db.items) :
    onHand db row.id = row.quantityOnHand := by
  rw [onHand, find?_key_of_mem hids hrow]

/-- The count of an item is what the ledger adds up to. -/
theorem onHand_eq_shelfTotal (hshelf : ShelfMatches db) :
    onHand db itemId = shelfTotal itemId db.movements := by
  by_cases hknown : itemId ∈ db.itemIds
  · obtain ⟨row, hrow, rfl⟩ := List.mem_map.mp hknown
    rw [onHand_of_mem hshelf.nodup hrow, (hshelf.count row hrow).1]
  · have hnone : (db.items.find? fun row => row.id = itemId) = none := by
      refine List.find?_eq_none.mpr fun row hrow hid => hknown ?_
      exact of_decide_eq_true hid ▸ List.mem_map_of_mem hrow
    rw [onHand, hnone]
    refine (shelfTotal_unknown fun row hrow hid => hknown ?_).symm
    rw [← hid]
    exact hshelf.known row hrow

theorem onHand_nonneg (itemId : ItemId) (hshelf : ShelfMatches db) : 0 ≤ onHand db itemId := by
  unfold onHand
  split
  · exact Int.le_refl 0
  · rename_i row hfind
    exact (hshelf.count row (List.mem_of_find?_eq_some hfind)).2

theorem unitsOf_append (front back : List StockLine) :
    unitsOf itemId (front ++ back) = unitsOf itemId front + unitsOf itemId back :=
  sumWhere_append _ _ front back

theorem unitsOf_nonneg {lines : List StockLine} (h : ∀ line ∈ lines, 0 < line.quantity) :
    0 ≤ unitsOf itemId lines :=
  sumWhere_nonneg fun line hline _ => (h line hline).le

end Counts

section Lines

variable {command : ConsumeStockBatchCommand} {now : Timestamp}

theorem minus_ok {quantity left : StockQuantity} {units : Int}
    (h : quantity.minus units = .ok left) : left.units = quantity.units - units := by
  unfold StockQuantity.minus StockQuantity.ofUnits at h
  split at h
  · cases h
  · split at h
    · cases h
      rfl
    · cases h

/-- What a consumption leaves of an item. -/
theorem consume_keeps {item changed : InventoryItem} {input : ConsumeStockInput}
    (h : item.consume input = .ok changed) :
    changed.sku = item.sku ∧ changed.status = item.status ∧
      changed.quantityOnHand.units = item.quantityOnHand.units - input.quantity := by
  obtain ⟨movement, -, h⟩ := bind_eq_ok_iff.mp h
  obtain ⟨left, hleft, h⟩ := bind_eq_ok_iff.mp h
  rw [pure_eq_ok_iff] at h
  subst h
  exact ⟨rfl, rfl, minus_ok hleft⟩

/-- A positive consumption is refused for lack only. -/
theorem consume_cases (item : InventoryItem) (input : ConsumeStockInput)
    (hpositive : 0 < input.quantity) :
    (∃ changed, item.consume input = .ok changed) ∨
      item.consume input = .error .insufficientStock ∧
        item.quantityOnHand.units < input.quantity := by
  have hcheck : StockMovement.checkQuantity input.quantity = .ok () := if_neg (by omega)
  have hmovement : StockMovement.consume input item.unitPrice =
      .ok (input.toMovement item.unitPrice) := by
    rw [StockMovement.consume, hcheck]
    rfl
  rw [InventoryItem.consume, hmovement]
  by_cases hless : item.quantityOnHand.units < input.quantity
  · refine Or.inr ⟨?_, hless⟩
    simp only [bind, Except.bind, StockQuantity.minus, if_pos hless]
  · refine Or.inl ?_
    have hleft : 0 ≤ item.quantityOnHand.units - input.quantity := by omega
    simp only [bind, Except.bind, StockQuantity.minus, if_neg hless, StockQuantity.ofUnits,
      dif_pos hleft]
    exact ⟨_, rfl⟩

theorem mem_updateLoaded {loaded : List InventoryItem} {item other : InventoryItem}
    (h : other ∈ updateLoaded loaded item) :
    other = item ∨ other ∈ loaded ∧ other.id ≠ item.id := by
  obtain ⟨before, hbefore, heq⟩ := List.mem_map.mp h
  split at heq
  · exact Or.inl heq.symm
  · rename_i hne
    exact Or.inr ⟨heq ▸ hbefore, heq ▸ hne⟩

theorem findLoaded_of_mem {loaded : List InventoryItem} {id : ItemId}
    (h : id ∈ loaded.map InventoryItem.id) : ∃ item, findLoaded loaded id = .ok item := by
  obtain ⟨item, hitem, rfl⟩ := List.mem_map.mp h
  unfold findLoaded
  split
  · rename_i hnone
    exact absurd (decide_eq_true rfl) (List.find?_eq_none.mp hnone item hitem)
  · exact ⟨_, rfl⟩

/-- The lines of a batch take what they ask for off the loaded items. -/
theorem consumeLines_units {lines : List StockLine} :
    ∀ {loaded changed : List InventoryItem} {nextId last : Uuid},
      consumeLines command now lines loaded nextId = .ok (changed, last) →
      ∀ item' ∈ changed, ∃ item ∈ loaded, item.id = item'.id ∧
        item'.quantityOnHand.units =
          item.quantityOnHand.units - unitsOf item'.id lines := by
  induction lines with
  | nil =>
      intro loaded changed nextId last h item' hitem
      simp only [consumeLines, Except.ok.injEq, Prod.mk.injEq] at h
      obtain ⟨rfl, rfl⟩ := h
      exact ⟨item', hitem, rfl, by simp [unitsOf]⟩
  | cons line lines ih =>
      intro loaded changed nextId last h item' hitem
      simp only [consumeLines] at h
      obtain ⟨found, hfound, h⟩ := bind_eq_ok_iff.mp h
      obtain ⟨drawn, hconsume, h⟩ := bind_eq_ok_iff.mp h
      obtain ⟨hmem, hid⟩ := findLoaded_ok hfound
      obtain ⟨-, hsame, -⟩ := consume_ok hconsume
      obtain ⟨-, -, hunits⟩ := consume_keeps hconsume
      obtain ⟨middle, hmiddle, hmiddleId, hrest⟩ := ih h item' hitem
      rw [unitsOf_cons]
      rcases mem_updateLoaded hmiddle with rfl | ⟨hold, hne⟩
      · refine ⟨found, hmem, hsame.symm.trans hmiddleId, ?_⟩
        rw [if_pos (hid.symm.trans (hsame.symm.trans hmiddleId)), hrest, hunits,
          sub_sub]
      · refine ⟨middle, hold, hmiddleId, ?_⟩
        rw [if_neg fun heq => hne (by rw [hmiddleId, ← heq, ← hid, hsame]), hrest]
        omega

/-- The lines of a batch add nothing. -/
theorem consumeLines_le {lines : List StockLine} {loaded changed : List InventoryItem}
    {nextId last : Uuid} (hpositive : ∀ line ∈ lines, 0 < line.quantity)
    (h : consumeLines command now lines loaded nextId = .ok (changed, last)) :
    ∀ item' ∈ changed, ∃ item ∈ loaded, item.id = item'.id ∧
      item'.quantityOnHand.units ≤ item.quantityOnHand.units + 0 := by
  intro item' hitem
  obtain ⟨item, hmem, hid, hunits⟩ := consumeLines_units h item' hitem
  have hasked : 0 ≤ unitsOf item'.id lines := unitsOf_nonneg hpositive
  exact ⟨item, hmem, hid, by omega⟩

/-- The loop over more lines goes on where the loop over the first ones ended. -/
theorem consumeLines_append {front back : List StockLine} :
    ∀ {loaded changed : List InventoryItem} {nextId last : Uuid},
      consumeLines command now front loaded nextId = .ok (changed, last) →
      consumeLines command now (front ++ back) loaded nextId =
        consumeLines command now back changed last := by
  induction front with
  | nil =>
      intro loaded changed nextId last h
      simp only [consumeLines, Except.ok.injEq, Prod.mk.injEq] at h
      obtain ⟨rfl, rfl⟩ := h
      rfl
  | cons line front ih =>
      intro loaded changed nextId last h
      simp only [consumeLines] at h
      obtain ⟨found, hfound, h⟩ := bind_eq_ok_iff.mp h
      obtain ⟨drawn, hconsume, h⟩ := bind_eq_ok_iff.mp h
      rw [List.cons_append, consumeLines, hfound]
      change (found.consume _ >>= _) = _
      rw [hconsume]
      exact ih h

/-- The line loop of a batch of loaded items goes through, or stops for lack. -/
theorem consumeLines_cases (command : ConsumeStockBatchCommand) (now : Timestamp)
    {lines : List StockLine} :
    ∀ {loaded : List InventoryItem} (nextId : Uuid),
      (∀ line ∈ lines, 0 < line.quantity) →
      (∀ line ∈ lines, line.inventoryItemId ∈ loaded.map InventoryItem.id) →
      (∃ changed last, consumeLines command now lines loaded nextId = .ok (changed, last)) ∨
        ∃ front line back changed last item, lines = front ++ line :: back ∧
          consumeLines command now front loaded nextId = .ok (changed, last) ∧
          findLoaded changed line.inventoryItemId = .ok item ∧
          item.consume (lineInput command now line last) = .error .insufficientStock := by
  induction lines with
  | nil => exact fun _ _ _ => Or.inl ⟨_, _, rfl⟩
  | cons line lines ih =>
      intro loaded nextId hpositive hknown
      obtain ⟨item, hitem⟩ := findLoaded_of_mem (hknown line List.mem_cons_self)
      have hhead := hpositive line List.mem_cons_self
      rcases consume_cases item (lineInput command now line nextId) hhead with
        ⟨drawn, hdrawn⟩ | ⟨hlack, -⟩
      · have hstep : ∀ lines' : List StockLine,
            consumeLines command now (line :: lines') loaded nextId =
              consumeLines command now lines' (updateLoaded loaded drawn) (nextId + 1) := by
          intro lines'
          rw [consumeLines, hitem]
          change (item.consume (lineInput command now line nextId) >>= _) = _
          rw [hdrawn]
          rfl
        rcases ih (nextId + 1) (fun other hother =>
            hpositive other (List.mem_cons_of_mem _ hother)) (fun other hother => by
            rw [updateLoaded_ids]
            exact hknown other (List.mem_cons_of_mem _ hother)) with
          ⟨changed, last, hrest⟩ | ⟨front, stop, back, changed, last, short, hlines, hrest⟩
        · exact Or.inl ⟨changed, last, (hstep lines).trans hrest⟩
        · exact Or.inr ⟨line :: front, stop, back, changed, last, short,
            by rw [hlines, List.cons_append], (hstep front).trans hrest.1, hrest.2⟩
      · exact Or.inr ⟨[], line, lines, loaded, nextId, item, rfl, rfl, hitem, hlack⟩

end Lines

section Saves

variable {db db' : InventoryDb} {item other : InventoryItem}

theorem mem_writeItemRow_of_ne {items : List ItemRow} {row old : ItemRow}
    (hold : old ∈ items) (hne : old.id ≠ row.id) : old ∈ writeItemRow items row := by
  unfold writeItemRow
  split
  · exact List.mem_map.mpr ⟨old, hold, if_neg hne⟩
  · exact List.mem_append_left _ hold

/-- A save finds the SKU of its row free, and leaves every SKU held once. -/
theorem SkusHeldOnce.save (h : SkusHeldOnce db) (hsave : db.save item = .ok db') :
    SkusHeldOnce db' := by
  obtain ⟨row, -, -, hsku, -, rfl⟩ := save_ok hsave
  have hfree : ∀ old ∈ db.items, old.id ≠ row.id → old.sku = row.sku →
      row.status = .active → old.status = .active → False := by
    intro old hold hne hsame hactive hother
    rw [InventoryDb.skuTaken, hactive, decide_eq_true rfl, Bool.true_and,
      List.any_eq_false] at hsku
    exact hsku old hold (by simp [hne, hsame, hother])
  intro left hleft right hright hleftActive hrightActive hsame
  rcases mem_writeItemRow hleft with rfl | ⟨hold, hne⟩
  · rcases mem_writeItemRow hright with rfl | ⟨hold', hne'⟩
    · rfl
    · exact (hfree right hold' hne' hsame hleftActive hrightActive).elim
  · rcases mem_writeItemRow hright with rfl | ⟨hold', -⟩
    · exact (hfree left hold hne hsame.symm hrightActive hleftActive).elim
    · exact h left hold right hold' hleftActive hrightActive hsame

theorem SkusHeldOnce.saveAll {items : List InventoryItem} :
    ∀ {db db' : InventoryDb}, SkusHeldOnce db → db.saveAll items = .ok db' →
      SkusHeldOnce db' := by
  induction items with
  | nil =>
      intro db db' h hsave
      simp only [InventoryDb.saveAll, Except.ok.injEq] at hsave
      exact hsave ▸ h
  | cons item items ih =>
      intro db db' h hsave
      obtain ⟨middle, hfirst, hrest⟩ := bind_eq_ok_iff.mp hsave
      exact ih (h.save hfirst) hrest

theorem SavesOver.resolved (h : SavesOver db item) : db.unresolvedMovement item = none := by
  refine List.find?_eq_none.mpr fun id hid hmissing => ?_
  obtain ⟨movement, hmovement, hundoes⟩ := List.mem_filterMap.mp hid
  obtain ⟨row, hrow, hsame⟩ := h.undoes movement hmovement id hundoes
  rw [Bool.not_eq_true', List.any_eq_false] at hmissing
  exact hmissing row hrow (decide_eq_true hsame)

/-- An item that was loaded and changed can be saved, if its count fits the column. -/
theorem SavesOver.save_ok (hids : db.itemIds.Nodup) (hskus : SkusHeldOnce db)
    (h : SavesOver db item) (hfits : item.quantityOnHand.units ≤ maxInteger) :
    ∃ db', db.save item = .ok db' := by
  obtain ⟨row, hrow, hid, hsku, hstatus, hcount⟩ := h.row
  have hfind : (db.items.find? fun other => other.id = item.id) = some row := by
    rw [← hid]
    exact find?_key_of_mem hids hrow
  have hfree : db.skuTaken (savedRow (some row) item) = false := by
    rw [InventoryDb.skuTaken, Bool.and_eq_false_iff, or_iff_not_imp_left]
    intro hactive
    refine List.any_eq_false.mpr fun old hold htaken => ?_
    simp only [Bool.and_eq_true, decide_eq_true_eq] at htaken
    have hactive : item.status = .active :=
      of_decide_eq_true (Bool.eq_true_of_not_eq_false hactive)
    have hsame := hskus row hrow old hold (hstatus.trans hactive) htaken.2
      (htaken.1.2.trans hsku.symm)
    exact htaken.1.1 (hsame.trans hid)
  have hunits : (savedRow (some row) item).quantityOnHand = item.quantityOnHand.units := hcount
  have hnonneg := item.quantityOnHand.nonneg
  unfold InventoryDb.save
  rw [hfind]
  simp only [hunits, fitsInteger_of_nonneg hnonneg hfits, hfree, Bool.not_true,
    Bool.false_eq_true, if_false, not_lt.mpr hnonneg, h.resolved]
  exact ⟨_, rfl⟩

/-- A save of one item leaves another one savable. -/
theorem SavesOver.of_save (h : SavesOver db other) (hsave : db.save item = .ok db')
    (hne : other.id ≠ item.id) : SavesOver db' other := by
  obtain ⟨row, hrow, -, -, -, rfl⟩ := Inventory.save_ok hsave
  obtain ⟨old, hold, hid, hrest⟩ := h.row
  refine ⟨⟨old, mem_writeItemRow_of_ne hold ?_, hid, hrest⟩,
    fun movement hmovement id hundoes => ?_⟩
  · rw [hid, hrow, savedRow_id]
    exact hne
  · obtain ⟨target, htarget, hsame⟩ := h.undoes movement hmovement id hundoes
    exact ⟨target, List.mem_append_left _ htarget, hsame⟩

/-- The saves of a batch go through. -/
theorem saveAll_of_savesOver {items : List InventoryItem} :
    ∀ {db : InventoryDb}, db.itemIds.Nodup → SkusHeldOnce db →
      (items.map InventoryItem.id).Nodup → (∀ item ∈ items, SavesOver db item) →
      (∀ item ∈ items, item.quantityOnHand.units ≤ maxInteger) →
      ∃ db', db.saveAll items = .ok db' := by
  induction items with
  | nil => exact fun _ _ _ _ _ => ⟨_, rfl⟩
  | cons item items ih =>
      intro db hids hskus hnodup hsaves hfits
      rw [List.map_cons, List.nodup_cons] at hnodup
      have hhead := hsaves item List.mem_cons_self
      obtain ⟨middle, hmiddle⟩ := hhead.save_ok hids hskus (hfits item List.mem_cons_self)
      obtain ⟨row, hrow, hid, -⟩ := hhead.row
      have hkept := save_itemIds hmiddle (hid ▸ List.mem_map_of_mem hrow)
      obtain ⟨db', hrest⟩ := ih (hkept ▸ hids) (hskus.save hmiddle) hnodup.2
        (fun other hother => (hsaves other (List.mem_cons_of_mem _ hother)).of_save hmiddle
          fun heq => hnodup.1 (heq ▸ List.mem_map_of_mem hother))
        fun other hother => hfits other (List.mem_cons_of_mem _ hother)
      exact ⟨db', by rw [InventoryDb.saveAll, hmiddle]; exact hrest⟩

/-- Consuming from an item that can be saved leaves one that can be saved. -/
theorem SavesOver.consume {drawn : InventoryItem} {input : ConsumeStockInput}
    (h : SavesOver db item) (hconsume : item.consume input = .ok drawn) :
    SavesOver db drawn := by
  obtain ⟨row, hrow, hid, hsku, hstatus, hcount⟩ := h.row
  obtain ⟨-, hsame, hmovements⟩ := consume_ok hconsume
  obtain ⟨hsku', hstatus', hunits⟩ := consume_keeps hconsume
  refine ⟨⟨row, hrow, hid.trans hsame.symm, hsku.trans hsku'.symm,
    hstatus.trans hstatus'.symm, ?_⟩, fun movement hmovement id hundoes => ?_⟩
  · have hdelta : drawn.delta = item.delta + -input.quantity := by
      rw [InventoryItem.delta, hmovements, List.map_append, List.sum_append]
      exact congrArg (item.delta + ·) (add_zero _)
    rw [hdelta, hunits, ← hcount]
    omega
  · rw [hmovements] at hmovement
    rcases List.mem_append.mp hmovement with hmovement | hmovement
    · exact h.undoes movement hmovement id hundoes
    · rw [List.mem_singleton.mp hmovement] at hundoes
      cases hundoes

theorem savesOver_of_consumeLines {command : ConsumeStockBatchCommand} {now : Timestamp}
    {lines : List StockLine} :
    ∀ {loaded changed : List InventoryItem} {nextId last : Uuid},
      (∀ item ∈ loaded, SavesOver db item) →
      consumeLines command now lines loaded nextId = .ok (changed, last) →
      ∀ item ∈ changed, SavesOver db item := by
  induction lines with
  | nil =>
      intro loaded changed nextId last hloaded h
      simp only [consumeLines, Except.ok.injEq, Prod.mk.injEq] at h
      exact h.1 ▸ hloaded
  | cons line lines ih =>
      intro loaded changed nextId last hloaded h
      simp only [consumeLines] at h
      obtain ⟨found, hfound, h⟩ := bind_eq_ok_iff.mp h
      obtain ⟨drawn, hconsume, h⟩ := bind_eq_ok_iff.mp h
      refine ih (fun item hitem => ?_) h
      rcases mem_updateLoaded hitem with rfl | ⟨hold, -⟩
      · exact (hloaded found (findLoaded_ok hfound).1).consume hconsume
      · exact hloaded item hold

end Saves

section Batches

variable {db db' : InventoryDb} {command : ConsumeStockBatchCommand} {now : Timestamp}
variable {itemId : ItemId}

/-- A loaded item counts what the shelf holds, and can be saved as it is. -/
theorem loaded_savesOver (hids : db.itemIds.Nodup) {ids : List ItemId}
    {loaded : List InventoryItem} (h : db.findAllByIdsForUpdate ids = .ok loaded) :
    ∀ item ∈ loaded, item.id ∈ db.itemIds ∧
      item.quantityOnHand.units = onHand db item.id ∧ SavesOver db item := by
  intro item hitem
  obtain ⟨row, hrow, hload⟩ := exists_left_of_forall₂ (forall₂_of_mapM_eq_ok h) hitem
  have hmem : row ∈ db.items := List.mem_of_mem_filter hrow
  obtain ⟨hid, hmovements, hunits⟩ := toDomain_ok hload
  obtain ⟨quantity, -, hbuilt⟩ := bind_eq_ok_iff.mp hload
  rw [pure_eq_ok_iff] at hbuilt
  have hdelta : item.delta = 0 := by rw [InventoryItem.delta, hmovements]; rfl
  refine ⟨hid ▸ List.mem_map_of_mem hmem, ?_, ⟨row, hmem, hid.symm, ?_, ?_, ?_⟩, ?_⟩
  · rw [hunits, hid, onHand_of_mem hids hmem]
  · rw [← hbuilt]
  · rw [← hbuilt]
  · rw [hdelta, hunits, add_zero]
  · rw [hmovements]
    exact fun _ hnone => absurd hnone List.not_mem_nil

/-- A changed item fits its column when the shelf has room for what was added to it. -/
theorem fits_of_room (hshelf : ShelfMatches db) {ids : List ItemId}
    {loaded changed : List InventoryItem}
    (hload : db.findAllByIdsForUpdate ids = .ok loaded) (added : ItemId → Int)
    (hadded : ∀ item' ∈ changed, ∃ item ∈ loaded, item.id = item'.id ∧
      item'.quantityOnHand.units ≤ item.quantityOnHand.units + added item'.id)
    (hroom : ∀ row ∈ db.items, row.quantityOnHand + added row.id ≤ maxInteger) :
    ∀ item ∈ changed, item.quantityOnHand.units ≤ maxInteger := by
  intro item' hitem'
  obtain ⟨item, hitem, hid, hunits⟩ := hadded item' hitem'
  obtain ⟨hknown, hcount, -⟩ := loaded_savesOver hshelf.nodup hload item hitem
  obtain ⟨row, hrow, hrowId⟩ := List.mem_map.mp hknown
  have hfits := hroom row hrow
  rw [← onHand_of_mem hshelf.nodup hrow, hrowId, ← hcount, hid] at hfits
  omega

/-- A batch that lacks an item is refused for lack of stock. -/
theorem LacksItem.refused (h : LacksItem db command now itemId) :
    db.consumeStockBatch command now = .error .insufficientStock := by
  obtain ⟨loaded, front, line, back, changed, nextId, item, hload, hlines, -, hfront, hfound,
    hlack⟩ := h
  rw [InventoryDb.consumeStockBatch, hload]
  change (consumeLines _ _ _ _ _ >>= _) = _
  rw [hlines, consumeLines_append hfront, consumeLines, hfound]
  change ((item.consume (lineInput command now line nextId) >>= _) >>= _) = _
  rw [hlack]
  rfl

/-- A batch that lacks an item asks for more of it than the shelf holds. -/
theorem LacksItem.short (hids : db.itemIds.Nodup)
    (hpositive : ∀ line ∈ command.lines, 0 < line.quantity)
    (h : LacksItem db command now itemId) :
    itemId ∈ db.itemIds ∧ onHand db itemId < unitsOf itemId command.lines := by
  obtain ⟨loaded, front, line, back, changed, nextId, item, hload, hlines, rfl, hfront,
    hfound, hlack⟩ := h
  obtain ⟨hmem, hid⟩ := findLoaded_ok hfound
  obtain ⟨first, hfirst, hfirstId, hunits⟩ := consumeLines_units hfront item hmem
  obtain ⟨hknown, hcount, -⟩ := loaded_savesOver hids hload first hfirst
  rw [hfirstId, hid] at hknown hcount
  rw [hid] at hunits
  have hline := hpositive line (by simp [hlines])
  have hback : 0 ≤ unitsOf line.inventoryItemId back := unitsOf_nonneg fun other hother =>
    hpositive other (by simp [hlines, hother])
  have hless : item.quantityOnHand.units < line.quantity := by
    rcases consume_cases item (lineInput command now line nextId) hline with
      ⟨drawn, hdrawn⟩ | ⟨-, hless⟩
    · rw [hdrawn] at hlack
      cases hlack
    · exact hless
  refine ⟨hknown, ?_⟩
  rw [hlines, unitsOf_append, unitsOf_cons, if_pos rfl]
  omega

/-- Inventory refuses a batch of known items for lack of one of them, or takes it. -/
theorem consumeStockBatch_cases (now : Timestamp) (hshelf : ShelfMatches db)
    (hskus : SkusHeldOnce db)
    (hpositive : ∀ line ∈ command.lines, 0 < line.quantity)
    (hknown : ∀ line ∈ command.lines, line.inventoryItemId ∈ db.itemIds) :
    (∃ db', db.consumeStockBatch command now = .ok db') ∨
      ∃ line ∈ command.lines, LacksItem db command now line.inventoryItemId := by
  obtain ⟨loaded, hload⟩ : ∃ loaded, db.findAllByIdsForUpdate
      (command.lines.map StockLine.inventoryItemId) = .ok loaded := by
    refine exists_mapM_of_forall fun row hrow => ?_
    have hcount := (hshelf.count row (List.mem_of_mem_filter hrow)).2
    rw [Inventory.toDomain, StockQuantity.ofUnits, dif_pos hcount]
    exact ⟨_, rfl⟩
  have hids := findAllByIdsForUpdate_ok hload
  have hfound : ∀ line ∈ command.lines,
      line.inventoryItemId ∈ loaded.map InventoryItem.id := by
    intro line hline
    obtain ⟨row, hrow, hid⟩ := List.mem_map.mp (hknown line hline)
    rw [hids.1]
    refine List.mem_map.mpr ⟨row, List.mem_filter.mpr ⟨hrow, decide_eq_true ?_⟩, hid⟩
    rw [hid]
    exact List.mem_map_of_mem hline
  rcases consumeLines_cases command now db.nextId
    hpositive hfound with ⟨changed, last, hlines⟩ | ⟨front, line, back, changed, last, item,
      hlines, hfront, hitem, hlack⟩
  · have hnodup := nodup_of_findAllByIdsForUpdate hshelf.nodup hload
    obtain ⟨posts, hextends, -⟩ := consumeLines_ok hnodup hlines
    obtain ⟨saved, hsaved⟩ := saveAll_of_savesOver hshelf.nodup hskus
      (hextends.nodup hnodup) (savesOver_of_consumeLines
        (fun item hitem => (loaded_savesOver hshelf.nodup hload item hitem).2.2) hlines)
      (fits_of_room hshelf hload (fun _ => 0) (consumeLines_le hpositive hlines)
        fun row hrow => (add_zero row.quantityOnHand).trans_le (hshelf.fits row hrow))
    refine Or.inl ⟨{ saved with nextId := last }, ?_⟩
    rw [InventoryDb.consumeStockBatch, hload]
    change (consumeLines _ _ _ _ _ >>= _) = _
    rw [hlines]
    change (InventoryDb.saveAll _ _ >>= _) = _
    rw [hsaved]
    rfl
  · exact Or.inr ⟨line, hlines ▸ List.mem_append_right _ List.mem_cons_self, loaded, front,
      line, back, changed, last, item, hload, hlines, rfl, hfront, hitem, hlack⟩

/-- A batch that inventory took leaves that much less on the shelf. -/
theorem onHand_consumed (itemId : ItemId) (hshelf : ShelfMatches db)
    (h : db.consumeStockBatch command now = .ok db') :
    db'.itemIds = db.itemIds ∧
      onHand db' itemId = onHand db itemId - unitsOf itemId command.lines := by
  obtain ⟨posts, hposted, hposts⟩ := consumeStockBatch_ok hshelf.nodup h
  obtain ⟨rows, hperm, hmovements⟩ := hposted.movements
  have htaken : shelfTotal itemId posts = -unitsOf itemId command.lines := by
    clear hposted hperm
    generalize command.lines = lines at hposts
    induction hposts with
    | nil => rfl
    | @cons line row lines posts hhead _ ih =>
        rw [shelfTotal, sumWhere_cons, unitsOf_cons, ← shelfTotal, ih, hhead.inventoryItemId]
        by_cases hitem : line.inventoryItemId = itemId
        · rw [decide_eq_true hitem, if_pos rfl, if_pos hitem, StockMovement.signedQuantity,
            hhead.kind, hhead.quantity, Int.neg_add]
        · rw [decide_eq_false hitem, if_neg Bool.false_ne_true, if_neg hitem, Int.zero_add,
            Int.zero_add]
  refine ⟨hposted.itemIds, ?_⟩
  rw [onHand_eq_shelfTotal (hshelf.consumeStockBatch h), onHand_eq_shelfTotal hshelf,
    hmovements, shelfTotal_append]
  rw [shelfTotal, shelfTotal, sumWhere_perm hperm, ← shelfTotal, ← shelfTotal, htaken,
    sub_eq_add_neg]

end Batches

end WorkOrders

end Workshop
