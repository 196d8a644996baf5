/-
The count on the shelf against the ledger: every item's count is what its
movements add up to, whatever copies of it are being saved.
-/
import Workshop.Inventory.StockProgram

namespace Workshop

namespace Inventory

/-- The quantities of an item's movements of the given kinds. -/
def InventoryDb.movedTotal (db : InventoryDb) (inventoryItemId : ItemId)
    (kinds : List StockMovementKind) : Int :=
  sumWhere (fun row => row.inventoryItemId = inventoryItemId &&
    decide (row.kind ∈ kinds)) (fun row => row.quantity) db.movements

/-- What the rows of a ledger add to the shelf of one item. -/
def shelfTotal (inventoryItemId : ItemId) (rows : List MovementRow) : Int :=
  sumWhere (fun row => decide (row.inventoryItemId = inventoryItemId))
    (fun row => row.signedQuantity) rows

/-- Every count is non-negative, fits its column and is what the ledger adds up to;
the ledger names items of the table, each of which stands there once. -/
structure ShelfMatches (db : InventoryDb) : Prop where
  nodup : db.itemIds.Nodup
  known : ∀ row ∈ db.movements, row.inventoryItemId ∈ db.itemIds
  count : ∀ row ∈ db.items,
    row.quantityOnHand = shelfTotal row.id db.movements ∧ 0 ≤ row.quantityOnHand
  fits : ∀ row ∈ db.items, row.quantityOnHand ≤ maxInteger

section Totals

@[simp] theorem shelfTotal_append (inventoryItemId : ItemId)
    (rows more : List MovementRow) :
    shelfTotal inventoryItemId (rows ++ more) =
      shelfTotal inventoryItemId rows + shelfTotal inventoryItemId more := by
  simp [shelfTotal]

theorem shelfTotal_own (item : InventoryItem) :
    shelfTotal item.id (item.movements.map (toMovementRow item.id)) =
      item.delta := by
  rw [shelfTotal, sumWhere_map, InventoryItem.delta, sumWhere]
  rw [List.filter_eq_self.mpr fun movement _ => by simp]
  rfl

theorem shelfTotal_other {inventoryItemId : ItemId} (item : InventoryItem)
    (hne : item.id ≠ inventoryItemId) :
    shelfTotal inventoryItemId (item.movements.map (toMovementRow item.id)) = 0 := by
  rw [shelfTotal, sumWhere_map]
  exact sumWhere_eq_zero fun movement _ htest =>
    absurd (of_decide_eq_true htest) hne

theorem shelfTotal_unknown {inventoryItemId : ItemId} {rows : List MovementRow}
    (hnone : ∀ row ∈ rows, row.inventoryItemId ≠ inventoryItemId) :
    shelfTotal inventoryItemId rows = 0 :=
  sumWhere_eq_zero fun row hrow htest =>
    absurd (of_decide_eq_true htest) (hnone row hrow)

/-- `INBOUND` and `RETURN` count up, `CONSUMPTION` and `ADJUSTMENT` down. -/
theorem shelfTotal_eq_movedTotal (db : InventoryDb) (inventoryItemId : ItemId) :
    shelfTotal inventoryItemId db.movements =
      db.movedTotal inventoryItemId [.inbound, .returned] -
        db.movedTotal inventoryItemId [.consumption, .adjustment] := by
  unfold shelfTotal InventoryDb.movedTotal
  induction db.movements with
  | nil => rfl
  | cons row rows ih =>
      simp only [sumWhere_cons, ih]
      by_cases hitem : row.inventoryItemId = inventoryItemId
      · cases hkind : row.kind <;>
          simp [hitem, hkind, StockMovement.signedQuantity] <;> omega
      · simp [hitem]

end Totals

section Preservation

variable {db db' : InventoryDb}

/-- Rows whose item, kind and quantity stay keep every total. -/
theorem shelfTotal_map {change : MovementRow → MovementRow}
    (hitem : ∀ row, (change row).inventoryItemId = row.inventoryItemId)
    (hsigned : ∀ row, (change row).signedQuantity = row.signedQuantity)
    (inventoryItemId : ItemId) (rows : List MovementRow) :
    shelfTotal inventoryItemId (rows.map change) =
      shelfTotal inventoryItemId rows := by
  rw [shelfTotal, sumWhere_map]
  exact sumWhere_congr (fun row _ => by simp [hitem]) fun row _ _ => hsigned row

/-- A save keeps the counts right, also the save of a copy that was loaded
before other saves committed: the row is re-derived from the locked count. -/
theorem ShelfMatches.save (hshelf : ShelfMatches db) {item : InventoryItem}
    (hitem : Saveable db item) (hsave : db.save item = .ok db') :
    ShelfMatches db' := by
  have hcases := save_itemIds_cases hsave
  have hsubset := save_itemIds_subset hsave
  have hmem := mem_itemIds_of_save hsave
  obtain ⟨row, hrow, ⟨hnonneg, hfits⟩, -, -, rfl⟩ := save_ok hsave
  have hid : row.id = item.id := by rw [hrow, savedRow_id]
  have hcount : row.quantityOnHand =
      shelfTotal item.id db.movements + item.delta := by
    cases hfind : db.items.find? (fun other => other.id = item.id) with
    | some found =>
        have hfound := List.mem_of_find?_eq_some hfind
        have hsame : found.id = item.id := by simpa using List.find?_some hfind
        rw [hrow, hfind, ← hsame]
        simp [savedRow, (hshelf.count found hfound).1]
    | none =>
        have hnew : item.id ∉ db.itemIds := by
          intro hmem
          obtain ⟨other, hother, hsame⟩ := List.mem_map.mp hmem
          have := List.find?_eq_none.mp hfind other hother
          simp [hsame] at this
        obtain ⟨hmovements, hzero⟩ := hitem.resolve_left hnew
        have hnone : shelfTotal item.id db.movements = 0 :=
          shelfTotal_unknown fun other hother heq =>
            hnew (heq ▸ hshelf.known other hother)
        rw [hrow, hfind, hnone]
        simp [savedRow, toItemRow, InventoryItem.delta, hmovements, hzero]
  refine ⟨?_, ?_, ?_, ?_⟩
  · rcases hcases with ⟨-, hids⟩ | ⟨hnew, hids⟩
    · rw [hids]
      exact hshelf.nodup
    · rw [hids]
      exact hshelf.nodup.append (List.nodup_singleton _)
        (List.disjoint_singleton.mpr hnew)
  · intro other hother
    rcases List.mem_append.mp hother with hother | hother
    · exact hsubset (hshelf.known other hother)
    · obtain ⟨movement, -, rfl⟩ := List.mem_map.mp hother
      exact hmem
  · intro other hother
    simp only [shelfTotal_append]
    rcases mem_writeItemRow hother with rfl | ⟨hother, hne⟩
    · rw [hid, shelfTotal_own]
      exact ⟨hcount, hnonneg⟩
    · rw [shelfTotal_other item (fun heq => hne (by rw [hid, heq])), add_zero]
      exact hshelf.count other hother
  · intro other hother
    rcases mem_writeItemRow hother with rfl | ⟨hother, -⟩
    · exact hfits
    · exact hshelf.fits other hother

theorem ShelfMatches.saveAll {items : List InventoryItem} :
    ∀ {db db' : InventoryDb}, ShelfMatches db →
      (∀ item ∈ items, item.id ∈ db.itemIds) →
      db.saveAll items = .ok db' → ShelfMatches db' := by
  induction items with
  | nil =>
      intro db db' hshelf _ h
      simp only [InventoryDb.saveAll, Except.ok.injEq] at h
      exact h ▸ hshelf
  | cons item items ih =>
      intro db db' hshelf hmem h
      simp only [InventoryDb.saveAll] at h
      obtain ⟨middle, hsave, h⟩ := bind_eq_ok_iff.mp h
      have hhead := hmem item List.mem_cons_self
      refine ih (hshelf.save (Or.inl hhead) hsave) (fun other hother => ?_) h
      rw [save_itemIds hsave hhead]
      exact hmem other (List.mem_cons_of_mem item hother)

/-- Drawing an id touches no count. -/
theorem ShelfMatches.withNextId (hshelf : ShelfMatches db) (nextId : Uuid) :
    ShelfMatches { db with nextId } :=
  ⟨hshelf.nodup, hshelf.known, hshelf.count, hshelf.fits⟩

/-- Rows that keep their item and what they add keep the counts right. -/
theorem ShelfMatches.mapMovements (hshelf : ShelfMatches db)
    {change : MovementRow → MovementRow} {transitions : List TransitionRow}
    (hitem : ∀ row, (change row).inventoryItemId = row.inventoryItemId)
    (hsigned : ∀ row, (change row).signedQuantity = row.signedQuantity) :
    ShelfMatches
      { db with movements := db.movements.map change, transitions } := by
  refine ⟨hshelf.nodup, fun row hrow => ?_, fun row hrow => ?_, hshelf.fits⟩
  · obtain ⟨before, hbefore, rfl⟩ := List.mem_map.mp hrow
    rw [hitem]
    exact hshelf.known before hbefore
  · rw [shelfTotal_map hitem hsigned]
    exact hshelf.count row hrow

/-- A batch loads items of the table, changes them in memory and saves them
all. -/
theorem ShelfMatches.batch (hshelf : ShelfMatches db) {ids : List ItemId}
    {loaded loaded' : List InventoryItem} {posts : List MovementRow}
    {saved : InventoryDb} (hload : db.findAllByIdsForUpdate ids = .ok loaded)
    (hextends : Extends loaded loaded' posts)
    (hsave : db.saveAll loaded' = .ok saved) (nextId : Uuid) :
    ShelfMatches { saved with nextId } :=
  (hshelf.saveAll (mem_itemIds_of_findAllByIdsForUpdate hload hextends)
    hsave).withNextId nextId

theorem ShelfMatches.consumeStockBatch (hshelf : ShelfMatches db)
    {command : ConsumeStockBatchCommand} {now : Timestamp}
    (h : db.consumeStockBatch command now = .ok db') : ShelfMatches db' := by
  obtain ⟨loaded, hload, h⟩ := bind_eq_ok_iff.mp h
  obtain ⟨⟨loaded', nextId⟩, hlines, h⟩ := bind_eq_ok_iff.mp h
  obtain ⟨saved, hsave, h⟩ := bind_eq_ok_iff.mp h
  rw [pure_eq_ok_iff] at h
  obtain ⟨posts, hextends, -⟩ :=
    consumeLines_ok (nodup_of_findAllByIdsForUpdate hshelf.nodup hload) hlines
  exact h ▸ hshelf.batch hload hextends hsave nextId

theorem ShelfMatches.restoreStockBatch (hshelf : ShelfMatches db)
    {command : RestoreStockBatchCommand} {order : RowOrder MovementRow} {now : Timestamp}
    (h : db.restoreStockBatch order command now = .ok db') : ShelfMatches db' := by
  obtain ⟨loaded, hload, h⟩ := bind_eq_ok_iff.mp h
  by_cases hrepeat : db.hasReturnOfOperation command.operationId = true
  · rw [if_pos hrepeat, pure_eq_ok_iff] at h
    exact h ▸ hshelf
  · rw [if_neg hrepeat] at h
    obtain ⟨⟨loaded', nextId⟩, hlines, h⟩ := bind_eq_ok_iff.mp h
    obtain ⟨saved, hsave, h⟩ := bind_eq_ok_iff.mp h
    rw [pure_eq_ok_iff] at h
    obtain ⟨posts, hextends, -⟩ :=
      restoreLines_ok (nodup_of_findAllByIdsForUpdate hshelf.nodup hload) hlines
    exact h ▸ hshelf.batch hload hextends hsave nextId

theorem ShelfMatches.undoConsumption (hshelf : ShelfMatches db)
    {command : UndoConsumptionCommand} {named : List ItemId} {now : Timestamp}
    (h : db.undoConsumption command named now = .ok db') : ShelfMatches db' := by
  obtain ⟨loaded, hload, h⟩ := bind_eq_ok_iff.mp h
  obtain ⟨⟨loaded', nextId⟩, hlines, h⟩ := bind_eq_ok_iff.mp h
  obtain ⟨saved, hsave, h⟩ := bind_eq_ok_iff.mp h
  rw [pure_eq_ok_iff] at h
  obtain ⟨posts, hextends, -⟩ :=
    undoLines_ok (nodup_of_findAllByIdsForUpdate hshelf.nodup hload) hlines
  exact h ▸ hshelf.batch hload hextends hsave nextId

end Preservation

section Runs

variable {db db' : InventoryDb} {place place' : StockPlace} {input : StockInput}

/-- Every statement keeps the counts right. -/
theorem ShelfMatches.move (hshelf : ShelfMatches db)
    (hplace : FreshCopy db place)
    (hmove : StockMove db place input db' place') : ShelfMatches db' := by
  cases hmove with
  | read nextId hle next hnext => exact hshelf.withNextId nextId
  | save item hsave => exact hshelf.save (hplace item rfl).1 hsave
  | consume command now hconsume => exact hshelf.consumeStockBatch hconsume
  | restore command order now hrestore => exact hshelf.restoreStockBatch hrestore
  | undo command named now hundo => exact hshelf.undoConsumption hundo
  | confirm operationId now =>
      refine hshelf.mapMovements (fun row => ?_) (fun row => ?_) <;>
        split <;> rfl
  | close closure actorUserId candidates now =>
      refine hshelf.mapMovements (fun row => ?_) (fun row => ?_) <;>
        split <;> rfl

/-- The counts are right in every reachable state, and every copy under way
can still be saved. -/
theorem shelfMatches_of_reaches {config : Config InventoryDb StockPlace}
    {log : List Unit} (h : Reaches stockExec emptyStock config log) :
    ShelfMatches config.store ∧ ∀ pid, FreshCopy config.store (config.places pid) := by
  refine ReachesBy.invariant_of_places (G := fun db _ => ShelfMatches db)
    (L := fun db _ place => FreshCopy db place) ?_ ?_ ?_ ?_ h
  · exact ⟨List.nodup_nil, fun _ hrow => absurd hrow List.not_mem_nil,
      fun _ hrow => absurd hrow List.not_mem_nil, fun _ hrow => absurd hrow List.not_mem_nil⟩
  · exact fun _ _ hidle => nomatch hidle
  · intro config log pid input out _ hshelf hplaces _ hexec
    have hmove := stockMove_of_exec hexec
    exact ⟨hshelf.move (hplaces pid) hmove, hmove.freshCopy⟩
  · intro config log pid input out _ hshelf hplaces _ hexec other _
    exact (stockMove_of_exec hexec).freshCopy_other hshelf.nodup (hplaces other)

/-- In every reachable state the count of every item on the shelf is its
`INBOUND` and `RETURN` units less its `CONSUMPTION` and `ADJUSTMENT` units,
and it is not negative. -/
theorem quantity_on_hand_eq_ledger {config : Config InventoryDb StockPlace}
    {log : List Unit} (h : Reaches stockExec emptyStock config log) :
    ∀ row ∈ config.store.items,
      row.quantityOnHand =
          config.store.movedTotal row.id [.inbound, .returned] -
            config.store.movedTotal row.id [.consumption, .adjustment] ∧
        0 ≤ row.quantityOnHand := by
  intro row hrow
  rw [← shelfTotal_eq_movedTotal]
  exact (shelfMatches_of_reaches h).1.count row hrow

end Runs

namespace ShelfWitness

/-- Two replenishments loaded from one count, a batch with two lines for one
item, and an adjustment. -/
def turns : List (Nat × StockInput) :=
  [(0, .create "OIL-1" "Oil filter" none .part 1000 1), (0, .proceed 1),
   (0, .replenish 0 5 900 7 none 2), (1, .replenish 0 4 900 7 none 2),
   (0, .proceed 3), (1, .proceed 3),
   (0, .consume ⟨[⟨0, 2⟩, ⟨0, 3⟩], 50, 7, some 60⟩ 4),
   (0, .adjust 0 1 7 "broken" 5), (0, .proceed 6)]

def last : Config InventoryDb StockPlace × List Unit :=
  endOfRun stockExec emptyStock turns (by decide +kernel)

theorem quantity_on_hand_eq_ledger_last :
    (last.1.store.items.map fun row => row.quantityOnHand) = [3] ∧
      ∀ row ∈ last.1.store.items,
        row.quantityOnHand =
            last.1.store.movedTotal row.id [.inbound, .returned] -
              last.1.store.movedTotal row.id [.consumption, .adjustment] ∧
          0 ≤ row.quantityOnHand :=
  ⟨by decide +kernel, quantity_on_hand_eq_ledger (reaches_endOfRun _)⟩

end ShelfWitness

end Inventory

end Workshop
