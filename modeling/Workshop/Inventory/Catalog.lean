/-
The catalog entry of an item: the columns a save writes from the copy it
loaded.  The movements of stock change none of them, and a batch, which loads
under its locks, writes back what it found.
-/
import Workshop.Inventory.ReturnBounds
import Workshop.Library.Upserts

namespace Workshop

namespace Inventory

/-- What the catalog says of an item. -/
structure Catalog where
  name : String
  description : Option String
  unitPrice : Money
  status : InventoryItemStatus
deriving DecidableEq, Repr

def InventoryItem.catalog (item : InventoryItem) : Catalog where
  name := item.name
  description := item.description
  unitPrice := item.unitPrice
  status := item.status

def ItemRow.catalog (row : ItemRow) : Catalog where
  name := row.name
  description := row.description
  unitPrice := row.unitPrice
  status := row.status

/-- The stored catalog entry of an item. -/
def InventoryDb.catalogOf (db : InventoryDb) (id : ItemId) : Option Catalog :=
  (db.items.find? fun row => row.id = id).map ItemRow.catalog

/-- The loaded items carry the stored entries. -/
def Describes (db : InventoryDb) (loaded : List InventoryItem) : Prop :=
  ∀ item ∈ loaded, db.catalogOf item.id = some item.catalog

section Items

variable {item item' : InventoryItem}

theorem toDomain_catalog {row : ItemRow} (h : toDomain row = .ok item) :
    item.catalog = row.catalog := by
  obtain ⟨quantityOnHand, -, h⟩ := bind_eq_ok_iff.mp h
  rw [pure_eq_ok_iff] at h
  subst h
  rfl

theorem consume_catalog {input : ConsumeStockInput} (h : item.consume input = .ok item') :
    item'.id = item.id ∧ item'.catalog = item.catalog := by
  obtain ⟨movement, -, h⟩ := bind_eq_ok_iff.mp h
  obtain ⟨quantityOnHand, -, h⟩ := bind_eq_ok_iff.mp h
  rw [pure_eq_ok_iff] at h
  subst h
  exact ⟨rfl, rfl⟩

theorem restoreUnits_catalog {input : RestoreStockInput}
    (h : item.restoreUnits input = .ok item') :
    item'.id = item.id ∧ item'.catalog = item.catalog := by
  obtain ⟨movement, -, h⟩ := bind_eq_ok_iff.mp h
  obtain ⟨quantityOnHand, -, h⟩ := bind_eq_ok_iff.mp h
  rw [pure_eq_ok_iff] at h
  subst h
  exact ⟨rfl, rfl⟩

theorem replenish_catalog {input : InventoryItem.ReplenishStockInput}
    (h : item.replenish input = .ok item') :
    item'.id = item.id ∧ item'.catalog = item.catalog := by
  obtain ⟨movement, -, h⟩ := bind_eq_ok_iff.mp h
  obtain ⟨quantityOnHand, -, h⟩ := bind_eq_ok_iff.mp h
  rw [pure_eq_ok_iff] at h
  subst h
  exact ⟨rfl, rfl⟩

theorem adjustDown_catalog {input : InventoryItem.AdjustStockDownInput}
    (h : item.adjustDown input = .ok item') :
    item'.id = item.id ∧ item'.catalog = item.catalog := by
  simp only [InventoryItem.adjustDown] at h
  by_cases hnote : input.note = ""
  · simp [hnote, bind_eq_ok_iff] at h
  simp only [hnote, if_false] at h
  obtain ⟨movement, -, h⟩ := bind_eq_ok_iff.mp h
  obtain ⟨quantityOnHand, -, h⟩ := bind_eq_ok_iff.mp h
  rw [pure_eq_ok_iff] at h
  subst h
  exact ⟨rfl, rfl⟩

end Items

section Tables

variable {db db' : InventoryDb} {item : InventoryItem} {id : ItemId}

theorem writeItemRow_eq_upsert (items : List ItemRow) (row : ItemRow) :
    writeItemRow items row = upsert ItemRow.id row items := rfl

@[simp] theorem savedRow_catalog (existing : Option ItemRow) :
    (savedRow existing item).catalog = item.catalog := by
  cases existing <;> rfl

/-- A save writes the entry of its copy. -/
theorem catalogOf_save (hsave : db.save item = .ok db') :
    db'.catalogOf id = if item.id = id then some item.catalog else db.catalogOf id := by
  obtain ⟨row, hrow, -, -, -, rfl⟩ := save_ok hsave
  have hid : row.id = item.id := by rw [hrow, savedRow_id]
  have hcatalog : row.catalog = item.catalog := by rw [hrow, savedRow_catalog]
  unfold InventoryDb.catalogOf
  rw [writeItemRow_eq_upsert, find?_upsert, hid]
  split
  · rw [Option.map_some, hcatalog]
  · rfl

theorem catalogOf_of_mem {row : ItemRow} (hnodup : db.itemIds.Nodup)
    (hrow : row ∈ db.items) : db.catalogOf row.id = some row.catalog := by
  have hfind : db.items.find? (fun other => other.id = row.id) = some row :=
    find?_key_of_mem hnodup hrow
  rw [InventoryDb.catalogOf, hfind, Option.map_some]

/-- Saving items that carry the stored entries changes no entry. -/
theorem catalogOf_saveAll {items : List InventoryItem} :
    ∀ {db db' : InventoryDb}, Describes db items → db.saveAll items = .ok db' →
      ∀ id, db'.catalogOf id = db.catalogOf id := by
  induction items with
  | nil =>
      intro db db' _ hsave id
      cases hsave
      rfl
  | cons item items ih =>
      intro db db' hdescribes hsave id
      obtain ⟨middle, hfirst, hrest⟩ := bind_eq_ok_iff.mp hsave
      have hsame : ∀ id, middle.catalogOf id = db.catalogOf id := by
        intro id
        rw [catalogOf_save hfirst]
        split
        · rename_i heq
          rw [← heq]
          exact (hdescribes item List.mem_cons_self).symm
        · rfl
      refine (ih (fun other hother => ?_) hrest id).trans (hsame id)
      rw [hsame]
      exact hdescribes other (List.mem_cons_of_mem _ hother)

theorem describes_load {ids : List ItemId} {loaded : List InventoryItem}
    (hnodup : db.itemIds.Nodup) (h : db.findAllByIdsForUpdate ids = .ok loaded) :
    Describes db loaded := by
  have hrows := forall₂_of_mapM_eq_ok h
  have hmem : ∀ row ∈ db.items.filter fun row => decide (row.id ∈ ids),
      row ∈ db.items := fun row hrow => (List.mem_filter.mp hrow).1
  clear h
  generalize db.items.filter (fun row => decide (row.id ∈ ids)) = rows at hrows hmem
  induction hrows with
  | nil => exact nofun
  | cons hrow _ ih =>
      rename_i row item rows loaded _
      intro other hother
      rcases List.mem_cons.mp hother with rfl | hother
      · rw [(toDomain_ok hrow).1, toDomain_catalog hrow]
        exact catalogOf_of_mem hnodup (hmem row List.mem_cons_self)
      · exact ih (fun row hrow => hmem row (List.mem_cons_of_mem _ hrow)) other hother

end Tables

section Batches

variable {db db' : InventoryDb} {now : Timestamp}

/-- Movements keep the entry an item carries. -/
theorem describes_kept (source : InventoryDb) :
    KeptByMovements fun item => source.catalogOf item.id = some item.catalog where
  consume := by
    intro item item' input hitem h
    rw [(consume_catalog h).1, (consume_catalog h).2]
    exact hitem
  restore := by
    intro item item' input hitem h
    rw [(restoreUnits_catalog h).1, (restoreUnits_catalog h).2]
    exact hitem

theorem consumeStockBatch_catalog {command : ConsumeStockBatchCommand}
    (hnodup : db.itemIds.Nodup) (h : db.consumeStockBatch command now = .ok db')
    (id : ItemId) : db'.catalogOf id = db.catalogOf id := by
  obtain ⟨loaded, hload, h⟩ := bind_eq_ok_iff.mp h
  obtain ⟨⟨loaded', nextId⟩, hlines, h⟩ := bind_eq_ok_iff.mp h
  obtain ⟨saved, hsave, h⟩ := bind_eq_ok_iff.mp h
  rw [pure_eq_ok_iff] at h
  subst h
  exact catalogOf_saveAll
    ((describes_kept db).consumeLines (describes_load hnodup hload) hlines) hsave id

theorem restoreStockBatch_catalog {order : RowOrder MovementRow}
    {command : RestoreStockBatchCommand} (hnodup : db.itemIds.Nodup)
    (h : db.restoreStockBatch order command now = .ok db') (id : ItemId) :
    db'.catalogOf id = db.catalogOf id := by
  obtain ⟨loaded, hload, h⟩ := bind_eq_ok_iff.mp h
  by_cases hrepeat : db.hasReturnOfOperation command.operationId = true
  · rw [if_pos hrepeat, pure_eq_ok_iff] at h
    rw [h]
  · rw [if_neg hrepeat] at h
    obtain ⟨⟨loaded', nextId⟩, hlines, h⟩ := bind_eq_ok_iff.mp h
    obtain ⟨saved, hsave, h⟩ := bind_eq_ok_iff.mp h
    rw [pure_eq_ok_iff] at h
    subst h
    exact catalogOf_saveAll
      ((describes_kept db).restoreLines (describes_load hnodup hload) hlines) hsave id

theorem undoConsumption_catalog {command : UndoConsumptionCommand}
    {named : List ItemId} (hnodup : db.itemIds.Nodup)
    (h : db.undoConsumption command named now = .ok db') (id : ItemId) :
    db'.catalogOf id = db.catalogOf id := by
  obtain ⟨loaded, hload, h⟩ := bind_eq_ok_iff.mp h
  obtain ⟨⟨loaded', nextId⟩, hlines, h⟩ := bind_eq_ok_iff.mp h
  obtain ⟨saved, hsave, h⟩ := bind_eq_ok_iff.mp h
  rw [pure_eq_ok_iff] at h
  subst h
  exact catalogOf_saveAll
    ((describes_kept db).undoLines (describes_load hnodup hload) hlines) hsave id

end Batches

end Inventory

end Workshop
