/-
What inventory commits: the save of one item, the saves of a batch, and the
three batches other modules ask for.
-/
import Workshop.Inventory.Postings

namespace Workshop

namespace Inventory

/-- The items of a database, by id. -/
def InventoryDb.itemIds (db : InventoryDb) : List ItemId :=
  db.items.map ItemRow.id

section Save

variable {db db' : InventoryDb} {item : InventoryItem}

@[simp] theorem savedRow_id (existing : Option ItemRow) :
    (savedRow existing item).id = item.id := by
  cases existing <;> rfl

theorem fitsInteger_iff {value : Int} :
    fitsInteger value = true ↔ minInteger ≤ value ∧ value ≤ maxInteger := by
  simp [fitsInteger]

theorem fitsInteger_of_nonneg {value : Int} (hnonneg : 0 ≤ value) (hle : value ≤ maxInteger) :
    fitsInteger value = true :=
  fitsInteger_iff.mpr ⟨(by decide : minInteger ≤ 0).trans hnonneg, hle⟩

/-- A save that committed passed the checks of the table and appended the
movements of the item. -/
theorem save_ok (hsave : db.save item = .ok db') :
    ∃ row, row = savedRow (db.items.find? fun other => other.id = item.id) item ∧
      (0 ≤ row.quantityOnHand ∧ row.quantityOnHand ≤ maxInteger) ∧
      db.skuTaken row = false ∧
      db.unresolvedMovement item = none ∧
      db' = { db with
        items := writeItemRow db.items row
        movements := db.movements ++
          item.movements.map (toMovementRow item.id) } := by
  refine ⟨_, rfl, ?_⟩
  simp only [InventoryDb.save] at hsave
  split at hsave
  · cases hsave
  · rename_i hfits
    rw [Bool.not_eq_true, Bool.not_eq_false', fitsInteger_iff] at hfits
    split at hsave
    · cases hsave
    · rename_i hquantity
      split at hsave
      · cases hsave
      · rename_i hsku
        split at hsave
        · cases hsave
        · rename_i hresolved
          cases hsave
          exact ⟨⟨not_lt.mp hquantity, hfits.2⟩, by simpa using hsku, hresolved, rfl⟩

/-- Writing a row keeps the ids, or appends the row's id when it is new. -/
theorem writeItemRow_ids (items : List ItemRow) (row : ItemRow) :
    (writeItemRow items row).map ItemRow.id =
      if row.id ∈ items.map ItemRow.id then items.map ItemRow.id
      else items.map ItemRow.id ++ [row.id] := by
  unfold writeItemRow
  by_cases hmem : row.id ∈ items.map ItemRow.id
  · have hany : (items.any fun other => other.id = row.id) = true := by
      obtain ⟨other, hother, hid⟩ := List.mem_map.mp hmem
      exact List.any_eq_true.mpr ⟨other, hother, decide_eq_true hid⟩
    rw [if_pos hany, if_pos hmem, List.map_map]
    refine List.map_congr_left fun other _ => ?_
    simp only [Function.comp]
    split <;> simp_all
  · have hany : (items.any fun other => other.id = row.id) = false := by
      rw [List.any_eq_false]
      intro other hother hid
      exact hmem (of_decide_eq_true hid ▸ List.mem_map_of_mem hother)
    rw [if_neg (by simp [hany]), if_neg hmem, List.map_append]
    rfl

theorem mem_writeItemRow {items : List ItemRow} {row other : ItemRow}
    (hmem : other ∈ writeItemRow items row) :
    other = row ∨ other ∈ items ∧ other.id ≠ row.id := by
  unfold writeItemRow at hmem
  split at hmem
  · obtain ⟨before, hbefore, heq⟩ := List.mem_map.mp hmem
    split at heq
    · exact Or.inl heq.symm
    · rename_i hne
      exact Or.inr ⟨heq ▸ hbefore, heq ▸ hne⟩
  · rename_i hnone
    rcases List.mem_append.mp hmem with hmem | hmem
    · refine Or.inr ⟨hmem, fun heq => hnone ?_⟩
      exact List.any_eq_true.mpr ⟨other, hmem, decide_eq_true heq⟩
    · exact Or.inl (List.mem_singleton.mp hmem)

/-- A save keeps the list of items, or puts a new item at its end. -/
theorem save_itemIds_cases (hsave : db.save item = .ok db') :
    item.id ∈ db.itemIds ∧ db'.itemIds = db.itemIds ∨
      item.id ∉ db.itemIds ∧ db'.itemIds = db.itemIds ++ [item.id] := by
  obtain ⟨row, hrow, -, -, -, rfl⟩ := save_ok hsave
  have hid : row.id = item.id := by rw [hrow, savedRow_id]
  simp only [InventoryDb.itemIds, writeItemRow_ids, hid]
  by_cases hmem : item.id ∈ db.items.map ItemRow.id
  · exact Or.inl ⟨hmem, if_pos hmem⟩
  · exact Or.inr ⟨hmem, if_neg hmem⟩

theorem save_itemIds (hsave : db.save item = .ok db')
    (hmem : item.id ∈ db.itemIds) : db'.itemIds = db.itemIds := by
  rcases save_itemIds_cases hsave with ⟨-, hids⟩ | ⟨hnew, -⟩
  · exact hids
  · exact absurd hmem hnew

theorem save_itemIds_subset (hsave : db.save item = .ok db') :
    db.itemIds ⊆ db'.itemIds := by
  rcases save_itemIds_cases hsave with ⟨-, hids⟩ | ⟨-, hids⟩
  · rw [hids]
    exact List.Subset.refl _
  · rw [hids]
    exact List.subset_append_left _ _

theorem mem_itemIds_of_save (hsave : db.save item = .ok db') :
    item.id ∈ db'.itemIds := by
  rcases save_itemIds_cases hsave with ⟨hmem, hids⟩ | ⟨-, hids⟩
  · rwa [hids]
  · simp [hids]

/-- The saves of a batch append the rows of all its items and touch nothing
else of the ledger. -/
theorem saveAll_ok {items : List InventoryItem} :
    ∀ {db db' : InventoryDb}, db.saveAll items = .ok db' →
      (∀ item ∈ items, item.id ∈ db.itemIds) →
      db'.movements = db.movements ++ newRows items ∧
        db'.transitions = db.transitions ∧ db'.nextId = db.nextId ∧
        db'.itemIds = db.itemIds := by
  induction items with
  | nil =>
      intro db db' h _
      simp only [InventoryDb.saveAll, Except.ok.injEq] at h
      subst h
      simp
  | cons item items ih =>
      intro db db' h hmem
      simp only [InventoryDb.saveAll] at h
      obtain ⟨middle, hsave, h⟩ := bind_eq_ok_iff.mp h
      have hids := save_itemIds hsave (hmem item List.mem_cons_self)
      obtain ⟨hmovements, htransitions, hnext, hitems⟩ := ih h fun other hother =>
        hids ▸ hmem other (List.mem_cons_of_mem item hother)
      obtain ⟨row, -, -, -, -, rfl⟩ := save_ok hsave
      refine ⟨?_, htransitions, hnext, hitems.trans hids⟩
      rw [hmovements, newRows_cons, List.append_assoc]

end Save

section Load

variable {db : InventoryDb} {loaded : List InventoryItem}

theorem toDomain_ok {row : ItemRow} {item : InventoryItem}
    (h : toDomain row = .ok item) :
    item.id = row.id ∧ item.movements = [] ∧
      item.quantityOnHand.units = row.quantityOnHand := by
  obtain ⟨quantityOnHand, hquantity, h⟩ := bind_eq_ok_iff.mp h
  rw [pure_eq_ok_iff] at h
  subst h
  unfold StockQuantity.ofUnits at hquantity
  split at hquantity
  · cases hquantity
    exact ⟨rfl, rfl, rfl⟩
  · cases hquantity

/-- Loading rows gives the items of these rows, without movements. -/
theorem loadRows_ok {rows : List ItemRow} (h : rows.mapM toDomain = .ok loaded) :
    loaded.map InventoryItem.id = rows.map ItemRow.id ∧ newRows loaded = [] := by
  have hrows := forall₂_of_mapM_eq_ok h
  clear h
  induction hrows with
  | nil => exact ⟨rfl, rfl⟩
  | cons hrow _ ih =>
      obtain ⟨hid, hmovements, -⟩ := toDomain_ok hrow
      rw [List.map_cons, List.map_cons, ih.1, hid, newRows_cons, hmovements]
      exact ⟨rfl, ih.2⟩

/-- The items a batch locks are rows of the table, each once and without
movements. -/
theorem findAllByIdsForUpdate_ok {ids : List ItemId}
    (h : db.findAllByIdsForUpdate ids = .ok loaded) :
    loaded.map InventoryItem.id =
        (db.items.filter fun row => row.id ∈ ids).map ItemRow.id ∧
      newRows loaded = [] :=
  loadRows_ok h

theorem nodup_of_findAllByIdsForUpdate {ids : List ItemId}
    (hnodup : db.itemIds.Nodup)
    (h : db.findAllByIdsForUpdate ids = .ok loaded) :
    (loaded.map InventoryItem.id).Nodup := by
  rw [(findAllByIdsForUpdate_ok h).1]
  exact hnodup.sublist ((List.filter_sublist).map ItemRow.id)

theorem mem_itemIds_of_findAllByIdsForUpdate {ids : List ItemId}
    {loaded' : List InventoryItem} {posts : List MovementRow}
    (h : db.findAllByIdsForUpdate ids = .ok loaded)
    (hextends : Extends loaded loaded' posts) :
    ∀ item ∈ loaded', item.id ∈ db.itemIds := by
  intro item hitem
  have hid : item.id ∈ loaded'.map InventoryItem.id := List.mem_map_of_mem hitem
  rw [hextends.ids, (findAllByIdsForUpdate_ok h).1] at hid
  exact ((List.filter_sublist).map ItemRow.id).subset hid

end Load

/-- A transaction that posts rows: it appends them, in some order, under
fresh ids, and keeps the transitions and the list of items. -/
structure Posted (db db' : InventoryDb) (posts : List MovementRow) : Prop where
  movements : ∃ rows, rows.Perm posts ∧ db'.movements = db.movements ++ rows
  transitions : db'.transitions = db.transitions
  itemIds : db'.itemIds = db.itemIds
  ids : posts.map (fun row => row.id) = List.range' db.nextId posts.length
  nextId : db'.nextId = db.nextId + posts.length

/-- Loading, growing in memory and saving posts the rows of the growth. -/
theorem posted_of_saveAll {db saved : InventoryDb} {ids : List ItemId}
    {loaded loaded' : List InventoryItem} {posts : List MovementRow}
    {nextId : Uuid} (hload : db.findAllByIdsForUpdate ids = .ok loaded)
    (hextends : Extends loaded loaded' posts)
    (hsave : db.saveAll loaded' = .ok saved)
    (hids : posts.map (fun row => row.id) = List.range' db.nextId posts.length)
    (hnext : nextId = db.nextId + posts.length) :
    Posted db { saved with nextId } posts := by
  obtain ⟨hmovements, htransitions, -, hitems⟩ := saveAll_ok hsave
    (mem_itemIds_of_findAllByIdsForUpdate hload hextends)
  refine ⟨⟨newRows loaded', ?_, hmovements⟩, htransitions, hitems, hids, hnext⟩
  have hrows := hextends.rows
  rwa [(findAllByIdsForUpdate_ok hload).2, List.nil_append] at hrows

section Batches

variable {db db' : InventoryDb} {now : Timestamp}

/-- A withdrawal that committed posted one consumption for each line. -/
theorem consumeStockBatch_ok {command : ConsumeStockBatchCommand}
    (hnodup : db.itemIds.Nodup)
    (h : db.consumeStockBatch command now = .ok db') :
    ∃ posts, Posted db db' posts ∧
      List.Forall₂ (IsConsumption command) command.lines posts := by
  obtain ⟨loaded, hload, h⟩ := bind_eq_ok_iff.mp h
  obtain ⟨⟨loaded', nextId⟩, hlines, h⟩ := bind_eq_ok_iff.mp h
  obtain ⟨saved, hsave, h⟩ := bind_eq_ok_iff.mp h
  rw [pure_eq_ok_iff] at h
  subst h
  obtain ⟨posts, hextends, hposts, hids, hnext⟩ :=
    consumeLines_ok (nodup_of_findAllByIdsForUpdate hnodup hload) hlines
  rw [hposts.length_eq] at hids hnext
  exact ⟨posts, posted_of_saveAll hload hextends hsave hids hnext, hposts⟩

/-- A return that committed was a repeat and changed nothing, or posted the
draws of every line and covered them all. -/
theorem restoreStockBatch_ok {order : RowOrder MovementRow}
    {command : RestoreStockBatchCommand} (hnodup : db.itemIds.Nodup)
    (h : db.restoreStockBatch order command now = .ok db') :
    db.hasReturnOfOperation command.operationId = true ∧ db' = db ∨
      db.hasReturnOfOperation command.operationId = false ∧
      ∃ posts, Posted db db' posts ∧
        List.Forall₂ (fun draw row => IsReturn command.operationId
            command.workOrderId draw.1 draw.2 row)
          (db.restoreDraws order command.workOrderId command.lines) posts ∧
        ∀ line ∈ command.lines, line.quantity ≤ drawnTotal (allocate
          (db.offers order line.inventoryItemId command.workOrderId)
          line.quantity) := by
  obtain ⟨loaded, hload, h⟩ := bind_eq_ok_iff.mp h
  by_cases hrepeat : db.hasReturnOfOperation command.operationId = true
  · rw [if_pos hrepeat, pure_eq_ok_iff] at h
    exact Or.inl ⟨hrepeat, h.symm⟩
  · rw [if_neg hrepeat] at h
    obtain ⟨⟨loaded', nextId⟩, hlines, h⟩ := bind_eq_ok_iff.mp h
    obtain ⟨saved, hsave, h⟩ := bind_eq_ok_iff.mp h
    rw [pure_eq_ok_iff] at h
    subst h
    obtain ⟨posts, hextends, hposts, hids, hnext, hcovered⟩ :=
      restoreLines_ok (nodup_of_findAllByIdsForUpdate hnodup hload) hlines
    exact Or.inr ⟨by simpa using hrepeat, posts,
      posted_of_saveAll hload hextends hsave hids hnext, hposts, hcovered⟩

/-- The error of a return that the pending consumptions do not cover. -/
def InventoryError.uncovered : InventoryError → Bool
  | .noPendingConsumptionCovers .. => true
  | _ => false

/-- A computation answers that a return is not covered only where `p` holds. -/
abbrev UncoveredOnly {α : Type} (p : Prop) (x : Except InventoryError α) : Prop :=
  ErrorsIn (fun error => error.uncovered = true → p) x

theorem UncoveredOnly.ofUnits {p : Prop} (raw : Int) :
    UncoveredOnly p (StockQuantity.ofUnits raw) := by
  unfold StockQuantity.ofUnits
  split
  · exact ErrorsIn.ok _
  · exact ErrorsIn.error nofun

theorem UncoveredOnly.findAllByIdsForUpdate {p : Prop} (ids : List ItemId) :
    UncoveredOnly p (db.findAllByIdsForUpdate ids) :=
  ErrorsIn.mapM fun _ _ => ErrorsIn.bind (UncoveredOnly.ofUnits _)
    fun _ _ => ErrorsIn.ok _

theorem UncoveredOnly.saveAll {p : Prop} {items : List InventoryItem} :
    ∀ {db : InventoryDb}, UncoveredOnly p (db.saveAll items) := by
  induction items with
  | nil => exact ErrorsIn.ok _
  | cons item items ih =>
      refine ErrorsIn.bind ?_ fun _ _ => ih
      unfold InventoryDb.save
      dsimp only
      split
      · exact ErrorsIn.error nofun
      · split
        · exact ErrorsIn.error nofun
        · split
          · exact ErrorsIn.error nofun
          · split
            · exact ErrorsIn.error nofun
            · exact ErrorsIn.ok _

theorem UncoveredOnly.drawFrom {p : Prop} {command : RestoreStockBatchCommand}
    {pending : List PendingConsumptionDto} :
    ∀ {remaining : Int} {item : InventoryItem} {nextId : Uuid},
      UncoveredOnly p (drawFrom command now pending remaining item nextId) := by
  induction pending with
  | nil => exact ErrorsIn.ok _
  | cons consumption pending ih =>
      intro remaining item nextId
      unfold Inventory.drawFrom
      split
      · exact ErrorsIn.ok _
      · refine ErrorsIn.bind (ErrorsIn.bind (ErrorsIn.bind ?_ fun _ _ =>
          ErrorsIn.ok _) fun _ _ => ErrorsIn.bind (UncoveredOnly.ofUnits _)
          fun _ _ => ErrorsIn.ok _) fun _ _ => ih
        unfold StockMovement.checkQuantity
        split
        · exact ErrorsIn.error fun huncovered => by cases huncovered
        · exact ErrorsIn.ok _

theorem UncoveredOnly.restoreLines {order : RowOrder MovementRow}
    {command : RestoreStockBatchCommand} {lines : List StockLine} :
    ∀ {loaded : List InventoryItem} {nextId : Uuid},
      UncoveredOnly (∃ line ∈ lines, drawnTotal (allocate
          (db.offers order line.inventoryItemId command.workOrderId)
          line.quantity) < line.quantity)
        (restoreLines db order command now lines loaded nextId) := by
  induction lines with
  | nil => exact ErrorsIn.ok _
  | cons line lines ih =>
      intro loaded nextId
      unfold Inventory.restoreLines
      refine ErrorsIn.bind ?_ fun item hitem => ?_
      · unfold findLoaded
        split
        · exact ErrorsIn.error fun huncovered => by cases huncovered
        · exact ErrorsIn.ok _
      · refine ErrorsIn.bind UncoveredOnly.drawFrom fun out hdraw => ?_
        obtain ⟨-, -, -, -, -, -, hleft⟩ := drawFrom_ok hdraw
        have hid := (findLoaded_ok hitem).2
        obtain ⟨left, item', nextId'⟩ := out
        rw [hid] at hleft
        by_cases hshort : 0 < left
        · simp only [if_pos hshort]
          refine ErrorsIn.bind (ErrorsIn.error fun _ =>
            ⟨line, List.mem_cons_self, ?_⟩) fun _ hok => by cases hok
          rw [InventoryDb.offers]
          omega
        · simp only [if_neg hshort]
          intro error herror huncovered
          obtain ⟨other, hother, hless⟩ := ih error herror huncovered
          exact ⟨other, List.mem_cons_of_mem _ hother, hless⟩

/-- A return answers that it is not covered only if one of its lines asks for
more than the pending consumptions offer. -/
theorem restoreStockBatch_uncovered {order : RowOrder MovementRow}
    {command : RestoreStockBatchCommand} :
    UncoveredOnly (db.hasReturnOfOperation command.operationId = false ∧
        ∃ line ∈ command.lines, drawnTotal (allocate
          (db.offers order line.inventoryItemId command.workOrderId)
          line.quantity) < line.quantity)
      (db.restoreStockBatch order command now) := by
  refine ErrorsIn.bind (UncoveredOnly.findAllByIdsForUpdate _) fun loaded _ => ?_
  split
  · exact ErrorsIn.ok _
  · rename_i hnew
    refine ErrorsIn.bind (fun error herror huncovered =>
      ⟨by simpa using hnew, UncoveredOnly.restoreLines error herror huncovered⟩)
      fun _ _ => ?_
    exact ErrorsIn.bind UncoveredOnly.saveAll fun _ _ => ErrorsIn.ok _

/-- An undo that committed posted one return for each consumption its second
read found. -/
theorem undoConsumption_ok {command : UndoConsumptionCommand}
    {named : List ItemId} (hnodup : db.itemIds.Nodup)
    (h : db.undoConsumption command named now = .ok db') :
    ∃ posts, Posted db db' posts ∧
      List.Forall₂ (fun (consumption : OperationConsumptionDto) row =>
          IsReturn command.operationId consumption.workOrderId
            consumption.inventoryItemId
            (consumption.movementId, consumption.quantity) row)
        (db.findPendingConsumptionsOfOperation command.operationId) posts := by
  obtain ⟨loaded, hload, h⟩ := bind_eq_ok_iff.mp h
  obtain ⟨⟨loaded', nextId⟩, hlines, h⟩ := bind_eq_ok_iff.mp h
  obtain ⟨saved, hsave, h⟩ := bind_eq_ok_iff.mp h
  rw [pure_eq_ok_iff] at h
  subst h
  obtain ⟨posts, hextends, hposts, hids, hnext⟩ :=
    undoLines_ok (nodup_of_findAllByIdsForUpdate hnodup hload) hlines
  exact ⟨posts, posted_of_saveAll hload hextends hsave hids hnext, hposts⟩

end Batches

end Inventory

end Workshop
