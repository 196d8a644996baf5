/-
The prices inventory keeps.  A movement carries the price its request gave or the
price of its item, so whatever holds of every price a request gives holds of every
price in the tables.
-/
import Workshop.Inventory.StockProgram
import Workshop.Shared.Numbers

namespace Workshop

namespace Inventory

/-- The amounts an item carries: its price and those of its movements. -/
def InventoryItem.amounts (item : InventoryItem) : List Money :=
  item.unitPrice :: item.movements.map StockMovement.unitPrice

/-- The amounts in the tables of inventory. -/
def InventoryDb.amounts (db : InventoryDb) : List Money :=
  db.items.map ItemRow.unitPrice ++ db.movements.map fun row => row.unitPrice

/-- The prices a request gives, in cents. -/
def StockInput.amounts : StockInput → List Int
  | .create _ _ _ _ unitPriceCents _ => [unitPriceCents]
  | .update _ _ _ unitPriceCents _ => unitPriceCents.toList
  | .replenish _ _ unitPriceCents _ _ _ => [unitPriceCents]
  | _ => []

variable {P : Int → Prop}

theorem priceOf_ok {cents : Int} {price : Money} (h : priceOf cents = .ok price) :
    price.cents = cents := by
  simp only [priceOf, Money.fromCents] at h
  split at h
  · rename_i amount hamount
    split at hamount
    · cases hamount
      cases h
      rfl
    · cases hamount
  · cases h

section Items

variable {item item' : InventoryItem}

theorem allCents_item :
    AllCents P item.amounts ↔ P item.unitPrice.cents ∧
      ∀ movement ∈ item.movements, P movement.unitPrice.cents := by
  rw [AllCents, InventoryItem.amounts, List.forall_mem_cons]
  simp only [List.forall_mem_map]

/-- Appending one movement. -/
theorem allCents_push {movement : StockMovement} {quantityOnHand : StockQuantity}
    {now : Timestamp} (hitem : AllCents P item.amounts)
    (hmovement : P movement.unitPrice.cents) :
    AllCents P (item.push movement quantityOnHand now).amounts := by
  rw [allCents_item] at hitem ⊢
  refine ⟨hitem.1, fun other hother => ?_⟩
  rcases List.mem_append.mp hother with hother | hother
  · exact hitem.2 other hother
  · rw [List.mem_singleton.mp hother]
    exact hmovement

/-- Consuming and restoring record the price of the item. -/
theorem allCents_kept (P : Int → Prop) :
    KeptByMovements fun item => AllCents P item.amounts where
  consume := by
    intro item item' input hitem h
    obtain ⟨movement, hmovement, h⟩ := bind_eq_ok_iff.mp h
    obtain ⟨quantityOnHand, -, h⟩ := bind_eq_ok_iff.mp h
    obtain ⟨⟨⟩, -, hmovement⟩ := bind_eq_ok_iff.mp hmovement
    rw [pure_eq_ok_iff] at h hmovement
    subst h hmovement
    exact allCents_push hitem (allCents_item.mp hitem).1
  restore := by
    intro item item' input hitem h
    obtain ⟨movement, hmovement, h⟩ := bind_eq_ok_iff.mp h
    obtain ⟨quantityOnHand, -, h⟩ := bind_eq_ok_iff.mp h
    obtain ⟨⟨⟩, -, hmovement⟩ := bind_eq_ok_iff.mp hmovement
    rw [pure_eq_ok_iff] at h hmovement
    subst h hmovement
    exact allCents_push hitem (allCents_item.mp hitem).1

/-- The price of a movement that `record` makes is the price it was given. -/
theorem record_unitPrice {id : MovementId} {kind : StockMovementKind} {quantity : Int}
    {unitPrice : Money} {actorUserId : UserId} {note : Option String}
    {now : Timestamp} {movement : StockMovement}
    (h : StockMovement.record id kind quantity unitPrice actorUserId note now =
      .ok movement) : movement.unitPrice = unitPrice := by
  obtain ⟨⟨⟩, -, h⟩ := bind_eq_ok_iff.mp h
  rw [pure_eq_ok_iff] at h
  subst h
  rfl

theorem allCents_replenish {input : InventoryItem.ReplenishStockInput}
    (hitem : AllCents P item.amounts) (hprice : P input.unitPrice.cents)
    (h : item.replenish input = .ok item') : AllCents P item'.amounts := by
  obtain ⟨movement, hmovement, h⟩ := bind_eq_ok_iff.mp h
  obtain ⟨quantityOnHand, -, h⟩ := bind_eq_ok_iff.mp h
  rw [pure_eq_ok_iff] at h
  subst h
  refine allCents_push hitem ?_
  rw [record_unitPrice hmovement]
  exact hprice

theorem allCents_adjustDown {input : InventoryItem.AdjustStockDownInput}
    (hitem : AllCents P item.amounts) (h : item.adjustDown input = .ok item') :
    AllCents P item'.amounts := by
  simp only [InventoryItem.adjustDown] at h
  by_cases hnote : input.note = ""
  · simp [hnote, bind_eq_ok_iff] at h
  simp only [hnote, if_false] at h
  obtain ⟨movement, hmovement, h⟩ := bind_eq_ok_iff.mp h
  obtain ⟨quantityOnHand, -, h⟩ := bind_eq_ok_iff.mp h
  rw [pure_eq_ok_iff] at h
  subst h
  refine allCents_push hitem ?_
  rw [record_unitPrice hmovement]
  exact (allCents_item.mp hitem).1

theorem allCents_updateItem {name : Option String} {description : Option (Option String)}
    {unitPriceCents : Option Int} {now : Timestamp}
    (hitem : AllCents P item.amounts) (hprice : ∀ cents ∈ unitPriceCents, P cents)
    (h : updateItem name description unitPriceCents now item = .ok item') :
    AllCents P item'.amounts := by
  obtain ⟨unitPrice, hpriceOf, h⟩ := bind_eq_ok_iff.mp h
  rw [pure_eq_ok_iff] at h
  subst h
  rw [allCents_item] at hitem ⊢
  refine ⟨?_, hitem.2⟩
  cases unitPriceCents with
  | none =>
      cases hpriceOf
      exact hitem.1
  | some cents =>
      obtain ⟨price, hprice', rfl⟩ := map_eq_ok_iff.mp hpriceOf
      change P price.cents
      rw [priceOf_ok hprice']
      exact hprice cents rfl

theorem allCents_deactivateItem {workOrderNumbers : List String} {now : Timestamp}
    (hitem : AllCents P item.amounts)
    (h : deactivateItem workOrderNumbers now item = .ok item') :
    AllCents P item'.amounts := by
  unfold deactivateItem InventoryItem.deactivate at h
  split at h
  · cases h
  · cases h
    split
    · exact hitem
    · exact hitem

end Items

section Tables

variable {db db' : InventoryDb} {item : InventoryItem}

theorem allCents_db :
    AllCents P db.amounts ↔ (∀ row ∈ db.items, P row.unitPrice.cents) ∧
      ∀ row ∈ db.movements, P row.unitPrice.cents := by
  rw [AllCents, InventoryDb.amounts, List.forall_mem_append]
  simp only [List.forall_mem_map]

@[simp] theorem savedRow_unitPrice (existing : Option ItemRow) :
    (savedRow existing item).unitPrice = item.unitPrice := by
  cases existing <;> rfl

/-- A load carries the price of its row. -/
theorem allCents_toDomain {row : ItemRow} (hrow : P row.unitPrice.cents)
    (h : toDomain row = .ok item) : AllCents P item.amounts := by
  obtain ⟨quantityOnHand, -, h⟩ := bind_eq_ok_iff.mp h
  rw [pure_eq_ok_iff] at h
  subst h
  rw [allCents_item]
  exact ⟨hrow, fun _ hmovement => absurd hmovement List.not_mem_nil⟩

theorem allCents_load {ids : List ItemId} {loaded : List InventoryItem}
    (hdb : AllCents P db.amounts) (h : db.findAllByIdsForUpdate ids = .ok loaded) :
    ∀ item ∈ loaded, AllCents P item.amounts := by
  intro item hitem
  obtain ⟨row, hrow, hload⟩ := exists_left_of_forall₂ (forall₂_of_mapM_eq_ok h) hitem
  exact allCents_toDomain
    ((allCents_db.mp hdb).1 row (List.mem_of_mem_filter hrow)) hload

/-- A save writes the amounts of its item. -/
theorem allCents_save (hdb : AllCents P db.amounts) (hitem : AllCents P item.amounts)
    (hsave : db.save item = .ok db') : AllCents P db'.amounts := by
  obtain ⟨row, hrow, -, -, -, rfl⟩ := save_ok hsave
  rw [allCents_db] at hdb ⊢
  rw [allCents_item] at hitem
  constructor
  · intro other hother
    rcases mem_writeItemRow hother with rfl | ⟨hold, -⟩
    · rw [hrow, savedRow_unitPrice]
      exact hitem.1
    · exact hdb.1 other hold
  · intro other hother
    rcases List.mem_append.mp hother with hother | hother
    · exact hdb.2 other hother
    · obtain ⟨movement, hmovement, rfl⟩ := List.mem_map.mp hother
      exact hitem.2 movement hmovement

theorem allCents_saveAll {items : List InventoryItem} :
    ∀ {db db' : InventoryDb}, AllCents P db.amounts →
      (∀ item ∈ items, AllCents P item.amounts) → db.saveAll items = .ok db' →
      AllCents P db'.amounts := by
  induction items with
  | nil =>
      intro db db' hdb _ hsave
      cases hsave
      exact hdb
  | cons item items ih =>
      intro db db' hdb hitems hsave
      obtain ⟨middle, hfirst, hrest⟩ := bind_eq_ok_iff.mp hsave
      exact ih (allCents_save hdb (hitems item List.mem_cons_self) hfirst)
        (fun other hother => hitems other (List.mem_cons_of_mem _ hother)) hrest

/-- A statement that rewrites movements where they stand and leaves their
prices. -/
theorem allCents_mapMovements (hdb : AllCents P db.amounts)
    {change : MovementRow → MovementRow} {transitions : List TransitionRow}
    (hchange : ∀ row, (change row).unitPrice = row.unitPrice) :
    AllCents P { db with
      movements := db.movements.map change, transitions }.amounts := by
  rw [allCents_db] at hdb ⊢
  refine ⟨hdb.1, fun other hother => ?_⟩
  obtain ⟨row, hrow, rfl⟩ := List.mem_map.mp hother
  rw [hchange]
  exact hdb.2 row hrow

end Tables

section Statements

variable {db db' : InventoryDb} {now : Timestamp}

theorem allCents_consumeStockBatch {command : ConsumeStockBatchCommand}
    (hdb : AllCents P db.amounts) (h : db.consumeStockBatch command now = .ok db') :
    AllCents P db'.amounts := by
  obtain ⟨loaded, hload, h⟩ := bind_eq_ok_iff.mp h
  obtain ⟨⟨loaded', nextId⟩, hlines, h⟩ := bind_eq_ok_iff.mp h
  obtain ⟨saved, hsave, h⟩ := bind_eq_ok_iff.mp h
  rw [pure_eq_ok_iff] at h
  subst h
  have hsaved : AllCents P saved.amounts := allCents_saveAll hdb
    ((allCents_kept P).consumeLines (allCents_load hdb hload) hlines) hsave
  exact hsaved

theorem allCents_restoreStockBatch {order : RowOrder MovementRow}
    {command : RestoreStockBatchCommand} (hdb : AllCents P db.amounts)
    (h : db.restoreStockBatch order command now = .ok db') :
    AllCents P db'.amounts := by
  obtain ⟨loaded, hload, h⟩ := bind_eq_ok_iff.mp h
  by_cases hrepeat : db.hasReturnOfOperation command.operationId = true
  · rw [if_pos hrepeat, pure_eq_ok_iff] at h
    exact h ▸ hdb
  · rw [if_neg hrepeat] at h
    obtain ⟨⟨loaded', nextId⟩, hlines, h⟩ := bind_eq_ok_iff.mp h
    obtain ⟨saved, hsave, h⟩ := bind_eq_ok_iff.mp h
    rw [pure_eq_ok_iff] at h
    subst h
    have hsaved : AllCents P saved.amounts := allCents_saveAll hdb
      ((allCents_kept P).restoreLines (allCents_load hdb hload) hlines) hsave
    exact hsaved

theorem allCents_undoConsumption {command : UndoConsumptionCommand}
    {named : List ItemId} (hdb : AllCents P db.amounts)
    (h : db.undoConsumption command named now = .ok db') : AllCents P db'.amounts := by
  obtain ⟨loaded, hload, h⟩ := bind_eq_ok_iff.mp h
  obtain ⟨⟨loaded', nextId⟩, hlines, h⟩ := bind_eq_ok_iff.mp h
  obtain ⟨saved, hsave, h⟩ := bind_eq_ok_iff.mp h
  rw [pure_eq_ok_iff] at h
  subst h
  have hsaved : AllCents P saved.amounts := allCents_saveAll hdb
    ((allCents_kept P).undoLines (allCents_load hdb hload) hlines) hsave
  exact hsaved

/-- The item a request loads and changes. -/
theorem allCents_loadThen {itemId : ItemId}
    {change : InventoryItem → Except InventoryError InventoryItem}
    (hdb : AllCents P db.amounts)
    (hchange : ∀ item item', AllCents P item.amounts → change item = .ok item' →
      AllCents P item'.amounts) {item : InventoryItem}
    (h : loadThen db itemId change = .saving item) : AllCents P item.amounts := by
  unfold loadThen InventoryDb.findById at h
  cases hfind : db.items.find? (fun row => row.id = itemId) with
  | none => simp [hfind] at h
  | some row =>
      cases hload : toDomain row with
      | error e => simp [hfind, hload, Except.map] at h
      | ok loaded =>
          cases hchanged : change loaded with
          | error e => simp [hfind, hload, hchanged, Except.map] at h
          | ok changed =>
              simp only [hfind, hload, hchanged, Except.map,
                StockPlace.saving.injEq] at h
              subst h
              have hrow := (allCents_db.mp hdb).1 row (List.mem_of_find?_eq_some hfind)
              exact hchange _ _ (allCents_toDomain hrow hload) hchanged

/-- What a request is about to save carries prices of the tables and of the
request. -/
theorem allCents_stockExec {input : StockInput} {out : StockOutcome}
    (hdb : AllCents P db.amounts) (hinput : ∀ cents ∈ input.amounts, P cents)
    (hexec : stockExec db .idle input = some out) {item : InventoryItem}
    (hplace : out.place = .saving item) : AllCents P item.amounts := by
  cases input with
  | create sku name description kind unitPriceCents now =>
      cases hexec
      unfold createItem at hplace
      split at hplace
      · cases hplace
      · rename_i unitPrice hprice
        split at hplace
        · cases hplace
        · cases hplace
          rw [allCents_item]
          refine ⟨?_, fun _ hmovement => absurd hmovement List.not_mem_nil⟩
          change P unitPrice.cents
          rw [priceOf_ok hprice]
          exact hinput _ List.mem_cons_self
  | update itemId name description unitPriceCents now =>
      cases hexec
      refine allCents_loadThen hdb (fun item item' hitem h => ?_) hplace
      exact allCents_updateItem hitem
        (fun cents hcents => hinput cents (Option.mem_toList.mpr hcents)) h
  | deactivate itemId workOrderNumbers now =>
      cases hexec
      exact allCents_loadThen hdb
        (fun item item' hitem h => allCents_deactivateItem hitem h) hplace
  | replenish itemId quantity unitPriceCents actorUserId note now =>
      cases hexec
      refine allCents_loadThen hdb (fun item item' hitem h => ?_) hplace
      obtain ⟨unitPrice, hprice, h⟩ := bind_eq_ok_iff.mp h
      refine allCents_replenish hitem ?_ h
      change P unitPrice.cents
      rw [priceOf_ok hprice]
      exact hinput _ List.mem_cons_self
  | adjust itemId quantity actorUserId note now =>
      cases hexec
      exact allCents_loadThen hdb
        (fun item item' hitem h => allCents_adjustDown hitem h) hplace
  | consume command now =>
      cases hexec
      unfold commit at hplace
      split at hplace <;> cases hplace
  | restore command order now =>
      cases hexec
      unfold commit at hplace
      split at hplace <;> cases hplace
  | undo command =>
      simp only [stockExec] at hexec
      split at hexec
      · cases hexec
        cases hplace
      · cases hexec
        cases hplace
  | confirm operationId now =>
      cases hexec
      cases hplace
  | close closure workOrderId actorUserId =>
      cases hexec
      cases hplace
  | proceed now => cases hexec
  | abort =>
      cases hexec
      cases hplace

end Statements

end Inventory

end Workshop
