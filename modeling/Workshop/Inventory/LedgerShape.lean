/-
The shape of the ledger every operation keeps: consumptions have ids of their
own, and every return points at a consumption.
-/
import Workshop.Inventory.BatchResults

namespace Workshop

namespace Inventory

/-- The consumptions among some rows. -/
def consumptionsOf (rows : List MovementRow) : List MovementRow :=
  rows.filter fun row => row.kind = .consumption

/-- The units the returns among some rows give back on one movement. -/
def returnedIn (movementId : MovementId) (rows : List MovementRow) : Int :=
  sumWhere (fun row => row.kind = .returned &&
    decide (row.undoesMovementId = some movementId))
    (fun row => row.quantity) rows

/-- A return points at a consumption of its own item and work order. -/
def PointsInto (rows : List MovementRow) (row : MovementRow) : Prop :=
  ∃ target ∈ rows, target.kind = .consumption ∧
    row.undoesMovementId = some target.id ∧
    row.inventoryItemId = target.inventoryItemId ∧
    row.workOrderId = target.workOrderId

structure LedgerShape (db : InventoryDb) : Prop where
  items : db.itemIds.Nodup
  ids : ((consumptionsOf db.movements).map fun row => row.id).Nodup
  fresh : ∀ row ∈ db.movements, row.kind = .consumption → row.id < db.nextId
  points : ∀ row ∈ db.movements, row.kind = .returned → PointsInto db.movements row
  owned : ∀ row ∈ db.movements, row.kind = .consumption → row.workOrderId.isSome
  positive : ∀ row ∈ db.movements,
    row.kind = .consumption ∨ row.kind = .returned → 0 < row.quantity

/-- The units of every consumption cover what was returned on it. -/
def ReturnsBounded (db : InventoryDb) : Prop :=
  ∀ row ∈ db.movements, row.kind = .consumption →
    db.returnedTotal row.id ≤ row.quantity

section Rows

variable {rows more : List MovementRow} {row : MovementRow}

@[simp] theorem mem_consumptionsOf :
    row ∈ consumptionsOf rows ↔ row ∈ rows ∧ row.kind = .consumption := by
  simp [consumptionsOf]

@[simp] theorem consumptionsOf_append (rows more : List MovementRow) :
    consumptionsOf (rows ++ more) = consumptionsOf rows ++ consumptionsOf more := by
  simp [consumptionsOf]

@[simp] theorem returnedIn_append (movementId : MovementId)
    (rows more : List MovementRow) :
    returnedIn movementId (rows ++ more) =
      returnedIn movementId rows + returnedIn movementId more := by
  simp [returnedIn]

theorem returnedTotal_eq (db : InventoryDb) (movementId : MovementId) :
    db.returnedTotal movementId = returnedIn movementId db.movements := rfl

theorem PointsInto.mono (hsubset : ∀ target ∈ rows, target ∈ more)
    (h : PointsInto rows row) : PointsInto more row := by
  obtain ⟨target, hmem, htarget⟩ := h
  exact ⟨target, hsubset target hmem, htarget⟩

/-- Two consumptions with one id are one. -/
theorem LedgerShape.eq_of_id {db : InventoryDb} (hshape : LedgerShape db)
    {other : MovementRow} (hrow : row ∈ db.movements)
    (hkind : row.kind = .consumption) (hother : other ∈ db.movements)
    (hkind' : other.kind = .consumption) (hid : row.id = other.id) :
    row = other :=
  List.inj_on_of_nodup_map hshape.ids (mem_consumptionsOf.mpr ⟨hrow, hkind⟩)
    (mem_consumptionsOf.mpr ⟨hother, hkind'⟩) hid

/-- Nothing was returned yet on an id that is still to be drawn. -/
theorem LedgerShape.returnedTotal_fresh {db : InventoryDb}
    (hshape : LedgerShape db) {movementId : MovementId}
    (hfresh : db.nextId ≤ movementId) : db.returnedTotal movementId = 0 := by
  refine sumWhere_eq_zero fun row hrow htest => ?_
  obtain ⟨hkind, hundoes⟩ : row.kind = .returned ∧
      row.undoesMovementId = some movementId := by simpa using htest
  obtain ⟨target, htarget, hconsumption, hpoints, -⟩ := hshape.points row hrow hkind
  rw [hundoes, Option.some.injEq] at hpoints
  exact absurd (hshape.fresh target htarget hconsumption)
    (not_lt.mpr (hpoints ▸ hfresh))

end Rows

/-- A row an operation may post: a consumption of something for a work order,
or a return of something on a consumption that stands in the ledger. -/
def Postable (db : InventoryDb) (row : MovementRow) : Prop :=
  0 < row.quantity ∧
    (row.kind = .consumption ∧ row.workOrderId.isSome ∨
      row.kind = .returned ∧ PointsInto db.movements row)

section Posting

variable {db db' : InventoryDb} {posts : List MovementRow}

theorem Posted.mem_movements (h : Posted db db' posts) {row : MovementRow} :
    row ∈ db'.movements ↔ row ∈ db.movements ∨ row ∈ posts := by
  obtain ⟨rows, hperm, hmovements⟩ := h.movements
  rw [hmovements, List.mem_append, hperm.mem_iff]

theorem Posted.returnedTotal (h : Posted db db' posts) (movementId : MovementId) :
    db'.returnedTotal movementId =
      db.returnedTotal movementId + returnedIn movementId posts := by
  obtain ⟨rows, hperm, hmovements⟩ := h.movements
  rw [returnedTotal_eq, returnedTotal_eq, hmovements, returnedIn_append]
  exact congrArg (_ + ·) (sumWhere_perm hperm)

theorem Posted.mem_ids (h : Posted db db' posts) {row : MovementRow}
    (hrow : row ∈ posts) : db.nextId ≤ row.id ∧ row.id < db'.nextId := by
  have hmem : row.id ∈ posts.map fun row => row.id := List.mem_map_of_mem hrow
  rw [h.ids, List.mem_range'_1] at hmem
  rw [h.nextId]
  exact hmem

theorem Posted.nodup_ids (h : Posted db db' posts) :
    (posts.map fun row => row.id).Nodup := by
  rw [h.ids]
  exact List.nodup_range'

theorem LedgerShape.posted (hshape : LedgerShape db) (h : Posted db db' posts)
    (hposts : ∀ row ∈ posts, Postable db row) : LedgerShape db' := by
  refine ⟨by rw [h.itemIds]; exact hshape.items, ?_, ?_, ?_, ?_, ?_⟩
  · obtain ⟨rows, hperm, hmovements⟩ := h.movements
    rw [hmovements, consumptionsOf_append, List.map_append]
    refine hshape.ids.append ?_ ?_
    · have hnodup := (hperm.map fun row => row.id).nodup_iff.mpr h.nodup_ids
      exact hnodup.sublist ((List.filter_sublist).map _)
    · intro id hold hnew
      obtain ⟨old, hmem, rfl⟩ := List.mem_map.mp hold
      obtain ⟨new, hnew, heq⟩ := List.mem_map.mp hnew
      obtain ⟨hmem, hkind⟩ := mem_consumptionsOf.mp hmem
      have hhigh := (h.mem_ids (hperm.mem_iff.mp (mem_consumptionsOf.mp hnew).1)).1
      rw [heq] at hhigh
      exact absurd (hshape.fresh old hmem hkind) (not_lt.mpr hhigh)
  · intro row hrow hkind
    rcases h.mem_movements.mp hrow with hrow | hrow
    · rw [h.nextId]
      exact (hshape.fresh row hrow hkind).trans_le (Nat.le_add_right _ _)
    · exact (h.mem_ids hrow).2
  · intro row hrow hkind
    refine PointsInto.mono (fun target ht => h.mem_movements.mpr (Or.inl ht)) ?_
    rcases h.mem_movements.mp hrow with hrow | hrow
    · exact hshape.points row hrow hkind
    · rcases (hposts row hrow).2 with ⟨hcons, -⟩ | ⟨-, hpoints⟩
      · rw [hkind] at hcons
        cases hcons
      · exact hpoints
  · intro row hrow hkind
    rcases h.mem_movements.mp hrow with hrow | hrow
    · exact hshape.owned row hrow hkind
    · rcases (hposts row hrow).2 with ⟨-, howned⟩ | ⟨hreturned, -⟩
      · exact howned
      · rw [hkind] at hreturned
        cases hreturned
  · intro row hrow hkind
    rcases h.mem_movements.mp hrow with hrow | hrow
    · exact hshape.positive row hrow hkind
    · exact (hposts row hrow).1

theorem LedgerShape.withNextId (hshape : LedgerShape db) {nextId : Uuid}
    (hle : db.nextId ≤ nextId) : LedgerShape { db with nextId } :=
  ⟨hshape.items, hshape.ids,
    fun row hrow hkind => (hshape.fresh row hrow hkind).trans_le hle,
    hshape.points, hshape.owned, hshape.positive⟩

/-- A movement that is no consumption and no return.  It has no status. -/
structure StockMovement.Plain (movement : StockMovement) : Prop where
  noConsumption : movement.kind ≠ .consumption
  noReturn : movement.kind ≠ .returned
  noStatus : movement.status = none

/-- The movements of a copy that no batch made are plain. -/
def PlainItem (item : InventoryItem) : Prop :=
  ∀ movement ∈ item.movements, movement.Plain

theorem PlainItem.consumptionsOf {item : InventoryItem} (h : PlainItem item) :
    consumptionsOf (item.movements.map (toMovementRow item.id)) = [] := by
  rw [Inventory.consumptionsOf, List.filter_eq_nil_iff]
  intro row hrow hkind
  obtain ⟨movement, hmovement, rfl⟩ := List.mem_map.mp hrow
  exact (h movement hmovement).noConsumption (of_decide_eq_true hkind)

theorem PlainItem.returnedIn {item : InventoryItem} (h : PlainItem item)
    (movementId : MovementId) :
    returnedIn movementId (item.movements.map (toMovementRow item.id)) = 0 := by
  refine sumWhere_eq_zero fun row hrow htest => ?_
  obtain ⟨movement, hmovement, rfl⟩ := List.mem_map.mp hrow
  have hkind : (toMovementRow item.id movement).kind = .returned := by
    simp only [Bool.and_eq_true, decide_eq_true_eq] at htest
    exact htest.1
  exact absurd hkind (h movement hmovement).noReturn

theorem LedgerShape.save (hshape : LedgerShape db) {item : InventoryItem}
    (hplain : PlainItem item) (hsave : db.save item = .ok db') :
    LedgerShape db' := by
  have hitems : db'.itemIds.Nodup := by
    rcases save_itemIds_cases hsave with ⟨-, hids⟩ | ⟨hnew, hids⟩
    · rw [hids]
      exact hshape.items
    · rw [hids]
      exact hshape.items.append (List.nodup_singleton _)
        (List.disjoint_singleton.mpr hnew)
  obtain ⟨row, -, -, -, -, rfl⟩ := save_ok hsave
  refine ⟨hitems, ?_, ?_, ?_, ?_, ?_⟩
  · rw [consumptionsOf_append, hplain.consumptionsOf, List.append_nil]
    exact hshape.ids
  · intro row hrow hkind
    rcases List.mem_append.mp hrow with hrow | hrow
    · exact hshape.fresh row hrow hkind
    · obtain ⟨movement, hmovement, rfl⟩ := List.mem_map.mp hrow
      exact absurd hkind (hplain movement hmovement).noConsumption
  · intro row hrow hkind
    rcases List.mem_append.mp hrow with hrow | hrow
    · exact (hshape.points row hrow hkind).mono
        fun target ht => List.mem_append_left _ ht
    · obtain ⟨movement, hmovement, rfl⟩ := List.mem_map.mp hrow
      exact absurd hkind (hplain movement hmovement).noReturn
  · intro row hrow hkind
    rcases List.mem_append.mp hrow with hrow | hrow
    · exact hshape.owned row hrow hkind
    · obtain ⟨movement, hmovement, rfl⟩ := List.mem_map.mp hrow
      exact absurd hkind (hplain movement hmovement).noConsumption
  · intro row hrow hkind
    rcases List.mem_append.mp hrow with hrow | hrow
    · exact hshape.positive row hrow hkind
    · obtain ⟨movement, hmovement, rfl⟩ := List.mem_map.mp hrow
      rcases hkind with hkind | hkind
      · exact absurd hkind (hplain movement hmovement).noConsumption
      · exact absurd hkind (hplain movement hmovement).noReturn

/-- What a confirmation and a closure keep of every row. -/
structure SameMovement (change : MovementRow → MovementRow) : Prop where
  id : ∀ row, (change row).id = row.id
  kind : ∀ row, (change row).kind = row.kind
  quantity : ∀ row, (change row).quantity = row.quantity
  undoesMovementId : ∀ row, (change row).undoesMovementId = row.undoesMovementId
  inventoryItemId : ∀ row, (change row).inventoryItemId = row.inventoryItemId
  workOrderId : ∀ row, (change row).workOrderId = row.workOrderId
  operationId : ∀ row, (change row).operationId = row.operationId

variable {change : MovementRow → MovementRow}

theorem SameMovement.consumptionsOf (hsame : SameMovement change)
    (rows : List MovementRow) :
    consumptionsOf (rows.map change) = (consumptionsOf rows).map change := by
  rw [Inventory.consumptionsOf, List.filter_map]
  congr 1
  exact List.filter_congr fun row _ => by simp [hsame.kind]

theorem SameMovement.returnedIn (hsame : SameMovement change)
    (movementId : MovementId) (rows : List MovementRow) :
    returnedIn movementId (rows.map change) = returnedIn movementId rows := by
  rw [Inventory.returnedIn, sumWhere_map]
  refine sumWhere_congr (fun row _ => ?_) fun row _ _ => hsame.quantity row
  simp [hsame.kind, hsame.undoesMovementId]

theorem LedgerShape.mapMovements (hshape : LedgerShape db)
    (hsame : SameMovement change) {transitions : List TransitionRow} :
    LedgerShape { db with movements := db.movements.map change, transitions } := by
  refine ⟨hshape.items, ?_, ?_, ?_, ?_, ?_⟩
  · rw [hsame.consumptionsOf, List.map_map]
    have hids : ((fun row : MovementRow => row.id) ∘ change) = fun row => row.id :=
      funext hsame.id
    rw [hids]
    exact hshape.ids
  · intro row hrow hkind
    obtain ⟨before, hbefore, rfl⟩ := List.mem_map.mp hrow
    rw [hsame.id]
    exact hshape.fresh before hbefore (by rwa [hsame.kind] at hkind)
  · intro row hrow hkind
    obtain ⟨before, hbefore, rfl⟩ := List.mem_map.mp hrow
    obtain ⟨target, htarget, hcons, hpoints, hitem, hwork⟩ :=
      hshape.points before hbefore (by rwa [hsame.kind] at hkind)
    refine ⟨change target, List.mem_map_of_mem htarget, ?_, ?_, ?_, ?_⟩
    · rwa [hsame.kind]
    · rwa [hsame.undoesMovementId, hsame.id]
    · rwa [hsame.inventoryItemId, hsame.inventoryItemId]
    · rwa [hsame.workOrderId, hsame.workOrderId]
  · intro row hrow hkind
    obtain ⟨before, hbefore, rfl⟩ := List.mem_map.mp hrow
    rw [hsame.workOrderId]
    exact hshape.owned before hbefore (by rwa [hsame.kind] at hkind)
  · intro row hrow hkind
    obtain ⟨before, hbefore, rfl⟩ := List.mem_map.mp hrow
    rw [hsame.quantity]
    exact hshape.positive before hbefore (by rwa [hsame.kind] at hkind)

end Posting

end Inventory

end Workshop
