/-
The shortage report: what the work orders in execution may still take off the shelf,
read straight off their tables, against what the shelf holds.
-/
import Mathlib.Data.List.Dedup
import Workshop.WorkOrders.LoadAndSave
import Workshop.WorkOrders.StockSaga

namespace Workshop

namespace WorkOrders

open Inventory

/-- A part that the joins of `SELECT_OUTSTANDING_DEMAND` keep, with the number of its
work order. -/
structure DemandLine where
  inventoryItemId : ItemId
  outstanding : Int
  workOrderNumber : String
deriving DecidableEq, Repr

structure OutstandingDemandRow where
  inventoryItemId : ItemId
  outstanding : Int
  workOrderNumbers : List String
deriving DecidableEq, Repr

structure StockShortageDto where
  inventoryItemId : ItemId
  sku : String
  name : String
  quantityOnHand : Int
  outstandingQuantity : Int
  workOrderNumbers : List String
deriving DecidableEq, Repr

namespace WorkOrderRows

/-- The joins on a work order in execution and on an approved budget, and the parts
that are not withdrawn in full. -/
def demandLines (rows : WorkOrderRows) : List DemandLine :=
  (rows.parts.filter fun part =>
      part.withdrawnQuantity < part.plannedQuantity.units).flatMap fun part =>
    (rows.workOrders.filter fun row =>
        row.id = part.workOrderId ∧ row.status = .inExecution).flatMap fun row =>
      (rows.budgets.filter fun budget =>
          some budget.id = part.budgetId ∧ budget.status = .approved).map fun _ =>
        { inventoryItemId := part.inventoryItemId
          outstanding := part.plannedQuantity.units - part.withdrawnQuantity
          workOrderNumber := row.number }

/-- What the group of an item adds up to. -/
def outstandingOf (rows : WorkOrderRows) (itemId : ItemId) : Int :=
  sumWhere (fun line => decide (line.inventoryItemId = itemId)) DemandLine.outstanding
    rows.demandLines

/-- `outstandingDemand`: one row for each item, with the different numbers of its work
orders. -/
def outstandingDemand (rows : WorkOrderRows) (order : RowOrder OutstandingDemandRow)
    (numbers : RowOrder String) : List OutstandingDemandRow :=
  order.arrange ((rows.demandLines.map DemandLine.inventoryItemId).dedup.map fun itemId =>
    { inventoryItemId := itemId
      outstanding := rows.outstandingOf itemId
      workOrderNumbers := numbers.arrange ((rows.demandLines.filter fun line =>
        line.inventoryItemId = itemId).map DemandLine.workOrderNumber).dedup })

end WorkOrderRows

/-- The item a demand is short of, when the work orders need more than the shelf
holds. -/
def shortageOf (items : List ItemRow) (row : OutstandingDemandRow) :
    Option StockShortageDto :=
  match items.reverse.find? fun item => item.id = row.inventoryItemId with
  | none => none
  | some item =>
      if item.quantityOnHand < row.outstanding then
        some {
          inventoryItemId := item.id
          sku := item.sku
          name := item.name
          quantityOnHand := item.quantityOnHand
          outstandingQuantity := row.outstanding
          workOrderNumbers := row.workOrderNumbers }
      else none

/-- `listStockShortages` -/
def listStockShortages (db : WorkshopDb) (order : RowOrder OutstandingDemandRow)
    (numbers : RowOrder String) : List StockShortageDto :=
  let demand := db.tables.outstandingDemand order numbers
  if demand.isEmpty then []
  else
    let items := db.inventory.items.filter fun item =>
      item.id ∈ demand.map OutstandingDemandRow.inventoryItemId
    demand.filterMap (shortageOf items)

section Report

variable {rows : WorkOrderRows} {db : WorkshopDb} {itemId : ItemId}
variable (order : RowOrder OutstandingDemandRow) (numbers : RowOrder String)

theorem nodup_outstandingDemand :
    ((rows.outstandingDemand order numbers).map
      OutstandingDemandRow.inventoryItemId).Nodup := by
  rw [WorkOrderRows.outstandingDemand, ((order.perm _).map _).nodup_iff, List.map_map]
  exact (List.map_id _).symm ▸ List.nodup_dedup _

theorem mem_outstandingDemand {row : OutstandingDemandRow}
    (h : row ∈ rows.outstandingDemand order numbers) :
    row.outstanding = rows.outstandingOf row.inventoryItemId := by
  rw [WorkOrderRows.outstandingDemand, (order.perm _).mem_iff] at h
  obtain ⟨itemId, -, rfl⟩ := List.mem_map.mp h
  rfl

/-- An item that something is outstanding of has a row. -/
theorem exists_outstandingDemand (h : 0 < rows.outstandingOf itemId) :
    ∃ row ∈ rows.outstandingDemand order numbers, row.inventoryItemId = itemId := by
  have hmem : itemId ∈ rows.demandLines.map DemandLine.inventoryItemId := by
    by_contra hnone
    have hzero : rows.outstandingOf itemId = 0 := sumWhere_eq_zero fun line hline htest =>
      absurd (of_decide_eq_true htest ▸ List.mem_map_of_mem hline) hnone
    omega
  rw [WorkOrderRows.outstandingDemand]
  refine ⟨_, (order.perm _).mem_iff.mpr (List.mem_map_of_mem (List.mem_dedup.mpr hmem)), rfl⟩

theorem shortageOf_eq_some {items : List ItemRow} {row : OutstandingDemandRow}
    {shortage : StockShortageDto} (h : shortageOf items row = some shortage) :
    shortage.inventoryItemId = row.inventoryItemId ∧
      ∃ item ∈ items, item.id = row.inventoryItemId ∧
        item.quantityOnHand < row.outstanding := by
  unfold shortageOf at h
  split at h
  · cases h
  · rename_i item hfind
    split at h
    · rename_i hshort
      obtain rfl := Option.some.inj h
      have hid : item.id = row.inventoryItemId := by simpa using List.find?_some hfind
      exact ⟨hid, item, List.mem_reverse.mp (List.mem_of_find?_eq_some hfind), hid, hshort⟩
    · cases h

theorem exists_shortageOf {items : List ItemRow} {row : OutstandingDemandRow}
    (hids : (items.map ItemRow.id).Nodup) {item : ItemRow} (hitem : item ∈ items)
    (hid : item.id = row.inventoryItemId) (hless : item.quantityOnHand < row.outstanding) :
    ∃ shortage, shortageOf items row = some shortage := by
  have hfind : (items.reverse.find? fun other => other.id = row.inventoryItemId) =
      some item := (find?_reverse_eq_some_iff hids).mpr ⟨hitem, hid⟩
  rw [shortageOf, hfind]
  dsimp only
  rw [if_pos hless]
  exact ⟨_, rfl⟩

/-- No item is listed twice. -/
theorem nodup_listStockShortages :
    ((listStockShortages db order numbers).map
      StockShortageDto.inventoryItemId).Nodup := by
  rw [listStockShortages]
  dsimp only
  split
  · exact List.nodup_nil
  · have hkeys : ((db.tables.outstandingDemand order numbers).map
        OutstandingDemandRow.inventoryItemId).Nodup := nodup_outstandingDemand order numbers
    refine hkeys.sublist ?_
    generalize db.tables.outstandingDemand order numbers = demand
    generalize (db.inventory.items.filter _) = items
    induction demand with
    | nil => exact List.Sublist.refl _
    | cons row demand ih =>
        rw [List.filterMap_cons, List.map_cons]
        cases hrow : shortageOf items row with
        | none => exact ih.cons _
        | some shortage =>
            rw [List.map_cons, (shortageOf_eq_some hrow).1]
            exact ih.cons_cons _

/-- An item is listed when more of it is outstanding than the shelf holds. -/
theorem mem_listStockShortages (hids : db.inventory.itemIds.Nodup)
    (hcounts : ∀ item ∈ db.inventory.items, 0 ≤ item.quantityOnHand) :
    itemId ∈ (listStockShortages db order numbers).map
        StockShortageDto.inventoryItemId ↔
      ∃ item ∈ db.inventory.items, item.id = itemId ∧
        item.quantityOnHand < db.tables.outstandingOf itemId := by
  constructor
  · intro hmem
    obtain ⟨shortage, hshortage, rfl⟩ := List.mem_map.mp hmem
    rw [listStockShortages] at hshortage
    dsimp only at hshortage
    split at hshortage
    · exact absurd hshortage List.not_mem_nil
    · obtain ⟨row, hrow, hshort⟩ := List.mem_filterMap.mp hshortage
      obtain ⟨hid, item, hitem, hsame, hless⟩ := shortageOf_eq_some hshort
      rw [mem_outstandingDemand order numbers hrow] at hless
      rw [hid]
      exact ⟨item, List.mem_of_mem_filter hitem, hsame, hless⟩
  · rintro ⟨item, hitem, rfl, hless⟩
    have hcount := hcounts item hitem
    obtain ⟨row, hrow, hid⟩ := exists_outstandingDemand order numbers (hcount.trans_lt hless)
    have hfiltered : item ∈ db.inventory.items.filter fun other =>
        other.id ∈ (db.tables.outstandingDemand order numbers).map
          OutstandingDemandRow.inventoryItemId := by
      refine List.mem_filter.mpr ⟨hitem, decide_eq_true ?_⟩
      rw [← hid]
      exact List.mem_map_of_mem hrow
    rw [← hid, ← mem_outstandingDemand order numbers hrow] at hless
    obtain ⟨shortage, hshort⟩ := exists_shortageOf
      (hids.sublist (List.filter_sublist.map _)) hfiltered hid.symm hless
    rw [listStockShortages]
    dsimp only
    rw [if_neg (by
      rw [List.isEmpty_iff]
      exact List.ne_nil_of_mem hrow)]
    rw [← hid, ← (shortageOf_eq_some hshort).1]
    exact List.mem_map_of_mem (List.mem_filterMap.mpr ⟨row, hrow, hshort⟩)

end Report

end WorkOrders

end Workshop
