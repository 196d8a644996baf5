/-
The parts of open work orders and the catalog, along the runs of the saga: a
save plans items of the catalog, and an item leaves it that no open work order
uses.
-/
import Workshop.WorkOrders.CatalogChecks

namespace Workshop

namespace WorkOrders

open Inventory

/-- No open work order, as its last save left it, plans an item that left the
catalog. -/
def PartsListed (inventory : InventoryDb) (log : List SagaEffect) : Prop :=
  ∀ workOrderId workOrder, lastSaved workOrderId log = some workOrder →
    workOrder.status.isClosed = false →
      ∀ itemId ∈ workOrder.plannedItems, hasLeft inventory itemId = false

section Catalogs

variable {inventory inventory' : InventoryDb} {log effects : List SagaEffect}

theorem hasLeft_congr {itemId : ItemId}
    (h : inventory'.catalogOf itemId = inventory.catalogOf itemId) :
    hasLeft inventory' itemId = hasLeft inventory itemId := by
  rw [hasLeft, hasLeft, h]

theorem SameState.plannedItems_iff {left right : WorkOrder} (h : SameState left right)
    {itemId : ItemId} : itemId ∈ left.plannedItems ↔ itemId ∈ right.plannedItems :=
  (h.parts.map WorkOrderPartItem.inventoryItemId).mem_iff

/-- A statement that saves no work order and keeps the catalog. -/
theorem PartsListed.quiet (h : PartsListed inventory log)
    (hcatalog : ∀ itemId, inventory'.catalogOf itemId = inventory.catalogOf itemId)
    (hsaved : ∀ edit, .saved edit ∉ effects)
    (hcreated : ∀ workOrder, .created workOrder ∉ effects) :
    PartsListed inventory' (log ++ effects) := by
  intro workOrderId workOrder hlast hopen itemId hitem
  rw [lastSaved_append_quiet hsaved hcreated] at hlast
  rw [hasLeft_congr (hcatalog itemId)]
  exact h workOrderId workOrder hlast hopen itemId hitem

/-- A new work order plans items of the catalog. -/
theorem PartsListed.created {workOrder : WorkOrder} (h : PartsListed inventory log)
    (hlisted : ∀ itemId ∈ workOrder.plannedItems, hasLeft inventory itemId = false) :
    PartsListed inventory (log ++ [.created workOrder]) := by
  intro workOrderId last hlast hopen itemId hitem
  rw [lastSaved_append, List.foldl_cons, List.foldl_nil, SagaEffect.leaves] at hlast
  split at hlast
  · cases hlast
    exact hlisted itemId hitem
  · exact h workOrderId last hlast hopen itemId hitem

/-- An edit of an open work order plans items that were planned, or items of
the catalog. -/
theorem PartsListed.saved {edit : Edit} {state : WorkOrder}
    (h : PartsListed inventory log)
    (hlast : lastSaved edit.changed.id log = some state)
    (hsame : SameState edit.loaded state)
    (hopen : edit.loaded.status.isClosed = false)
    (hlisted : ∀ itemId ∈ edit.newItems, hasLeft inventory itemId = false) :
    PartsListed inventory (log ++ [.saved edit]) := by
  intro workOrderId last hleft hclosed itemId hitem
  rw [lastSaved_append, List.foldl_cons, List.foldl_nil, SagaEffect.leaves] at hleft
  split at hleft
  · cases hleft
    by_cases hplanned : itemId ∈ edit.loaded.plannedItems
    · rw [hsame.status] at hopen
      exact h _ state hlast hopen itemId (hsame.plannedItems_iff.mp hplanned)
    · exact hlisted itemId (List.mem_filter.mpr ⟨hitem, decide_eq_true hplanned⟩)
  · exact h workOrderId last hleft hclosed itemId hitem

/-- A copy of an item is saved that stays in the catalog, or that no open work
order plans. -/
theorem PartsListed.shelved {item : InventoryItem} (h : PartsListed inventory log)
    (hsave : inventory.save item = .ok inventory')
    (hunused : item.status = .inactive → hasLeft inventory item.id = false →
      ∀ workOrderId workOrder, lastSaved workOrderId log = some workOrder →
        workOrder.status.isClosed = false → item.id ∉ workOrder.plannedItems) :
    PartsListed inventory' log := by
  intro workOrderId workOrder hlast hopen itemId hitem
  have hbefore := h workOrderId workOrder hlast hopen itemId hitem
  by_cases hself : item.id = itemId
  · subst hself
    rw [hasLeft, catalogOf_save hsave, if_pos rfl, Option.any_some]
    refine decide_eq_false fun hinactive => ?_
    exact hunused hinactive hbefore workOrderId workOrder hlast hopen hitem
  · rw [hasLeft, catalogOf_save hsave, if_neg hself]
    exact hbefore

end Catalogs

section Tables

variable {tables : WorkOrderTables} {workOrder : WorkOrder} {workOrderId : WorkOrderId}

/-- The planned items of a state are those of its part rows. -/
theorem plannedItems_of_stateOf (h : tables.stateOf workOrderId = some workOrder)
    {itemId : ItemId} : itemId ∈ workOrder.plannedItems ↔
      ∃ part ∈ tables.parts, part.workOrderId = workOrderId ∧
        part.inventoryItemId = itemId := by
  obtain ⟨row, -, -, rfl⟩ := WorkOrderTables.stateOf_eq_some_iff.mp h
  simp only [WorkOrder.plannedItems, toDomain, List.map_map, List.mem_map, rowsOf,
    List.mem_filter, decide_eq_true_eq, Function.comp, PartRow.toDomain, and_assoc]

/-- No open work order uses an item when none is listed. -/
theorem not_planned_of_unused {itemId : ItemId}
    (hunused : openWorkOrderNumbersUsing tables itemId = [])
    (h : tables.stateOf workOrderId = some workOrder)
    (hopen : workOrder.status.isClosed = false) : itemId ∉ workOrder.plannedItems := by
  intro hitem
  obtain ⟨part, hpart, howner, hused⟩ := (plannedItems_of_stateOf h).mp hitem
  obtain ⟨row, hrow, hid, rfl⟩ := WorkOrderTables.stateOf_eq_some_iff.mp h
  have hlisted : row.number ∈ openWorkOrderNumbersUsing tables itemId := by
    rw [openWorkOrderNumbersUsing, List.mem_insertionSort, List.mem_map]
    refine ⟨row, List.mem_filter.mpr ⟨hrow, ?_⟩, rfl⟩
    have hstatus : row.status.isClosed = false := hopen
    rw [hstatus, Bool.not_false, Bool.true_and, List.any_eq_true]
    exact ⟨part, hpart, by simp [howner, hid, hused]⟩
  rw [hunused] at hlisted
  exact absurd hlisted List.not_mem_nil

end Tables

section Runs

variable {settings : OutboxSettings} {config : Config WorkshopDb SagaPlace}
variable {log : List SagaEffect}

/-- A part of an open work order names an item that has not left the catalog. -/
theorem PartsListed.of_rows (hlisted : PartsListed config.store.inventory log)
    (h : SagaReaches settings config log) {row : WorkOrderRow} {part : PartRow}
    (hrow : row ∈ config.store.tables.workOrders) (hopen : row.status.isClosed = false)
    (hpart : part ∈ config.store.tables.parts) (howner : part.workOrderId = row.id) :
    hasLeft config.store.inventory part.inventoryItemId = false := by
  have hstate := WorkOrderTables.stateOf_eq_some_iff.mpr ⟨row, hrow, rfl, rfl⟩
  obtain ⟨last, hlast, hsame⟩ :=
    exists_right_of_rel ((serial_of_reaches h).1.last row.id) hstate
  have hplanned : part.inventoryItemId ∈ last.plannedItems :=
    hsame.plannedItems_iff.mp
      ((plannedItems_of_stateOf hstate).mpr ⟨part, hpart, howner, rfl⟩)
  have hclosed : last.status.isClosed = false := by
    rw [← hsame.status]
    exact hopen
  exact hlisted row.id last hlast hclosed _ hplanned

/-- No open work order uses an item that left the catalog. -/
theorem PartsListed.unused (hlisted : PartsListed config.store.inventory log)
    (h : SagaReaches settings config log) {itemId : ItemId}
    (hleft : hasLeft config.store.inventory itemId = true) :
    openWorkOrderNumbersUsing config.store.tables itemId = [] := by
  refine List.eq_nil_iff_forall_not_mem.mpr fun number hnumber => ?_
  rw [openWorkOrderNumbersUsing, List.mem_insertionSort] at hnumber
  obtain ⟨row, hrow, -⟩ := List.mem_map.mp hnumber
  obtain ⟨hmem, huses⟩ := List.mem_filter.mp hrow
  obtain ⟨hopen, hany⟩ := Bool.and_eq_true_iff.mp huses
  obtain ⟨part, hpart, hnames⟩ := List.any_eq_true.mp hany
  simp only [Bool.and_eq_true, decide_eq_true_eq] at hnames
  obtain ⟨howner, hitem⟩ := hnames
  have hstays := hlisted.of_rows h hmem (by simpa using hopen) hpart howner
  rw [hitem, hleft] at hstays
  cases hstays

/-- A statement keeps the parts of open work orders in the catalog when the items
it plans are in it and no open work order uses the item it takes out. -/
theorem PartsListed.step (h : SagaReaches settings config log)
    (hlisted : PartsListed config.store.inventory log) {pid : Nat}
    {input : SagaInput} {out : SagaOutcome}
    (hchecked : ∀ surroundings, input = .proceed surroundings →
      (∀ itemId ∈ (config.places pid).plans,
        hasLeft config.store.inventory itemId = false) ∧
      ∀ itemId ∈ (config.places pid).takesOut,
        openWorkOrderNumbersUsing config.store.tables itemId = [])
    (hexec : sagaExec settings config.store (config.places pid) input = some out) :
    PartsListed out.store.inventory (log ++ out.effects) := by
  have hnodup := (sagaLedger_of_reaches h).1.items
  have hmade := (made_of_reaches h).2 pid
  have hsaves : ∀ {edit later}, out.effects = .saved edit :: later →
      ∃ state, lastSaved edit.changed.id log = some state ∧
        SameState edit.loaded state := lastSaved_of_saves h hexec
  have hmove := sagaMove_of_exec hexec
  clear hexec
  revert hmade hchecked hmove
  generalize config.places pid = place
  intro hchecked hmade hmove
  cases hmove with
  | create surroundings workOrder tables hsave =>
      exact hlisted.created (hchecked surroundings rfl).1
  | save surroundings edit tables hsave =>
      obtain ⟨state, hlast, hsame⟩ := hsaves rfl
      exact hlisted.saved hlast hsame hmade.1.open_before (hchecked surroundings rfl).1
  | saveStep surroundings edit step tables steps hsave hinsert =>
      obtain ⟨state, hlast, hsame⟩ := hsaves rfl
      exact hlisted.saved hlast hsame hmade.1.open_before (hchecked surroundings rfl).1
  | commit surroundings withdrawal tables steps harmed hsave hinsert =>
      obtain ⟨state, hlast, hsame⟩ := hsaves rfl
      have hopen : withdrawal.edit.loaded.status.isClosed = false := by
        rw [hmade.1.inExecution]
        rfl
      have hsaved := hlisted.saved hlast hsame hopen (hchecked surroundings rfl).1
      have hquiet : PartsListed config.store.inventory
          (log ++ [.saved withdrawal.edit] ++
            [.withdrawn withdrawal.undo.operationId]) :=
        hsaved.quiet (fun _ => rfl) (by simp) (by simp)
      rwa [List.append_assoc] at hquiet
  | shelfSave surroundings item inventory hsave =>
      rw [stay, List.append_nil]
      refine hlisted.shelved hsave fun hinactive _ workOrderId workOrder hlast hopen => ?_
      obtain ⟨state, hstate, hsame⟩ :=
        exists_left_of_rel ((serial_of_reaches h).1.last workOrderId) hlast
      have hunused : openWorkOrderNumbersUsing config.store.tables item.id = [] :=
        (hchecked surroundings rfl).2 item.id (by simp [SagaPlace.takesOut, hinactive])
      rw [← hsame.plannedItems_iff]
      exact not_planned_of_unused hunused hstate (by rwa [hsame.status])
  | consume surroundings withdrawal inventory hconsume =>
      exact hlisted.quiet (consumeStockBatch_catalog hnodup hconsume) (by simp)
        (by simp)
  | undo surroundings errand named inventory hundo =>
      exact hlisted.quiet (undoConsumption_catalog hnodup hundo) (by simp [stay])
        (by simp [stay])
  | restore surroundings step queue inventory hkind hrestore =>
      exact hlisted.quiet (restoreStockBatch_catalog hnodup hrestore) (by simp)
        (by simp)
  | findNothing surroundings errand hplace hnone =>
      cases errand <;> exact hlisted.quiet (fun _ => rfl)
        (by simp [Errand.nothingFound]) (by simp [Errand.nothingFound])
  | claim surroundings operationIds =>
      exact hlisted.quiet (fun _ => rfl) (by simp [claimDue]) (by simp [claimDue])
  | _ => exact hlisted.quiet (fun _ => rfl) (by simp [stay]) (by simp [stay])

end Runs

end WorkOrders

end Workshop
