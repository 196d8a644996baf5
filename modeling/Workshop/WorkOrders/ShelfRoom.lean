/-
Room on the shelf.  What a return or an undo puts back was out, and what is out of an item
is part of what was stocked of it, so it fits the count as long as the stock does.
-/
import Workshop.Inventory.StockedUnits
import Workshop.WorkOrders.ReturnBatches
import Workshop.WorkOrders.ReturnSteps
import Workshop.WorkOrders.SagaShelf

namespace Workshop

namespace WorkOrders

open Inventory

/-- What was returned on a consumption that is not confirmed is covered by it. -/
def UnconfirmedBounded (db : InventoryDb) : Prop :=
  ∀ row ∈ db.movements, row.kind = .consumption → confirmedConsumption row = false →
    db.returnedTotal row.id ≤ row.quantity

/-- What is left of the consumptions of an item whose withdrawals were saved. -/
def savedOut (db : InventoryDb) (log : List SagaEffect) (itemId : ItemId) : Int :=
  sumWhere (fun row => (row.kind = .consumption && decide (row.inventoryItemId = itemId)) &&
    isSaved log row) db.netRemaining db.movements

/-- What is left of those whose withdrawals were not saved. -/
def unsavedOut (db : InventoryDb) (log : List SagaEffect) (itemId : ItemId) : Int :=
  sumWhere (fun row => (row.kind = .consumption && decide (row.inventoryItemId = itemId)) &&
    !isSaved log row) db.netRemaining db.movements

section Moves

variable {db db' : InventoryDb} {place next : SagaPlace} {effects : List SagaEffect}

/-- Rows that keep what they are, and stay confirmed, keep the bounds. -/
theorem UnconfirmedBounded.mapMovements (hbounded : UnconfirmedBounded db)
    {change : MovementRow → MovementRow} (hsame : SameMovement change)
    (hconfirmed : ∀ row, confirmedConsumption row = true →
      confirmedConsumption (change row) = true) {transitions : List TransitionRow} :
    UnconfirmedBounded { db with movements := db.movements.map change, transitions } := by
  intro row hrow hkind hopen
  obtain ⟨before, hbefore, rfl⟩ := List.mem_map.mp hrow
  rw [returnedTotal_eq, hsame.returnedIn, hsame.id, hsame.quantity]
  refine hbounded before hbefore (by rwa [hsame.kind] at hkind) ?_
  rw [← Bool.not_eq_true]
  intro hbeforeConfirmed
  rw [hconfirmed before hbeforeConfirmed] at hopen
  cases hopen

/-- A return draws on confirmed consumptions only, and an undo takes what is left. -/
theorem UnconfirmedBounded.move (hbounded : UnconfirmedBounded db) (hshape : LedgerShape db)
    (hplain : ∀ item, place = .shelf item → PlainItem item)
    (h : StockChange db place next effects db') : UnconfirmedBounded db' := by
  cases h with
  | quiet _ _ nextId hle => exact hbounded
  | save item _ hsave =>
      obtain ⟨row, -, -, -, -, rfl⟩ := save_ok hsave
      intro row hrow hkind hopen
      rw [returnedTotal_eq, returnedIn_append, (hplain item rfl).returnedIn, add_zero]
      rcases List.mem_append.mp hrow with hrow | hrow
      · exact hbounded row hrow hkind hopen
      · obtain ⟨movement, hmovement, rfl⟩ := List.mem_map.mp hrow
        exact absurd hkind (hplain item rfl movement hmovement).noConsumption
  | consume withdrawal now _ hconsume =>
      obtain ⟨posts, hposted, hposts⟩ := consumeStockBatch_ok hshape.items hconsume
      have hconsumed : ∀ row ∈ posts, row.kind = .consumption ∧ 0 < row.quantity := by
        intro row hrow
        obtain ⟨line, -, hline⟩ := exists_left_of_forall₂ hposts hrow
        exact ⟨hline.kind, hline.quantity ▸ hline.positive⟩
      intro row hrow hkind hopen
      rw [hposted.returnedTotal_eq fun post hpost => (hconsumed post hpost).1]
      rcases hposted.mem_movements.mp hrow with hrow | hrow
      · exact hbounded row hrow hkind hopen
      · rw [hshape.returnedTotal_fresh (hposted.mem_ids hrow).1]
        exact (hconsumed row hrow).2.le
  | undo errand named now _ hundo =>
      obtain ⟨posts, hposted, hposts⟩ := undoConsumption_ok hshape.items hundo
      intro row hrow hkind hopen
      have hrow := mem_of_posted_returns hposted
        (fun row hrow => (undo_postable hposts row hrow).1) hrow hkind
      have hbound := hbounded row hrow hkind hopen
      have hleft : db.netRemaining row = row.quantity - db.returnedTotal row.id := rfl
      rw [undoConsumption_returnedTotal hshape hposted hposts hrow hkind]
      split <;> omega
  | confirm step queue operationId now =>
      refine hbounded.mapMovements (sameMovement_confirm operationId now) fun row hrow => ?_
      split
      · simp [confirmedConsumption]
      · exact hrow
  | restore step queue order now _ hkind hrestore =>
      rcases restoreStockBatch_ok hshape.items hrestore with
        ⟨-, rfl⟩ | ⟨-, posts, hposted, hposts, -⟩
      · exact hbounded
      intro row hrow hkind hopen
      have hrow := mem_of_posted_returns hposted
        (fun row hrow => (restoreDraws_postable hposts row hrow).1) hrow hkind
      rw [restoreStockBatch_returnedTotal hshape hposted hposts hrow hkind,
        drawnByAll_eq_zero_of_not_offered, add_zero]
      · exact hbounded row hrow hkind hopen
      · intro offer hoffer hid
        obtain ⟨other, hother, rfl⟩ := mem_offers.mp hoffer
        obtain ⟨hmem, -, hpending, -⟩ := mem_pendingRows.mp hother
        obtain ⟨-, hotherKind, -, hconfirmed⟩ := isOpenConsumption_iff.mp hpending
        obtain rfl := hshape.eq_of_id hmem hotherKind hrow hkind hid
        rw [hopen] at hconfirmed
        cases hconfirmed
  | close step queue closure candidates now =>
      refine hbounded.mapMovements (sameMovement_close closure candidates) fun row hrow => ?_
      split <;> exact hrow

/-- Only a save of an item from its screen changes what was stocked of it. -/
theorem StockChange.stocksFit (hfit : StocksFit db) (hshape : LedgerShape db)
    (hplace : ∀ item, place ≠ .shelf item) (h : StockChange db place next effects db') :
    StocksFit db' := by
  cases h with
  | quiet _ _ nextId hle => exact hfit
  | save item _ hsave => exact absurd rfl (hplace item)
  | consume withdrawal now _ hconsume =>
      obtain ⟨posts, hposted, hposts⟩ := consumeStockBatch_ok hshape.items hconsume
      refine hfit.of_same hposted.itemIds (hposted.stockedUnits fun row hrow => ?_)
      obtain ⟨line, -, hline⟩ := exists_left_of_forall₂ hposts hrow
      rw [hline.kind]
      exact ⟨by decide, by decide⟩
  | undo errand named now _ hundo =>
      obtain ⟨posts, hposted, hposts⟩ := undoConsumption_ok hshape.items hundo
      refine hfit.of_same hposted.itemIds (hposted.stockedUnits fun row hrow => ?_)
      rw [(undo_postable hposts row hrow).1]
      exact ⟨by decide, by decide⟩
  | confirm step queue operationId now =>
      exact hfit.of_same rfl
        ((sameMovement_confirm operationId now).stockedUnits db.transitions)
  | restore step queue order now _ hkind hrestore =>
      rcases restoreStockBatch_ok hshape.items hrestore with
        ⟨-, rfl⟩ | ⟨-, posts, hposted, hposts, -⟩
      · exact hfit
      refine hfit.of_same hposted.itemIds (hposted.stockedUnits fun row hrow => ?_)
      rw [(restoreDraws_postable hposts row hrow).1]
      exact ⟨by decide, by decide⟩
  | close step queue closure candidates now =>
      exact hfit.of_same rfl ((sameMovement_close closure candidates).stockedUnits _)

end Moves

section Runs

variable {settings : OutboxSettings} {config : Config WorkshopDb SagaPlace}
variable {log : List SagaEffect} {workOrderId : WorkOrderId} {itemId : ItemId}

theorem unconfirmedBounded_of_reaches (h : SagaReaches settings config log) :
    UnconfirmedBounded config.store.inventory := by
  refine ReachesBy.invariant
    (P := fun config _ => UnconfirmedBounded config.store.inventory)
    (fun _ hmem => absurd hmem List.not_mem_nil) ?_ h
  intro config log pid input out before hbounded _ hexec
  obtain ⟨hshape, hplain⟩ := sagaLedger_of_reaches before
  exact hbounded.move hshape (hplain pid) (sagaMove_of_exec hexec).stock

/-- What is left of a consumption whose withdrawal was not saved is not negative. -/
theorem netRemaining_nonneg_of_unsaved (h : SagaReaches settings config log)
    {row : MovementRow} (hrow : row ∈ config.store.inventory.movements)
    (hkind : row.kind = .consumption) (hunsaved : isSaved log row = false) :
    0 ≤ config.store.inventory.netRemaining row := by
  obtain ⟨undo, -, -, hoperation, -⟩ :=
    ((rows_of_reaches h).1.consumptions row hrow hkind).origin
  have hopen : confirmedConsumption row = false := by
    by_contra hconfirmed
    rw [Bool.not_eq_false, confirmedConsumption_iff (by rw [hoperation]; nofun)] at hconfirmed
    rw [isSaved_of_confirmed h hrow hkind hconfirmed] at hunsaved
    cases hunsaved
  have hbound := unconfirmedBounded_of_reaches h row hrow hkind hopen
  rw [InventoryDb.netRemaining]
  omega

theorem unsavedOut_nonneg (h : SagaReaches settings config log) :
    0 ≤ unsavedOut config.store.inventory log itemId := by
  refine sumWhere_nonneg fun row hrow htest => ?_
  simp only [Bool.and_eq_true, decide_eq_true_eq, Bool.not_eq_true'] at htest
  exact netRemaining_nonneg_of_unsaved h hrow htest.1.1 htest.2

theorem outUnits_split (db : InventoryDb) (log : List SagaEffect) (itemId : ItemId) :
    db.outUnits itemId = savedOut db log itemId + unsavedOut db log itemId :=
  sumWhere_split _ _ _ _

theorem pendingReturns_nonneg (h : SagaReaches settings config log) :
    0 ≤ pendingReturns config.store.steps log workOrderId itemId := by
  refine sumWhere_nonneg fun row hrow htest => ?_
  simp only [Bool.and_eq_true, decide_eq_true_eq] at htest
  exact unitsOf_nonneg ((balance_of_reaches h).lines row hrow htest.1.2).2

theorem pendingReturns_le_savedRemaining (h : SagaReaches settings config log) :
    pendingReturns config.store.steps log workOrderId itemId ≤
      savedRemaining config.store.inventory log workOrderId itemId := by
  have hcovered := (balance_of_reaches h).covered workOrderId itemId config.store.steps []
    (List.append_nil _).symm
  rw [savedRemaining_eq h]
  omega

theorem savedPart_eq (db : InventoryDb) (log : List SagaEffect) (workOrderId : WorkOrderId)
    (itemId : ItemId) :
    sumWhere (fun row => ((row.kind = .consumption &&
        decide (row.inventoryItemId = itemId)) && isSaved log row) &&
          decide (row.workOrderId = some workOrderId)) db.netRemaining db.movements =
      savedRemaining db log workOrderId itemId := by
  refine sumWhere_congr (fun row _ => ?_) fun _ _ _ => rfl
  by_cases howner : row.workOrderId = some workOrderId <;> simp [isConsumptionOf, howner]

/-- The part of each work order in what is out is not negative. -/
theorem savedPart_nonneg (h : SagaReaches settings config log)
    (owner : Option WorkOrderId) :
    0 ≤ sumWhere (fun row => ((row.kind = .consumption &&
        decide (row.inventoryItemId = itemId)) && isSaved log row) &&
          decide (row.workOrderId = owner))
      config.store.inventory.netRemaining config.store.inventory.movements := by
  cases owner with
  | none =>
      refine (sumWhere_eq_zero fun row hrow htest => ?_).ge
      simp only [Bool.and_eq_true, decide_eq_true_eq] at htest
      have howned := (sagaLedger_of_reaches h).1.owned row hrow htest.1.1.1
      rw [htest.2] at howned
      cases howned
  | some workOrderId =>
      rw [savedPart_eq]
      exact (pendingReturns_nonneg h).trans (pendingReturns_le_savedRemaining h)

theorem savedOut_nonneg (h : SagaReaches settings config log) :
    0 ≤ savedOut config.store.inventory log itemId :=
  sumWhere_nonneg_of_keys (savedPart_nonneg h)

/-- What the returns of one work order ask for is part of what is out. -/
theorem pendingReturns_le_savedOut (h : SagaReaches settings config log) :
    pendingReturns config.store.steps log workOrderId itemId ≤
      savedOut config.store.inventory log itemId := by
  have hpart : savedRemaining config.store.inventory log workOrderId itemId ≤
      savedOut config.store.inventory log itemId := by
    rw [← savedPart_eq]
    exact sumWhere_key_le (savedPart_nonneg h) (some workOrderId)
  exact (pendingReturns_le_savedRemaining h).trans hpart

/-- What is left of an operation that was not saved is part of what is out. -/
theorem leftOf_le_unsavedOut (h : SagaReaches settings config log)
    {operationId : OperationId} (hunsaved : .withdrawn operationId ∉ log) :
    leftOf config.store.inventory operationId itemId ≤
      unsavedOut config.store.inventory log itemId := by
  have hrest : 0 ≤ sumWhere (fun row : MovementRow =>
      ((row.kind = .consumption && decide (row.inventoryItemId = itemId)) &&
        !isSaved log row) && !(decide (row.operationId = some operationId) &&
          decide (0 < config.store.inventory.netRemaining row)))
      config.store.inventory.netRemaining config.store.inventory.movements := by
    refine sumWhere_nonneg fun row hrow htest => ?_
    simp only [Bool.and_eq_true, decide_eq_true_eq, Bool.not_eq_true'] at htest
    exact netRemaining_nonneg_of_unsaved h hrow htest.1.1.1 htest.1.2
  have hmine : leftOf config.store.inventory operationId itemId = sumWhere
      (fun row : MovementRow =>
        ((row.kind = .consumption && decide (row.inventoryItemId = itemId)) &&
          !isSaved log row) && (decide (row.operationId = some operationId) &&
            decide (0 < config.store.inventory.netRemaining row)))
      config.store.inventory.netRemaining config.store.inventory.movements := by
    rw [leftOf, InventoryDb.operationRows, sumWhere_filter]
    refine sumWhere_congr (fun row _ => ?_) fun _ _ _ => rfl
    by_cases hoperation : row.operationId = some operationId
    · have hnot : isSaved log row = false := by
        rw [isSaved, hoperation]
        exact decide_eq_false hunsaved
      rw [Bool.eq_iff_iff]
      simp [hoperation, hnot, and_assoc, and_left_comm]
    · simp [hoperation]
  rw [unsavedOut, sumWhere_split _ fun row => decide (row.operationId = some operationId) &&
    decide (0 < config.store.inventory.netRemaining row), ← hmine]
  omega

/-- The shelf has room for a return that was not applied. -/
theorem room_for_return (h : SagaReaches settings config log)
    (hfit : StocksFit config.store.inventory) {row : StockStepRow}
    (hrow : row ∈ config.store.steps) (hrestore : row.kind = .restore)
    (hwaiting : .applied row.toStockStep ∉ log) :
    ∀ item ∈ config.store.inventory.items,
      item.quantityOnHand + unitsOf item.id row.lineList ≤ maxInteger := by
  intro item hitem
  have hasked : unitsOf item.id row.lineList ≤
      pendingReturns config.store.steps log row.workOrderId item.id := by
    refine le_sumWhere_of_mem (fun other hother htest => ?_) hrow ?_
    · simp only [Bool.and_eq_true, decide_eq_true_eq] at htest
      exact unitsOf_nonneg ((balance_of_reaches h).lines other hother htest.1.2).2
    · simp [hrestore, hwaiting]
  have hsaved : pendingReturns config.store.steps log row.workOrderId item.id ≤
      savedOut config.store.inventory log item.id := pendingReturns_le_savedOut h
  have hunsaved : 0 ≤ unsavedOut config.store.inventory log item.id :=
    unsavedOut_nonneg h
  have hsplit := outUnits_split config.store.inventory log item.id
  exact hfit.room (shelf_of_reaches h).1 (sagaLedger_of_reaches h).1 hitem (by omega)

/-- The shelf has room for an undo. -/
theorem room_for_undo (h : SagaReaches settings config log)
    (hfit : StocksFit config.store.inventory) {pid : Nat} {errand : Errand}
    {named : List ItemId} (hplace : config.places pid = .undoing errand named) :
    ∀ item ∈ config.store.inventory.items, item.quantityOnHand +
      leftOf config.store.inventory errand.step.operationId item.id ≤ maxInteger := by
  intro item hitem
  have hleft : leftOf config.store.inventory errand.step.operationId item.id ≤
      unsavedOut config.store.inventory log item.id :=
    leftOf_le_unsavedOut h (unsaved_of_undoing h hplace)
  have hsaved : 0 ≤ savedOut config.store.inventory log item.id := savedOut_nonneg h
  have hsplit := outUnits_split config.store.inventory log item.id
  exact hfit.room (shelf_of_reaches h).1 (sagaLedger_of_reaches h).1 hitem (by omega)

end Runs

end WorkOrders

end Workshop
