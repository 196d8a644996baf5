/-
A return step that inventory has not applied can be applied: the confirmed
pending consumptions of its work order cover its lines.
-/
import Workshop.WorkOrders.TwoLedgers

namespace Workshop

namespace WorkOrders

open Inventory

/-- The units a return of an item for a work order can draw on. -/
def pendingUnits (db : InventoryDb) (itemId : ItemId)
    (workOrderId : WorkOrderId) : Int :=
  sumWhere (fun _ => true) db.netRemaining (db.pendingRows itemId workOrderId)

theorem drawnTotal_offers (db : InventoryDb) (order : RowOrder MovementRow)
    (itemId : ItemId) (workOrderId : WorkOrderId) :
    drawnTotal (db.offers order itemId workOrderId) =
      pendingUnits db itemId workOrderId := by
  rw [drawnTotal, sumWhere_perm (offers_perm db order itemId workOrderId),
    sumWhere_map]
  rfl

theorem confirmedConsumption_iff {row : MovementRow}
    (hoperation : row.operationId ≠ none) :
    confirmedConsumption row = true ↔ row.confirmedAt.isSome := by
  simp [confirmedConsumption, hoperation]

/-- While no confirmed consumption was closed, all that is left of them can be
drawn on. -/
theorem confirmedRemaining_le {db : InventoryDb} {workOrderId : WorkOrderId}
    {itemId : ItemId}
    (hoperation : ∀ row ∈ db.movements, row.kind = .consumption →
      row.operationId ≠ none)
    (hopen : ∀ row ∈ db.movements, isConsumptionOf workOrderId itemId row = true →
      row.confirmedAt.isSome → row.status = some .pending) :
    confirmedRemaining db workOrderId itemId ≤ pendingUnits db itemId workOrderId := by
  have hsplit := sumWhere_split
    (fun row => isConsumptionOf workOrderId itemId row && row.confirmedAt.isSome)
    (fun row => decide (0 < db.netRemaining row)) db.netRemaining db.movements
  have hspent : sumWhere (fun row => (isConsumptionOf workOrderId itemId row &&
      row.confirmedAt.isSome) && !decide (0 < db.netRemaining row))
      db.netRemaining db.movements ≤ 0 := by
    refine (sumWhere_le (g := fun _ => 0) fun row _ htest => ?_).trans
      (sumWhere_eq_zero fun _ _ _ => rfl).le
    simp only [Bool.and_eq_true, Bool.not_eq_true', decide_eq_false_iff_not] at htest
    exact not_lt.mp htest.2
  have hpending : pendingUnits db itemId workOrderId =
      sumWhere (fun row => (isConsumptionOf workOrderId itemId row &&
        row.confirmedAt.isSome) && decide (0 < db.netRemaining row))
        db.netRemaining db.movements := by
    rw [pendingUnits, InventoryDb.pendingRows, sumWhere_filter]
    refine sumWhere_congr (fun row hrow => ?_) fun _ _ _ => rfl
    rw [Bool.eq_iff_iff]
    simp only [Bool.true_and, Bool.and_eq_true, decide_eq_true_eq,
      isOpenConsumption_iff, isConsumptionOf]
    constructor
    · rintro ⟨⟨hitem, howner, hkind, -, hconfirmed⟩, hleft⟩
      rw [confirmedConsumption_iff (hoperation row hrow hkind)] at hconfirmed
      exact ⟨⟨⟨⟨hkind, howner⟩, hitem⟩, hconfirmed⟩, hleft⟩
    · rintro ⟨⟨⟨⟨hkind, howner⟩, hitem⟩, hconfirmed⟩, hleft⟩
      have hstatus := hopen row hrow (by simp [isConsumptionOf, *]) hconfirmed
      rw [← confirmedConsumption_iff (hoperation row hrow hkind)] at hconfirmed
      exact ⟨⟨hitem, howner, hkind, hstatus, hconfirmed⟩, hleft⟩
  rw [confirmedRemaining, hsplit, hpending]
  omega

section Runs

variable {settings : OutboxSettings} {config : Config WorkshopDb SagaPlace}
variable {log : List SagaEffect} {row : StockStepRow}
variable {older newer : List StockStepRow}

/-- What was claimed but not applied is not done, so nothing newer of its work
order was applied. -/
theorem newer_not_applied (h : SagaReaches settings config log)
    (hsplit : config.store.steps = older ++ row :: newer)
    (hkind : row.kind ≠ .undoConsumption)
    (hwaiting : .applied row.toStockStep ∉ log) {new : StockStepRow}
    (hnew : new ∈ newer) (howner : new.workOrderId = row.workOrderId) :
    .applied new.toStockStep ∉ log := by
  intro happlied
  have horder := (order_of_reaches h).1
  obtain ⟨hnewKind, -, hclaimed⟩ := horder.applied _ happlied
  obtain ⟨front, back, hmiddle⟩ := List.append_of_mem hnew
  have hsplit' : config.store.steps = (older ++ row :: front) ++ new :: back := by
    rw [hsplit, hmiddle]
    simp
  have hdone := horder.claimed _ _ _ hsplit' hnewKind hclaimed row (by simp)
    howner.symm hkind
  exact hwaiting (horder.done row (by simp [hsplit]) hkind hdone)

/-- When a step is claimed and not applied, the steps of its work order that
were applied are the older ones. -/
theorem confirmedRemaining_eq_balance (h : SagaReaches settings config log)
    (hsplit : config.store.steps = older ++ row :: newer)
    (hkind : row.kind ≠ .undoConsumption)
    (hclaimed : .claimed row.operationId ∈ log)
    (hwaiting : .applied row.toStockStep ∉ log) (itemId : ItemId) :
    confirmedRemaining config.store.inventory row.workOrderId itemId =
      balance config.store.inventory.movements row.workOrderId itemId older := by
  have hnewer : sumWhere (fun other : StockStepRow =>
      other.workOrderId = row.workOrderId &&
        decide (.applied other.toStockStep ∈ log))
      (fun other => other.toStockStep.adds config.store.inventory.movements itemId)
      newer = 0 := by
    refine sumWhere_eq_zero fun new hnew htest => ?_
    simp only [Bool.and_eq_true, decide_eq_true_eq] at htest
    exact absurd htest.2 (newer_not_applied h hsplit hkind hwaiting hnew htest.1)
  rw [confirmedRemaining_eq h, hsplit, sumWhere_append, sumWhere_cons, hnewer,
    if_neg (by simp [hwaiting]), balance, add_zero, add_zero,
    sumWhere_split (fun other : StockStepRow => other.workOrderId = row.workOrderId)
      (fun other => decide (.applied other.toStockStep ∈ log))]
  -- An undo adds nothing, whether it was applied or not.
  have hundos : sumWhere (fun other : StockStepRow =>
      decide (other.workOrderId = row.workOrderId) &&
        !decide (.applied other.toStockStep ∈ log))
      (fun other => other.toStockStep.adds config.store.inventory.movements itemId)
      older = 0 := by
    refine sumWhere_eq_zero fun old hold htest => ?_
    simp only [Bool.and_eq_true, Bool.not_eq_true', decide_eq_true_eq,
      decide_eq_false_iff_not] at htest
    by_cases hundo : old.kind = .undoConsumption
    · simp [StockStep.adds, hundo]
    · exact absurd (older_applied h hsplit hkind hclaimed hold htest.1 hundo) htest.2
  rw [hundos, add_zero]

/-- While a step is claimed and not applied, no consumption of its work order
was closed. -/
theorem pending_of_waiting (h : SagaReaches settings config log)
    (hsplit : config.store.steps = older ++ row :: newer)
    (hkind : row.kind ≠ .undoConsumption) (hclosing : closureOf row.kind = none)
    (hwaiting : .applied row.toStockStep ∉ log) {movement : MovementRow}
    (hmovement : movement ∈ config.store.inventory.movements)
    (hconsumption : movement.kind = .consumption)
    (howner : movement.workOrderId = some row.workOrderId) :
    movement.status = some .pending := by
  have hsound := (rows_of_reaches h).1.consumptions movement hmovement hconsumption
  obtain ⟨status, hstatus⟩ := Option.ne_none_iff_exists'.mp hsound.status
  by_contra hclosed
  obtain ⟨step, closure, happlied, hclosure, -, hof⟩ :=
    hsound.closed status hstatus (fun hpending => hclosed (hpending ▸ hstatus))
  obtain ⟨-, ⟨closer, hcloser, rfl⟩, -⟩ := (order_of_reaches h).1.applied step happlied
  have hsame : closer.workOrderId = row.workOrderId :=
    Option.some.inj (hof.symm.trans howner)
  rw [hsplit, List.mem_append, List.mem_cons] at hcloser
  rcases hcloser with holder | rfl | hnewer
  · have hlast := (balance_of_reaches h).last older row newer hsplit hkind closer
      holder hsame
    revert hlast hclosure
    cases closer.kind <;> nofun
  · exact absurd happlied hwaiting
  · exact newer_not_applied h hsplit hkind hwaiting hnewer hsame happlied

/-- A return step that was claimed and not applied finds the units it asks for,
so an applier that stands at a return never finds it uncovered. -/
theorem returns_coverable (h : SagaReaches settings config log) :
    (∀ row ∈ config.store.steps, row.kind = .restore →
      .claimed row.operationId ∈ log → .applied row.toStockStep ∉ log →
      ∀ itemId, unitsOf itemId row.lineList ≤
        pendingUnits config.store.inventory itemId row.workOrderId) ∧
    ∀ pid step queue, config.places pid = .applying step queue →
      step.kind = .restore → ∀ order now error,
      config.store.inventory.restoreStockBatch order step.toStockStep.restoreCommand
        now = .error error → error.uncovered = false := by
  have hcovered : ∀ row ∈ config.store.steps, row.kind = .restore →
      .claimed row.operationId ∈ log → .applied row.toStockStep ∉ log →
      ∀ itemId, unitsOf itemId row.lineList ≤
        pendingUnits config.store.inventory itemId row.workOrderId := by
    intro row hrow hrestore hclaimed hwaiting itemId
    obtain ⟨older, newer, hsplit⟩ := List.append_of_mem hrow
    have hkind : row.kind ≠ .undoConsumption := by simp [hrestore]
    have hleft := confirmedRemaining_eq_balance h hsplit hkind hclaimed hwaiting itemId
    have hpending : confirmedRemaining config.store.inventory row.workOrderId itemId ≤
        pendingUnits config.store.inventory itemId row.workOrderId := by
      refine confirmedRemaining_le (fun movement hmovement hconsumption => ?_)
        fun movement hmovement htest _ => ?_
      · obtain ⟨undo, -, -, hoperation, -⟩ :=
          ((rows_of_reaches h).1.consumptions movement hmovement hconsumption).origin
        simp [hoperation]
      simp only [isConsumptionOf, Bool.and_eq_true, decide_eq_true_eq] at htest
      exact pending_of_waiting h hsplit hkind (by simp [hrestore, closureOf]) hwaiting
        hmovement htest.1.1 htest.1.2
    have hnonneg := (balance_of_reaches h).covered row.workOrderId itemId
      (older ++ [row]) newer (by simp [hsplit])
    have hadds : row.toStockStep.adds config.store.inventory.movements itemId =
        -unitsOf itemId row.lineList := by
      simp [StockStep.adds, hrestore]
    have hlast : balance config.store.inventory.movements row.workOrderId itemId
        [row] = -unitsOf itemId row.lineList := by
      simp [balance, sumWhere_cons, hadds]
    rw [balance_append, hlast] at hnonneg
    omega
  refine ⟨hcovered, fun pid step queue hplace hrestore order now error herror => ?_⟩
  by_contra huncovered
  obtain ⟨hnew, line, hline, hless⟩ :=
    restoreStockBatch_uncovered error herror (by simpa using huncovered)
  have hworks := (outbox_of_reaches h).2 pid
  rw [hplace] at hworks
  obtain ⟨row, hrow, hstep⟩ := hworks.held step.toStockStep List.mem_cons_self
  have hclaimed := hworks.claimed step.toStockStep List.mem_cons_self
  rw [← hstep] at hclaimed
  have hwaiting : .applied row.toStockStep ∉ log := by
    rw [hstep]
    intro happlied
    have hreturned := (applied_of_reaches h).hasReturn h happlied hrestore
    exact Bool.false_ne_true (hnew.symm.trans (hasReturnOfOperation_iff.mpr hreturned))
  have hasked := hcovered row hrow (by rw [hstep]; exact hrestore) hclaimed hwaiting
    line.inventoryItemId
  have hpositive := ((balance_of_reaches h).lines row hrow
    (by rw [hstep]; exact hrestore)).2
  have hline : line ∈ row.lineList := by
    rw [hstep]
    exact hline
  have hmine : line.quantity ≤ unitsOf line.inventoryItemId row.lineList :=
    le_sumWhere_of_mem (fun other hother _ => (hpositive other hother).le) hline
      (by simp)
  rw [drawnTotal_allocate offers_positive (hpositive line hline).le,
    drawnTotal_offers] at hless
  have howner : step.toStockStep.restoreCommand.workOrderId = row.workOrderId := by
    rw [hstep]
    rfl
  rw [howner] at hless
  omega

end Runs

namespace SagaWitness

/-- The return step is claimed, and its applier stands at it. -/
def handedOut : Config WorkshopDb SagaPlace × List SagaEffect :=
  endOfRun (sagaExec settings) emptyWorkshop
    (inExecution [part] ++ withdrawing 0 10 ++ proceed 0 5 11 ++
      (0, .request "OS-1" (.returnParts two)) :: proceed 0 5 12)
    (by decide +kernel)

theorem reaches_handedOut : SagaReaches settings handedOut.1 handedOut.2 :=
  reaches_endOfRun _

theorem returns_coverable_handedOut :
    (∃ row ∈ handedOut.1.store.steps, row.kind = .restore ∧
      .claimed row.operationId ∈ handedOut.2 ∧
      .applied row.toStockStep ∉ handedOut.2) ∧
    (∀ row ∈ handedOut.1.store.steps, row.kind = .restore →
      .claimed row.operationId ∈ handedOut.2 →
      .applied row.toStockStep ∉ handedOut.2 →
      ∀ itemId, unitsOf itemId row.lineList ≤
        pendingUnits handedOut.1.store.inventory itemId row.workOrderId) ∧
    ∀ pid step queue, handedOut.1.places pid = .applying step queue →
      step.kind = .restore → ∀ order now error,
      handedOut.1.store.inventory.restoreStockBatch order
        step.toStockStep.restoreCommand now = .error error →
        error.uncovered = false :=
  ⟨by decide +kernel, returns_coverable reaches_handedOut⟩

end SagaWitness

end WorkOrders

end Workshop
