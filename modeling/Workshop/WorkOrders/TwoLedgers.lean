/-
The two ledgers of the stock saga: the units a work order counts as withdrawn
and the units inventory counts as taken for it, kept in step by the outbox.
-/
import Workshop.WorkOrders.AppliedSteps

namespace Workshop

namespace WorkOrders

open Inventory

/-- The withdrawal a row was posted for was saved. -/
def isSaved (log : List SagaEffect) (row : MovementRow) : Bool :=
  match row.operationId with
  | some operationId => decide (.withdrawn operationId ∈ log)
  | none => false

/-- A consumption of an item for a work order. -/
def isConsumptionOf (workOrderId : WorkOrderId) (itemId : ItemId)
    (row : MovementRow) : Bool :=
  row.kind = .consumption && row.workOrderId = some workOrderId &&
    row.inventoryItemId = itemId

/-- What is left of the consumptions of an item for a work order whose
withdrawals were saved. -/
def savedRemaining (db : InventoryDb) (log : List SagaEffect)
    (workOrderId : WorkOrderId) (itemId : ItemId) : Int :=
  sumWhere (fun row => isConsumptionOf workOrderId itemId row && isSaved log row)
    db.netRemaining db.movements

/-- The units of an item that the returns of a work order ask for and inventory
has not committed. -/
def pendingReturns (steps : List StockStepRow) (log : List SagaEffect)
    (workOrderId : WorkOrderId) (itemId : ItemId) : Int :=
  sumWhere (fun row => row.workOrderId = workOrderId && row.kind = .restore &&
      decide (.applied row.toStockStep ∉ log))
    (fun row => unitsOf itemId row.lineList) steps

section Runs

variable {settings : OutboxSettings} {config : Config WorkshopDb SagaPlace}
variable {log : List SagaEffect} {workOrderId : WorkOrderId} {itemId : ItemId}

/-- A confirmation belongs to the work order of the consumptions that carry its
operation id. -/
theorem confirmation_owner (h : SagaReaches settings config log)
    {confirmation : StockStepRow} (hrow : confirmation ∈ config.store.steps)
    (hkind : confirmation.kind = .confirmConsumption) {operationId : OperationId}
    (hcarries : confirmation.consumptionOperationId = some operationId)
    {row : MovementRow} (hmem : row ∈ config.store.inventory.movements)
    (hconsumption : row.kind = .consumption)
    (hoperation : row.operationId = some operationId) :
    row.workOrderId = some confirmation.workOrderId := by
  obtain ⟨hsound, -⟩ := withdrawals_of_reaches h
  obtain ⟨carried, hcarried, hwithdrawn⟩ := hsound.confirmed confirmation hrow hkind
  rw [hcarries, Option.some.injEq] at hcarried
  subst hcarried
  obtain ⟨undo, hundo, other, hother, hid, -, -, hotherKind, hotherCarries, howner⟩ :=
    (hsound.withdrawn operationId hwithdrawn).rows
  have hsame : other = confirmation := by
    refine List.inj_on_of_nodup_map hsound.once ?_ ?_
      (hotherCarries.trans hcarries.symm)
    · exact List.mem_filter.mpr ⟨hother, decide_eq_true hotherKind⟩
    · exact List.mem_filter.mpr ⟨hrow, decide_eq_true hkind⟩
  obtain ⟨origin, horigin, -, hsameId, horiginOwner, -⟩ :=
    ((rows_of_reaches h).1.consumptions row hmem hconsumption).origin
  have horiginSame : origin = undo :=
    eq_of_operationId (outbox_of_reaches h).1.ids horigin hundo
      ((Option.some.inj (hsameId.symm.trans hoperation)).trans hid.symm)
  rw [horiginOwner, horiginSame, ← howner, hsame]

/-- A consumption whose withdrawal was saved has the confirmation that carries
its operation id. -/
theorem confirmation_of_saved (h : SagaReaches settings config log)
    {operationId : OperationId} (hwithdrawn : .withdrawn operationId ∈ log) :
    ∃ confirmation ∈ config.store.steps,
      confirmation.kind = .confirmConsumption ∧
        confirmation.consumptionOperationId = some operationId := by
  obtain ⟨-, -, confirmation, hrow, -, -, -, hkind, hcarries, -⟩ :=
    ((withdrawals_of_reaches h).1.withdrawn operationId hwithdrawn).rows
  exact ⟨confirmation, hrow, hkind, hcarries⟩

theorem isSaved_iff {row : MovementRow} :
    isSaved log row = true ↔
      ∃ operationId, row.operationId = some operationId ∧
        .withdrawn operationId ∈ log := by
  unfold isSaved
  cases row.operationId <;> simp

/-- A confirmed consumption is one whose withdrawal was saved. -/
theorem isSaved_of_confirmed (h : SagaReaches settings config log)
    {row : MovementRow} (hmem : row ∈ config.store.inventory.movements)
    (hconsumption : row.kind = .consumption) (hconfirmed : row.confirmedAt.isSome) :
    isSaved log row = true := by
  obtain ⟨step, happlied, hkind, hcarries⟩ :=
    ((rows_of_reaches h).1.consumptions row hmem hconsumption).confirmed hconfirmed
  obtain ⟨-, ⟨confirmation, hrow, rfl⟩, -⟩ :=
    (order_of_reaches h).1.applied step happlied
  obtain ⟨operationId, hcarried, hwithdrawn⟩ :=
    (withdrawals_of_reaches h).1.confirmed confirmation hrow hkind
  exact isSaved_iff.mpr ⟨operationId, hcarries.symm.trans hcarried, hwithdrawn⟩

/-- What some consumptions of a work order took is what the confirmations that
carry them add. -/
theorem taken_of_confirmations (h : SagaReaches settings config log)
    {chosen : MovementRow → Bool} {carries : StockStepRow → Bool}
    (hchosen : ∀ row ∈ config.store.inventory.movements, row.kind = .consumption →
      (chosen row = true ↔ ∃ confirmation ∈ config.store.steps,
        confirmation.kind = .confirmConsumption ∧
        confirmation.consumptionOperationId = row.operationId ∧
        carries confirmation = true)) :
    sumWhere (fun row => isConsumptionOf workOrderId itemId row && chosen row)
        (fun row => row.quantity) config.store.inventory.movements =
      sumWhere (fun row => row.workOrderId = workOrderId &&
          row.kind = .confirmConsumption && carries row)
        (fun row => row.toStockStep.adds config.store.inventory.movements itemId)
        config.store.steps := by
  have hcover : ∀ row ∈ config.store.inventory.movements,
      (isConsumptionOf workOrderId itemId row && chosen row) = true →
        ∃ confirmation ∈ config.store.steps.filter fun row : StockStepRow =>
            row.kind = .confirmConsumption,
          (decide (confirmation.workOrderId = workOrderId) &&
            carries confirmation) = true ∧
          some row.operationId = some confirmation.consumptionOperationId := by
    intro row hmem htest
    simp only [isConsumptionOf, Bool.and_eq_true, decide_eq_true_eq] at htest
    obtain ⟨⟨⟨hconsumption, howner⟩, -⟩, hrowChosen⟩ := htest
    obtain ⟨confirmation, hrow, hkind, hcarries, hcarrying⟩ :=
      (hchosen row hmem hconsumption).mp hrowChosen
    refine ⟨confirmation, List.mem_filter.mpr ⟨hrow, decide_eq_true hkind⟩, ?_,
      congrArg some hcarries.symm⟩
    obtain ⟨operationId, hcarried, -⟩ :=
      (withdrawals_of_reaches h).1.confirmed confirmation hrow hkind
    have hsame := confirmation_owner h hrow hkind hcarried hmem hconsumption
      (hcarries.symm.trans hcarried)
    rw [howner, Option.some.injEq] at hsame
    simp [hsame, hcarrying]
  rw [← sumWhere_fibers (withdrawals_of_reaches h).1.once hcover, sumWhere_filter]
  refine sumWhere_congr (fun row _ => by
    simp only [Bool.and_assoc, Bool.and_comm (carries row)]) ?_
  intro confirmation hrow htest
  simp only [Bool.and_eq_true, decide_eq_true_eq] at htest
  obtain ⟨⟨howner, hcarrying⟩, hkind⟩ := htest
  obtain ⟨operationId, hcarries, -⟩ :=
    (withdrawals_of_reaches h).1.confirmed confirmation hrow hkind
  simp only [StockStep.adds, hkind, hcarries]
  refine sumWhere_congr (fun row hmem => ?_) fun _ _ _ => rfl
  by_cases hconsumption : row.kind = .consumption
  · by_cases hoperation : row.operationId = some operationId
    · have hsame := confirmation_owner h hrow hkind hcarries hmem hconsumption
        hoperation
      have hrowChosen : chosen row = true := (hchosen row hmem hconsumption).mpr
        ⟨confirmation, hrow, hkind, hcarries.trans hoperation.symm, hcarrying⟩
      simp [isConsumptionOf, hconsumption, hoperation, hsame, howner, hrowChosen]
    · simp [hoperation]
  · simp [isConsumptionOf, hconsumption]

/-- A return on a consumption whose withdrawal was saved was posted by a
restore of its work order, which was applied. -/
theorem restore_of_return (h : SagaReaches settings config log)
    {row target : MovementRow} (hrow : row ∈ config.store.inventory.movements)
    (hreturned : row.kind = .returned)
    (htarget : target ∈ config.store.inventory.movements)
    (hconsumption : target.kind = .consumption)
    (hundoes : row.undoesMovementId = some target.id)
    (hsaved : isSaved log target = true) :
    ∃ step ∈ config.store.steps, step.kind = .restore ∧
      row.operationId = some step.operationId ∧ .applied step.toStockStep ∈ log ∧
      target.workOrderId = some step.workOrderId ∧
      target.inventoryItemId = row.inventoryItemId := by
  have hshape := (sagaLedger_of_reaches h).1
  have hsame : ∀ other ∈ config.store.inventory.movements,
      other.kind = .consumption → row.undoesMovementId = some other.id →
        other = target := by
    intro other hother hkind hpoints
    exact hshape.eq_of_id hother hkind htarget hconsumption
      (Option.some.inj (hpoints.symm.trans hundoes))
  cases (rows_of_reaches h).1.returns row hrow hreturned with
  | undone undo other _ _ hoperation hother hkind hpoints htagged =>
      obtain rfl := hsame other hother hkind hpoints
      obtain ⟨operationId, hid, hwithdrawn⟩ := isSaved_iff.mp hsaved
      exact absurd ⟨row, hrow, hreturned, htagged.symm.trans hid⟩
        ((returns_of_reaches h).1 operationId hwithdrawn)
  | restored step other hstep hkind hoperation happlied hother hotherKind hpoints _
      howner hitem =>
      obtain rfl := hsame other hother hotherKind hpoints
      exact ⟨step, hstep, hkind, hoperation, happlied, howner, hitem⟩

/-- A return that carries the operation id of a restore of a work order. -/
def restoredFor (steps : List StockStepRow) (workOrderId : WorkOrderId)
    (itemId : ItemId) (row : MovementRow) : Bool :=
  row.kind = .returned && row.inventoryItemId = itemId &&
    steps.any fun step => step.workOrderId = workOrderId && step.kind = .restore &&
      row.operationId = some step.operationId

theorem restoredFor_iff {steps : List StockStepRow} {row : MovementRow} :
    restoredFor steps workOrderId itemId row = true ↔
      row.kind = .returned ∧ row.inventoryItemId = itemId ∧
        ∃ step ∈ steps, step.workOrderId = workOrderId ∧ step.kind = .restore ∧
          row.operationId = some step.operationId := by
  simp [restoredFor, and_assoc]

/-- The returns of the restores of a work order add up to what the restores
that were applied ask for. -/
theorem sum_restoredFor (h : SagaReaches settings config log) :
    sumWhere (restoredFor config.store.steps workOrderId itemId)
        (fun row => row.quantity) config.store.inventory.movements =
      sumWhere (fun row => row.workOrderId = workOrderId && row.kind = .restore &&
          decide (.applied row.toStockStep ∈ log))
        (fun row => unitsOf itemId row.lineList) config.store.steps := by
  have hcover : ∀ row ∈ config.store.inventory.movements,
      restoredFor config.store.steps workOrderId itemId row = true →
        ∃ step ∈ config.store.steps,
          (decide (step.workOrderId = workOrderId) && step.kind = .restore) = true ∧
            row.operationId = some step.operationId := by
    intro row _ htest
    obtain ⟨-, -, step, hstep, howner, hkind, hoperation⟩ := restoredFor_iff.mp htest
    exact ⟨step, hstep, by simp [howner, hkind], hoperation⟩
  have hgiven : ∀ step ∈ config.store.steps,
      (decide (step.workOrderId = workOrderId) && step.kind = .restore) = true →
        sumWhere (fun row => restoredFor config.store.steps workOrderId itemId row &&
            decide (row.operationId = some step.operationId))
          (fun row => row.quantity) config.store.inventory.movements =
        givenBack config.store.inventory.movements step.operationId itemId := by
    intro step hstep htest
    simp only [Bool.and_eq_true, decide_eq_true_eq] at htest
    refine sumWhere_congr (fun row _ => ?_) fun _ _ _ => rfl
    by_cases hoperation : row.operationId = some step.operationId
    · have hany : (config.store.steps.any fun other =>
          other.workOrderId = workOrderId && other.kind = .restore &&
            decide (row.operationId = some other.operationId)) = true :=
        List.any_eq_true.mpr ⟨step, hstep, by simp [htest.1, htest.2, hoperation]⟩
      rw [restoredFor, hany]
      simp [hoperation]
    · simp [hoperation]
  rw [← sumWhere_fibers (outbox_of_reaches h).1.ids hcover,
    sumWhere_congr (fun _ _ => rfl) hgiven,
    sumWhere_split _ fun step : StockStepRow => decide (.applied step.toStockStep ∈ log)]
  have hnone : sumWhere (fun step : StockStepRow =>
        (decide (step.workOrderId = workOrderId) && step.kind = .restore) &&
          !decide (.applied step.toStockStep ∈ log))
      (fun step => givenBack config.store.inventory.movements step.operationId itemId)
      config.store.steps = 0 := by
    refine sumWhere_eq_zero fun step hstep htest => ?_
    simp only [Bool.and_eq_true, decide_eq_true_eq, Bool.not_eq_true',
      decide_eq_false_iff_not] at htest
    exact givenBack_eq_zero (fun hreturn => htest.2 (applied_of_hasReturn h
      ⟨step, hstep, rfl⟩ (by rw [htest.1.2]; nofun) hreturn)) itemId
  rw [hnone, add_zero]
  refine sumWhere_congr (fun _ _ => rfl) fun step _ htest => ?_
  simp only [Bool.and_eq_true, decide_eq_true_eq] at htest
  exact (applied_of_reaches h).restored step.toStockStep htest.2 htest.1.2 itemId

/-- What was returned on some confirmed consumptions of a work order is what
its restores that were applied gave back. -/
theorem returned_of_restores (h : SagaReaches settings config log)
    {chosen : MovementRow → Bool}
    (hconfirmed : ∀ row ∈ config.store.inventory.movements,
      row.kind = .consumption → row.confirmedAt.isSome → chosen row = true)
    (hsaved : ∀ row ∈ config.store.inventory.movements, row.kind = .consumption →
      chosen row = true → isSaved log row = true) :
    sumWhere (fun row => isConsumptionOf workOrderId itemId row && chosen row)
        (fun row => config.store.inventory.returnedTotal row.id)
        config.store.inventory.movements =
      sumWhere (fun row => row.workOrderId = workOrderId && row.kind = .restore &&
          decide (.applied row.toStockStep ∈ log))
        (fun row => unitsOf itemId row.lineList) config.store.steps := by
  have hshape := (sagaLedger_of_reaches h).1
  have hcover : ∀ row ∈ config.store.inventory.movements,
      restoredFor config.store.steps workOrderId itemId row = true →
        ∃ target ∈ consumptionsOf config.store.inventory.movements,
          (isConsumptionOf workOrderId itemId target && chosen target) = true ∧
            row.undoesMovementId = some target.id := by
    intro row hrow htest
    obtain ⟨hreturned, hitem, step, hstep, howner, hkind, hoperation⟩ :=
      restoredFor_iff.mp htest
    cases (rows_of_reaches h).1.returns row hrow hreturned with
    | undone undo _ hundo hundoKind hsame =>
        have heq := eq_of_operationId (outbox_of_reaches h).1.ids hundo hstep
          (Option.some.inj (hsame.symm.trans hoperation))
        rw [heq, hkind] at hundoKind
        cases hundoKind
    | restored other target hother _ hsame _ htarget hconsumption hundoes hsome
        htargetOwner htargetItem =>
        have heq := eq_of_operationId (outbox_of_reaches h).1.ids hother hstep
          (Option.some.inj (hsame.symm.trans hoperation))
        refine ⟨target, mem_consumptionsOf.mpr ⟨htarget, hconsumption⟩, ?_, hundoes⟩
        simp [isConsumptionOf, hconsumption, htargetOwner, heq, howner, htargetItem,
          hitem, hconfirmed target htarget hconsumption hsome]
  rw [← sum_restoredFor h, ← sumWhere_fibers hshape.ids hcover, consumptionsOf,
    sumWhere_filter]
  refine sumWhere_congr (fun row _ => ?_) fun target htarget htest => ?_
  · cases hkind : decide (row.kind = .consumption) <;> simp [isConsumptionOf, hkind]
  · simp only [isConsumptionOf, Bool.and_eq_true, decide_eq_true_eq] at htest
    obtain ⟨⟨⟨hconsumption, howner⟩, hitem⟩, hchosen⟩ := htest
    refine sumWhere_congr (fun row hrow => ?_) fun _ _ _ => rfl
    by_cases hundoes : row.kind = .returned ∧ row.undoesMovementId = some target.id
    · obtain ⟨step, hstep, hkind, hoperation, -, hstepOwner, hstepItem⟩ :=
        restore_of_return h hrow hundoes.1 htarget hconsumption hundoes.2
          (hsaved target htarget hconsumption hchosen)
      have hrestored := restoredFor_iff.mpr ⟨hundoes.1, hstepItem.symm.trans hitem,
        step, hstep, Option.some.inj (hstepOwner.symm.trans howner), hkind, hoperation⟩
      simp [hundoes.1, hundoes.2, hrestored]
    · rw [not_and_or] at hundoes
      rcases hundoes with hkind | hundoes
      · simp [restoredFor, hkind]
      · simp [hundoes]

/-- What some steps add, their confirmations and their returns apart. -/
theorem sum_adds (movements : List MovementRow) (workOrderId : WorkOrderId)
    (itemId : ItemId) (chosen : StockStepRow → Bool) (steps : List StockStepRow) :
    sumWhere (fun row => row.workOrderId = workOrderId && chosen row)
        (fun row => row.toStockStep.adds movements itemId) steps =
      sumWhere (fun row => row.workOrderId = workOrderId &&
          row.kind = .confirmConsumption && chosen row)
        (fun row => row.toStockStep.adds movements itemId) steps -
      sumWhere (fun row => row.workOrderId = workOrderId && row.kind = .restore &&
          chosen row)
        (fun row => unitsOf itemId row.lineList) steps := by
  induction steps with
  | nil => rfl
  | cons row rows ih =>
      simp only [sumWhere_cons, ih]
      by_cases howner : row.workOrderId = workOrderId
      · cases hchosen : chosen row
        · simp [howner]
        · cases hkind : row.kind <;> simp [howner, hkind, StockStep.adds] <;> omega
      · simp [howner]

/-- What is left of some confirmed consumptions of a work order is what the
steps that stand for them add. -/
theorem sum_netRemaining (h : SagaReaches settings config log)
    (workOrderId : WorkOrderId) (itemId : ItemId) {chosen : MovementRow → Bool}
    {carries : StockStepRow → Bool}
    (hconfirmed : ∀ row ∈ config.store.inventory.movements,
      row.kind = .consumption → row.confirmedAt.isSome → chosen row = true)
    (hsaved : ∀ row ∈ config.store.inventory.movements, row.kind = .consumption →
      chosen row = true → isSaved log row = true)
    (hchosen : ∀ row ∈ config.store.inventory.movements, row.kind = .consumption →
      (chosen row = true ↔ ∃ confirmation ∈ config.store.steps,
        confirmation.kind = .confirmConsumption ∧
        confirmation.consumptionOperationId = row.operationId ∧
        carries confirmation = true)) :
    sumWhere (fun row => isConsumptionOf workOrderId itemId row && chosen row)
        config.store.inventory.netRemaining config.store.inventory.movements =
      sumWhere (fun row => row.workOrderId = workOrderId &&
          row.kind = .confirmConsumption && carries row)
        (fun row => row.toStockStep.adds config.store.inventory.movements itemId)
        config.store.steps -
      sumWhere (fun row => row.workOrderId = workOrderId && row.kind = .restore &&
          decide (.applied row.toStockStep ∈ log))
        (fun row => unitsOf itemId row.lineList) config.store.steps := by
  rw [← taken_of_confirmations h hchosen, ← returned_of_restores h hconfirmed hsaved,
    ← sumWhere_sub]
  rfl

/-- What is left of the saved withdrawals is what the steps add, with the returns that
inventory has still to commit. -/
theorem savedRemaining_eq (h : SagaReaches settings config log)
    (workOrderId : WorkOrderId) (itemId : ItemId) :
    savedRemaining config.store.inventory log workOrderId itemId =
      balance config.store.inventory.movements workOrderId itemId config.store.steps +
        pendingReturns config.store.steps log workOrderId itemId := by
  have hsound := (withdrawals_of_reaches h).1
  have hchosen : ∀ row ∈ config.store.inventory.movements, row.kind = .consumption →
      (isSaved log row = true ↔ ∃ confirmation ∈ config.store.steps,
        confirmation.kind = .confirmConsumption ∧
        confirmation.consumptionOperationId = row.operationId ∧ true = true) := by
    intro row _ _
    rw [isSaved_iff]
    constructor
    · rintro ⟨operationId, hoperation, hwithdrawn⟩
      obtain ⟨confirmation, hmem, hkind, hcarries⟩ :=
        confirmation_of_saved h hwithdrawn
      exact ⟨confirmation, hmem, hkind, hcarries.trans hoperation.symm, rfl⟩
    · rintro ⟨confirmation, hmem, hkind, hcarries, -⟩
      obtain ⟨operationId, hcarried, hwithdrawn⟩ :=
        hsound.confirmed confirmation hmem hkind
      exact ⟨operationId, hcarries.symm.trans hcarried, hwithdrawn⟩
  have hleft := sum_netRemaining h workOrderId itemId
    (fun row hrow hkind => isSaved_of_confirmed h hrow hkind)
    (fun _ _ _ hsaved => hsaved) hchosen
  have hadds := sum_adds config.store.inventory.movements workOrderId itemId
    (fun _ => true) config.store.steps
  have hreturns := sumWhere_split
    (fun row : StockStepRow => row.workOrderId = workOrderId && row.kind = .restore)
    (fun row => decide (.applied row.toStockStep ∈ log))
    (fun row => unitsOf itemId row.lineList) config.store.steps
  rw [savedRemaining, hleft, balance, pendingReturns]
  simp only [Bool.and_true, decide_not] at hadds hreturns ⊢
  omega

/-- The two ledgers of the stock saga agree in every reachable state.  The
units a work order counts as withdrawn, with those of its returns that
inventory has still to commit, are the units left of its saved withdrawals. -/
theorem two_ledgers_agree (h : SagaReaches settings config log)
    (workOrderId : WorkOrderId) (itemId : ItemId) :
    config.store.tables.withdrawnOf workOrderId itemId +
        pendingReturns config.store.steps log workOrderId itemId =
      savedRemaining config.store.inventory log workOrderId itemId := by
  rw [(balance_of_reaches h).withdrawn, savedRemaining_eq h]

end Runs

namespace SagaWitness

theorem twoUnits_pos : (0 : Int) < 2 := by decide

def two : BatchCommand where
  lines := [⟨3, 2, twoUnits_pos⟩]
  notEmpty := by decide
  actorUserId := 7

/-- The withdrawal is confirmed, and a return of two units is saved while its
step waits. -/
def returning : Config WorkshopDb SagaPlace × List SagaEffect :=
  endOfRun (sagaExec settings) emptyWorkshop
    (inExecution [part] ++ withdrawing 0 10 ++ proceed 0 5 11 ++
      (0, .request "OS-1" (.returnParts two)) :: proceed 0 4 12)
    (by decide +kernel)

theorem reaches_returning : SagaReaches settings returning.1 returning.2 :=
  reaches_endOfRun _

theorem two_ledgers_agree_returning :
    returning.1.store.tables.withdrawnOf 2 0 = 1 ∧
      pendingReturns returning.1.store.steps returning.2 2 0 = 2 ∧
      returning.1.store.tables.withdrawnOf 2 0 +
          pendingReturns returning.1.store.steps returning.2 2 0 =
        savedRemaining returning.1.store.inventory returning.2 2 0 :=
  ⟨by decide +kernel, by decide +kernel, two_ledgers_agree reaches_returning 2 0⟩

end SagaWitness

section Runs

variable {settings : OutboxSettings} {config : Config WorkshopDb SagaPlace}
variable {log : List SagaEffect} {workOrderId : WorkOrderId} {itemId : ItemId}

/-- What is left of the confirmed consumptions of an item for a work order. -/
def confirmedRemaining (db : InventoryDb) (workOrderId : WorkOrderId)
    (itemId : ItemId) : Int :=
  sumWhere (fun row => isConsumptionOf workOrderId itemId row &&
    row.confirmedAt.isSome) db.netRemaining db.movements

/-- What is left of the confirmed consumptions is what the steps that were
applied add. -/
theorem confirmedRemaining_eq (h : SagaReaches settings config log)
    (workOrderId : WorkOrderId) (itemId : ItemId) :
    confirmedRemaining config.store.inventory workOrderId itemId =
      sumWhere (fun row => row.workOrderId = workOrderId &&
          decide (.applied row.toStockStep ∈ log))
        (fun row => row.toStockStep.adds config.store.inventory.movements itemId)
        config.store.steps := by
  have hchosen : ∀ row ∈ config.store.inventory.movements, row.kind = .consumption →
      (row.confirmedAt.isSome = true ↔ ∃ confirmation ∈ config.store.steps,
        confirmation.kind = .confirmConsumption ∧
        confirmation.consumptionOperationId = row.operationId ∧
        decide (.applied confirmation.toStockStep ∈ log) = true) := by
    intro row hrow hconsumption
    constructor
    · intro hconfirmed
      obtain ⟨step, happlied, hkind, hcarries⟩ :=
        ((rows_of_reaches h).1.consumptions row hrow hconsumption).confirmed hconfirmed
      obtain ⟨-, ⟨confirmation, hmem, rfl⟩, -⟩ :=
        (order_of_reaches h).1.applied step happlied
      exact ⟨confirmation, hmem, hkind, hcarries, decide_eq_true happlied⟩
    · rintro ⟨confirmation, hmem, hkind, hcarries, happlied⟩
      obtain ⟨operationId, hcarried, -⟩ :=
        (withdrawals_of_reaches h).1.confirmed confirmation hmem hkind
      exact (applied_of_reaches h).confirmed _ (of_decide_eq_true happlied) hkind
        operationId hcarried row hrow hconsumption (hcarries.symm.trans hcarried)
  have hleft := sum_netRemaining h workOrderId itemId
    (fun row _ _ hconfirmed => hconfirmed)
    (fun row hrow hkind => isSaved_of_confirmed h hrow hkind) hchosen
  rw [confirmedRemaining, hleft, sum_adds]

end Runs

end WorkOrders

end Workshop
