/-
What a canceled work order writes off.  When every return that was applied fits
the consumptions it drew on, it is what the work order counted as withdrawn at
its cancellation.
-/
import Workshop.WorkOrders.Closings
import Workshop.WorkOrders.ReturnSteps

namespace Workshop

namespace WorkOrders

open Inventory

/-- The units of an item that were written off for a work order. -/
def writtenOff (db : InventoryDb) (workOrderId : WorkOrderId) (itemId : ItemId) :
    Int :=
  sumWhere (fun transition => transition.toStatus = .writtenOff &&
      db.movements.any fun row => row.id = transition.movementId &&
        isConsumptionOf workOrderId itemId row)
    (fun transition => transition.quantity.getD 0) db.transitions

/-- The condition on a statement: a return that is applied fits. -/
def stepRestoresFit (db : WorkshopDb) : SagaPlace → SagaInput → Prop
  | .applying step _, .proceed surroundings => step.kind = .restore →
      RestoreFits db.inventory surroundings.movementOrder
        step.toStockStep.restoreCommand
  | _, _ => True

instance (db : WorkshopDb) (place : SagaPlace) (input : SagaInput) :
    Decidable (stepRestoresFit db place input) := by
  unfold stepRestoresFit
  split <;> infer_instance

/-- What one written-off consumption holds of what was written off. -/
def writtenOffOf (db : InventoryDb) (row : MovementRow) : Int :=
  if row.status = some .writtenOff then db.netRemaining row else 0

section Sums

variable {db : InventoryDb} {workOrderId : WorkOrderId} {itemId : ItemId}

/-- The transitions of a consumption hold what is left of it, when it was
written off. -/
theorem sum_transitionsOf {row : MovementRow} (h : Marked db row) :
    sumWhere (fun transition => decide (transition.toStatus = .writtenOff))
      (fun transition => transition.quantity.getD 0) (transitionsOf db row.id) =
        writtenOffOf db row := by
  cases h with
  | pending hstatus hnone => simp [hnone, writtenOffOf, hstatus]
  | closed closure transition hstatus hone _ hto hquantity =>
      rw [hone, sumWhere_cons, sumWhere_nil, add_zero, hto, hquantity, writtenOffOf,
        hstatus]
      cases closure <;> simp [Closure.toStatus, Closure.quantity]

/-- What was written off is what is left of the consumptions that were. -/
theorem writtenOff_eq (hshape : LedgerShape db) (hsound : TransitionsSound db) :
    writtenOff db workOrderId itemId =
      sumWhere (isConsumptionOf workOrderId itemId) (writtenOffOf db)
        (consumptionsOf db.movements) := by
  have hcover : ∀ transition ∈ db.transitions,
      (transition.toStatus = .writtenOff && db.movements.any fun row =>
        row.id = transition.movementId && isConsumptionOf workOrderId itemId row) =
          true →
      ∃ row ∈ consumptionsOf db.movements,
        isConsumptionOf workOrderId itemId row = true ∧
          some transition.movementId = some row.id := by
    intro transition _ htest
    simp only [Bool.and_eq_true, List.any_eq_true, decide_eq_true_eq] at htest
    obtain ⟨-, row, hrow, hid, hmine⟩ := htest
    have hkind : row.kind = .consumption := by
      simp only [isConsumptionOf, Bool.and_eq_true, decide_eq_true_eq] at hmine
      exact hmine.1.1
    exact ⟨row, mem_consumptionsOf.mpr ⟨hrow, hkind⟩, hmine, congrArg some hid.symm⟩
  rw [writtenOff, ← sumWhere_fibers hshape.ids hcover]
  refine sumWhere_congr (fun _ _ => rfl) fun row hrow hmine => ?_
  obtain ⟨hmem, hkind⟩ := mem_consumptionsOf.mp hrow
  rw [← sum_transitionsOf (hsound.marked row hmem hkind), transitionsOf, sumWhere_filter]
  refine sumWhere_congr (fun transition _ => ?_) fun _ _ _ => rfl
  rw [Bool.eq_iff_iff]
  simp only [Bool.and_eq_true, List.any_eq_true, decide_eq_true_eq, Option.some.injEq]
  constructor
  · rintro ⟨⟨hto, -⟩, hid⟩
    exact ⟨hto, hid⟩
  · rintro ⟨hto, hid⟩
    exact ⟨⟨hto, row, hmem, hid.symm, hmine⟩, hid⟩

end Sums

section Bounds

variable {settings : OutboxSettings} {config : Config WorkshopDb SagaPlace}
variable {log : List SagaEffect}

/-- A move keeps the bounds on what is returned, if the return it commits
does. -/
theorem StockChange.bounded {db db' : InventoryDb} {place next : SagaPlace}
    {effects : List SagaEffect} (hshape : LedgerShape db)
    (hplain : ∀ item, place = .shelf item → PlainItem item)
    (hbounded : ReturnsBounded db)
    (hrestores : ∀ step queue order now, place = .applying step queue →
      step.kind = .restore → db.restoreStockBatch order
        step.toStockStep.restoreCommand now = .ok db' → ReturnsBounded db')
    (h : StockChange db place next effects db') : ReturnsBounded db' := by
  cases h with
  | quiet _ _ nextId hle => exact hbounded
  | save item _ hsave => exact hbounded.save (hplain item rfl) hsave
  | consume withdrawal now _ hconsume => exact hbounded.consumeStockBatch hshape hconsume
  | undo errand named now _ hundo => exact hbounded.undoConsumption hshape hundo
  | confirm step queue operationId now =>
      exact hbounded.mapMovements (sameMovement_confirm operationId now)
  | restore step queue order now _ hkind hrestore =>
      exact hrestores step queue order now rfl hkind hrestore
  | close step queue closure candidates now =>
      exact hbounded.mapMovements (sameMovement_close closure candidates)

/-- An applier at a return commits it, or leaves the ledger as it is. -/
theorem restore_of_exec {db : WorkshopDb} {step : ClaimedStockStep}
    {queue : List ClaimedStockStep} {input : SagaInput} {out : SagaOutcome}
    (hkind : step.kind = .restore)
    (hexec : sagaExec settings db (.applying step queue) input = some out) :
    out.store.inventory = db.inventory ∨
      ∃ surroundings, input = .proceed surroundings ∧
        db.inventory.restoreStockBatch surroundings.movementOrder
          step.toStockStep.restoreCommand surroundings.now =
            .ok out.store.inventory := by
  cases input with
  | proceed surroundings =>
      simp only [sagaExec, runStep, hkind, Option.some.injEq] at hexec
      split at hexec
      · subst hexec
        exact Or.inl rfl
      · rename_i inventory hrestore
        subst hexec
        exact Or.inr ⟨surroundings, rfl, hrestore⟩
  | fail error =>
      simp only [sagaExec, Option.some.injEq] at hexec
      subst hexec
      exact Or.inl rfl
  | crash =>
      simp only [sagaExec, Option.some.injEq] at hexec
      subst hexec
      exact Or.inl rfl
  | _ => simp [sagaExec] at hexec

/-- In a run whose returns fit, no consumption is returned beyond what it
took. -/
theorem stepReturnsBounded_of_reaches
    (h : ReachesBy (sagaExec settings) stepRestoresFit emptyWorkshop config log) :
    ReturnsBounded config.store.inventory := by
  refine ReachesBy.invariant
    (P := fun config _ => ReturnsBounded config.store.inventory)
    (fun _ hmem => absurd hmem List.not_mem_nil) ?_ h
  intro config log pid input out before hbounded hfits hexec
  obtain ⟨hshape, hplain⟩ := sagaLedger_of_reaches before.reaches
  refine (sagaMove_of_exec hexec).stock.bounded hshape (hplain pid) hbounded ?_
  intro step queue _ _ hplace hkind _
  rw [hplace] at hexec hfits
  rcases restore_of_exec hkind hexec with hsame | ⟨surroundings, rfl, hrestore⟩
  · rw [Config.after_store, hsame]
    exact hbounded
  · exact (restoreStockBatch_bounded_iff hshape hbounded hrestore).mpr (hfits hkind)

end Bounds

section Cancellations

variable {settings : OutboxSettings} {config : Config WorkshopDb SagaPlace}
variable {log : List SagaEffect}

/-- What is known of a cancellation that was saved: it kept the parts, and what
they count as withdrawn is what the canceled work order counts. -/
structure CanceledBy (tables : WorkOrderTables) (edit : Edit) : Prop where
  parts : edit.changed.partItems = edit.loaded.partItems
  state : ∃ state, tables.stateOf edit.changed.id = some state ∧
    state.status = .canceled
  withdrawn : ∀ itemId,
    tables.withdrawnOf edit.changed.id itemId = edit.changed.withdrawnOf itemId

/-- The save of a cancellation. -/
theorem canceledBy_of_exec (h : SagaReaches settings config log) {pid : Nat}
    {input : SagaInput} {out : SagaOutcome}
    (hexec : sagaExec settings config.store (config.places pid) input = some out)
    {edit : Edit} (hsaved : .saved edit ∈ out.effects)
    (hcanceled : edit.changed.status = .canceled) : CanceledBy out.store.tables edit := by
  have hmade := (made_of_reaches h).2 pid
  obtain ⟨hserial, hreads⟩ := serial_of_reaches h
  have hread := hreads pid
  have htables := (sagaMove_of_exec hexec).tables
  revert hmade hread hsaved htables
  generalize out.store.tables = tables'
  generalize out.effects = effects
  generalize config.places pid = place
  intro hsaved hmade hread htables
  cases htables with
  | same _ hnone _ => exact absurd hsaved (hnone edit)
  | create workOrder _ hsave => simp at hsaved
  | commit withdrawal _ hsave =>
      have hedit : edit = withdrawal.edit := by simpa using hsaved
      rw [hedit, hmade.1.stillInExecution] at hcanceled
      cases hcanceled
  | save saved step _ hsave =>
      have hedit : edit = saved := by simpa using hsaved
      subst hedit
      obtain ⟨fresh, -, hfollows⟩ := hmade.1.follows
      have horder := orderSaved_of_save hserial.sound hread hmade.2.children hfollows
        hsave
      obtain ⟨before, -, hbefore, hsame, -⟩ :=
        save_edit hserial.sound hread hmade.2.children hfollows hsave
      obtain ⟨after, hafter, hstatus⟩ := horder.after
      cases step with
      | none =>
          have hopen := hmade.1.plain rfl
          rw [hcanceled] at hopen
          cases hopen
      | some step =>
          have hstep := hmade.1.step step rfl
          have hkind := hstep.canceled.mpr hcanceled
          have hparts := hstep.sameParts hkind
          refine ⟨hparts, ⟨after, hafter, hstatus.trans hcanceled⟩, fun itemId => ?_⟩
          rw [horder.withdrawn, WorkOrderTables.withdrawnOf_eq hbefore,
            ← hsame.withdrawnOf itemId, WorkOrder.withdrawnOf, WorkOrder.withdrawnOf,
            hparts]
          simp [takenBack, hkind]

/-- A closed work order counts the same units as withdrawn from then on. -/
theorem withdrawnOf_closed (h : SagaReaches settings config log) {pid : Nat}
    {input : SagaInput} {out : SagaOutcome}
    (hexec : sagaExec settings config.store (config.places pid) input = some out)
    {workOrderId : WorkOrderId} {state : WorkOrder}
    (hstate : config.store.tables.stateOf workOrderId = some state)
    (hclosed : state.status.isClosed = true) (itemId : ItemId) :
    out.store.tables.withdrawnOf workOrderId itemId =
      config.store.tables.withdrawnOf workOrderId itemId := by
  obtain ⟨kept, added, -, hadded, -⟩ := (steps_of_exec h hexec).rows
  have horders := orders_of_exec h hexec hadded
  obtain ⟨-, hnone⟩ := horders.closed workOrderId state hstate hclosed
  have hadds : balance config.store.inventory.movements workOrderId itemId
      added.toList = 0 := by
    refine sumWhere_eq_zero fun row hrow howner => ?_
    rw [Option.mem_toList] at hrow
    by_cases hkind : row.kind = .undoConsumption
    · simp [StockStep.adds, hkind]
    · exact absurd (of_decide_eq_true howner) (hnone row hrow hkind)
  rw [horders.withdrawn, hadds, add_zero]

/-- A cancellation that was saved stays what it was. -/
theorem canceledBy_of_reaches (h : SagaReaches settings config log) {edit : Edit}
    (hsaved : .saved edit ∈ log) (hcanceled : edit.changed.status = .canceled) :
    CanceledBy config.store.tables edit := by
  revert hsaved
  refine ReachesBy.invariant (P := fun config log =>
    .saved edit ∈ log → CanceledBy config.store.tables edit)
    (fun hmem => absurd hmem List.not_mem_nil) ?_ h
  intro config log pid input out before hknown _ hexec hsaved
  rw [Config.after_store]
  rcases List.mem_append.mp hsaved with hsaved | hsaved
  · obtain ⟨hparts, ⟨state, hstate, hstatus⟩, hwithdrawn⟩ := hknown hsaved
    have hclosed : state.status.isClosed = true := by
      rw [hstatus]
      rfl
    obtain ⟨kept, added, -, hadded, -⟩ := (steps_of_exec before hexec).rows
    obtain ⟨⟨state', hstate', hstatus'⟩, -⟩ :=
      (orders_of_exec before hexec hadded).closed _ state hstate hclosed
    refine ⟨hparts, ⟨state', hstate', hstatus'.trans hstatus⟩, fun itemId => ?_⟩
    rw [withdrawnOf_closed before hexec hstate hclosed, hwithdrawn]
  · exact canceledBy_of_exec before hexec hsaved hcanceled

end Cancellations

section Exactness

variable {settings : OutboxSettings} {config : Config WorkshopDb SagaPlace}
variable {log : List SagaEffect} {workOrderId : WorkOrderId}

/-- What the applied steps of a work order add up to is what it counts as
withdrawn, once they all are. -/
theorem confirmedRemaining_eq_withdrawnOf (h : SagaReaches settings config log)
    (hsteps : StepsApplied config.store.steps log workOrderId) (itemId : ItemId) :
    confirmedRemaining config.store.inventory workOrderId itemId =
      config.store.tables.withdrawnOf workOrderId itemId := by
  have hundos : sumWhere (fun row : StockStepRow => row.workOrderId = workOrderId &&
      !decide (.applied row.toStockStep ∈ log))
      (fun row => row.toStockStep.adds config.store.inventory.movements itemId)
      config.store.steps = 0 := by
    refine sumWhere_eq_zero fun row hrow htest => ?_
    simp only [Bool.and_eq_true, Bool.not_eq_true', decide_eq_true_eq,
      decide_eq_false_iff_not] at htest
    by_cases hkind : row.kind = .undoConsumption
    · simp [StockStep.adds, hkind]
    · exact absurd (hsteps row hrow htest.1 hkind) htest.2
  have hsplit := sumWhere_split (fun row : StockStepRow => row.workOrderId = workOrderId)
    (fun row => decide (.applied row.toStockStep ∈ log))
    (fun row => row.toStockStep.adds config.store.inventory.movements itemId)
    config.store.steps
  rw [confirmedRemaining_eq h, (balance_of_reaches h).withdrawn, balance, hsplit, hundos,
    add_zero]

/-- What a canceled work order writes off is what is left of its confirmed
consumptions, when none is returned beyond what it took. -/
theorem writtenOff_eq_confirmedRemaining (h : SagaReaches settings config log)
    (hbounded : ReturnsBounded config.store.inventory) {state : WorkOrder}
    (hstate : config.store.tables.stateOf workOrderId = some state)
    (hstatus : state.status = .canceled)
    (hsteps : StepsApplied config.store.steps log workOrderId) (itemId : ItemId) :
    writtenOff config.store.inventory workOrderId itemId =
      confirmedRemaining config.store.inventory workOrderId itemId := by
  obtain ⟨hnone, hstatuses⟩ := closed_out h hstate .writeOff hstatus hsteps
  obtain ⟨hshape, -⟩ := sagaLedger_of_reaches h
  have hsound := (rows_of_reaches h).1
  rw [writtenOff_eq hshape (closings_of_reaches h).1.transitions, consumptionsOf,
    sumWhere_filter, sumWhere_split _ fun row => row.confirmedAt.isSome]
  have hrest : sumWhere (fun row : MovementRow =>
      (isConsumptionOf workOrderId itemId row && decide (row.kind = .consumption)) &&
        !row.confirmedAt.isSome) (writtenOffOf config.store.inventory)
      config.store.inventory.movements = 0 := by
    refine sumWhere_eq_zero fun row hrow htest => ?_
    simp only [Bool.and_eq_true, Bool.not_eq_true', decide_eq_true_eq,
      Option.isSome_eq_false_iff, Option.isNone_iff_eq_none] at htest
    rw [writtenOffOf, (hsound.consumptions row hrow htest.1.2).pending htest.2]
    exact if_neg (by simp)
  rw [hrest, add_zero, confirmedRemaining]
  refine sumWhere_congr (fun row _ => ?_) fun row hrow htest => ?_
  · cases hmine : isConsumptionOf workOrderId itemId row with
    | false => rfl
    | true =>
        simp only [isConsumptionOf, Bool.and_eq_true, decide_eq_true_eq] at hmine
        simp [hmine.1.1]
  · simp only [isConsumptionOf, Bool.and_eq_true, decide_eq_true_eq] at htest
    obtain ⟨⟨⟨⟨-, howner⟩, -⟩, hkind⟩, hconfirmed⟩ := htest
    rcases hstatuses row hrow hkind howner with hpending | hwritten
    · have hleft : config.store.inventory.netRemaining row ≤ 0 := by
        by_contra hleft
        exact hnone _ (mem_closureCandidates.mpr ⟨row, hrow, isOpenConsumption_iff.mpr
          ⟨howner, hkind, hpending, by simp [confirmedConsumption, hconfirmed]⟩,
          fun _ => not_le.mp hleft, rfl⟩)
      have hwithin := hbounded row hrow hkind
      rw [writtenOffOf, if_neg (by rw [hpending]; simp)]
      simp only [InventoryDb.netRemaining] at hleft ⊢
      omega
    · exact if_pos hwritten

/-- Nothing that was written off is for free. -/
theorem writtenOff_pos (h : SagaReaches settings config log) {transition : TransitionRow}
    (htransition : transition ∈ config.store.inventory.transitions)
    (hto : transition.toStatus = .writtenOff) {row : MovementRow}
    (hrow : row ∈ config.store.inventory.movements)
    (hid : row.id = transition.movementId) (hkind : row.kind = .consumption)
    (howner : row.workOrderId = some workOrderId) :
    0 < writtenOff config.store.inventory workOrderId row.inventoryItemId := by
  obtain ⟨hshape, -⟩ := sagaLedger_of_reaches h
  have hmarked := (closings_of_reaches h).1.transitions.marked
  have hmine : writtenOffOf config.store.inventory row =
      config.store.inventory.netRemaining row ∧
      0 < config.store.inventory.netRemaining row := by
    cases hmarked row hrow hkind with
    | pending _ hnone =>
        have hmem : transition ∈ transitionsOf config.store.inventory row.id :=
          List.mem_filter.mpr ⟨htransition, decide_eq_true hid.symm⟩
        rw [hnone] at hmem
        cases hmem
    | closed closure other hstatus hone _ hother _ hpositive =>
        have hmem : transition ∈ transitionsOf config.store.inventory row.id :=
          List.mem_filter.mpr ⟨htransition, decide_eq_true hid.symm⟩
        rw [hone, List.mem_singleton] at hmem
        rw [← hmem, hto] at hother
        cases closure with
        | settle => cases hother
        | writeOff => exact ⟨if_pos hstatus, hpositive rfl⟩
  have hnonneg : ∀ other ∈ consumptionsOf config.store.inventory.movements,
      isConsumptionOf workOrderId row.inventoryItemId other = true →
        0 ≤ writtenOffOf config.store.inventory other := by
    intro other hother _
    obtain ⟨hmem, hotherKind⟩ := mem_consumptionsOf.mp hother
    unfold writtenOffOf
    split
    · rename_i hwritten
      cases hmarked other hmem hotherKind with
      | pending hpending =>
          rw [hwritten] at hpending
          cases hpending
      | closed closure _ hstatus _ _ _ _ hpositive =>
          rw [hwritten] at hstatus
          cases closure with
          | settle => cases hstatus
          | writeOff => exact (hpositive rfl).le
    · exact le_rfl
  have hle := le_sumWhere_of_mem hnonneg (mem_consumptionsOf.mpr ⟨hrow, hkind⟩)
    (by simp [isConsumptionOf, hkind, howner])
  rw [writtenOff_eq hshape (closings_of_reaches h).1.transitions]
  rw [hmine.1] at hle
  omega

/-- Write-offs are exact in every run whose returns fit the consumptions they
draw on.  A canceled work order whose steps were all applied has written off of
every item what it counted as withdrawn at its cancellation, and nothing when
it was canceled without outstanding withdrawals. -/
theorem write_off_exact
    (h : ReachesBy (sagaExec settings) stepRestoresFit emptyWorkshop config log)
    {state : WorkOrder} (hstate : config.store.tables.stateOf workOrderId = some state)
    (hstatus : state.status = .canceled)
    (hsteps : StepsApplied config.store.steps log workOrderId) :
    (∀ itemId, writtenOff config.store.inventory workOrderId itemId =
      config.store.tables.withdrawnOf workOrderId itemId) ∧
    ∀ edit, .saved edit ∈ log → edit.changed.id = workOrderId →
      edit.changed.status = .canceled →
        (∀ itemId, writtenOff config.store.inventory workOrderId itemId =
          edit.changed.withdrawnOf itemId) ∧
        (edit.loaded.hasOutstandingWithdrawals = false →
          ∀ transition ∈ config.store.inventory.transitions,
            transition.toStatus = .writtenOff →
            ∀ row ∈ config.store.inventory.movements,
              row.id = transition.movementId → row.kind = .consumption →
                row.workOrderId ≠ some workOrderId) := by
  have hexact (itemId : ItemId) : writtenOff config.store.inventory workOrderId itemId =
      config.store.tables.withdrawnOf workOrderId itemId := by
    rw [writtenOff_eq_confirmedRemaining h.reaches (stepReturnsBounded_of_reaches h)
      hstate hstatus hsteps, confirmedRemaining_eq_withdrawnOf h.reaches hsteps]
  refine ⟨hexact, fun edit hsaved hid hcanceled => ?_⟩
  have hknown := canceledBy_of_reaches h.reaches hsaved hcanceled
  have hmine (itemId : ItemId) : writtenOff config.store.inventory workOrderId itemId =
      edit.changed.withdrawnOf itemId := by
    rw [hexact, ← hid, hknown.withdrawn]
  refine ⟨hmine, fun hclear transition htransition hto row hrow hrowId hkind howner => ?_⟩
  have hpositive := writtenOff_pos h.reaches htransition hto hrow hrowId hkind howner
  have hnone : edit.changed.withdrawnOf row.inventoryItemId ≤ 0 := by
    rw [WorkOrder.withdrawnOf, hknown.parts]
    refine (sumWhere_le (g := fun _ => 0) fun item hitem _ => ?_).trans
      (sumWhere_eq_zero fun _ _ _ => rfl).le
    rw [WorkOrder.hasOutstandingWithdrawals, List.any_eq_false] at hclear
    exact not_lt.mp fun hlt => hclear item hitem (decide_eq_true hlt)
  rw [hmine] at hpositive
  omega

end Exactness

namespace SagaWitness

/-- A cancellation from its first read to the completion of its step. -/
def cancel (pid : Nat) (now : Timestamp) : List (Nat × SagaInput) :=
  (pid, .request "OS-1" (.cancelWorkOrder "no parts" 7)) :: proceed pid 2 now ++
    (pid, .proceed { now, cancelsInExecution := true }) :: proceed pid 5 now

/-- Two of three units come back, and the work order is canceled. -/
def canceledRun : List (Nat × SagaInput) :=
  inExecution [part] ++ withdrawing 0 10 ++ proceed 0 5 11 ++
    (0, .request "OS-1" (.returnParts two)) :: proceed 0 7 12 ++ cancel 0 13

def canceled : Config WorkshopDb SagaPlace × List SagaEffect :=
  endOfRun (sagaExec settings) emptyWorkshop canceledRun (by decide +kernel)

theorem reachesBy_canceled :
    ReachesBy (sagaExec settings) stepRestoresFit emptyWorkshop canceled.1 canceled.2 :=
  reachesBy_endOfRun (fun db place input => decide (stepRestoresFit db place input))
    of_decide_eq_true (by decide +kernel) _

theorem canceled_status : ∃ state, canceled.1.store.tables.stateOf 2 = some state ∧
    state.status = .canceled := by
  have hstate : ((canceled.1.store.tables.stateOf 2).map fun state => state.status) =
      some .canceled := by decide +kernel
  exact Option.map_eq_some_iff.mp hstate

theorem canceled_applied : StepsApplied canceled.1.store.steps canceled.2 2 := by
  unfold StepsApplied
  decide +kernel

theorem write_off_exact_canceled :
    canceled.1.store.tables.withdrawnOf 2 0 = 1 ∧
    (∀ itemId, writtenOff canceled.1.store.inventory 2 itemId =
      canceled.1.store.tables.withdrawnOf 2 itemId) ∧
    ∀ edit, .saved edit ∈ canceled.2 → edit.changed.id = 2 →
      edit.changed.status = .canceled →
        (∀ itemId, writtenOff canceled.1.store.inventory 2 itemId =
          edit.changed.withdrawnOf itemId) ∧
        (edit.loaded.hasOutstandingWithdrawals = false →
          ∀ transition ∈ canceled.1.store.inventory.transitions,
            transition.toStatus = .writtenOff →
            ∀ row ∈ canceled.1.store.inventory.movements,
              row.id = transition.movementId → row.kind = .consumption →
                row.workOrderId ≠ some 2) := by
  obtain ⟨state, hstate, hstatus⟩ := canceled_status
  exact ⟨by decide +kernel,
    write_off_exact reachesBy_canceled hstate hstatus canceled_applied⟩

theorem threeUnits_pos : (0 : Int) < 3 := by decide

/-- Three units of the item for each of two part items. -/
def threeEach : BatchCommand where
  lines := [⟨3, 3, threeUnits_pos⟩, ⟨4, 3, threeUnits_pos⟩]
  notEmpty := by decide
  actorUserId := 7

/-- Both part items get their units and give them back in one batch, and the
work order is canceled with nothing outstanding. -/
def overdrawnRun : List (Nat × SagaInput) :=
  inExecution [part, part] ++
    (0, .request "OS-1" (.withdrawParts threeEach)) :: proceed 0 9 10 ++
    (0, .request "OS-1" (.returnParts threeEach)) :: proceed 0 7 11 ++ cancel 0 12

def overdrawn : Config WorkshopDb SagaPlace × List SagaEffect :=
  endOfRun (sagaExec settings) emptyWorkshop overdrawnRun (by decide +kernel)

theorem reaches_overdrawn : SagaReaches settings overdrawn.1 overdrawn.2 :=
  reaches_endOfRun _

theorem overdrawn_applied : StepsApplied overdrawn.1.store.steps overdrawn.2 2 := by
  unfold StepsApplied
  decide +kernel

/-- A cancellation of the work order that had nothing outstanding. -/
def cancelsCleared : SagaEffect → Bool
  | .saved edit => edit.changed.id = 2 && edit.changed.status = .canceled &&
      !edit.loaded.hasOutstandingWithdrawals && edit.changed.withdrawnOf 0 = 0
  | _ => false

/-- Returns that draw twice on one consumption make a cancellation without
outstanding withdrawals write off units. -/
theorem write_off_not_always_exact :
    ¬ ∀ config log, SagaReaches settings config log → ∀ workOrderId state,
      config.store.tables.stateOf workOrderId = some state →
      state.status = .canceled → StepsApplied config.store.steps log workOrderId →
      ∀ edit, .saved edit ∈ log → edit.changed.id = workOrderId →
        edit.changed.status = .canceled →
        edit.loaded.hasOutstandingWithdrawals = false →
          ∀ itemId, writtenOff config.store.inventory workOrderId itemId =
            edit.changed.withdrawnOf itemId := by
  intro hclaim
  have hstate : ((overdrawn.1.store.tables.stateOf 2).map fun state => state.status) =
      some .canceled := by decide +kernel
  obtain ⟨state, hstate, hstatus⟩ := Option.map_eq_some_iff.mp hstate
  have hedit : overdrawn.2.any cancelsCleared = true := by decide +kernel
  obtain ⟨effect, hmem, hcleared⟩ := List.any_eq_true.mp hedit
  cases effect with
  | saved edit =>
      simp only [cancelsCleared, Bool.and_eq_true, Bool.not_eq_true',
        decide_eq_true_eq] at hcleared
      obtain ⟨⟨⟨hid, hcanceled⟩, hclear⟩, hnone⟩ := hcleared
      have hexact := hclaim overdrawn.1 overdrawn.2 reaches_overdrawn 2 state hstate
        hstatus overdrawn_applied edit hmem hid hcanceled hclear 0
      have hlost : writtenOff overdrawn.1.store.inventory 2 0 = 3 := by decide +kernel
      rw [hlost, hnone] at hexact
      cases hexact
  | _ => cases hcleared

end SagaWitness

end WorkOrders

end Workshop
