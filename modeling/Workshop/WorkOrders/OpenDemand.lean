/-
The demand of the shortage report is the sum of what the work orders may still
withdraw: a part counts when its work order is in execution and its budget, which is one
of that work order, is approved.
-/
import Workshop.WorkOrders.Remaining
import Workshop.WorkOrders.SerialSaves
import Workshop.WorkOrders.StockDemand

namespace Workshop

namespace WorkOrders

open Inventory

/-- Whether a part counts in the demand of an item. -/
def WorkOrderRows.isDemanded (rows : WorkOrderRows) (itemId : ItemId) (part : PartRow) :
    Bool :=
  decide (part.inventoryItemId = itemId) &&
    decide (part.withdrawnQuantity < part.plannedQuantity.units) &&
    (rows.workOrders.any fun row =>
      decide (row.id = part.workOrderId ∧ row.status = .inExecution)) &&
    rows.budgets.any fun budget =>
      decide (some budget.id = part.budgetId ∧ budget.status = .approved)

/-- Every part is attached to a budget of its own work order, if to any. -/
def WorkOrderRows.OwnBudgets (rows : WorkOrderRows) : Prop :=
  ∀ part ∈ rows.parts, ∀ id, part.budgetId = some id →
    ∃ budget ∈ rows.budgets, budget.id = id ∧ budget.workOrderId = part.workOrderId

/-- What the work order under an id may still withdraw of an item. -/
def WorkOrderTables.remainingOf (tables : WorkOrderTables) (workOrderId : WorkOrderId)
    (itemId : ItemId) : Int :=
  match tables.stateOf workOrderId with
  | none => 0
  | some state => state.remainingOf itemId

section Sums

variable {tables : WorkOrderTables} {itemId : ItemId}

theorem remainingOf_nonneg (tables : WorkOrderTables) (workOrderId : WorkOrderId)
    (itemId : ItemId) : 0 ≤ tables.remainingOf workOrderId itemId := by
  unfold WorkOrderTables.remainingOf
  split
  · exact Int.le_refl 0
  · exact WorkOrder.remainingOf_nonneg

/-- The joins find at most one work order and one budget for a part. -/
theorem outstandingOf_eq_parts :
    tables.outstandingOf itemId = sumWhere (tables.isDemanded itemId)
      (fun part => part.plannedQuantity.units - part.withdrawnQuantity) tables.parts := by
  have hjoin : ∀ part : PartRow,
      sumWhere (fun line => decide (line.inventoryItemId = itemId)) DemandLine.outstanding
        ((tables.workOrders.filter fun row =>
            row.id = part.workOrderId ∧ row.status = .inExecution).flatMap fun row =>
          (tables.budgets.filter fun budget =>
              some budget.id = part.budgetId ∧ budget.status = .approved).map fun _ =>
            { inventoryItemId := part.inventoryItemId
              outstanding := part.plannedQuantity.units - part.withdrawnQuantity
              workOrderNumber := row.number }) =
        if (decide (part.inventoryItemId = itemId) &&
            (tables.workOrders.any fun row =>
              decide (row.id = part.workOrderId ∧ row.status = .inExecution)) &&
            tables.budgets.any fun budget =>
              decide (some budget.id = part.budgetId ∧ budget.status = .approved)) = true
        then part.plannedQuantity.units - part.withdrawnQuantity else 0 := by
    intro part
    rw [sumWhere_flatMap]
    simp only [sumWhere_map, Function.comp_def]
    by_cases hitem : part.inventoryItemId = itemId
    · have hbudgetIds : (tables.budgets.map fun budget => some budget.id).Nodup := by
        have hids := tables.constraints.uxBudgetsExternalId.map (Option.some_injective _)
        rwa [List.map_map] at hids
      simp only [hitem, decide_true, Bool.true_and]
      rw [sumWhere_join _ hbudgetIds fun budget _ htest => (of_decide_eq_true htest).1,
        sumWhere_join _ tables.constraints.uxExternalId
          fun row _ htest => (of_decide_eq_true htest).1]
      simp only [Bool.and_eq_true, ite_and]
    · simp only [hitem, decide_false, Bool.false_and, Bool.false_eq_true, if_false]
      exact sumWhere_eq_zero fun row _ _ => sumWhere_eq_zero fun _ _ htest =>
        absurd htest Bool.false_ne_true
  rw [WorkOrderRows.outstandingOf, WorkOrderRows.demandLines, sumWhere_flatMap,
    sumWhere_filter]
  simp only [hjoin]
  rw [sumWhere_ite]
  refine sumWhere_congr (fun part _ => ?_) fun _ _ _ => rfl
  rw [WorkOrderRows.isDemanded, Bool.true_and]
  cases decide (part.inventoryItemId = itemId)
  · simp
  · simp [Bool.and_assoc]

/-- A part is on an approved round when its budget is approved. -/
theorem onApprovedRound_toDomain (hown : tables.OwnBudgets) {row : WorkOrderRow}
    {part : PartRow} (hpart : part ∈ tables.parts) (howner : part.workOrderId = row.id) :
    (toDomain row (rowsOf ServiceRow.workOrderId row.id tables.services)
        (rowsOf PartRow.workOrderId row.id tables.parts)
        (rowsOf BudgetRow.workOrderId row.id tables.budgets)).onApprovedRound
      (part.toDomain (rowsOf BudgetRow.workOrderId row.id tables.budgets)) =
      tables.budgets.any fun budget =>
        decide (some budget.id = part.budgetId ∧ budget.status = .approved) := by
  have hids := tables.constraints.uxBudgetsExternalId
  have hownIds : ((rowsOf BudgetRow.workOrderId row.id tables.budgets).map
      fun budget => budget.id).Nodup := hids.sublist (List.filter_sublist.map _)
  rw [Bool.eq_iff_iff, WorkOrder.onApprovedRound_iff, List.any_eq_true]
  constructor
  · rintro ⟨budget, hbudget, hround, happroved⟩
    obtain ⟨stored, hstored, rfl⟩ := List.mem_map.mp hbudget
    obtain ⟨hmem, hself⟩ := mem_rowsOf.mp ((List.mem_insertionSort _).mp hstored)
    obtain ⟨id, hid, hfound⟩ := Option.bind_eq_some_iff.mp hround
    obtain ⟨named, hnamed, hsame⟩ := Option.map_eq_some_iff.mp hfound
    obtain ⟨hnamedMem, hnamedId⟩ := (find?_reverse_eq_some_iff hownIds).mp hnamed
    obtain ⟨hnamedMem, hnamedSelf⟩ := mem_rowsOf.mp hnamedMem
    have heq : named = stored := List.inj_on_of_nodup_map tables.constraints.uxBudgetsRound
      hnamedMem hmem (Prod.ext (hnamedSelf.trans hself.symm) hsame)
    refine ⟨stored, hmem, decide_eq_true ⟨?_, happroved⟩⟩
    rw [← heq, hid]
    exact congrArg some hnamedId
  · rintro ⟨stored, hmem, htest⟩
    obtain ⟨hid, happroved⟩ := of_decide_eq_true htest
    obtain ⟨own, hownMem, hownId, hself⟩ := hown part hpart stored.id hid.symm
    obtain rfl : own = stored := List.inj_on_of_nodup_map hids hownMem hmem hownId
    have hself := mem_rowsOf.mpr ⟨hmem, hself.trans howner⟩
    refine ⟨own.toBudget, List.mem_map_of_mem ((List.mem_insertionSort _).mpr hself), ?_,
      happroved⟩
    rw [PartRow.toDomain, ← hid]
    change roundOfBudget _ own.id = _
    rw [roundOfBudget, (find?_reverse_eq_some_iff hownIds).mpr ⟨hself, rfl⟩]
    rfl

/-- What a work order may still withdraw is the demand of its own parts. -/
theorem remainingOf_eq_parts (hown : tables.OwnBudgets) {row : WorkOrderRow}
    (hrow : row ∈ tables.workOrders) :
    tables.remainingOf row.id itemId = sumWhere (fun part =>
        tables.isDemanded itemId part && decide (some part.workOrderId = some row.id))
      (fun part => part.plannedQuantity.units - part.withdrawnQuantity) tables.parts := by
  have hstate := WorkOrderTables.stateOf_eq_some_iff.mpr ⟨row, hrow, rfl, rfl⟩
  rw [WorkOrderTables.remainingOf, hstate]
  dsimp only
  have hrunning : ∀ part : PartRow, part.workOrderId = row.id →
      (tables.workOrders.any fun other =>
        decide (other.id = part.workOrderId ∧ other.status = .inExecution)) =
      decide (row.status = .inExecution) := by
    intro part howner
    rw [Bool.eq_iff_iff, List.any_eq_true, decide_eq_true_eq]
    constructor
    · rintro ⟨other, hother, htest⟩
      obtain ⟨hid, hstatus⟩ := of_decide_eq_true htest
      rwa [← List.inj_on_of_nodup_map tables.constraints.uxExternalId hother hrow
        (hid.trans howner)]
    · intro hstatus
      exact ⟨row, hrow, decide_eq_true ⟨howner.symm, hstatus⟩⟩
  by_cases hstatus : row.status = .inExecution
  · refine (WorkOrder.remainingOf_of_inExecution hstatus).trans ?_
    have hleft : ∀ part : PartRow, (part.toDomain
        (rowsOf BudgetRow.workOrderId row.id tables.budgets)).remaining =
        if decide (part.withdrawnQuantity < part.plannedQuantity.units) = true
        then part.plannedQuantity.units - part.withdrawnQuantity else 0 := by
      intro part
      change max 0 (part.plannedQuantity.units - part.withdrawnQuantity) = _
      simp only [decide_eq_true_eq]
      omega
    change sumWhere _ _ ((rowsOf PartRow.workOrderId row.id tables.parts).map _) = _
    rw [sumWhere_map]
    refine (sumWhere_filter _ _ _ tables.parts).trans ?_
    simp only [Function.comp_def, hleft]
    rw [sumWhere_ite]
    refine sumWhere_congr (fun part hpart => ?_) fun _ _ _ => rfl
    by_cases howner : part.workOrderId = row.id
    · rw [onApprovedRound_toDomain hown hpart howner, WorkOrderRows.isDemanded,
        hrunning part howner, decide_eq_true hstatus, decide_eq_true howner,
        decide_eq_true (congrArg some howner), Bool.and_true, Bool.and_true, Bool.and_true,
        Bool.and_right_comm]
      rfl
    · rw [decide_eq_false howner, decide_eq_false fun heq => howner (Option.some.inj heq),
        Bool.and_false, Bool.and_false, Bool.false_and]
  · refine (WorkOrder.remainingOf_of_ne hstatus).trans
      (sumWhere_eq_zero fun part _ htest => ?_).symm
    rw [Bool.and_eq_true, decide_eq_true_eq, Option.some.injEq] at htest
    rw [WorkOrderRows.isDemanded, hrunning part htest.2, decide_eq_false hstatus,
      Bool.and_false, Bool.false_and] at htest
    exact absurd htest.1 Bool.false_ne_true

/-- The demand of the report is the sum of what remains on the work orders. -/
theorem outstandingOf_eq_remaining (hown : tables.OwnBudgets) :
    tables.outstandingOf itemId = sumWhere (fun _ => true)
      (fun row => tables.remainingOf row.id itemId) tables.workOrders := by
  rw [outstandingOf_eq_parts]
  have hcover : ∀ part ∈ tables.parts, tables.isDemanded itemId part = true →
      ∃ row ∈ tables.workOrders, (fun _ : WorkOrderRow => true) row = true ∧
        some part.workOrderId = some row.id := by
    intro part hpart _
    obtain ⟨row, hrow, hid⟩ := List.mem_map.mp (tables.constraints.fkParts part hpart)
    exact ⟨row, hrow, rfl, congrArg some hid.symm⟩
  rw [← sumWhere_fibers tables.constraints.uxExternalId hcover]
  exact sumWhere_congr (fun _ _ => rfl) fun row hrow _ => (remainingOf_eq_parts hown hrow).symm

end Sums

/-- Two states of the tables with the same work orders in execution, the same approved
budgets and the same parts on budgets. -/
structure SameDemand (rows rows' : WorkOrderRows) : Prop where
  inExecution : (rows'.workOrders.filter fun row => row.status = .inExecution).map
      WorkOrderRow.id =
    (rows.workOrders.filter fun row => row.status = .inExecution).map WorkOrderRow.id
  approved : (rows'.budgets.filter fun budget => budget.status = .approved) =
    rows.budgets.filter fun budget => budget.status = .approved
  attached : (rows'.parts.filter fun part => part.budgetId.isSome) =
    rows.parts.filter fun part => part.budgetId.isSome

section Changes

open WorkOrderTables (stateOf_save_of_ne writeRow_cases save_ok rows_save rowsOf_save_of_ne)

variable {tables tables' : WorkOrderTables} {itemId : ItemId} {workOrder : WorkOrder}

theorem SameDemand.isDemanded {rows rows' : WorkOrderRows} (h : SameDemand rows rows')
    (part : PartRow) : rows'.isDemanded itemId part = rows.isDemanded itemId part := by
  have hwork : ∀ rows : WorkOrderRows, (rows.workOrders.any fun row =>
        decide (row.id = part.workOrderId ∧ row.status = .inExecution)) =
      decide (part.workOrderId ∈ (rows.workOrders.filter fun row =>
        row.status = .inExecution).map WorkOrderRow.id) := by
    intro rows
    rw [Bool.eq_iff_iff, List.any_eq_true, decide_eq_true_eq, List.mem_map]
    simp only [List.mem_filter, decide_eq_true_eq]
    exact exists_congr fun row => by tauto
  have hbudget : ∀ rows : WorkOrderRows, (rows.budgets.any fun budget =>
        decide (some budget.id = part.budgetId ∧ budget.status = .approved)) =
      (rows.budgets.filter fun budget => budget.status = .approved).any fun budget =>
        decide (some budget.id = part.budgetId) := by
    intro rows
    rw [Bool.eq_iff_iff, List.any_eq_true, List.any_eq_true]
    simp only [List.mem_filter, decide_eq_true_eq]
    exact exists_congr fun budget => by tauto
  rw [WorkOrderRows.isDemanded, WorkOrderRows.isDemanded, hwork, hwork, hbudget, hbudget,
    h.inExecution, h.approved]

/-- The same demand is outstanding of every item. -/
theorem outstandingOf_congr
    (h : SameDemand tables.toWorkOrderRows tables'.toWorkOrderRows) :
    tables'.outstandingOf itemId = tables.outstandingOf itemId := by
  have hattached : ∀ tables : WorkOrderTables, tables.outstandingOf itemId =
      sumWhere (tables.isDemanded itemId)
        (fun part => part.plannedQuantity.units - part.withdrawnQuantity)
        (tables.parts.filter fun part => part.budgetId.isSome) := by
    intro tables
    rw [outstandingOf_eq_parts, sumWhere_filter]
    refine sumWhere_congr (fun part _ => ?_) fun _ _ _ => rfl
    cases hbudget : part.budgetId with
    | some id => simp
    | none => simp [WorkOrderRows.isDemanded, hbudget]
  rw [hattached, hattached, h.attached]
  exact sumWhere_congr (fun part _ => h.isDemanded part) fun _ _ _ => rfl

/-- A save of a work order changes the demand by what it changes of the work order. -/
theorem outstandingOf_save (hown : tables.OwnBudgets) (hown' : tables'.OwnBudgets)
    (hsave : tables.save workOrder = .ok tables') {state state' : WorkOrder}
    (hstate : tables.stateOf workOrder.id = some state)
    (hstate' : tables'.stateOf workOrder.id = some state') :
    tables'.outstandingOf itemId = tables.outstandingOf itemId +
      (state'.remainingOf itemId - state.remainingOf itemId) := by
  obtain ⟨row, hrow, hid, -⟩ := WorkOrderTables.stateOf_eq_some_iff.mp hstate
  obtain ⟨workOrders, hwrite, hrows⟩ := save_ok hsave
  have hids : tables'.workOrders.map WorkOrderRow.id =
      tables.workOrders.map WorkOrderRow.id := by
    rw [hrows]
    rcases writeRow_cases hwrite with ⟨hnone, -⟩ | ⟨found, -, -, rfl⟩
    · rw [hstate] at hnone
      cases hnone
    · rw [List.map_map]
      refine List.map_congr_left fun other _ => ?_
      simp only [Function.comp_apply]
      split
      · rename_i hself
        exact hself.symm
      · rfl
  have hsum : ∀ tables : WorkOrderTables, tables.OwnBudgets →
      tables.outstandingOf itemId = sumWhere (fun _ => true)
        (fun id => tables.remainingOf id itemId) (tables.workOrders.map WorkOrderRow.id) := by
    intro tables hown
    rw [outstandingOf_eq_remaining hown, sumWhere_map]
    rfl
  have hnodup : ((tables.workOrders.map WorkOrderRow.id).map id).Nodup := by
    rw [List.map_id]
    exact tables.constraints.uxExternalId
  have hsingle := sumWhere_single (q := fun _ => true)
    (state'.remainingOf itemId - state.remainingOf itemId) hnodup (List.mem_map_of_mem hrow) rfl
  simp only [id_eq] at hsingle
  rw [hsum tables' hown', hids, hsum tables hown, ← hsingle, ← sumWhere_add]
  refine sumWhere_congr (fun _ _ => rfl) fun other _ _ => ?_
  by_cases hself : other = row.id
  · rw [if_pos hself, hself, hid, WorkOrderTables.remainingOf, hstate',
      WorkOrderTables.remainingOf, hstate]
    dsimp only
    omega
  · rw [if_neg hself, add_zero, WorkOrderTables.remainingOf, WorkOrderTables.remainingOf,
      stateOf_save_of_ne hsave (hid ▸ hself)]

/-- A save attaches parts to budgets of their own work order. -/
theorem WorkOrderRows.OwnBudgets.save (h : tables.OwnBudgets)
    (hsave : tables.save workOrder = .ok tables') (hwritable : tables.Writable workOrder) :
    tables'.OwnBudgets := by
  intro part hpart id hid
  by_cases hself : part.workOrderId = workOrder.id
  · obtain ⟨-, hparts, hbudgets⟩ := rows_save hsave hwritable
    have hwritten : part ∈ rowsOf PartRow.workOrderId workOrder.id tables'.parts :=
      mem_rowsOf.mpr ⟨hpart, hself⟩
    rw [hparts.mem_iff] at hwritten
    obtain ⟨item, -, rfl⟩ := List.mem_map.mp hwritten
    obtain ⟨round, -, hround⟩ := Option.bind_eq_some_iff.mp hid
    obtain ⟨budget, hbudget, rfl⟩ := Option.map_eq_some_iff.mp hround
    have hmem : ({ budget with workOrderId := workOrder.id } : BudgetRow) ∈
        workOrder.budgetRows :=
      List.mem_map_of_mem (List.mem_reverse.mp (List.mem_of_find?_eq_some hbudget))
    obtain ⟨hstored, howner⟩ := mem_rowsOf.mp (hbudgets.mem_iff.mpr hmem)
    exact ⟨_, hstored, rfl, rfl⟩
  · obtain ⟨-, hparts, hbudgets⟩ := rowsOf_save_of_ne hsave hself
    have hold : part ∈ rowsOf PartRow.workOrderId part.workOrderId tables'.parts :=
      mem_rowsOf.mpr ⟨hpart, rfl⟩
    rw [hparts] at hold
    obtain ⟨budget, hbudget, hsame, howner⟩ := h part (mem_rowsOf.mp hold).1 id hid
    have hkept : budget ∈ rowsOf BudgetRow.workOrderId part.workOrderId tables.budgets :=
      mem_rowsOf.mpr ⟨hbudget, howner⟩
    rw [← hbudgets] at hkept
    exact ⟨budget, (mem_rowsOf.mp hkept).1, hsame, howner⟩

end Changes

section Runs

variable {settings : OutboxSettings} {config : Config WorkshopDb SagaPlace}
variable {log : List SagaEffect}

/-- In every reachable state the parts are on budgets of their own work orders. -/
theorem ownBudgets_of_reaches (h : SagaReaches settings config log) :
    config.store.tables.OwnBudgets := by
  refine ReachesBy.invariant (P := fun config _ => config.store.tables.OwnBudgets)
    (fun part hpart => absurd hpart List.not_mem_nil) ?_ h
  intro config log pid input out before hown _ hexec
  obtain ⟨hserial, hplaces⟩ := serial_of_reaches before
  have hplace := (made_of_reaches before).2 pid
  have hread := hplaces pid
  have hchange := (sagaMove_of_exec hexec).tables
  rw [Config.after_store]
  revert hchange hplace hread
  generalize out.store.tables = tables'
  generalize out.effects = effects
  generalize config.places pid = place
  intro hplace hread hchange
  cases hchange with
  | same _ hsaved hcreated => exact hown
  | create workOrder _ hsave => exact hown.save hsave (hplace.writable hread)
  | save edit step _ hsave =>
      obtain ⟨fresh, -, hfollows⟩ := hplace.1.follows
      exact hown.save hsave
        (save_edit_writable hserial.sound hread hplace.2.children hfollows hsave).1
  | commit withdrawal _ hsave =>
      obtain ⟨fresh, -, hfollows⟩ := hplace.1.follows
      exact hown.save hsave
        (save_edit_writable hserial.sound hread hplace.2.children hfollows hsave).1

end Runs

end WorkOrders

end Workshop
