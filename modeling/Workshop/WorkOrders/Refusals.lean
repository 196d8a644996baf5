/-
The work orders a program can hold, and what an operation that one of them
refuses leaves: the work order as it was, whatever had been written before the
throw.
-/
import Workshop.WorkOrders.LoadAndSave
import Workshop.WorkOrders.Operations

namespace Workshop

namespace WorkOrders

/-- What a load answers of a saved work order: its state under the row that was
written, its budgets by round and nothing recorded. -/
structure LoadedFrom (saved loaded : WorkOrder) : Prop where
  state : SameState loaded { saved with
    createdAt := loaded.createdAt, version := loaded.version }
  ordered : loaded.budgets.Pairwise fun left right => left.round ≤ right.round
  recorded : loaded.domainEvents = []

/-- The work orders that openings, operations and loads lead to, operations that
throw included. -/
inductive WorkOrder.Reachable : WorkOrder → Prop
  | opened (input : OpenWorkOrderInput) :
      WorkOrder.Reachable (WorkOrder.openWorkOrder input)
  | performed {workOrder : WorkOrder} (operation : WorkOrderOperation)
      (before : WorkOrder.Reachable workOrder) :
      WorkOrder.Reachable (operation.perform workOrder)
  | loaded {saved loaded : WorkOrder} (before : WorkOrder.Reachable saved)
      (hload : LoadedFrom saved loaded) : WorkOrder.Reachable loaded

section Loads

variable {saved loaded : WorkOrder}

/-- Budgets numbered one after another are loaded in the order they were in. -/
theorem LoadedFrom.budgets_eq (hload : LoadedFrom saved loaded)
    (hnumbered : saved.budgets.map Budget.round =
      List.range' 1 saved.budgets.length) : loaded.budgets = saved.budgets := by
  have hperm : loaded.budgets.Perm saved.budgets := hload.state.budgets
  have hrounds : (saved.budgets.map Budget.round).Nodup := by
    rw [hnumbered]
    exact List.nodup_range'
  have hordered : saved.budgets.Pairwise fun left right =>
      left.round ≤ right.round := by
    have hmap : (saved.budgets.map Budget.round).Pairwise (· < ·) := by
      rw [hnumbered]
      exact List.pairwise_lt_range'
    exact (List.pairwise_map.mp hmap).imp fun hless => Nat.le_of_lt hless
  refine hperm.eq_of_pairwise ?_ hload.ordered hordered
  intro left right hleft hright hle hge
  exact List.inj_on_of_nodup_map hrounds (hperm.mem_iff.mp hleft) hright
    (Nat.le_antisymm hle hge)

/-- A load keeps the structure of the rounds. -/
theorem LoadedFrom.roundsSound {rules : BillingRules} (hload : LoadedFrom saved loaded)
    (hsound : saved.billing.RoundsSound rules) : loaded.billing.RoundsSound rules := by
  have hstatus : loaded.status = saved.status := hload.state.status
  have hbudgets := hload.budgets_eq hsound.staged.numbered
  have hservices : loaded.serviceItems.Perm saved.serviceItems :=
    hload.state.services
  have hparts : loaded.partItems.Perm saved.partItems := hload.state.parts
  constructor
  · have hstaged := hsound.staged
    change Staged loaded.status loaded.budgets
    rw [hstatus, hbudgets]
    exact hstaged
  · have hquoted := hsound.quoted
    constructor
    · intro item hitem round hround
      change round ∈ loaded.budgets.map Budget.round
      rw [hbudgets]
      exact hquoted.serviceRounds item (hservices.mem_iff.mp hitem) round hround
    · intro item hitem round hround
      change round ∈ loaded.budgets.map Budget.round
      rw [hbudgets]
      exact hquoted.partRounds item (hparts.mem_iff.mp hitem) round hround
    · exact fun item hitem =>
        hquoted.servicePrices item (hservices.mem_iff.mp hitem)
    · exact fun item hitem => hquoted.partPrices item (hparts.mem_iff.mp hitem)
    · intro budget hbudget
      change budget ∈ loaded.budgets at hbudget
      rw [hbudgets] at hbudget
      have hsame : loaded.billing.roundTotal budget.round =
          saved.billing.roundTotal budget.round :=
        congrArg₂ (· + ·) (sumWhere_perm hservices) (sumWhere_perm hparts)
      rw [hsame]
      exact hquoted.totals budget hbudget

end Loads

/-- The rounds of a work order that can be held are in order. -/
theorem WorkOrder.Reachable.roundsSound {workOrder : WorkOrder}
    (h : WorkOrder.Reachable workOrder) :
    workOrder.billing.RoundsSound (roundedRules fun _ => True) := by
  induction h with
  | opened input => exact roundsSound_open input
  | performed operation _ ih =>
      exact ih.steps (operation.perform_steps ih (obeys_rounded fun _ _ => trivial))
  | loaded _ hload ih => exact hload.roundsSound ih

theorem WorkOrder.Reachable.performAll {workOrder : WorkOrder}
    (h : WorkOrder.Reachable workOrder) (operations : List WorkOrderOperation) :
    WorkOrder.Reachable (performAll operations workOrder) := by
  induction operations generalizing workOrder with
  | nil => exact h
  | cons operation operations ih => exact ih (h.performed operation)

/-- An operation that throws leaves the work order exactly as it was: its row,
its items, its budgets and the events recorded so far. -/
theorem refused_changes_nothing {workOrder : WorkOrder}
    (hreachable : workOrder.Reachable) (operation : WorkOrderOperation)
    {error : WorkOrderError} {left : WorkOrder}
    (hthrows : Throws operation.run workOrder error left) : left = workOrder :=
  operation.unchanged_of_throws hreachable.roundsSound hthrows

namespace BillingWitness

theorem filterPrice_nonneg : (0 : Int) ≤ 1000 := by decide

theorem fourFilters_pos : (0 : Int) < 4 := by decide

theorem fourFilters_le_max : (4 : Int) ≤ maxPlannedQuantity := by decide

/-- A visit in execution with two parts planned and approved. -/
def underway : List WorkOrderOperation :=
  [.planPart ⟨11, 21, "F-1", "Filter", ⟨1000, filterPrice_nonneg⟩,
      ⟨4, fourFilters_pos, fourFilters_le_max⟩, 4, 101⟩,
    .planPart ⟨12, 22, "B-1", "Belt", ⟨2500, by decide⟩, ⟨1, by decide, by decide⟩,
      4, 102⟩,
    .startDiagnosis ⟨5, 103⟩, .completeDiagnosis ⟨30, 5, 104⟩,
    .approveBudget ⟨4, 105, none⟩]

/-- The second line of a batch asks for more than was planned, and the first is
not applied either. -/
theorem refused_changes_nothing_secondLine :
    ∃ error left, Throws (WorkOrderOperation.withdrawParts
        ⟨[⟨11, 2⟩, ⟨12, 2⟩], 5, 106⟩).run
        (performAll underway (.openWorkOrder opened)) error left ∧
      left = performAll underway (.openWorkOrder opened) := by
  have hthrows : Throws (WorkOrderOperation.withdrawParts
      ⟨[⟨11, 2⟩, ⟨12, 2⟩], 5, 106⟩).run
      (performAll underway (.openWorkOrder opened)) .withdrawalExceedsPlanned
      (performAll underway (.openWorkOrder opened)) := rfl
  exact ⟨_, _, hthrows, refused_changes_nothing
    ((WorkOrder.Reachable.opened opened).performAll underway) _ hthrows⟩

end BillingWitness

end WorkOrders

end Workshop
