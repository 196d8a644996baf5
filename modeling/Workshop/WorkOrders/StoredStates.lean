/-
The state the stored rows of a work order stand for, and what the two readers
make of it: the repository restores it, and the read side answers it.
-/
import Workshop.WorkOrders.StoredReads

namespace Workshop

namespace WorkOrders

namespace StoredRows

variable (rows : StoredRows) (self : InternalId)

def servicesOf : List StoredService :=
  rowsOf StoredService.workOrderInternalId self rows.services

def partsOf : List StoredPart :=
  rowsOf StoredPart.workOrderInternalId self rows.parts

def budgetsOf : List StoredBudget :=
  rowsOf StoredBudget.workOrderInternalId self rows.budgets

end StoredRows

/-- The tables store a state in the row of its work order and in the rows of its
children, whose rounds are keys of the budget rows. -/
structure StoredAs (owners : Owners) (rows : StoredRows) (row : StoredWorkOrder)
    (state : WorkOrder) : Prop where
  stored : row ∈ rows.workOrders
  written : RowWritten owners row.id state row
  known : state.RoundsKnown
  budgets : RowsFor (fun budget found => BudgetWritten owners row.id found.id budget found)
    state.budgets (rows.budgetsOf row.id)
  services : RowsFor (fun item found => ServiceWritten owners row.id found.id
    (internalIdByRound (rows.budgetsOf row.id)) item found)
    state.serviceItems (rows.servicesOf row.id)
  parts : RowsFor (fun item found => PartWritten owners row.id found.id
    (internalIdByRound (rows.budgetsOf row.id)) item found)
    state.partItems (rows.partsOf row.id)

section Keys

variable {tables : StoredTables} {self : InternalId}

theorem budgetsOf_ids_nodup : ((tables.budgetsOf self).map StoredBudget.id).Nodup :=
  tables.constraints.pkBudgets.sublist (List.filter_sublist.map _)

/-- A work order has one budget row for each round. -/
theorem budgetsOf_rounds_nodup :
    ((tables.budgetsOf self).map StoredBudget.round).Nodup := by
  have hpairs := tables.constraints.uxBudgetsRound.sublist
    ((List.filter_sublist (p := fun row : StoredBudget =>
      decide (row.workOrderInternalId = self))).map _)
  have hsame : ((tables.budgetsOf self).map fun row =>
      (row.workOrderInternalId, row.round)) =
        ((tables.budgetsOf self).map StoredBudget.round).map (Prod.mk self) := by
    rw [List.map_map]
    refine List.map_congr_left fun row hrow => ?_
    rw [Function.comp_apply, (mem_rowsOf.mp hrow).2]
  rw [StoredRows.budgetsOf, rowsOf] at hsame
  rw [hsame] at hpairs
  exact List.Nodup.of_map _ hpairs

end Keys

section Reads

variable {owners : Owners} {tables : StoredTables} {row : StoredWorkOrder}
variable {state : WorkOrder}

/-- The key an item has of its budget leads both readers back to its round. -/
theorem StoredAs.round_read (h : StoredAs owners tables.toStoredRows row state)
    {round : Option Nat}
    (hround : ∀ named, round = some named → named ∈ state.budgets.map Budget.round) :
    (∀ arranged : List StoredBudget, arranged.Perm (tables.budgetsOf row.id) →
      (round.bind (internalIdByRound (tables.budgetsOf row.id))).bind
        (roundByBudgetInternalId arranged) = round) ∧
      joinedRound tables.budgets
        (round.bind (internalIdByRound (tables.budgetsOf row.id))) = round := by
  cases round with
  | none => exact ⟨fun _ _ => rfl, rfl⟩
  | some named =>
      obtain ⟨budget, hbudget, hnamed⟩ := List.mem_map.mp (hround named rfl)
      obtain ⟨found, hfound, hwritten⟩ := h.budgets.exists_row hbudget
      have hkey : internalIdByRound (tables.budgetsOf row.id) named = some found.id := by
        rw [internalIdByRound, (find?_reverse_eq_some_iff budgetsOf_rounds_nodup).mpr
          ⟨hfound, hwritten.round.trans hnamed⟩]
        rfl
      have hback : some found.round = some named := by
        rw [hwritten.round, hnamed]
      rw [Option.bind_some, hkey]
      refine ⟨fun arranged hperm => ?_, ?_⟩
      · have hids := (hperm.map StoredBudget.id).nodup_iff.mpr budgetsOf_ids_nodup
        rw [Option.bind_some, roundByBudgetInternalId,
          (find?_reverse_eq_some_iff hids).mpr ⟨hperm.mem_iff.mpr hfound, rfl⟩]
        exact hback
      · rw [joinedRound, Option.bind_some, find?_key_of_mem
          tables.constraints.pkBudgets (mem_rowsOf.mp hfound).1]
        exact hback

/-- What is read from the budget rows by round comes in the order of the
rounds. -/
theorem rounds_increase {B : Type} {read : StoredBudget → Except StoredError B}
    (roundOf : B → Nat) {rows : List StoredBudget} {answers : List B}
    (hround : ∀ {row answer}, read row = .ok answer → roundOf answer = row.round)
    (hrounds : (rows.map StoredBudget.round).Nodup)
    (h : (rows.insertionSort fun a b => a.round ≤ b.round).mapM read = .ok answers) :
    answers.Pairwise fun left right => roundOf left < roundOf right := by
  have hsame : (rows.insertionSort fun a b => a.round ≤ b.round).map
      StoredBudget.round = answers.map roundOf :=
    map_eq_map_of_forall₂
      ((forall₂_of_mapM_eq_ok h).imp fun _ _ hread => (hround hread).symm)
  have hnodup := ((List.perm_insertionSort (fun a b : StoredBudget =>
    a.round ≤ b.round) rows).map StoredBudget.round).nodup_iff.mpr hrounds
  have hsorted := List.pairwise_map.mpr (List.pairwise_insertionSort
    (fun a b : StoredBudget => a.round ≤ b.round) rows)
  have hboth := (hsorted.and hnodup).imp fun hpair => lt_of_le_of_ne hpair.1 hpair.2
  rw [hsame] at hboth
  exact List.pairwise_map.mp hboth

theorem round_of_restoreBudget {found : StoredBudget} {budget : Budget}
    (h : restoreBudget owners found = .ok budget) : budget.round = found.round := by
  obtain ⟨total, -, h⟩ := bind_eq_ok_iff.mp h
  rw [pure_eq_ok_iff] at h
  rw [← h]

theorem round_of_budgetToDto {found : StoredBudget} {dto : WorkOrderBudgetDto}
    (h : budgetToDto owners found = .ok dto) : dto.round = found.round := by
  obtain ⟨total, -, h⟩ := bind_eq_ok_iff.mp h
  rw [pure_eq_ok_iff] at h
  rw [← h]

/-- Summaries none of which is left out. -/
theorem reduceOption_perm {α β : Type} {items : List α} {f : α → β}
    {answers : List (Option β)} (h : answers.Perm (items.map fun item => some (f item))) :
    answers.reduceOption.Perm (items.map f) := by
  have hsome := h.filterMap id
  rw [List.filterMap_map] at hsome
  rwa [← List.filterMap_eq_map]

/-- The repository restores the state, whatever order it reads the rows in. -/
theorem StoredAs.findByNumber (h : StoredAs owners tables.toStoredRows row state)
    (orders : LoadOrders) :
    ∃ loaded, tables.findByNumber owners orders state.number = .ok (some loaded) ∧
      SameState loaded state ∧
      loaded.budgets.Pairwise fun left right => left.round < right.round := by
  have hbudgetRows := orders.budgets.perm (tables.budgetsOf row.id)
  obtain ⟨rounds, hrounds, hbudgets⟩ := h.budgets.mapM id
    (fun budget _ found hwritten => hwritten.restored)
    ((List.perm_insertionSort (fun a b : StoredBudget => a.round ≤ b.round) _).trans
      hbudgetRows)
  obtain ⟨serviceItems, hserviceRows, hservices⟩ := h.services.mapM id
    (fun item hitem found hwritten => hwritten.restored _
      ((h.round_read (h.known.1 item hitem)).1 _ hbudgetRows))
    (orders.services.perm _)
  obtain ⟨partItems, hpartRows, hparts⟩ := h.parts.mapM id
    (fun item hitem found hwritten => hwritten.restored _
      ((h.round_read (h.known.2 item hitem)).1 _ hbudgetRows))
    (orders.parts.perm _)
  rw [List.map_id] at hbudgets hservices hparts
  have hfind : tables.workOrders.find? (fun other => other.number = state.number) =
      some row := by
    rw [← h.written.number]
    exact find?_key_of_mem tables.constraints.uxNumber h.stored
  refine ⟨{ state with
    serviceItems, partItems, budgets := rounds, domainEvents := [] }, ?_,
    ⟨rfl, hservices, hparts, hbudgets⟩, ?_⟩
  · simp only [StoredRows.budgetsOf, StoredRows.servicesOf, StoredRows.partsOf] at *
    simp only [StoredTables.findByNumber, hfind, restoreWorkOrder,
      h.written.restored, hrounds, hserviceRows, hpartRows]
    rfl
  · exact rounds_increase Budget.round round_of_restoreBudget
      ((hbudgetRows.map _).nodup_iff.mpr budgetsOf_rounds_nodup) hrounds

/-- The read side answers the state. -/
theorem StoredAs.getByNumber (h : StoredAs owners tables.toStoredRows row state) :
    ∃ dto, tables.getByNumber owners state.number = .ok (some dto) ∧
      dto.Answers state := by
  obtain ⟨budgets, hbudgets, hbudgetsPerm⟩ := h.budgets.mapM Budget.toDto
    (fun budget _ found hwritten => hwritten.answered)
    (List.perm_insertionSort (fun a b : StoredBudget => a.round ≤ b.round) _)
  obtain ⟨services, hservices, hservicesPerm⟩ := h.services.mapM
    (fun item => some item.toDto)
    (fun item hitem found hwritten => hwritten.answered _
      (h.round_read (h.known.1 item hitem)).2)
    (List.perm_insertionSort (fun a b : StoredService => a.id ≤ b.id) _)
  obtain ⟨parts, hparts, hpartsPerm⟩ := h.parts.mapM
    (fun item => some item.toDto)
    (fun item hitem found hwritten => hwritten.answered _
      (h.round_read (h.known.2 item hitem)).2)
    (List.perm_insertionSort (fun a b : StoredPart => a.id ≤ b.id) _)
  have hrow := h.written.answered tables services parts budgets hservices hparts hbudgets
  have hfilter : tables.workOrders.filter (fun other => other.number = state.number) =
      [row] := by
    rw [← h.written.number]
    exact filter_key_eq_singleton tables.constraints.uxNumber h.stored
  refine ⟨{ state.toDto with
    serviceItems := services.reduceOption, partItems := parts.reduceOption
    budgets }, ?_, rfl, reduceOption_perm hservicesPerm, reduceOption_perm hpartsPerm,
    hbudgetsPerm, ?_⟩
  · rw [StoredTables.getByNumber, hfilter, List.mapM_cons, hrow]
    rfl
  · exact rounds_increase WorkOrderBudgetDto.round round_of_budgetToDto
      budgetsOf_rounds_nodup hbudgets

end Reads

end WorkOrders

end Workshop
