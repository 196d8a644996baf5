/-
What a load reads and what a save leaves, as one work order: the state the
tables hold under an id, whatever order its children are listed in.
-/
import Workshop.WorkOrders.Repository
import Workshop.WorkOrders.WorkOrderMethods

namespace Workshop

namespace WorkOrders

/-- Two aggregates of one state: the same row and the same children, listed in
any order.  Recorded events are not part of the state. -/
structure SameState (left right : WorkOrder) : Prop where
  row : left.toWorkOrderRow = right.toWorkOrderRow
  services : left.serviceItems.Perm right.serviceItems
  parts : left.partItems.Perm right.partItems
  budgets : left.budgets.Perm right.budgets

namespace SameState

variable {left right last : WorkOrder}

theorem refl (workOrder : WorkOrder) : SameState workOrder workOrder :=
  ⟨rfl, List.Perm.refl _, List.Perm.refl _, List.Perm.refl _⟩

theorem symm (h : SameState left right) : SameState right left :=
  ⟨h.row.symm, h.services.symm, h.parts.symm, h.budgets.symm⟩

theorem trans (h : SameState left right) (hlast : SameState right last) :
    SameState left last :=
  ⟨h.row.trans hlast.row, h.services.trans hlast.services,
    h.parts.trans hlast.parts, h.budgets.trans hlast.budgets⟩

theorem version (h : SameState left right) : left.version = right.version :=
  congrArg WorkOrderRow.version h.row

theorem status (h : SameState left right) : left.status = right.status :=
  congrArg WorkOrderRow.status h.row

theorem withdrawnOf (h : SameState left right) (itemId : ItemId) :
    left.withdrawnOf itemId = right.withdrawnOf itemId :=
  sumWhere_perm h.parts

theorem draftsUntouched (h : SameState left right)
    (hright : right.DraftsUntouched) : left.DraftsUntouched := fun item hitem =>
  hright item (h.parts.mem_iff.mp hitem)

theorem roundsKnown (h : SameState left right) (hright : right.RoundsKnown) :
    left.RoundsKnown := by
  have hrounds : ∀ round, round ∈ right.budgets.map Budget.round →
      round ∈ left.budgets.map Budget.round := fun round hround =>
    (h.budgets.map Budget.round).mem_iff.mpr hround
  constructor
  · intro item hitem round hround
    exact hrounds round (hright.1 item (h.services.mem_iff.mp hitem) round hround)
  · intro item hitem round hround
    exact hrounds round (hright.2 item (h.parts.mem_iff.mp hitem) round hround)

end SameState

section Lookup

variable {α : Type} {κ : Type} [DecidableEq κ] {key : α → κ} {l m : List α}

/-- Among rows told apart by a key, the last one under a key is the one that
has it. -/
theorem find?_reverse_eq_some_iff (hkeys : (l.map key).Nodup) {k : κ} {a : α} :
    (l.reverse.find? fun other => key other = k) = some a ↔
      a ∈ l ∧ key a = k := by
  constructor
  · intro hfind
    exact ⟨List.mem_reverse.mp (List.mem_of_find?_eq_some hfind),
      by simpa using List.find?_some hfind⟩
  · rintro ⟨hmem, hkey⟩
    cases hfind : l.reverse.find? fun other => key other = k with
    | none =>
        exact absurd hkey (by
          simpa using List.find?_eq_none.mp hfind a (List.mem_reverse.mpr hmem))
    | some found =>
        have hfound : key found = k := by simpa using List.find?_some hfind
        rw [List.inj_on_of_nodup_map hkeys
          (List.mem_reverse.mp (List.mem_of_find?_eq_some hfind)) hmem
          (hfound.trans hkey.symm)]

theorem find?_reverse_perm (hkeys : (l.map key).Nodup) (hperm : l.Perm m) (k : κ) :
    (l.reverse.find? fun other => key other = k) =
      m.reverse.find? fun other => key other = k := by
  refine Option.ext fun a => ?_
  rw [find?_reverse_eq_some_iff hkeys,
    find?_reverse_eq_some_iff ((hperm.map key).nodup_iff.mp hkeys),
    hperm.mem_iff]

end Lookup

/-- Reading the children in another order reads the same state. -/
theorem toDomain_sameState {row : WorkOrderRow} {services services' : List ServiceRow}
    {parts parts' : List PartRow} {budgets budgets' : List BudgetRow}
    (hids : (budgets.map fun row => row.id).Nodup)
    (hservices : services.Perm services') (hparts : parts.Perm parts')
    (hbudgets : budgets.Perm budgets') :
    SameState (toDomain row services parts budgets)
      (toDomain row services' parts' budgets') := by
  have hround : roundOfBudget budgets = roundOfBudget budgets' :=
    funext fun id => by
      rw [roundOfBudget, roundOfBudget, find?_reverse_perm hids hbudgets]
  have hservice : ServiceRow.toDomain budgets = ServiceRow.toDomain budgets' :=
    funext fun row => by rw [ServiceRow.toDomain, ServiceRow.toDomain, hround]
  have hpart : PartRow.toDomain budgets = PartRow.toDomain budgets' :=
    funext fun row => by rw [PartRow.toDomain, PartRow.toDomain, hround]
  constructor
  · rfl
  · simp only [toDomain]
    rw [hservice]
    exact hservices.map _
  · simp only [toDomain]
    rw [hpart]
    exact hparts.map _
  · have hsorted : ∀ rows : List BudgetRow,
        ((rows.insertionSort fun a b => a.round ≤ b.round).map
          BudgetRow.toBudget).Perm (rows.map BudgetRow.toBudget) := fun rows =>
      (List.perm_insertionSort _ rows).map _
    exact (hsorted budgets).trans ((hbudgets.map _).trans (hsorted budgets').symm)

section RoundTrip

variable {workOrder : WorkOrder}

/-- The round of an item survives being stored as a reference to its budget. -/
theorem roundOfBudget_budgetOfRound {rows : List BudgetRow} {round : Nat}
    (hperm : rows.Perm workOrder.budgetRows)
    (hids : (workOrder.budgets.map Budget.id).Nodup)
    (hrounds : (workOrder.budgets.map Budget.round).Nodup)
    (hround : round ∈ workOrder.budgets.map Budget.round) :
    (budgetOfRound workOrder.budgets round).bind (roundOfBudget rows) =
      some round := by
  obtain ⟨budget, hbudget, rfl⟩ := List.mem_map.mp hround
  have hfind := (find?_reverse_eq_some_iff hrounds).mpr ⟨hbudget, rfl⟩
  have hrowIds : (rows.map fun row => row.id).Nodup := by
    rw [(hperm.map _).nodup_iff, WorkOrder.budgetRows, List.map_map]
    exact hids
  have hrow : { budget with workOrderId := workOrder.id } ∈ rows :=
    hperm.mem_iff.mpr (List.mem_map.mpr ⟨budget, hbudget, rfl⟩)
  have hfindRow := (find?_reverse_eq_some_iff hrowIds).mpr ⟨hrow, rfl⟩
  rw [budgetOfRound, hfind, Option.map_some, Option.bind_some, roundOfBudget,
    hfindRow, Option.map_some]

/-- What the mapper writes, read back in any order, is what was written. -/
theorem toDomain_rows {row : WorkOrderRow} {services : List ServiceRow}
    {parts : List PartRow} {budgets : List BudgetRow}
    (hids : (workOrder.budgets.map Budget.id).Nodup)
    (hrounds : (workOrder.budgets.map Budget.round).Nodup)
    (hknown : workOrder.RoundsKnown)
    (hservices : services.Perm workOrder.serviceRows)
    (hparts : parts.Perm workOrder.partRows)
    (hbudgets : budgets.Perm workOrder.budgetRows) :
    SameState (toDomain row services parts budgets)
      { workOrder with toWorkOrderRow := row } := by
  have hback : ∀ {round : Option Nat},
      (∀ named, round = some named → named ∈ workOrder.budgets.map Budget.round) →
      (round.bind (budgetOfRound workOrder.budgets)).bind (roundOfBudget budgets) =
        round := by
    intro round hnamed
    cases round with
    | none => rfl
    | some named =>
        exact roundOfBudget_budgetOfRound hbudgets hids hrounds (hnamed named rfl)
  constructor
  · rfl
  · have hitems : workOrder.serviceRows.map (ServiceRow.toDomain budgets) =
        workOrder.serviceItems := by
      rw [WorkOrder.serviceRows, List.map_map]
      refine (List.map_congr_left fun item hitem => ?_).trans (List.map_id _)
      simp only [Function.comp, ServiceRow.toDomain, id]
      rw [hback fun named hnamed => hknown.1 item hitem named hnamed]
    exact (hservices.map _).trans (List.Perm.of_eq hitems)
  · have hitems : workOrder.partRows.map (PartRow.toDomain budgets) =
        workOrder.partItems := by
      rw [WorkOrder.partRows, List.map_map]
      refine (List.map_congr_left fun item hitem => ?_).trans (List.map_id _)
      simp only [Function.comp, PartRow.toDomain, id]
      rw [hback fun named hnamed => hknown.2 item hitem named hnamed]
    exact (hparts.map _).trans (List.Perm.of_eq hitems)
  · have hitems : workOrder.budgetRows.map BudgetRow.toBudget =
        workOrder.budgets := by
      rw [WorkOrder.budgetRows, List.map_map]
      exact (List.map_congr_left fun budget _ => rfl).trans (List.map_id _)
    exact ((List.perm_insertionSort _ budgets).map _).trans
      ((hbudgets.map _).trans (List.Perm.of_eq hitems))

end RoundTrip

namespace WorkOrderTables

/-- The work order the tables hold under an id. -/
def stateOf (tables : WorkOrderTables) (workOrderId : WorkOrderId) :
    Option WorkOrder :=
  (tables.workOrders.find? fun row => row.id = workOrderId).map fun row =>
    toDomain row (rowsOf ServiceRow.workOrderId workOrderId tables.services)
      (rowsOf PartRow.workOrderId workOrderId tables.parts)
      (rowsOf BudgetRow.workOrderId workOrderId tables.budgets)

section States

variable {tables tables' : WorkOrderTables} {workOrderId : WorkOrderId}
variable {workOrder state : WorkOrder}

theorem stateOf_eq_some_iff :
    tables.stateOf workOrderId = some state ↔
      ∃ row ∈ tables.workOrders, row.id = workOrderId ∧
        toDomain row (rowsOf ServiceRow.workOrderId workOrderId tables.services)
          (rowsOf PartRow.workOrderId workOrderId tables.parts)
          (rowsOf BudgetRow.workOrderId workOrderId tables.budgets) = state := by
  rw [stateOf, Option.map_eq_some_iff]
  constructor
  · rintro ⟨row, hfind, hstate⟩
    exact ⟨row, List.mem_of_find?_eq_some hfind,
      by simpa using List.find?_some hfind, hstate⟩
  · rintro ⟨row, hrow, hid, hstate⟩
    refine ⟨row, ?_, hstate⟩
    cases hfind : tables.workOrders.find? fun row => row.id = workOrderId with
    | none =>
        exact absurd hid (by simpa using List.find?_eq_none.mp hfind row hrow)
    | some found =>
        have hfound : found.id = workOrderId := by
          simpa using List.find?_some hfind
        rw [List.inj_on_of_nodup_map tables.constraints.uxExternalId
          (List.mem_of_find?_eq_some hfind) hrow (hfound.trans hid.symm)]

theorem stateOf_isSome_iff :
    (tables.stateOf workOrderId).isSome ↔
      workOrderId ∈ tables.workOrders.map WorkOrderRow.id := by
  rw [Option.isSome_iff_exists, List.mem_map]
  constructor
  · rintro ⟨state, hstate⟩
    obtain ⟨row, hrow, hid, -⟩ := stateOf_eq_some_iff.mp hstate
    exact ⟨row, hrow, hid⟩
  · rintro ⟨row, hrow, hid⟩
    exact ⟨_, stateOf_eq_some_iff.mpr ⟨row, hrow, hid, rfl⟩⟩

/-- The units withdrawn according to the part rows of a work order. -/
def withdrawnOf (tables : WorkOrderTables) (workOrderId : WorkOrderId)
    (itemId : ItemId) : Int :=
  sumWhere (fun row => decide (row.inventoryItemId = itemId) &&
      decide (row.workOrderId = workOrderId))
    (fun row => row.withdrawnQuantity) tables.parts

theorem withdrawnOf_eq (h : tables.stateOf workOrderId = some state)
    (itemId : ItemId) :
    tables.withdrawnOf workOrderId itemId = state.withdrawnOf itemId := by
  obtain ⟨row, -, -, rfl⟩ := stateOf_eq_some_iff.mp h
  simp only [WorkOrder.withdrawnOf, toDomain, sumWhere_map]
  simp only [withdrawnOf, sumWhere, rowsOf, List.filter_filter]
  rfl

/-- A work order the tables do not hold has no rows. -/
theorem withdrawnOf_none (h : tables.stateOf workOrderId = none)
    (itemId : ItemId) : tables.withdrawnOf workOrderId itemId = 0 := by
  refine sumWhere_eq_zero fun row hrow htest => ?_
  have howner := tables.constraints.fkParts row hrow
  simp only [Bool.and_eq_true, decide_eq_true_eq] at htest
  rw [htest.2, ← stateOf_isSome_iff, h] at howner
  cases howner

/-- A withdrawn figure is never negative. -/
theorem withdrawnOf_nonneg (tables : WorkOrderTables) (workOrderId : WorkOrderId)
    (itemId : ItemId) : 0 ≤ tables.withdrawnOf workOrderId itemId :=
  sumWhere_nonneg fun row hrow _ => tables.constraints.chkWithdrawnQuantity row hrow

/-- A save that committed wrote the row and replaced the children. -/
theorem save_ok (hsave : tables.save workOrder = .ok tables') :
    ∃ workOrders, tables.writeRow workOrder = some workOrders ∧
      tables'.toWorkOrderRows = {
        workOrders
        services := tables.replaceServiceItems workOrder
        parts := tables.replacePartItems workOrder
        budgets := tables.replaceBudgets workOrder
        trail := tables.trail ++ workOrder.trailEvents } := by
  simp only [save] at hsave
  split at hsave
  · cases hsave
  · rename_i workOrders hrow
    split at hsave
    · cases hsave
      exact ⟨workOrders, hrow, rfl⟩
    · cases hsave

/-- The row a save writes over the row of a state. -/
def overwritten (state workOrder : WorkOrder) : WorkOrder :=
  { workOrder with
    createdAt := state.createdAt, version := state.version + 1 }

/-- The write of the row of a work order: an insert of a new one, or an update
guarded by the version. -/
theorem writeRow_cases {workOrders : List WorkOrderRow}
    (h : tables.writeRow workOrder = some workOrders) :
    (tables.stateOf workOrder.id = none ∧
        workOrders = tables.workOrders ++
          [{ workOrder.toWorkOrderRow with version := 0 }]) ∨
      ∃ state, tables.stateOf workOrder.id = some state ∧
        state.version = workOrder.version ∧
        workOrders = tables.workOrders.map fun row =>
          if row.id = workOrder.id then
            (overwritten state workOrder).toWorkOrderRow
          else row := by
  simp only [writeRow] at h
  split at h
  · rename_i hnone
    rw [Option.some.injEq] at h
    subst h
    exact Or.inl ⟨by rw [stateOf, hnone]; rfl, rfl⟩
  · rename_i existing hfind
    split at h
    · rename_i hversion
      rw [Option.some.injEq] at h
      subst h
      refine Or.inr ⟨_, by rw [stateOf, hfind]; rfl, hversion, ?_⟩
      simp only [overwritten, toDomain, hversion]
    · cases h

theorem serviceRows_owner : ∀ row ∈ workOrder.serviceRows,
    row.workOrderId = workOrder.id := by
  intro row hrow
  obtain ⟨item, -, rfl⟩ := List.mem_map.mp hrow
  rfl

theorem partRows_owner : ∀ row ∈ workOrder.partRows,
    row.workOrderId = workOrder.id := by
  intro row hrow
  obtain ⟨item, -, rfl⟩ := List.mem_map.mp hrow
  rfl

theorem budgetRows_owner : ∀ row ∈ workOrder.budgetRows,
    row.workOrderId = workOrder.id := by
  intro row hrow
  obtain ⟨budget, -, rfl⟩ := List.mem_map.mp hrow
  rfl

/-- A save leaves the children of every other work order as they were. -/
theorem rowsOf_save_of_ne (hsave : tables.save workOrder = .ok tables')
    (hne : workOrderId ≠ workOrder.id) :
    rowsOf ServiceRow.workOrderId workOrderId tables'.services =
        rowsOf ServiceRow.workOrderId workOrderId tables.services ∧
      rowsOf PartRow.workOrderId workOrderId tables'.parts =
        rowsOf PartRow.workOrderId workOrderId tables.parts ∧
      rowsOf BudgetRow.workOrderId workOrderId tables'.budgets =
        rowsOf BudgetRow.workOrderId workOrderId tables.budgets := by
  obtain ⟨workOrders, -, hrows⟩ := save_ok hsave
  simp only [hrows, replaceServiceItems, replacePartItems, replaceBudgets]
  rw [rowsOf_writeRows_of_ne hne serviceRows_owner, rowsOf_dropRows_of_ne hne,
    rowsOf_writeRows_of_ne hne partRows_owner, rowsOf_dropRows_of_ne hne,
    rowsOf_writeRows_of_ne hne budgetRows_owner]
  exact ⟨rfl, rfl, rfl⟩

/-- A save leaves the row of every other work order. -/
theorem mem_save_of_ne (hsave : tables.save workOrder = .ok tables')
    {row : WorkOrderRow} (hne : row.id ≠ workOrder.id) :
    row ∈ tables'.workOrders ↔ row ∈ tables.workOrders := by
  obtain ⟨workOrders, hrow, hrows⟩ := save_ok hsave
  rw [hrows]
  rcases writeRow_cases hrow with ⟨-, rfl⟩ | ⟨state, -, -, rfl⟩
  · rw [List.mem_append, List.mem_singleton]
    constructor
    · rintro (hmem | rfl)
      · exact hmem
      · exact absurd rfl hne
    · exact Or.inl
  · rw [List.mem_map]
    constructor
    · rintro ⟨before, hbefore, rfl⟩
      split at hne
      · exact absurd rfl hne
      · rename_i hother
        rwa [if_neg hother]
    · intro hmem
      exact ⟨row, hmem, if_neg hne⟩

/-- A save of a work order that has a row moves the version of the row on. -/
theorem version_save (hsave : tables.save workOrder = .ok tables')
    {row : WorkOrderRow} (hrow : row ∈ tables.workOrders)
    (hid : row.id = workOrder.id) :
    row.version = workOrder.version ∧ ∃ row' ∈ tables'.workOrders,
      row'.id = workOrder.id ∧ row'.version = row.version + 1 := by
  obtain ⟨workOrders, hwrite, hrows⟩ := save_ok hsave
  have hstored := stateOf_eq_some_iff.mpr ⟨row, hrow, hid, rfl⟩
  rcases writeRow_cases hwrite with ⟨hnone, -⟩ | ⟨state, hstate, hversion, rfl⟩
  · rw [hnone] at hstored
    cases hstored
  · have hsame : state.version = row.version := by
      rw [← Option.some.inj (hstored.symm.trans hstate)]
      rfl
    refine ⟨hsame.symm.trans hversion,
      (overwritten state workOrder).toWorkOrderRow, ?_, rfl,
      congrArg (· + 1) hsame⟩
    rw [hrows]
    exact List.mem_map.mpr ⟨row, hrow, if_pos hid⟩

/-- A save leaves every other work order as it was. -/
theorem stateOf_save_of_ne (hsave : tables.save workOrder = .ok tables')
    (hne : workOrderId ≠ workOrder.id) :
    tables'.stateOf workOrderId = tables.stateOf workOrderId := by
  obtain ⟨hservices, hparts, hbudgets⟩ := rowsOf_save_of_ne hsave hne
  refine Option.ext fun state => ?_
  rw [stateOf_eq_some_iff, stateOf_eq_some_iff, hservices, hparts, hbudgets]
  constructor
  · rintro ⟨row, hrow, rfl, hstate⟩
    exact ⟨row, (mem_save_of_ne hsave hne).mp hrow, rfl, hstate⟩
  · rintro ⟨row, hrow, rfl, hstate⟩
    exact ⟨row, (mem_save_of_ne hsave hne).mpr hrow, rfl, hstate⟩

/-- An aggregate a save can write and a load read back: its children are told
apart by their ids, it has every budget the tables have, and the rounds of its
items are known. -/
structure Writable (tables : WorkOrderTables) (workOrder : WorkOrder) : Prop where
  services : (workOrder.serviceItems.map WorkOrderServiceItem.id).Nodup
  parts : (workOrder.partItems.map WorkOrderPartItem.id).Nodup
  budgets : (workOrder.budgets.map Budget.id).Nodup
  known : workOrder.RoundsKnown
  kept : ∀ row ∈ rowsOf BudgetRow.workOrderId workOrder.id tables.budgets,
    row.id ∈ workOrder.budgets.map Budget.id

theorem serviceRows_ids : workOrder.serviceRows.map ServiceRow.id =
    workOrder.serviceItems.map WorkOrderServiceItem.id := by
  rw [WorkOrder.serviceRows, List.map_map]
  rfl

theorem partRows_ids : workOrder.partRows.map PartRow.id =
    workOrder.partItems.map WorkOrderPartItem.id := by
  rw [WorkOrder.partRows, List.map_map]
  rfl

theorem budgetRows_ids : workOrder.budgetRows.map (fun row => row.id) =
    workOrder.budgets.map Budget.id := by
  rw [WorkOrder.budgetRows, List.map_map]
  rfl

/-- The children a save leaves are the children of the aggregate. -/
theorem rows_save (hsave : tables.save workOrder = .ok tables')
    (hwritable : Writable tables workOrder) :
    (rowsOf ServiceRow.workOrderId workOrder.id tables'.services).Perm
        workOrder.serviceRows ∧
      (rowsOf PartRow.workOrderId workOrder.id tables'.parts).Perm
        workOrder.partRows ∧
      (rowsOf BudgetRow.workOrderId workOrder.id tables'.budgets).Perm
        workOrder.budgetRows := by
  obtain ⟨workOrders, -, hrows⟩ := save_ok hsave
  have hnodup : ∀ {R : Type} {key : R → Uuid} {owner : R → WorkOrderId}
      {rows : List R}, (rows.map key).Nodup →
      ((rowsOf owner workOrder.id rows).map key).Nodup := fun h =>
    h.sublist ((List.filter_sublist).map _)
  simp only [hrows, replaceServiceItems, replacePartItems, replaceBudgets]
  refine ⟨rowsOf_writeRows ?_ serviceRows_owner ?_ ?_,
    rowsOf_writeRows ?_ partRows_owner ?_ ?_,
    rowsOf_writeRows ?_ budgetRows_owner ?_ ?_⟩
  · rw [serviceRows_ids]
    exact hwritable.services
  · rw [rowsOf_dropRows]
    exact (hnodup tables.constraints.uxServicesExternalId).sublist
      ((List.filter_sublist).map _)
  · intro row hrow
    rw [rowsOf_dropRows] at hrow
    exact of_decide_eq_true (List.mem_filter.mp hrow).2
  · rw [partRows_ids]
    exact hwritable.parts
  · rw [rowsOf_dropRows]
    exact (hnodup tables.constraints.uxPartsExternalId).sublist
      ((List.filter_sublist).map _)
  · intro row hrow
    rw [rowsOf_dropRows] at hrow
    exact of_decide_eq_true (List.mem_filter.mp hrow).2
  · rw [budgetRows_ids]
    exact hwritable.budgets
  · exact hnodup tables.constraints.uxBudgetsExternalId
  · intro row hrow
    rw [budgetRows_ids]
    exact hwritable.kept row hrow

/-- After a save the tables hold the aggregate, under the row it wrote. -/
theorem stateOf_save (row : WorkOrderRow)
    (hsave : tables.save workOrder = .ok tables')
    (hwritable : Writable tables workOrder) (hrow : row ∈ tables'.workOrders)
    (hid : row.id = workOrder.id) :
    ∃ state, tables'.stateOf workOrder.id = some state ∧
      SameState state { workOrder with toWorkOrderRow := row } := by
  obtain ⟨hservices, hparts, hbudgets⟩ := rows_save hsave hwritable
  have hrounds : (workOrder.budgets.map Budget.round).Nodup := by
    have hpairs := (tables'.constraints.uxBudgetsRound.sublist
      ((List.filter_sublist (p := fun row =>
        decide (row.workOrderId = workOrder.id))).map _))
    have hpairs := ((hbudgets.map fun row =>
      (row.workOrderId, row.round)).nodup_iff).mp hpairs
    rw [WorkOrder.budgetRows, List.map_map] at hpairs
    refine List.Nodup.of_map (fun round => (workOrder.id, round)) ?_
    rw [List.map_map]
    exact hpairs
  exact ⟨_, stateOf_eq_some_iff.mpr ⟨row, hrow, hid, rfl⟩,
    toDomain_rows hwritable.budgets hrounds hwritable.known hservices hparts
      hbudgets⟩

/-- An insert leaves the new work order at version zero. -/
theorem stateOf_insert (hsave : tables.save workOrder = .ok tables')
    (hnone : tables.stateOf workOrder.id = none)
    (hwritable : Writable tables workOrder) :
    ∃ state, tables'.stateOf workOrder.id = some state ∧
      SameState state { workOrder with version := 0 } := by
  obtain ⟨workOrders, hrow, hrows⟩ := save_ok hsave
  rcases writeRow_cases hrow with ⟨-, rfl⟩ | ⟨state, hstate, -, -⟩
  · exact stateOf_save { workOrder.toWorkOrderRow with version := 0 }
      hsave hwritable (by simp [hrows]) rfl
  · rw [hnone] at hstate
    cases hstate

/-- An update found the version it was loaded at, and leaves the next one. -/
theorem stateOf_update (hsave : tables.save workOrder = .ok tables')
    {state : WorkOrder} (hstate : tables.stateOf workOrder.id = some state)
    (hwritable : Writable tables workOrder) :
    state.version = workOrder.version ∧
      ∃ state', tables'.stateOf workOrder.id = some state' ∧
        SameState state' (overwritten state workOrder) := by
  obtain ⟨workOrders, hrow, hrows⟩ := save_ok hsave
  rcases writeRow_cases hrow with ⟨hnone, -⟩ | ⟨found, hfound, hversion, rfl⟩
  · rw [hnone] at hstate
    cases hstate
  · rw [hstate, Option.some.injEq] at hfound
    subst hfound
    refine ⟨hversion, stateOf_save
      (overwritten state workOrder).toWorkOrderRow hsave hwritable ?_ rfl⟩
    obtain ⟨row, hmem, hid, -⟩ := stateOf_eq_some_iff.mp hstate
    rw [hrows]
    exact List.mem_map.mpr ⟨row, hmem, by rw [if_pos hid]⟩

end States

end WorkOrderTables

end WorkOrders

end Workshop
