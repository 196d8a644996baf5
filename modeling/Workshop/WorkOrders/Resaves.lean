/-
A save that cannot fail: of an aggregate loaded at the version the tables hold, with the
children it was loaded with.
-/
import Workshop.WorkOrders.SerialSaves

namespace Workshop

namespace WorkOrders

/-- An aggregate that differs from the state the tables hold in nothing a constraint of
the tables looks at but the withdrawn figures, none of which is negative. -/
structure Resaves (tables : WorkOrderTables) (state changed : WorkOrder) : Prop where
  held : tables.stateOf changed.id = some state
  version : changed.version = state.version
  number : changed.number = state.number
  vehicleId : changed.vehicleId = state.vehicleId
  status : changed.status = state.status
  services : (changed.serviceItems.map WorkOrderServiceItem.id).Perm
    (state.serviceItems.map WorkOrderServiceItem.id)
  parts : (changed.partItems.map WorkOrderPartItem.id).Perm
    (state.partItems.map WorkOrderPartItem.id)
  budgets : changed.budgets.Perm state.budgets
  withdrawn : ∀ item ∈ changed.partItems, 0 ≤ item.withdrawnQuantity

namespace Resaves

open WorkOrderTables (stateOf_eq_some_iff serviceRows_ids partRows_ids budgetRows_ids
  serviceRows_owner partRows_owner budgetRows_owner)

variable {tables : WorkOrderTables} {state changed : WorkOrder}

theorem serviceIds (h : Resaves tables state changed) :
    (changed.serviceRows.map ServiceRow.id).Perm
      ((rowsOf ServiceRow.workOrderId changed.id tables.services).map ServiceRow.id) := by
  obtain ⟨row, -, -, hstate⟩ := stateOf_eq_some_iff.mp h.held
  rw [serviceRows_ids, ← serviceIds_toDomain, hstate]
  exact h.services

theorem partIds (h : Resaves tables state changed) :
    (changed.partRows.map PartRow.id).Perm
      ((rowsOf PartRow.workOrderId changed.id tables.parts).map PartRow.id) := by
  obtain ⟨row, -, -, hstate⟩ := stateOf_eq_some_iff.mp h.held
  rw [partRows_ids, ← partIds_toDomain, hstate]
  exact h.parts

/-- The budgets are written as they are. -/
theorem budgetRows (h : Resaves tables state changed) :
    changed.budgetRows.Perm (rowsOf BudgetRow.workOrderId changed.id tables.budgets) := by
  obtain ⟨row, -, hid, hstate⟩ := stateOf_eq_some_iff.mp h.held
  have hsorted := (h.budgets.map fun budget : Budget =>
    ({ budget with workOrderId := changed.id } : BudgetRow))
  refine hsorted.trans ?_
  rw [← hstate]
  simp only [toDomain, List.map_map]
  refine ((List.perm_insertionSort _ _).map _).trans (List.Perm.of_eq ?_)
  refine (List.map_congr_left fun stored hstored => ?_).trans (List.map_id _)
  obtain ⟨-, howner⟩ := mem_rowsOf.mp hstored
  rw [Function.comp_apply, ← howner]
  rfl

/-- The services of the tables after the save. -/
theorem replaceServiceItems_eq (h : Resaves tables state changed) :
    tables.replaceServiceItems changed = tables.services.map fun row =>
      if row.workOrderId = changed.id
      then rewritten ServiceRow.id changed.serviceRows row else row := by
  refine writeRows_dropRows (fun row hrow => ?_) fun row hrow => ?_
  · exact h.serviceIds.mem_iff.mpr (List.mem_map_of_mem hrow)
  · exact h.serviceIds.mem_iff.mp (List.mem_map_of_mem hrow)

theorem replacePartItems_eq (h : Resaves tables state changed) :
    tables.replacePartItems changed = tables.parts.map fun row =>
      if row.workOrderId = changed.id
      then rewritten PartRow.id changed.partRows row else row := by
  refine writeRows_dropRows (fun row hrow => ?_) fun row hrow => ?_
  · exact h.partIds.mem_iff.mpr (List.mem_map_of_mem hrow)
  · exact h.partIds.mem_iff.mp (List.mem_map_of_mem hrow)

theorem replaceBudgets_eq (h : Resaves tables state changed) :
    tables.replaceBudgets changed = tables.budgets := by
  have hids : (changed.budgetRows.map fun row => row.id).Nodup :=
    (h.budgetRows.map _).nodup_iff.mpr
      (tables.constraints.uxBudgetsExternalId.sublist (List.filter_sublist.map _))
  refine (writeRows_eq_map fun row hrow => ?_).trans
    ((List.map_congr_left fun row hrow => ?_).trans (List.map_id _))
  · exact List.mem_map_of_mem (h.budgetRows.mem_iff.mp hrow)
  split
  · rename_i howner
    exact rewritten_eq_of_mem hids (h.budgetRows.mem_iff.mpr (mem_rowsOf.mpr ⟨hrow, howner⟩)) rfl
  · rfl

/-- The row is found at the version of the aggregate, and its keys and status stay. -/
theorem writeRow_eq (h : Resaves tables state changed) :
    ∃ change : WorkOrderRow → WorkOrderRow,
      tables.writeRow changed = some (tables.workOrders.map change) ∧
      ∀ row ∈ tables.workOrders, (change row).id = row.id ∧
        (change row).number = row.number ∧ (change row).vehicleId = row.vehicleId ∧
        (change row).status = row.status := by
  have hheld := h.held
  rw [WorkOrderTables.stateOf, Option.map_eq_some_iff] at hheld
  obtain ⟨existing, hfind, hstate⟩ := hheld
  have hmem := List.mem_of_find?_eq_some hfind
  have hid : existing.id = changed.id := by simpa using List.find?_some hfind
  have hversion : existing.version = changed.version := by
    rw [h.version, ← hstate]
    rfl
  refine ⟨fun row => if row.id = changed.id then
      { changed.toWorkOrderRow with
        createdAt := existing.createdAt, version := changed.version + 1 }
    else row, ?_, ?_⟩
  · rw [WorkOrderTables.writeRow, hfind]
    dsimp only
    rw [if_pos hversion]
  · intro row hrow
    dsimp only
    split
    · rename_i hself
      obtain rfl : row = existing := List.inj_on_of_nodup_map tables.constraints.uxExternalId
        hrow hmem (hself.trans hid.symm)
      refine ⟨hself.symm, h.number.trans ?_, h.vehicleId.trans ?_, h.status.trans ?_⟩
      · rw [← hstate]
        rfl
      · rw [← hstate]
        rfl
      · rw [← hstate]
        rfl
    · exact ⟨rfl, rfl, rfl, rfl⟩

/-- The keys of a table of children stay, and so do their owners. -/
theorem same_rewritten {R : Type} (key : R → Uuid) (table : List R)
    {owner : R → WorkOrderId} {written : List R} {self : WorkOrderId}
    (hwritten : ∀ row ∈ written, owner row = self) :
    (table.map fun row => if owner row = self then rewritten key written row else row).map key =
        table.map key ∧
      (table.map fun row => if owner row = self then rewritten key written row else row).map
        owner = table.map owner := by
  refine ⟨map_rewritten fun row _ _ => key_rewritten written row,
    map_rewritten fun row _ howner => ?_⟩
  exact (owner_rewritten hwritten howner).trans howner.symm

/-- The save goes through. -/
theorem save_ok (h : Resaves tables state changed) :
    ∃ tables', tables.save changed = .ok tables' := by
  obtain ⟨change, hwrite, hsame⟩ := h.writeRow_eq
  obtain ⟨hserviceIds, hserviceOwners⟩ := same_rewritten ServiceRow.id tables.services
    (@serviceRows_owner changed)
  obtain ⟨hpartIds, hpartOwners⟩ := same_rewritten PartRow.id tables.parts
    (@partRows_owner changed)
  rw [← h.replaceServiceItems_eq] at hserviceIds hserviceOwners
  rw [← h.replacePartItems_eq] at hpartIds hpartOwners
  have hids : (tables.workOrders.map change).map WorkOrderRow.id =
      tables.workOrders.map WorkOrderRow.id := by
    rw [List.map_map]
    exact List.map_congr_left fun row hrow => (hsame row hrow).1
  have hnumbers : (tables.workOrders.map change).map WorkOrderRow.number =
      tables.workOrders.map WorkOrderRow.number := by
    rw [List.map_map]
    exact List.map_congr_left fun row hrow => (hsame row hrow).2.1
  have hvehicles : ((tables.workOrders.map change).filter fun row =>
        !row.status.isClosed).map WorkOrderRow.vehicleId =
      (tables.workOrders.filter fun row => !row.status.isClosed).map
        WorkOrderRow.vehicleId := by
    have hopen : (tables.workOrders.filter ((fun row => !row.status.isClosed) ∘ change)) =
        tables.workOrders.filter fun row => !row.status.isClosed :=
      List.filter_congr fun row hrow => by rw [Function.comp_apply, (hsame row hrow).2.2.2]
    rw [List.filter_map, List.map_map, hopen]
    exact List.map_congr_left fun row hrow => (hsame row (List.mem_of_mem_filter hrow)).2.2.1
  have howned : ∀ {R : Type} {owner : R → WorkOrderId} {rows rows' : List R},
      rows'.map owner = rows.map owner →
      (∀ row ∈ rows, owner row ∈ tables.workOrders.map WorkOrderRow.id) →
      ∀ row ∈ rows', owner row ∈ (tables.workOrders.map change).map WorkOrderRow.id := by
    intro R owner rows rows' hkept hknown row hrow
    have hmem := List.mem_map_of_mem (f := owner) hrow
    rw [hkept] at hmem
    obtain ⟨old, hold, heq⟩ := List.mem_map.mp hmem
    rw [hids, ← heq]
    exact hknown old hold
  have hconstraints := tables.constraints
  unfold WorkOrderTables.save
  rw [hwrite]
  dsimp only
  rw [dif_pos]
  · exact ⟨_, rfl⟩
  · constructor
    · rw [hids]
      exact hconstraints.uxExternalId
    · rw [hnumbers]
      exact hconstraints.uxNumber
    · rw [hvehicles]
      exact hconstraints.uxActiveVehicle
    · rw [hserviceIds]
      exact hconstraints.uxServicesExternalId
    · rw [hpartIds]
      exact hconstraints.uxPartsExternalId
    · rw [h.replaceBudgets_eq]
      exact hconstraints.uxBudgetsExternalId
    · rw [h.replaceBudgets_eq]
      exact hconstraints.uxBudgetsRound
    · intro row hrow
      rw [h.replacePartItems_eq] at hrow
      obtain ⟨old, hold, rfl⟩ := List.mem_map.mp hrow
      split
      · rcases rewritten_cases PartRow.id changed.partRows old with hkept | ⟨hwritten, -⟩
        · rw [hkept]
          exact hconstraints.chkWithdrawnQuantity old hold
        · obtain ⟨item, hitem, heq⟩ := List.mem_map.mp hwritten
          rw [← heq]
          exact h.withdrawn item hitem
      · exact hconstraints.chkWithdrawnQuantity old hold
    · exact howned hserviceOwners hconstraints.fkServices
    · exact howned hpartOwners hconstraints.fkParts
    · rw [h.replaceBudgets_eq]
      exact howned rfl hconstraints.fkBudgets

end Resaves

end WorkOrders

end Workshop
