/-
What a save leaves of the stored rows: the rows of its work order stand for
what it wrote, and those of every other work order are left alone.
-/
import Workshop.WorkOrders.PreparedRequests
import Workshop.WorkOrders.StoredStates

namespace Workshop

namespace WorkOrders

/-- Every key was handed out by the sequence. -/
structure StoredRows.Sequenced (rows : StoredRows) : Prop where
  workOrders : ∀ row ∈ rows.workOrders, row.id < rows.nextKey
  services : ∀ row ∈ rows.services, row.id < rows.nextKey
  parts : ∀ row ∈ rows.parts, row.id < rows.nextKey
  budgets : ∀ row ∈ rows.budgets, row.id < rows.nextKey

/-- The rows a save wrote. -/
structure WrittenRows where
  row : StoredWorkOrder
  budgets : List StoredBudget
  services : List StoredService
  parts : List StoredPart
  events : List StoredEvent

namespace StoredTables

/-- How a save made its rows and what it left of the tables. -/
structure Saves (before : StoredTables) (owners : Owners) (workOrder : WorkOrder)
    (written : WrittenRows) (after : StoredTables) : Prop where
  row : before.writeRow owners workOrder = .ok written.row
  budgets : before.budgetRows owners written.row.id workOrder.budgets
    (before.nextKey + 1) = .ok written.budgets
  services : before.serviceRows owners written.row.id workOrder written.budgets
    (before.nextKey + 1 + written.budgets.length) = .ok written.services
  parts : before.partRows owners written.row.id workOrder written.budgets
    (before.nextKey + 1 + written.budgets.length + written.services.length) =
      .ok written.parts
  left : after.toStoredRows = {
    workOrders := upsert StoredWorkOrder.id written.row before.workOrders
    services := before.saveServices written.row.id written.services
    parts := before.saveParts written.row.id written.parts
    budgets := before.saveBudgets written.row.id written.budgets
    events := before.events ++ written.events
    nextKey := before.nextKey + 1 + written.budgets.length + written.services.length +
      written.parts.length + written.events.length }

section Saving

variable {owners : Owners} {before after : StoredTables} {workOrder : WorkOrder}
variable {written : WrittenRows} {row : StoredWorkOrder} {state : WorkOrder}

theorem commitRows_ok {rows : StoredRows} (h : commitRows rows = .ok after) :
    after.toStoredRows = rows := by
  unfold commitRows at h
  split at h
  · cases h
    rfl
  · cases h

theorem save_ok (h : before.save owners workOrder = .ok after) :
    ∃ written, Saves before owners workOrder written after := by
  obtain ⟨row, hrow, h⟩ := bind_eq_ok_iff.mp h
  obtain ⟨budgets, hbudgets, h⟩ := bind_eq_ok_iff.mp h
  obtain ⟨services, hservices, h⟩ := bind_eq_ok_iff.mp h
  obtain ⟨parts, hparts, h⟩ := bind_eq_ok_iff.mp h
  obtain ⟨events, -, h⟩ := bind_eq_ok_iff.mp h
  exact ⟨⟨row, budgets, services, parts, events⟩, hrow, hbudgets, hservices, hparts,
    commitRows_ok h⟩

/-- The row of a save: a new one, or the stored one under its version guard. -/
theorem writeRow_cases (h : before.writeRow owners workOrder = .ok row) :
    ((∀ other ∈ before.workOrders, other.externalId ≠ workOrder.id) ∧
        RowWritten owners before.nextKey { workOrder with version := 0 } row) ∨
      ∃ existing ∈ before.workOrders, existing.externalId = workOrder.id ∧
        existing.version = workOrder.version ∧
        RowWritten owners existing.id { workOrder with
          createdAt := existing.createdAt, version := workOrder.version + 1 } row := by
  unfold writeRow at h
  split at h
  · rename_i hnone
    refine Or.inl ⟨fun other hother => ?_, rowWritten h⟩
    simpa using List.find?_eq_none.mp hnone other hother
  · rename_i existing hfind
    obtain ⟨written, hwritten, h⟩ := bind_eq_ok_iff.mp h
    split at h
    · rename_i hversion
      rw [pure_eq_ok_iff] at h
      subst h
      exact Or.inr ⟨existing, List.mem_of_find?_eq_some hfind,
        by simpa using List.find?_some hfind, hversion, rowWritten hwritten⟩
    · cases h

/-- The key of the row is the key the stored row has, or a new one. -/
theorem Saves.row_cases (h : Saves before owners workOrder written after) :
    written.row.id = before.nextKey ∨
      ∃ existing ∈ before.workOrders, existing.externalId = workOrder.id ∧
        written.row.id = existing.id := by
  rcases writeRow_cases h.row with ⟨-, hrow⟩ | ⟨existing, hexisting, hid, -, hrow⟩
  · exact Or.inl hrow.id
  · exact Or.inr ⟨existing, hexisting, hid, hrow.id⟩

section Children

variable {self : InternalId} {keyOf : Nat → Option InternalId}

theorem budgets_written : Writes (fun id budget row =>
      BudgetWritten owners self id budget row)
    StoredBudget.id StoredBudget.externalId StoredBudget.workOrderInternalId self
    Budget.id :=
  ⟨fun h => h.id, fun h => h.externalId, fun h => h.owner⟩

theorem services_written : Writes (fun id item row =>
      ServiceWritten owners self id keyOf item row)
    StoredService.id StoredService.externalId StoredService.workOrderInternalId self
    WorkOrderServiceItem.id :=
  ⟨fun h => h.id, fun h => h.externalId, fun h => h.owner⟩

theorem parts_written : Writes (fun id item row =>
      PartWritten owners self id keyOf item row)
    StoredPart.id StoredPart.externalId StoredPart.workOrderInternalId self
    WorkOrderPartItem.id :=
  ⟨fun h => h.id, fun h => h.externalId, fun h => h.owner⟩

theorem budgetRows_ok {budgets : List Budget} {next : InternalId}
    {rows : List StoredBudget} (h : before.budgetRows owners self budgets next = .ok rows) :
    List.Forall₂ (WrittenUnder (fun id budget row =>
        BudgetWritten owners self id budget row)
      StoredBudget.id StoredBudget.externalId (before.budgetsOf self) Budget.id)
      (budgets.zipIdx next) rows :=
  (forall₂_of_mapM_eq_ok h).imp fun _ _ hrow => budgetWritten hrow

theorem serviceRows_ok {budgets : List StoredBudget} {next : InternalId}
    {rows : List StoredService}
    (h : before.serviceRows owners self workOrder budgets next = .ok rows) :
    List.Forall₂ (WrittenUnder (fun id item row =>
        ServiceWritten owners self id (internalIdByRound budgets) item row)
      StoredService.id StoredService.externalId (before.servicesOf self)
      WorkOrderServiceItem.id) (workOrder.serviceItems.zipIdx next) rows :=
  (forall₂_of_mapM_eq_ok h).imp fun _ _ hrow => serviceWritten hrow

theorem partRows_ok {budgets : List StoredBudget} {next : InternalId}
    {rows : List StoredPart}
    (h : before.partRows owners self workOrder budgets next = .ok rows) :
    List.Forall₂ (WrittenUnder (fun id item row =>
        PartWritten owners self id (internalIdByRound budgets) item row)
      StoredPart.id StoredPart.externalId (before.partsOf self)
      WorkOrderPartItem.id) (workOrder.partItems.zipIdx next) rows :=
  (forall₂_of_mapM_eq_ok h).imp fun _ _ hrow => partWritten hrow

end Children

/-- The rows of the work order stand for what was saved. -/
theorem Saves.stores {createdAt : Timestamp} {version : Nat}
    (h : Saves before owners workOrder written after) (hkeys : before.Sequenced)
    (hnamed : workOrder.ChildrenNamed) (hknown : workOrder.RoundsKnown)
    (hkept : ∀ found ∈ before.budgetsOf written.row.id,
      found.externalId ∈ workOrder.budgets.map Budget.id)
    (hrow : RowWritten owners written.row.id { workOrder with createdAt, version }
      written.row) :
    StoredAs owners after.toStoredRows written.row
      { workOrder with createdAt, version } := by
  have hbudgetRows := budgetRows_ok h.budgets
  have hserviceRows := serviceRows_ok h.services
  have hpartRows := partRows_ok h.parts
  have hbudgets : (after.budgetsOf written.row.id).Perm written.budgets := by
    rw [h.left]
    refine writeRows_perm budgets_written hbudgetRows before.constraints.pkBudgets
      before.constraints.uxBudgetsExternalId (fun found hfound =>
        Nat.lt_of_lt_of_le (hkeys.budgets found hfound) (by omega)) hnamed.budgets
      (List.Sublist.refl _) hkept
  have hservices : (after.servicesOf written.row.id).Perm written.services := by
    rw [h.left]
    refine replaceRows_perm services_written hserviceRows before.constraints.pkServices
      before.constraints.uxServicesExternalId (fun found hfound =>
        Nat.lt_of_lt_of_le (hkeys.services found hfound) (by omega)) hnamed.services
  have hparts : (after.partsOf written.row.id).Perm written.parts := by
    rw [h.left]
    refine replaceRows_perm parts_written hpartRows before.constraints.pkParts
      before.constraints.uxPartsExternalId (fun found hfound =>
        Nat.lt_of_lt_of_le (hkeys.parts found hfound) (by omega)) hnamed.parts
  -- The items were given the keys of these budget rows.
  have hkeyOf : internalIdByRound written.budgets =
      internalIdByRound (after.budgetsOf written.row.id) :=
    funext fun round => by
      rw [internalIdByRound, internalIdByRound,
        find?_reverse_perm budgetsOf_rounds_nodup hbudgets]
  rw [hkeyOf] at hserviceRows hpartRows
  refine ⟨?_, hrow, hknown, ⟨_, stands_written budgets_written hbudgetRows, hbudgets⟩,
    ⟨_, stands_written services_written hserviceRows, hservices⟩,
    ⟨_, stands_written parts_written hpartRows, hparts⟩⟩
  rw [h.left]
  exact mem_upsert.mpr (Or.inl rfl)

/-- The rows of another work order are left alone. -/
theorem Saves.others (h : Saves before owners workOrder written after)
    {other : InternalId} (hne : other ≠ written.row.id) :
    after.budgetsOf other = before.budgetsOf other ∧
      after.servicesOf other = before.servicesOf other ∧
      after.partsOf other = before.partsOf other := by
  have hbudgets := owner_written budgets_written (budgetRows_ok h.budgets)
  have hservices := owner_written services_written (serviceRows_ok h.services)
  have hparts := owner_written parts_written (partRows_ok h.parts)
  simp only [h.left, StoredRows.budgetsOf, StoredRows.servicesOf, StoredRows.partsOf,
    saveBudgets, saveServices, saveParts]
  rw [rowsOf_writeRows_of_ne hne hbudgets, rowsOf_writeRows_of_ne hne hservices,
    rowsOf_writeRows_of_ne hne hparts, rowsOf_dropRows_of_ne hne,
    rowsOf_dropRows_of_ne hne]
  exact ⟨rfl, rfl, rfl⟩

/-- A state that is stored in other rows is still stored there. -/
theorem Saves.keeps (h : Saves before owners workOrder written after)
    (hstored : StoredAs owners before.toStoredRows row state)
    (hne : row.id ≠ written.row.id) : StoredAs owners after.toStoredRows row state := by
  obtain ⟨hbudgets, hservices, hparts⟩ := h.others hne
  refine ⟨?_, hstored.written, hstored.known, ?_, ?_, ?_⟩
  · rw [h.left]
    exact mem_upsert.mpr (Or.inr ⟨hstored.stored, hne⟩)
  · rw [hbudgets]
    exact hstored.budgets
  · rw [hbudgets, hservices]
    exact hstored.services
  · rw [hbudgets, hparts]
    exact hstored.parts

/-- The keys stay below the next value of the sequence. -/
theorem Saves.sequenced (h : Saves before owners workOrder written after)
    (hkeys : before.Sequenced) : after.Sequenced := by
  have hbudgets := (budgetRows_ok h.budgets).length_eq
  have hservices := (serviceRows_ok h.services).length_eq
  have hparts := (partRows_ok h.parts).length_eq
  rw [List.length_zipIdx] at hbudgets hservices hparts
  have hnext : after.nextKey = before.nextKey + 1 + written.budgets.length +
      written.services.length + written.parts.length + written.events.length := by
    rw [h.left]
  refine ⟨fun row hrow => ?_, fun row hrow => ?_, fun row hrow => ?_, fun row hrow => ?_⟩
  · rw [h.left] at hrow
    have hid : row.id < before.nextKey + 1 := by
      rcases mem_upsert.mp hrow with rfl | ⟨hold, -⟩
      · rcases h.row_cases with hid | ⟨existing, hexisting, -, hid⟩
        · rw [hid]
          exact Nat.lt_succ_self _
        · rw [hid]
          exact Nat.lt_succ_of_lt (hkeys.workOrders existing hexisting)
      · exact Nat.lt_succ_of_lt (hkeys.workOrders row hold)
    exact Nat.lt_of_lt_of_le hid (by omega)
  · rw [h.left] at hrow
    refine Nat.lt_of_lt_of_le (key_writeRows_lt services_written
      (serviceRows_ok h.services) (fun found hfound => ?_) List.filter_sublist row hrow)
      (by omega)
    exact Nat.lt_of_lt_of_le (hkeys.services found hfound) (by omega)
  · rw [h.left] at hrow
    refine Nat.lt_of_lt_of_le (key_writeRows_lt parts_written (partRows_ok h.parts)
      (fun found hfound => ?_) List.filter_sublist row hrow) (by omega)
    exact Nat.lt_of_lt_of_le (hkeys.parts found hfound) (by omega)
  · rw [h.left] at hrow
    refine Nat.lt_of_lt_of_le (key_writeRows_lt budgets_written (budgetRows_ok h.budgets)
      (fun found hfound => ?_) (List.Sublist.refl _) row hrow) (by omega)
    exact Nat.lt_of_lt_of_le (hkeys.budgets found hfound) (by omega)

end Saving

end StoredTables

end WorkOrders

end Workshop
