/-
The board: one page of the work orders of the requested statuses, read by a query that
sorts and cuts them, and the count of all of them.
-/
import Mathlib.Data.List.Sort
import Mathlib.Data.Prod.Lex
import Workshop.Library.Pages
import Workshop.WorkOrders.StoredRuns

namespace Workshop

namespace WorkOrders

/-- `Number.MAX_SAFE_INTEGER` -/
def maxSafeInteger : Nat := 2 ^ 53 - 1

/-- `BOARD_STATUS_ORDER` -/
def boardStatusOrder : List WorkOrderStatus :=
  [.inExecution, .awaitingApproval, .inDiagnosis, .received, .completed, .delivered,
    .canceled]

/-- `OPEN_STATUSES` -/
def openStatuses : List WorkOrderStatus :=
  [.inExecution, .awaitingApproval, .inDiagnosis, .received]

structure WorkOrderBoardFilter where
  statuses : List WorkOrderStatus
  page : Nat
  pageSize : Nat

structure WorkOrderBoardPage where
  items : List WorkOrderSummaryDto
  totalItems : Nat
deriving DecidableEq, Repr

/-- `ListWorkOrdersQuery`.  The boundary refuses a page and a page size below one. -/
structure ListWorkOrdersQuery where
  page : Nat
  pageSize : Nat
  statuses : List WorkOrderStatus := []
  fromOne : 1 ≤ page
  sized : 1 ≤ pageSize

structure WorkOrderPageDto where
  items : List WorkOrderSummaryDto
  page : Nat
  pageSize : Nat
  totalItems : Nat
  totalPages : Nat
deriving DecidableEq, Repr

/-- What the board sorts by: the `array_position` of the status, then `created_at`, then
`id`. -/
def boardKey (statuses : List WorkOrderStatus) (row : StoredWorkOrder) :
    Nat ×ₗ Nat ×ₗ Nat :=
  toLex (statuses.idxOf row.status, toLex (row.createdAt, row.id))

namespace StoredTables

variable (tables : StoredTables) (owners : Owners)

/-- `toDtos` -/
def toDtos (rows : List StoredWorkOrder) :
    Except StoredError (List WorkOrderSummaryDto) := do
  let summaries ← rows.mapM (tables.toDto owners)
  return summaries.reduceOption

/-- The rows the `WHERE` of the board keeps, in the order of its `ORDER BY`, from whatever
order the table is scanned in. -/
def boardRows (scan : RowOrder StoredWorkOrder) (statuses : List WorkOrderStatus) :
    List StoredWorkOrder :=
  ((scan.arrange tables.workOrders).filter fun row => row.status ∈ statuses).insertionSort
    fun left right => boardKey statuses left ≤ boardKey statuses right

/-- `listBoard`.  An offset past the safe integers stays past them when it is rounded to a
`Number`, and no row is asked for. -/
def listBoard (scan : RowOrder StoredWorkOrder) (filter : WorkOrderBoardFilter) :
    Except StoredError WorkOrderBoardPage := do
  let offset := (filter.page - 1) * filter.pageSize
  let rows :=
    if offset ≤ maxSafeInteger then
      ((tables.boardRows scan filter.statuses).drop offset).take filter.pageSize
    else []
  let totalItems := (tables.workOrders.filter fun row => row.status ∈ filter.statuses).length
  let items ← tables.toDtos owners rows
  return { items, totalItems }

/-- `ListWorkOrdersUseCase.execute` -/
def listWorkOrders (scan : RowOrder StoredWorkOrder) (query : ListWorkOrdersQuery) :
    Except StoredError WorkOrderPageDto := do
  let wanted := if query.statuses.length > 0 then query.statuses else openStatuses
  let board ← tables.listBoard owners scan {
    statuses := boardStatusOrder.filter fun status => status ∈ wanted
    page := query.page, pageSize := query.pageSize }
  return {
    items := board.items, page := query.page, pageSize := query.pageSize
    totalItems := board.totalItems, totalPages := board.totalItems ⌈/⌉ query.pageSize }

end StoredTables

/-- The statuses a query asks for, the open ones when it names none. -/
def requestedStatuses (statuses : List WorkOrderStatus) : List WorkOrderStatus :=
  if statuses = [] then openStatuses else statuses

/-- One work order stands before another on the board. -/
def ComesBefore (left right : StoredWorkOrder) : Prop :=
  boardStatusOrder.idxOf left.status < boardStatusOrder.idxOf right.status ∨
    left.status = right.status ∧ (left.createdAt < right.createdAt ∨
      left.createdAt = right.createdAt ∧ left.id < right.id)

/-- The work orders of these statuses, each once, in the order of the board. -/
structure BoardOf (rows : StoredRows) (statuses : List WorkOrderStatus)
    (listed : List StoredWorkOrder) : Prop where
  nodup : listed.Nodup
  mem : ∀ row, row ∈ listed ↔ row ∈ rows.workOrders ∧ row.status ∈ statuses
  ordered : listed.Pairwise ComesBefore

/-- What a `bigint` column holds that an amount is written to. -/
def IsAmount (raw : String) : Prop := ∃ amount : Money, raw = amount.toText

/-- The amounts of the rows are non-negative integers. -/
structure StoredRows.AmountsStored (rows : StoredRows) : Prop where
  discounts : ∀ row ∈ rows.workOrders, IsAmount row.discountCents
  charges : ∀ row ∈ rows.workOrders, ∀ raw ∈ row.chargedTotalCents, IsAmount raw
  services : ∀ row ∈ rows.services, IsAmount row.unitPriceCents ∧
    ∀ raw ∈ row.budgetedUnitPriceCents, IsAmount raw
  parts : ∀ row ∈ rows.parts, IsAmount row.unitPriceCents ∧
    ∀ raw ∈ row.budgetedUnitPriceCents, IsAmount raw
  budgets : ∀ row ∈ rows.budgets, IsAmount row.totalCents

/-- The customer, the vehicle and the creator of every work order are found. -/
structure StoredRows.KeysResolve (rows : StoredRows) (owners : Owners) : Prop where
  customers : ∀ row ∈ rows.workOrders,
    (owners.customers.toExternalId row.customerInternalId).isSome
  vehicles : ∀ row ∈ rows.workOrders,
    (owners.vehicles.toExternalId row.vehicleInternalId).isSome
  creators : ∀ row ∈ rows.workOrders,
    (owners.users.toExternalId row.createdByInternalId).isSome

section Reading

variable {tables : StoredTables} {owners : Owners}

theorem moneyFromDatabase_of_isAmount {raw : String} (h : IsAmount raw) :
    ∃ amount, moneyFromDatabase raw = .ok amount := by
  obtain ⟨amount, rfl⟩ := h
  exact ⟨amount, moneyFromDatabase_toText amount⟩

theorem centsOrNull_of_isAmount {raw : Option String} (h : ∀ text ∈ raw, IsAmount text) :
    ∃ cents, centsOrNull raw = .ok cents := by
  cases raw with
  | none => exact ⟨none, rfl⟩
  | some text =>
      obtain ⟨amount, hread⟩ := moneyFromDatabase_of_isAmount (h text rfl)
      exact ⟨some amount.cents, by rw [centsOrNull, hread]; rfl⟩

/-- Every work order can be summed up. -/
theorem toDto_of_stored (hkeys : tables.KeysResolve owners) (hamounts : tables.AmountsStored)
    {row : StoredWorkOrder} (hrow : row ∈ tables.workOrders) :
    ∃ summary, tables.toDto owners row = .ok (some summary) := by
  obtain ⟨customerId, hcustomer⟩ := Option.isSome_iff_exists.mp (hkeys.customers row hrow)
  obtain ⟨vehicleId, hvehicle⟩ := Option.isSome_iff_exists.mp (hkeys.vehicles row hrow)
  obtain ⟨creatorId, hcreator⟩ := Option.isSome_iff_exists.mp (hkeys.creators row hrow)
  obtain ⟨services, hservices⟩ : ∃ services,
      ((rowsOf StoredService.workOrderInternalId row.id tables.services).insertionSort
        fun a b => a.id ≤ b.id).mapM (serviceItemToDto owners tables.budgets) =
          .ok services := by
    refine exists_mapM_of_forall fun item hitem => ?_
    have hmem := (mem_rowsOf.mp ((List.mem_insertionSort _).mp hitem)).1
    obtain ⟨price, hprice⟩ := moneyFromDatabase_of_isAmount (hamounts.services item hmem).1
    obtain ⟨budgeted, hbudgeted⟩ := centsOrNull_of_isAmount (hamounts.services item hmem).2
    rw [serviceItemToDto]
    split
    · exact ⟨none, rfl⟩
    · rw [hprice, hbudgeted]
      exact ⟨_, rfl⟩
  obtain ⟨parts, hparts⟩ : ∃ parts,
      ((rowsOf StoredPart.workOrderInternalId row.id tables.parts).insertionSort
        fun a b => a.id ≤ b.id).mapM (partItemToDto owners tables.budgets) = .ok parts := by
    refine exists_mapM_of_forall fun item hitem => ?_
    have hmem := (mem_rowsOf.mp ((List.mem_insertionSort _).mp hitem)).1
    obtain ⟨price, hprice⟩ := moneyFromDatabase_of_isAmount (hamounts.parts item hmem).1
    obtain ⟨budgeted, hbudgeted⟩ := centsOrNull_of_isAmount (hamounts.parts item hmem).2
    rw [partItemToDto]
    split
    · exact ⟨none, rfl⟩
    · rw [hprice, hbudgeted]
      exact ⟨_, rfl⟩
  obtain ⟨budgets, hbudgets⟩ : ∃ budgets,
      ((rowsOf StoredBudget.workOrderInternalId row.id tables.budgets).insertionSort
        fun a b => a.round ≤ b.round).mapM (budgetToDto owners) = .ok budgets := by
    refine exists_mapM_of_forall fun budget hbudget => ?_
    have hmem := (mem_rowsOf.mp ((List.mem_insertionSort _).mp hbudget)).1
    obtain ⟨total, htotal⟩ := moneyFromDatabase_of_isAmount (hamounts.budgets budget hmem)
    rw [budgetToDto, htotal]
    exact ⟨_, rfl⟩
  obtain ⟨charged, hcharged⟩ := centsOrNull_of_isAmount (hamounts.charges row hrow)
  obtain ⟨discount, hdiscount⟩ := moneyFromDatabase_of_isAmount (hamounts.discounts row hrow)
  simp only [StoredTables.toDto, hcustomer, hvehicle, hcreator, hservices, hparts, hbudgets,
    hcharged, hdiscount]
  exact ⟨_, rfl⟩

/-- Rows that can be summed up are. -/
theorem toDtos_ok {rows : List StoredWorkOrder} {summaries : List WorkOrderSummaryDto}
    (h : List.Forall₂ (fun row summary => tables.toDto owners row = .ok (some summary)) rows
      summaries) : tables.toDtos owners rows = .ok summaries := by
  have hmap : rows.mapM (tables.toDto owners) = .ok (summaries.map some) :=
    mapM_eq_ok_of_forall₂ (List.forall₂_map_right_iff.mpr h)
  have hall : (summaries.map some).reduceOption = summaries := by
    change (summaries.map some).filterMap id = summaries
    rw [List.filterMap_map]
    exact List.filterMap_some
  rw [StoredTables.toDtos, hmap]
  change Except.ok (summaries.map some).reduceOption = _
  rw [hall]

end Reading

section Saving

open StoredTables (Saves save_ok)

variable {owners : Owners} {before after : StoredTables} {workOrder : WorkOrder}
variable {written : WrittenRows}

theorem isAmount_toText (amount : Money) : IsAmount amount.toText := ⟨amount, rfl⟩

theorem isAmount_of_mem {amount : Option Money} {raw : String}
    (h : raw ∈ amount.map Money.toText) : IsAmount raw := by
  obtain ⟨found, -, rfl⟩ := Option.map_eq_some_iff.mp h
  exact isAmount_toText found

/-- The row of a work order is written with keys that are found and with amounts. -/
theorem StoredTables.Saves.row_ok (h : Saves before owners workOrder written after) :
    (owners.customers.toExternalId written.row.customerInternalId).isSome ∧
      (owners.vehicles.toExternalId written.row.vehicleInternalId).isSome ∧
      (owners.users.toExternalId written.row.createdByInternalId).isSome ∧
      IsAmount written.row.discountCents ∧
      ∀ raw ∈ written.row.chargedTotalCents, IsAmount raw := by
  obtain ⟨id, row, hrow⟩ : ∃ id row, workOrderRow owners id row = .ok written.row := by
    have hwrite := h.row
    unfold StoredTables.writeRow at hwrite
    split at hwrite
    · exact ⟨_, _, hwrite⟩
    · obtain ⟨found, hfound, hguard⟩ := bind_eq_ok_iff.mp hwrite
      split at hguard
      · rw [pure_eq_ok_iff] at hguard
        exact ⟨_, _, hguard ▸ hfound⟩
      · cases hguard
  obtain ⟨customer, hcustomer, hrow⟩ := bind_eq_ok_iff.mp hrow
  obtain ⟨vehicle, hvehicle, hrow⟩ := bind_eq_ok_iff.mp hrow
  obtain ⟨creator, hcreator, hrow⟩ := bind_eq_ok_iff.mp hrow
  obtain ⟨_, -, hrow⟩ := bind_eq_ok_iff.mp hrow
  obtain ⟨_, -, hrow⟩ := bind_eq_ok_iff.mp hrow
  obtain ⟨_, -, hrow⟩ := bind_eq_ok_iff.mp hrow
  obtain ⟨_, -, hrow⟩ := bind_eq_ok_iff.mp hrow
  obtain ⟨_, -, hrow⟩ := bind_eq_ok_iff.mp hrow
  rw [pure_eq_ok_iff] at hrow
  rw [← hrow]
  dsimp only
  rw [toExternalId_of_internalKey hcustomer, toExternalId_of_internalKey hvehicle,
    toExternalId_of_internalKey hcreator]
  exact ⟨rfl, rfl, rfl, isAmount_toText _, fun raw hraw => isAmount_of_mem hraw⟩

theorem StoredTables.Saves.mem_workOrders (h : Saves before owners workOrder written after)
    {row : StoredWorkOrder} (hrow : row ∈ after.workOrders) :
    row = written.row ∨ row ∈ before.workOrders := by
  rw [h.left] at hrow
  exact (mem_upsert.mp hrow).imp_right And.left

theorem StoredRows.KeysResolve.save (hkeys : before.KeysResolve owners)
    (h : Saves before owners workOrder written after) : after.KeysResolve owners := by
  obtain ⟨hcustomer, hvehicle, hcreator, -⟩ := h.row_ok
  refine ⟨fun row hrow => ?_, fun row hrow => ?_, fun row hrow => ?_⟩
  · rcases h.mem_workOrders hrow with rfl | hold
    · exact hcustomer
    · exact hkeys.customers row hold
  · rcases h.mem_workOrders hrow with rfl | hold
    · exact hvehicle
    · exact hkeys.vehicles row hold
  · rcases h.mem_workOrders hrow with rfl | hold
    · exact hcreator
    · exact hkeys.creators row hold

theorem StoredRows.AmountsStored.save (hamounts : before.AmountsStored)
    (h : Saves before owners workOrder written after) : after.AmountsStored := by
  obtain ⟨-, -, -, hdiscount, hcharged⟩ := h.row_ok
  refine ⟨fun row hrow => ?_, fun row hrow => ?_, fun row hrow => ?_, fun row hrow => ?_,
    fun row hrow => ?_⟩
  · rcases h.mem_workOrders hrow with rfl | hold
    · exact hdiscount
    · exact hamounts.discounts row hold
  · rcases h.mem_workOrders hrow with rfl | hold
    · exact hcharged
    · exact hamounts.charges row hold
  · rw [h.left] at hrow
    rcases mem_writeRows hrow with hold | hnew
    · exact hamounts.services row (mem_dropRows hold)
    · obtain ⟨entry, -, hmade⟩ := exists_left_of_forall₂ (forall₂_of_mapM_eq_ok h.services) hnew
      obtain ⟨_, -, hmade⟩ := bind_eq_ok_iff.mp hmade
      rw [← pure_eq_ok_iff.mp hmade]
      exact ⟨isAmount_toText _, fun raw hraw => isAmount_of_mem hraw⟩
  · rw [h.left] at hrow
    rcases mem_writeRows hrow with hold | hnew
    · exact hamounts.parts row (mem_dropRows hold)
    · obtain ⟨entry, -, hmade⟩ := exists_left_of_forall₂ (forall₂_of_mapM_eq_ok h.parts) hnew
      obtain ⟨_, -, hmade⟩ := bind_eq_ok_iff.mp hmade
      rw [← pure_eq_ok_iff.mp hmade]
      exact ⟨isAmount_toText _, fun raw hraw => isAmount_of_mem hraw⟩
  · rw [h.left] at hrow
    rcases mem_writeRows hrow with hold | hnew
    · exact hamounts.budgets row hold
    · obtain ⟨entry, -, hmade⟩ := exists_left_of_forall₂ (forall₂_of_mapM_eq_ok h.budgets) hnew
      obtain ⟨_, -, hmade⟩ := bind_eq_ok_iff.mp hmade
      rw [← pure_eq_ok_iff.mp hmade]
      exact isAmount_toText _

/-- Whatever is saved can be listed: the tables the saves of a log leave resolve the keys of
their work orders and hold amounts. -/
theorem readable_of_storedBy {log : List SagaEffect} :
    ∀ {tables : StoredTables}, storedBy owners log = .ok tables →
      tables.KeysResolve owners ∧ tables.AmountsStored := by
  induction log using List.reverseRecOn with
  | nil =>
      intro tables h
      rw [storedBy, List.filterMap_nil, List.foldlM_nil, pure_eq_ok_iff] at h
      subst h
      refine ⟨⟨?_, ?_, ?_⟩, ⟨?_, ?_, ?_, ?_, ?_⟩⟩ <;>
        exact fun row hrow => absurd hrow List.not_mem_nil
  | append_singleton log effect ih =>
      intro tables h
      cases hsaves : effect.saves with
      | none =>
          rw [storedBy_concat_none hsaves] at h
          exact ih h
      | some workOrder =>
          obtain ⟨before, hbefore, hsave⟩ := storedBy_concat hsaves h
          obtain ⟨hkeys, hamounts⟩ := ih hbefore
          obtain ⟨written, hwrites⟩ := save_ok hsave
          exact ⟨hkeys.save hwrites, hamounts.save hwrites⟩

end Saving

section Sorting

variable {tables : StoredTables} {statuses : List WorkOrderStatus}
variable {scan scan' : RowOrder StoredWorkOrder}

theorem mem_boardRows {row : StoredWorkOrder} :
    row ∈ tables.boardRows scan statuses ↔
      row ∈ tables.workOrders ∧ row.status ∈ statuses := by
  rw [StoredTables.boardRows, List.mem_insertionSort, List.mem_filter, decide_eq_true_eq,
    (scan.perm _).mem_iff]

theorem boardRows_perm : (tables.boardRows scan statuses).Perm
    (tables.workOrders.filter fun row => row.status ∈ statuses) :=
  (List.perm_insertionSort _ _).trans ((scan.perm _).filter _)

theorem nodup_boardRows : (tables.boardRows scan statuses).Nodup :=
  boardRows_perm.nodup_iff.mpr
    ((List.Nodup.of_map _ tables.constraints.pkWorkOrders).filter _)

theorem pairwise_boardRows : (tables.boardRows scan statuses).Pairwise
    fun left right => boardKey statuses left ≤ boardKey statuses right := by
  have htotal : Std.Total fun left right : StoredWorkOrder =>
      boardKey statuses left ≤ boardKey statuses right := ⟨fun _ _ => le_total _ _⟩
  have htrans : IsTrans StoredWorkOrder fun left right =>
      boardKey statuses left ≤ boardKey statuses right := ⟨fun _ _ _ => le_trans⟩
  exact List.pairwise_insertionSort _ _

/-- The key of the board tells the work orders apart, so one order is left, however the
table is scanned. -/
theorem boardRows_scan (scan scan' : RowOrder StoredWorkOrder) :
    tables.boardRows scan statuses = tables.boardRows scan' statuses := by
  refine (boardRows_perm.trans boardRows_perm.symm).eq_of_pairwise ?_ pairwise_boardRows
    pairwise_boardRows
  intro left right hleft hright hle hge
  have hkeys := congrArg (fun key => (ofLex (ofLex key).2).2) (le_antisymm hle hge)
  exact List.inj_on_of_nodup_map tables.constraints.pkWorkOrders (mem_boardRows.mp hleft).1
    (mem_boardRows.mp hright).1 hkeys

end Sorting

section Board

variable {tables : StoredTables} {owners : Owners} {statuses wanted : List WorkOrderStatus}
variable {scan : RowOrder StoredWorkOrder}

theorem mem_boardStatusOrder (status : WorkOrderStatus) : status ∈ boardStatusOrder := by
  cases status <;> decide

/-- The statuses of a query, put in the order of the board, keep that order. -/
theorem comesBefore_of_boardKey {left right : StoredWorkOrder}
    (hleft : left.status ∈ wanted) (hright : right.status ∈ wanted) (hne : left.id ≠ right.id)
    (hle : boardKey (boardStatusOrder.filter fun status => status ∈ wanted) left ≤
      boardKey (boardStatusOrder.filter fun status => status ∈ wanted) right) :
    ComesBefore left right := by
  have hmem : ∀ {status}, status ∈ wanted →
      status ∈ boardStatusOrder.filter fun status => status ∈ wanted := fun hwanted =>
    List.mem_filter.mpr ⟨mem_boardStatusOrder _, decide_eq_true hwanted⟩
  rw [boardKey, boardKey, Prod.Lex.toLex_le_toLex] at hle
  rcases hle with hless | ⟨hsame, hle⟩
  · exact Or.inl ((idxOf_lt_idxOf_of_sublist List.filter_sublist (by decide) (hmem hleft)
      (hmem hright)).mp hless)
  · have hstatus : left.status = right.status := (List.idxOf_inj (hmem hleft)).mp hsame
    rw [Prod.Lex.toLex_le_toLex] at hle
    refine Or.inr ⟨hstatus, hle.imp_right fun hcreated => ⟨hcreated.1, ?_⟩⟩
    exact lt_of_le_of_ne hcreated.2 hne

theorem boardRows_boardOf : BoardOf tables.toStoredRows wanted
    (tables.boardRows scan (boardStatusOrder.filter fun status => status ∈ wanted)) where
  nodup := nodup_boardRows
  mem := fun row => by
    rw [mem_boardRows, List.mem_filter, decide_eq_true_eq]
    exact and_congr_right fun _ => and_iff_right (mem_boardStatusOrder _)
  ordered := by
    refine (pairwise_boardRows.and nodup_boardRows).imp_of_mem fun hleft hright hpair => ?_
    obtain ⟨hleft, hwanted⟩ := mem_boardRows.mp hleft
    obtain ⟨hright, hwanted'⟩ := mem_boardRows.mp hright
    rw [List.mem_filter, decide_eq_true_eq] at hwanted hwanted'
    refine comesBefore_of_boardKey hwanted.2 hwanted'.2 (fun hid => hpair.2 ?_) hpair.1
    exact List.inj_on_of_nodup_map tables.constraints.pkWorkOrders hleft hright hid

/-- Only the set of the requested statuses matters. -/
theorem statuses_congr {other : List WorkOrderStatus}
    (hsame : ∀ status, status ∈ other ↔ status ∈ statuses) :
    (boardStatusOrder.filter fun status =>
        status ∈ if other.length > 0 then other else openStatuses) =
      boardStatusOrder.filter fun status => status ∈ requestedStatuses statuses := by
  have hempty : other = [] ↔ statuses = [] := by
    rw [List.eq_nil_iff_forall_not_mem, List.eq_nil_iff_forall_not_mem]
    exact forall_congr' fun status => not_congr (hsame status)
  refine List.filter_congr fun status _ => decide_eq_decide.mpr ?_
  rw [requestedStatuses]
  by_cases hnone : statuses = []
  · rw [if_pos hnone, hempty.mpr hnone, if_neg (by simp)]
  · rw [if_neg hnone, if_pos (List.length_pos_iff.mpr fun heq => hnone (hempty.mp heq))]
    exact hsame status

/-- A page is cut from the board; past the safe integers there is nothing to cut. -/
theorem listBoard_ok {summaries : List WorkOrderSummaryDto}
    (hrows : tables.workOrders.length ≤ maxSafeInteger)
    (hsummaries : List.Forall₂
      (fun row summary => tables.toDto owners row = .ok (some summary))
      (tables.boardRows scan statuses) summaries) (page pageSize : Nat) :
    tables.listBoard owners scan ⟨statuses, page, pageSize⟩ =
      .ok ⟨pageOf pageSize summaries page, (tables.boardRows scan statuses).length⟩ := by
  have hlength : (tables.boardRows scan statuses).length =
      (tables.workOrders.filter fun row => row.status ∈ statuses).length :=
    boardRows_perm.length_eq
  have hcut : (if (page - 1) * pageSize ≤ maxSafeInteger then
      ((tables.boardRows scan statuses).drop ((page - 1) * pageSize)).take pageSize
      else []) = pageOf pageSize (tables.boardRows scan statuses) page := by
    split
    · rfl
    · rename_i hpast
      have hall : (tables.boardRows scan statuses).length ≤ maxSafeInteger := by
        rw [hlength]
        exact (List.length_filter_le _ _).trans hrows
      rw [pageOf, List.drop_eq_nil_of_le (by omega), List.take_nil]
  have hpage : tables.toDtos owners (pageOf pageSize (tables.boardRows scan statuses) page) =
      .ok (pageOf pageSize summaries page) :=
    toDtos_ok (List.forall₂_take _ (List.forall₂_drop _ hsummaries))
  simp only [StoredTables.listBoard, hcut, hpage, ← hlength]
  rfl

/-- Board pages partition the board.  The pages up to the last list the work orders of the
requested statuses, each once and in the order of the board; all of them but the last are
full, those past it are empty, and each reports the same totals, whatever order the table
is scanned in and however the same statuses are named.  No table holds more rows than
there are safe integers, and `readable_of_storedBy` has the other two hypotheses. -/
theorem board_pages_partition (hkeys : tables.KeysResolve owners)
    (hamounts : tables.AmountsStored) (hrows : tables.workOrders.length ≤ maxSafeInteger)
    (statuses : List WorkOrderStatus) (pageSize : Nat) (hsize : 1 ≤ pageSize) :
    ∃ listed pages totalPages,
      BoardOf tables.toStoredRows (requestedStatuses statuses) listed ∧
      List.Forall₂ (fun row summary => tables.toDto owners row = .ok (some summary)) listed
        ((List.range' 1 totalPages).flatMap pages) ∧
      (∀ page, 1 ≤ page → page < totalPages → (pages page).length = pageSize) ∧
      (∀ page, totalPages < page → pages page = []) ∧
      ∀ other, (∀ status, status ∈ other ↔ status ∈ statuses) →
        ∀ scan page (hpage : 1 ≤ page),
          tables.listWorkOrders owners scan ⟨page, pageSize, other, hpage, hsize⟩ =
            .ok ⟨pages page, page, pageSize, listed.length, totalPages⟩ := by
  have hboard : BoardOf tables.toStoredRows (requestedStatuses statuses)
      (tables.boardRows .byKey (boardStatusOrder.filter fun status =>
        status ∈ requestedStatuses statuses)) := boardRows_boardOf
  obtain ⟨summaries, hsummaries⟩ := exists_forall₂ fun row hrow =>
    toDto_of_stored hkeys hamounts ((hboard.mem row).mp hrow).1
  have hlength := hsummaries.length_eq
  refine ⟨_, pageOf pageSize summaries, summaries.length ⌈/⌉ pageSize, hboard, ?_,
    fun page hpage hless => length_pageOf hsize hpage hless,
    fun page hless => pageOf_eq_nil hsize hless, ?_⟩
  · rw [flatMap_pageOf_ceilDiv hsize]
    exact hsummaries
  · intro other hsame scan page hpage
    rw [boardRows_scan .byKey scan] at hsummaries hlength ⊢
    rw [StoredTables.listWorkOrders]
    dsimp only
    rw [statuses_congr hsame, listBoard_ok hrows hsummaries, ← hlength]
    rfl

end Board

namespace BoardWitness

open StoredWitness (owners)

/-- A work order of the board, with the key, the status and the moment given. -/
def row (id : InternalId) (status : WorkOrderStatus) (createdAt : Timestamp) :
    StoredWorkOrder where
  id := id
  externalId := id
  number := toString id
  customerInternalId := 1
  vehicleInternalId := 1
  assignedMechanicInternalId := none
  createdByInternalId := 1
  status := status
  customerName := "Ana"
  vehiclePlate := "ABC1D23"
  vehicleBrand := "Fiat"
  vehicleModel := "Uno"
  vehicleYear := 2010
  createdAt := createdAt
  updatedAt := createdAt
  diagnosisStartedAt := none
  diagnosisCompletedAt := none
  budgetDecidedAt := none
  budgetDecidedByInternalId := none
  executionStartedAt := none
  chargedTotalCents := none
  discountCents := "0"
  discountNote := none
  discountAppliedByInternalId := none
  discountAppliedAt := none
  completedAt := none
  deliveredAt := none
  deliveredByInternalId := none
  canceledAt := none
  canceledByInternalId := none
  cancellationReason := none
  version := 0

/-- Three work orders of one vehicle, two of them closed, scanned in no order. -/
def rows : StoredRows where
  workOrders := [row 3 .canceled 5, row 1 .canceled 5, row 2 .inDiagnosis 9]

def board : StoredTables := ⟨rows, by decide +kernel⟩

/-- Two of three work orders fit on the first page, the third is on the last. -/
theorem board_pages_partition_board :
    (board.listWorkOrders owners .byKey
        ⟨1, 2, [.canceled, .inDiagnosis], by decide, by decide⟩).map
      (fun page => (page.items.map WorkOrderSummaryDto.id, page.totalPages)) =
        .ok ([2, 1], 2) ∧
    ∃ listed pages totalPages,
      BoardOf board.toStoredRows [.canceled, .inDiagnosis] listed ∧
      List.Forall₂ (fun row summary => board.toDto owners row = .ok (some summary)) listed
        ((List.range' 1 totalPages).flatMap pages) ∧
      (∀ page, 1 ≤ page → page < totalPages → (pages page).length = 2) ∧
      (∀ page, totalPages < page → pages page = []) ∧
      ∀ other, (∀ status, status ∈ other ↔ status ∈ [.canceled, .inDiagnosis]) →
        ∀ scan page (hpage : 1 ≤ page),
          board.listWorkOrders owners scan ⟨page, 2, other, hpage, by decide⟩ =
            .ok ⟨pages page, page, 2, listed.length, totalPages⟩ := by
  have hkeys : board.KeysResolve owners :=
    ⟨by decide +kernel, by decide +kernel, by decide +kernel⟩
  have hdiscounts : ∀ row ∈ board.workOrders, row.discountCents = Money.zero.toText := by
    decide +kernel
  have hcharges : ∀ row ∈ board.workOrders, row.chargedTotalCents = none := by
    decide +kernel
  refine ⟨by decide +kernel, board_pages_partition hkeys ⟨?_, ?_, ?_, ?_, ?_⟩
    (by decide +kernel) [.canceled, .inDiagnosis] 2 (by decide)⟩
  · exact fun row hrow => ⟨Money.zero, hdiscounts row hrow⟩
  · intro row hrow raw hraw
    rw [hcharges row hrow] at hraw
    cases hraw
  · exact fun _ hnone => absurd hnone List.not_mem_nil
  · exact fun _ hnone => absurd hnone List.not_mem_nil
  · exact fun _ hnone => absurd hnone List.not_mem_nil

end BoardWitness

end WorkOrders

end Workshop
