/-
The part of the ledger some consumptions make up: the chosen consumptions, the
returns on them and their transitions.  A statement that reads nothing else
does the same on that part alone.
-/
import Workshop.Inventory.ReturnBounds

namespace Workshop

namespace Inventory

/-- A return on a consumption that is chosen. -/
def returnsOn (chosen : MovementRow → Bool) (movements : List MovementRow)
    (row : MovementRow) : Bool :=
  row.kind = .returned && movements.any fun target =>
    chosen target && row.undoesMovementId = some target.id

/-- The consumptions that are chosen and the returns on them. -/
def rowsOn (chosen : MovementRow → Bool) (movements : List MovementRow) :
    List MovementRow :=
  movements.filter fun row => chosen row || returnsOn chosen movements row

/-- The transitions of the consumptions that are chosen. -/
def transitionsOn (chosen : MovementRow → Bool) (db : InventoryDb) :
    List TransitionRow :=
  db.transitions.filter fun transition =>
    db.movements.any fun row => chosen row && row.id = transition.movementId

section Rows

variable {chosen other : MovementRow → Bool} {movements posts : List MovementRow}
variable {row : MovementRow}

theorem returnsOn_iff : returnsOn chosen movements row = true ↔
    row.kind = .returned ∧ ∃ target ∈ movements, chosen target = true ∧
      row.undoesMovementId = some target.id := by
  simp [returnsOn]

theorem mem_rowsOn : row ∈ rowsOn chosen movements ↔ row ∈ movements ∧
    (chosen row = true ∨ returnsOn chosen movements row = true) := by
  simp [rowsOn]

theorem any_congr_of_mem {α : Type} {p q : α → Bool} {l : List α}
    (h : ∀ a ∈ l, p a = q a) : l.any p = l.any q := by
  induction l with
  | nil => rfl
  | cons a l ih =>
      rw [List.any_cons, List.any_cons, h a List.mem_cons_self,
        ih fun b hb => h b (List.mem_cons_of_mem a hb)]

theorem returnsOn_congr (h : ∀ row ∈ movements, chosen row = other row)
    (row : MovementRow) :
    returnsOn chosen movements row = returnsOn other movements row := by
  rw [returnsOn, returnsOn, any_congr_of_mem fun target htarget => by
    rw [h target htarget]]

/-- Only what is chosen of the rows matters. -/
theorem rowsOn_congr (h : ∀ row ∈ movements, chosen row = other row) :
    rowsOn chosen movements = rowsOn other movements :=
  List.filter_congr fun row hrow => by rw [h row hrow, returnsOn_congr h]

theorem transitionsOn_congr {db : InventoryDb}
    (h : ∀ row ∈ db.movements, chosen row = other row) :
    transitionsOn chosen db = transitionsOn other db :=
  List.filter_congr fun transition _ => any_congr_of_mem fun row hrow => by
    rw [h row hrow]

theorem returnsOn_append (hnone : ∀ row ∈ posts, chosen row = false)
    (row : MovementRow) :
    returnsOn chosen (movements ++ posts) row = returnsOn chosen movements row := by
  have hposts : (posts.any fun target =>
      chosen target && row.undoesMovementId = some target.id) = false := by
    rw [List.any_eq_false]
    intro target htarget
    simp [hnone target htarget]
  rw [returnsOn, returnsOn, List.any_append, hposts, Bool.or_false]

theorem rowsOn_append (hnone : ∀ row ∈ posts, chosen row = false) :
    rowsOn chosen (movements ++ posts) =
      rowsOn chosen movements ++ posts.filter (returnsOn chosen movements) := by
  rw [rowsOn, List.filter_append]
  refine congr_arg₂ _ ?_ ?_
  · exact List.filter_congr fun row _ => by rw [returnsOn_append hnone]
  · exact List.filter_congr fun row hrow => by
      rw [returnsOn_append hnone, hnone row hrow, Bool.false_or]

/-- Rows that are posted for other consumptions are not seen. -/
theorem rowsOn_append_of_none (hnone : ∀ row ∈ posts, chosen row = false)
    (hreturns : ∀ row ∈ posts, returnsOn chosen movements row = false) :
    rowsOn chosen (movements ++ posts) = rowsOn chosen movements := by
  rw [rowsOn_append hnone, List.filter_eq_nil_iff.mpr, List.append_nil]
  intro row hrow
  simp [hreturns row hrow]

/-- Returns on what is chosen are all seen. -/
theorem rowsOn_append_of_all (hnone : ∀ row ∈ posts, chosen row = false)
    (hreturns : ∀ row ∈ posts, returnsOn chosen movements row = true) :
    rowsOn chosen (movements ++ posts) = rowsOn chosen movements ++ posts := by
  rw [rowsOn_append hnone, List.filter_eq_self.mpr hreturns]

theorem transitionsOn_append {db db' : InventoryDb}
    (hmovements : db'.movements = db.movements ++ posts)
    (htransitions : db'.transitions = db.transitions)
    (hnone : ∀ row ∈ posts, chosen row = false) :
    transitionsOn chosen db' = transitionsOn chosen db := by
  rw [transitionsOn, transitionsOn, htransitions, hmovements]
  refine List.filter_congr fun transition _ => ?_
  have hposts : (posts.any fun row =>
      chosen row && row.id = transition.movementId) = false := by
    rw [List.any_eq_false]
    intro row hrow
    simp [hnone row hrow]
  rw [List.any_append, hposts, Bool.or_false]

section Marks

variable {change : MovementRow → MovementRow}

theorem any_map_marks (hsame : SameMovement change)
    (hchosen : ∀ row ∈ movements, chosen (change row) = other row)
    (points : MovementId → Bool) :
    ((movements.map change).any fun row => chosen row && points row.id) =
      movements.any fun row => other row && points row.id := by
  rw [List.any_map]
  refine any_congr_of_mem fun row hrow => ?_
  rw [Function.comp_apply, hchosen row hrow, hsame.id]

/-- A statement that marks rows marks those it chooses. -/
theorem rowsOn_map (hsame : SameMovement change)
    (hchosen : ∀ row ∈ movements, chosen (change row) = other row) :
    rowsOn chosen (movements.map change) = (rowsOn other movements).map change := by
  rw [rowsOn, List.filter_map]
  refine congrArg _ (List.filter_congr fun row hrow => ?_)
  simp only [Function.comp_apply, returnsOn, hchosen row hrow, hsame.kind,
    hsame.undoesMovementId]
  rw [any_map_marks hsame hchosen fun id => row.undoesMovementId = some id]

theorem transitionsOn_map {db db' : InventoryDb} (hsame : SameMovement change)
    (hmovements : db'.movements = db.movements.map change)
    (htransitions : db'.transitions = db.transitions)
    (hchosen : ∀ row ∈ db.movements, chosen (change row) = other row) :
    transitionsOn chosen db' = transitionsOn other db := by
  rw [transitionsOn, transitionsOn, htransitions, hmovements]
  exact List.filter_congr fun transition _ =>
    any_map_marks hsame hchosen fun id => id = transition.movementId

/-- A statement that marks none of the rows that are chosen is not seen. -/
theorem rowsOn_map_of_fixed (hsame : SameMovement change)
    (hchosen : ∀ row ∈ movements, chosen (change row) = chosen row)
    (hfixed : ∀ row ∈ rowsOn chosen movements, change row = row) :
    rowsOn chosen (movements.map change) = rowsOn chosen movements := by
  rw [rowsOn_map hsame hchosen]
  exact (List.map_congr_left hfixed).trans (List.map_id _)

end Marks

/-- Two disjoint choices, one without returns, make up the rows of both. -/
theorem rowsOn_or_perm (hdisjoint : ∀ row ∈ movements, other row = true →
      row.kind = .consumption ∧ chosen row = false)
    (hreturns : ∀ row ∈ movements, returnsOn other movements row = false) :
    (rowsOn (fun row => chosen row || other row) movements).Perm
      (rowsOn chosen movements ++ movements.filter other) := by
  have hboth (row : MovementRow) (hrow : row ∈ movements) :
      returnsOn (fun row => chosen row || other row) movements row =
        returnsOn chosen movements row := by
    have hnone := hreturns row hrow
    rw [Bool.eq_iff_iff, returnsOn_iff, returnsOn_iff]
    refine and_congr_right fun hkind => exists_congr fun target =>
      and_congr_right fun htarget => ?_
    rw [Bool.or_eq_true]
    refine ⟨fun ⟨hchosen, hundoes⟩ => ⟨hchosen.resolve_right fun hother => ?_, hundoes⟩,
      fun ⟨hchosen, hundoes⟩ => ⟨Or.inl hchosen, hundoes⟩⟩
    exact Bool.false_ne_true (hnone.symm.trans
      (returnsOn_iff.mpr ⟨hkind, target, htarget, hother, hundoes⟩))
  have hsplit := (List.filter_append_perm other
    (rowsOn (fun row => chosen row || other row) movements)).symm
  refine hsplit.trans (List.perm_append_comm.trans (List.Perm.of_eq ?_))
  refine congr_arg₂ _ ?_ ?_
  · rw [rowsOn, List.filter_filter, rowsOn]
    refine List.filter_congr fun row hrow => ?_
    rw [hboth row hrow]
    cases hother : other row with
    | false => simp
    | true =>
        obtain ⟨hkind, hchosen⟩ := hdisjoint row hrow hother
        have hreturn : returnsOn chosen movements row = false := by
          simp [returnsOn, hkind]
        simp [hchosen, hreturn]
  · rw [rowsOn, List.filter_filter]
    refine List.filter_congr fun row hrow => ?_
    cases hother : other row <;> simp

end Rows

section Close

variable {chosen : MovementRow → Bool} {db : InventoryDb}
variable {candidates : List ClosureCandidate}

/-- Closing marks what is chosen where the choice does not read the status. -/
theorem chosen_close (hstatus : ∀ row status, chosen { row with status } = chosen row)
    (closure : Closure) (row : MovementRow) :
    chosen (if decide (row.id ∈ candidates.map ClosureCandidate.movementId) &&
        row.status = some .pending
      then { row with status := some closure.toStatus } else row) = chosen row := by
  split
  · exact hstatus row (some closure.toStatus)
  · rfl

/-- The transitions a closure records are those of the rows it closes. -/
theorem transitionsOn_close
    (hstatus : ∀ row status, chosen { row with status } = chosen row)
    (closure : Closure) (actorUserId : UserId) (now : Timestamp) :
    transitionsOn chosen (db.closeConsumptions closure candidates actorUserId now) =
      transitionsOn chosen db ++ ((db.closureRows candidates).filter fun picked =>
        db.movements.any fun row => chosen row && row.id = picked.id).map fun row =>
          { movementId := row.id, fromStatus := .pending
            toStatus := closure.toStatus, actorUserId, occurredAt := now
            quantity := closure.quantity (remainingOf candidates row.id) } := by
  have hseen (points : MovementId → Bool) := any_map_marks
    (sameMovement_close closure candidates)
    (fun row (_ : row ∈ db.movements) => chosen_close hstatus closure row) points
  simp only [transitionsOn, InventoryDb.closeConsumptions, List.filter_append,
    List.filter_map]
  refine congr_arg₂ _ ?_ (congrArg _ ?_)
  · exact List.filter_congr fun transition _ =>
      hseen fun id => id = transition.movementId
  · exact List.filter_congr fun picked _ => hseen fun id => id = picked.id

end Close

/-- Two databases show the same of some chosen consumptions. -/
structure SameView (chosen : MovementRow → Bool) (db db' : InventoryDb) : Prop where
  rows : rowsOn chosen db'.movements = rowsOn chosen db.movements
  transitions : transitionsOn chosen db' = transitionsOn chosen db

theorem SameView.posted {chosen : MovementRow → Bool} {db db' : InventoryDb}
    {posts : List MovementRow} (hmovements : db'.movements = db.movements ++ posts)
    (htransitions : db'.transitions = db.transitions)
    (hnone : ∀ row ∈ posts, chosen row = false)
    (hreturns : ∀ row ∈ posts, returnsOn chosen db.movements row = false) :
    SameView chosen db db' :=
  ⟨hmovements ▸ rowsOn_append_of_none hnone hreturns,
    transitionsOn_append hmovements htransitions hnone⟩

/-- A database with the rows and the transitions some chosen consumptions make
up. -/
structure IsView (chosen : MovementRow → Bool) (db alone : InventoryDb) : Prop where
  movements : alone.movements = rowsOn chosen db.movements
  transitions : alone.transitions = transitionsOn chosen db

theorem IsView.mono {chosen : MovementRow → Bool} {db db' alone : InventoryDb}
    (h : IsView chosen db alone) (hsame : SameView chosen db db') :
    IsView chosen db' alone :=
  ⟨h.movements.trans hsame.rows.symm, h.transitions.trans hsame.transitions.symm⟩

/-- A database that holds, of the ledger, what some chosen consumptions make
up. -/
structure HoldsOnly (chosen : MovementRow → Bool) (db alone : InventoryDb) :
    Prop where
  items : alone.items = db.items
  nextId : alone.nextId = db.nextId
  movements : alone.movements = rowsOn chosen db.movements

section Reads

variable {chosen : MovementRow → Bool} {db alone : InventoryDb}
variable {workOrderId : WorkOrderId}

/-- What was returned on a consumption that is chosen is seen. -/
theorem HoldsOnly.netRemaining (h : HoldsOnly chosen db alone) {row : MovementRow}
    (hrow : row ∈ db.movements) (hchosen : chosen row = true) :
    alone.netRemaining row = db.netRemaining row := by
  have hreturned : alone.returnedTotal row.id = db.returnedTotal row.id := by
    rw [InventoryDb.returnedTotal, InventoryDb.returnedTotal, h.movements, rowsOn,
      sumWhere_filter]
    refine sumWhere_congr (fun post _ => ?_) fun _ _ _ => rfl
    by_cases hpoints : post.kind = .returned ∧ post.undoesMovementId = some row.id
    · have hseen : returnsOn chosen db.movements post = true :=
        returnsOn_iff.mpr ⟨hpoints.1, row, hrow, hchosen, hpoints.2⟩
      simp [hpoints, hseen]
    · rw [not_and_or] at hpoints
      rcases hpoints with hkind | hundoes
      · simp [hkind]
      · simp [hundoes]
  rw [InventoryDb.netRemaining, InventoryDb.netRemaining, hreturned]

/-- Reading the open consumptions of a work order sees them all when they are
chosen. -/
theorem HoldsOnly.filter_open (h : HoldsOnly chosen db alone)
    (hopen : ∀ row ∈ db.movements, isOpenConsumption workOrderId row = true →
      chosen row = true)
    (keeps : MovementRow → Int → Bool) :
    (alone.movements.filter fun row =>
        isOpenConsumption workOrderId row && keeps row (alone.netRemaining row)) =
      db.movements.filter fun row =>
        isOpenConsumption workOrderId row && keeps row (db.netRemaining row) := by
  rw [h.movements, rowsOn, List.filter_filter]
  refine List.filter_congr fun row hrow => ?_
  cases htest : isOpenConsumption workOrderId row with
  | false => simp
  | true =>
      have hchosen := hopen row hrow htest
      simp [hchosen, h.netRemaining hrow hchosen]

theorem HoldsOnly.pendingRows (h : HoldsOnly chosen db alone)
    (hopen : ∀ row ∈ db.movements, isOpenConsumption workOrderId row = true →
      chosen row = true) (itemId : ItemId) :
    alone.pendingRows itemId workOrderId = db.pendingRows itemId workOrderId := by
  have hrows := h.filter_open hopen fun row remaining =>
    row.inventoryItemId = itemId && decide (0 < remaining)
  have hswap (db : InventoryDb) : db.pendingRows itemId workOrderId =
      db.movements.filter fun row => isOpenConsumption workOrderId row &&
        (decide (row.inventoryItemId = itemId) &&
          decide (0 < db.netRemaining row)) :=
    List.filter_congr fun row _ => by
      rw [Bool.and_comm (decide _) (isOpenConsumption _ _), Bool.and_assoc]
  rw [hswap, hswap]
  exact hrows

theorem HoldsOnly.findPendingConsumptions (h : HoldsOnly chosen db alone)
    (hopen : ∀ row ∈ db.movements, isOpenConsumption workOrderId row = true →
      chosen row = true) (order : RowOrder MovementRow) (itemId : ItemId) :
    alone.findPendingConsumptions order itemId workOrderId =
      db.findPendingConsumptions order itemId workOrderId := by
  rw [InventoryDb.findPendingConsumptions, InventoryDb.findPendingConsumptions,
    h.pendingRows hopen]
  refine List.map_congr_left fun row hrow => ?_
  have hpending : row ∈ db.pendingRows itemId workOrderId := by
    rw [newestFirst, List.mem_insertionSort, (order.perm _).mem_iff] at hrow
    exact hrow
  obtain ⟨hmem, -, htest, -⟩ := mem_pendingRows.mp hpending
  rw [h.netRemaining hmem (hopen row hmem htest)]

theorem HoldsOnly.closureCandidates (h : HoldsOnly chosen db alone)
    (hopen : ∀ row ∈ db.movements, isOpenConsumption workOrderId row = true →
      chosen row = true) (closure : Closure) :
    alone.closureCandidates closure workOrderId =
      db.closureCandidates closure workOrderId := by
  have hnamed : ∀ asks : Int → Bool,
      ((alone.movements.filter fun row => isOpenConsumption workOrderId row &&
          asks (alone.netRemaining row)).map fun row =>
          (⟨row.id, alone.netRemaining row⟩ : ClosureCandidate)) =
        (db.movements.filter fun row => isOpenConsumption workOrderId row &&
          asks (db.netRemaining row)).map fun row => ⟨row.id, db.netRemaining row⟩ := by
    intro asks
    rw [h.filter_open hopen fun _ remaining => asks remaining]
    refine List.map_congr_left fun row hrow => ?_
    obtain ⟨hmem, htest⟩ := List.mem_filter.mp hrow
    rw [h.netRemaining hmem (hopen row hmem (Bool.and_eq_true_iff.mp htest).1)]
  cases closure with
  | settle => exact hnamed fun _ => true
  | writeOff => exact hnamed fun remaining => decide (0 < remaining)

/-- No operation has more returns in a part of the ledger. -/
theorem HoldsOnly.hasReturnOfOperation (h : HoldsOnly chosen db alone)
    {operationId : OperationId} (hnone : db.hasReturnOfOperation operationId = false) :
    alone.hasReturnOfOperation operationId = false := by
  rw [InventoryDb.hasReturnOfOperation, List.any_eq_false] at hnone ⊢
  intro row hrow
  rw [h.movements] at hrow
  exact hnone row (mem_rowsOn.mp hrow).1

end Reads

section Saves

variable {db db' alone : InventoryDb} {item : InventoryItem}

theorem unresolvedMovement_eq_none_iff : db.unresolvedMovement item = none ↔
    ∀ movement ∈ item.movements, ∀ id, movement.undoesMovementId = some id →
      ∃ row ∈ db.movements, row.id = id := by
  simp only [InventoryDb.unresolvedMovement, List.find?_eq_none, List.mem_filterMap,
    Bool.not_eq_true', Bool.not_eq_false, List.any_eq_true, decide_eq_true_eq]
  constructor
  · exact fun h movement hmovement id hid => h id ⟨movement, hmovement, hid⟩
  · rintro h id ⟨movement, hmovement, hid⟩
    exact h movement hmovement id hid

/-- What a save does to the items, and the rows it appends, depend on the items
alone, once the movements it undoes are there. -/
theorem save_frame (hsave : db.save item = .ok db') (hitems : alone.items = db.items)
    (hresolved : alone.unresolvedMovement item = none) :
    alone.save item = .ok { alone with
      items := db'.items
      movements := alone.movements ++
        item.movements.map (toMovementRow item.id) } := by
  obtain ⟨row, hrow, ⟨hnonneg, hle⟩, hsku, -, rfl⟩ := save_ok hsave
  have hsku' : alone.skuTaken row = false := by
    rw [← hsku, InventoryDb.skuTaken, InventoryDb.skuTaken, hitems]
  simp only [InventoryDb.save, hitems, ← hrow, fitsInteger_of_nonneg hnonneg hle, hsku',
    Bool.not_true, Bool.false_eq_true, if_false, not_lt.mpr hnonneg, hresolved]

theorem saveAll_frame {items : List InventoryItem} :
    ∀ {db db' alone : InventoryDb}, db.saveAll items = .ok db' →
      alone.items = db.items →
      (∀ item ∈ items, alone.unresolvedMovement item = none) →
      alone.saveAll items = .ok { alone with
        items := db'.items, movements := alone.movements ++ newRows items } := by
  induction items with
  | nil =>
      intro db db' alone h hitems _
      simp only [InventoryDb.saveAll, Except.ok.injEq] at h
      subst h
      simp [InventoryDb.saveAll, ← hitems]
  | cons item items ih =>
      intro db db' alone h hitems hresolved
      simp only [InventoryDb.saveAll] at h
      obtain ⟨middle, hsave, h⟩ := bind_eq_ok_iff.mp h
      have hhead := save_frame hsave hitems (hresolved item List.mem_cons_self)
      have hnext : ({ alone with
          items := middle.items
          movements := alone.movements ++
            item.movements.map (toMovementRow item.id) } : InventoryDb).items =
          middle.items := rfl
      simp only [InventoryDb.saveAll]
      refine bind_eq_ok_iff.mpr ⟨_, hhead, ?_⟩
      refine (ih h hnext fun other hother => ?_).trans ?_
      · refine unresolvedMovement_eq_none_iff.mpr fun movement hmovement id hid => ?_
        obtain ⟨row, hrow, hsame⟩ := unresolvedMovement_eq_none_iff.mp
          (hresolved other (List.mem_cons_of_mem _ hother)) movement hmovement id hid
        exact ⟨row, List.mem_append_left _ hrow, hsame⟩
      · rw [newRows_cons, List.append_assoc]

/-- The line loop of a return reads the pending consumptions and nothing
else. -/
theorem restoreLines_congr {order : RowOrder MovementRow}
    {command : RestoreStockBatchCommand} {now : Timestamp}
    (hreads : ∀ itemId, alone.findPendingConsumptions order itemId command.workOrderId =
      db.findPendingConsumptions order itemId command.workOrderId)
    {lines : List StockLine} : ∀ (loaded : List InventoryItem) (nextId : Uuid),
      restoreLines alone order command now lines loaded nextId =
        restoreLines db order command now lines loaded nextId := by
  induction lines with
  | nil => exact fun _ _ => rfl
  | cons line lines ih =>
      intro loaded nextId
      simp only [restoreLines, hreads, ih]

end Saves

section Restore

variable {chosen : MovementRow → Bool} {db db' alone : InventoryDb}
variable {order : RowOrder MovementRow} {command : RestoreStockBatchCommand}
variable {now : Timestamp}

/-- A return posts on the consumptions it is offered. -/
structure RestoredRow (db : InventoryDb) (workOrderId : WorkOrderId)
    (row : MovementRow) : Prop where
  kind : row.kind = .returned
  offered : ∃ target ∈ db.pendingRows row.inventoryItemId workOrderId,
    row.undoesMovementId = some target.id

/-- A return of a work order whose open consumptions are chosen does the same
on what they make up: it posts the same rows. -/
theorem restoreStockBatch_frame (hnodup : db.itemIds.Nodup)
    (hfirst : db.hasReturnOfOperation command.operationId = false)
    (h : db.restoreStockBatch order command now = .ok db')
    (halone : HoldsOnly chosen db alone)
    (hopen : ∀ row ∈ db.movements,
      isOpenConsumption command.workOrderId row = true → chosen row = true) :
    ∃ rows alone', alone.restoreStockBatch order command now = .ok alone' ∧
      db'.movements = db.movements ++ rows ∧ db'.transitions = db.transitions ∧
      alone'.movements = alone.movements ++ rows ∧
      alone'.transitions = alone.transitions ∧
      ∀ row ∈ rows, RestoredRow db command.workOrderId row := by
  obtain ⟨loaded, hload, h⟩ := bind_eq_ok_iff.mp h
  rw [if_neg (by simp [hfirst])] at h
  obtain ⟨⟨loaded', nextId⟩, hlines, h⟩ := bind_eq_ok_iff.mp h
  obtain ⟨saved, hsave, h⟩ := bind_eq_ok_iff.mp h
  rw [pure_eq_ok_iff] at h
  subst h
  obtain ⟨posts, hextends, hposts, -⟩ :=
    restoreLines_ok (nodup_of_findAllByIdsForUpdate hnodup hload) hlines
  obtain ⟨hmovements, htransitions, -⟩ := saveAll_ok hsave
    (mem_itemIds_of_findAllByIdsForUpdate hload hextends)
  have hperm := hextends.rows
  rw [(findAllByIdsForUpdate_ok hload).2, List.nil_append] at hperm
  have hrestored : ∀ row ∈ newRows loaded', RestoredRow db command.workOrderId row := by
    intro row hrow
    obtain ⟨hkind, -, -, target, htarget, hundoes, -⟩ :=
      restoreDraws_postable hposts row (hperm.mem_iff.mp hrow)
    exact ⟨hkind, target, htarget, hundoes⟩
  have hresolved : ∀ item ∈ loaded', alone.unresolvedMovement item = none := by
    intro item hitem
    refine unresolvedMovement_eq_none_iff.mpr fun movement hmovement id hid => ?_
    obtain ⟨-, target, htarget, hundoes⟩ := hrestored (toMovementRow item.id movement)
      (List.mem_flatMap.mpr ⟨item, hitem, List.mem_map_of_mem hmovement⟩)
    rw [← halone.pendingRows hopen] at htarget
    exact ⟨target, (mem_pendingRows.mp htarget).1,
      Option.some.inj (hundoes.symm.trans hid)⟩
  have hload' : alone.findAllByIdsForUpdate
      (command.lines.map StockLine.inventoryItemId) = .ok loaded := by
    rw [← hload, InventoryDb.findAllByIdsForUpdate, InventoryDb.findAllByIdsForUpdate,
      halone.items]
  have hrun : alone.restoreStockBatch order command now = .ok { alone with
      items := saved.items, movements := alone.movements ++ newRows loaded', nextId } := by
    refine bind_eq_ok_iff.mpr ⟨loaded, hload', ?_⟩
    rw [if_neg (by simp [halone.hasReturnOfOperation hfirst])]
    refine bind_eq_ok_iff.mpr ⟨(loaded', nextId), ?_, ?_⟩
    · rw [restoreLines_congr (halone.findPendingConsumptions hopen order),
        halone.nextId]
      exact hlines
    · exact bind_eq_ok_iff.mpr ⟨_, saveAll_frame hsave halone.items hresolved, rfl⟩
  exact ⟨newRows loaded', _, hrun, hmovements, htransitions, rfl, rfl, hrestored⟩

/-- So a return of chosen consumptions keeps the view of them in step. -/
theorem IsView.restore (hnodup : db.itemIds.Nodup)
    (hfirst : db.hasReturnOfOperation command.operationId = false)
    (h : db.restoreStockBatch order command now = .ok db')
    (hview : IsView chosen db alone)
    (hconsumptions : ∀ row, chosen row = true → row.kind = .consumption)
    (hopen : ∀ row ∈ db.movements,
      isOpenConsumption command.workOrderId row = true → chosen row = true) :
    ∃ alone', ({ alone with items := db.items, nextId := db.nextId } :
        InventoryDb).restoreStockBatch order command now = .ok alone' ∧
      IsView chosen db' alone' := by
  have halone : HoldsOnly chosen db
      { alone with items := db.items, nextId := db.nextId } :=
    ⟨rfl, rfl, hview.movements⟩
  obtain ⟨rows, alone', hrun, hmovements, htransitions, hrows, hkept, hrestored⟩ :=
    restoreStockBatch_frame hnodup hfirst h halone hopen
  have hnone : ∀ row ∈ rows, chosen row = false := by
    intro row hrow
    rw [Bool.eq_false_iff]
    intro hchosen
    have hkind := (hrestored row hrow).kind
    rw [hconsumptions row hchosen] at hkind
    cases hkind
  have hseen : ∀ row ∈ rows, returnsOn chosen db.movements row = true := by
    intro row hrow
    obtain ⟨hkind, target, htarget, hundoes⟩ := hrestored row hrow
    obtain ⟨hmem, -, htest, -⟩ := mem_pendingRows.mp htarget
    exact returnsOn_iff.mpr ⟨hkind, target, hmem, hopen target hmem htest, hundoes⟩
  refine ⟨alone', hrun, ?_, ?_⟩
  · rw [hrows, hmovements, rowsOn_append_of_all hnone hseen, ← hview.movements]
  · rw [hkept, transitionsOn_append hmovements htransitions hnone]
    exact hview.transitions

end Restore

end Inventory

end Workshop
