/-
How much is returned on one consumption.  The lines of a restore batch all
read what the ledger offered before the batch, so two lines that name one item
can together take more from a consumption than it held.  The bound holds as
long as the lines of every batch fit in what they are offered.
-/
import Workshop.Inventory.LedgerShape
import Workshop.Inventory.StockProgram

namespace Workshop

namespace Inventory

section Offers

variable {db : InventoryDb} {order : RowOrder MovementRow} {inventoryItemId : ItemId}
variable {workOrderId : WorkOrderId}

theorem offers_perm (db : InventoryDb) (order : RowOrder MovementRow)
    (inventoryItemId : ItemId) (workOrderId : WorkOrderId) :
    (db.offers order inventoryItemId workOrderId).Perm
      ((db.pendingRows inventoryItemId workOrderId).map fun row =>
        (row.id, db.netRemaining row)) := by
  have hrows := (List.perm_insertionSort
    (fun a b : MovementRow => b.occurredAt ≤ a.occurredAt) _).trans
    (order.perm (db.pendingRows inventoryItemId workOrderId))
  have hoffers := hrows.map fun row => (row.id, db.netRemaining row)
  simpa [InventoryDb.offers, offersFrom, InventoryDb.findPendingConsumptions,
    newestFirst, Function.comp_def] using hoffers

theorem mem_pendingRows {row : MovementRow} :
    row ∈ db.pendingRows inventoryItemId workOrderId ↔
      row ∈ db.movements ∧ row.inventoryItemId = inventoryItemId ∧
        isOpenConsumption workOrderId row = true ∧ 0 < db.netRemaining row := by
  simp [InventoryDb.pendingRows, and_assoc]

theorem isOpenConsumption_iff {row : MovementRow} :
    isOpenConsumption workOrderId row = true ↔
      row.workOrderId = some workOrderId ∧ row.kind = .consumption ∧
        row.status = some .pending ∧ confirmedConsumption row = true := by
  simp [isOpenConsumption, and_assoc]

theorem mem_offers {offer : MovementId × Int} :
    offer ∈ db.offers order inventoryItemId workOrderId ↔
      ∃ row ∈ db.pendingRows inventoryItemId workOrderId,
        (row.id, db.netRemaining row) = offer := by
  rw [(offers_perm db order inventoryItemId workOrderId).mem_iff, List.mem_map]

theorem offers_positive :
    ∀ offer ∈ db.offers order inventoryItemId workOrderId, 0 < offer.2 := by
  intro offer hoffer
  obtain ⟨row, hrow, rfl⟩ := mem_offers.mp hoffer
  exact (mem_pendingRows.mp hrow).2.2.2

theorem pendingRows_sublist :
    (db.pendingRows inventoryItemId workOrderId).Sublist
      (consumptionsOf db.movements) := by
  have hrows : db.pendingRows inventoryItemId workOrderId =
      (consumptionsOf db.movements).filter fun row =>
        row.inventoryItemId = inventoryItemId &&
          isOpenConsumption workOrderId row && decide (0 < db.netRemaining row) := by
    rw [consumptionsOf, List.filter_filter]
    refine List.filter_congr fun row _ => ?_
    by_cases hkind : row.kind = .consumption
    · simp [hkind]
    · simp [isOpenConsumption, hkind]
  rw [hrows]
  exact List.filter_sublist

theorem offers_nodup (hshape : LedgerShape db) :
    ((db.offers order inventoryItemId workOrderId).map Prod.fst).Nodup := by
  have hperm := (offers_perm db order inventoryItemId workOrderId).map Prod.fst
  rw [hperm.nodup_iff, List.map_map]
  exact hshape.ids.sublist (pendingRows_sublist.map _)

end Offers

section Draws

variable {δ : Type} {R : δ → MovementRow → Prop} {draws : List δ}
variable {posts : List MovementRow}

/-- Rows that return the draws give back on a movement what the draws take
from it. -/
theorem returnedIn_eq_drawnFrom (drawOf : δ → MovementId × Int)
    (hrows : List.Forall₂ R draws posts)
    (hdraw : ∀ draw row, R draw row → row.kind = .returned ∧
      row.undoesMovementId = some (drawOf draw).1 ∧
      row.quantity = (drawOf draw).2) (movementId : MovementId) :
    returnedIn movementId posts = drawnFrom movementId (draws.map drawOf) := by
  induction hrows with
  | nil => rfl
  | cons hhead _ ih =>
      obtain ⟨hkind, hundoes, hquantity⟩ := hdraw _ _ hhead
      rw [returnedIn, sumWhere_cons, List.map_cons, drawnFrom_cons, ← ih]
      simp [hkind, hundoes, hquantity, returnedIn]

theorem drawnFrom_eq_of_mem {draws : List (MovementId × Int)}
    (hnodup : (draws.map Prod.fst).Nodup) {draw : MovementId × Int}
    (hmem : draw ∈ draws) : drawnFrom draw.1 draws = draw.2 := by
  induction draws with
  | nil => simp at hmem
  | cons head draws ih =>
      rw [List.map_cons, List.nodup_cons] at hnodup
      rw [drawnFrom_cons]
      rcases List.mem_cons.mp hmem with rfl | hmem
      · have hnone : drawnFrom draw.1 draws = 0 :=
          drawnFrom_eq_zero fun other hother heq =>
            hnodup.1 (heq ▸ List.mem_map_of_mem hother)
        simp [hnone]
      · have hne : head.1 ≠ draw.1 := fun heq =>
          hnodup.1 (heq ▸ List.mem_map_of_mem hmem)
        simp [hne, ih hnodup.2 hmem]

end Draws

/-- The quantities of the lines that name an item. -/
def quantitiesOf (inventoryItemId : ItemId) (lines : List StockLine) : List Int :=
  (lines.filter fun line => line.inventoryItemId = inventoryItemId).map
    StockLine.quantity

/-- The condition on a restore batch: it repeats an operation that was
applied, or for every item it names either at most one of its lines asks for
units, or the lines together ask for no more than the consumption offered
first has left. -/
def RestoreFits (db : InventoryDb) (order : RowOrder MovementRow)
    (command : RestoreStockBatchCommand) : Prop :=
  db.hasReturnOfOperation command.operationId = true ∨
    ∀ line ∈ command.lines,
      Fits (db.offers order line.inventoryItemId command.workOrderId)
        (quantitiesOf line.inventoryItemId command.lines)

instance (db : InventoryDb) (order : RowOrder MovementRow)
    (command : RestoreStockBatchCommand) :
    Decidable (RestoreFits db order command) :=
  inferInstanceAs (Decidable (_ = true ∨ ∀ line ∈ command.lines, _))

/-- Every restore of a run fits. -/
def restoresFit (db : InventoryDb) (_ : StockPlace) : StockInput → Prop
  | .restore command order _ => RestoreFits db order command
  | _ => True

instance (db : InventoryDb) (place : StockPlace) (input : StockInput) :
    Decidable (restoresFit db place input) := by
  cases input <;> unfold restoresFit <;> infer_instance

section Restore

variable {db db' : InventoryDb} {order : RowOrder MovementRow} {workOrderId : WorkOrderId}

/-- A batch takes from a consumption what the lines that name its item take
from it: the other lines are offered other consumptions. -/
theorem drawnFrom_restoreDraws (hshape : LedgerShape db) {row : MovementRow}
    (hrow : row ∈ db.movements) (hkind : row.kind = .consumption)
    (lines : List StockLine) :
    drawnFrom row.id
        ((db.restoreDraws order workOrderId lines).map Prod.snd) =
      drawnByAll row.id (db.offers order row.inventoryItemId workOrderId)
        (quantitiesOf row.inventoryItemId lines) := by
  induction lines with
  | nil => rfl
  | cons line lines ih =>
      rw [InventoryDb.restoreDraws, List.flatMap_cons, List.map_append,
        ← InventoryDb.restoreDraws, drawnFrom_append, ih, List.map_map]
      have hdraws : (Prod.snd ∘ fun draw : MovementId × Int =>
          (line.inventoryItemId, draw)) = id := rfl
      rw [hdraws, List.map_id]
      by_cases hitem : line.inventoryItemId = row.inventoryItemId
      · simp [quantitiesOf, hitem]
      · have hnone : drawnFrom row.id (allocate
            (db.offers order line.inventoryItemId workOrderId) line.quantity) = 0 := by
          refine drawnFrom_eq_zero fun draw hdraw heq => hitem ?_
          obtain ⟨_, offer, hoffer, hsame, _⟩ := mem_allocate offers_positive hdraw
          obtain ⟨other, hother, rfl⟩ := mem_offers.mp hoffer
          obtain ⟨hmem, hotherItem, hopen, -⟩ := mem_pendingRows.mp hother
          have hsame : other = row :=
            hshape.eq_of_id hmem (isOpenConsumption_iff.mp hopen).2.1 hrow hkind
              (hsame.trans heq)
          rw [← hotherItem, hsame]
        simp [quantitiesOf, hitem, hnone]

/-- A consumption that is not offered is not drawn from. -/
theorem drawnByAll_eq_zero_of_not_offered {row : MovementRow}
    {wants : List Int}
    (hnot : ∀ offer ∈ db.offers order row.inventoryItemId workOrderId,
      offer.1 ≠ row.id) :
    drawnByAll row.id (db.offers order row.inventoryItemId workOrderId) wants = 0 := by
  refine drawnFrom_eq_zero fun draw hdraw heq => ?_
  obtain ⟨want, -, hdraw⟩ := List.mem_flatMap.mp hdraw
  obtain ⟨_, offer, hoffer, hsame, _⟩ := mem_allocate offers_positive hdraw
  exact hnot offer hoffer (hsame.trans heq)

variable {command : RestoreStockBatchCommand} {now : Timestamp}

/-- What a batch that was no repeat adds to the returns of a consumption. -/
theorem restoreStockBatch_returnedTotal (hshape : LedgerShape db)
    {posts : List MovementRow} (hposted : Posted db db' posts)
    (hposts : List.Forall₂ (fun draw row => IsReturn command.operationId
        command.workOrderId draw.1 draw.2 row)
      (db.restoreDraws order command.workOrderId command.lines) posts)
    {row : MovementRow} (hrow : row ∈ db.movements)
    (hkind : row.kind = .consumption) :
    db'.returnedTotal row.id = db.returnedTotal row.id +
      drawnByAll row.id
        (db.offers order row.inventoryItemId command.workOrderId)
        (quantitiesOf row.inventoryItemId command.lines) := by
  rw [hposted.returnedTotal, ← drawnFrom_restoreDraws hshape hrow hkind]
  exact congrArg (_ + ·) (returnedIn_eq_drawnFrom Prod.snd hposts
    (fun _ _ h => ⟨h.kind, h.undoesMovementId, h.quantity⟩) row.id)

/-- Every row a restore posts returns something on a consumption that was
offered to it. -/
theorem restoreDraws_postable {posts : List MovementRow}
    (hposts : List.Forall₂ (fun draw row => IsReturn command.operationId
        command.workOrderId draw.1 draw.2 row)
      (db.restoreDraws order command.workOrderId command.lines) posts) :
    ∀ row ∈ posts, row.kind = .returned ∧ 0 < row.quantity ∧
      row.operationId = some command.operationId ∧
      ∃ target ∈ db.pendingRows row.inventoryItemId command.workOrderId,
        row.undoesMovementId = some target.id ∧
        row.workOrderId = some command.workOrderId := by
  intro row hrow
  obtain ⟨draw, hdraw, hreturn⟩ := exists_left_of_forall₂ hposts hrow
  obtain ⟨line, -, hline⟩ := List.mem_flatMap.mp hdraw
  obtain ⟨taken, htaken, rfl⟩ := List.mem_map.mp hline
  obtain ⟨_, offer, hoffer, hsame, _⟩ := mem_allocate offers_positive htaken
  obtain ⟨target, htarget, rfl⟩ := mem_offers.mp hoffer
  refine ⟨hreturn.kind, hreturn.quantity ▸ hreturn.positive, hreturn.operationId,
    target, ?_, ?_, hreturn.workOrderId⟩
  · rw [hreturn.inventoryItemId]
    exact htarget
  · exact hreturn.undoesMovementId.trans (congrArg some hsame.symm)

end Restore

section Undo

variable {db db' : InventoryDb} {command : UndoConsumptionCommand}

theorem mem_operationRows {operationId : OperationId} {row : MovementRow} :
    row ∈ db.operationRows operationId ↔
      row ∈ db.movements ∧ row.operationId = some operationId ∧
        row.kind = .consumption ∧ 0 < db.netRemaining row := by
  simp [InventoryDb.operationRows, and_assoc]

theorem operationDraws_perm (db : InventoryDb) (operationId : OperationId) :
    ((db.findPendingConsumptionsOfOperation operationId).map fun consumption =>
        (consumption.movementId, consumption.quantity)).Perm
      ((db.operationRows operationId).map fun row =>
        (row.id, db.netRemaining row)) := by
  have hrows := (List.perm_insertionSort
    (fun a b : MovementRow => b.occurredAt ≤ a.occurredAt) _).trans
    (List.reverse_perm (db.operationRows operationId))
  have hdraws := hrows.map fun row => (row.id, db.netRemaining row)
  simpa [InventoryDb.findPendingConsumptionsOfOperation, newestFirst,
    Function.comp_def] using hdraws

theorem mem_findPendingConsumptionsOfOperation {operationId : OperationId}
    {consumption : OperationConsumptionDto} :
    consumption ∈ db.findPendingConsumptionsOfOperation operationId ↔
      ∃ row ∈ db.operationRows operationId,
        ({ movementId := row.id, quantity := db.netRemaining row
           inventoryItemId := row.inventoryItemId
           workOrderId := row.workOrderId.getD 0 } : OperationConsumptionDto) =
          consumption := by
  simp [InventoryDb.findPendingConsumptionsOfOperation, newestFirst,
    List.mem_insertionSort]

theorem operationDraws_nodup (hshape : LedgerShape db)
    (operationId : OperationId) :
    (((db.operationRows operationId).map fun row =>
      (row.id, db.netRemaining row)).map Prod.fst).Nodup := by
  have hrows : db.operationRows operationId =
      (consumptionsOf db.movements).filter fun row =>
        row.operationId = some operationId && decide (0 < db.netRemaining row) := by
    rw [consumptionsOf, List.filter_filter]
    exact List.filter_congr fun row _ => by
      simp only [Bool.and_assoc, Bool.and_comm]
  rw [List.map_map, hrows]
  exact hshape.ids.sublist (List.filter_sublist.map _)

/-- An undo returns on every consumption of its operation all that is left,
and nothing on any other. -/
theorem undoConsumption_returnedTotal (hshape : LedgerShape db)
    {posts : List MovementRow} (hposted : Posted db db' posts)
    (hposts : List.Forall₂ (fun (consumption : OperationConsumptionDto) row =>
        IsReturn command.operationId consumption.workOrderId
          consumption.inventoryItemId
          (consumption.movementId, consumption.quantity) row)
      (db.findPendingConsumptionsOfOperation command.operationId) posts)
    {row : MovementRow} (hrow : row ∈ db.movements)
    (hkind : row.kind = .consumption) :
    db'.returnedTotal row.id = db.returnedTotal row.id +
      if row.operationId = some command.operationId ∧ 0 < db.netRemaining row
      then db.netRemaining row else 0 := by
  have hdrawn : returnedIn row.id posts = drawnFrom row.id
      ((db.operationRows command.operationId).map fun row =>
        (row.id, db.netRemaining row)) := by
    rw [returnedIn_eq_drawnFrom
      (fun consumption => (consumption.movementId, consumption.quantity)) hposts
      (fun _ _ h => ⟨h.kind, h.undoesMovementId, h.quantity⟩)]
    exact sumWhere_perm (operationDraws_perm db command.operationId)
  rw [hposted.returnedTotal, hdrawn]
  congr 1
  split
  · rename_i hown
    have hmem : row ∈ db.operationRows command.operationId :=
      mem_operationRows.mpr ⟨hrow, hown.1, hkind, hown.2⟩
    have hdraw := List.mem_map_of_mem (f := fun row : MovementRow =>
      (row.id, db.netRemaining row)) hmem
    exact drawnFrom_eq_of_mem (operationDraws_nodup hshape command.operationId)
      hdraw
  · rename_i hother
    refine drawnFrom_eq_zero fun draw hdraw heq => hother ?_
    obtain ⟨other, hmem, rfl⟩ := List.mem_map.mp hdraw
    obtain ⟨hmovement, hown, hotherKind, hleft⟩ := mem_operationRows.mp hmem
    obtain rfl := hshape.eq_of_id hmovement hotherKind hrow hkind heq
    exact ⟨hown, hleft⟩

/-- Every row an undo posts returns what a consumption of its operation had
left. -/
theorem undo_postable {posts : List MovementRow}
    (hposts : List.Forall₂ (fun (consumption : OperationConsumptionDto) row =>
        IsReturn command.operationId consumption.workOrderId
          consumption.inventoryItemId
          (consumption.movementId, consumption.quantity) row)
      (db.findPendingConsumptionsOfOperation command.operationId) posts) :
    ∀ row ∈ posts, row.kind = .returned ∧ 0 < row.quantity ∧
      row.operationId = some command.operationId ∧
      ∃ target ∈ db.operationRows command.operationId,
        row.undoesMovementId = some target.id ∧
        row.inventoryItemId = target.inventoryItemId ∧
        row.workOrderId = some (target.workOrderId.getD 0) := by
  intro row hrow
  obtain ⟨consumption, hmem, hreturn⟩ := exists_left_of_forall₂ hposts hrow
  obtain ⟨target, htarget, rfl⟩ := mem_findPendingConsumptionsOfOperation.mp hmem
  exact ⟨hreturn.kind, hreturn.quantity ▸ hreturn.positive, hreturn.operationId,
    target, htarget, hreturn.undoesMovementId, hreturn.inventoryItemId,
    hreturn.workOrderId⟩

end Undo

section Shape

variable {db db' : InventoryDb} {now : Timestamp}

theorem LedgerShape.consumeStockBatch (hshape : LedgerShape db)
    {command : ConsumeStockBatchCommand}
    (h : db.consumeStockBatch command now = .ok db') : LedgerShape db' := by
  obtain ⟨posts, hposted, hposts⟩ := consumeStockBatch_ok hshape.items h
  refine hshape.posted hposted fun row hrow => ?_
  obtain ⟨line, -, hline⟩ := exists_left_of_forall₂ hposts hrow
  exact ⟨hline.quantity ▸ hline.positive, Or.inl ⟨hline.kind, by
    rw [hline.workOrderId]
    rfl⟩⟩

theorem LedgerShape.restoreStockBatch (hshape : LedgerShape db)
    {order : RowOrder MovementRow} {command : RestoreStockBatchCommand}
    (h : db.restoreStockBatch order command now = .ok db') : LedgerShape db' := by
  rcases restoreStockBatch_ok hshape.items h with
    ⟨-, rfl⟩ | ⟨-, posts, hposted, hposts, -⟩
  · exact hshape
  refine hshape.posted hposted fun row hrow => ?_
  obtain ⟨hkind, hpositive, -, target, htarget, hundoes, hwork⟩ :=
    restoreDraws_postable hposts row hrow
  obtain ⟨hmem, hitem, hopen, -⟩ := mem_pendingRows.mp htarget
  obtain ⟨htargetWork, hconsumption, -⟩ := isOpenConsumption_iff.mp hopen
  exact ⟨hpositive, Or.inr ⟨hkind, target, hmem, hconsumption, hundoes,
    hitem.symm, hwork.trans htargetWork.symm⟩⟩

theorem LedgerShape.undoConsumption (hshape : LedgerShape db)
    {command : UndoConsumptionCommand} {named : List ItemId}
    (h : db.undoConsumption command named now = .ok db') : LedgerShape db' := by
  obtain ⟨posts, hposted, hposts⟩ := undoConsumption_ok hshape.items h
  refine hshape.posted hposted fun row hrow => ?_
  obtain ⟨hkind, hpositive, -, target, htarget, hundoes, hitem, hwork⟩ :=
    undo_postable hposts row hrow
  obtain ⟨hmem, -, hconsumption, -⟩ := mem_operationRows.mp htarget
  obtain ⟨workOrderId, howned⟩ :=
    Option.isSome_iff_exists.mp (hshape.owned target hmem hconsumption)
  exact ⟨hpositive, Or.inr ⟨hkind, target, hmem, hconsumption, hundoes, hitem,
    by rw [hwork, howned]; rfl⟩⟩

end Shape

section Bounds

variable {db db' : InventoryDb} {now : Timestamp}

/-- Rows that return nothing leave what was returned as it was. -/
theorem Posted.returnedTotal_eq {posts : List MovementRow} (hposted : Posted db db' posts)
    (hposts : ∀ row ∈ posts, row.kind = .consumption) (movementId : MovementId) :
    db'.returnedTotal movementId = db.returnedTotal movementId := by
  have hnone : returnedIn movementId posts = 0 :=
    sumWhere_eq_zero fun post hpost htest => by
      have hreturned := (Bool.and_eq_true_iff.mp htest).1
      simp [hposts post hpost] at hreturned
  rw [hposted.returnedTotal, hnone, add_zero]

/-- Rows that return nothing leave every bound as it was; the consumptions
among them start with nothing returned. -/
theorem ReturnsBounded.posted (hshape : LedgerShape db)
    (hbounded : ReturnsBounded db) {posts : List MovementRow}
    (hposted : Posted db db' posts)
    (hposts : ∀ row ∈ posts, row.kind = .consumption ∧ 0 < row.quantity) :
    ReturnsBounded db' := by
  intro row hrow hkind
  rw [hposted.returnedTotal_eq fun post hpost => (hposts post hpost).1]
  rcases hposted.mem_movements.mp hrow with hrow | hrow
  · exact hbounded row hrow hkind
  · rw [hshape.returnedTotal_fresh (hposted.mem_ids hrow).1]
    exact (hposts row hrow).2.le

theorem ReturnsBounded.consumeStockBatch (hshape : LedgerShape db)
    (hbounded : ReturnsBounded db) {command : ConsumeStockBatchCommand}
    (h : db.consumeStockBatch command now = .ok db') : ReturnsBounded db' := by
  obtain ⟨posts, hposted, hposts⟩ := consumeStockBatch_ok hshape.items h
  refine hbounded.posted hshape hposted fun row hrow => ?_
  obtain ⟨line, -, hline⟩ := exists_left_of_forall₂ hposts hrow
  exact ⟨hline.kind, hline.quantity ▸ hline.positive⟩

/-- A consumption of a ledger that only returns were posted to stood there
before. -/
theorem mem_of_posted_returns {posts : List MovementRow}
    (hposted : Posted db db' posts)
    (hposts : ∀ row ∈ posts, row.kind = .returned) {row : MovementRow}
    (hrow : row ∈ db'.movements) (hkind : row.kind = .consumption) :
    row ∈ db.movements := by
  rcases hposted.mem_movements.mp hrow with hrow | hrow
  · exact hrow
  · have hreturned := hposts row hrow
    rw [hkind] at hreturned
    cases hreturned

/-- A restore batch that commits keeps the bounds exactly when it fits. -/
theorem restoreStockBatch_bounded_iff (hshape : LedgerShape db)
    (hbounded : ReturnsBounded db) {order : RowOrder MovementRow}
    {command : RestoreStockBatchCommand}
    (h : db.restoreStockBatch order command now = .ok db') :
    ReturnsBounded db' ↔ RestoreFits db order command := by
  rcases restoreStockBatch_ok hshape.items h with
    ⟨hrepeat, rfl⟩ | ⟨hfirst, posts, hposted, hposts, -⟩
  · exact ⟨fun _ => Or.inl hrepeat, fun _ => hbounded⟩
  have hreturns : ∀ row ∈ posts, row.kind = .returned := fun row hrow =>
    (restoreDraws_postable hposts row hrow).1
  have htotal {row : MovementRow} (hrow : row ∈ db.movements)
      (hkind : row.kind = .consumption) :=
    restoreStockBatch_returnedTotal hshape hposted hposts hrow hkind
  constructor
  · intro hafter
    refine Or.inr fun line _ => ?_
    rw [← drawnByAll_le_iff_fits offers_positive (offers_nodup hshape)]
    intro offer hoffer
    obtain ⟨row, hpending, rfl⟩ := mem_offers.mp hoffer
    obtain ⟨hrow, hitem, hopen, -⟩ := mem_pendingRows.mp hpending
    have hkind := (isOpenConsumption_iff.mp hopen).2.1
    have hbound := hafter row (hposted.mem_movements.mpr (Or.inl hrow)) hkind
    rw [htotal hrow hkind, hitem] at hbound
    simp only [InventoryDb.netRemaining]
    omega
  · intro hfits row hrow hkind
    have hrow := mem_of_posted_returns hposted hreturns hrow hkind
    have hfits : Fits (db.offers order row.inventoryItemId command.workOrderId)
        (quantitiesOf row.inventoryItemId command.lines) := by
      by_cases hnamed : ∃ line ∈ command.lines,
          line.inventoryItemId = row.inventoryItemId
      · obtain ⟨line, hline, hitem⟩ := hnamed
        exact hitem ▸ (hfits.resolve_left (by simp [hfirst])) line hline
      · have hnone : quantitiesOf row.inventoryItemId command.lines = [] := by
          rw [quantitiesOf, List.filter_eq_nil_iff.mpr, List.map_nil]
          exact fun line hline hitem =>
            hnamed ⟨line, hline, of_decide_eq_true hitem⟩
        rw [hnone]
        exact Or.inl (Nat.zero_le _)
    have hwithin := (drawnByAll_le_iff_fits offers_positive
      (offers_nodup hshape)).mpr hfits
    rw [htotal hrow hkind]
    by_cases hoffered : ∃ offer ∈ db.offers order row.inventoryItemId
        command.workOrderId, offer.1 = row.id
    · obtain ⟨offer, hoffer, hid⟩ := hoffered
      have hbound := hwithin offer hoffer
      obtain ⟨other, hother, rfl⟩ := mem_offers.mp hoffer
      obtain ⟨hmem, -, hopen, -⟩ := mem_pendingRows.mp hother
      obtain rfl := hshape.eq_of_id hmem (isOpenConsumption_iff.mp hopen).2.1
        hrow hkind hid
      simp only [InventoryDb.netRemaining] at hbound
      omega
    · rw [drawnByAll_eq_zero_of_not_offered fun offer hoffer hid =>
        hoffered ⟨offer, hoffer, hid⟩, add_zero]
      exact hbounded row hrow hkind

theorem ReturnsBounded.undoConsumption (hshape : LedgerShape db)
    (hbounded : ReturnsBounded db) {command : UndoConsumptionCommand}
    {named : List ItemId} (h : db.undoConsumption command named now = .ok db') :
    ReturnsBounded db' := by
  obtain ⟨posts, hposted, hposts⟩ := undoConsumption_ok hshape.items h
  intro row hrow hkind
  have hrow := mem_of_posted_returns hposted
    (fun row hrow => (undo_postable hposts row hrow).1) hrow hkind
  have hbound := hbounded row hrow hkind
  have hleft : db.netRemaining row = row.quantity - db.returnedTotal row.id := rfl
  rw [undoConsumption_returnedTotal hshape hposted hposts hrow hkind]
  split <;> omega

/-- Rows that keep what they are keep the bounds. -/
theorem ReturnsBounded.mapMovements (hbounded : ReturnsBounded db)
    {change : MovementRow → MovementRow} (hsame : SameMovement change)
    {transitions : List TransitionRow} :
    ReturnsBounded
      { db with movements := db.movements.map change, transitions } := by
  intro row hrow hkind
  obtain ⟨before, hbefore, rfl⟩ := List.mem_map.mp hrow
  rw [returnedTotal_eq, hsame.returnedIn, hsame.id, hsame.quantity]
  exact hbounded before hbefore (by rwa [hsame.kind] at hkind)

theorem ReturnsBounded.save (hbounded : ReturnsBounded db)
    {item : InventoryItem} (hplain : PlainItem item)
    (hsave : db.save item = .ok db') : ReturnsBounded db' := by
  obtain ⟨row, -, -, -, -, rfl⟩ := save_ok hsave
  intro row hrow hkind
  rw [returnedTotal_eq, returnedIn_append, hplain.returnedIn, add_zero]
  rcases List.mem_append.mp hrow with hrow | hrow
  · exact hbounded row hrow hkind
  · obtain ⟨movement, hmovement, rfl⟩ := List.mem_map.mp hrow
    exact absurd hkind (hplain movement hmovement).noConsumption

end Bounds

section Runs

variable {db db' : InventoryDb} {place place' : StockPlace} {input : StockInput}

theorem sameMovement_confirm (operationId : OperationId) (now : Timestamp) :
    SameMovement fun row =>
      if row.operationId = some operationId && row.kind = .consumption &&
          row.confirmedAt.isNone
      then { row with confirmedAt := some now } else row := by
  constructor <;> intro row <;> split <;> rfl

theorem sameMovement_close (closure : Closure)
    (candidates : List ClosureCandidate) :
    SameMovement fun row =>
      if decide (row.id ∈ candidates.map ClosureCandidate.movementId) &&
          row.status = some .pending
      then { row with status := some closure.toStatus } else row := by
  constructor <;> intro row <;> split <;> rfl

/-- Every statement keeps the shape of the ledger. -/
theorem LedgerShape.move (hshape : LedgerShape db)
    (hplace : FreshCopy db place)
    (hmove : StockMove db place input db' place') : LedgerShape db' := by
  cases hmove with
  | read nextId hle next hnext => exact hshape.withNextId hle
  | save item hsave => exact hshape.save (hplace item rfl).2 hsave
  | consume command now hconsume => exact hshape.consumeStockBatch hconsume
  | restore command order now hrestore => exact hshape.restoreStockBatch hrestore
  | undo command named now hundo => exact hshape.undoConsumption hundo
  | confirm operationId now =>
      exact hshape.mapMovements (sameMovement_confirm operationId now)
  | close closure actorUserId candidates now =>
      exact hshape.mapMovements (sameMovement_close closure candidates)

/-- Every statement but a restore that does not fit keeps the bounds. -/
theorem ReturnsBounded.move (hshape : LedgerShape db)
    (hbounded : ReturnsBounded db) (hplace : FreshCopy db place)
    (hfits : restoresFit db place input)
    (hmove : StockMove db place input db' place') : ReturnsBounded db' := by
  cases hmove with
  | read nextId hle next hnext => exact hbounded
  | save item hsave => exact hbounded.save (hplace item rfl).2 hsave
  | consume command now hconsume =>
      exact hbounded.consumeStockBatch hshape hconsume
  | restore command order now hrestore =>
      exact (restoreStockBatch_bounded_iff hshape hbounded hrestore).mpr hfits
  | undo command named now hundo => exact hbounded.undoConsumption hshape hundo
  | confirm operationId now =>
      exact hbounded.mapMovements (sameMovement_confirm operationId now)
  | close closure actorUserId candidates now =>
      exact hbounded.mapMovements (sameMovement_close closure candidates)

variable {config : Config InventoryDb StockPlace} {log : List Unit}

theorem ledgerShape_empty : LedgerShape {} where
  items := List.nodup_nil
  ids := List.nodup_nil
  fresh _ hrow := absurd hrow List.not_mem_nil
  points _ hrow := absurd hrow List.not_mem_nil
  owned _ hrow := absurd hrow List.not_mem_nil
  positive _ hrow := absurd hrow List.not_mem_nil

/-- The ledger keeps its shape in every reachable state. -/
theorem ledgerShape_of_reaches (h : Reaches stockExec emptyStock config log) :
    LedgerShape config.store ∧
      ∀ pid, FreshCopy config.store (config.places pid) := by
  refine ReachesBy.invariant_of_places (G := fun db _ => LedgerShape db)
    (L := fun db _ place => FreshCopy db place) ?_ ?_ ?_ ?_ h
  · exact ledgerShape_empty
  · exact fun _ _ hidle => nomatch hidle
  · intro config log pid input out _ hshape hplaces _ hexec
    have hmove := stockMove_of_exec hexec
    exact ⟨hshape.move (hplaces pid) hmove, hmove.freshCopy⟩
  · intro config log pid input out _ hshape hplaces _ hexec other _
    exact (stockMove_of_exec hexec).freshCopy_other hshape.items (hplaces other)

/-- In a run whose restores fit no consumption is returned beyond what it
took. -/
theorem returnsBounded_of_reaches
    (h : ReachesBy stockExec restoresFit emptyStock config log) :
    ReturnsBounded config.store := by
  refine ReachesBy.invariant (P := fun config _ => ReturnsBounded config.store)
    (fun _ hmem => absurd hmem List.not_mem_nil) ?_ h
  intro config log pid input out before hbounded hfits hexec
  obtain ⟨hshape, hplaces⟩ := ledgerShape_of_reaches before.reaches
  exact hbounded.move hshape (hplaces pid) hfits (stockMove_of_exec hexec)

/-- No consumption is returned beyond what it took in any state reached by
restores that fit, and the next restore that commits keeps that exactly when
it fits as well. -/
theorem returns_bounded_iff_restores_fit
    (h : ReachesBy stockExec restoresFit emptyStock config log) :
    ReturnsBounded config.store ∧
      ∀ order command now db',
        config.store.restoreStockBatch order command now = .ok db' →
          (ReturnsBounded db' ↔ RestoreFits config.store order command) := by
  have hbounded := returnsBounded_of_reaches h
  exact ⟨hbounded, fun order command now db' hrestore =>
    restoreStockBatch_bounded_iff (ledgerShape_of_reaches h.reaches).1 hbounded
      hrestore⟩

end Runs

namespace ReturnWitness

/-- A withdrawal takes the item twice, three units each time, and is
confirmed. -/
def withdrawn : List (Nat × StockInput) :=
  [(0, .create "OIL-1" "Oil filter" none .part 1000 1), (0, .proceed 1),
   (0, .replenish 0 9 900 7 none 2), (0, .proceed 2),
   (0, .consume ⟨[⟨0, 3⟩, ⟨0, 3⟩], 50, 7, some 60⟩ 3), (0, .confirm 60 4)]

/-- The return of units for each of the two part items. -/
def returned (first second : Int) : List (Nat × StockInput) :=
  withdrawn ++
    [(0, .restore ⟨[⟨0, first⟩, ⟨0, second⟩], 50, 7, 61⟩ RowOrder.byKey 5)]

/-- Two and one fit in the three units of the consumption offered first. -/
def fitted : Config InventoryDb StockPlace × List Unit :=
  endOfRun stockExec emptyStock (returned 2 1) (by decide +kernel)

theorem returns_bounded_iff_restores_fit_fitted :
    ReturnsBounded fitted.1.store ∧
      ∀ order command now db',
        fitted.1.store.restoreStockBatch order command now = .ok db' →
          (ReturnsBounded db' ↔ RestoreFits fitted.1.store order command) :=
  returns_bounded_iff_restores_fit
    (reachesBy_endOfRun (fun db place input =>
      decide (restoresFit db place input)) of_decide_eq_true
      (by decide +kernel) _)

/-- Two and two do not: both lines draw from the consumption that is offered
first, and four units go back on the three it took. -/
def overdrawn : Config InventoryDb StockPlace × List Unit :=
  endOfRun stockExec emptyStock (returned 2 2) (by decide +kernel)

theorem returns_not_always_bounded :
    ¬ ∀ config log, Reaches stockExec emptyStock config log →
      ReturnsBounded config.store := by
  intro hall
  have hbounded := hall overdrawn.1 overdrawn.2 (reaches_endOfRun _)
  have hover : ¬ ReturnsBounded overdrawn.1.store := by
    unfold ReturnsBounded
    decide +kernel
  exact hover hbounded

end ReturnWitness

end Inventory

end Workshop
