/-
The three tables a move of the saga can touch, one at a time: what happens to
the rows of the outbox, to the tables of inventory and to the work orders.
-/
import Workshop.WorkOrders.PreparedRequests
import Workshop.WorkOrders.SagaMoves

namespace Workshop

namespace WorkOrders

open Inventory

/-- How the status of a step can change in one move, and which program changes
it.  A step that is done stays done. -/
inductive StatusChange (place : SagaPlace) (effects : List SagaEffect)
    (step : StockStep) : StepStatus → StepStatus → Prop
  | same (status : StepStatus) : StatusChange place effects step status status
  | disarm (withdrawal : Withdrawal) (hplace : place = .committing withdrawal)
      (heffect : .withdrawn step.operationId ∈ effects) :
      StatusChange place effects step .armed .done
  | complete (errand : Errand) (hplace : place = .completing errand)
      (hstep : step.operationId = errand.step.operationId) {status : StepStatus}
      (hopen : status.isOpen = true) :
      StatusChange place effects step status .done
  | release (undo : StockStep) (hplace : place = .releasing undo)
      (hstep : step.operationId = undo.operationId) :
      StatusChange place effects step .armed .pending
  | claim (heffect : .claimed step.operationId ∈ effects) {status : StepStatus}
      (hopen : status.isOpen = true) :
      StatusChange place effects step status .pending
  | fail (failed : ClaimedStockStep) (queue : List ClaimedStockStep)
      (error : String) (hplace : place = .failing failed queue error)
      (hstep : step.operationId = failed.operationId) {status : StepStatus}
      (hopen : status.isOpen = true) :
      StatusChange place effects step status .failed
  | retry (hplace : place = .idle) :
      StatusChange place effects step .failed .pending

/-- No withdrawal and no work order with a step of its own was saved. -/
def RecordsNone (place : SagaPlace) (effects : List SagaEffect) : Prop :=
  (∀ operationId, .withdrawn operationId ∉ effects) ∧
    ∀ edit step, place = .saving edit (some step) → .saved edit ∉ effects

/-- The row a move adds to the outbox, the places it is added between and the
effects it comes with. -/
inductive AddedStep :
    SagaPlace → SagaPlace → List SagaEffect → Option StockStepRow → Prop
  | none (place next : SagaPlace) {effects : List SagaEffect}
      (hnone : RecordsNone place effects) : AddedStep place next effects none
  | arm (withdrawal : Withdrawal) (dueAt now : Timestamp) :
      AddedStep (.arming withdrawal) (.consuming withdrawal) []
        (some (withdrawal.undo.toRow .armed dueAt now))
  | saveStep (edit : Edit) (step : StockStep) (now : Timestamp) :
      AddedStep (.saving edit (some step)) (.claiming (some [step.operationId]))
        [.saved edit] (some (step.toRow .pending now now))
  | commit (withdrawal : Withdrawal) (now : Timestamp) :
      AddedStep (.committing withdrawal)
        (.claiming (some [withdrawal.confirmation.operationId]))
        [.saved withdrawal.edit, .withdrawn withdrawal.undo.operationId]
        (some (withdrawal.confirmation.toRow .pending now now))

/-- A row of the outbox before and after a move. -/
def RowChange (place : SagaPlace) (effects : List SagaEffect)
    (row row' : StockStepRow) : Prop :=
  row'.toStockStep = row.toStockStep ∧
    StatusChange place effects row.toStockStep row.status row'.status

/-- The rows of the outbox before and after a move. -/
structure StepsChange (place next : SagaPlace) (effects : List SagaEffect)
    (steps steps' : List StockStepRow) : Prop where
  rows : ∃ kept added, steps' = kept ++ added.toList ∧
    AddedStep place next effects added ∧
    List.Forall₂ (RowChange place effects) steps kept
  fresh : (steps.map fun row => row.operationId).Nodup →
    (steps'.map fun row => row.operationId).Nodup

section Statements

variable {place next : SagaPlace} {effects : List SagaEffect}
variable {steps steps' : List StockStepRow} {row : StockStepRow}

theorem insert_ok (h : StockSteps.insert steps row = .ok steps') :
    (∀ other ∈ steps, other.operationId ≠ row.operationId) ∧
      steps' = steps ++ [row] := by
  unfold StockSteps.insert at h
  split at h
  · cases h
  · rename_i hnone
    cases h
    refine ⟨fun other hother heq => hnone ?_, rfl⟩
    exact List.any_eq_true.mpr ⟨other, hother, decide_eq_true heq⟩

theorem forall₂_map_self {α : Type} {R : α → α → Prop} {f : α → α} {l : List α}
    (h : ∀ a ∈ l, R a (f a)) : List.Forall₂ R l (l.map f) := by
  rw [List.forall₂_map_right_iff, List.forall₂_same]
  exact h

theorem map_operationId {change : StockStepRow → StockStepRow}
    (h : ∀ row ∈ steps, RowChange place effects row (change row)) :
    (steps.map change).map (fun row => row.operationId) =
      steps.map fun row => row.operationId := by
  rw [List.map_map]
  exact List.map_congr_left fun row hrow =>
    congrArg StockStep.operationId (h row hrow).1

/-- An `UPDATE` keeps every step and changes the status of some. -/
theorem StepsChange.of_map {change : StockStepRow → StockStepRow}
    (hnone : RecordsNone place effects)
    (h : ∀ row ∈ steps, RowChange place effects row (change row)) :
    StepsChange place next effects steps (steps.map change) where
  rows := ⟨_, none, (List.append_nil _).symm, .none _ _ hnone,
    forall₂_map_self h⟩
  fresh := fun hnodup => by
    rw [map_operationId h]
    exact hnodup

theorem StepsChange.refl
    (hnone : RecordsNone place effects) :
    StepsChange place next effects steps steps := by
  have h : StepsChange place next effects steps (steps.map id) :=
    StepsChange.of_map hnone fun row _ => ⟨rfl, .same row.status⟩
  rwa [List.map_id] at h

theorem StepsChange.updateWhere {operationId : OperationId}
    {allowed : List StepStatus} {change : StockStepRow → StockStepRow}
    (hnone : RecordsNone place effects)
    (h : ∀ row ∈ steps, row.operationId = operationId → row.status ∈ allowed →
      RowChange place effects row (change row)) :
    StepsChange place next effects steps
      (StockSteps.updateWhere steps operationId allowed change) := by
  apply StepsChange.of_map hnone
  intro row hrow
  split
  · rename_i htest
    simp only [Bool.and_eq_true, decide_eq_true_eq] at htest
    exact h row hrow htest.1 htest.2
  · exact ⟨rfl, .same row.status⟩

/-- A new row goes to the end. -/
theorem StepsChange.insert {middle : List StockStepRow}
    (hchange : ∃ change : StockStepRow → StockStepRow, middle = steps.map change ∧
      ∀ row ∈ steps, RowChange place effects row (change row))
    (hadded : AddedStep place next effects (some row))
    (hinsert : StockSteps.insert middle row = .ok steps') :
    StepsChange place next effects steps steps' := by
  obtain ⟨change, rfl, hrows⟩ := hchange
  obtain ⟨hnew, rfl⟩ := insert_ok hinsert
  refine ⟨⟨_, some row, rfl, hadded, forall₂_map_self hrows⟩, fun hnodup => ?_⟩
  rw [List.map_append, List.nodup_append, map_operationId hrows]
  refine ⟨hnodup, List.nodup_singleton _, ?_⟩
  intro id hid other hother
  rw [List.map_singleton, List.mem_singleton] at hother
  rw [← map_operationId hrows] at hid
  obtain ⟨old, hold, rfl⟩ := List.mem_map.mp hid
  rw [hother]
  exact hnew old hold

theorem isOpen_of_mem {status : StepStatus}
    (h : status ∈ [StepStatus.armed, StepStatus.pending]) :
    status.isOpen = true := by
  cases status <;> first | rfl | simp at h

end Statements

section Claims

variable {now : Timestamp} {ids : Option (List OperationId)}
variable {rows older : List StockStepRow} {row : StockStepRow}

/-- A row that may be claimed is open, and no older step holds it unless it is
an undo. -/
theorem mem_dueRows :
    ∀ {older : List StockStepRow}, row ∈ StockSteps.dueRows now ids older rows →
      ∃ before after, rows = before ++ row :: after ∧ row.status.isOpen = true ∧
        row.dueAt ≤ now ∧ (row.kind = .undoConsumption ∨
          ∀ old ∈ older ++ before, StockSteps.holds row.workOrderId old = false) := by
  induction rows with
  | nil => intro older h; cases h
  | cons head rows ih =>
      intro older h
      simp only [StockSteps.dueRows] at h
      have hrest : row ∈ StockSteps.dueRows now ids (older ++ [head]) rows →
          ∃ before after, head :: rows = before ++ row :: after ∧
            row.status.isOpen = true ∧ row.dueAt ≤ now ∧
            (row.kind = .undoConsumption ∨ ∀ old ∈ older ++ before,
              StockSteps.holds row.workOrderId old = false) := by
        intro hmem
        obtain ⟨before, after, rfl, hopen, hdue, hholds⟩ := ih hmem
        refine ⟨head :: before, after, rfl, hopen, hdue, ?_⟩
        simpa using hholds
      split at h
      · rename_i hdue
        rcases List.mem_cons.mp h with rfl | h
        · simp only [StockSteps.isDue, Bool.and_eq_true, decide_eq_true_eq,
            Bool.or_eq_true, Bool.not_eq_true', List.any_eq_false] at hdue
          refine ⟨[], rows, rfl, hdue.1.1.1, hdue.1.1.2, ?_⟩
          simpa using hdue.2
        · exact hrest h
      · exact hrest h

theorem mem_pickedRows {steps : List StockStepRow} {limit : Nat}
    {locked : List OperationId}
    (h : row ∈ StockSteps.pickedRows steps now limit ids locked) :
    ∃ before after, steps = before ++ row :: after ∧ row.status.isOpen = true ∧
      row.dueAt ≤ now ∧ (row.kind = .undoConsumption ∨
        ∀ old ∈ before, StockSteps.holds row.workOrderId old = false) := by
  have hmem := List.mem_of_mem_take h
  rw [List.mem_insertionSort, List.mem_filter] at hmem
  exact mem_dueRows hmem.1

theorem mem_claimedSteps {picked : List StockStepRow}
    {order : RowOrder ClaimedStockStep} {step : ClaimedStockStep}
    (h : step ∈ StockSteps.claimedSteps picked order) :
    ∃ row ∈ picked, row.toStockStep = step.toStockStep := by
  rw [StockSteps.claimedSteps, (order.perm _).mem_iff] at h
  obtain ⟨row, hrow, rfl⟩ := List.mem_map.mp h
  exact ⟨row, hrow, rfl⟩

end Claims

section Moves

variable {settings : OutboxSettings} {db : WorkshopDb} {place : SagaPlace}
variable {input : SagaInput} {out : SagaOutcome}

/-- A claim changes the status of the rows it picked. -/
theorem StepsChange.markClaimed {next : SagaPlace} {effects : List SagaEffect}
    {steps picked : List StockStepRow} {leaseUntil : Timestamp}
    (hnodup : (steps.map fun row => row.operationId).Nodup)
    (hnone : RecordsNone place effects)
    (hpicked : ∀ row ∈ picked, row ∈ steps ∧ row.status.isOpen = true ∧
      .claimed row.operationId ∈ effects) :
    StepsChange place next effects steps
      (StockSteps.markClaimed steps picked leaseUntil) := by
  apply StepsChange.of_map hnone
  intro row hrow
  split
  · rename_i htest
    obtain ⟨found, hfound, hid⟩ := List.mem_map.mp (of_decide_eq_true htest)
    obtain ⟨hmem, hopen, heffect⟩ := hpicked found hfound
    have hsame : found = row := List.inj_on_of_nodup_map hnodup hmem hrow hid
    subst hsame
    exact ⟨rfl, .claim heffect hopen⟩
  · exact ⟨rfl, .same row.status⟩

/-- What a move does to the outbox. -/
theorem SagaMove.steps (hmove : SagaMove settings db place input out)
    (hnodup : (db.steps.map fun row => row.operationId).Nodup) :
    StepsChange place out.place out.effects db.steps out.store.steps := by
  cases hmove with
  | retry operationId now =>
      apply StepsChange.updateWhere (by simp [RecordsNone, stay])
      intro row _ _ hstatus
      rw [List.mem_singleton] at hstatus
      refine ⟨rfl, ?_⟩
      rw [hstatus]
      exact .retry rfl
  | saveStep surroundings edit step tables steps hsave hinsert =>
      exact StepsChange.insert
        ⟨id, (List.map_id _).symm, fun row _ => ⟨rfl, .same row.status⟩⟩
        (.saveStep edit step surroundings.now) hinsert
  | arm surroundings withdrawal dueAt steps hinsert =>
      exact StepsChange.insert
        ⟨id, (List.map_id _).symm, fun row _ => ⟨rfl, .same row.status⟩⟩
        (.arm withdrawal dueAt surroundings.now) hinsert
  | commit surroundings withdrawal tables steps harmed hsave hinsert =>
      refine StepsChange.insert ⟨_, rfl, fun row hrow => ?_⟩
        (.commit withdrawal surroundings.now) hinsert
      split
      · rename_i htest
        simp only [Bool.and_eq_true, decide_eq_true_eq, List.mem_singleton] at htest
        refine ⟨rfl, ?_⟩
        rw [htest.2]
        exact .disarm withdrawal rfl (by simp [htest.1])
      · exact ⟨rfl, .same row.status⟩
  | complete surroundings errand =>
      apply StepsChange.updateWhere (by simp [RecordsNone, stay])
      intro row _ hid hstatus
      exact ⟨rfl, .complete errand rfl hid (isOpen_of_mem hstatus)⟩
  | release surroundings undo =>
      apply StepsChange.updateWhere (by simp [RecordsNone, stay])
      intro row _ hid hstatus
      rw [List.mem_singleton] at hstatus
      refine ⟨rfl, ?_⟩
      rw [hstatus]
      exact .release undo rfl hid
  | claim surroundings operationIds =>
      apply StepsChange.markClaimed hnodup (by simp [RecordsNone, claimDue])
      intro row hrow
      obtain ⟨before, after, hsteps, hopen, -, -⟩ := mem_pickedRows hrow
      exact ⟨by simp [hsteps], hopen, List.mem_map.mpr ⟨row, hrow, rfl⟩⟩
  | recordError surroundings step queue error =>
      simp only [stay, WorkOrders.recordError]
      split
      · apply StepsChange.updateWhere (by simp [RecordsNone])
        intro row _ hid hstatus
        exact ⟨rfl, .fail step queue error rfl hid (isOpen_of_mem hstatus)⟩
      · apply StepsChange.updateWhere (by simp [RecordsNone])
        intro row _ _ _
        exact ⟨rfl, .same row.status⟩
  | findNothing surroundings errand hplace hnone =>
      cases errand <;> exact StepsChange.refl (by simp [RecordsNone, Errand.nothingFound])
  | _ => exact StepsChange.refl (by simp [RecordsNone, stay])

/-- What a move does to the tables of inventory, between which places and with
which effects. -/
inductive StockChange (db : InventoryDb) :
    SagaPlace → SagaPlace → List SagaEffect → InventoryDb → Prop
  | quiet (place next : SagaPlace) {effects : List SagaEffect} (nextId : Uuid)
      (hle : db.nextId ≤ nextId)
      (hconsumed : ∀ operationId, .consumed operationId ∉ effects)
      (happlied : ∀ step, .applied step ∉ effects) :
      StockChange db place next effects { db with nextId }
  | save (item : InventoryItem) (db' : InventoryDb)
      (hsave : db.save item = .ok db') :
      StockChange db (.shelf item) .idle [] db'
  | consume (withdrawal : Withdrawal) (now : Timestamp) (db' : InventoryDb)
      (hconsume : db.consumeStockBatch withdrawal.consumeCommand now = .ok db') :
      StockChange db (.consuming withdrawal) (.committing withdrawal)
        [.consumed withdrawal.undo.operationId] db'
  | undo (errand : Errand) (named : List ItemId) (now : Timestamp)
      (db' : InventoryDb)
      (hundo : db.undoConsumption errand.step.undoCommand named now = .ok db') :
      StockChange db (.undoing errand named) (.completing errand) [] db'
  | confirm (step : ClaimedStockStep) (queue : List ClaimedStockStep)
      (operationId : OperationId) (now : Timestamp)
      (hkind : step.kind = .confirmConsumption)
      (hoperation : step.consumptionOperationId = some operationId) :
      StockChange db (.applying step queue) (.completing (.application step queue))
        [.applied step.toStockStep]
        (db.confirmConsumptionsOfOperation operationId now)
  | restore (step : ClaimedStockStep) (queue : List ClaimedStockStep)
      (order : RowOrder MovementRow) (now : Timestamp) (db' : InventoryDb)
      (hkind : step.kind = .restore)
      (hrestore : db.restoreStockBatch order step.toStockStep.restoreCommand now =
        .ok db') :
      StockChange db (.applying step queue) (.completing (.application step queue))
        [.applied step.toStockStep] db'
  | close (step : ClaimedStockStep) (queue : List ClaimedStockStep)
      (closure : Closure) (candidates : List ClosureCandidate) (now : Timestamp) :
      StockChange db (.closing step queue closure candidates)
        (.completing (.application step queue)) [.applied step.toStockStep]
        (db.closeConsumptions closure candidates step.actorUserId now)

/-- What a move does to the tables of inventory. -/
theorem SagaMove.stock (hmove : SagaMove settings db place input out) :
    StockChange db.inventory place out.place out.effects out.store.inventory := by
  have hquiet : ∀ {place next : SagaPlace} {effects : List SagaEffect},
      (∀ operationId, .consumed operationId ∉ effects) →
      (∀ step, .applied step ∉ effects) →
      StockChange db.inventory place next effects db.inventory :=
    .quiet _ _ db.inventory.nextId le_rfl
  cases hmove with
  | openNew command now nextId workOrder hopen =>
      exact .quiet _ _ nextId (CreateCommand.openWith_opened hopen).2.1.le
        (by simp [stay]) (by simp [stay])
  | readBudgets surroundings request row services parts =>
      exact .quiet _ _ (db.nextId + 2) (Nat.le_add_right _ _) (by simp [stay])
        (by simp [stay])
  | shelfRead input nextId hle next hnext =>
      exact .quiet _ _ nextId hle (by simp [stay]) (by simp [stay])
  | shelfSave surroundings item inventory hsave => exact .save item inventory hsave
  | consume surroundings withdrawal inventory hconsume =>
      exact .consume withdrawal surroundings.now inventory hconsume
  | undo surroundings errand named inventory hundo =>
      exact .undo errand named surroundings.now inventory hundo
  | confirm surroundings step queue operationId hkind hoperation =>
      exact .confirm step queue operationId surroundings.now hkind hoperation
  | restore surroundings step queue inventory hkind hrestore =>
      exact .restore step queue surroundings.movementOrder surroundings.now
        inventory hkind hrestore
  | close surroundings step queue closure candidates =>
      exact .close step queue closure candidates surroundings.now
  | findNothing surroundings errand hplace hnone =>
      cases errand <;> exact hquiet (by simp [Errand.nothingFound])
        (by simp [Errand.nothingFound])
  | claim surroundings operationIds =>
      exact hquiet (by simp [claimDue]) (by simp [claimDue])
  | _ => exact hquiet (by simp [stay]) (by simp [stay])

/-- What a move does to the work orders, from which place and with which
effects. -/
inductive TablesChange (tables : WorkOrderTables) :
    SagaPlace → List SagaEffect → WorkOrderTables → Prop
  | same (place : SagaPlace) {effects : List SagaEffect}
      (hsaved : ∀ edit, .saved edit ∉ effects)
      (hcreated : ∀ workOrder, .created workOrder ∉ effects) :
      TablesChange tables place effects tables
  | create (workOrder : WorkOrder) (tables' : WorkOrderTables)
      (hsave : tables.save workOrder = .ok tables') :
      TablesChange tables (.creating workOrder) [.created workOrder] tables'
  | save (edit : Edit) (step : Option StockStep) (tables' : WorkOrderTables)
      (hsave : tables.save edit.changed = .ok tables') :
      TablesChange tables (.saving edit step) [.saved edit] tables'
  | commit (withdrawal : Withdrawal) (tables' : WorkOrderTables)
      (hsave : tables.save withdrawal.edit.changed = .ok tables') :
      TablesChange tables (.committing withdrawal)
        [.saved withdrawal.edit, .withdrawn withdrawal.undo.operationId] tables'

/-- What a move does to the work orders. -/
theorem SagaMove.tables (hmove : SagaMove settings db place input out) :
    TablesChange db.tables place out.effects out.store.tables := by
  cases hmove with
  | create surroundings workOrder tables hsave =>
      exact .create workOrder tables hsave
  | save surroundings edit tables hsave => exact .save edit none tables hsave
  | saveStep surroundings edit step tables steps hsave hinsert =>
      exact .save edit (some step) tables hsave
  | commit surroundings withdrawal tables steps harmed hsave hinsert =>
      exact .commit withdrawal tables hsave
  | findNothing surroundings errand hplace hnone =>
      cases errand <;> exact .same _ (by simp [Errand.nothingFound])
        (by simp [Errand.nothingFound])
  | claim surroundings operationIds =>
      exact .same _ (by simp [claimDue]) (by simp [claimDue])
  | _ => exact .same _ (by simp [stay]) (by simp [stay])

end Moves

end WorkOrders

end Workshop
