/-
Why a step of the outbox fails.  What it asks for is always there, and what it gives back
fits the shelf as long as the stock does, so inventory refuses none.  A step then records
an error only after a statement was failed from outside.
-/
import Workshop.WorkOrders.ShelfRoom

namespace Workshop

namespace WorkOrders

open Inventory

/-- What an undo holds once its first read is done: the operation consumed, and the
items of all that is left of it are named. -/
def SagaPlace.NamesAll (db : InventoryDb) (log : List SagaEffect) : SagaPlace → Prop
  | .undoing errand named =>
      .consumed errand.step.operationId ∈ log ∧
        ∀ row ∈ db.operationRows errand.step.operationId, row.inventoryItemId ∈ named
  | _ => True

section Undos

variable {settings : OutboxSettings} {config : Config WorkshopDb SagaPlace}
variable {log : List SagaEffect} {pid : Nat} {input : SagaInput} {out : SagaOutcome}

/-- The first read of an undo names the items of all that is left of its operation. -/
theorem mem_undoNames {db : InventoryDb} {command : UndoConsumptionCommand}
    {itemId : ItemId} : itemId ∈ db.undoNames command ↔
      ∃ row ∈ db.operationRows command.operationId, row.inventoryItemId = itemId := by
  rw [InventoryDb.undoNames, List.mem_dedup, List.mem_map]
  constructor
  · rintro ⟨consumption, hconsumption, rfl⟩
    obtain ⟨row, hrow, rfl⟩ := mem_findPendingConsumptionsOfOperation.mp hconsumption
    exact ⟨row, hrow, rfl⟩
  · rintro ⟨row, hrow, rfl⟩
    exact ⟨_, mem_findPendingConsumptionsOfOperation.mpr ⟨row, hrow, rfl⟩, rfl⟩

theorem named_of_startUndo {db : WorkshopDb} {errand started : Errand}
    {named : List ItemId} (h : (startUndo db started).place = .undoing errand named) :
    started = errand ∧ named = db.inventory.undoNames errand.step.undoCommand := by
  unfold startUndo at h
  split at h
  · cases h
  · simp only [stay, SagaPlace.undoing.injEq] at h
    obtain ⟨rfl, rfl⟩ := h
    exact ⟨rfl, rfl⟩

/-- An undo stands where its first read left it, with the names that read gave. -/
theorem named_of_exec {db : WorkshopDb} {place : SagaPlace} {input : SagaInput}
    {out : SagaOutcome} {errand : Errand} {named : List ItemId}
    (hexec : sagaExec settings db place input = some out)
    (hplace : out.place = .undoing errand named) :
    named = db.inventory.undoNames errand.step.undoCommand := by
  have hcame := (sagaMove_of_exec hexec).cameFrom
  rw [CameFrom, hplace] at hcame
  obtain ⟨hstarts, -, -⟩ := hcame
  cases hstarts with
  | compensation undo =>
      cases input with
      | proceed surroundings =>
          cases hexec
          exact (named_of_startUndo hplace).2
      | crash =>
          cases hexec
          cases hplace
      | fail error =>
          cases hexec
          cases hplace
      | _ => cases hexec
  | application step queue hkind =>
      cases input with
      | proceed surroundings =>
          cases hexec
          rw [runStep, hkind] at hplace
          exact (named_of_startUndo hplace).2
      | crash =>
          cases hexec
          cases hplace
      | fail error =>
          cases hexec
          cases hplace
      | _ => cases hexec

/-- What is left of an operation only shrinks, unless a move consumes for it. -/
theorem MovementsChange.operationRows {db db' : InventoryDb} {place : SagaPlace}
    {effects : List SagaEffect} {operationId : OperationId} (hshape : LedgerShape db')
    (h : MovementsChange db place effects db'.movements)
    (hnone : .consumed operationId ∉ effects) {row' : MovementRow}
    (hrow' : row' ∈ db'.operationRows operationId) :
    ∃ row ∈ db.operationRows operationId, row.inventoryItemId = row'.inventoryItemId := by
  obtain ⟨hmem, hoperation, hkind, hleft⟩ := mem_operationRows.mp hrow'
  rcases h.mem hmem with ⟨row, hrow, hevolves⟩ | hplain | hposted
  · have hsame := hevolves.same
    have hreturned := h.returnedTotal_le hshape row.id
    refine ⟨row, mem_operationRows.mpr ⟨hrow, hsame.operationId ▸ hoperation,
      hsame.kind ▸ hkind, ?_⟩, hsame.inventoryItemId.symm⟩
    simp only [InventoryDb.netRemaining] at hleft ⊢
    rw [hsame.quantity, hsame.id] at hleft
    omega
  · exact absurd hkind hplain.noConsumption
  · cases hposted with
    | consumption withdrawal line hplace heffect hline hrow =>
        have hid := Option.some.inj (hrow.operationId.symm.trans hoperation)
        exact absurd (hid ▸ heffect) hnone
    | undone errand named target hplace hreturned =>
        rw [hkind] at hreturned
        cases hreturned
    | restored step queue target hplace heffect hrestore hreturned =>
        rw [hkind] at hreturned
        cases hreturned

/-- No operation is consumed for twice. -/
theorem not_consumed_again (h : SagaReaches settings config log)
    (hexec : sagaExec settings config.store (config.places pid) input = some out)
    {operationId : OperationId} (hconsumed : .consumed operationId ∈ log) :
    .consumed operationId ∉ out.effects := by
  intro hagain
  obtain ⟨withdrawal, hplace, rfl⟩ := (sagaMove_of_exec hexec).stock.consumes hagain
  have hknows := (rows_of_reaches h).2 pid
  rw [hplace] at hknows
  exact hknows.2 hconsumed

/-- An undo is begun with the items of every row of its operation. -/
theorem namesAll_of_exec (h : SagaReaches settings config log)
    (hexec : sagaExec settings config.store (config.places pid) input = some out) :
    out.place.NamesAll out.store.inventory (log ++ out.effects) := by
  cases hplace : out.place with
  | undoing errand named =>
      have hcame := (sagaMove_of_exec hexec).cameFrom
      rw [CameFrom, hplace] at hcame
      obtain ⟨-, heffects, hsome⟩ := hcame
      have hnamed := named_of_exec hexec hplace
      have hshape := (sagaLedger_of_reaches (h.turn pid input trivial hexec)).1
      obtain ⟨itemId, hitem⟩ := List.exists_mem_of_ne_nil _ hsome
      obtain ⟨row, hrow, -⟩ := mem_undoNames.mp hitem
      obtain ⟨hmem, hoperation, hkind, -⟩ := mem_operationRows.mp hrow
      obtain ⟨undo, -, -, hsame, -, hconsumed⟩ :=
        ((rows_of_reaches h).1.consumptions row hmem hkind).origin
      have hid : undo.operationId = errand.step.operationId :=
        Option.some.inj (hsame.symm.trans hoperation)
      refine ⟨List.mem_append_left _ (hid ▸ hconsumed), fun row' hrow' => ?_⟩
      obtain ⟨old, hold, hitem⟩ := (movements_of_exec h hexec).operationRows hshape
        (by rw [heffects]; exact List.not_mem_nil) hrow'
      rw [hnamed, ← hitem]
      exact mem_undoNames.mpr ⟨old, hold, rfl⟩
  | _ => trivial

/-- An operation that is being undone consumes no more, so the items it holds stay
all of them. -/
theorem SagaPlace.NamesAll.of_exec {place : SagaPlace}
    (hplace : place.NamesAll config.store.inventory log)
    (h : SagaReaches settings config log)
    (hexec : sagaExec settings config.store (config.places pid) input = some out) :
    place.NamesAll out.store.inventory (log ++ out.effects) := by
  cases place with
  | undoing errand named =>
      obtain ⟨hconsumed, hnamed⟩ := hplace
      refine ⟨List.mem_append_left _ hconsumed, fun row' hrow' => ?_⟩
      obtain ⟨old, hold, hitem⟩ := (movements_of_exec h hexec).operationRows
        (sagaLedger_of_reaches (h.turn pid input trivial hexec)).1
        (not_consumed_again h hexec hconsumed) hrow'
      rw [← hitem]
      exact hnamed old hold
  | _ => trivial

/-- An undo under way holds the items of everything it will give back. -/
theorem named_of_reaches (h : SagaReaches settings config log) (pid : Nat) :
    (config.places pid).NamesAll config.store.inventory log := by
  refine (ReachesBy.invariant_of_places (G := fun _ _ => True)
    (L := fun db log place => place.NamesAll db.inventory log)
    trivial (fun _ => trivial) ?_ ?_ h).2 pid
  · intro config log pid input out before _ _ _ hexec
    exact ⟨trivial, namesAll_of_exec before hexec⟩
  · intro config log pid input out before _ hnamed _ hexec other _
    exact (hnamed other).of_exec before hexec

end Undos

section Steps

variable {settings : OutboxSettings} {config : Config WorkshopDb SagaPlace}
variable {log : List SagaEffect} {pid : Nat}

/-- A place where a step has failed and the failure is not recorded yet. -/
def SagaPlace.HasFailed : SagaPlace → Prop
  | .failing .. | .releasing _ => True
  | _ => False

theorem nextApplication_notFailed (queue : List ClaimedStockStep) :
    ¬ (nextApplication queue).HasFailed := by
  cases queue <;> exact id

theorem startUndo_notFailed (db : WorkshopDb) (errand : Errand) :
    ¬ (startUndo db errand).place.HasFailed := by
  unfold startUndo
  split <;> exact id

/-- What the steps before a waiting step have left out can still be drawn on. -/
theorem balance_le_pendingUnits (h : SagaReaches settings config log)
    {row : StockStepRow} {older newer : List StockStepRow}
    (hsplit : config.store.steps = older ++ row :: newer)
    (hkind : row.kind ≠ .undoConsumption) (hclosing : closureOf row.kind = none)
    (hclaimed : .claimed row.operationId ∈ log)
    (hwaiting : .applied row.toStockStep ∉ log) (itemId : ItemId) :
    balance config.store.inventory.movements row.workOrderId itemId older ≤
      pendingUnits config.store.inventory itemId row.workOrderId := by
  rw [← confirmedRemaining_eq_balance h hsplit hkind hclaimed hwaiting itemId]
  refine confirmedRemaining_le (fun movement hmovement hconsumption => ?_)
    fun movement hmovement htest _ => ?_
  · obtain ⟨undo, -, -, hoperation, -⟩ :=
      ((rows_of_reaches h).1.consumptions movement hmovement hconsumption).origin
    rw [hoperation]
    exact Option.some_ne_none _
  · simp only [isConsumptionOf, Bool.and_eq_true, decide_eq_true_eq] at htest
    exact pending_of_waiting h hsplit hkind hclosing hwaiting hmovement htest.1.1
      htest.1.2

/-- A line of a waiting return finds the units it asks for. -/
theorem line_covered (h : SagaReaches settings config log) {row : StockStepRow}
    (hrow : row ∈ config.store.steps) (hrestore : row.kind = .restore)
    (hclaimed : .claimed row.operationId ∈ log)
    (hwaiting : .applied row.toStockStep ∉ log) {line : StockLine}
    (hline : line ∈ row.lineList) :
    0 < line.quantity ∧ line.quantity ≤
      pendingUnits config.store.inventory line.inventoryItemId row.workOrderId := by
  obtain ⟨older, newer, hsplit⟩ := List.append_of_mem hrow
  have hsound := balance_of_reaches h
  have hpositive := (hsound.lines row hrow hrestore).2
  have hleft := balance_le_pendingUnits h hsplit (by rw [hrestore]; decide)
    (by rw [hrestore]; rfl) hclaimed hwaiting line.inventoryItemId
  have hcovered := hsound.covered row.workOrderId line.inventoryItemId
    (older ++ [row]) newer (by rw [hsplit, List.append_assoc, List.singleton_append])
  have hasks : balance config.store.inventory.movements row.workOrderId
      line.inventoryItemId [row] = -unitsOf line.inventoryItemId row.lineList := by
    simp [balance, sumWhere_cons, StockStep.adds, hrestore]
  rw [balance_append, hasks] at hcovered
  have hmine : line.quantity ≤ unitsOf line.inventoryItemId row.lineList :=
    le_sumWhere_of_mem (fun other hother _ => (hpositive other hother).le) hline
      (decide_eq_true rfl)
  exact ⟨hpositive line hline, by omega⟩

/-- A return finds its items, the units it asks for and room for them. -/
theorem restore_goes_through (h : SagaReaches settings config log)
    (hfit : StocksFit config.store.inventory)
    {step : ClaimedStockStep} {queue : List ClaimedStockStep}
    (hplace : config.places pid = .applying step queue) (hkind : step.kind = .restore)
    (order : RowOrder MovementRow) (now : Timestamp) :
    ∃ inventory, config.store.inventory.restoreStockBatch order
      step.toStockStep.restoreCommand now = .ok inventory := by
  obtain ⟨hshelf, hskus⟩ := shelf_of_reaches h
  have hworks := (outbox_of_reaches h).2 pid
  rw [hplace] at hworks
  obtain ⟨row, hrow, hstep⟩ := hworks.held step.toStockStep List.mem_cons_self
  have hclaimed := hworks.claimed step.toStockStep List.mem_cons_self
  by_cases happlied : .applied step.toStockStep ∈ log
  · -- It was applied before, so its return is in the ledger and it changes nothing.
    exact ⟨config.store.inventory, restoreStockBatch_again hshelf
      (hasReturnOfOperation_iff.mpr ((applied_of_reaches h).hasReturn h happlied hkind))⟩
  · have hcovered : ∀ line ∈ row.lineList, 0 < line.quantity ∧ line.quantity ≤
        pendingUnits config.store.inventory line.inventoryItemId row.workOrderId :=
      fun line => line_covered h hrow (by rw [hstep]; exact hkind)
        (by rw [hstep]; exact hclaimed) (by rw [hstep]; exact happlied)
    have hlines : step.toStockStep.restoreCommand.lines = row.lineList := by
      rw [hstep]
      rfl
    have howner : step.toStockStep.restoreCommand.workOrderId = row.workOrderId := by
      rw [hstep]
      rfl
    refine restoreStockBatch_total hshelf hskus (fun line hline => ?_)
      (fun line hline => (hcovered line (hlines ▸ hline)).1) (fun line hline => ?_) ?_
    · obtain ⟨hpositive, hasked⟩ := hcovered line (hlines ▸ hline)
      -- The units the line draws on stand in rows of its item.
      have hne : config.store.inventory.pendingRows line.inventoryItemId
          row.workOrderId ≠ [] := by
        intro hnil
        rw [pendingUnits, hnil] at hasked
        exact absurd (hpositive.trans_le hasked) (lt_irrefl 0)
      obtain ⟨movement, hmovement⟩ := List.exists_mem_of_ne_nil _ hne
      obtain ⟨hmem, hitem, -⟩ := mem_pendingRows.mp hmovement
      exact hitem ▸ hshelf.known movement hmem
    · obtain ⟨hpositive, hasked⟩ := hcovered line (hlines ▸ hline)
      rw [howner, drawnTotal_allocate offers_positive hpositive.le, drawnTotal_offers]
      exact le_min le_rfl hasked
    · rw [hlines]
      exact room_for_return h hfit hrow (by rw [hstep]; exact hkind)
        (by rw [hstep]; exact happlied)

/-- A confirmation carries the operation it confirms. -/
theorem confirmation_names (h : SagaReaches settings config log)
    {step : ClaimedStockStep} {queue : List ClaimedStockStep}
    (hplace : config.places pid = .applying step queue)
    (hkind : step.kind = .confirmConsumption) :
    ∃ operationId, step.consumptionOperationId = some operationId := by
  have hworks := (outbox_of_reaches h).2 pid
  rw [hplace] at hworks
  obtain ⟨row, hrow, hstep⟩ := hworks.held step.toStockStep List.mem_cons_self
  obtain ⟨operationId, hcarries, -⟩ := (withdrawals_of_reaches h).1.confirmed row hrow
    (by rw [hstep]; exact hkind)
  exact ⟨operationId, by rw [← hcarries, hstep]⟩

/-- A statement that runs makes no step fail. -/
theorem step_goes_through (h : SagaReaches settings config log)
    (hfit : StocksFit config.store.inventory)
    {surroundings : Surroundings} {out : SagaOutcome}
    (hexec : sagaExec settings config.store (config.places pid)
      (.proceed surroundings) = some out) : ¬ out.place.HasFailed := by
  obtain ⟨hshelf, hskus⟩ := shelf_of_reaches h
  cases hplace : config.places pid with
  | applying step queue =>
      rw [hplace] at hexec
      cases hexec
      unfold runStep
      split
      · exact startUndo_notFailed _ _
      · rename_i hkind
        obtain ⟨operationId, hcarries⟩ := confirmation_names h hplace hkind
        rw [hcarries]
        exact id
      · rename_i hkind
        obtain ⟨inventory, hrestored⟩ := restore_goes_through h hfit hplace hkind
          surroundings.movementOrder surroundings.now
        rw [hrestored]
        exact id
      · exact id
      · exact id
  | undoing errand named =>
      have hnamed := named_of_reaches h pid
      have hroom := room_for_undo h hfit hplace
      rw [hplace] at hnamed hexec
      have hgoes : ∃ inventory, config.store.inventory.undoConsumption
          errand.step.undoCommand named surroundings.now = .ok inventory :=
        undoConsumption_total hshelf hskus hnamed.2 hroom
      obtain ⟨inventory, hundone⟩ := hgoes
      simp only [sagaExec, hundone, Option.some.injEq] at hexec
      rw [← hexec]
      exact id
  | completing errand =>
      rw [hplace] at hexec
      cases hexec
      cases errand with
      | compensation undo => exact id
      | application step queue => exact nextApplication_notFailed queue
  | claiming operationIds =>
      rw [hplace] at hexec
      cases hexec
      exact nextApplication_notFailed _
  | failing step queue error =>
      rw [hplace] at hexec
      cases hexec
      exact nextApplication_notFailed _
  | compensating undo =>
      rw [hplace] at hexec
      cases hexec
      exact startUndo_notFailed _ _
  | shelf item =>
      rw [hplace, sagaExec, Option.map_eq_some_iff] at hexec
      obtain ⟨moved, -, rfl⟩ := hexec
      unfold shelfOutcome
      cases moved.place <;> exact id
  | loadingBudgets request row services parts =>
      rw [hplace] at hexec
      cases hexec
      unfold Prepared.place
      dsimp only [stay]
      split <;> exact id
  | creating workOrder =>
      simp only [hplace, sagaExec] at hexec
      split at hexec <;> cases hexec <;> exact id
  | saving edit step =>
      simp only [hplace, sagaExec] at hexec
      split at hexec
      · cases hexec
        exact id
      · cases hexec
        cases step <;> exact id
  | arming withdrawal =>
      simp only [hplace, sagaExec] at hexec
      split at hexec <;> cases hexec <;> exact id
  | consuming withdrawal =>
      simp only [hplace, sagaExec] at hexec
      split at hexec <;> cases hexec <;> exact id
  | committing withdrawal =>
      simp only [hplace, sagaExec] at hexec
      split at hexec <;> cases hexec <;> exact id
  | idle =>
      rw [hplace] at hexec
      cases hexec
  | _ =>
      rw [hplace] at hexec
      cases hexec
      exact id

/-- Only a program that is idle is asked for something new. -/
theorem idle_or_under_way {db : WorkshopDb} {place : SagaPlace} {input : SagaInput}
    {out : SagaOutcome} (hexec : sagaExec settings db place input = some out) :
    place = .idle ∨ (∃ surroundings, input = .proceed surroundings) ∨
      (∃ error, input = .fail error) ∨ input = .crash := by
  cases input with
  | proceed surroundings => exact Or.inr (Or.inl ⟨surroundings, rfl⟩)
  | fail error => exact Or.inr (Or.inr (Or.inl ⟨error, rfl⟩))
  | crash => exact Or.inr (Or.inr (Or.inr rfl))
  | _ => cases place <;> first | exact Or.inl rfl | cases hexec

/-- What a program is asked for starts without a failure. -/
theorem idle_notFailed {db : WorkshopDb} {input : SagaInput} {out : SagaOutcome}
    (hexec : sagaExec settings db .idle input = some out) : ¬ out.place.HasFailed := by
  cases input with
  | create command now =>
      simp only [sagaExec] at hexec
      split at hexec <;> cases hexec <;> exact id
  | request number request =>
      simp only [sagaExec] at hexec
      split at hexec <;> cases hexec <;> exact id
  | shelf input =>
      simp only [sagaExec] at hexec
      split at hexec
      · obtain ⟨moved, -, rfl⟩ := Option.map_eq_some_iff.mp hexec
        unfold shelfOutcome
        cases moved.place <;> exact id
      · cases hexec
  | proceed surroundings => cases hexec
  | _ =>
      cases hexec
      exact id

end Steps

/-- A statement is failed from outside. -/
def SagaInput.isFault : SagaInput → Bool
  | .fail _ => true
  | _ => false

/-- No statement is failed from outside, and what was stocked of every item fits its
count. -/
def Faultless (db : WorkshopDb) (_ : SagaPlace) (input : SagaInput) : Prop :=
  input.isFault = false ∧ StocksFit db.inventory

/-- A row of the outbox that never failed. -/
def StockStepRow.Unfailed (row : StockStepRow) : Prop :=
  row.lastError = none ∧ row.status ≠ .failed

section Rows

variable {steps : List StockStepRow}

theorem unfailed_updateWhere {operationId : OperationId} {allowed : List StepStatus}
    {change : StockStepRow → StockStepRow} (h : ∀ row ∈ steps, row.Unfailed)
    (hchange : ∀ row ∈ steps, row.Unfailed → (change row).Unfailed) :
    ∀ row ∈ StockSteps.updateWhere steps operationId allowed change, row.Unfailed := by
  intro row' hrow'
  obtain ⟨row, hrow, rfl⟩ := List.mem_map.mp hrow'
  split
  · exact hchange row hrow (h row hrow)
  · exact h row hrow

theorem unfailed_insert {row : StockStepRow} {steps' : List StockStepRow}
    (h : ∀ row ∈ steps, row.Unfailed) (hrow : row.Unfailed)
    (hinsert : StockSteps.insert steps row = .ok steps') :
    ∀ row ∈ steps', row.Unfailed := by
  obtain ⟨-, rfl⟩ := insert_ok hinsert
  intro other hother
  rcases List.mem_append.mp hother with hother | hother
  · exact h other hother
  · rw [List.mem_singleton.mp hother]
    exact hrow

theorem unfailed_markClaimed {picked : List StockStepRow} {leaseUntil : Timestamp}
    (h : ∀ row ∈ steps, row.Unfailed) :
    ∀ row ∈ StockSteps.markClaimed steps picked leaseUntil, row.Unfailed := by
  intro row' hrow'
  obtain ⟨row, hrow, rfl⟩ := List.mem_map.mp hrow'
  split
  · exact ⟨(h row hrow).1, by simp⟩
  · exact h row hrow

theorem unfailed_toRow (step : StockStep) {status : StepStatus}
    (hstatus : status ≠ .failed) (dueAt now : Timestamp) :
    (step.toRow status dueAt now).Unfailed := ⟨rfl, hstatus⟩

/-- A row fails only where a failure is recorded. -/
theorem SagaMove.unfailed {settings : OutboxSettings} {db : WorkshopDb}
    {place : SagaPlace} {input : SagaInput} {out : SagaOutcome}
    (hmove : SagaMove settings db place input out) (hplace : ¬ place.HasFailed)
    (h : ∀ row ∈ db.steps, row.Unfailed) : ∀ row ∈ out.store.steps, row.Unfailed := by
  cases hmove with
  | retry operationId now =>
      exact unfailed_updateWhere h fun row _ hrow => ⟨hrow.1, by simp⟩
  | saveStep surroundings edit step tables steps hsave hinsert =>
      exact unfailed_insert h (unfailed_toRow step (by decide) _ _) hinsert
  | arm surroundings withdrawal dueAt steps hinsert =>
      exact unfailed_insert h (unfailed_toRow _ (by decide) _ _) hinsert
  | commit surroundings withdrawal tables steps harmed hsave hinsert =>
      refine unfailed_insert (unfailed_updateWhere h fun row _ hrow => ?_)
        (unfailed_toRow _ (by decide) _ _) hinsert
      exact ⟨hrow.1, by simp⟩
  | complete surroundings errand =>
      exact unfailed_updateWhere h fun row _ hrow => ⟨hrow.1, by simp⟩
  | release surroundings undo => exact absurd trivial hplace
  | claim surroundings operationIds => exact unfailed_markClaimed h
  | recordError surroundings step queue error => exact absurd trivial hplace
  | _ => exact h

end Rows

/-- In a run in which no statement is failed from outside and the stock fits its counts,
whatever the order of the statements and however often a program crashes, no step of the
outbox records an error or is given up, and no program stands before a failure. -/
theorem steps_fail_only_by_fault {settings : OutboxSettings}
    {config : Config WorkshopDb SagaPlace} {log : List SagaEffect}
    (h : ReachesBy (sagaExec settings) Faultless emptyWorkshop config log) :
    (∀ row ∈ config.store.steps, row.lastError = none ∧ row.status ≠ .failed) ∧
      ∀ pid, ¬ (config.places pid).HasFailed := by
  refine ReachesBy.invariant_of_places
    (G := fun db _ => ∀ row ∈ db.steps, row.Unfailed)
    (L := fun _ _ place => ¬ place.HasFailed)
    (fun _ hmem => absurd hmem List.not_mem_nil) (fun _ => id) ?_ ?_ h
  · intro config log pid input out before hrows hplaces hfault hexec
    have hreaches : SagaReaches settings config log := before.reaches
    have hmove := sagaMove_of_exec hexec
    refine ⟨hmove.unfailed (hplaces pid) hrows, ?_⟩
    rcases idle_or_under_way hexec with hidle | ⟨surroundings, rfl⟩ | ⟨error, rfl⟩ | rfl
    · rw [hidle] at hexec
      exact idle_notFailed hexec
    · exact step_goes_through hreaches hfault.2 hexec
    · cases hfault.1
    · cases hexec
      exact id
  · intro config log pid input out _ _ hplaces _ _ other _
    exact hplaces other

namespace SagaWitness

/-- The request crashes once its units are consumed, and an applier undoes them. -/
def undone : List (Nat × SagaInput) :=
  inExecution [part] ++ withdrawing 0 10 ++ proceed 0 1 11 ++
    (0, .crash) :: (1, .applyDue) :: proceed 1 4 40000

theorem undone_runs :
    (runTurns (sagaExec settings) emptyWorkshop undone).isSome := by decide +kernel

def givenBackAgain : Config WorkshopDb SagaPlace × List SagaEffect :=
  endOfRun (sagaExec settings) emptyWorkshop undone undone_runs

theorem reaches_givenBackAgain :
    ReachesBy (sagaExec settings) Faultless emptyWorkshop givenBackAgain.1
      givenBackAgain.2 := by
  unfold givenBackAgain
  exact reachesBy_endOfRun
    (fun db _ input => !SagaInput.isFault input && decide (StocksFit db.inventory))
    (fun hcheck => by simpa [Faultless] using hcheck) (by decide +kernel) _

theorem steps_fail_only_by_fault_givenBackAgain :
    (∃ row ∈ givenBackAgain.1.store.steps, row.status = .done ∧ row.attempts = 1) ∧
      (∀ row ∈ givenBackAgain.1.store.steps,
        row.lastError = none ∧ row.status ≠ .failed) ∧
      ∀ pid, ¬ (givenBackAgain.1.places pid).HasFailed :=
  ⟨by decide +kernel, steps_fail_only_by_fault reaches_givenBackAgain⟩

end SagaWitness

end WorkOrders

end Workshop
