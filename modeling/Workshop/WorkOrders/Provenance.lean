/-
Where the rows of the ledger come from: a consumption was armed by its undo
step and is confirmed by its confirmation, a return was posted by the undo of
its consumption or by the restore of its work order, and a withdrawal that was
saved is never undone.
-/
import Workshop.WorkOrders.LedgerMoves

namespace Workshop

namespace WorkOrders

open Inventory

/-- The closure a closing step asks for. -/
def closureOf : StockStepKind → Option Closure
  | .settle => some .settle
  | .writeOff => some .writeOff
  | _ => none

/-- Where a consumption comes from, and what its marks say. -/
structure ConsumptionSound (steps : List StockStepRow) (log : List SagaEffect)
    (row : MovementRow) : Prop where
  origin : ∃ undo ∈ steps, undo.kind = .undoConsumption ∧
    row.operationId = some undo.operationId ∧
    row.workOrderId = some undo.workOrderId ∧ .consumed undo.operationId ∈ log
  status : row.status ≠ none
  pending : row.confirmedAt = none → row.status = some .pending
  confirmed : row.confirmedAt.isSome → ∃ step, .applied step ∈ log ∧
    step.kind = .confirmConsumption ∧
    step.consumptionOperationId = row.operationId
  closed : ∀ status, row.status = some status → status ≠ .pending →
    ∃ step closure, .applied step ∈ log ∧ closureOf step.kind = some closure ∧
      status = closure.toStatus ∧ row.workOrderId = some step.workOrderId

/-- Why a return was posted: by an undo of the operation it gives back, or by a
restore that found the consumption confirmed. -/
inductive ReturnSound (steps : List StockStepRow) (log : List SagaEffect)
    (movements : List MovementRow) (row : MovementRow) : Prop
  | undone (undo : StockStepRow) (target : MovementRow) (hundo : undo ∈ steps)
      (hkind : undo.kind = .undoConsumption)
      (hoperation : row.operationId = some undo.operationId)
      (htarget : target ∈ movements) (hconsumption : target.kind = .consumption)
      (hundoes : row.undoesMovementId = some target.id)
      (hsame : target.operationId = row.operationId)
  | restored (step : StockStepRow) (target : MovementRow) (hstep : step ∈ steps)
      (hkind : step.kind = .restore)
      (hoperation : row.operationId = some step.operationId)
      (happlied : .applied step.toStockStep ∈ log)
      (htarget : target ∈ movements) (hconsumption : target.kind = .consumption)
      (hundoes : row.undoesMovementId = some target.id)
      (hconfirmed : target.confirmedAt.isSome)
      (howner : target.workOrderId = some step.workOrderId)
      (hitem : target.inventoryItemId = row.inventoryItemId)

/-- The rows of the ledger, each with its reason. -/
structure RowsSound (steps : List StockStepRow) (log : List SagaEffect)
    (movements : List MovementRow) : Prop where
  consumptions : ∀ row ∈ movements, row.kind = .consumption →
    ConsumptionSound steps log row
  returns : ∀ row ∈ movements, row.kind = .returned →
    ReturnSound steps log movements row
  statuses : ∀ row ∈ movements, row.kind ≠ .consumption → row.status = none
  consumed : ∀ operationId, .consumed operationId ∈ log →
    ∃ undo ∈ steps, undo.operationId = operationId

/-- No consumption and no return carries an operation id. -/
def Untouched (movements : List MovementRow) (operationId : OperationId) : Prop :=
  ∀ row ∈ movements, row.kind = .consumption ∨ row.kind = .returned →
    row.operationId ≠ some operationId

/-- The units of an item the consumptions of an operation took. -/
def takenBy (movements : List MovementRow) (operationId : OperationId)
    (itemId : ItemId) : Int :=
  sumWhere (fun row => row.kind = .consumption &&
      row.operationId = some operationId && row.inventoryItemId = itemId)
    (fun row => row.quantity) movements

/-- A consumption a closing step picked: it is confirmed and belongs to the
work order of the step. -/
def Picked (movements : List MovementRow) (workOrderId : WorkOrderId)
    (movementId : MovementId) : Prop :=
  ∃ row ∈ movements, row.kind = .consumption ∧ row.id = movementId ∧
    row.confirmedAt.isSome ∧ row.workOrderId = some workOrderId

/-- What a program knows of the ledger: the withdrawal it is about to consume
has left no row, the one it is about to save took what it asked for, and what a
closing step picked can be closed. -/
def SagaPlace.Knows (movements : List MovementRow) (log : List SagaEffect) :
    SagaPlace → Prop
  | .consuming withdrawal =>
      Untouched movements withdrawal.undo.operationId ∧
        .consumed withdrawal.undo.operationId ∉ log
  | .committing withdrawal => ∀ itemId,
      takenBy movements withdrawal.undo.operationId itemId =
        unitsOf itemId withdrawal.lines
  | .closing step _ closure candidates =>
      closureOf step.kind = some closure ∧
        ∀ candidate ∈ candidates,
          Picked movements step.workOrderId candidate.movementId
  | _ => True

section Rows

variable {place next : SagaPlace} {effects log : List SagaEffect}
variable {steps steps' : List StockStepRow} {db : InventoryDb}
variable {movements : List MovementRow} {row row' : MovementRow}

theorem RowEvolves.confirmed (h : RowEvolves place effects row row')
    (hconfirmed : row.confirmedAt.isSome) : row'.confirmedAt.isSome := by
  cases h.marks with
  | same _ hsame => rwa [hsame]
  | confirm _ _ _ _ _ _ _ _ hsome => exact hsome
  | close _ _ _ _ _ _ _ _ _ hsame => rwa [hsame]

theorem MarksChange.status_none (h : MarksChange place effects row row')
    (hnone : row.status = none) : row'.status = none := by
  cases h with
  | same hsame _ => rw [hsame, hnone]
  | confirm _ _ _ _ _ _ _ hsame => rw [hsame, hnone]
  | close _ _ _ _ _ _ _ hpending =>
      rw [hnone] at hpending
      cases hpending

theorem ConsumptionSound.mono (h : ConsumptionSound steps log row)
    (hsteps : StepsChange place next effects steps steps')
    (hrow : RowEvolves place effects row row')
    (hclosed : ∀ step queue closure candidates,
      place = .closing step queue closure candidates →
      row.id ∈ candidates.map ClosureCandidate.movementId →
      row.confirmedAt.isSome ∧ closureOf step.kind = some closure ∧
        row.workOrderId = some step.workOrderId) :
    ConsumptionSound steps' (log ++ effects) row' := by
  obtain ⟨undo, hundo, hkind, hoperation, howner, hconsumed⟩ := h.origin
  obtain ⟨undo', hundo', hstep, -⟩ := hsteps.kept hundo
  have horigin : ∃ undo ∈ steps', undo.kind = .undoConsumption ∧
      row'.operationId = some undo.operationId ∧
      row'.workOrderId = some undo.workOrderId ∧
      .consumed undo.operationId ∈ log ++ effects := by
    refine ⟨undo', hundo', ?_⟩
    rw [hstep, hrow.same.operationId, hrow.same.workOrderId]
    exact ⟨hkind, hoperation, howner, List.mem_append_left _ hconsumed⟩
  have hconfirmed : row.confirmedAt.isSome → ∃ step,
      .applied step ∈ log ++ effects ∧ step.kind = .confirmConsumption ∧
        step.consumptionOperationId = row'.operationId := by
    intro hsome
    obtain ⟨step, happlied, hconfirm, hcarries⟩ := h.confirmed hsome
    exact ⟨step, List.mem_append_left _ happlied, hconfirm,
      hcarries.trans hrow.same.operationId.symm⟩
  have hclosing : ∀ status, row.status = some status → status ≠ .pending →
      ∃ step closure, .applied step ∈ log ++ effects ∧
        closureOf step.kind = some closure ∧ status = closure.toStatus ∧
        row'.workOrderId = some step.workOrderId := by
    intro status hstatus hpending
    obtain ⟨step, closure, happlied, hclosure, hsame, howner⟩ :=
      h.closed status hstatus hpending
    exact ⟨step, closure, List.mem_append_left _ happlied, hclosure, hsame,
      hrow.same.workOrderId.trans howner⟩
  cases hrow.marks with
  | same hstatus hsame =>
      refine ⟨horigin, hstatus ▸ h.status, ?_, ?_, hstatus ▸ hclosing⟩
      · rw [hstatus, hsame]
        exact h.pending
      · rw [hsame]
        exact hconfirmed
  | confirm step queue hplace heffect hkind _ hcarries hstatus hsome =>
      refine ⟨horigin, hstatus ▸ h.status, fun hnone => ?_, fun _ => ?_,
        hstatus ▸ hclosing⟩
      · rw [hnone] at hsome
        cases hsome
      · exact ⟨step.toStockStep, List.mem_append_right _ heffect, hkind,
          hcarries.trans hrow.same.operationId.symm⟩
  | close step queue closure candidates hplace heffect hcandidate _ hstatus hsame =>
      obtain ⟨hsome, hclosure, howner⟩ :=
        hclosed step queue closure candidates hplace hcandidate
      refine ⟨horigin, by rw [hstatus]; nofun, fun hnone => ?_, ?_, ?_⟩
      · rw [← hsame, hnone] at hsome
        cases hsome
      · rw [hsame]
        exact hconfirmed
      · intro status hnew _
        exact ⟨step.toStockStep, closure, List.mem_append_right _ heffect, hclosure,
          Option.some.inj (hnew.symm.trans hstatus),
          hrow.same.workOrderId.trans howner⟩

theorem ReturnSound.mono (h : ReturnSound steps log db.movements row)
    (hsteps : StepsChange place next effects steps steps')
    (hmovements : MovementsChange db place effects movements)
    (hrow : SameRow row row') :
    ReturnSound steps' (log ++ effects) movements row' := by
  cases h with
  | undone undo target hundo hkind hoperation htarget hconsumption hundoes hsame =>
      obtain ⟨undo', hundo', hstep, -⟩ := hsteps.kept hundo
      obtain ⟨target', htarget', hevolves⟩ := hmovements.kept htarget
      have hsameTarget := hevolves.same
      refine .undone undo' target' hundo' ?_ ?_ htarget' ?_ ?_ ?_
      · rwa [hstep]
      · rwa [hstep, hrow.operationId]
      · rwa [hsameTarget.kind]
      · rwa [hrow.undoesMovementId, hsameTarget.id]
      · rwa [hsameTarget.operationId, hrow.operationId]
  | restored step target hstep hkind hoperation happlied htarget hconsumption hundoes
      hconfirmed howner hitem =>
      obtain ⟨step', hstep', hsame, -⟩ := hsteps.kept hstep
      obtain ⟨target', htarget', hevolves⟩ := hmovements.kept htarget
      have hsameTarget := hevolves.same
      refine .restored step' target' hstep' ?_ ?_ ?_ htarget' ?_ ?_
        (hevolves.confirmed hconfirmed) ?_ ?_
      · rwa [hsame]
      · rwa [hsame, hrow.operationId]
      · rw [hsame]
        exact List.mem_append_left _ happlied
      · rwa [hsameTarget.kind]
      · rwa [hrow.undoesMovementId, hsameTarget.id]
      · rwa [hsame, hsameTarget.workOrderId]
      · rwa [hsameTarget.inventoryItemId, hrow.inventoryItemId]

theorem Picked.mono {workOrderId : WorkOrderId} {movementId : MovementId}
    (h : Picked db.movements workOrderId movementId)
    (hmovements : MovementsChange db place effects movements) :
    Picked movements workOrderId movementId := by
  obtain ⟨row, hrow, hkind, hid, hconfirmed, howner⟩ := h
  obtain ⟨row', hrow', hevolves⟩ := hmovements.kept hrow
  exact ⟨row', hrow', hevolves.same.kind.trans hkind,
    hevolves.same.id.trans hid, hevolves.confirmed hconfirmed,
    hevolves.same.workOrderId.trans howner⟩

/-- The rows that were posted for an operation add up to what it took. -/
theorem takenBy_consumed {command : ConsumeStockBatchCommand}
    {lines : List StockLine} {posts : List MovementRow}
    {operationId : OperationId}
    (hposts : List.Forall₂ (IsConsumption command) lines posts)
    (hoperation : command.operationId = some operationId) (itemId : ItemId) :
    takenBy posts operationId itemId = unitsOf itemId lines := by
  induction hposts with
  | nil => rfl
  | cons hrow _ ih =>
      rw [takenBy, sumWhere_cons, unitsOf, sumWhere_cons, ← takenBy, ← unitsOf, ih,
        hrow.quantity, hrow.kind, hrow.operationId, hoperation,
        hrow.inventoryItemId]
      simp

theorem takenBy_append (rows more : List MovementRow) (operationId : OperationId)
    (itemId : ItemId) :
    takenBy (rows ++ more) operationId itemId =
      takenBy rows operationId itemId + takenBy more operationId itemId :=
  sumWhere_append _ _ _ _

theorem takenBy_eq_zero {rows : List MovementRow} {operationId : OperationId}
    (h : ∀ row ∈ rows, row.kind = .consumption →
      row.operationId ≠ some operationId) (itemId : ItemId) :
    takenBy rows operationId itemId = 0 :=
  sumWhere_eq_zero fun row hrow htest => by
    simp only [Bool.and_eq_true, decide_eq_true_eq] at htest
    exact absurd htest.1.2 (h row hrow htest.1.1)

theorem takenBy_forall₂ {rows kept : List MovementRow}
    (h : List.Forall₂ (RowEvolves place effects) rows kept)
    (operationId : OperationId) (itemId : ItemId) :
    takenBy kept operationId itemId = takenBy rows operationId itemId :=
  (sumWhere_forall₂ (h.imp fun _ _ hrow => by
    rw [hrow.same.kind, hrow.same.operationId, hrow.same.inventoryItemId,
      hrow.same.quantity]
    exact ⟨rfl, rfl⟩)).symm

/-- What an operation took stays, unless a move consumes for it. -/
theorem MovementsChange.takenBy (h : MovementsChange db place effects movements)
    {operationId : OperationId} (hnone : .consumed operationId ∉ effects)
    (itemId : ItemId) :
    takenBy movements operationId itemId =
      takenBy db.movements operationId itemId := by
  obtain ⟨kept, posts, hperm, hkept, hposts⟩ := h
  have hzero : WorkOrders.takenBy posts operationId itemId = 0 := by
    refine takenBy_eq_zero (fun row hrow hkind hoperation => ?_) itemId
    rcases hposts row hrow with hplain | hposted
    · exact hplain.noConsumption hkind
    · cases hposted with
      | consumption withdrawal line hplace heffect hline hrow =>
          have hsame := hrow.operationId.symm.trans hoperation
          exact hnone (Option.some.inj hsame ▸ heffect)
      | undone errand named target hplace hreturned =>
          rw [hkind] at hreturned
          cases hreturned
      | restored step queue target hplace heffect hrestore hreturned =>
          rw [hkind] at hreturned
          cases hreturned
  have hsum : WorkOrders.takenBy movements operationId itemId =
      WorkOrders.takenBy (kept ++ posts) operationId itemId := sumWhere_perm hperm
  rw [hsum, takenBy_append, hzero, add_zero, takenBy_forall₂ hkept]

end Rows

section Runs

variable {settings : OutboxSettings} {config : Config WorkshopDb SagaPlace}
variable {log : List SagaEffect} {pid : Nat} {input : SagaInput} {out : SagaOutcome}

/-- The step an undo runs for is in the outbox, and is an undo. -/
theorem errand_recorded (h : SagaReaches settings config log) {pid : Nat}
    {errand : Errand} {named : List ItemId}
    (hplace : config.places pid = .undoing errand named) :
    Recorded config.store.steps errand.step ∧
      errand.step.kind = .undoConsumption := by
  have hworks := (outbox_of_reaches h).2 pid
  have hmade := (made_of_reaches h).2 pid
  rw [hplace] at hworks hmade
  cases errand with
  | compensation undo => exact ⟨hworks.armed undo rfl, hmade⟩
  | application step queue =>
      exact ⟨hworks.held _ List.mem_cons_self, hmade⟩

/-- A consumption of the ledger was armed before, so it has an operation id. -/
theorem RowsSound.confirmed {steps : List StockStepRow}
    {movements : List MovementRow} (hsound : RowsSound steps log movements)
    {row : MovementRow} (hrow : row ∈ movements) (hkind : row.kind = .consumption)
    (hopen : confirmedConsumption row = true) : row.confirmedAt.isSome := by
  obtain ⟨undo, -, -, hoperation, -⟩ := (hsound.consumptions row hrow hkind).origin
  simpa [confirmedConsumption, hoperation] using hopen

/-- An operation id the outbox does not know has left no row. -/
theorem RowsSound.untouched {steps : List StockStepRow}
    {movements : List MovementRow} (hsound : RowsSound steps log movements)
    {operationId : OperationId}
    (hnew : ∀ row ∈ steps, row.operationId ≠ operationId) :
    Untouched movements operationId := by
  intro row hrow hkind hoperation
  rcases hkind with hkind | hkind
  · obtain ⟨undo, hundo, -, hsame, -⟩ :=
      (hsound.consumptions row hrow hkind).origin
    exact hnew undo hundo (Option.some.inj (hsame.symm.trans hoperation))
  · cases hsound.returns row hrow hkind with
    | undone undo target hundo _ hsame =>
        exact hnew undo hundo (Option.some.inj (hsame.symm.trans hoperation))
    | restored step target hstep _ hsame =>
        exact hnew step hstep (Option.some.inj (hsame.symm.trans hoperation))

/-- A consumption is committed by the program that armed its undo, and by no
other. -/
theorem not_consumed_of_other (h : SagaReaches settings config log)
    (hexec : sagaExec settings config.store (config.places pid) input = some out)
    {other : Nat} (hne : other ≠ pid) {undo : StockStep}
    (hundo : (config.places other).armed = some undo) :
    .consumed undo.operationId ∉ out.effects := by
  intro hconsumed
  obtain ⟨withdrawal, hplace, hid⟩ :=
    (sagaMove_of_exec hexec).stock.consumes hconsumed
  exact armed_distinct h pid other hne withdrawal.undo undo
    (by rw [hplace]; rfl) hundo hid

/-- No other program leaves a row for a withdrawal that has left none. -/
theorem untouched_of_other (h : SagaReaches settings config log)
    (hexec : sagaExec settings config.store (config.places pid) input = some out)
    {other : Nat} (hne : other ≠ pid) {undo : StockStep}
    (hundo : (config.places other).armed = some undo)
    (huntouched : Untouched config.store.inventory.movements undo.operationId) :
    Untouched out.store.inventory.movements undo.operationId := by
  obtain ⟨houtbox, hworks⟩ := outbox_of_reaches h
  have hrecorded := (hworks other).armed undo hundo
  intro row' hrow' hkind hoperation
  rcases (movements_of_exec h hexec).mem hrow' with
    ⟨row, hrow, hevolves⟩ | hplain | hposted
  · rw [hevolves.same.kind] at hkind
    rw [hevolves.same.operationId] at hoperation
    exact huntouched row hrow hkind hoperation
  · rcases hkind with hkind | hkind
    · exact hplain.noConsumption hkind
    · exact hplain.noReturn hkind
  · cases hposted with
    | consumption withdrawal line hplace heffect hline hrow =>
        have hid : withdrawal.undo.operationId = undo.operationId :=
          Option.some.inj (hrow.operationId.symm.trans hoperation)
        exact not_consumed_of_other h hexec hne hundo (hid ▸ heffect)
    | undone errand named target hplace _ htarget hsame =>
        obtain ⟨hmem, htagged, hconsumption, -⟩ := mem_operationRows.mp htarget
        exact huntouched target hmem (Or.inl hconsumption)
          (htagged.trans (hsame.symm.trans hoperation))
    | restored step queue target hplace _ hrestore _ _ hsame =>
        have hheld := (hworks pid).held step.toStockStep
          (by rw [hplace]; exact List.mem_cons_self)
        have hstep := hrecorded.eq_of_id houtbox.ids hheld
          (Option.some.inj (hoperation.symm.trans hsame))
        have hkind := ((made_of_reaches h).2 other).undoKind hundo
        rw [hstep, hrestore] at hkind
        cases hkind

/-- A consumption that is posted was armed by its own program. -/
theorem PostedRow.consumptionSound (h : SagaReaches settings config log)
    {pid : Nat} {input : SagaInput} {out : SagaOutcome}
    (hexec : sagaExec settings config.store (config.places pid) input = some out)
    {row : MovementRow}
    (hposted : PostedRow config.store.inventory (config.places pid) out.effects row)
    (hkind : row.kind = .consumption) :
    ConsumptionSound out.store.steps (log ++ out.effects) row := by
  cases hposted with
  | consumption withdrawal line hplace heffect hline hrow =>
      have hmade := (made_of_reaches h).2 pid
      obtain ⟨undo, hundo, hstep⟩ := (steps_of_exec h hexec).recorded
        (((outbox_of_reaches h).2 pid).armed withdrawal.undo (by rw [hplace]; rfl))
      rw [hplace] at hmade
      refine ⟨⟨undo, hundo, ?_⟩, ?_, fun _ => hrow.status, fun hsome => ?_,
        fun status hstatus hpending => ?_⟩
      · rw [hstep]
        exact ⟨hmade.1.undoKind, hrow.operationId, hrow.workOrderId,
          List.mem_append_right _ heffect⟩
      · rw [hrow.status]
        nofun
      · rw [hrow.confirmedAt] at hsome
        cases hsome
      · rw [hrow.status, Option.some.injEq] at hstatus
        exact absurd hstatus.symm hpending
  | undone errand named target hplace hreturned =>
      rw [hkind] at hreturned
      cases hreturned
  | restored step queue target hplace heffect hrestore hreturned =>
      rw [hkind] at hreturned
      cases hreturned

/-- A return that is posted gives back a consumption of the ledger. -/
theorem PostedRow.returnSound (h : SagaReaches settings config log)
    {pid : Nat} {input : SagaInput} {out : SagaOutcome}
    (hexec : sagaExec settings config.store (config.places pid) input = some out)
    (hsound : RowsSound config.store.steps log config.store.inventory.movements)
    {row : MovementRow}
    (hposted : PostedRow config.store.inventory (config.places pid) out.effects row)
    (hkind : row.kind = .returned) :
    ReturnSound out.store.steps (log ++ out.effects)
      out.store.inventory.movements row := by
  have hsteps := steps_of_exec h hexec
  have hmovements := movements_of_exec h hexec
  cases hposted with
  | consumption withdrawal line hplace heffect hline hrow =>
      rw [hrow.kind] at hkind
      cases hkind
  | undone errand named target hplace _ htarget hoperation hundoes hstatus =>
      obtain ⟨hrecorded, hundo⟩ := errand_recorded h hplace
      obtain ⟨undo, hmem, hstep⟩ := hsteps.recorded hrecorded
      obtain ⟨hrow, htagged, hconsumption, -⟩ := mem_operationRows.mp htarget
      obtain ⟨target', htarget', hevolves⟩ := hmovements.kept hrow
      have hsame := hevolves.same
      refine .undone undo target' hmem ?_ ?_ htarget' ?_ ?_ ?_
      · rwa [hstep]
      · rwa [hstep]
      · rwa [hsame.kind]
      · rwa [hsame.id]
      · rw [hsame.operationId, htagged, hoperation]
  | restored step queue target hplace heffect hrestore _ htarget hoperation hundoes
      hstatus =>
      have hheld := ((outbox_of_reaches h).2 pid).held step.toStockStep
        (by rw [hplace]; exact List.mem_cons_self)
      obtain ⟨row', hmem, hstep⟩ := hsteps.recorded hheld
      obtain ⟨hrow, hitem, hopen, -⟩ := mem_pendingRows.mp htarget
      obtain ⟨howner, hconsumption, -, hconfirmed⟩ := isOpenConsumption_iff.mp hopen
      obtain ⟨target', htarget', hevolves⟩ := hmovements.kept hrow
      have hsame := hevolves.same
      refine .restored row' target' hmem ?_ ?_ ?_ htarget' ?_ ?_
        (hevolves.confirmed (hsound.confirmed hrow hconsumption hconfirmed)) ?_ ?_
      · rwa [hstep]
      · rwa [hstep]
      · rw [hstep]
        exact List.mem_append_right _ heffect
      · rwa [hsame.kind]
      · rwa [hsame.id]
      · rwa [hstep, hsame.workOrderId]
      · rwa [hsame.inventoryItemId]

/-- What a program knows of the ledger once it has moved. -/
theorem SagaMove.knows (h : SagaReaches settings config log)
    {pid : Nat} {input : SagaInput} {out : SagaOutcome}
    (hexec : sagaExec settings config.store (config.places pid) input = some out)
    (hsound : RowsSound config.store.steps log config.store.inventory.movements)
    (hknows : (config.places pid).Knows config.store.inventory.movements log) :
    out.place.Knows out.store.inventory.movements (log ++ out.effects) := by
  have hmovements := movements_of_exec h hexec
  have hshape := (sagaLedger_of_reaches h).1
  have hcame := (sagaMove_of_exec hexec).cameFrom
  unfold CameFrom at hcame
  cases hnext : out.place with
  | consuming withdrawal =>
      rw [hnext] at hcame
      obtain ⟨hplace, heffects, hnew⟩ := hcame
      have huntouched := hsound.untouched hnew
      constructor
      · intro row' hrow' hkind hoperation
        rcases hmovements.mem hrow' with ⟨row, hrow, hevolves⟩ | hplain | hposted
        · rw [hevolves.same.kind] at hkind
          rw [hevolves.same.operationId] at hoperation
          exact huntouched row hrow hkind hoperation
        · rcases hkind with hkind | hkind
          · exact hplain.noConsumption hkind
          · exact hplain.noReturn hkind
        · cases hposted <;> simp_all
      · rw [heffects, List.append_nil]
        intro hconsumed
        obtain ⟨undo, hundo, hid⟩ := hsound.consumed _ hconsumed
        exact hnew undo hundo hid
  | committing withdrawal =>
      rw [hnext] at hcame
      obtain ⟨hplace, heffects, now, hconsume⟩ := hcame
      rw [hplace] at hknows
      intro itemId
      obtain ⟨posts, hposted, hposts⟩ := consumeStockBatch_ok hshape.items hconsume
      obtain ⟨rows, hperm, hrows⟩ := hposted.movements
      have hnone := takenBy_eq_zero (fun row hrow hkind => hknows.1 row hrow (Or.inl hkind))
        itemId
      have htaken := takenBy_consumed hposts rfl itemId
      rw [hrows, takenBy_append, hnone, zero_add]
      exact (sumWhere_perm hperm).trans htaken
  | closing step queue closure candidates =>
      rw [hnext] at hcame
      obtain ⟨-, hkind, -, hsame, rfl⟩ := hcame
      rw [hsame]
      refine ⟨?_, fun candidate hcandidate => ?_⟩
      · rcases hkind with ⟨rfl, hkind⟩ | ⟨rfl, hkind⟩ <;> rw [hkind] <;> rfl
      · obtain ⟨row, hrow, rfl⟩ := List.mem_map.mp hcandidate
        obtain ⟨hmem, htest⟩ := List.mem_filter.mp hrow
        obtain ⟨howner, hconsumption, -, hconfirmed⟩ :=
          isOpenConsumption_iff.mp (Bool.and_eq_true_iff.mp htest).1
        exact ⟨row, hmem, hconsumption, rfl,
          hsound.confirmed hmem hconsumption hconfirmed, howner⟩
  | _ => trivial

/-- A consumption is new, or its marks change as the steps that change them
allow: a closing step closes what it picked, which is confirmed. -/
theorem RowsSound.consumption_of_exec
    (hsound : RowsSound config.store.steps log config.store.inventory.movements)
    (h : SagaReaches settings config log)
    (hknows : (config.places pid).Knows config.store.inventory.movements log)
    (hexec : sagaExec settings config.store (config.places pid) input = some out)
    {row' : MovementRow} (hrow' : row' ∈ out.store.inventory.movements)
    (hkind : row'.kind = .consumption) :
    ConsumptionSound out.store.steps (log ++ out.effects) row' := by
  rcases (movements_of_exec h hexec).mem hrow' with
    ⟨row, hrow, hevolves⟩ | hplain | hposted
  · have hkind' := hevolves.same.kind ▸ hkind
    refine (hsound.consumptions row hrow hkind').mono (steps_of_exec h hexec)
      hevolves ?_
    intro step queue closure candidates hplace hcandidate
    rw [hplace] at hknows
    obtain ⟨candidate, hmem, hid⟩ := List.mem_map.mp hcandidate
    obtain ⟨picked, hpicked, hpickedKind, hpickedId, hconfirmed, howner⟩ :=
      hknows.2 candidate hmem
    rw [(sagaLedger_of_reaches h).1.eq_of_id hrow hkind' hpicked hpickedKind
      (hid.symm.trans hpickedId.symm)]
    exact ⟨hconfirmed, hknows.1, howner⟩
  · exact absurd hkind hplain.noConsumption
  · exact hposted.consumptionSound h hexec hkind

theorem RowsSound.return_of_exec
    (hsound : RowsSound config.store.steps log config.store.inventory.movements)
    (h : SagaReaches settings config log)
    (hexec : sagaExec settings config.store (config.places pid) input = some out)
    {row' : MovementRow} (hrow' : row' ∈ out.store.inventory.movements)
    (hkind : row'.kind = .returned) :
    ReturnSound out.store.steps (log ++ out.effects) out.store.inventory.movements
      row' := by
  have hmovements := movements_of_exec h hexec
  rcases hmovements.mem hrow' with ⟨row, hrow, hevolves⟩ | hplain | hposted
  · exact (hsound.returns row hrow (hevolves.same.kind ▸ hkind)).mono
      (steps_of_exec h hexec) hmovements hevolves.same
  · exact absurd hkind hplain.noReturn
  · exact hposted.returnSound h hexec hsound hkind

theorem RowsSound.status_of_exec
    (hsound : RowsSound config.store.steps log config.store.inventory.movements)
    (h : SagaReaches settings config log)
    (hexec : sagaExec settings config.store (config.places pid) input = some out)
    {row' : MovementRow} (hrow' : row' ∈ out.store.inventory.movements)
    (hkind : row'.kind ≠ .consumption) : row'.status = none := by
  rcases (movements_of_exec h hexec).mem hrow' with
    ⟨row, hrow, hevolves⟩ | hplain | hposted
  · have hnone := hsound.statuses row hrow (hevolves.same.kind ▸ hkind)
    exact hevolves.marks.status_none hnone
  · exact hplain.noStatus
  · cases hposted with
    | consumption withdrawal line hplace heffect hline hrow =>
        exact absurd hrow.kind hkind
    | undone _ _ _ _ _ _ _ _ hstatus => exact hstatus
    | restored _ _ _ _ _ _ _ _ _ _ hstatus => exact hstatus

/-- A consumption is committed with its undo in the outbox. -/
theorem RowsSound.consumed_of_exec
    (hsound : RowsSound config.store.steps log config.store.inventory.movements)
    (h : SagaReaches settings config log)
    (hexec : sagaExec settings config.store (config.places pid) input = some out)
    {operationId : OperationId}
    (hconsumed : .consumed operationId ∈ log ++ out.effects) :
    ∃ undo ∈ out.store.steps, undo.operationId = operationId := by
  have hsteps := steps_of_exec h hexec
  rcases List.mem_append.mp hconsumed with hconsumed | hconsumed
  · obtain ⟨undo, hundo, rfl⟩ := hsound.consumed operationId hconsumed
    obtain ⟨undo', hundo', hstep, -⟩ := hsteps.kept hundo
    exact ⟨undo', hundo', congrArg StockStep.operationId hstep⟩
  · obtain ⟨withdrawal, hplace, rfl⟩ :=
      (sagaMove_of_exec hexec).stock.consumes hconsumed
    obtain ⟨undo, hundo, hstep⟩ := hsteps.recorded
      (((outbox_of_reaches h).2 pid).armed _ (by rw [hplace]; rfl))
    exact ⟨undo, hundo, congrArg StockStep.operationId hstep⟩

/-- A step keeps the rows of the ledger with the steps they come from. -/
theorem RowsSound.step
    (hsound : RowsSound config.store.steps log config.store.inventory.movements)
    (h : SagaReaches settings config log)
    (hknows : (config.places pid).Knows config.store.inventory.movements log)
    (hexec : sagaExec settings config.store (config.places pid) input = some out) :
    RowsSound out.store.steps (log ++ out.effects) out.store.inventory.movements where
  consumptions _ hrow hkind := hsound.consumption_of_exec h hknows hexec hrow hkind
  returns _ hrow hkind := hsound.return_of_exec h hexec hrow hkind
  statuses _ hrow hkind := hsound.status_of_exec h hexec hrow hkind
  consumed _ hconsumed := hsound.consumed_of_exec h hexec hconsumed

/-- What a program knows of the ledger stands while another one moves. -/
theorem SagaPlace.Knows.of_other {other : Nat}
    (hknows : (config.places other).Knows config.store.inventory.movements log)
    (h : SagaReaches settings config log)
    (hexec : sagaExec settings config.store (config.places pid) input = some out)
    (hne : other ≠ pid) :
    (config.places other).Knows out.store.inventory.movements
      (log ++ out.effects) := by
  have hmovements := movements_of_exec h hexec
  cases hother : config.places other with
  | consuming withdrawal =>
      have harmed : (config.places other).armed = some withdrawal.undo := by
        rw [hother]
        rfl
      rw [hother] at hknows
      refine ⟨untouched_of_other h hexec hne harmed hknows.1, ?_⟩
      intro hconsumed
      rcases List.mem_append.mp hconsumed with hconsumed | hconsumed
      · exact hknows.2 hconsumed
      · exact not_consumed_of_other h hexec hne harmed hconsumed
  | committing withdrawal =>
      rw [hother] at hknows
      intro itemId
      rw [hmovements.takenBy (not_consumed_of_other h hexec hne
        (by rw [hother]; rfl)) itemId]
      exact hknows itemId
  | closing step queue closure candidates =>
      rw [hother] at hknows
      exact ⟨hknows.1, fun candidate hmem =>
        (hknows.2 candidate hmem).mono hmovements⟩
  | _ => trivial

/-- The rows of the ledger have their reasons in every reachable state. -/
theorem rows_of_reaches (h : SagaReaches settings config log) :
    RowsSound config.store.steps log config.store.inventory.movements ∧
      ∀ pid, (config.places pid).Knows config.store.inventory.movements log := by
  refine ReachesBy.invariant_of_places
    (G := fun db log => RowsSound db.steps log db.inventory.movements)
    (L := fun db log place => place.Knows db.inventory.movements log)
    ?_ (fun _ => trivial) ?_ ?_ h
  · exact ⟨fun _ hmem => absurd hmem List.not_mem_nil,
      fun _ hmem => absurd hmem List.not_mem_nil,
      fun _ hmem => absurd hmem List.not_mem_nil,
      fun _ hmem => absurd hmem List.not_mem_nil⟩
  · intro config log pid input out before hsound hknows _ hexec
    exact ⟨hsound.step before (hknows pid) hexec,
      SagaMove.knows before hexec hsound (hknows pid)⟩
  · intro config log pid input out before _ hknows _ hexec other hne
    exact (hknows other).of_other before hexec hne

end Runs

end WorkOrders

end Workshop
