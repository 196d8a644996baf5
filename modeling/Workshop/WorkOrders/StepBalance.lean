/-
The steps of a work order add up to the units it counts as withdrawn, after
each of its saves, and no step but an undo follows its closing one.
-/
import Workshop.WorkOrders.OutboxOrder

namespace Workshop

namespace WorkOrders

open Inventory

/-- What a step adds to the units of an item a work order has out: its
confirmation what its consumptions took, and a return takes its lines back. -/
def StockStep.adds (movements : List MovementRow) (itemId : ItemId)
    (step : StockStep) : Int :=
  match step.kind, step.consumptionOperationId with
  | .confirmConsumption, some operationId => takenBy movements operationId itemId
  | .restore, _ => -unitsOf itemId step.lineList
  | _, _ => 0

/-- The units of an item a work order has out after these steps. -/
def balance (movements : List MovementRow) (workOrderId : WorkOrderId)
    (itemId : ItemId) (steps : List StockStepRow) : Int :=
  sumWhere (fun row => row.workOrderId = workOrderId)
    (fun row => row.toStockStep.adds movements itemId) steps

/-- The status a work order is closed with when it records this step. -/
def closingStatus : StockStepKind → Option WorkOrderStatus
  | .settle => some .delivered
  | .writeOff => some .canceled
  | _ => none

/-- What a move does to the work orders, with the step it records. -/
structure OrdersChange (movements : List MovementRow)
    (tables tables' : WorkOrderTables) (added : Option StockStepRow) : Prop where
  withdrawn : ∀ workOrderId itemId, tables'.withdrawnOf workOrderId itemId =
    tables.withdrawnOf workOrderId itemId +
      balance movements workOrderId itemId added.toList
  closed : ∀ workOrderId state, tables.stateOf workOrderId = some state →
    state.status.isClosed = true →
      (∃ state', tables'.stateOf workOrderId = some state' ∧
        state'.status = state.status) ∧
      ∀ row, added = some row → row.kind ≠ .undoConsumption →
        row.workOrderId ≠ workOrderId
  closes : ∀ workOrderId state', tables'.stateOf workOrderId = some state' →
    state'.status.isClosed = true →
      (∃ state, tables.stateOf workOrderId = some state ∧
        state.status = state'.status) ∨
      ∃ row, added = some row ∧ row.workOrderId = workOrderId ∧
        closingStatus row.kind = some state'.status
  closing : ∀ row status, added = some row →
    closingStatus row.kind = some status →
      ∃ state', tables'.stateOf row.workOrderId = some state' ∧
        state'.status = status
  lines : ∀ row, added = some row → row.kind = .restore →
    row.lineList ≠ [] ∧ ∀ line ∈ row.lineList, 0 < line.quantity

/-- What one save does to the work orders. -/
structure OrderSaved (tables tables' : WorkOrderTables) (edit : Edit)
    (moved : ItemId → Int) : Prop where
  others : ∀ workOrderId, workOrderId ≠ edit.changed.id →
    tables'.stateOf workOrderId = tables.stateOf workOrderId
  before : ∃ state, tables.stateOf edit.changed.id = some state ∧
    state.status = edit.loaded.status
  after : ∃ state', tables'.stateOf edit.changed.id = some state' ∧
    state'.status = edit.changed.status
  withdrawn : ∀ itemId, tables'.withdrawnOf edit.changed.id itemId =
    tables.withdrawnOf edit.changed.id itemId + moved itemId

/-- How the work orders and the steps of the outbox fit together. -/
structure BalanceSound (db : WorkshopDb) : Prop where
  withdrawn : ∀ workOrderId itemId, db.tables.withdrawnOf workOrderId itemId =
    balance db.inventory.movements workOrderId itemId db.steps
  covered : ∀ workOrderId itemId older newer, db.steps = older ++ newer →
    0 ≤ balance db.inventory.movements workOrderId itemId older
  closed : ∀ workOrderId state, db.tables.stateOf workOrderId = some state →
    state.status.isClosed = true → ∃ row ∈ db.steps,
      row.workOrderId = workOrderId ∧ closingStatus row.kind = some state.status
  closing : ∀ row ∈ db.steps, ∀ status, closingStatus row.kind = some status →
    ∃ state, db.tables.stateOf row.workOrderId = some state ∧
      state.status = status
  last : ∀ older row newer, db.steps = older ++ row :: newer →
    row.kind ≠ .undoConsumption → ∀ old ∈ older,
      old.workOrderId = row.workOrderId → closingStatus old.kind = none
  lines : ∀ row ∈ db.steps, row.kind = .restore →
    row.lineList ≠ [] ∧ ∀ line ∈ row.lineList, 0 < line.quantity

theorem isClosed_of_closingStatus {kind : StockStepKind} {status : WorkOrderStatus}
    (h : closingStatus kind = some status) : status.isClosed = true := by
  cases kind <;> cases h <;> rfl

section Saves

open WorkOrderTables (stateOf_save_of_ne withdrawnOf_eq withdrawnOf_none)

variable {tables tables' : WorkOrderTables} {edit : Edit}
variable {movements : List MovementRow}

theorem withdrawnOf_congr {workOrderId : WorkOrderId}
    (h : tables'.stateOf workOrderId = tables.stateOf workOrderId)
    (itemId : ItemId) :
    tables'.withdrawnOf workOrderId itemId =
      tables.withdrawnOf workOrderId itemId := by
  cases hstate : tables.stateOf workOrderId with
  | none =>
      rw [withdrawnOf_none hstate, withdrawnOf_none (h.trans hstate)]
  | some state =>
      rw [withdrawnOf_eq hstate, withdrawnOf_eq (h.trans hstate)]

theorem orderSaved_of_save {fresh : Uuid} {moved : ItemId → Int}
    (hstates : tables.StatesSound) (hloaded : LoadedAt tables edit.loaded)
    (hnamed : edit.loaded.ChildrenNamed) (hfollows : edit.Follows fresh moved)
    (hsave : tables.save edit.changed = .ok tables') :
    OrderSaved tables tables' edit moved := by
  obtain ⟨state, state', hstate, hsame, hstate', hsame'⟩ :=
    save_edit hstates hloaded hnamed hfollows hsave
  refine ⟨fun workOrderId hne => stateOf_save_of_ne hsave hne,
    ⟨state, hstate, hsame.status.symm⟩, ⟨state', hstate', hsame'.status⟩,
    fun itemId => ?_⟩
  have hdrafts := hsame.draftsUntouched (hstates _ state hstate).2
  rw [withdrawnOf_eq hstate, withdrawnOf_eq hstate', hsame'.withdrawnOf itemId,
    ← hsame.withdrawnOf itemId]
  exact hfollows.evolves.withdrawn hdrafts itemId

theorem balance_toRow {workOrderId : WorkOrderId} (itemId : ItemId)
    {step : StockStep} {status : StepStatus} {dueAt now : Timestamp}
    (howner : step.workOrderId = workOrderId) :
    balance movements workOrderId itemId [step.toRow status dueAt now] =
      step.adds movements itemId := by
  rw [balance, sumWhere_cons, sumWhere_nil, add_zero]
  exact if_pos (decide_eq_true howner)

/-- A save that leaves a work order open records no closing step. -/
theorem OrderSaved.change {moved : ItemId → Int} {added : Option StockStepRow}
    (h : OrderSaved tables tables' edit moved)
    (hopen : edit.loaded.status.isClosed = false)
    (hadded : ∀ row, added = some row → row.workOrderId = edit.changed.id ∧
      (closingStatus row.kind = some edit.changed.status ∨
        closingStatus row.kind = none) ∧
      (row.kind = .restore →
        row.lineList ≠ [] ∧ ∀ line ∈ row.lineList, 0 < line.quantity))
    (hcloses : edit.changed.status.isClosed = true →
      ∃ row, added = some row ∧ closingStatus row.kind = some edit.changed.status)
    (hmoved : ∀ itemId,
      balance movements edit.changed.id itemId added.toList = moved itemId) :
    OrdersChange movements tables tables' added := by
  refine ⟨fun workOrderId itemId => ?_, fun workOrderId state hstate hclosed => ?_,
    fun workOrderId state' hstate' hclosed => ?_, fun row status hrow hstatus => ?_,
    fun row hrow => (hadded row hrow).2.2⟩
  · by_cases hself : workOrderId = edit.changed.id
    · rw [hself, h.withdrawn, hmoved]
    · have hnone : balance movements workOrderId itemId added.toList = 0 := by
        refine sumWhere_eq_zero fun row hrow htest => ?_
        rw [Option.mem_toList] at hrow
        exact absurd ((of_decide_eq_true htest).symm.trans (hadded row hrow).1) hself
      rw [hnone, add_zero, withdrawnOf_congr (h.others workOrderId hself)]
  · have hself : workOrderId ≠ edit.changed.id := by
      rintro rfl
      obtain ⟨before, hbefore, hstatus⟩ := h.before
      rw [hstate] at hbefore
      cases hbefore
      rw [hstatus, hopen] at hclosed
      cases hclosed
    refine ⟨⟨state, (h.others workOrderId hself).trans hstate, rfl⟩, ?_⟩
    intro row hrow _ howner
    exact hself (howner.symm.trans (hadded row hrow).1)
  · by_cases hself : workOrderId = edit.changed.id
    · subst hself
      obtain ⟨after, hafter, hstatus⟩ := h.after
      rw [hstate'] at hafter
      cases hafter
      rw [hstatus] at hclosed ⊢
      obtain ⟨row, hrow, hrowStatus⟩ := hcloses hclosed
      exact Or.inr ⟨row, hrow, (hadded row hrow).1, hrowStatus⟩
    · exact Or.inl ⟨state', (h.others workOrderId hself).symm.trans hstate', rfl⟩
  · obtain ⟨howner, hkind, -⟩ := hadded row hrow
    obtain ⟨after, hafter, hafterStatus⟩ := h.after
    refine ⟨after, howner ▸ hafter, hafterStatus.trans ?_⟩
    rcases hkind with hkind | hkind
    · exact Option.some.inj (hkind.symm.trans hstatus)
    · rw [hkind] at hstatus
      cases hstatus

end Saves

section Moves

open WorkOrderTables (stateOf_save_of_ne withdrawnOf_eq withdrawnOf_none)

variable {movements : List MovementRow} {tables tables' : WorkOrderTables}

/-- A move that saves no work order records no step but an undo. -/
theorem OrdersChange.quiet {added : Option StockStepRow}
    (hundo : ∀ row, added = some row → row.kind = .undoConsumption) :
    OrdersChange movements tables tables added := by
  refine ⟨fun workOrderId itemId => ?_, fun workOrderId state hstate _ =>
      ⟨⟨state, hstate, rfl⟩, fun row hrow hkind => absurd (hundo row hrow) hkind⟩,
    fun workOrderId state hstate _ => Or.inl ⟨state, hstate, rfl⟩,
    fun row status hrow hstatus => ?_, fun row hrow hkind => ?_⟩
  · have hnone : balance movements workOrderId itemId added.toList = 0 := by
      refine sumWhere_eq_zero fun row hrow _ => ?_
      rw [Option.mem_toList] at hrow
      simp only [StockStep.adds, hundo row hrow]
    rw [hnone, add_zero]
  · rw [hundo row hrow] at hstatus
    cases hstatus
  · rw [hundo row hrow] at hkind
    cases hkind

/-- A new work order has nothing withdrawn and is open. -/
theorem OrdersChange.created {workOrder : WorkOrder} {bound : Uuid}
    (hopened : Opened bound workOrder) (hnone : tables.stateOf workOrder.id = none)
    (hsave : tables.save workOrder = .ok tables') :
    OrdersChange movements tables tables' none := by
  obtain ⟨state, hstate, hsame⟩ := save_opened hopened hnone hsave
  have hothers := fun {workOrderId : WorkOrderId}
    (hne : workOrderId ≠ workOrder.id) => stateOf_save_of_ne hsave hne
  refine ⟨fun workOrderId itemId => ?_, fun workOrderId old hold _ => ?_,
    fun workOrderId new hnew hclosed => ?_, nofun, nofun⟩
  · change _ = _ + 0
    rw [add_zero]
    by_cases hself : workOrderId = workOrder.id
    · subst hself
      rw [withdrawnOf_eq hstate, withdrawnOf_none hnone, hsame.withdrawnOf itemId]
      exact hopened.withdrawn itemId
    · exact withdrawnOf_congr (hothers hself) itemId
  · have hself : workOrderId ≠ workOrder.id := by
      rintro rfl
      rw [hnone] at hold
      cases hold
    exact ⟨⟨old, (hothers hself).trans hold, rfl⟩, nofun⟩
  · by_cases hself : workOrderId = workOrder.id
    · subst hself
      rw [hstate, Option.some.injEq] at hnew
      rw [← hnew, hsame.status, hopened.status] at hclosed
      cases hclosed
    · exact Or.inl ⟨new, (hothers hself).symm.trans hnew, rfl⟩

/-- A save keeps a work order open, or records its closing step. -/
theorem OrdersChange.saved {bound : Uuid} {edit : Edit} {step : Option StockStep}
    (now : Timestamp) (hsound : SaveSound bound edit step)
    (hsaved : OrderSaved tables tables' edit fun itemId => -takenBack step itemId) :
    OrdersChange movements tables tables'
      (step.map fun recorded => recorded.toRow .pending now now) := by
  refine hsaved.change hsound.open_before ?_ ?_ ?_
  · intro row hrow
    obtain ⟨recorded, hrecorded, rfl⟩ := Option.map_eq_some_iff.mp hrow
    have hstep := hsound.step recorded hrecorded
    refine ⟨hstep.owner, ?_, fun hkind => ⟨hstep.notEmpty hkind, hstep.positive⟩⟩
    change closingStatus recorded.kind = _ ∨ closingStatus recorded.kind = none
    rcases hstep.kind with hkind | hkind | hkind
    · exact Or.inr (by rw [hkind]; rfl)
    · exact Or.inl (by rw [hstep.delivered.mp hkind, hkind]; rfl)
    · exact Or.inl (by rw [hstep.canceled.mp hkind, hkind]; rfl)
  · intro hclosed
    cases hrecorded : step with
    | none =>
        rw [hsound.plain hrecorded] at hclosed
        cases hclosed
    | some recorded =>
        have hstep := hsound.step recorded hrecorded
        refine ⟨_, rfl, ?_⟩
        change closingStatus recorded.kind = _
        cases hstatus : edit.changed.status with
        | delivered =>
            rw [hstep.delivered.mpr hstatus]
            rfl
        | canceled =>
            rw [hstep.canceled.mpr hstatus]
            rfl
        | _ =>
            rw [hstatus] at hclosed
            cases hclosed
  · intro itemId
    cases hrecorded : step with
    | none => rfl
    | some recorded =>
        have hstep := hsound.step recorded hrecorded
        change balance movements _ itemId [recorded.toRow .pending now now] = _
        rw [balance_toRow itemId hstep.owner]
        rcases hstep.kind with hkind | hkind | hkind <;>
          simp [StockStep.adds, takenBack, hkind]

/-- A withdrawal adds to a work order what it took from the shelf. -/
theorem OrdersChange.committed {bound : Uuid} {withdrawal : Withdrawal}
    {now : Timestamp} (hsound : WithdrawalSound bound withdrawal)
    (hsaved : OrderSaved tables tables' withdrawal.edit fun itemId =>
      unitsOf itemId withdrawal.lines)
    (htaken : ∀ itemId, takenBy movements withdrawal.undo.operationId itemId =
      unitsOf itemId withdrawal.lines) :
    OrdersChange movements tables tables'
      (some (withdrawal.confirmation.toRow .pending now now)) := by
  refine hsaved.change (by rw [hsound.inExecution]; rfl) ?_ ?_ ?_
  · intro row hrow
    cases hrow
    refine ⟨hsound.confirmOwner, Or.inr ?_, fun hkind => ?_⟩
    · change closingStatus withdrawal.confirmation.kind = none
      rw [hsound.confirmKind]
      rfl
    · exact absurd (hsound.confirmKind.symm.trans hkind) nofun
  · intro hclosed
    rw [hsound.stillInExecution] at hclosed
    cases hclosed
  · intro itemId
    rw [Option.toList_some, balance_toRow itemId hsound.confirmOwner, ← htaken]
    simp [StockStep.adds, hsound.confirmKind, hsound.carries]

end Moves

section Runs

variable {settings : OutboxSettings} {config : Config WorkshopDb SagaPlace}
variable {log : List SagaEffect} {pid : Nat} {input : SagaInput} {out : SagaOutcome}

/-- What a move of a reachable state does to the work orders, with the step it
records. -/
theorem orders_of_exec (h : SagaReaches settings config log)
    (hexec : sagaExec settings config.store (config.places pid) input = some out)
    {added : Option StockStepRow}
    (hadded : AddedStep (config.places pid) out.place out.effects added) :
    OrdersChange config.store.inventory.movements config.store.tables
      out.store.tables added := by
  have hmade := (made_of_reaches h).2 pid
  obtain ⟨hserial, hreads⟩ := serial_of_reaches h
  have hread := hreads pid
  have hknows := (rows_of_reaches h).2 pid
  have htables := (sagaMove_of_exec hexec).tables
  revert hmade hread hknows hadded htables
  generalize out.store.tables = tables'
  generalize out.effects = effects
  generalize out.place = next
  generalize config.places pid = place
  intro hadded hmade hread hknows htables
  cases htables with
  | same _ hsaved hcreated =>
      apply OrdersChange.quiet
      rintro row rfl
      cases hadded with
      | arm withdrawal dueAt now => exact hmade.1.undoKind
      | saveStep edit step now => exact absurd List.mem_cons_self (hsaved edit)
      | commit withdrawal now =>
          exact absurd List.mem_cons_self (hsaved withdrawal.edit)
  | create workOrder _ hsave =>
      cases hadded with
      | none => exact OrdersChange.created hmade hread hsave
  | save edit step _ hsave =>
      obtain ⟨fresh, -, hfollows⟩ := hmade.1.follows
      have hsaved := orderSaved_of_save hserial.sound hread hmade.2.children hfollows
        hsave
      cases hadded with
      | none _ _ hnone =>
          cases step with
          | none => exact OrdersChange.saved 0 hmade.1 hsaved
          | some step =>
              exact absurd List.mem_cons_self (hnone.2 edit step rfl)
      | saveStep _ step now => exact OrdersChange.saved now hmade.1 hsaved
  | commit withdrawal _ hsave =>
      obtain ⟨fresh, -, hfollows⟩ := hmade.1.follows
      have hsaved := orderSaved_of_save hserial.sound hread hmade.2.children hfollows
        hsave
      cases hadded with
      | none _ _ hnone =>
          exact absurd (List.mem_cons_of_mem _ List.mem_cons_self)
            (hnone.1 withdrawal.undo.operationId)
      | commit _ now => exact OrdersChange.committed hmade.1 hsaved hknows

/-- What a step adds stays what it is, unless the move consumes for it. -/
theorem adds_of_exec (h : SagaReaches settings config log)
    (hexec : sagaExec settings config.store (config.places pid) input = some out)
    {step : StockStep} (hnone : step.kind = .confirmConsumption →
      ∀ operationId, step.consumptionOperationId = some operationId →
        .consumed operationId ∉ out.effects) (itemId : ItemId) :
    step.adds out.store.inventory.movements itemId =
      step.adds config.store.inventory.movements itemId := by
  unfold StockStep.adds
  split
  · rename_i operationId hkind hcarries
    exact (movements_of_exec h hexec).takenBy (hnone hkind operationId hcarries)
      itemId
  · rfl
  · rfl

/-- A withdrawal that was saved does not consume any more. -/
theorem not_consumed_of_row (h : SagaReaches settings config log)
    (hexec : sagaExec settings config.store (config.places pid) input = some out)
    {row : StockStepRow} (hrow : row ∈ config.store.steps)
    (hkind : row.kind = .confirmConsumption) {operationId : OperationId}
    (hcarries : row.consumptionOperationId = some operationId) :
    .consumed operationId ∉ out.effects := by
  intro hconsumed
  obtain ⟨hsound, harmed⟩ := withdrawals_of_reaches h
  obtain ⟨carried, hcarried, hwithdrawn⟩ := hsound.confirmed row hrow hkind
  obtain ⟨withdrawal, hplace, hid⟩ :=
    (sagaMove_of_exec hexec).stock.consumes hconsumed
  have hsame : carried = operationId :=
    Option.some.inj (hcarried.symm.trans hcarries)
  exact harmed pid withdrawal.undo (by rw [hplace]; rfl)
    (hid.trans hsame.symm ▸ hwithdrawn)

/-- So do the balances of the rows that stood there before. -/
theorem balance_of_exec (h : SagaReaches settings config log)
    (hexec : sagaExec settings config.store (config.places pid) input = some out)
    {rows kept : List StockStepRow} (hrows : ∀ row ∈ rows, row ∈ config.store.steps)
    (hkept : List.Forall₂ (RowChange (config.places pid) out.effects) rows kept)
    (workOrderId : WorkOrderId) (itemId : ItemId) :
    balance out.store.inventory.movements workOrderId itemId kept =
      balance config.store.inventory.movements workOrderId itemId rows := by
  have hsame : balance out.store.inventory.movements workOrderId itemId rows =
      balance out.store.inventory.movements workOrderId itemId kept :=
    sumWhere_forall₂ (hkept.imp fun _ _ hrow => by rw [hrow.1]; exact ⟨rfl, rfl⟩)
  rw [← hsame]
  exact sumWhere_congr (fun _ _ => rfl)
    fun row hrow _ => adds_of_exec h hexec (fun hkind operationId hcarries =>
      not_consumed_of_row h hexec (hrows row hrow) hkind hcarries) itemId

theorem balance_append (movements : List MovementRow) (workOrderId : WorkOrderId)
    (itemId : ItemId) (rows more : List StockStepRow) :
    balance movements workOrderId itemId (rows ++ more) =
      balance movements workOrderId itemId rows +
        balance movements workOrderId itemId more :=
  sumWhere_append _ _ _ _

/-- A move that records a confirmation does not consume, so the step it records
adds what it added before. -/
theorem balance_of_added (h : SagaReaches settings config log)
    (hexec : sagaExec settings config.store (config.places pid) input = some out)
    {added : Option StockStepRow}
    (hadded : AddedStep (config.places pid) out.place out.effects added)
    (workOrderId : WorkOrderId) (itemId : ItemId) :
    balance out.store.inventory.movements workOrderId itemId added.toList =
      balance config.store.inventory.movements workOrderId itemId added.toList := by
  refine sumWhere_congr (fun _ _ => rfl) fun row hrow _ =>
    adds_of_exec h hexec (fun hkind operationId _ hconsumed => ?_) itemId
  rw [Option.mem_toList] at hrow
  rw [hrow] at hadded
  obtain ⟨withdrawal, hplace, -⟩ :=
    hadded.of_confirm ((made_of_reaches h).2 pid) hkind
  obtain ⟨other, hplace', -⟩ := (sagaMove_of_exec hexec).stock.consumes hconsumed
  rw [hplace] at hplace'
  cases hplace'

namespace BalanceSound

theorem withdrawn_of_exec (hsound : BalanceSound config.store)
    (h : SagaReaches settings config log)
    (hexec : sagaExec settings config.store (config.places pid) input = some out)
    (workOrderId : WorkOrderId) (itemId : ItemId) :
    out.store.tables.withdrawnOf workOrderId itemId =
      balance out.store.inventory.movements workOrderId itemId out.store.steps := by
  obtain ⟨kept, added, hrows, hadded, hkept⟩ := (steps_of_exec h hexec).rows
  rw [(orders_of_exec h hexec hadded).withdrawn, hsound.withdrawn, hrows,
    balance_append, balance_of_exec h hexec (fun _ hrow => hrow) hkept,
    balance_of_added h hexec hadded]

/-- All the rows add up to what the work order has withdrawn, and fewer of them
stood there before the move. -/
theorem covered_of_exec (hsound : BalanceSound config.store)
    (h : SagaReaches settings config log)
    (hexec : sagaExec settings config.store (config.places pid) input = some out)
    (workOrderId : WorkOrderId) (itemId : ItemId) {older newer : List StockStepRow}
    (hsplit : out.store.steps = older ++ newer) :
    0 ≤ balance out.store.inventory.movements workOrderId itemId older := by
  obtain ⟨kept, added, hrows, hadded, hkept⟩ := (steps_of_exec h hexec).rows
  rcases newer.eq_nil_or_concat with rfl | ⟨front, last, rfl⟩
  · rw [List.append_nil] at hsplit
    rw [← hsplit, ← hsound.withdrawn_of_exec h hexec]
    exact out.store.tables.withdrawnOf_nonneg workOrderId itemId
  · have hfront : ∃ rest, kept = older ++ rest := by
      rw [hrows, List.concat_eq_append, ← List.append_assoc] at hsplit
      cases added with
      | none =>
          rw [Option.toList_none, List.append_nil] at hsplit
          exact ⟨front ++ [last], by rw [hsplit, List.append_assoc]⟩
      | some row => exact ⟨front, (List.append_inj' hsplit rfl).1⟩
    obtain ⟨rest, rfl⟩ := hfront
    have hfirst := List.forall₂_take_append _ _ _ hkept
    rw [balance_of_exec h hexec (fun row hrow => List.mem_of_mem_take hrow) hfirst]
    exact hsound.covered workOrderId itemId _ _ (List.take_append_drop _ _).symm

/-- A work order is closed by the move that records its closing step. -/
theorem closed_of_exec (hsound : BalanceSound config.store)
    (h : SagaReaches settings config log)
    (hexec : sagaExec settings config.store (config.places pid) input = some out)
    {workOrderId : WorkOrderId} {state' : WorkOrder}
    (hstate' : out.store.tables.stateOf workOrderId = some state')
    (hclosed : state'.status.isClosed = true) :
    ∃ row ∈ out.store.steps, row.workOrderId = workOrderId ∧
      closingStatus row.kind = some state'.status := by
  have hsteps := steps_of_exec h hexec
  obtain ⟨kept, added, hrows, hadded, -⟩ := hsteps.rows
  rcases (orders_of_exec h hexec hadded).closes workOrderId state' hstate' hclosed with
    ⟨state, hstate, hstatus⟩ | ⟨row, hrow, howner, hstatus⟩
  · obtain ⟨row, hrow, howner, hkind⟩ :=
      hsound.closed workOrderId state hstate (hstatus ▸ hclosed)
    obtain ⟨row', hrow', hstep, -⟩ := hsteps.kept hrow
    refine ⟨row', hrow', ?_⟩
    rw [hstep, ← hstatus]
    exact ⟨howner, hkind⟩
  · exact ⟨row, by rw [hrows, hrow]; simp, howner, hstatus⟩

theorem closing_of_exec (hsound : BalanceSound config.store)
    (h : SagaReaches settings config log)
    (hexec : sagaExec settings config.store (config.places pid) input = some out)
    {row' : StockStepRow} (hrow' : row' ∈ out.store.steps) {status : WorkOrderStatus}
    (hstatus : closingStatus row'.kind = some status) :
    ∃ state, out.store.tables.stateOf row'.workOrderId = some state ∧
      state.status = status := by
  have hsteps := steps_of_exec h hexec
  rcases hsteps.mem hrow' with ⟨row, hrow, hstep, -⟩ | hnew
  · obtain ⟨kept, added, -, hadded, -⟩ := hsteps.rows
    rw [hstep] at hstatus ⊢
    obtain ⟨state, hstate, rfl⟩ := hsound.closing row hrow status hstatus
    exact ((orders_of_exec h hexec hadded).closed _ state hstate
      (isClosed_of_closingStatus hstatus)).1
  · exact (orders_of_exec h hexec hnew).closing row' status rfl hstatus

/-- A closed work order records no step but an undo. -/
theorem last_of_exec (hsound : BalanceSound config.store)
    (h : SagaReaches settings config log)
    (hexec : sagaExec settings config.store (config.places pid) input = some out)
    {older' newer' : List StockStepRow} {row' : StockStepRow}
    (hsplit : out.store.steps = older' ++ row' :: newer')
    (hkind : row'.kind ≠ .undoConsumption) {old' : StockStepRow} (hold' : old' ∈ older')
    (howner : old'.workOrderId = row'.workOrderId) : closingStatus old'.kind = none := by
  rcases (steps_of_exec h hexec).split hsplit with
    ⟨older, row, newer, hbefore, ⟨hstep, -⟩, holder⟩ | ⟨hadded, holder⟩
  · obtain ⟨old, hmem, holdStep, -⟩ := exists_left_of_forall₂ holder hold'
    rw [hstep, holdStep] at howner
    rw [hstep] at hkind
    rw [holdStep]
    exact hsound.last older row newer hbefore hkind old hmem howner
  · obtain ⟨old, hmem, holdStep, -⟩ := exists_left_of_forall₂ holder hold'
    rw [holdStep] at howner ⊢
    cases hstatus : closingStatus old.kind with
    | none => rfl
    | some status =>
        obtain ⟨state, hstate, rfl⟩ := hsound.closing old hmem status hstatus
        have hopen := ((orders_of_exec h hexec hadded).closed _ state hstate
          (isClosed_of_closingStatus hstatus)).2 row' rfl hkind
        exact absurd howner.symm hopen

theorem lines_of_exec (hsound : BalanceSound config.store)
    (h : SagaReaches settings config log)
    (hexec : sagaExec settings config.store (config.places pid) input = some out)
    {row' : StockStepRow} (hrow' : row' ∈ out.store.steps) (hkind : row'.kind = .restore) :
    row'.lineList ≠ [] ∧ ∀ line ∈ row'.lineList, 0 < line.quantity := by
  rcases (steps_of_exec h hexec).mem hrow' with ⟨row, hrow, hstep, -⟩ | hadded
  · rw [hstep] at hkind ⊢
    exact hsound.lines row hrow hkind
  · exact (orders_of_exec h hexec hadded).lines row' rfl hkind

theorem step (hsound : BalanceSound config.store) (h : SagaReaches settings config log)
    (hexec : sagaExec settings config.store (config.places pid) input = some out) :
    BalanceSound out.store where
  withdrawn := hsound.withdrawn_of_exec h hexec
  covered workOrderId itemId _ _ hsplit :=
    hsound.covered_of_exec h hexec workOrderId itemId hsplit
  closed _ _ hstate hclosed := hsound.closed_of_exec h hexec hstate hclosed
  closing _ hrow _ hstatus := hsound.closing_of_exec h hexec hrow hstatus
  last _ _ _ hsplit hkind _ hold howner :=
    hsound.last_of_exec h hexec hsplit hkind hold howner
  lines _ hrow hkind := hsound.lines_of_exec h hexec hrow hkind

end BalanceSound

/-- The work orders and the steps fit together in every reachable state. -/
theorem balance_of_reaches (h : SagaReaches settings config log) :
    BalanceSound config.store := by
  refine ReachesBy.invariant (P := fun config _ => BalanceSound config.store) ?_ ?_ h
  · refine ⟨fun _ _ => rfl, fun _ _ older newer hsplit => ?_,
      fun _ _ hstate => (nomatch hstate), fun _ hmem => absurd hmem List.not_mem_nil,
      fun older row newer hsplit => ?_, fun _ hmem => absurd hmem List.not_mem_nil⟩
    · rw [List.append_eq_nil_iff.mp hsplit.symm |>.1]
      exact le_rfl
    · cases older <;> cases hsplit
  · intro config log pid input out before hsound _ hexec
    rw [Config.after_store]
    exact hsound.step before hexec

end Runs

end WorkOrders

end Workshop
