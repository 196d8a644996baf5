/-
A `WithdrawParts` request served without a pause: what its program holds when it is about
to consume, and what its two transactions leave.
-/
import Workshop.WorkOrders.OpenDemand
import Workshop.WorkOrders.Resaves
import Workshop.WorkOrders.SagaShelf

namespace Workshop

namespace WorkOrders

open Inventory

/-- A `WithdrawParts` request, with what each of its statements finds around it. -/
structure WithdrawBatch where
  number : String
  command : BatchCommand
  services : Surroundings := {}
  parts : Surroundings := {}
  budgets : Surroundings := {}
  arming : Surroundings := {}
  consuming : Surroundings := {}
  committing : Surroundings := {}

namespace WithdrawBatch

/-- The statements up to the one that consumes. -/
def untilConsumption (batch : WithdrawBatch) : List SagaInput :=
  [.request batch.number (.withdrawParts batch.command), .proceed batch.services,
    .proceed batch.parts, .proceed batch.budgets, .proceed batch.arming]

/-- The statement that consumes and the one that commits. -/
def fromConsumption (batch : WithdrawBatch) : List SagaInput :=
  [.proceed batch.consuming, .proceed batch.committing]

end WithdrawBatch

/-- The work order accepts a batch: the program that serves it is about to consume. -/
structure Accepts (settings : OutboxSettings) (config : Config WorkshopDb SagaPlace)
    (pid : Nat) (batch : WithdrawBatch) (ready : Config WorkshopDb SagaPlace)
    (withdrawal : Withdrawal) : Prop where
  idle : config.places pid = .idle
  runs : runTurns (sagaExec settings) config (batch.untilConsumption.map (Prod.mk pid)) =
    some (ready, [])
  place : ready.places pid = .consuming withdrawal

/-- Both transactions of an accepted batch commit. -/
structure Commits (settings : OutboxSettings) (ready : Config WorkshopDb SagaPlace)
    (pid : Nat) (batch : WithdrawBatch) (withdrawal : Withdrawal)
    (last : Config WorkshopDb SagaPlace) (more : List SagaEffect) : Prop where
  runs : runTurns (sagaExec settings) ready (batch.fromConsumption.map (Prod.mk pid)) =
    some (last, more)
  done : .withdrawn withdrawal.undo.operationId ∈ more

section Accepting

variable {settings : OutboxSettings} {config ready : Config WorkshopDb SagaPlace}
variable {pid : Nat} {batch : WithdrawBatch} {withdrawal : Withdrawal} {row : WorkOrderRow}

/-- The work order the reads of a batch load. -/
def WithdrawBatch.loads (batch : WithdrawBatch) (tables : WorkOrderTables)
    (row : WorkOrderRow) : WorkOrder :=
  toDomain row (tables.findServices batch.services.serviceOrder row.id)
    (tables.findParts batch.parts.partOrder row.id)
    (tables.findBudgets batch.budgets.budgetOrder row.id)

theorem loads_sameState (batch : WithdrawBatch) (tables : WorkOrderTables)
    (hrow : row ∈ tables.workOrders) :
    ∃ state, tables.stateOf row.id = some state ∧
      SameState (batch.loads tables row) state := by
  refine ⟨_, WorkOrderTables.stateOf_eq_some_iff.mpr ⟨row, hrow, rfl, rfl⟩, ?_⟩
  have hperm := batch.budgets.budgetOrder.perm
    (rowsOf BudgetRow.workOrderId row.id tables.budgets)
  refine toDomain_sameState ?_ (batch.services.serviceOrder.perm _)
    (batch.parts.partOrder.perm _) hperm
  rw [WorkOrderTables.findBudgets, (hperm.map _).nodup_iff]
  exact tables.constraints.uxBudgetsExternalId.sublist (List.filter_sublist.map _)

/-- A batch is accepted when its work order is found and takes it, and its step is armed. -/
theorem accepts_iff :
    Accepts settings config pid batch ready withdrawal ↔
      config.places pid = .idle ∧ ∃ row db,
        config.store.tables.findRow batch.number = some row ∧
        prepareWithdrawal batch.command (batch.loads config.store.tables row)
          config.store.nextId batch.budgets.now = .withdraw withdrawal ∧
        (config.store.withNextId (config.store.nextId + 2)).insertStep withdrawal.undo .armed
          (batch.arming.now + milliseconds settings.graceSeconds) batch.arming.now = .ok db ∧
        ready = config.after pid (stay db (.consuming withdrawal)) := by
  constructor
  · rintro ⟨hidle, hruns, hplace⟩
    refine ⟨hidle, ?_⟩
    simp only [WithdrawBatch.untilConsumption, runTurns_map_cons, List.map_nil, runTurns,
      Config.after_store, Config.after_places_self, Config.after_after] at hruns
    obtain ⟨found, _, hrequest, ⟨read, _, hservices, ⟨more, _, hparts, ⟨loaded, _, hbudgets,
      ⟨armed, _, harming, hend, -⟩, -⟩, -⟩, -⟩, -⟩ := hruns
    rw [Option.some.injEq, Prod.mk.injEq] at hend
    obtain ⟨rfl, -⟩ := hend
    rw [Config.after_places_self] at hplace
    rw [hidle] at hrequest
    simp only [sagaExec] at hrequest
    cases hfind : config.store.tables.findRow batch.number with
    | none =>
        rw [hfind] at hrequest
        cases hrequest
        cases hservices
    | some row =>
        rw [hfind] at hrequest
        cases hrequest
        cases hservices
        cases hparts
        cases hbudgets
        change sagaExec settings (config.store.withNextId (config.store.nextId + 2))
          (prepareWithdrawal batch.command (batch.loads config.store.tables row)
            config.store.nextId batch.budgets.now).place (.proceed batch.arming) = _ at harming
        cases hprepared : prepareWithdrawal batch.command (batch.loads config.store.tables row)
            config.store.nextId batch.budgets.now with
        | refused =>
            rw [hprepared] at harming
            cases harming
        | save edit step =>
            unfold prepareWithdrawal at hprepared
            split at hprepared <;> cases hprepared
        | withdraw prepared =>
            rw [hprepared] at harming
            simp only [Prepared.place, sagaExec] at harming
            split at harming
            · cases harming
              cases hplace
            · rename_i db hinsert
              cases harming
              cases hplace
              exact ⟨row, db, rfl, hprepared, hinsert, rfl⟩
  · rintro ⟨hidle, row, db, hfind, hprepared, hinsert, rfl⟩
    refine ⟨hidle, ?_, Config.after_places_self _ _ _⟩
    simp only [WithdrawBatch.untilConsumption, runTurns_map_cons, List.map_nil, runTurns,
      Config.after_store, Config.after_places_self, Config.after_after]
    refine ⟨stay config.store (.loadingServices (.withdrawParts batch.command) row), [], ?_,
      ⟨_, [], rfl, ⟨_, [], rfl, ⟨_, [], rfl,
        ⟨stay db (.consuming withdrawal), [], ?_, rfl, rfl⟩, rfl⟩, rfl⟩, rfl⟩, rfl⟩
    · rw [hidle]
      simp only [sagaExec]
      rw [hfind]
    · change sagaExec settings (config.store.withNextId (config.store.nextId + 2))
        (prepareWithdrawal batch.command (batch.loads config.store.tables row)
          config.store.nextId batch.budgets.now).place (.proceed batch.arming) = _
      rw [hprepared]
      simp only [Prepared.place, sagaExec]
      rw [hinsert]

end Accepting

section Committing

variable {settings : OutboxSettings} {ready last : Config WorkshopDb SagaPlace}
variable {pid : Nat} {batch : WithdrawBatch} {withdrawal : Withdrawal}
variable {more : List SagaEffect}

/-- Where a withdrawal is after its commit. -/
def Withdrawal.committed (withdrawal : Withdrawal) (db : WorkshopDb) : SagaOutcome where
  store := db
  place := .claiming (some [withdrawal.confirmation.operationId])
  effects := [.saved withdrawal.edit, .withdrawn withdrawal.undo.operationId]

/-- An accepted batch commits when inventory takes it and its work order is saved. -/
theorem commits_iff (hplace : ready.places pid = .consuming withdrawal) :
    Commits settings ready pid batch withdrawal last more ↔
      ∃ inventory db,
        ready.store.inventory.consumeStockBatch withdrawal.consumeCommand
          batch.consuming.now = .ok inventory ∧
        ({ ready.store with inventory } : WorkshopDb).commitWithdrawal withdrawal
          batch.committing.now = .ok db ∧
        last = ready.after pid (withdrawal.committed db) ∧
        more = .consumed withdrawal.undo.operationId :: (withdrawal.committed db).effects := by
  constructor
  · rintro ⟨hruns, hdone⟩
    simp only [WithdrawBatch.fromConsumption, runTurns_map_cons, List.map_nil, runTurns,
      Config.after_store, Config.after_places_self, Config.after_after] at hruns
    obtain ⟨consumed, _, hconsume, ⟨committed, _, hcommit, hend, rfl⟩, rfl⟩ := hruns
    rw [Option.some.injEq, Prod.mk.injEq] at hend
    obtain ⟨rfl, rfl⟩ := hend
    rw [hplace] at hconsume
    simp only [sagaExec] at hconsume
    split at hconsume
    · cases hconsume
      simp only [stay, sagaExec, startUndo, Option.some.injEq] at hcommit
      subst hcommit
      split at hdone <;> simp [stay, Errand.nothingFound] at hdone
    · rename_i inventory htaken
      cases hconsume
      simp only [sagaExec] at hcommit
      split at hcommit
      · cases hcommit
        simp [stay] at hdone
      · rename_i db hsaved
        cases hcommit
        exact ⟨inventory, db, htaken, hsaved, rfl, rfl⟩
  · rintro ⟨inventory, db, htaken, hsaved, rfl, rfl⟩
    refine ⟨?_, by simp [Withdrawal.committed]⟩
    simp only [WithdrawBatch.fromConsumption, runTurns_map_cons, List.map_nil, runTurns,
      Config.after_store, Config.after_places_self, Config.after_after]
    refine ⟨{
      store := { ready.store with inventory }
      place := .committing withdrawal
      effects := [.consumed withdrawal.undo.operationId] }, _, ?_,
      ⟨withdrawal.committed db, _, ?_, rfl, rfl⟩, rfl⟩
    · rw [hplace]
      simp only [sagaExec]
      rw [htaken]
    · simp only [sagaExec]
      rw [hsaved]
      rfl

end Committing

/-- What a request to withdraw prepared is what its aggregate accepted. -/
theorem prepareWithdrawal_runs {command : BatchCommand} {workOrder : WorkOrder}
    {nextId : Uuid} {now : Timestamp} {withdrawal : Withdrawal}
    (h : prepareWithdrawal command workOrder nextId now = .withdraw withdrawal) :
    ∃ resolved, Runs (WorkOrder.withdrawParts (command.toInput now)) workOrder resolved
        withdrawal.edit.changed ∧ withdrawal.edit.loaded = workOrder ∧
      withdrawal.lines = toStockLines resolved ∧
      withdrawal.undo.operationId = nextId ∧
      withdrawal.confirmation.operationId = nextId + 1 ∧
      withdrawal.undo.workOrderId = withdrawal.edit.changed.id ∧
      withdrawal.confirmation.workOrderId = withdrawal.edit.changed.id := by
  unfold prepareWithdrawal at h
  split at h
  · cases h
  · rename_i resolved changed hruns
    cases h
    exact ⟨resolved, hruns, rfl, rfl, rfl, rfl, rfl, rfl⟩

/-- A step of a work order is recorded when its id is free. -/
theorem insertStep_goes {db : WorkshopDb} {step : StockStep} {status : StepStatus}
    {dueAt now : Timestamp}
    (hknown : ∃ row ∈ db.tables.workOrders, row.id = step.workOrderId)
    (hfresh : ∀ row ∈ db.steps, row.operationId ≠ step.operationId) :
    ∃ db', db.insertStep step status dueAt now = .ok db' := by
  obtain ⟨row, hrow, hid⟩ := hknown
  have hopen : (db.tables.workOrders.any fun row => decide (row.id = step.workOrderId)) =
      true := List.any_eq_true.mpr ⟨row, hrow, decide_eq_true hid⟩
  have hfree : (db.steps.any fun other =>
      decide (other.operationId = (step.toRow status dueAt now).operationId)) = false :=
    List.any_eq_false.mpr fun other hother htaken =>
      hfresh other hother (of_decide_eq_true htaken)
  rw [WorkshopDb.insertStep, if_pos hopen, StockSteps.insert, hfree]
  exact ⟨_, rfl⟩

/-- A withdrawal commits when its step is armed, its work order can be saved and the id
of its confirmation is free. -/
theorem commitWithdrawal_goes {db : WorkshopDb} {withdrawal : Withdrawal} {now : Timestamp}
    {tables' : WorkOrderTables}
    (harmed : StockSteps.isArmed db.steps withdrawal.undo.operationId = true)
    (hsave : db.tables.save withdrawal.edit.changed = .ok tables')
    (hknown : ∃ row ∈ tables'.workOrders, row.id = withdrawal.confirmation.workOrderId)
    (hfresh : ∀ row ∈ db.steps, row.operationId ≠ withdrawal.confirmation.operationId) :
    ∃ db', db.commitWithdrawal withdrawal now = .ok db' := by
  rw [WorkshopDb.commitWithdrawal, if_pos harmed]
  change ∃ db', (db.tables.save withdrawal.edit.changed >>= _) = .ok db'
  rw [hsave]
  refine insertStep_goes hknown fun other hother => ?_
  obtain ⟨before, hbefore, rfl⟩ := List.mem_map.mp hother
  have hsame := hfresh before hbefore
  split <;> exact hsame

section Withdrawing

variable {settings : OutboxSettings} {config ready last : Config WorkshopDb SagaPlace}
variable {log more : List SagaEffect} {pid : Nat} {batch : WithdrawBatch}
variable {withdrawal : Withdrawal} {itemId : ItemId}

theorem Accepts.reaches (h : SagaReaches settings config log)
    (haccepts : Accepts settings config pid batch ready withdrawal) :
    SagaReaches settings ready log := by
  have hruns := h.trans (reaches_of_runTurns haccepts.runs)
  rwa [List.append_nil] at hruns

theorem Commits.reaches (h : SagaReaches settings ready log)
    (hcommits : Commits settings ready pid batch withdrawal last more) :
    SagaReaches settings last (log ++ more) :=
  h.trans (reaches_of_runTurns hcommits.runs)

/-- Until it consumes a batch reads, draws two ids and arms its step. -/
theorem Accepts.store (haccepts : Accepts settings config pid batch ready withdrawal) :
    ready.store.tables = config.store.tables ∧
      ready.store.inventory =
        { config.store.inventory with nextId := config.store.nextId + 2 } ∧
      ready.store.steps = config.store.steps ++ [withdrawal.undo.toRow .armed
        (batch.arming.now + milliseconds settings.graceSeconds) batch.arming.now] := by
  obtain ⟨-, row, db, -, -, hinsert, rfl⟩ := accepts_iff.mp haccepts
  obtain ⟨steps, hsteps, rfl⟩ := insertStep_ok hinsert
  exact ⟨rfl, rfl, (insert_ok hsteps).2⟩

/-- What an accepted batch found, and what its aggregate made of it. -/
theorem Accepts.made (haccepts : Accepts settings config pid batch ready withdrawal) :
    ∃ row ∈ config.store.tables.workOrders, ∃ state resolved,
      config.store.tables.stateOf row.id = some state ∧
      SameState withdrawal.edit.loaded state ∧
      Runs (WorkOrder.withdrawParts (batch.command.toInput batch.budgets.now))
        withdrawal.edit.loaded resolved withdrawal.edit.changed ∧
      withdrawal.lines = toStockLines resolved ∧
      withdrawal.edit.changed.toWorkOrderRow =
        { row with updatedAt := batch.budgets.now } := by
  obtain ⟨-, row, db, hfind, hprepared, -, -⟩ := accepts_iff.mp haccepts
  have hrow : row ∈ config.store.tables.workOrders := List.mem_of_find?_eq_some hfind
  obtain ⟨resolved, hruns, hloaded, hlines, -⟩ := prepareWithdrawal_runs hprepared
  obtain ⟨state, hstate, hsame⟩ := loads_sameState batch config.store.tables hrow
  exact ⟨row, hrow, state, resolved, hstate, hloaded ▸ hsame, hloaded ▸ hruns, hlines,
    (WorkOrder.withdrawParts_leaves 0 (toInput_positive batch.command) hruns).2.1⟩

/-- An accepted batch changes a work order of the tables by what its lines ask for. -/
theorem Accepts.changes (haccepts : Accepts settings config pid batch ready withdrawal) :
    (∀ line ∈ withdrawal.lines, 0 < line.quantity) ∧
      ∃ row ∈ config.store.tables.workOrders, ∃ state,
        config.store.tables.stateOf row.id = some state ∧
        withdrawal.edit.changed.id = row.id ∧
        ∀ itemId, withdrawal.edit.changed.remainingOf itemId =
          state.remainingOf itemId - unitsOf itemId withdrawal.lines := by
  obtain ⟨row, hrow, state, resolved, hstate, hsame, hruns, hlines, hsaved⟩ := haccepts.made
  obtain ⟨-, -, -, hpositive, -⟩ :=
    WorkOrder.withdrawParts_runs config.store.nextId (toInput_positive batch.command) hruns
  have hid := congrArg WorkOrderRow.id hsaved
  change withdrawal.edit.changed.id = row.id at hid
  refine ⟨hlines ▸ toStockLines_positive hpositive, row, hrow, state, hstate, hid,
    fun itemId => ?_⟩
  rw [WorkOrder.withdrawParts_remainingOf (toInput_positive batch.command) hruns, hlines,
    unitsOf_toStockLines,
    WorkOrder.remainingOf_congr hsame.status hsame.parts hsame.budgets]

/-- A batch asks for no more than the report counts. -/
theorem Accepts.le_outstandingOf (h : SagaReaches settings config log)
    (haccepts : Accepts settings config pid batch ready withdrawal) :
    unitsOf itemId withdrawal.lines ≤ config.store.tables.outstandingOf itemId := by
  obtain ⟨-, row, hrow, state, hstate, -, hremaining⟩ := haccepts.changes
  have hpart : config.store.tables.remainingOf row.id itemId ≤
      config.store.tables.outstandingOf itemId := by
    rw [outstandingOf_eq_remaining (ownBudgets_of_reaches h)]
    exact le_sumWhere_of_mem (f := fun row : WorkOrderRow =>
        config.store.tables.remainingOf row.id itemId)
      (fun other _ _ => remainingOf_nonneg config.store.tables other.id itemId) hrow rfl
  have hleft : 0 ≤ withdrawal.edit.changed.remainingOf itemId := WorkOrder.remainingOf_nonneg
  have hstateOf : config.store.tables.remainingOf row.id itemId = state.remainingOf itemId := by
    rw [WorkOrderTables.remainingOf, hstate]
  have hchanged := hremaining itemId
  omega

/-- An accepted batch saves the work order with the keys it was loaded with. -/
theorem Accepts.resaves (haccepts : Accepts settings config pid batch ready withdrawal) :
    ∃ state, Resaves config.store.tables state withdrawal.edit.changed := by
  obtain ⟨row, hrow, state, resolved, hstate, hsame, hruns, -, hsaved⟩ := haccepts.made
  obtain ⟨-, hleft, hservices, hbudgets, hparts, hwithdrawn, -⟩ :=
    WorkOrder.withdrawParts_leaves 0 (toInput_positive batch.command) hruns
  have hid := congrArg WorkOrderRow.id hsaved
  change withdrawal.edit.changed.id = row.id at hid
  rw [hsame.row] at hleft
  refine ⟨state, ?_, ?_, ?_, ?_, ?_, ?_, ?_, ?_, hwithdrawn fun item hitem => ?_⟩
  · rw [hid, hstate]
  · rw [hleft]
  · rw [hleft]
  · rw [hleft]
  · rw [hleft]
  · rw [hservices]
    exact hsame.services.map _
  · rw [hparts]
    exact hsame.parts.map _
  · rw [hbudgets]
    exact hsame.budgets
  · rw [hsame.parts.mem_iff] at hitem
    obtain ⟨_, -, -, rfl⟩ := WorkOrderTables.stateOf_eq_some_iff.mp hstate
    obtain ⟨part, hpart, rfl⟩ := List.mem_map.mp hitem
    exact config.store.tables.constraints.chkWithdrawnQuantity part (mem_rowsOf.mp hpart).1

/-- What inventory takes of an accepted batch, the work order commits. -/
theorem Accepts.commit_ok (h : SagaReaches settings config log)
    (haccepts : Accepts settings config pid batch ready withdrawal)
    (inventory : InventoryDb) (now : Timestamp) :
    ∃ db, ({ ready.store with inventory } : WorkshopDb).commitWithdrawal withdrawal now =
      .ok db := by
  obtain ⟨state, hresaves⟩ := haccepts.resaves
  obtain ⟨tables', hsave⟩ := hresaves.save_ok
  obtain ⟨stored, hstored, hid, -⟩ := WorkOrderTables.stateOf_eq_some_iff.mp hresaves.held
  obtain ⟨-, row', hrow', hid', -⟩ := WorkOrderTables.version_save hsave hstored hid
  obtain ⟨-, row, db, -, hprepared, -, -⟩ := accepts_iff.mp haccepts
  obtain ⟨-, -, -, -, hundo, hconfirms, -, hconfirmed⟩ := prepareWithdrawal_runs hprepared
  obtain ⟨htables, -, hsteps⟩ := haccepts.store
  rw [← htables] at hsave
  refine commitWithdrawal_goes ?_ hsave ⟨row', hrow', hid'.trans hconfirmed.symm⟩ ?_
  · refine List.any_eq_true.mpr ⟨withdrawal.undo.toRow .armed
      (batch.arming.now + milliseconds settings.graceSeconds) batch.arming.now, ?_, ?_⟩
    · change _ ∈ ready.store.steps
      rw [hsteps]
      exact List.mem_append_right _ (List.mem_singleton_self _)
    · simp [StockStep.toRow]
  · intro other hother htaken
    change other ∈ ready.store.steps at hother
    rw [hconfirms] at htaken
    rw [hsteps] at hother
    rcases List.mem_append.mp hother with hold | hnew
    · have hlt := (stepIds_of_reaches h).1 other hold
      rw [htaken] at hlt
      exact absurd hlt (Nat.lt_succ_self _).asymm
    · rw [List.mem_singleton.mp hnew] at htaken
      exact absurd (hundo.symm.trans htaken) (Nat.lt_succ_self _).ne

end Withdrawing

end WorkOrders

end Workshop
