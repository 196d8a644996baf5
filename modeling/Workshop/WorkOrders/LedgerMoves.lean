/-
What a move of the saga does to the rows of the ledger: every row stays what it
is but for its marks, and the rows that are posted say which program posted
them and why.
-/
import Workshop.WorkOrders.Withdrawals

namespace Workshop

namespace WorkOrders

open Inventory

/-- One row of the ledger, whatever its status and its confirmation. -/
structure SameRow (row row' : MovementRow) : Prop where
  id : row'.id = row.id
  kind : row'.kind = row.kind
  quantity : row'.quantity = row.quantity
  undoesMovementId : row'.undoesMovementId = row.undoesMovementId
  inventoryItemId : row'.inventoryItemId = row.inventoryItemId
  workOrderId : row'.workOrderId = row.workOrderId
  operationId : row'.operationId = row.operationId

/-- How the marks of a row change in one move, and which program changes
them. -/
inductive MarksChange (place : SagaPlace) (effects : List SagaEffect)
    (row row' : MovementRow) : Prop
  | same (hstatus : row'.status = row.status)
      (hconfirmed : row'.confirmedAt = row.confirmedAt)
  | confirm (step : ClaimedStockStep) (queue : List ClaimedStockStep)
      (hplace : place = .applying step queue)
      (heffect : .applied step.toStockStep ∈ effects)
      (hkind : step.kind = .confirmConsumption)
      (hconsumption : row.kind = .consumption)
      (hoperation : step.consumptionOperationId = row.operationId)
      (hstatus : row'.status = row.status)
      (hconfirmed : row'.confirmedAt.isSome)
  | close (step : ClaimedStockStep) (queue : List ClaimedStockStep)
      (closure : Closure) (candidates : List ClosureCandidate)
      (hplace : place = .closing step queue closure candidates)
      (heffect : .applied step.toStockStep ∈ effects)
      (hcandidate : row.id ∈ candidates.map ClosureCandidate.movementId)
      (hpending : row.status = some .pending)
      (hstatus : row'.status = some closure.toStatus)
      (hconfirmed : row'.confirmedAt = row.confirmedAt)

/-- A row of the ledger before and after a move. -/
structure RowEvolves (place : SagaPlace) (effects : List SagaEffect)
    (row row' : MovementRow) : Prop where
  same : SameRow row row'
  marks : MarksChange place effects row row'

/-- The consumptions and returns a move posts. -/
inductive PostedRow (db : InventoryDb) (place : SagaPlace)
    (effects : List SagaEffect) (row : MovementRow) : Prop
  | consumption (withdrawal : Withdrawal) (line : StockLine)
      (hplace : place = .consuming withdrawal)
      (heffect : .consumed withdrawal.undo.operationId ∈ effects)
      (hline : line ∈ withdrawal.lines)
      (hrow : IsConsumption withdrawal.consumeCommand line row)
  | undone (errand : Errand) (named : List ItemId) (target : MovementRow)
      (hplace : place = .undoing errand named) (hkind : row.kind = .returned)
      (htarget : target ∈ db.operationRows errand.step.operationId)
      (hoperation : row.operationId = some errand.step.operationId)
      (hundoes : row.undoesMovementId = some target.id)
      (hstatus : row.status = none)
  | restored (step : ClaimedStockStep) (queue : List ClaimedStockStep)
      (target : MovementRow) (hplace : place = .applying step queue)
      (heffect : .applied step.toStockStep ∈ effects) (hkind : step.kind = .restore)
      (hreturned : row.kind = .returned)
      (htarget : target ∈ db.pendingRows row.inventoryItemId step.workOrderId)
      (hoperation : row.operationId = some step.operationId)
      (hundoes : row.undoesMovementId = some target.id)
      (hstatus : row.status = none)
      (hfirst : db.hasReturnOfOperation step.operationId = false)

/-- The rows of the ledger before and after a move. -/
def MovementsChange (db : InventoryDb) (place : SagaPlace)
    (effects : List SagaEffect) (movements : List MovementRow) : Prop :=
  ∃ kept posts, movements.Perm (kept ++ posts) ∧
    List.Forall₂ (RowEvolves place effects) db.movements kept ∧
    ∀ row ∈ posts, row.Plain ∨ PostedRow db place effects row

section Changes

variable {db db' : InventoryDb} {place next : SagaPlace}
variable {effects : List SagaEffect}

theorem RowEvolves.refl (row : MovementRow) : RowEvolves place effects row row :=
  ⟨⟨rfl, rfl, rfl, rfl, rfl, rfl, rfl⟩, .same rfl rfl⟩

theorem forall₂_evolves_refl (rows : List MovementRow) :
    List.Forall₂ (RowEvolves place effects) rows rows :=
  List.forall₂_same.mpr fun row _ => RowEvolves.refl row

theorem sameRow_of_sameMovement {change : MovementRow → MovementRow}
    (h : SameMovement change) (row : MovementRow) : SameRow row (change row) :=
  ⟨h.id row, h.kind row, h.quantity row, h.undoesMovementId row,
    h.inventoryItemId row, h.workOrderId row, h.operationId row⟩

theorem MovementsChange.refl : MovementsChange db place effects db.movements :=
  ⟨db.movements, [], by rw [List.append_nil], forall₂_evolves_refl _,
    fun _ hrow => absurd hrow List.not_mem_nil⟩

theorem MovementsChange.of_posted {posts : List MovementRow}
    (hposted : Posted db db' posts) (h : ∀ row ∈ posts, PostedRow db place effects row) :
    MovementsChange db place effects db'.movements := by
  obtain ⟨rows, hperm, hmovements⟩ := hposted.movements
  exact ⟨db.movements, posts, hmovements ▸ hperm.append_left db.movements,
    forall₂_evolves_refl _, fun row hrow => Or.inr (h row hrow)⟩

theorem MovementsChange.of_map {change : MovementRow → MovementRow}
    (h : ∀ row ∈ db.movements, RowEvolves place effects row (change row)) :
    MovementsChange db place effects (db.movements.map change) :=
  ⟨_, [], by rw [List.append_nil], forall₂_map_self h,
    fun _ hrow => absurd hrow List.not_mem_nil⟩

/-- What a move does to the rows of the ledger. -/
theorem StockChange.movements (hshape : LedgerShape db)
    (hplain : ∀ item, place = .shelf item → PlainItem item)
    (h : StockChange db place next effects db') :
    MovementsChange db place effects db'.movements := by
  cases h with
  | quiet _ _ nextId hle => exact MovementsChange.refl
  | save item _ hsave =>
      obtain ⟨row, -, -, -, -, rfl⟩ := save_ok hsave
      refine ⟨db.movements, _, List.Perm.refl _, forall₂_evolves_refl _, ?_⟩
      intro row hrow
      obtain ⟨movement, hmovement, rfl⟩ := List.mem_map.mp hrow
      exact Or.inl (hplain item rfl movement hmovement)
  | consume withdrawal now _ hconsume =>
      obtain ⟨posts, hposted, hposts⟩ := consumeStockBatch_ok hshape.items hconsume
      refine MovementsChange.of_posted hposted fun row hrow => ?_
      obtain ⟨line, hline, hposted⟩ := exists_left_of_forall₂ hposts hrow
      exact .consumption withdrawal line rfl List.mem_cons_self hline hposted
  | undo errand named now _ hundo =>
      obtain ⟨posts, hposted, hposts⟩ := undoConsumption_ok hshape.items hundo
      refine MovementsChange.of_posted hposted fun row hrow => ?_
      obtain ⟨hkind, -, hoperation, target, htarget, hundoes, -⟩ :=
        undo_postable hposts row hrow
      obtain ⟨_, _, hreturn⟩ := exists_left_of_forall₂ hposts hrow
      exact .undone errand named target rfl hkind htarget hoperation hundoes
        hreturn.status
  | confirm step queue operationId now hkind hoperation =>
      apply MovementsChange.of_map
      intro row _
      refine ⟨sameRow_of_sameMovement (sameMovement_confirm operationId _) row, ?_⟩
      split
      · rename_i htest
        simp only [Bool.and_eq_true, decide_eq_true_eq] at htest
        exact .confirm step queue rfl List.mem_cons_self hkind htest.1.2
          (hoperation.trans htest.1.1.symm) rfl rfl
      · exact .same rfl rfl
  | restore step queue order now _ hkind hrestore =>
      rcases restoreStockBatch_ok hshape.items hrestore with
        ⟨-, rfl⟩ | ⟨hfirst, posts, hposted, hposts, -⟩
      · exact MovementsChange.refl
      · refine MovementsChange.of_posted hposted fun row hrow => ?_
        obtain ⟨hreturned, -, hoperation, target, htarget, hundoes, -⟩ :=
          restoreDraws_postable hposts row hrow
        obtain ⟨_, _, hreturn⟩ := exists_left_of_forall₂ hposts hrow
        exact .restored step queue target rfl List.mem_cons_self hkind hreturned
          htarget hoperation hundoes hreturn.status hfirst
  | close step queue closure candidates now =>
      apply MovementsChange.of_map
      intro row _
      refine ⟨sameRow_of_sameMovement (sameMovement_close closure candidates) row, ?_⟩
      split
      · rename_i htest
        simp only [Bool.and_eq_true, decide_eq_true_eq] at htest
        exact .close step queue closure candidates rfl List.mem_cons_self htest.1
          htest.2 rfl rfl
      · exact .same rfl rfl

/-- A consumption commits from its own request. -/
theorem StockChange.consumes (h : StockChange db place next effects db')
    {operationId : OperationId} (hconsumed : .consumed operationId ∈ effects) :
    ∃ withdrawal, place = .consuming withdrawal ∧
      withdrawal.undo.operationId = operationId := by
  cases h with
  | quiet _ _ nextId hle hquiet _ => exact absurd hconsumed (hquiet operationId)
  | consume withdrawal now _ hconsume =>
      have hid : operationId = withdrawal.undo.operationId := by
        simpa using hconsumed
      exact ⟨withdrawal, rfl, hid.symm⟩
  | _ => simp at hconsumed

variable {movements : List MovementRow} {row row' : MovementRow}

/-- A consumption is posted by the request of its withdrawal. -/
theorem PostedRow.consumes (h : PostedRow db place effects row)
    (hkind : row.kind = .consumption) :
    ∃ withdrawal line, place = .consuming withdrawal ∧
      IsConsumption withdrawal.consumeCommand line row := by
  cases h with
  | consumption withdrawal line hplace _ _ hrow => exact ⟨withdrawal, line, hplace, hrow⟩
  | undone _ _ _ _ hreturned =>
      rw [hkind] at hreturned
      cases hreturned
  | restored _ _ _ _ _ _ hreturned =>
      rw [hkind] at hreturned
      cases hreturned

/-- A consumption or a return stood in the ledger before the move, or was
posted by it. -/
theorem MovementsChange.mem (h : MovementsChange db place effects movements)
    (hrow : row' ∈ movements) :
    (∃ row ∈ db.movements, RowEvolves place effects row row') ∨ row'.Plain ∨
      PostedRow db place effects row' := by
  obtain ⟨kept, posts, hperm, hkept, hposts⟩ := h
  rcases List.mem_append.mp (hperm.mem_iff.mp hrow) with hrow | hrow
  · exact Or.inl (exists_left_of_forall₂ hkept hrow)
  · exact Or.inr (hposts row' hrow)

/-- No row is removed. -/
theorem MovementsChange.kept (h : MovementsChange db place effects movements)
    (hrow : row ∈ db.movements) :
    ∃ row' ∈ movements, RowEvolves place effects row row' := by
  obtain ⟨kept, posts, hperm, hkept, -⟩ := h
  obtain ⟨row', hrow', hevolves⟩ := exists_right_of_forall₂ hkept hrow
  exact ⟨row', hperm.mem_iff.mpr (List.mem_append_left posts hrow'), hevolves⟩

end Changes

/-- Where a program came from that stands in its withdrawal or at a step of the
outbox, and what it found when it moved there. -/
def CameFrom (db : WorkshopDb) (place : SagaPlace) (out : SagaOutcome) : Prop :=
  match out.place with
  | .consuming withdrawal => place = .arming withdrawal ∧ out.effects = [] ∧
      ∀ row ∈ db.steps, row.operationId ≠ withdrawal.undo.operationId
  | .committing withdrawal => place = .consuming withdrawal ∧
      out.effects = [.consumed withdrawal.undo.operationId] ∧
      ∃ now, db.inventory.consumeStockBatch withdrawal.consumeCommand now =
        .ok out.store.inventory
  | .undoing errand _ => StartsUndo place errand ∧ out.effects = [] ∧
      db.inventory.undoNames errand.step.undoCommand ≠ []
  | .completing errand =>
      (∃ named now, place = .undoing errand named ∧ out.effects = [] ∧
        db.inventory.undoConsumption errand.step.undoCommand named now =
          .ok out.store.inventory) ∨
      (StartsUndo place errand ∧ out.effects = errand.nothingFound ∧
        out.store.inventory = db.inventory ∧
        db.inventory.undoNames errand.step.undoCommand = []) ∨
      ∃ step queue, errand = .application step queue ∧
        out.effects = [.applied step.toStockStep] ∧
        (place = .applying step queue ∧
            (step.kind = .confirmConsumption ∨ step.kind = .restore) ∨
          ∃ closure candidates, place = .closing step queue closure candidates)
  | .closing step queue closure candidates => place = .applying step queue ∧
      (closure = .settle ∧ step.kind = .settle ∨
        closure = .writeOff ∧ step.kind = .writeOff) ∧
      out.effects = [] ∧ out.store.inventory = db.inventory ∧
      candidates = db.inventory.closureCandidates closure step.workOrderId
  | _ => True

section Places

variable {settings : OutboxSettings} {db : WorkshopDb} {place : SagaPlace}
variable {input : SagaInput} {out : SagaOutcome}

theorem SagaMove.cameFrom (hmove : SagaMove settings db place input out) :
    CameFrom db place out := by
  cases hmove with
  | errandFails input errand error hplace => cases errand <;> trivial
  | readBudgets surroundings request row services parts =>
      simp only [CameFrom, stay]
      generalize WorkOrderRequest.prepare _ _ _ _ _ = prepared
      cases prepared <;> trivial
  | shelfRead input nextId hle next hnext => cases next <;> trivial
  | arm surroundings withdrawal dueAt steps hinsert =>
      exact ⟨rfl, rfl, (insert_ok hinsert).1⟩
  | consume surroundings withdrawal inventory hconsume =>
      exact ⟨rfl, rfl, surroundings.now, hconsume⟩
  | findNothing surroundings errand hplace hnone =>
      exact Or.inr (Or.inl ⟨hplace, rfl, rfl, hnone⟩)
  | nameItems surroundings errand named hplace hnamed =>
      exact ⟨hplace, rfl, hnamed⟩
  | undo surroundings errand named inventory hundo =>
      exact Or.inl ⟨named, surroundings.now, rfl, rfl, hundo⟩
  | complete surroundings errand =>
      cases errand with
      | compensation undo => trivial
      | application step queue => cases queue <;> trivial
  | claim surroundings operationIds =>
      simp only [CameFrom, claimDue]
      generalize StockSteps.claimedSteps _ _ = steps
      cases steps <;> trivial
  | confirm surroundings step queue operationId hkind hoperation =>
      exact Or.inr (Or.inr ⟨step, queue, rfl, rfl, Or.inl ⟨rfl, Or.inl hkind⟩⟩)
  | restore surroundings step queue inventory hkind hrestore =>
      exact Or.inr (Or.inr ⟨step, queue, rfl, rfl, Or.inl ⟨rfl, Or.inr hkind⟩⟩)
  | pick surroundings step queue closure hkind => exact ⟨rfl, hkind, rfl, rfl, rfl⟩
  | close surroundings step queue closure candidates =>
      exact Or.inr (Or.inr ⟨step, queue, rfl, rfl,
        Or.inr ⟨closure, candidates, rfl⟩⟩)
  | recordError surroundings step queue error => cases queue <;> trivial
  | _ => trivial

end Places

section Runs

variable {settings : OutboxSettings} {config : Config WorkshopDb SagaPlace}
variable {log : List SagaEffect}

/-- What a move does to the ledger of a reachable state. -/
theorem movements_of_exec (h : SagaReaches settings config log) {pid : Nat}
    {input : SagaInput} {out : SagaOutcome}
    (hexec : sagaExec settings config.store (config.places pid) input = some out) :
    MovementsChange config.store.inventory (config.places pid) out.effects
      out.store.inventory.movements := by
  obtain ⟨hshape, hplain⟩ := sagaLedger_of_reaches h
  exact (sagaMove_of_exec hexec).stock.movements hshape (hplain pid)

end Runs

end WorkOrders

end Workshop
