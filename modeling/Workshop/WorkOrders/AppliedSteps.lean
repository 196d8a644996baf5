/-
What the steps that inventory applied leave in the ledger: the consumptions of
a withdrawal are confirmed, and a return gives back what its lines ask for.
-/
import Workshop.WorkOrders.StepBalance
import Workshop.WorkOrders.UndoSteps

namespace Workshop

namespace WorkOrders

open Inventory

/-- The units of an item the returns of an operation gave back. -/
def givenBack (movements : List MovementRow) (operationId : OperationId)
    (itemId : ItemId) : Int :=
  sumWhere (fun row => row.kind = .returned &&
      row.operationId = some operationId && row.inventoryItemId = itemId)
    (fun row => row.quantity) movements

/-- What the steps that were applied left in the ledger. -/
structure AppliedSound (movements : List MovementRow) (log : List SagaEffect) :
    Prop where
  confirmed : ∀ step, .applied step ∈ log → step.kind = .confirmConsumption →
    ∀ operationId, step.consumptionOperationId = some operationId →
      ∀ row ∈ movements, row.kind = .consumption →
        row.operationId = some operationId → row.confirmedAt.isSome
  restored : ∀ step, .applied step ∈ log → step.kind = .restore → ∀ itemId,
    givenBack movements step.operationId itemId = unitsOf itemId step.lineList

section Sums

variable {movements rows more : List MovementRow} {operationId : OperationId}

theorem givenBack_append (rows more : List MovementRow) (operationId : OperationId)
    (itemId : ItemId) :
    givenBack (rows ++ more) operationId itemId =
      givenBack rows operationId itemId + givenBack more operationId itemId :=
  sumWhere_append _ _ _ _

theorem givenBack_eq_zero (h : ¬ HasReturn movements operationId) (itemId : ItemId) :
    givenBack movements operationId itemId = 0 :=
  sumWhere_eq_zero fun row hrow htest => by
    simp only [Bool.and_eq_true, decide_eq_true_eq] at htest
    exact absurd ⟨row, hrow, htest.1.1, htest.1.2⟩ h

theorem hasReturn_of_givenBack {itemId : ItemId}
    (h : givenBack movements operationId itemId ≠ 0) :
    HasReturn movements operationId := by
  by_contra hnone
  exact h (givenBack_eq_zero hnone itemId)

theorem hasReturnOfOperation_iff {db : InventoryDb} :
    db.hasReturnOfOperation operationId = true ↔
      HasReturn db.movements operationId := by
  simp [InventoryDb.hasReturnOfOperation, HasReturn, and_comm]

/-- Lines with something to give back ask for units of some item. -/
theorem exists_unitsOf_pos {lines : List StockLine} (hnonempty : lines ≠ [])
    (hpositive : ∀ line ∈ lines, 0 < line.quantity) :
    ∃ itemId, 0 < unitsOf itemId lines := by
  cases lines with
  | nil => exact absurd rfl hnonempty
  | cons line lines =>
      refine ⟨line.inventoryItemId, (hpositive line List.mem_cons_self).trans_le ?_⟩
      exact le_sumWhere_of_mem (fun other hother _ => (hpositive other hother).le)
        List.mem_cons_self (by simp)

variable {db : InventoryDb} {order : RowOrder MovementRow}
variable {workOrderId : WorkOrderId}

/-- What the draws of some lines take of an item is what the lines ask of it,
when every line is covered. -/
theorem sumWhere_restoreDraws (itemId : ItemId) {lines : List StockLine}
    (hpositive : ∀ line ∈ lines, 0 < line.quantity)
    (hcovered : ∀ line ∈ lines, line.quantity ≤ drawnTotal (allocate
      (db.offers order line.inventoryItemId workOrderId) line.quantity)) :
    sumWhere (fun draw : ItemId × MovementId × Int => draw.1 = itemId)
      (fun draw => draw.2.2) (db.restoreDraws order workOrderId lines) =
      unitsOf itemId lines := by
  induction lines with
  | nil => rfl
  | cons line lines ih =>
      have hrest := ih (fun other hother => hpositive other (List.mem_cons_of_mem _ hother))
        (fun other hother => hcovered other (List.mem_cons_of_mem _ hother))
      have hline := hcovered line List.mem_cons_self
      have hwant := hpositive line List.mem_cons_self
      have htotal : drawnTotal (allocate
          (db.offers order line.inventoryItemId workOrderId) line.quantity) =
            line.quantity := by
        rw [drawnTotal_allocate offers_positive hwant.le] at hline ⊢
        exact le_antisymm (min_le_left _ _) hline
      rw [InventoryDb.restoreDraws, List.flatMap_cons, sumWhere_append,
        ← InventoryDb.restoreDraws, hrest, unitsOf_cons, sumWhere_map]
      congr 1
      split
      · rename_i hitem
        rw [hitem] at htotal ⊢
        exact Eq.trans (sumWhere_congr (fun _ _ => by simp) fun _ _ _ => rfl) htotal
      · rename_i hitem
        exact sumWhere_eq_zero fun draw _ htest =>
          absurd (of_decide_eq_true htest) hitem

/-- A return that is posted gives back what its lines ask for. -/
theorem givenBack_restored {command : RestoreStockBatchCommand}
    {posts : List MovementRow}
    (hpositive : ∀ line ∈ command.lines, 0 < line.quantity)
    (hcovered : ∀ line ∈ command.lines, line.quantity ≤ drawnTotal (allocate
      (db.offers order line.inventoryItemId command.workOrderId) line.quantity))
    (hposts : List.Forall₂ (fun draw row => IsReturn command.operationId
        command.workOrderId draw.1 draw.2 row)
      (db.restoreDraws order command.workOrderId command.lines) posts)
    (itemId : ItemId) :
    givenBack posts command.operationId itemId = unitsOf itemId command.lines := by
  rw [← sumWhere_restoreDraws itemId hpositive hcovered]
  refine (sumWhere_forall₂ (hposts.imp fun draw row hrow => ?_)).symm
  rw [hrow.kind, hrow.operationId, hrow.inventoryItemId, hrow.quantity]
  exact ⟨by simp, rfl⟩

end Sums

section Moves

variable {db db' : InventoryDb} {place next : SagaPlace}
variable {effects : List SagaEffect} {step : StockStep}

/-- A confirmation that is applied confirms what carries its operation id. -/
theorem StockChange.confirms (h : StockChange db place next effects db')
    (hclosing : ∀ claimed queue closure candidates,
      place = .closing claimed queue closure candidates →
        claimed.kind ≠ .confirmConsumption)
    (happlied : .applied step ∈ effects) (hkind : step.kind = .confirmConsumption)
    {operationId : OperationId}
    (hcarries : step.consumptionOperationId = some operationId)
    {row : MovementRow} (hrow : row ∈ db'.movements)
    (hconsumption : row.kind = .consumption)
    (hoperation : row.operationId = some operationId) : row.confirmedAt.isSome := by
  cases h with
  | quiet _ _ nextId hle _ hnone => exact absurd happlied (hnone step)
  | confirm claimed queue carried now hclaimed hcarried =>
      have hstep : step = claimed.toStockStep := by simpa using happlied
      rw [hstep, hcarried, Option.some.injEq] at hcarries
      subst hcarries
      obtain ⟨old, hold, rfl⟩ := List.mem_map.mp hrow
      split at hoperation
      · rename_i htest
        rw [if_pos htest]
        rfl
      · rename_i htest
        rw [if_neg htest] at hconsumption ⊢
        cases hconfirmed : old.confirmedAt with
        | some time => rfl
        | none => simp [hoperation, hconsumption, hconfirmed] at htest
  | restore claimed queue order now _ hclaimed hrestore =>
      have hstep : step = claimed.toStockStep := by simpa using happlied
      rw [hstep, hclaimed] at hkind
      cases hkind
  | close claimed queue closure candidates now =>
      have hstep : step = claimed.toStockStep := by simpa using happlied
      exact absurd (hstep ▸ hkind) (hclosing claimed queue closure candidates rfl)
  | _ => simp at happlied

/-- A return that is applied was applied before, or is posted. -/
theorem StockChange.restores (hitems : db.itemIds.Nodup)
    (h : StockChange db place next effects db')
    (hclosing : ∀ claimed queue closure candidates,
      place = .closing claimed queue closure candidates → claimed.kind ≠ .restore)
    (happlied : .applied step ∈ effects) (hkind : step.kind = .restore)
    (hpositive : ∀ line ∈ step.lineList, 0 < line.quantity) :
    (HasReturn db.movements step.operationId ∧ db' = db) ∨
      ¬ HasReturn db.movements step.operationId ∧ ∃ posts, Posted db db' posts ∧
        ∀ itemId,
          givenBack posts step.operationId itemId = unitsOf itemId step.lineList := by
  cases h with
  | quiet _ _ nextId hle _ hnone => exact absurd happlied (hnone step)
  | confirm claimed queue carried now hclaimed hcarried =>
      have hstep : step = claimed.toStockStep := by simpa using happlied
      rw [hstep, hclaimed] at hkind
      cases hkind
  | restore claimed queue order now _ hclaimed hrestore =>
      have hstep : step = claimed.toStockStep := by simpa using happlied
      subst hstep
      rcases restoreStockBatch_ok hitems hrestore with
        ⟨hrepeat, rfl⟩ | ⟨hfirst, posts, hposted, hposts, hcovered⟩
      · exact Or.inl ⟨hasReturnOfOperation_iff.mp hrepeat, rfl⟩
      · refine Or.inr ⟨fun hreturn => ?_, posts, hposted, fun itemId =>
          givenBack_restored hpositive hcovered hposts itemId⟩
        have hrepeat := hasReturnOfOperation_iff.mpr hreturn
        exact absurd (hfirst.symm.trans hrepeat) nofun
  | close claimed queue closure candidates now =>
      have hstep : step = claimed.toStockStep := by simpa using happlied
      exact absurd (hstep ▸ hkind) (hclosing claimed queue closure candidates rfl)
  | _ => simp at happlied

/-- What an operation gave back stays, unless a move posts a return for it. -/
theorem MovementsChange.givenBack {movements : List MovementRow}
    {operationId : OperationId} (h : MovementsChange db place effects movements)
    (hnone : ∀ row, PostedRow db place effects row → row.kind = .returned →
      row.operationId ≠ some operationId) (itemId : ItemId) :
    givenBack movements operationId itemId =
      givenBack db.movements operationId itemId := by
  obtain ⟨kept, posts, hperm, hkept, hposts⟩ := h
  have hzero : WorkOrders.givenBack posts operationId itemId = 0 := by
    apply givenBack_eq_zero
    rintro ⟨row, hrow, hkind, hoperation⟩
    rcases hposts row hrow with hplain | hposted
    · exact hplain.noReturn hkind
    · exact hnone row hposted hkind hoperation
  have hsum : WorkOrders.givenBack movements operationId itemId =
      WorkOrders.givenBack (kept ++ posts) operationId itemId := sumWhere_perm hperm
  rw [hsum, givenBack_append, hzero, add_zero]
  exact (sumWhere_forall₂ (hkept.imp fun _ _ hrow => by
    rw [hrow.same.kind, hrow.same.operationId, hrow.same.inventoryItemId,
      hrow.same.quantity]
    exact ⟨rfl, rfl⟩)).symm

end Moves

section Runs

variable {settings : OutboxSettings} {config : Config WorkshopDb SagaPlace}
variable {log : List SagaEffect} {pid : Nat} {input : SagaInput} {out : SagaOutcome}

/-- A step that posted returns and is no undo was applied. -/
theorem applied_of_hasReturn (h : SagaReaches settings config log)
    {step : StockStep} (hstep : Recorded config.store.steps step)
    (hkind : step.kind ≠ .undoConsumption)
    (hreturn : HasReturn config.store.inventory.movements step.operationId) :
    .applied step ∈ log := by
  obtain ⟨row, hrow, hreturned, hoperation⟩ := hreturn
  have hids := (outbox_of_reaches h).1.ids
  cases (rows_of_reaches h).1.returns row hrow hreturned with
  | undone undo target hundo hundoKind hsame =>
      have heq := hstep.eq_of_id hids ⟨undo, hundo, rfl⟩
        (Option.some.inj (hoperation.symm.trans hsame))
      rw [heq] at hkind
      exact absurd hundoKind hkind
  | restored restore target hrestore hrestoreKind hsame happlied =>
      rw [hstep.eq_of_id hids ⟨restore, hrestore, rfl⟩
        (Option.some.inj (hoperation.symm.trans hsame))]
      exact happlied

/-- A closing step is neither a confirmation nor a return. -/
theorem closing_kind (h : SagaReaches settings config log)
    {step : ClaimedStockStep} {queue : List ClaimedStockStep} {closure : Closure}
    {candidates : List ClosureCandidate}
    (hplace : config.places pid = .closing step queue closure candidates) :
    closureOf step.kind = some closure := by
  have hknows := (rows_of_reaches h).2 pid
  rw [hplace] at hknows
  exact hknows.1

/-- A return that was applied posted something. -/
theorem AppliedSound.hasReturn (h : SagaReaches settings config log)
    (hsound : AppliedSound config.store.inventory.movements log) {step : StockStep}
    (happlied : .applied step ∈ log) (hkind : step.kind = .restore) :
    HasReturn config.store.inventory.movements step.operationId := by
  obtain ⟨-, ⟨row, hrow, rfl⟩, -⟩ := (order_of_reaches h).1.applied step happlied
  obtain ⟨hnonempty, hpositive⟩ := (balance_of_reaches h).lines row hrow hkind
  obtain ⟨itemId, hasked⟩ := exists_unitsOf_pos hnonempty hpositive
  have hgiven := hsound.restored _ happlied hkind itemId
  exact hasReturn_of_givenBack (hgiven.symm ▸ hasked.ne')

/-- A move that posts returns for a step that is no undo applies it for the
first time. -/
theorem not_posted_of_applied (h : SagaReaches settings config log)
    (hsound : AppliedSound config.store.inventory.movements log)
    {effects : List SagaEffect} {step : StockStep} (happlied : .applied step ∈ log)
    (hkind : step.kind = .restore) {row : MovementRow}
    (hposted : PostedRow config.store.inventory (config.places pid) effects row)
    (hreturned : row.kind = .returned) :
    row.operationId ≠ some step.operationId := by
  intro hoperation
  have hids := (outbox_of_reaches h).1.ids
  obtain ⟨-, hstep, -⟩ := (order_of_reaches h).1.applied step happlied
  cases hposted with
  | consumption withdrawal line hplace heffect hline hrow =>
      rw [hrow.kind] at hreturned
      cases hreturned
  | undone errand named target hplace _ _ hsame =>
      obtain ⟨hrecorded, hundo⟩ := errand_recorded h hplace
      have heq := hstep.eq_of_id hids hrecorded
        (Option.some.inj (hoperation.symm.trans hsame))
      rw [heq, hundo] at hkind
      cases hkind
  | restored claimed queue target hplace _ _ _ _ hsame _ _ hfirst =>
      have hrepeat := hasReturnOfOperation_iff.mpr (hsound.hasReturn h happlied hkind)
      have hid : claimed.operationId = step.operationId :=
        Option.some.inj (hsame.symm.trans hoperation)
      rw [← hid, hfirst] at hrepeat
      cases hrepeat

/-- A confirmation that was applied has marked every row of its operation, and a
withdrawal that was saved consumes no more. -/
theorem AppliedSound.confirmed_of_exec
    (hsound : AppliedSound config.store.inventory.movements log)
    (h : SagaReaches settings config log)
    (hexec : sagaExec settings config.store (config.places pid) input = some out)
    {step : StockStep} (happlied : .applied step ∈ log ++ out.effects)
    (hkind : step.kind = .confirmConsumption) {operationId : OperationId}
    (hcarries : step.consumptionOperationId = some operationId)
    {row' : MovementRow} (hrow' : row' ∈ out.store.inventory.movements)
    (hconsumption : row'.kind = .consumption)
    (hoperation : row'.operationId = some operationId) : row'.confirmedAt.isSome := by
  rcases List.mem_append.mp happlied with happlied | happlied
  · obtain ⟨-, ⟨confirmation, hmem, rfl⟩, -⟩ :=
      (order_of_reaches h).1.applied step happlied
    rcases (movements_of_exec h hexec).mem hrow' with
      ⟨row, hrow, hevolves⟩ | hplain | hposted
    · exact hevolves.confirmed (hsound.confirmed _ happlied hkind operationId hcarries
        row hrow (hevolves.same.kind ▸ hconsumption)
        (hevolves.same.operationId ▸ hoperation))
    · exact absurd hconsumption hplain.noConsumption
    · cases hposted with
      | consumption withdrawal line hplace heffect hline hrow =>
          have hid : withdrawal.undo.operationId = operationId :=
            Option.some.inj (hrow.operationId.symm.trans hoperation)
          exact absurd (hid ▸ heffect)
            (not_consumed_of_row h hexec hmem hkind hcarries)
      | undone errand named target hplace hreturned =>
          rw [hconsumption] at hreturned
          cases hreturned
      | restored claimed queue target hplace heffect hrestore hreturned =>
          rw [hconsumption] at hreturned
          cases hreturned
  · refine (sagaMove_of_exec hexec).stock.confirms
      (fun claimed queue closure candidates hplace hclaimed => ?_)
      happlied hkind hcarries hrow' hconsumption hoperation
    have hclosure := closing_kind h hplace
    rw [hclaimed] at hclosure
    cases hclosure

/-- A restore that was applied gives back what its lines name, once. -/
theorem AppliedSound.restored_of_exec
    (hsound : AppliedSound config.store.inventory.movements log)
    (h : SagaReaches settings config log)
    (hexec : sagaExec settings config.store (config.places pid) input = some out)
    {step : StockStep} (happlied : .applied step ∈ log ++ out.effects)
    (hkind : step.kind = .restore) (itemId : ItemId) :
    givenBack out.store.inventory.movements step.operationId itemId =
      unitsOf itemId step.lineList := by
  rcases List.mem_append.mp happlied with happlied | happlied
  · rw [(movements_of_exec h hexec).givenBack (fun row hposted hreturned =>
      not_posted_of_applied h hsound happlied hkind hposted hreturned) itemId]
    exact hsound.restored step happlied hkind itemId
  · obtain ⟨-, hstep, -⟩ := applied_of_exec h hexec happlied
    have hpositive : ∀ line ∈ step.lineList, 0 < line.quantity := by
      obtain ⟨row, hrow, rfl⟩ := hstep
      exact ((balance_of_reaches h).lines row hrow hkind).2
    rcases (sagaMove_of_exec hexec).stock.restores (sagaLedger_of_reaches h).1.items
      (fun claimed queue closure candidates hplace hclaimed => by
        have hclosure := closing_kind h hplace
        rw [hclaimed] at hclosure
        cases hclosure) happlied hkind hpositive with
      ⟨hreturn, hsame⟩ | ⟨hfirst, posts, hposted, hgiven⟩
    · rw [hsame]
      exact hsound.restored step
        (applied_of_hasReturn h hstep (by rw [hkind]; nofun) hreturn) hkind itemId
    · obtain ⟨rows, hperm, hrows⟩ := hposted.movements
      rw [hrows, givenBack_append, givenBack_eq_zero hfirst, zero_add, ← hgiven itemId]
      exact sumWhere_perm hperm

/-- What was applied is what the ledger shows. -/
theorem applied_of_reaches (h : SagaReaches settings config log) :
    AppliedSound config.store.inventory.movements log := by
  refine ReachesBy.invariant
    (P := fun config log => AppliedSound config.store.inventory.movements log)
    ⟨fun _ hmem => absurd hmem List.not_mem_nil,
      fun _ hmem => absurd hmem List.not_mem_nil⟩ ?_ h
  intro config log pid input out before hsound _ hexec
  rw [Config.after_store]
  exact ⟨fun _ happlied hkind _ hcarries _ hrow =>
      hsound.confirmed_of_exec before hexec happlied hkind hcarries hrow,
    fun _ happlied hkind => hsound.restored_of_exec before hexec happlied hkind⟩

end Runs

end WorkOrders

end Workshop
