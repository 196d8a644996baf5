/-
The withdrawals that were saved, as the outbox shows them: the undo step is
done and was never claimed, and one confirmation carries the operation id.
-/
import Workshop.WorkOrders.OutboxRows

namespace Workshop

namespace WorkOrders

open Inventory

/-- What the outbox keeps of a withdrawal that was saved. -/
structure Withdrawn (steps : List StockStepRow) (log : List SagaEffect)
    (operationId : OperationId) : Prop where
  unclaimed : .claimed operationId ∉ log
  rows : ∃ undo ∈ steps, ∃ confirmation ∈ steps,
    undo.operationId = operationId ∧ undo.kind = .undoConsumption ∧
      undo.status = .done ∧ confirmation.kind = .confirmConsumption ∧
      confirmation.consumptionOperationId = some operationId ∧
      confirmation.workOrderId = undo.workOrderId

/-- The confirmations of the outbox are those of the withdrawals that were
saved, one for each. -/
structure WithdrawalsSound (steps : List StockStepRow) (log : List SagaEffect) :
    Prop where
  confirmed : ∀ row ∈ steps, row.kind = .confirmConsumption →
    ∃ operationId, row.consumptionOperationId = some operationId ∧
      .withdrawn operationId ∈ log
  withdrawn : ∀ operationId, .withdrawn operationId ∈ log →
    Withdrawn steps log operationId
  once : ((steps.filter fun row => row.kind = .confirmConsumption).map
    fun row => row.consumptionOperationId).Nodup

section Rows

variable {place : SagaPlace} {bound : Uuid} {steps : List StockStepRow}
variable {row : StockStepRow} {operationId : OperationId} {now : Timestamp}

/-- What a request armed is an undo step. -/
theorem SagaPlace.Made.undoKind (h : place.Made bound) {undo : StockStep}
    (hundo : place.armed = some undo) : undo.kind = .undoConsumption := by
  cases place with
  | consuming withdrawal =>
      cases hundo
      exact h.1.undoKind
  | committing withdrawal =>
      cases hundo
      exact h.1.undoKind
  | compensating armed =>
      cases hundo
      exact h
  | releasing armed =>
      cases hundo
      exact h
  | undoing errand named =>
      cases errand with
      | compensation armed =>
          cases hundo
          exact h
      | application step queue => cases hundo
  | completing errand =>
      cases errand with
      | compensation armed =>
          cases hundo
          exact h
      | application step queue => cases hundo
  | _ => cases hundo

theorem isArmed_iff :
    StockSteps.isArmed steps operationId = true ↔
      ∃ row ∈ steps, row.operationId = operationId ∧ row.status = .armed := by
  simp [StockSteps.isArmed]

/-- The row that was armed is done once it is disarmed. -/
theorem mem_disarm (hrow : row ∈ steps) (hid : row.operationId = operationId)
    (hstatus : row.status = .armed) :
    ∃ row' ∈ StockSteps.disarm steps operationId now,
      row'.toStockStep = row.toStockStep ∧ row'.status = .done := by
  refine ⟨_, List.mem_map_of_mem hrow, ?_⟩
  rw [if_pos (by simp [hid, hstatus])]
  exact ⟨rfl, rfl⟩

end Rows

section Moves

variable {place next : SagaPlace} {effects log : List SagaEffect}
variable {steps steps' : List StockStepRow} {operationId : OperationId}

/-- The rows of a withdrawal that was saved stay. -/
theorem Withdrawn.mono (h : Withdrawn steps log operationId)
    (hsteps : StepsChange place next effects steps steps')
    (hunclaimed : .claimed operationId ∉ effects) :
    Withdrawn steps' (log ++ effects) operationId := by
  refine ⟨fun hclaimed => ?_, ?_⟩
  · rcases List.mem_append.mp hclaimed with hclaimed | hclaimed
    · exact h.unclaimed hclaimed
    · exact hunclaimed hclaimed
  · obtain ⟨undo, hundo, confirmation, hconfirmation, hid, hkind, hdone, hconfirm,
      hcarries, howner⟩ := h.rows
    obtain ⟨undo', hundo', hstep, hstatus⟩ := hsteps.kept hundo
    obtain ⟨confirmation', hconfirmation', hstep', -⟩ :=
      hsteps.kept hconfirmation
    rw [hdone] at hstatus
    refine ⟨undo', hundo', confirmation', hconfirmation', ?_, ?_,
      hstatus.of_done, ?_, ?_, ?_⟩
    · rwa [hstep]
    · rwa [hstep]
    · rwa [hstep']
    · rwa [hstep']
    · rwa [hstep, hstep']

/-- Rewriting the status of rows keeps what the confirmations carry. -/
theorem carried_forall₂ {kept : List StockStepRow}
    (h : List.Forall₂ (RowChange place effects) steps kept) :
    (kept.filter fun row => row.kind = .confirmConsumption).map
        (fun row => row.consumptionOperationId) =
      (steps.filter fun row => row.kind = .confirmConsumption).map
        fun row => row.consumptionOperationId := by
  induction h with
  | nil => rfl
  | @cons row row' rows rows' hrow hrest ih =>
      rw [List.filter_cons, List.filter_cons, hrow.1]
      split
      · rw [List.map_cons, List.map_cons, ih, hrow.1]
      · exact ih

/-- Only the transaction of a withdrawal records a confirmation. -/
theorem AddedStep.of_confirm {row : StockStepRow} {bound : Uuid}
    (h : AddedStep place next effects (some row)) (hmade : place.Made bound)
    (hkind : row.kind = .confirmConsumption) :
    ∃ withdrawal, place = .committing withdrawal ∧
      row.consumptionOperationId = some withdrawal.undo.operationId ∧
      .withdrawn withdrawal.undo.operationId ∈ effects := by
  cases h with
  | arm withdrawal dueAt now =>
      exact absurd (hmade.1.undoKind.symm.trans hkind) nofun
  | saveStep edit step now =>
      have hstep := (hmade.1.step step rfl).kind
      change step.kind = .confirmConsumption at hkind
      rw [hkind] at hstep
      simp at hstep
  | commit withdrawal now => exact ⟨withdrawal, rfl, hmade.1.carries, by simp⟩

end Moves

section Runs

variable {settings : OutboxSettings} {config : Config WorkshopDb SagaPlace}
variable {log : List SagaEffect} {pid : Nat} {input : SagaInput} {out : SagaOutcome}

/-- The undo of a withdrawal that was saved is done, so nobody claims it. -/
theorem WithdrawalsSound.not_claimed (hsound : WithdrawalsSound config.store.steps log)
    (h : SagaReaches settings config log)
    (hexec : sagaExec settings config.store (config.places pid) input = some out)
    {operationId : OperationId} (hwithdrawn : .withdrawn operationId ∈ log) :
    .claimed operationId ∉ out.effects := by
  intro hclaimed
  obtain ⟨undo, hundo, -, -, hid, -, hdone, -⟩ :=
    (hsound.withdrawn operationId hwithdrawn).rows
  obtain ⟨⟨front, row, back, hsplit, hrow, hopen, -⟩, -⟩ :=
    (sagaMove_of_exec hexec).claims hclaimed
  have hsame := eq_of_operationId (outbox_of_reaches h).1.ids hundo
    (by simp [hsplit]) (hid.trans hrow.symm)
  rw [← hsame, hdone] at hopen
  cases hopen

/-- A withdrawal that is saved disarms its undo, which nobody had claimed, and
records the confirmation beside it. -/
theorem withdrawn_of_exec (h : SagaReaches settings config log)
    (hexec : sagaExec settings config.store (config.places pid) input = some out)
    {operationId : OperationId} (hwithdrawn : .withdrawn operationId ∈ out.effects) :
    Withdrawn out.store.steps (log ++ out.effects) operationId := by
  have hmove := sagaMove_of_exec hexec
  have hsteps := steps_of_exec h hexec
  obtain ⟨houtbox, hworks⟩ := outbox_of_reaches h
  have hmade := (made_of_reaches h).2 pid
  obtain ⟨withdrawal, now, hplace, rfl, harmed, -, hrows⟩ :=
    hmove.withdraws hwithdrawn
  obtain ⟨row, hrow, hid, hstatus⟩ := isArmed_iff.mp harmed
  have hundo : row.toStockStep = withdrawal.undo :=
    Recorded.eq_of_id houtbox.ids ⟨row, hrow, rfl⟩
      ((hworks pid).armed _ (by rw [hplace]; rfl)) hid
  obtain ⟨row', hrow', hstep, hdone⟩ := mem_disarm hrow hid hstatus
  have hkept : row' ∈ out.store.steps := hrows ▸ List.mem_append_left _ hrow'
  rw [hplace] at hmade
  refine ⟨fun hclaimed => ?_, row', hkept, _,
    hrows ▸ List.mem_append_right _ List.mem_cons_self, ?_⟩
  · rcases List.mem_append.mp hclaimed with hclaimed | hclaimed
    · obtain ⟨other, hother, hid', hopen⟩ := houtbox.claimed _ hclaimed
      rw [eq_of_operationId houtbox.ids hother hrow (hid'.trans hid.symm)]
        at hopen
      exact hopen hstatus
    · obtain ⟨-, other, hother, hid', hpending⟩ := hmove.claims hclaimed
      have hsame := eq_of_operationId (hsteps.fresh houtbox.ids) hother hkept
        (hid'.trans (by rw [hstep, hundo]))
      rw [hsame, hdone] at hpending
      cases hpending
  · rw [hstep, hundo]
    exact ⟨rfl, hmade.1.undoKind, hdone, hmade.1.confirmKind, hmade.1.carries,
      hmade.1.confirmOwner.trans hmade.1.undoOwner.symm⟩

/-- A program that holds an armed undo has not saved its withdrawal, so the
confirmation it records carries an operation id of its own. -/
theorem WithdrawalsSound.once_of_exec (hsound : WithdrawalsSound config.store.steps log)
    (h : SagaReaches settings config log)
    (harmed : ∀ undo, (config.places pid).armed = some undo →
      .withdrawn undo.operationId ∉ log)
    (hexec : sagaExec settings config.store (config.places pid) input = some out) :
    ((out.store.steps.filter fun row => row.kind = .confirmConsumption).map
      fun row => row.consumptionOperationId).Nodup := by
  obtain ⟨kept, added, hrows, hadded, hkept⟩ := (steps_of_exec h hexec).rows
  rw [hrows, List.filter_append, List.map_append, carried_forall₂ hkept]
  refine hsound.once.append ?_ ?_
  · have hsingle : (added.toList.map
        fun row => row.consumptionOperationId).Nodup := by
      cases added <;> simp
    exact hsingle.sublist (List.filter_sublist.map _)
  · intro carried hold hnew
    cases added with
    | none => exact absurd hnew List.not_mem_nil
    | some row =>
        obtain ⟨row', hrow', rfl⟩ := List.mem_map.mp hnew
        rw [Option.toList_some, List.mem_filter, List.mem_singleton] at hrow'
        obtain ⟨rfl, hkind⟩ := hrow'
        obtain ⟨withdrawal, hplace, hcarries, -⟩ :=
          hadded.of_confirm ((made_of_reaches h).2 pid) (of_decide_eq_true hkind)
        obtain ⟨old, hold, hsame⟩ := List.mem_map.mp hold
        obtain ⟨hmem, hkind⟩ := List.mem_filter.mp hold
        obtain ⟨operationId, hcarried, hwithdrawn⟩ :=
          hsound.confirmed old hmem (of_decide_eq_true hkind)
        have hid : operationId = withdrawal.undo.operationId := by
          simpa [hcarried, hcarries] using hsame
        exact harmed withdrawal.undo (by rw [hplace]; rfl) (hid ▸ hwithdrawn)

/-- A step keeps the withdrawals and their confirmations in step. -/
theorem WithdrawalsSound.step (hsound : WithdrawalsSound config.store.steps log)
    (h : SagaReaches settings config log)
    (harmed : ∀ undo, (config.places pid).armed = some undo →
      .withdrawn undo.operationId ∉ log)
    (hexec : sagaExec settings config.store (config.places pid) input = some out) :
    WithdrawalsSound out.store.steps (log ++ out.effects) := by
  have hsteps := steps_of_exec h hexec
  refine ⟨?_, ?_, hsound.once_of_exec h harmed hexec⟩
  · intro row' hrow' hkind
    rcases hsteps.mem hrow' with ⟨row, hrow, hstep, -⟩ | hadded
    · rw [hstep] at hkind ⊢
      obtain ⟨operationId, hcarries, hwithdrawn⟩ := hsound.confirmed row hrow hkind
      exact ⟨operationId, hcarries, List.mem_append_left _ hwithdrawn⟩
    · obtain ⟨withdrawal, -, hcarries, hwithdrawn⟩ :=
        hadded.of_confirm ((made_of_reaches h).2 pid) hkind
      exact ⟨_, hcarries, List.mem_append_right _ hwithdrawn⟩
  · intro operationId hwithdrawn
    rcases List.mem_append.mp hwithdrawn with hwithdrawn | hwithdrawn
    · exact (hsound.withdrawn operationId hwithdrawn).mono hsteps
        (hsound.not_claimed h hexec hwithdrawn)
    · exact withdrawn_of_exec h hexec hwithdrawn

/-- A program arms an undo that is new, and holds it up to the save. -/
theorem WithdrawalsSound.armed_of_exec (hsound : WithdrawalsSound config.store.steps log)
    (harmed : ∀ undo, (config.places pid).armed = some undo →
      .withdrawn undo.operationId ∉ log)
    (hexec : sagaExec settings config.store (config.places pid) input = some out)
    {undo : StockStep} (hundo : out.place.armed = some undo) :
    .withdrawn undo.operationId ∉ log ++ out.effects := by
  have hmove := sagaMove_of_exec hexec
  intro hwithdrawn
  rcases List.mem_append.mp hwithdrawn with hwithdrawn | hwithdrawn
  · rcases hmove.armed hundo with hundo | ⟨-, hnew, -⟩
    · exact harmed undo hundo hwithdrawn
    · obtain ⟨row, hrow, -, -, hid, -⟩ := (hsound.withdrawn _ hwithdrawn).rows
      exact hnew row hrow hid
  · obtain ⟨-, -, -, -, -, hnone, -⟩ := hmove.withdraws hwithdrawn
    rw [hnone] at hundo
    cases hundo

/-- A withdrawal is saved by the program that armed its undo, and by no other. -/
theorem not_withdrawn_of_other (h : SagaReaches settings config log)
    (hexec : sagaExec settings config.store (config.places pid) input = some out)
    {other : Nat} (hne : other ≠ pid) {undo : StockStep}
    (hundo : (config.places other).armed = some undo) :
    .withdrawn undo.operationId ∉ out.effects := by
  intro hwithdrawn
  obtain ⟨withdrawal, now, hplace, hid, -⟩ :=
    (sagaMove_of_exec hexec).withdraws hwithdrawn
  exact armed_distinct h pid other hne withdrawal.undo undo
    (by rw [hplace]; rfl) hundo hid

theorem withdrawals_of_reaches (h : SagaReaches settings config log) :
    WithdrawalsSound config.store.steps log ∧
      ∀ pid undo, (config.places pid).armed = some undo →
        .withdrawn undo.operationId ∉ log := by
  refine ReachesBy.invariant_of_places
    (G := fun db log => WithdrawalsSound db.steps log)
    (L := fun _ log place => ∀ undo, place.armed = some undo →
      .withdrawn undo.operationId ∉ log) ?_ ?_ ?_ ?_ h
  · exact ⟨fun _ hmem => absurd hmem List.not_mem_nil,
      fun _ hmem => absurd hmem List.not_mem_nil, List.nodup_nil⟩
  · exact fun _ _ hundo => nomatch hundo
  · intro config log pid input out before hsound harmed _ hexec
    exact ⟨hsound.step before (harmed pid) hexec,
      fun _ hundo => hsound.armed_of_exec (harmed pid) hexec hundo⟩
  · intro config log pid input out before _ harmed _ hexec other hne undo hundo
      hwithdrawn
    rcases List.mem_append.mp hwithdrawn with hwithdrawn | hwithdrawn
    · exact harmed other undo hundo hwithdrawn
    · exact not_withdrawn_of_other before hexec hne hundo hwithdrawn

end Runs

end WorkOrders

end Workshop
