/-
Delivered and canceled are final.  Whatever requests were under way when a work order was
closed, none of them is saved later: its tables stay what they are and no step but an undo
is recorded for it.
-/
import Workshop.WorkOrders.ReturnSteps

namespace Workshop

namespace WorkOrders

open Inventory

open WorkOrderTables (stateOf_save_of_ne)

/-- What the tables and the log say of a work order that was closed: it is what it was,
and nothing more was saved or recorded for it but undos. -/
structure Final (first last : WorkshopDb) (log : List SagaEffect)
    (workOrderId : WorkOrderId) : Prop where
  state : last.tables.stateOf workOrderId = first.tables.stateOf workOrderId
  unsaved : ∀ edit, .saved edit ∈ log → edit.changed.id ≠ workOrderId
  steps : ∀ row ∈ last.steps, row.workOrderId = workOrderId →
    row.kind ≠ .undoConsumption → Recorded first.steps row.toStockStep

section Moves

variable {settings : OutboxSettings} {config : Config WorkshopDb SagaPlace}
variable {log : List SagaEffect} {tables tables' : WorkOrderTables} {edit : Edit}
variable {moved : ItemId → Int} {workOrderId : WorkOrderId} {state : WorkOrder}

/-- A save is one of a work order that was open. -/
theorem OrderSaved.ne_of_closed (h : OrderSaved tables tables' edit moved)
    (hopen : edit.loaded.status.isClosed = false)
    (hstate : tables.stateOf workOrderId = some state)
    (hclosed : state.status.isClosed = true) : edit.changed.id ≠ workOrderId := by
  rintro rfl
  obtain ⟨before, hbefore, hstatus⟩ := h.before
  rw [hstate, Option.some.injEq] at hbefore
  rw [hbefore, hstatus, hopen] at hclosed
  cases hclosed

/-- A move saves no work order that is closed. -/
theorem closed_unsaved (h : SagaReaches settings config log) {pid : Nat}
    {input : SagaInput} {out : SagaOutcome}
    (hexec : sagaExec settings config.store (config.places pid) input = some out)
    (hstate : config.store.tables.stateOf workOrderId = some state)
    (hclosed : state.status.isClosed = true) :
    out.store.tables.stateOf workOrderId = some state ∧
      ∀ edit, .saved edit ∈ out.effects → edit.changed.id ≠ workOrderId := by
  have hmade := (made_of_reaches h).2 pid
  obtain ⟨hserial, hreads⟩ := serial_of_reaches h
  have hread := hreads pid
  have htables := (sagaMove_of_exec hexec).tables
  revert hmade hread htables
  generalize out.store.tables = tables'
  generalize out.effects = effects
  generalize config.places pid = place
  intro hmade hread htables
  cases htables with
  | same _ hsaved hcreated => exact ⟨hstate, fun edit hedit => absurd hedit (hsaved edit)⟩
  | create workOrder _ hsave =>
      have hne : workOrderId ≠ workOrder.id := by
        rintro rfl
        exact Option.some_ne_none state (hstate.symm.trans hread)
      refine ⟨(stateOf_save_of_ne hsave hne).trans hstate, fun edit hedit => ?_⟩
      cases List.mem_singleton.mp hedit
  | save edit step _ hsave =>
      obtain ⟨fresh, -, hfollows⟩ := hmade.1.follows
      have hsaved := orderSaved_of_save hserial.sound hread hmade.2.children hfollows hsave
      have hne := hsaved.ne_of_closed hmade.1.open_before hstate hclosed
      refine ⟨(hsaved.others workOrderId hne.symm).trans hstate, fun other hother => ?_⟩
      cases List.mem_singleton.mp hother
      exact hne
  | commit withdrawal _ hsave =>
      obtain ⟨fresh, -, hfollows⟩ := hmade.1.follows
      have hsaved := orderSaved_of_save hserial.sound hread hmade.2.children hfollows hsave
      have hopen : withdrawal.edit.loaded.status.isClosed = false := by
        rw [hmade.1.inExecution]
        rfl
      have hne := hsaved.ne_of_closed hopen hstate hclosed
      refine ⟨(hsaved.others workOrderId hne.symm).trans hstate, fun other hother => ?_⟩
      rcases List.mem_cons.mp hother with hsame | hother
      · cases hsame
        exact hne
      · cases List.mem_singleton.mp hother

/-- A move records no step but an undo for a work order that is closed. -/
theorem closed_unrecorded (h : SagaReaches settings config log) {pid : Nat}
    {input : SagaInput} {out : SagaOutcome}
    (hexec : sagaExec settings config.store (config.places pid) input = some out)
    (hstate : config.store.tables.stateOf workOrderId = some state)
    (hclosed : state.status.isClosed = true) :
    ∀ row ∈ out.store.steps, row.workOrderId = workOrderId →
      row.kind ≠ .undoConsumption → Recorded config.store.steps row.toStockStep := by
  intro row hrow howner hkind
  rcases (steps_of_exec h hexec).mem hrow with ⟨old, hold, hchange⟩ | hadded
  · exact ⟨old, hold, hchange.1.symm⟩
  · have horders := orders_of_exec h hexec hadded
    exact absurd howner ((horders.closed workOrderId state hstate hclosed).2 row rfl hkind)

/-- Once a work order is delivered or canceled, whatever requests are still under way, no
later run saves it again or records a step for it but an undo. -/
theorem closed_is_final (h : SagaReaches settings config log)
    (hstate : config.store.tables.stateOf workOrderId = some state)
    (hclosed : state.status = .delivered ∨ state.status = .canceled)
    {last : Config WorkshopDb SagaPlace} {more : List SagaEffect}
    (hlater : Reaches (sagaExec settings) config last more) :
    Final config.store last.store more workOrderId := by
  have hisClosed : state.status.isClosed = true := by
    rcases hclosed with hstatus | hstatus <;> rw [hstatus] <;> rfl
  induction hlater with
  | start =>
      exact ⟨rfl, fun _ hedit => absurd hedit List.not_mem_nil,
        fun row hrow _ _ => ⟨row, hrow, rfl⟩⟩
  | @turn middle more pid input out before _ hexec ih =>
      have hmiddle : SagaReaches settings middle (log ++ more) := h.trans before
      have hkept : middle.store.tables.stateOf workOrderId = some state :=
        ih.state.trans hstate
      obtain ⟨hsame, hunsaved⟩ := closed_unsaved hmiddle hexec hkept hisClosed
      refine ⟨?_, fun edit hedit => ?_, fun row hrow howner hkind => ?_⟩
      · rw [Config.after_store, hsame, hstate]
      · rcases List.mem_append.mp hedit with hedit | hedit
        · exact ih.unsaved edit hedit
        · exact hunsaved edit hedit
      · obtain ⟨old, hold, hstep⟩ :=
          closed_unrecorded hmiddle hexec hkept hisClosed row hrow howner hkind
        rw [← hstep] at howner hkind ⊢
        exact ih.steps old hold howner hkind

end Moves

namespace SagaWitness

/-- A withdrawal has armed its undo when another request cancels the work order. -/
def overtaken : Config WorkshopDb SagaPlace × List SagaEffect :=
  endOfRun (sagaExec settings) armed.1
    ((1, .request "OS-1" (.cancelWorkOrder "gone" 7)) :: proceed 1 4 11) (by decide +kernel)

/-- The withdrawal consumes, is refused, and gives its units back. -/
def refused : Config WorkshopDb SagaPlace × List SagaEffect :=
  endOfRun (sagaExec settings) overtaken.1 (proceed 0 5 12) (by decide +kernel)

theorem reaches_overtaken :
    SagaReaches settings overtaken.1 (armed.2 ++ overtaken.2) :=
  reaches_armed.trans (reaches_endOfRun _)

theorem reaches_refused : Reaches (sagaExec settings) overtaken.1 refused.1 refused.2 :=
  reaches_endOfRun _

theorem canceled_overtaken : ∃ state,
    overtaken.1.store.tables.stateOf 2 = some state ∧ state.status = .canceled := by
  decide +kernel

theorem closed_is_final_refused : .consumed 10 ∈ refused.2 ∧
    Final overtaken.1.store refused.1.store refused.2 2 := by
  obtain ⟨state, hstate, hstatus⟩ := canceled_overtaken
  exact ⟨by decide +kernel,
    closed_is_final reaches_overtaken hstate (Or.inr hstatus) reaches_refused⟩

end SagaWitness

end WorkOrders

end Workshop
