/-
The stages of the stored work orders along a run.  Requests interleave, so one may save
long after it read its clock; what keeps the stages in order is that the clock is read
after the work order, and that a save made of a superseded version fails.
-/
import Workshop.WorkOrders.ClockedSaga
import Workshop.WorkOrders.Stages
import Workshop.WorkOrders.StoredRuns
import Workshop.WorkOrders.UndoSteps

namespace Workshop

namespace WorkOrders

open Inventory

/-- The edit was made after the change it was made of, and not after the present. -/
def Edit.MadeBy (edit : Edit) (now : Timestamp) : Prop :=
  ∃ operation, edit.By operation ∧ edit.loaded.updatedAt ≤ operation.now ∧
    operation.now ≤ now

/-- What a program holds was written or made by the present. -/
def SagaPlace.MadeBy (now : Timestamp) : SagaPlace → Prop
  | .loadingServices _ row | .loadingParts _ row _ | .loadingBudgets _ row _ _ =>
      row.updatedAt ≤ now
  | .creating workOrder => workOrder.Timely ∧ workOrder.updatedAt ≤ now
  | .saving edit _ => edit.MadeBy now
  | .arming withdrawal | .consuming withdrawal | .committing withdrawal =>
      withdrawal.edit.MadeBy now
  | _ => True

/-- What was saved was made by the present. -/
def SagaEffect.MadeBy (now : Timestamp) : SagaEffect → Prop
  | .created workOrder => workOrder.Timely ∧ workOrder.updatedAt ≤ now
  | .saved edit => edit.MadeBy now ∧ edit.changed.updatedAt ≤ now
  | _ => True

section Creation

variable {nextId nextId' : Uuid} {now : Timestamp} {workOrder : WorkOrder}

/-- A move of the stages is a change. -/
theorem Stages.Moves.updatedAt {stages after : Stages} (h : Stages.Moves now stages after) :
    after.updatedAt = now := by
  cases h <;> rfl

theorem Advances.updatedAt {before after : WorkOrder} (h : Advances now before after) :
    after.updatedAt = now :=
  h.moves.updatedAt

/-- The items of a new work order are added at the time of its opening. -/
theorem timely_of_adds {opened : WorkOrder} (htimely : opened.Timely)
    (hnow : opened.updatedAt = now)
    (hadds : Relation.ReflTransGen (AddsItem now) opened workOrder) :
    workOrder.Timely ∧ workOrder.updatedAt = now := by
  induction hadds with
  | refl => exact ⟨htimely, hnow⟩
  | tail _ hadd ih =>
      obtain ⟨operation, htime, -, hruns⟩ := hadd
      have hadvances := operation.advances ih.1.reachable.roundsSound hruns
      exact ⟨.performed operation ih.1 (by rw [ih.2, htime]) hruns,
        hadvances.updatedAt.trans htime⟩

theorem CreateCommand.openWith_timely {command : CreateCommand}
    (h : command.openWith nextId now = .ok (nextId', workOrder)) :
    workOrder.Timely ∧ workOrder.updatedAt = now := by
  simp only [CreateCommand.openWith] at h
  split at h
  · rename_i last opened hruns
    cases h
    obtain ⟨middle, state, hservices, hparts⟩ := runs_bind.mp hruns
    exact timely_of_adds (.opened _) rfl
      ((addServices_adds hservices).trans (planParts_adds hparts))
  · cases h

end Creation

section Saves

variable {settings : OutboxSettings} {config : Config WorkshopDb SagaPlace}
variable {log : List SagaEffect} {now : Timestamp} {workOrderId : WorkOrderId}
variable {state : WorkOrder}

/-- A load of the last save answers a work order whose stages were reached in time. -/
theorem timely_of_load {saved : WorkOrder} {edit : Edit} {operation : WorkOrderOperation}
    {version : Nat} (htimely : saved.Timely) (hby : edit.By operation)
    (hsame : SameState edit.loaded { saved with version }) : edit.loaded.Timely := by
  have hcreated := congrArg WorkOrderRow.createdAt hsame.row
  have hversion := congrArg WorkOrderRow.version hsame.row
  change edit.loaded.createdAt = saved.createdAt at hcreated
  change edit.loaded.version = version at hversion
  refine .loaded htimely ⟨?_, hby.ordered, hby.recorded⟩ hcreated
  rw [hcreated, hversion]
  exact hsame

/-- When every save was made in time, the last one left a work order whose stages were
reached in time. -/
theorem timely_of_log (hmade : ∀ effect ∈ log, effect.MadeBy now)
    (hover : ∀ earlier effect later, log = earlier ++ effect :: later →
      ∀ workOrder, effect.saves = some workOrder →
        SavedOver (lastSaved workOrder.id earlier) effect workOrder)
    (hfollow : SavesFollow log) :
    ∀ workOrderId state, lastSaved workOrderId log = some state →
      ∃ (saved : WorkOrder) (version : Nat), saved.Timely ∧ saved.updatedAt ≤ now ∧
        state = { saved with version } := by
  induction log using List.reverseRecOn with
  | nil =>
      intro workOrderId state hlast
      cases hlast
  | append_singleton log effect ih =>
      intro workOrderId state hlast
      have hsplit : ∀ {earlier later : List SagaEffect} {other : SagaEffect},
          log = earlier ++ other :: later →
            log ++ [effect] = earlier ++ other :: (later ++ [effect]) := by
        intro earlier later other hlog
        rw [hlog, List.append_assoc, List.cons_append]
      have hearlier := ih (fun other hother => hmade other (List.mem_append_left _ hother))
        (fun earlier other later hlog => hover earlier other _ (hsplit hlog))
        fun earlier edit later hlog => hfollow earlier edit _ (hsplit hlog)
      have hlatest := hmade effect (List.mem_append_right _ (List.mem_singleton_self _))
      have hsaved := hover log effect [] rfl
      rw [lastSaved_concat] at hlast
      cases hsaves : effect.saves with
      | none =>
          rw [leaves_of_saves_none hsaves] at hlast
          exact hearlier workOrderId state hlast
      | some saved =>
          by_cases hself : saved.id = workOrderId
          · subst hself
            rw [(hsaved saved hsaves).left, Option.some.injEq] at hlast
            have hkept : saved.Timely ∧ saved.updatedAt ≤ now := by
              cases effect with
              | created workOrder =>
                  cases hsaves
                  exact hlatest
              | saved edit =>
                  cases hsaves
                  obtain ⟨⟨operation, hby, hbefore, -⟩, hnow⟩ := hlatest
                  obtain ⟨loaded, hloaded, hsame⟩ := hfollow log edit [] rfl
                  obtain ⟨old, version, htimely, -, rfl⟩ := hearlier _ loaded hloaded
                  exact ⟨.performed operation (timely_of_load htimely hby hsame) hbefore
                    hby.runs, hnow⟩
              | _ => cases hsaves
            exact ⟨saved, effect.leftVersion, hkept.1, hkept.2, hlast.symm⟩
          · rw [leaves_of_ne hsaves hself] at hlast
            exact hearlier workOrderId state hlast

/-- Every stored work order is one whose stages were reached in time, under the version
of its row. -/
theorem timely_of_stored (h : SagaReaches settings config log)
    (hmade : ∀ effect ∈ log, effect.MadeBy now)
    (hstate : config.store.tables.stateOf workOrderId = some state) :
    ∃ (saved : WorkOrder) (version : Nat), saved.Timely ∧ saved.updatedAt ≤ now ∧
      SameState state { saved with version } := by
  have hserial := (serial_of_reaches h).1
  have hlast := hserial.last workOrderId
  rw [hstate] at hlast
  cases hcase : lastSaved workOrderId log with
  | none =>
      rw [hcase] at hlast
      cases hlast
  | some left =>
      rw [hcase] at hlast
      cases hlast with
      | some hsame =>
          obtain ⟨saved, version, htimely, hnow, rfl⟩ :=
            timely_of_log hmade (savedOver_of_reaches h) hserial.follow _ _ hcase
          exact ⟨saved, version, htimely, hnow, hsame⟩

/-- No stored row was changed after the present. -/
theorem updatedAt_of_stored (h : SagaReaches settings config log)
    (hmade : ∀ effect ∈ log, effect.MadeBy now) :
    ∀ row ∈ config.store.tables.workOrders, row.updatedAt ≤ now := by
  intro row hrow
  obtain ⟨saved, version, -, hnow, hsame⟩ := timely_of_stored h hmade
    (WorkOrderTables.stateOf_eq_some_iff.mpr ⟨row, hrow, rfl, rfl⟩)
  have hupdated := congrArg WorkOrderRow.updatedAt hsame.row
  exact hupdated.trans_le hnow

end Saves

section Turns

variable {settings : OutboxSettings} {db : WorkshopDb} {place : SagaPlace}
variable {input : SagaInput} {out : SagaOutcome} {now later : Timestamp}
variable {config : Config WorkshopDb SagaPlace} {log : List SagaEffect}

theorem Edit.MadeBy.mono {edit : Edit} (h : edit.MadeBy now) (hle : now ≤ later) :
    edit.MadeBy later := by
  obtain ⟨operation, hby, hbefore, hnow⟩ := h
  exact ⟨operation, hby, hbefore, hnow.trans hle⟩

theorem SagaPlace.MadeBy.mono (h : place.MadeBy now) (hle : now ≤ later) :
    place.MadeBy later := by
  cases place with
  | loadingServices request row => exact h.trans hle
  | loadingParts request row services => exact h.trans hle
  | loadingBudgets request row services parts => exact h.trans hle
  | creating workOrder => exact ⟨h.1, h.2.trans hle⟩
  | saving edit step => exact Edit.MadeBy.mono h hle
  | arming withdrawal => exact Edit.MadeBy.mono h hle
  | consuming withdrawal => exact Edit.MadeBy.mono h hle
  | committing withdrawal => exact Edit.MadeBy.mono h hle
  | _ => trivial

theorem SagaEffect.MadeBy.mono {effect : SagaEffect} (h : effect.MadeBy now)
    (hle : now ≤ later) : effect.MadeBy later := by
  cases effect with
  | created workOrder => exact ⟨h.1, h.2.trans hle⟩
  | saved edit => exact ⟨h.1.mono hle, h.2.trans hle⟩
  | _ => trivial

/-- The next application holds no work order. -/
theorem madeBy_nextApplication (queue : List ClaimedStockStep) :
    (nextApplication queue).MadeBy now := by
  cases queue <;> trivial

/-- A request reads the clock after the row it changes. -/
theorem SagaMove.madeBy (hmove : SagaMove settings db place input out)
    (hreading : ∀ read, input.reading = some read → read = now)
    (hrows : ∀ row ∈ db.tables.workOrders, row.updatedAt ≤ now)
    (hplace : place.MadeBy now) : out.place.MadeBy now := by
  cases hmove with
  | errandFails input errand error hplace' => cases errand <;> trivial
  | openNew command read nextId workOrder hopen =>
      obtain rfl : read = now := hreading read rfl
      obtain ⟨htimely, hupdated⟩ := CreateCommand.openWith_timely hopen
      exact ⟨htimely, hupdated.le⟩
  | readRow number request row hrow => exact hrows row hrow
  | readServices surroundings request row => exact hplace
  | readParts surroundings request row services => exact hplace
  | readBudgets surroundings request row services parts =>
      have hread : surroundings.now = now := hreading surroundings.now rfl
      generalize hprepared : request.prepare _ db.nextId surroundings.now
        surroundings.cancelsInExecution = prepared
      have hedit : ∀ edit, prepared.place.edit = some edit → edit.MadeBy now := by
        intro edit hedit
        rw [← hprepared] at hedit
        obtain ⟨hloaded, hruns⟩ := prepare_edit hedit
        have htime : (request.operation db.nextId surroundings.now).now = surroundings.now :=
          request.operation_now
        refine ⟨_, ⟨?_, ?_, hloaded ▸ hruns⟩, ?_, ?_⟩
        · rw [hloaded]
          rfl
        · rw [hloaded]
          exact ordered_toDomain
        · rw [hloaded, htime, hread]
          exact hplace
        · rw [htime, hread]
      cases prepared with
      | refused => trivial
      | withdraw withdrawal => exact hedit _ rfl
      | save edit step => exact hedit _ rfl
  | shelfRead input nextId hle next hnext => cases next <;> trivial
  | arm surroundings withdrawal dueAt steps hinsert => exact hplace
  | consume surroundings withdrawal inventory hconsume => exact hplace
  | complete surroundings errand =>
      cases errand with
      | compensation undo => trivial
      | application step queue => exact madeBy_nextApplication queue
  | claim surroundings operationIds => exact madeBy_nextApplication _
  | recordError surroundings step queue error => exact madeBy_nextApplication queue
  | _ => trivial

/-- In every run whose clock never goes back, what was saved and what a program holds was
made after what it was made of. -/
theorem madeBy_of_clocked (h : SagaReachesAt settings config log now) :
    (∀ effect ∈ log, effect.MadeBy now) ∧ ∀ pid, (config.places pid).MadeBy now := by
  refine ClockedReaches.invariant_of_places
    (G := fun now _ log => ∀ effect ∈ log, effect.MadeBy now)
    (L := fun now place => place.MadeBy now)
    (fun _ heffect => absurd heffect List.not_mem_nil) (fun _ => trivial) ?_ ?_ h
  · intro now later hle
    exact ⟨fun hlog effect heffect => (hlog effect heffect).mono hle,
      fun hplace => hplace.mono hle⟩
  · intro config log now pid input out before hlog hplace hreading hexec
    have hruns : SagaReaches settings config log := before.reachesBy
    have hmove := sagaMove_of_exec hexec
    refine ⟨fun effect heffect => ?_,
      hmove.madeBy hreading (updatedAt_of_stored hruns hlog) hplace⟩
    rcases List.mem_append.mp heffect with hold | hnew
    · exact hlog effect hold
    · have hsaved : ∀ {edit rest}, out.effects = .saved edit :: rest → edit.MadeBy now →
          edit.changed.updatedAt ≤ now := by
        rintro edit rest heffects ⟨operation, hby, -, hnow⟩
        obtain ⟨state, hlast, hsame⟩ := lastSaved_of_saves hruns hexec heffects
        obtain ⟨saved, version, htimely, -, rfl⟩ := timely_of_log hlog
          (savedOver_of_reaches hruns) (serial_of_reaches hruns).1.follow _ _ hlast
        have hloaded := timely_of_load htimely hby hsame
        rw [(operation.advances hloaded.reachable.roundsSound hby.runs).updatedAt]
        exact hnow
      have hchange := hmove.tables
      revert hchange hplace hsaved hnew
      generalize out.store.tables = tables'
      generalize out.effects = effects
      generalize config.places pid = place
      intro hplace hnew hsaved hchange
      cases hchange with
      | same _ hunsaved hcreated =>
          cases effect with
          | created workOrder => exact absurd hnew (hcreated workOrder)
          | saved edit => exact absurd hnew (hunsaved edit)
          | _ => trivial
      | create workOrder _ hsave =>
          obtain rfl := List.mem_singleton.mp hnew
          exact hplace
      | save edit step _ hsave =>
          obtain rfl := List.mem_singleton.mp hnew
          exact ⟨hplace, hsaved rfl hplace⟩
      | commit withdrawal _ hsave =>
          rcases List.mem_cons.mp hnew with rfl | hnew
          · exact ⟨hplace, hsaved rfl hplace⟩
          · obtain rfl := List.mem_singleton.mp hnew
            trivial

end Turns

section Stored

variable {settings : OutboxSettings} {config : Config WorkshopDb SagaPlace}
variable {log : List SagaEffect} {now : Timestamp}

/-- Whatever requests interleave, a stored work order has the times its status and its
rounds call for, and beside them what is written with them. -/
theorem stages_stamped (h : SagaReaches settings config log) :
    ∀ workOrderId state, config.store.tables.stateOf workOrderId = some state →
      state.stages.Stamped ∧ state.Signed := by
  intro workOrderId state hstate
  have hlast := (serial_of_reaches h).1.last workOrderId
  rw [hstate] at hlast
  cases hcase : lastSaved workOrderId log with
  | none =>
      rw [hcase] at hlast
      cases hlast
  | some left =>
      rw [hcase] at hlast
      cases hlast with
      | some hsame =>
          obtain ⟨effect, heffect, saved, hsaves, -, hleft⟩ := lastSaved_mem hcase
          obtain ⟨hstamped, hsigned⟩ :=
            (reachable_of_reaches h effect heffect saved hsaves).stamped
          rw [hsame.stages, hsame.row, hleft]
          exact ⟨hstamped.recreated _, hsigned.rewritten _ _⟩

/-- Whatever requests interleave, as long as the clock they read never goes back, a stored
work order went through its stages one after another. -/
theorem stages_in_order (h : SagaReachesAt settings config log now) :
    ∀ workOrderId state, config.store.tables.stateOf workOrderId = some state →
      state.stages.Ordered ∧ state.updatedAt ≤ now := by
  intro workOrderId state hstate
  obtain ⟨saved, version, htimely, hnow, hsame⟩ :=
    timely_of_stored h.reachesBy (madeBy_of_clocked h).1 hstate
  have hupdated := congrArg WorkOrderRow.updatedAt hsame.row
  refine ⟨?_, hupdated.trans_le hnow⟩
  rw [hsame.stages]
  exact htimely.ordered

end Stored

namespace SagaWitness

/-- Two requests complete one work order; the one that read it first saves last and is
refused, after the other one's vehicle was delivered. -/
def completedTwice : List (Nat × SagaInput) :=
  inExecution [part] ++
    (1, .request "OS-1" (.plain (.completeWorkOrder 7))) :: proceed 1 3 7 ++
    plainRequest 0 8 (.completeWorkOrder 7) ++
    (0, .request "OS-1" (.deliverVehicle 7)) :: proceed 0 8 9 ++ proceed 1 1 10

def finished : Config WorkshopDb SagaPlace × List SagaEffect :=
  endOfRun (sagaExec settings) emptyWorkshop completedTwice (by decide +kernel)

theorem stages_finished :
    (finished.1.store.tables.stateOf 2).map (fun state => state.stages.way) =
      some [3, 4, 5, 6, 8, 9] := by
  decide +kernel

theorem reaches_finished : SagaReaches settings finished.1 finished.2 :=
  reaches_endOfRun _

theorem stages_stamped_finished :
    ∃ state, finished.1.store.tables.stateOf 2 = some state ∧
      state.stages.Stamped ∧ state.Signed := by
  obtain ⟨state, hstate, -⟩ := Option.map_eq_some_iff.mp stages_finished
  exact ⟨state, hstate, stages_stamped reaches_finished 2 state hstate⟩

theorem stages_in_order_finished :
    ∃ state, finished.1.store.tables.stateOf 2 = some state ∧
      state.stages.way = [3, 4, 5, 6, 8, 9] ∧ state.stages.Ordered := by
  obtain ⟨state, hstate, hway⟩ := Option.map_eq_some_iff.mp stages_finished
  have hclocked : SagaReachesAt settings finished.1 finished.2 _ :=
    sagaReachesAt_endOfRun (by decide +kernel) _
  exact ⟨state, hstate, hway, (stages_in_order hclocked 2 state hstate).1⟩

end SagaWitness

end WorkOrders

end Workshop
