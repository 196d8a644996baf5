/-
What the persisted trail tells of the status.  Each save appends the trail rows
of one operation; read by time, without the rows that are no move and with the
rows of one move merged, they are to lead from the creation to the current
status.
-/
import Workshop.Library.Walks
import Workshop.WorkOrders.SavedOperations

namespace Workshop

namespace WorkOrders

/-- `listTrail`: by the time of the rows, then by the order of their inserts. -/
def WorkOrderTables.listTrail (tables : WorkOrderTables)
    (workOrderId : WorkOrderId) : List TrailEvent :=
  (tables.trail.filter fun event => event.workOrderId = workOrderId).insertionSort
    fun left right => left.occurredAt ≤ right.occurredAt

instance (event : TrailEvent) : Decidable event.IsFact :=
  inferInstanceAs (Decidable (_ ∧ _))

namespace SagaEffect

/-- The trail rows a save appended. -/
def trail (effect : SagaEffect) : List TrailEvent :=
  match effect.saves with
  | some workOrder => workOrder.trailEvents
  | none => []

def fromStatus : SagaEffect → Option WorkOrderStatus
  | .saved edit => some edit.loaded.status
  | _ => none

def toStatus (effect : SagaEffect) : Option WorkOrderStatus :=
  effect.saves.map fun workOrder => workOrder.status

/-- A save of the work order that changed its status. -/
def moves (workOrderId : WorkOrderId) (effect : SagaEffect) : Bool :=
  effect.saves.any (fun workOrder => workOrder.id = workOrderId) &&
    decide (effect.fromStatus ≠ effect.toStatus)

/-- One of the rows of the save is a move. -/
def carries (effect : SagaEffect) : Bool :=
  effect.trail.any fun event => !decide event.IsFact

end SagaEffect

/-- A trail row with the save that wrote it. -/
structure WrittenRow where
  save : Nat
  event : TrailEvent

/-- The rows the saves of a log wrote. -/
def writtenRows (log : List SagaEffect) : List WrittenRow :=
  log.zipIdx.flatMap fun entry => entry.1.trail.map (WrittenRow.mk entry.2)

/-- `listTrail`, with the save that wrote each row. -/
def trailOf (log : List SagaEffect) (workOrderId : WorkOrderId) : List WrittenRow :=
  ((writtenRows log).filter fun row => row.event.workOrderId = workOrderId).insertionSort
    fun left right => left.event.occurredAt ≤ right.event.occurredAt

/-- A move of the status, as the rows of one save tell it. -/
structure TrailMove where
  save : Nat
  fromStatus : Option WorkOrderStatus
  toStatus : Option WorkOrderStatus
deriving DecidableEq, Repr

def WrittenRow.move (row : WrittenRow) : TrailMove :=
  ⟨row.save, row.event.fromStatus, row.event.toStatus⟩

/-- The moves some rows tell: rows without a status are dropped, and the rows of
one save that tell the same move are merged. -/
def replay (rows : List WrittenRow) : List TrailMove :=
  ((rows.filter fun row => !decide row.event.IsFact).map
    WrittenRow.move).destutter (· ≠ ·)

/-- The trail of a work order leads from its creation to its current status, and
every status that was saved can be read off it. -/
structure TrailReplays (log : List SagaEffect) (workOrderId : WorkOrderId)
    (current : WorkOrderStatus) : Prop where
  walk : Walk TrailMove.fromStatus TrailMove.toStatus none
    (replay (trailOf log workOrderId)) (some current)
  passed : ∀ effect ∈ log, ∀ workOrder, effect.saves = some workOrder →
    workOrder.id = workOrderId →
      ∃ move ∈ replay (trailOf log workOrderId), move.toStatus = some workOrder.status

/-- A request that loaded a work order reads no clock that is behind the times of
its trail. -/
def ClockKept (db : WorkshopDb) : SagaPlace → SagaInput → Prop
  | .loadingBudgets _ row _ _, .proceed surroundings =>
      ∀ event ∈ db.tables.trail, event.workOrderId = row.id →
        event.occurredAt ≤ surroundings.now
  | _, _ => True

/-- What the rows of a save tell. -/
structure SagaEffect.Traced (effect : SagaEffect) : Prop where
  owned : ∀ event ∈ effect.trail, ∃ workOrder, effect.saves = some workOrder ∧
    event.workOrderId = workOrder.id
  sameTime : ∀ event ∈ effect.trail, ∀ other ∈ effect.trail,
    event.occurredAt = other.occurredAt
  rows : ∀ event ∈ effect.trail, event.IsFact ∨
    effect.fromStatus ≠ effect.toStatus ∧ event.fromStatus = effect.fromStatus ∧
      event.toStatus = effect.toStatus
  hidden : ∀ workOrder, effect.saves = some workOrder →
    effect.fromStatus ≠ effect.toStatus → effect.carries = false →
      effect.fromStatus = some .inExecution ∧ effect.toStatus = some .awaitingApproval ∧
        ∃ edit input, effect = .saved edit ∧
          Runs (WorkOrder.submitSupplementaryBudget input) edit.loaded () edit.changed

section Effects

variable {before after workOrder : WorkOrder} {now : Timestamp}

theorem trailEvents_append {events : List WorkOrderEvent}
    (h : after.domainEvents = before.domainEvents ++ events) :
    after.trailEvents = before.trailEvents ++ events.filterMap fun
      | .trail event => some event
      | .statusChanged _ => none := by
  rw [WorkOrder.trailEvents, h, List.filterMap_append]
  rfl

/-- An added item is noted, and changes nothing but the items. -/
theorem AddsItem.noted (h : AddsItem now before after) :
    after.id = before.id ∧ after.status = before.status ∧
      ∃ event : TrailEvent, event.IsFact ∧ event.workOrderId = before.id ∧
        event.occurredAt = now ∧
        after.domainEvents = before.domainEvents ++ [.trail event] := by
  obtain ⟨operation, rfl, ⟨input, rfl⟩ | ⟨input, rfl⟩, hruns⟩ := h
  · change Runs (WorkOrder.addService input) before () after at hruns
    simp [WorkOrder.addService, WorkOrder.recordFact] at hruns
    obtain ⟨-, rfl⟩ := hruns
    exact ⟨rfl, rfl, _, ⟨rfl, rfl⟩, rfl, rfl, rfl⟩
  · change Runs (WorkOrder.planPart input) before () after at hruns
    simp [WorkOrder.planPart, WorkOrder.recordFact] at hruns
    obtain ⟨-, rfl⟩ := hruns
    exact ⟨rfl, rfl, _, ⟨rfl, rfl⟩, rfl, rfl, rfl⟩

/-- The trail of a new work order: its creation, then what it was given. -/
theorem Assembled.trail (h : workOrder.Assembled) :
    workOrder.status = .received ∧ ∃ (first : TrailEvent) (facts : List TrailEvent),
      workOrder.trailEvents = first :: facts ∧
      first.fromStatus = none ∧ first.toStatus = some .received ∧
      (∀ event ∈ facts, event.IsFact) ∧
      ∀ event ∈ first :: facts,
        event.workOrderId = workOrder.id ∧ event.occurredAt = first.occurredAt := by
  obtain ⟨input, hadds⟩ := h
  suffices hsuffices : workOrder.id = input.id ∧ workOrder.status = .received ∧
      ∃ facts : List TrailEvent, workOrder.trailEvents =
        (WorkOrder.openWorkOrder input).trailEvents ++ facts ∧
        ∀ event ∈ facts, event.IsFact ∧ event.workOrderId = input.id ∧
          event.occurredAt = input.now by
    obtain ⟨hid, hstatus, facts, htrail, hfacts⟩ := hsuffices
    refine ⟨hstatus, _, facts, htrail, rfl, rfl, fun event hevent =>
      (hfacts event hevent).1, fun event hevent => ?_⟩
    rcases List.mem_cons.mp hevent with rfl | hevent
    · exact ⟨hid.symm, rfl⟩
    · exact ⟨(hfacts event hevent).2.1.trans hid.symm, (hfacts event hevent).2.2⟩
  induction hadds with
  | refl => exact ⟨rfl, rfl, [], (List.append_nil _).symm, by simp⟩
  | tail _ hadd ih =>
      obtain ⟨hid, hstatus, facts, htrail, hfacts⟩ := ih
      obtain ⟨hsameId, hsame, event, hfact, howner, htime, hevents⟩ := hadd.noted
      refine ⟨hsameId.trans hid, hsame.trans hstatus, facts ++ [event], ?_, ?_⟩
      · rw [trailEvents_append hevents, htrail, List.append_assoc]
        rfl
      · intro other hother
        rcases List.mem_append.mp hother with hother | hother
        · exact hfacts other hother
        · obtain rfl := List.mem_singleton.mp hother
          exact ⟨hfact, howner.trans hid, htime⟩

/-- Only a supplementary round is submitted without a row of the move. -/
theorem submits_of_not_carriesMove {operation : WorkOrderOperation}
    (hcarries : operation.carriesMove = false)
    (h : Runs operation.run before () after) :
    ∃ input, Runs (WorkOrder.submitSupplementaryBudget input) before () after := by
  cases operation with
  | submitSupplementaryBudget input => exact ⟨input, h⟩
  | _ => cases hcarries

/-- The trail rows of a move that was recorded. -/
theorem trailEvents_of_move {trail : List TrailEvent} {notice : WorkOrderStatusChanged}
    (hnone : before.domainEvents = [])
    (hevents : after.domainEvents = before.domainEvents ++
      (trail.map .trail ++ [.statusChanged notice])) :
    after.trailEvents = trail := by
  rw [WorkOrder.trailEvents, hevents, hnone, List.nil_append, List.filterMap_append,
    List.filterMap_map]
  simp

/-- Every row of an operation carries the work order and the time of the
operation. -/
theorem trailEvents_stamp {operation : WorkOrderOperation}
    (hnone : before.domainEvents = []) (h : Runs operation.run before () after) :
    ∀ event ∈ after.trailEvents,
      event.workOrderId = before.id ∧ event.occurredAt = operation.now := by
  cases operation.records h with
  | fact event hstatus hfact hstamp hevents =>
      have hrows : after.trailEvents = [event] := by
        rw [WorkOrder.trailEvents, hevents, hnone]
        rfl
      rw [hrows]
      intro other hother
      obtain rfl := List.mem_singleton.mp hother
      exact hstamp
  | move trail notice hevents hstatus htrail hstamp hshown hhidden _ _ _ =>
      rw [trailEvents_of_move hnone hevents]
      exact hstamp

theorem traced_of_performed {effect : SagaEffect} (h : effect.Performed) :
    effect.Traced := by
  cases effect with
  | created workOrder =>
      obtain ⟨hstatus, first, facts, htrail, hfrom, hto, hfacts, hstamp⟩ :=
        Assembled.trail h
      have hrows : (SagaEffect.created workOrder).trail = first :: facts := htrail
      refine ⟨?_, ?_, ?_, ?_⟩
      · intro event hevent
        rw [hrows] at hevent
        exact ⟨workOrder, rfl, (hstamp event hevent).1⟩
      · intro event hevent other hother
        rw [hrows] at hevent hother
        exact (hstamp event hevent).2.trans (hstamp other hother).2.symm
      · intro event hevent
        rw [hrows] at hevent
        rcases List.mem_cons.mp hevent with rfl | hevent
        · refine Or.inr ⟨Option.some_ne_none _ |>.symm, hfrom, ?_⟩
          rw [hto, ← hstatus]
          rfl
        · exact Or.inl (hfacts event hevent)
      · intro _ _ _ hcarries
        rw [SagaEffect.carries, hrows, List.any_cons] at hcarries
        simp [TrailEvent.IsFact, hto] at hcarries
  | saved edit =>
      obtain ⟨hid, operation, hnone, -, hruns⟩ := h
      have hstamp := trailEvents_stamp hnone hruns
      refine ⟨fun event hevent => ⟨_, rfl, (hstamp event hevent).1.trans hid.symm⟩,
        fun event hevent other hother =>
          (hstamp event hevent).2.trans (hstamp other hother).2.symm, ?_, ?_⟩
      · cases operation.records hruns with
        | fact event hstatus hfact _ hevents =>
            have hrows : (SagaEffect.saved edit).trail = [event] := by
              change edit.changed.trailEvents = [event]
              rw [WorkOrder.trailEvents, hevents, hnone]
              rfl
            intro other hother
            rw [hrows, List.mem_singleton] at hother
            exact Or.inl (hother ▸ hfact)
        | move trail notice hevents hstatus htrail =>
            intro event hevent
            change event ∈ edit.changed.trailEvents at hevent
            rw [trailEvents_of_move hnone hevents] at hevent
            refine (htrail event hevent).imp_right fun hmove => ⟨?_, hmove⟩
            exact fun heq => hstatus (Option.some.inj heq).symm
      · intro _ _ hmoves hnothing
        have hrecords := operation.records hruns
        revert hrecords
        generalize hcarried : operation.carriesMove = carried
        intro hrecords
        cases hrecords with
        | fact event hstatus => exact absurd (congrArg some hstatus.symm) hmoves
        | move trail notice hevents hstatus htrail _ hshown hhidden =>
            cases carried with
            | true =>
                obtain ⟨event, hevent, hmove⟩ := hshown rfl
                rw [← trailEvents_of_move hnone hevents] at hevent
                have hfact := List.any_eq_false.mp hnothing event hevent
                exact absurd (by simpa using hmove) hfact
            | false =>
                obtain ⟨input, hsubmits⟩ := submits_of_not_carriesMove hcarried hruns
                obtain ⟨hbefore, hafter, -⟩ := hhidden rfl
                exact ⟨congrArg some hbefore, congrArg some hafter, edit, input, rfl,
                  hsubmits⟩
  | _ =>
      exact ⟨fun _ hevent => absurd hevent List.not_mem_nil,
        fun _ hevent => absurd hevent List.not_mem_nil,
        fun _ hevent => absurd hevent List.not_mem_nil, fun _ hsaves => by cases hsaves⟩

/-- A submitted round moves the status, and no row tells it. -/
theorem submits_hides {edit : Edit} {input : GenerateBudgetInput}
    (hnone : edit.loaded.domainEvents = [])
    (h : Runs (WorkOrder.submitSupplementaryBudget input) edit.loaded () edit.changed) :
    edit.loaded.status = .inExecution ∧ edit.changed.status = .awaitingApproval ∧
      (SagaEffect.saved edit).carries = false := by
  have hmove : edit.loaded.status = .inExecution ∧
      edit.changed.status = .awaitingApproval := by
    simp [WorkOrder.submitSupplementaryBudget, WorkOrder.recordFact,
      WorkOrder.recordStatusChange] at h
    obtain ⟨hstatus, -, total, middle, hround, hchanged⟩ := h
    exact ⟨hstatus, congrArg (fun workOrder => workOrder.status) hchanged⟩
  refine ⟨hmove.1, hmove.2, ?_⟩
  cases WorkOrder.submitSupplementaryBudget_records h with
  | fact event hstatus hfact hstamp hevents =>
      rw [hmove.1, hmove.2] at hstatus
      cases hstatus
  | move trail notice hevents hstatus htrail hstamp hshown hhidden _ _ _ =>
      have hrows : (SagaEffect.saved edit).trail = trail :=
        trailEvents_of_move hnone hevents
      rw [SagaEffect.carries, hrows, List.any_eq_false]
      intro event hevent
      simpa using (hhidden rfl).2.2 event hevent

end Effects

section Rows

variable {log : List SagaEffect} {workOrderId : WorkOrderId} {effect : SagaEffect}

/-- The rows of one save that tell a move of the work order. -/
def movesTold (workOrderId : WorkOrderId) (entry : SagaEffect × Nat) : List TrailMove :=
  ((entry.1.trail.filter fun event => event.workOrderId = workOrderId).filter
    fun event => !decide event.IsFact).map fun event =>
      ⟨entry.2, event.fromStatus, event.toStatus⟩

/-- The move of the work order that one save tells. -/
def moveTold (workOrderId : WorkOrderId) (entry : SagaEffect × Nat) : Option TrailMove :=
  if entry.1.moves workOrderId && entry.1.carries then
    some ⟨entry.2, entry.1.fromStatus, entry.1.toStatus⟩
  else none

theorem SagaEffect.moves_iff : effect.moves workOrderId = true ↔
    (∃ workOrder, effect.saves = some workOrder ∧ workOrder.id = workOrderId) ∧
      effect.fromStatus ≠ effect.toStatus := by
  rw [SagaEffect.moves, Bool.and_eq_true, decide_eq_true_eq]
  refine and_congr_left fun _ => ?_
  cases effect.saves with
  | none => simp
  | some workOrder => simp

theorem moveTold_eq_some (save : Nat) (hmoves : effect.moves workOrderId = true)
    (hcarries : effect.carries = true) : moveTold workOrderId (effect, save) =
      some ⟨save, effect.fromStatus, effect.toStatus⟩ := by
  rw [moveTold, hmoves, hcarries]
  rfl

theorem moveTold_eq_none (save : Nat)
    (h : effect.moves workOrderId = true → effect.carries = false) :
    moveTold workOrderId (effect, save) = none := by
  refine if_neg fun htold => ?_
  obtain ⟨hmoves, hcarries⟩ := Bool.and_eq_true_iff.mp htold
  rw [h hmoves] at hcarries
  cases hcarries

/-- A save tells its own move or none. -/
theorem SagaEffect.Traced.repeats (h : effect.Traced) (save : Nat) :
    RepeatsEntry (movesTold workOrderId) (moveTold workOrderId) (effect, save) := by
  have hevent : ∀ event ∈ effect.trail, event.workOrderId = workOrderId →
      ¬ event.IsFact → effect.moves workOrderId = true ∧
        event.fromStatus = effect.fromStatus ∧ event.toStatus = effect.toStatus := by
    intro event hmem hid hfact
    obtain ⟨hmoves, htold⟩ := (h.rows event hmem).resolve_left hfact
    obtain ⟨workOrder, hsaves, howner⟩ := h.owned event hmem
    exact ⟨SagaEffect.moves_iff.mpr
      ⟨⟨workOrder, hsaves, howner.symm.trans hid⟩, hmoves⟩, htold⟩
  have hall : ∀ move ∈ movesTold workOrderId (effect, save),
      move = ⟨save, effect.fromStatus, effect.toStatus⟩ ∧
        effect.moves workOrderId = true ∧ effect.carries = true := by
    intro move hmove
    simp only [movesTold, List.mem_map, List.mem_filter, Bool.not_eq_true',
      decide_eq_false_iff_not, decide_eq_true_eq] at hmove
    obtain ⟨event, ⟨⟨hmem, hid⟩, hfact⟩, rfl⟩ := hmove
    obtain ⟨hmoves, hfrom, hto⟩ := hevent event hmem hid hfact
    refine ⟨by rw [hfrom, hto], hmoves, ?_⟩
    exact List.any_eq_true.mpr ⟨event, hmem, by simpa using hfact⟩
  by_cases htold : effect.moves workOrderId = true ∧ effect.carries = true
  · obtain ⟨hmoves, hcarries⟩ := htold
    obtain ⟨event, hmem, hfact⟩ := List.any_eq_true.mp hcarries
    obtain ⟨workOrder, hsaves, howner⟩ := h.owned event hmem
    have hid : event.workOrderId = workOrderId := by
      obtain ⟨⟨other, hother, hid⟩, -⟩ := SagaEffect.moves_iff.mp hmoves
      rw [hsaves, Option.some.injEq] at hother
      rw [howner, hother, hid]
    have hpos : 0 < (movesTold workOrderId (effect, save)).length := by
      rw [movesTold, List.length_map]
      refine List.length_pos_of_mem (a := event) (List.mem_filter.mpr ⟨?_, hfact⟩)
      exact List.mem_filter.mpr ⟨hmem, decide_eq_true hid⟩
    refine Or.inr ⟨_, (movesTold workOrderId (effect, save)).length - 1,
      moveTold_eq_some save hmoves hcarries, ?_⟩
    rw [Nat.sub_add_cancel hpos]
    exact List.eq_replicate_of_mem fun move hmove => (hall move hmove).1
  · refine Or.inl ⟨moveTold_eq_none save fun hmoves =>
      Bool.eq_false_iff.mpr fun hcarries => htold ⟨hmoves, hcarries⟩, ?_⟩
    rw [List.eq_nil_iff_forall_not_mem]
    exact fun move hmove => htold (hall move hmove).2

/-- The moves told by the rows of a log, in the order the rows were written. -/
theorem moves_writtenRows : ((((writtenRows log).filter fun row =>
      row.event.workOrderId = workOrderId).filter fun row =>
        !decide row.event.IsFact).map WrittenRow.move) =
    log.zipIdx.flatMap (movesTold workOrderId) := by
  rw [writtenRows, List.filter_flatMap, List.filter_flatMap, List.map_flatMap]
  refine List.flatMap_congr fun entry _ => ?_
  rw [List.filter_map, List.filter_map, List.map_map]
  rfl

/-- No two saves tell the same move. -/
theorem movesTold_chain :
    (log.zipIdx.filterMap (moveTold workOrderId)).IsChain (· ≠ ·) := by
  have hsaves : log.zipIdx.Pairwise fun left right => left.2 < right.2 := by
    rw [← List.pairwise_map, List.zipIdx_map_snd]
    exact List.pairwise_lt_range'
  refine (hsaves.filterMap _ ?_).isChain
  intro left right hlt move hmove other hother heq
  have hsave : ∀ {entry : SagaEffect × Nat} {move : TrailMove},
      moveTold workOrderId entry = some move → move.save = entry.2 := by
    intro entry move h
    rw [moveTold] at h
    split at h
    · cases h
      rfl
    · cases h
  have hsame := congrArg TrailMove.save heq
  rw [hsave hmove, hsave hother] at hsame
  exact absurd hsame hlt.ne

/-- Rows written in the order of their times replay to the moves of the saves
that carry theirs. -/
theorem replay_trailOf (hlog : ∀ effect ∈ log, effect.Traced)
    (hsorted : ((writtenRows log).filter fun row =>
      row.event.workOrderId = workOrderId).Pairwise fun left right =>
        left.event.occurredAt ≤ right.event.occurredAt) :
    replay (trailOf log workOrderId) =
      log.zipIdx.filterMap (moveTold workOrderId) := by
  rw [replay, trailOf, hsorted.insertionSort_eq, moves_writtenRows]
  refine destutter_flatMap (fun entry hentry => ?_) movesTold_chain
  exact (hlog entry.1 (List.fst_mem_of_mem_zipIdx hentry)).repeats entry.2

/-- The replayed moves lead as the saves do. -/
theorem walk_replay {first last : Option WorkOrderStatus} :
    Walk TrailMove.fromStatus TrailMove.toStatus first
        (log.zipIdx.filterMap (moveTold workOrderId)) last ↔
      Walk SagaEffect.fromStatus SagaEffect.toStatus first
        ((log.filter (SagaEffect.moves workOrderId)).filter SagaEffect.carries)
        last := by
  generalize 0 = start
  induction log generalizing first start with
  | nil => rfl
  | cons effect log ih =>
      rw [List.zipIdx_cons]
      by_cases hmoves : effect.moves workOrderId = true
      · rw [List.filter_cons_of_pos hmoves]
        by_cases hcarries : effect.carries = true
        · rw [List.filter_cons_of_pos hcarries, List.filterMap_cons_some
            (moveTold_eq_some start hmoves hcarries), walk_cons, walk_cons]
          exact and_congr_right fun _ => ih _
        · rw [List.filter_cons_of_neg hcarries, List.filterMap_cons_none
            (moveTold_eq_none start fun _ => Bool.eq_false_iff.mpr hcarries)]
          exact ih _
      · rw [List.filter_cons_of_neg hmoves, List.filterMap_cons_none
          (moveTold_eq_none start fun h => absurd h hmoves)]
        exact ih _

/-- A save that carries its move has it among the told ones. -/
theorem mem_moveTold (hmem : effect ∈ log) (hmoves : effect.moves workOrderId = true)
    (hcarries : effect.carries = true) :
    ∃ move ∈ log.zipIdx.filterMap (moveTold workOrderId),
      move.toStatus = effect.toStatus := by
  obtain ⟨index, hindex⟩ := List.mem_iff_getElem?.mp hmem
  refine ⟨_, List.mem_filterMap.mpr ⟨(effect, index),
    List.mem_zipIdx_iff_getElem?.mpr hindex,
    moveTold_eq_some index hmoves hcarries⟩, rfl⟩

end Rows

section Logs

variable {log : List SagaEffect} {workOrderId : WorkOrderId}

/-- The moves of a work order lead from its creation to where the last save left
it, and pass through every status that was saved. -/
structure MovesFollow (log : List SagaEffect) (workOrderId : WorkOrderId) : Prop where
  walk : Walk SagaEffect.fromStatus SagaEffect.toStatus none
    (log.filter (SagaEffect.moves workOrderId))
    ((lastSaved workOrderId log).map fun workOrder => workOrder.status)
  passed : ∀ effect ∈ log, ∀ workOrder, effect.saves = some workOrder →
    workOrder.id = workOrderId →
      ∃ move ∈ log.filter (SagaEffect.moves workOrderId),
        move.toStatus = some workOrder.status

/-- The rows of a log replay exactly when every move is carried. -/
theorem trailReplays_iff {current : WorkOrder}
    (hlog : ∀ effect ∈ log, effect.Performed) (hfollow : MovesFollow log workOrderId)
    (hsorted : ((writtenRows log).filter fun row =>
      row.event.workOrderId = workOrderId).Pairwise fun left right =>
        left.event.occurredAt ≤ right.event.occurredAt)
    (hlast : lastSaved workOrderId log = some current) :
    TrailReplays log workOrderId current.status ↔
      ∀ edit, .saved edit ∈ log → edit.changed.id = workOrderId → ∀ input,
        ¬ Runs (WorkOrder.submitSupplementaryBudget input) edit.loaded ()
          edit.changed := by
  have htraced : ∀ effect ∈ log, effect.Traced := fun effect heffect =>
    traced_of_performed (hlog effect heffect)
  have hreplay := replay_trailOf htraced hsorted
  have hwalk := hfollow.walk
  rw [hlast, Option.map_some] at hwalk
  have hhidden : ∀ effect ∈ log.filter (SagaEffect.moves workOrderId),
      effect.carries = false → effect.fromStatus = some .inExecution ∧
        effect.toStatus = some .awaitingApproval ∧
        ∃ edit input, effect = .saved edit ∧ edit.changed.id = workOrderId ∧
          Runs (WorkOrder.submitSupplementaryBudget input) edit.loaded ()
            edit.changed := by
    intro effect heffect hnothing
    obtain ⟨hmem, hmoves⟩ := List.mem_filter.mp heffect
    obtain ⟨⟨workOrder, hsaves, hid⟩, hne⟩ := SagaEffect.moves_iff.mp hmoves
    obtain ⟨hfrom, hto, edit, input, rfl, hsubmits⟩ :=
      (htraced effect hmem).hidden workOrder hsaves hne hnothing
    cases hsaves
    exact ⟨hfrom, hto, edit, input, rfl, hid, hsubmits⟩
  have hiff := walk_filter_iff hwalk fun left hleft right hright hleftHidden
      hrightHidden => by
    rw [(hhidden left hleft hleftHidden).2.1, (hhidden right hright hrightHidden).1]
    exact nofun
  constructor
  · intro hreplays edit hedit hid input hsubmits
    obtain ⟨-, operation, hnone, -, -⟩ := hlog _ hedit
    obtain ⟨hfrom, hto, hnothing⟩ := submits_hides hnone hsubmits
    have hmoves : (SagaEffect.saved edit).moves workOrderId = true := by
      refine SagaEffect.moves_iff.mpr ⟨⟨_, rfl, hid⟩, ?_⟩
      simp [SagaEffect.fromStatus, SagaEffect.toStatus, SagaEffect.saves, hfrom, hto]
    have hcarries := hiff.mp (walk_replay.mp (hreplay ▸ hreplays.walk)) _
      (List.mem_filter.mpr ⟨hedit, hmoves⟩)
    rw [hnothing] at hcarries
    cases hcarries
  · intro hnone
    have hcarries : ∀ effect ∈ log.filter (SagaEffect.moves workOrderId),
        effect.carries = true := by
      intro effect heffect
      by_contra hnothing
      obtain ⟨-, -, edit, input, rfl, hid, hsubmits⟩ :=
        hhidden effect heffect (Bool.eq_false_iff.mpr hnothing)
      exact hnone edit (List.mem_filter.mp heffect).1 hid input hsubmits
    refine ⟨?_, fun effect heffect workOrder hsaves hid => ?_⟩
    · rw [hreplay]
      exact walk_replay.mpr (hiff.mpr hcarries)
    · obtain ⟨move, hmove, hto⟩ := hfollow.passed effect heffect workOrder hsaves hid
      obtain ⟨hmem, hmoves⟩ := List.mem_filter.mp hmove
      rw [hreplay, ← hto]
      exact mem_moveTold hmem hmoves (hcarries move hmove)

theorem trail_of_saves_none {effect : SagaEffect} (h : effect.saves = none) :
    effect.trail = [] := by
  rw [SagaEffect.trail, h]

/-- Effects that are no save move nothing. -/
theorem MovesFollow.quiet {effects : List SagaEffect} (h : MovesFollow log workOrderId)
    (hsaved : ∀ edit, .saved edit ∉ effects)
    (hcreated : ∀ workOrder, .created workOrder ∉ effects) :
    MovesFollow (log ++ effects) workOrderId := by
  have hnone := saves_none hsaved hcreated
  have hmoves : effects.filter (SagaEffect.moves workOrderId) = [] := by
    rw [List.filter_eq_nil_iff]
    intro effect heffect hmove
    obtain ⟨⟨workOrder, hsaves, -⟩, -⟩ := SagaEffect.moves_iff.mp hmove
    rw [hnone effect heffect] at hsaves
    cases hsaves
  constructor
  · rw [List.filter_append, hmoves, List.append_nil,
      lastSaved_append_quiet hsaved hcreated]
    exact h.walk
  · intro effect heffect workOrder hsaves hid
    rw [List.filter_append, hmoves, List.append_nil]
    rcases List.mem_append.mp heffect with hold | hnew
    · exact h.passed effect hold workOrder hsaves hid
    · rw [hnone effect hnew] at hsaves
      cases hsaves

/-- A save leaves the status it saved. -/
theorem leaves_status {effect : SagaEffect} {workOrder : WorkOrder}
    (hsaves : effect.saves = some workOrder) (last : Option WorkOrder) :
    ((effect.leaves workOrderId last).map fun workOrder => workOrder.status) =
      if workOrder.id = workOrderId then some workOrder.status
      else last.map fun workOrder => workOrder.status := by
  cases effect with
  | created other =>
      cases hsaves
      rw [SagaEffect.leaves]
      split <;> rfl
  | saved edit =>
      cases hsaves
      rw [SagaEffect.leaves]
      split <;> rfl
  | _ => cases hsaves

/-- A save that starts where the last one left the work order goes on from
there. -/
theorem MovesFollow.saved {effect : SagaEffect} {workOrder : WorkOrder}
    (h : MovesFollow log workOrderId) (hsaves : effect.saves = some workOrder)
    (hfrom : workOrder.id = workOrderId → effect.fromStatus =
      (lastSaved workOrderId log).map fun workOrder => workOrder.status) :
    MovesFollow (log ++ [effect]) workOrderId := by
  have hto : effect.toStatus = some workOrder.status := by
    rw [SagaEffect.toStatus, hsaves, Option.map_some]
  have hlast : ((lastSaved workOrderId (log ++ [effect])).map
      fun workOrder => workOrder.status) =
      if workOrder.id = workOrderId then some workOrder.status
      else (lastSaved workOrderId log).map fun workOrder => workOrder.status := by
    rw [lastSaved_append, List.foldl_cons, List.foldl_nil, leaves_status hsaves]
  have hwalk : Walk SagaEffect.fromStatus SagaEffect.toStatus none
      ((log ++ [effect]).filter (SagaEffect.moves workOrderId))
      ((lastSaved workOrderId (log ++ [effect])).map
        fun workOrder => workOrder.status) := by
    rw [hlast, List.filter_append, List.filter_singleton]
    by_cases hself : workOrder.id = workOrderId
    · rw [if_pos hself]
      have hwalk := h.walk
      rw [← hfrom hself] at hwalk
      by_cases hsame : effect.fromStatus = effect.toStatus
      · have hstays : effect.moves workOrderId = false :=
          Bool.eq_false_iff.mpr fun hmoves =>
            (SagaEffect.moves_iff.mp hmoves).2 hsame
        rw [hstays, cond_false, List.append_nil, ← hto, ← hsame]
        exact hwalk
      · rw [SagaEffect.moves_iff.mpr ⟨⟨workOrder, hsaves, hself⟩, hsame⟩, cond_true,
          walk_concat]
        exact ⟨hwalk, hto⟩
    · rw [if_neg hself]
      have hother : effect.moves workOrderId = false := by
        refine Bool.eq_false_iff.mpr fun hmoves => ?_
        obtain ⟨⟨other, hother, hid⟩, -⟩ := SagaEffect.moves_iff.mp hmoves
        rw [hsaves, Option.some.injEq] at hother
        exact hself (hother ▸ hid)
      rw [hother, cond_false, List.append_nil]
      exact h.walk
  refine ⟨hwalk, fun saved hsaved other hother hid => ?_⟩
  rcases List.mem_append.mp hsaved with hold | hnew
  · obtain ⟨move, hmove, htarget⟩ := h.passed saved hold other hother hid
    rw [List.filter_append]
    exact ⟨move, List.mem_append_left _ hmove, htarget⟩
  · obtain rfl := List.mem_singleton.mp hnew
    rw [hsaves, Option.some.injEq] at hother
    subst hother
    rw [hlast, if_pos hid] at hwalk
    exact hwalk.exists_target nofun

end Logs

section Times

/-- The trail is what the saves wrote, and of each work order in the order of its
times. -/
structure TimesKept (tables : WorkOrderTables) (log : List SagaEffect) : Prop where
  written : tables.trail = log.flatMap SagaEffect.trail
  sorted : ∀ workOrderId, (tables.trail.filter fun event =>
    event.workOrderId = workOrderId).Pairwise fun left right =>
      left.occurredAt ≤ right.occurredAt
  known : ∀ event ∈ tables.trail,
    event.workOrderId ∈ tables.workOrders.map WorkOrderRow.id

/-- An edit of the stored version is no older than the trail. -/
def Edit.Timely (tables : WorkOrderTables) (edit : Edit) : Prop :=
  ∀ stored ∈ tables.workOrders, stored.id = edit.loaded.id →
    stored.version = edit.loaded.version →
      ∀ row ∈ tables.trail, row.workOrderId = edit.loaded.id →
        ∀ event ∈ edit.changed.trailEvents, row.occurredAt ≤ event.occurredAt

variable {tables tables' : WorkOrderTables} {log : List SagaEffect}
variable {workOrder : WorkOrder} {effect : SagaEffect} {edit : Edit}

theorem TimesKept.events (h : TimesKept tables log) :
    (writtenRows log).map WrittenRow.event = tables.trail := by
  have hevents : ∀ entry : SagaEffect × Nat,
      (entry.1.trail.map (WrittenRow.mk entry.2)).map WrittenRow.event =
        entry.1.trail := by
    intro entry
    rw [List.map_map]
    exact List.map_id _
  rw [h.written, writtenRows, List.map_flatMap]
  simp only [hevents]
  rw [← List.flatMap_map Prod.fst SagaEffect.trail, List.zipIdx_map_fst]

/-- The rows of a log, as `listTrail` gives them. -/
theorem TimesKept.listTrail (h : TimesKept tables log) (workOrderId : WorkOrderId) :
    (trailOf log workOrderId).map WrittenRow.event = tables.listTrail workOrderId := by
  rw [trailOf, WorkOrderTables.listTrail, ← h.events, List.filter_map]
  exact List.map_insertionSort _ _ _ _ fun _ _ _ _ => Iff.rfl

theorem TimesKept.writtenSorted (h : TimesKept tables log) (workOrderId : WorkOrderId) :
    ((writtenRows log).filter fun row =>
      row.event.workOrderId = workOrderId).Pairwise fun left right =>
        left.event.occurredAt ≤ right.event.occurredAt := by
  have hsorted := h.sorted workOrderId
  rw [← h.events, List.filter_map, List.pairwise_map] at hsorted
  exact hsorted

theorem TimesKept.quiet {effects : List SagaEffect} (h : TimesKept tables log)
    (hsaved : ∀ edit, .saved edit ∉ effects)
    (hcreated : ∀ workOrder, .created workOrder ∉ effects) :
    TimesKept tables (log ++ effects) := by
  refine ⟨?_, h.sorted, h.known⟩
  have hnone := saves_none hsaved hcreated
  rw [List.flatMap_append, List.flatMap_eq_nil_iff.mpr fun effect heffect =>
    trail_of_saves_none (hnone effect heffect), List.append_nil]
  exact h.written

/-- A save leaves a row of its work order and those of all others. -/
theorem mem_ids_save {workOrderId : WorkOrderId}
    (hsave : tables.save workOrder = .ok tables')
    (h : workOrderId = workOrder.id ∨
      workOrderId ∈ tables.workOrders.map WorkOrderRow.id) :
    workOrderId ∈ tables'.workOrders.map WorkOrderRow.id := by
  obtain ⟨workOrders, hwrite, hrows⟩ := WorkOrderTables.save_ok hsave
  rw [hrows]
  unfold WorkOrderTables.writeRow at hwrite
  split at hwrite
  · cases hwrite
    rw [List.map_append, List.mem_append]
    rcases h with rfl | h
    · exact Or.inr (List.mem_singleton_self _)
    · exact Or.inl h
  · rename_i existing hfind
    have hexisting : existing.id = workOrder.id := by
      simpa using List.find?_some hfind
    split at hwrite
    · cases hwrite
      obtain ⟨row, hrow, hid⟩ : ∃ row ∈ tables.workOrders, row.id = workOrderId := by
        rcases h with rfl | h
        · exact ⟨existing, List.mem_of_find?_eq_some hfind, hexisting⟩
        · exact List.mem_map.mp h
      rw [List.map_map]
      refine List.mem_map.mpr ⟨row, hrow, ?_⟩
      dsimp only [Function.comp]
      split
      · rename_i hself
        exact hself.symm.trans hid
      · exact hid
    · cases hwrite

/-- A save appends its rows after those of its work order. -/
theorem TimesKept.saved (h : TimesKept tables log) (htraced : effect.Traced)
    (hsaves : effect.saves = some workOrder)
    (hsave : tables.save workOrder = .ok tables')
    (htimely : ∀ row ∈ tables.trail, row.workOrderId = workOrder.id →
      ∀ event ∈ effect.trail, row.occurredAt ≤ event.occurredAt) :
    TimesKept tables' (log ++ [effect]) := by
  have hrows : effect.trail = workOrder.trailEvents := by
    rw [SagaEffect.trail, hsaves]
  have htrail : tables'.trail = tables.trail ++ effect.trail := by
    obtain ⟨workOrders, hwrite, htables⟩ := WorkOrderTables.save_ok hsave
    rw [htables, hrows]
  have howner : ∀ event ∈ effect.trail, event.workOrderId = workOrder.id := by
    intro event hevent
    obtain ⟨other, hother, hid⟩ := htraced.owned event hevent
    rw [hsaves, Option.some.injEq] at hother
    rw [hid, hother]
  refine ⟨?_, fun workOrderId => ?_, fun event hevent => ?_⟩
  · rw [htrail, h.written, List.flatMap_append, List.flatMap_singleton]
  · rw [htrail, List.filter_append, List.pairwise_append]
    refine ⟨h.sorted workOrderId, ?_, fun row hrow event hevent => ?_⟩
    · exact (List.pairwise_of_forall_mem_list fun event hevent other hother =>
        (htraced.sameTime event hevent other hother).le).sublist List.filter_sublist
    · obtain ⟨hrow, hid⟩ := List.mem_filter.mp hrow
      obtain ⟨hevent, hself⟩ := List.mem_filter.mp hevent
      refine htimely row hrow ?_ event hevent
      rw [← howner event hevent, of_decide_eq_true hself]
      exact of_decide_eq_true hid
  · rw [htrail] at hevent
    refine mem_ids_save hsave ?_
    rcases List.mem_append.mp hevent with hold | hnew
    · exact Or.inr (h.known event hold)
    · exact Or.inl (howner event hnew)

/-- An edit that is saved finds no row of its work order that is later. -/
theorem Edit.Timely.rows (h : edit.Timely tables)
    (hid : edit.changed.id = edit.loaded.id)
    (hversion : edit.changed.version = edit.loaded.version)
    (hloaded : LoadedAt tables edit.loaded)
    (hsave : tables.save edit.changed = .ok tables') :
    ∀ row ∈ tables.trail, row.workOrderId = edit.changed.id →
      ∀ event ∈ (SagaEffect.saved edit).trail, row.occurredAt ≤ event.occurredAt := by
  obtain ⟨state, hstate, -⟩ := hloaded
  obtain ⟨found, hfound, hfoundId, -⟩ :=
    WorkOrderTables.stateOf_eq_some_iff.mp hstate
  obtain ⟨hsame, -⟩ :=
    WorkOrderTables.version_save hsave hfound (hfoundId.trans hid.symm)
  intro row hrow howner event hevent
  exact h found hfound hfoundId (hsame.trans hversion) row hrow (howner.trans hid)
    event hevent

/-- Another save leaves an edit behind, or is of another work order. -/
theorem Edit.Timely.save (h : edit.Timely tables) (htraced : effect.Traced)
    (hsaves : effect.saves = some workOrder)
    (hloaded : LoadedAt tables edit.loaded)
    (hsave : tables.save workOrder = .ok tables') : edit.Timely tables' := by
  intro stored hstored hid hversion row hrow howner event hevent
  by_cases hself : edit.loaded.id = workOrder.id
  · -- The save moved the version on.
    obtain ⟨state, hstate, hread⟩ := hloaded
    obtain ⟨found, hfound, hfoundId, hsame⟩ :=
      WorkOrderTables.stateOf_eq_some_iff.mp hstate
    obtain ⟨-, row', hrow', hid', hversion'⟩ :=
      WorkOrderTables.version_save hsave hfound (hfoundId.trans hself)
    have hstoredRow : stored = row' :=
      List.inj_on_of_nodup_map tables'.constraints.uxExternalId hstored hrow'
        (hid.trans (hself.trans hid'.symm))
    have hle : edit.loaded.version ≤ found.version := by
      have hfoundVersion : state.version = found.version := by
        rw [← hsame]
        rfl
      rw [← hfoundVersion]
      exact hread.elim Nat.le_of_lt fun hsame => hsame.version.le
    rw [hstoredRow] at hversion
    omega
  · have hold : stored ∈ tables.workOrders :=
      (WorkOrderTables.mem_save_of_ne hsave (by rwa [hid])).mp hstored
    obtain ⟨workOrders, hwrite, htables⟩ := WorkOrderTables.save_ok hsave
    rw [htables] at hrow
    rcases List.mem_append.mp hrow with hrow | hnew
    · exact h stored hold hid hversion row hrow howner event hevent
    · obtain ⟨other, hother, hnewId⟩ := htraced.owned row (by
        rw [SagaEffect.trail, hsaves]
        exact hnew)
      rw [hsaves, Option.some.injEq] at hother
      exact absurd (howner.symm.trans (hother ▸ hnewId)) hself

end Times

section Runs

variable {settings : OutboxSettings} {config : Config WorkshopDb SagaPlace}
variable {log : List SagaEffect} {workOrderId : WorkOrderId}
variable {pid : Nat} {input : SagaInput} {out : SagaOutcome}

/-- In every run the moves of a work order lead from its creation to where the
last save left it. -/
theorem movesFollow_of_reaches (h : SagaReaches settings config log) :
    MovesFollow log workOrderId := by
  refine ReachesBy.invariant (P := fun _ log => MovesFollow log workOrderId)
    ⟨rfl, fun _ heffect => absurd heffect List.not_mem_nil⟩ ?_ h
  intro config log pid input out before hfollow _ hexec
  obtain ⟨hserial, hread⟩ := serial_of_reaches before
  have hplace := hread pid
  have hsaves : ∀ {edit rest}, out.effects = .saved edit :: rest →
      ∃ state, lastSaved edit.changed.id log = some state ∧
        SameState edit.loaded state := lastSaved_of_saves before hexec
  have hchange := (sagaMove_of_exec hexec).tables
  revert hchange hplace hsaves
  generalize out.store.tables = tables'
  generalize out.effects = effects
  generalize config.places pid = place
  intro hplace hsaves hchange
  have hedit : ∀ {edit : Edit} {rest : List SagaEffect}, effects = .saved edit :: rest →
      MovesFollow (log ++ [.saved edit]) workOrderId := by
    intro edit rest heffects
    refine hfollow.saved rfl fun hself => ?_
    obtain ⟨state, hlast, hsame⟩ := hsaves heffects
    rw [← hself, hlast, Option.map_some, ← hsame.status]
    rfl
  cases hchange with
  | same _ hsaved hcreated => exact hfollow.quiet hsaved hcreated
  | create workOrder _ hsave =>
      refine hfollow.saved rfl fun hself => ?_
      have hnone : config.store.tables.stateOf workOrder.id = none := hplace
      rw [← hself, right_eq_none_of_rel (hserial.last workOrder.id) hnone]
      rfl
  | save edit step _ hsave => exact hedit rfl
  | commit withdrawal _ hsave =>
      rw [← List.singleton_append, ← List.append_assoc]
      exact (hedit rfl).quiet (by simp) (by simp)

/-- A move saves what the operations of its request have performed, so what it
writes to the trail is traced to them. -/
theorem traced_of_exec (h : SagaReaches settings config log)
    (hexec : sagaExec settings config.store (config.places pid) input = some out)
    {effect : SagaEffect} (heffect : effect ∈ out.effects) : effect.Traced :=
  traced_of_performed ((performed_of_reaches
    (ReachesBy.turn pid input h trivial hexec)).1 effect
      (List.mem_append_right _ heffect))

/-- A move saves at most one work order, and its rows are no older than the trail
of that work order. -/
theorem TimesKept.of_exec (htimes : TimesKept config.store.tables log)
    (h : SagaReaches settings config log)
    (htimely : ∀ edit, (config.places pid).edit = some edit →
      edit.Timely config.store.tables)
    (hexec : sagaExec settings config.store (config.places pid) input = some out) :
    TimesKept out.store.tables (log ++ out.effects) := by
  have hread := (serial_of_reaches h).2 pid
  have hkept := fun edit (hedit : (config.places pid).edit = some edit) =>
    edit_of_reaches h hedit
  have htraced := fun effect (heffect : effect ∈ out.effects) =>
    traced_of_exec h hexec heffect
  have hchange := (sagaMove_of_exec hexec).tables
  revert hchange htimely hread hkept htraced
  generalize out.store.tables = tables'
  generalize out.effects = effects
  generalize config.places pid = place
  intro htimely hread hkept htraced hchange
  have hedit : ∀ {edit : Edit} {rest : List SagaEffect},
      effects = .saved edit :: rest → place.edit = some edit →
      config.store.tables.save edit.changed = .ok tables' →
      TimesKept tables' (log ++ [.saved edit]) := by
    intro edit rest heffects hedit hsave
    obtain ⟨hid, hversion, hloaded⟩ := hkept edit hedit
    refine htimes.saved (htraced _ ?_) rfl hsave
      ((htimely edit hedit).rows hid hversion hloaded hsave)
    rw [heffects]
    exact List.mem_cons_self
  cases hchange with
  | same _ hsaved hcreated => exact htimes.quiet hsaved hcreated
  | create workOrder _ hsave =>
      refine htimes.saved (htraced _ List.mem_cons_self) rfl hsave fun row hrow hid => ?_
      have hnone : config.store.tables.stateOf workOrder.id = none := hread
      have hknown := htimes.known row hrow
      rw [hid, ← WorkOrderTables.stateOf_isSome_iff, hnone] at hknown
      cases hknown
  | save edit step _ hsave => exact hedit rfl rfl hsave
  | commit withdrawal _ hsave =>
      rw [← List.singleton_append, ← List.append_assoc]
      exact (hedit rfl rfl hsave).quiet (by simp) (by simp)

/-- An edit is made at the clock of its request, which is not behind the trail. -/
theorem timely_of_exec
    (htimely : ∀ edit, (config.places pid).edit = some edit →
      edit.Timely config.store.tables)
    (hkept : ClockKept config.store (config.places pid) input)
    (hexec : sagaExec settings config.store (config.places pid) input = some out)
    {edit : Edit} (hedit : out.place.edit = some edit) :
    edit.Timely out.store.tables := by
  obtain ⟨htables, hold | hnew⟩ := (sagaMove_of_exec hexec).edit_cases hedit
  · rw [htables]
    exact htimely edit hold
  · obtain ⟨surroundings, request, row, services, parts, hplace, hinput, hloaded,
      hruns⟩ := hnew
    rw [hplace, hinput] at hkept
    have hid : edit.loaded.id = row.id := by rw [hloaded]; rfl
    have hnone : edit.loaded.domainEvents = [] := by rw [hloaded]; rfl
    rw [htables]
    intro stored _ _ _ written hwritten howner event hevent
    rw [(trailEvents_stamp hnone hruns event hevent).2, request.operation_now]
    exact hkept written hwritten (howner.trans hid)

/-- An edit that was loaded stays timely while another program saves. -/
theorem Edit.Timely.of_exec {edit : Edit} (htimely : edit.Timely config.store.tables)
    (h : SagaReaches settings config log)
    (hloaded : LoadedAt config.store.tables edit.loaded)
    (hexec : sagaExec settings config.store (config.places pid) input = some out) :
    edit.Timely out.store.tables := by
  have htraced := fun effect (heffect : effect ∈ out.effects) =>
    traced_of_exec h hexec heffect
  have hchange := (sagaMove_of_exec hexec).tables
  revert hchange htraced
  generalize out.store.tables = tables'
  generalize out.effects = effects
  generalize config.places pid = place
  intro htraced hchange
  cases hchange with
  | same => exact htimely
  | create workOrder _ hsave =>
      exact htimely.save (htraced _ List.mem_cons_self) rfl hloaded hsave
  | save edit step _ hsave =>
      exact htimely.save (htraced _ List.mem_cons_self) rfl hloaded hsave
  | commit withdrawal _ hsave =>
      exact htimely.save (htraced _ List.mem_cons_self) rfl hloaded hsave

/-- In every run whose requests read clocks that are not behind, the trail of
each work order is in the order of its times. -/
theorem times_of_reaches
    (h : ReachesBy (sagaExec settings) ClockKept emptyWorkshop config log) :
    TimesKept config.store.tables log ∧ ∀ pid edit,
      (config.places pid).edit = some edit → edit.Timely config.store.tables := by
  refine ReachesBy.invariant_of_places
    (G := fun (db : WorkshopDb) log => TimesKept db.tables log)
    (L := fun (db : WorkshopDb) _ (place : SagaPlace) => ∀ edit,
      place.edit = some edit → edit.Timely db.tables) ?_ ?_ ?_ ?_ h
  · exact ⟨rfl, fun _ => List.Pairwise.nil, fun _ hevent => absurd hevent List.not_mem_nil⟩
  · exact fun _ edit hedit => nomatch hedit
  · intro config log pid input out before htimes htimely hkept hexec
    exact ⟨htimes.of_exec before.reaches (htimely pid) hexec,
      fun _ hedit => timely_of_exec (htimely pid) hkept hexec hedit⟩
  · intro config log pid input out before _ htimely _ hexec other _ edit hedit
    exact (htimely other edit hedit).of_exec before.reaches
      (edit_of_reaches before.reaches hedit).2.2 hexec

/-- In every run whose requests read clocks that are not behind: the trail of a
work order, as `listTrail` gives it, leads from its creation through every status
that was saved to its current one exactly as long as no supplementary round was
submitted for it. -/
theorem trail_replays
    (h : ReachesBy (sagaExec settings) ClockKept emptyWorkshop config log)
    {workOrderId : WorkOrderId} {state : WorkOrder}
    (hstate : config.store.tables.stateOf workOrderId = some state) :
    (trailOf log workOrderId).map WrittenRow.event =
        config.store.tables.listTrail workOrderId ∧
      (TrailReplays log workOrderId state.status ↔
        ∀ edit, .saved edit ∈ log → edit.changed.id = workOrderId → ∀ input,
          ¬ Runs (WorkOrder.submitSupplementaryBudget input) edit.loaded ()
            edit.changed) := by
  obtain ⟨htimes, -⟩ := times_of_reaches h
  refine ⟨htimes.listTrail workOrderId, ?_⟩
  obtain ⟨last, hlast, hsame⟩ :=
    exists_right_of_rel ((serial_of_reaches h.reaches).1.last workOrderId) hstate
  rw [hsame.status]
  exact trailReplays_iff (performed_of_reaches h.reaches).1
    (movesFollow_of_reaches h.reaches) (htimes.writtenSorted workOrderId) hlast

end Runs

namespace TrailWitness

open SagaWitness (opened part plainRequest settings stocked)

/-- The same restriction, checked turn by turn. -/
def clockKept (db : WorkshopDb) : SagaPlace → SagaInput → Bool
  | .loadingBudgets _ row _ _, .proceed surroundings =>
      db.tables.trail.all fun event =>
        decide (event.workOrderId = row.id → event.occurredAt ≤ surroundings.now)
  | _, _ => true

theorem clockKept_of_check {db : WorkshopDb} {place : SagaPlace} {input : SagaInput}
    (h : clockKept db place input = true) : ClockKept db place input := by
  unfold clockKept at h
  unfold ClockKept
  split
  · exact fun event hevent => of_decide_eq_true (List.all_eq_true.mp h event hevent)
  · trivial

/-- Round one is rejected, quoted again and approved. -/
def approved : List (Nat × SagaInput) :=
  stocked ++ opened [part] ++ plainRequest 1 10 (.startDiagnosis 7) ++
    plainRequest 2 11 (.completeDiagnosis 7) ++
    plainRequest 1 12 (.rejectBudget 7 none) ++
    plainRequest 2 13 (.completeDiagnosis 7) ++
    plainRequest 1 14 (.approveBudget 7 none)

def executing : Config WorkshopDb SagaPlace × List SagaEffect :=
  endOfRun (sagaExec settings) emptyWorkshop approved (by decide +kernel)

theorem reaches_executing : ReachesBy (sagaExec settings) ClockKept emptyWorkshop
    executing.1 executing.2 :=
  reachesBy_endOfRun clockKept clockKept_of_check (by decide +kernel) _

theorem trail_replays_executing : ∃ state,
    executing.1.store.tables.stateOf 2 = some state ∧ state.status = .inExecution ∧
      ((trailOf executing.2 2).map WrittenRow.event =
          executing.1.store.tables.listTrail 2 ∧
        (TrailReplays executing.2 2 state.status ↔
          ∀ edit, .saved edit ∈ executing.2 → edit.changed.id = 2 → ∀ input,
            ¬ Runs (WorkOrder.submitSupplementaryBudget input) edit.loaded ()
              edit.changed)) := by
  have hstatus : (executing.1.store.tables.stateOf 2).map
      (fun workOrder => workOrder.status) = some .inExecution := by decide +kernel
  obtain ⟨state, hstate, hstatus⟩ := Option.map_eq_some_iff.mp hstatus
  exact ⟨state, hstate, hstatus, trail_replays reaches_executing hstate⟩

/-- Then a supplementary round is submitted. -/
def submitted : Config WorkshopDb SagaPlace × List SagaEffect :=
  endOfRun (sagaExec settings) emptyWorkshop
    (approved ++ plainRequest 2 15 (.planPart part 7) ++
      plainRequest 1 16 (.submitSupplementaryBudget 7)) (by decide +kernel)

theorem reaches_submitted : ReachesBy (sagaExec settings) ClockKept emptyWorkshop
    submitted.1 submitted.2 :=
  reachesBy_endOfRun clockKept clockKept_of_check (by decide +kernel) _

theorem submitted_strays : ¬ Walk TrailMove.fromStatus TrailMove.toStatus none
    (replay (trailOf submitted.2 2)) (some .awaitingApproval) := by
  decide +kernel

theorem trail_not_always_replays : ¬ ∀ config log,
    ReachesBy (sagaExec settings) ClockKept emptyWorkshop config log →
      ∀ workOrderId state, config.store.tables.stateOf workOrderId = some state →
        TrailReplays log workOrderId state.status := by
  intro hall
  have hstatus : (submitted.1.store.tables.stateOf 2).map
      (fun workOrder => workOrder.status) = some .awaitingApproval := by decide +kernel
  obtain ⟨state, hstate, hstatus⟩ := Option.map_eq_some_iff.mp hstatus
  obtain ⟨hwalk, -⟩ := hall _ _ reaches_submitted 2 state hstate
  rw [hstatus] at hwalk
  exact submitted_strays hwalk

end TrailWitness

end WorkOrders

end Workshop
