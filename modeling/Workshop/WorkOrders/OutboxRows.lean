/-
The steps of the outbox along a run.  A recorded step keeps what it says, an
applier holds steps that were claimed, a claim comes in the order the steps of
a work order were recorded, and a step is done only by the request that armed
it or by an applier that applied it.
-/
import Workshop.WorkOrders.SerialSaves

namespace Workshop

namespace WorkOrders

open Inventory

/-- The undo step that the request of a program armed. -/
def SagaPlace.armed : SagaPlace → Option StockStep
  | .consuming withdrawal | .committing withdrawal => some withdrawal.undo
  | .compensating undo | .releasing undo
  | .undoing (.compensation undo) _ | .completing (.compensation undo) =>
      some undo
  | _ => none

/-- The steps an applier holds: the one it stands at and those it still has to
apply. -/
def SagaPlace.held : SagaPlace → List StockStep
  | .undoing (.application step queue) _ | .completing (.application step queue)
  | .applying step queue | .closing step queue _ _ | .failing step queue _ =>
      (step :: queue).map ClaimedStockStep.toStockStep
  | _ => []

/-- The outbox has a row for a step. -/
def Recorded (steps : List StockStepRow) (step : StockStep) : Prop :=
  ∃ row ∈ steps, row.toStockStep = step

section Rows

variable {place next : SagaPlace} {effects : List SagaEffect}
variable {steps steps' : List StockStepRow} {row row' : StockStepRow}
variable {step : StockStep}

theorem Recorded.eq_of_id (hids : (steps.map fun row => row.operationId).Nodup)
    {other : StockStep} (h : Recorded steps step) (hother : Recorded steps other)
    (hid : step.operationId = other.operationId) : step = other := by
  obtain ⟨row, hrow, rfl⟩ := h
  obtain ⟨row', hrow', rfl⟩ := hother
  rw [List.inj_on_of_nodup_map hids hrow hrow' hid]

theorem eq_of_operationId (hids : (steps.map fun row => row.operationId).Nodup)
    (hrow : row ∈ steps) (hrow' : row' ∈ steps)
    (hid : row.operationId = row'.operationId) : row = row' :=
  List.inj_on_of_nodup_map hids hrow hrow' hid

/-- A row of the outbox stood there before the move, or was added by it. -/
theorem StepsChange.mem (h : StepsChange place next effects steps steps')
    (hrow : row' ∈ steps') :
    (∃ row ∈ steps, RowChange place effects row row') ∨
      AddedStep place next effects (some row') := by
  obtain ⟨kept, added, rfl, hadded, hkept⟩ := h.rows
  rcases List.mem_append.mp hrow with hrow | hrow
  · exact Or.inl (exists_left_of_forall₂ hkept hrow)
  · rw [Option.mem_toList] at hrow
    exact Or.inr (hrow ▸ hadded)

theorem AddedStep.not_done
    (h : AddedStep place next effects (some row)) :
    row.status ≠ .done := by
  cases h <;> nofun

/-- Every row stays. -/
theorem StepsChange.kept (h : StepsChange place next effects steps steps')
    (hrow : row ∈ steps) : ∃ row' ∈ steps', RowChange place effects row row' := by
  obtain ⟨kept, added, rfl, -, hkept⟩ := h.rows
  obtain ⟨row', hrow', hchange⟩ := exists_right_of_forall₂ hkept hrow
  exact ⟨row', List.mem_append_left _ hrow', hchange⟩

theorem StepsChange.recorded (h : StepsChange place next effects steps steps')
    (hstep : Recorded steps step) : Recorded steps' step := by
  obtain ⟨row, hrow, rfl⟩ := hstep
  obtain ⟨row', hrow', hchange⟩ := h.kept hrow
  exact ⟨row', hrow', hchange.1⟩

/-- The rows before a row stood before it already; a row that was added is the
last one. -/
theorem StepsChange.split (h : StepsChange place next effects steps steps')
    {before' after' : List StockStepRow}
    (hsplit : steps' = before' ++ row' :: after') :
    (∃ before row after, steps = before ++ row :: after ∧
        RowChange place effects row row' ∧
        List.Forall₂ (RowChange place effects) before before') ∨
      AddedStep place next effects (some row') ∧
        List.Forall₂ (RowChange place effects) steps before' := by
  obtain ⟨kept, added, rfl, hadded, hkept⟩ := h.rows
  rcases List.append_eq_append_iff.mp hsplit with
    ⟨middle, rfl, hrest⟩ | ⟨middle, rfl, hrest⟩
  · cases added with
    | none => simp at hrest
    | some last =>
        cases middle with
        | nil =>
            rw [List.append_nil]
            exact Or.inr ⟨(List.cons.inj hrest).1 ▸ hadded, hkept⟩
        | cons head middle => simp at hrest
  · cases middle with
    | nil =>
        cases added with
        | none => simp at hrest
        | some last =>
            rw [List.append_nil] at hkept
            exact Or.inr ⟨(List.cons.inj hrest).1 ▸ hadded, hkept⟩
    | cons head middle =>
        obtain ⟨rfl, -⟩ := List.cons.inj hrest
        exact Or.inl (split_of_forall₂ hkept)

end Rows

section Moves

variable {settings : OutboxSettings} {db : WorkshopDb} {place : SagaPlace}
variable {input : SagaInput} {out : SagaOutcome}

@[simp] theorem held_nextApplication (queue : List ClaimedStockStep) :
    (nextApplication queue).held = queue.map ClaimedStockStep.toStockStep := by
  cases queue <;> rfl

@[simp] theorem armed_nextApplication (queue : List ClaimedStockStep) :
    (nextApplication queue).armed = none := by
  cases queue <;> rfl

@[simp] theorem held_prepared (prepared : Prepared) : prepared.place.held = [] := by
  cases prepared <;> rfl

@[simp] theorem armed_prepared (prepared : Prepared) :
    prepared.place.armed = none := by
  cases prepared <;> rfl

@[simp] theorem held_shelfPlace (next : StockPlace) : (shelfPlace next).held = [] := by
  cases next <;> rfl

@[simp] theorem armed_shelfPlace (next : StockPlace) :
    (shelfPlace next).armed = none := by
  cases next <;> rfl

/-- A claim hands out rows that are open, and a row that is no undo only when
no older step of its work order holds it. -/
theorem SagaMove.claims (hmove : SagaMove settings db place input out)
    {operationId : OperationId} (h : .claimed operationId ∈ out.effects) :
    (∃ before row after, db.steps = before ++ row :: after ∧
        row.operationId = operationId ∧ row.status.isOpen = true ∧
        (row.kind = .undoConsumption ∨ ∀ old ∈ before,
          StockSteps.holds row.workOrderId old = false)) ∧
      ∃ row' ∈ out.store.steps, row'.operationId = operationId ∧
        row'.status = .pending := by
  cases hmove with
  | claim surroundings operationIds =>
      obtain ⟨row, hrow, hid⟩ := List.mem_map.mp h
      have hid : row.operationId = operationId := by simpa using hid
      obtain ⟨before, after, hsteps, hopen, -, hholds⟩ := mem_pickedRows hrow
      refine ⟨⟨before, row, after, hsteps, hid, hopen, hholds⟩, ?_⟩
      refine ⟨_, List.mem_map.mpr ⟨row, by simp [hsteps], rfl⟩, ?_⟩
      rw [if_pos (decide_eq_true (List.mem_map_of_mem hrow))]
      exact ⟨hid, rfl⟩
  | findNothing surroundings errand hplace hnone =>
      cases errand <;> simp [Errand.nothingFound] at h
  | _ => simp [stay] at h

/-- An applier goes on with steps it held, or with steps it claimed. -/
theorem SagaMove.held (hmove : SagaMove settings db place input out)
    {step : StockStep} (h : step ∈ out.place.held) :
    step ∈ place.held ∨
      .claimed step.operationId ∈ out.effects ∧ Recorded db.steps step := by
  cases hmove with
  | errandFails input errand error hplace =>
      cases errand with
      | compensation undo => cases h
      | application held queue => rcases hplace with ⟨named, rfl⟩ | rfl <;> exact Or.inl h
  | stepFails input held queue error hplace =>
      rcases hplace with rfl | ⟨closure, candidates, rfl⟩ <;> exact Or.inl h
  | readBudgets surroundings request row services parts =>
      rw [stay, held_prepared] at h
      cases h
  | shelfRead input nextId hle next hnext =>
      rw [stay, held_shelfPlace] at h
      cases h
  | findNothing surroundings errand hplace hnone =>
      cases hplace with
      | compensation undo => cases h
      | application held queue hkind => exact Or.inl h
  | nameItems surroundings errand named hplace hnamed =>
      cases hplace with
      | compensation undo => cases h
      | application held queue hkind => exact Or.inl h
  | undo surroundings errand named inventory hundo =>
      cases errand with
      | compensation undo => cases h
      | application held queue => exact Or.inl h
  | complete surroundings errand =>
      cases errand with
      | compensation undo => cases h
      | application held queue =>
          rw [stay, Errand.afterwards, held_nextApplication] at h
          exact Or.inl (List.mem_cons_of_mem _ h)
  | claim surroundings operationIds =>
      refine Or.inr ?_
      simp only [claimDue, held_nextApplication] at h
      obtain ⟨claimed, hclaimed, rfl⟩ := List.mem_map.mp h
      obtain ⟨row, hrow, hstep⟩ := mem_claimedSteps hclaimed
      obtain ⟨before, after, hsteps, -, -, -⟩ := mem_pickedRows hrow
      rw [← hstep]
      exact ⟨List.mem_map.mpr ⟨row, hrow, rfl⟩, row, by simp [hsteps], rfl⟩
  | confirm => exact Or.inl h
  | restore => exact Or.inl h
  | pick => exact Or.inl h
  | close => exact Or.inl h
  | recordError surroundings held queue error =>
      rw [stay, held_nextApplication] at h
      exact Or.inl (List.mem_cons_of_mem _ h)
  | _ => cases h

/-- A program that armed an undo step keeps it until it ends, and it arms only
a step the outbox did not have. -/
theorem SagaMove.armed (hmove : SagaMove settings db place input out)
    {undo : StockStep} (h : out.place.armed = some undo) :
    place.armed = some undo ∨
      (∃ withdrawal, place = .arming withdrawal ∧
          out.place = .consuming withdrawal ∧ withdrawal.undo = undo) ∧
        (∀ row ∈ db.steps, row.operationId ≠ undo.operationId) ∧
        Recorded out.store.steps undo := by
  cases hmove with
  | giveUp input withdrawal hplace =>
      rcases hplace with rfl | rfl <;> exact Or.inl h
  | handOver input undo => exact Or.inl h
  | errandFails input errand error hplace =>
      cases errand with
      | compensation undo => rcases hplace with ⟨named, rfl⟩ | rfl <;> exact Or.inl h
      | application held queue => cases h
  | readBudgets surroundings request row services parts =>
      rw [stay, armed_prepared] at h
      cases h
  | shelfRead input nextId hle next hnext =>
      rw [stay, armed_shelfPlace] at h
      cases h
  | arm surroundings withdrawal dueAt steps hinsert =>
      cases h
      obtain ⟨hnew, rfl⟩ := insert_ok hinsert
      exact Or.inr ⟨⟨withdrawal, rfl, rfl, rfl⟩, hnew, _,
        List.mem_append_right _ List.mem_cons_self, rfl⟩
  | consume surroundings withdrawal inventory hconsume => exact Or.inl h
  | findNothing surroundings errand hplace hnone =>
      cases hplace with
      | compensation undo => exact Or.inl h
      | application held queue hkind => cases h
  | nameItems surroundings errand named hplace hnamed =>
      cases hplace with
      | compensation undo => exact Or.inl h
      | application held queue hkind => cases h
  | undo surroundings errand named inventory hundo =>
      cases errand with
      | compensation undo => exact Or.inl h
      | application held queue => cases h
  | complete surroundings errand =>
      cases errand with
      | compensation undo => cases h
      | application held queue =>
          rw [stay, Errand.afterwards, armed_nextApplication] at h
          cases h
  | claim surroundings operationIds =>
      simp only [claimDue, armed_nextApplication] at h
      cases h
  | recordError surroundings held queue error =>
      rw [stay, armed_nextApplication] at h
      cases h
  | _ => cases h

/-- A withdrawal commits from its own request, while its undo step is armed. -/
theorem SagaMove.withdraws (hmove : SagaMove settings db place input out)
    {operationId : OperationId} (h : .withdrawn operationId ∈ out.effects) :
    ∃ withdrawal now, place = .committing withdrawal ∧
      withdrawal.undo.operationId = operationId ∧
      StockSteps.isArmed db.steps operationId = true ∧
      out.place.armed = none ∧
      out.store.steps = StockSteps.disarm db.steps operationId now ++
        [withdrawal.confirmation.toRow .pending now now] := by
  cases hmove with
  | commit surroundings withdrawal tables steps harmed hsave hinsert =>
      have hid : operationId = withdrawal.undo.operationId := by simpa using h
      subst hid
      obtain ⟨-, rfl⟩ := insert_ok hinsert
      exact ⟨withdrawal, surroundings.now, rfl, rfl, harmed, rfl, rfl⟩
  | claim surroundings operationIds => simp [claimDue] at h
  | findNothing surroundings errand hplace hnone =>
      cases errand <;> simp [Errand.nothingFound] at h
  | _ => simp [stay] at h

end Moves

section Statuses

variable {place : SagaPlace} {effects : List SagaEffect} {step : StockStep}
variable {status : StepStatus}

/-- Nothing arms a step again. -/
theorem StatusChange.of_armed (h : StatusChange place effects step status .armed) :
    status = .armed := by
  cases h
  rfl

/-- A step that is done stays done. -/
theorem StatusChange.of_done (h : StatusChange place effects step .done status) :
    status = .done := by
  cases h with
  | same => rfl
  | complete => rfl
  | claim heffect hopen => cases hopen
  | fail failed queue error hplace hstep hopen => cases hopen

end Statuses

/-- The steps of the outbox have ids of their own, and none that was claimed is
armed. -/
structure OutboxSound (steps : List StockStepRow) (log : List SagaEffect) :
    Prop where
  ids : (steps.map fun row => row.operationId).Nodup
  claimed : ∀ operationId, .claimed operationId ∈ log →
    ∃ row ∈ steps, row.operationId = operationId ∧ row.status ≠ .armed

/-- The steps a program works on are in the outbox, and those an applier holds
were claimed. -/
structure SagaPlace.Works (steps : List StockStepRow) (log : List SagaEffect)
    (place : SagaPlace) : Prop where
  armed : ∀ undo, place.armed = some undo → Recorded steps undo
  held : ∀ step ∈ place.held, Recorded steps step
  claimed : ∀ step ∈ place.held, .claimed step.operationId ∈ log

section Runs

variable {settings : OutboxSettings} {config : Config WorkshopDb SagaPlace}
variable {log : List SagaEffect}

theorem SagaPlace.Works.mono {place moved next : SagaPlace}
    {effects : List SagaEffect} {steps steps' : List StockStepRow}
    (h : place.Works steps log)
    (hsteps : StepsChange moved next effects steps steps') :
    place.Works steps' (log ++ effects) where
  armed := fun undo hundo => hsteps.recorded (h.armed undo hundo)
  held := fun step hstep => hsteps.recorded (h.held step hstep)
  claimed := fun step hstep => List.mem_append_left _ (h.claimed step hstep)

theorem outbox_of_reaches (h : SagaReaches settings config log) :
    OutboxSound config.store.steps log ∧
      ∀ pid, (config.places pid).Works config.store.steps log := by
  refine ReachesBy.invariant_of_places
    (G := fun db log => OutboxSound db.steps log)
    (L := fun db log place => place.Works db.steps log) ?_ ?_ ?_ ?_ h
  · exact ⟨List.nodup_nil, fun _ hmem => absurd hmem List.not_mem_nil⟩
  · exact fun _ => ⟨nofun, fun _ hmem => absurd hmem List.not_mem_nil,
      fun _ hmem => absurd hmem List.not_mem_nil⟩
  · intro config log pid input out _ houtbox hplaces _ hexec
    have hmove := sagaMove_of_exec hexec
    have hsteps := hmove.steps houtbox.ids
    refine ⟨⟨hsteps.fresh houtbox.ids, ?_⟩, ?_⟩
    · intro operationId hclaimed
      rcases List.mem_append.mp hclaimed with hclaimed | hclaimed
      · obtain ⟨row, hrow, hid, hstatus⟩ := houtbox.claimed operationId hclaimed
        obtain ⟨row', hrow', hstep, hchange⟩ := hsteps.kept hrow
        refine ⟨row', hrow', ?_, fun harmed => hstatus ?_⟩
        · rw [← hid]
          exact congrArg StockStep.operationId hstep
        · rw [harmed] at hchange
          exact hchange.of_armed
      · obtain ⟨-, row', hrow', hid, hstatus⟩ := hmove.claims hclaimed
        exact ⟨row', hrow', hid, by rw [hstatus]; nofun⟩
    · have hworks := (hplaces pid).mono hsteps
      constructor
      · intro undo hundo
        rcases hmove.armed hundo with hundo | ⟨-, -, hrecorded⟩
        · exact hworks.armed undo hundo
        · exact hrecorded
      · intro step hstep
        rcases hmove.held hstep with hstep | ⟨-, hrecorded⟩
        · exact hworks.held step hstep
        · exact hsteps.recorded hrecorded
      · intro step hstep
        rcases hmove.held hstep with hstep | ⟨hclaimed, -⟩
        · exact hworks.claimed step hstep
        · exact List.mem_append_right _ hclaimed
  · intro config log pid input out _ houtbox hplaces _ hexec other _
    exact (hplaces other).mono ((sagaMove_of_exec hexec).steps houtbox.ids)

/-- What a move does to the outbox of a reachable state. -/
theorem steps_of_exec (h : SagaReaches settings config log) {pid : Nat}
    {input : SagaInput} {out : SagaOutcome}
    (hexec : sagaExec settings config.store (config.places pid) input = some out) :
    StepsChange (config.places pid) out.place out.effects config.store.steps
      out.store.steps :=
  (sagaMove_of_exec hexec).steps (outbox_of_reaches h).1.ids

/-- No two programs armed one undo step. -/
theorem armed_distinct (h : SagaReaches settings config log) :
    ∀ pid other, other ≠ pid → ∀ undo undo' : StockStep,
      (config.places pid).armed = some undo →
        (config.places other).armed = some undo' →
          undo.operationId ≠ undo'.operationId := by
  refine ReachesBy.invariant_of_pairs
    (D := fun place place' => ∀ undo undo' : StockStep,
      place.armed = some undo → place'.armed = some undo' →
        undo.operationId ≠ undo'.operationId) ?_ ?_ ?_ h
  · exact fun hne undo undo' hundo hundo' => (hne undo' undo hundo' hundo).symm
  · exact fun _ _ _ _ hundo => nomatch hundo
  · intro config log pid input out before hexec other _ hne undo undo' hundo hundo'
    rcases (sagaMove_of_exec hexec).armed hundo with hundo | ⟨-, hnew, -⟩
    · exact hne undo undo' hundo hundo'
    · obtain ⟨row, hrow, rfl⟩ :=
        ((outbox_of_reaches before).2 other).armed undo' hundo'
      exact (hnew row hrow).symm

end Runs

end WorkOrders

end Workshop
