/-
The claims of the steps.  A claim raises the number of attempts of its step, so the number
tells the claims of a step apart; and it puts the step's due time at the end of a lease.
-/
import Workshop.WorkOrders.ClockedSaga
import Workshop.WorkOrders.UndoSteps

namespace Workshop

namespace WorkOrders

open Inventory

/-- The steps an applier holds, each under the number its claim gave it. -/
def SagaPlace.claims : SagaPlace → List ClaimedStockStep
  | .undoing (.application step queue) _ | .completing (.application step queue)
  | .applying step queue | .closing step queue _ _ | .failing step queue _ =>
      step :: queue
  | _ => []

/-- How often a step was claimed. -/
def claimsOf (operationId : OperationId) (log : List SagaEffect) : Nat :=
  log.count (.claimed operationId)

/-- A row of the outbox before and after a move that claimed it so often.  A failure is
judged by the number of the claim that failed. -/
inductive RowUpdate (settings : OutboxSettings) (place : SagaPlace) (input : SagaInput)
    (row : StockStepRow) : Nat → StockStepRow → Prop
  | same : RowUpdate settings place input row 0 row
  | finish (now : Timestamp) (hopen : row.status.isOpen = true) :
      RowUpdate settings place input row 0
        { row with status := .done, completedAt := some now }
  | release (now : Timestamp) (harmed : row.status = .armed) :
      RowUpdate settings place input row 0 { row with status := .pending, dueAt := now }
  | claim (surroundings : Surroundings) (hinput : input = .proceed surroundings)
      (hopen : row.status.isOpen = true) (hdue : row.dueAt ≤ surroundings.now) :
      RowUpdate settings place input row 1 { row with
        status := .pending, attempts := row.attempts + 1
        dueAt := surroundings.now + milliseconds settings.graceSeconds }
  | recordFailure (step : ClaimedStockStep) (queue : List ClaimedStockStep)
      (error : String) (surroundings : Surroundings) (hinput : input = .proceed surroundings)
      (hplace : place = .failing step queue error)
      (hid : row.operationId = step.operationId) (hopen : row.status.isOpen = true)
      (hattempts : step.attempts < settings.maxAttempts) :
      RowUpdate settings place input row 0 { row with
        lastError := some error
        dueAt := surroundings.now + milliseconds (retryDelaySeconds step.attempts) }
  | markFailed (step : ClaimedStockStep) (queue : List ClaimedStockStep)
      (error : String) (surroundings : Surroundings) (hinput : input = .proceed surroundings)
      (hplace : place = .failing step queue error)
      (hid : row.operationId = step.operationId) (hopen : row.status.isOpen = true)
      (hattempts : settings.maxAttempts ≤ step.attempts) :
      RowUpdate settings place input row 0
        { row with status := .failed, lastError := some error }
  | retry (now : Timestamp) (hfailed : row.status = .failed) :
      RowUpdate settings place input row 0 { row with status := .pending, dueAt := now }

/-- The rows of the outbox before and after a move: each row that stood there, updated,
and after them what was recorded, which was never claimed. -/
def RowsUpdate (settings : OutboxSettings) (place : SagaPlace) (input : SagaInput)
    (effects : List SagaEffect) (steps steps' : List StockStepRow) : Prop :=
  ∃ kept added : List StockStepRow, steps' = kept ++ added ∧
    (∀ row ∈ added, row.attempts = 0 ∧ row.status.isOpen = true ∧
      ∀ old ∈ steps, old.operationId ≠ row.operationId) ∧
    List.Forall₂ (fun row row' =>
      RowUpdate settings place input row (claimsOf row.operationId effects) row') steps kept

section Updates

variable {settings : OutboxSettings} {place : SagaPlace} {input : SagaInput}
variable {effects : List SagaEffect} {steps steps' : List StockStepRow}
variable {row row' : StockStepRow}

theorem claimsOf_append (operationId : OperationId) (log effects : List SagaEffect) :
    claimsOf operationId (log ++ effects) =
      claimsOf operationId log + claimsOf operationId effects :=
  List.count_append

theorem claimsOf_eq_zero {operationId : OperationId}
    (h : .claimed operationId ∉ effects) : claimsOf operationId effects = 0 :=
  List.count_eq_zero.mpr h

/-- A move that claims nothing and updates rows one by one. -/
theorem RowsUpdate.of_map {change : StockStepRow → StockStepRow}
    (hquiet : ∀ operationId, .claimed operationId ∉ effects)
    (h : ∀ row ∈ steps, RowUpdate settings place input row 0 (change row)) :
    RowsUpdate settings place input effects steps (steps.map change) := by
  refine ⟨_, [], (List.append_nil _).symm, fun _ hrow => absurd hrow List.not_mem_nil,
    forall₂_map_self fun row hrow => ?_⟩
  rw [claimsOf_eq_zero (hquiet row.operationId)]
  exact h row hrow

theorem RowsUpdate.refl (hquiet : ∀ operationId, .claimed operationId ∉ effects) :
    RowsUpdate settings place input effects steps steps := by
  have h : RowsUpdate settings place input effects steps (steps.map id) :=
    .of_map hquiet fun _ _ => .same
  rwa [List.map_id] at h

theorem RowsUpdate.updateWhere {operationId : OperationId} {allowed : List StepStatus}
    {change : StockStepRow → StockStepRow}
    (hquiet : ∀ operationId, .claimed operationId ∉ effects)
    (h : ∀ row ∈ steps, row.operationId = operationId → row.status ∈ allowed →
      RowUpdate settings place input row 0 (change row)) :
    RowsUpdate settings place input effects steps
      (StockSteps.updateWhere steps operationId allowed change) := by
  apply RowsUpdate.of_map hquiet
  intro row hrow
  split
  · rename_i htest
    simp only [Bool.and_eq_true, decide_eq_true_eq] at htest
    exact h row hrow htest.1 htest.2
  · exact .same

/-- A new row goes to the end. -/
theorem RowsUpdate.insert {middle : List StockStepRow}
    (hupdate : RowsUpdate settings place input effects steps middle)
    (hsame : middle.map (fun row => row.operationId) =
      steps.map fun row => row.operationId)
    (hfresh : row.attempts = 0 ∧ row.status.isOpen = true)
    (hinsert : StockSteps.insert middle row = .ok steps') :
    RowsUpdate settings place input effects steps steps' := by
  obtain ⟨hnew, rfl⟩ := insert_ok hinsert
  obtain ⟨kept, added, rfl, hadded, hkept⟩ := hupdate
  refine ⟨kept, added ++ [row], List.append_assoc _ _ _, fun other hother => ?_, hkept⟩
  rcases List.mem_append.mp hother with hother | hother
  · exact hadded other hother
  · obtain rfl := List.mem_singleton.mp hother
    refine ⟨hfresh.1, hfresh.2, fun old hold heq => ?_⟩
    have hmem : other.operationId ∈ (kept ++ added).map fun row => row.operationId := by
      rw [hsame, ← heq]
      exact List.mem_map_of_mem hold
    obtain ⟨found, hfound, hid⟩ := List.mem_map.mp hmem
    exact hnew found hfound hid

/-- A claim claims every row it picked once. -/
theorem claimsOf_picked {picked : List StockStepRow}
    (hnodup : (picked.map fun row => row.operationId).Nodup) (operationId : OperationId) :
    claimsOf operationId (picked.map fun row => SagaEffect.claimed row.operationId) =
      if operationId ∈ picked.map fun row => row.operationId then 1 else 0 := by
  have hmap : (picked.map fun row => SagaEffect.claimed row.operationId) =
      (picked.map fun row => row.operationId).map SagaEffect.claimed := by
    rw [List.map_map]
    rfl
  have hinjective : Function.Injective SagaEffect.claimed :=
    fun left right heq => SagaEffect.claimed.inj heq
  rw [claimsOf, hmap, List.count_map_of_injective _ _ hinjective]
  exact List.Nodup.count hnodup

theorem RowsUpdate.markClaimed {picked : List StockStepRow} {surroundings : Surroundings}
    (hids : (steps.map fun row => row.operationId).Nodup)
    (hnodup : (picked.map fun row => row.operationId).Nodup)
    (hpicked : ∀ row ∈ picked, row ∈ steps ∧ row.status.isOpen = true ∧
      row.dueAt ≤ surroundings.now) :
    RowsUpdate settings place (.proceed surroundings)
      (picked.map fun row => SagaEffect.claimed row.operationId) steps
      (StockSteps.markClaimed steps picked
        (surroundings.now + milliseconds settings.graceSeconds)) := by
  refine ⟨_, [], (List.append_nil _).symm, fun _ hrow => absurd hrow List.not_mem_nil,
    forall₂_map_self fun row hrow => ?_⟩
  rw [claimsOf_picked hnodup]
  by_cases hmem : row.operationId ∈ picked.map fun row => row.operationId
  · rw [if_pos hmem, if_pos (decide_eq_true hmem)]
    obtain ⟨found, hfound, hid⟩ := List.mem_map.mp hmem
    obtain ⟨hold, hopen, hdue⟩ := hpicked found hfound
    obtain rfl : found = row := eq_of_operationId hids hold hrow hid
    exact .claim surroundings rfl hopen hdue
  · rw [if_neg hmem, if_neg (by simpa using hmem)]
    exact .same

end Updates

section Moves

variable {settings : OutboxSettings} {db : WorkshopDb} {place : SagaPlace}
variable {input : SagaInput} {out : SagaOutcome}

theorem dueRows_sublist {now : Timestamp} {ids : Option (List OperationId)}
    {rows : List StockStepRow} :
    ∀ {older : List StockStepRow}, (StockSteps.dueRows now ids older rows).Sublist rows := by
  induction rows with
  | nil => exact List.Sublist.refl _
  | cons row rows ih =>
      intro older
      rw [StockSteps.dueRows]
      split
      · exact ih.cons_cons row
      · exact ih.cons row

/-- A claim picks no row twice. -/
theorem pickedRows_nodup {steps : List StockStepRow} {now : Timestamp} {limit : Nat}
    {ids : Option (List OperationId)} {locked : List OperationId}
    (hids : (steps.map fun row => row.operationId).Nodup) :
    ((StockSteps.pickedRows steps now limit ids locked).map
      fun row => row.operationId).Nodup := by
  rw [StockSteps.pickedRows]
  refine List.Nodup.sublist ((List.take_sublist _ _).map _) ?_
  refine (((List.perm_insertionSort _ _).map _).nodup_iff).mpr ?_
  exact hids.sublist ((List.filter_sublist.trans dueRows_sublist).map _)

theorem map_operationId_updateWhere {steps : List StockStepRow} {operationId : OperationId}
    {allowed : List StepStatus} {change : StockStepRow → StockStepRow}
    (h : ∀ row, (change row).operationId = row.operationId) :
    (StockSteps.updateWhere steps operationId allowed change).map
      (fun row => row.operationId) = steps.map fun row => row.operationId := by
  rw [StockSteps.updateWhere, List.map_map]
  refine List.map_congr_left fun row _ => ?_
  rw [Function.comp_apply]
  split
  · exact h row
  · rfl

/-- What a move does to the rows of the outbox, claim by claim. -/
theorem SagaMove.updates (hmove : SagaMove settings db place input out)
    (hids : (db.steps.map fun row => row.operationId).Nodup) :
    RowsUpdate settings place input out.effects db.steps out.store.steps := by
  cases hmove with
  | retry operationId now =>
      apply RowsUpdate.updateWhere (by simp [stay])
      intro row _ _ hstatus
      exact .retry now (List.mem_singleton.mp hstatus)
  | saveStep surroundings edit step tables steps hsave hinsert =>
      exact RowsUpdate.insert (.refl (by simp)) rfl ⟨rfl, rfl⟩ hinsert
  | arm surroundings withdrawal dueAt steps hinsert =>
      exact RowsUpdate.insert (.refl (by simp [stay])) rfl ⟨rfl, rfl⟩ hinsert
  | commit surroundings withdrawal tables steps harmed hsave hinsert =>
      have hdisarm : RowsUpdate settings (.committing withdrawal) (.proceed surroundings)
          [.saved withdrawal.edit, .withdrawn withdrawal.undo.operationId] db.steps
          (StockSteps.disarm db.steps withdrawal.undo.operationId surroundings.now) := by
        apply RowsUpdate.updateWhere (by simp)
        intro row _ _ hstatus
        refine .finish surroundings.now ?_
        rw [List.mem_singleton.mp hstatus]
        rfl
      have hsame : (StockSteps.disarm db.steps withdrawal.undo.operationId
          surroundings.now).map (fun row => row.operationId) =
            db.steps.map fun row => row.operationId :=
        map_operationId_updateWhere fun _ => rfl
      exact hdisarm.insert hsame ⟨rfl, rfl⟩ hinsert
  | complete surroundings errand =>
      apply RowsUpdate.updateWhere (by simp [stay])
      intro row _ _ hstatus
      exact .finish surroundings.now (isOpen_of_mem hstatus)
  | release surroundings undo =>
      apply RowsUpdate.updateWhere (by simp [stay])
      intro row _ _ hstatus
      exact .release surroundings.now (List.mem_singleton.mp hstatus)
  | claim surroundings operationIds =>
      refine RowsUpdate.markClaimed hids (pickedRows_nodup hids) fun row hrow => ?_
      obtain ⟨before, after, hsteps, hopen, hdue, -⟩ := mem_pickedRows hrow
      exact ⟨by simp [hsteps], hopen, hdue⟩
  | recordError surroundings step queue error =>
      simp only [stay, WorkOrders.recordError]
      split
      · rename_i hlimit
        apply RowsUpdate.updateWhere (by simp)
        intro row _ hid hstatus
        exact .markFailed step queue error surroundings rfl rfl hid (isOpen_of_mem hstatus)
          hlimit
      · rename_i hlimit
        apply RowsUpdate.updateWhere (by simp)
        intro row _ hid hstatus
        exact .recordFailure step queue error surroundings rfl rfl hid
          (isOpen_of_mem hstatus) (Nat.lt_of_not_le hlimit)
  | findNothing surroundings errand hplace hnone =>
      cases errand <;> exact RowsUpdate.refl (by simp [Errand.nothingFound])
  | _ => exact RowsUpdate.refl (by simp [stay])

@[simp] theorem claims_nextApplication (queue : List ClaimedStockStep) :
    (nextApplication queue).claims = queue := by
  cases queue <;> rfl

@[simp] theorem claims_prepared (prepared : Prepared) : prepared.place.claims = [] := by
  cases prepared <;> rfl

@[simp] theorem claims_shelfPlace (next : StockPlace) : (shelfPlace next).claims = [] := by
  cases next <;> rfl

/-- A claim answers its rows under the next number of each. -/
theorem attempts_claimedSteps {picked : List StockStepRow}
    {order : RowOrder ClaimedStockStep} {step : ClaimedStockStep}
    (h : step ∈ StockSteps.claimedSteps picked order) :
    ∃ row ∈ picked, row.operationId = step.operationId ∧
      step.attempts = row.attempts + 1 := by
  rw [StockSteps.claimedSteps, (order.perm _).mem_iff] at h
  obtain ⟨row, hrow, rfl⟩ := List.mem_map.mp h
  exact ⟨row, hrow, rfl, rfl⟩

theorem nodup_claimedSteps {picked : List StockStepRow}
    {order : RowOrder ClaimedStockStep}
    (hnodup : (picked.map fun row => row.operationId).Nodup) :
    ((StockSteps.claimedSteps picked order).map fun step => step.operationId).Nodup := by
  rw [StockSteps.claimedSteps, ((order.perm _).map _).nodup_iff, List.map_map]
  exact hnodup

/-- An applier goes on with claims it held, or takes those its claim handed out: each of
a row of its own, under the next number. -/
theorem SagaMove.holds (hmove : SagaMove settings db place input out)
    (hids : (db.steps.map fun row => row.operationId).Nodup) :
    out.place.claims.Sublist place.claims ∨
      (out.place.claims.map fun step => step.operationId).Nodup ∧
        ∀ step ∈ out.place.claims, .claimed step.operationId ∈ out.effects ∧
          ∃ row ∈ db.steps, row.operationId = step.operationId ∧
            step.attempts = row.attempts + 1 := by
  cases hmove with
  | errandFails input errand error hplace =>
      cases errand with
      | compensation undo => exact Or.inl (List.nil_sublist _)
      | application held queue =>
          rcases hplace with ⟨named, rfl⟩ | rfl <;> exact Or.inl (List.Sublist.refl _)
  | stepFails input held queue error hplace =>
      rcases hplace with rfl | ⟨closure, candidates, rfl⟩ <;>
        exact Or.inl (List.Sublist.refl _)
  | readBudgets surroundings request row services parts =>
      rw [stay, claims_prepared]
      exact Or.inl (List.nil_sublist _)
  | shelfRead input nextId hle next hnext =>
      rw [stay, claims_shelfPlace]
      exact Or.inl (List.nil_sublist _)
  | findNothing surroundings errand hplace hnone =>
      cases hplace with
      | compensation undo => exact Or.inl (List.nil_sublist _)
      | application held queue hkind => exact Or.inl (List.Sublist.refl _)
  | nameItems surroundings errand named hplace hnamed =>
      cases hplace with
      | compensation undo => exact Or.inl (List.nil_sublist _)
      | application held queue hkind => exact Or.inl (List.Sublist.refl _)
  | undo surroundings errand named inventory hundo =>
      cases errand with
      | compensation undo => exact Or.inl (List.nil_sublist _)
      | application held queue => exact Or.inl (List.Sublist.refl _)
  | complete surroundings errand =>
      cases errand with
      | compensation undo => exact Or.inl (List.nil_sublist _)
      | application held queue =>
          rw [stay, Errand.afterwards, claims_nextApplication]
          exact Or.inl (List.sublist_cons_self _ _)
  | claim surroundings operationIds =>
      refine Or.inr ?_
      simp only [claimDue, claims_nextApplication]
      refine ⟨nodup_claimedSteps (pickedRows_nodup hids), fun step hstep => ?_⟩
      obtain ⟨row, hrow, hid, hattempts⟩ := attempts_claimedSteps hstep
      obtain ⟨before, after, hsteps, -, -, -⟩ := mem_pickedRows hrow
      rw [← hid]
      exact ⟨List.mem_map.mpr ⟨row, hrow, rfl⟩, row, by simp [hsteps], rfl, hattempts⟩
  | confirm => exact Or.inl (List.Sublist.refl _)
  | restore => exact Or.inl (List.Sublist.refl _)
  | pick => exact Or.inl (List.Sublist.refl _)
  | close => exact Or.inl (List.Sublist.refl _)
  | recordError surroundings held queue error =>
      rw [stay, claims_nextApplication]
      exact Or.inl (List.sublist_cons_self _ _)
  | _ => exact Or.inl (List.nil_sublist _)

end Moves

section Runs

variable {settings : OutboxSettings} {config : Config WorkshopDb SagaPlace}
variable {log : List SagaEffect} {pid : Nat} {input : SagaInput} {out : SagaOutcome}

/-- What the rows of the outbox say of the claims in the log. -/
structure AttemptsCounted (settings : OutboxSettings) (steps : List StockStepRow)
    (log : List SagaEffect) : Prop where
  counted : ∀ row ∈ steps, row.attempts = claimsOf row.operationId log
  failed : ∀ row ∈ steps, row.status = .failed →
    settings.maxAttempts ≤ row.attempts ∧ row.lastError.isSome

/-- The claims a program holds are of recorded steps, each under a number its step has
reached, and of a step of its own each. -/
structure SagaPlace.ClaimsKept (steps : List StockStepRow) (place : SagaPlace) : Prop where
  numbered : ∀ step ∈ place.claims, 1 ≤ step.attempts ∧ ∃ row ∈ steps,
    row.operationId = step.operationId ∧ step.attempts ≤ row.attempts
  distinct : (place.claims.map fun step => step.operationId).Nodup

theorem RowUpdate.operationId {place : SagaPlace} {input : SagaInput} {claims : Nat}
    {row row' : StockStepRow} (h : RowUpdate settings place input row claims row') :
    row'.operationId = row.operationId := by
  cases h <;> rfl

theorem RowUpdate.attempts {place : SagaPlace} {input : SagaInput} {claims : Nat}
    {row row' : StockStepRow} (h : RowUpdate settings place input row claims row') :
    row'.attempts = row.attempts + claims := by
  cases h <;> rfl

/-- A row is given up by a claim whose number reached the limit. -/
theorem RowUpdate.failed {place : SagaPlace} {input : SagaInput} {claims : Nat}
    {steps : List StockStepRow} {row row' : StockStepRow}
    (h : RowUpdate settings place input row claims row')
    (hids : (steps.map fun row => row.operationId).Nodup) (hrow : row ∈ steps)
    (hold : row.status = .failed → settings.maxAttempts ≤ row.attempts ∧ row.lastError.isSome)
    (hplace : place.ClaimsKept steps) (hfailed : row'.status = .failed) :
    settings.maxAttempts ≤ row'.attempts ∧ row'.lastError.isSome := by
  cases h with
  | same => exact hold hfailed
  | finish now hopen => cases hfailed
  | release now harmed => cases hfailed
  | claim surroundings hinput hopen hdue => cases hfailed
  | recordFailure step queue error surroundings hinput hfailing hid hopen hattempts =>
      change row.status = .failed at hfailed
      rw [hfailed] at hopen
      cases hopen
  | markFailed step queue error surroundings hinput hfailing hid hopen hattempts =>
      subst hfailing
      obtain ⟨-, other, hother, hsame, hle⟩ := hplace.numbered step List.mem_cons_self
      obtain rfl : other = row := eq_of_operationId hids hother hrow (hsame.trans hid.symm)
      exact ⟨hattempts.trans hle, rfl⟩
  | retry now hpending => cases hfailed

/-- Every row keeps its number or goes up. -/
theorem RowsUpdate.kept {place : SagaPlace} {input : SagaInput} {effects : List SagaEffect}
    {steps steps' : List StockStepRow} (h : RowsUpdate settings place input effects steps steps')
    {row : StockStepRow} (hrow : row ∈ steps) : ∃ row' ∈ steps',
      RowUpdate settings place input row (claimsOf row.operationId effects) row' := by
  obtain ⟨kept, added, rfl, -, hkept⟩ := h
  obtain ⟨row', hrow', hupdate⟩ := exists_right_of_forall₂ hkept hrow
  exact ⟨row', List.mem_append_left _ hrow', hupdate⟩

theorem SagaPlace.ClaimsKept.mono {place moved : SagaPlace} {input : SagaInput}
    {effects : List SagaEffect} {steps steps' : List StockStepRow}
    (h : place.ClaimsKept steps)
    (hsteps : RowsUpdate settings moved input effects steps steps') :
    place.ClaimsKept steps' where
  numbered := fun step hstep => by
    obtain ⟨hpositive, row, hrow, hid, hle⟩ := h.numbered step hstep
    obtain ⟨row', hrow', hupdate⟩ := hsteps.kept hrow
    refine ⟨hpositive, row', hrow', hupdate.operationId.trans hid, ?_⟩
    rw [hupdate.attempts]
    exact Nat.le_add_right_of_le hle
  distinct := h.distinct

/-- A claim adds one to its row, and a row that is added was never claimed. -/
theorem AttemptsCounted.of_exec (hcounted : AttemptsCounted settings config.store.steps log)
    (h : SagaReaches settings config log)
    (hkept : (config.places pid).ClaimsKept config.store.steps)
    (hexec : sagaExec settings config.store (config.places pid) input = some out) :
    AttemptsCounted settings out.store.steps (log ++ out.effects) := by
  have houtbox := (outbox_of_reaches h).1
  have hmove := sagaMove_of_exec hexec
  obtain ⟨kept, added, hrows, hadded, hupdates⟩ := hmove.updates houtbox.ids
  constructor
  · intro row hrow
    rw [hrows] at hrow
    rw [claimsOf_append]
    rcases List.mem_append.mp hrow with hrow | hrow
    · obtain ⟨old, hold, hupdate⟩ := exists_left_of_forall₂ hupdates hrow
      rw [hupdate.attempts, hupdate.operationId, hcounted.counted old hold]
    · obtain ⟨hzero, -, hnew⟩ := hadded row hrow
      have hunclaimed : .claimed row.operationId ∉ log := by
        intro hclaimed
        obtain ⟨old, hold, hid, -⟩ := houtbox.claimed _ hclaimed
        exact hnew old hold hid
      have hunclaimed' : .claimed row.operationId ∉ out.effects := by
        intro hclaimed
        obtain ⟨⟨before, old, after, hsplit, hid, -⟩, -⟩ := hmove.claims hclaimed
        exact hnew old (by simp [hsplit]) hid
      rw [hzero, claimsOf_eq_zero hunclaimed, claimsOf_eq_zero hunclaimed']
  · intro row hrow hfailed
    rw [hrows] at hrow
    rcases List.mem_append.mp hrow with hrow | hrow
    · obtain ⟨old, hold, hupdate⟩ := exists_left_of_forall₂ hupdates hrow
      exact hupdate.failed houtbox.ids hold (hcounted.failed old hold) hkept hfailed
    · obtain ⟨-, hopen, -⟩ := hadded row hrow
      rw [hfailed] at hopen
      cases hopen

/-- A program drops claims it held, or takes claims that are numbered by their rows. -/
theorem SagaPlace.ClaimsKept.of_exec
    (hplace : (config.places pid).ClaimsKept config.store.steps)
    (h : SagaReaches settings config log)
    (hexec : sagaExec settings config.store (config.places pid) input = some out) :
    out.place.ClaimsKept out.store.steps := by
  have houtbox := (outbox_of_reaches h).1
  have hmove := sagaMove_of_exec hexec
  have hsteps := hmove.updates houtbox.ids
  rcases hmove.holds houtbox.ids with hsub | ⟨hnodup, hnew⟩
  · have hkept := hplace.mono hsteps
    exact ⟨fun step hstep => hkept.numbered step (hsub.subset hstep),
      hkept.distinct.sublist (hsub.map _)⟩
  · refine ⟨fun step hstep => ?_, hnodup⟩
    obtain ⟨hclaimed, row, hrow, hid, hattempts⟩ := hnew step hstep
    obtain ⟨row', hrow', hupdate⟩ := hsteps.kept hrow
    refine ⟨by omega, row', hrow', hupdate.operationId.trans hid, ?_⟩
    have hpositive : 1 ≤ claimsOf row.operationId out.effects := by
      rw [hid]
      exact List.one_le_count_iff.mpr hclaimed
    have hcount := hupdate.attempts
    omega

/-- In every run each row counts the claims of its step, and the claims programs hold are
numbered by it. -/
theorem attempts_of_reaches (h : SagaReaches settings config log) :
    AttemptsCounted settings config.store.steps log ∧
      ∀ pid, (config.places pid).ClaimsKept config.store.steps := by
  refine ReachesBy.invariant_of_places
    (G := fun db log => AttemptsCounted settings db.steps log)
    (L := fun db _ place => place.ClaimsKept db.steps) ?_ ?_ ?_ ?_ h
  · exact ⟨fun _ hrow => absurd hrow List.not_mem_nil,
      fun _ hrow => absurd hrow List.not_mem_nil⟩
  · exact fun _ => ⟨fun _ hstep => absurd hstep List.not_mem_nil, List.nodup_nil⟩
  · intro config log pid input out before hcounted hkept _ hexec
    exact ⟨hcounted.of_exec before (hkept pid) hexec, (hkept pid).of_exec before hexec⟩
  · intro config log pid input out before _ hkept _ hexec other _
    exact (hkept other).mono
      ((sagaMove_of_exec hexec).updates (outbox_of_reaches before).1.ids)

/-- No two programs hold one claim of a step. -/
theorem claims_apart (h : SagaReaches settings config log) :
    ∀ pid other, other ≠ pid → ∀ step ∈ (config.places pid).claims,
      ∀ step' ∈ (config.places other).claims, step.operationId = step'.operationId →
        step.attempts ≠ step'.attempts := by
  refine ReachesBy.invariant_of_pairs
    (D := fun place place' => ∀ step ∈ place.claims, ∀ step' ∈ place'.claims,
      step.operationId = step'.operationId → step.attempts ≠ step'.attempts) ?_ ?_ ?_ h
  · exact fun hapart step hstep step' hstep' hid =>
      (hapart step' hstep' step hstep hid.symm).symm
  · exact fun _ _ step hstep => absurd hstep List.not_mem_nil
  · intro config log pid input out before hexec other _ hapart step hstep step' hstep' hid
    have hids := (outbox_of_reaches before).1.ids
    rcases (sagaMove_of_exec hexec).holds hids with hsub | ⟨-, hnew⟩
    · exact hapart step (hsub.subset hstep) step' hstep' hid
    · obtain ⟨-, row, hrow, hsame, hattempts⟩ := hnew step hstep
      obtain ⟨-, row', hrow', hsame', hle⟩ :=
        ((attempts_of_reaches before).2 other).numbered step' hstep'
      obtain rfl : row = row' :=
        eq_of_operationId hids hrow hrow' (hsame.trans (hid.trans hsame'.symm))
      omega

/-- In the run a claim of the step recorded its failure, under a number of its own that
had reached the limit. -/
def GivenUp (settings : OutboxSettings) (operationId : OperationId)
    (config : Config WorkshopDb SagaPlace) (log : List SagaEffect) : Prop :=
  ∃ (earlier : Config WorkshopDb SagaPlace) (first more : List SagaEffect) (pid : Nat)
    (step : ClaimedStockStep) (queue : List ClaimedStockStep) (error : String)
    (surroundings : Surroundings) (out : SagaOutcome),
    SagaReaches settings earlier first ∧
      earlier.places pid = .failing step queue error ∧
      step.operationId = operationId ∧ settings.maxAttempts ≤ step.attempts ∧
      sagaExec settings earlier.store (earlier.places pid) (.proceed surroundings) =
        some out ∧
      Reaches (sagaExec settings) (earlier.after pid out) config more ∧
      log = first ++ out.effects ++ more

/-- A run goes on after a step was given up. -/
theorem GivenUp.turn {operationId : OperationId}
    (h : GivenUp settings operationId config log)
    (hexec : sagaExec settings config.store (config.places pid) input = some out) :
    GivenUp settings operationId (config.after pid out) (log ++ out.effects) := by
  obtain ⟨earlier, first, more, mover, step, queue, error, surroundings, left, hearlier,
    hfailing, hid, hattempts, hfailed, hmore, rfl⟩ := h
  exact ⟨earlier, first, more ++ out.effects, mover, step, queue, error, surroundings, left,
    hearlier, hfailing, hid, hattempts, hfailed, .turn pid input hmore trivial hexec,
    List.append_assoc _ _ _⟩

/-- A row that a turn leaves failed was failed before, or is given up in this turn. -/
theorem RowUpdate.givenUp {claims : Nat} {row row' : StockStepRow}
    (before : SagaReaches settings config log)
    (hexec : sagaExec settings config.store (config.places pid) input = some out)
    (h : RowUpdate settings (config.places pid) input row claims row')
    (hold : row.status = .failed → GivenUp settings row.operationId config log)
    (hfailed : row'.status = .failed) :
    GivenUp settings row'.operationId (config.after pid out) (log ++ out.effects) := by
  cases h with
  | same => exact (hold hfailed).turn hexec
  | finish now hopen => cases hfailed
  | release now harmed => cases hfailed
  | claim surroundings hinput hopen hdue => cases hfailed
  | recordFailure step queue error surroundings hinput hplace hid hopen hattempts =>
      change row.status = .failed at hfailed
      rw [hfailed] at hopen
      cases hopen
  | markFailed step queue error surroundings hinput hplace hid hopen hattempts =>
      subst hinput
      exact ⟨config, log, [], pid, step, queue, error, surroundings, out, before, hplace,
        hid.symm, hattempts, hexec, .start, (List.append_nil _).symm⟩
  | retry now hpending => cases hfailed

/-- A step that is given up was so by a claim whose number reached the limit. -/
theorem givenUp_of_reaches (h : SagaReaches settings config log) :
    ∀ row ∈ config.store.steps, row.status = .failed →
      GivenUp settings row.operationId config log := by
  refine ReachesBy.invariant (P := fun config log => ∀ row ∈ config.store.steps,
    row.status = .failed → GivenUp settings row.operationId config log)
    (fun _ hrow => absurd hrow List.not_mem_nil) ?_ h
  intro config log pid input out before hgiven _ hexec row hrow hfailed
  obtain ⟨kept, added, hrows, hadded, hkept⟩ :=
    (sagaMove_of_exec hexec).updates (outbox_of_reaches before).1.ids
  rw [Config.after_store, hrows] at hrow
  rcases List.mem_append.mp hrow with hrow | hrow
  · obtain ⟨old, hold, hupdate⟩ := exists_left_of_forall₂ hkept hrow
    exact hupdate.givenUp before hexec (hgiven old hold) hfailed
  · obtain ⟨-, hopen, -⟩ := hadded row hrow
    rw [hfailed] at hopen
    cases hopen

/-- The claims of the outbox and of the programs. -/
structure ClaimsSound (settings : OutboxSettings) (config : Config WorkshopDb SagaPlace)
    (log : List SagaEffect) : Prop where
  counted : ∀ row ∈ config.store.steps, row.attempts = claimsOf row.operationId log
  failed : ∀ row ∈ config.store.steps, row.status = .failed →
    settings.maxAttempts ≤ row.attempts ∧ row.lastError.isSome ∧
      GivenUp settings row.operationId config log
  numbered : ∀ pid, ∀ step ∈ (config.places pid).claims,
    1 ≤ step.attempts ∧ step.attempts ≤ claimsOf step.operationId log
  apart : ∀ pid other, ∀ step ∈ (config.places pid).claims,
    ∀ step' ∈ (config.places other).claims, step.operationId = step'.operationId →
      step.attempts = step'.attempts → pid = other ∧ step = step'

/-- Whatever programs interleave, crash or fail, a row counts the claims of its step, a step
is given up only by a claim whose number reached the limit, and of two claims of one step
that programs hold at once each has a number of its own. -/
theorem claims_sound (h : SagaReaches settings config log) :
    ClaimsSound settings config log := by
  obtain ⟨hcounted, hplaces⟩ := attempts_of_reaches h
  refine ⟨hcounted.counted, fun row hrow hfailed => ?_, fun pid step hstep => ?_, ?_⟩
  · obtain ⟨hattempts, herror⟩ := hcounted.failed row hrow hfailed
    exact ⟨hattempts, herror, givenUp_of_reaches h row hrow hfailed⟩
  · obtain ⟨hpositive, row, hrow, hid, hle⟩ := (hplaces pid).numbered step hstep
    rw [← hid, ← hcounted.counted row hrow]
    exact ⟨hpositive, hle⟩
  · intro pid other step hstep step' hstep' hid hattempts
    by_cases hsame : other = pid
    · subst hsame
      exact ⟨rfl, List.inj_on_of_nodup_map (hplaces other).distinct hstep hstep' hid⟩
    · exact absurd hattempts (claims_apart h pid other hsame step hstep step' hstep' hid)

end Runs

/-- Whether a turn records a failure of this step. -/
def recordsFailure (operationId : OperationId) : SagaPlace → SagaInput → Bool
  | .failing step _ _, .proceed _ => step.operationId = operationId
  | _, _ => false

/-- The outbox while a step is under a lease: the step is recorded, and its row is done or
due at the end of the lease. -/
structure Leased (operationId : OperationId) (expiry : Timestamp)
    (steps : List StockStepRow) : Prop where
  recorded : ∃ row ∈ steps, row.operationId = operationId
  held : ∀ row ∈ steps, row.operationId = operationId →
    row.status = .done ∨ row.status = .pending ∧ expiry ≤ row.dueAt

section Leases

variable {settings : OutboxSettings} {place : SagaPlace} {input : SagaInput}
variable {row row' : StockStepRow} {claims : Nat} {effects : List SagaEffect}
variable {steps steps' : List StockStepRow} {operationId : OperationId}
variable {expiry : Timestamp}

/-- A claim takes a row that is due and leases it from its reading of the clock. -/
theorem RowUpdate.of_claimed (h : RowUpdate settings place input row claims row')
    (hclaimed : 0 < claims) : ∃ surroundings, input = .proceed surroundings ∧
      row.status.isOpen = true ∧ row.dueAt ≤ surroundings.now ∧ row'.status = .pending ∧
      row'.dueAt = surroundings.now + milliseconds settings.graceSeconds := by
  cases h with
  | claim surroundings hinput hopen hdue => exact ⟨surroundings, hinput, hopen, hdue, rfl, rfl⟩
  | _ => cases hclaimed

/-- A row under a lease is not claimed before its end, and only a recorded failure ends
the lease. -/
theorem RowUpdate.leased (h : RowUpdate settings place input row claims row')
    (hreading : ∀ read, input.reading = some read → read < expiry)
    (hquiet : recordsFailure row.operationId place input = false)
    (hrow : row.status = .done ∨ row.status = .pending ∧ expiry ≤ row.dueAt) :
    claims = 0 ∧ (row'.status = .done ∨ row'.status = .pending ∧ expiry ≤ row'.dueAt) := by
  have hunfailed : ∀ {step queue error} {surroundings : Surroundings},
      input = .proceed surroundings → place = .failing step queue error →
        row.operationId ≠ step.operationId := by
    rintro step queue error surroundings rfl rfl hid
    rw [hid] at hquiet
    exact of_decide_eq_false hquiet rfl
  cases h with
  | same => exact ⟨rfl, hrow⟩
  | finish now hopen => exact ⟨rfl, Or.inl rfl⟩
  | release now harmed =>
      rcases hrow with hdone | ⟨hpending, -⟩
      · rw [hdone] at harmed
        cases harmed
      · rw [hpending] at harmed
        cases harmed
  | claim surroundings hinput hopen hdue =>
      rcases hrow with hdone | ⟨-, hlease⟩
      · rw [hdone] at hopen
        cases hopen
      · have hbefore := hreading surroundings.now (by rw [hinput]; rfl)
        exact absurd (hlease.trans hdue) (Nat.not_le_of_lt hbefore)
  | recordFailure step queue error surroundings hinput hplace hid hopen hattempts =>
      exact absurd hid (hunfailed hinput hplace)
  | markFailed step queue error surroundings hinput hplace hid hopen hattempts =>
      exact absurd hid (hunfailed hinput hplace)
  | retry now hfailed =>
      rcases hrow with hdone | ⟨hpending, -⟩
      · rw [hdone] at hfailed
        cases hfailed
      · rw [hpending] at hfailed
        cases hfailed

/-- No move claims a step under a lease. -/
theorem RowsUpdate.leased (h : RowsUpdate settings place input effects steps steps')
    (hreading : ∀ read, input.reading = some read → read < expiry)
    (hquiet : recordsFailure operationId place input = false)
    (hleased : Leased operationId expiry steps) :
    Leased operationId expiry steps' ∧ .claimed operationId ∉ effects := by
  obtain ⟨old, hold, hid⟩ := hleased.recorded
  have hkeeps : ∀ {row row'}, row ∈ steps → row.operationId = operationId →
      RowUpdate settings place input row (claimsOf row.operationId effects) row' →
        claimsOf row.operationId effects = 0 ∧
          (row'.status = .done ∨ row'.status = .pending ∧ expiry ≤ row'.dueAt) :=
    fun hrow hself hupdate =>
      hupdate.leased hreading (hself.symm ▸ hquiet) (hleased.held _ hrow hself)
  obtain ⟨old', hold', hupdate⟩ := h.kept hold
  have hnone := (hkeeps hold hid hupdate).1
  rw [hid] at hnone
  refine ⟨⟨⟨old', hold', hupdate.operationId.trans hid⟩, fun row' hrow' hself => ?_⟩,
    List.count_eq_zero.mp hnone⟩
  obtain ⟨kept, added, rfl, hadded, hkept⟩ := h
  rcases List.mem_append.mp hrow' with hrow' | hrow'
  · obtain ⟨row, hrow, hchange⟩ := exists_left_of_forall₂ hkept hrow'
    exact (hkeeps hrow (hchange.operationId.symm.trans hself) hchange).2
  · exact absurd (hid.trans hself.symm) ((hadded row' hrow').2.2 old hold)

/-- A claim leases its step. -/
theorem RowsUpdate.leases (h : RowsUpdate settings place input effects steps steps')
    {now : Timestamp} (hreading : ∀ read, input.reading = some read → read = now)
    (hclaimed : .claimed operationId ∈ effects)
    (hrecorded : ∃ row ∈ steps, row.operationId = operationId) :
    Leased operationId (now + milliseconds settings.graceSeconds) steps' := by
  obtain ⟨old, hold, hid⟩ := hrecorded
  obtain ⟨old', hold', hupdate⟩ := h.kept hold
  refine ⟨⟨old', hold', hupdate.operationId.trans hid⟩, fun row' hrow' hself => ?_⟩
  obtain ⟨kept, added, rfl, hadded, hkept⟩ := h
  rcases List.mem_append.mp hrow' with hrow' | hrow'
  · obtain ⟨row, hrow, hchange⟩ := exists_left_of_forall₂ hkept hrow'
    have hsame : row.operationId = operationId := hchange.operationId.symm.trans hself
    obtain ⟨surroundings, rfl, -, -, hpending, hdue⟩ := hchange.of_claimed (by
      rw [hsame]
      exact List.count_pos_iff.mpr hclaimed)
    rw [hdue, hreading surroundings.now rfl]
    exact Or.inr ⟨hpending, le_refl _⟩
  · exact absurd (hid.trans hself.symm) ((hadded row' hrow').2.2 old hold)

/-- Whatever programs interleave, a step that was claimed is claimed by no one else before
its lease runs out, as long as no one records a failure of it. -/
theorem lease_is_exclusive {config last : Config WorkshopDb SagaPlace}
    {log more : List SagaEffect} {now later : Timestamp} {pid : Nat} {out : SagaOutcome}
    (h : SagaReachesAt settings config log now)
    (hreading : ∀ read, input.reading = some read → read = now)
    (hexec : sagaExec settings config.store (config.places pid) input = some out)
    (hclaimed : .claimed operationId ∈ out.effects)
    (hlater : ClockedReaches (sagaExec settings)
      (fun _ place input => recordsFailure operationId place input = false)
      SagaInput.reading (config.after pid out) now last more later)
    (hlease : later < now + milliseconds settings.graceSeconds) :
    .claimed operationId ∉ more ∧
      ∀ row ∈ last.store.steps, row.operationId = operationId →
        row.status = .done ∨ row.status = .pending ∧
          now + milliseconds settings.graceSeconds ≤ row.dueAt := by
  have hruns : SagaReaches settings (config.after pid out) (log ++ out.effects) :=
    .turn pid input h.reachesBy trivial hexec
  have hmove := sagaMove_of_exec hexec
  have hfirst : Leased operationId (now + milliseconds settings.graceSeconds)
      out.store.steps := by
    obtain ⟨⟨before, row, after, hsplit, hid, -⟩, -⟩ := hmove.claims hclaimed
    exact (hmove.updates (outbox_of_reaches h.reachesBy).1.ids).leases hreading hclaimed
      ⟨row, by simp [hsplit], hid⟩
  suffices hkept : Leased operationId (now + milliseconds settings.graceSeconds)
      last.store.steps ∧ .claimed operationId ∉ more from ⟨hkept.2, hkept.1.held⟩
  induction hlater with
  | start => exact ⟨hfirst, List.not_mem_nil⟩
  | wait _ hle ih => exact ih (hle.trans_lt hlease)
  | @turn middle more present other next out' before hquiet hread hturn ih =>
      obtain ⟨hleased, hnone⟩ := ih hlease
      have hreached : SagaReaches settings middle (log ++ out.effects ++ more) :=
        hruns.trans before.reachesBy.reaches
      have hsteps := (sagaMove_of_exec hturn).updates (outbox_of_reaches hreached).1.ids
      obtain ⟨hleased', hnone'⟩ := hsteps.leased
        (fun read hsome => by rw [hread read hsome]; exact hlease) hquiet hleased
      refine ⟨hleased', fun hmem => ?_⟩
      rcases List.mem_append.mp hmem with hmem | hmem
      · exact hnone hmem
      · exact hnone' hmem

end Leases

namespace SagaWitness

/-- The first claim of a confirmation fails, and another applier claims it again. -/
def claimedTwice : Config WorkshopDb SagaPlace × List SagaEffect :=
  endOfRun (sagaExec settings) emptyWorkshop
    (inExecution [part] ++ withdrawing 0 10 ++ proceed 0 3 11 ++
      [(0, .fail "down"), (0, .proceed { now := 12 }), (1, .applyDue),
        (1, .proceed { now := 2000 })]) (by decide +kernel)

theorem claims_sound_claimedTwice :
    (claimedTwice.1.places 1).claims.map (fun step => (step.operationId, step.attempts)) =
        [(11, 2)] ∧
      ClaimsSound settings claimedTwice.1 claimedTwice.2 :=
  ⟨by decide +kernel, claims_sound (reaches_endOfRun _)⟩

/-- A withdrawal is saved and its confirmation is next to be claimed. -/
def confirming : Config WorkshopDb SagaPlace × List SagaEffect :=
  endOfRun (sagaExec settings) emptyWorkshop
    (inExecution [part] ++ withdrawing 0 10 ++ proceed 0 2 11) (by decide +kernel)

theorem claims_confirming : (sagaExec settings confirming.1.store (confirming.1.places 0)
    (.proceed { now := 11 })).isSome := by
  decide +kernel

def confirmation : SagaOutcome :=
  (sagaExec settings confirming.1.store (confirming.1.places 0)
    (.proceed { now := 11 })).get claims_confirming

/-- The processor polls before the lease of the confirmation runs out. -/
def polled : Config WorkshopDb SagaPlace × List SagaEffect :=
  endOfRun (sagaExec settings) (confirming.1.after 0 confirmation)
    [(1, .applyDue), (1, .proceed { now := 20000 })] (by decide +kernel)

theorem lease_is_exclusive_polled : .claimed 11 ∈ confirmation.effects ∧
    .claimed 11 ∉ polled.2 := by
  have hconfirming : SagaReachesAt settings confirming.1 confirming.2 11 :=
    sagaReachesAt_endOfRun (by decide +kernel) _
  have hclaimed : .claimed 11 ∈ confirmation.effects := by decide +kernel
  have hpolled : ClockedReaches (sagaExec settings)
      (fun _ place input => recordsFailure 11 place input = false) SagaInput.reading
      (confirming.1.after 0 confirmation) 11 polled.1 polled.2 20000 :=
    clockedReaches_endOfRun (fun _ place input => !recordsFailure 11 place input)
      (fun hquiet => Bool.not_eq_true' _ ▸ hquiet) (by decide +kernel) (by decide +kernel) _
  refine ⟨hclaimed, (lease_is_exclusive hconfirming (fun read hread => ?_)
    (Option.some_get claims_confirming).symm hclaimed hpolled (by decide)).1⟩
  exact (Option.some.inj hread).symm

end SagaWitness

end WorkOrders

end Workshop
