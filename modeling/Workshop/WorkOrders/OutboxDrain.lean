/-
The outbox drains.  Whatever the requests and the other appliers left behind, a processor
that polls on its own completes every step, as long as no statement is failed from
outside, the stock fits its counts and the clock goes on.  Then inventory has out for each
work order what the work order says it withdrew.
-/
import Workshop.Library.Progress
import Workshop.WorkOrders.StepFaults

namespace Workshop

namespace WorkOrders

open Inventory

/-- What the processor does next: it polls when it is idle, and otherwise the statement it
stands at runs. -/
def processorInput (surroundings : Surroundings) : SagaPlace → SagaInput
  | .idle => .applyDue
  | _ => .proceed surroundings

/-- One statement of the processor. -/
def processorStep (settings : OutboxSettings) (pid : Nat) (surroundings : Surroundings)
    (config : Config WorkshopDb SagaPlace) : Config WorkshopDb SagaPlace :=
  match sagaExec settings config.store (config.places pid)
      (processorInput surroundings (config.places pid)) with
  | none => config
  | some out => config.after pid out

/-- The processor on its own: its statements one after another, each in surroundings of
its own. -/
def processorRun (settings : OutboxSettings) (pid : Nat) (surroundings : Nat → Surroundings)
    (config : Config WorkshopDb SagaPlace) : Nat → Config WorkshopDb SagaPlace
  | 0 => config
  | n + 1 => processorStep settings pid (surroundings n)
      (processorRun settings pid surroundings config n)

/-- The steps of the outbox that are not done. -/
def undoneSteps (steps : List StockStepRow) : Nat :=
  steps.countP fun row => row.status ≠ .done

section Counts

variable {steps : List StockStepRow}

theorem countP_lt_of_mem {α : Type} {p q : α → Bool} {l : List α}
    (h : ∀ a ∈ l, p a = true → q a = true) {a : α} (ha : a ∈ l) (hp : p a = false)
    (hq : q a = true) : l.countP p < l.countP q := by
  obtain ⟨front, back, rfl⟩ := List.append_of_mem ha
  have hfront : front.countP p ≤ front.countP q :=
    List.countP_mono_left fun b hb => h b (List.mem_append_left _ hb)
  have hback : back.countP p ≤ back.countP q :=
    List.countP_mono_left fun b hb =>
      h b (List.mem_append_right _ (List.mem_cons_of_mem a hb))
  rw [List.countP_append, List.countP_append, List.countP_cons, List.countP_cons,
    if_neg (by rw [hp]; exact Bool.false_ne_true), if_pos hq]
  omega

theorem undoneSteps_eq_zero : undoneSteps steps = 0 ↔ ∀ row ∈ steps, row.status = .done := by
  simp [undoneSteps, List.countP_eq_zero]

/-- Completing a step leaves no more steps undone. -/
theorem undoneSteps_complete_le (steps : List StockStepRow) (operationId : OperationId)
    (now : Timestamp) :
    undoneSteps (StockSteps.complete steps operationId now) ≤ undoneSteps steps := by
  rw [undoneSteps, StockSteps.complete, StockSteps.updateWhere, List.countP_map]
  refine List.countP_mono_left fun row _ hundone => ?_
  simp only [Function.comp_apply] at hundone
  split at hundone
  · simp at hundone
  · exact hundone

/-- Completing an open step leaves fewer steps undone. -/
theorem undoneSteps_complete_lt {row : StockStepRow} (hrow : row ∈ steps)
    (hopen : row.status = .armed ∨ row.status = .pending) (now : Timestamp) :
    undoneSteps (StockSteps.complete steps row.operationId now) < undoneSteps steps := by
  rw [undoneSteps, StockSteps.complete, StockSteps.updateWhere, List.countP_map]
  refine countP_lt_of_mem (fun other _ hundone => ?_) hrow ?_ ?_
  · simp only [Function.comp_apply] at hundone
    split at hundone
    · simp at hundone
    · exact hundone
  · simp [hopen]
  · rcases hopen with hopen | hopen <;> rw [hopen] <;> decide

/-- A claim picks open rows only, so it makes no step undone. -/
theorem undoneSteps_markClaimed_le {picked : List StockStepRow}
    (hids : (steps.map fun row => row.operationId).Nodup)
    (hpicked : ∀ row ∈ picked, row ∈ steps ∧ row.status.isOpen = true)
    (leaseUntil : Timestamp) :
    undoneSteps (StockSteps.markClaimed steps picked leaseUntil) ≤ undoneSteps steps := by
  rw [undoneSteps, StockSteps.markClaimed, List.countP_map]
  refine List.countP_mono_left fun row hrow hundone => ?_
  simp only [Function.comp_apply] at hundone
  split at hundone
  · rename_i htest
    obtain ⟨found, hfound, hid⟩ := List.mem_map.mp (of_decide_eq_true htest)
    obtain ⟨hmem, hopen⟩ := hpicked found hfound
    rw [eq_of_operationId hids hmem hrow hid] at hopen
    refine decide_eq_true fun hdone => ?_
    rw [hdone] at hopen
    cases hopen
  · exact hundone

end Counts

section Due

variable {now : Timestamp} {ids : Option (List OperationId)} {row : StockStepRow}

/-- A row that is due is among those a claim may pick. -/
theorem mem_dueRows_of_isDue {before after : List StockStepRow} :
    ∀ {older : List StockStepRow},
      StockSteps.isDue now ids (older ++ before) row = true →
      row ∈ StockSteps.dueRows now ids older (before ++ row :: after) := by
  induction before with
  | nil =>
      intro older hdue
      rw [List.append_nil] at hdue
      rw [List.nil_append, StockSteps.dueRows, if_pos hdue]
      exact List.mem_cons_self
  | cons head before ih =>
      intro older hdue
      have hrest : row ∈ StockSteps.dueRows now ids (older ++ [head])
          (before ++ row :: after) := ih (by simpa using hdue)
      rw [List.cons_append, StockSteps.dueRows]
      split
      · exact List.mem_cons_of_mem _ hrest
      · exact hrest

/-- Once every due time has passed, a claim finds the oldest step that is not done. -/
theorem pickedRows_ne_nil {steps : List StockStepRow} {limit : Nat} (hlimit : 0 < limit)
    (hunfailed : ∀ row ∈ steps, row.status ≠ .failed)
    (hdue : ∀ row ∈ steps, row.dueAt ≤ now) (hundone : 0 < undoneSteps steps) :
    StockSteps.pickedRows steps now limit none [] ≠ [] := by
  obtain ⟨left, hleft, hstatus⟩ := List.countP_pos_iff.mp hundone
  obtain ⟨row, hfind⟩ : ∃ row, (steps.find? fun row => row.status ≠ .done) = some row :=
    Option.isSome_iff_exists.mp (List.find?_isSome.mpr ⟨left, hleft, hstatus⟩)
  obtain ⟨hrow, before, after, rfl, hbefore⟩ := List.find?_eq_some_iff_append.mp hfind
  have hmem : row ∈ before ++ row :: after := List.mem_append_right _ List.mem_cons_self
  have hopen : row.status.isOpen = true := by
    have hdone := of_decide_eq_true hrow
    have hfailed := hunfailed row hmem
    cases hcase : row.status <;> simp_all [StepStatus.isOpen]
  have hfree : (before.any (StockSteps.holds row.workOrderId)) = false := by
    refine List.any_eq_false.mpr fun old hold hholds => ?_
    have hdone : old.status = .done := by simpa using hbefore old hold
    simp [StockSteps.holds, hdone] at hholds
  have hisDue : StockSteps.isDue now none ([] ++ before) row = true := by
    simp [StockSteps.isDue, hopen, hdue row hmem, hfree]
  have hpicked : row ∈ StockSteps.dueRows now none [] (before ++ row :: after) :=
    mem_dueRows_of_isDue hisDue
  intro hnil
  rw [StockSteps.pickedRows, List.take_eq_nil_iff] at hnil
  rcases hnil with hzero | hnil
  · omega
  · have hlist : row ∈ ((StockSteps.dueRows now none [] (before ++ row :: after)).filter
        fun row => decide (row.operationId ∉ ([] : List OperationId))).insertionSort
        fun a b => a.dueAt ≤ b.dueAt := by
      rw [List.mem_insertionSort, List.mem_filter]
      exact ⟨hpicked, decide_eq_true List.not_mem_nil⟩
    rw [hnil] at hlist
    exact absurd hlist List.not_mem_nil

end Due

/-- A state the saga reached, and a processor that runs on its own from there: no step
waits for an operator, the stock fits its counts, no other claim holds a step, and the
clock goes on. -/
structure LoneProcessor (settings : OutboxSettings) where
  first : Config WorkshopDb SagaPlace
  log : List SagaEffect
  reaches : SagaReaches settings first log
  pid : Nat
  idle : first.places pid = .idle
  unfailed : ∀ row ∈ first.store.steps, row.status ≠ .failed
  fits : StocksFit first.store.inventory
  surroundings : Nat → Surroundings
  unlocked : ∀ n, (surroundings n).locked = []
  clock : ∀ time, ∃ n, ∀ m, n ≤ m → time ≤ (surroundings m).now

namespace LoneProcessor

variable {settings : OutboxSettings} (lone : LoneProcessor settings)

def run (n : Nat) : Config WorkshopDb SagaPlace :=
  processorRun settings lone.pid lone.surroundings lone.first n

def place (n : Nat) : SagaPlace := (lone.run n).places lone.pid

def steps (n : Nat) : List StockStepRow := (lone.run n).store.steps

/-- The rows a claim picks at a position of the run. -/
def picked (n : Nat) : List StockStepRow :=
  StockSteps.pickedRows (lone.steps n) (lone.surroundings n).now claimBatchSize none []

/-- Every position of the run is a state the saga reaches. -/
theorem reachesAt (n : Nat) : ∃ log, SagaReaches settings (lone.run n) log := by
  induction n with
  | zero => exact ⟨lone.log, lone.reaches⟩
  | succ n ih =>
      obtain ⟨log, hlog⟩ := ih
      have hrun : lone.run (n + 1) =
          processorStep settings lone.pid (lone.surroundings n) (lone.run n) := rfl
      rw [hrun, processorStep]
      split
      · exact ⟨log, hlog⟩
      · rename_i out hexec
        exact ⟨log ++ out.effects, ReachesBy.turn lone.pid _ hlog trivial hexec⟩

section Moves

variable {lone} {n : Nat} {step : ClaimedStockStep} {queue : List ClaimedStockStep}

/-- A statement of the processor leads to the next position. -/
theorem next {out : SagaOutcome} (hexec : sagaExec settings (lone.run n).store (lone.place n)
      (processorInput (lone.surroundings n) (lone.place n)) = some out) :
    lone.place (n + 1) = out.place ∧ (lone.run (n + 1)).store = out.store := by
  have hrun : lone.run (n + 1) = (lone.run n).after lone.pid out := by
    change (match sagaExec settings (lone.run n).store (lone.place n)
      (processorInput (lone.surroundings n) (lone.place n)) with
      | none => _ | some out => _) = _
    rw [hexec]
    rfl
  refine ⟨?_, ?_⟩
  · rw [place, hrun, Config.after_places_self]
  · rw [hrun, Config.after_store]

/-- No statement the processor runs makes its step fail. -/
theorem next_notFailed (hfit : StocksFit (lone.run n).store.inventory)
    {out : SagaOutcome} (hexec : sagaExec settings (lone.run n).store
      (lone.place n) (.proceed (lone.surroundings n)) = some out) :
    ¬ out.place.HasFailed := by
  obtain ⟨log, hlog⟩ := lone.reachesAt n
  exact step_goes_through hlog hfit hexec

theorem polls (h : lone.place n = .idle) :
    lone.place (n + 1) = .claiming none ∧
      (lone.run (n + 1)).store = (lone.run n).store := by
  have hmove : sagaExec settings (lone.run n).store (lone.place n)
      (processorInput (lone.surroundings n) (lone.place n)) =
        some (stay (lone.run n).store (.claiming none)) := by
    rw [h]
    rfl
  exact next hmove

theorem claims (h : lone.place n = .claiming none) :
    lone.place (n + 1) = nextApplication
        (StockSteps.claimedSteps (lone.picked n) (lone.surroundings n).claimOrder) ∧
      (lone.run (n + 1)).store = { (lone.run n).store with
        steps := StockSteps.markClaimed (lone.steps n) (lone.picked n)
          ((lone.surroundings n).now + milliseconds settings.graceSeconds) } := by
  have hmove : sagaExec settings (lone.run n).store (lone.place n)
      (processorInput (lone.surroundings n) (lone.place n)) =
        some (claimDue settings (lone.run n).store none (lone.surroundings n)) := by
    rw [h]
    rfl
  obtain ⟨hplace, hstore⟩ := next hmove
  rw [claimDue, lone.unlocked n] at hplace hstore
  exact ⟨hplace, hstore⟩

theorem completes (h : lone.place n = .completing (.application step queue)) :
    lone.place (n + 1) = nextApplication queue ∧
      (lone.run (n + 1)).store = { (lone.run n).store with
        steps := StockSteps.complete (lone.steps n) step.operationId
          (lone.surroundings n).now } := by
  have hmove : sagaExec settings (lone.run n).store (lone.place n)
      (processorInput (lone.surroundings n) (lone.place n)) =
        some (stay { (lone.run n).store with
          steps := StockSteps.complete (lone.steps n) step.operationId
            (lone.surroundings n).now } (nextApplication queue)) := by
    rw [h]
    rfl
  exact next hmove

/-- A store that differs from another one in the tables of inventory at most. -/
def SameBut (db db' : WorkshopDb) : Prop :=
  db'.tables = db.tables ∧ db'.steps = db.steps

/-- An undo or a closing statement leads to the completion of its step. -/
theorem finishes (hfit : StocksFit (lone.run n).store.inventory)
    (h : (∃ named, lone.place n = .undoing (.application step queue) named) ∨
      ∃ closure candidates, lone.place n = .closing step queue closure candidates) :
    lone.place (n + 1) = .completing (.application step queue) ∧
      SameBut (lone.run n).store (lone.run (n + 1)).store := by
  rcases h with ⟨named, h⟩ | ⟨closure, candidates, h⟩
  · obtain ⟨out, hexec, hout⟩ : ∃ out, sagaExec settings (lone.run n).store (lone.place n)
        (.proceed (lone.surroundings n)) = some out ∧
        (out.place.HasFailed ∨ out.place = .completing (.application step queue) ∧
          SameBut (lone.run n).store out.store) := by
      rw [h]
      simp only [sagaExec]
      split
      · exact ⟨_, rfl, Or.inl trivial⟩
      · exact ⟨_, rfl, Or.inr ⟨rfl, rfl, rfl⟩⟩
    obtain ⟨hplace, hsame⟩ := hout.resolve_left (next_notFailed hfit hexec)
    have hmove := next (by rw [h] at hexec ⊢; exact hexec)
    rw [hmove.1, hmove.2]
    exact ⟨hplace, hsame⟩
  · have hmove : sagaExec settings (lone.run n).store (lone.place n)
        (processorInput (lone.surroundings n) (lone.place n)) = some {
          store := { (lone.run n).store with
            inventory := (lone.run n).store.inventory.closeConsumptions closure candidates
              step.actorUserId (lone.surroundings n).now }
          place := .completing (.application step queue)
          effects := [.applied step.toStockStep] } := by
      rw [h]
      rfl
    obtain ⟨hplace, hstore⟩ := next hmove
    rw [hplace, hstore]
    exact ⟨rfl, rfl, rfl⟩

/-- The first statement of a step leaves the processor at it. -/
theorem starts (hfit : StocksFit (lone.run n).store.inventory)
    (h : lone.place n = .applying step queue) :
    SameBut (lone.run n).store (lone.run (n + 1)).store ∧
      ((∃ named, lone.place (n + 1) = .undoing (.application step queue) named) ∨
        (∃ closure candidates, lone.place (n + 1) = .closing step queue closure candidates) ∨
        lone.place (n + 1) = .completing (.application step queue)) := by
  have hexec : sagaExec settings (lone.run n).store (lone.place n)
      (.proceed (lone.surroundings n)) =
        some (runStep (lone.run n).store step queue (lone.surroundings n)) := by
    rw [h]
    rfl
  have hgoes := next_notFailed hfit hexec
  have hmove := next (by rw [h] at hexec ⊢; exact hexec)
  rw [hmove.1, hmove.2]
  unfold runStep at hgoes ⊢
  split
  · unfold startUndo
    split
    · exact ⟨⟨rfl, rfl⟩, Or.inr (Or.inr rfl)⟩
    · exact ⟨⟨rfl, rfl⟩, Or.inl ⟨_, rfl⟩⟩
  · rename_i hkind
    rw [hkind] at hgoes
    dsimp only at hgoes
    split
    · rename_i hnone
      rw [hnone] at hgoes
      exact absurd trivial hgoes
    · exact ⟨⟨rfl, rfl⟩, Or.inr (Or.inr rfl)⟩
  · rename_i hkind
    rw [hkind] at hgoes
    dsimp only at hgoes
    split
    · rename_i error herror
      rw [herror] at hgoes
      exact absurd trivial hgoes
    · exact ⟨⟨rfl, rfl⟩, Or.inr (Or.inr rfl)⟩
  · exact ⟨⟨rfl, rfl⟩, Or.inr (Or.inl ⟨_, _, rfl⟩)⟩
  · exact ⟨⟨rfl, rfl⟩, Or.inr (Or.inl ⟨_, _, rfl⟩)⟩

end Moves

/-- The places of a processor whose steps do not fail. -/
inductive Stands (n : Nat) : Prop
  | idle (h : lone.place n = .idle)
  | claiming (h : lone.place n = .claiming none)
  | applying (step : ClaimedStockStep) (queue : List ClaimedStockStep)
      (h : lone.place n = .applying step queue)
  | finishing (step : ClaimedStockStep) (queue : List ClaimedStockStep)
      (h : (∃ named, lone.place n = .undoing (.application step queue) named) ∨
        ∃ closure candidates, lone.place n = .closing step queue closure candidates)
  | completing (step : ClaimedStockStep) (queue : List ClaimedStockStep)
      (h : lone.place n = .completing (.application step queue))

section Runs

variable {lone} {n : Nat} {step : ClaimedStockStep} {queue : List ClaimedStockStep}

theorem stands_of_nextApplication {queue : List ClaimedStockStep}
    (h : lone.place n = nextApplication queue) : lone.Stands n := by
  cases queue with
  | nil => exact .idle h
  | cons step queue => exact .applying step queue h

/-- The processor never stands at the save of an item. -/
theorem Stands.notShelf (h : lone.Stands n) (item : InventoryItem) :
    lone.place n ≠ .shelf item := by
  intro hplace
  cases h with
  | idle h => cases hplace.symm.trans h
  | claiming h => cases hplace.symm.trans h
  | applying step queue h => cases hplace.symm.trans h
  | finishing step queue h =>
      rcases h with ⟨named, h⟩ | ⟨closure, candidates, h⟩
      · cases hplace.symm.trans h
      · cases hplace.symm.trans h
  | completing step queue h => cases hplace.symm.trans h

/-- A statement of the processor leaves what was stocked as it was. -/
theorem fits_succ (h : lone.Stands n) (hfit : StocksFit (lone.run n).store.inventory) :
    StocksFit (lone.run (n + 1)).store.inventory := by
  obtain ⟨log, hlog⟩ := lone.reachesAt n
  have hrun : lone.run (n + 1) =
      processorStep settings lone.pid (lone.surroundings n) (lone.run n) := rfl
  rw [hrun, processorStep]
  split
  · exact hfit
  · rename_i out hexec
    rw [Config.after_store]
    exact (sagaMove_of_exec hexec).stock.stocksFit hfit (sagaLedger_of_reaches hlog).1
      h.notShelf

theorem stands_succ (h : lone.Stands n) (hfit : StocksFit (lone.run n).store.inventory) :
    lone.Stands (n + 1) := by
  cases h with
  | idle h => exact .claiming (polls h).1
  | claiming h => exact stands_of_nextApplication (claims h).1
  | applying step queue h =>
      rcases (starts hfit h).2 with hundoing | hclosing | hcompleting
      · exact .finishing step queue (Or.inl hundoing)
      · exact .finishing step queue (Or.inr hclosing)
      · exact .completing step queue hcompleting
  | finishing step queue h => exact .completing step queue (finishes hfit h).1
  | completing step queue h => exact stands_of_nextApplication (completes h).1

theorem stands_and_fits (n : Nat) :
    lone.Stands n ∧ StocksFit (lone.run n).store.inventory := by
  induction n with
  | zero => exact ⟨.idle lone.idle, lone.fits⟩
  | succ n ih => exact ⟨stands_succ ih.1 ih.2, fits_succ ih.1 ih.2⟩

/-- What one statement of the processor does to the work orders and the outbox. -/
theorem changes (n : Nat) : (lone.run (n + 1)).store.tables = (lone.run n).store.tables ∧
    (lone.steps (n + 1) = lone.steps n ∨
      (∃ leaseUntil, lone.steps (n + 1) =
        StockSteps.markClaimed (lone.steps n) (lone.picked n) leaseUntil) ∨
      ∃ operationId now,
        lone.steps (n + 1) = StockSteps.complete (lone.steps n) operationId now) := by
  obtain ⟨hstands, hfit⟩ := lone.stands_and_fits n
  cases hstands with
  | idle h =>
      have hstore := (polls h).2
      rw [steps, steps, hstore]
      exact ⟨rfl, Or.inl rfl⟩
  | claiming h =>
      have hstore := (claims h).2
      rw [steps, hstore]
      exact ⟨rfl, Or.inr (Or.inl ⟨_, rfl⟩)⟩
  | applying step queue h => exact ⟨(starts hfit h).1.1, Or.inl (starts hfit h).1.2⟩
  | finishing step queue h => exact ⟨(finishes hfit h).2.1, Or.inl (finishes hfit h).2.2⟩
  | completing step queue h =>
      have hstore := (completes h).2
      rw [steps, hstore]
      exact ⟨rfl, Or.inr (Or.inr ⟨_, _, rfl⟩)⟩

/-- The processor touches no work order. -/
theorem tables_eq (n : Nat) : (lone.run n).store.tables = lone.first.store.tables := by
  induction n with
  | zero => rfl
  | succ n ih => rw [(changes n).1, ih]

/-- No step is given up. -/
theorem neverFailed (n : Nat) : ∀ row ∈ lone.steps n, row.status ≠ .failed := by
  induction n with
  | zero => exact lone.unfailed
  | succ n ih =>
      rcases (changes n).2 with hsame | ⟨leaseUntil, hclaimed⟩ | ⟨operationId, now, hdone⟩
      · rw [hsame]
        exact ih
      · rw [hclaimed]
        intro row' hrow'
        obtain ⟨row, hrow, rfl⟩ := List.mem_map.mp hrow'
        split
        · simp
        · exact ih row hrow
      · rw [hdone]
        intro row' hrow'
        obtain ⟨row, hrow, rfl⟩ := List.mem_map.mp hrow'
        split
        · simp
        · exact ih row hrow

theorem nodup_ids (n : Nat) : ((lone.steps n).map fun row => row.operationId).Nodup := by
  obtain ⟨log, hlog⟩ := lone.reachesAt n
  exact (outbox_of_reaches hlog).1.ids

theorem mem_picked {row : StockStepRow} (hrow : row ∈ lone.picked n) :
    row ∈ lone.steps n ∧ row.status.isOpen = true := by
  obtain ⟨before, after, hsteps, hopen, -⟩ := mem_pickedRows hrow
  refine ⟨?_, hopen⟩
  rw [hsteps]
  exact List.mem_append_right _ List.mem_cons_self

/-- No statement makes a step undone. -/
theorem undone_succ_le (n : Nat) :
    undoneSteps (lone.steps (n + 1)) ≤ undoneSteps (lone.steps n) := by
  rcases (changes n).2 with hsame | ⟨leaseUntil, hclaimed⟩ | ⟨operationId, now, hdone⟩
  · rw [hsame]
  · rw [hclaimed]
    exact undoneSteps_markClaimed_le (nodup_ids n) (fun _ => mem_picked) leaseUntil
  · rw [hdone]
    exact undoneSteps_complete_le _ _ _

theorem undone_le {m : Nat} (hle : n ≤ m) :
    undoneSteps (lone.steps m) ≤ undoneSteps (lone.steps n) :=
  holds_from (P := fun m => undoneSteps (lone.steps m) ≤ undoneSteps (lone.steps n))
    (fun m hm => (undone_succ_le m).trans hm) le_rfl m hle

/-- The processor completes the step it stands at and goes on with the next one. -/
theorem applied_later (h : lone.place n = .applying step queue) :
    ∃ m, n < m ∧ lone.place m = nextApplication queue ∧ ∃ now,
      lone.steps m = StockSteps.complete (lone.steps n) step.operationId now := by
  obtain ⟨hsame, hnext⟩ := starts (lone.stands_and_fits n).2 h
  have hcompleted : ∀ m, lone.place m = .completing (.application step queue) →
      lone.steps m = lone.steps n → n < m →
      ∃ m, n < m ∧ lone.place m = nextApplication queue ∧ ∃ now,
        lone.steps m = StockSteps.complete (lone.steps n) step.operationId now := by
    intro m hplace hsteps hless
    obtain ⟨hlast, hstore⟩ := completes hplace
    refine ⟨m + 1, by omega, hlast, (lone.surroundings m).now, ?_⟩
    rw [← hsteps, steps, hstore]
  rcases hnext with hundoing | hclosing | hcompleting
  · obtain ⟨hplace, hkept⟩ := finishes (lone.stands_and_fits (n + 1)).2 (Or.inl hundoing)
    exact hcompleted (n + 2) hplace (hkept.2.trans hsame.2) (by omega)
  · obtain ⟨hplace, hkept⟩ := finishes (lone.stands_and_fits (n + 1)).2 (Or.inr hclosing)
    exact hcompleted (n + 2) hplace (hkept.2.trans hsame.2) (by omega)
  · exact hcompleted (n + 1) hcompleting hsame.2 (by omega)

/-- The processor works its queue off and polls again. -/
theorem queue_ends : ∀ {n : Nat}, lone.place n = nextApplication queue →
    ∃ m, n ≤ m ∧ lone.place m = .idle := by
  induction queue with
  | nil => exact fun {n} h => ⟨n, le_rfl, h⟩
  | cons step queue ih =>
      intro n h
      obtain ⟨m, hless, hplace, -⟩ := applied_later h
      obtain ⟨last, hle, hidle⟩ := ih hplace
      exact ⟨last, hless.le.trans hle, hidle⟩

theorem claimedSteps_eq_nil {picked : List StockStepRow} {order : RowOrder ClaimedStockStep} :
    StockSteps.claimedSteps picked order = [] ↔ picked = [] := by
  rw [StockSteps.claimedSteps, ← List.length_eq_zero_iff, (order.perm _).length_eq,
    List.length_map, List.length_eq_zero_iff]

/-- A poll that finds a step completes it before the next poll. -/
theorem poll_finds (h : lone.place n = .idle) (hfound : lone.picked (n + 1) ≠ []) :
    ∃ m, n < m ∧ lone.place m = .idle ∧
      undoneSteps (lone.steps m) < undoneSteps (lone.steps n) := by
  obtain ⟨hplace, hstore⟩ := claims (polls h).1
  obtain ⟨step, queue, hclaimed⟩ := List.exists_cons_of_ne_nil
    (mt claimedSteps_eq_nil.mp hfound)
  rw [hclaimed] at hplace
  obtain ⟨row, hrow, hstep⟩ := mem_claimedSteps (hclaimed ▸ List.mem_cons_self)
  obtain ⟨m, hless, hnext, now, hsteps⟩ := applied_later hplace
  obtain ⟨last, hle, hidle⟩ := queue_ends hnext
  refine ⟨last, by omega, hidle, ?_⟩
  -- The claim has set the row to pending, whatever it was.
  have hpending : ∃ claimed ∈ lone.steps (n + 1 + 1),
      claimed.operationId = step.operationId ∧ claimed.status = .pending := by
    rw [steps, hstore]
    refine ⟨_, List.mem_map.mpr ⟨row, (mem_picked hrow).1, rfl⟩, ?_⟩
    rw [if_pos (decide_eq_true (List.mem_map_of_mem hrow))]
    exact ⟨congrArg StockStep.operationId hstep, rfl⟩
  obtain ⟨claimed, hclaimedRow, hid, hstatus⟩ := hpending
  calc undoneSteps (lone.steps last)
      ≤ undoneSteps (lone.steps m) := undone_le hle
    _ < undoneSteps (lone.steps (n + 1 + 1)) := by
        rw [hsteps, ← hid]
        exact undoneSteps_complete_lt hclaimedRow (Or.inr hstatus) now
    _ ≤ undoneSteps (lone.steps n) := undone_le (by omega)

/-- A poll completes a step, or finds none and leaves the outbox as it was. -/
theorem round (h : lone.place n = .idle) : ∃ m, n < m ∧
    (lone.place m = .idle ∧ undoneSteps (lone.steps m) < undoneSteps (lone.steps n) ∨
      lone.place m = .idle ∧ lone.steps m = lone.steps n) := by
  by_cases hfound : lone.picked (n + 1) = []
  · obtain ⟨hpolled, hkept⟩ := polls h
    obtain ⟨hplace, hstore⟩ := claims hpolled
    rw [hfound] at hplace hstore
    rw [claimedSteps_eq_nil.mpr rfl] at hplace
    refine ⟨n + 1 + 1, by omega, Or.inr ⟨hplace, ?_⟩⟩
    rw [steps, hstore]
    have hnone : StockSteps.markClaimed (lone.steps (n + 1)) [] ((lone.surroundings
        (n + 1)).now + milliseconds settings.graceSeconds) = lone.steps (n + 1) := by
      rw [StockSteps.markClaimed]
      exact (List.map_congr_left fun row _ => if_neg (by simp)).trans (List.map_id _)
    exact hnone.trans (congrArg WorkshopDb.steps hkept)
  · obtain ⟨m, hless, hidle, hfewer⟩ := poll_finds h hfound
    exact ⟨m, hless, Or.inl ⟨hidle, hfewer⟩⟩

theorem exists_dueAt_le (rows : List StockStepRow) :
    ∃ time, ∀ row ∈ rows, row.dueAt ≤ time := by
  induction rows with
  | nil => exact ⟨0, fun _ hmem => absurd hmem List.not_mem_nil⟩
  | cons row rows ih =>
      obtain ⟨time, htime⟩ := ih
      refine ⟨max row.dueAt time, fun other hother => ?_⟩
      rcases List.mem_cons.mp hother with rfl | hother
      · exact le_max_left _ _
      · exact (htime other hother).trans (le_max_right _ _)

/-- While a step is not done, a later poll completes one. -/
theorem falls (rows : List StockStepRow) (hundone : 0 < undoneSteps rows) :
    LeadsTo (fun n => lone.place n = .idle ∧ lone.steps n = rows)
      fun n => lone.place n = .idle ∧ undoneSteps (lone.steps n) < undoneSteps rows := by
  obtain ⟨time, htime⟩ := exists_dueAt_le rows
  obtain ⟨late, hlate⟩ := lone.clock time
  have hwaits := LeadsTo.late
    (P := fun n => lone.place n = .idle ∧ lone.steps n = rows)
    (Q := fun n => lone.place n = .idle ∧ undoneSteps (lone.steps n) < undoneSteps rows)
    (fun n ⟨hidle, hrows⟩ => by
      obtain ⟨m, hless, hm⟩ := round hidle
      rw [hrows] at hm
      exact ⟨m, hless, hm⟩) late
  refine hwaits.trans (LeadsTo.or (LeadsTo.of_imp fun _ => id) ?_)
  rintro n ⟨⟨hidle, rfl⟩, hle⟩
  have hsteps : lone.steps (n + 1) = lone.steps n := congrArg WorkshopDb.steps (polls hidle).2
  have hfound : lone.picked (n + 1) ≠ [] := by
    rw [picked, hsteps]
    exact pickedRows_ne_nil (by decide) (neverFailed n)
      (fun row hrow => (htime row hrow).trans (hlate (n + 1) (by omega))) hundone
  obtain ⟨m, hless, hm⟩ := poll_finds hidle hfound
  exact ⟨m, hless.le, hm⟩

/-- From every poll on there is one after which every step is done. -/
theorem drains : LeadsTo (fun n => lone.place n = .idle)
    fun n => undoneSteps (lone.steps n) = 0 := by
  refine LeadsTo.of_rank (fun n => undoneSteps (lone.steps n)) fun k => ?_
  rintro n ⟨hidle, rfl⟩
  rcases Nat.eq_zero_or_pos (undoneSteps (lone.steps n)) with hzero | hpos
  · exact ⟨n, le_rfl, Or.inl hzero⟩
  · obtain ⟨m, hle, hm⟩ := falls (lone.steps n) hpos n ⟨hidle, rfl⟩
    exact ⟨m, hle, Or.inr hm⟩

end Runs

end LoneProcessor

section Agreement

variable {settings : OutboxSettings} {config : Config WorkshopDb SagaPlace}
variable {log : List SagaEffect}

/-- When every step is done, inventory has out for each work order what the work order
says it withdrew. -/
theorem confirmedRemaining_of_done (h : SagaReaches settings config log)
    (hdone : ∀ row ∈ config.store.steps, row.status = .done)
    (workOrderId : WorkOrderId) (itemId : ItemId) :
    confirmedRemaining config.store.inventory workOrderId itemId =
      config.store.tables.withdrawnOf workOrderId itemId := by
  rw [confirmedRemaining_eq h, (balance_of_reaches h).withdrawn, balance,
    sumWhere_split (fun row : StockStepRow => row.workOrderId = workOrderId)
      (fun row => decide (.applied row.toStockStep ∈ log))]
  have hundos : sumWhere (fun row : StockStepRow => decide (row.workOrderId = workOrderId) &&
        !decide (.applied row.toStockStep ∈ log))
      (fun row => row.toStockStep.adds config.store.inventory.movements itemId)
      config.store.steps = 0 := by
    refine sumWhere_eq_zero fun row hrow htest => ?_
    simp only [Bool.and_eq_true, Bool.not_eq_true', decide_eq_false_iff_not] at htest
    by_cases hkind : row.kind = .undoConsumption
    · simp [StockStep.adds, hkind]
    · exact absurd ((order_of_reaches h).1.done row hrow hkind (hdone row hrow)) htest.2
  rw [hundos, add_zero]

end Agreement

/-- What a drained outbox leaves: every step is done, inventory has out for each work
order what the work order says it withdrew, and the work orders are what they were. -/
structure DrainedFrom (first drained : WorkshopDb) : Prop where
  done : ∀ row ∈ drained.steps, row.status = .done
  tables : drained.tables = first.tables
  agree : ∀ workOrderId itemId, confirmedRemaining drained.inventory workOrderId itemId =
    drained.tables.withdrawnOf workOrderId itemId

/-- A processor that runs on its own from a state the saga reached, and whose clock goes
on, drains the outbox in the end and keeps it so, unless a step waits for an operator or
more was stocked of an item than its count can hold. -/
theorem outbox_drains {settings : OutboxSettings} {config : Config WorkshopDb SagaPlace}
    {log : List SagaEffect} (h : SagaReaches settings config log) {pid : Nat}
    (hidle : config.places pid = .idle)
    (hunfailed : ∀ row ∈ config.store.steps, row.status ≠ .failed)
    (hfit : StocksFit config.store.inventory) (surroundings : Nat → Surroundings)
    (hunlocked : ∀ n, (surroundings n).locked = [])
    (hclock : ∀ time, ∃ n, ∀ m, n ≤ m → time ≤ (surroundings m).now) :
    ∃ n, ∀ m, n ≤ m →
      DrainedFrom config.store (processorRun settings pid surroundings config m).store := by
  let lone : LoneProcessor settings :=
    ⟨config, log, h, pid, hidle, hunfailed, hfit, surroundings, hunlocked, hclock⟩
  have hdrains : LeadsTo (fun n => lone.place n = .idle)
      fun n => undoneSteps (lone.steps n) = 0 := LoneProcessor.drains
  obtain ⟨n, -, hzero⟩ := hdrains 0 hidle
  refine ⟨n, fun m hle => ?_⟩
  have hfewer : undoneSteps (lone.steps m) ≤ undoneSteps (lone.steps n) :=
    LoneProcessor.undone_le hle
  have hdone : ∀ row ∈ lone.steps m, row.status = .done :=
    undoneSteps_eq_zero.mp (by omega)
  have htables : (lone.run m).store.tables = config.store.tables := LoneProcessor.tables_eq m
  obtain ⟨log', hreaches⟩ := lone.reachesAt m
  exact ⟨hdone, htables, confirmedRemaining_of_done hreaches hdone⟩

namespace SagaWitness

/-- A return was saved, and the applier that claimed its step is gone. -/
def abandoned : List (Nat × SagaInput) :=
  inExecution [part] ++ withdrawing 0 10 ++ proceed 0 5 11 ++
    (0, .request "OS-1" (.returnParts two)) :: proceed 0 5 12 ++ [(0, .crash)]

theorem abandoned_runs :
    (runTurns (sagaExec settings) emptyWorkshop abandoned).isSome := by decide +kernel

def left : Config WorkshopDb SagaPlace × List SagaEffect :=
  endOfRun (sagaExec settings) emptyWorkshop abandoned abandoned_runs

theorem reaches_left : SagaReaches settings left.1 left.2 := by
  unfold left
  exact reaches_endOfRun _

theorem left_idle : left.1.places 1 = .idle := by
  have hother : ∀ turn ∈ abandoned, turn.1 ≠ 1 := by decide +kernel
  unfold left
  exact endOfRun_places _ hother

theorem outbox_drains_left :
    (∃ row ∈ left.1.store.steps, row.kind = .restore ∧ row.status = .pending) ∧
      ∃ n, ∀ m, n ≤ m → DrainedFrom left.1.store
        (processorRun settings 1 (fun n => { now := n }) left.1 m).store :=
  ⟨by decide +kernel, outbox_drains reaches_left left_idle (by decide +kernel)
    (by decide +kernel) _ (fun _ => rfl) fun time => ⟨time, fun _ hle => hle⟩⟩

end SagaWitness

end WorkOrders

end Workshop
