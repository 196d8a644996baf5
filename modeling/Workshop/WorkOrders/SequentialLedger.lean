/-
The ledger of one work order, as its steps leave it when they run alone.  The
outbox applies the steps of all work orders at least once, by any number of
appliers; what a work order sees of it is a run of its own steps, once each and
one after another.
-/
import Workshop.Inventory.LedgerViews
import Workshop.WorkOrders.AppliedOnce

namespace Workshop

namespace WorkOrders

open Inventory

/-- A confirmed consumption of a work order. -/
def isConfirmedOf (workOrderId : WorkOrderId) (row : MovementRow) : Bool :=
  row.kind = .consumption && row.workOrderId = some workOrderId &&
    row.confirmedAt.isSome

/-- A consumption of a work order whose withdrawal was saved. -/
def isSavedOf (log : List SagaEffect) (workOrderId : WorkOrderId)
    (row : MovementRow) : Bool :=
  row.kind = .consumption && row.workOrderId = some workOrderId && isSaved log row

/-- The steps of a work order but for its undos, in the order they were
recorded. -/
def stepsOf (steps : List StockStepRow) (workOrderId : WorkOrderId) :
    List StockStep :=
  (steps.map fun row => row.toStockStep).filter fun step =>
    step.workOrderId = workOrderId && decide (step.kind ≠ .undoConsumption)

/-- One run of a step, which reads and writes the ledger at one moment. -/
inductive RunsStep (db : InventoryDb) (step : StockStep) : InventoryDb → Prop
  | confirm (operationId : OperationId) (now : Timestamp)
      (hkind : step.kind = .confirmConsumption)
      (hcarries : step.consumptionOperationId = some operationId) :
      RunsStep db step (db.confirmConsumptionsOfOperation operationId now)
  | restore (order : RowOrder MovementRow) (now : Timestamp) {db' : InventoryDb}
      (hkind : step.kind = .restore)
      (hrestore : db.restoreStockBatch order step.restoreCommand now = .ok db') :
      RunsStep db step db'
  | close (closure : Closure) (now : Timestamp)
      (hcloses : closureOf step.kind = some closure) :
      RunsStep db step (db.closeConsumptions closure
        (db.closureCandidates closure step.workOrderId) step.actorUserId now)

/-- A consumption that waits for the confirmation of its withdrawal. -/
structure AwaitedBy (step : StockStep) (row : MovementRow) : Prop where
  confirms : step.kind = .confirmConsumption
  carries : step.consumptionOperationId = row.operationId
  kind : row.kind = .consumption
  workOrderId : row.workOrderId = some step.workOrderId
  status : row.status = some .pending
  confirmedAt : row.confirmedAt = none

/-- The ledger some steps leave that run once each, one after another, from an
empty ledger.  A confirmation finds the consumptions of its withdrawal posted;
the items, the ids and the keys of the rows are as a step finds them. -/
inductive OneAfterAnother : List StockStep → InventoryDb → Prop
  | start : OneAfterAnother [] {}
  | run {steps : List StockStep} {db db' : InventoryDb}
      (before : OneAfterAnother steps db) (step : StockStep)
      (items : List ItemRow) (nextId : Uuid) (awaited movements : List MovementRow)
      (hawaited : ∀ row ∈ awaited, AwaitedBy step row)
      (hmovements : movements.Perm (db.movements ++ awaited))
      (hrun : RunsStep { db with items, movements, nextId } step db') :
      OneAfterAnother (steps ++ [step]) db'

/-- The confirmed part of the ledger of a work order is what its steps that
were applied leave, the oldest first. -/
structure AppliedAlone (db : WorkshopDb) (log : List SagaEffect)
    (workOrderId : WorkOrderId) (done waiting : List StockStep)
    (alone : InventoryDb) : Prop where
  steps : stepsOf db.steps workOrderId = done ++ waiting
  applied : ∀ step ∈ done, .applied step ∈ log
  waits : ∀ step ∈ waiting, .applied step ∉ log
  runs : OneAfterAnother done alone
  view : IsView (isConfirmedOf workOrderId) db.inventory alone

section Steps

variable {settings : OutboxSettings} {config : Config WorkshopDb SagaPlace}
variable {log : List SagaEffect} {workOrderId : WorkOrderId}

theorem mem_stepsOf {steps : List StockStepRow} {step : StockStep} :
    step ∈ stepsOf steps workOrderId ↔ Recorded steps step ∧
      step.workOrderId = workOrderId ∧ step.kind ≠ .undoConsumption := by
  simp [stepsOf, Recorded]

theorem stepsOf_append (steps more : List StockStepRow) (workOrderId : WorkOrderId) :
    stepsOf (steps ++ more) workOrderId =
      stepsOf steps workOrderId ++ stepsOf more workOrderId := by
  simp [stepsOf]

theorem stepsOf_split {older newer : List StockStepRow} {row : StockStepRow}
    (howner : row.workOrderId = workOrderId) (hkind : row.kind ≠ .undoConsumption) :
    stepsOf (older ++ row :: newer) workOrderId =
      stepsOf older workOrderId ++ row.toStockStep :: stepsOf newer workOrderId := by
  simp [stepsOf, howner, hkind]

theorem stepsOf_nodup {steps : List StockStepRow} (workOrderId : WorkOrderId)
    (hids : (steps.map fun row => row.operationId).Nodup) :
    (stepsOf steps workOrderId).Nodup := by
  refine List.Nodup.filter _ (List.Nodup.of_map StockStep.operationId ?_)
  rwa [List.map_map]

theorem map_toStockStep {place : SagaPlace} {effects : List SagaEffect}
    {steps kept : List StockStepRow}
    (h : List.Forall₂ (RowChange place effects) steps kept) :
    kept.map (fun row => row.toStockStep) = steps.map fun row => row.toStockStep := by
  induction h with
  | nil => rfl
  | cons hrow _ ih => rw [List.map_cons, List.map_cons, hrow.1, ih]

/-- A move adds at most steps that were not recorded. -/
theorem stepsOf_of_exec (h : SagaReaches settings config log) {pid : Nat}
    {input : SagaInput} {out : SagaOutcome}
    (hexec : sagaExec settings config.store (config.places pid) input = some out)
    (workOrderId : WorkOrderId) :
    ∃ added, stepsOf out.store.steps workOrderId =
        stepsOf config.store.steps workOrderId ++ added ∧
      ∀ step ∈ added, ¬ Recorded config.store.steps step := by
  have hsteps := steps_of_exec h hexec
  obtain ⟨kept, added, hrows, -, hkept⟩ := hsteps.rows
  refine ⟨stepsOf added.toList workOrderId, ?_, ?_⟩
  · rw [hrows, stepsOf_append, stepsOf, map_toStockStep hkept, ← stepsOf]
  · intro step hstep hrecorded
    obtain ⟨⟨row, hrow, rfl⟩, -⟩ := mem_stepsOf.mp hstep
    obtain ⟨old, hold, hid⟩ := hrecorded
    obtain ⟨newer, hadded⟩ : ∃ newer, added.toList = row :: newer := by
      cases added with
      | none => cases hrow
      | some head => exact ⟨[], by rw [List.mem_singleton.mp hrow]; rfl⟩
    rw [hadded] at hrows
    exact added_new (hsteps.fresh (outbox_of_reaches h).1.ids) hrows hkept hold
      (congrArg StockStep.operationId hid)

end Steps

section Views

variable {settings : OutboxSettings} {config : Config WorkshopDb SagaPlace}
variable {log : List SagaEffect} {workOrderId : WorkOrderId}

theorem isConfirmedOf_iff {row : MovementRow} :
    isConfirmedOf workOrderId row = true ↔ row.kind = .consumption ∧
      row.workOrderId = some workOrderId ∧ row.confirmedAt.isSome := by
  simp [isConfirmedOf, and_assoc]

theorem isConfirmedOf_of_kind {row : MovementRow} (hkind : row.kind ≠ .consumption) :
    isConfirmedOf workOrderId row = false := by
  simp [isConfirmedOf, hkind]

theorem isConfirmedOf_of_none {row : MovementRow} (hnone : row.confirmedAt = none) :
    isConfirmedOf workOrderId row = false := by
  simp [isConfirmedOf, hnone]

/-- An open consumption of a work order is a confirmed one. -/
theorem isConfirmedOf_of_open (h : SagaReaches settings config log) :
    ∀ row ∈ config.store.inventory.movements,
      isOpenConsumption workOrderId row = true →
        isConfirmedOf workOrderId row = true := by
  intro row hrow hopen
  obtain ⟨howner, hkind, -, hconfirmed⟩ := isOpenConsumption_iff.mp hopen
  exact isConfirmedOf_iff.mpr ⟨hkind, howner,
    (rows_of_reaches h).1.confirmed hrow hkind hconfirmed⟩

/-- A return is on one consumption. -/
theorem returnsOn_eq_false (h : SagaReaches settings config log)
    {chosen : MovementRow → Bool} {post target : MovementRow}
    (hconsumptions : ∀ row, chosen row = true → row.kind = .consumption)
    (htarget : target ∈ config.store.inventory.movements)
    (hkind : target.kind = .consumption)
    (hundoes : post.undoesMovementId = some target.id)
    (hnone : chosen target = false) :
    returnsOn chosen config.store.inventory.movements post = false := by
  rw [Bool.eq_false_iff]
  intro hreturn
  obtain ⟨-, other, hother, hchosen, hpoints⟩ := returnsOn_iff.mp hreturn
  obtain rfl := (sagaLedger_of_reaches h).1.eq_of_id hother (hconsumptions _ hchosen)
    htarget hkind (Option.some.inj (hpoints.symm.trans hundoes))
  rw [hchosen] at hnone
  cases hnone

/-- A consumption of a saved withdrawal that waits for its confirmation has no
return and no transition. -/
theorem untouched_of_unconfirmed (h : SagaReaches settings config log)
    {row : MovementRow} (hrow : row ∈ config.store.inventory.movements)
    (hkind : row.kind = .consumption) (hsaved : isSaved log row = true)
    (hnone : row.confirmedAt = none) :
    row.status = some .pending ∧
      (∀ post ∈ config.store.inventory.movements, post.kind = .returned →
        post.undoesMovementId ≠ some row.id) ∧
      ∀ transition ∈ config.store.inventory.transitions,
        transition.movementId ≠ row.id := by
  have hpending := ((rows_of_reaches h).1.consumptions row hrow hkind).pending hnone
  have hshape := (sagaLedger_of_reaches h).1
  refine ⟨hpending, fun post hpost hreturned hundoes => ?_,
    fun transition htransition hid => ?_⟩
  · cases (rows_of_reaches h).1.returns post hpost hreturned with
    | undone undo target _ _ hoperation htarget htargetKind hpoints hsame =>
        obtain rfl := hshape.eq_of_id htarget htargetKind hrow hkind
          (Option.some.inj (hpoints.symm.trans hundoes))
        obtain ⟨operationId, hmine, hwithdrawn⟩ := isSaved_iff.mp hsaved
        exact (returns_of_reaches h).1 operationId hwithdrawn
          ⟨post, hpost, hreturned, hsame.symm.trans hmine⟩
    | restored step target _ _ _ _ htarget htargetKind hpoints hconfirmed =>
        obtain rfl := hshape.eq_of_id htarget htargetKind hrow hkind
          (Option.some.inj (hpoints.symm.trans hundoes))
        rw [hnone] at hconfirmed
        cases hconfirmed
  · have hmarked := (closings_of_reaches h).1.transitions.marked row hrow hkind
    cases hmarked with
    | pending _ hempty =>
        rw [transitionsOf, List.filter_eq_nil_iff] at hempty
        exact hempty transition htransition (decide_eq_true hid)
    | closed closure _ hclosed =>
        rw [hpending] at hclosed
        cases closure <;> cases hclosed

end Views

section Others

variable {settings : OutboxSettings} {config : Config WorkshopDb SagaPlace}
variable {log : List SagaEffect} {workOrderId : WorkOrderId}

/-- An undo gives back nothing that is confirmed. -/
theorem sameView_of_undo (h : SagaReaches settings config log) {pid : Nat}
    {input : SagaInput} {out : SagaOutcome}
    (hexec : sagaExec settings config.store (config.places pid) input = some out)
    {command : UndoConsumptionCommand} {named : List ItemId} {now : Timestamp}
    (hundo : config.store.inventory.undoConsumption command named now =
      .ok out.store.inventory) :
    SameView (isConfirmedOf workOrderId) config.store.inventory
      out.store.inventory := by
  have hshape := (sagaLedger_of_reaches h).1
  obtain ⟨posts, hposted, hposts⟩ := undoConsumption_ok hshape.items hundo
  obtain ⟨rows, hperm, hmovements⟩ := hposted.movements
  have hreturns := undo_postable hposts
  refine SameView.posted hmovements hposted.transitions (fun row hrow => ?_)
    fun row hrow => ?_
  · obtain ⟨hkind, -⟩ := hreturns row (hperm.mem_iff.mp hrow)
    exact isConfirmedOf_of_kind (by rw [hkind]; nofun)
  · obtain ⟨hkind, -, hoperation, target, htarget, hundoes, -⟩ :=
      hreturns row (hperm.mem_iff.mp hrow)
    obtain ⟨hmem, hcarries, hconsumption, -⟩ := mem_operationRows.mp htarget
    refine returnsOn_eq_false h (fun _ hchosen => (isConfirmedOf_iff.mp hchosen).1)
      hmem hconsumption hundoes ?_
    rw [Bool.eq_false_iff]
    intro hconfirmed
    obtain ⟨operationId, hmine, hwithdrawn⟩ := isSaved_iff.mp
      (isSaved_of_confirmed h hmem hconsumption (isConfirmedOf_iff.mp hconfirmed).2.2)
    refine (returns_of_reaches (h.turn pid input trivial hexec)).1 operationId
      (List.mem_append_left _ hwithdrawn) ⟨row, ?_, hkind, ?_⟩
    · rw [Config.after_store, hmovements]
      exact List.mem_append_right _ hrow
    · rw [hoperation, ← hcarries, hmine]

/-- The confirmation of another work order confirms none of the rows of this
one. -/
theorem sameView_of_confirm (h : SagaReaches settings config log)
    {step : StockStep} (hstep : Recorded config.store.steps step)
    (hkind : step.kind = .confirmConsumption) {operationId : OperationId}
    (hcarries : step.consumptionOperationId = some operationId)
    (hother : step.workOrderId ≠ workOrderId) (now : Timestamp) :
    SameView (isConfirmedOf workOrderId) config.store.inventory
      (config.store.inventory.confirmConsumptionsOfOperation operationId now) := by
  obtain ⟨confirmation, hrow, rfl⟩ := hstep
  have hsame := sameMovement_confirm operationId now
  have howner {row : MovementRow} (hmem : row ∈ config.store.inventory.movements)
      (htest : (row.operationId = some operationId && row.kind = .consumption &&
        row.confirmedAt.isNone) = true) : row.workOrderId ≠ some workOrderId := by
    simp only [Bool.and_eq_true, decide_eq_true_eq] at htest
    rw [confirmation_owner h hrow hkind hcarries hmem htest.1.2 htest.1.1]
    exact fun heq => hother (Option.some.inj heq)
  have hchosen : ∀ row ∈ config.store.inventory.movements,
      isConfirmedOf workOrderId (if row.operationId = some operationId &&
          row.kind = .consumption && row.confirmedAt.isNone
        then { row with confirmedAt := some now } else row) =
      isConfirmedOf workOrderId row := by
    intro row hmem
    split
    · rename_i htest
      simp [isConfirmedOf, howner hmem htest]
    · rfl
  refine ⟨rowsOn_map_of_fixed hsame hchosen fun row hrow => ?_,
    transitionsOn_map hsame rfl rfl hchosen⟩
  obtain ⟨hmem, hseen⟩ := mem_rowsOn.mp hrow
  rw [if_neg]
  intro htest
  rcases hseen with hconfirmed | hreturn
  · exact howner hmem htest (isConfirmedOf_iff.mp hconfirmed).2.1
  · rw [(returnsOn_iff.mp hreturn).1] at htest
    simp at htest

/-- The return of another work order posts on its own consumptions. -/
theorem sameView_of_restore (h : SagaReaches settings config log)
    {order : RowOrder MovementRow} {command : RestoreStockBatchCommand}
    {now : Timestamp} {db' : InventoryDb}
    (hrestore : config.store.inventory.restoreStockBatch order command now = .ok db')
    (hother : command.workOrderId ≠ workOrderId) :
    SameView (isConfirmedOf workOrderId) config.store.inventory db' := by
  have hshape := (sagaLedger_of_reaches h).1
  rcases restoreStockBatch_ok hshape.items hrestore with
    ⟨-, rfl⟩ | ⟨-, posts, hposted, hposts, -⟩
  · exact ⟨rfl, rfl⟩
  obtain ⟨rows, hperm, hmovements⟩ := hposted.movements
  have hreturns := restoreDraws_postable hposts
  refine SameView.posted hmovements hposted.transitions (fun row hrow => ?_)
    fun row hrow => ?_
  · obtain ⟨hkind, -⟩ := hreturns row (hperm.mem_iff.mp hrow)
    exact isConfirmedOf_of_kind (by rw [hkind]; nofun)
  · obtain ⟨hkind, -, -, target, htarget, hundoes, -⟩ :=
      hreturns row (hperm.mem_iff.mp hrow)
    obtain ⟨hmem, -, hopen, -⟩ := mem_pendingRows.mp htarget
    obtain ⟨howner, hconsumption, -⟩ := isOpenConsumption_iff.mp hopen
    refine returnsOn_eq_false h (fun _ hchosen => (isConfirmedOf_iff.mp hchosen).1)
      hmem hconsumption hundoes ?_
    simp [isConfirmedOf, howner, hother]

/-- The closing step of another work order closes its own consumptions. -/
theorem sameView_of_close (h : SagaReaches settings config log) {pid : Nat}
    {step : ClaimedStockStep} {queue : List ClaimedStockStep} {closure : Closure}
    {candidates : List ClosureCandidate}
    (hplace : config.places pid = .closing step queue closure candidates)
    (hother : step.workOrderId ≠ workOrderId) (actorUserId : UserId)
    (now : Timestamp) :
    SameView (isConfirmedOf workOrderId) config.store.inventory
      (config.store.inventory.closeConsumptions closure candidates actorUserId
        now) := by
  have hsame := sameMovement_close closure candidates
  have hstatuses := (rows_of_reaches h).1.statuses
  have hforeign {row : MovementRow} (hmem : row ∈ config.store.inventory.movements)
      (hcandidate : row.id ∈ candidates.map ClosureCandidate.movementId)
      (hpending : row.status = some .pending) :
      isConfirmedOf workOrderId row = false ∧ row.kind = .consumption := by
    have hkind : row.kind = .consumption := by
      by_contra hkind
      rw [hstatuses row hmem hkind] at hpending
      cases hpending
    obtain ⟨howner, -⟩ := closes_of_candidate h hplace hmem hkind hcandidate
    exact ⟨by simp [isConfirmedOf, howner, hother], hkind⟩
  constructor
  · refine rowsOn_map_of_fixed hsame
      (fun row _ => chosen_close (fun _ _ => rfl) closure row) fun row hrow => ?_
    obtain ⟨hmem, hseen⟩ := mem_rowsOn.mp hrow
    rw [if_neg]
    intro htest
    simp only [Bool.and_eq_true, decide_eq_true_eq] at htest
    obtain ⟨hnone, hkind⟩ := hforeign hmem htest.1 htest.2
    rcases hseen with hconfirmed | hreturn
    · exact Bool.false_ne_true (hnone.symm.trans hconfirmed)
    · rw [(returnsOn_iff.mp hreturn).1] at hkind
      cases hkind
  · rw [transitionsOn_close (fun _ _ => rfl), List.filter_eq_nil_iff.mpr, List.map_nil,
      List.append_nil]
    intro picked hpicked hseen
    obtain ⟨hmem, hcandidate, hpending⟩ := mem_closureRows.mp hpicked
    obtain ⟨hnone, hkind⟩ := hforeign hmem hcandidate hpending
    obtain ⟨row, hrow, htest⟩ := List.any_eq_true.mp hseen
    rw [Bool.and_eq_true, decide_eq_true_eq] at htest
    obtain rfl := (sagaLedger_of_reaches h).1.eq_of_id hrow
      (isConfirmedOf_iff.mp htest.1).1 hmem hkind htest.2
    exact Bool.false_ne_true (hnone.symm.trans htest.1)

end Others

section Own

variable {settings : OutboxSettings} {config : Config WorkshopDb SagaPlace}
variable {log : List SagaEffect} {alone : InventoryDb}

/-- The confirmation of a withdrawal, run on the confirmed rows of its work
order and the consumptions it finds. -/
theorem follows_confirm (h : SagaReaches settings config log)
    {step : StockStep} (hstep : Recorded config.store.steps step)
    (hkind : step.kind = .confirmConsumption) {operationId : OperationId}
    (hcarries : step.consumptionOperationId = some operationId) (now : Timestamp)
    (hview : IsView (isConfirmedOf step.workOrderId) config.store.inventory alone) :
    ∃ awaited movements, (∀ row ∈ awaited, AwaitedBy step row) ∧
      movements.Perm (alone.movements ++ awaited) ∧
      ∀ items nextId, IsView (isConfirmedOf step.workOrderId)
        (config.store.inventory.confirmConsumptionsOfOperation operationId now)
        (({ alone with items, movements, nextId } :
          InventoryDb).confirmConsumptionsOfOperation operationId now) := by
  obtain ⟨confirmation, hrow, rfl⟩ := hstep
  obtain ⟨carried, hcarried, hwithdrawn⟩ :=
    (withdrawals_of_reaches h).1.confirmed confirmation hrow hkind
  obtain rfl : carried = operationId := Option.some.inj (hcarried.symm.trans hcarries)
  have hsame := sameMovement_confirm carried now
  set finds : MovementRow → Bool := fun row => row.operationId = some carried &&
    row.kind = .consumption && row.confirmedAt.isNone with hfinds
  -- What the confirmation finds are consumptions of its work order, untouched.
  have hfound {row : MovementRow} (hmem : row ∈ config.store.inventory.movements)
      (htest : finds row = true) : row.operationId = some carried ∧
        row.kind = .consumption ∧ row.confirmedAt = none ∧
        row.workOrderId = some confirmation.workOrderId := by
    simp only [hfinds, Bool.and_eq_true, decide_eq_true_eq,
      Option.isNone_iff_eq_none] at htest
    exact ⟨htest.1.1, htest.1.2, htest.2,
      confirmation_owner h hrow hkind hcarries hmem htest.1.2 htest.1.1⟩
  have huntouched {row : MovementRow}
      (hmem : row ∈ config.store.inventory.movements) (htest : finds row = true) := by
    obtain ⟨hoperation, hconsumption, hnone, -⟩ := hfound hmem htest
    exact untouched_of_unconfirmed h hmem hconsumption
      (isSaved_iff.mpr ⟨carried, hoperation, hwithdrawn⟩) hnone
  have hchosen : ∀ row ∈ config.store.inventory.movements,
      isConfirmedOf confirmation.workOrderId (if finds row
        then { row with confirmedAt := some now } else row) =
      (isConfirmedOf confirmation.workOrderId row || finds row) := by
    intro row hmem
    split
    · rename_i htest
      obtain ⟨-, hconsumption, hnone, howner⟩ := hfound hmem htest
      simp [isConfirmedOf, hconsumption, howner, hnone, htest]
    · rename_i htest
      simp [htest]
  refine ⟨config.store.inventory.movements.filter finds,
    rowsOn (fun row => isConfirmedOf confirmation.workOrderId row || finds row)
      config.store.inventory.movements, fun row hawaited => ?_, ?_, ?_⟩
  · obtain ⟨hmem, htest⟩ := List.mem_filter.mp hawaited
    obtain ⟨hoperation, hconsumption, hnone, howner⟩ := hfound hmem htest
    exact ⟨hkind, hcarries.trans hoperation.symm, hconsumption, howner,
      (huntouched hmem htest).1, hnone⟩
  · rw [hview.movements]
    refine rowsOn_or_perm (fun row hmem htest => ?_) fun row hmem => ?_
    · obtain ⟨-, hconsumption, hnone, -⟩ := hfound hmem htest
      exact ⟨hconsumption, isConfirmedOf_of_none hnone⟩
    · rw [Bool.eq_false_iff]
      intro hreturn
      obtain ⟨hreturned, target, htarget, htest, hundoes⟩ := returnsOn_iff.mp hreturn
      exact (huntouched htarget htest).2.1 row hmem hreturned hundoes
  · intro items nextId
    constructor
    · exact (rowsOn_map hsame hchosen).symm
    · have hmarks : transitionsOn (isConfirmedOf confirmation.workOrderId)
          (config.store.inventory.confirmConsumptionsOfOperation carried now) =
          transitionsOn (fun row => isConfirmedOf confirmation.workOrderId row ||
            finds row) config.store.inventory :=
        transitionsOn_map hsame rfl rfl hchosen
      refine hview.transitions.trans (Eq.trans ?_ hmarks.symm)
      refine List.filter_congr fun transition htransition =>
        any_congr_of_mem fun row hmem => ?_
      cases htest : finds row with
      | false => simp [htest]
      | true =>
          have hne := (huntouched hmem htest).2.2 transition htransition
          simp [Ne.symm hne]

/-- Closing does not depend on the order of the candidates. -/
theorem closeConsumptions_congr {db : InventoryDb} (hshape : LedgerShape db)
    (hplain : ∀ row ∈ db.movements, row.kind ≠ .consumption → row.status = none)
    {closure : Closure} {workOrderId : WorkOrderId}
    {candidates : List ClosureCandidate}
    (hpicks : ∀ candidate, candidate ∈ candidates ↔
      candidate ∈ db.closureCandidates closure workOrderId)
    (actorUserId : UserId) (now : Timestamp) :
    db.closeConsumptions closure candidates actorUserId now =
      db.closeConsumptions closure (db.closureCandidates closure workOrderId)
        actorUserId now := by
  have hids (id : MovementId) : id ∈ candidates.map ClosureCandidate.movementId ↔
      id ∈ (db.closureCandidates closure workOrderId).map
        ClosureCandidate.movementId := by
    simp [hpicks]
  have hrows : db.closureRows candidates =
      db.closureRows (db.closureCandidates closure workOrderId) :=
    List.filter_congr fun row _ => by simp only [hids]
  simp only [InventoryDb.closeConsumptions, hids, hrows]
  congr 2
  refine List.map_congr_left fun row hrow => ?_
  obtain ⟨hmem, hcandidate, hpending⟩ := mem_closureRows.mp hrow
  have hkind : row.kind = .consumption := by
    by_contra hkind
    rw [hplain row hmem hkind] at hpending
    cases hpending
  rw [remainingOf_eq hcandidate (remaining_of_picked hshape (fun _ => Iff.rfl) hmem
      hkind hcandidate).1,
    remainingOf_eq ((hids _).mpr hcandidate) (remaining_of_picked hshape hpicks hmem
      hkind ((hids _).mpr hcandidate)).1]

/-- A closing step, run on the confirmed rows of its work order, closes the
same. -/
theorem follows_close (h : SagaReaches settings config log) {closure : Closure}
    {workOrderId : WorkOrderId} (actorUserId : UserId) (now : Timestamp)
    (hview : IsView (isConfirmedOf workOrderId) config.store.inventory alone)
    (items : List ItemRow) (nextId : Uuid) :
    IsView (isConfirmedOf workOrderId)
      (config.store.inventory.closeConsumptions closure
        (config.store.inventory.closureCandidates closure workOrderId) actorUserId now)
      (({ alone with items, nextId } : InventoryDb).closeConsumptions closure
        (({ alone with items, nextId } : InventoryDb).closureCandidates closure
          workOrderId) actorUserId now) := by
  have hshape := (sagaLedger_of_reaches h).1
  have halone : HoldsOnly (isConfirmedOf workOrderId) config.store.inventory
      { alone with
        items := config.store.inventory.items
        nextId := config.store.inventory.nextId } := ⟨rfl, rfl, hview.movements⟩
  have hcandidates : ({ alone with items, nextId } : InventoryDb).closureCandidates
      closure workOrderId =
        config.store.inventory.closureCandidates closure workOrderId :=
    halone.closureCandidates (isConfirmedOf_of_open h) closure
  rw [hcandidates]
  set candidates := config.store.inventory.closureCandidates closure workOrderId
  -- What is closed is chosen.
  have hpicked : ∀ row ∈ config.store.inventory.closureRows candidates,
      isConfirmedOf workOrderId row = true := by
    intro row hrow
    obtain ⟨hmem, hcandidate, hpending⟩ := mem_closureRows.mp hrow
    have hkind : row.kind = .consumption := by
      by_contra hkind
      rw [(rows_of_reaches h).1.statuses row hmem hkind] at hpending
      cases hpending
    obtain ⟨candidate, hfound, hid⟩ := List.mem_map.mp hcandidate
    obtain ⟨offered, hopen, htest, -, rfl⟩ := mem_closureCandidates.mp hfound
    obtain rfl := hshape.eq_of_id hopen (isOpenConsumption_iff.mp htest).2.1 hmem hkind
      hid
    exact isConfirmedOf_of_open h _ hmem htest
  have hrows : ({ alone with items, nextId } : InventoryDb).closureRows candidates =
      config.store.inventory.closureRows candidates := by
    rw [InventoryDb.closureRows, InventoryDb.closureRows, hview.movements, rowsOn,
      List.filter_filter]
    refine List.filter_congr fun row hmem => ?_
    cases htest : decide (row.id ∈ candidates.map ClosureCandidate.movementId) &&
        decide (row.status = some .pending) with
    | false => simp
    | true =>
        have hchosen := hpicked row (List.mem_filter.mpr ⟨hmem, htest⟩)
        simp [hchosen]
  constructor
  · refine Eq.trans ?_ (rowsOn_map (sameMovement_close closure candidates)
      fun row _ => chosen_close (fun _ _ => rfl) closure row).symm
    exact congrArg _ hview.movements
  · rw [transitionsOn_close (fun _ _ => rfl), List.filter_eq_self.mpr fun row hrow => ?_]
    · exact congr_arg₂ (· ++ ·) hview.transitions (congrArg (List.map _) hrows)
    · obtain ⟨hmem, -⟩ := mem_closureRows.mp hrow
      exact List.any_eq_true.mpr ⟨row, hmem, by simp [hpicked row hrow]⟩

end Own

section Runs

variable {settings : OutboxSettings} {config : Config WorkshopDb SagaPlace}
variable {log : List SagaEffect} {workOrderId : WorkOrderId}

/-- A move that applies no step of a work order for the first time leaves its
confirmed rows and their transitions. -/
theorem sameView_of_exec (h : SagaReaches settings config log) {pid : Nat}
    {input : SagaInput} {out : SagaOutcome}
    (hexec : sagaExec settings config.store (config.places pid) input = some out)
    (hother : ∀ step, .applied step ∈ out.effects →
      step.workOrderId = workOrderId → .applied step ∈ log) :
    SameView (isConfirmedOf workOrderId) config.store.inventory
      out.store.inventory := by
  by_cases hrepeat : ∃ step, .applied step ∈ out.effects ∧ .applied step ∈ log
  · obtain ⟨step, happlied, hbefore⟩ := hrepeat
    rw [reapplied h hexec happlied hbefore]
    exact ⟨rfl, rfl⟩
  have hforeign : ∀ step, .applied step ∈ out.effects →
      step.workOrderId ≠ workOrderId := fun step happlied howner =>
    hrepeat ⟨step, happlied, hother step happlied howner⟩
  have hrecorded : ∀ step, .applied step ∈ out.effects →
      Recorded config.store.steps step := fun _ happlied =>
    (applied_of_exec h hexec happlied).2.1
  obtain ⟨hshape, hplain⟩ := sagaLedger_of_reaches h
  have hstock := (sagaMove_of_exec hexec).stock
  generalize hplace : config.places pid = place at hstock
  generalize out.place = next at hstock
  generalize out.effects = effects at hstock hforeign hrecorded
  generalize hdb : out.store.inventory = db' at hstock ⊢
  cases hstock with
  | quiet _ _ nextId hle _ hnone => exact ⟨rfl, rfl⟩
  | save item _ hsave =>
      obtain ⟨row, -, -, -, -, rfl⟩ := save_ok hsave
      refine SameView.posted rfl rfl (fun row hrow => ?_) fun row hrow => ?_
      · obtain ⟨movement, hmovement, rfl⟩ := List.mem_map.mp hrow
        exact isConfirmedOf_of_none rfl
      · obtain ⟨movement, hmovement, rfl⟩ := List.mem_map.mp hrow
        have hreturned := (hplain pid item hplace movement hmovement).noReturn
        rw [Bool.eq_false_iff]
        exact fun hreturn => hreturned (returnsOn_iff.mp hreturn).1
  | consume withdrawal now _ hconsume =>
      obtain ⟨posts, hposted, hposts⟩ := consumeStockBatch_ok hshape.items hconsume
      obtain ⟨rows, hperm, hmovements⟩ := hposted.movements
      refine SameView.posted hmovements hposted.transitions (fun row hrow => ?_)
        fun row hrow => ?_
      · obtain ⟨line, -, hconsumed⟩ := exists_left_of_forall₂ hposts
          (hperm.mem_iff.mp hrow)
        exact isConfirmedOf_of_none hconsumed.confirmedAt
      · obtain ⟨line, -, hconsumed⟩ := exists_left_of_forall₂ hposts
          (hperm.mem_iff.mp hrow)
        simp [returnsOn, hconsumed.kind]
  | undo errand named now _ hundo =>
      rw [← hdb] at hundo ⊢
      exact sameView_of_undo h hexec hundo
  | confirm step queue operationId now hkind hcarries =>
      exact sameView_of_confirm h (hrecorded _ List.mem_cons_self) hkind hcarries
        (hforeign _ List.mem_cons_self) now
  | restore step queue order now _ hkind hrestore =>
      exact sameView_of_restore h hrestore (hforeign _ List.mem_cons_self)
  | close step queue closure candidates now =>
      exact sameView_of_close h hplace (hforeign _ List.mem_cons_self) _ now

/-- The first application of a step does what the step does alone, on the
confirmed rows of its work order. -/
theorem runs_of_exec (h : SagaReaches settings config log) {pid : Nat}
    {input : SagaInput} {out : SagaOutcome}
    (hexec : sagaExec settings config.store (config.places pid) input = some out)
    {step : StockStep} (happlied : .applied step ∈ out.effects)
    (hfirst : .applied step ∉ log) {steps : List StockStep} {alone : InventoryDb}
    (hruns : OneAfterAnother steps alone)
    (hview : IsView (isConfirmedOf step.workOrderId) config.store.inventory alone) :
    ∃ alone', OneAfterAnother (steps ++ [step]) alone' ∧
      IsView (isConfirmedOf step.workOrderId) out.store.inventory alone' := by
  obtain ⟨hkept, hrecorded, -⟩ := applied_of_exec h hexec happlied
  have hshape := (sagaLedger_of_reaches h).1
  have hpicks := (closings_of_reaches h).2 pid
  have hstock := (sagaMove_of_exec hexec).stock
  generalize hplace : config.places pid = place at hstock hpicks
  generalize out.place = next at hstock
  generalize out.effects = effects at hstock happlied
  generalize out.store.inventory = db' at hstock ⊢
  cases hstock with
  | quiet _ _ nextId hle _ hnone => exact absurd happlied (hnone step)
  | confirm claimed queue operationId now hkind hcarries =>
      obtain rfl : step = claimed.toStockStep := by simpa using happlied
      obtain ⟨awaited, movements, hawaited, hperm, hafter⟩ :=
        follows_confirm h hrecorded hkind hcarries now hview
      exact ⟨_, hruns.run _ config.store.inventory.items config.store.inventory.nextId
        awaited movements hawaited hperm (.confirm operationId now hkind hcarries),
        hafter _ _⟩
  | restore claimed queue order now _ hkind hrestore =>
      obtain rfl : step = claimed.toStockStep := by simpa using happlied
      rcases restoreStockBatch_ok hshape.items hrestore with ⟨hrepeat, -⟩ | ⟨hnew, -⟩
      · exact absurd (applied_of_hasReturn h hrecorded hkept
          (hasReturnOfOperation_iff.mp hrepeat)) hfirst
      · obtain ⟨alone', hrun, hafter⟩ := hview.restore hshape.items hnew hrestore
          (fun _ hchosen => (isConfirmedOf_iff.mp hchosen).1) (isConfirmedOf_of_open h)
        exact ⟨alone', hruns.run _ config.store.inventory.items
          config.store.inventory.nextId [] alone.movements
          (fun _ hrow => absurd hrow List.not_mem_nil) (by rw [List.append_nil])
          (.restore order now hkind hrun), hafter⟩
  | close claimed queue closure candidates now =>
      obtain rfl : step = claimed.toStockStep := by simpa using happlied
      have hcloses := closing_kind h hplace
      have hcurrent := hpicks.resolve_left fun hdone => hfirst hdone.1
      rw [closeConsumptions_congr hshape (rows_of_reaches h).1.statuses hcurrent]
      exact ⟨_, hruns.run _ config.store.inventory.items config.store.inventory.nextId
        [] alone.movements (fun _ hrow => absurd hrow List.not_mem_nil)
        (by rw [List.append_nil]) (.close closure now hcloses),
        follows_close h _ now hview _ _⟩
  | _ => simp at happlied

end Runs

/-- A list splits in one way into what passes a test and a rest that begins
with what does not. -/
theorem split_unique {α : Type} {p : α → Prop} {done waiting older newer : List α}
    {a : α} (hsplit : done ++ waiting = older ++ a :: newer)
    (hdone : ∀ b ∈ done, p b) (hwaiting : ∀ b ∈ waiting, ¬ p b)
    (holder : ∀ b ∈ older, p b) (ha : ¬ p a) :
    done = older ∧ waiting = a :: newer := by
  rcases List.append_eq_append_iff.mp hsplit with
    ⟨middle, rfl, rfl⟩ | ⟨middle, rfl, hrest⟩
  · cases middle with
    | nil => exact ⟨(List.append_nil _).symm, rfl⟩
    | cons head middle =>
        exact absurd (holder head (by simp)) (hwaiting head (by simp))
  · cases middle with
    | nil => exact ⟨List.append_nil _, hrest.symm⟩
    | cons head middle =>
        obtain ⟨rfl, -⟩ := List.cons.inj hrest
        exact absurd (hdone a (by simp)) ha

section Order

variable {settings : OutboxSettings} {config : Config WorkshopDb SagaPlace}
variable {log : List SagaEffect} {workOrderId : WorkOrderId} {pid : Nat}
variable {input : SagaInput} {out : SagaOutcome} {done waiting : List StockStep}
variable {alone : InventoryDb}

/-- A move applies one step at most. -/
theorem StockChange.applied_unique {db db' : InventoryDb} {place next : SagaPlace}
    {effects : List SagaEffect} (h : StockChange db place next effects db')
    {step other : StockStep} (hstep : .applied step ∈ effects)
    (hother : .applied other ∈ effects) : step = other := by
  cases h with
  | quiet _ _ nextId hle _ hnone => exact absurd hstep (hnone step)
  | save | consume | undo => simp at hstep
  | confirm | restore | close =>
      rw [List.mem_singleton, SagaEffect.applied.injEq] at hstep hother
      exact hstep.trans hother.symm

/-- The step a work order applies next is the oldest that waits. -/
theorem AppliedAlone.next (h : SagaReaches settings config log)
    (halone : AppliedAlone config.store log workOrderId done waiting alone)
    (hexec : sagaExec settings config.store (config.places pid) input = some out)
    {step : StockStep} (happlied : .applied step ∈ out.effects)
    (howner : step.workOrderId = workOrderId) (hfirst : .applied step ∉ log) :
    ∃ rest, waiting = step :: rest ∧ step ∉ rest := by
  obtain ⟨hkind, older, row, newer, hsplit, rfl, hdone⟩ :=
    applied_in_order h hexec happlied
  have hids := (outbox_of_reaches h).1.ids
  have hsteps := halone.steps
  rw [hsplit, stepsOf_split howner hkind] at hsteps
  have hnodup := stepsOf_nodup workOrderId hids
  rw [hsplit, stepsOf_split howner hkind] at hnodup
  have holder : ∀ old ∈ stepsOf older workOrderId, .applied old ∈ log := by
    intro old hold
    obtain ⟨⟨oldRow, hmem, rfl⟩, hsame, hundo⟩ := mem_stepsOf.mp hold
    exact (order_of_reaches h).1.done oldRow (by simp [hsplit, hmem]) hundo
      (hdone oldRow hmem (hsame.trans howner.symm) hundo)
  obtain ⟨-, hwaiting⟩ := split_unique hsteps.symm halone.applied halone.waits holder
    hfirst
  refine ⟨_, hwaiting, fun hmem => ?_⟩
  exact (List.nodup_cons.mp (List.nodup_append.mp hnodup).2.1).1 hmem

/-- The steps a move records are new to the log. -/
theorem added_not_applied (h : SagaReaches settings config log)
    (hexec : sagaExec settings config.store (config.places pid) input = some out)
    {added : List StockStep}
    (hnew : ∀ step ∈ added, ¬ Recorded config.store.steps step) :
    ∀ step ∈ added, .applied step ∉ log ++ out.effects := by
  intro step hstep happlied
  refine hnew step hstep ?_
  rcases List.mem_append.mp happlied with happlied | happlied
  · exact ((order_of_reaches h).1.applied step happlied).2.1
  · exact (applied_of_exec h hexec happlied).2.1

/-- A move that applies a step for the first time runs the oldest that waits. -/
theorem AppliedAlone.run (halone : AppliedAlone config.store log workOrderId done
      waiting alone)
    (h : SagaReaches settings config log)
    (hexec : sagaExec settings config.store (config.places pid) input = some out)
    {step : StockStep} (happlied : .applied step ∈ out.effects)
    (howner : step.workOrderId = workOrderId) (hfirst : .applied step ∉ log) :
    ∃ done waiting alone, AppliedAlone out.store (log ++ out.effects) workOrderId done
      waiting alone := by
  obtain ⟨added, hsteps, hnew⟩ := stepsOf_of_exec h hexec workOrderId
  obtain ⟨rest, rfl, hrest⟩ := halone.next h hexec happlied howner hfirst
  subst howner
  obtain ⟨alone', hruns, hview⟩ :=
    runs_of_exec h hexec happlied hfirst halone.runs halone.view
  refine ⟨done ++ [step], rest ++ added, alone', ?_, ?_, ?_, hruns, hview⟩
  · rw [hsteps, halone.steps]
    simp
  · intro other hother
    rcases List.mem_append.mp hother with hother | hother
    · exact List.mem_append_left _ (halone.applied other hother)
    · rw [List.mem_singleton.mp hother]
      exact List.mem_append_right _ happlied
  · intro other hother hagain
    rcases List.mem_append.mp hother with hother | hother
    · rcases List.mem_append.mp hagain with hagain | hagain
      · exact halone.waits other (List.mem_cons_of_mem _ hother) hagain
      · have hsame := (sagaMove_of_exec hexec).stock.applied_unique happlied hagain
        exact hrest (hsame ▸ hother)
    · exact added_not_applied h hexec hnew other hother hagain

/-- Any other move leaves what was applied, and its steps wait. -/
theorem AppliedAlone.wait (halone : AppliedAlone config.store log workOrderId done
      waiting alone)
    (h : SagaReaches settings config log)
    (hexec : sagaExec settings config.store (config.places pid) input = some out)
    (hother : ∀ step, .applied step ∈ out.effects →
      step.workOrderId = workOrderId → .applied step ∈ log) :
    ∃ done waiting alone, AppliedAlone out.store (log ++ out.effects) workOrderId done
      waiting alone := by
  obtain ⟨added, hsteps, hnew⟩ := stepsOf_of_exec h hexec workOrderId
  refine ⟨done, waiting ++ added, alone, ?_, ?_, ?_, halone.runs,
    halone.view.mono (sameView_of_exec h hexec hother)⟩
  · rw [hsteps, halone.steps, List.append_assoc]
  · exact fun step hstep => List.mem_append_left _ (halone.applied step hstep)
  · intro step hstep happlied
    rcases List.mem_append.mp hstep with hstep | hstep
    · have hmem : step ∈ stepsOf config.store.steps workOrderId := by
        rw [halone.steps]
        exact List.mem_append_right _ hstep
      rcases List.mem_append.mp happlied with happlied | happlied
      · exact halone.waits step hstep happlied
      · exact halone.waits step hstep (hother step happlied (mem_stepsOf.mp hmem).2.1)
    · exact added_not_applied h hexec hnew step hstep happlied

/-- What inventory shows of the applied steps of a work order is what they
leave when they run alone. -/
theorem appliedAlone_of_reaches (h : SagaReaches settings config log)
    (workOrderId : WorkOrderId) : ∃ done waiting alone,
      AppliedAlone config.store log workOrderId done waiting alone := by
  refine ReachesBy.invariant (P := fun config log => ∃ done waiting alone,
    AppliedAlone config.store log workOrderId done waiting alone) ?_ ?_ h
  · exact ⟨[], [], {}, rfl, fun _ hstep => absurd hstep List.not_mem_nil,
      fun _ hstep => absurd hstep List.not_mem_nil, .start, rfl, rfl⟩
  intro config log pid input out before ⟨done, waiting, alone, halone⟩ _ hexec
  rw [Config.after_store]
  by_cases hmine : ∃ step, .applied step ∈ out.effects ∧
      step.workOrderId = workOrderId ∧ .applied step ∉ log
  · obtain ⟨step, happlied, howner, hfirst⟩ := hmine
    exact halone.run before hexec happlied howner hfirst
  · refine halone.wait before hexec fun step happlied howner => ?_
    by_contra hfirst
    exact hmine ⟨step, happlied, howner, hfirst⟩

end Order

/-- The ledger of the saved withdrawals of a work order is the one its steps
leave that were applied, run once each, one after another, in the order they
were recorded.  Beside it stand the consumptions whose confirmation waits. -/
def RunsInOrder (db : WorkshopDb) (log : List SagaEffect)
    (workOrderId : WorkOrderId) : Prop :=
  ∃ done waiting alone awaited,
    stepsOf db.steps workOrderId = done ++ waiting ∧
    (∀ step ∈ done, .applied step ∈ log) ∧
    (∀ step ∈ waiting, .applied step ∉ log) ∧
    OneAfterAnother done alone ∧
    (rowsOn (isSavedOf log workOrderId) db.inventory.movements).Perm
      (alone.movements ++ awaited) ∧
    transitionsOn (isSavedOf log workOrderId) db.inventory = alone.transitions ∧
    ∀ row ∈ awaited, ∃ step ∈ waiting, AwaitedBy step row

section Main

variable {settings : OutboxSettings} {config : Config WorkshopDb SagaPlace}
variable {log : List SagaEffect} {workOrderId : WorkOrderId}

/-- A consumption of a saved withdrawal that is not confirmed is awaited by a
step that was not applied. -/
theorem awaitedBy_of_unconfirmed (h : SagaReaches settings config log)
    {row : MovementRow} (hrow : row ∈ config.store.inventory.movements)
    (hkind : row.kind = .consumption) (howner : row.workOrderId = some workOrderId)
    (hsaved : isSaved log row = true) (hnone : row.confirmedAt = none) :
    ∃ step ∈ stepsOf config.store.steps workOrderId, .applied step ∉ log ∧
      AwaitedBy step row := by
  obtain ⟨operationId, hoperation, hwithdrawn⟩ := isSaved_iff.mp hsaved
  obtain ⟨confirmation, hmem, hconfirms, hcarries⟩ := confirmation_of_saved h hwithdrawn
  have hmine := confirmation_owner h hmem hconfirms hcarries hrow hkind hoperation
  refine ⟨confirmation.toStockStep, mem_stepsOf.mpr ⟨⟨confirmation, hmem, rfl⟩, ?_, ?_⟩,
    fun happlied => ?_, hconfirms, hcarries.trans hoperation.symm, hkind, hmine,
    (untouched_of_unconfirmed h hrow hkind hsaved hnone).1, hnone⟩
  · exact Option.some.inj (hmine.symm.trans howner)
  · rw [hconfirms]
    nofun
  · have hconfirmed := (applied_of_reaches h).confirmed _ happlied hconfirms operationId
      hcarries row hrow hkind hoperation
    rw [hnone] at hconfirmed
    cases hconfirmed

/-- In every reachable state the ledger of a work order is that of its steps run
one after another. -/
theorem runsInOrder_of_reaches (h : SagaReaches settings config log)
    (workOrderId : WorkOrderId) : RunsInOrder config.store log workOrderId := by
  obtain ⟨done, waiting, alone, halone⟩ := appliedAlone_of_reaches h workOrderId
  set waits : MovementRow → Bool := fun row =>
    isSavedOf log workOrderId row && row.confirmedAt.isNone with hwaits
  have hwaiting {row : MovementRow} (htest : waits row = true) :
      row.kind = .consumption ∧ row.workOrderId = some workOrderId ∧
        isSaved log row = true ∧ row.confirmedAt = none := by
    simpa [hwaits, isSavedOf, and_assoc] using htest
  have huntouched {row : MovementRow}
      (hrow : row ∈ config.store.inventory.movements) (htest : waits row = true) := by
    obtain ⟨hkind, -, hsaved, hnone⟩ := hwaiting htest
    exact untouched_of_unconfirmed h hrow hkind hsaved hnone
  -- What is saved is confirmed or waits.
  have hsplit : ∀ row ∈ config.store.inventory.movements,
      isSavedOf log workOrderId row =
        (isConfirmedOf workOrderId row || waits row) := by
    intro row hrow
    cases hconfirmed : row.confirmedAt with
    | none => simp [hwaits, isConfirmedOf, hconfirmed]
    | some time =>
        by_cases hkind : row.kind = .consumption
        · have hsaved := isSaved_of_confirmed h hrow hkind (by simp [hconfirmed])
          simp [hwaits, isSavedOf, isConfirmedOf, hconfirmed, hsaved]
        · simp [hwaits, isSavedOf, isConfirmedOf, hkind]
  refine ⟨done, waiting, alone, config.store.inventory.movements.filter waits,
    halone.steps, halone.applied, halone.waits, halone.runs, ?_, ?_, ?_⟩
  · rw [rowsOn_congr hsplit, halone.view.movements]
    refine rowsOn_or_perm (fun row _ htest => ?_) fun row hrow => ?_
    · obtain ⟨hkind, -, -, hnone⟩ := hwaiting htest
      exact ⟨hkind, isConfirmedOf_of_none hnone⟩
    · rw [Bool.eq_false_iff]
      intro hreturn
      obtain ⟨hreturned, target, htarget, htest, hundoes⟩ := returnsOn_iff.mp hreturn
      exact (huntouched htarget htest).2.1 row hrow hreturned hundoes
  · rw [transitionsOn_congr hsplit, halone.view.transitions]
    refine List.filter_congr fun transition htransition =>
      any_congr_of_mem fun row hrow => ?_
    cases htest : waits row with
    | false => simp [htest]
    | true =>
        have hne := (huntouched hrow htest).2.2 transition htransition
        simp [Ne.symm hne]
  · intro row hrow
    obtain ⟨hmem, htest⟩ := List.mem_filter.mp hrow
    obtain ⟨hkind, howner, hsaved, hnone⟩ := hwaiting htest
    obtain ⟨step, hstep, hunapplied, hawaited⟩ :=
      awaitedBy_of_unconfirmed h hmem hkind howner hsaved hnone
    rw [halone.steps] at hstep
    rcases List.mem_append.mp hstep with hstep | hstep
    · exact absurd (halone.applied step hstep) hunapplied
    · exact ⟨step, hstep, hawaited⟩

/-- The outbox applies each step once and in order.  An application finds the
older steps of its work order done and changes nothing when it repeats an
earlier one, a step that is done was applied, and the ledger of every work order
is that of its steps run one after another. -/
theorem outbox_applied_once_in_order (h : SagaReaches settings config log) :
    (∀ pid input out,
      sagaExec settings config.store (config.places pid) input = some out →
      ∀ step, .applied step ∈ out.effects →
        (∃ older row newer, config.store.steps = older ++ row :: newer ∧
          row.toStockStep = step ∧ OlderDone older row) ∧
        (.applied step ∈ log → out.store.inventory = config.store.inventory)) ∧
    (∀ row ∈ config.store.steps, row.kind ≠ .undoConsumption → row.status = .done →
      .applied row.toStockStep ∈ log) ∧
    ∀ workOrderId, RunsInOrder config.store log workOrderId := by
  refine ⟨fun pid input out hexec step happlied => ⟨?_, ?_⟩, ?_, ?_⟩
  · exact (applied_in_order h hexec happlied).2
  · exact reapplied h hexec happlied
  · exact (order_of_reaches h).1.done
  · exact runsInOrder_of_reaches h

end Main

namespace SagaWitness

/-- The step of a return is claimed twice, as the first claim expired, and the
second applier stands at it after the first has applied it. -/
def reclaimed : Config WorkshopDb SagaPlace × List SagaEffect :=
  endOfRun (sagaExec settings) emptyWorkshop
    (inExecution [part] ++ withdrawing 0 10 ++ proceed 0 5 11 ++
      (0, .request "OS-1" (.returnParts two)) :: proceed 0 5 12 ++
      (1, .applyDue) :: proceed 1 1 40000 ++ proceed 0 1 40001)
    (by decide +kernel)

theorem reaches_reclaimed : SagaReaches settings reclaimed.1 reclaimed.2 :=
  reaches_endOfRun _

/-- The effects of the second application are those of the first. -/
theorem outbox_applied_once_in_order_reclaimed :
    (∃ out step,
      sagaExec settings reclaimed.1.store (reclaimed.1.places 1)
        (.proceed { now := 40002 }) = some out ∧
      step.kind = .restore ∧ .applied step ∈ out.effects ∧
      .applied step ∈ reclaimed.2 ∧
      out.store.inventory = reclaimed.1.store.inventory) ∧
    ∀ workOrderId, RunsInOrder reclaimed.1.store reclaimed.2 workOrderId := by
  obtain ⟨hmoves, -, hruns⟩ := outbox_applied_once_in_order reaches_reclaimed
  have hagain : ((sagaExec settings reclaimed.1.store (reclaimed.1.places 1)
      (.proceed { now := 40002 })).map fun out => out.effects) =
        some reclaimed.2.getLast?.toList := by decide +kernel
  have hrestore : (reclaimed.2.getLast?.toList.any fun effect =>
      match effect with
      | .applied step => step.kind = .restore
      | _ => false) = true := by decide +kernel
  obtain ⟨out, hexec, heffects⟩ := Option.map_eq_some_iff.mp hagain
  obtain ⟨effect, hlast, hkind⟩ := List.any_eq_true.mp hrestore
  have hbefore : effect ∈ reclaimed.2 :=
    List.mem_of_getLast? (Option.mem_toList.mp hlast)
  rw [← heffects] at hlast
  cases effect with
  | applied step =>
      exact ⟨⟨out, step, hexec, of_decide_eq_true hkind, hlast, hbefore,
        (hmoves 1 _ out hexec step hlast).2 hbefore⟩, hruns⟩
  | _ => cases hkind

end SagaWitness

end WorkOrders

end Workshop
