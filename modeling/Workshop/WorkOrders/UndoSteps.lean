/-
The undo steps of withdrawals.  A withdrawal that was saved is never undone,
and one that was not saved keeps a step that is still open until its units are
back, unless its undo read the ledger before the units were taken.
-/
import Mathlib.Data.List.Dedup
import Workshop.WorkOrders.Provenance

namespace Workshop

namespace WorkOrders

open Inventory

/-- A return on behalf of an operation. -/
def HasReturn (movements : List MovementRow) (operationId : OperationId) : Prop :=
  ∃ row ∈ movements, row.kind = .returned ∧ row.operationId = some operationId

/-- The consumptions of an operation have no unit left. -/
def Settled (db : InventoryDb) (operationId : OperationId) : Prop :=
  ∀ row ∈ db.movements, row.kind = .consumption →
    row.operationId = some operationId → db.netRemaining row ≤ 0

/-- The undo of an applier found nothing to give back, and the consumption was
not committed before that. -/
def UndoneEarly (log : List SagaEffect) (operationId : OperationId) : Prop :=
  ∃ before after, log = before ++ .foundNothing operationId :: after ∧
    .consumed operationId ∉ before

section Returns

variable {settings : OutboxSettings} {config later : Config WorkshopDb SagaPlace}
variable {log more : List SagaEffect} {pid : Nat} {input : SagaInput}
variable {out : SagaOutcome}

/-- A return was there before the move, or the program that moved posts it for
the step it works on. -/
theorem hasReturn_of_exec (h : SagaReaches settings config log)
    (hexec : sagaExec settings config.store (config.places pid) input = some out)
    {operationId : OperationId}
    (hreturn : HasReturn out.store.inventory.movements operationId) :
    HasReturn config.store.inventory.movements operationId ∨
      (∃ errand named, config.places pid = .undoing errand named ∧
        errand.step.operationId = operationId) ∨
      ∃ step queue, config.places pid = .applying step queue ∧
        step.kind = .restore ∧ step.operationId = operationId := by
  obtain ⟨row', hrow', hkind, hoperation⟩ := hreturn
  rcases (movements_of_exec h hexec).mem hrow' with
    ⟨row, hrow, hevolves⟩ | hplain | hposted
  · exact Or.inl ⟨row, hrow, hevolves.same.kind ▸ hkind,
      hevolves.same.operationId ▸ hoperation⟩
  · exact absurd hkind hplain.noReturn
  · cases hposted with
    | consumption withdrawal line hplace heffect hline hrow =>
        rw [hrow.kind] at hkind
        cases hkind
    | undone errand named target hplace _ _ hsame =>
        exact Or.inr (Or.inl ⟨errand, named, hplace,
          Option.some.inj (hsame.symm.trans hoperation)⟩)
    | restored step queue target hplace _ hrestore _ _ hsame =>
        exact Or.inr (Or.inr ⟨step, queue, hplace, hrestore,
          Option.some.inj (hsame.symm.trans hoperation)⟩)

theorem hasReturn_later (h : SagaReaches settings config log)
    (hmore : Reaches (sagaExec settings) config later more)
    {operationId : OperationId}
    (hreturn : HasReturn config.store.inventory.movements operationId) :
    HasReturn later.store.inventory.movements operationId := by
  induction hmore with
  | start => exact hreturn
  | turn pid input before _ hexec ih =>
      obtain ⟨row, hrow, hkind, hoperation⟩ := ih
      obtain ⟨row', hrow', hevolves⟩ :=
        (movements_of_exec (h.trans before) hexec).kept hrow
      exact ⟨row', hrow', hevolves.same.kind.trans hkind,
        hevolves.same.operationId.trans hoperation⟩

/-- A program that restores does so for a step that is no undo. -/
theorem restoring_ne_armed (h : SagaReaches settings config log)
    {step : ClaimedStockStep} {queue : List ClaimedStockStep}
    (hplace : config.places pid = .applying step queue)
    (hkind : step.kind = .restore) {undo : StockStep}
    (hundo : Recorded config.store.steps undo)
    (hundoKind : undo.kind = .undoConsumption) :
    step.operationId ≠ undo.operationId := by
  intro hid
  obtain ⟨houtbox, hworks⟩ := outbox_of_reaches h
  have hheld := (hworks pid).held step.toStockStep
    (by rw [hplace]; exact List.mem_cons_self)
  have hsame := hheld.eq_of_id houtbox.ids hundo hid
  rw [← hsame, hkind] at hundoKind
  cases hundoKind

/-- An undo gives back what was not saved. -/
theorem unsaved_of_undoing (h : SagaReaches settings config log)
    {errand : Errand} {named : List ItemId}
    (hplace : config.places pid = .undoing errand named) :
    .withdrawn errand.step.operationId ∉ log := by
  obtain ⟨hsound, harmed⟩ := withdrawals_of_reaches h
  cases errand with
  | compensation undo => exact harmed pid undo (by rw [hplace]; rfl)
  | application step queue =>
      intro hwithdrawn
      exact (hsound.withdrawn _ hwithdrawn).unclaimed
        (((outbox_of_reaches h).2 pid).claimed step.toStockStep
          (by rw [hplace]; exact List.mem_cons_self))

/-- Nothing gives back a withdrawal that was saved: its undo is done, and a restore
has an operation id of its own. -/
theorem no_return_of_saved (h : SagaReaches settings config log)
    (hexec : sagaExec settings config.store (config.places pid) input = some out)
    {operationId : OperationId} (hwithdrawn : .withdrawn operationId ∈ log)
    (hnone : ¬ HasReturn config.store.inventory.movements operationId) :
    ¬ HasReturn out.store.inventory.movements operationId := by
  intro hreturn
  rcases hasReturn_of_exec h hexec hreturn with
    hreturn | ⟨errand, named, hplace, hid⟩ | ⟨step, queue, hplace, hkind, hid⟩
  · exact hnone hreturn
  · subst hid
    exact unsaved_of_undoing h hplace hwithdrawn
  · obtain ⟨undo, hundo, -, -, hundoId, hundoKind, -⟩ :=
      ((withdrawals_of_reaches h).1.withdrawn operationId hwithdrawn).rows
    exact restoring_ne_armed h hplace hkind ⟨undo, hundo, rfl⟩ hundoKind
      (hid.trans hundoId.symm)

/-- A withdrawal is saved while its undo is armed, so nobody has claimed it. -/
theorem no_return_of_saving (h : SagaReaches settings config log)
    (hexec : sagaExec settings config.store (config.places pid) input = some out)
    (hclaimed : ∀ withdrawal, config.places pid = .committing withdrawal →
      HasReturn config.store.inventory.movements withdrawal.undo.operationId →
        .claimed withdrawal.undo.operationId ∈ log)
    {operationId : OperationId} (hwithdrawn : .withdrawn operationId ∈ out.effects) :
    ¬ HasReturn out.store.inventory.movements operationId := by
  have houtbox := (outbox_of_reaches h).1
  obtain ⟨withdrawal, now, hplace, rfl, hisArmed, -⟩ :=
    (sagaMove_of_exec hexec).withdraws hwithdrawn
  intro hreturn
  rcases hasReturn_of_exec h hexec hreturn with
    hreturn | ⟨errand, named, hplace', -⟩ | ⟨step, queue, hplace', -⟩
  · obtain ⟨row, hrow, hid, hstatus⟩ :=
      houtbox.claimed _ (hclaimed withdrawal hplace hreturn)
    obtain ⟨row', hrow', hid', hstatus'⟩ := isArmed_iff.mp hisArmed
    rw [eq_of_operationId houtbox.ids hrow hrow' (hid.trans hid'.symm)] at hstatus
    exact hstatus hstatus'
  · rw [hplace] at hplace'
    cases hplace'
  · rw [hplace] at hplace'
    cases hplace'

/-- A request consumes under an operation id that has left no row. -/
theorem no_return_of_consuming (h : SagaReaches settings config log)
    (hexec : sagaExec settings config.store (config.places pid) input = some out)
    {withdrawal : Withdrawal} (hnext : out.place = .committing withdrawal) :
    ¬ HasReturn out.store.inventory.movements withdrawal.undo.operationId := by
  have hcame := (sagaMove_of_exec hexec).cameFrom
  rw [CameFrom, hnext] at hcame
  have hknows := (rows_of_reaches h).2 pid
  rw [hcame.1] at hknows
  intro hreturn
  rcases hasReturn_of_exec h hexec hreturn with
    ⟨row, hrow, hkind, hid⟩ | ⟨errand, named, hplace, -⟩ | ⟨step, queue, hplace, -⟩
  · exact hknows.1 row hrow (Or.inr hkind) hid
  · rw [hcame.1] at hplace
    cases hplace
  · rw [hcame.1] at hplace
    cases hplace

/-- Another program gives a withdrawal back only as an applier that claimed its
undo. -/
theorem claimed_of_other (h : SagaReaches settings config log)
    (hexec : sagaExec settings config.store (config.places pid) input = some out)
    {other : Nat} (hne : other ≠ pid) {undo : StockStep}
    (hundo : (config.places other).armed = some undo)
    (hclaimed : HasReturn config.store.inventory.movements undo.operationId →
      .claimed undo.operationId ∈ log)
    (hreturn : HasReturn out.store.inventory.movements undo.operationId) :
    .claimed undo.operationId ∈ log := by
  obtain ⟨-, hworks⟩ := outbox_of_reaches h
  rcases hasReturn_of_exec h hexec hreturn with
    hreturn | ⟨errand, named, hplace, hid⟩ | ⟨step, queue, hplace, hkind, hid⟩
  · exact hclaimed hreturn
  · cases errand with
    | compensation held =>
        exact absurd hid (armed_distinct h pid other hne held undo
          (by rw [hplace]; rfl) hundo)
    | application step queue =>
        rw [← hid]
        exact (hworks pid).claimed step.toStockStep
          (by rw [hplace]; exact List.mem_cons_self)
  · exact absurd hid (restoring_ne_armed h hplace hkind
      ((hworks other).armed _ hundo) ((made_of_reaches h).2 other |>.undoKind hundo))

/-- A withdrawal that was saved has no return, and one about to be saved has
one only when its undo step was claimed. -/
theorem returns_of_reaches (h : SagaReaches settings config log) :
    (∀ operationId, .withdrawn operationId ∈ log →
      ¬ HasReturn config.store.inventory.movements operationId) ∧
    ∀ pid withdrawal, config.places pid = .committing withdrawal →
      HasReturn config.store.inventory.movements withdrawal.undo.operationId →
        .claimed withdrawal.undo.operationId ∈ log := by
  refine ReachesBy.invariant_of_places
    (G := fun db log => ∀ operationId, .withdrawn operationId ∈ log →
      ¬ HasReturn db.inventory.movements operationId)
    (L := fun db log place => ∀ withdrawal, place = .committing withdrawal →
      HasReturn db.inventory.movements withdrawal.undo.operationId →
        .claimed withdrawal.undo.operationId ∈ log)
    (fun _ hmem => absurd hmem List.not_mem_nil)
    (fun _ _ hidle => by cases hidle) ?_ ?_ h
  · intro config log pid input out before hnone hclaimed _ hexec
    refine ⟨fun operationId hwithdrawn => ?_, fun withdrawal hnext hreturn =>
      absurd hreturn (no_return_of_consuming before hexec hnext)⟩
    rcases List.mem_append.mp hwithdrawn with hwithdrawn | hwithdrawn
    · exact no_return_of_saved before hexec hwithdrawn (hnone operationId hwithdrawn)
    · exact no_return_of_saving before hexec (hclaimed pid) hwithdrawn
  · intro config log pid input out before _ hclaimed _ hexec other hne withdrawal
      hother hreturn
    exact List.mem_append_left _ (claimed_of_other before hexec hne
      (by rw [hother]; rfl) (hclaimed other withdrawal hother) hreturn)

/-- The save and the undo of a withdrawal exclude each other: in a run that
commits the save, before or after, no state has a return of the operation, and
no applier claims its undo step. -/
theorem undo_and_save_exclude (h : SagaReaches settings config log)
    (hmore : Reaches (sagaExec settings) config later more)
    (operationId : OperationId) :
    (.withdrawn operationId ∈ log ++ more →
      ∀ row ∈ config.store.inventory.movements, row.kind = .returned →
        row.operationId ≠ some operationId) ∧
    (.claimed operationId ∈ log ++ more → .withdrawn operationId ∉ log ++ more) := by
  have hlater := h.trans hmore
  constructor
  · intro hwithdrawn row hrow hkind hoperation
    exact (returns_of_reaches hlater).1 operationId hwithdrawn
      (hasReturn_later h hmore ⟨row, hrow, hkind, hoperation⟩)
  · intro hclaimed hwithdrawn
    exact ((withdrawals_of_reaches hlater).1.withdrawn operationId
      hwithdrawn).unclaimed hclaimed

end Returns

namespace SagaWitness

/-- The work order is in execution, with these parts approved. -/
def inExecution (parts : List OpeningPart) : List (Nat × SagaInput) :=
  stocked ++ opened parts ++ plainRequest 0 4 (.startDiagnosis 7) ++
    plainRequest 0 5 (.completeDiagnosis 7) ++
    plainRequest 0 6 (.approveBudget 7 none)

theorem three_pos : (0 : Int) < 3 := by decide

def three : BatchCommand where
  lines := [⟨3, 3, three_pos⟩]
  notEmpty := by decide
  actorUserId := 7

/-- A withdrawal of three units, up to the step it arms. -/
def withdrawing (pid : Nat) (now : Timestamp) : List (Nat × SagaInput) :=
  (pid, .request "OS-1" (.withdrawParts three)) :: proceed pid 4 now

def armed : Config WorkshopDb SagaPlace × List SagaEffect :=
  endOfRun (sagaExec settings) emptyWorkshop
    (inExecution [part] ++ withdrawing 0 10) (by decide +kernel)

/-- The withdrawal consumes and saves while its step is armed. -/
def saved : Config WorkshopDb SagaPlace × List SagaEffect :=
  endOfRun (sagaExec settings) armed.1 (proceed 0 2 11) (by decide +kernel)

theorem reaches_armed : SagaReaches settings armed.1 armed.2 :=
  reaches_endOfRun _

theorem reaches_saved : Reaches (sagaExec settings) armed.1 saved.1 saved.2 :=
  reaches_endOfRun _

theorem undo_and_save_exclude_saved :
    .withdrawn 10 ∈ armed.2 ++ saved.2 ∧
      (.withdrawn 10 ∈ armed.2 ++ saved.2 →
        ∀ row ∈ armed.1.store.inventory.movements, row.kind = .returned →
          row.operationId ≠ some 10) ∧
      (.claimed 10 ∈ armed.2 ++ saved.2 → .withdrawn 10 ∉ armed.2 ++ saved.2) :=
  ⟨by decide +kernel,
    undo_and_save_exclude reaches_armed reaches_saved 10⟩

end SagaWitness

section Settling

variable {db db' : InventoryDb} {place : SagaPlace} {effects : List SagaEffect}
variable {operationId : OperationId}

/-- What was returned on a movement is never taken back. -/
theorem MovementsChange.returnedTotal_le (hshape : LedgerShape db')
    (h : MovementsChange db place effects db'.movements)
    (movementId : MovementId) :
    db.returnedTotal movementId ≤ db'.returnedTotal movementId := by
  obtain ⟨kept, posts, hperm, hkept, -⟩ := h
  have hsame : returnedIn movementId db.movements = returnedIn movementId kept :=
    sumWhere_forall₂ (hkept.imp fun _ _ hrow => by
      rw [hrow.same.kind, hrow.same.undoesMovementId, hrow.same.quantity]
      exact ⟨rfl, rfl⟩)
  have hposts : 0 ≤ returnedIn movementId posts := by
    refine sumWhere_nonneg fun row hrow htest => ?_
    have hreturned : row.kind = .returned := by
      simp only [Bool.and_eq_true, decide_eq_true_eq] at htest
      exact htest.1
    exact (hshape.positive row
      (hperm.mem_iff.mpr (List.mem_append_right _ hrow)) (Or.inr hreturned)).le
  have hsum : db'.returnedTotal movementId = returnedIn movementId (kept ++ posts) :=
    sumWhere_perm hperm
  rw [hsum, returnedIn_append, returnedTotal_eq, hsame]
  omega

/-- An operation stays settled unless the move consumes for it. -/
theorem Settled.mono (hshape : LedgerShape db')
    (h : MovementsChange db place effects db'.movements)
    (hsettled : Settled db operationId) (hnone : .consumed operationId ∉ effects) :
    Settled db' operationId := by
  intro row' hrow' hkind hoperation
  rcases h.mem hrow' with ⟨row, hrow, hevolves⟩ | hplain | hposted
  · have hleft := hsettled row hrow (hevolves.same.kind ▸ hkind)
      (hevolves.same.operationId ▸ hoperation)
    have hreturned := h.returnedTotal_le hshape row.id
    simp only [InventoryDb.netRemaining] at hleft ⊢
    rw [hevolves.same.quantity, hevolves.same.id]
    omega
  · exact absurd hkind hplain.noConsumption
  · cases hposted with
    | consumption withdrawal line hplace heffect hline hrow =>
        have hid := Option.some.inj (hrow.operationId.symm.trans hoperation)
        exact absurd (hid ▸ heffect) hnone
    | undone errand named target hplace hreturned =>
        rw [hkind] at hreturned
        cases hreturned
    | restored step queue target hplace heffect hrestore hreturned =>
        rw [hkind] at hreturned
        cases hreturned

/-- An undo names no item exactly when there is nothing to give back. -/
theorem undoNames_eq_nil_iff {command : UndoConsumptionCommand} :
    db.undoNames command = [] ↔ Settled db command.operationId := by
  rw [List.eq_nil_iff_forall_not_mem]
  constructor
  · intro hnone row hrow hkind hoperation
    by_contra hleft
    apply hnone row.inventoryItemId
    rw [InventoryDb.undoNames, List.mem_dedup, List.mem_map]
    exact ⟨_, mem_findPendingConsumptionsOfOperation.mpr ⟨row, mem_operationRows.mpr
      ⟨hrow, hoperation, hkind, not_le.mp hleft⟩, rfl⟩, rfl⟩
  · intro hsettled itemId hitem
    rw [InventoryDb.undoNames, List.mem_dedup, List.mem_map] at hitem
    obtain ⟨consumption, hmem, -⟩ := hitem
    obtain ⟨row, hrow, -⟩ := mem_findPendingConsumptionsOfOperation.mp hmem
    obtain ⟨hmem, hoperation, hkind, hleft⟩ := mem_operationRows.mp hrow
    exact absurd (hsettled row hmem hkind hoperation) (not_le.mpr hleft)

/-- An undo that committed settles its operation. -/
theorem settled_of_undo (hshape : LedgerShape db) {command : UndoConsumptionCommand}
    {named : List ItemId} {now : Timestamp}
    (h : db.undoConsumption command named now = .ok db') :
    Settled db' command.operationId := by
  obtain ⟨posts, hposted, hposts⟩ := undoConsumption_ok hshape.items h
  intro row hrow hkind hoperation
  have hrow := mem_of_posted_returns hposted
    (fun row hrow => (undo_postable hposts row hrow).1) hrow hkind
  have hleft : db.netRemaining row = row.quantity - db.returnedTotal row.id := rfl
  rw [InventoryDb.netRemaining,
    undoConsumption_returnedTotal hshape hposted hposts hrow hkind]
  split
  · omega
  · rename_i hnot
    have hleft := not_lt.mp fun hlt => hnot ⟨hoperation, hlt⟩
    omega

theorem UndoneEarly.mono {log : List SagaEffect}
    (h : UndoneEarly log operationId) : UndoneEarly (log ++ effects) operationId := by
  obtain ⟨before, after, rfl, hnone⟩ := h
  exact ⟨before, after ++ effects, by simp, hnone⟩

end Settling

section Leaks

variable {settings : OutboxSettings} {config : Config WorkshopDb SagaPlace}
variable {log : List SagaEffect} {pid : Nat} {input : SagaInput} {out : SagaOutcome}

/-- Why an undo step may be done: its withdrawal was saved, its units are back,
or its undo ran early. -/
def UndoDone (db : WorkshopDb) (log : List SagaEffect)
    (operationId : OperationId) : Prop :=
  .withdrawn operationId ∈ log ∨ Settled db.inventory operationId ∨
    UndoneEarly log operationId

/-- What a program knows of the undo of a withdrawal: one that is about to
consume finds it done only when it ran early, and one that is about to complete
it gave the units back, or ran early. -/
def SagaPlace.Undoes (db : WorkshopDb) (log : List SagaEffect) : SagaPlace → Prop
  | .consuming withdrawal => ∀ row ∈ db.steps,
      row.operationId = withdrawal.undo.operationId → row.status = .done →
        UndoneEarly log withdrawal.undo.operationId
  | .undoing (.application step _) _ => .consumed step.operationId ∈ log
  | .completing (.compensation undo) => Settled db.inventory undo.operationId
  | .completing (.application step _) => step.kind = .undoConsumption →
      UndoneEarly log step.operationId ∨
        .consumed step.operationId ∈ log ∧ Settled db.inventory step.operationId
  | _ => True

/-- The row a completion finds is the step it completes. -/
theorem completed_step (h : SagaReaches settings config log)
    {errand : Errand} (hplace : config.places pid = .completing errand)
    {row : StockStepRow} (hrow : row ∈ config.store.steps)
    (hid : row.operationId = errand.step.operationId) :
    row.toStockStep = errand.step := by
  obtain ⟨houtbox, hworks⟩ := outbox_of_reaches h
  have hmine := hworks pid
  rw [hplace] at hmine
  refine Recorded.eq_of_id houtbox.ids ⟨row, hrow, rfl⟩ ?_ hid
  cases errand with
  | compensation undo => exact hmine.armed undo rfl
  | application step queue => exact hmine.held _ List.mem_cons_self

theorem settled_of_exec (h : SagaReaches settings config log)
    (hexec : sagaExec settings config.store (config.places pid) input = some out)
    {operationId : OperationId}
    (hsettled : Settled config.store.inventory operationId)
    (hnone : .consumed operationId ∉ out.effects) :
    Settled out.store.inventory operationId :=
  hsettled.mono (sagaLedger_of_reaches (h.turn pid input trivial hexec)).1
    (movements_of_exec h hexec) hnone

/-- Only its own request turns an undo step done while it is about to consume,
or an applier whose undo ran early. -/
theorem undone_of_consuming (h : SagaReaches settings config log)
    (hexec : sagaExec settings config.store (config.places pid) input = some out)
    (hundoes : (config.places pid).Undoes config.store log)
    {other : Nat} (hne : other ≠ pid) {withdrawal : Withdrawal}
    (hother : config.places other = .consuming withdrawal)
    (hknown : (config.places other).Undoes config.store log)
    {row' : StockStepRow} (hrow' : row' ∈ out.store.steps)
    (hid : row'.operationId = withdrawal.undo.operationId)
    (hdone : row'.status = .done) :
    UndoneEarly (log ++ out.effects) withdrawal.undo.operationId := by
  have harmed : (config.places other).armed = some withdrawal.undo := by
    rw [hother]
    rfl
  have hconsumed : .consumed withdrawal.undo.operationId ∉ log := by
    have hknows := (rows_of_reaches h).2 other
    rw [hother] at hknows
    exact hknows.2
  rw [hother] at hknown
  rcases (steps_of_exec h hexec).mem hrow' with ⟨row, hrow, hstep, hchange⟩ | hadded
  · rw [hstep] at hid
    rw [hdone] at hchange
    generalize hstatus : row.status = status at hchange
    cases hchange with
    | same => exact (hknown row hrow hid hstatus).mono
    | disarm saved hplace heffect =>
        obtain ⟨saved', now, hplace', hsame, -⟩ :=
          (sagaMove_of_exec hexec).withdraws heffect
        exact absurd (hsame.trans hid) (armed_distinct h pid other hne saved'.undo _
          (by rw [hplace']; rfl) harmed)
    | complete errand hplace hsame hopen =>
        have hmine := hundoes
        rw [hplace] at hmine
        cases errand with
        | compensation undo =>
            exact absurd (hsame.symm.trans hid) (armed_distinct h pid other hne undo _
              (by rw [hplace]; rfl) harmed)
        | application step queue =>
            have hheld := ((outbox_of_reaches h).2 pid).held step.toStockStep
              (by rw [hplace]; exact List.mem_cons_self)
            have hundo := hheld.eq_of_id (outbox_of_reaches h).1.ids
              (((outbox_of_reaches h).2 other).armed _ harmed) (hsame.symm.trans hid)
            have hkind := ((made_of_reaches h).2 other).undoKind harmed
            rcases hmine (hundo ▸ hkind) with hearly | ⟨hcommitted, -⟩
            · exact (hsame.symm.trans hid ▸ hearly).mono
            · exact absurd (hsame.symm.trans hid ▸ hcommitted) hconsumed
  · exact absurd hdone hadded.not_done

/-- What a program knows of its undo once it has moved. -/
theorem SagaMove.undoes (h : SagaReaches settings config log)
    (hexec : sagaExec settings config.store (config.places pid) input = some out)
    (hundoes : (config.places pid).Undoes config.store log) :
    out.place.Undoes out.store (log ++ out.effects) := by
  have hshape := (sagaLedger_of_reaches h).1
  have hsound := (rows_of_reaches h).1
  have hcame := (sagaMove_of_exec hexec).cameFrom
  unfold CameFrom at hcame
  cases hnext : out.place with
  | consuming withdrawal =>
      rw [hnext] at hcame
      obtain ⟨hplace, heffects, hnew⟩ := hcame
      intro row' hrow' hid hdone
      rcases (steps_of_exec h hexec).mem hrow' with ⟨row, hrow, hstep, -⟩ | hadded
      · rw [hstep] at hid
        exact absurd hid (hnew row hrow)
      · exact absurd hdone hadded.not_done
  | undoing errand named =>
      cases errand with
      | compensation undo => trivial
      | application step queue =>
          rw [hnext] at hcame
          obtain ⟨-, -, hnamed⟩ := hcame
          rw [ne_eq, undoNames_eq_nil_iff] at hnamed
          simp only [Settled, not_forall] at hnamed
          obtain ⟨row, hrow, hkind, hoperation, -⟩ := hnamed
          obtain ⟨undo, -, -, hsame, -, hconsumed⟩ :=
            (hsound.consumptions row hrow hkind).origin
          have hid : undo.operationId = step.operationId :=
            Option.some.inj (hsame.symm.trans hoperation)
          exact List.mem_append_left _ (hid ▸ hconsumed)
  | completing errand =>
      rw [hnext] at hcame
      rcases hcame with ⟨named, now, hplace, heffects, hundo⟩ |
        ⟨hstart, heffects, hsame, hnone⟩ |
        ⟨step, queue, rfl, heffects, hplace⟩
      · have hsettled := settled_of_undo hshape hundo
        cases errand with
        | compensation undo => exact hsettled
        | application step queue =>
            rw [hplace] at hundoes
            exact fun _ => Or.inr ⟨List.mem_append_left _ hundoes, hsettled⟩
      · have hsettled := undoNames_eq_nil_iff.mp hnone
        rw [← hsame] at hsettled
        cases errand with
        | compensation undo => exact hsettled
        | application step queue =>
            intro _
            by_cases hconsumed : .consumed step.operationId ∈ log
            · exact Or.inr ⟨List.mem_append_left _ hconsumed, hsettled⟩
            · exact Or.inl ⟨log, [], by rw [heffects]; rfl, hconsumed⟩
      · intro hkind
        rcases hplace with ⟨-, hother | hother⟩ | ⟨closure, candidates, hplace⟩
        · exact absurd (hkind.symm.trans hother) nofun
        · exact absurd (hkind.symm.trans hother) nofun
        · have hknows := (rows_of_reaches h).2 pid
          rw [hplace] at hknows
          have hclosure := hknows.1
          rw [hkind] at hclosure
          cases hclosure
  | _ => trivial

/-- A program that completes a step does not consume in that move. -/
theorem not_consumed_of_completing {errand : Errand}
    (hplace : config.places pid = .completing errand)
    (hexec : sagaExec settings config.store (config.places pid) input = some out)
    (operationId : OperationId) : .consumed operationId ∉ out.effects := by
  intro hconsumed
  obtain ⟨withdrawal, hplace', -⟩ := (sagaMove_of_exec hexec).stock.consumes hconsumed
  rw [hplace] at hplace'
  cases hplace'

/-- The reason why an undo is done stands: a withdrawal that consumes after it is one
whose undo ran early. -/
theorem UndoDone.of_exec {row : StockStepRow}
    (hreason : UndoDone config.store log row.operationId)
    (h : SagaReaches settings config log)
    (hundoes : (config.places pid).Undoes config.store log)
    (hexec : sagaExec settings config.store (config.places pid) input = some out)
    (hrow : row ∈ config.store.steps) (hdone : row.status = .done) :
    UndoDone out.store (log ++ out.effects) row.operationId := by
  rcases hreason with hwithdrawn | hsettled | hearly
  · exact Or.inl (List.mem_append_left _ hwithdrawn)
  · by_cases hconsumed : .consumed row.operationId ∈ out.effects
    · obtain ⟨withdrawal, hplace, hid⟩ :=
        (sagaMove_of_exec hexec).stock.consumes hconsumed
      rw [hplace] at hundoes
      rw [← hid]
      exact Or.inr (Or.inr (hundoes row hrow hid.symm hdone).mono)
    · exact Or.inr (Or.inl (settled_of_exec h hexec hsettled hconsumed))
  · exact Or.inr (Or.inr hearly.mono)

/-- The program that completes an undo knows why it is done. -/
theorem undoDone_of_completing (h : SagaReaches settings config log)
    (hundoes : (config.places pid).Undoes config.store log)
    (hexec : sagaExec settings config.store (config.places pid) input = some out)
    {errand : Errand} (hplace : config.places pid = .completing errand)
    {row : StockStepRow} (hrow : row ∈ config.store.steps)
    (hid : row.operationId = errand.step.operationId)
    (hkind : row.kind = .undoConsumption) :
    UndoDone out.store (log ++ out.effects) row.operationId := by
  have hrecorded := completed_step h hplace hrow hid
  have hnone := not_consumed_of_completing hplace hexec errand.step.operationId
  rw [hplace] at hundoes
  rw [hid]
  cases errand with
  | compensation undo =>
      exact Or.inr (Or.inl (settled_of_exec h hexec hundoes hnone))
  | application step queue =>
      have hundo : step.kind = .undoConsumption :=
        (congrArg StockStep.kind hrecorded).symm.trans hkind
      rcases hundoes hundo with hearly | ⟨-, hsettled⟩
      · exact Or.inr (Or.inr hearly.mono)
      · exact Or.inr (Or.inl (settled_of_exec h hexec hsettled hnone))

/-- A step leaves a reason for each undo step that is done. -/
theorem undoDone_of_exec (h : SagaReaches settings config log)
    (hreasons : ∀ row ∈ config.store.steps, row.kind = .undoConsumption →
      row.status = .done → UndoDone config.store log row.operationId)
    (hundoes : (config.places pid).Undoes config.store log)
    (hexec : sagaExec settings config.store (config.places pid) input = some out)
    {row' : StockStepRow} (hrow' : row' ∈ out.store.steps)
    (hkind : row'.kind = .undoConsumption) (hdone : row'.status = .done) :
    UndoDone out.store (log ++ out.effects) row'.operationId := by
  rcases (steps_of_exec h hexec).mem hrow' with ⟨row, hrow, hstep, hchange⟩ | hadded
  · rw [hstep] at hkind ⊢
    rw [hdone] at hchange
    generalize hstatus : row.status = status at hchange
    cases hchange with
    | same =>
        exact (hreasons row hrow hkind hstatus).of_exec h hundoes hexec hrow hstatus
    | disarm withdrawal hplace heffect =>
        exact Or.inl (List.mem_append_right _ heffect)
    | complete errand hplace hid hopen =>
        exact undoDone_of_completing h hundoes hexec hplace hrow hid hkind
  · exact absurd hdone hadded.not_done

/-- What a program knows of its undo stands while another one moves. -/
theorem SagaPlace.Undoes.of_other {other : Nat}
    (hother : (config.places other).Undoes config.store log)
    (h : SagaReaches settings config log)
    (hundoes : (config.places pid).Undoes config.store log)
    (hexec : sagaExec settings config.store (config.places pid) input = some out)
    (hne : other ≠ pid) :
    (config.places other).Undoes out.store (log ++ out.effects) := by
  cases hplace : config.places other with
  | consuming withdrawal =>
      exact fun row' hrow' hid hdone => undone_of_consuming h hexec
        hundoes hne hplace hother hrow' hid hdone
  | undoing errand named =>
      cases errand with
      | compensation undo => trivial
      | application step queue =>
          rw [hplace] at hother
          exact List.mem_append_left _ hother
  | completing errand =>
      rw [hplace] at hother
      cases errand with
      | compensation undo =>
          exact settled_of_exec h hexec hother
            (not_consumed_of_other h hexec hne (by rw [hplace]; rfl))
      | application step queue =>
          intro hkind
          rcases hother hkind with hearly | ⟨hconsumed, hsettled⟩
          · exact Or.inl hearly.mono
          · refine Or.inr ⟨List.mem_append_left _ hconsumed,
              settled_of_exec h hexec hsettled fun hagain => ?_⟩
            obtain ⟨withdrawal, hplace', hid⟩ :=
              (sagaMove_of_exec hexec).stock.consumes hagain
            have hknows := (rows_of_reaches h).2 pid
            rw [hplace'] at hknows
            exact hknows.2 (hid ▸ hconsumed)
  | _ => trivial

/-- An undo step is done for a reason. -/
theorem undoDone_of_reaches (h : SagaReaches settings config log) :
    (∀ row ∈ config.store.steps, row.kind = .undoConsumption →
      row.status = .done → UndoDone config.store log row.operationId) ∧
    ∀ pid, (config.places pid).Undoes config.store log := by
  refine ReachesBy.invariant_of_places
    (G := fun db log => ∀ row ∈ db.steps, row.kind = .undoConsumption →
      row.status = .done → UndoDone db log row.operationId)
    (L := fun db log place => place.Undoes db log)
    (fun _ hmem => absurd hmem List.not_mem_nil) (fun _ => trivial) ?_ ?_ h
  · intro config log pid input out before hreasons hundoes _ hexec
    exact ⟨fun _ hrow => undoDone_of_exec before hreasons (hundoes pid) hexec hrow,
      SagaMove.undoes before hexec (hundoes pid)⟩
  · intro config log pid input out before _ hundoes _ hexec other hne
    exact (hundoes other).of_other before (hundoes pid) hexec hne

/-- No consumed unit leaks unseen.  A consumption, confirmed or not, that has
units left and whose withdrawal was not saved belongs to a request that is
still running, or its undo step is still open or failed, or an applier's undo
of that step found nothing because it ran before the consumption. -/
theorem consumed_units_accounted (h : SagaReaches settings config log)
    {row : MovementRow} (hrow : row ∈ config.store.inventory.movements)
    (hkind : row.kind = .consumption) {operationId : OperationId}
    (hoperation : row.operationId = some operationId)
    (hleft : 0 < config.store.inventory.netRemaining row)
    (hunsaved : .withdrawn operationId ∉ log) :
    (∃ pid undo, (config.places pid).armed = some undo ∧
      undo.operationId = operationId) ∨
    (∃ step ∈ config.store.steps, step.operationId = operationId ∧
      step.kind = .undoConsumption ∧
      step.status ∈ [StepStatus.armed, .pending, .failed]) ∨
    UndoneEarly log operationId := by
  obtain ⟨undo, hundo, hundoKind, hsame, -⟩ :=
    ((rows_of_reaches h).1.consumptions row hrow hkind).origin
  have hid : undo.operationId = operationId :=
    Option.some.inj (hsame.symm.trans hoperation)
  by_cases hdone : undo.status = .done
  · have hreason := (undoDone_of_reaches h).1 undo hundo hundoKind hdone
    rw [hid] at hreason
    rcases hreason with hwithdrawn | hsettled | hearly
    · exact absurd hwithdrawn hunsaved
    · exact absurd (hsettled row hrow hkind hoperation) (not_le.mpr hleft)
    · exact Or.inr (Or.inr hearly)
  · refine Or.inr (Or.inl ⟨undo, hundo, hid, hundoKind, ?_⟩)
    cases hstatus : undo.status with
    | done => exact absurd hstatus hdone
    | _ => simp

end Leaks

namespace SagaWitness

/-- The request stalls past the grace period, an applier undoes the step and
finds nothing, and the request consumes and is gone. -/
def stalled : List (Nat × SagaInput) :=
  inExecution [part] ++ withdrawing 0 10 ++
    (1, .applyDue) :: proceed 1 3 40000 ++ proceed 0 1 40001 ++ [(0, .crash)]

def leaked : Config WorkshopDb SagaPlace × List SagaEffect :=
  endOfRun (sagaExec settings) emptyWorkshop stalled (by decide +kernel)

theorem leaked_idle {pid : Nat} (hpid : pid ∉ [0, 1]) :
    leaked.1.places pid = emptyWorkshop.places pid := by
  have hpids : ∀ turn ∈ stalled, turn.1 ∈ [0, 1] := by decide +kernel
  have hother : ∀ turn ∈ stalled, turn.1 ≠ pid := by
    intro turn hturn heq
    apply hpid
    rw [← heq]
    exact hpids turn hturn
  unfold leaked
  exact endOfRun_places _ hother

theorem reaches_leaked : SagaReaches settings leaked.1 leaked.2 :=
  reaches_endOfRun _

theorem consumed_units_accounted_leaked :
    ∃ row ∈ leaked.1.store.inventory.movements, row.operationId = some 10 ∧
      ((∃ pid undo, (leaked.1.places pid).armed = some undo ∧
          undo.operationId = 10) ∨
        (∃ step ∈ leaked.1.store.steps, step.operationId = 10 ∧
          step.kind = .undoConsumption ∧
          step.status ∈ [StepStatus.armed, .pending, .failed]) ∨
        UndoneEarly leaked.2 10) := by
  have hrow : ∃ row ∈ leaked.1.store.inventory.movements,
      row.kind = .consumption ∧ row.operationId = some 10 ∧
        0 < leaked.1.store.inventory.netRemaining row := by decide +kernel
  obtain ⟨row, hrow, hkind, hoperation, hleft⟩ := hrow
  exact ⟨row, hrow, hoperation, consumed_units_accounted reaches_leaked hrow hkind
    hoperation hleft (by decide +kernel)⟩

/-- Without the third case units leak: no request is running, and the undo step
is done. -/
theorem consumed_units_may_leak :
    ¬ ∀ config log, SagaReaches settings config log →
      ∀ row ∈ config.store.inventory.movements, row.kind = .consumption →
        ∀ operationId, row.operationId = some operationId →
        row.confirmedAt = none →
        0 < config.store.inventory.netRemaining row →
        .withdrawn operationId ∉ log →
          (∃ pid undo, (config.places pid).armed = some undo ∧
            undo.operationId = operationId) ∨
          ∃ step ∈ config.store.steps, step.operationId = operationId ∧
            step.kind = .undoConsumption ∧
            step.status ∈ [StepStatus.armed, .pending, .failed] := by
  intro hclaim
  have hrow : ∃ row ∈ leaked.1.store.inventory.movements,
      row.kind = .consumption ∧ row.operationId = some 10 ∧
        row.confirmedAt = none ∧ 0 < leaked.1.store.inventory.netRemaining row := by
    decide +kernel
  obtain ⟨row, hrow, hkind, hoperation, hunconfirmed, hleft⟩ := hrow
  rcases hclaim leaked.1 leaked.2 reaches_leaked row hrow hkind 10 hoperation
    hunconfirmed hleft (by decide +kernel) with
    ⟨pid, undo, hundo, -⟩ | ⟨step, hstep, hid, -, hstatus⟩
  · have hidle : (leaked.1.places pid).armed = none := by
      by_cases hpid : pid ∈ [0, 1]
      · have hnone : ∀ pid ∈ [0, 1], (leaked.1.places pid).armed = none := by
          decide +kernel
        exact hnone pid hpid
      · rw [leaked_idle hpid]
        rfl
    rw [hidle] at hundo
    cases hundo
  · have hdone : ∀ step ∈ leaked.1.store.steps, step.operationId = 10 →
        step.status ∉ [StepStatus.armed, .pending, .failed] := by decide +kernel
    exact hdone step hstep hid hstatus

end SagaWitness

end WorkOrders

end Workshop
