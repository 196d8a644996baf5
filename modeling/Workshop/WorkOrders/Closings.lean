/-
The closing steps of work orders.  Once one is claimed, no move but its own
application touches the confirmed consumptions of its work order, so what an
applier picked is what it closes, and a consumption is closed once.
-/
import Workshop.WorkOrders.TwoLedgers

namespace Workshop

namespace WorkOrders

open Inventory

/-- A closing step of a work order was claimed. -/
def ClosingClaimed (steps : List StockStepRow) (log : List SagaEffect)
    (workOrderId : WorkOrderId) : Prop :=
  ∃ closer ∈ steps, closer.workOrderId = workOrderId ∧
    closureOf closer.kind ≠ none ∧ .claimed closer.operationId ∈ log

/-- The transitions of a movement. -/
def transitionsOf (db : InventoryDb) (movementId : MovementId) :
    List TransitionRow :=
  db.transitions.filter fun transition => transition.movementId = movementId

/-- The transitions of a consumption fit its status: none while it is pending,
and the one that closed it afterwards. -/
inductive Marked (db : InventoryDb) (row : MovementRow) : Prop
  | pending (hstatus : row.status = some .pending)
      (htransitions : transitionsOf db row.id = [])
  | closed (closure : Closure) (transition : TransitionRow)
      (hstatus : row.status = some closure.toStatus)
      (htransitions : transitionsOf db row.id = [transition])
      (hfrom : transition.fromStatus = .pending)
      (hto : transition.toStatus = closure.toStatus)
      (hquantity : transition.quantity = closure.quantity (db.netRemaining row))
      (hpositive : closure = .writeOff → 0 < db.netRemaining row)

/-- The transitions of the ledger are those of its consumptions. -/
structure TransitionsSound (db : InventoryDb) : Prop where
  known : ∀ transition ∈ db.transitions, ∃ row ∈ db.movements,
    row.kind = .consumption ∧ row.id = transition.movementId
  marked : ∀ row ∈ db.movements, row.kind = .consumption → Marked db row

/-- What a closing step that picked its consumptions will find: it was applied
and none of them is pending any more, or they are those it would pick now. -/
def SagaPlace.Picks (db : InventoryDb) (log : List SagaEffect) : SagaPlace → Prop
  | .closing step _ closure candidates =>
      (.applied step.toStockStep ∈ log ∧
        ∀ row ∈ db.movements, row.kind = .consumption →
          row.id ∈ candidates.map ClosureCandidate.movementId →
            row.status ≠ some .pending) ∨
      ∀ candidate, candidate ∈ candidates ↔
        candidate ∈ db.closureCandidates closure step.workOrderId
  | _ => True

section Steps

variable {settings : OutboxSettings} {config : Config WorkshopDb SagaPlace}
variable {log : List SagaEffect} {workOrderId : WorkOrderId}

theorem closingStatus_ne_none {kind : StockStepKind} (h : closureOf kind ≠ none) :
    closingStatus kind ≠ none ∧ kind ≠ .undoConsumption := by
  cases kind <;> simp [closureOf, closingStatus] at h ⊢

/-- A step of a work order whose closing step was claimed was applied, unless
it is an undo or that closing step. -/
theorem applied_of_closingClaimed (h : SagaReaches settings config log)
    (hclosing : ClosingClaimed config.store.steps log workOrderId)
    {row : StockStepRow} (hrow : row ∈ config.store.steps)
    (howner : row.workOrderId = workOrderId) (hkind : row.kind ≠ .undoConsumption)
    (hopen : closureOf row.kind = none) : .applied row.toStockStep ∈ log := by
  obtain ⟨closer, hcloser, rfl, hcloses, hclaimed⟩ := hclosing
  obtain ⟨hstatus, hcloserKind⟩ := closingStatus_ne_none hcloses
  obtain ⟨older, newer, hsplit⟩ := List.append_of_mem hcloser
  rw [hsplit, List.mem_append, List.mem_cons] at hrow
  rcases hrow with holder | rfl | hnewer
  · exact older_applied h hsplit hcloserKind hclaimed holder howner hkind
  · exact absurd hopen hcloses
  · obtain ⟨front, back, hmiddle⟩ := List.append_of_mem hnewer
    have hsplit' : config.store.steps = (older ++ closer :: front) ++ row :: back := by
      rw [hsplit, hmiddle]
      simp
    exact absurd ((balance_of_reaches h).last _ row back hsplit' hkind closer
      (by simp) howner.symm) hstatus

/-- A work order has one closing step. -/
theorem closing_unique (h : SagaReaches settings config log) {row other : StockStepRow}
    (hrow : row ∈ config.store.steps) (hother : other ∈ config.store.steps)
    (howner : row.workOrderId = other.workOrderId)
    (hcloses : closureOf row.kind ≠ none) (hcloses' : closureOf other.kind ≠ none) :
    row = other := by
  obtain ⟨hstatus, hkind⟩ := closingStatus_ne_none hcloses
  obtain ⟨hstatus', hkind'⟩ := closingStatus_ne_none hcloses'
  obtain ⟨older, newer, hsplit⟩ := List.append_of_mem hrow
  rw [hsplit, List.mem_append, List.mem_cons] at hother
  rcases hother with holder | rfl | hnewer
  · exact absurd ((balance_of_reaches h).last older row newer hsplit hkind other
      holder howner.symm) hstatus'
  · rfl
  · obtain ⟨front, back, hmiddle⟩ := List.append_of_mem hnewer
    have hsplit' : config.store.steps = (older ++ row :: front) ++ other :: back := by
      rw [hsplit, hmiddle]
      simp
    exact absurd ((balance_of_reaches h).last _ other back hsplit' hkind' row
      (by simp) howner) hstatus

/-- A program that stands at a step that closes has claimed it. -/
theorem closingClaimed_of_place (h : SagaReaches settings config log) {pid : Nat}
    {step : ClaimedStockStep} (hheld : step.toStockStep ∈ (config.places pid).held)
    (hcloses : closureOf step.kind ≠ none) :
    ClosingClaimed config.store.steps log step.workOrderId := by
  obtain ⟨-, hworks⟩ := outbox_of_reaches h
  obtain ⟨row, hrow, hstep⟩ := (hworks pid).held _ hheld
  have hclaimed := (hworks pid).claimed _ hheld
  rw [← hstep] at hclaimed
  refine ⟨row, hrow, congrArg StockStep.workOrderId hstep, ?_, hclaimed⟩
  rw [show row.kind = step.kind from congrArg StockStep.kind hstep]
  exact hcloses

/-- A consumption that is not pending is one of a closing step that was
claimed. -/
theorem closingClaimed_of_closed (h : SagaReaches settings config log)
    {row : MovementRow} (hrow : row ∈ config.store.inventory.movements)
    (hkind : row.kind = .consumption) (hclosed : row.status ≠ some .pending)
    (howner : row.workOrderId = some workOrderId) :
    ClosingClaimed config.store.steps log workOrderId := by
  have hsound := (rows_of_reaches h).1.consumptions row hrow hkind
  obtain ⟨status, hstatus⟩ := Option.ne_none_iff_exists'.mp hsound.status
  obtain ⟨step, closure, happlied, hclosure, -, hof⟩ := hsound.closed status hstatus
    fun hpending => hclosed (hpending ▸ hstatus)
  obtain ⟨-, ⟨closer, hcloser, rfl⟩, hclaimed⟩ :=
    (order_of_reaches h).1.applied step happlied
  exact ⟨closer, hcloser, Option.some.inj (hof.symm.trans howner),
    by simp [hclosure], hclaimed⟩

end Steps

section Frozen

variable {settings : OutboxSettings} {config : Config WorkshopDb SagaPlace}
variable {log : List SagaEffect} {workOrderId : WorkOrderId}

/-- A movement no posted row points at keeps what was returned on it. -/
theorem MovementsChange.returnedTotal_eq {db db' : InventoryDb} {place : SagaPlace}
    {effects : List SagaEffect} (h : MovementsChange db place effects db'.movements)
    {movementId : MovementId}
    (hnone : ∀ row ∈ db'.movements, PostedRow db place effects row →
      row.kind = .returned → row.undoesMovementId ≠ some movementId) :
    db'.returnedTotal movementId = db.returnedTotal movementId := by
  obtain ⟨kept, posts, hperm, hkept, hposts⟩ := h
  have hsame : returnedIn movementId db.movements = returnedIn movementId kept :=
    sumWhere_forall₂ (hkept.imp fun _ _ hrow => by
      rw [hrow.same.kind, hrow.same.undoesMovementId, hrow.same.quantity]
      exact ⟨rfl, rfl⟩)
  have hposts : returnedIn movementId posts = 0 := by
    refine sumWhere_eq_zero fun row hrow htest => ?_
    simp only [Bool.and_eq_true, decide_eq_true_eq] at htest
    rcases hposts row hrow with hplain | hposted
    · exact absurd htest.1 hplain.noReturn
    · exact absurd htest.2 (hnone row
        (hperm.mem_iff.mpr (List.mem_append_right _ hrow)) hposted htest.1)
  have hsum : db'.returnedTotal movementId = returnedIn movementId (kept ++ posts) :=
    sumWhere_perm hperm
  rw [hsum, returnedIn_append, hposts, add_zero, ← hsame]
  rfl

/-- What is left of a confirmed consumption does not change once a closing step
of its work order was claimed. -/
theorem netRemaining_frozen (h : SagaReaches settings config log) {pid : Nat}
    {input : SagaInput} {out : SagaOutcome}
    (hexec : sagaExec settings config.store (config.places pid) input = some out)
    (hclosing : ClosingClaimed config.store.steps log workOrderId)
    {row row' : MovementRow} (hrow : row ∈ config.store.inventory.movements)
    (hkind : row.kind = .consumption) (howner : row.workOrderId = some workOrderId)
    (hconfirmed : row.confirmedAt.isSome) (hsame : SameRow row row') :
    out.store.inventory.netRemaining row' =
      config.store.inventory.netRemaining row := by
  have hshape := (sagaLedger_of_reaches h).1
  have hafter := h.turn pid input trivial hexec
  have hreturned : out.store.inventory.returnedTotal row.id =
      config.store.inventory.returnedTotal row.id :=
    (movements_of_exec h hexec).returnedTotal_eq
      fun post hpost hposted hreturned hundoes => by
      cases hposted with
      | consumption withdrawal line _ _ _ hconsumed =>
          rw [hconsumed.kind] at hreturned
          cases hreturned
      | undone errand named target _ _ htarget hoperation hundoes' =>
          obtain ⟨hmem, hsame, htargetKind, -⟩ := mem_operationRows.mp htarget
          have heq := hshape.eq_of_id hmem htargetKind hrow hkind
            (Option.some.inj (hundoes'.symm.trans hundoes))
          rw [heq] at hsame
          obtain ⟨operationId, hrowOperation, hwithdrawn⟩ :=
            isSaved_iff.mp (isSaved_of_confirmed h hrow hkind hconfirmed)
          refine (returns_of_reaches hafter).1 operationId
            (List.mem_append_left _ hwithdrawn) ⟨post, hpost, hreturned, ?_⟩
          rw [hoperation, ← hsame, hrowOperation]
      | restored step queue target hplace _ hrestore _ htarget _ hundoes' _ hfirst =>
          obtain ⟨hmem, -, hopen, -⟩ := mem_pendingRows.mp htarget
          obtain ⟨htargetOwner, htargetKind, -⟩ := isOpenConsumption_iff.mp hopen
          have heq := hshape.eq_of_id hmem htargetKind hrow hkind
            (Option.some.inj (hundoes'.symm.trans hundoes))
          rw [heq, howner, Option.some.injEq] at htargetOwner
          obtain ⟨held, hheld, hstep⟩ := ((outbox_of_reaches h).2 pid).held
            step.toStockStep (by rw [hplace]; exact List.mem_cons_self)
          have hheldKind : held.kind = .restore :=
            (congrArg StockStep.kind hstep).trans hrestore
          have happlied := applied_of_closingClaimed h hclosing hheld
            ((congrArg StockStep.workOrderId hstep).trans htargetOwner.symm)
            (by simp [hheldKind]) (by simp [hheldKind, closureOf])
          rw [hstep] at happlied
          have hagain := hasReturnOfOperation_iff.mpr
            ((applied_of_reaches h).hasReturn h happlied hrestore)
          exact Bool.false_ne_true (hfirst.symm.trans hagain)
  rw [InventoryDb.netRemaining, InventoryDb.netRemaining, hsame.id, hsame.quantity,
    hreturned]

/-- A consumption is confirmed before the closing step of its work order is
claimed, or never. -/
theorem confirmed_frozen (h : SagaReaches settings config log) {pid : Nat}
    (hclosing : ClosingClaimed config.store.steps log workOrderId)
    {effects : List SagaEffect} {row row' : MovementRow}
    (hrow : row ∈ config.store.inventory.movements)
    (hkind : row.kind = .consumption) (howner : row.workOrderId = some workOrderId)
    (hevolves : RowEvolves (config.places pid) effects row row')
    (hconfirmed : row'.confirmedAt.isSome) : row.confirmedAt.isSome := by
  cases hevolves.marks with
  | same _ hsame => rwa [← hsame]
  | close _ _ _ _ _ _ _ _ _ hsame => rwa [← hsame]
  | confirm step queue hplace _ hconfirms _ hcarries =>
      obtain ⟨held, hheld, hstep⟩ := ((outbox_of_reaches h).2 pid).held
        step.toStockStep (by rw [hplace]; exact List.mem_cons_self)
      have hheldKind : held.kind = .confirmConsumption :=
        (congrArg StockStep.kind hstep).trans hconfirms
      have hheldCarries : held.consumptionOperationId = row.operationId :=
        (congrArg StockStep.consumptionOperationId hstep).trans hcarries
      obtain ⟨operationId, hoperation, -⟩ :=
        (withdrawals_of_reaches h).1.confirmed held hheld hheldKind
      have hrowOperation := hheldCarries.symm.trans hoperation
      have hheldOwner := confirmation_owner h hheld hheldKind hoperation hrow hkind
        hrowOperation
      have happlied := applied_of_closingClaimed h hclosing hheld
        (Option.some.inj (hheldOwner.symm.trans howner)) (by simp [hheldKind])
        (by simp [hheldKind, closureOf])
      exact (applied_of_reaches h).confirmed _ happlied hheldKind operationId
        hoperation row hrow hkind hrowOperation

end Frozen

section Candidates

variable {settings : OutboxSettings} {config : Config WorkshopDb SagaPlace}
variable {log : List SagaEffect} {workOrderId : WorkOrderId}

theorem mem_closureCandidates {db : InventoryDb} {closure : Closure}
    {candidate : ClosureCandidate} :
    candidate ∈ db.closureCandidates closure workOrderId ↔
      ∃ row ∈ db.movements, isOpenConsumption workOrderId row = true ∧
        (closure = .writeOff → 0 < db.netRemaining row) ∧
        candidate = ⟨row.id, db.netRemaining row⟩ := by
  simp only [InventoryDb.closureCandidates, List.mem_map, List.mem_filter,
    Bool.and_eq_true]
  constructor
  · rintro ⟨row, ⟨hrow, hopen, hleft⟩, rfl⟩
    refine ⟨row, hrow, hopen, ?_, rfl⟩
    rintro rfl
    exact of_decide_eq_true hleft
  · rintro ⟨row, hrow, hopen, hleft, rfl⟩
    refine ⟨row, ⟨hrow, hopen, ?_⟩, rfl⟩
    cases closure with
    | settle => rfl
    | writeOff => exact decide_eq_true (hleft rfl)

/-- A move closes consumptions of a work order: its program stands at the
closing step of the work order and applies it. -/
def Closes (place : SagaPlace) (effects : List SagaEffect)
    (workOrderId : WorkOrderId) : Prop :=
  ∃ step queue closure candidates,
    place = .closing step queue closure candidates ∧
      .applied step.toStockStep ∈ effects ∧ step.workOrderId = workOrderId

/-- A row that is closed belongs to the work order of the step that closes
it. -/
theorem closes_of_candidate (h : SagaReaches settings config log) {pid : Nat}
    {step : ClaimedStockStep} {queue : List ClaimedStockStep} {closure : Closure}
    {candidates : List ClosureCandidate}
    (hplace : config.places pid = .closing step queue closure candidates)
    {row : MovementRow} (hrow : row ∈ config.store.inventory.movements)
    (hkind : row.kind = .consumption)
    (hcandidate : row.id ∈ candidates.map ClosureCandidate.movementId) :
    row.workOrderId = some step.workOrderId ∧ row.confirmedAt.isSome := by
  have hknows := (rows_of_reaches h).2 pid
  rw [hplace] at hknows
  obtain ⟨candidate, hmem, hid⟩ := List.mem_map.mp hcandidate
  obtain ⟨picked, hpicked, hpickedKind, hsame, hconfirmed, howner⟩ :=
    hknows.2 candidate hmem
  obtain rfl := (sagaLedger_of_reaches h).1.eq_of_id hpicked hpickedKind hrow hkind
    (hsame.trans hid)
  exact ⟨howner, hconfirmed⟩

/-- An open consumption stays one unless it is closed, and is none before it is
one, once the closing step of its work order was claimed. -/
theorem isOpenConsumption_frozen (h : SagaReaches settings config log) {pid : Nat}
    (hclosing : ClosingClaimed config.store.steps log workOrderId)
    {effects : List SagaEffect}
    (hquiet : ¬ Closes (config.places pid) effects workOrderId)
    {row row' : MovementRow} (hrow : row ∈ config.store.inventory.movements)
    (hevolves : RowEvolves (config.places pid) effects row row') :
    isOpenConsumption workOrderId row' = true ↔
      isOpenConsumption workOrderId row = true := by
  have hsame := hevolves.same
  rw [isOpenConsumption_iff, isOpenConsumption_iff, hsame.workOrderId, hsame.kind]
  simp only [confirmedConsumption, hsame.operationId, Bool.or_eq_true]
  constructor
  · rintro ⟨howner, hkind, hstatus, hconfirmed⟩
    refine ⟨howner, hkind, ?_, hconfirmed.imp_right
      (confirmed_frozen h hclosing hrow hkind howner hevolves)⟩
    cases hevolves.marks with
    | same hsame _ => rw [← hsame, hstatus]
    | confirm _ _ _ _ _ _ _ hsame _ => rw [← hsame, hstatus]
    | close _ _ closure _ _ _ _ _ hclosed _ =>
        rw [hclosed] at hstatus
        cases closure <;> cases hstatus
  · rintro ⟨howner, hkind, hstatus, hconfirmed⟩
    refine ⟨howner, hkind, ?_, hconfirmed.imp_right hevolves.confirmed⟩
    cases hevolves.marks with
    | same hsame _ => rw [hsame, hstatus]
    | confirm _ _ _ _ _ _ _ hsame _ => rw [hsame, hstatus]
    | close step queue closure candidates hplace heffect hcandidate _ _ _ =>
        obtain ⟨hmine, -⟩ := closes_of_candidate h hplace hrow hkind hcandidate
        exact absurd ⟨step, queue, closure, candidates, hplace, heffect,
          Option.some.inj (hmine.symm.trans howner)⟩ hquiet

/-- A posted row is not open: a consumption is posted before it is
confirmed. -/
theorem PostedRow.not_open {db : InventoryDb} {place : SagaPlace}
    {effects : List SagaEffect} {row : MovementRow}
    (h : PostedRow db place effects row) :
    isOpenConsumption workOrderId row ≠ true := by
  rw [Ne, isOpenConsumption_iff]
  rintro ⟨-, hkind, -, hconfirmed⟩
  obtain ⟨withdrawal, line, -, hrow⟩ := h.consumes hkind
  simp [confirmedConsumption, hrow.operationId, hrow.confirmedAt] at hconfirmed
  cases hconfirmed

/-- What a closing step would pick does not change once it was claimed, but by
its own application. -/
theorem candidates_frozen (h : SagaReaches settings config log) {pid : Nat}
    {input : SagaInput} {out : SagaOutcome}
    (hexec : sagaExec settings config.store (config.places pid) input = some out)
    (hclosing : ClosingClaimed config.store.steps log workOrderId)
    (hquiet : ¬ Closes (config.places pid) out.effects workOrderId)
    (closure : Closure) (candidate : ClosureCandidate) :
    candidate ∈ out.store.inventory.closureCandidates closure workOrderId ↔
      candidate ∈ config.store.inventory.closureCandidates closure workOrderId := by
  have hmoves := movements_of_exec h hexec
  have hleft {row row' : MovementRow}
      (hrow : row ∈ config.store.inventory.movements)
      (hopen : isOpenConsumption workOrderId row = true)
      (hsame : SameRow row row') :
      out.store.inventory.netRemaining row' =
        config.store.inventory.netRemaining row := by
    obtain ⟨howner, hkind, -, hconfirmed⟩ := isOpenConsumption_iff.mp hopen
    exact netRemaining_frozen h hexec hclosing hrow hkind howner
      ((rows_of_reaches h).1.confirmed hrow hkind hconfirmed) hsame
  rw [mem_closureCandidates, mem_closureCandidates]
  constructor
  · rintro ⟨row', hrow', hopen, hpositive, rfl⟩
    rcases hmoves.mem hrow' with ⟨row, hrow, hevolves⟩ | hplain | hposted
    · rw [isOpenConsumption_frozen h hclosing hquiet hrow hevolves] at hopen
      rw [hleft hrow hopen hevolves.same] at hpositive ⊢
      exact ⟨row, hrow, hopen, hpositive, by rw [hevolves.same.id]⟩
    · exact absurd (isOpenConsumption_iff.mp hopen).2.1 hplain.noConsumption
    · exact absurd hopen hposted.not_open
  · rintro ⟨row, hrow, hopen, hpositive, rfl⟩
    obtain ⟨row', hrow', hevolves⟩ := hmoves.kept hrow
    rw [← hleft hrow hopen hevolves.same] at hpositive ⊢
    refine ⟨row', hrow', ?_, hpositive, by rw [hevolves.same.id]⟩
    exact (isOpenConsumption_frozen h hclosing hquiet hrow hevolves).mpr hopen

end Candidates

section Transitions

variable {db db' : InventoryDb} {place next : SagaPlace}
variable {effects : List SagaEffect} {candidates : List ClosureCandidate}

/-- A move keeps the transitions and closes nothing, or it is the application
of a closing step. -/
theorem StockChange.transitions (hshape : LedgerShape db)
    (h : StockChange db place next effects db') :
    (db'.transitions = db.transitions ∧
      ∀ workOrderId, ¬ Closes place effects workOrderId) ∨
    ∃ step queue closure candidates now,
      place = .closing step queue closure candidates ∧
        .applied step.toStockStep ∈ effects ∧
        db' = db.closeConsumptions closure candidates step.actorUserId now := by
  cases h with
  | quiet _ _ nextId hle _ hnone =>
      exact Or.inl ⟨rfl, fun _ ⟨step, _, _, _, _, happlied, _⟩ => hnone _ happlied⟩
  | save item _ hsave =>
      obtain ⟨row, -, -, -, -, rfl⟩ := save_ok hsave
      exact Or.inl ⟨rfl, fun _ ⟨_, _, _, _, hplace, _⟩ => nomatch hplace⟩
  | consume withdrawal now _ hconsume =>
      obtain ⟨posts, hposted, -⟩ := consumeStockBatch_ok hshape.items hconsume
      exact Or.inl ⟨hposted.transitions, fun _ ⟨_, _, _, _, hplace, _⟩ => nomatch hplace⟩
  | undo errand named now _ hundo =>
      obtain ⟨posts, hposted, -⟩ := undoConsumption_ok hshape.items hundo
      exact Or.inl ⟨hposted.transitions, fun _ ⟨_, _, _, _, hplace, _⟩ => nomatch hplace⟩
  | confirm step queue operationId now hkind hoperation =>
      exact Or.inl ⟨rfl, fun _ ⟨_, _, _, _, hplace, _⟩ => nomatch hplace⟩
  | restore step queue order now _ hkind hrestore =>
      rcases restoreStockBatch_ok hshape.items hrestore with
        ⟨-, rfl⟩ | ⟨-, posts, hposted, -⟩
      · exact Or.inl ⟨rfl, fun _ ⟨_, _, _, _, hplace, _⟩ => nomatch hplace⟩
      · exact Or.inl ⟨hposted.transitions,
          fun _ ⟨_, _, _, _, hplace, _⟩ => nomatch hplace⟩
  | close step queue closure candidates now =>
      exact Or.inr ⟨step, queue, closure, candidates, now, rfl, List.mem_cons_self, rfl⟩

/-- The rows a closing transaction changes are consumptions. -/
theorem closureRows_sublist
    (hplain : ∀ row ∈ db.movements, row.kind ≠ .consumption → row.status = none) :
    (db.closureRows candidates).Sublist (consumptionsOf db.movements) := by
  have hrows : db.closureRows candidates = (consumptionsOf db.movements).filter
      fun row => decide (row.id ∈ candidates.map ClosureCandidate.movementId) &&
        row.status = some .pending := by
    rw [consumptionsOf, List.filter_filter]
    refine List.filter_congr fun row hrow => ?_
    by_cases hkind : row.kind = .consumption
    · simp [hkind]
    · simp [hkind, hplain row hrow hkind]
  rw [hrows]
  exact List.filter_sublist

theorem mem_closureRows {row : MovementRow} :
    row ∈ db.closureRows candidates ↔ row ∈ db.movements ∧
      row.id ∈ candidates.map ClosureCandidate.movementId ∧
        row.status = some .pending := by
  simp [InventoryDb.closureRows]

theorem remainingOf_eq {movementId : MovementId} {remaining : Int}
    (hmem : movementId ∈ candidates.map ClosureCandidate.movementId)
    (hsame : ∀ candidate ∈ candidates, candidate.movementId = movementId →
      candidate.remaining = remaining) :
    remainingOf candidates movementId = remaining := by
  unfold remainingOf
  split
  · rename_i hnone
    obtain ⟨candidate, hcandidate, hid⟩ := List.mem_map.mp hmem
    rw [List.find?_eq_none] at hnone
    exact absurd (decide_eq_true hid) (hnone candidate hcandidate)
  · rename_i candidate hfind
    exact hsame candidate (List.mem_of_find?_eq_some hfind)
      (by simpa using List.find?_some hfind)

section Close

variable {closure : Closure} {actorUserId : UserId} {now : Timestamp}

theorem netRemaining_close (row : MovementRow) :
    (db.closeConsumptions closure candidates actorUserId now).netRemaining row =
      db.netRemaining row := by
  have hsame := (sameMovement_close closure candidates).returnedIn row.id db.movements
  rw [InventoryDb.netRemaining, InventoryDb.netRemaining, returnedTotal_eq,
    returnedTotal_eq]
  exact congrArg _ hsame

/-- A row that is closed gets one transition. -/
theorem transitionsOf_close_of_mem (closure : Closure) (actorUserId : UserId)
    (now : Timestamp)
    (hids : ((db.closureRows candidates).map fun row => row.id).Nodup)
    {row : MovementRow} (hpick : row ∈ db.closureRows candidates) :
    ∃ transition, transitionsOf
        (db.closeConsumptions closure candidates actorUserId now) row.id =
          transitionsOf db row.id ++ [transition] ∧
      transition.fromStatus = .pending ∧ transition.toStatus = closure.toStatus ∧
      transition.quantity = closure.quantity (remainingOf candidates row.id) := by
  refine ⟨⟨row.id, .pending, closure.toStatus, actorUserId, now,
    closure.quantity (remainingOf candidates row.id)⟩, ?_, rfl, rfl, rfl⟩
  have hone := filter_key_eq_singleton hids hpick
  simp only [transitionsOf, InventoryDb.closeConsumptions, List.filter_append,
    List.filter_map]
  refine congrArg _ ?_
  exact congrArg _ hone

/-- A movement of which no row is closed keeps its transitions. -/
theorem transitionsOf_close_of_not_mem {movementId : MovementId}
    (hnone : ∀ row ∈ db.closureRows candidates, row.id ≠ movementId) :
    transitionsOf (db.closeConsumptions closure candidates actorUserId now) movementId =
      transitionsOf db movementId := by
  have hfilter : (db.closureRows candidates).filter
      (fun row => decide (row.id = movementId)) = [] := by
    rw [List.filter_eq_nil_iff]
    exact fun row hrow hid => hnone row hrow (of_decide_eq_true hid)
  simp only [transitionsOf, InventoryDb.closeConsumptions, List.filter_append,
    List.filter_map]
  refine (congrArg _ (congrArg _ hfilter)).trans ?_
  simp

/-- The application of a closing step that picked what it closes keeps the
transitions in step with the ledger. -/
theorem TransitionsSound.close (hshape : LedgerShape db)
    (hplain : ∀ row ∈ db.movements, row.kind ≠ .consumption → row.status = none)
    (h : TransitionsSound db)
    (hpicked : ∀ row ∈ db.movements, row.kind = .consumption →
      row.id ∈ candidates.map ClosureCandidate.movementId →
      row.status = some .pending →
        (∀ candidate ∈ candidates, candidate.movementId = row.id →
          candidate.remaining = db.netRemaining row) ∧
        (closure = .writeOff → 0 < db.netRemaining row)) :
    TransitionsSound (db.closeConsumptions closure candidates actorUserId now) := by
  have hsame := sameMovement_close closure candidates
  have hsub : (db.closureRows candidates).Sublist (consumptionsOf db.movements) :=
    closureRows_sublist hplain
  constructor
  · intro transition htransition
    obtain ⟨row, hrow, hkind, hid⟩ : ∃ row ∈ db.movements, row.kind = .consumption ∧
        row.id = transition.movementId := by
      rcases List.mem_append.mp htransition with hold | hnew
      · exact h.known transition hold
      · obtain ⟨row, hrow, rfl⟩ := List.mem_map.mp hnew
        obtain ⟨hmem, hkind⟩ := mem_consumptionsOf.mp (hsub.subset hrow)
        exact ⟨row, hmem, hkind, rfl⟩
    exact ⟨_, List.mem_map_of_mem hrow, (hsame.kind row).trans hkind,
      (hsame.id row).trans hid⟩
  · intro row' hrow' hkind'
    obtain ⟨row, hrow, rfl⟩ := List.mem_map.mp hrow'
    have hkind := (hsame.kind row).symm.trans hkind'
    split
    · rename_i htest
      simp only [Bool.and_eq_true, decide_eq_true_eq] at htest
      have hpick := mem_closureRows.mpr ⟨hrow, htest⟩
      obtain ⟨hremaining, hpositive⟩ := hpicked row hrow hkind htest.1 htest.2
      obtain ⟨transition, hmine, hfrom, hto, hquantity⟩ :=
        transitionsOf_close_of_mem closure actorUserId now
          (hshape.ids.sublist (hsub.map fun row => row.id)) hpick
      rw [remainingOf_eq htest.1 hremaining] at hquantity
      cases h.marked row hrow hkind with
      | pending _ hnone =>
          rw [hnone, List.nil_append] at hmine
          refine .closed closure transition rfl hmine hfrom hto ?_ ?_
          · rw [netRemaining_close]
            exact hquantity
          · rw [netRemaining_close]
            exact hpositive
      | closed other _ hclosed =>
          rw [htest.2] at hclosed
          cases other <;> cases hclosed
    · rename_i htest
      have hmine : transitionsOf (db.closeConsumptions closure candidates actorUserId now)
          row.id = transitionsOf db row.id :=
        transitionsOf_close_of_not_mem fun other hother hid => by
          obtain ⟨hmem, hotherKind⟩ := mem_consumptionsOf.mp (hsub.subset hother)
          obtain rfl := hshape.eq_of_id hmem hotherKind hrow hkind hid
          obtain ⟨-, hpicked⟩ := mem_closureRows.mp hother
          simp only [Bool.and_eq_true, decide_eq_true_eq] at htest
          exact htest hpicked
      cases h.marked row hrow hkind with
      | pending hstatus hnone => exact .pending hstatus (hmine.trans hnone)
      | closed other transition hstatus hone hfrom hto hquantity hpositive =>
          refine .closed other transition hstatus (hmine.trans hone) hfrom hto ?_ ?_
          · rw [netRemaining_close]
            exact hquantity
          · rw [netRemaining_close]
            exact hpositive

/-- What was closed is not picked again, and nothing else is picked that was
not before. -/
theorem mem_closureCandidates_close {workOrderId : WorkOrderId} {other : Closure}
    {candidate : ClosureCandidate}
    (h : candidate ∈ (db.closeConsumptions closure candidates actorUserId
      now).closureCandidates other workOrderId) :
    candidate ∈ db.closureCandidates other workOrderId ∧
      candidate.movementId ∉ candidates.map ClosureCandidate.movementId := by
  obtain ⟨row', hrow', hopen, hpositive, rfl⟩ := mem_closureCandidates.mp h
  obtain ⟨row, hrow, rfl⟩ := List.mem_map.mp hrow'
  obtain ⟨-, -, hpending, -⟩ := isOpenConsumption_iff.mp hopen
  split at hpending
  · cases closure <;> cases hpending
  · rename_i htest
    rw [if_neg htest] at hopen hpositive ⊢
    rw [netRemaining_close] at hpositive ⊢
    refine ⟨mem_closureCandidates.mpr ⟨row, hrow, hopen, hpositive, rfl⟩, ?_⟩
    intro hcandidate
    simp only [Bool.and_eq_true, decide_eq_true_eq] at htest
    exact htest ⟨hcandidate, hpending⟩

end Close

/-- What a closing step picked is what is left, when it would pick the same
now. -/
theorem remaining_of_picked (hshape : LedgerShape db) {closure : Closure}
    {workOrderId : WorkOrderId}
    (hpicks : ∀ candidate, candidate ∈ candidates ↔
      candidate ∈ db.closureCandidates closure workOrderId)
    {row : MovementRow} (hrow : row ∈ db.movements) (hkind : row.kind = .consumption)
    (hcandidate : row.id ∈ candidates.map ClosureCandidate.movementId) :
    (∀ candidate ∈ candidates, candidate.movementId = row.id →
      candidate.remaining = db.netRemaining row) ∧
      (closure = .writeOff → 0 < db.netRemaining row) := by
  have hmine : ∀ candidate ∈ candidates, candidate.movementId = row.id →
      candidate.remaining = db.netRemaining row ∧
        (closure = .writeOff → 0 < db.netRemaining row) := by
    intro candidate hmem hid
    obtain ⟨picked, hpicked, hopen, hpositive, rfl⟩ :=
      mem_closureCandidates.mp ((hpicks candidate).mp hmem)
    obtain rfl := hshape.eq_of_id hpicked (isOpenConsumption_iff.mp hopen).2.1 hrow
      hkind hid
    exact ⟨rfl, hpositive⟩
  obtain ⟨candidate, hmem, hid⟩ := List.mem_map.mp hcandidate
  exact ⟨fun other hother hsame => (hmine other hother hsame).1,
    (hmine candidate hmem hid).2⟩

end Transitions

section Runs

variable {settings : OutboxSettings} {config : Config WorkshopDb SagaPlace}
variable {log : List SagaEffect}

/-- A consumption that is closed stays closed. -/
theorem RowEvolves.not_pending {place : SagaPlace} {effects : List SagaEffect}
    {row row' : MovementRow} (h : RowEvolves place effects row row')
    (hclosed : row.status ≠ some .pending) : row'.status ≠ some .pending := by
  cases h.marks with
  | same hsame _ => rwa [hsame]
  | confirm _ _ _ _ _ _ _ hsame _ => rwa [hsame]
  | close _ _ closure _ _ _ _ _ hstatus _ =>
      rw [hstatus]
      cases closure <;> nofun

/-- A consumption is posted under an id of its own. -/
theorem posted_id_new (h : SagaReaches settings config log) {pid : Nat}
    {input : SagaInput} {out : SagaOutcome}
    (hexec : sagaExec settings config.store (config.places pid) input = some out)
    {row row' : MovementRow} (hrow : row ∈ config.store.inventory.movements)
    (hkind : row.kind = .consumption) (hrow' : row' ∈ out.store.inventory.movements)
    (hkind' : row'.kind = .consumption)
    (hposted : PostedRow config.store.inventory (config.places pid) out.effects row') :
    row.id ≠ row'.id := by
  intro hid
  obtain ⟨kept, hmem, hevolves⟩ := (movements_of_exec h hexec).kept hrow
  have hsame := hevolves.same
  obtain rfl := (sagaLedger_of_reaches (h.turn pid input trivial hexec)).1.eq_of_id hmem
    (hsame.kind.trans hkind) hrow' hkind' (hsame.id.trans hid)
  obtain ⟨withdrawal, line, hplace, hconsumed⟩ := hposted.consumes hkind'
  have hknows := (rows_of_reaches h).2 pid
  rw [hplace] at hknows
  exact hknows.1 row hrow (Or.inl hkind)
    (hsame.operationId.symm.trans hconsumed.operationId)

/-- A move that closes nothing keeps the transitions in step with the
ledger. -/
theorem TransitionsSound.of_quiet (h : SagaReaches settings config log) {pid : Nat}
    {input : SagaInput} {out : SagaOutcome}
    (hexec : sagaExec settings config.store (config.places pid) input = some out)
    (hsound : TransitionsSound config.store.inventory)
    (hkept : out.store.inventory.transitions = config.store.inventory.transitions)
    (hquiet : ∀ workOrderId, ¬ Closes (config.places pid) out.effects workOrderId) :
    TransitionsSound out.store.inventory := by
  have hmoves := movements_of_exec h hexec
  have hsame (movementId : MovementId) :
      transitionsOf out.store.inventory movementId =
        transitionsOf config.store.inventory movementId := by
    rw [transitionsOf, transitionsOf, hkept]
  constructor
  · intro transition htransition
    rw [hkept] at htransition
    obtain ⟨row, hrow, hkind, hid⟩ := hsound.known transition htransition
    obtain ⟨row', hrow', hevolves⟩ := hmoves.kept hrow
    exact ⟨row', hrow', hevolves.same.kind.trans hkind, hevolves.same.id.trans hid⟩
  · intro row' hrow' hkind'
    rcases hmoves.mem hrow' with ⟨row, hrow, hevolves⟩ | hplain | hposted
    · have hkind := hevolves.same.kind.symm.trans hkind'
      have hstatus : row'.status = row.status := by
        cases hevolves.marks with
        | same hsame _ => exact hsame
        | confirm _ _ _ _ _ _ _ hsame _ => exact hsame
        | close step queue closure candidates hplace heffect =>
            exact absurd ⟨step, queue, closure, candidates, hplace, heffect, rfl⟩
              (hquiet step.workOrderId)
      cases hsound.marked row hrow hkind with
      | pending hpending hnone =>
          refine .pending (hstatus.trans hpending) ?_
          rw [hsame, hevolves.same.id, hnone]
      | closed closure transition hclosed hone hfrom hto hquantity hpositive =>
          have hnotPending : row.status ≠ some .pending := by
            rw [hclosed]
            cases closure <;> nofun
          have hrowSound := (rows_of_reaches h).1.consumptions row hrow hkind
          obtain ⟨workOrderId, howner⟩ := Option.isSome_iff_exists.mp
            ((sagaLedger_of_reaches h).1.owned row hrow hkind)
          have hconfirmed : row.confirmedAt.isSome := by
            by_contra hnone
            exact hnotPending (hrowSound.pending (by simpa using hnone))
          have hleft := netRemaining_frozen h hexec
            (closingClaimed_of_closed h hrow hkind hnotPending howner) hrow hkind howner
            hconfirmed hevolves.same
          refine .closed closure transition (hstatus.trans hclosed) ?_ hfrom hto ?_ ?_
          · rw [hsame, hevolves.same.id, hone]
          · rw [hleft, hquantity]
          · rw [hleft]
            exact hpositive
    · exact absurd hkind' hplain.noConsumption
    · obtain ⟨withdrawal, line, -, hconsumed⟩ := hposted.consumes hkind'
      refine .pending hconsumed.status ?_
      rw [hsame, transitionsOf, List.filter_eq_nil_iff]
      intro transition htransition hid
      obtain ⟨row, hrow, hkind, hmine⟩ := hsound.known transition htransition
      exact posted_id_new h hexec hrow hkind hrow' hkind' hposted
        (hmine.trans (of_decide_eq_true hid))

/-- How what was closed and what is about to be closed fit the ledger. -/
structure ClosingSound (db : WorkshopDb) (log : List SagaEffect) : Prop where
  transitions : TransitionsSound db.inventory
  applied : ∀ step, .applied step ∈ log →
    ∀ closure, closureOf step.kind = some closure →
      ∀ candidate, candidate ∉ db.inventory.closureCandidates closure step.workOrderId

/-- A program that stands at a closing step finds the step in the outbox. -/
theorem closing_row (h : SagaReaches settings config log) {pid : Nat}
    {step : ClaimedStockStep} {queue : List ClaimedStockStep} {closure : Closure}
    {candidates : List ClosureCandidate}
    (hplace : config.places pid = .closing step queue closure candidates) :
    ClosingClaimed config.store.steps log step.workOrderId ∧
      ∃ row ∈ config.store.steps, row.toStockStep = step.toStockStep ∧
        closureOf row.kind = some closure := by
  have hheld : step.toStockStep ∈ (config.places pid).held := by
    rw [hplace]
    exact List.mem_cons_self
  have hcloses := closing_kind h hplace
  obtain ⟨row, hrow, hstep⟩ := ((outbox_of_reaches h).2 pid).held _ hheld
  refine ⟨closingClaimed_of_place h hheld (by simp [hcloses]), row, hrow, hstep, ?_⟩
  rw [show row.kind = step.kind from congrArg StockStep.kind hstep, hcloses]

/-- Two programs at closing steps of one work order work on one step. -/
theorem closing_same (h : SagaReaches settings config log) {pid other : Nat}
    {step step' : ClaimedStockStep} {queue queue' : List ClaimedStockStep}
    {closure closure' : Closure} {candidates candidates' : List ClosureCandidate}
    (hplace : config.places pid = .closing step queue closure candidates)
    (hother : config.places other = .closing step' queue' closure' candidates')
    (howner : step.workOrderId = step'.workOrderId) :
    step.toStockStep = step'.toStockStep ∧ closure = closure' := by
  obtain ⟨-, row, hrow, hstep, hclosure⟩ := closing_row h hplace
  obtain ⟨-, row', hrow', hstep', hclosure'⟩ := closing_row h hother
  have heq := closing_unique h hrow hrow'
    ((congrArg StockStep.workOrderId hstep).trans
      (howner.trans (congrArg StockStep.workOrderId hstep').symm))
    (by simp [hclosure]) (by simp [hclosure'])
  subst heq
  exact ⟨hstep.symm.trans hstep', Option.some.inj (hclosure.symm.trans hclosure')⟩

/-- A closing step that is applied by a move is the one its program stands
at. -/
theorem closes_of_applied {db : WorkshopDb} {place : SagaPlace} {input : SagaInput}
    {out : SagaOutcome} (hexec : sagaExec settings db place input = some out)
    {step : StockStep} (hcloses : closureOf step.kind ≠ none)
    (happlied : .applied step ∈ out.effects) :
    ∃ claimed queue closure candidates,
      place = .closing claimed queue closure candidates ∧
        claimed.toStockStep = step := by
  obtain ⟨claimed, queue, rfl, ⟨-, hkind⟩ | ⟨closure, candidates, hplace⟩⟩ :=
    (sagaMove_of_exec hexec).stock.applies happlied
  · rcases hkind with hkind | hkind <;> simp [hkind, closureOf] at hcloses
  · exact ⟨claimed, queue, closure, candidates, hplace, rfl⟩

/-- A closing step that was applied was claimed. -/
theorem closingClaimed_of_applied (h : SagaReaches settings config log)
    {step : StockStep} (happlied : .applied step ∈ log)
    (hcloses : closureOf step.kind ≠ none) :
    ClosingClaimed config.store.steps log step.workOrderId := by
  obtain ⟨-, ⟨closer, hcloser, rfl⟩, hclaimed⟩ :=
    (order_of_reaches h).1.applied step happlied
  exact ⟨closer, hcloser, rfl, hcloses, hclaimed⟩

/-- One move keeps what was closed in step with the ledger. -/
theorem ClosingSound.step (h : SagaReaches settings config log) {pid : Nat}
    {input : SagaInput} {out : SagaOutcome}
    (hexec : sagaExec settings config.store (config.places pid) input = some out)
    (hsound : ClosingSound config.store log)
    (hpicks : (config.places pid).Picks config.store.inventory log) :
    ClosingSound out.store (log ++ out.effects) := by
  obtain ⟨hshape, -⟩ := sagaLedger_of_reaches h
  -- What was closed before stays closed while nothing of its work order is.
  have hkeeps {done : StockStep} (happlied : .applied done ∈ log) {closure : Closure}
      (hcloses : closureOf done.kind = some closure)
      (hquiet : ¬ Closes (config.places pid) out.effects done.workOrderId)
      (candidate : ClosureCandidate) :
      candidate ∉ out.store.inventory.closureCandidates closure done.workOrderId := by
    have hclosing := closingClaimed_of_applied h happlied (by simp [hcloses])
    rw [candidates_frozen h hexec hclosing hquiet]
    exact hsound.applied done happlied closure hcloses candidate
  rcases (sagaMove_of_exec hexec).stock.transitions hshape with
    ⟨hkept, hquiet⟩ | ⟨step, queue, closure, candidates, now, hplace, heffect, hdb⟩
  · refine ⟨hsound.transitions.of_quiet h hexec hkept hquiet, ?_⟩
    intro done happlied other hcloses
    rcases List.mem_append.mp happlied with happlied | happlied
    · exact hkeeps happlied hcloses (hquiet _)
    · obtain ⟨claimed, queue, closure, candidates, hplace, rfl⟩ :=
        closes_of_applied hexec (by simp [hcloses]) happlied
      exact absurd ⟨claimed, queue, closure, candidates, hplace, happlied, rfl⟩
        (hquiet claimed.workOrderId)
  · have hmine := closing_kind h hplace
    rw [hplace] at hpicks
    constructor
    · rw [hdb]
      refine hsound.transitions.close hshape (rows_of_reaches h).1.statuses ?_
      intro row hrow hkind hcandidate hpending
      rcases hpicks with ⟨-, hnone⟩ | hpicks
      · exact absurd hpending (hnone row hrow hkind hcandidate)
      · exact remaining_of_picked hshape hpicks hrow hkind hcandidate
    · intro done happlied other hcloses candidate hcandidate
      rcases List.mem_append.mp happlied with happlied | happlied
      · by_cases howner : Closes (config.places pid) out.effects done.workOrderId
        · rw [hdb] at hcandidate
          exact hsound.applied done happlied other hcloses candidate
            (mem_closureCandidates_close hcandidate).1
        · exact hkeeps happlied hcloses howner candidate hcandidate
      · obtain ⟨claimed, queue', closure', candidates', hplace', rfl⟩ :=
          closes_of_applied hexec (by simp [hcloses]) happlied
        rw [hplace] at hplace'
        cases hplace'
        rw [hdb] at hcandidate
        obtain ⟨hbefore, hleft⟩ := mem_closureCandidates_close hcandidate
        have hsame : other = closure := Option.some.inj (hcloses.symm.trans hmine)
        subst hsame
        rcases hpicks with ⟨happlied, -⟩ | hpicks
        · exact hsound.applied _ happlied other hcloses candidate hbefore
        · exact hleft (List.mem_map_of_mem ((hpicks candidate).mpr hbefore))

/-- What a closing step picked stays closable while others move. -/
theorem SagaPlace.Picks.other (h : SagaReaches settings config log) {pid : Nat}
    {input : SagaInput} {out : SagaOutcome}
    (hexec : sagaExec settings config.store (config.places pid) input = some out)
    (hsound : ClosingSound config.store log)
    (hmover : (config.places pid).Picks config.store.inventory log) {other : Nat}
    (hpicks : (config.places other).Picks config.store.inventory log) :
    (config.places other).Picks out.store.inventory (log ++ out.effects) := by
  cases hother : config.places other with
  | closing step queue closure candidates =>
      rw [hother] at hpicks
      obtain ⟨hclosing, -⟩ := closing_row h hother
      have hmoves := movements_of_exec h hexec
      -- A row that was picked stood in the ledger.
      have hstood {row' : MovementRow} (hrow' : row' ∈ out.store.inventory.movements)
          (hkind : row'.kind = .consumption)
          (hcandidate : row'.id ∈ candidates.map ClosureCandidate.movementId) :
          ∃ row ∈ config.store.inventory.movements, row.kind = .consumption ∧
            row.id = row'.id ∧
            RowEvolves (config.places pid) out.effects row row' := by
        rcases hmoves.mem hrow' with ⟨row, hrow, hevolves⟩ | hplain | hposted
        · exact ⟨row, hrow, hevolves.same.kind.symm.trans hkind,
            hevolves.same.id.symm, hevolves⟩
        · exact absurd hkind hplain.noConsumption
        · have hknows := (rows_of_reaches h).2 other
          rw [hother] at hknows
          obtain ⟨candidate, hmem, hid⟩ := List.mem_map.mp hcandidate
          obtain ⟨picked, hpicked, hpickedKind, hsame, -⟩ := hknows.2 candidate hmem
          exact absurd (hsame.trans hid)
            (posted_id_new h hexec hpicked hpickedKind hrow' hkind hposted)
      rcases hpicks with ⟨happlied, hnone⟩ | hsame
      · refine Or.inl ⟨List.mem_append_left _ happlied, ?_⟩
        intro row' hrow' hkind hcandidate
        obtain ⟨row, hrow, hrowKind, hid, hevolves⟩ := hstood hrow' hkind hcandidate
        exact hevolves.not_pending (hnone row hrow hrowKind (hid ▸ hcandidate))
      · rcases (sagaMove_of_exec hexec).stock.transitions (sagaLedger_of_reaches h).1 with
          ⟨-, hquiet⟩ | ⟨mine, mineQueue, mineClosure, mineCandidates, now, hplace,
            heffect, hdb⟩
        · right
          intro candidate
          rw [hsame, candidates_frozen h hexec hclosing (hquiet _)]
        by_cases howner : mine.workOrderId = step.workOrderId
        · obtain ⟨hstep, rfl⟩ := closing_same h hplace hother howner
          refine Or.inl ⟨List.mem_append_right _ (hstep ▸ heffect), ?_⟩
          rw [hdb]
          intro row' hrow' hkind hcandidate hpending
          -- The mover picked the same consumptions, so it closed this one.
          have hclosed : row'.id ∈ mineCandidates.map ClosureCandidate.movementId := by
            obtain ⟨candidate, hmem, hid⟩ := List.mem_map.mp hcandidate
            have hcurrent := (hsame candidate).mp hmem
            rw [hplace] at hmover
            rcases hmover with ⟨happlied, -⟩ | hmover
            · rw [hstep] at happlied
              exact absurd hcurrent (hsound.applied _ happlied mineClosure
                (closing_kind h hother) candidate)
            · exact hid ▸ List.mem_map_of_mem ((hmover candidate).mpr (howner ▸ hcurrent))
          obtain ⟨row, hrow, rfl⟩ := List.mem_map.mp hrow'
          split at hpending
          · cases mineClosure <;> cases hpending
          · rename_i htest
            rw [if_neg htest] at hclosed
            exact htest (by simp [hclosed, hpending])
        · right
          intro candidate
          refine (hsame candidate).trans
            (candidates_frozen h hexec hclosing ?_ closure candidate).symm
          rintro ⟨claimed, _, _, _, hplace', -, hclaimed⟩
          rw [hplace] at hplace'
          cases hplace'
          exact howner hclaimed
  | _ => trivial

/-- What was closed and what is about to be closed fit the ledger in every
reachable state. -/
theorem closings_of_reaches (h : SagaReaches settings config log) :
    ClosingSound config.store log ∧
      ∀ pid, (config.places pid).Picks config.store.inventory log := by
  refine ReachesBy.invariant_of_places (G := fun db log => ClosingSound db log)
    (L := fun db log place => place.Picks db.inventory log) ?_ (fun _ => trivial) ?_ ?_ h
  · exact ⟨⟨fun _ hmem => absurd hmem List.not_mem_nil,
      fun _ hmem => absurd hmem List.not_mem_nil⟩,
      fun _ hmem => absurd hmem List.not_mem_nil⟩
  · intro config log pid input out before hsound hplaces _ hexec
    refine ⟨hsound.step before hexec (hplaces pid), ?_⟩
    have hcame := (sagaMove_of_exec hexec).cameFrom
    unfold CameFrom at hcame
    cases hnext : out.place with
    | closing step queue closure candidates =>
        rw [hnext] at hcame
        obtain ⟨-, -, -, hinventory, rfl⟩ := hcame
        right
        rw [hinventory]
        exact fun _ => Iff.rfl
    | _ => trivial
  · intro config log pid input out before hsound hplaces _ hexec other _
    exact SagaPlace.Picks.other before hexec hsound (hplaces pid) (hplaces other)

/-- The status a closure leaves its work order with. -/
def closedAs : Closure → WorkOrderStatus
  | .settle => .delivered
  | .writeOff => .canceled

/-- The steps of a work order were applied, but for its undos. -/
def StepsApplied (steps : List StockStepRow) (log : List SagaEffect)
    (workOrderId : WorkOrderId) : Prop :=
  ∀ row ∈ steps, row.workOrderId = workOrderId → row.kind ≠ .undoConsumption →
    .applied row.toStockStep ∈ log

theorem stepsApplied_of_done (h : SagaReaches settings config log)
    {workOrderId : WorkOrderId}
    (hdone : ∀ row ∈ config.store.steps, row.workOrderId = workOrderId →
      row.status = .done) : StepsApplied config.store.steps log workOrderId :=
  fun row hrow howner hkind =>
    (order_of_reaches h).1.done row hrow hkind (hdone row hrow howner)

/-- A saved consumption is confirmed once the steps of its work order are
applied. -/
theorem confirmed_of_applied (h : SagaReaches settings config log)
    {workOrderId : WorkOrderId}
    (hsteps : StepsApplied config.store.steps log workOrderId) {row : MovementRow}
    (hrow : row ∈ config.store.inventory.movements) (hkind : row.kind = .consumption)
    (howner : row.workOrderId = some workOrderId) (hsaved : isSaved log row = true) :
    row.confirmedAt.isSome := by
  obtain ⟨operationId, hoperation, hwithdrawn⟩ := isSaved_iff.mp hsaved
  obtain ⟨confirmation, hmem, hconfirms, hcarries⟩ := confirmation_of_saved h hwithdrawn
  have hmine := confirmation_owner h hmem hconfirms hcarries hrow hkind hoperation
  have happlied := hsteps confirmation hmem
    (Option.some.inj (hmine.symm.trans howner)) (by simp [hconfirms])
  exact (applied_of_reaches h).confirmed _ happlied hconfirms operationId hcarries row
    hrow hkind hoperation

/-- A closed work order whose steps are applied has nothing left to close, and
what was closed of it was closed by its closing step. -/
theorem closed_out (h : SagaReaches settings config log) {workOrderId : WorkOrderId}
    {state : WorkOrder} (hstate : config.store.tables.stateOf workOrderId = some state)
    (closure : Closure) (hstatus : state.status = closedAs closure)
    (hsteps : StepsApplied config.store.steps log workOrderId) :
    (∀ candidate, candidate ∉
      config.store.inventory.closureCandidates closure workOrderId) ∧
    ∀ row ∈ config.store.inventory.movements, row.kind = .consumption →
      row.workOrderId = some workOrderId → row.status = some .pending ∨
        row.status = some closure.toStatus := by
  have hclosed : state.status.isClosed = true := by
    rw [hstatus]
    cases closure <;> rfl
  obtain ⟨closer, hcloser, rfl, hcloses⟩ :=
    (balance_of_reaches h).closed workOrderId state hstate hclosed
  have hclosure : closureOf closer.kind = some closure := by
    rw [hstatus] at hcloses
    revert hcloses
    cases closer.kind <;> cases closure <;> decide
  have happlied := hsteps closer hcloser rfl (closingStatus_ne_none (by simp [hclosure])).2
  refine ⟨(closings_of_reaches h).1.applied _ happlied closure hclosure, ?_⟩
  intro row hrow hkind howner
  have hsound := (rows_of_reaches h).1.consumptions row hrow hkind
  obtain ⟨status, hrowStatus⟩ := Option.ne_none_iff_exists'.mp hsound.status
  by_cases hpending : status = .pending
  · exact Or.inl (hpending ▸ hrowStatus)
  · obtain ⟨step, other, hother, hotherClosure, rfl, hstepOwner⟩ :=
      hsound.closed status hrowStatus hpending
    obtain ⟨-, ⟨mine, hmine, rfl⟩, -⟩ := (order_of_reaches h).1.applied step hother
    have hsame := closing_unique h hcloser hmine
      (Option.some.inj (howner.symm.trans hstepOwner)) (by simp [hclosure])
      (by simp [hotherClosure])
    subst hsame
    obtain rfl := Option.some.inj (hclosure.symm.trans hotherClosure)
    exact Or.inr hrowStatus

/-- Closing is complete.  Once the steps of a delivered work order are done,
every consumption of a saved withdrawal of it is settled, and once those of a
canceled one are, none is pending with units left.  Whatever was applied twice,
a consumption has one transition when it is no longer pending and none before,
and one whose withdrawal was not saved is pending. -/
theorem closing_complete (h : SagaReaches settings config log) :
    (∀ workOrderId state, config.store.tables.stateOf workOrderId = some state →
      (∀ row ∈ config.store.steps, row.workOrderId = workOrderId →
        row.status = .done) →
      ∀ row ∈ config.store.inventory.movements, row.kind = .consumption →
        row.workOrderId = some workOrderId → isSaved log row = true →
        (state.status = .delivered → row.status = some .settled) ∧
        (state.status = .canceled → row.status = some .pending →
          config.store.inventory.netRemaining row ≤ 0)) ∧
    ∀ row ∈ config.store.inventory.movements, row.kind = .consumption →
      ((transitionsOf config.store.inventory row.id).length =
        if row.status = some .pending then 0 else 1) ∧
      (isSaved log row = false → row.status = some .pending) := by
  have hsound := (rows_of_reaches h).1
  constructor
  · intro workOrderId state hstate hdone row hrow hkind howner hsaved
    have hsteps := stepsApplied_of_done h hdone
    have hconfirmed := confirmed_of_applied h hsteps hrow hkind howner hsaved
    have hopen (hpending : row.status = some .pending) :
        isOpenConsumption workOrderId row = true :=
      isOpenConsumption_iff.mpr ⟨howner, hkind, hpending,
        by simp [confirmedConsumption, hconfirmed]⟩
    constructor
    · intro hstatus
      obtain ⟨hnone, hstatuses⟩ := closed_out h hstate .settle hstatus hsteps
      refine (hstatuses row hrow hkind howner).resolve_left fun hpending => ?_
      exact hnone _
        (mem_closureCandidates.mpr ⟨row, hrow, hopen hpending, by simp, rfl⟩)
    · intro hstatus hpending
      obtain ⟨hnone, -⟩ := closed_out h hstate .writeOff hstatus hsteps
      by_contra hleft
      exact hnone _ (mem_closureCandidates.mpr
        ⟨row, hrow, hopen hpending, fun _ => not_le.mp hleft, rfl⟩)
  · intro row hrow hkind
    constructor
    · cases (closings_of_reaches h).1.transitions.marked row hrow hkind with
      | pending hpending hnone => simp [hpending, hnone]
      | closed closure transition hclosed hone =>
          rw [hclosed, hone]
          cases closure <;> rfl
    · intro hunsaved
      apply (hsound.consumptions row hrow hkind).pending
      by_contra hconfirmed
      have hsaved := isSaved_of_confirmed h hrow hkind
        (Option.isSome_iff_ne_none.mpr hconfirmed)
      rw [hunsaved] at hsaved
      cases hsaved

end Runs

namespace SagaWitness

/-- The withdrawal is confirmed, the work completed and the vehicle delivered,
and the settlement is applied. -/
def delivered : Config WorkshopDb SagaPlace × List SagaEffect :=
  endOfRun (sagaExec settings) emptyWorkshop
    (inExecution [part] ++ withdrawing 0 10 ++ proceed 0 5 11 ++
      plainRequest 0 12 (.completeWorkOrder 7) ++
      (0, .request "OS-1" (.deliverVehicle 7)) :: proceed 0 8 13)
    (by decide +kernel)

theorem reaches_delivered : SagaReaches settings delivered.1 delivered.2 :=
  reaches_endOfRun _

theorem closing_complete_delivered :
    (∃ state, delivered.1.store.tables.stateOf 2 = some state ∧
      state.status = .delivered ∧
      (∀ row ∈ delivered.1.store.steps, row.workOrderId = 2 → row.status = .done) ∧
      (delivered.1.store.inventory.movements.any fun row =>
        row.kind = .consumption && isSaved delivered.2 row) = true) ∧
    (∀ workOrderId state, delivered.1.store.tables.stateOf workOrderId = some state →
      (∀ row ∈ delivered.1.store.steps, row.workOrderId = workOrderId →
        row.status = .done) →
      ∀ row ∈ delivered.1.store.inventory.movements, row.kind = .consumption →
        row.workOrderId = some workOrderId → isSaved delivered.2 row = true →
        (state.status = .delivered → row.status = some .settled) ∧
        (state.status = .canceled → row.status = some .pending →
          delivered.1.store.inventory.netRemaining row ≤ 0)) ∧
    ∀ row ∈ delivered.1.store.inventory.movements, row.kind = .consumption →
      ((transitionsOf delivered.1.store.inventory row.id).length =
        if row.status = some .pending then 0 else 1) ∧
      (isSaved delivered.2 row = false → row.status = some .pending) := by
  have hstate : ((delivered.1.store.tables.stateOf 2).map fun state => state.status) =
      some .delivered := by decide +kernel
  obtain ⟨state, hstate, hstatus⟩ := Option.map_eq_some_iff.mp hstate
  exact ⟨⟨state, hstate, hstatus, by decide +kernel, by decide +kernel⟩,
    closing_complete reaches_delivered⟩

end SagaWitness

end WorkOrders

end Workshop
