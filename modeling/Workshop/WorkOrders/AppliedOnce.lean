/-
Each step of the outbox is applied once and in order: an application finds the
older steps of its work order done, and one that repeats an earlier application
of its step finds nothing left to do.
-/
import Workshop.WorkOrders.Closings

namespace Workshop

namespace WorkOrders

open Inventory

section Repeats

variable {db : InventoryDb}

/-- Confirming what is confirmed changes nothing. -/
theorem confirmConsumptionsOfOperation_eq_self {operationId : OperationId}
    (now : Timestamp)
    (hconfirmed : ∀ row ∈ db.movements, row.kind = .consumption →
      row.operationId = some operationId → row.confirmedAt.isSome) :
    db.confirmConsumptionsOfOperation operationId now = db := by
  have hrows : (db.confirmConsumptionsOfOperation operationId now).movements =
      db.movements := by
    refine (List.map_congr_left fun row hrow => ?_).trans (List.map_id _)
    rw [if_neg, id]
    intro htest
    simp only [Bool.and_eq_true, decide_eq_true_eq] at htest
    obtain ⟨⟨hoperation, hconsumption⟩, hnone⟩ := htest
    have hsome := hconfirmed row hrow hconsumption hoperation
    rw [Option.isNone_iff_eq_none] at hnone
    rw [hnone] at hsome
    cases hsome
  simp only [InventoryDb.confirmConsumptionsOfOperation] at hrows ⊢
  rw [hrows]

/-- Closing candidates none of which is pending changes nothing. -/
theorem closeConsumptions_eq_self {candidates : List ClosureCandidate}
    (closure : Closure) (actorUserId : UserId) (now : Timestamp)
    (hnone : ∀ row ∈ db.movements,
      row.id ∈ candidates.map ClosureCandidate.movementId →
        row.status ≠ some .pending) :
    db.closeConsumptions closure candidates actorUserId now = db := by
  have hpicked : db.closureRows candidates = [] := by
    apply List.filter_eq_nil_iff.mpr
    intro row hrow htest
    simp only [Bool.and_eq_true, decide_eq_true_eq] at htest
    exact hnone row hrow htest.1 htest.2
  have hrows : (db.closeConsumptions closure candidates actorUserId now).movements =
      db.movements := by
    refine (List.map_congr_left fun row hrow => ?_).trans (List.map_id _)
    rw [if_neg, id]
    intro htest
    simp only [Bool.and_eq_true, decide_eq_true_eq] at htest
    exact hnone row hrow htest.1 htest.2
  simp only [InventoryDb.closeConsumptions] at hrows ⊢
  rw [hrows, hpicked, List.map_nil, List.append_nil]

end Repeats

section Runs

variable {settings : OutboxSettings} {config : Config WorkshopDb SagaPlace}
variable {log : List SagaEffect}

/-- A closing step that was applied finds nothing pending among what it
picked. -/
theorem not_pending_of_applied (h : SagaReaches settings config log) {pid : Nat}
    {step : ClaimedStockStep} {queue : List ClaimedStockStep} {closure : Closure}
    {candidates : List ClosureCandidate}
    (hplace : config.places pid = .closing step queue closure candidates)
    (happlied : .applied step.toStockStep ∈ log) :
    ∀ row ∈ config.store.inventory.movements,
      row.id ∈ candidates.map ClosureCandidate.movementId →
        row.status ≠ some .pending := by
  obtain ⟨hsound, hpicks⟩ := closings_of_reaches h
  have hmine := hpicks pid
  rw [hplace] at hmine
  intro row hrow hcandidate
  by_cases hkind : row.kind = .consumption
  · rcases hmine with ⟨-, hnone⟩ | hcurrent
    · exact hnone row hrow hkind hcandidate
    · obtain ⟨candidate, hmem, -⟩ := List.mem_map.mp hcandidate
      exact absurd ((hcurrent candidate).mp hmem)
        (hsound.applied _ happlied closure (closing_kind h hplace) candidate)
  · rw [(rows_of_reaches h).1.statuses row hrow hkind]
    nofun

/-- An application of a step that was applied before leaves the tables of
inventory as it found them. -/
theorem reapplied (h : SagaReaches settings config log) {pid : Nat}
    {input : SagaInput} {out : SagaOutcome}
    (hexec : sagaExec settings config.store (config.places pid) input = some out)
    {step : StockStep} (happlied : .applied step ∈ out.effects)
    (hbefore : .applied step ∈ log) :
    out.store.inventory = config.store.inventory := by
  have hsound := applied_of_reaches h
  have hshape := (sagaLedger_of_reaches h).1
  have hstock := (sagaMove_of_exec hexec).stock
  generalize hplace : config.places pid = place at hstock
  generalize out.place = next at hstock
  generalize out.effects = effects at hstock happlied
  generalize out.store.inventory = db' at hstock ⊢
  cases hstock with
  | quiet _ _ nextId hle _ hnone => exact absurd happlied (hnone step)
  | confirm claimed queue operationId now hkind hcarries =>
      have hstep : step = claimed.toStockStep := by simpa using happlied
      apply confirmConsumptionsOfOperation_eq_self
      rw [hstep] at hbefore
      exact hsound.confirmed _ hbefore hkind operationId hcarries
  | restore claimed queue order now _ hkind hrestore =>
      have hstep : step = claimed.toStockStep := by simpa using happlied
      rw [hstep] at hbefore
      rcases restoreStockBatch_ok hshape.items hrestore with
        ⟨-, hsame⟩ | ⟨hfirst, -⟩
      · exact hsame
      · have hrepeat := hasReturnOfOperation_iff.mpr (hsound.hasReturn h hbefore hkind)
        exact absurd (hfirst.symm.trans hrepeat) nofun
  | close claimed queue closure candidates now =>
      have hstep : step = claimed.toStockStep := by simpa using happlied
      rw [hstep] at hbefore
      exact closeConsumptions_eq_self closure _ now
        (not_pending_of_applied h hplace hbefore)
  | _ => simp at happlied

/-- A step is applied when the older steps of its work order are done, but for
its undos. -/
theorem applied_in_order (h : SagaReaches settings config log) {pid : Nat}
    {input : SagaInput} {out : SagaOutcome}
    (hexec : sagaExec settings config.store (config.places pid) input = some out)
    {step : StockStep} (happlied : .applied step ∈ out.effects) :
    step.kind ≠ .undoConsumption ∧ ∃ older row newer,
      config.store.steps = older ++ row :: newer ∧ row.toStockStep = step ∧
        OlderDone older row := by
  obtain ⟨hkind, ⟨row, hrow, rfl⟩, hclaimed⟩ := applied_of_exec h hexec happlied
  obtain ⟨older, newer, hsplit⟩ := List.append_of_mem hrow
  exact ⟨hkind, older, row, newer, hsplit, rfl,
    (order_of_reaches h).1.claimed older row newer hsplit hkind hclaimed⟩

end Runs

end WorkOrders

end Workshop
