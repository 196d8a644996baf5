/-
The links that decide a budget.  A link carries a hash of the generation it was
made for: the id of the budget and the time it was quoted at.  A rejected round
one is quoted again under its old id, so the time is what tells the quotes apart.
-/
import Mathlib.Data.List.Pairwise
import Workshop.WorkOrders.SavedOperations

namespace Workshop

namespace WorkOrders

/-- `HttpBudgetDecisionLinks`.  `digest` are the first 32 hexadecimal characters
of the SHA-256 of a text. -/
structure BudgetDecisionLinks where
  digest : String → String

namespace BudgetDecisionLinks

/-- The text of a generation that is hashed. -/
def generationText (budgetId : BudgetId) (generatedAt : Timestamp) : String :=
  toString budgetId ++ ":" ++ toString generatedAt

variable (links : BudgetDecisionLinks)

def hashOf (budgetId : BudgetId) (generatedAt : Timestamp) : String :=
  links.digest (generationText budgetId generatedAt)

def isCurrent (budgetId : BudgetId) (generatedAt : Timestamp) (link : String) : Bool :=
  decide (link = links.hashOf budgetId generatedAt)

end BudgetDecisionLinks

/-- `ApproveBudgetCommand` and `RejectBudgetCommand`, once the work order they
name was loaded. -/
structure DecideBudgetCommand where
  actorUserId : UserId
  budgetId : Option BudgetId
  link : Option String

/-- What the authorizer reads of the actor. -/
structure DecisionActor where
  decidesAnyBudget : Bool
  /-- The customer whose account the actor has. -/
  customerId : Option Uuid

inductive DecisionError
  | workOrderNotFound
  | budgetLinkOutdated
  | workOrder (error : WorkOrderError)
deriving DecidableEq, Repr

/-- `BudgetDecisionAuthorizer.assertMayDecide` -/
def assertMayDecide (workOrder : WorkOrder) (actor : DecisionActor) :
    Except DecisionError Unit :=
  if actor.decidesAnyBudget || actor.customerId == some workOrder.customerId then .ok ()
  else .error .workOrderNotFound

/-- A method of the aggregate, called on a copy. -/
def callMethod {α : Type} (method : WorkOrderM α) (workOrder : WorkOrder) :
    Except DecisionError (α × WorkOrder) :=
  match method workOrder with
  | .ok answer changed => .ok (answer, changed)
  | .error error _ => .error (.workOrder error)

/-- `assertLinkIsCurrent`: a budget the work order does not hold is refused
first. -/
def assertLinkIsCurrent (links : BudgetDecisionLinks) (workOrder : WorkOrder)
    (budgetId : BudgetId) (link : Option String) : Except DecisionError Unit := do
  let found ← callMethod (WorkOrder.budgetById budgetId) workOrder
  let budget := found.1.2
  if links.isCurrent budget.id budget.generatedAt (link.getD "") then return ()
  else throw .budgetLinkOutdated

inductive BudgetDecision
  | approve
  | reject
deriving DecidableEq, Repr

def BudgetDecision.method : BudgetDecision → DecideBudgetActionInput → WorkOrderM Unit
  | .approve => WorkOrder.approveBudget
  | .reject => WorkOrder.rejectBudget

def BudgetDecision.status : BudgetDecision → BudgetStatus
  | .approve => .approved
  | .reject => .rejected

/-- `execute` of either use case, from the load to the save. -/
def BudgetDecision.execute (decision : BudgetDecision) (links : BudgetDecisionLinks)
    (command : DecideBudgetCommand) (actor : DecisionActor) (now : Timestamp)
    (workOrder : WorkOrder) : Except DecisionError WorkOrder := do
  assertMayDecide workOrder actor
  match command.budgetId with
  | none => pure ()
  | some budgetId => assertLinkIsCurrent links workOrder budgetId command.link
  let done ← callMethod (decision.method
    { actorUserId := command.actorUserId, now, budgetId := command.budgetId }) workOrder
  return done.2

/-- The quote of a budget: what a link for it shows. -/
structure SameQuote (left right : Budget) : Prop where
  id : left.id = right.id
  generatedAt : left.generatedAt = right.generatedAt
  total : left.total = right.total

section Texts

open BudgetDecisionLinks (generationText)

theorem colon_not_mem_toDigits (n : Nat) : ':' ∉ Nat.toDigits 10 n := by
  intro hmem
  have hdigit := Nat.isDigit_of_mem_toDigits (by decide) (by decide) hmem
  exact absurd hdigit (by decide)

theorem toDigits_inj {left right : Nat}
    (h : Nat.toDigits 10 left = Nat.toDigits 10 right) : left = right := by
  rw [← Nat.ofDigitChars_ten_toDigits (n := left), h, Nat.ofDigitChars_ten_toDigits]

/-- The text of a generation names its budget and its time. -/
theorem generationText_inj {budgetId otherId : BudgetId}
    {generatedAt otherAt : Timestamp}
    (h : generationText budgetId generatedAt = generationText otherId otherAt) :
    budgetId = otherId ∧ generatedAt = otherAt := by
  have hlists := congrArg String.toList h
  simp only [generationText, Nat.toString_eq_repr, String.toList_append,
    Nat.toList_repr, List.append_assoc] at hlists
  obtain ⟨hid, -, hat⟩ := (List.append_cons_inj_of_notMem
    (colon_not_mem_toDigits budgetId) (colon_not_mem_toDigits generatedAt)).mp hlists
  exact ⟨toDigits_inj hid, toDigits_inj hat⟩

end Texts

/-- A budget that a method leaves was there with the same quote, or it is the
one that was quoted: it is pending, and none was. -/
def QuotedFrom (before : List Budget) (budget : Budget) : Prop :=
  (∃ old ∈ before, SameQuote old budget) ∨
    budget.status = .pending ∧ ∀ old ∈ before, old.status ≠ .pending

section Methods

variable {rules : BillingRules} {before after : WorkOrder} {done : Unit}

theorem quotedFrom_self {budgets : List Budget} {budget : Budget}
    (h : budget ∈ budgets) : QuotedFrom budgets budget :=
  Or.inl ⟨budget, h, rfl, rfl, rfl⟩

/-- A decided round keeps its quote. -/
theorem decide_quote {budget decided : Budget} {status : BudgetStatus}
    {actorUserId : UserId} {now : Timestamp}
    (h : budget.decide status actorUserId now = .ok decided) :
    SameQuote budget decided := by
  obtain ⟨_, -, h⟩ := bind_eq_ok_iff.mp h
  rw [pure_eq_ok_iff] at h
  subst h
  exact ⟨rfl, rfl, rfl⟩

theorem budgetById_runs {budgetId : BudgetId} {found : Nat × Budget}
    (h : Runs (WorkOrder.budgetById budgetId) before found after) :
    before.budgets[found.1]? = some found.2 ∧ found.2.id = budgetId := by
  simp only [WorkOrder.budgetById, runs_bind, runs_get] at h
  obtain ⟨workOrder, middle, ⟨rfl, rfl⟩, h⟩ := h
  split at h
  · rename_i found' hfound
    obtain ⟨rfl, -⟩ := runs_pure.mp h
    exact ⟨(getElem?_of_findAt hfound).1, of_decide_eq_true (getElem?_of_findAt hfound).2⟩
  · simp at h

/-- The round a link names is the one that is decided. -/
theorem budgetToDecide_named {budgetId : BudgetId} {found : Nat × Budget}
    (h : Runs (WorkOrder.budgetToDecide (some budgetId)) before found after) :
    Runs (WorkOrder.budgetById budgetId) before found before := by
  simp only [WorkOrder.budgetToDecide, runs_bind, runs_pure] at h
  obtain ⟨found', middle, hfound, _, _, -, _, _, -, rfl, -⟩ := h
  have hsame : middle = before := by
    simp only [WorkOrder.budgetById, runs_bind, runs_get] at hfound
    obtain ⟨workOrder, last, ⟨rfl, rfl⟩, hfound⟩ := hfound
    split at hfound
    · exact (runs_pure.mp hfound).2
    · simp at hfound
  rwa [hsame] at hfound

/-- What a decision does to the rounds: a pending one is decided. -/
structure Decides (decision : BudgetDecision) (budgetId : Option BudgetId)
    (before after : WorkOrder) (index : Nat) (found decided : Budget) : Prop where
  stood : before.budgets[index]? = some found
  named : ∀ id, budgetId = some id →
    Runs (WorkOrder.budgetById id) before (index, found) before
  pending : found.status = .pending
  quote : SameQuote found decided
  status : decided.status = decision.status
  budgets : after.budgets = before.budgets.set index decided

theorem decision_runs {decision : BudgetDecision} {input : DecideBudgetActionInput}
    (h : Runs (decision.method input) before done after) :
    ∃ index found decided,
      Decides decision input.budgetId before after index found decided := by
  cases decision with
  | approve =>
      change Runs (WorkOrder.approveBudget input) before done after at h
      simp [WorkOrder.approveBudget, WorkOrder.writeBudget, WorkOrder.recordMove,
        WorkOrder.recordStatusChange] at h
      obtain ⟨index, found, middle, hfound, decided, hdecided, rfl⟩ := h
      obtain ⟨rfl, -, hindex⟩ := WorkOrder.budgetToDecide_runs hfound
      obtain ⟨hpending, hstatus, -⟩ := WorkOrder.decide_ok hdecided
      refine ⟨index, found, decided, hindex, fun id hid => ?_, hpending,
        decide_quote hdecided, hstatus, rfl⟩
      rw [hid] at hfound
      exact budgetToDecide_named hfound
  | reject =>
      change Runs (WorkOrder.rejectBudget input) before done after at h
      simp [WorkOrder.rejectBudget, WorkOrder.writeBudget, WorkOrder.recordMove,
        WorkOrder.recordStatusChange, WorkOrder.recordExecutionStarted] at h
      obtain ⟨index, found, middle, hfound, decided, hdecided, state, hstate, rfl⟩ := h
      obtain ⟨rfl, -, hindex⟩ := WorkOrder.budgetToDecide_runs hfound
      obtain ⟨hpending, hstatus, -⟩ := WorkOrder.decide_ok hdecided
      refine ⟨index, found, decided, hindex, fun id hid => ?_, hpending,
        decide_quote hdecided, hstatus, ?_⟩
      · rw [hid] at hfound
        exact budgetToDecide_named hfound
      · split at hstate <;> rw [hstate] <;> rfl

theorem Decides.quotedFrom {decision : BudgetDecision} {budgetId : Option BudgetId}
    {index : Nat} {found decided : Budget}
    (h : Decides decision budgetId before after index found decided) :
    ∀ budget ∈ after.budgets, QuotedFrom before.budgets budget := by
  intro budget hbudget
  rw [h.budgets] at hbudget
  rcases List.mem_or_eq_of_mem_set hbudget with hold | rfl
  · exact quotedFrom_self hold
  · exact Or.inl ⟨found, List.mem_of_getElem? h.stood, h.quote⟩

/-- Where no round is pending, a new pending one is quoted. -/
theorem quotedFrom_pending {budget : Budget} (hsound : before.billing.RoundsSound rules)
    (hopen : before.status ≠ .canceled) (hstatus : before.status ≠ .awaitingApproval)
    (hpending : budget.status = .pending) : QuotedFrom before.budgets budget :=
  Or.inr ⟨hpending, hsound.staged.decided hopen hstatus⟩

theorem completeDiagnosis_quotes {input : GenerateBudgetInput}
    (hsound : before.billing.RoundsSound rules)
    (h : Runs (WorkOrder.completeDiagnosis input) before done after) :
    ∀ budget ∈ after.budgets, QuotedFrom before.budgets budget := by
  simp [WorkOrder.completeDiagnosis, WorkOrder.recordMove, WorkOrder.recordFact,
    WorkOrder.recordStatusChange] at h
  obtain ⟨hstatus, -, total, middle, hround, _, last, hwrite, rfl⟩ := h
  obtain ⟨rfl, -⟩ := WorkOrder.generateRound_eq hround
  obtain ⟨quoted, budgets, rfl, -, hpending, -, hbudgets⟩ :=
    WorkOrder.writeRoundOne_eq hwrite
  have hnew : QuotedFrom before.budgets quoted :=
    quotedFrom_pending hsound (by rw [hstatus]; decide)
      (by rw [hstatus]; decide) hpending
  intro budget hbudget
  change budget ∈ budgets at hbudget
  rcases hbudgets with ⟨-, rfl⟩ | ⟨index, old, -, -, -, rfl⟩
  · rcases List.mem_append.mp hbudget with hold | hbudget
    · exact quotedFrom_self hold
    · obtain rfl := List.mem_singleton.mp hbudget
      exact hnew
  · rcases List.mem_or_eq_of_mem_set hbudget with hold | rfl
    · exact quotedFrom_self hold
    · exact hnew

theorem submitSupplementaryBudget_quotes {input : GenerateBudgetInput}
    (hsound : before.billing.RoundsSound rules)
    (h : Runs (WorkOrder.submitSupplementaryBudget input) before done after) :
    ∀ budget ∈ after.budgets, QuotedFrom before.budgets budget := by
  simp [WorkOrder.submitSupplementaryBudget, WorkOrder.recordFact,
    WorkOrder.recordStatusChange] at h
  obtain ⟨hstatus, -, total, middle, hround, rfl⟩ := h
  obtain ⟨rfl, -⟩ := WorkOrder.generateRound_eq hround
  intro budget hbudget
  rcases List.mem_append.mp hbudget with hold | hbudget
  · exact quotedFrom_self hold
  · obtain rfl := List.mem_singleton.mp hbudget
    exact quotedFrom_pending hsound (by rw [hstatus]; decide)
      (by rw [hstatus]; decide) rfl

/-- The methods that quote a round or decide one. -/
def WorkOrderOperation.changesRounds : WorkOrderOperation → Bool
  | .completeDiagnosis _ | .submitSupplementaryBudget _ => true
  | .approveBudget _ | .rejectBudget _ => true
  | _ => false

/-- The methods that neither quote nor decide leave the rounds alone. -/
theorem WorkOrderOperation.budgets_kept (operation : WorkOrderOperation)
    (h : Runs operation.run before () after)
    (hrounds : operation.changesRounds = false) : after.budgets = before.budgets := by
  cases operation with
  | completeDiagnosis input => cases hrounds
  | submitSupplementaryBudget input => cases hrounds
  | approveBudget input => cases hrounds
  | rejectBudget input => cases hrounds
  | addService input =>
      simp [WorkOrderOperation.run, WorkOrder.addService, WorkOrder.recordFact] at h
      exact h.2 ▸ rfl
  | planPart input =>
      simp [WorkOrderOperation.run, WorkOrder.planPart, WorkOrder.recordFact] at h
      exact h.2 ▸ rfl
  | removeItem input =>
      simp [WorkOrderOperation.run, WorkOrder.removeItem, WorkOrder.recordFact] at h
      obtain ⟨-, _, middle, herase, rfl⟩ := h
      exact (WorkOrder.eraseItem_keeps herase).2.2
  | startDiagnosis input =>
      simp [WorkOrderOperation.run, WorkOrder.startDiagnosis, WorkOrder.recordMove,
        WorkOrder.recordStatusChange] at h
      exact h.2 ▸ rfl
  | withdrawParts input =>
      obtain ⟨lines, hruns, -⟩ := runs_map.mp h
      simp [WorkOrder.withdrawParts, WorkOrder.recordFact] at hruns
      obtain ⟨-, -, resolved, -, _, middle, hchange, rfl, -⟩ := hruns
      exact (WorkOrder.changeParts_keeps hchange).2.2
  | returnParts input =>
      obtain ⟨lines, hruns, -⟩ := runs_map.mp h
      simp [WorkOrder.returnParts, WorkOrder.recordFact] at hruns
      obtain ⟨-, -, resolved, -, _, middle, hchange, rfl, -⟩ := hruns
      exact (WorkOrder.changeParts_keeps hchange).2.2
  | assignMechanic input =>
      simp [WorkOrderOperation.run, WorkOrder.assignMechanic, WorkOrder.recordFact] at h
      exact h.2 ▸ rfl
  | applyDiscount input =>
      simp [WorkOrderOperation.run, WorkOrder.applyDiscount, WorkOrder.recordFact] at h
      obtain ⟨-, _, -, -, _, middle, hrefresh, rfl⟩ := h
      obtain ⟨chargedTotal, rfl⟩ := WorkOrder.refreshChargedTotal_row hrefresh
      rfl
  | complete input =>
      simp [WorkOrderOperation.run, WorkOrder.complete, WorkOrder.recordMove,
        WorkOrder.recordStatusChange] at h
      obtain ⟨-, _, -, -, chargedTotal, -, rfl⟩ := h
      rfl
  | deliver input =>
      simp [WorkOrderOperation.run, WorkOrder.deliver, WorkOrder.recordMove,
        WorkOrder.recordStatusChange] at h
      exact h.2 ▸ rfl
  | cancel input =>
      simp [WorkOrderOperation.run, WorkOrder.cancel, WorkOrder.recordMove,
        WorkOrder.recordStatusChange] at h
      exact h.2 ▸ rfl

theorem WorkOrderOperation.quotedFrom (operation : WorkOrderOperation)
    (hsound : before.billing.RoundsSound rules) (h : Runs operation.run before () after) :
    ∀ budget ∈ after.budgets, QuotedFrom before.budgets budget := by
  cases operation with
  | completeDiagnosis input => exact completeDiagnosis_quotes hsound h
  | submitSupplementaryBudget input => exact submitSupplementaryBudget_quotes hsound h
  | approveBudget input =>
      have hdecided : Runs (BudgetDecision.approve.method input) before () after := h
      obtain ⟨index, found, decided, hdecides⟩ := decision_runs hdecided
      exact hdecides.quotedFrom
  | rejectBudget input =>
      have hdecided : Runs (BudgetDecision.reject.method input) before () after := h
      obtain ⟨index, found, decided, hdecides⟩ := decision_runs hdecided
      exact hdecides.quotedFrom
  | _ =>
      intro budget hbudget
      rw [WorkOrderOperation.budgets_kept _ h rfl] at hbudget
      exact quotedFrom_self hbudget

end Methods

namespace SagaEffect

/-- A save that quoted the budget: it is pending, and no budget of the work order
was before. -/
def Quotes (budget : Budget) (effect : SagaEffect) : Prop :=
  ∃ edit, effect = .saved edit ∧ budget ∈ edit.changed.budgets ∧
    budget.status = .pending ∧ ∀ old ∈ edit.loaded.budgets, old.status ≠ .pending

/-- A save that left the budget. -/
def Keeps (budget : Budget) (effect : SagaEffect) : Prop :=
  ∃ workOrder, effect.saves = some workOrder ∧ budget ∈ workOrder.budgets

end SagaEffect

/-- Two saves that quoted one budget did so at different times. -/
def QuotedApart (earlier later : SagaEffect) : Prop :=
  ∀ budget other, earlier.Quotes budget → later.Quotes other →
    budget.id = other.id → budget.generatedAt ≠ other.generatedAt

/-- No two generations of a budget share their time. -/
def DistinctTimes (log : List SagaEffect) : Prop :=
  log.Pairwise QuotedApart

/-- The hash tells the quotes of a log apart. -/
def CollisionFree (links : BudgetDecisionLinks) (log : List SagaEffect) : Prop :=
  ∀ left ∈ log, ∀ right ∈ log, ∀ budget other,
    left.Keeps budget → right.Keeps other →
    links.hashOf budget.id budget.generatedAt = links.hashOf other.id other.generatedAt →
      BudgetDecisionLinks.generationText budget.id budget.generatedAt =
        BudgetDecisionLinks.generationText other.id other.generatedAt

section Quotes

variable {settings : OutboxSettings} {config : Config WorkshopDb SagaPlace}
variable {log : List SagaEffect}

theorem SameQuote.trans {first second third : Budget} (h : SameQuote first second)
    (hnext : SameQuote second third) : SameQuote first third :=
  ⟨h.id.trans hnext.id, h.generatedAt.trans hnext.generatedAt, h.total.trans hnext.total⟩

theorem SameQuote.symm {left right : Budget} (h : SameQuote left right) :
    SameQuote right left :=
  ⟨h.id.symm, h.generatedAt.symm, h.total.symm⟩

/-- A new work order has no budgets. -/
theorem Assembled.budgets {workOrder : WorkOrder} (h : workOrder.Assembled) :
    workOrder.budgets = [] := by
  obtain ⟨input, hadds⟩ := h
  induction hadds with
  | refl => rfl
  | tail _ hadd ih =>
      obtain ⟨operation, -, ⟨input, rfl⟩ | ⟨input, rfl⟩, hruns⟩ := hadd
      · simp [WorkOrderOperation.run, WorkOrder.addService, WorkOrder.recordFact]
          at hruns
        rw [hruns.2]
        exact ih
      · simp [WorkOrderOperation.run, WorkOrder.planPart, WorkOrder.recordFact] at hruns
        rw [hruns.2]
        exact ih

/-- Every budget that was ever saved carries the quote of a save that quoted
it. -/
theorem quoted_of_reaches (h : SagaReaches settings config log) :
    ∀ earlier effect later, log = earlier ++ effect :: later →
      ∀ budget, effect.Keeps budget →
        ∃ quoting ∈ earlier ++ [effect], ∃ quoted,
          quoting.Quotes quoted ∧ SameQuote quoted budget := by
  intro earlier
  induction hlength : earlier.length using Nat.strong_induction_on generalizing earlier with
  | _ n ih =>
      intro effect later hlog budget hkeeps
      have hmem : effect ∈ log := by
        rw [hlog]
        exact List.mem_append_right _ List.mem_cons_self
      have hperformed := (performed_of_reaches h).1 effect hmem
      obtain ⟨workOrder, hsaves, hbudget⟩ := hkeeps
      cases effect with
      | created opened =>
          cases hsaves
          rw [Assembled.budgets hperformed] at hbudget
          cases hbudget
      | saved edit =>
          cases hsaves
          obtain ⟨-, operation, hby⟩ := hperformed
          obtain ⟨source, hsource, saved, hsaved, -, hload⟩ := loaded_of_reaches h hlog
          have hsound := ((reachable_of_reaches h source (by
            rw [hlog]
            exact List.mem_append_left _ hsource) saved hsaved).loaded hload).roundsSound
          rcases operation.quotedFrom hsound hby.runs budget hbudget with
            ⟨old, hold, hsame⟩ | ⟨hpending, hnone⟩
          · -- The quote was there when the work order was saved before.
            obtain ⟨before, between, hsplit⟩ := List.append_of_mem hsource
            have hshorter : before.length < n := by
              rw [← hlength, hsplit, List.length_append, List.length_cons]
              omega
            obtain ⟨quoting, hquoting, quoted, hquotes, hquote⟩ :=
              ih before.length hshorter before rfl source
                (between ++ .saved edit :: later)
                (by rw [hlog, hsplit, List.append_assoc, List.cons_append]) old
                ⟨saved, hsaved, (hload.state.budgets.mem_iff).mp hold⟩
            refine ⟨quoting, ?_, quoted, hquotes, hquote.trans hsame⟩
            rw [hsplit]
            simp only [List.mem_append, List.mem_cons] at hquoting ⊢
            tauto
          · exact ⟨_, List.mem_append_right _ (List.mem_singleton_self _), budget,
              ⟨edit, rfl, hbudget, hpending, hnone⟩, rfl, rfl, rfl⟩
      | _ => cases hsaves

instance : Std.Symm QuotedApart where
  symm _ _ h budget other hbudget hother hid hat :=
    h other budget hother hbudget hid.symm hat.symm

/-- One quote of a budget has one total. -/
theorem sameQuote_of_reaches (h : SagaReaches settings config log)
    (hdistinct : DistinctTimes log) {left right : SagaEffect} (hleft : left ∈ log)
    (hright : right ∈ log) {budget other : Budget} (hbudget : left.Keeps budget)
    (hother : right.Keeps other) (hid : budget.id = other.id)
    (hat : budget.generatedAt = other.generatedAt) : SameQuote budget other := by
  have hquoted : ∀ effect ∈ log, ∀ budget, effect.Keeps budget →
      ∃ quoting ∈ log, ∃ quoted, quoting.Quotes quoted ∧ SameQuote quoted budget := by
    intro effect heffect budget hkeeps
    obtain ⟨earlier, later, hlog⟩ := List.append_of_mem heffect
    obtain ⟨quoting, hquoting, hquotes⟩ :=
      quoted_of_reaches h earlier effect later hlog budget hkeeps
    refine ⟨quoting, ?_, hquotes⟩
    rw [hlog]
    simp only [List.mem_append, List.mem_cons] at hquoting ⊢
    tauto
  obtain ⟨first, hfirst, one, hone, hsame⟩ := hquoted left hleft budget hbudget
  obtain ⟨second, hsecond, two, htwo, hsame'⟩ := hquoted right hright other hother
  have hids : one.id = two.id := hsame.id.trans (hid.trans hsame'.id.symm)
  have hats : one.generatedAt = two.generatedAt :=
    hsame.generatedAt.trans (hat.trans hsame'.generatedAt.symm)
  have heffects : first = second := by
    by_contra hne
    exact hdistinct.forall hfirst hsecond hne one two hone htwo hids hats
  have honly : one = two := by
    obtain ⟨edit, rfl, hmem, hpending, -⟩ := hone
    obtain ⟨edit', hedit, hmem', hpending', -⟩ := htwo
    rw [← heffects, SagaEffect.saved.injEq] at hedit
    subst hedit
    have hstaged := (reachable_of_reaches h _ hfirst _ rfl).roundsSound.staged
    exact List.inj_on_of_nodup_map hstaged.rounds_nodup hmem hmem'
      ((hstaged.pendingLast one hmem hpending).trans
        (hstaged.pendingLast two hmem' hpending').symm)
  exact hsame.symm.trans (honly ▸ hsame')

end Quotes

section Links

variable {settings : OutboxSettings} {config : Config WorkshopDb SagaPlace}
variable {log : List SagaEffect} {links : BudgetDecisionLinks} {workOrder : WorkOrder}

theorem callMethod_ok {α : Type} {method : WorkOrderM α} {answer : α × WorkOrder}
    (h : callMethod method workOrder = .ok answer) :
    Runs method workOrder answer.1 answer.2 := by
  unfold callMethod at h
  split at h
  · rename_i hruns
    cases h
    exact hruns
  · cases h

/-- A link that is current is the one of the budget that is stored. -/
theorem assertLinkIsCurrent_ok {budgetId : BudgetId} {link : Option String}
    (h : assertLinkIsCurrent links workOrder budgetId link = .ok ()) :
    ∃ found : Nat × Budget, ∃ last,
      Runs (WorkOrder.budgetById budgetId) workOrder found last ∧
      link.getD "" = links.hashOf found.2.id found.2.generatedAt := by
  obtain ⟨found, hfound, h⟩ := bind_eq_ok_iff.mp h
  refine ⟨found.1, found.2, callMethod_ok hfound, ?_⟩
  dsimp only at h
  split at h
  · rename_i hcurrent
    exact of_decide_eq_true hcurrent
  · cases h

theorem execute_ok {decision : BudgetDecision} {command : DecideBudgetCommand}
    {actor : DecisionActor} {now : Timestamp} {changed : WorkOrder}
    (h : decision.execute links command actor now workOrder = .ok changed) :
    (∀ budgetId, command.budgetId = some budgetId →
      assertLinkIsCurrent links workOrder budgetId command.link = .ok ()) ∧
      Runs (decision.method
        { actorUserId := command.actorUserId, now, budgetId := command.budgetId })
        workOrder () changed := by
  obtain ⟨_, -, h⟩ := bind_eq_ok_iff.mp h
  have hruns : ∀ {done : Unit × WorkOrder}, callMethod (decision.method
      { actorUserId := command.actorUserId, now, budgetId := command.budgetId })
        workOrder = .ok done → done.2 = changed →
      Runs (decision.method
        { actorUserId := command.actorUserId, now, budgetId := command.budgetId })
        workOrder () changed := by
    intro done hdone hchanged
    rw [← hchanged]
    exact callMethod_ok hdone
  split at h
  · rename_i hnone
    obtain ⟨done, hdone, h⟩ := bind_eq_ok_iff.mp h
    refine ⟨fun budgetId hid => ?_, hruns hdone (pure_eq_ok_iff.mp h)⟩
    rw [hnone] at hid
    cases hid
  · rename_i budgetId hsome
    obtain ⟨_, hcurrent, h⟩ := bind_eq_ok_iff.mp h
    obtain ⟨done, hdone, h⟩ := bind_eq_ok_iff.mp h
    refine ⟨fun other hid => ?_, hruns hdone (pure_eq_ok_iff.mp h)⟩
    rw [hsome, Option.some.injEq] at hid
    exact hid ▸ hcurrent

/-- In every run, whatever requests interleave: a decision that carries the id and
the link of a quote and commits decides that quote, as it was stored when the
decision was saved. -/
theorem link_decides_what_it_showed (h : SagaReaches settings config log)
    (hdistinct : DistinctTimes log) (hfree : CollisionFree links log) :
    ∀ effect ∈ log, ∀ shown, effect.Keeps shown →
      ∀ earlier edit later, log = earlier ++ .saved edit :: later →
        ∀ decision command actor now,
          command.budgetId = some shown.id →
          command.link = some (links.hashOf shown.id shown.generatedAt) →
          BudgetDecision.execute decision links command actor now edit.loaded =
            .ok edit.changed →
          ∃ stored index found decided,
            lastSaved edit.changed.id earlier = some stored ∧
            found ∈ stored.budgets ∧ SameQuote shown found ∧
            Decides decision command.budgetId edit.loaded edit.changed index found
              decided := by
  intro effect heffect shown hshown earlier edit later hlog decision command actor now
    hid hlink hexec
  obtain ⟨hcurrent, hruns⟩ := execute_ok hexec
  obtain ⟨index, found, decided, hdecides⟩ := decision_runs hruns
  obtain ⟨named, last, hnamed, hhash⟩ :=
    assertLinkIsCurrent_ok (hcurrent shown.id hid)
  have hsame := hdecides.named shown.id hid
  have hfound : named = (index, found) := by
    rw [Runs, hsame, EStateM.Result.ok.injEq] at hnamed
    exact hnamed.1.symm
  subst hfound
  rw [hlink, Option.getD_some] at hhash
  have hstood := List.mem_of_getElem? (budgetById_runs hsame).1
  obtain ⟨stored, hlast, hload⟩ := (serial_of_reaches h).1.follow earlier edit later hlog
  obtain ⟨source, hsource, saved, hsaves, -, hstate⟩ := lastSaved_mem hlast
  have hmem : source ∈ log := by
    rw [hlog]
    exact List.mem_append_left _ hsource
  have hkept : found ∈ stored.budgets := hload.budgets.mem_iff.mp hstood
  have hkeeps : source.Keeps found := by
    refine ⟨saved, hsaves, ?_⟩
    rw [hstate] at hkept
    exact hkept
  obtain ⟨hsameId, hsameAt⟩ := generationText_inj
    (hfree effect heffect source hmem shown found hshown hkeeps hhash)
  exact ⟨stored, index, found, decided, hlast, hkept,
    sameQuote_of_reaches h hdistinct heffect hmem hshown hkeeps hsameId hsameAt,
    hdecides⟩

end Links

namespace LinkWitness

open SagaWitness (opened part plainRequest settings stocked)

/-- Round one is quoted, rejected and quoted again, and then approved. -/
def requests : List (Nat × SagaInput) :=
  stocked ++ opened [part] ++ plainRequest 1 10 (.startDiagnosis 7) ++
    plainRequest 2 11 (.completeDiagnosis 7) ++
    plainRequest 1 12 (.rejectBudget 7 none) ++
    plainRequest 2 13 (.completeDiagnosis 7) ++
    plainRequest 1 14 (.approveBudget 7 (some 6))

def decided : Config WorkshopDb SagaPlace × List SagaEffect :=
  endOfRun (sagaExec settings) emptyWorkshop requests (by decide +kernel)

/-- The edit that was saved at a place of the log. -/
def editAt (index : Nat) : Option Edit :=
  match decided.2[index]? with
  | some (.saved edit) => some edit
  | _ => none

/-- The second quote of round one, and the decision on it. -/
def quote : Edit := (editAt 4).get (by decide +kernel)

def approval : Edit := (editAt 5).get (by decide +kernel)

theorem log_decided :
    decided.2 = decided.2.take 5 ++ .saved approval :: [] := by
  decide +kernel

/-- The rounds an effect quotes. -/
def quotes : SagaEffect → List Budget
  | .saved edit =>
      if ∀ old ∈ edit.loaded.budgets, old.status ≠ .pending then
        edit.changed.budgets.filter fun budget => budget.status = .pending
      else []
  | _ => []

theorem mem_quotes {budget : Budget} {effect : SagaEffect}
    (h : effect.Quotes budget) : budget ∈ quotes effect := by
  obtain ⟨edit, rfl, hmem, hpending, hnone⟩ := h
  rw [quotes, if_pos hnone]
  exact List.mem_filter.mpr ⟨hmem, decide_eq_true hpending⟩

theorem distinctTimes_decided : DistinctTimes decided.2 := by
  have hcheck : decided.2.Pairwise fun earlier later =>
      ∀ budget ∈ quotes earlier, ∀ other ∈ quotes later,
        budget.id = other.id → budget.generatedAt ≠ other.generatedAt := by
    decide +kernel
  exact hcheck.imp fun hapart budget other hbudget hother =>
    hapart budget (mem_quotes hbudget) other (mem_quotes hother)

/-- A digest without collisions. -/
def links : BudgetDecisionLinks := ⟨id⟩

theorem collisionFree_decided : CollisionFree links decided.2 :=
  fun _ _ _ _ _ _ _ _ hsame => hsame

def customer : DecisionActor := ⟨false, some 90⟩

/-- The command that follows a link to round one as it was quoted then. -/
def follow (generatedAt : Timestamp) : DecideBudgetCommand :=
  ⟨7, some 6, some (links.hashOf 6 generatedAt)⟩

theorem link_decides_what_it_showed_approved :
    BudgetDecision.approve.execute links (follow 11) customer 14 approval.loaded =
        .error .budgetLinkOutdated ∧
      ∃ shown ∈ quote.changed.budgets, shown.id = 6 ∧ shown.generatedAt = 13 ∧
        ∃ stored index found decided,
          lastSaved approval.changed.id (LinkWitness.decided.2.take 5) = some stored ∧
            found ∈ stored.budgets ∧ SameQuote shown found ∧
            Decides .approve (some 6) approval.loaded approval.changed index found
              decided := by
  have hshown : ∃ shown ∈ quote.changed.budgets,
      shown.id = 6 ∧ shown.generatedAt = 13 := by
    decide +kernel
  obtain ⟨shown, hmem, hid, hat⟩ := hshown
  refine ⟨by decide +kernel, shown, hmem, hid, hat, ?_⟩
  have hquote : SagaEffect.saved quote ∈ decided.2 := by decide +kernel
  exact link_decides_what_it_showed (reaches_endOfRun _) distinctTimes_decided
    collisionFree_decided _ hquote shown ⟨_, rfl, hmem⟩ _ approval _ log_decided
    .approve (follow 13) customer 14 (by rw [hid]; rfl) (by rw [hid, hat]; rfl)
    (by decide +kernel)

end LinkWitness

end WorkOrders

end Workshop
