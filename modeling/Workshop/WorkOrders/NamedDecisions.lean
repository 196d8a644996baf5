/-
Two ways of naming the budget to decide: by its id, or as the one that is
pending.  They search in different ways and check the status in a different
order, and a canceled work order can keep a pending budget, yet they decide alike.
-/
import Workshop.WorkOrders.BudgetLinks
import Workshop.WorkOrders.Refusals

namespace Workshop

namespace WorkOrders

/-- The ids an operation gives to the round it quotes. -/
def WorkOrderOperation.mints : WorkOrderOperation → List BudgetId
  | .completeDiagnosis input | .submitSupplementaryBudget input => [input.budgetId]
  | _ => []

/-- The work orders that can be held when `IdGenerator` gives every round an id
that no earlier round has. -/
inductive WorkOrder.Minted : WorkOrder → Prop
  | opened (input : OpenWorkOrderInput) : WorkOrder.Minted (WorkOrder.openWorkOrder input)
  | performed {workOrder : WorkOrder} (operation : WorkOrderOperation)
      (before : WorkOrder.Minted workOrder)
      (hnew : ∀ id ∈ operation.mints, id ∉ workOrder.budgets.map Budget.id) :
      WorkOrder.Minted (operation.perform workOrder)
  | loaded {saved loaded : WorkOrder} (before : WorkOrder.Minted saved)
      (hload : LoadedFrom saved loaded) : WorkOrder.Minted loaded

section Ids

variable {before after workOrder : WorkOrder}

theorem WorkOrder.Minted.reachable (h : workOrder.Minted) : workOrder.Reachable := by
  induction h with
  | opened input => exact .opened input
  | performed operation _ _ ih => exact .performed operation ih
  | loaded _ hload ih => exact .loaded ih hload

/-- The ids of the rounds grow by the one that is handed out, if any. -/
theorem WorkOrderOperation.budgetIds_sublist (operation : WorkOrderOperation)
    (h : Runs operation.run before () after) :
    (after.budgets.map Budget.id).Sublist
      (before.budgets.map Budget.id ++ operation.mints) := by
  cases operation with
  | completeDiagnosis input => exact (WorkOrder.completeDiagnosis_plain h).evolves.rounds
  | submitSupplementaryBudget input =>
      exact (WorkOrder.submitSupplementaryBudget_plain h).evolves.rounds
  | approveBudget input =>
      have hdecided : Runs (BudgetDecision.approve.method input) before () after := h
      obtain ⟨index, found, decided, hdecides⟩ := decision_runs hdecided
      rw [hdecides.budgets, map_set_of_getElem? hdecides.stood hdecides.quote.id.symm]
      exact List.sublist_append_left _ _
  | rejectBudget input =>
      have hdecided : Runs (BudgetDecision.reject.method input) before () after := h
      obtain ⟨index, found, decided, hdecides⟩ := decision_runs hdecided
      rw [hdecides.budgets, map_set_of_getElem? hdecides.stood hdecides.quote.id.symm]
      exact List.sublist_append_left _ _
  | _ =>
      rw [WorkOrderOperation.budgets_kept _ h rfl]
      exact List.sublist_append_left _ _

theorem WorkOrderOperation.mints_nodup (operation : WorkOrderOperation) :
    operation.mints.Nodup := by
  cases operation <;> first | exact List.nodup_singleton _ | exact List.nodup_nil

/-- A call that ends well or throws leaves ids that were there or were handed
out. -/
theorem WorkOrder.Minted.budgetIds_perform (h : workOrder.Minted)
    (operation : WorkOrderOperation) :
    ((operation.perform workOrder).budgets.map Budget.id).Sublist
      (workOrder.budgets.map Budget.id ++ operation.mints) := by
  rcases leftBy_cases operation.run workOrder with ⟨done, hruns⟩ | ⟨error, hthrows⟩
  · exact operation.budgetIds_sublist hruns
  · have hsame : operation.perform workOrder = workOrder :=
      operation.unchanged_of_throws h.reachable.roundsSound hthrows
    rw [hsame]
    exact List.sublist_append_left _ _

/-- No two rounds share their id. -/
theorem WorkOrder.Minted.budgetIds_nodup (h : workOrder.Minted) :
    (workOrder.budgets.map Budget.id).Nodup := by
  induction h with
  | opened input => exact List.nodup_nil
  | performed operation before hnew ih =>
      refine (before.budgetIds_perform operation).nodup ?_
      refine List.nodup_append'.mpr ⟨ih, operation.mints_nodup, ?_⟩
      intro id hold hminted
      exact hnew id hminted hold
  | loaded _ hload ih =>
      have hperm : (_ : WorkOrder).budgets.Perm _ := hload.state.budgets
      exact (hperm.map Budget.id).nodup_iff.mpr ih

end Ids

section Search

variable {workOrder after : WorkOrder} {found : Nat × Budget} {budgetId : BudgetId}

/-- What a search answers when one entry alone passes the test. -/
theorem findAt_of_unique {α : Type} {p : α → Bool} {l : List α} {index : Nat} {a : α}
    (hindex : l[index]? = some a) (hpass : p a = true)
    (hunique : ∀ other b, l[other]? = some b → p b = true → other = index) :
    findAt p l = some (index, a) := by
  cases hfound : findAt p l with
  | none =>
      have hfails := WorkOrder.findAt_eq_none hfound a (List.mem_of_getElem? hindex)
      rw [hpass] at hfails
      cases hfails
  | some first =>
      obtain ⟨hstood, hfirst⟩ := getElem?_of_findAt hfound
      have hsame := hunique first.1 first.2 hstood hfirst
      rw [hsame, hindex, Option.some.injEq] at hstood
      rw [hstood, ← hsame]

theorem budgetToDecide_none_runs :
    Runs (WorkOrder.budgetToDecide none) workOrder found after ↔
      workOrder.status = .awaitingApproval ∧
        findAt (fun budget => budget.status = .pending) workOrder.budgets = some found ∧
          after = workOrder := by
  simp [WorkOrder.budgetToDecide, WorkOrder.pendingBudget]
  intro _
  split
  · rename_i first hfirst
    rw [hfirst, runs_pure, Option.some.injEq]
    exact and_congr_left' eq_comm
  · rename_i hnone
    simp [hnone]

theorem budgetById_runs_iff :
    Runs (WorkOrder.budgetById budgetId) workOrder found after ↔
      findAt (fun budget => budget.id = budgetId) workOrder.budgets = some found ∧
        after = workOrder := by
  simp [WorkOrder.budgetById]
  split
  · rename_i first hfirst
    rw [hfirst, runs_pure, Option.some.injEq]
    exact and_congr_left' eq_comm
  · rename_i hnone
    simp [hnone]

theorem budgetToDecide_some_runs :
    Runs (WorkOrder.budgetToDecide (some budgetId)) workOrder found after ↔
      workOrder.status = .awaitingApproval ∧
        findAt (fun budget => budget.id = budgetId) workOrder.budgets = some found ∧
          found.2.status = .pending ∧ after = workOrder := by
  simp only [WorkOrder.budgetToDecide, runs_bind, budgetById_runs_iff, runs_refuseIf,
    runs_assertStateAllows, runs_pure]
  constructor
  · rintro ⟨_, _, ⟨hfound, rfl⟩, _, _, ⟨hpending, rfl⟩, _, _, ⟨hstatus, rfl⟩, rfl, rfl⟩
    exact ⟨List.mem_singleton.mp hstatus, hfound, by simpa using hpending, rfl⟩
  · rintro ⟨hstatus, hfound, hpending, rfl⟩
    exact ⟨found, after, ⟨hfound, rfl⟩, (), after, ⟨by simp [hpending], rfl⟩, (), after,
      ⟨List.mem_singleton.mpr hstatus, rfl⟩, rfl, rfl⟩

variable {index other : Nat} {left right : Budget}

/-- Only the last round can be pending. -/
theorem WorkOrder.Minted.pending_unique (h : workOrder.Minted)
    (hleft : workOrder.budgets[index]? = some left) (hpending : left.status = .pending)
    (hright : workOrder.budgets[other]? = some right)
    (hpending' : right.status = .pending) : other = index := by
  have hstaged : Staged workOrder.status workOrder.budgets :=
    h.reachable.roundsSound.staged
  have hlast := hstaged.pendingLast left (List.mem_of_getElem? hleft) hpending
  have hlast' := hstaged.pendingLast right (List.mem_of_getElem? hright) hpending'
  rw [hstaged.round_eq hleft] at hlast
  rw [hstaged.round_eq hright] at hlast'
  omega

theorem WorkOrder.Minted.id_unique (h : workOrder.Minted)
    (hleft : workOrder.budgets[index]? = some left)
    (hright : workOrder.budgets[other]? = some right) (hid : right.id = left.id) :
    other = index := by
  have hmap : (workOrder.budgets.map Budget.id)[other]? =
      (workOrder.budgets.map Budget.id)[index]? := by
    rw [List.getElem?_map, List.getElem?_map, hleft, hright, Option.map_some,
      Option.map_some, hid]
  have hlength : other < (workOrder.budgets.map Budget.id).length := by
    rw [List.length_map]
    exact (List.getElem?_eq_some_iff.mp hright).1
  exact (List.getElem?_inj hlength h.budgetIds_nodup).mp hmap

/-- An id leads to the budget that is pending, if it is its id. -/
theorem WorkOrder.Minted.budgetToDecide_agrees (h : workOrder.Minted) :
    Runs (WorkOrder.budgetToDecide (some budgetId)) workOrder found after ↔
      Runs (WorkOrder.budgetToDecide none) workOrder found after ∧
        found.2.id = budgetId := by
  rw [budgetToDecide_some_runs, budgetToDecide_none_runs]
  constructor
  · rintro ⟨hstatus, hfound, hpending, hafter⟩
    obtain ⟨hstood, hid⟩ := getElem?_of_findAt hfound
    refine ⟨⟨hstatus, ?_, hafter⟩, of_decide_eq_true hid⟩
    refine findAt_of_unique hstood (decide_eq_true hpending) ?_
    intro other right hright hpending'
    exact h.pending_unique hstood hpending hright (of_decide_eq_true hpending')
  · rintro ⟨⟨hstatus, hfound, hafter⟩, hid⟩
    obtain ⟨hstood, hpending⟩ :=
      getElem?_of_findAt hfound
    refine ⟨hstatus, ?_, of_decide_eq_true hpending, hafter⟩
    refine findAt_of_unique hstood (decide_eq_true hid) ?_
    intro other right hright hid'
    exact h.id_unique hstood hright ((of_decide_eq_true hid').trans hid.symm)

end Search

section Decisions

variable {workOrder after : WorkOrder} {budgetId : BudgetId}

/-- Once the budget was found, a decision does not look at the id again. -/
theorem BudgetDecision.method_eq (decision : BudgetDecision) (actorUserId : UserId)
    (now : Timestamp) : ∃ decide : Nat × Budget → WorkOrderM Unit, ∀ budgetId,
      decision.method ⟨actorUserId, now, budgetId⟩ =
        WorkOrder.budgetToDecide budgetId >>= decide := by
  cases decision with
  | approve =>
      refine ⟨?approval, fun named => ?same⟩
      case same =>
        simp only [BudgetDecision.method, WorkOrder.approveBudget]
        exact rfl
  | reject =>
      refine ⟨?rejection, fun named => ?same⟩
      case same =>
        simp only [BudgetDecision.method, WorkOrder.rejectBudget]
        exact rfl

/-- A decision by id is the decision of the pending budget that has the id. -/
theorem WorkOrder.Minted.decision_runs_iff (h : workOrder.Minted)
    (decision : BudgetDecision) (actorUserId : UserId) (now : Timestamp) :
    Runs (decision.method ⟨actorUserId, now, some budgetId⟩) workOrder () after ↔
      Runs (decision.method ⟨actorUserId, now, none⟩) workOrder () after ∧
        ∃ index found decided,
          Decides decision none workOrder after index found decided ∧
            found.id = budgetId := by
  obtain ⟨decide, hmethod⟩ := decision.method_eq actorUserId now
  constructor
  · intro hruns
    obtain ⟨index, found, decided, hdecides⟩ := decision_runs hruns
    have hid := (budgetById_runs (hdecides.named budgetId rfl)).2
    refine ⟨?_, index, found, decided, { hdecides with named := nofun }, hid⟩
    rw [hmethod, runs_bind] at hruns ⊢
    obtain ⟨first, middle, hfirst, hrest⟩ := hruns
    exact ⟨first, middle, (h.budgetToDecide_agrees.mp hfirst).1, hrest⟩
  · rintro ⟨hruns, index, found, decided, hdecides, hid⟩
    rw [hmethod, runs_bind] at hruns ⊢
    obtain ⟨first, middle, hfirst, hrest⟩ := hruns
    refine ⟨first, middle, h.budgetToDecide_agrees.mpr ⟨hfirst, ?_⟩, hrest⟩
    obtain ⟨-, hsearch, -⟩ := budgetToDecide_none_runs.mp hfirst
    obtain ⟨hstood, hpending⟩ :=
      getElem?_of_findAt hsearch
    have hsame := h.pending_unique hdecides.stood hdecides.pending hstood
      (of_decide_eq_true hpending)
    rw [hsame, hdecides.stood, Option.some.injEq] at hstood
    rw [← hstood, hid]

theorem decision_throws {decision : BudgetDecision} {actorUserId : UserId}
    {now : Timestamp} {named : Option BudgetId} {error : WorkOrderError}
    (h : Throws (WorkOrder.budgetToDecide named) workOrder error after) :
    Throws (decision.method ⟨actorUserId, now, named⟩) workOrder error after := by
  obtain ⟨decide, hmethod⟩ := decision.method_eq actorUserId now
  rw [hmethod, throws_bind]
  exact Or.inl h

theorem budgetToDecide_unknown
    (hunknown : ∀ budget ∈ workOrder.budgets, budget.id ≠ budgetId) :
    Throws (WorkOrder.budgetToDecide (some budgetId)) workOrder .budgetNotFound
      workOrder := by
  have hnone : findAt (fun budget => budget.id = budgetId) workOrder.budgets = none := by
    refine Option.eq_none_iff_forall_ne_some.mpr fun found hfound => ?_
    obtain ⟨hstood, hid⟩ := getElem?_of_findAt hfound
    exact hunknown found.2 (List.mem_of_getElem? hstood) (of_decide_eq_true hid)
  rw [WorkOrder.budgetToDecide, throws_bind]
  refine Or.inl ?_
  simp [WorkOrder.budgetById, hnone]

/-- A budget that was decided answers its own status, whatever the work order's. -/
theorem WorkOrder.Minted.budgetToDecide_decided (h : workOrder.Minted) {budget : Budget}
    (hbudget : budget ∈ workOrder.budgets) (hid : budget.id = budgetId)
    (hdecided : budget.status ≠ .pending) :
    Throws (WorkOrder.budgetToDecide (some budgetId)) workOrder
      (.budgetState budget.status) workOrder := by
  obtain ⟨index, hindex⟩ := List.mem_iff_getElem?.mp hbudget
  have hfound : findAt (fun budget => budget.id = budgetId) workOrder.budgets =
      some (index, budget) := by
    refine findAt_of_unique hindex (decide_eq_true hid) ?_
    intro other right hright hid'
    exact h.id_unique hindex hright ((of_decide_eq_true hid').trans hid.symm)
  rw [WorkOrder.budgetToDecide, throws_bind]
  refine Or.inr ⟨(index, budget), workOrder,
    budgetById_runs_iff.mpr ⟨hfound, rfl⟩, ?_⟩
  rw [throws_bind]
  refine Or.inl ?_
  simp [hdecided]

/-- A decision that is refused leaves the work order as it was. -/
theorem decision_refused
    {decision : BudgetDecision} {input : DecideBudgetActionInput}
    (hrefused : ∀ after, ¬ Runs (decision.method input) workOrder () after) :
    ∃ error, Throws (decision.method input) workOrder error workOrder := by
  rcases leftBy_cases (decision.method input) workOrder with
    ⟨done, hruns⟩ | ⟨error, hthrows⟩
  · exact absurd hruns (hrefused _)
  · refine ⟨error, ?_⟩
    have hsame : leftBy (decision.method input) workOrder = workOrder := by
      cases decision with
      | approve => exact WorkOrder.approveBudget_throws hthrows
      | reject => exact WorkOrder.rejectBudget_throws hthrows
    rwa [hsame] at hthrows

/-- To decide a budget by its id is to decide the pending one when that is its id,
down to the events recorded.  Every other id is refused and changes nothing: an id
that no budget has as not found, and a budget that was decided with its status. -/
theorem named_decision_agrees (h : workOrder.Minted) (decision : BudgetDecision)
    (actorUserId : UserId) (now : Timestamp) (budgetId : BudgetId) :
    (∀ after, Runs (decision.method ⟨actorUserId, now, some budgetId⟩) workOrder () after ↔
      Runs (decision.method ⟨actorUserId, now, none⟩) workOrder () after ∧
        ∃ index found decided,
          Decides decision none workOrder after index found decided ∧
            found.id = budgetId) ∧
    ((∀ after, ¬ Runs (decision.method ⟨actorUserId, now, some budgetId⟩)
        workOrder () after) →
      ∃ error, Throws (decision.method ⟨actorUserId, now, some budgetId⟩)
        workOrder error workOrder) ∧
    ((∀ budget ∈ workOrder.budgets, budget.id ≠ budgetId) →
      Throws (decision.method ⟨actorUserId, now, some budgetId⟩)
        workOrder .budgetNotFound workOrder) ∧
    ∀ budget ∈ workOrder.budgets, budget.id = budgetId → budget.status ≠ .pending →
      Throws (decision.method ⟨actorUserId, now, some budgetId⟩)
        workOrder (.budgetState budget.status) workOrder := by
  refine ⟨fun after => h.decision_runs_iff decision actorUserId now,
    decision_refused, ?_, ?_⟩
  · exact fun hunknown => decision_throws (budgetToDecide_unknown hunknown)
  · exact fun budget hbudget hid hdecided =>
      decision_throws (h.budgetToDecide_decided hbudget hid hdecided)

end Decisions

namespace DecisionWitness

open BillingWitness (opened underway)

theorem revisionPrice_nonneg : (0 : Int) ≤ 5000 := by decide

/-- A second round was quoted while the first is approved. -/
def requoted : List WorkOrderOperation :=
  underway ++ [.addService ⟨13, 20, "Revision", ⟨5000, revisionPrice_nonneg⟩, 4, 106⟩,
    .submitSupplementaryBudget ⟨31, 5, 107⟩]

theorem minted_performAll {workOrder : WorkOrder} (h : workOrder.Minted) :
    ∀ operations : List WorkOrderOperation,
      (operations.flatMap WorkOrderOperation.mints).Nodup →
      (∀ id ∈ operations.flatMap WorkOrderOperation.mints,
        id ∉ workOrder.budgets.map Budget.id) →
      (performAll operations workOrder).Minted := by
  intro operations
  induction operations generalizing workOrder with
  | nil => exact fun _ _ => h
  | cons operation operations ih =>
      intro hnodup hnew
      rw [List.flatMap_cons] at hnodup hnew
      obtain ⟨-, hrest, hdisjoint⟩ := List.nodup_append'.mp hnodup
      have hfirst : ∀ id ∈ operation.mints, id ∉ workOrder.budgets.map Budget.id :=
        fun id hid => hnew id (List.mem_append_left _ hid)
      refine ih (h.performed operation hfirst) hrest ?_
      intro id hid hmem
      rcases List.mem_append.mp ((h.budgetIds_perform operation).subset hmem) with hold | hminted
      · exact hnew id (List.mem_append_right _ hid) hold
      · exact hdisjoint hminted hid

def awaiting : WorkOrder := performAll requoted (.openWorkOrder opened)

theorem minted_awaiting : awaiting.Minted :=
  minted_performAll (.opened opened) requoted (by decide) (by decide)

/-- The pending round is approved by its id as it is without, and the id of the
approved one is refused with its status. -/
theorem named_decision_agrees_requoted :
    (∃ after, Runs (BudgetDecision.approve.method ⟨4, 108, some 31⟩) awaiting () after ∧
      Runs (BudgetDecision.approve.method ⟨4, 108, none⟩) awaiting () after) ∧
    Throws (BudgetDecision.approve.method ⟨4, 108, some 30⟩) awaiting
      (.budgetState .approved) awaiting ∧
    Throws (BudgetDecision.reject.method ⟨4, 108, some 32⟩) awaiting .budgetNotFound
      awaiting := by
  refine ⟨?_, ?_, ?_⟩
  · have hruns : Runs (BudgetDecision.approve.method ⟨4, 108, some 31⟩) awaiting ()
        (leftBy (BudgetDecision.approve.method ⟨4, 108, some 31⟩) awaiting) := rfl
    exact ⟨_, hruns, (((named_decision_agrees minted_awaiting .approve 4 108 31).1
      _).mp hruns).1⟩
  · have hdecided : ∃ budget ∈ awaiting.budgets,
        budget.id = 30 ∧ budget.status = .approved := by decide +kernel
    obtain ⟨budget, hmem, hid, hstatus⟩ := hdecided
    rw [← hstatus]
    exact (named_decision_agrees minted_awaiting .approve 4 108 30).2.2.2 budget hmem hid
      (by rw [hstatus]; exact nofun)
  · exact (named_decision_agrees minted_awaiting .reject 4 108 32).2.2.1
      (by decide +kernel)

end DecisionWitness

end WorkOrders

end Workshop
