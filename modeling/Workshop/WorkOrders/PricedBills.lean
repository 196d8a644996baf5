/-
The prices on a bill.  Every amount on it was given to a method or added up from the
prices of its items, so none exceeds a bound that what is given and what the items are
worth stay within.
-/
import Workshop.WorkOrders.BillWorth
import Workshop.WorkOrders.RecordedEvents

namespace Workshop

namespace WorkOrders

section Methods

namespace WorkOrder

variable {bound : Int} {before after : WorkOrder} {done : Unit}

/-- An item on a round, at the price it was given. -/
theorem priced_attached {round : Nat} {unitPrice : Money}
    (hprice : unitPrice.cents ≤ bound) :
    ItemPriced bound (some round) unitPrice (some unitPrice) where
  le := hprice
  kept := fun _ hkept => (Option.some.inj hkept).symm
  quoted := fun _ => rfl

/-- The eligible items join a round at the prices they were given. -/
theorem priced_joined (round : Nat) {billing : Billing}
    (hpriced : billing.Priced bound) : (billing.joined round).Priced bound := by
  refine ⟨fun item hitem => ?_, fun item hitem => ?_, hpriced.budgets,
    hpriced.chargedTotal, hpriced.discount⟩
  · obtain ⟨old, hold, rfl⟩ := List.mem_map.mp hitem
    have hitem := hpriced.services old hold
    rw [joinService_eq]
    split
    · exact priced_attached hitem.le
    · exact hitem
  · obtain ⟨old, hold, rfl⟩ := List.mem_map.mp hitem
    have hitem := hpriced.parts old hold
    rw [joinPart_eq]
    split
    · exact ⟨priced_attached hitem.price.le, hitem.withdrawn⟩
    · exact hitem

theorem addService_priced {input : AddServiceInput}
    (hpriced : before.billing.Priced bound) (hprice : input.unitPrice.cents ≤ bound)
    (h : Runs (addService input) before done after) : after.billing.Priced bound := by
  simp [addService, recordFact] at h
  obtain ⟨-, rfl⟩ := h
  refine ⟨List.forall_mem_append.mpr ⟨hpriced.services, ?_⟩, hpriced.parts,
    hpriced.budgets, hpriced.chargedTotal, hpriced.discount⟩
  exact List.forall_mem_singleton.mpr ⟨hprice, by simp, by simp⟩

theorem planPart_priced {input : PlanPartInput}
    (hpriced : before.billing.Priced bound) (hprice : input.unitPrice.cents ≤ bound)
    (h : Runs (planPart input) before done after) : after.billing.Priced bound := by
  simp [planPart, recordFact] at h
  obtain ⟨-, rfl⟩ := h
  refine ⟨hpriced.services, List.forall_mem_append.mpr ⟨hpriced.parts, ?_⟩,
    hpriced.budgets, hpriced.chargedTotal, hpriced.discount⟩
  exact List.forall_mem_singleton.mpr ⟨⟨hprice, by simp, by simp⟩, Int.le_refl 0⟩

theorem eraseItem_priced {itemId : WorkOrderItemId}
    (hpriced : before.billing.Priced bound)
    (h : Runs (eraseItem itemId) before done after) : after.billing.Priced bound := by
  simp only [eraseItem, runs_bind, runs_get] at h
  obtain ⟨workOrder, middle, ⟨rfl, rfl⟩, h⟩ := h
  split at h
  · simp at h
    obtain ⟨-, rfl⟩ := h
    exact ⟨fun item hitem => hpriced.services item (List.mem_of_mem_eraseIdx hitem),
      hpriced.parts, hpriced.budgets, hpriced.chargedTotal, hpriced.discount⟩
  · split at h
    · simp at h
    · simp at h
      obtain ⟨-, rfl⟩ := h
      exact ⟨hpriced.services,
        fun item hitem => hpriced.parts item (List.mem_of_mem_eraseIdx hitem),
        hpriced.budgets, hpriced.chargedTotal, hpriced.discount⟩

theorem removeItem_priced {input : RemoveItemInput}
    (hpriced : before.billing.Priced bound)
    (h : Runs (removeItem input) before done after) : after.billing.Priced bound := by
  simp [removeItem, recordFact] at h
  obtain ⟨-, _, middle, herase, rfl⟩ := h
  have hmiddle : middle.billing.Priced bound := eraseItem_priced hpriced herase
  exact hmiddle

/-- A bill whose status moved. -/
theorem priced_moved {billing : Billing} (status : WorkOrderStatus)
    (hpriced : billing.Priced bound) : { billing with status }.Priced bound :=
  ⟨hpriced.services, hpriced.parts, hpriced.budgets, hpriced.chargedTotal,
    hpriced.discount⟩

/-- A bill whose rounds were written anew. -/
theorem priced_budgets {billing : Billing} (status : WorkOrderStatus)
    {budgets : List Budget} (hpriced : billing.Priced bound)
    (hbudgets : ∀ budget ∈ budgets, budget.total.cents ≤ bound) :
    { billing with budgets, status }.Priced bound :=
  ⟨hpriced.services, hpriced.parts, hbudgets, hpriced.chargedTotal, hpriced.discount⟩

/-- A bill with one round more. -/
theorem budgets_append {budgets : List Budget} {budget : Budget}
    (hbudgets : ∀ old ∈ budgets, old.total.cents ≤ bound)
    (htotal : budget.total.cents ≤ bound) :
    ∀ other ∈ budgets ++ [budget], other.total.cents ≤ bound :=
  List.forall_mem_append.mpr ⟨hbudgets, List.forall_mem_singleton.mpr htotal⟩

/-- A bill with one round rewritten in place. -/
theorem budgets_set {budgets : List Budget} {budget : Budget} {index : Nat}
    (hbudgets : ∀ old ∈ budgets, old.total.cents ≤ bound)
    (htotal : budget.total.cents ≤ bound) :
    ∀ other ∈ budgets.set index budget, other.total.cents ≤ bound := by
  intro other hother
  rcases List.mem_or_eq_of_mem_set hother with hother | rfl
  · exact hbudgets other hother
  · exact htotal

theorem completeDiagnosis_priced {input : GenerateBudgetInput}
    (hpriced : before.billing.Priced bound)
    (hsafe : bound ≤ maxExactCents)
    (hworth : (WorkOrderOperation.completeDiagnosis input).worth before ≤ bound)
    (h : Runs (completeDiagnosis input) before done after) :
    after.billing.Priced bound := by
  simp [completeDiagnosis, recordMove, recordFact, recordStatusChange] at h
  obtain ⟨hstatus, -, total, middle, hround, _, last, hwrite, rfl⟩ := h
  obtain ⟨rfl, htotal⟩ := generateRound_eq hround
  obtain ⟨budget, budgets, rfl, -, -, hamount, hbudgets⟩ := writeRoundOne_eq hwrite
  simp only [WorkOrderOperation.worth, WorkOrderOperation.adds, hstatus, if_true,
    Option.elim_some] at hworth
  have hfits : budget.total.cents ≤ bound := by
    rw [roundTotal_eq] at htotal
    rw [hamount, htotal.within (hworth.trans hsafe)]
    exact hworth
  refine priced_budgets .awaitingApproval (priced_joined 1 hpriced) ?_
  rcases hbudgets with ⟨-, rfl⟩ | ⟨index, old, -, -, -, rfl⟩
  · exact budgets_append hpriced.budgets hfits
  · exact budgets_set hpriced.budgets hfits

theorem submitSupplementaryBudget_priced {input : GenerateBudgetInput}
    (hpriced : before.billing.Priced bound)
    (hsafe : bound ≤ maxExactCents)
    (hworth : (WorkOrderOperation.submitSupplementaryBudget input).worth before ≤ bound)
    (h : Runs (submitSupplementaryBudget input) before done after) :
    after.billing.Priced bound := by
  simp [submitSupplementaryBudget, recordFact, recordStatusChange] at h
  obtain ⟨hstatus, -, total, middle, hround, rfl⟩ := h
  obtain ⟨rfl, htotal⟩ := generateRound_eq hround
  simp only [WorkOrderOperation.worth, WorkOrderOperation.adds, hstatus, if_true,
    Option.elim_some] at hworth
  have hfits : total.cents ≤ bound := by
    rw [roundTotal_eq] at htotal
    rw [htotal.within (hworth.trans hsafe)]
    exact hworth
  exact priced_budgets .awaitingApproval (priced_joined before.nextRound hpriced)
    (budgets_append hpriced.budgets hfits)

/-- A decision leaves the total of its round. -/
theorem budgets_decided {index : Nat} {budget decided : Budget} {status : BudgetStatus}
    {actorUserId : UserId} {now : Timestamp} (hpriced : before.billing.Priced bound)
    (hindex : before.budgets[index]? = some budget)
    (hdecided : budget.decide status actorUserId now = .ok decided) :
    ∀ other ∈ before.budgets.set index decided, other.total.cents ≤ bound := by
  obtain ⟨-, -, -, htotal⟩ := decide_ok hdecided
  refine budgets_set hpriced.budgets ?_
  rw [htotal]
  exact hpriced.budgets budget (List.mem_of_getElem? hindex)

theorem approveBudget_priced {input : DecideBudgetActionInput}
    (hpriced : before.billing.Priced bound)
    (h : Runs (approveBudget input) before done after) :
    after.billing.Priced bound := by
  simp [approveBudget, writeBudget, recordMove, recordStatusChange] at h
  obtain ⟨index, budget, middle, hfound, decided, hdecided, rfl⟩ := h
  obtain ⟨rfl, -, hindex⟩ := budgetToDecide_runs hfound
  exact priced_budgets .inExecution hpriced (budgets_decided hpriced hindex hdecided)

theorem rejectBudget_priced {input : DecideBudgetActionInput}
    (hpriced : before.billing.Priced bound)
    (h : Runs (rejectBudget input) before done after) :
    after.billing.Priced bound := by
  simp [rejectBudget, writeBudget, recordMove, recordStatusChange,
    recordExecutionStarted] at h
  obtain ⟨index, budget, middle, hfound, decided, hdecided, state, hstate, rfl⟩ := h
  obtain ⟨rfl, -, hindex⟩ := budgetToDecide_runs hfound
  have hrejected := priced_budgets (rejectionDestination decided) hpriced
    (budgets_decided hpriced hindex hdecided)
  split at hstate
  · subst hstate
    exact hrejected
  · subst hstate
    exact hrejected

/-- The discount and the total a discount or a completion leaves. -/
theorem priced_charged {billing : Billing} (status : WorkOrderStatus)
    {discount : Money} {chargedTotal : Option Money} (hpriced : billing.Priced bound)
    (hdiscount : discount.cents ≤ bound)
    (hcharged : ∀ total ∈ chargedTotal, total.cents ≤ bound) :
    { billing with status, discount, chargedTotal }.Priced bound :=
  ⟨hpriced.services, hpriced.parts, hpriced.budgets, hcharged, hdiscount⟩

/-- What is left of the charge once a discount is taken off. -/
theorem charged_le {total discount left : Money} (hpriced : before.billing.Priced bound)
    (hsafe : bound ≤ maxExactCents) (hworth : before.worthOf .charge ≤ bound)
    (htotal : before.chargedTotalBeforeDiscount = .ok total)
    (hleft : money (total.subtract discount) = .ok left) : left.cents ≤ bound := by
  have hcharge := chargedTotalBeforeDiscount_ok htotal
  rw [hpriced.charge_eq] at hcharge
  have hsplit := (subtract_ok hcharge hleft).within (hworth.trans hsafe)
  have hnonneg := discount.nonneg
  omega

theorem applyDiscount_priced {input : ApplyDiscountInput}
    (hpriced : before.billing.Priced bound) (hamount : input.amount.cents ≤ bound)
    (hsafe : bound ≤ maxExactCents)
    (hworth : (WorkOrderOperation.applyDiscount input).worth before ≤ bound)
    (h : Runs (applyDiscount input) before done after) :
    after.billing.Priced bound := by
  simp [applyDiscount, recordFact] at h
  obtain ⟨hstatus, total, htotal, -, _, middle, hrefresh, rfl⟩ := h
  have hmem : before.status ∈ [WorkOrderStatus.inExecution, .completed] := by
    simpa using hstatus
  simp only [WorkOrderOperation.worth, WorkOrderOperation.adds, if_pos hmem,
    Option.elim_some] at hworth
  rcases refreshChargedTotal_eq hrefresh with ⟨-, chargedTotal, hleft, rfl⟩ | ⟨-, rfl⟩
  · refine priced_charged before.status hpriced hamount fun charged hcharged => ?_
    rw [← Option.some.inj hcharged]
    exact charged_le hpriced hsafe hworth htotal hleft
  · exact priced_charged before.status hpriced hamount hpriced.chargedTotal

theorem complete_priced {input : CloseActionInput}
    (hpriced : before.billing.Priced bound)
    (hsafe : bound ≤ maxExactCents)
    (hworth : (WorkOrderOperation.complete input).worth before ≤ bound)
    (h : Runs (complete input) before done after) : after.billing.Priced bound := by
  simp [complete, recordMove, recordStatusChange] at h
  obtain ⟨hstatus, total, htotal, -, chargedTotal, hleft, rfl⟩ := h
  simp only [WorkOrderOperation.worth, WorkOrderOperation.adds, hstatus, if_true,
    Option.elim_some] at hworth
  refine priced_charged .completed hpriced hpriced.discount fun charged hcharged => ?_
  rw [← Option.some.inj hcharged]
  exact charged_le hpriced hsafe hworth htotal hleft

theorem startDiagnosis_priced {input : StartDiagnosisInput}
    (hpriced : before.billing.Priced bound)
    (h : Runs (startDiagnosis input) before done after) :
    after.billing.Priced bound := by
  simp [startDiagnosis, recordMove, recordStatusChange] at h
  obtain ⟨-, rfl⟩ := h
  exact priced_moved .inDiagnosis hpriced

theorem deliver_priced {input : CloseActionInput}
    (hpriced : before.billing.Priced bound)
    (h : Runs (deliver input) before done after) : after.billing.Priced bound := by
  simp [deliver, recordMove, recordStatusChange] at h
  obtain ⟨-, rfl⟩ := h
  exact priced_moved .delivered hpriced

theorem cancel_priced {input : CancelInput} (hpriced : before.billing.Priced bound)
    (h : Runs (cancel input) before done after) : after.billing.Priced bound := by
  simp [cancel, recordMove, recordStatusChange] at h
  obtain ⟨-, rfl⟩ := h
  exact priced_moved .canceled hpriced

section Batches

variable {change : WorkOrderPartItem → Int → Except WorkOrderError WorkOrderPartItem}
variable {resolved : List (WorkOrderPartItem × Int)}

/-- A method of a part that leaves its prices and never counts less than nothing
as withdrawn. -/
def KeepsPrices (bound : Int)
    (change : WorkOrderPartItem → Int → Except WorkOrderError WorkOrderPartItem) :
    Prop :=
  ∀ item quantity changed, 0 < quantity → item.Priced bound →
    change item quantity = .ok changed → changed.Priced bound

theorem withdraw_keepsPrices : KeepsPrices bound WorkOrderPartItem.withdraw := by
  intro item quantity changed hpositive hitem h
  rw [withdraw_movesUnits item quantity changed h]
  have hwithdrawn := hitem.withdrawn
  exact ⟨hitem.price, show 0 ≤ item.withdrawnQuantity + 1 * quantity by omega⟩

theorem returnUnits_keepsPrices : KeepsPrices bound WorkOrderPartItem.returnUnits := by
  intro item quantity changed _ hitem h
  simp only [WorkOrderPartItem.returnUnits] at h
  split at h
  · cases h
  · rename_i hfits
    cases h
    exact ⟨hitem.price, Int.not_lt.mp hfits⟩

/-- A batch moves units, and no price. -/
theorem changeParts_priced (hkeeps : KeepsPrices bound change)
    (hpositive : ∀ entry ∈ resolved, 0 < entry.2) :
    ∀ {before : WorkOrder}, before.billing.Priced bound →
      Runs (changeParts change resolved) before done after →
      after.billing.Priced bound := by
  induction resolved with
  | nil =>
      intro before hpriced h
      simp [changeParts] at h
      rw [h]
      exact hpriced
  | cons entry resolved ih =>
      intro before hpriced h
      simp only [changeParts, runs_bind] at h
      obtain ⟨_, middle, hfirst, hrest⟩ := h
      obtain ⟨index, item, changed, hindex, -, hchanged, rfl⟩ := changePart_set hfirst
      have hitem := hkeeps item entry.2 changed (hpositive entry List.mem_cons_self)
        (hpriced.parts item (List.mem_of_getElem? hindex)) hchanged
      have hmiddle : { before with
          partItems := before.partItems.set index changed }.billing.Priced bound := by
        refine ⟨hpriced.services, fun other hother => ?_, hpriced.budgets,
          hpriced.chargedTotal, hpriced.discount⟩
        rcases List.mem_or_eq_of_mem_set hother with hother | rfl
        · exact hpriced.parts other hother
        · exact hitem
      exact ih (fun other hother => hpositive other (List.mem_cons_of_mem _ hother))
        hmiddle hrest

/-- A resolved line moves what the request asks for. -/
theorem resolved_positive {lines : List BatchLine}
    {check : WorkOrderPartItem → Int → Except WorkOrderError Unit}
    (hpositive : ∀ quantity ∈ lines.map BatchLine.quantity, 0 < quantity)
    (h : before.resolveLines check lines = .ok resolved) :
    ∀ entry ∈ resolved, 0 < entry.2 := by
  intro entry hentry
  obtain ⟨line, hline, hquantity, -⟩ :=
    exists_left_of_forall₂ (resolveLines_ok h).2 hentry
  rw [hquantity]
  exact hpositive _ (List.mem_map_of_mem hline)

theorem withdrawParts_priced {input : WithdrawPartsInput}
    {lines : List ResolvedBatchLine} (hpriced : before.billing.Priced bound)
    (hpositive : ∀ quantity ∈ input.lines.map BatchLine.quantity, 0 < quantity)
    (h : Runs (withdrawParts input) before lines after) :
    after.billing.Priced bound := by
  simp [withdrawParts, recordFact] at h
  obtain ⟨-, -, resolved, hresolved, _, middle, hchange, hafter, -⟩ := h
  have hmiddle := changeParts_priced withdraw_keepsPrices
    (resolved_positive hpositive hresolved) hpriced hchange
  rw [hafter]
  exact hmiddle

theorem returnParts_priced {input : WithdrawPartsInput}
    {lines : List ResolvedBatchLine} (hpriced : before.billing.Priced bound)
    (hpositive : ∀ quantity ∈ input.lines.map BatchLine.quantity, 0 < quantity)
    (h : Runs (returnParts input) before lines after) :
    after.billing.Priced bound := by
  simp [returnParts, recordFact] at h
  obtain ⟨-, -, resolved, hresolved, _, middle, hchange, hafter, -⟩ := h
  have hmiddle := changeParts_priced returnUnits_keepsPrices
    (resolved_positive hpositive hresolved) hpriced hchange
  rw [hafter]
  exact hmiddle

end Batches

end WorkOrder

namespace WorkOrderOperation

variable {bound : Int} {before after : WorkOrder}

/-- No method leaves an amount beyond the bound when what it is given and what the
items it adds up are worth are within it. -/
theorem priced_of_runs (operation : WorkOrderOperation)
    (hpriced : before.billing.Priced bound)
    (hgiven : ∀ cents ∈ operation.amounts, cents ≤ bound)
    (hsafe : bound ≤ maxExactCents) (hworth : operation.worth before ≤ bound)
    (hpositive : ∀ quantity ∈ operation.quantities, 0 < quantity)
    (h : Runs operation.run before () after) : after.billing.Priced bound := by
  cases operation with
  | addService input =>
      exact WorkOrder.addService_priced hpriced (hgiven _ List.mem_cons_self) h
  | planPart input =>
      exact WorkOrder.planPart_priced hpriced (hgiven _ List.mem_cons_self) h
  | removeItem input => exact WorkOrder.removeItem_priced hpriced h
  | startDiagnosis input => exact WorkOrder.startDiagnosis_priced hpriced h
  | completeDiagnosis input =>
      exact WorkOrder.completeDiagnosis_priced hpriced hsafe hworth h
  | approveBudget input => exact WorkOrder.approveBudget_priced hpriced h
  | rejectBudget input => exact WorkOrder.rejectBudget_priced hpriced h
  | submitSupplementaryBudget input =>
      exact WorkOrder.submitSupplementaryBudget_priced hpriced hsafe hworth h
  | withdrawParts input =>
      obtain ⟨lines, hruns, -⟩ := runs_map.mp h
      exact WorkOrder.withdrawParts_priced hpriced hpositive hruns
  | returnParts input =>
      obtain ⟨lines, hruns, -⟩ := runs_map.mp h
      exact WorkOrder.returnParts_priced hpriced hpositive hruns
  | assignMechanic input =>
      rw [WorkOrder.assignMechanic_billing h]
      exact hpriced
  | applyDiscount input =>
      exact WorkOrder.applyDiscount_priced hpriced (hgiven _ List.mem_cons_self)
        hsafe hworth h
  | complete input => exact WorkOrder.complete_priced hpriced hsafe hworth h
  | deliver input => exact WorkOrder.deliver_priced hpriced h
  | cancel input => exact WorkOrder.cancel_priced hpriced h

end WorkOrderOperation

end Methods

/-- What a notice says the round to decide comes to. -/
def WorkOrderEvent.amounts : WorkOrderEvent → List Int
  | .trail _ => []
  | .statusChanged notice =>
      (notice.budgetToDecide.map BudgetToDecide.totalCents).toList

/-- No amount a work order holds exceeds the bound. -/
structure WorkOrder.Priced (bound : Int) (workOrder : WorkOrder) : Prop where
  bill : workOrder.billing.Priced bound
  notices : ∀ event ∈ workOrder.domainEvents, ∀ cents ∈ event.amounts, cents ≤ bound

section Notices

variable {bound : Int} {before after : WorkOrder}

/-- The round a notice carries is one on the bill. -/
theorem budgetOfStatusChange_le {workOrder : WorkOrder}
    (hpriced : workOrder.billing.Priced bound) :
    ∀ budget ∈ workOrder.budgetOfStatusChange, budget.totalCents ≤ bound := by
  intro budget hbudget
  simp only [WorkOrder.budgetOfStatusChange] at hbudget
  split at hbudget
  · obtain ⟨pending, hpending, rfl⟩ := Option.map_eq_some_iff.mp hbudget
    exact hpriced.budgets pending (List.mem_of_find?_eq_some hpending)
  · cases hbudget

/-- A call leaves no amount beyond the bound, neither on the bill nor in a notice. -/
theorem WorkOrder.Priced.runs (operation : WorkOrderOperation)
    (hpriced : before.Priced bound) (hgiven : ∀ cents ∈ operation.amounts, cents ≤ bound)
    (hsafe : bound ≤ maxExactCents) (hworth : operation.worth before ≤ bound)
    (hpositive : ∀ quantity ∈ operation.quantities, 0 < quantity)
    (h : Runs operation.run before () after) : after.Priced bound := by
  have hbill := operation.priced_of_runs hpriced.bill hgiven hsafe hworth hpositive h
  refine ⟨hbill, ?_⟩
  cases operation.records h with
  | fact event hstatus hfact hstamp hevents =>
      rw [hevents]
      exact List.forall_mem_append.mpr ⟨hpriced.notices,
        List.forall_mem_singleton.mpr fun _ hcents => absurd hcents List.not_mem_nil⟩
  | move trail notice hevents hstatus htrail hstamp hcarried hhidden hfrom hto
      hbudget =>
      rw [hevents, List.forall_mem_append, List.forall_mem_append]
      refine ⟨hpriced.notices, fun event hevent => ?_, ?_⟩
      · obtain ⟨fact, -, rfl⟩ := List.mem_map.mp hevent
        exact fun _ hcents => absurd hcents List.not_mem_nil
      · refine List.forall_mem_singleton.mpr fun cents hcents => ?_
        rw [WorkOrderEvent.amounts, hbudget, Option.mem_toList] at hcents
        obtain ⟨budget, hsame, rfl⟩ := Option.map_eq_some_iff.mp hcents
        exact budgetOfStatusChange_le hbill budget hsame

theorem WorkOrder.priced_open (hbound : 0 ≤ bound) (input : OpenWorkOrderInput) :
    (openWorkOrder input).Priced bound where
  bill := ⟨nofun, nofun, nofun, nofun, hbound⟩
  notices := by
    simp [openWorkOrder, WorkOrderEvent.amounts]

end Notices

end WorkOrders

end Workshop
