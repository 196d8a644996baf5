/-
What a bill charges.  Only parts on approved rounds are withdrawn, no part
beyond what was planned, and what a completed work order charges together with
its discount is what was done on the rounds the customer approved.
-/
import Workshop.WorkOrders.BudgetRounds

namespace Workshop

namespace WorkOrders

namespace Billing

variable {rules : BillingRules} {billing before after : Billing}

/-- What the customer agreed to pay at most. -/
def approvedTotal (billing : Billing) : Int :=
  sumWhere (fun budget => decide (budget.status = .approved))
    (fun budget => budget.total.cents) billing.budgets

/-- What is charged for, and what it comes to once the work is completed. -/
structure ChargesSound (rules : BillingRules) (billing : Billing) : Prop where
  withdrawn : ∀ item ∈ billing.partItems, 0 ≤ item.withdrawnQuantity ∧
    item.withdrawnQuantity ≤ item.plannedQuantity.units
  approved : ∀ item ∈ billing.partItems, 0 < item.withdrawnQuantity →
    ∃ budget ∈ billing.budgets, budget.status = .approved ∧
      item.budgetRound = some budget.round
  settled : billing.status = .completed ∨ billing.status = .delivered →
    ∃ chargedTotal, billing.chargedTotal = some chargedTotal ∧
      0 ≤ chargedTotal.cents ∧
      rules.charged (chargedTotal.cents + billing.discount.cents) billing.charge

/-- A settled bill charges, together with its discount, what was done on the approved
rounds, and no more than these came to. -/
def PaidFor (billing : Billing) : Prop :=
  billing.status = .completed ∨ billing.status = .delivered →
    ∃ chargedTotal, billing.chargedTotal = some chargedTotal ∧
      0 ≤ chargedTotal.cents ∧
      chargedTotal.cents + billing.discount.cents = billing.charge ∧
      chargedTotal.cents + billing.discount.cents ≤ billing.approvedTotal

/-- The status of a work order nothing was settled in yet. -/
def Unsettled (status : WorkOrderStatus) : Prop :=
  status ≠ .completed ∧ status ≠ .delivered

theorem Unsettled.settled {P : Prop} {status : WorkOrderStatus}
    (hunsettled : Unsettled status) :
    status = .completed ∨ status = .delivered → P := by
  rintro (hcompleted | hdelivered)
  · exact absurd hcompleted hunsettled.1
  · exact absurd hdelivered hunsettled.2

theorem unsettled_of_editable {status : WorkOrderStatus}
    (hstatus : status ∈ itemEditableStates) : Unsettled status := by
  constructor
  · rintro rfl
    exact absurd hstatus (by decide)
  · rintro rfl
    exact absurd hstatus (by decide)

/-- A step that counts no part anew and settles nothing. -/
theorem ChargesSound.of_parts (hsound : before.ChargesSound rules)
    (hunsettled : Unsettled after.status)
    (hparts : ∀ item ∈ after.partItems, item ∈ before.partItems ∨
      item.withdrawnQuantity = 0)
    (hbudgets : ∀ budget ∈ before.budgets, budget.status = .approved →
      budget ∈ after.budgets) : after.ChargesSound rules where
  withdrawn := by
    intro item hitem
    rcases hparts item hitem with hold | hzero
    · exact hsound.withdrawn item hold
    · have hplanned := item.plannedQuantity.positive
      rw [hzero]
      exact ⟨Int.le_refl 0, Int.le_of_lt hplanned⟩
  approved := by
    intro item hitem hpositive
    rcases hparts item hitem with hold | hzero
    · obtain ⟨budget, hbudget, happroved, hround⟩ :=
        hsound.approved item hold hpositive
      exact ⟨budget, hbudgets budget hbudget happroved, happroved, hround⟩
    · omega
  settled := hunsettled.settled

/-- A part that joins a round no approved budget has counts nothing. -/
theorem mem_or_zero_of_joined {round : Nat} (hsound : before.ChargesSound rules)
    (hnew : ∀ budget ∈ before.budgets, budget.status = .approved →
      budget.round ≠ round) {item : WorkOrderPartItem}
    (hitem : item ∈ (before.joined round).partItems) :
    item ∈ before.partItems ∨ item.withdrawnQuantity = 0 := by
  obtain ⟨old, hold, rfl⟩ := List.mem_map.mp hitem
  have hsame : (joinPart round old).withdrawnQuantity = old.withdrawnQuantity := by
    rw [joinPart]
    split <;> rfl
  rcases lt_or_eq_of_le (hsound.withdrawn old hold).1 with hpositive | hzero
  · obtain ⟨budget, hbudget, happroved, hround⟩ :=
      hsound.approved old hold hpositive
    rw [joinPart_of_ne (hnew budget hbudget happroved) (Or.inr hround)]
    exact Or.inl hold
  · rw [hsame]
    exact Or.inr hzero.symm

/-- A part whose withdrawn units changed. -/
theorem ChargesSound.count (hsound : before.ChargesSound rules) {index : Nat}
    {item : WorkOrderPartItem} {units : Int}
    (hparts : after.partItems = before.partItems.set index (item.counting units))
    (hbudgets : after.budgets = before.budgets) (hunsettled : Unsettled after.status)
    (hunits : 0 ≤ units ∧ units ≤ item.plannedQuantity.units)
    (happroved : 0 < units → ∃ budget ∈ before.budgets,
      budget.status = .approved ∧ item.budgetRound = some budget.round) :
    after.ChargesSound rules where
  withdrawn := by
    intro other hother
    rw [hparts] at hother
    rcases List.mem_or_eq_of_mem_set hother with hother | rfl
    · exact hsound.withdrawn other hother
    · exact hunits
  approved := by
    intro other hother hpositive
    rw [hparts] at hother
    rw [hbudgets]
    rcases List.mem_or_eq_of_mem_set hother with hother | rfl
    · exact hsound.approved other hother hpositive
    · exact happroved hpositive
  settled := hunsettled.settled

/-- A step that settles the bill, or leaves it settled. -/
theorem ChargesSound.settle (hsound : before.ChargesSound rules) {chargedTotal : Money}
    (hparts : after.partItems = before.partItems)
    (hbudgets : after.budgets = before.budgets)
    (hcharged : after.chargedTotal = some chargedTotal)
    (htotal : rules.charged (chargedTotal.cents + after.discount.cents) after.charge) :
    after.ChargesSound rules where
  withdrawn := by
    rw [hparts]
    exact hsound.withdrawn
  approved := by
    rw [hparts, hbudgets]
    exact hsound.approved
  settled := fun _ => ⟨chargedTotal, hcharged, chargedTotal.nonneg, htotal⟩

/-- No method breaks what is charged, when each line of a batch asks for at
least one unit. -/
theorem ChargesSound.step (hcharges : before.ChargesSound rules)
    (hsound : before.RoundsSound rules)
    (hpositive : ∀ quantity, rules.asked quantity → 0 < quantity)
    (hstep : BillingStep rules before after) :
    after.ChargesSound rules := by
  have hkept : ∀ budget ∈ before.budgets, budget.status = .approved →
      budget ∈ after.budgets := fun budget hbudget happroved =>
    (Keeps.of_step hsound hbudget happroved hstep).stands
  cases hstep with
  | addService item hstatus =>
      exact hcharges.of_parts (unsettled_of_editable hstatus)
        (fun item hitem => Or.inl hitem) hkept
  | planPart item hstatus hdraft hprice hwithdrawn =>
      refine hcharges.of_parts (unsettled_of_editable hstatus) ?_ hkept
      intro other hother
      rcases List.mem_append.mp hother with hother | hother
      · exact Or.inl hother
      · rw [List.mem_singleton.mp hother]
        exact Or.inr hwithdrawn
  | removeService index item hstatus =>
      exact hcharges.of_parts (unsettled_of_editable hstatus)
        (fun item hitem => Or.inl hitem) hkept
  | removePart index item hstatus =>
      exact hcharges.of_parts (unsettled_of_editable hstatus)
        (fun item hitem => Or.inl (List.mem_of_mem_eraseIdx hitem)) hkept
  | startDiagnosis =>
      exact hcharges.of_parts ⟨by simp, by simp⟩ (fun item hitem => Or.inl hitem) hkept
  | quoteFirst budget hstatus hnone =>
      exact hcharges.of_parts ⟨by simp, by simp⟩
        (fun item hitem => mem_or_zero_of_joined hcharges
          (fun old hold _ => hnone old hold) hitem) hkept
  | quoteAgain index old budget hstatus hindex hold hrejected =>
      refine hcharges.of_parts ⟨by simp, by simp⟩
        (fun item hitem => mem_or_zero_of_joined hcharges ?_ hitem) hkept
      obtain ⟨-, hone⟩ := eq_of_quoteAgain hsound hstatus hindex
      intro other hother happroved
      rw [hone] at hother
      rw [List.mem_singleton.mp hother, hrejected] at happroved
      cases happroved
  | quoteNext budget hstatus hround =>
      refine hcharges.of_parts ⟨by simp, by simp⟩
        (fun item hitem => mem_or_zero_of_joined hcharges ?_ hitem) hkept
      intro old hold _
      obtain ⟨i, hi⟩ := List.mem_iff_getElem?.mp hold
      have hlength := (List.getElem?_eq_some_iff.mp hi).1
      have hnumber := hsound.staged.round_eq hi
      rw [hround, hsound.staged.roundAfter_eq]
      omega
  | decideBudget index found decided next hstatus hindex hpending hround htotal
      hnext =>
      refine hcharges.of_parts ?_ (fun item hitem => Or.inl hitem) hkept
      rcases hnext with ⟨-, rfl⟩ | ⟨-, rfl⟩
      · exact ⟨by simp, by simp⟩
      · rw [WorkOrder.rejectionDestination]
        split <;> exact ⟨by simp, by simp⟩
  | withdraw index item quantity budget hstatus hindex hbudget happroved hround
      hasked hfits =>
      have hzero := (hcharges.withdrawn item (List.mem_of_getElem? hindex)).1
      have hquantity := hpositive quantity hasked
      refine hcharges.count rfl rfl ?_ ⟨by omega, hfits⟩
        fun _ => ⟨budget, hbudget, happroved, hround⟩
      exact unsettled_of_editable (by rw [hstatus]; decide)
  | returnUnits index item quantity hstatus hindex hasked hfits =>
      have hmem := List.mem_of_getElem? hindex
      have hplanned := (hcharges.withdrawn item hmem).2
      have hquantity := hpositive quantity hasked
      refine hcharges.count rfl rfl ?_ ⟨hfits, by omega⟩ fun hleft =>
        hcharges.approved item hmem (by omega)
      exact unsettled_of_editable (by rw [hstatus]; decide)
  | applyDiscount amount hstatus =>
      refine hcharges.of_parts ?_ (fun item hitem => Or.inl hitem) hkept
      exact unsettled_of_editable (by rw [hstatus]; decide)
  | applyDiscountAgain amount chargedTotal hstatus htotal =>
      exact hcharges.settle rfl rfl rfl htotal
  | complete chargedTotal hstatus htotal => exact hcharges.settle rfl rfl rfl htotal
  | deliver hstatus =>
      obtain ⟨chargedTotal, hcharged, -, htotal⟩ := hcharges.settled (Or.inl hstatus)
      exact hcharges.settle rfl rfl hcharged htotal
  | cancel hstatus =>
      exact hcharges.of_parts ⟨by simp, by simp⟩ (fun item hitem => Or.inl hitem) hkept

theorem ChargesSound.steps (hcharges : before.ChargesSound rules)
    (hsound : before.RoundsSound rules)
    (hpositive : ∀ quantity, rules.asked quantity → 0 < quantity)
    (hsteps : BillingSteps rules before after) :
    after.ChargesSound rules := by
  induction hsteps with
  | refl => exact hcharges
  | tail hrun hstep ih => exact ih.step (hsound.steps hrun) hpositive hstep

/-- The items on approved rounds, round by round. -/
theorem sumWhere_approved {α : Type} (roundOf : α → Option Nat) (f : α → Int)
    (items : List α) (hnodup : (billing.budgets.map Budget.round).Nodup) :
    sumWhere (fun item => (roundOf item).any billing.isApproved) f items =
      sumWhere (fun budget => decide (budget.status = .approved))
        (fun budget => sumWhere (fun item =>
          (roundOf item).any fun named => decide (named = budget.round)) f items)
        billing.budgets := by
  have hcover : ∀ item ∈ items, (roundOf item).any billing.isApproved = true →
      ∃ budget ∈ billing.budgets, decide (budget.status = .approved) = true ∧
        roundOf item = some budget.round := by
    intro item _ happroved
    obtain ⟨round, hround, hany⟩ := (Option.any_eq_true _ _).mp happroved
    obtain ⟨budget, hbudget, hboth⟩ := List.any_eq_true.mp hany
    obtain ⟨hsame, hstatus⟩ := of_decide_eq_true hboth
    exact ⟨budget, hbudget, decide_eq_true hstatus, by rw [hround, hsame]⟩
  rw [← sumWhere_fibers hnodup hcover]
  refine sumWhere_congr (fun _ _ => rfl) fun budget hbudget hstatus => ?_
  refine sumWhere_congr (fun item _ => ?_) fun _ _ _ => rfl
  have happroved : billing.isApproved budget.round = true :=
    List.any_eq_true.mpr ⟨budget, hbudget,
      decide_eq_true ⟨rfl, of_decide_eq_true hstatus⟩⟩
  cases hround : roundOf item with
  | none => simp
  | some round =>
      by_cases hsame : round = budget.round
      · simp [hsame, happroved]
      · simp [hsame]

/-- The items on approved rounds, round by round, in what they are quoted at. -/
theorem roundTotals_eq (hnodup : (billing.budgets.map Budget.round).Nodup) :
    sumWhere (fun budget => decide (budget.status = .approved))
        (fun budget => billing.roundTotal budget.round) billing.budgets =
      servicesOn billing.isApproved billing.serviceItems +
        partsOn billing.isApproved (fun item => item.plannedQuantity.units)
          billing.partItems := by
  have hservices := sumWhere_approved WorkOrderServiceItem.budgetRound
    (fun item => budgetedCents item.budgetedUnitPrice) billing.serviceItems hnodup
  have hparts := sumWhere_approved WorkOrderPartItem.budgetRound
    (fun item => budgetedCents item.budgetedUnitPrice * item.plannedQuantity.units)
    billing.partItems hnodup
  simp only [roundTotal, sumWhere_add, servicesOn, partsOn] at *
  omega

/-- What the approved rounds add up to covers what was done on them. -/
theorem charge_le_roundTotals (hsound : billing.RoundsSound rules)
    (hcharges : billing.ChargesSound rules) :
    billing.charge ≤ sumWhere (fun budget => decide (budget.status = .approved))
      (fun budget => billing.roundTotal budget.round) billing.budgets := by
  rw [roundTotals_eq hsound.staged.rounds_nodup, charge]
  refine Int.add_le_add_left (sumWhere_le fun item hitem _ => ?_) _
  exact Int.mul_le_mul_of_nonneg_left (hcharges.withdrawn item hitem).2
    (budgetedCents_nonneg _)

/-- The customer is never charged more than the approved rounds came to. -/
theorem charge_le_approvedTotal (hsound : billing.RoundsSound rules)
    (hcharges : billing.ChargesSound rules)
    (htotals : ∀ budget ∈ billing.budgets,
      AgreesUpTo maxExactCents budget.total.cents (billing.roundTotal budget.round))
    (hle : billing.charge ≤ maxExactCents) : billing.charge ≤ billing.approvedTotal := by
  have hroundTotals := charge_le_roundTotals hsound hcharges
  by_cases hbeyond : ∃ budget ∈ billing.budgets, budget.status = .approved ∧
      maxExactCents < billing.roundTotal budget.round
  · -- A total beyond what is exact covers the charge alone.
    obtain ⟨budget, hbudget, happroved, hlarge⟩ := hbeyond
    have htotal := (htotals budget hbudget).beyond hlarge
    have hone : budget.total.cents ≤ billing.approvedTotal :=
      le_sumWhere_of_mem (fun other _ _ => other.total.nonneg) hbudget
        (decide_eq_true happroved)
    omega
  · have hsame : billing.approvedTotal =
        sumWhere (fun budget => decide (budget.status = .approved))
          (fun budget => billing.roundTotal budget.round) billing.budgets := by
      refine sumWhere_congr (fun _ _ => rfl) fun budget hbudget happroved => ?_
      refine (htotals budget hbudget).within (not_lt.mp fun hlarge => hbeyond ?_)
      exact ⟨budget, hbudget, of_decide_eq_true happroved, hlarge⟩
    rw [hsame]
    exact hroundTotals

end Billing

end WorkOrders

end Workshop
