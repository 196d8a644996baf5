/-
What the items on a bill are worth.  An item is quoted at the price it was given and
charged at the price it was quoted with, so the two sums of the aggregate come to what
their items are worth at the prices they were given.
-/
import Workshop.Library.Upserts
import Workshop.WorkOrders.Operations

namespace Workshop

namespace WorkOrders

/-- An item at a price within a bound, quoted at that price once it is on a round. -/
structure ItemPriced {κ : Type} (bound : Int) (named : Option κ) (unitPrice : Money)
    (budgetedUnitPrice : Option Money) : Prop where
  le : unitPrice.cents ≤ bound
  kept : ∀ price ∈ budgetedUnitPrice, price = unitPrice
  quoted : named.isSome → budgetedUnitPrice.isSome

abbrev WorkOrderServiceItem.Priced (bound : Int) (item : WorkOrderServiceItem) : Prop :=
  ItemPriced bound item.budgetRound item.unitPrice item.budgetedUnitPrice

structure WorkOrderPartItem.Priced (bound : Int) (item : WorkOrderPartItem) : Prop where
  price : ItemPriced bound item.budgetRound item.unitPrice item.budgetedUnitPrice
  withdrawn : 0 ≤ item.withdrawnQuantity

/-- No amount on the bill exceeds the bound. -/
structure Billing.Priced (bound : Int) (billing : Billing) : Prop where
  services : ∀ item ∈ billing.serviceItems, item.Priced bound
  parts : ∀ item ∈ billing.partItems, item.Priced bound
  budgets : ∀ budget ∈ billing.budgets, budget.total.cents ≤ bound
  chargedTotal : ∀ total ∈ billing.chargedTotal, total.cents ≤ bound
  discount : billing.discount.cents ≤ bound

/-- What the items on some rounds are worth, each part times its units. -/
def Billing.worth (billing : Billing) (counts : Option Nat → Bool)
    (units : WorkOrderPartItem → Int) : Int :=
  sumWhere (fun item => counts item.budgetRound) (fun item => item.unitPrice.cents)
      billing.serviceItems +
    sumWhere (fun item => counts item.budgetRound)
      (fun item => item.unitPrice.cents * units item) billing.partItems

/-- Whether an item is eligible for a round: a draft, or on it already. -/
def joinsRound (round : Nat) (named : Option Nat) : Bool :=
  named.isNone || decide (named = some round)

namespace WorkOrder

/-- What `generateRound` adds up, in its order. -/
def roundTerms (workOrder : WorkOrder) (round : Nat) : List Int :=
  ((workOrder.serviceItems.filter fun item => joinsRound round item.budgetRound).map
      fun item => item.unitPrice.cents) ++
    (workOrder.partItems.filter fun item => joinsRound round item.budgetRound).map
      fun item => item.unitPrice.cents * item.plannedQuantity.units

/-- What `chargedTotalBeforeDiscount` adds up, in its order. -/
def chargeTerms (workOrder : WorkOrder) : List Int :=
  (workOrder.serviceItems.filterMap fun item =>
      (chargedPrice workOrder.approvedRounds item.budgetRound
        item.budgetedUnitPrice).map Money.cents) ++
    workOrder.partItems.filterMap fun item =>
      (chargedPrice workOrder.approvedRounds item.budgetRound
        item.budgetedUnitPrice).map fun price => price.cents * item.withdrawnQuantity

def termsOf (workOrder : WorkOrder) : Adds → List Int
  | .round round => workOrder.roundTerms round
  | .charge => workOrder.chargeTerms

/-- What the items behind a sum are worth at the prices they were given: those
eligible for the round at their planned quantities, or those on approved rounds at
what was withdrawn of them. -/
def worthOf (workOrder : WorkOrder) : Adds → Int
  | .round round =>
      workOrder.billing.worth (joinsRound round) fun item => item.plannedQuantity.units
  | .charge =>
      workOrder.billing.worth (fun named => named.any workOrder.billing.isApproved)
        fun item => item.withdrawnQuantity

end WorkOrder

namespace WorkOrderOperation

/-- The amounts a call is given. -/
def amounts : WorkOrderOperation → List Int
  | .addService input => [input.unitPrice.cents]
  | .planPart input => [input.unitPrice.cents]
  | .applyDiscount input => [input.amount.cents]
  | _ => []

/-- The terms a call adds up. -/
def terms (operation : WorkOrderOperation) (workOrder : WorkOrder) : List Int :=
  (operation.adds workOrder).elim [] workOrder.termsOf

/-- What the items a call adds up are worth. -/
def worth (operation : WorkOrderOperation) (workOrder : WorkOrder) : Int :=
  (operation.adds workOrder).elim 0 workOrder.worthOf

end WorkOrderOperation

section Sums

variable {bound : Int} {workOrder : WorkOrder} {round : Nat}

theorem ItemPriced.eq_of_any {rounds : Nat → Bool} {named : Option Nat}
    {unitPrice : Money} {budgetedUnitPrice : Option Money}
    (h : ItemPriced bound named unitPrice budgetedUnitPrice)
    (hany : named.any rounds = true) : budgetedUnitPrice = some unitPrice := by
  obtain ⟨round, hround, -⟩ := (Option.any_eq_true _ _).mp hany
  obtain ⟨price, hprice⟩ := Option.isSome_iff_exists.mp
    (h.quoted (Option.isSome_iff_exists.mpr ⟨round, hround⟩))
  rw [hprice, h.kept price hprice]

/-- An item on an approved round is charged at the price it was given. -/
theorem ItemPriced.chargedPrice_eq {named : Option Nat} {unitPrice : Money}
    {budgetedUnitPrice : Option Money}
    (h : ItemPriced bound named unitPrice budgetedUnitPrice) :
    WorkOrder.chargedPrice workOrder.approvedRounds named budgetedUnitPrice =
      if named.any workOrder.billing.isApproved = true then some unitPrice
      else none := by
  cases named with
  | none => rfl
  | some round =>
      obtain ⟨price, hprice⟩ := Option.isSome_iff_exists.mp (h.quoted rfl)
      rw [hprice, h.kept price hprice]
      simp only [WorkOrder.chargedPrice, WorkOrder.mem_approvedRounds, Option.any_some]

/-- The terms of the charge are those of the items on approved rounds. -/
theorem WorkOrder.chargeTerms_eq (hpriced : workOrder.billing.Priced bound) :
    workOrder.chargeTerms =
      ((workOrder.serviceItems.filter fun item =>
          item.budgetRound.any workOrder.billing.isApproved).map
        fun item => item.unitPrice.cents) ++
      (workOrder.partItems.filter fun item =>
          item.budgetRound.any workOrder.billing.isApproved).map
        fun item => item.unitPrice.cents * item.withdrawnQuantity := by
  rw [chargeTerms, ← filterMap_ite, ← filterMap_ite]
  congr 1
  · refine List.filterMap_congr fun item hitem => ?_
    rw [(hpriced.services item hitem).chargedPrice_eq]
    split <;> rfl
  · refine List.filterMap_congr fun item hitem => ?_
    rw [(hpriced.parts item hitem).price.chargedPrice_eq]
    split <;> rfl

/-- The terms of a sum come to what its items are worth. -/
theorem WorkOrder.sum_termsOf (hpriced : workOrder.billing.Priced bound)
    (adds : Adds) : (workOrder.termsOf adds).sum = workOrder.worthOf adds := by
  cases adds with
  | round round => exact List.sum_append
  | charge =>
      rw [termsOf, chargeTerms_eq hpriced]
      exact List.sum_append

/-- No term is negative. -/
theorem WorkOrder.termsOf_nonneg (hpriced : workOrder.billing.Priced bound)
    (adds : Adds) : ∀ term ∈ workOrder.termsOf adds, 0 ≤ term := by
  intro term hterm
  cases adds with
  | round round =>
      rcases List.mem_append.mp hterm with hterm | hterm
      · obtain ⟨item, -, rfl⟩ := List.mem_map.mp hterm
        exact item.unitPrice.nonneg
      · obtain ⟨item, -, rfl⟩ := List.mem_map.mp hterm
        exact Int.mul_nonneg item.unitPrice.nonneg
          (Int.le_of_lt item.plannedQuantity.positive)
  | charge =>
      rw [termsOf, chargeTerms_eq hpriced] at hterm
      rcases List.mem_append.mp hterm with hterm | hterm
      · obtain ⟨item, -, rfl⟩ := List.mem_map.mp hterm
        exact item.unitPrice.nonneg
      · obtain ⟨item, hitem, rfl⟩ := List.mem_map.mp hterm
        exact Int.mul_nonneg item.unitPrice.nonneg
          (hpriced.parts item (List.mem_of_mem_filter hitem)).withdrawn

/-- The charge is what the items on approved rounds are worth. -/
theorem Billing.Priced.charge_eq (hpriced : workOrder.billing.Priced bound) :
    workOrder.billing.charge = workOrder.worthOf .charge := by
  refine congrArg₂ (· + ·) ?_ ?_
  · refine sumWhere_congr (fun _ _ => rfl) fun item hitem happroved => ?_
    rw [(hpriced.services item hitem).eq_of_any happroved]
    rfl
  · refine sumWhere_congr (fun _ _ => rfl) fun item hitem happroved => ?_
    rw [(hpriced.parts item hitem).price.eq_of_any happroved]
    rfl

theorem joinService_eq (round : Nat) (item : WorkOrderServiceItem) :
    joinService round item =
      if joinsRound round item.budgetRound = true then item.attachToBudget round
      else item := rfl

theorem joinPart_eq (round : Nat) (item : WorkOrderPartItem) :
    joinPart round item =
      if joinsRound round item.budgetRound = true then item.attachToBudget round
      else item := rfl

/-- An item that may join a round is on it afterwards exactly when it joined. -/
theorem any_of_join {α : Type} {named : α → Option Nat} {attach : α → α}
    (hattach : ∀ item, named (attach item) = some round) (item : α) :
    ((named (if joinsRound round (named item) = true then attach item else item)).any
      fun other => decide (other = round)) = joinsRound round (named item) := by
  by_cases hjoins : joinsRound round (named item) = true
  · rw [if_pos hjoins, hattach, hjoins]
    exact decide_eq_true rfl
  · rw [if_neg hjoins, Bool.eq_false_iff.mpr hjoins]
    have hother : named item ≠ some round := by
      intro hround
      simp [joinsRound, hround] at hjoins
    exact Bool.eq_false_iff.mpr fun hany => hother (Billing.any_eq_iff.mp hany)

/-- A round is quoted at what the items that join it are worth. -/
theorem roundTotal_eq (workOrder : WorkOrder) (round : Nat) :
    (workOrder.billing.joined round).roundTotal round =
      workOrder.worthOf (.round round) := by
  have hservice : ∀ item, ((joinService round item).budgetRound.any
      fun named => decide (named = round)) = joinsRound round item.budgetRound :=
    any_of_join fun _ => rfl
  have hpart : ∀ item, ((joinPart round item).budgetRound.any
      fun named => decide (named = round)) = joinsRound round item.budgetRound :=
    any_of_join fun _ => rfl
  refine congrArg₂ (· + ·) ?_ ?_
  · refine (sumWhere_map _ _ _ _).trans
      (sumWhere_congr (fun item _ => hservice item) fun item _ hjoins => ?_)
    have hjoins : joinsRound round item.budgetRound = true :=
      (hservice item).symm.trans hjoins
    rw [Function.comp_apply, joinService_eq, if_pos hjoins]
    rfl
  · refine (sumWhere_map _ _ _ _).trans
      (sumWhere_congr (fun item _ => hpart item) fun item _ hjoins => ?_)
    have hjoins : joinsRound round item.budgetRound = true :=
      (hpart item).symm.trans hjoins
    rw [Function.comp_apply, joinPart_eq, if_pos hjoins]
    rfl

end Sums

end WorkOrders

end Workshop
