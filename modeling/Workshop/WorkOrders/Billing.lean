/-
The bill of a work order, as a machine of its own: the rounds that were quoted,
the items on them, what was withdrawn of each part and what the customer is
charged.  Its steps say once what the methods of the aggregate do to it.
-/
import Mathlib.Logic.Relation
import Workshop.Library.KeyedSums
import Workshop.WorkOrders.WorkOrder

namespace Workshop

namespace WorkOrders

/-- What the rounds and the charges of a work order depend on. -/
structure Billing where
  status : WorkOrderStatus
  serviceItems : List WorkOrderServiceItem
  partItems : List WorkOrderPartItem
  budgets : List Budget
  chargedTotal : Option Money
  discount : Money

def WorkOrder.billing (workOrder : WorkOrder) : Billing where
  status := workOrder.status
  serviceItems := workOrder.serviceItems
  partItems := workOrder.partItems
  budgets := workOrder.budgets
  chargedTotal := workOrder.chargedTotal
  discount := workOrder.discount

/-- A budgeted price in cents; an item without one adds nothing. -/
def budgetedCents (price : Option Money) : Int :=
  (price.map Money.cents).getD 0

theorem budgetedCents_nonneg (price : Option Money) : 0 ≤ budgetedCents price := by
  cases price with
  | none => exact Int.le_refl 0
  | some price => exact price.nonneg

/-- The budgeted prices of the services on some rounds. -/
def servicesOn (rounds : Nat → Bool) (items : List WorkOrderServiceItem) : Int :=
  sumWhere (fun item => item.budgetRound.any rounds)
    (fun item => budgetedCents item.budgetedUnitPrice) items

/-- The budgeted prices of the parts on some rounds, each times its units. -/
def partsOn (rounds : Nat → Bool) (units : WorkOrderPartItem → Int)
    (items : List WorkOrderPartItem) : Int :=
  sumWhere (fun item => item.budgetRound.any rounds)
    (fun item => budgetedCents item.budgetedUnitPrice * units item) items

theorem servicesOn_cons (rounds : Nat → Bool) (item : WorkOrderServiceItem)
    (items : List WorkOrderServiceItem) :
    servicesOn rounds (item :: items) =
      (if item.budgetRound.any rounds = true
        then budgetedCents item.budgetedUnitPrice else 0) +
        servicesOn rounds items :=
  sumWhere_cons _ _ item items

theorem partsOn_cons (rounds : Nat → Bool) (units : WorkOrderPartItem → Int)
    (item : WorkOrderPartItem) (items : List WorkOrderPartItem) :
    partsOn rounds units (item :: items) =
      (if item.budgetRound.any rounds = true
        then budgetedCents item.budgetedUnitPrice else 0) * units item +
        partsOn rounds units items := by
  rw [ite_mul, Int.zero_mul]
  exact sumWhere_cons _ _ item items

/-- A service once the eligible items were attached to a round. -/
def joinService (round : Nat) (item : WorkOrderServiceItem) :
    WorkOrderServiceItem :=
  if item.isDraft || decide (item.budgetRound = some round)
  then item.attachToBudget round else item

/-- A part once the eligible items were attached to a round. -/
def joinPart (round : Nat) (item : WorkOrderPartItem) : WorkOrderPartItem :=
  if item.isDraft || decide (item.budgetRound = some round)
  then item.attachToBudget round else item

/-- A part that counts some units as withdrawn. -/
def WorkOrderPartItem.counting (item : WorkOrderPartItem) (withdrawn : Int) :
    WorkOrderPartItem :=
  { item with withdrawnQuantity := withdrawn }

/-- The number after the largest round. -/
def roundAfter (budgets : List Budget) : Nat :=
  budgets.foldl (fun max budget => Nat.max max budget.round) 0 + 1

namespace Billing

/-- What the items of a round were quoted at. -/
def roundTotal (billing : Billing) (round : Nat) : Int :=
  servicesOn (fun named => decide (named = round)) billing.serviceItems +
    partsOn (fun named => decide (named = round))
      (fun item => item.plannedQuantity.units) billing.partItems

/-- Whether a round was approved. -/
def isApproved (billing : Billing) (round : Nat) : Bool :=
  billing.budgets.any fun budget =>
    decide (budget.round = round ∧ budget.status = .approved)

/-- Services on approved rounds, and withdrawn parts on approved rounds. -/
def charge (billing : Billing) : Int :=
  servicesOn billing.isApproved billing.serviceItems +
    partsOn billing.isApproved (fun item => item.withdrawnQuantity)
      billing.partItems

/-- The eligible items attached to a round. -/
def joined (billing : Billing) (round : Nat) : Billing :=
  { billing with
    serviceItems := billing.serviceItems.map (joinService round)
    partItems := billing.partItems.map (joinPart round) }

end Billing

/-- What the steps of a bill keep to: the quantities a line of a batch may ask for, and
how the total of a round and what is charged stand to the sums of their items. -/
structure BillingRules where
  asked : Int → Prop
  quoted : Int → Int → Prop
  charged : Int → Int → Prop

/-- A pending round over the items that were eligible for it. -/
structure Billing.Quotes (rules : BillingRules) (billing : Billing) (budget : Budget) :
    Prop where
  status : budget.status = .pending
  total : rules.quoted budget.total.cents
    ((billing.joined budget.round).roundTotal budget.round)

/-- A step of the bill. -/
inductive BillingStep (rules : BillingRules) : Billing → Billing → Prop
  | addService (billing : Billing) (item : WorkOrderServiceItem)
      (hstatus : billing.status ∈ itemEditableStates)
      (hdraft : item.budgetRound = none) (hprice : item.budgetedUnitPrice = none) :
      BillingStep rules billing
        { billing with serviceItems := billing.serviceItems ++ [item] }
  | planPart (billing : Billing) (item : WorkOrderPartItem)
      (hstatus : billing.status ∈ partPlannableStates)
      (hdraft : item.budgetRound = none) (hprice : item.budgetedUnitPrice = none)
      (hwithdrawn : item.withdrawnQuantity = 0) :
      BillingStep rules billing
        { billing with partItems := billing.partItems ++ [item] }
  | removeService (billing : Billing) (index : Nat) (item : WorkOrderServiceItem)
      (hstatus : billing.status ∈ itemEditableStates)
      (hindex : billing.serviceItems[index]? = some item)
      (hdraft : item.budgetRound = none) :
      BillingStep rules billing
        { billing with serviceItems := billing.serviceItems.eraseIdx index }
  | removePart (billing : Billing) (index : Nat) (item : WorkOrderPartItem)
      (hstatus : billing.status ∈ itemEditableStates)
      (hindex : billing.partItems[index]? = some item)
      (hdraft : item.budgetRound = none) :
      BillingStep rules billing
        { billing with partItems := billing.partItems.eraseIdx index }
  | startDiagnosis (billing : Billing) (hstatus : billing.status = .received) :
      BillingStep rules billing { billing with status := .inDiagnosis }
  /- Round one, quoted for the first time. -/
  | quoteFirst (billing : Billing) (budget : Budget)
      (hstatus : billing.status = .inDiagnosis)
      (hnone : ∀ old ∈ billing.budgets, old.round ≠ 1)
      (hround : budget.round = 1) (hquotes : billing.Quotes rules budget) :
      BillingStep rules billing
        { billing.joined 1 with
          budgets := billing.budgets ++ [budget], status := .awaitingApproval }
  /- Round one, quoted again in place after a rejection. -/
  | quoteAgain (billing : Billing) (index : Nat) (old budget : Budget)
      (hstatus : billing.status = .inDiagnosis)
      (hindex : billing.budgets[index]? = some old) (hold : old.round = 1)
      (hrejected : old.status = .rejected)
      (hround : budget.round = 1) (hquotes : billing.Quotes rules budget) :
      BillingStep rules billing
        { billing.joined 1 with
          budgets := billing.budgets.set index budget
          status := .awaitingApproval }
  /- A supplementary round. -/
  | quoteNext (billing : Billing) (budget : Budget)
      (hstatus : billing.status = .inExecution)
      (hround : budget.round = roundAfter billing.budgets)
      (hquotes : billing.Quotes rules budget) :
      BillingStep rules billing
        { billing.joined budget.round with
          budgets := billing.budgets ++ [budget], status := .awaitingApproval }
  | decideBudget (billing : Billing) (index : Nat) (found decided : Budget)
      (next : WorkOrderStatus) (hstatus : billing.status = .awaitingApproval)
      (hindex : billing.budgets[index]? = some found)
      (hpending : found.status = .pending)
      (hround : decided.round = found.round) (htotal : decided.total = found.total)
      (hnext : (decided.status = .approved ∧ next = .inExecution) ∨
        (decided.status = .rejected ∧
          next = WorkOrder.rejectionDestination decided)) :
      BillingStep rules billing
        { billing with
          budgets := billing.budgets.set index decided, status := next }
  | withdraw (billing : Billing) (index : Nat) (item : WorkOrderPartItem)
      (quantity : Int) (budget : Budget) (hstatus : billing.status = .inExecution)
      (hindex : billing.partItems[index]? = some item)
      (hbudget : budget ∈ billing.budgets) (happroved : budget.status = .approved)
      (hround : item.budgetRound = some budget.round) (hasked : rules.asked quantity)
      (hfits : item.withdrawnQuantity + quantity ≤ item.plannedQuantity.units) :
      BillingStep rules billing
        { billing with
          partItems := billing.partItems.set index
            (item.counting (item.withdrawnQuantity + quantity)) }
  | returnUnits (billing : Billing) (index : Nat) (item : WorkOrderPartItem)
      (quantity : Int) (hstatus : billing.status = .inExecution)
      (hindex : billing.partItems[index]? = some item) (hasked : rules.asked quantity)
      (hfits : 0 ≤ item.withdrawnQuantity - quantity) :
      BillingStep rules billing
        { billing with
          partItems := billing.partItems.set index
            (item.counting (item.withdrawnQuantity - quantity)) }
  | applyDiscount (billing : Billing) (amount : Money)
      (hstatus : billing.status = .inExecution) :
      BillingStep rules billing { billing with discount := amount }
  /- A completed work order has its total frozen again. -/
  | applyDiscountAgain (billing : Billing) (amount chargedTotal : Money)
      (hstatus : billing.status = .completed)
      (htotal : rules.charged (chargedTotal.cents + amount.cents) billing.charge) :
      BillingStep rules billing
        { billing with discount := amount, chargedTotal := some chargedTotal }
  | complete (billing : Billing) (chargedTotal : Money)
      (hstatus : billing.status = .inExecution)
      (htotal : rules.charged (chargedTotal.cents + billing.discount.cents)
        billing.charge) :
      BillingStep rules billing
        { billing with status := .completed, chargedTotal := some chargedTotal }
  | deliver (billing : Billing) (hstatus : billing.status = .completed) :
      BillingStep rules billing { billing with status := .delivered }
  | cancel (billing : Billing) (hstatus : billing.status ∈ cancelableStates) :
      BillingStep rules billing { billing with status := .canceled }

/-- Several steps of the bill. -/
abbrev BillingSteps (rules : BillingRules) : Billing → Billing → Prop :=
  Relation.ReflTransGen (BillingStep rules)

end WorkOrders

end Workshop
