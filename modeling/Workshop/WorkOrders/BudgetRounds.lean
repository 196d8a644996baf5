/-
The rounds of a bill.  They are numbered from one in the order they were
quoted, the status says which of them is open, every item is on one of them or
on none, and an approved round is never touched again.
-/
import Workshop.WorkOrders.Billing
import Workshop.WorkOrders.WorkOrderMethods

namespace Workshop

namespace WorkOrders

/-- The statuses of a work order whose diagnosis was approved. -/
def executedStates : List WorkOrderStatus := [.inExecution, .completed, .delivered]

/-- Which rounds there are, and which of them is pending, in each status. -/
structure Staged (status : WorkOrderStatus) (budgets : List Budget) : Prop where
  numbered : budgets.map Budget.round = List.range' 1 budgets.length
  pendingLast : ∀ budget ∈ budgets, budget.status = .pending →
    budget.round = budgets.length
  pendingWhile : status ≠ .canceled →
    ((∃ budget ∈ budgets, budget.status = .pending) ↔ status = .awaitingApproval)
  received : status = .received → budgets = []
  inDiagnosis : status = .inDiagnosis → budgets = [] ∨
    ∃ budget, budgets = [budget] ∧ budget.round = 1 ∧ budget.status = .rejected
  underway : status = .awaitingApproval → ∀ budget ∈ budgets, budget.round = 1 →
    budgets.length ≠ 1 → budget.status = .approved
  executed : status ∈ executedStates →
    (∃ budget ∈ budgets, budget.round = 1 ∧ budget.status = .approved) ∧
      ∀ budget ∈ budgets, budget.status ≠ .pending

namespace Staged

variable {status next : WorkOrderStatus} {budgets : List Budget} {budget : Budget}
variable {index : Nat}

/-- A round stands where its number says. -/
theorem round_eq (hstaged : Staged status budgets)
    (hindex : budgets[index]? = some budget) : budget.round = index + 1 := by
  have hround : (budgets.map Budget.round)[index]? = some budget.round := by
    rw [List.getElem?_map, hindex, Option.map_some]
  rw [hstaged.numbered, List.getElem?_range' (List.getElem?_eq_some_iff.mp hindex).1]
    at hround
  have heq := Option.some.inj hround
  omega

theorem rounds_nodup (hstaged : Staged status budgets) :
    (budgets.map Budget.round).Nodup := by
  rw [hstaged.numbered]
  exact List.nodup_range'

/-- At most one round is pending. -/
theorem onePending (hstaged : Staged status budgets) :
    (budgets.filter fun budget => budget.status = .pending).length ≤ 1 := by
  have hnodup : ((budgets.filter fun budget => budget.status = .pending).map
      Budget.round).Nodup :=
    hstaged.rounds_nodup.sublist (List.filter_sublist.map _)
  have hsame : ∀ round ∈ (budgets.filter fun budget =>
      budget.status = .pending).map Budget.round, round = budgets.length := by
    intro round hround
    obtain ⟨budget, hbudget, rfl⟩ := List.mem_map.mp hround
    rw [List.mem_filter] at hbudget
    exact hstaged.pendingLast budget hbudget.1 (of_decide_eq_true hbudget.2)
  rw [← List.length_map Budget.round]
  rw [List.eq_replicate_of_mem hsame] at hnodup
  exact List.nodup_replicate.mp hnodup

/-- No round is pending unless one awaits approval. -/
theorem decided (hstaged : Staged status budgets) (hopen : status ≠ .canceled)
    (hstatus : status ≠ .awaitingApproval) :
    ∀ budget ∈ budgets, budget.status ≠ .pending := by
  intro budget hbudget hpending
  exact hstatus ((hstaged.pendingWhile hopen).mp ⟨budget, hbudget, hpending⟩)

/-- A change of status that no round takes part in. -/
theorem move (hstaged : Staged status budgets) (hopen : status ≠ .canceled)
    (hstatus : status ≠ .awaitingApproval) (hnext : next ≠ .awaitingApproval)
    (hreceived : next ≠ .received)
    (hdiagnosis : next = .inDiagnosis → status = .received)
    (hexecuted : next ∈ executedStates → status ∈ executedStates) :
    Staged next budgets where
  numbered := hstaged.numbered
  pendingLast := hstaged.pendingLast
  pendingWhile := fun _ => by
    constructor
    · rintro ⟨budget, hbudget, hpending⟩
      exact absurd hpending (hstaged.decided hopen hstatus budget hbudget)
    · exact fun heq => absurd heq hnext
  received := fun heq => absurd heq hreceived
  inDiagnosis := fun heq => Or.inl (hstaged.received (hdiagnosis heq))
  underway := fun heq => absurd heq hnext
  executed := fun hmem => hstaged.executed (hexecuted hmem)

/-- A canceled work order keeps its rounds as they stood. -/
theorem cancel (hstaged : Staged status budgets) : Staged .canceled budgets where
  numbered := hstaged.numbered
  pendingLast := hstaged.pendingLast
  pendingWhile := fun hopen => absurd rfl hopen
  received := nofun
  inDiagnosis := nofun
  underway := nofun
  executed := by
    intro hmem
    exact absurd hmem (by decide)

theorem roundAfter_eq_foldl (budgets : List Budget) :
    roundAfter budgets = (budgets.map Budget.round).foldl Nat.max 0 + 1 := by
  rw [roundAfter, List.foldl_map]

/-- The largest of the numbers `1 .. n` is `n`. -/
theorem foldl_max_range' (n : Nat) : (List.range' 1 n).foldl Nat.max 0 = n := by
  induction n with
  | zero => rfl
  | succ n ih =>
      rw [List.range'_concat, List.foldl_append, ih]
      simp only [List.foldl_cons, List.foldl_nil]
      change max n (1 + 1 * n) = n + 1
      omega

/-- The next round is numbered after the last. -/
theorem roundAfter_eq (hstaged : Staged status budgets) :
    roundAfter budgets = budgets.length + 1 := by
  rw [roundAfter_eq_foldl, hstaged.numbered, foldl_max_range']

/-- A new round goes to the end and is the pending one. -/
theorem append (hstaged : Staged status budgets)
    (hdecided : ∀ old ∈ budgets, old.status ≠ .pending)
    (hone : ∀ old ∈ budgets, old.round = 1 → old.status = .approved)
    (hround : budget.round = budgets.length + 1) (hpending : budget.status = .pending) :
    Staged .awaitingApproval (budgets ++ [budget]) where
  numbered := by
    rw [List.map_append, hstaged.numbered, List.length_append, List.map_singleton,
      hround, List.length_singleton, List.range'_concat]
    simp [Nat.add_comm]
  pendingLast := by
    intro old hold hstatus
    rcases List.mem_append.mp hold with hold | hold
    · exact absurd hstatus (hdecided old hold)
    · rw [List.mem_singleton.mp hold, hround, List.length_append,
        List.length_singleton]
  pendingWhile := fun _ => by
    constructor
    · exact fun _ => rfl
    · exact fun _ => ⟨budget, by simp, hpending⟩
  received := nofun
  inDiagnosis := nofun
  underway := by
    intro _ old hold hfirst hlength
    rcases List.mem_append.mp hold with hold | hold
    · exact hone old hold hfirst
    · rw [List.mem_singleton.mp hold, hround] at hfirst
      rw [List.length_append, List.length_singleton] at hlength
      omega
  executed := by
    intro hmem
    exact absurd hmem (by decide)

/-- In execution round one is approved and no round is pending. -/
theorem quoteNext (hstaged : Staged status budgets) (hstatus : status = .inExecution)
    (hround : budget.round = roundAfter budgets) (hpending : budget.status = .pending) :
    Staged .awaitingApproval (budgets ++ [budget]) := by
  obtain ⟨⟨one, hone, hfirst, happroved⟩, hdecided⟩ :=
    hstaged.executed (by rw [hstatus]; decide)
  refine hstaged.append hdecided ?_ ?_ hpending
  · intro old hold hround
    rw [List.inj_on_of_nodup_map hstaged.rounds_nodup hold hone
      (hround.trans hfirst.symm)]
    exact happroved
  · rw [hround, hstaged.roundAfter_eq]

/-- The one rejected round, quoted again. -/
theorem again (hround : budget.round = 1) (hpending : budget.status = .pending) :
    Staged .awaitingApproval [budget] where
  numbered := by simp [hround]
  pendingLast := by simp [hround]
  pendingWhile := by simp [hpending]
  received := nofun
  inDiagnosis := nofun
  underway := fun _ _ _ _ hlength => absurd rfl hlength
  executed := by
    intro hmem
    exact absurd hmem (by decide)

variable {found decided : Budget}

/-- The pending round is decided where it stands. -/
theorem decide (hstaged : Staged .awaitingApproval budgets)
    (hindex : budgets[index]? = some found) (hpending : found.status = .pending)
    (hround : decided.round = found.round)
    (hnext : (decided.status = .approved ∧ next = .inExecution) ∨
      (decided.status = .rejected ∧
        next = WorkOrder.rejectionDestination decided)) :
    Staged next (budgets.set index decided) := by
  have hlast : index + 1 = budgets.length := by
    rw [← hstaged.round_eq hindex]
    exact hstaged.pendingLast found (List.mem_of_getElem? hindex) hpending
  have hnumber : decided.round = index + 1 := hround.trans (hstaged.round_eq hindex)
  have hnone : ∀ budget ∈ budgets.set index decided, budget.status ≠ .pending := by
    intro budget hbudget hstatus
    obtain ⟨i, hi⟩ := List.mem_iff_getElem?.mp hbudget
    rw [List.getElem?_set] at hi
    split at hi
    · split at hi
      · obtain rfl := Option.some.inj hi
        rcases hnext with ⟨happroved, -⟩ | ⟨hrejected, -⟩
        · rw [happroved] at hstatus
          cases hstatus
        · rw [hrejected] at hstatus
          cases hstatus
      · cases hi
    · have hi' := hstaged.round_eq hi
      rw [hstaged.pendingLast budget (List.mem_of_getElem? hi) hstatus] at hi'
      omega
  have hfirst : decided.round = 1 → budgets.set index decided = [decided] := by
    intro heq
    have hzero : index = 0 := by omega
    subst hzero
    obtain ⟨only, rfl⟩ := List.length_eq_one_iff.mp hlast.symm
    rfl
  have hdecided : decided ∈ budgets.set index decided :=
    List.mem_set (List.getElem?_eq_some_iff.mp hindex).1 decided
  have hexecuted : next = .inExecution →
      ∃ budget ∈ budgets.set index decided,
        budget.round = 1 ∧ budget.status = .approved := by
    intro heq
    by_cases hone : decided.round = 1
    · rcases hnext with ⟨happroved, -⟩ | ⟨-, hdestination⟩
      · exact ⟨decided, hdecided, hone, happroved⟩
      · rw [hdestination, WorkOrder.rejectionDestination, if_pos hone] at heq
        cases heq
    · have hzero : 0 < budgets.length := by omega
      have hhead : budgets[0]? = some budgets[0] := List.getElem?_eq_getElem hzero
      refine ⟨budgets[0], ?_, hstaged.round_eq hhead, ?_⟩
      · refine List.mem_iff_getElem?.mpr ⟨0, ?_⟩
        rw [List.getElem?_set_ne (by omega)]
        exact hhead
      · exact hstaged.underway rfl _ (List.getElem_mem hzero)
          (hstaged.round_eq hhead) (by omega)
  have hnext' : (next = .inDiagnosis ∧ decided.round = 1 ∧
      decided.status = .rejected) ∨ next = .inExecution := by
    rcases hnext with ⟨-, heq⟩ | ⟨hrejected, heq⟩
    · exact Or.inr heq
    · rw [WorkOrder.rejectionDestination] at heq
      split at heq
      · rename_i hone
        exact Or.inl ⟨heq, hone, hrejected⟩
      · exact Or.inr heq
  refine ⟨?_, ?_, ?_, ?_, ?_, ?_, ?_⟩
  · rw [map_set_of_getElem? hindex hround, hstaged.numbered, List.length_set]
  · exact fun budget hbudget hstatus => absurd hstatus (hnone budget hbudget)
  · intro _
    constructor
    · rintro ⟨budget, hbudget, hstatus⟩
      exact absurd hstatus (hnone budget hbudget)
    · intro heq
      rcases hnext' with ⟨hcase, -⟩ | hcase <;> rw [hcase] at heq <;> cases heq
  · intro heq
    rcases hnext' with ⟨hcase, -⟩ | hcase <;> rw [hcase] at heq <;> cases heq
  · intro heq
    rcases hnext' with ⟨-, hone, hrejected⟩ | hcase
    · exact Or.inr ⟨decided, hfirst hone, hone, hrejected⟩
    · rw [hcase] at heq
      cases heq
  · intro heq
    rcases hnext' with ⟨hcase, -⟩ | hcase <;> rw [hcase] at heq <;> cases heq
  · intro hmem
    rcases hnext' with ⟨hcase, -⟩ | hcase
    · rw [hcase] at hmem
      exact absurd hmem (by decide)
    · exact ⟨hexecuted hcase, hnone⟩

end Staged

/-- Every item is a draft or on a round that was quoted, at the price the round
was quoted with, and the total of each round stands to what its items add up to as the
rules say. -/
structure Billing.Quoted (rules : BillingRules) (billing : Billing) : Prop where
  serviceRounds : ∀ item ∈ billing.serviceItems, ∀ round,
    item.budgetRound = some round → round ∈ billing.budgets.map Budget.round
  partRounds : ∀ item ∈ billing.partItems, ∀ round,
    item.budgetRound = some round → round ∈ billing.budgets.map Budget.round
  servicePrices : ∀ item ∈ billing.serviceItems,
    item.budgetRound.isSome = item.budgetedUnitPrice.isSome
  partPrices : ∀ item ∈ billing.partItems,
    item.budgetRound.isSome = item.budgetedUnitPrice.isSome
  totals : ∀ budget ∈ billing.budgets,
    rules.quoted budget.total.cents (billing.roundTotal budget.round)

/-- The structure of the rounds of a work order. -/
structure Billing.RoundsSound (rules : BillingRules) (billing : Billing) : Prop where
  staged : Staged billing.status billing.budgets
  quoted : billing.Quoted rules

namespace Billing

open WorkOrder (unmoved)

variable {rules : BillingRules} {billing before after : Billing} {round : Nat}
variable {rounds : Nat → Bool}

theorem any_eq_iff {named : Option Nat} :
    (named.any fun named => decide (named = round)) = true ↔ named = some round := by
  cases named with
  | none => simp
  | some named => simp

/-- What a round was quoted at does not depend on what was withdrawn. -/
theorem partsOn_unmoved {items items' : List WorkOrderPartItem}
    (hsame : items'.map unmoved = items.map unmoved) :
    partsOn rounds (fun item => item.plannedQuantity.units) items' =
      partsOn rounds (fun item => item.plannedQuantity.units) items := by
  have hmap : ∀ items : List WorkOrderPartItem,
      partsOn rounds (fun item => item.plannedQuantity.units) items =
        partsOn rounds (fun item => item.plannedQuantity.units)
          (items.map unmoved) := by
    intro items
    rw [partsOn, partsOn, sumWhere_map]
    rfl
  rw [hmap, hmap items, hsame]

/-- A part of the new list is a part of the old one but for its units. -/
theorem exists_unmoved {items items' : List WorkOrderPartItem}
    (hsame : items'.map unmoved = items.map unmoved) {item : WorkOrderPartItem}
    (hitem : item ∈ items') : ∃ old ∈ items, unmoved old = unmoved item := by
  have hmem : unmoved item ∈ items'.map unmoved := List.mem_map_of_mem hitem
  rw [hsame] at hmem
  exact List.mem_map.mp hmem

/-- A step that leaves the items and the amounts of the rounds alone. -/
theorem Quoted.of_same (hquoted : before.Quoted rules)
    (hservices : after.serviceItems = before.serviceItems)
    (hparts : after.partItems.map unmoved = before.partItems.map unmoved)
    (hbudgets : after.budgets.map (fun budget => (budget.round, budget.total)) =
      before.budgets.map fun budget => (budget.round, budget.total)) :
    after.Quoted rules := by
  have hrounds : after.budgets.map Budget.round = before.budgets.map Budget.round := by
    have hfst := congrArg (List.map Prod.fst) hbudgets
    rwa [List.map_map, List.map_map] at hfst
  have htotal : ∀ round, after.roundTotal round = before.roundTotal round := by
    intro round
    rw [roundTotal, roundTotal, hservices, partsOn_unmoved hparts]
  refine ⟨?_, ?_, ?_, ?_, ?_⟩
  · rw [hservices, hrounds]
    exact hquoted.serviceRounds
  · intro item hitem round hround
    obtain ⟨old, hold, heq⟩ := exists_unmoved hparts hitem
    rw [hrounds]
    exact hquoted.partRounds old hold round
      ((congrArg WorkOrderPartItem.budgetRound heq).trans hround)
  · rw [hservices]
    exact hquoted.servicePrices
  · intro item hitem
    obtain ⟨old, hold, heq⟩ := exists_unmoved hparts hitem
    have hround := congrArg WorkOrderPartItem.budgetRound heq
    have hprice := congrArg WorkOrderPartItem.budgetedUnitPrice heq
    change old.budgetRound = item.budgetRound at hround
    change old.budgetedUnitPrice = item.budgetedUnitPrice at hprice
    rw [← hround, ← hprice]
    exact hquoted.partPrices old hold
  · intro budget hbudget
    have hmem : (budget.round, budget.total) ∈
        before.budgets.map fun budget => (budget.round, budget.total) := by
      rw [← hbudgets]
      exact List.mem_map.mpr ⟨budget, hbudget, rfl⟩
    obtain ⟨old, hold, heq⟩ := List.mem_map.mp hmem
    obtain ⟨hround, hamount⟩ := Prod.mk.inj heq
    rw [htotal, ← hround, ← hamount]
    exact hquoted.totals old hold

/-- A step that adds or removes drafts only. -/
theorem Quoted.of_drafts (hquoted : before.Quoted rules)
    (hservices : ∀ item ∈ after.serviceItems, item ∈ before.serviceItems ∨
      (item.budgetRound = none ∧ item.budgetedUnitPrice = none))
    (hparts : ∀ item ∈ after.partItems, item ∈ before.partItems ∨
      (item.budgetRound = none ∧ item.budgetedUnitPrice = none))
    (htotal : ∀ round, after.roundTotal round = before.roundTotal round)
    (hbudgets : after.budgets = before.budgets) : after.Quoted rules := by
  refine ⟨?_, ?_, ?_, ?_, ?_⟩
  · intro item hitem round hround
    rw [hbudgets]
    rcases hservices item hitem with hold | ⟨hdraft, -⟩
    · exact hquoted.serviceRounds item hold round hround
    · rw [hdraft] at hround
      cases hround
  · intro item hitem round hround
    rw [hbudgets]
    rcases hparts item hitem with hold | ⟨hdraft, -⟩
    · exact hquoted.partRounds item hold round hround
    · rw [hdraft] at hround
      cases hround
  · intro item hitem
    rcases hservices item hitem with hold | ⟨hdraft, hprice⟩
    · exact hquoted.servicePrices item hold
    · rw [hdraft, hprice]
      rfl
  · intro item hitem
    rcases hparts item hitem with hold | ⟨hdraft, hprice⟩
    · exact hquoted.partPrices item hold
    · rw [hdraft, hprice]
      rfl
  · intro budget hbudget
    rw [hbudgets] at hbudget
    rw [htotal]
    exact hquoted.totals budget hbudget

theorem joinService_round (round : Nat) (item : WorkOrderServiceItem) :
    (joinService round item).budgetRound = some round ∨
      joinService round item = item := by
  rw [joinService]
  split
  · exact Or.inl rfl
  · exact Or.inr rfl

theorem joinPart_round (round : Nat) (item : WorkOrderPartItem) :
    (joinPart round item).budgetRound = some round ∨
      joinPart round item = item := by
  rw [joinPart]
  split
  · exact Or.inl rfl
  · exact Or.inr rfl

/-- An item that is on another round afterwards was not touched. -/
theorem joinService_of_ne {item : WorkOrderServiceItem} {other : Nat}
    (hne : other ≠ round)
    (hround : (joinService round item).budgetRound = some other ∨
      item.budgetRound = some other) : joinService round item = item := by
  rcases hround with hround | hround
  · rcases joinService_round round item with heq | heq
    · rw [heq] at hround
      exact absurd (Option.some.inj hround).symm hne
    · exact heq
  · rw [joinService, if_neg]
    simp [WorkOrderServiceItem.isDraft, hround, hne]

theorem joinPart_of_ne {item : WorkOrderPartItem} {other : Nat}
    (hne : other ≠ round)
    (hround : (joinPart round item).budgetRound = some other ∨
      item.budgetRound = some other) : joinPart round item = item := by
  rcases hround with hround | hround
  · rcases joinPart_round round item with heq | heq
    · rw [heq] at hround
      exact absurd (Option.some.inj hround).symm hne
    · exact heq
  · rw [joinPart, if_neg]
    simp [WorkOrderPartItem.isDraft, hround, hne]

/-- What another round was quoted at stays when items join a round. -/
theorem roundTotal_joined {other : Nat} (hne : other ≠ round) :
    (billing.joined round).roundTotal other = billing.roundTotal other := by
  have hservices : servicesOn (fun named => decide (named = other))
        (billing.serviceItems.map (joinService round)) =
      servicesOn (fun named => decide (named = other)) billing.serviceItems :=
    sumWhere_map_of_fixed _ fun item _ hitem => joinService_of_ne hne
      (hitem.imp any_eq_iff.mp any_eq_iff.mp)
  have hparts : partsOn (fun named => decide (named = other))
        (fun item => item.plannedQuantity.units)
        (billing.partItems.map (joinPart round)) =
      partsOn (fun named => decide (named = other))
        (fun item => item.plannedQuantity.units) billing.partItems :=
    sumWhere_map_of_fixed _ fun item _ hitem => joinPart_of_ne hne
      (hitem.imp any_eq_iff.mp any_eq_iff.mp)
  exact congrArg₂ (· + ·) hservices hparts

variable {budget : Budget}

/-- A step that quotes a round over the items eligible for it. -/
theorem Quoted.quote (hquoted : before.Quoted rules) (hquotes : before.Quotes rules budget)
    (hservices : after.serviceItems = (before.joined budget.round).serviceItems)
    (hparts : after.partItems = (before.joined budget.round).partItems)
    (hbudgets : ∀ other ∈ after.budgets, other = budget ∨
      (other ∈ before.budgets ∧ other.round ≠ budget.round))
    (hrounds : before.budgets.map Budget.round ⊆ after.budgets.map Budget.round)
    (hmem : budget ∈ after.budgets) : after.Quoted rules := by
  have htotal : ∀ round,
      after.roundTotal round = (before.joined budget.round).roundTotal round := by
    intro round
    rw [roundTotal, hservices, hparts]
    rfl
  refine ⟨?_, ?_, ?_, ?_, ?_⟩
  · intro item hitem named hnamed
    rw [hservices] at hitem
    obtain ⟨old, hold, rfl⟩ := List.mem_map.mp hitem
    rcases joinService_round budget.round old with heq | heq
    · rw [heq] at hnamed
      rw [← Option.some.inj hnamed]
      exact List.mem_map_of_mem hmem
    · rw [heq] at hnamed
      exact hrounds (hquoted.serviceRounds old hold named hnamed)
  · intro item hitem named hnamed
    rw [hparts] at hitem
    obtain ⟨old, hold, rfl⟩ := List.mem_map.mp hitem
    rcases joinPart_round budget.round old with heq | heq
    · rw [heq] at hnamed
      rw [← Option.some.inj hnamed]
      exact List.mem_map_of_mem hmem
    · rw [heq] at hnamed
      exact hrounds (hquoted.partRounds old hold named hnamed)
  · intro item hitem
    rw [hservices] at hitem
    obtain ⟨old, hold, rfl⟩ := List.mem_map.mp hitem
    rw [joinService]
    split
    · rfl
    · exact hquoted.servicePrices old hold
  · intro item hitem
    rw [hparts] at hitem
    obtain ⟨old, hold, rfl⟩ := List.mem_map.mp hitem
    rw [joinPart]
    split
    · rfl
    · exact hquoted.partPrices old hold
  · intro other hother
    rw [htotal]
    rcases hbudgets other hother with rfl | ⟨hold, hne⟩
    · exact hquotes.total
    · rw [roundTotal_joined hne]
      exact hquoted.totals other hold

/-- What an approved round is kept with: the budget itself, the services on it
and the parts on it but for what was withdrawn of them. -/
structure Keeps (budget : Budget) (before after : Billing) : Prop where
  stands : budget ∈ after.budgets
  services : after.serviceItems.filter
      (fun item => item.budgetRound = some budget.round) =
    before.serviceItems.filter fun item => item.budgetRound = some budget.round
  parts : (after.partItems.filter
      fun item => item.budgetRound = some budget.round).map unmoved =
    (before.partItems.filter
      fun item => item.budgetRound = some budget.round).map unmoved

theorem Keeps.trans {middle : Billing} (hfirst : Keeps budget before middle)
    (hrest : Keeps budget middle after) : Keeps budget before after :=
  ⟨hrest.stands, hrest.services.trans hfirst.services,
    hrest.parts.trans hfirst.parts⟩

theorem filter_unmoved {items items' : List WorkOrderPartItem}
    (hsame : items'.map unmoved = items.map unmoved) :
    (items'.filter fun item => item.budgetRound = some round).map unmoved =
      (items.filter fun item => item.budgetRound = some round).map unmoved := by
  have hmap : ∀ items : List WorkOrderPartItem,
      (items.filter fun item => item.budgetRound = some round).map unmoved =
        (items.map unmoved).filter fun item => item.budgetRound = some round := by
    intro items
    rw [List.filter_map]
    rfl
  rw [hmap, hmap, hsame]

/-- A step that leaves the items alone keeps every round that still stands. -/
theorem Keeps.of_same (hbudget : budget ∈ after.budgets)
    (hservices : after.serviceItems = before.serviceItems)
    (hparts : after.partItems.map unmoved = before.partItems.map unmoved) :
    Keeps budget before after :=
  ⟨hbudget, by rw [hservices], filter_unmoved hparts⟩

/-- Quoting another round keeps the round. -/
theorem Keeps.quote (hbudget : budget ∈ after.budgets) (hne : budget.round ≠ round)
    (hservices : after.serviceItems = (before.joined round).serviceItems)
    (hparts : after.partItems = (before.joined round).partItems) :
    Keeps budget before after := by
  refine ⟨hbudget, ?_, ?_⟩
  · rw [hservices]
    refine filter_map_of_fixed fun item _ hround => ?_
    exact joinService_of_ne hne (by simpa using hround)
  · rw [hparts]
    refine congrArg (List.map unmoved) (filter_map_of_fixed fun item _ hround => ?_)
    exact joinPart_of_ne hne (by simpa using hround)

section Steps

variable {index : Nat}

/-- A work order in diagnosis has round one rejected, or no round at all. -/
theorem eq_of_quoteAgain {old : Budget} (hsound : before.RoundsSound rules)
    (hstatus : before.status = .inDiagnosis)
    (hindex : before.budgets[index]? = some old) :
    index = 0 ∧ before.budgets = [old] := by
  rcases hsound.staged.inDiagnosis hstatus with hnone | ⟨only, hone, -⟩
  · rw [hnone] at hindex
    cases hindex
  · have hlength := (List.getElem?_eq_some_iff.mp hindex).1
    rw [hone, List.length_singleton] at hlength
    obtain rfl : index = 0 := by omega
    rw [hone] at hindex
    rw [hone, Option.some.inj hindex]
    exact ⟨rfl, rfl⟩

theorem nil_of_quoteFirst (hsound : before.RoundsSound rules)
    (hstatus : before.status = .inDiagnosis)
    (hnone : ∀ old ∈ before.budgets, old.round ≠ 1) : before.budgets = [] := by
  rcases hsound.staged.inDiagnosis hstatus with hnil | ⟨only, hone, hround, -⟩
  · exact hnil
  · refine absurd hround (hnone only ?_)
    rw [hone]
    exact List.mem_singleton_self only

/-- No method breaks the structure of the rounds. -/
theorem RoundsSound.step (hsound : before.RoundsSound rules)
    (hstep : BillingStep rules before after) : after.RoundsSound rules := by
  have hstaged := hsound.staged
  have hquoted := hsound.quoted
  cases hstep with
  | addService item hstatus hdraft hprice =>
      refine ⟨hstaged, hquoted.of_drafts ?_ (fun item hitem => Or.inl hitem) ?_ rfl⟩
      · intro other hother
        rcases List.mem_append.mp hother with hother | hother
        · exact Or.inl hother
        · rw [List.mem_singleton.mp hother]
          exact Or.inr ⟨hdraft, hprice⟩
      · intro round
        simp [roundTotal, servicesOn, sumWhere_cons, hdraft]
  | planPart item hstatus hdraft hprice =>
      refine ⟨hstaged, hquoted.of_drafts (fun item hitem => Or.inl hitem) ?_ ?_ rfl⟩
      · intro other hother
        rcases List.mem_append.mp hother with hother | hother
        · exact Or.inl hother
        · rw [List.mem_singleton.mp hother]
          exact Or.inr ⟨hdraft, hprice⟩
      · intro round
        simp [roundTotal, partsOn, sumWhere_cons, hdraft]
  | removeService index item hstatus hindex hdraft =>
      refine ⟨hstaged, hquoted.of_drafts ?_ (fun item hitem => Or.inl hitem) ?_ rfl⟩
      · exact fun other hother => Or.inl (List.mem_of_mem_eraseIdx hother)
      · intro round
        simp [roundTotal, servicesOn, sumWhere_eraseIdx hindex, hdraft]
  | removePart index item hstatus hindex hdraft =>
      refine ⟨hstaged, hquoted.of_drafts (fun item hitem => Or.inl hitem) ?_ ?_ rfl⟩
      · exact fun other hother => Or.inl (List.mem_of_mem_eraseIdx hother)
      · intro round
        simp [roundTotal, partsOn, sumWhere_eraseIdx hindex, hdraft]
  | startDiagnosis hstatus =>
      rw [hstatus] at hstaged
      have hmoved : Staged .inDiagnosis before.budgets :=
        hstaged.move nofun nofun nofun nofun (fun _ => rfl) (by decide)
      exact ⟨hmoved, hquoted.of_same rfl rfl rfl⟩
  | quoteFirst budget hstatus hnone hround hquotes =>
      have hnil := nil_of_quoteFirst hsound hstatus hnone
      constructor
      · change Staged _ (before.budgets ++ [budget])
        rw [hnil]
        exact Staged.again hround hquotes.status
      · refine hquoted.quote hquotes (by rw [hround]) (by rw [hround])
          ?_ ?_ ?_
        · simp [hnil]
        · simp
        · simp
  | quoteAgain index old budget hstatus hindex hold hrejected hround hquotes =>
      obtain ⟨rfl, hone⟩ := eq_of_quoteAgain hsound hstatus hindex
      constructor
      · change Staged _ (before.budgets.set 0 budget)
        rw [hone]
        exact Staged.again hround hquotes.status
      · refine hquoted.quote hquotes (by rw [hround]) (by rw [hround])
          ?_ ?_ ?_
        · simp [hone]
        · simp [hone, hold, hround]
        · simp [hone]
  | quoteNext budget hstatus hround hquotes =>
      refine ⟨hstaged.quoteNext hstatus hround hquotes.status, ?_⟩
      refine hquoted.quote hquotes rfl rfl ?_ ?_ ?_
      · intro other hother
        rcases List.mem_append.mp hother with hother | hother
        · obtain ⟨i, hi⟩ := List.mem_iff_getElem?.mp hother
          have hlength := (List.getElem?_eq_some_iff.mp hi).1
          have hnumber := hstaged.round_eq hi
          rw [hround, hstaged.roundAfter_eq]
          exact Or.inr ⟨hother, by omega⟩
        · exact Or.inl (List.mem_singleton.mp hother)
      · simp
      · simp
  | decideBudget index found decided next hstatus hindex hpending hround htotal
      hnext =>
      rw [hstatus] at hstaged
      exact ⟨hstaged.decide hindex hpending hround hnext,
        hquoted.of_same rfl rfl (map_set_of_getElem? hindex (by rw [hround, htotal]))⟩
  | withdraw index item quantity budget hstatus hindex =>
      exact ⟨hstaged, hquoted.of_same rfl (map_set_of_getElem? hindex rfl) rfl⟩
  | returnUnits index item quantity hstatus hindex =>
      exact ⟨hstaged, hquoted.of_same rfl (map_set_of_getElem? hindex rfl) rfl⟩
  | applyDiscount amount hstatus => exact ⟨hstaged, hquoted.of_same rfl rfl rfl⟩
  | applyDiscountAgain amount chargedTotal hstatus =>
      exact ⟨hstaged, hquoted.of_same rfl rfl rfl⟩
  | complete chargedTotal hstatus =>
      rw [hstatus] at hstaged
      have hmoved : Staged .completed before.budgets :=
        hstaged.move nofun nofun nofun nofun nofun (by decide)
      exact ⟨hmoved, hquoted.of_same rfl rfl rfl⟩
  | deliver hstatus =>
      rw [hstatus] at hstaged
      have hmoved : Staged .delivered before.budgets :=
        hstaged.move nofun nofun nofun nofun nofun (by decide)
      exact ⟨hmoved, hquoted.of_same rfl rfl rfl⟩
  | cancel hstatus => exact ⟨hstaged.cancel, hquoted.of_same rfl rfl rfl⟩

/-- No method touches an approved round. -/
theorem Keeps.of_step (hsound : before.RoundsSound rules)
    (hbudget : budget ∈ before.budgets) (happroved : budget.status = .approved)
    (hstep : BillingStep rules before after) : Keeps budget before after := by
  cases hstep with
  | addService item hstatus hdraft => exact ⟨hbudget, by simp [hdraft], rfl⟩
  | planPart item hstatus hdraft => exact ⟨hbudget, rfl, by simp [hdraft]⟩
  | removeService index item hstatus hindex hdraft =>
      exact ⟨hbudget, filter_eraseIdx hindex (by simp [hdraft]), rfl⟩
  | removePart index item hstatus hindex hdraft =>
      exact ⟨hbudget, rfl, congrArg (List.map unmoved)
        (filter_eraseIdx hindex (by simp [hdraft]))⟩
  | startDiagnosis => exact Keeps.of_same hbudget rfl rfl
  | quoteFirst quoted hstatus hnone =>
      rw [nil_of_quoteFirst hsound hstatus hnone] at hbudget
      cases hbudget
  | quoteAgain index old quoted hstatus hindex hold hrejected =>
      obtain ⟨rfl, hone⟩ := eq_of_quoteAgain hsound hstatus hindex
      rw [hone] at hbudget
      rw [List.mem_singleton.mp hbudget, hrejected] at happroved
      cases happroved
  | quoteNext quoted hstatus hround hquotes =>
      refine Keeps.quote (List.mem_append_left _ hbudget) ?_ rfl rfl
      obtain ⟨i, hi⟩ := List.mem_iff_getElem?.mp hbudget
      have hlength := (List.getElem?_eq_some_iff.mp hi).1
      have hnumber := hsound.staged.round_eq hi
      rw [hround, hsound.staged.roundAfter_eq]
      omega
  | decideBudget index found decided next hstatus hindex hpending =>
      refine Keeps.of_same ?_ rfl rfl
      obtain ⟨i, hi⟩ := List.mem_iff_getElem?.mp hbudget
      refine List.mem_iff_getElem?.mpr ⟨i, ?_⟩
      rw [List.getElem?_set_ne ?_]
      · exact hi
      · rintro rfl
        rw [hi] at hindex
        rw [Option.some.inj hindex, hpending] at happroved
        cases happroved
  | withdraw index item quantity _ hstatus hindex =>
      exact Keeps.of_same hbudget rfl (map_set_of_getElem? hindex rfl)
  | returnUnits index item quantity hstatus hindex =>
      exact Keeps.of_same hbudget rfl (map_set_of_getElem? hindex rfl)
  | applyDiscount => exact Keeps.of_same hbudget rfl rfl
  | applyDiscountAgain => exact Keeps.of_same hbudget rfl rfl
  | complete => exact Keeps.of_same hbudget rfl rfl
  | deliver => exact Keeps.of_same hbudget rfl rfl
  | cancel => exact Keeps.of_same hbudget rfl rfl

/-- The structure of the rounds holds along any run. -/
theorem RoundsSound.steps (hsound : before.RoundsSound rules)
    (hsteps : BillingSteps rules before after) : after.RoundsSound rules := by
  induction hsteps with
  | refl => exact hsound
  | tail _ hstep ih => exact ih.step hstep

/-- An approved round stays as it is along any run. -/
theorem Keeps.of_steps (hsound : before.RoundsSound rules)
    (hbudget : budget ∈ before.budgets) (happroved : budget.status = .approved)
    (hsteps : BillingSteps rules before after) : Keeps budget before after := by
  induction hsteps with
  | refl => exact ⟨hbudget, rfl, rfl⟩
  | tail hrun hstep ih =>
      exact ih.trans (Keeps.of_step (hsound.steps hrun) ih.stands happroved hstep)

end Steps

end Billing

end WorkOrders

end Workshop
