/-
What a work order may still withdraw of an item: the units planned on its approved
rounds that are not withdrawn.  A batch it accepts takes exactly what it asks for.
-/
import Workshop.Library.Upserts
import Workshop.WorkOrders.LoadAndSave

namespace Workshop

namespace WorkOrders

/-- The units of a part that are planned and not withdrawn. -/
def WorkOrderPartItem.remaining (item : WorkOrderPartItem) : Int :=
  max 0 (item.plannedQuantity.units - item.withdrawnQuantity)

namespace WorkOrder

/-- What `assertWithdrawable` asks of a part before it looks at its quantity. -/
def onApprovedRound (workOrder : WorkOrder) (item : WorkOrderPartItem) : Bool :=
  workOrder.budgets.any fun budget =>
    decide (item.budgetRound = some budget.round) && decide (budget.status = .approved)

/-- The units of an item on approved rounds that are not withdrawn. -/
def leftOf (workOrder : WorkOrder) (itemId : ItemId) : Int :=
  sumWhere (fun item => decide (item.inventoryItemId = itemId) &&
    workOrder.onApprovedRound item) WorkOrderPartItem.remaining workOrder.partItems

/-- What the work order may still withdraw of an item. -/
def remainingOf (workOrder : WorkOrder) (itemId : ItemId) : Int :=
  if workOrder.status = .inExecution then workOrder.leftOf itemId else 0

section Left

variable {before after left right : WorkOrder} {done : Unit} {itemId : ItemId}
variable {resolved : List (WorkOrderPartItem × Int)}

theorem onApprovedRound_iff {item : WorkOrderPartItem} :
    before.onApprovedRound item = true ↔ ∃ budget ∈ before.budgets,
      item.budgetRound = some budget.round ∧ budget.status = .approved := by
  simp only [onApprovedRound, List.any_eq_true, Bool.and_eq_true, decide_eq_true_eq]

theorem onApprovedRound_congr (hbudgets : left.budgets.Perm right.budgets)
    (item : WorkOrderPartItem) : left.onApprovedRound item = right.onApprovedRound item := by
  rw [Bool.eq_iff_iff, onApprovedRound_iff, onApprovedRound_iff]
  simp only [hbudgets.mem_iff]

theorem leftOf_nonneg : 0 ≤ before.leftOf itemId :=
  sumWhere_nonneg fun _ _ _ => le_max_left _ _

theorem remainingOf_of_inExecution (h : before.status = .inExecution) :
    before.remainingOf itemId = before.leftOf itemId := if_pos h

theorem remainingOf_of_ne (h : before.status ≠ .inExecution) :
    before.remainingOf itemId = 0 := if_neg h

theorem remainingOf_nonneg : 0 ≤ before.remainingOf itemId := by
  unfold remainingOf
  split
  · exact leftOf_nonneg
  · exact Int.le_refl 0

theorem leftOf_congr (hparts : left.partItems.Perm right.partItems)
    (hbudgets : left.budgets.Perm right.budgets) :
    left.leftOf itemId = right.leftOf itemId := by
  rw [leftOf, sumWhere_perm hparts, leftOf]
  exact sumWhere_congr (fun item _ => by rw [onApprovedRound_congr hbudgets])
    fun _ _ _ => rfl

theorem remainingOf_congr (hstatus : left.status = right.status)
    (hparts : left.partItems.Perm right.partItems)
    (hbudgets : left.budgets.Perm right.budgets) :
    left.remainingOf itemId = right.remainingOf itemId := by
  rw [remainingOf, remainingOf, hstatus, leftOf_congr hparts hbudgets]

/-- One line of a withdrawal takes what it asks for. -/
theorem changePart_leftOf (itemId : ItemId) {entry : WorkOrderPartItem × Int}
    (hresolves : Resolves before [entry]) (hround : before.onApprovedRound entry.1 = true)
    (hpositive : 0 < entry.2)
    (h : Runs (changePart entry.1.id fun item => item.withdraw entry.2) before done after) :
    ∃ items, after = { before with partItems := items } ∧
      items.map unmoved = before.partItems.map unmoved ∧
      ((∀ item ∈ before.partItems, 0 ≤ item.withdrawnQuantity) →
        ∀ item ∈ items, 0 ≤ item.withdrawnQuantity) ∧
      after.leftOf itemId = before.leftOf itemId -
        if entry.1.inventoryItemId = itemId then entry.2 else 0 := by
  obtain ⟨index, item, changed, hindex, hfound, hchanged, rfl⟩ := changePart_set h
  have hentry : unmoved item = unmoved entry.1 := by
    have hfind := hresolves entry List.mem_cons_self
    rw [hfound, Option.map_some, Option.some.injEq] at hfind
    exact hfind
  have hchange := withdraw_movesUnits item entry.2 changed hchanged
  have hplanned : item.withdrawnQuantity + entry.2 ≤ item.plannedQuantity.units := by
    simp only [WorkOrderPartItem.withdraw] at hchanged
    split at hchanged
    · cases hchanged
    · omega
  have hname := congrArg WorkOrderPartItem.inventoryItemId hentry
  change item.inventoryItemId = entry.1.inventoryItemId at hname
  have hsame := congrArg WorkOrderPartItem.budgetRound hentry
  change item.budgetRound = entry.1.budgetRound at hsame
  have hopen : before.onApprovedRound item = true := by
    rw [onApprovedRound, hsame]
    exact hround
  have hopen' : before.onApprovedRound changed = true := by
    rw [hchange]
    exact hopen
  have hname' : changed.inventoryItemId = item.inventoryItemId := by rw [hchange]
  have hleft : changed.remaining = item.remaining - entry.2 := by
    rw [hchange, one_mul]
    change max 0 (item.plannedQuantity.units - (item.withdrawnQuantity + entry.2)) =
      max 0 (item.plannedQuantity.units - item.withdrawnQuantity) - entry.2
    omega
  refine ⟨_, rfl, map_set_of_getElem? hindex (by rw [hchange]; rfl), ?_, ?_⟩
  · intro hwithdrawn other hother
    rcases List.mem_or_eq_of_mem_set hother with hold | rfl
    · exact hwithdrawn other hold
    · rw [hchange, one_mul]
      exact Int.add_nonneg (hwithdrawn item (List.mem_of_getElem? hindex)) hpositive.le
  have hset := sumWhere_set (p := fun item => decide (item.inventoryItemId = itemId) &&
    before.onApprovedRound item) (f := WorkOrderPartItem.remaining) hindex changed
  rw [hopen, hopen', hname', hleft, hname] at hset
  refine hset.trans ?_
  rw [leftOf]
  by_cases hitem : entry.1.inventoryItemId = itemId
  · simp only [hitem, decide_true, Bool.and_self, if_true]
    omega
  · simp [hitem]

/-- A withdrawal takes what its lines ask for. -/
theorem changeParts_leftOf (itemId : ItemId) :
    ∀ {before : WorkOrder}, Resolves before resolved →
      (∀ entry ∈ resolved, before.onApprovedRound entry.1 = true ∧ 0 < entry.2) →
      Runs (changeParts WorkOrderPartItem.withdraw resolved) before done after →
      ∃ items, after = { before with partItems := items } ∧
        items.map unmoved = before.partItems.map unmoved ∧
        ((∀ item ∈ before.partItems, 0 ≤ item.withdrawnQuantity) →
          ∀ item ∈ items, 0 ≤ item.withdrawnQuantity) ∧
        after.leftOf itemId = before.leftOf itemId - resolvedOf itemId resolved := by
  induction resolved with
  | nil =>
      intro before _ _ h
      simp [changeParts] at h
      subst h
      exact ⟨after.partItems, rfl, rfl, id, by simp [resolvedOf]⟩
  | cons entry resolved ih =>
      intro before hresolves hopen h
      simp only [changeParts, runs_bind] at h
      obtain ⟨_, middle, hfirst, hrest⟩ := h
      obtain ⟨hround, hpositive⟩ := hopen entry List.mem_cons_self
      obtain ⟨items, rfl, hsame, hnonneg, hleft⟩ := changePart_leftOf itemId
        (fun other hother => hresolves other (List.mem_cons.mpr
          (Or.inl (List.mem_singleton.mp hother)))) hround hpositive hfirst
      have hresolves' : Resolves { before with partItems := items } resolved :=
        fun other hother => (find?_unmoved hsame _).trans
          (hresolves other (List.mem_cons_of_mem _ hother))
      obtain ⟨items', rfl, hsame', hnonneg', hleft'⟩ := ih hresolves'
        (fun other hother => hopen other (List.mem_cons_of_mem _ hother)) hrest
      refine ⟨items', rfl, hsame'.trans hsame, hnonneg' ∘ hnonneg, ?_⟩
      rw [hleft', hleft, resolvedOf, resolvedOf, sumWhere_cons, sub_sub]
      simp only [decide_eq_true_eq]

theorem onApprovedRound_of_withdrawable {item : WorkOrderPartItem} {quantity : Int}
    (h : before.assertWithdrawable item quantity = .ok ()) :
    before.onApprovedRound item = true := by
  unfold assertWithdrawable at h
  split at h
  · cases h
  · rename_i round hround
    split at h
    · cases h
    · rename_i budget hfind
      split at h
      · cases h
      · rename_i happroved
        have hsame : budget.round = round := by simpa using List.find?_some hfind
        exact onApprovedRound_iff.mpr ⟨budget, List.mem_of_find?_eq_some hfind,
          hsame ▸ hround, not_not.mp happroved⟩

/-- What a withdrawal that the work order accepts leaves of it. -/
theorem withdrawParts_leaves (itemId : ItemId) {input : WithdrawPartsInput} {lines : List ResolvedBatchLine}
    (hpositive : ∀ line ∈ input.lines, 0 < line.quantity)
    (h : Runs (withdrawParts input) before lines after) :
    before.status = .inExecution ∧
      after.toWorkOrderRow = { before.toWorkOrderRow with updatedAt := input.now } ∧
      after.serviceItems = before.serviceItems ∧ after.budgets = before.budgets ∧
      after.partItems.map WorkOrderPartItem.id =
        before.partItems.map WorkOrderPartItem.id ∧
      ((∀ item ∈ before.partItems, 0 ≤ item.withdrawnQuantity) →
        ∀ item ∈ after.partItems, 0 ≤ item.withdrawnQuantity) ∧
      after.leftOf itemId = before.leftOf itemId - requestedOf itemId lines := by
  simp [withdrawParts, recordFact] at h
  obtain ⟨hstatus, -, resolved, hresolved, _, middle, hchange, rfl, rfl⟩ := h
  obtain ⟨hresolves, hlines⟩ := resolveLines_ok hresolved
  obtain ⟨items, rfl, hsame, hnonneg, hleft⟩ := changeParts_leftOf itemId hresolves
    (fun entry hentry => by
      obtain ⟨line, hline, hquantity, hcheck⟩ := exists_left_of_forall₂ hlines hentry
      exact ⟨onApprovedRound_of_withdrawable hcheck, hquantity ▸ hpositive line hline⟩) hchange
  have hids := congrArg (List.map WorkOrderPartItem.id) hsame
  rw [List.map_map, List.map_map] at hids
  refine ⟨hstatus, rfl, rfl, rfl, hids, hnonneg, ?_⟩
  rw [requestedOf_toResolvedBatchLines]
  exact hleft

/-- A withdrawal takes what it asks inventory for off what remains. -/
theorem withdrawParts_remainingOf {input : WithdrawPartsInput}
    {lines : List ResolvedBatchLine}
    (hpositive : ∀ line ∈ input.lines, 0 < line.quantity)
    (h : Runs (withdrawParts input) before lines after) :
    after.remainingOf itemId = before.remainingOf itemId - requestedOf itemId lines := by
  obtain ⟨hstatus, hrow, -, -, -, -, hleft⟩ := withdrawParts_leaves itemId hpositive h
  have hafter : after.status = .inExecution :=
    (congrArg WorkOrderRow.status hrow).trans hstatus
  rw [remainingOf_of_inExecution hafter, remainingOf_of_inExecution hstatus, hleft]

theorem exists_findAt {α : Type} {p : α → Bool} {l : List α} {a : α}
    (h : l.find? p = some a) : ∃ index, findAt p l = some (index, a) := by
  rw [← List.zipIdx_map_fst 0 l, List.find?_map, Option.map_eq_some_iff] at h
  obtain ⟨entry, hentry, rfl⟩ := h
  exact ⟨entry.2, Option.map_eq_some_iff.mpr ⟨entry, hentry, rfl⟩⟩

/-- A work order in execution accepts a withdrawal of all that is left of one part on an
approved round. -/
theorem withdrawParts_accepts {item : WorkOrderPartItem} {input : WithdrawPartsInput}
    (hstatus : before.status = .inExecution)
    (hids : (before.partItems.map WorkOrderPartItem.id).Nodup)
    (hrounds : (before.budgets.map Budget.round).Nodup) (hitem : item ∈ before.partItems)
    (hround : before.onApprovedRound item = true)
    (hlines : input.lines = [⟨item.id, item.remaining⟩]) (hleft : 0 < item.remaining) :
    ∃ after, Runs (withdrawParts input) before
      [⟨item.inventoryItemId, item.remaining⟩] after := by
  have hremaining : item.withdrawnQuantity + item.remaining = item.plannedQuantity.units := by
    unfold WorkOrderPartItem.remaining at hleft ⊢
    omega
  obtain ⟨budget, hbudget, hsame, happroved⟩ := onApprovedRound_iff.mp hround
  have hfind : (before.budgets.find? fun other => other.round = budget.round) = some budget :=
    find?_key_of_mem hrounds hbudget
  have hcheck : before.assertWithdrawable item item.remaining = .ok () := by
    rw [assertWithdrawable, hsame]
    dsimp only
    rw [hfind]
    dsimp only
    rw [if_neg (not_not.mpr happroved), if_neg (by omega)]
  have hfound : (before.partItems.find? fun other => other.id = item.id) = some item :=
    find?_key_of_mem hids hitem
  have hresolved : before.resolveLines before.assertWithdrawable input.lines =
      .ok [(item, item.remaining)] := by
    rw [hlines, resolveLines, List.mapM_cons, List.mapM_nil]
    dsimp only
    rw [hfound]
    dsimp only
    rw [hcheck]
    rfl
  obtain ⟨index, hindex⟩ : ∃ index,
      findAt (fun other => other.id = item.id) before.partItems = some (index, item) :=
    exists_findAt hfound
  obtain ⟨changed, hwithdraw⟩ : ∃ changed, item.withdraw item.remaining = .ok changed :=
    ⟨_, if_neg (by omega)⟩
  have hchange : Runs (changeParts WorkOrderPartItem.withdraw [(item, item.remaining)]) before
      () { before with partItems := before.partItems.set index changed } := by
    simp [changeParts, changePart, hindex, hwithdraw]
  have hnodup : assertNoDuplicateLines input.lines = .ok () := by
    rw [hlines]
    exact if_pos (List.nodup_singleton _)
  simp [withdrawParts, recordFact, hstatus, hnodup, hresolved]
  exact ⟨⟨_, _, hchange⟩, rfl⟩

end Left

end WorkOrder

end WorkOrders

end Workshop
