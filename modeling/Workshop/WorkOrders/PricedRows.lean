/-
The amounts in the rows of work orders.  A load takes the prices of its rows, whichever
rows the statements of the load saw, and a save writes the amounts of the bill.
-/
import Workshop.Shared.Numbers
import Workshop.WorkOrders.PricedBills
import Workshop.WorkOrders.SavedOperations

namespace Workshop

namespace WorkOrders

/-- The amounts in a row of `work_orders`. -/
def WorkOrderRow.amounts (row : WorkOrderRow) : List Money :=
  row.discount :: row.chargedTotal.toList

def ServiceRow.amounts (row : ServiceRow) : List Money :=
  row.unitPrice :: row.budgetedUnitPrice.toList

def PartRow.amounts (row : PartRow) : List Money :=
  row.unitPrice :: row.budgetedUnitPrice.toList

/-- The amounts in the tables of work orders. -/
def WorkOrderRows.amounts (rows : WorkOrderRows) : List Money :=
  rows.workOrders.flatMap WorkOrderRow.amounts ++
    (rows.services.flatMap ServiceRow.amounts ++
      (rows.parts.flatMap PartRow.amounts ++ rows.budgets.map fun row => row.total))

/-- The amounts a work order holds in memory, in cents. -/
def WorkOrder.amounts (workOrder : WorkOrder) : List Int :=
  (workOrder.toWorkOrderRow.amounts ++ (workOrder.serviceRows.flatMap ServiceRow.amounts ++
      (workOrder.partRows.flatMap PartRow.amounts ++
        workOrder.budgets.map Budget.total))).map Money.cents ++
    workOrder.domainEvents.flatMap WorkOrderEvent.amounts

abbrev ServiceRow.Priced (bound : Int) (row : ServiceRow) : Prop :=
  ItemPriced bound row.budgetId row.unitPrice row.budgetedUnitPrice

structure PartRow.Priced (bound : Int) (row : PartRow) : Prop where
  price : ItemPriced bound row.budgetId row.unitPrice row.budgetedUnitPrice
  withdrawn : 0 ≤ row.withdrawnQuantity

/-- No amount in a row exceeds the bound, and an item on a round is quoted at its
price. -/
structure WorkOrderRows.Priced (bound : Int) (rows : WorkOrderRows) : Prop where
  workOrders : ∀ row ∈ rows.workOrders, AllCents (· ≤ bound) row.amounts
  services : ∀ row ∈ rows.services, row.Priced bound
  parts : ∀ row ∈ rows.parts, row.Priced bound
  budgets : ∀ row ∈ rows.budgets, row.total.cents ≤ bound

section Amounts

variable {bound : Int}

theorem allCents_row {row : WorkOrderRow} :
    AllCents (· ≤ bound) row.amounts ↔ row.discount.cents ≤ bound ∧
      ∀ total ∈ row.chargedTotal, total.cents ≤ bound := by
  rw [AllCents, WorkOrderRow.amounts, List.forall_mem_cons]
  simp only [Option.mem_toList, Option.mem_def]

/-- The prices of an item that is priced. -/
theorem ItemPriced.allCents {κ : Type} {named : Option κ} {unitPrice : Money}
    {budgetedUnitPrice : Option Money}
    (h : ItemPriced bound named unitPrice budgetedUnitPrice) :
    AllCents (· ≤ bound) (unitPrice :: budgetedUnitPrice.toList) := by
  refine List.forall_mem_cons.mpr ⟨h.le, fun price hprice => ?_⟩
  rw [h.kept price (Option.mem_toList.mp hprice)]
  exact h.le

/-- A reference to a budget in place of its round. -/
theorem ItemPriced.named {κ κ' : Type} {named : Option κ} {unitPrice : Money}
    {budgetedUnitPrice : Option Money} (find : κ → Option κ')
    (h : ItemPriced bound named unitPrice budgetedUnitPrice) :
    ItemPriced bound (named.bind find) unitPrice budgetedUnitPrice where
  le := h.le
  kept := h.kept
  quoted := by
    intro hfound
    refine h.quoted ?_
    cases named with
    | none => cases hfound
    | some key => rfl

theorem WorkOrderRows.Priced.allCents {rows : WorkOrderRows}
    (h : rows.Priced bound) : AllCents (· ≤ bound) rows.amounts := by
  simp only [AllCents, WorkOrderRows.amounts, List.forall_mem_append,
    List.forall_mem_flatMap, List.forall_mem_map]
  exact ⟨h.workOrders, fun row hrow => (h.services row hrow).allCents,
    fun row hrow => (h.parts row hrow).price.allCents, h.budgets⟩

end Amounts

section Saves

variable {bound : Int} {workOrder : WorkOrder} {tables tables' : WorkOrderTables}

theorem Billing.Priced.row (hpriced : workOrder.billing.Priced bound) :
    AllCents (· ≤ bound) workOrder.toWorkOrderRow.amounts :=
  allCents_row.mpr ⟨hpriced.discount, hpriced.chargedTotal⟩

theorem Billing.Priced.serviceRows (hpriced : workOrder.billing.Priced bound) :
    ∀ row ∈ workOrder.serviceRows, row.Priced bound := by
  intro row hrow
  obtain ⟨item, hitem, rfl⟩ := List.mem_map.mp hrow
  exact (hpriced.services item hitem).named _

theorem Billing.Priced.partRows (hpriced : workOrder.billing.Priced bound) :
    ∀ row ∈ workOrder.partRows, row.Priced bound := by
  intro row hrow
  obtain ⟨item, hitem, rfl⟩ := List.mem_map.mp hrow
  have hpart := hpriced.parts item hitem
  exact ⟨hpart.price.named _, hpart.withdrawn⟩

theorem Billing.Priced.budgetRows (hpriced : workOrder.billing.Priced bound) :
    ∀ row ∈ workOrder.budgetRows, row.total.cents ≤ bound := by
  intro row hrow
  obtain ⟨budget, hbudget, rfl⟩ := List.mem_map.mp hrow
  exact hpriced.budgets budget hbudget

/-- No amount of a work order that is priced exceeds the bound. -/
theorem WorkOrder.Priced.amounts_le (hpriced : workOrder.Priced bound) :
    ∀ cents ∈ workOrder.amounts, cents ≤ bound := by
  simp only [amounts, List.forall_mem_append, List.forall_mem_flatMap,
    List.forall_mem_map]
  exact ⟨⟨hpriced.bill.row,
    fun row hrow => (hpriced.bill.serviceRows row hrow).allCents,
    fun row hrow => (hpriced.bill.partRows row hrow).price.allCents,
    hpriced.bill.budgets⟩, hpriced.notices⟩

/-- The row a save writes carries the amounts of the work order. -/
theorem priced_writeRow {workOrders : List WorkOrderRow}
    (htables : tables.Priced bound) (hpriced : workOrder.billing.Priced bound)
    (h : tables.writeRow workOrder = some workOrders) :
    ∀ row ∈ workOrders, AllCents (· ≤ bound) row.amounts := by
  intro row hrow
  rcases WorkOrderTables.writeRow_cases h with ⟨-, rfl⟩ | ⟨state, -, -, rfl⟩
  · rcases List.mem_append.mp hrow with hrow | hrow
    · exact htables.workOrders row hrow
    · rw [List.mem_singleton.mp hrow]
      exact hpriced.row
  · obtain ⟨old, hold, rfl⟩ := List.mem_map.mp hrow
    split
    · exact hpriced.row
    · exact htables.workOrders old hold

/-- A save keeps every amount within the bound. -/
theorem priced_save (htables : tables.Priced bound)
    (hpriced : workOrder.billing.Priced bound)
    (hsave : tables.save workOrder = .ok tables') : tables'.Priced bound := by
  obtain ⟨workOrders, hwrite, hrows⟩ := WorkOrderTables.save_ok hsave
  rw [hrows]
  refine ⟨priced_writeRow htables hpriced hwrite, fun row hrow => ?_,
    fun row hrow => ?_, fun row hrow => ?_⟩
  · rcases mem_writeRows hrow with hrow | hrow
    · exact htables.services row (mem_dropRows hrow)
    · exact hpriced.serviceRows row hrow
  · rcases mem_writeRows hrow with hrow | hrow
    · exact htables.parts row (mem_dropRows hrow)
    · exact hpriced.partRows row hrow
  · rcases mem_writeRows hrow with hrow | hrow
    · exact htables.budgets row hrow
    · exact hpriced.budgetRows row hrow

/-- A work order that was loaded carries the amounts of its rows, whichever commits
the four statements saw. -/
theorem priced_toDomain {row : WorkOrderRow} {services : List ServiceRow}
    {parts : List PartRow} {budgets : List BudgetRow}
    (hrow : AllCents (· ≤ bound) row.amounts)
    (hservices : ∀ service ∈ services, service.Priced bound)
    (hparts : ∀ part ∈ parts, part.Priced bound)
    (hbudgets : ∀ budget ∈ budgets, budget.total.cents ≤ bound) :
    (toDomain row services parts budgets).Priced bound := by
  rw [allCents_row] at hrow
  refine ⟨⟨fun item hitem => ?_, fun item hitem => ?_, fun budget hbudget => ?_,
    hrow.2, hrow.1⟩, fun _ hevent => absurd hevent List.not_mem_nil⟩
  · obtain ⟨service, hservice, rfl⟩ := List.mem_map.mp hitem
    exact (hservices service hservice).named _
  · obtain ⟨part, hpart, rfl⟩ := List.mem_map.mp hitem
    exact ⟨(hparts part hpart).price.named _, (hparts part hpart).withdrawn⟩
  · obtain ⟨stored, hstored, rfl⟩ := List.mem_map.mp hbudget
    exact hbudgets stored ((List.mem_insertionSort _).mp hstored)

theorem priced_findServices (htables : tables.Priced bound) (order : RowOrder ServiceRow)
    (workOrderId : WorkOrderId) :
    ∀ row ∈ tables.findServices order workOrderId, row.Priced bound := by
  intro row hrow
  exact htables.services row
    (List.mem_of_mem_filter ((order.perm _).mem_iff.mp hrow))

theorem priced_findParts (htables : tables.Priced bound) (order : RowOrder PartRow)
    (workOrderId : WorkOrderId) :
    ∀ row ∈ tables.findParts order workOrderId, row.Priced bound := by
  intro row hrow
  exact htables.parts row (List.mem_of_mem_filter ((order.perm _).mem_iff.mp hrow))

theorem priced_findBudgets (htables : tables.Priced bound) (order : RowOrder BudgetRow)
    (workOrderId : WorkOrderId) :
    ∀ row ∈ tables.findBudgets order workOrderId, row.total.cents ≤ bound := by
  intro row hrow
  exact htables.budgets row (List.mem_of_mem_filter ((order.perm _).mem_iff.mp hrow))

end Saves

end WorkOrders

end Workshop
