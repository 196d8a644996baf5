/-
Exact amounts.  A `Number` keeps an amount up to `Number.MAX_SAFE_INTEGER`; a run all
of whose statements are given and add up no more than that computes, stores and reads
back every amount exactly.  The validation of the requests alone does not ensure it.
-/
import Workshop.Inventory.ItemPrices
import Workshop.WorkOrders.PricedRows

namespace Workshop

namespace WorkOrders

open Inventory

/-- The amounts a plain use case is given. -/
def WorkOrderChange.amounts : WorkOrderChange → List Int
  | .addRequestedService service _ => [service.price.cents]
  | .planPart part _ => [part.unitPrice.cents]
  | .applyDiscount amount _ _ => [amount.cents]
  | _ => []

def WorkOrderRequest.amounts : WorkOrderRequest → List Int
  | .plain change => change.amounts
  | _ => []

def CreateCommand.amounts (command : CreateCommand) : List Int :=
  command.services.map (fun service => service.price.cents) ++
    command.parts.map fun part => part.unitPrice.cents

/-- The amounts a statement is given. -/
def SagaInput.amounts : SagaInput → List Int
  | .create command _ => command.amounts
  | .request _ requested => requested.amounts
  | .shelf stockInput => stockInput.amounts
  | _ => []

/-- The method the next statement calls, and the work order it calls it on. -/
def nextCall (db : WorkshopDb) :
    SagaPlace → SagaInput → Option (WorkOrderOperation × WorkOrder)
  | .loadingBudgets request row services parts, .proceed surroundings =>
      some (request.operation db.nextId surroundings.now,
        toDomain row services parts
          (db.tables.findBudgets surroundings.budgetOrder row.id))
  | _, _ => none

/-- The terms the next statement adds up. -/
def stepTerms (db : WorkshopDb) (place : SagaPlace) (input : SagaInput) : List Int :=
  (nextCall db place input).elim [] fun call => call.1.terms call.2

/-- What the items it adds up are worth. -/
def stepWorth (db : WorkshopDb) (place : SagaPlace) (input : SagaInput) : Int :=
  (nextCall db place input).elim 0 fun call => call.1.worth call.2

/-- Every amount that comes up in a statement: those it is given, and those it
computes as `Number`s. -/
def stepAmounts (db : WorkshopDb) (place : SagaPlace) (input : SagaInput) : List Int :=
  input.amounts ++ amountsUp toNumber 0 (stepTerms db place input)

/-- A statement that is given no more than the bound, and whose items are worth no
more. -/
def StepWithin (bound : Int) (db : WorkshopDb) (place : SagaPlace)
    (input : SagaInput) : Prop :=
  (∀ cents ∈ input.amounts, cents ≤ bound) ∧ stepWorth db place input ≤ bound

instance (bound : Int) (db : WorkshopDb) (place : SagaPlace) (input : SagaInput) :
    Decidable (StepWithin bound db place input) :=
  inferInstanceAs (Decidable (_ ∧ _))

/-- The amounts the tables hold. -/
def WorkshopDb.amounts (db : WorkshopDb) : List Money :=
  db.tables.amounts ++ db.inventory.amounts

def Edit.amounts (edit : Edit) : List Int :=
  edit.loaded.amounts ++ edit.changed.amounts

/-- The amounts a program holds between two statements. -/
def SagaPlace.amounts : SagaPlace → List Int
  | .loadingServices request row => request.amounts ++ row.amounts.map Money.cents
  | .loadingParts request row services =>
      request.amounts ++
        (row.amounts ++ services.flatMap ServiceRow.amounts).map Money.cents
  | .loadingBudgets request row services parts =>
      request.amounts ++
        (row.amounts ++ (services.flatMap ServiceRow.amounts ++
          parts.flatMap PartRow.amounts)).map Money.cents
  | .creating workOrder => workOrder.amounts
  | .saving edit _ => edit.amounts
  | .arming withdrawal | .consuming withdrawal | .committing withdrawal =>
      withdrawal.edit.amounts
  | .shelf item => item.amounts.map Money.cents
  | _ => []

/-- No amount in the tables exceeds the bound. -/
structure WorkshopDb.Priced (bound : Int) (db : WorkshopDb) : Prop where
  tables : db.tables.Priced bound
  inventory : AllCents (· ≤ bound) db.inventory.amounts

structure Edit.Priced (bound : Int) (edit : Edit) : Prop where
  loaded : edit.loaded.Priced bound
  changed : edit.changed.Priced bound

/-- No amount a program holds exceeds the bound, and the items it holds are quoted at
their prices. -/
def SagaPlace.Priced (bound : Int) : SagaPlace → Prop
  | .loadingServices request row =>
      (∀ cents ∈ request.amounts, cents ≤ bound) ∧ AllCents (· ≤ bound) row.amounts
  | .loadingParts request row services =>
      (∀ cents ∈ request.amounts, cents ≤ bound) ∧
        AllCents (· ≤ bound) row.amounts ∧ ∀ service ∈ services, service.Priced bound
  | .loadingBudgets request row services parts =>
      (∀ cents ∈ request.amounts, cents ≤ bound) ∧
        AllCents (· ≤ bound) row.amounts ∧
        (∀ service ∈ services, service.Priced bound) ∧
        ∀ part ∈ parts, part.Priced bound
  | .creating workOrder => workOrder.Priced bound
  | .saving edit _ => edit.Priced bound
  | .arming withdrawal | .consuming withdrawal | .committing withdrawal =>
      withdrawal.edit.Priced bound
  | .shelf item => AllCents (· ≤ bound) item.amounts
  | _ => True

section Holding

variable {bound : Int} {db : WorkshopDb} {place : SagaPlace}

theorem WorkshopDb.Priced.amounts_le (hpriced : db.Priced bound) :
    AllCents (· ≤ bound) db.amounts :=
  List.forall_mem_append.mpr ⟨hpriced.tables.allCents, hpriced.inventory⟩

theorem Edit.Priced.amounts_le {edit : Edit} (hpriced : edit.Priced bound) :
    ∀ cents ∈ edit.amounts, cents ≤ bound :=
  List.forall_mem_append.mpr ⟨hpriced.loaded.amounts_le, hpriced.changed.amounts_le⟩

theorem SagaPlace.Priced.amounts_le (hpriced : place.Priced bound) :
    ∀ cents ∈ place.amounts, cents ≤ bound := by
  cases place with
  | loadingServices request row =>
      obtain ⟨hrequest, hrow⟩ := hpriced
      exact List.forall_mem_append.mpr ⟨hrequest, List.forall_mem_map.mpr hrow⟩
  | loadingParts request row services =>
      obtain ⟨hrequest, hrow, hservices⟩ := hpriced
      simp only [amounts, List.forall_mem_append, List.forall_mem_map,
        List.forall_mem_flatMap]
      exact ⟨hrequest, hrow, fun row hrow => (hservices row hrow).allCents⟩
  | loadingBudgets request row services parts =>
      obtain ⟨hrequest, hrow, hservices, hparts⟩ := hpriced
      simp only [amounts, List.forall_mem_append, List.forall_mem_map,
        List.forall_mem_flatMap]
      exact ⟨hrequest, hrow, fun row hrow => (hservices row hrow).allCents,
        fun row hrow => (hparts row hrow).price.allCents⟩
  | creating workOrder => exact WorkOrder.Priced.amounts_le hpriced
  | saving edit step => exact Edit.Priced.amounts_le hpriced
  | arming withdrawal => exact Edit.Priced.amounts_le hpriced
  | consuming withdrawal => exact Edit.Priced.amounts_le hpriced
  | committing withdrawal => exact Edit.Priced.amounts_le hpriced
  | shelf item => exact List.forall_mem_map.mpr hpriced
  | _ => exact fun _ hcents => absurd hcents List.not_mem_nil

end Holding

section Requests

variable {bound : Int} {nextId nextId' : Uuid} {now : Timestamp}
variable {workOrder after : WorkOrder}

theorem WorkOrderRequest.operation_amounts (request : WorkOrderRequest) :
    (request.operation nextId now).amounts = request.amounts := by
  cases request with
  | plain change => cases change <;> rfl
  | _ => rfl

/-- The boundary takes positive quantities only. -/
theorem WorkOrderRequest.operation_positive (request : WorkOrderRequest) :
    ∀ quantity ∈ (request.operation nextId now).quantities, 0 < quantity := by
  have hlines : ∀ command : BatchCommand,
      ∀ quantity ∈ (command.toInput now).lines.map BatchLine.quantity, 0 < quantity :=
    fun command => List.forall_mem_map.mpr (toInput_positive command)
  cases request with
  | withdrawParts command => exact hlines command
  | returnParts command => exact hlines command
  | plain change =>
      cases change <;> exact fun _ hquantity => absurd hquantity List.not_mem_nil
  | _ => exact fun _ hquantity => absurd hquantity List.not_mem_nil

/-- A request that goes on holds amounts within the bound. -/
theorem priced_prepare {request : WorkOrderRequest} {cancelsInExecution : Bool}
    (hpriced : workOrder.Priced bound) (hgiven : ∀ cents ∈ request.amounts, cents ≤ bound)
    (hsafe : bound ≤ maxExactCents)
    (hworth : (request.operation nextId now).worth workOrder ≤ bound) :
    (request.prepare workOrder nextId now cancelsInExecution).place.Priced bound := by
  have hedit : ∀ edit, (request.prepare workOrder nextId now
      cancelsInExecution).place.edit = some edit → edit.Priced bound := by
    intro edit hedit
    obtain ⟨hloaded, hruns⟩ := prepare_edit hedit
    refine ⟨hloaded ▸ hpriced,
      hpriced.runs _ ?_ hsafe hworth request.operation_positive hruns⟩
    rw [request.operation_amounts]
    exact hgiven
  cases hprepared : request.prepare workOrder nextId now cancelsInExecution with
  | refused => trivial
  | withdraw withdrawal => exact hedit withdrawal.edit (by rw [hprepared]; rfl)
  | save edit step => exact hedit edit (by rw [hprepared]; rfl)

theorem addServices_priced (hbound : 0 ≤ bound) (hsafe : bound ≤ maxExactCents)
    {actorUserId : UserId} {services : List ServiceRef} :
    ∀ {nextId : Uuid} {workOrder : WorkOrder}, workOrder.Priced bound →
      (∀ service ∈ services, service.price.cents ≤ bound) →
      Runs (addServices actorUserId now services nextId) workOrder nextId' after →
      after.Priced bound := by
  induction services with
  | nil =>
      intro nextId workOrder hpriced _ h
      simp only [addServices, runs_pure] at h
      rw [h.2]
      exact hpriced
  | cons service services ih =>
      intro nextId workOrder hpriced hprices h
      simp only [addServices, runs_bind] at h
      obtain ⟨_, middle, hadd, hrest⟩ := h
      rw [List.forall_mem_cons] at hprices
      have hmiddle : middle.Priced bound :=
        hpriced.runs (.addService _) (List.forall_mem_singleton.mpr hprices.1) hsafe hbound
          (fun _ hquantity => absurd hquantity List.not_mem_nil) hadd
      exact ih hmiddle hprices.2 hrest

theorem planParts_priced (hbound : 0 ≤ bound) (hsafe : bound ≤ maxExactCents)
    {actorUserId : UserId} {parts : List OpeningPart} :
    ∀ {nextId : Uuid} {workOrder : WorkOrder}, workOrder.Priced bound →
      (∀ part ∈ parts, part.unitPrice.cents ≤ bound) →
      Runs (planParts actorUserId now parts nextId) workOrder nextId' after →
      after.Priced bound := by
  induction parts with
  | nil =>
      intro nextId workOrder hpriced _ h
      simp only [planParts, runs_pure] at h
      rw [h.2]
      exact hpriced
  | cons part parts ih =>
      intro nextId workOrder hpriced hprices h
      simp only [planParts, runs_bind] at h
      obtain ⟨_, middle, hplan, hrest⟩ := h
      rw [List.forall_mem_cons] at hprices
      have hmiddle : middle.Priced bound :=
        hpriced.runs (.planPart _) (List.forall_mem_singleton.mpr hprices.1) hsafe hbound
          (fun _ hquantity => absurd hquantity List.not_mem_nil) hplan
      exact ih hmiddle hprices.2 hrest

/-- A work order that is being created carries the prices of its request. -/
theorem CreateCommand.openWith_priced {command : CreateCommand} (hbound : 0 ≤ bound)
    (hsafe : bound ≤ maxExactCents) (hgiven : ∀ cents ∈ command.amounts, cents ≤ bound)
    (h : command.openWith nextId now = .ok (nextId', workOrder)) :
    workOrder.Priced bound := by
  obtain ⟨hservices, hparts⟩ := List.forall_mem_append.mp hgiven
  rw [List.forall_mem_map] at hservices hparts
  simp only [CreateCommand.openWith] at h
  split at h
  · rename_i last opened hruns
    cases h
    obtain ⟨middle, state, hadds, hplans⟩ := runs_bind.mp hruns
    have hstate := addServices_priced hbound hsafe (WorkOrder.priced_open hbound _)
      hservices hadds
    exact planParts_priced hbound hsafe hstate hparts hplans
  · cases h

end Requests

section Steps

variable {settings : OutboxSettings} {db : WorkshopDb} {place : SagaPlace}
variable {input : SagaInput} {out : SagaOutcome} {bound : Int}

theorem priced_nextApplication (queue : List ClaimedStockStep) :
    (nextApplication queue).Priced bound := by
  cases queue <;> trivial

/-- A program is about to save an item for a request inventory serves, and holds what
the request made. -/
theorem shelf_of_exec {item : InventoryItem}
    (hexec : sagaExec settings db .idle input = some out) (hplace : out.place = .shelf item) :
    ∃ stockInput stockOut, input = .shelf stockInput ∧
      stockExec db.inventory .idle stockInput = some stockOut ∧
      stockOut.place = .saving item := by
  cases input with
  | create command now =>
      simp only [sagaExec] at hexec
      split at hexec
      · cases hexec
        cases hplace
      · cases hexec
        cases hplace
  | request number request =>
      simp only [sagaExec] at hexec
      split at hexec
      · cases hexec
        cases hplace
      · cases hexec
        cases hplace
  | shelf stockInput =>
      simp only [sagaExec] at hexec
      split at hexec
      · obtain ⟨stockOut, hstock, rfl⟩ := Option.map_eq_some_iff.mp hexec
        refine ⟨stockInput, stockOut, rfl, hstock, ?_⟩
        simp only [shelfOutcome] at hplace
        split at hplace
        · rename_i saved hsaving
          cases hplace
          exact hsaving
        · cases hplace
      · cases hexec
  | proceed surroundings => cases hexec
  | _ =>
      cases hexec
      cases hplace

/-- What a program holds after a statement within the bound is within the bound. -/
theorem priced_place (hbound : 0 ≤ bound) (hsafe : bound ≤ maxExactCents)
    (hdb : db.Priced bound)
    (hplace : place.Priced bound) (hstep : StepWithin bound db place input)
    (hexec : sagaExec settings db place input = some out) : out.place.Priced bound := by
  have hmove := sagaMove_of_exec hexec
  cases hmove with
  | errandFails input errand error hplace' => cases errand <;> trivial
  | openNew command now nextId workOrder hopen =>
      exact CreateCommand.openWith_priced hbound hsafe hstep.1 hopen
  | readRow number request row hrow =>
      exact ⟨hstep.1, hdb.tables.workOrders row hrow⟩
  | readServices surroundings request row =>
      exact ⟨hplace.1, hplace.2, priced_findServices hdb.tables _ _⟩
  | readParts surroundings request row services =>
      obtain ⟨hrequest, hrow, hservices⟩ := hplace
      exact ⟨hrequest, hrow, hservices, priced_findParts hdb.tables _ _⟩
  | readBudgets surroundings request row services parts =>
      obtain ⟨hrequest, hrow, hservices, hparts⟩ := hplace
      have hloaded := priced_toDomain hrow hservices hparts
        (priced_findBudgets hdb.tables surroundings.budgetOrder row.id)
      exact priced_prepare hloaded hrequest hsafe hstep.2
  | shelfRead input nextId hle next hnext =>
      cases hsaving : shelfPlace next with
      | shelf item =>
          obtain ⟨stockInput, stockOut, rfl, hstock, hitem⟩ :=
            shelf_of_exec hexec hsaving
          exact allCents_stockExec hdb.inventory hstep.1 hstock hitem
      | _ => cases next <;> cases hsaving <;> trivial
  | arm surroundings withdrawal dueAt steps hinsert => exact hplace
  | consume surroundings withdrawal inventory hconsume => exact hplace
  | complete surroundings errand =>
      cases errand with
      | compensation undo => trivial
      | application step queue => exact priced_nextApplication queue
  | claim surroundings operationIds => exact priced_nextApplication _
  | recordError surroundings step queue error => exact priced_nextApplication queue
  | _ => trivial

/-- What a move does to the tables of inventory keeps every price within the bound. -/
theorem priced_stock {next : SagaPlace} {effects : List SagaEffect}
    {inventory inventory' : InventoryDb} (hdb : AllCents (· ≤ bound) inventory.amounts)
    (hplace : place.Priced bound)
    (hchange : StockChange inventory place next effects inventory') :
    AllCents (· ≤ bound) inventory'.amounts := by
  cases hchange with
  | quiet nextId hle hconsumed happlied => exact hdb
  | save item inventory' hsave => exact allCents_save hdb hplace hsave
  | consume withdrawal now inventory' hconsume =>
      exact allCents_consumeStockBatch hdb hconsume
  | undo errand named now inventory' hundo => exact allCents_undoConsumption hdb hundo
  | confirm step queue operationId now hkind hoperation =>
      refine allCents_mapMovements hdb fun row => ?_
      split <;> rfl
  | restore step queue order now inventory' hkind hrestore =>
      exact allCents_restoreStockBatch hdb hrestore
  | close step queue closure candidates now =>
      refine allCents_mapMovements hdb fun row => ?_
      split <;> rfl

/-- What a move does to the work orders keeps every amount within the bound. -/
theorem priced_tables {effects : List SagaEffect} {tables tables' : WorkOrderTables}
    (htables : tables.Priced bound) (hplace : place.Priced bound)
    (hchange : TablesChange tables place effects tables') : tables'.Priced bound := by
  cases hchange with
  | same hsaved hcreated => exact htables
  | create workOrder tables' hsave =>
      exact priced_save htables (WorkOrder.Priced.bill hplace) hsave
  | save edit step tables' hsave =>
      exact priced_save htables (Edit.Priced.changed hplace).bill hsave
  | commit withdrawal tables' hsave =>
      exact priced_save htables (Edit.Priced.changed hplace).bill hsave

/-- What the tables hold after a statement is within the bound. -/
theorem priced_store (hdb : db.Priced bound) (hplace : place.Priced bound)
    (hexec : sagaExec settings db place input = some out) : out.store.Priced bound :=
  have hmove := sagaMove_of_exec hexec
  ⟨priced_tables hdb.tables hplace hmove.tables,
    priced_stock hdb.inventory hplace hmove.stock⟩

end Steps

section Runs

variable {settings : OutboxSettings} {config : Config WorkshopDb SagaPlace}
variable {log : List SagaEffect} {bound : Int}

theorem priced_emptyWorkshop : emptyWorkshop.store.Priced bound where
  tables := ⟨fun _ h => absurd h List.not_mem_nil, fun _ h => absurd h List.not_mem_nil,
    fun _ h => absurd h List.not_mem_nil, fun _ h => absurd h List.not_mem_nil⟩
  inventory := fun _ h => absurd h List.not_mem_nil

/-- In every run of statements within the bound, every amount stays within it. -/
theorem priced_of_reaches (hbound : 0 ≤ bound) (hsafe : bound ≤ maxExactCents)
    (h : ReachesBy (sagaExec settings) (StepWithin bound) emptyWorkshop config log) :
    config.store.Priced bound ∧ ∀ pid, (config.places pid).Priced bound := by
  refine ReachesBy.invariant_of_places (G := fun db _ => db.Priced bound)
    (L := fun _ _ place => place.Priced bound) priced_emptyWorkshop
    (fun _ => trivial) ?_ ?_ h
  · intro config log pid input out _ hdb hplaces hstep hexec
    exact ⟨priced_store hdb (hplaces pid) hexec,
      priced_place hbound hsafe hdb (hplaces pid) hstep hexec⟩
  · intro config log pid input out _ _ hplaces _ _ other _
    exact hplaces other

end Runs

section Sums

variable {bound : Int} {operation : WorkOrderOperation} {workOrder : WorkOrder}

theorem WorkOrderOperation.sum_terms (hpriced : workOrder.billing.Priced bound) :
    (operation.terms workOrder).sum = operation.worth workOrder := by
  unfold WorkOrderOperation.terms WorkOrderOperation.worth
  cases operation.adds workOrder with
  | none => rfl
  | some adds => exact WorkOrder.sum_termsOf hpriced adds

theorem WorkOrderOperation.terms_nonneg (hpriced : workOrder.billing.Priced bound) :
    ∀ term ∈ operation.terms workOrder, 0 ≤ term := by
  unfold WorkOrderOperation.terms
  cases operation.adds workOrder with
  | none => exact fun _ hterm => absurd hterm List.not_mem_nil
  | some adds => exact WorkOrder.termsOf_nonneg hpriced adds

variable {db : WorkshopDb} {place : SagaPlace}

/-- What the next statement adds up: amounts, which come to what its items are
worth. -/
theorem stepTerms_spec (hdb : db.Priced bound) (hplace : place.Priced bound)
    (input : SagaInput) :
    (stepTerms db place input).sum = stepWorth db place input ∧
      ∀ term ∈ stepTerms db place input, 0 ≤ term := by
  unfold stepTerms stepWorth
  cases hcall : nextCall db place input with
  | none => exact ⟨rfl, fun _ hterm => absurd hterm List.not_mem_nil⟩
  | some call =>
      have hpriced : call.2.billing.Priced bound := by
        unfold nextCall at hcall
        split at hcall
        · rename_i request row services parts surroundings
          cases hcall
          obtain ⟨-, hrow, hservices, hparts⟩ := hplace
          exact (priced_toDomain hrow hservices hparts
            (priced_findBudgets hdb.tables surroundings.budgetOrder row.id)).bill
        · cases hcall
      exact ⟨call.1.sum_terms hpriced, call.1.terms_nonneg hpriced⟩

end Sums

/-- Every amount that is stored or held is one that a `Number` holds exactly, and every
stored one is read back as it is. -/
structure MoneyExact (config : Config WorkshopDb SagaPlace) : Prop where
  stored : ∀ amount ∈ config.store.amounts, amount.cents ≤ maxExactCents
  readBack : ∀ amount ∈ config.store.amounts,
    readNumber amount.toText = some amount.cents
  held : ∀ pid, ∀ cents ∈ (config.places pid).amounts, cents ≤ maxExactCents

/-- What a statement computes as `Number`s is what integers come to. -/
def StepExact (db : WorkshopDb) (place : SagaPlace) (input : SagaInput) : Prop :=
  amountsUp toNumber 0 (stepTerms db place input) =
      amountsUp id 0 (stepTerms db place input) ∧
    roundedTotal toNumber 0 (stepTerms db place input) = stepWorth db place input

/-- The request boundary: an amount is a whole number that its column stores. -/
def Validated (_ : WorkshopDb) (_ : SagaPlace) (input : SagaInput) : Prop :=
  ∀ cents ∈ input.amounts, 0 ≤ cents ∧ cents ≤ 2 ^ 63 - 1

instance (db : WorkshopDb) (place : SagaPlace) (input : SagaInput) :
    Decidable (Validated db place input) :=
  inferInstanceAs (Decidable (∀ cents ∈ input.amounts, _))

section Exactness

variable {settings : OutboxSettings} {config : Config WorkshopDb SagaPlace}
variable {log : List SagaEffect}

/-- In every run whose statements are given, and add up, no more than a `Number` holds
exactly, money stays exact; and such are precisely the statements in which nothing
larger comes up. -/
theorem money_stays_exact
    (h : ReachesBy (sagaExec settings) (StepWithin maxExactCents) emptyWorkshop
      config log) :
    MoneyExact config ∧ ∀ pid input,
      (StepWithin maxExactCents config.store (config.places pid) input ↔
        ∀ amount ∈ stepAmounts config.store (config.places pid) input,
          amount ≤ maxExactCents) ∧
      (StepWithin maxExactCents config.store (config.places pid) input →
        StepExact config.store (config.places pid) input) := by
  have hzero := maxExactCents_nonneg
  obtain ⟨hstore, hplaces⟩ := priced_of_reaches hzero (Int.le_refl _) h
  have hstored := hstore.amounts_le
  refine ⟨⟨hstored, fun amount hamount => readNumber_toText (hstored amount hamount),
    fun pid => (hplaces pid).amounts_le⟩, fun pid input => ?_⟩
  obtain ⟨hsum, hnonneg⟩ := stepTerms_spec hstore (hplaces pid) input
  have hcomputed := amountsUp_le_iff toNumber_exactUpTo hnonneg (Int.le_refl 0) hzero
  have hexact := @amountsUp_exact _ _ _ toNumber_exactUpTo hnonneg 0 (Int.le_refl 0)
  rw [Int.zero_add, hsum] at hcomputed hexact
  constructor
  · rw [StepWithin, stepAmounts, List.forall_mem_append, hcomputed]
  · exact fun hstep => hexact hstep.2

end Exactness

namespace ExactMoneyWitness

open SagaWitness (settings proceed plainRequest stocked opened part)

/-- A part and a service are quoted, the round is approved and the work completed. -/
def charged : List (Nat × SagaInput) :=
  stocked ++ opened [part] ++
    plainRequest 0 4 (.addRequestedService ⟨31, "Oil change", ⟨700, by decide⟩⟩ 7) ++
    plainRequest 0 5 (.startDiagnosis 7) ++ plainRequest 0 6 (.completeDiagnosis 7) ++
    plainRequest 0 7 (.approveBudget 7 none) ++
    plainRequest 0 8 (.completeWorkOrder 7)

def afterCharged : Config WorkshopDb SagaPlace × List SagaEffect :=
  endOfRun (sagaExec settings) emptyWorkshop charged (by decide +kernel)

/-- The check of a statement, for a run that is computed. -/
def within (db : WorkshopDb) (place : SagaPlace) (input : SagaInput) : Bool :=
  decide (StepWithin maxExactCents db place input)

theorem money_stays_exact_charged :
    afterCharged.1.store.tables.budgets.map (fun row => row.total.cents) = [5700] ∧
      MoneyExact afterCharged.1 :=
  ⟨by decide +kernel, (money_stays_exact (reachesBy_endOfRun within
    of_decide_eq_true (by decide +kernel) _)).1⟩

theorem dearPrice_nonneg : (0 : Int) ≤ 9007199254740991 := by decide

/-- The largest price a `Number` holds exactly. -/
def dearPart : OpeningPart :=
  { part with
    unitPrice := ⟨9007199254740991, dearPrice_nonneg⟩
    quantity := ⟨2, by decide, by decide⟩ }

/-- Two units of it are quoted. -/
def quoted : List (Nat × SagaInput) :=
  [(0, .shelf (.create "OIL-1" "Oil filter" none .part 9007199254740991 1)),
    (0, .proceed { now := 1 })] ++ opened [dearPart] ++
    plainRequest 0 4 (.startDiagnosis 7) ++ plainRequest 0 5 (.completeDiagnosis 7)

def afterQuoted : Config WorkshopDb SagaPlace × List SagaEffect :=
  endOfRun (sagaExec settings) emptyWorkshop quoted (by decide +kernel)

def validated (db : WorkshopDb) (place : SagaPlace) (input : SagaInput) : Bool :=
  decide (Validated db place input)

theorem reaches_afterQuoted :
    ReachesBy (sagaExec settings) Validated emptyWorkshop afterQuoted.1 afterQuoted.2 :=
  reachesBy_endOfRun validated of_decide_eq_true (by decide +kernel) _

/-- The round comes to more than a `Number` holds exactly. -/
theorem validation_keeps_no_bound :
    ¬ ∀ settings config log,
      ReachesBy (sagaExec settings) Validated emptyWorkshop config log →
        MoneyExact config := by
  intro hall
  have hbeyond : ¬ ∀ amount ∈ afterQuoted.1.store.amounts,
      amount.cents ≤ maxExactCents := by decide +kernel
  exact hbeyond (hall _ _ _ reaches_afterQuoted).stored

end ExactMoneyWitness

end WorkOrders

end Workshop
