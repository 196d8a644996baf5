/-
The loads and saves of work orders along a run.  A load is four reads, and
commits can fall between them; a save that commits was nevertheless computed
from exactly the state the save before it left.
-/
import Workshop.WorkOrders.LoadAndSave
import Workshop.WorkOrders.SagaLedger

namespace Workshop

namespace WorkOrders

open Inventory

/-- Ids that were handed out below `bound`, each to one row. -/
def NamedBelow (bound : Uuid) (ids : List Uuid) : Prop :=
  ids.Nodup ∧ ∀ id ∈ ids, id < bound

/-- Every row of the tables was named below `bound`. -/
structure WorkOrderTables.Below (tables : WorkOrderTables) (bound : Uuid) :
    Prop where
  workOrders : ∀ row ∈ tables.workOrders, row.id < bound
  services : ∀ row ∈ tables.services, row.id < bound
  parts : ∀ row ∈ tables.parts, row.id < bound
  budgets : ∀ row ∈ tables.budgets, row.id < bound

/-- A work order whose own id is below `bound` and whose children are told
apart by theirs. -/
structure WorkOrder.Named (bound : Uuid) (workOrder : WorkOrder) : Prop where
  id_lt : workOrder.id < bound
  children : workOrder.ChildrenNamed

/-- What a program holds between two statements was named below `bound` and is
what its request makes. -/
def SagaPlace.Made (bound : Uuid) : SagaPlace → Prop
  | .loadingServices _ row => row.id < bound
  | .loadingParts _ row services =>
      row.id < bound ∧ NamedBelow bound (services.map ServiceRow.id)
  | .loadingBudgets _ row services parts =>
      row.id < bound ∧ NamedBelow bound (services.map ServiceRow.id) ∧
        NamedBelow bound (parts.map PartRow.id)
  | .creating workOrder => Opened bound workOrder
  | .saving edit step => SaveSound bound edit step ∧ edit.loaded.Named bound
  | .arming withdrawal | .consuming withdrawal | .committing withdrawal =>
      WithdrawalSound bound withdrawal ∧ withdrawal.edit.loaded.Named bound
  | .compensating undo | .releasing undo
  | .undoing (.compensation undo) _ | .completing (.compensation undo) =>
      undo.kind = .undoConsumption
  | .undoing (.application step _) _ => step.kind = .undoConsumption
  | _ => True

/-- A row that was read.  Either a save has moved its version on, or it is
still stored and what was read besides it `agrees` with the tables. -/
def ReadAt (tables : WorkOrderTables) (row : WorkOrderRow) (agrees : Prop) :
    Prop :=
  ∃ stored ∈ tables.workOrders, stored.id = row.id ∧
    (row.version < stored.version ∨ row = stored ∧ agrees)

/-- A work order that was loaded.  Either a save has moved its version on, or
it is the state the tables hold. -/
def LoadedAt (tables : WorkOrderTables) (loaded : WorkOrder) : Prop :=
  ∃ state, tables.stateOf loaded.id = some state ∧
    (loaded.version < state.version ∨ SameState loaded state)

/-- The services that were read are those of the tables. -/
def ServicesAgree (tables : WorkOrderTables) (row : WorkOrderRow)
    (services : List ServiceRow) : Prop :=
  services.Perm (rowsOf ServiceRow.workOrderId row.id tables.services)

def PartsAgree (tables : WorkOrderTables) (row : WorkOrderRow)
    (parts : List PartRow) : Prop :=
  parts.Perm (rowsOf PartRow.workOrderId row.id tables.parts)

/-- What a program read or loaded, against the tables. -/
def SagaPlace.Read (tables : WorkOrderTables) : SagaPlace → Prop
  | .loadingServices _ row => ReadAt tables row True
  | .loadingParts _ row services =>
      ReadAt tables row (ServicesAgree tables row services)
  | .loadingBudgets _ row services parts =>
      ReadAt tables row
        (ServicesAgree tables row services ∧ PartsAgree tables row parts)
  | .creating workOrder => tables.stateOf workOrder.id = none
  | .saving edit _ => LoadedAt tables edit.loaded
  | .arming withdrawal | .consuming withdrawal | .committing withdrawal =>
      LoadedAt tables withdrawal.edit.loaded
  | _ => True

/-- The work orders the tables hold: their items name rounds that exist, and
their drafts are untouched. -/
def WorkOrderTables.StatesSound (tables : WorkOrderTables) : Prop :=
  ∀ workOrderId state, tables.stateOf workOrderId = some state →
    state.RoundsKnown ∧ state.DraftsUntouched

/-- The work order a program is about to insert. -/
def SagaPlace.creates : SagaPlace → Option WorkOrderId
  | .creating workOrder => some workOrder.id
  | _ => none

/-- What an effect leaves of a work order. -/
def SagaEffect.leaves (workOrderId : WorkOrderId) (last : Option WorkOrder) :
    SagaEffect → Option WorkOrder
  | .created workOrder =>
      if workOrder.id = workOrderId then some { workOrder with version := 0 }
      else last
  | .saved edit =>
      if edit.changed.id = workOrderId then
        some (WorkOrderTables.overwritten edit.loaded edit.changed)
      else last
  | _ => last

/-- The state the last save of a work order in the log left. -/
def lastSaved (workOrderId : WorkOrderId) (log : List SagaEffect) :
    Option WorkOrder :=
  log.foldl (SagaEffect.leaves workOrderId) none

/-- Every save in the log was made of the state the save before it left. -/
def SavesFollow (log : List SagaEffect) : Prop :=
  ∀ earlier edit later, log = earlier ++ .saved edit :: later →
    ∃ state, lastSaved edit.changed.id earlier = some state ∧
      SameState edit.loaded state

/-- The edit a program is about to save. -/
def SagaPlace.edit : SagaPlace → Option Edit
  | .saving edit _ => some edit
  | .arming withdrawal | .consuming withdrawal | .committing withdrawal =>
      some withdrawal.edit
  | _ => none

/-- The places a save is the next statement of. -/
def SagaPlace.savesNext : SagaPlace → Bool
  | .creating _ | .saving _ _ | .committing _ => true
  | _ => false

section Naming

variable {bound bound' : Uuid} {tables tables' : WorkOrderTables}

theorem NamedBelow.mono {ids : List Uuid} (h : NamedBelow bound ids)
    (hle : bound ≤ bound') : NamedBelow bound' ids :=
  ⟨h.1, fun id hid => (h.2 id hid).trans_le hle⟩

theorem WorkOrder.Named.mono {workOrder : WorkOrder} (h : workOrder.Named bound)
    (hle : bound ≤ bound') : workOrder.Named bound' :=
  ⟨h.id_lt.trans_le hle, h.children⟩

theorem WorkOrderTables.Below.mono (h : tables.Below bound)
    (hle : bound ≤ bound') : tables.Below bound' :=
  ⟨fun row hrow => (h.workOrders row hrow).trans_le hle,
    fun row hrow => (h.services row hrow).trans_le hle,
    fun row hrow => (h.parts row hrow).trans_le hle,
    fun row hrow => (h.budgets row hrow).trans_le hle⟩

theorem SagaPlace.Made.mono {place : SagaPlace} (h : place.Made bound)
    (hle : bound ≤ bound') : place.Made bound' := by
  cases place with
  | loadingServices request row => exact h.trans_le hle
  | loadingParts request row services => exact ⟨h.1.trans_le hle, h.2.mono hle⟩
  | loadingBudgets request row services parts =>
      exact ⟨h.1.trans_le hle, h.2.1.mono hle, h.2.2.mono hle⟩
  | creating workOrder => exact Opened.mono h hle
  | saving edit step => exact ⟨h.1.mono hle, h.2.mono hle⟩
  | arming withdrawal => exact ⟨h.1.mono hle, h.2.mono hle⟩
  | consuming withdrawal => exact ⟨h.1.mono hle, h.2.mono hle⟩
  | committing withdrawal => exact ⟨h.1.mono hle, h.2.mono hle⟩
  | undoing errand named => cases errand <;> exact h
  | completing errand => cases errand <;> exact h
  | _ => exact h

/-- The rows that stand under one owner are named as the table's are. -/
theorem namedBelow_rows {R : Type} {key : R → Uuid} {owner : R → WorkOrderId}
    {rows : List R} (hids : (rows.map key).Nodup)
    (hbelow : ∀ row ∈ rows, key row < bound) (order : RowOrder R)
    (workOrderId : WorkOrderId) :
    NamedBelow bound ((order.arrange (rowsOf owner workOrderId rows)).map key) := by
  have hperm := (order.perm (rowsOf owner workOrderId rows)).map key
  constructor
  · rw [hperm.nodup_iff]
    exact hids.sublist (List.filter_sublist.map key)
  · intro id hid
    obtain ⟨row, hrow, rfl⟩ := List.mem_map.mp (hperm.mem_iff.mp hid)
    exact hbelow row (mem_rowsOf.mp hrow).1

/-- A save names no row that its work order does not name. -/
theorem WorkOrderTables.Below.save {workOrder : WorkOrder}
    (h : tables.Below bound) (hid : workOrder.id < bound)
    (hchildren : ∀ id ∈ workOrder.childIds, id < bound)
    (hsave : tables.save workOrder = .ok tables') : tables'.Below bound := by
  obtain ⟨workOrders, hwrite, hrows⟩ := save_ok hsave
  have hchild : ∀ id, (id ∈ workOrder.serviceItems.map WorkOrderServiceItem.id ∨
      id ∈ workOrder.partItems.map WorkOrderPartItem.id) ∨
      id ∈ workOrder.budgets.map Budget.id → id < bound := fun id hmem =>
    hchildren id (by simpa only [WorkOrder.childIds, List.mem_append] using hmem)
  refine ⟨fun row hrow => ?_, fun row hrow => ?_, fun row hrow => ?_,
    fun row hrow => ?_⟩
  · by_cases hself : row.id = workOrder.id
    · rwa [hself]
    · exact h.workOrders row ((mem_save_of_ne hsave hself).mp hrow)
  · rw [hrows] at hrow
    rcases mem_writeRows hrow with hrow | hrow
    · exact h.services row (mem_dropRows hrow)
    · refine hchild row.id (Or.inl (Or.inl ?_))
      rw [← serviceRows_ids]
      exact List.mem_map_of_mem hrow
  · rw [hrows] at hrow
    rcases mem_writeRows hrow with hrow | hrow
    · exact h.parts row (mem_dropRows hrow)
    · refine hchild row.id (Or.inl (Or.inr ?_))
      rw [← partRows_ids]
      exact List.mem_map_of_mem hrow
  · rw [hrows] at hrow
    rcases mem_writeRows hrow with hrow | hrow
    · exact h.budgets row hrow
    · refine hchild row.id (Or.inr ?_)
      rw [← budgetRows_ids]
      exact List.mem_map_of_mem hrow

end Naming

section Making

variable {settings : OutboxSettings} {db : WorkshopDb} {place : SagaPlace}
variable {input : SagaInput} {out : SagaOutcome} {bound : Uuid}

theorem made_nextApplication (queue : List ClaimedStockStep) :
    (nextApplication queue).Made bound := by
  cases queue <;> trivial

/-- Everything an edit holds was named before it was made. -/
theorem Edit.Follows.below_changed {edit : Edit} {fresh : Uuid}
    {moved : ItemId → Int} (h : edit.Follows fresh moved) (hfresh : fresh < bound) :
    ∀ id ∈ edit.changed.childIds, id < bound := by
  intro id hid
  rcases childIds_of_evolves h.evolves hid with hid | rfl
  · exact (h.below id hid).trans hfresh
  · exact hfresh

section Loaded

variable {row : WorkOrderRow} {services : List ServiceRow} {parts : List PartRow}
variable {budgets : List BudgetRow}

theorem serviceIds_toDomain :
    (toDomain row services parts budgets).serviceItems.map
      WorkOrderServiceItem.id = services.map ServiceRow.id := by
  simp only [toDomain, List.map_map]
  rfl

theorem partIds_toDomain :
    (toDomain row services parts budgets).partItems.map WorkOrderPartItem.id =
      parts.map PartRow.id := by
  simp only [toDomain, List.map_map]
  rfl

theorem budgetIds_toDomain :
    ((toDomain row services parts budgets).budgets.map Budget.id).Perm
      (budgets.map fun row => row.id) := by
  simp only [toDomain, List.map_map]
  exact (List.perm_insertionSort _ budgets).map _

theorem childIds_toDomain_lt
    (hservices : NamedBelow bound (services.map ServiceRow.id))
    (hparts : NamedBelow bound (parts.map PartRow.id))
    (hbudgets : NamedBelow bound (budgets.map fun row => row.id)) :
    ∀ id ∈ (toDomain row services parts budgets).childIds, id < bound := by
  intro id hid
  rw [WorkOrder.childIds, serviceIds_toDomain, partIds_toDomain, List.mem_append,
    List.mem_append] at hid
  rcases hid with (hid | hid) | hid
  · exact hservices.2 id hid
  · exact hparts.2 id hid
  · exact hbudgets.2 id (budgetIds_toDomain.mem_iff.mp hid)

theorem named_toDomain (hid : row.id < bound)
    (hservices : NamedBelow bound (services.map ServiceRow.id))
    (hparts : NamedBelow bound (parts.map PartRow.id))
    (hbudgets : NamedBelow bound (budgets.map fun row => row.id)) :
    (toDomain row services parts budgets).Named bound := by
  refine ⟨hid, ?_, ?_, budgetIds_toDomain.nodup_iff.mpr hbudgets.1⟩
  · rw [serviceIds_toDomain]
    exact hservices.1
  · rw [partIds_toDomain]
    exact hparts.1

end Loaded

/-- The place a request reaches is what it made of the rows it read. -/
theorem made_prepared {request : WorkOrderRequest} {loaded : WorkOrder}
    {nextId : Uuid} {now : Timestamp} {cancelsInExecution : Bool}
    (hbelow : ∀ id ∈ loaded.childIds, id < nextId) (hnamed : loaded.Named nextId) :
    (request.prepare loaded nextId now cancelsInExecution).place.Made
      (nextId + 2) := by
  replace hnamed := hnamed.mono (Nat.le_add_right nextId 2)
  cases hprepared : request.prepare loaded nextId now cancelsInExecution with
  | refused => trivial
  | withdraw withdrawal =>
      obtain ⟨hsound, hedit, -, -⟩ := prepare_withdraw_sound hbelow hprepared
      exact ⟨hsound, hedit ▸ hnamed⟩
  | save edit step =>
      obtain ⟨hsound, hedit, -⟩ := prepare_save_sound hbelow hprepared
      exact ⟨hsound, hedit ▸ hnamed⟩

theorem SagaMove.made (hmove : SagaMove settings db place input out)
    (hbelow : db.tables.Below db.nextId) (hplace : place.Made db.nextId)
    (hle : db.nextId ≤ out.store.nextId) : out.place.Made out.store.nextId := by
  cases hmove with
  | giveUp input withdrawal hplace' =>
      rcases hplace' with rfl | rfl
      · exact hplace.1.undoKind
      · exact hplace.1.undoKind
  | handOver input undo => exact hplace
  | errandFails input errand error hplace' =>
      cases errand with
      | compensation undo => rcases hplace' with ⟨named, rfl⟩ | rfl <;> exact hplace
      | application step queue => trivial
  | openNew command now nextId workOrder hopen =>
      exact (CreateCommand.openWith_opened hopen).1
  | readRow number request row hrow => exact hbelow.workOrders row hrow
  | readServices surroundings request row =>
      exact ⟨hplace, namedBelow_rows db.tables.constraints.uxServicesExternalId
        hbelow.services _ _⟩
  | readParts surroundings request row services =>
      exact ⟨hplace.1, hplace.2, namedBelow_rows
        db.tables.constraints.uxPartsExternalId hbelow.parts _ _⟩
  | readBudgets surroundings request row services parts =>
      have hbudgets : NamedBelow db.nextId
          ((db.tables.findBudgets surroundings.budgetOrder row.id).map
            fun row => row.id) :=
        namedBelow_rows db.tables.constraints.uxBudgetsExternalId
          hbelow.budgets _ _
      exact made_prepared (childIds_toDomain_lt hplace.2.1 hplace.2.2 hbudgets)
        (named_toDomain hplace.1 hplace.2.1 hplace.2.2 hbudgets)
  | shelfRead input nextId hle next hnext => cases next <;> trivial
  | arm surroundings withdrawal dueAt steps hinsert => exact hplace.mono hle
  | consume surroundings withdrawal inventory hconsume => exact hplace.mono hle
  | findNothing surroundings errand hplace' hnone =>
      cases hplace' with
      | compensation undo => exact hplace
      | application step queue hkind => trivial
  | nameItems surroundings errand named hplace' hnamed =>
      cases hplace' with
      | compensation undo => exact hplace
      | application step queue hkind => exact hkind
  | undo surroundings errand named inventory hundo =>
      cases errand with
      | compensation undo => exact hplace
      | application step queue => trivial
  | complete surroundings errand =>
      cases errand with
      | compensation undo => trivial
      | application step queue => exact made_nextApplication queue
  | claim surroundings operationIds => exact made_nextApplication _
  | recordError surroundings step queue error => exact made_nextApplication queue
  | _ => trivial

/-- A move names no row of the tables that was not named by then. -/
theorem SagaMove.below (hmove : SagaMove settings db place input out)
    (hbelow : db.tables.Below db.nextId) (hplace : place.Made db.nextId)
    (hle : db.nextId ≤ out.store.nextId) :
    out.store.tables.Below out.store.nextId := by
  have hedit : ∀ {edit : Edit} {tables' : WorkOrderTables} {moved : ItemId → Int},
      (∃ fresh < db.nextId, edit.Follows fresh moved) →
      edit.loaded.id < db.nextId → db.tables.save edit.changed = .ok tables' →
      tables'.Below out.store.nextId := by
    intro edit tables' moved hfollows hid hsave
    obtain ⟨fresh, hfresh, hfollows⟩ := hfollows
    refine (hbelow.save ?_ (hfollows.below_changed hfresh) hsave).mono hle
    rwa [hfollows.evolves.id]
  have hchange := hmove.tables
  revert hchange
  generalize out.store.tables = tables'
  generalize out.effects = effects
  intro hchange
  cases hchange with
  | same => exact hbelow.mono hle
  | create workOrder _ hsave =>
      exact (hbelow.save hplace.id_lt hplace.below hsave).mono hle
  | save edit step _ hsave => exact hedit hplace.1.follows hplace.2.id_lt hsave
  | commit withdrawal _ hsave =>
      exact hedit hplace.1.follows hplace.2.id_lt hsave

/-- A work order is opened under an id of its own. -/
theorem SagaMove.creates (hmove : SagaMove settings db place input out)
    {workOrderId : WorkOrderId} (h : out.place.creates = some workOrderId) :
    db.nextId = workOrderId := by
  have hnext : ∀ queue, (nextApplication queue).creates = none := by
    intro queue
    cases queue <;> rfl
  cases hmove with
  | openNew command now nextId workOrder hopen =>
      cases h
      exact (CreateCommand.openWith_opened hopen).2.2.symm
  | errandFails input errand error hplace => cases errand <;> cases h
  | readBudgets surroundings request row services parts =>
      simp only [stay] at h
      revert h
      generalize WorkOrderRequest.prepare _ _ _ _ _ = prepared
      intro h
      cases prepared <;> cases h
  | shelfRead input nextId hle next hnext => cases next <;> cases h
  | complete surroundings errand =>
      cases errand with
      | compensation undo => cases h
      | application step queue =>
          have hnone := hnext queue
          simp only [stay, Errand.afterwards, hnone] at h
          cases h
  | claim surroundings operationIds =>
      simp only [claimDue, hnext] at h
      cases h
  | recordError surroundings step queue error =>
      simp only [stay, hnext] at h
      cases h
  | _ => cases h

end Making

section Saving

open WorkOrderTables (overwritten mem_save_of_ne rowsOf_save_of_ne stateOf_insert
  stateOf_eq_some_iff stateOf_isSome_iff stateOf_save_of_ne stateOf_update
  version_save)

variable {tables tables' : WorkOrderTables} {workOrder loaded : WorkOrder}
variable {row : WorkOrderRow}

/-- A save moves the version on of the rows that were read of its work order,
and leaves what was read of any other. -/
theorem ReadAt.save {agrees agrees' : Prop} (h : ReadAt tables row agrees)
    (hsave : tables.save workOrder = .ok tables')
    (hagrees : row.id ≠ workOrder.id → agrees → agrees') :
    ReadAt tables' row agrees' := by
  obtain ⟨stored, hstored, hid, hread⟩ := h
  by_cases hself : row.id = workOrder.id
  · obtain ⟨-, row', hrow', hid', hversion⟩ :=
      version_save hsave hstored (hid.trans hself)
    refine ⟨row', hrow', hid'.trans hself.symm, Or.inl ?_⟩
    rcases hread with hlt | ⟨rfl, -⟩ <;> omega
  · refine ⟨stored, (mem_save_of_ne hsave (hid ▸ hself)).mpr hstored, hid, ?_⟩
    exact hread.imp_right (And.imp_right (hagrees hself))

theorem LoadedAt.save (h : LoadedAt tables loaded)
    (hsave : tables.save workOrder = .ok tables') : LoadedAt tables' loaded := by
  obtain ⟨state, hstate, hread⟩ := h
  by_cases hself : loaded.id = workOrder.id
  · obtain ⟨stored, hstored, hid, hsame⟩ := stateOf_eq_some_iff.mp hstate
    obtain ⟨-, row', hrow', hid', hversion⟩ :=
      version_save hsave hstored (hid.trans hself)
    refine ⟨_, stateOf_eq_some_iff.mpr
      ⟨row', hrow', hid'.trans hself.symm, rfl⟩, Or.inl ?_⟩
    have hstored : state.version = stored.version := by
      rw [← hsame]
      rfl
    change loaded.version < row'.version
    rcases hread with hlt | hsame
    · omega
    · have := hsame.version
      omega
  · exact ⟨state, (stateOf_save_of_ne hsave hself).trans hstate, hread⟩

theorem SagaPlace.Read.save {place : SagaPlace} (h : place.Read tables)
    (hnew : place.creates ≠ some workOrder.id)
    (hsave : tables.save workOrder = .ok tables') : place.Read tables' := by
  have hservices : ∀ {row : WorkOrderRow} {services : List ServiceRow},
      row.id ≠ workOrder.id → ServicesAgree tables row services →
        ServicesAgree tables' row services := by
    intro row services hne hagrees
    rw [ServicesAgree, (rowsOf_save_of_ne hsave hne).1]
    exact hagrees
  have hparts : ∀ {row : WorkOrderRow} {parts : List PartRow},
      row.id ≠ workOrder.id → PartsAgree tables row parts →
        PartsAgree tables' row parts := by
    intro row parts hne hagrees
    rw [PartsAgree, (rowsOf_save_of_ne hsave hne).2.1]
    exact hagrees
  cases place with
  | loadingServices request row => exact ReadAt.save h hsave fun _ => id
  | loadingParts request row services => exact ReadAt.save h hsave hservices
  | loadingBudgets request row services parts =>
      exact ReadAt.save h hsave fun hne =>
        And.imp (hservices hne) (hparts hne)
  | creating opened =>
      have hne : opened.id ≠ workOrder.id := fun heq => hnew (congrArg some heq)
      exact (stateOf_save_of_ne hsave hne).trans h
  | saving edit step => exact LoadedAt.save h hsave
  | arming withdrawal => exact LoadedAt.save h hsave
  | consuming withdrawal => exact LoadedAt.save h hsave
  | committing withdrawal => exact LoadedAt.save h hsave
  | _ => trivial

/-- The four reads are a load: unless a save fell between them, the aggregate
is the state the tables hold. -/
theorem LoadedAt.of_reads {services : List ServiceRow} {parts : List PartRow}
    (order : RowOrder BudgetRow)
    (h : ReadAt tables row
      (ServicesAgree tables row services ∧ PartsAgree tables row parts)) :
    LoadedAt tables
      (toDomain row services parts (tables.findBudgets order row.id)) := by
  obtain ⟨stored, hstored, hid, hread⟩ := h
  refine ⟨_, stateOf_eq_some_iff.mpr ⟨stored, hstored, hid, rfl⟩, ?_⟩
  rcases hread with hlt | ⟨rfl, hservices, hparts⟩
  · exact Or.inl hlt
  · have hperm := order.perm (rowsOf BudgetRow.workOrderId row.id tables.budgets)
    refine Or.inr (toDomain_sameState ?_ hservices hparts hperm)
    rw [WorkOrderTables.findBudgets, (hperm.map _).nodup_iff]
    exact tables.constraints.uxBudgetsExternalId.sublist
      (List.filter_sublist.map _)

/-- An edit that commits was made of the state the tables held, and can be read back. -/
theorem save_edit_writable {edit : Edit} {fresh : Uuid} {moved : ItemId → Int}
    (hstates : tables.StatesSound) (hloaded : LoadedAt tables edit.loaded)
    (hnamed : edit.loaded.ChildrenNamed) (hfollows : edit.Follows fresh moved)
    (hsave : tables.save edit.changed = .ok tables') :
    tables.Writable edit.changed ∧ ∃ state,
      tables.stateOf edit.changed.id = some state ∧ SameState edit.loaded state := by
  have hevolves := hfollows.evolves
  obtain ⟨state, hstate, hread⟩ := hloaded
  rw [← hevolves.id] at hstate
  obtain ⟨stored, hstored, hid, hrow⟩ := stateOf_eq_some_iff.mp hstate
  have hversion := (version_save hsave hstored hid).1
  have hsame : SameState edit.loaded state := by
    refine hread.resolve_left fun hlt => ?_
    rw [← hrow] at hlt
    change edit.loaded.version < stored.version at hlt
    rw [hversion, hevolves.version] at hlt
    exact lt_irrefl _ hlt
  have hchanged := childrenNamed_of_evolves hevolves hfollows.below hnamed
  refine ⟨⟨hchanged.services, hchanged.parts, hchanged.budgets,
    hevolves.known (hsame.roundsKnown (hstates _ state hstate).1), ?_⟩, state, hstate, hsame⟩
  intro row hmem
  refine hevolves.budgets.subset ((hsame.budgets.map Budget.id).mem_iff.mpr ?_)
  rw [← hrow]
  refine List.mem_map.mpr ⟨row.toBudget, ?_, rfl⟩
  exact List.mem_map_of_mem ((List.mem_insertionSort _).mpr hmem)

/-- An edit that commits was made of the state the tables held, and they hold
what it made of it. -/
theorem save_edit {edit : Edit} {fresh : Uuid} {moved : ItemId → Int}
    (hstates : tables.StatesSound) (hloaded : LoadedAt tables edit.loaded)
    (hnamed : edit.loaded.ChildrenNamed) (hfollows : edit.Follows fresh moved)
    (hsave : tables.save edit.changed = .ok tables') :
    ∃ state state', tables.stateOf edit.changed.id = some state ∧
      SameState edit.loaded state ∧
      tables'.stateOf edit.changed.id = some state' ∧
      SameState state' (overwritten edit.loaded edit.changed) := by
  obtain ⟨hwritable, state, hstate, hsame⟩ :=
    save_edit_writable hstates hloaded hnamed hfollows hsave
  obtain ⟨-, state', hstate', hsame'⟩ := stateOf_update hsave hstate hwritable
  have hover : overwritten state edit.changed =
      overwritten edit.loaded edit.changed := by
    have hrows := hsame.row
    rw [overwritten, overwritten, ← congrArg WorkOrderRow.createdAt hrows,
      ← congrArg WorkOrderRow.version hrows]
  exact ⟨state, state', hstate, hsame, hstate', hover ▸ hsame'⟩

/-- A new work order has no budget the tables know. -/
theorem Opened.writable {bound : Uuid} (hopened : Opened bound workOrder)
    (hnone : tables.stateOf workOrder.id = none) : tables.Writable workOrder := by
  refine ⟨hopened.named.services, hopened.named.parts, hopened.named.budgets, hopened.known,
    fun row hrow => ?_⟩
  obtain ⟨hmem, howner⟩ := mem_rowsOf.mp hrow
  have hknown := tables.constraints.fkBudgets row hmem
  rw [howner, ← stateOf_isSome_iff, hnone] at hknown
  cases hknown

/-- A new work order that commits is what the tables hold. -/
theorem save_opened {bound : Uuid} (hopened : Opened bound workOrder)
    (hnone : tables.stateOf workOrder.id = none)
    (hsave : tables.save workOrder = .ok tables') :
    ∃ state, tables'.stateOf workOrder.id = some state ∧
      SameState state { workOrder with version := 0 } := by
  exact stateOf_insert hsave hnone (hopened.writable hnone)

end Saving

section Reading

variable {settings : OutboxSettings} {db : WorkshopDb} {place : SagaPlace}
variable {input : SagaInput} {out : SagaOutcome}

theorem read_nextApplication (tables : WorkOrderTables)
    (queue : List ClaimedStockStep) : (nextApplication queue).Read tables := by
  cases queue <;> trivial

/-- A program that saves goes on without what it loaded, and the others read
the tables it found. -/
theorem SagaMove.read (hmove : SagaMove settings db place input out)
    (hbelow : db.tables.Below db.nextId) (hmade : place.Made db.nextId)
    (hplace : place.Read db.tables) : out.place.Read out.store.tables := by
  cases hmove with
  | giveUp input withdrawal hplace' => trivial
  | errandFails input errand error hplace' => cases errand <;> trivial
  | openNew command now nextId workOrder hopen =>
      have hid := (CreateCommand.openWith_opened hopen).2.2
      change db.tables.stateOf workOrder.id = none
      rw [hid, ← Option.not_isSome_iff_eq_none,
        WorkOrderTables.stateOf_isSome_iff]
      intro hmem
      obtain ⟨row, hrow, hsame⟩ := List.mem_map.mp hmem
      exact absurd (hbelow.workOrders row hrow) (hsame ▸ lt_irrefl _)
  | readRow number request row hrow => exact ⟨row, hrow, rfl, Or.inr ⟨rfl, trivial⟩⟩
  | readServices surroundings request row =>
      obtain ⟨stored, hstored, hid, hread⟩ := hplace
      exact ⟨stored, hstored, hid, hread.imp_right
        (And.imp_right fun _ => surroundings.serviceOrder.perm _)⟩
  | readParts surroundings request row services =>
      obtain ⟨stored, hstored, hid, hread⟩ := hplace
      exact ⟨stored, hstored, hid, hread.imp_right
        (And.imp_right fun hservices =>
          ⟨hservices, surroundings.partOrder.perm _⟩)⟩
  | readBudgets surroundings request row services parts =>
      have hloaded := LoadedAt.of_reads surroundings.budgetOrder hplace
      have hbelowLoaded : ∀ id ∈ (toDomain row services parts
          (db.tables.findBudgets surroundings.budgetOrder row.id)).childIds,
          id < db.nextId :=
        childIds_toDomain_lt hmade.2.1 hmade.2.2
          (namedBelow_rows db.tables.constraints.uxBudgetsExternalId
            hbelow.budgets _ _)
      simp only [stay]
      generalize toDomain row services parts _ = loaded at hloaded hbelowLoaded ⊢
      cases hprepared : request.prepare loaded db.nextId surroundings.now
          surroundings.cancelsInExecution with
      | refused => trivial
      | withdraw withdrawal =>
          have hedit := (prepare_withdraw_sound hbelowLoaded hprepared).2.1
          change LoadedAt db.tables withdrawal.edit.loaded
          rwa [hedit]
      | save edit step =>
          have hedit := (prepare_save_sound hbelowLoaded hprepared).2.1
          change LoadedAt db.tables edit.loaded
          rwa [hedit]
  | shelfRead input nextId hle next hnext => cases next <;> trivial
  | arm surroundings withdrawal dueAt steps hinsert => exact hplace
  | consume surroundings withdrawal inventory hconsume => exact hplace
  | complete surroundings errand =>
      cases errand with
      | compensation undo => trivial
      | application step queue => exact read_nextApplication _ queue
  | claim surroundings operationIds => exact read_nextApplication _ _
  | recordError surroundings step queue error =>
      exact read_nextApplication _ queue
  | _ => trivial

/-- A save that is not made of the stored state finds another version. -/
theorem save_stale {edit : Edit} {tables : WorkOrderTables}
    (hid : edit.changed.id = edit.loaded.id)
    (hversion : edit.changed.version = edit.loaded.version)
    (hloaded : LoadedAt tables edit.loaded)
    (hstale : ∀ state, tables.stateOf edit.changed.id = some state →
      ¬ SameState edit.loaded state) :
    tables.save edit.changed = .error .concurrentModification := by
  obtain ⟨state, hstate, hread⟩ := hloaded
  rw [← hid] at hstate
  have hlt := hread.resolve_right (hstale state hstate)
  have hwrite : tables.writeRow edit.changed = none := by
    rw [WorkOrderTables.stateOf, Option.map_eq_some_iff] at hstate
    obtain ⟨row, hfind, rfl⟩ := hstate
    change edit.loaded.version < row.version at hlt
    rw [WorkOrderTables.writeRow, hfind]
    exact if_neg (by omega)
  rw [WorkOrderTables.save, hwrite]

/-- A save that does not commit leaves the tables it found. -/
theorem SagaMove.failedSave (hmove : SagaMove settings db place input out)
    (hplace : place.savesNext = true) (hsaved : ∀ edit, .saved edit ∉ out.effects)
    (hcreated : ∀ workOrder, .created workOrder ∉ out.effects) :
    out.store = db := by
  cases hmove with
  | leave => rfl
  | giveUp => rfl
  | create surroundings workOrder tables hsave =>
      exact absurd List.mem_cons_self (hcreated workOrder)
  | save surroundings edit tables hsave =>
      exact absurd List.mem_cons_self (hsaved edit)
  | saveStep surroundings edit step tables steps hsave hinsert =>
      exact absurd List.mem_cons_self (hsaved edit)
  | commit surroundings withdrawal tables steps harmed hsave hinsert =>
      exact absurd List.mem_cons_self (hsaved withdrawal.edit)
  | errandFails => rfl
  | stepFails => rfl
  | findNothing => rfl
  | nameItems => rfl
  | _ => cases hplace

end Reading

section Effects

variable {log effects : List SagaEffect} {workOrderId : WorkOrderId}

theorem lastSaved_append (log effects : List SagaEffect) :
    lastSaved workOrderId (log ++ effects) =
      effects.foldl (SagaEffect.leaves workOrderId) (lastSaved workOrderId log) :=
  List.foldl_append

/-- Effects that are no save leave the last save as it was. -/
theorem lastSaved_append_quiet (hsaved : ∀ edit, .saved edit ∉ effects)
    (hcreated : ∀ workOrder, .created workOrder ∉ effects) :
    lastSaved workOrderId (log ++ effects) = lastSaved workOrderId log := by
  rw [lastSaved_append]
  generalize lastSaved workOrderId log = last
  induction effects with
  | nil => rfl
  | cons effect effects ih =>
      have hsame : SagaEffect.leaves workOrderId last effect = last := by
        cases effect with
        | created workOrder =>
            exact absurd List.mem_cons_self (hcreated workOrder)
        | saved edit => exact absurd List.mem_cons_self (hsaved edit)
        | _ => rfl
      rw [List.foldl_cons, hsame]
      exact ih
        (fun edit hedit => hsaved edit (List.mem_cons_of_mem effect hedit))
        (fun workOrder hopened =>
          hcreated workOrder (List.mem_cons_of_mem effect hopened))

theorem SavesFollow.append (h : SavesFollow log)
    (hnew : ∀ before edit after, effects = before ++ .saved edit :: after →
      ∃ state, lastSaved edit.changed.id (log ++ before) = some state ∧
        SameState edit.loaded state) : SavesFollow (log ++ effects) := by
  intro earlier edit later hlog
  rcases List.append_eq_append_iff.mp hlog with
    ⟨before, rfl, heffects⟩ | ⟨rest, hearlier, hrest⟩
  · exact hnew before edit later heffects
  · cases rest with
    | nil =>
        rw [List.append_nil] at hearlier
        have hfirst := hnew [] edit later hrest.symm
        rwa [List.append_nil, hearlier] at hfirst
    | cons effect rest =>
        obtain ⟨rfl, -⟩ := List.cons.inj hrest
        exact h earlier edit rest hearlier

end Effects

/-- The states the tables hold are the ones the saves in the log left, each of
which was made of the one before it. -/
structure SerialStates (tables : WorkOrderTables) (log : List SagaEffect) :
    Prop where
  sound : tables.StatesSound
  last : ∀ workOrderId, Option.Rel SameState
    (tables.stateOf workOrderId) (lastSaved workOrderId log)
  follow : SavesFollow log

section Serial

open WorkOrderTables (stateOf_save_of_ne)

variable {tables tables' : WorkOrderTables} {log effects : List SagaEffect}

theorem SerialStates.quiet (h : SerialStates tables log)
    (hsaved : ∀ edit, .saved edit ∉ effects)
    (hcreated : ∀ workOrder, .created workOrder ∉ effects) :
    SerialStates tables (log ++ effects) where
  sound := h.sound
  last := fun workOrderId => by
    rw [lastSaved_append_quiet hsaved hcreated]
    exact h.last workOrderId
  follow := h.follow.append fun before edit after heffects =>
    absurd (heffects ▸ List.mem_append_right before List.mem_cons_self)
      (hsaved edit)

theorem SerialStates.created {workOrder : WorkOrder} {bound : Uuid}
    (h : SerialStates tables log) (hopened : Opened bound workOrder)
    (hnone : tables.stateOf workOrder.id = none)
    (hsave : tables.save workOrder = .ok tables') :
    SerialStates tables' (log ++ [.created workOrder]) := by
  obtain ⟨state, hstate, hsame⟩ := save_opened hopened hnone hsave
  refine ⟨fun workOrderId other hother => ?_, fun workOrderId => ?_,
    h.follow.append fun before edit after heffects => ?_⟩
  · by_cases hself : workOrderId = workOrder.id
    · rw [hself, hstate, Option.some.injEq] at hother
      subst hother
      exact ⟨hsame.roundsKnown hopened.known,
        hsame.draftsUntouched hopened.drafts⟩
    · rw [stateOf_save_of_ne hsave hself] at hother
      exact h.sound workOrderId other hother
  · rw [lastSaved_append, List.foldl_cons, List.foldl_nil, SagaEffect.leaves]
    by_cases hself : workOrder.id = workOrderId
    · subst hself
      rw [if_pos rfl, hstate]
      exact Option.Rel.some hsame
    · rw [if_neg hself, stateOf_save_of_ne hsave (Ne.symm hself)]
      exact h.last workOrderId
  · have hmem : SagaEffect.saved edit ∈ [SagaEffect.created workOrder] :=
      heffects ▸ List.mem_append_right before List.mem_cons_self
    simp at hmem

theorem SerialStates.saved {edit : Edit} {fresh : Uuid} {moved : ItemId → Int}
    (h : SerialStates tables log) (hloaded : LoadedAt tables edit.loaded)
    (hnamed : edit.loaded.ChildrenNamed) (hfollows : edit.Follows fresh moved)
    (hsave : tables.save edit.changed = .ok tables') :
    SerialStates tables' (log ++ [.saved edit]) := by
  obtain ⟨state, state', hstate, hsame, hstate', hsame'⟩ :=
    save_edit h.sound hloaded hnamed hfollows hsave
  refine ⟨fun workOrderId other hother => ?_, fun workOrderId => ?_,
    h.follow.append fun before other after heffects => ?_⟩
  · by_cases hself : workOrderId = edit.changed.id
    · rw [hself, hstate', Option.some.injEq] at hother
      subst hother
      obtain ⟨hknown, hdrafts⟩ := h.sound _ state hstate
      exact ⟨hsame'.roundsKnown
          (hfollows.evolves.known (hsame.roundsKnown hknown)),
        hsame'.draftsUntouched
          (hfollows.evolves.drafts (hsame.draftsUntouched hdrafts))⟩
    · rw [stateOf_save_of_ne hsave hself] at hother
      exact h.sound workOrderId other hother
  · rw [lastSaved_append, List.foldl_cons, List.foldl_nil, SagaEffect.leaves]
    by_cases hself : edit.changed.id = workOrderId
    · subst hself
      rw [if_pos rfl, hstate']
      exact Option.Rel.some hsame'
    · rw [if_neg hself, stateOf_save_of_ne hsave (Ne.symm hself)]
      exact h.last workOrderId
  · obtain ⟨rfl, hedit⟩ : before = [] ∧ SagaEffect.saved other = .saved edit := by
      cases before with
      | nil => exact ⟨rfl, (List.cons.inj heffects).1.symm⟩
      | cons first before => simp at heffects
    cases hedit
    rw [List.append_nil]
    obtain ⟨last, hlast, hrel⟩ := exists_right_of_rel (h.last _) hstate
    exact ⟨last, hlast, hsame.trans hrel⟩

end Serial

section Runs

variable {settings : OutboxSettings} {config : Config WorkshopDb SagaPlace}
variable {log : List SagaEffect} {pid : Nat} {input : SagaInput} {out : SagaOutcome}

/-- What every program holds was named, and is what its request made. -/
theorem made_of_reaches (h : SagaReaches settings config log) :
    config.store.tables.Below config.store.nextId ∧
      ∀ pid, (config.places pid).Made config.store.nextId := by
  refine ReachesBy.invariant_of_places
    (G := fun db _ => db.tables.Below db.nextId)
    (L := fun db _ place => place.Made db.nextId) ?_ (fun _ => trivial) ?_ ?_ h
  · exact ⟨fun _ hrow => absurd hrow List.not_mem_nil,
      fun _ hrow => absurd hrow List.not_mem_nil,
      fun _ hrow => absurd hrow List.not_mem_nil,
      fun _ hrow => absurd hrow List.not_mem_nil⟩
  · intro config log pid input out before hbelow hplaces _ hexec
    have hmove := sagaMove_of_exec hexec
    have hle := nextId_le_of_exec before hexec
    exact ⟨hmove.below hbelow (hplaces pid) hle,
      hmove.made hbelow (hplaces pid) hle⟩
  · intro config log pid input out before _ hplaces _ hexec other _
    exact (hplaces other).mono (nextId_le_of_exec before hexec)

/-- No two programs insert a work order under one id. -/
theorem creates_distinct (h : SagaReaches settings config log) :
    ∀ pid other, other ≠ pid → ∀ workOrderId,
      (config.places pid).creates = some workOrderId →
        (config.places other).creates ≠ some workOrderId := by
  refine ReachesBy.invariant_of_pairs
    (D := fun place place' => ∀ workOrderId, place.creates = some workOrderId →
      place'.creates ≠ some workOrderId) ?_ ?_ ?_ h
  · exact fun hne id hid hid' => hne id hid' hid
  · exact fun _ _ _ hid => nomatch hid
  · intro config log pid input out before hexec other _ _ workOrderId hid hother
    have hnew := (sagaMove_of_exec hexec).creates hid
    have hmade := (made_of_reaches before).2 other
    cases hplace : config.places other with
    | creating workOrder =>
        rw [hplace] at hmade hother
        cases hother
        exact absurd hmade.id_lt (hnew ▸ lt_irrefl _)
    | _ =>
        rw [hplace] at hother
        cases hother

/-- A step keeps the tables as the saves left them. -/
theorem SerialStates.of_exec (hserial : SerialStates config.store.tables log)
    (h : SagaReaches settings config log)
    (hread : (config.places pid).Read config.store.tables)
    (hexec : sagaExec settings config.store (config.places pid) input = some out) :
    SerialStates out.store.tables (log ++ out.effects) := by
  have hplace := (made_of_reaches h).2 pid
  have hchange := (sagaMove_of_exec hexec).tables
  revert hchange hplace hread
  generalize out.store.tables = tables'
  generalize out.effects = effects
  generalize config.places pid = place
  intro hread hplace hchange
  cases hchange with
  | same _ hsaved hcreated => exact hserial.quiet hsaved hcreated
  | create workOrder _ hsave => exact hserial.created hplace hread hsave
  | save edit step _ hsave =>
      obtain ⟨fresh, -, hfollows⟩ := hplace.1.follows
      exact hserial.saved hread hplace.2.children hfollows hsave
  | commit withdrawal _ hsave =>
      obtain ⟨fresh, -, hfollows⟩ := hplace.1.follows
      have hsaved := hserial.saved hread hplace.2.children hfollows hsave
      rw [← List.singleton_append, ← List.append_assoc]
      exact hsaved.quiet (by simp) (by simp)

/-- An edit was loaded, so no program is about to create its work order. -/
theorem not_creates_of_loaded {place : SagaPlace} {tables : WorkOrderTables} {edit : Edit}
    (hplace : place.Read tables) (hloaded : LoadedAt tables edit.loaded)
    (hid : edit.changed.id = edit.loaded.id) :
    place.creates ≠ some edit.changed.id := by
  intro hcreates
  obtain ⟨state, hstate, -⟩ := hloaded
  cases place with
  | creating workOrder =>
      have hsame := Option.some.inj hcreates
      rw [← hid, ← hsame, hplace] at hstate
      cases hstate
  | _ => cases hcreates

/-- What a program read stands while another one moves. -/
theorem SagaPlace.Read.of_other {other : Nat}
    (hother : (config.places other).Read config.store.tables)
    (h : SagaReaches settings config log)
    (hread : (config.places pid).Read config.store.tables)
    (hexec : sagaExec settings config.store (config.places pid) input = some out)
    (hne : other ≠ pid) : (config.places other).Read out.store.tables := by
  have hcreates := creates_distinct h pid other hne
  have hplace := (made_of_reaches h).2 pid
  have hchange := (sagaMove_of_exec hexec).tables
  revert hchange hread hcreates hplace
  generalize out.store.tables = tables'
  generalize out.effects = effects
  generalize config.places pid = place
  intro hread hcreates hplace hchange
  cases hchange with
  | same => exact hother
  | create workOrder _ hsave => exact hother.save (hcreates workOrder.id rfl) hsave
  | save edit step _ hsave =>
      obtain ⟨fresh, -, hfollows⟩ := hplace.1.follows
      exact hother.save (not_creates_of_loaded hother hread hfollows.evolves.id) hsave
  | commit withdrawal _ hsave =>
      obtain ⟨fresh, -, hfollows⟩ := hplace.1.follows
      exact hother.save (not_creates_of_loaded hother hread hfollows.evolves.id) hsave

/-- In every reachable state the tables hold what the saves left, and every
program read them. -/
theorem serial_of_reaches (h : SagaReaches settings config log) :
    SerialStates config.store.tables log ∧
      ∀ pid, (config.places pid).Read config.store.tables := by
  refine ReachesBy.invariant_of_places
    (G := fun db log => SerialStates db.tables log)
    (L := fun db _ place => place.Read db.tables) ?_ (fun _ => trivial) ?_ ?_ h
  · refine ⟨fun _ _ hstate => (nomatch hstate), fun _ => Option.Rel.none, ?_⟩
    intro earlier edit later hlog
    simp at hlog
  · intro config log pid input out before hserial hread _ hexec
    obtain ⟨hbelow, hmade⟩ := made_of_reaches before
    exact ⟨hserial.of_exec before (hread pid) hexec,
      (sagaMove_of_exec hexec).read hbelow (hmade pid) (hread pid)⟩
  · intro config log pid input out before _ hread _ hexec other hne
    exact (hread other).of_other before (hread pid) hexec hne

/-- A save that commits was made of the state the save before it left. -/
theorem lastSaved_of_saves (h : SagaReaches settings config log)
    (hexec : sagaExec settings config.store (config.places pid) input = some out)
    {edit : Edit} {later : List SagaEffect}
    (heffects : out.effects = .saved edit :: later) :
    ∃ state, lastSaved edit.changed.id log = some state ∧
      SameState edit.loaded state := by
  have hafter := ReachesBy.turn pid input h trivial hexec
  apply (serial_of_reaches hafter).1.follow log edit later
  rw [heffects]

/-- Every edit a program holds keeps the identity and the version of the work
order it loaded. -/
theorem edit_of_reaches (h : SagaReaches settings config log)
    {edit : Edit} (hedit : (config.places pid).edit = some edit) :
    edit.changed.id = edit.loaded.id ∧
      edit.changed.version = edit.loaded.version ∧
      LoadedAt config.store.tables edit.loaded := by
  have hmade := (made_of_reaches h).2 pid
  have hread := (serial_of_reaches h).2 pid
  have hkept : ∀ {bound : Uuid} {moved : ItemId → Int},
      (∃ fresh < bound, edit.Follows fresh moved) →
      edit.changed.id = edit.loaded.id ∧
        edit.changed.version = edit.loaded.version := by
    rintro bound moved ⟨fresh, -, hfollows⟩
    exact ⟨hfollows.evolves.id, hfollows.evolves.version⟩
  revert hmade hread hedit
  generalize config.places pid = place
  intro hedit hmade hread
  cases place with
  | saving saved step =>
      cases hedit
      obtain ⟨hid, hversion⟩ := hkept hmade.1.follows
      exact ⟨hid, hversion, hread⟩
  | arming withdrawal =>
      cases hedit
      obtain ⟨hid, hversion⟩ := hkept hmade.1.follows
      exact ⟨hid, hversion, hread⟩
  | consuming withdrawal =>
      cases hedit
      obtain ⟨hid, hversion⟩ := hkept hmade.1.follows
      exact ⟨hid, hversion, hread⟩
  | committing withdrawal =>
      cases hedit
      obtain ⟨hid, hversion⟩ := hkept hmade.1.follows
      exact ⟨hid, hversion, hread⟩
  | _ => cases hedit

/-- The saves that commit form one sequence: each was made of exactly the state
the one before it left, which is the state the tables hold.  An edit of any
other state finds another version, and a save that does not commit leaves every
table as it was. -/
theorem work_order_saves_serializable (h : SagaReaches settings config log) :
    SavesFollow log ∧
      (∀ workOrderId, Option.Rel SameState
        (config.store.tables.stateOf workOrderId) (lastSaved workOrderId log)) ∧
      (∀ pid edit, (config.places pid).edit = some edit →
        (∀ state, config.store.tables.stateOf edit.changed.id = some state →
          ¬ SameState edit.loaded state) →
        config.store.tables.save edit.changed = .error .concurrentModification) ∧
      ∀ pid input out,
        sagaExec settings config.store (config.places pid) input = some out →
        (∀ edit, .saved edit ∉ out.effects) →
        (∀ workOrder, .created workOrder ∉ out.effects) →
          out.store.tables = config.store.tables ∧
            ((config.places pid).savesNext = true → out.store = config.store) := by
  have hserial := (serial_of_reaches h).1
  refine ⟨hserial.follow, hserial.last, ?_, ?_⟩
  · intro pid edit hedit hstale
    obtain ⟨hid, hversion, hloaded⟩ := edit_of_reaches h hedit
    exact save_stale hid hversion hloaded hstale
  · intro pid input out hexec hsaved hcreated
    have hmove := sagaMove_of_exec hexec
    refine ⟨?_, fun hplace => hmove.failedSave hplace hsaved hcreated⟩
    have hchange := hmove.tables
    revert hchange hsaved hcreated
    generalize out.store.tables = tables'
    generalize out.effects = effects
    generalize config.places pid = place
    intro hsaved hcreated hchange
    cases hchange with
    | same => rfl
    | create workOrder _ hsave =>
        exact absurd List.mem_cons_self (hcreated workOrder)
    | save edit step _ hsave => exact absurd List.mem_cons_self (hsaved edit)
    | commit withdrawal _ hsave =>
        exact absurd List.mem_cons_self (hsaved withdrawal.edit)

end Runs

namespace SagaWitness

def settings : OutboxSettings where
  graceSeconds := 30
  maxAttempts := 3

/-- The statement a program stands at runs, as often as asked. -/
def proceed (pid times : Nat) (now : Timestamp) : List (Nat × SagaInput) :=
  List.replicate times (pid, .proceed { now })

/-- A request from its first read to the save of its work order. -/
def plainRequest (pid : Nat) (now : Timestamp) (change : WorkOrderChange) :
    List (Nat × SagaInput) :=
  (pid, .request "OS-1" (.plain change)) :: proceed pid 4 now

/-- Ten units of one item on the shelf. -/
def stocked : List (Nat × SagaInput) :=
  [(0, .shelf (.create "OIL-1" "Oil filter" none .part 1000 1)),
   (0, .proceed { now := 1 }),
   (0, .shelf (.replenish 0 10 900 7 none 2)), (0, .proceed { now := 2 })]

theorem partPrice_nonneg : (0 : Int) ≤ 1000 := by decide

def part : OpeningPart where
  inventoryItemId := 0
  sku := "OIL-1"
  name := "Oil filter"
  unitPrice := ⟨1000, partPrice_nonneg⟩
  quantity := ⟨5, by decide, by decide⟩

/-- A work order that plans these parts. -/
def opened (parts : List OpeningPart) : List (Nat × SagaInput) :=
  [(0, .create ⟨"OS-1", 90, 91, 7, "Ana", "ABC1D23", "Fiat", "Uno", 2010, [],
      parts⟩ 3), (0, .proceed { now := 3 })]

/-- One request reads the row and the services, another one saves, and the
first goes on with what it has. -/
def mixed : List (Nat × SagaInput) :=
  stocked ++ opened [part] ++
    (0, .request "OS-1" (.plain (.startDiagnosis 7))) :: proceed 0 1 4 ++
    plainRequest 1 5 (.planPart part 7) ++ proceed 0 2 6

def last : Config WorkshopDb SagaPlace × List SagaEffect :=
  endOfRun (sagaExec settings) emptyWorkshop mixed (by decide +kernel)

theorem work_order_saves_serializable_mixed :
    ((last.1.places 0).edit.map fun edit => edit.loaded.partItems.length) = some 2 ∧
      SavesFollow last.2 ∧
      (∀ workOrderId, Option.Rel SameState
        (last.1.store.tables.stateOf workOrderId)
        (lastSaved workOrderId last.2)) ∧
      (∀ pid edit, (last.1.places pid).edit = some edit →
        (∀ state, last.1.store.tables.stateOf edit.changed.id = some state →
          ¬ SameState edit.loaded state) →
        last.1.store.tables.save edit.changed = .error .concurrentModification) ∧
      ∀ pid input out,
        sagaExec settings last.1.store (last.1.places pid) input = some out →
        (∀ edit, .saved edit ∉ out.effects) →
        (∀ workOrder, .created workOrder ∉ out.effects) →
          out.store.tables = last.1.store.tables ∧
            ((last.1.places pid).savesNext = true →
              out.store = last.1.store) :=
  ⟨by decide +kernel, work_order_saves_serializable (reaches_endOfRun _)⟩

end SagaWitness

end WorkOrders

end Workshop
