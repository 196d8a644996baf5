/-
What the checks a program made say while it goes by them.  Each place that a
statement leads to has its checks made: a part is read before it is planned, and
the open work orders before an item is taken out.
-/
import Workshop.Inventory.CatalogUpdates
import Workshop.WorkOrders.ListedParts

namespace Workshop

namespace WorkOrders

open Inventory

/-- What the checks a program made say still holds, and what it is about to
write is what it made them for. -/
structure ChecksMade (db : WorkshopDb) (place : CheckedPlace) : Prop where
  listed : ∀ itemId ∈ place.reliesOn, hasLeft db.inventory itemId = false
  unused : ∀ itemId ∈ place.takesOut, openWorkOrderNumbersUsing db.tables itemId = []
  created : ∀ command now attempts workOrder,
    place = .creating command now attempts workOrder →
      workOrder.plannedItems ⊆ command.items
  planned : ∀ edit part, place = .readingPart edit part →
    edit.newItems ⊆ [part.inventoryItemId]

section Places

variable {settings : OutboxSettings} {db db' : WorkshopDb} {place next : SagaPlace}

theorem mem_takesOut {item : InventoryItem} {itemId : ItemId} :
    itemId ∈ (SagaPlace.shelf item).takesOut ↔
      item.status = .inactive ∧ itemId = item.id := by
  rw [SagaPlace.takesOut]
  split
  · rename_i hinactive
    rw [List.mem_singleton]
    exact ⟨fun hsame => ⟨hinactive, hsame⟩, fun h => h.2⟩
  · rename_i hactive
    exact ⟨fun hitem => absurd hitem List.not_mem_nil, fun h => absurd h.1 hactive⟩

theorem ChecksMade.kept {place : CheckedPlace} (hkeeps : KeepsChecks db db' place)
    (h : ChecksMade db place) : ChecksMade db' place :=
  ⟨fun itemId hitem => hkeeps.listed itemId hitem (h.listed itemId hitem),
    fun itemId hitem => hkeeps.unused itemId hitem (h.unused itemId hitem),
    h.created, h.planned⟩

/-- A program that runs went by the checks of what it plans and takes out. -/
theorem checksMade_running
    (hplans : ∀ itemId ∈ next.plans, hasLeft db.inventory itemId = false)
    (htakes : ∀ itemId ∈ next.takesOut,
      openWorkOrderNumbersUsing db.tables itemId = []) :
    ChecksMade db (.running next) where
  listed := hplans
  unused := htakes
  created := fun _ _ _ _ hplace => by cases hplace
  planned := fun _ _ hplace => by cases hplace

/-- A place that plans nothing and takes nothing out needs no check. -/
theorem checksMade_quiet (hplans : next.plans = []) (htakes : next.takesOut = []) :
    ChecksMade db (.running next) := by
  refine checksMade_running (fun itemId hitem => ?_) fun itemId hitem => ?_
  · rw [hplans] at hitem
    exact absurd hitem List.not_mem_nil
  · rw [htakes] at hitem
    exact absurd hitem List.not_mem_nil

theorem checksMade_idle : ChecksMade db (.running .idle) :=
  checksMade_quiet rfl rfl

/-- Before its check a part is all the edit newly plans. -/
theorem checksMade_reading {edit : Edit} {part : OpeningPart}
    (hnew : edit.newItems ⊆ [part.inventoryItemId]) :
    ChecksMade db (.readingPart edit part) where
  listed := fun _ hitem => absurd hitem List.not_mem_nil
  unused := fun _ hitem => absurd hitem List.not_mem_nil
  created := fun _ _ _ _ hplace => by cases hplace
  planned := fun _ _ hplace => by
    cases hplace
    exact hnew

theorem checksMade_readingUse (item : InventoryItem) :
    ChecksMade db (.readingUse item) where
  listed := fun _ hitem => absurd hitem List.not_mem_nil
  unused := fun _ hitem => absurd hitem List.not_mem_nil
  created := fun _ _ _ _ hplace => by cases hplace
  planned := fun _ _ hplace => by cases hplace

/-- A work order that is being created has read the parts that are not left to
read. -/
theorem checksMade_resolving {command : CreateCommand} {now : Timestamp}
    {left : List OpeningPart}
    (hread : ∀ itemId ∈ command.items,
      itemId ∉ left.map OpeningPart.inventoryItemId →
        hasLeft db.inventory itemId = false) :
    ChecksMade db (.resolvingParts command now left) where
  listed := fun itemId hitem => by
    obtain ⟨hasked, hdone⟩ := List.mem_filter.mp hitem
    exact hread itemId hasked (of_decide_eq_true hdone)
  unused := fun _ hitem => absurd hitem List.not_mem_nil
  created := fun _ _ _ _ hplace => by cases hplace
  planned := fun _ _ hplace => by cases hplace

/-- It relies on all of them from then on. -/
theorem checksMade_drawing {command : CreateCommand}
    (hlisted : ∀ itemId ∈ command.items, hasLeft db.inventory itemId = false)
    (now : Timestamp) (attempts : Nat) :
    ChecksMade db (.drawing command now attempts) where
  listed := hlisted
  unused := fun _ hitem => absurd hitem List.not_mem_nil
  created := fun _ _ _ _ hplace => by cases hplace
  planned := fun _ _ hplace => by cases hplace

theorem checksMade_creating {command : CreateCommand} {now : Timestamp}
    {attempts : Nat} {workOrder : WorkOrder}
    (hlisted : ∀ itemId ∈ command.items, hasLeft db.inventory itemId = false)
    (hitems : workOrder.plannedItems ⊆ command.items) :
    ChecksMade db (.creating command now attempts workOrder) where
  listed := hlisted
  unused := fun _ hitem => absurd hitem List.not_mem_nil
  created := fun _ _ _ _ hplace => by
    cases hplace
    exact hitems
  planned := fun _ _ hplace => by cases hplace

/-- What is read in the catalog as active has not left it. -/
theorem hasLeft_of_offers {inventory : InventoryDb} {part : OpeningPart}
    (h : offers inventory part = true) :
    hasLeft inventory part.inventoryItemId = false := by
  rw [offers] at h
  rw [hasLeft, InventoryDb.catalogOf]
  cases hfind : inventory.items.find? fun row => row.id = part.inventoryItemId with
  | none => rfl
  | some row =>
      simp only [hfind, Option.any_some, Bool.and_eq_true, decide_eq_true_eq] at h
      simp [ItemRow.catalog, h.1.1.1]

/-- A request that does not deactivate an item carries an inactive copy only when
the item had left the catalog. -/
theorem hasLeft_of_load {inventory : InventoryDb} {input : StockInput}
    {out : StockOutcome} {item : InventoryItem} (hnodup : inventory.itemIds.Nodup)
    (hexec : stockExec inventory .idle input = some out)
    (hkeeps : input.catalogChange ≠ .deactivate) (hplace : out.place = .saving item)
    (hinactive : item.status = .inactive) : hasLeft inventory item.id = true := by
  have hmove := catalogMove_of_exec hnodup hexec
  rw [hplace] at hmove
  generalize out.store = inventory' at hmove
  cases hmove with
  | created => cases hinactive
  | loaded input nextId hle item entry hread hchange heffect =>
      have hstatus : item.status = entry.status := by
        have hsame := congrArg Catalog.status hchange
        cases hasked : input.catalogChange with
        | deactivate => exact absurd hasked hkeeps
        | _ =>
            rw [hasked] at hsame
            exact hsame
      rw [hasLeft, hread, Option.any_some, ← hstatus, hinactive]
      rfl
  | kept _ _ _ _ _ _ _ hnone => exact absurd rfl (hnone item)

/-- A place that plans something or may take something out. -/
def SagaPlace.needsChecks : SagaPlace → Bool
  | .creating _ | .saving _ _ | .arming _ | .consuming _ | .committing _
  | .shelf _ => true
  | _ => false

theorem checksMade_after (hnone : next.needsChecks = false) :
    ChecksMade db (afterStatement place next) := by
  have hrunning : afterStatement place next = .running next := by
    unfold afterStatement
    split
    · cases hnone
    · rfl
  rw [hrunning]
  cases next with
  | creating workOrder => cases hnone
  | saving edit step => cases hnone
  | arming withdrawal => cases hnone
  | consuming withdrawal => cases hnone
  | committing withdrawal => cases hnone
  | shelf item => cases hnone
  | _ => exact checksMade_quiet rfl rfl

theorem checksMade_nextApplication (queue : List ClaimedStockStep) :
    ChecksMade db (afterStatement place (nextApplication queue)) := by
  cases queue <;> exact checksMade_after rfl

/-- Only a request of inventory leads to a copy that is about to be saved. -/
theorem load_of_exec {input : SagaInput} {out : SagaOutcome} {item : InventoryItem}
    (hexec : sagaExec settings db .idle input = some out)
    (hplace : out.place = .shelf item) :
    ∃ asked loaded, input = .shelf asked ∧
      stockExec db.inventory .idle asked = some loaded ∧
      loaded.place = .saving item := by
  cases input with
  | shelf asked =>
      simp only [sagaExec] at hexec
      split at hexec
      · obtain ⟨loaded, hload, rfl⟩ := Option.map_eq_some_iff.mp hexec
        refine ⟨asked, loaded, rfl, hload, ?_⟩
        simp only [shelfOutcome] at hplace
        split at hplace
        · rename_i heq
          cases hplace
          exact heq
        · cases hplace
      · cases hexec
  | create command now =>
      simp only [sagaExec] at hexec
      split at hexec <;> cases hexec <;> cases hplace
  | request number request =>
      simp only [sagaExec] at hexec
      split at hexec <;> cases hexec <;> cases hplace
  | proceed surroundings => cases hexec
  | _ =>
      cases hexec
      cases hplace

/-- A request that asks for no new part plans no new item. -/
theorem checksMade_of_prepare {request : WorkOrderRequest} {workOrder : WorkOrder}
    {nextId : Uuid} {now : Timestamp} {cancelsInExecution : Bool}
    (hplans : request.plans = []) :
    ChecksMade db
      (.running (request.prepare workOrder nextId now cancelsInExecution).place) := by
  have hnone : ∀ edit, (request.prepare workOrder nextId now cancelsInExecution).place.edit =
      some edit → edit.newItems = [] := by
    intro edit hedit
    have hnew := newItems_of_prepare hedit
    rw [hplans] at hnew
    exact List.subset_nil.mp hnew
  cases hprepared : request.prepare workOrder nextId now cancelsInExecution with
  | refused => exact checksMade_idle
  | withdraw withdrawal =>
      rw [hprepared] at hnone
      exact checksMade_quiet (hnone withdrawal.edit rfl) rfl
  | save edit step =>
      rw [hprepared] at hnone
      exact checksMade_quiet (hnone edit rfl) rfl

/-- What a request that loaded its work order is about to save is checked, or is
the part its request asks for. -/
theorem checksMade_of_load (request : WorkOrderRequest) (row : WorkOrderRow)
    (services : List ServiceRow) (parts : List PartRow) (workOrder : WorkOrder)
    (nextId : Uuid) (now : Timestamp) (cancelsInExecution : Bool) :
    ChecksMade db (afterStatement (.loadingBudgets request row services parts)
      (request.prepare workOrder nextId now cancelsInExecution).place) := by
  cases request with
  | plain change =>
      cases change with
      | planPart part actorUserId =>
          cases hprepared : (WorkOrderRequest.plain
              (.planPart part actorUserId)).prepare workOrder nextId now cancelsInExecution with
          | refused => exact checksMade_idle
          | withdraw withdrawal =>
              simp only [WorkOrderRequest.prepare, prepareChange] at hprepared
              split at hprepared <;> cases hprepared
          | save edit step =>
              have hnew : edit.newItems ⊆ [part.inventoryItemId] :=
                newItems_of_prepare (congrArg (fun prepared => prepared.place.edit) hprepared)
              simp only [WorkOrderRequest.prepare, prepareChange] at hprepared
              split at hprepared
              · cases hprepared
              · cases hprepared
                exact checksMade_reading hnew
      | _ => exact checksMade_of_prepare rfl
  | _ => exact checksMade_of_prepare rfl

/-- What a statement of the saga leads to is checked: a work order is saved with
the part that was read, and an inactive copy was loaded as one. -/
theorem checksMade_of_saga {input : SagaInput} {out : SagaOutcome}
    (hnodup : db.inventory.itemIds.Nodup)
    (hleft : ∀ itemId, hasLeft db.inventory itemId = true →
      openWorkOrderNumbersUsing db.tables itemId = [])
    (hmade : ChecksMade db (.running place))
    (hcreate : ∀ command now, place = .idle → input = .create command now → False)
    (hkeeps : ∀ asked, place = .idle → input = .shelf asked →
      asked.catalogChange ≠ .deactivate)
    (hexec : sagaExec settings db place input = some out) :
    ChecksMade out.store (afterStatement place out.place) := by
  have hmove := sagaMove_of_exec hexec
  cases hmove with
  | errandFails input errand error hplace =>
      cases errand <;> exact checksMade_after rfl
  | openNew command now nextId workOrder hopen => exact (hcreate _ _ rfl rfl).elim
  | readBudgets surroundings request row services parts =>
      exact checksMade_of_load request row services parts _ _ _ _
  | shelfRead input nextId hle next hnext =>
      cases next with
      | saving item =>
          obtain ⟨asked, loaded, hinput, hload, hplace⟩ := load_of_exec hexec rfl
          refine checksMade_running (fun _ hitem => absurd hitem List.not_mem_nil)
            fun itemId hitem => ?_
          obtain ⟨hinactive, rfl⟩ := mem_takesOut.mp hitem
          exact hleft _
            (hasLeft_of_load hnodup hload (hkeeps asked rfl hinput) hplace hinactive)
      | _ => exact checksMade_after rfl
  | arm surroundings withdrawal dueAt steps hinsert =>
      exact checksMade_running hmade.listed fun _ hitem => absurd hitem List.not_mem_nil
  | consume surroundings withdrawal inventory hconsume =>
      refine checksMade_running (fun itemId hitem => ?_)
        fun _ hitem => absurd hitem List.not_mem_nil
      rw [hasLeft_congr (consumeStockBatch_catalog hnodup hconsume itemId)]
      exact hmade.listed itemId hitem
  | complete surroundings errand =>
      cases errand with
      | compensation undo => exact checksMade_after rfl
      | application step queue => exact checksMade_nextApplication queue
  | claim surroundings operationIds => exact checksMade_nextApplication _
  | recordError surroundings step queue error => exact checksMade_nextApplication queue
  | _ => exact checksMade_after rfl

/-- An item that had left the catalog is loaded for a save without a check. -/
theorem checksMade_of_deactivation {itemId : ItemId} {now : Timestamp}
    {sagaOut : SagaOutcome}
    (hleft : ∀ itemId, hasLeft db.inventory itemId = true →
      openWorkOrderNumbersUsing db.tables itemId = [])
    (hexec : sagaExec settings db .idle (.shelf (.deactivate itemId [] now)) =
      some sagaOut) :
    ChecksMade sagaOut.store (afterLoad db.inventory sagaOut.place) := by
  change (stockExec db.inventory .idle (.deactivate itemId [] now)).map (shelfOutcome db) =
    some sagaOut at hexec
  obtain ⟨loaded, hload, rfl⟩ := Option.map_eq_some_iff.mp hexec
  cases hload
  simp only [shelfOutcome]
  split
  · rename_i item _
    by_cases hgone : hasLeft db.inventory item.id = true
    · rw [afterLoad, if_pos hgone]
      refine checksMade_running (fun _ hitem => absurd hitem List.not_mem_nil)
        fun itemId hitem => ?_
      rw [(mem_takesOut.mp hitem).2]
      exact hleft item.id hgone
    · rw [afterLoad, if_neg hgone]
      exact checksMade_readingUse item
  · exact checksMade_idle

/-- Every statement of a program leads to a place whose checks are made: a part
is read before it is planned, and the work orders that use an item before it is
taken out. -/
theorem ChecksMade.step {place : CheckedPlace} {input : CheckedInput}
    {out : CheckedOutcome} (hmade : ChecksMade db place)
    (hnodup : db.inventory.itemIds.Nodup)
    (hleft : ∀ itemId, hasLeft db.inventory itemId = true →
      openWorkOrderNumbersUsing db.tables itemId = [])
    (hexec : checkedExec settings db place input = some out) :
    ChecksMade out.store out.place := by
  unfold checkedExec at hexec
  split at hexec
  case h_1 command now =>
    cases hexec
    exact checksMade_resolving fun itemId hitem hread => absurd hitem hread
  case h_2 itemId numbers now =>
    obtain ⟨sagaOut, hsaga, rfl⟩ := Option.map_eq_some_iff.mp hexec
    exact checksMade_of_deactivation hleft hsaga
  case h_3 place input hcreate hdeactivate =>
    obtain ⟨sagaOut, hsaga, rfl⟩ := Option.map_eq_some_iff.mp hexec
    refine checksMade_of_saga hnodup hleft hmade ?_ ?_ hsaga
    · rintro command now rfl rfl
      exact hcreate command now rfl rfl
    · rintro asked rfl rfl hasked
      cases asked with
      | deactivate itemId numbers now => exact hdeactivate itemId numbers now rfl rfl
      | _ => cases hasked
  case h_4 command now surroundings =>
    cases hexec
    refine checksMade_drawing (fun itemId hitem => ?_) now 0
    exact hmade.listed itemId (List.mem_filter.mpr ⟨hitem, rfl⟩)
  case h_5 command now part left surroundings =>
    cases hexec
    cases hoffers : offers db.inventory part with
    | false => exact checksMade_idle
    | true =>
        refine checksMade_resolving fun itemId hitem hdone => ?_
        by_cases hread : itemId = part.inventoryItemId
        · rw [hread]
          exact hasLeft_of_offers hoffers
        · refine hmade.listed itemId (List.mem_filter.mpr ⟨hitem, decide_eq_true ?_⟩)
          rw [List.map_cons, List.mem_cons]
          exact fun hor => hor.elim hread hdone
  case h_6 command now attempts number =>
    obtain ⟨sagaOut, hsaga, rfl⟩ := Option.map_eq_some_iff.mp hexec
    simp only [sagaExec] at hsaga
    split at hsaga
    · cases hsaga
      exact checksMade_idle
    · rename_i nextId workOrder hopen
      cases hsaga
      have hitems := CreateCommand.openWith_plannedItems hopen
      exact checksMade_creating hmade.listed hitems
  case h_7 command now attempts workOrder surroundings =>
    obtain ⟨sagaOut, hsaga, rfl⟩ := Option.map_eq_some_iff.mp hexec
    simp only [sagaExec] at hsaga
    unfold afterAttempt
    split at hsaga
    · cases hsaga
      split
      · exact checksMade_drawing hmade.listed now attempts
      · exact checksMade_idle
    · rename_i tables _
      cases hsaga
      split
      · refine checksMade_drawing ?_ now attempts
        exact hmade.listed
      · exact checksMade_idle
  case h_8 edit part surroundings =>
    cases hexec
    cases hoffers : offers db.inventory part with
    | false => exact checksMade_idle
    | true =>
        refine checksMade_running (fun itemId hitem => ?_)
          fun _ hitem => absurd hitem List.not_mem_nil
        rw [List.mem_singleton.mp (hmade.planned edit part rfl hitem)]
        exact hasLeft_of_offers hoffers
  case h_9 item surroundings =>
    cases hexec
    cases hunused : (openWorkOrderNumbersUsing db.tables item.id).isEmpty with
    | false => exact checksMade_idle
    | true =>
        refine checksMade_running (fun _ hitem => absurd hitem List.not_mem_nil)
          fun itemId hitem => ?_
        rw [(mem_takesOut.mp hitem).2]
        exact List.isEmpty_iff.mp hunused
  case h_10 =>
    cases hexec
    exact checksMade_idle
  case h_11 =>
    cases hexec
    exact checksMade_idle
  case h_12 => cases hexec

/-- What a program whose checks are made writes relies on them. -/
theorem ChecksMade.writes {place : CheckedPlace}
    (hmade : ChecksMade db place) (hreading : place.isReading = false) :
    (∀ itemId ∈ place.saga.plans, hasLeft db.inventory itemId = false) ∧
      ∀ itemId ∈ place.saga.takesOut, openWorkOrderNumbersUsing db.tables itemId = [] := by
  cases place with
  | running place => exact ⟨hmade.listed, hmade.unused⟩
  | creating command now attempts workOrder =>
      refine ⟨fun itemId hitem => ?_, fun _ hitem => absurd hitem List.not_mem_nil⟩
      exact hmade.listed itemId (hmade.created _ _ _ _ rfl hitem)
  | readingPart edit part => cases hreading
  | readingUse item => cases hreading
  | _ =>
      exact ⟨fun _ hitem => absurd hitem List.not_mem_nil,
        fun _ hitem => absurd hitem List.not_mem_nil⟩

end Places

end WorkOrders

end Workshop
