/-
The shelf along a run of the saga: the counts are what the ledger adds up to, no SKU
is held by two active items, and no id is drawn that a step of the outbox carries.
-/
import Workshop.WorkOrders.OutboxRows
import Workshop.WorkOrders.ShortBatches

namespace Workshop

namespace WorkOrders

open Inventory

/-- The ids of the steps a program is about to record. -/
def SagaPlace.stepIds : SagaPlace → List OperationId
  | .saving _ (some step) => [step.operationId]
  | .arming withdrawal | .consuming withdrawal | .committing withdrawal =>
      [withdrawal.undo.operationId, withdrawal.confirmation.operationId]
  | _ => []

section Statements

variable {db db' : InventoryDb} {place next : SagaPlace}
variable {effects : List SagaEffect}

theorem StockChange.shelf (hshelf : ShelfMatches db)
    (hsaveable : ∀ item, place = .shelf item → Saveable db item)
    (h : StockChange db place next effects db') : ShelfMatches db' := by
  cases h with
  | quiet _ _ nextId hle => exact hshelf.withNextId nextId
  | save item _ hsave => exact hshelf.save (hsaveable item rfl) hsave
  | consume withdrawal now _ hconsume => exact hshelf.consumeStockBatch hconsume
  | undo errand named now _ hundo => exact hshelf.undoConsumption hundo
  | confirm step queue operationId now hkind hoperation =>
      refine hshelf.mapMovements (fun row => ?_) (fun row => ?_) <;> split <;> rfl
  | restore step queue order now _ hkind hrestore => exact hshelf.restoreStockBatch hrestore
  | close step queue closure candidates now =>
      refine hshelf.mapMovements (fun row => ?_) (fun row => ?_) <;> split <;> rfl

/-- The saves of a batch, and the ids it drew. -/
theorem SkusHeldOnce.batch (hskus : SkusHeldOnce db) {items : List InventoryItem}
    {saved : InventoryDb} {nextId : Uuid} (hsaved : db.saveAll items = .ok saved)
    (h : { saved with nextId } = db') : SkusHeldOnce db' := by
  have hkept : SkusHeldOnce saved := hskus.saveAll hsaved
  exact h ▸ hkept

/-- Items are saved one by one, each under a SKU that is free. -/
theorem StockChange.skus (hskus : SkusHeldOnce db)
    (h : StockChange db place next effects db') : SkusHeldOnce db' := by
  cases h with
  | quiet _ _ nextId hle => exact hskus
  | save item _ hsave => exact hskus.save hsave
  | consume withdrawal now _ hconsume =>
      obtain ⟨loaded, -, h⟩ := bind_eq_ok_iff.mp hconsume
      obtain ⟨changed, -, h⟩ := bind_eq_ok_iff.mp h
      obtain ⟨saved, hsaved, h⟩ := bind_eq_ok_iff.mp h
      exact hskus.batch hsaved (pure_eq_ok_iff.mp h)
  | undo errand named now _ hundo =>
      obtain ⟨loaded, -, h⟩ := bind_eq_ok_iff.mp hundo
      obtain ⟨changed, -, h⟩ := bind_eq_ok_iff.mp h
      obtain ⟨saved, hsaved, h⟩ := bind_eq_ok_iff.mp h
      exact hskus.batch hsaved (pure_eq_ok_iff.mp h)
  | confirm step queue operationId now hkind hoperation => exact hskus
  | restore step queue order now _ hkind hrestore =>
      obtain ⟨loaded, -, h⟩ := bind_eq_ok_iff.mp hrestore
      by_cases hrepeat : db.hasReturnOfOperation
          step.toStockStep.restoreCommand.operationId = true
      · rw [if_pos hrepeat, pure_eq_ok_iff] at h
        exact h ▸ hskus
      · rw [if_neg hrepeat] at h
        obtain ⟨changed, -, h⟩ := bind_eq_ok_iff.mp h
        obtain ⟨saved, hsaved, h⟩ := bind_eq_ok_iff.mp h
        exact hskus.batch hsaved (pure_eq_ok_iff.mp h)
  | close step queue closure candidates now => exact hskus

/-- No item is ever deleted. -/
theorem StockChange.itemIds (hnodup : db.itemIds.Nodup)
    (h : StockChange db place next effects db') : db.itemIds ⊆ db'.itemIds := by
  cases h with
  | save item _ hsave => exact save_itemIds_subset hsave
  | consume withdrawal now _ hconsume =>
      obtain ⟨posts, hposted, -⟩ := consumeStockBatch_ok hnodup hconsume
      exact hposted.itemIds ▸ List.Subset.refl _
  | undo errand named now _ hundo =>
      obtain ⟨posts, hposted, -⟩ := undoConsumption_ok hnodup hundo
      exact hposted.itemIds ▸ List.Subset.refl _
  | restore step queue order now _ hkind hrestore =>
      rcases restoreStockBatch_ok hnodup hrestore with ⟨-, rfl⟩ | ⟨-, posts, hposted, -⟩
      · exact List.Subset.refl _
      · exact hposted.itemIds ▸ List.Subset.refl _
  | _ => exact List.Subset.refl _

end Statements

section Drawing

variable {settings : OutboxSettings} {db : WorkshopDb} {place next : SagaPlace}
variable {input : SagaInput} {out : SagaOutcome} {effects : List SagaEffect}

@[simp] theorem stepIds_nextApplication (queue : List ClaimedStockStep) :
    (nextApplication queue).stepIds = [] := by
  cases queue <;> rfl

@[simp] theorem stepIds_shelfPlace (next : StockPlace) : (shelfPlace next).stepIds = [] := by
  cases next <;> rfl

/-- A request draws the ids of its steps. -/
theorem stepIds_prepared {request : WorkOrderRequest} {workOrder : WorkOrder} {nextId : Uuid}
    {now : Timestamp} {cancelsInExecution : Bool} {id : OperationId}
    (h : id ∈ (request.prepare workOrder nextId now cancelsInExecution).place.stepIds) :
    id < nextId + 2 := by
  have hnone : id ∈ ([] : List OperationId) → id < nextId + 2 := nofun
  have hfirst : id ∈ [nextId] → id < nextId + 2 := by
    intro hid
    rw [List.mem_singleton.mp hid]
    exact Nat.lt_add_of_pos_right Nat.two_pos
  have hboth : id ∈ [nextId, nextId + 1] → id < nextId + 2 := by
    intro hid
    rcases List.mem_cons.mp hid with rfl | hid
    · exact Nat.lt_add_of_pos_right Nat.two_pos
    · rw [List.mem_singleton.mp hid]
      exact Nat.lt_succ_self _
  revert h
  cases request with
  | withdrawParts command =>
      simp only [WorkOrderRequest.prepare, prepareWithdrawal]
      split
      · exact hnone
      · exact hboth
  | returnParts command =>
      simp only [WorkOrderRequest.prepare, prepareReturn]
      split
      · exact hnone
      · exact hfirst
  | deliverVehicle actorUserId =>
      simp only [WorkOrderRequest.prepare, prepareDelivery]
      split
      · exact hnone
      · exact hfirst
  | cancelWorkOrder reason actorUserId =>
      simp only [WorkOrderRequest.prepare, prepareCancellation]
      split
      · split
        · exact hnone
        · exact hfirst
      · exact hnone
  | plain change =>
      simp only [WorkOrderRequest.prepare, prepareChange]
      split
      · exact hnone
      · exact hnone

/-- A program that is about to record a step drew its id now or carried it before. -/
theorem SagaMove.stepIds (hmove : SagaMove settings db place input out) {id : OperationId}
    (h : id ∈ out.place.stepIds) : id ∈ place.stepIds ∨ id < out.store.nextId := by
  cases hmove with
  | errandFails input errand error hplace => cases errand <;> cases h
  | readBudgets surroundings request row services parts => exact Or.inr (stepIds_prepared h)
  | shelfRead input nextId hle next hnext =>
      rw [stay, stepIds_shelfPlace] at h
      cases h
  | arm surroundings withdrawal dueAt steps hinsert => exact Or.inl h
  | consume surroundings withdrawal inventory hconsume => exact Or.inl h
  | complete surroundings errand =>
      cases errand with
      | compensation undo => cases h
      | application held queue =>
          rw [stay, Errand.afterwards, stepIds_nextApplication] at h
          cases h
  | claim surroundings operationIds =>
      simp only [claimDue, stepIds_nextApplication] at h
      cases h
  | recordError surroundings held queue error =>
      rw [stay, stepIds_nextApplication] at h
      cases h
  | _ => cases h

theorem AddedStep.mem_stepIds {row : StockStepRow}
    (h : AddedStep place next effects (some row)) : row.operationId ∈ place.stepIds := by
  cases h with
  | arm withdrawal dueAt now => exact List.mem_cons_self
  | saveStep edit step now => exact List.mem_cons_self
  | commit withdrawal now => exact List.mem_cons_of_mem _ List.mem_cons_self

end Drawing

section Runs

variable {settings : OutboxSettings} {config : Config WorkshopDb SagaPlace}
variable {log : List SagaEffect}

/-- In every reachable state the counts are right, and no SKU is held twice. -/
theorem shelf_of_reaches (h : SagaReaches settings config log) :
    ShelfMatches config.store.inventory ∧ SkusHeldOnce config.store.inventory := by
  refine (ReachesBy.invariant_of_places
    (G := fun db _ => ShelfMatches db.inventory ∧ SkusHeldOnce db.inventory)
    (L := fun db _ place => ∀ item, place = .shelf item → Saveable db.inventory item)
    ?_ (fun _ _ hidle => by cases hidle) ?_ ?_ h).1
  · have hnone : ∀ row ∈ ([] : List ItemRow), row.quantityOnHand ≤ maxInteger :=
      fun _ hrow => absurd hrow List.not_mem_nil
    exact ⟨⟨List.nodup_nil, fun _ hrow => absurd hrow List.not_mem_nil,
      fun _ hrow => absurd hrow List.not_mem_nil, hnone⟩,
      fun _ hrow => absurd hrow List.not_mem_nil⟩
  · intro config log pid input out _ hinv hplaces _ hexec
    have hmove := sagaMove_of_exec hexec
    exact ⟨⟨hmove.stock.shelf hinv.1 (hplaces pid), hmove.stock.skus hinv.2⟩,
      fun item hitem => (hmove.shelf_fresh hitem).1⟩
  · intro config log pid input out _ hinv hplaces _ hexec other _ item hitem
    have hsubset := (sagaMove_of_exec hexec).stock.itemIds hinv.1.nodup
    exact (hplaces other item hitem).imp_left fun hmem => hsubset hmem

/-- Every step is recorded under an id the generator handed out. -/
theorem stepIds_of_reaches (h : SagaReaches settings config log) :
    (∀ row ∈ config.store.steps, row.operationId < config.store.nextId) ∧
      ∀ pid, ∀ id ∈ (config.places pid).stepIds, id < config.store.nextId := by
  refine ReachesBy.invariant_of_places
    (G := fun db _ => ∀ row ∈ db.steps, row.operationId < db.nextId)
    (L := fun db _ place => ∀ id ∈ place.stepIds, id < db.nextId)
    (fun _ hrow => absurd hrow List.not_mem_nil)
    (fun _ _ hid => absurd hid List.not_mem_nil) ?_ ?_ h
  · intro config log pid input out before hsteps hplaces _ hexec
    have hmove := sagaMove_of_exec hexec
    have hle := nextId_le_of_exec before hexec
    refine ⟨fun row' hrow' => ?_, fun id hid => ?_⟩
    · rcases (steps_of_exec before hexec).mem hrow' with ⟨row, hrow, hsame, -⟩ | hadded
      · have hid : row'.operationId = row.operationId :=
          congrArg StockStep.operationId hsame
        rw [hid]
        exact (hsteps row hrow).trans_le hle
      · exact (hplaces pid _ hadded.mem_stepIds).trans_le hle
    · rcases hmove.stepIds hid with hold | hnew
      · exact (hplaces pid id hold).trans_le hle
      · exact hnew
  · intro config log pid input out before _ hplaces _ hexec other _ id hid
    exact (hplaces other id hid).trans_le (nextId_le_of_exec before hexec)

end Runs

end WorkOrders

end Workshop
