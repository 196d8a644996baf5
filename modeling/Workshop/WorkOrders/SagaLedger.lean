/-
The tables of inventory along a run of the saga: the ledger keeps its shape,
and the id generator never goes back.
-/
import Workshop.Inventory.ReturnBounds
import Workshop.WorkOrders.SagaChanges

namespace Workshop

namespace WorkOrders

open Inventory

/-- The configurations a run of the saga leads to, with what it committed. -/
abbrev SagaReaches (settings : OutboxSettings) :
    Config WorkshopDb SagaPlace → List SagaEffect → Prop :=
  Reaches (sagaExec settings) emptyWorkshop

section Statements

variable {db db' : InventoryDb} {place next : SagaPlace}
variable {effects : List SagaEffect}

theorem StockChange.shape (hshape : LedgerShape db)
    (hplain : ∀ item, place = .shelf item → PlainItem item)
    (h : StockChange db place next effects db') : LedgerShape db' := by
  cases h with
  | quiet _ _ nextId hle => exact hshape.withNextId hle
  | save item _ hsave => exact hshape.save (hplain item rfl) hsave
  | consume withdrawal now _ hconsume =>
      exact hshape.consumeStockBatch hconsume
  | undo errand named now _ hundo => exact hshape.undoConsumption hundo
  | confirm step queue operationId now hkind hoperation =>
      exact hshape.mapMovements (sameMovement_confirm operationId _)
  | restore step queue order now _ hkind hrestore =>
      exact hshape.restoreStockBatch hrestore
  | close step queue closure candidates now =>
      exact hshape.mapMovements (sameMovement_close closure candidates)

/-- Ids are drawn and never given back. -/
theorem StockChange.nextId_le (hnodup : db.itemIds.Nodup)
    (h : StockChange db place next effects db') : db.nextId ≤ db'.nextId := by
  cases h with
  | quiet _ _ nextId hle => exact hle
  | save item _ hsave =>
      obtain ⟨row, -, -, -, -, rfl⟩ := save_ok hsave
      exact le_rfl
  | consume withdrawal now _ hconsume =>
      obtain ⟨posts, hposted, -⟩ := consumeStockBatch_ok hnodup hconsume
      exact hposted.nextId ▸ Nat.le_add_right _ _
  | restore step queue order now _ hkind hrestore =>
      rcases restoreStockBatch_ok hnodup hrestore with
        ⟨-, rfl⟩ | ⟨-, posts, hposted, -⟩
      · exact le_rfl
      · exact hposted.nextId ▸ Nat.le_add_right _ _
  | undo errand named now _ hundo =>
      obtain ⟨posts, hposted, -⟩ := undoConsumption_ok hnodup hundo
      exact hposted.nextId ▸ Nat.le_add_right _ _
  | confirm step queue operationId now hkind hoperation => exact le_rfl
  | close step queue closure candidates now => exact le_rfl

end Statements

section Runs

variable {settings : OutboxSettings} {db : WorkshopDb} {place : SagaPlace}
variable {input : SagaInput} {out : SagaOutcome}

/-- A copy of an item is under way only once it was loaded or created. -/
theorem SagaMove.shelf_fresh (hmove : SagaMove settings db place input out)
    {item : InventoryItem} (hitem : out.place = .shelf item) :
    Saveable out.store.inventory item ∧ PlainItem item := by
  cases hmove with
  | shelfRead input nextId hle next hnext =>
      cases next with
      | saving copy =>
          cases hitem
          exact hnext item rfl
      | _ => cases hitem
  | errandFails input errand error hplace => cases errand <;> cases hitem
  | complete surroundings errand =>
      cases errand with
      | compensation undo => cases hitem
      | application step queue => cases queue <;> cases hitem
  | recordError surroundings step queue error => cases queue <;> cases hitem
  | claim surroundings operationIds =>
      simp only [claimDue] at hitem
      revert hitem
      generalize StockSteps.claimedSteps _ _ = steps
      intro hitem
      cases steps <;> cases hitem
  | readBudgets surroundings request row services parts =>
      simp only [stay] at hitem
      revert hitem
      generalize WorkOrderRequest.prepare _ _ _ _ _ = prepared
      intro hitem
      cases prepared <;> cases hitem
  | _ => cases hitem

variable {config : Config WorkshopDb SagaPlace} {log : List SagaEffect}

/-- The ledger keeps its shape along every run of the saga. -/
theorem sagaLedger_of_reaches (h : SagaReaches settings config log) :
    LedgerShape config.store.inventory ∧
      ∀ pid item, config.places pid = .shelf item → PlainItem item := by
  refine ReachesBy.invariant_of_places
    (G := fun db _ => LedgerShape db.inventory)
    (L := fun _ _ place => ∀ item, place = .shelf item → PlainItem item)
    ledgerShape_empty ?_ ?_ ?_ h
  · intro pid item hitem
    cases hitem
  · intro config log pid input out _ hshape hplaces _ hexec
    have hmove := sagaMove_of_exec hexec
    exact ⟨hmove.stock.shape hshape (hplaces pid),
      fun item hitem => (hmove.shelf_fresh hitem).2⟩
  · exact fun _ _ _ _ _ hplaces _ _ other _ => hplaces other

theorem nextId_le_of_exec (h : SagaReaches settings config log) {pid : Nat}
    (hexec : sagaExec settings config.store (config.places pid) input = some out) :
    config.store.nextId ≤ out.store.nextId :=
  (sagaMove_of_exec hexec).stock.nextId_le (sagaLedger_of_reaches h).1.items

end Runs

end WorkOrders

end Workshop
