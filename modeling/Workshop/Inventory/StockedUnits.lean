/-
How much of an item there is.  The units on the shelf and the units that are out for work
orders add up to what was stocked, so what comes back is never more than the stock was.
-/
import Workshop.Inventory.ReturnBounds
import Workshop.Inventory.ShelfLedger

namespace Workshop

namespace Inventory

namespace InventoryDb

/-- The units of an item that were stocked: what came in, less what was adjusted away. -/
def stockedUnits (db : InventoryDb) (inventoryItemId : ItemId) : Int :=
  db.movedTotal inventoryItemId [.inbound] - db.movedTotal inventoryItemId [.adjustment]

/-- What is left of the consumptions of an item. -/
def outUnits (db : InventoryDb) (inventoryItemId : ItemId) : Int :=
  sumWhere (fun row => row.kind = .consumption &&
    decide (row.inventoryItemId = inventoryItemId)) db.netRemaining db.movements

end InventoryDb

/-- What was stocked of every item fits its count. -/
def StocksFit (db : InventoryDb) : Prop :=
  ∀ inventoryItemId ∈ db.itemIds, db.stockedUnits inventoryItemId ≤ maxInteger

instance (db : InventoryDb) : Decidable (StocksFit db) :=
  inferInstanceAs (Decidable (∀ inventoryItemId ∈ db.itemIds, _))

section Totals

variable {db : InventoryDb} {inventoryItemId : ItemId}

theorem movedTotal_cons {kind : StockMovementKind} {kinds : List StockMovementKind}
    (hnew : kind ∉ kinds) :
    db.movedTotal inventoryItemId (kind :: kinds) =
      db.movedTotal inventoryItemId [kind] + db.movedTotal inventoryItemId kinds := by
  unfold InventoryDb.movedTotal
  rw [sumWhere_split _ fun row => decide (row.kind = kind)]
  congr 1
  · refine sumWhere_congr (fun row _ => ?_) fun _ _ _ => rfl
    by_cases hkind : row.kind = kind <;> simp [hkind]
  · refine sumWhere_congr (fun row _ => ?_) fun _ _ _ => rfl
    by_cases hkind : row.kind = kind
    · simp [hkind, hnew]
    · simp [hkind]

/-- Every return of an item was made on one consumption of it. -/
theorem sum_returnedTotal (hshape : LedgerShape db) :
    sumWhere (fun row => row.kind = .consumption &&
        decide (row.inventoryItemId = inventoryItemId))
      (fun row => db.returnedTotal row.id) db.movements =
    db.movedTotal inventoryItemId [.returned] := by
  have hcover : ∀ row ∈ db.movements,
      (decide (row.inventoryItemId = inventoryItemId) &&
        decide (row.kind ∈ [StockMovementKind.returned])) = true →
      ∃ target ∈ consumptionsOf db.movements,
        decide (target.inventoryItemId = inventoryItemId) = true ∧
          row.undoesMovementId = some target.id := by
    intro row hrow htest
    simp only [Bool.and_eq_true, decide_eq_true_eq, List.mem_singleton] at htest
    obtain ⟨target, htarget, hkind, hundoes, hitem, -⟩ := hshape.points row hrow htest.2
    exact ⟨target, mem_consumptionsOf.mpr ⟨htarget, hkind⟩,
      decide_eq_true (hitem.symm.trans htest.1), hundoes⟩
  rw [InventoryDb.movedTotal, ← sumWhere_fibers hshape.ids hcover, consumptionsOf,
    sumWhere_filter]
  refine sumWhere_congr (fun row _ => Bool.and_comm _ _) fun target htarget htest => ?_
  simp only [Bool.and_eq_true, decide_eq_true_eq] at htest
  refine sumWhere_congr (fun row hrow => ?_) fun _ _ _ => rfl
  by_cases hundoes : row.kind = .returned ∧ row.undoesMovementId = some target.id
  · -- The return points at this consumption only, so it is of the same item.
    obtain ⟨other, hother, hkind, hpoints, hitem, -⟩ := hshape.points row hrow hundoes.1
    obtain rfl := hshape.eq_of_id hother hkind htarget htest.1
      (Option.some.inj (hpoints.symm.trans hundoes.2))
    simp [hundoes.1, hundoes.2, hitem, htest.2]
  · rw [not_and_or] at hundoes
    rcases hundoes with hkind | hundoes
    · simp [hkind]
    · simp [hundoes]

/-- What is out of an item is what was consumed of it, less what was returned. -/
theorem outUnits_eq (hshape : LedgerShape db) :
    db.outUnits inventoryItemId =
      db.movedTotal inventoryItemId [.consumption] -
        db.movedTotal inventoryItemId [.returned] := by
  rw [← sum_returnedTotal hshape, InventoryDb.outUnits]
  change sumWhere _ (fun row : MovementRow => row.quantity - db.returnedTotal row.id) _ = _
  rw [sumWhere_sub]
  refine congrArg (· - _) (sumWhere_congr (fun row _ => ?_) fun _ _ _ => rfl)
  simp [Bool.and_comm]

/-- The units on the shelf and the units that are out are those that were stocked. -/
theorem onHand_add_outUnits (hshelf : ShelfMatches db) (hshape : LedgerShape db)
    {row : ItemRow} (hrow : row ∈ db.items) :
    row.quantityOnHand + db.outUnits row.id = db.stockedUnits row.id := by
  have hin : db.movedTotal row.id [.inbound, .returned] =
      db.movedTotal row.id [.inbound] + db.movedTotal row.id [.returned] :=
    movedTotal_cons (by decide)
  have hoff : db.movedTotal row.id [.consumption, .adjustment] =
      db.movedTotal row.id [.consumption] + db.movedTotal row.id [.adjustment] :=
    movedTotal_cons (by decide)
  rw [(hshelf.count row hrow).1, shelfTotal_eq_movedTotal, hin, hoff, outUnits_eq hshape,
    InventoryDb.stockedUnits]
  omega

/-- The shelf has room for what is out, as long as what was stocked fits. -/
theorem StocksFit.room (hfit : StocksFit db) (hshelf : ShelfMatches db)
    (hshape : LedgerShape db) {row : ItemRow} (hrow : row ∈ db.items) {units : Int}
    (hunits : units ≤ db.outUnits row.id) : row.quantityOnHand + units ≤ maxInteger := by
  have hstocked := onHand_add_outUnits hshelf hshape hrow
  have hfits := hfit row.id (List.mem_map_of_mem hrow)
  omega

end Totals

section Keeping

variable {db db' : InventoryDb} {posts : List MovementRow}

/-- Only a replenishment and an adjustment change what was stocked. -/
theorem Posted.stockedUnits (hposted : Posted db db' posts)
    (hposts : ∀ row ∈ posts, row.kind ≠ .inbound ∧ row.kind ≠ .adjustment)
    (inventoryItemId : ItemId) :
    db'.stockedUnits inventoryItemId = db.stockedUnits inventoryItemId := by
  obtain ⟨rows, hperm, hmovements⟩ := hposted.movements
  have hnone : ∀ kind, kind = StockMovementKind.inbound ∨ kind = .adjustment →
      db'.movedTotal inventoryItemId [kind] = db.movedTotal inventoryItemId [kind] := by
    intro kind hkind
    have hposted : sumWhere (fun row => row.inventoryItemId = inventoryItemId &&
        decide (row.kind ∈ [kind])) (fun row => row.quantity) posts = 0 := by
      refine sumWhere_eq_zero fun row hrow htest => ?_
      simp only [Bool.and_eq_true, decide_eq_true_eq, List.mem_singleton] at htest
      rcases hkind with rfl | rfl
      · exact absurd htest.2 (hposts row hrow).1
      · exact absurd htest.2 (hposts row hrow).2
    rw [InventoryDb.movedTotal, hmovements, sumWhere_append, sumWhere_perm hperm, hposted,
      add_zero]
    rfl
  rw [InventoryDb.stockedUnits, hnone _ (Or.inl rfl), hnone _ (Or.inr rfl),
    InventoryDb.stockedUnits]

theorem SameMovement.stockedUnits {change : MovementRow → MovementRow}
    (hsame : SameMovement change) (transitions : List TransitionRow)
    (inventoryItemId : ItemId) :
    ({ db with movements := db.movements.map change, transitions } :
      InventoryDb).stockedUnits inventoryItemId = db.stockedUnits inventoryItemId := by
  have hmoved : ∀ kinds, ({ db with movements := db.movements.map change, transitions } :
      InventoryDb).movedTotal inventoryItemId kinds =
        db.movedTotal inventoryItemId kinds := by
    intro kinds
    rw [InventoryDb.movedTotal, sumWhere_map]
    exact sumWhere_congr (fun row _ => by simp [hsame.inventoryItemId, hsame.kind])
      fun row _ _ => hsame.quantity row
  rw [InventoryDb.stockedUnits, hmoved, hmoved, InventoryDb.stockedUnits]

theorem StocksFit.of_same (hfit : StocksFit db) (hids : db'.itemIds = db.itemIds)
    (hstocked : ∀ inventoryItemId,
      db'.stockedUnits inventoryItemId = db.stockedUnits inventoryItemId) :
    StocksFit db' := by
  intro inventoryItemId hid
  rw [hstocked]
  exact hfit inventoryItemId (hids ▸ hid)

end Keeping

end Inventory

end Workshop
