/-
What a committed batch posts to the ledger.  A batch changes loaded items in
memory, line by line, and saves them at the end; the lemmas below turn that
into the rows it appends, each described by the line it comes from.
-/
import Workshop.Inventory.Batches
import Workshop.Library.GreedyDraw
import Workshop.Library.Results

namespace Workshop

namespace Inventory

/-- The movement rows that saving these items appends. -/
def newRows (loaded : List InventoryItem) : List MovementRow :=
  loaded.flatMap fun item => item.movements.map (toMovementRow item.id)

@[simp] theorem newRows_nil : newRows [] = [] := rfl

@[simp] theorem newRows_cons (item : InventoryItem) (items : List InventoryItem) :
    newRows (item :: items) =
      item.movements.map (toMovementRow item.id) ++ newRows items := rfl

@[simp] theorem toMovementRow_id (itemId : ItemId) (movement : StockMovement) :
    (toMovementRow itemId movement).id = movement.id := rfl

@[simp] theorem toMovementRow_inventoryItemId (itemId : ItemId)
    (movement : StockMovement) :
    (toMovementRow itemId movement).inventoryItemId = itemId := rfl

section Lines

variable {loaded loaded' : List InventoryItem} {item : InventoryItem}

theorem findLoaded_ok {id : ItemId} (hfind : findLoaded loaded id = .ok item) :
    item ∈ loaded ∧ item.id = id := by
  unfold findLoaded at hfind
  cases hsome : loaded.find? (fun other => other.id = id) with
  | none => simp [hsome] at hfind
  | some found =>
      simp only [hsome, Except.ok.injEq] at hfind
      subst hfind
      exact ⟨List.mem_of_find?_eq_some hsome, by simpa using List.find?_some hsome⟩

theorem updateLoaded_ids (loaded : List InventoryItem) (item : InventoryItem) :
    (updateLoaded loaded item).map InventoryItem.id =
      loaded.map InventoryItem.id := by
  rw [updateLoaded, List.map_map]
  refine List.map_congr_left fun other _ => ?_
  simp only [Function.comp]
  split <;> simp_all

theorem updateLoaded_of_not_mem
    (hnot : item.id ∉ loaded.map InventoryItem.id) :
    updateLoaded loaded item = loaded := by
  refine (List.map_congr_left fun other hother => ?_).trans (List.map_id loaded)
  have hne : other.id ≠ item.id := fun heq =>
    hnot (heq ▸ List.mem_map_of_mem hother)
  rw [if_neg hne, id]

/-- Loaded items grew in memory: the same items, and these rows more. -/
structure Extends (loaded loaded' : List InventoryItem)
    (posts : List MovementRow) : Prop where
  ids : loaded'.map InventoryItem.id = loaded.map InventoryItem.id
  rows : (newRows loaded').Perm (newRows loaded ++ posts)

theorem Extends.refl (loaded : List InventoryItem) : Extends loaded loaded [] :=
  ⟨rfl, by simp⟩

theorem Extends.trans {loaded'' : List InventoryItem}
    {posts more : List MovementRow} (hfirst : Extends loaded loaded' posts)
    (hsecond : Extends loaded' loaded'' more) :
    Extends loaded loaded'' (posts ++ more) where
  ids := hsecond.ids.trans hfirst.ids
  rows := by
    rw [← List.append_assoc]
    exact hsecond.rows.trans (hfirst.rows.append_right more)

theorem Extends.nodup {posts : List MovementRow}
    (h : Extends loaded loaded' posts)
    (hnodup : (loaded.map InventoryItem.id).Nodup) :
    (loaded'.map InventoryItem.id).Nodup := by
  rw [h.ids]
  exact hnodup

/-- Appending movements to one loaded item appends their rows. -/
theorem extends_updateLoaded {item' : InventoryItem}
    {movements : List StockMovement}
    (hnodup : (loaded.map InventoryItem.id).Nodup) (hmem : item ∈ loaded)
    (hid : item'.id = item.id)
    (hmovements : item'.movements = item.movements ++ movements) :
    Extends loaded (updateLoaded loaded item')
      (movements.map (toMovementRow item.id)) := by
  refine ⟨updateLoaded_ids loaded item', ?_⟩
  induction loaded with
  | nil => simp at hmem
  | cons head tail ih =>
      rw [List.map_cons, List.nodup_cons] at hnodup
      by_cases hhead : head.id = item.id
      · have hsame : head = item := by
          rcases List.mem_cons.mp hmem with rfl | hmem
          · rfl
          · exact absurd (hhead ▸ List.mem_map_of_mem hmem) hnodup.1
        subst hsame
        have htail : updateLoaded tail item' = tail :=
          updateLoaded_of_not_mem (hid ▸ hnodup.1)
        have hcons : updateLoaded (head :: tail) item' = item' :: tail := by
          rw [updateLoaded, List.map_cons, if_pos hid.symm]
          exact congrArg _ htail
        rw [hcons, newRows_cons, newRows_cons, hmovements, hid, List.map_append,
          List.append_assoc, List.append_assoc]
        exact List.Perm.append_left _ List.perm_append_comm
      · have hmem : item ∈ tail := by
          rcases List.mem_cons.mp hmem with rfl | hmem
          · exact absurd rfl hhead
          · exact hmem
        have hcons : updateLoaded (head :: tail) item' =
            head :: updateLoaded tail item' := by
          simp [updateLoaded, hid, hhead]
        rw [hcons, newRows_cons, newRows_cons, List.append_assoc]
        exact List.Perm.append_left _ (ih hnodup.2 hmem)

end Lines

section Consume

variable {command : ConsumeStockBatchCommand} {now : Timestamp}

/-- The row a line of a withdrawal posts. -/
structure IsConsumption (command : ConsumeStockBatchCommand) (line : StockLine)
    (row : MovementRow) : Prop where
  kind : row.kind = .consumption
  inventoryItemId : row.inventoryItemId = line.inventoryItemId
  quantity : row.quantity = line.quantity
  positive : 0 < line.quantity
  workOrderId : row.workOrderId = some command.workOrderId
  operationId : row.operationId = command.operationId
  undoesMovementId : row.undoesMovementId = none
  status : row.status = some .pending
  confirmedAt : row.confirmedAt = none

theorem checkQuantity_ok {quantity : Int}
    (h : StockMovement.checkQuantity quantity = .ok ()) : 0 < quantity := by
  unfold StockMovement.checkQuantity at h
  split at h
  · cases h
  · omega

/-- Consuming appends one movement with the values of the input. -/
theorem consume_ok {item item' : InventoryItem} {input : ConsumeStockInput}
    (h : item.consume input = .ok item') :
    0 < input.quantity ∧ item'.id = item.id ∧
      item'.movements = item.movements ++ [input.toMovement item.unitPrice] := by
  obtain ⟨movement, hmovement, h⟩ := bind_eq_ok_iff.mp h
  obtain ⟨quantityOnHand, -, h⟩ := bind_eq_ok_iff.mp h
  obtain ⟨⟨⟩, hcheck, hmovement⟩ := bind_eq_ok_iff.mp hmovement
  rw [pure_eq_ok_iff] at h hmovement
  subst h hmovement
  exact ⟨checkQuantity_ok hcheck, rfl, rfl⟩

/-- The line loop of a withdrawal posts one consumption for each line. -/
theorem consumeLines_ok {lines : List StockLine} :
    ∀ {loaded loaded' : List InventoryItem} {nextId nextId' : Uuid},
      (loaded.map InventoryItem.id).Nodup →
      consumeLines command now lines loaded nextId = .ok (loaded', nextId') →
      ∃ posts, Extends loaded loaded' posts ∧
        List.Forall₂ (IsConsumption command) lines posts ∧
        posts.map (fun row => row.id) = List.range' nextId lines.length ∧
        nextId' = nextId + lines.length := by
  induction lines with
  | nil =>
      intro loaded loaded' nextId nextId' _ h
      simp only [consumeLines, Except.ok.injEq, Prod.mk.injEq] at h
      obtain ⟨rfl, rfl⟩ := h
      exact ⟨[], Extends.refl _, List.Forall₂.nil, rfl, rfl⟩
  | cons line lines ih =>
      intro loaded loaded' nextId nextId' hnodup h
      simp only [consumeLines] at h
      obtain ⟨item, hitem, h⟩ := bind_eq_ok_iff.mp h
      obtain ⟨item', hconsume, h⟩ := bind_eq_ok_iff.mp h
      obtain ⟨hmem, hid⟩ := findLoaded_ok hitem
      obtain ⟨hpositive, hid', hmovements⟩ := consume_ok hconsume
      have hone := extends_updateLoaded hnodup hmem hid' hmovements
      obtain ⟨posts, hextends, hposts, hids, hnext⟩ := ih (hone.nodup hnodup) h
      refine ⟨_ :: posts, hone.trans hextends, List.Forall₂.cons ?_ hposts, ?_, ?_⟩
      · exact ⟨rfl, hid, rfl, hpositive, rfl, rfl, rfl, rfl, rfl⟩
      · simp only [List.map_cons, List.length_cons, List.range'_succ, hids]
        rfl
      · rw [hnext, List.length_cons, Nat.add_assoc, Nat.add_comm 1]

end Consume

/-- The row a `RETURN` on one consumption posts. -/
structure IsReturn (operationId : OperationId) (workOrderId : WorkOrderId)
    (inventoryItemId : ItemId) (draw : MovementId × Int) (row : MovementRow) :
    Prop where
  kind : row.kind = .returned
  inventoryItemId : row.inventoryItemId = inventoryItemId
  quantity : row.quantity = draw.2
  positive : 0 < draw.2
  workOrderId : row.workOrderId = some workOrderId
  operationId : row.operationId = some operationId
  undoesMovementId : row.undoesMovementId = some draw.1
  status : row.status = none
  confirmedAt : row.confirmedAt = none

/-- Restoring appends one movement with the values of the input. -/
theorem restoreUnits_ok {item item' : InventoryItem} {input : RestoreStockInput}
    (h : item.restoreUnits input = .ok item') :
    0 < input.quantity ∧ item'.id = item.id ∧
      item'.movements = item.movements ++ [input.toMovement item.unitPrice] := by
  obtain ⟨movement, hmovement, h⟩ := bind_eq_ok_iff.mp h
  obtain ⟨quantityOnHand, -, h⟩ := bind_eq_ok_iff.mp h
  obtain ⟨⟨⟩, hcheck, hmovement⟩ := bind_eq_ok_iff.mp hmovement
  rw [pure_eq_ok_iff] at h hmovement
  subst h hmovement
  exact ⟨checkQuantity_ok hcheck, rfl, rfl⟩

section Restore

variable {db : InventoryDb} {order : RowOrder MovementRow}
variable {command : RestoreStockBatchCommand} {now : Timestamp}

/-- The pending consumptions a restore line draws from, as offers. -/
def offersFrom (pending : List PendingConsumptionDto) :
    List (MovementId × Int) :=
  pending.map fun consumption => (consumption.movementId, consumption.quantity)

/-- The offers a restore line finds. -/
def InventoryDb.offers (db : InventoryDb) (order : RowOrder MovementRow)
    (inventoryItemId : ItemId) (workOrderId : WorkOrderId) :
    List (MovementId × Int) :=
  offersFrom (db.findPendingConsumptions order inventoryItemId workOrderId)

/-- Everything a restore batch draws, line by line. -/
def InventoryDb.restoreDraws (db : InventoryDb) (order : RowOrder MovementRow)
    (workOrderId : WorkOrderId) (lines : List StockLine) :
    List (ItemId × MovementId × Int) :=
  lines.flatMap fun line =>
    (allocate (db.offers order line.inventoryItemId workOrderId) line.quantity).map
      fun draw => (line.inventoryItemId, draw)

/-- The draws of a line are the allocation over its offers, and what they do
not cover is what the line answers. -/
theorem drawFrom_ok {pending : List PendingConsumptionDto} :
    ∀ {remaining left : Int} {item item' : InventoryItem} {nextId nextId' : Uuid},
      drawFrom command now pending remaining item nextId =
        .ok (left, item', nextId') →
      ∃ movements, item'.id = item.id ∧
        item'.movements = item.movements ++ movements ∧
        List.Forall₂ (IsReturn command.operationId command.workOrderId item.id)
          (allocate (offersFrom pending) remaining)
          (movements.map (toMovementRow item.id)) ∧
        movements.map StockMovement.id = List.range' nextId movements.length ∧
        nextId' = nextId + movements.length ∧
        left = remaining - drawnTotal (allocate (offersFrom pending) remaining) := by
  induction pending with
  | nil =>
      intro remaining left item item' nextId nextId' h
      simp only [drawFrom, Except.ok.injEq, Prod.mk.injEq] at h
      obtain ⟨rfl, rfl, rfl⟩ := h
      exact ⟨[], rfl, by simp, List.Forall₂.nil, rfl, rfl, by simp [offersFrom]⟩
  | cons consumption pending ih =>
      intro remaining left item item' nextId nextId' h
      by_cases hdone : remaining ≤ 0
      · simp only [drawFrom, if_pos hdone, Except.ok.injEq, Prod.mk.injEq] at h
        obtain ⟨rfl, rfl, rfl⟩ := h
        rw [allocate_of_nonpos _ hdone]
        exact ⟨[], rfl, by simp, List.Forall₂.nil, rfl, rfl, by simp⟩
      · simp only [drawFrom, if_neg hdone] at h
        obtain ⟨drawn, hrestore, h⟩ := bind_eq_ok_iff.mp h
        obtain ⟨hpositive, hid, hmovements⟩ := restoreUnits_ok hrestore
        obtain ⟨movements, hid', hmovements', hposts, hids, hnext, hleft⟩ := ih h
        rw [hid] at hid' hposts
        rw [hmovements, List.append_assoc, List.singleton_append] at hmovements'
        rw [offersFrom, List.map_cons, ← offersFrom,
          allocate_cons_of_pos _ _ (by omega)]
        refine ⟨_, hid', hmovements', ?_, ?_, ?_, ?_⟩
        · exact List.Forall₂.cons
            ⟨rfl, rfl, rfl, hpositive, rfl, rfl, rfl, rfl, rfl⟩ hposts
        · simp only [List.map_cons, List.length_cons, List.range'_succ, hids]
          rfl
        · rw [hnext, List.length_cons, Nat.add_assoc, Nat.add_comm 1]
        · rw [hleft, drawnTotal_cons, Int.sub_sub]

/-- The line loop of a return posts the draws of every line, and every line
was covered. -/
theorem restoreLines_ok {lines : List StockLine} :
    ∀ {loaded loaded' : List InventoryItem} {nextId nextId' : Uuid},
      (loaded.map InventoryItem.id).Nodup →
      restoreLines db order command now lines loaded nextId =
        .ok (loaded', nextId') →
      ∃ posts, Extends loaded loaded' posts ∧
        List.Forall₂ (fun draw row => IsReturn command.operationId
            command.workOrderId draw.1 draw.2 row)
          (db.restoreDraws order command.workOrderId lines) posts ∧
        posts.map (fun row => row.id) = List.range' nextId posts.length ∧
        nextId' = nextId + posts.length ∧
        ∀ line ∈ lines, line.quantity ≤ drawnTotal (allocate
          (db.offers order line.inventoryItemId command.workOrderId)
          line.quantity) := by
  induction lines with
  | nil =>
      intro loaded loaded' nextId nextId' _ h
      simp only [restoreLines, Except.ok.injEq, Prod.mk.injEq] at h
      obtain ⟨rfl, rfl⟩ := h
      exact ⟨[], Extends.refl _, List.Forall₂.nil, rfl, rfl, by simp⟩
  | cons line lines ih =>
      intro loaded loaded' nextId nextId' hnodup h
      simp only [restoreLines] at h
      obtain ⟨item, hitem, h⟩ := bind_eq_ok_iff.mp h
      obtain ⟨⟨left, item', middle⟩, hdraw, h⟩ := bind_eq_ok_iff.mp h
      obtain ⟨hmem, hid⟩ := findLoaded_ok hitem
      obtain ⟨movements, hid', hmovements, hposts, hids, hmiddle, hleft⟩ :=
        drawFrom_ok hdraw
      by_cases hshort : 0 < left
      · simp [hshort, throw, throwThe, MonadExceptOf.throw, bind, Except.bind] at h
      simp only [hshort, if_false] at h
      have hone := extends_updateLoaded hnodup hmem hid' hmovements
      obtain ⟨posts, hextends, hrest, hrestIds, hnext, hcovered⟩ :=
        ih (hone.nodup hnodup) h
      rw [hid] at hposts hleft
      refine ⟨_ ++ posts, hone.trans hextends, ?_, ?_, ?_, ?_⟩
      · rw [InventoryDb.restoreDraws, List.flatMap_cons]
        refine List.rel_append ?_ hrest
        rw [List.forall₂_map_left_iff, hid]
        exact hposts
      · rw [List.map_append, hrestIds, List.map_map, List.length_append,
          List.length_map, hmiddle, ← List.range'_append_1]
        exact congrArg (· ++ _) hids
      · rw [hnext, hmiddle, List.length_append, List.length_map, Nat.add_assoc]
      · intro other hother
        rcases List.mem_cons.mp hother with rfl | hother
        · have := hleft
          rw [InventoryDb.offers]
          omega
        · exact hcovered other hother

end Restore

section Undo

variable {command : UndoConsumptionCommand} {now : Timestamp}

/-- The loop of an undo posts one return for each consumption it read. -/
theorem undoLines_ok {pending : List OperationConsumptionDto} :
    ∀ {loaded loaded' : List InventoryItem} {nextId nextId' : Uuid},
      (loaded.map InventoryItem.id).Nodup →
      undoLines command now pending loaded nextId = .ok (loaded', nextId') →
      ∃ posts, Extends loaded loaded' posts ∧
        List.Forall₂ (fun (consumption : OperationConsumptionDto) row =>
            IsReturn command.operationId consumption.workOrderId
              consumption.inventoryItemId
              (consumption.movementId, consumption.quantity) row)
          pending posts ∧
        posts.map (fun row => row.id) = List.range' nextId posts.length ∧
        nextId' = nextId + posts.length := by
  induction pending with
  | nil =>
      intro loaded loaded' nextId nextId' _ h
      simp only [undoLines, Except.ok.injEq, Prod.mk.injEq] at h
      obtain ⟨rfl, rfl⟩ := h
      exact ⟨[], Extends.refl _, List.Forall₂.nil, rfl, rfl⟩
  | cons consumption pending ih =>
      intro loaded loaded' nextId nextId' hnodup h
      simp only [undoLines] at h
      obtain ⟨item, hitem, h⟩ := bind_eq_ok_iff.mp h
      obtain ⟨item', hrestore, h⟩ := bind_eq_ok_iff.mp h
      obtain ⟨hmem, hid⟩ := findLoaded_ok hitem
      obtain ⟨hpositive, hid', hmovements⟩ := restoreUnits_ok hrestore
      have hone := extends_updateLoaded hnodup hmem hid' hmovements
      obtain ⟨posts, hextends, hposts, hids, hnext⟩ := ih (hone.nodup hnodup) h
      refine ⟨_ :: posts, hone.trans hextends, List.Forall₂.cons ?_ hposts, ?_, ?_⟩
      · exact ⟨rfl, hid, rfl, hpositive, rfl, rfl, rfl, rfl, rfl⟩
      · simp only [List.map_cons, List.length_cons, List.range'_succ, hids]
        rfl
      · rw [hnext, List.length_cons, Nat.add_assoc, Nat.add_comm 1]

end Undo

/-- What consuming from an item and restoring to it keep. -/
structure KeptByMovements (P : InventoryItem → Prop) : Prop where
  consume : ∀ {item item' : InventoryItem} {input : ConsumeStockInput},
    P item → item.consume input = .ok item' → P item'
  restore : ∀ {item item' : InventoryItem} {input : RestoreStockInput},
    P item → item.restoreUnits input = .ok item' → P item'

namespace KeptByMovements

variable {P : InventoryItem → Prop} {now : Timestamp}

theorem updateLoaded {loaded : List InventoryItem} {item : InventoryItem}
    (hloaded : ∀ other ∈ loaded, P other) (hitem : P item) :
    ∀ other ∈ updateLoaded loaded item, P other := by
  intro other hother
  obtain ⟨before, hbefore, rfl⟩ := List.mem_map.mp hother
  split
  · exact hitem
  · exact hloaded before hbefore

/-- What they keep holds of every loaded item after a batch was applied. -/
theorem consumeLines (hkept : KeptByMovements P) {command : ConsumeStockBatchCommand}
    {lines : List StockLine} :
    ∀ {loaded loaded' : List InventoryItem} {nextId nextId' : Uuid},
      (∀ item ∈ loaded, P item) →
      consumeLines command now lines loaded nextId = .ok (loaded', nextId') →
      ∀ item ∈ loaded', P item := by
  induction lines with
  | nil =>
      intro loaded loaded' nextId nextId' hloaded h
      cases h
      exact hloaded
  | cons line lines ih =>
      intro loaded loaded' nextId nextId' hloaded h
      obtain ⟨item, hitem, h⟩ := bind_eq_ok_iff.mp h
      obtain ⟨item', hconsume, h⟩ := bind_eq_ok_iff.mp h
      have hmem := (findLoaded_ok hitem).1
      exact ih (updateLoaded hloaded (hkept.consume (hloaded item hmem) hconsume)) h

theorem drawFrom (hkept : KeptByMovements P) {command : RestoreStockBatchCommand}
    {pending : List PendingConsumptionDto} :
    ∀ {remaining left : Int} {item item' : InventoryItem} {nextId nextId' : Uuid},
      P item → drawFrom command now pending remaining item nextId =
        .ok (left, item', nextId') → P item' := by
  induction pending with
  | nil =>
      intro remaining left item item' nextId nextId' hitem h
      cases h
      exact hitem
  | cons consumption pending ih =>
      intro remaining left item item' nextId nextId' hitem h
      unfold Inventory.drawFrom at h
      split at h
      · cases h
        exact hitem
      · obtain ⟨drawn, hrestore, h⟩ := bind_eq_ok_iff.mp h
        exact ih (hkept.restore hitem hrestore) h

theorem restoreLines (hkept : KeptByMovements P) {db : InventoryDb}
    {order : RowOrder MovementRow} {command : RestoreStockBatchCommand}
    {lines : List StockLine} :
    ∀ {loaded loaded' : List InventoryItem} {nextId nextId' : Uuid},
      (∀ item ∈ loaded, P item) →
      restoreLines db order command now lines loaded nextId =
        .ok (loaded', nextId') →
      ∀ item ∈ loaded', P item := by
  induction lines with
  | nil =>
      intro loaded loaded' nextId nextId' hloaded h
      cases h
      exact hloaded
  | cons line lines ih =>
      intro loaded loaded' nextId nextId' hloaded h
      obtain ⟨item, hitem, h⟩ := bind_eq_ok_iff.mp h
      obtain ⟨⟨left, item', middle⟩, hdraw, h⟩ := bind_eq_ok_iff.mp h
      by_cases hshort : 0 < left
      · simp [hshort, throw, throwThe, MonadExceptOf.throw, bind, Except.bind] at h
      simp only [hshort, if_false] at h
      have hmem := (findLoaded_ok hitem).1
      exact ih (updateLoaded hloaded (hkept.drawFrom (hloaded item hmem) hdraw)) h

theorem undoLines (hkept : KeptByMovements P) {command : UndoConsumptionCommand}
    {pending : List OperationConsumptionDto} :
    ∀ {loaded loaded' : List InventoryItem} {nextId nextId' : Uuid},
      (∀ item ∈ loaded, P item) →
      undoLines command now pending loaded nextId = .ok (loaded', nextId') →
      ∀ item ∈ loaded', P item := by
  induction pending with
  | nil =>
      intro loaded loaded' nextId nextId' hloaded h
      cases h
      exact hloaded
  | cons consumption pending ih =>
      intro loaded loaded' nextId nextId' hloaded h
      obtain ⟨item, hitem, h⟩ := bind_eq_ok_iff.mp h
      obtain ⟨item', hrestore, h⟩ := bind_eq_ok_iff.mp h
      have hmem := (findLoaded_ok hitem).1
      exact ih (updateLoaded hloaded (hkept.restore (hloaded item hmem) hrestore)) h

end KeptByMovements

end Inventory

end Workshop
