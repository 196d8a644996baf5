/-
Requests of inventory never wait for each other in a circle.  What one
statement does to the locks is said once; every invariant is a case analysis
on it, and the ranks of the library close the argument.
-/
import Workshop.Inventory.ItemLocks

namespace Workshop

namespace Inventory

/-- What a save's locking query leaves: its row locked, or nothing changed
because the item has no row yet. -/
def SaveLocks (s s' : LockedDb) (xid : Xid) (item : InventoryItem) : Prop :=
  s' = s ∨ s.isFree xid item.id = true ∧ s' = s.lock xid item.id

/-- What one statement does to the transactions and their locks. -/
inductive LockMove (keys : RowKeys) (s : LockedDb) :
    LockPlace → LockedDb → LockPlace → Prop
  | plain (place next : StockPlace) (tables : InventoryDb) :
      LockMove keys s (.plain place) { s with tables } (.plain next)
  | beginBatch (place : StockPlace) (batch : Batch) :
      LockMove keys s (.plain place) (s.beginBatch keys batch).store
        (s.beginBatch keys batch).place
  | beginSave (place : StockPlace) (item : InventoryItem) :
      LockMove keys s (.plain place) { s with nextXid := s.nextXid + 1 }
        (.lockingOne s.nextXid item)
  | lock (xid : Xid) (batch : Batch) (rows : List ItemId) (row : ItemId)
      (left : List ItemId) (hfree : s.isFree xid row = true) :
      LockMove keys s (.locking xid batch rows (row :: left)) (s.lock xid row)
        (.locking xid batch rows left)
  | applied (xid : Xid) (batch : Batch) (rows : List ItemId)
      (items : List InventoryItem) (tables : InventoryDb)
      (hitems : ∀ item ∈ items, item.id ∈ rows) :
      LockMove keys s (.locking xid batch rows []) { s with tables }
        (.saving xid items items)
  | saved (xid : Xid) (item : InventoryItem) (left items : List InventoryItem)
      {s' : LockedDb} (hlocks : SaveLocks s s' xid item) :
      LockMove keys s (.saving xid (item :: left) items) s'
        (.saving xid left items)
  | lockedOne (xid : Xid) (item : InventoryItem) {s' : LockedDb}
      (hlocks : SaveLocks s s' xid item) :
      LockMove keys s (.lockingOne xid item) s' (.savingOne xid item)
  | finished {place : LockPlace} {xid : Xid} (hxid : place.xid = some xid)
      (tables : InventoryDb) :
      LockMove keys s place ({ s with tables }.release xid) (.plain .idle)

section Lines

variable {loaded loaded' : List InventoryItem} {nextId nextId' : Uuid}
variable {now : Timestamp}

theorem consumeLines_ids {command : ConsumeStockBatchCommand}
    {lines : List StockLine}
    (h : consumeLines command now lines loaded nextId = .ok (loaded', nextId')) :
    loaded'.map InventoryItem.id = loaded.map InventoryItem.id := by
  induction lines generalizing loaded nextId with
  | nil =>
      cases h
      rfl
  | cons line lines ih =>
      obtain ⟨item, -, h⟩ := bind_eq_ok_iff.mp h
      obtain ⟨item', -, h⟩ := bind_eq_ok_iff.mp h
      rw [ih h, updateLoaded_ids]

theorem restoreLines_ids {db : InventoryDb} {order : RowOrder MovementRow}
    {command : RestoreStockBatchCommand} {lines : List StockLine}
    (h : restoreLines db order command now lines loaded nextId =
      .ok (loaded', nextId')) :
    loaded'.map InventoryItem.id = loaded.map InventoryItem.id := by
  induction lines generalizing loaded nextId with
  | nil =>
      cases h
      rfl
  | cons line lines ih =>
      obtain ⟨item, -, h⟩ := bind_eq_ok_iff.mp h
      obtain ⟨⟨remaining, item', next⟩, -, h⟩ := bind_eq_ok_iff.mp h
      by_cases hshort : 0 < remaining
      · simp only [if_pos hshort] at h
        obtain ⟨_, herror, -⟩ := bind_eq_ok_iff.mp h
        cases herror
      · simp only [if_neg hshort] at h
        rw [ih h, updateLoaded_ids]

theorem undoLines_ids {command : UndoConsumptionCommand}
    {pending : List OperationConsumptionDto}
    (h : undoLines command now pending loaded nextId = .ok (loaded', nextId')) :
    loaded'.map InventoryItem.id = loaded.map InventoryItem.id := by
  induction pending generalizing loaded nextId with
  | nil =>
      cases h
      rfl
  | cons consumption pending ih =>
      obtain ⟨item, -, h⟩ := bind_eq_ok_iff.mp h
      obtain ⟨item', -, h⟩ := bind_eq_ok_iff.mp h
      rw [ih h, updateLoaded_ids]

end Lines

theorem mem_rowsInKeyOrder {keys : RowKeys} {db : InventoryDb}
    {ids : List ItemId} {row : ItemRow} (h : row ∈ rowsInKeyOrder keys db ids) :
    row.id ∈ ids := by
  rw [rowsInKeyOrder, List.mem_insertionSort, List.mem_filter] at h
  exact of_decide_eq_true h.2

/-- The locking query answers the rows in ascending key order. -/
theorem rowsInKeyOrder_sorted (keys : RowKeys) (db : InventoryDb)
    (ids : List ItemId) :
    ((rowsInKeyOrder keys db ids).map ItemRow.id).Pairwise fun a b =>
      keys.key a ≤ keys.key b := by
  rw [List.pairwise_map]
  exact List.pairwise_insertionSort (fun a b : ItemRow => keys.key a.id ≤ keys.key b.id) _

/-- A batch saves items of rows it locked, and no other. -/
theorem mem_rows_of_apply {keys : RowKeys} {db : InventoryDb} {now : Timestamp}
    {rows : List ItemId} {batch : Batch} {items : List InventoryItem}
    {nextId : Uuid} (h : batch.apply keys db now rows = .ok (items, nextId)) :
    ∀ item ∈ items, item.id ∈ rows := by
  obtain ⟨loaded, hload, h⟩ := bind_eq_ok_iff.mp h
  have hloaded : ∀ item ∈ loaded, item.id ∈ rows := by
    intro item hitem
    have hid : item.id ∈ loaded.map InventoryItem.id := List.mem_map_of_mem hitem
    rw [(loadRows_ok hload).1] at hid
    obtain ⟨row, hrow, hid⟩ := List.mem_map.mp hid
    exact hid ▸ mem_rowsInKeyOrder hrow
  have hsame : ∀ {other : List InventoryItem},
      other.map InventoryItem.id = loaded.map InventoryItem.id →
        ∀ item ∈ other, item.id ∈ rows := by
    intro other hids item hitem
    have hmem : item.id ∈ other.map InventoryItem.id := List.mem_map_of_mem hitem
    rw [hids] at hmem
    obtain ⟨before, hbefore, hid⟩ := List.mem_map.mp hmem
    exact hid ▸ hloaded before hbefore
  cases batch with
  | consume command => exact hsame (consumeLines_ids h)
  | restore command order =>
      by_cases hrepeat : db.hasReturnOfOperation command.operationId = true
      · simp only [if_pos hrepeat, pure_eq_ok_iff] at h
        cases h
        exact fun _ hitem => absurd hitem List.not_mem_nil
      · simp only [if_neg hrepeat] at h
        exact hsame (restoreLines_ids h)
  | undo command named => exact hsame (undoLines_ids h)

/-- The next value of the id generator plays no part in a save. -/
theorem saveAll_nextId (nextId : Uuid) {items : List InventoryItem} :
    ∀ db : InventoryDb, ({ db with nextId } : InventoryDb).saveAll items =
      (db.saveAll items).map fun db => { db with nextId } := by
  induction items with
  | nil => exact fun _ => rfl
  | cons item items ih =>
      intro db
      have hsave : ({ db with nextId } : InventoryDb).save item =
          (db.save item).map fun db => { db with nextId } := by
        unfold InventoryDb.save InventoryDb.skuTaken
          InventoryDb.unresolvedMovement
        dsimp only
        split_ifs
        · rfl
        · rfl
        · rfl
        · split <;> rfl
      simp only [InventoryDb.saveAll, hsave]
      cases db.save item with
      | error error => rfl
      | ok saved => exact ih saved

/-- The rows a batch locked are the rows of its query, in the same order. -/
theorem rowsInKeyOrder_again (keys : RowKeys) (db : InventoryDb)
    (ids : List ItemId) :
    rowsInKeyOrder keys db ((rowsInKeyOrder keys db ids).map ItemRow.id) =
      rowsInKeyOrder keys db ids := by
  have hmem : ∀ row ∈ db.items,
      (row.id ∈ (rowsInKeyOrder keys db ids).map ItemRow.id ↔ row.id ∈ ids) := by
    intro row hrow
    constructor
    · intro h
      obtain ⟨other, hother, hid⟩ := List.mem_map.mp h
      exact hid ▸ mem_rowsInKeyOrder hother
    · intro h
      refine List.mem_map_of_mem ?_
      rw [rowsInKeyOrder, List.mem_insertionSort]
      exact List.mem_filter.mpr ⟨hrow, decide_eq_true h⟩
  rw [rowsInKeyOrder, rowsInKeyOrder]
  exact congrArg _ (List.filter_congr fun row hrow =>
    decide_eq_decide.mpr (hmem row hrow))

/-- Where no other transaction comes between, a batch that locks its rows one
by one commits what it does in one step. -/
theorem Batch.inOneStep_eq {keys : RowKeys} {db : InventoryDb}
    (hkeys : db.items.Pairwise fun a b => keys.key a.id ≤ keys.key b.id)
    (batch : Batch) (now : Timestamp) :
    batch.inOneStep db now = (do
      let (items, nextId) ← batch.apply keys db now
        ((rowsInKeyOrder keys db batch.ids).map ItemRow.id)
      InventoryDb.saveAll { db with nextId } items) := by
  have hload : db.findAllByIdsForUpdate batch.ids =
      (rowsInKeyOrder keys db batch.ids).mapM toDomain := by
    rw [rowsInKeyOrder, (hkeys.filter _).insertionSort_eq]
    rfl
  have hsave : ∀ (items : List InventoryItem) (nextId : Uuid),
      (do
        let db ← db.saveAll items
        return ({ db with nextId } : InventoryDb)) =
        InventoryDb.saveAll { db with nextId } items := by
    intro items nextId
    rw [saveAll_nextId nextId db]
    cases db.saveAll items with
    | error error => rfl
    | ok saved => rfl
  unfold Batch.apply
  rw [rowsInKeyOrder_again, ← hload]
  cases batch with
  | consume command =>
      simp only [Batch.inOneStep, InventoryDb.consumeStockBatch, Batch.ids,
        bind_assoc, hsave]
  | restore command order =>
      simp only [Batch.inOneStep, InventoryDb.restoreStockBatch, Batch.ids,
        bind_assoc, hsave]
      congr 1
      funext loaded
      split
      · rfl
      · rfl
  | undo command named =>
      simp only [Batch.inOneStep, InventoryDb.undoConsumption, Batch.ids,
        bind_assoc, hsave]

section Moves

variable {keys : RowKeys} {s : LockedDb}

theorem saveLocks_of_lockForSave {xid : Xid} {item : InventoryItem}
    {next : LockPlace} {out : LockOutcome}
    (h : s.lockForSave xid item next = some out) :
    SaveLocks s out.store xid item ∧ out.place = next := by
  unfold LockedDb.lockForSave at h
  split at h
  · split at h
    · rename_i hfree
      cases h
      exact ⟨Or.inr ⟨hfree, rfl⟩, rfl⟩
    · cases h
  · cases h
    exact ⟨Or.inl rfl, rfl⟩

/-- A transaction ends with its tables committed or as they were. -/
theorem LockMove.finish {place : LockPlace} {xid : Xid}
    (hxid : place.xid = some xid) (result : Except InventoryError InventoryDb) :
    LockMove keys s place (s.finish xid result).store
      (s.finish xid result).place := by
  cases result with
  | error error => exact LockMove.finished hxid s.tables
  | ok tables => exact LockMove.finished hxid tables

theorem lockMove_of_plainExec {place : StockPlace} {input : StockInput}
    {out : LockOutcome} (h : plainExec keys s place input = some out) :
    LockMove keys s (.plain place) out.store out.place := by
  unfold plainExec at h
  split at h
  · cases h
    exact LockMove.beginBatch _ _
  · cases h
    exact LockMove.beginBatch _ _
  · cases h
    exact LockMove.beginBatch _ _
  · cases h
    exact LockMove.beginSave _ _
  · obtain ⟨stock, -, rfl⟩ := Option.map_eq_some_iff.mp h
    exact LockMove.plain _ _ _

/-- Every statement is one of the moves. -/
theorem lockMove_of_exec {place : LockPlace} {input : StockInput}
    {out : LockOutcome} (h : lockExec keys s place input = some out) :
    LockMove keys s place out.store out.place := by
  unfold lockExec at h
  split at h
  · exact lockMove_of_plainExec h
  · split at h
    · rename_i hfree
      cases h
      exact LockMove.lock _ _ _ _ _ hfree
    · cases h
  · split at h
    · cases h
      exact LockMove.finish rfl _
    · rename_i happly
      cases h
      exact LockMove.applied _ _ _ _ _ (mem_rows_of_apply happly)
  · obtain ⟨hlocks, hplace⟩ := saveLocks_of_lockForSave h
    rw [hplace]
    exact LockMove.saved _ _ _ _ hlocks
  · cases h
    exact LockMove.finish rfl _
  · obtain ⟨hlocks, hplace⟩ := saveLocks_of_lockForSave h
    rw [hplace]
    exact LockMove.lockedOne _ _ hlocks
  · cases h
    exact LockMove.finish rfl _
  · obtain ⟨xid, hxid, rfl⟩ := Option.map_eq_some_iff.mp h
    exact LockMove.finish hxid (.ok s.tables)
  · cases h

theorem lockForSave_waits_iff {xid : Xid} {item : InventoryItem}
    {next : LockPlace} : s.lockForSave xid item next = none ↔
      item.id ∈ s.tables.itemIds ∧ s.isFree xid item.id = false := by
  unfold LockedDb.lockForSave
  split_ifs with hmem hfree
  · simp [hfree]
  · simp [hmem, hfree]
  · simp [hmem]

/-- A statement of a transaction waits exactly where it asks for a row that
another transaction holds. -/
theorem lockExec_waits_iff {place : LockPlace} {xid : Xid}
    (hxid : place.xid = some xid) (now : Timestamp) :
    lockExec keys s place (.proceed now) = none ↔
      ∃ row, WantsRow s place row ∧ s.isFree xid row = false := by
  cases place with
  | plain => cases hxid
  | locking own batch rows left =>
      cases hxid
      cases left with
      | nil =>
          simp only [lockExec, WantsRow, false_and, exists_false, iff_false]
          split <;> exact Option.some_ne_none _
      | cons row left => simp [lockExec, WantsRow]
  | saving own left items =>
      cases hxid
      cases left with
      | nil => simp [lockExec, WantsRow]
      | cons item left =>
          simp [lockExec, lockForSave_waits_iff, WantsRow, and_assoc]
  | lockingOne own item =>
      cases hxid
      simp [lockExec, lockForSave_waits_iff, WantsRow, and_assoc]
  | savingOne own item => simp [lockExec, WantsRow]

@[simp] theorem release_holder (xid : Xid) (row : ItemId) :
    (s.release xid).holder row =
      if s.holder row = some xid then none else s.holder row := rfl

theorem lock_holder (xid : Xid) (row other : ItemId) :
    (s.lock xid row).holder other =
      if other = row then some xid else s.holder other := by
  simp [LockedDb.lock, Function.update_apply]

variable {s' : LockedDb} {place place' : LockPlace}

theorem LockMove.nextXid_le (hmove : LockMove keys s place s' place') :
    s.nextXid ≤ s'.nextXid := by
  cases hmove with
  | beginBatch | beginSave => exact Nat.le_succ _
  | saved _ _ _ _ hlocks | lockedOne _ _ hlocks =>
      rcases hlocks with rfl | ⟨-, rfl⟩ <;> exact le_rfl
  | _ => exact le_rfl

/-- A statement opens the next transaction or stays in the one it is in. -/
theorem LockMove.xid_cases (hmove : LockMove keys s place s' place') {xid : Xid}
    (hxid : place'.xid = some xid) :
    place.xid = some xid ∨
      place.xid = none ∧ xid = s.nextXid ∧ xid < s'.nextXid ∧
        s'.holder = s.holder := by
  cases hmove with
  | beginBatch | beginSave =>
      cases hxid
      exact Or.inr ⟨rfl, rfl, Nat.lt_succ_self _, rfl⟩
  | plain | finished => cases hxid
  | _ => exact Or.inl hxid

/-- Locking a free row changes no lock of another transaction. -/
theorem lock_holder_other {xid other : Xid} {row : ItemId}
    (hfree : s.isFree xid row = true) (hne : other ≠ xid) (r : ItemId) :
    (s.lock xid row).holder r = some other ↔ s.holder r = some other := by
  rw [lock_holder]
  by_cases hr : r = row
  · subst hr
    simp only [LockedDb.isFree, Bool.or_eq_true, decide_eq_true_eq] at hfree
    rw [if_pos rfl, Option.some.injEq]
    constructor
    · exact fun h => absurd h.symm hne
    · intro h
      rw [h] at hfree
      rcases hfree with hnone | hself
      · cases hnone
      · exact absurd (Option.some.inj hself) hne
  · rw [if_neg hr]

theorem SaveLocks.holder_other {xid other : Xid} {item : InventoryItem}
    (hlocks : SaveLocks s s' xid item) (hne : other ≠ xid) (row : ItemId) :
    s'.holder row = some other ↔ s.holder row = some other := by
  rcases hlocks with rfl | ⟨hfree, rfl⟩
  · exact Iff.rfl
  · exact lock_holder_other hfree hne row

/-- A statement leaves the locks of every other transaction. -/
theorem LockMove.holder_other (hmove : LockMove keys s place s' place')
    {other : Xid} (hother : place.xid ≠ some other) (row : ItemId) :
    s'.holder row = some other ↔ s.holder row = some other := by
  have hne : ∀ {xid : Xid}, place.xid = some xid → other ≠ xid :=
    fun hxid heq => hother (heq ▸ hxid)
  cases hmove with
  | plain | beginBatch | beginSave | applied => exact Iff.rfl
  | lock _ _ _ _ _ hfree => exact lock_holder_other hfree (hne rfl) row
  | saved _ _ _ _ hlocks | lockedOne _ _ hlocks =>
      exact hlocks.holder_other (hne rfl) row
  | finished hxid tables =>
      rw [release_holder]
      have hne := hne hxid
      split
      · rename_i hholder
        rw [hholder]
        simpa using hne.symm
      · exact Iff.rfl

/-- What is locked in a sane state: every lock belongs to a transaction that
was numbered. -/
def HoldersNumbered (s : LockedDb) : Prop :=
  ∀ row xid, s.holder row = some xid → xid < s.nextXid

/-- One statement keeps the order in which its own transaction locks. -/
theorem LockMove.locksInOrder (hmove : LockMove keys s place s' place')
    (hnumbered : HoldersNumbered s) (horder : LocksInOrder keys s place) :
    LocksInOrder keys s' place' := by
  have hfresh : ∀ row, s.holder row ≠ some s.nextXid :=
    fun row h => Nat.lt_irrefl _ (hnumbered row _ h)
  cases hmove with
  | plain | finished => trivial
  | beginBatch place batch =>
      refine ⟨[], rfl, rowsInKeyOrder_sorted keys s.tables _, fun row => ?_⟩
      exact iff_of_false (hfresh row) List.not_mem_nil
  | beginSave => exact hfresh
  | lock xid batch rows row left hfree =>
      obtain ⟨locked, hrows, hsorted, hheld⟩ := horder
      refine ⟨locked ++ [row], by simp [hrows], hsorted, fun other => ?_⟩
      rw [lock_holder, List.mem_append, List.mem_singleton]
      by_cases hother : other = row
      · simp [hother]
      · simp [hother, hheld]
  | applied xid batch rows items tables hitems =>
      obtain ⟨locked, hrows, -, hheld⟩ := horder
      intro item hitem
      rw [hrows, List.append_nil] at hitems
      exact (hheld item.id).mpr (hitems item hitem)
  | saved xid item left items hlocks =>
      intro other hother
      have hheld := horder other (List.mem_cons_of_mem _ hother)
      rcases hlocks with rfl | ⟨-, rfl⟩
      · exact hheld
      · rw [lock_holder, hheld, ite_self]
  | lockedOne xid item hlocks =>
      intro row hholder
      rcases hlocks with rfl | ⟨-, rfl⟩
      · exact absurd hholder (horder row)
      · rw [lock_holder] at hholder
        by_contra hne
        rw [if_neg hne] at hholder
        exact horder row hholder

/-- It depends on the locks of one transaction only. -/
theorem LocksInOrder.congr (horder : LocksInOrder keys s place)
    (hsame : ∀ xid, place.xid = some xid → ∀ row,
      s'.holder row = some xid ↔ s.holder row = some xid) :
    LocksInOrder keys s' place := by
  cases place with
  | plain => trivial
  | locking xid batch rows left =>
      obtain ⟨locked, hrows, hsorted, hheld⟩ := horder
      exact ⟨locked, hrows, hsorted, fun row => (hsame xid rfl row).trans (hheld row)⟩
  | saving xid left items =>
      exact fun item hitem => (hsame xid rfl item.id).mpr (horder item hitem)
  | lockingOne xid item =>
      exact fun row h => horder row ((hsame xid rfl row).mp h)
  | savingOne xid item =>
      exact fun row h => horder row ((hsame xid rfl row).mp h)

/-- A transaction that locks in order waits only for rows whose key is above
that of every row it holds. -/
theorem LocksInOrder.asksUpwards (horder : LocksInOrder keys s place)
    {row held : ItemId} (hwants : WantsRow s place row)
    (hnot : ¬ HoldsRow s place row) (hholds : HoldsRow s place held) :
    keys.key held < keys.key row := by
  obtain ⟨xid, hxid, hholder⟩ := hholds
  have hother : s.holder row ≠ some xid := fun h => hnot ⟨xid, hxid, h⟩
  cases place with
  | plain => cases hxid
  | locking own batch rows left =>
      cases hxid
      obtain ⟨locked, hrows, hsorted, hheld⟩ := horder
      cases left with
      | nil => exact absurd hwants id
      | cons next left =>
          obtain rfl : row = next := hwants
          rw [hrows, List.pairwise_append] at hsorted
          have hle := hsorted.2.2 held ((hheld held).mp hholder) row
            List.mem_cons_self
          refine lt_of_le_of_ne hle fun heq => hother ?_
          rw [← keys.injective heq, hholder]
  | saving own left items =>
      cases hxid
      cases left with
      | nil => exact absurd hwants id
      | cons item left =>
          obtain ⟨rfl, -⟩ := hwants
          exact absurd (horder item List.mem_cons_self) hother
  | lockingOne own item =>
      cases hxid
      exact absurd hholder (horder held)
  | savingOne own item => exact absurd hwants id

end Moves

section Runs

variable {keys : RowKeys} {config : Config LockedDb LockPlace} {log : List Unit}

/-- Every lock and every open transaction has a number that was handed out. -/
theorem numbered_of_reaches
    (h : Reaches (lockExec keys) emptyLocks config log) :
    HoldersNumbered config.store ∧ ∀ pid xid,
      (config.places pid).xid = some xid → xid < config.store.nextXid := by
  refine ReachesBy.invariant_of_places
    (G := fun s _ => HoldersNumbered s)
    (L := fun s _ place => ∀ xid, place.xid = some xid → xid < s.nextXid)
    (fun _ _ h => by cases h) (fun _ _ h => by cases h) ?_ ?_ h
  · intro config log pid input out _ hnumbered hplaces _ hexec
    have hmove := lockMove_of_exec hexec
    constructor
    · intro row xid hholder
      by_cases hown : (config.places pid).xid = some xid
      · exact (hplaces pid xid hown).trans_le hmove.nextXid_le
      · rw [hmove.holder_other hown] at hholder
        exact (hnumbered row xid hholder).trans_le hmove.nextXid_le
    · intro xid hxid
      rcases hmove.xid_cases hxid with hold | ⟨-, -, hless, -⟩
      · exact (hplaces pid xid hold).trans_le hmove.nextXid_le
      · exact hless
  · intro config log pid input out _ _ hplaces _ hexec other _ xid hxid
    exact (hplaces other xid hxid).trans_le (lockMove_of_exec hexec).nextXid_le

/-- No two requests share a transaction. -/
theorem xids_differ (h : Reaches (lockExec keys) emptyLocks config log) :
    ∀ pid other, other ≠ pid → ∀ xid, (config.places pid).xid = some xid →
      (config.places other).xid ≠ some xid := by
  refine ReachesBy.invariant_of_pairs
    (D := fun k k' : LockPlace => ∀ xid, k.xid = some xid → k'.xid ≠ some xid)
    (fun hpair xid hxid hother => hpair xid hother hxid)
    (fun _ _ _ h => by cases h) ?_ h
  intro config log pid input out before hexec other _ hpair xid hxid hother
  rcases (lockMove_of_exec hexec).xid_cases hxid with hold | ⟨-, heq, -, -⟩
  · exact hpair xid hold hother
  · have hless : xid < config.store.nextXid :=
      (numbered_of_reaches before).2 other xid hother
    exact Nat.lt_irrefl _ (heq ▸ hless)

/-- Every transaction locks in order, whatever the others do. -/
theorem locksInOrder_of_reaches
    (h : Reaches (lockExec keys) emptyLocks config log) (pid : Nat) :
    LocksInOrder keys config.store (config.places pid) := by
  refine (ReachesBy.invariant_of_places (G := fun _ _ => True)
    (L := fun s _ place => LocksInOrder keys s place) trivial ?_ ?_ ?_ h).2 pid
  · exact fun _ => trivial
  · intro config log pid input out before _ hplaces _ hexec
    exact ⟨trivial, (lockMove_of_exec hexec).locksInOrder
      (numbered_of_reaches before).1 (hplaces pid)⟩
  · intro config log pid input out before _ hplaces _ hexec other hne
    refine (hplaces other).congr fun xid hxid row => ?_
    exact (lockMove_of_exec hexec).holder_other
      (xids_differ before other pid hne.symm xid hxid) row

/-- However batches and single saves interleave, whatever lines they have and
whatever they share, no request waits for itself through any chain of
others; and every transaction takes its locks in key order. -/
theorem item_locks_never_deadlock
    (h : Reaches (lockExec keys) emptyLocks config log) (pid : Nat) :
    ¬ Relation.TransGen (RowWaits config) pid pid ∧
      LocksInOrder keys config.store (config.places pid) := by
  have hup : ∀ party, AsksUpwards keys.key
      (fun pid => WantsRow config.store (config.places pid))
      (fun pid => HoldsRow config.store (config.places pid)) party :=
    fun party _ _ => (locksInOrder_of_reaches h party).asksUpwards
  exact ⟨waits_acyclic hup pid, locksInOrder_of_reaches h pid⟩

end Runs

namespace LockWitness

def keys : RowKeys := ⟨id, Function.injective_id⟩

/-- Two withdrawals name the same items in opposite orders, while a
replenishment holds the second item: the first withdrawal waits for it, the
second one for the first. -/
def turns : List (Nat × StockInput) :=
  [(0, .create "OIL-1" "Oil filter" none .part 1000 1), (0, .proceed 1),
   (0, .proceed 1), (0, .proceed 1),
   (0, .create "AIR-1" "Air filter" none .part 700 2), (0, .proceed 2),
   (0, .proceed 2), (0, .proceed 2),
   (0, .replenish 1 4 900 7 none 3), (0, .proceed 3), (0, .proceed 3),
   (1, .consume ⟨[⟨1, 2⟩, ⟨0, 3⟩], 50, 7, some 60⟩ 4), (1, .proceed 4),
   (2, .consume ⟨[⟨0, 1⟩, ⟨1, 1⟩], 51, 7, some 61⟩ 4)]

def last : Config LockedDb LockPlace × List Unit :=
  endOfRun (lockExec keys) emptyLocks turns (by decide +kernel)

theorem reaches_last : Reaches (lockExec keys) emptyLocks last.1 last.2 :=
  reaches_endOfRun _

theorem item_locks_never_deadlock_last :
    (lockExec keys last.1.store (last.1.places 1) (.proceed 5)).isNone = true ∧
      (lockExec keys last.1.store (last.1.places 2) (.proceed 5)).isNone = true ∧
      ∀ pid, ¬ Relation.TransGen (RowWaits last.1) pid pid ∧
        LocksInOrder keys last.1.store (last.1.places pid) :=
  ⟨by decide +kernel, by decide +kernel, item_locks_never_deadlock reaches_last⟩

end LockWitness

end Inventory

end Workshop
