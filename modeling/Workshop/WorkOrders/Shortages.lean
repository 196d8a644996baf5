/-
The shortage report is exact: no sequence of withdrawals runs out of an item it does
not list, and some sequence runs out of one it lists.
-/
import Workshop.WorkOrders.LoneWithdrawals
import Workshop.WorkOrders.UndoSteps

namespace Workshop

namespace WorkOrders

open Inventory

/-- How many units of each item the shelf holds. -/
def shelfCounts (db : InventoryDb) : List (ItemId × Int) :=
  db.items.map fun row => (row.id, row.quantityOnHand)

/-- Neither the counts of the shelf nor the demand changed. -/
structure Undisturbed (before after : WorkshopDb) : Prop where
  shelf : shelfCounts after.inventory = shelfCounts before.inventory
  demand : SameDemand before.tables.toWorkOrderRows after.tables.toWorkOrderRows

/-- What batches lead to that are served one after another, with statements in between
that leave shelf and demand alone. -/
inductive WithdrawsFrom (settings : OutboxSettings) (first : Config WorkshopDb SagaPlace) :
    Config WorkshopDb SagaPlace → List SagaEffect → Prop
  | start : WithdrawsFrom settings first first []
  | aside {config : Config WorkshopDb SagaPlace} {log : List SagaEffect} (pid : Nat)
      (input : SagaInput) {out : SagaOutcome} (before : WithdrawsFrom settings first config log)
      (hexec : sagaExec settings config.store (config.places pid) input = some out)
      (hkeeps : Undisturbed config.store out.store) :
      WithdrawsFrom settings first (config.after pid out) (log ++ out.effects)
  | withdraw {config ready last : Config WorkshopDb SagaPlace} {log more : List SagaEffect}
      (pid : Nat) (batch : WithdrawBatch) {withdrawal : Withdrawal}
      (before : WithdrawsFrom settings first config log)
      (haccepts : Accepts settings config pid batch ready withdrawal)
      (hcommits : Commits settings ready pid batch withdrawal last more) :
      WithdrawsFrom settings first last (log ++ more)

section Batches

variable {settings : OutboxSettings} {config ready last : Config WorkshopDb SagaPlace}
variable {log more : List SagaEffect} {pid : Nat} {batch : WithdrawBatch}
variable {withdrawal : Withdrawal} {itemId : ItemId}

theorem onHand_congr (itemId : ItemId) {db db' : InventoryDb} (h : shelfCounts db' = shelfCounts db) :
    db'.itemIds = db.itemIds ∧ onHand db' itemId = onHand db itemId := by
  have hids : ∀ db : InventoryDb, db.itemIds = (shelfCounts db).map Prod.fst := by
    intro db
    rw [shelfCounts, List.map_map]
    rfl
  have hcount : ∀ db : InventoryDb, onHand db itemId =
      (((shelfCounts db).find? fun count => count.1 = itemId).map Prod.snd).getD 0 := by
    intro db
    rw [shelfCounts, List.find?_map, Option.map_map, onHand]
    change _ = ((db.items.find? fun row => row.id = itemId).map _).getD 0
    cases db.items.find? fun row => row.id = itemId <;> rfl
  rw [hids, hids, hcount, hcount, h]
  exact ⟨rfl, rfl⟩

/-- The transaction of a withdrawal saves its work order. -/
theorem commitWithdrawal_ok {db db' : WorkshopDb} {now : Timestamp}
    (h : db.commitWithdrawal withdrawal now = .ok db') :
    ∃ tables steps, db.tables.save withdrawal.edit.changed = .ok tables ∧
      db' = { db with tables, steps } := by
  unfold WorkshopDb.commitWithdrawal at h
  split at h
  · obtain ⟨tables, hsave, steps, -, rfl⟩ := saveWithStep_ok h
    exact ⟨tables, steps, hsave, rfl⟩
  · cases h

/-- A batch that commits takes its lines off the shelf and off the demand. -/
theorem Commits.changes (itemId : ItemId) (h : SagaReaches settings config log)
    (haccepts : Accepts settings config pid batch ready withdrawal)
    (hcommits : Commits settings ready pid batch withdrawal last more) :
    last.store.inventory.itemIds = config.store.inventory.itemIds ∧
      onHand last.store.inventory itemId =
        onHand config.store.inventory itemId - unitsOf itemId withdrawal.lines ∧
      last.store.tables.outstandingOf itemId =
        config.store.tables.outstandingOf itemId - unitsOf itemId withdrawal.lines := by
  have hready := haccepts.reaches h
  have hlast := hcommits.reaches hready
  obtain ⟨htables, hinventory, -⟩ := haccepts.store
  obtain ⟨inventory, db, hconsume, hcommit, rfl, -⟩ := (commits_iff haccepts.place).mp hcommits
  obtain ⟨tables, steps, hsave, rfl⟩ := commitWithdrawal_ok hcommit
  obtain ⟨hids, hcount⟩ := onHand_consumed itemId (shelf_of_reaches hready).1 hconsume
  have hown := ownBudgets_of_reaches hlast
  change tables.OwnBudgets at hown
  change inventory.itemIds = _ ∧ onHand inventory itemId = _ ∧ tables.outstandingOf itemId = _
  refine ⟨by rw [hids, hinventory]; rfl, by rw [hcount, hinventory]; rfl, ?_⟩
  obtain ⟨hserial, hplaces⟩ := serial_of_reaches hready
  have hloaded := hplaces pid
  have hmade := (made_of_reaches hready).2 pid
  rw [haccepts.place] at hloaded hmade
  obtain ⟨fresh, -, hfollows⟩ := hmade.1.follows
  obtain ⟨state, state', hstate, hsame, hstate', hsame'⟩ :=
    save_edit hserial.sound hloaded hmade.2.children hfollows hsave
  obtain ⟨-, row, hrow, found, hfound, hid, hremaining⟩ := haccepts.changes
  rw [hid, htables, hfound, Option.some.injEq] at hstate
  subst hstate
  rw [outstandingOf_save (ownBudgets_of_reaches hready) hown hsave
    (by rw [hid, htables, hfound]) hstate']
  have hstored : state'.remainingOf itemId = withdrawal.edit.changed.remainingOf itemId :=
    WorkOrder.remainingOf_congr hsame'.status hsame'.parts hsame'.budgets
  rw [hstored, hremaining, htables]
  omega

theorem WithdrawsFrom.reaches (h : SagaReaches settings config log)
    (hfrom : WithdrawsFrom settings config last more) :
    SagaReaches settings last (log ++ more) := by
  induction hfrom with
  | start => rwa [List.append_nil]
  | aside pid input _ hexec _ ih =>
      rw [← List.append_assoc]
      exact ReachesBy.turn pid input ih trivial hexec
  | withdraw pid batch _ haccepts hcommits ih =>
      rw [← List.append_assoc]
      exact hcommits.reaches (haccepts.reaches ih)

theorem WithdrawsFrom.trans {final : Config WorkshopDb SagaPlace} {rest : List SagaEffect}
    (hfrom : WithdrawsFrom settings config last more)
    (hrest : WithdrawsFrom settings last final rest) :
    WithdrawsFrom settings config final (more ++ rest) := by
  induction hrest with
  | start => rwa [List.append_nil]
  | aside pid input _ hexec hkeeps ih =>
      rw [← List.append_assoc]
      exact WithdrawsFrom.aside pid input ih hexec hkeeps
  | withdraw pid batch _ haccepts hcommits ih =>
      rw [← List.append_assoc]
      exact WithdrawsFrom.withdraw pid batch ih haccepts hcommits

/-- Along a sequence of batches the demand and the shelf fall by the same. -/
theorem WithdrawsFrom.keeps (itemId : ItemId) (h : SagaReaches settings config log)
    (hfrom : WithdrawsFrom settings config last more) :
    last.store.inventory.itemIds = config.store.inventory.itemIds ∧
      last.store.tables.outstandingOf itemId - onHand last.store.inventory itemId =
        config.store.tables.outstandingOf itemId - onHand config.store.inventory itemId := by
  induction hfrom with
  | start => exact ⟨rfl, rfl⟩
  | @aside middle effects pid input out _ hexec hkeeps ih =>
      obtain ⟨hids, hcount⟩ := onHand_congr itemId hkeeps.shelf
      rw [Config.after_store, hids, hcount, outstandingOf_congr hkeeps.demand]
      exact ih
  | withdraw pid batch before haccepts hcommits ih =>
      obtain ⟨hids, hcount, houtstanding⟩ :=
        Commits.changes itemId (before.reaches h) haccepts hcommits
      rw [hids, hcount, houtstanding]
      exact ⟨ih.1, by rw [← ih.2]; omega⟩

/-- A batch that lacks an item is one of a work order that more of it is outstanding on
than the shelf holds. -/
theorem Accepts.lacking (h : SagaReaches settings config log)
    (haccepts : Accepts settings config pid batch ready withdrawal)
    (hlacks : LacksItem ready.store.inventory withdrawal.consumeCommand batch.consuming.now
      itemId) :
    itemId ∈ config.store.inventory.itemIds ∧
      onHand config.store.inventory itemId < config.store.tables.outstandingOf itemId := by
  have hshelf := (shelf_of_reaches (haccepts.reaches h)).1
  obtain ⟨-, hinventory, -⟩ := haccepts.store
  obtain ⟨hknown, hless⟩ := hlacks.short hshelf.nodup haccepts.changes.1
  rw [hinventory] at hknown hless
  exact ⟨hknown, hless.trans_le (haccepts.le_outstandingOf h)⟩

end Batches

section Demand

variable {settings : OutboxSettings} {config : Config WorkshopDb SagaPlace}
variable {log : List SagaEffect} {itemId : ItemId}

/-- What is outstanding of an item is planned on an approved round of a work order in
execution, and not withdrawn. -/
theorem exists_part (h : SagaReaches settings config log)
    (hpositive : 0 < config.store.tables.outstandingOf itemId) :
    ∃ row ∈ config.store.tables.workOrders, ∃ state item,
      config.store.tables.stateOf row.id = some state ∧ state.status = .inExecution ∧
      item ∈ state.partItems ∧ item.inventoryItemId = itemId ∧
      state.onApprovedRound item = true ∧ 0 < item.remaining := by
  by_contra hnone
  rw [outstandingOf_eq_remaining (ownBudgets_of_reaches h)] at hpositive
  refine absurd (sumWhere_eq_zero fun row hrow _ => ?_) hpositive.ne'
  rw [WorkOrderTables.remainingOf]
  split
  · rfl
  · rename_i state hstate
    by_cases hstatus : state.status = .inExecution
    · rw [WorkOrder.remainingOf_of_inExecution hstatus]
      refine sumWhere_eq_zero fun item hitem htest => ?_
      rw [Bool.and_eq_true, decide_eq_true_eq] at htest
      have hleft : ¬ 0 < item.remaining := fun hleft => hnone
        ⟨row, hrow, state, item, hstate, hstatus, hitem, htest.1, htest.2, hleft⟩
      have hnonneg : 0 ≤ item.remaining := le_max_left _ _
      omega
    · exact WorkOrder.remainingOf_of_ne hstatus

/-- The batch that withdraws all that is left of one part. -/
def WithdrawBatch.ofPart (number : String) (item : WorkOrderPartItem)
    (hleft : 0 < item.remaining) : WithdrawBatch where
  number := number
  command := {
    lines := [⟨item.id, item.remaining, hleft⟩]
    notEmpty := List.cons_ne_nil _ _
    actorUserId := 0 }

/-- The keys of the parts and the rounds of the budgets of a stored work order. -/
theorem nodup_of_stateOf {tables : WorkOrderTables} {workOrderId : WorkOrderId}
    {state : WorkOrder} (hstate : tables.stateOf workOrderId = some state) :
    (state.partItems.map WorkOrderPartItem.id).Nodup ∧
      (state.budgets.map Budget.round).Nodup := by
  obtain ⟨row, -, -, rfl⟩ := WorkOrderTables.stateOf_eq_some_iff.mp hstate
  constructor
  · rw [partIds_toDomain]
    exact tables.constraints.uxPartsExternalId.sublist (List.filter_sublist.map _)
  · have hpairs := tables.constraints.uxBudgetsRound.sublist
      ((List.filter_sublist (p := fun budget =>
        decide (budget.workOrderId = workOrderId))).map _)
    have hrounds : ((rowsOf BudgetRow.workOrderId workOrderId tables.budgets).map
        fun budget => budget.round).Nodup := by
      refine List.Nodup.of_map (fun round => (workOrderId, round)) ?_
      rw [List.map_map]
      refine (List.Perm.of_eq (List.map_congr_left fun budget hbudget => ?_)).nodup_iff.mp hpairs
      rw [(mem_rowsOf.mp hbudget).2]
      rfl
    have hsorted := List.perm_insertionSort (fun left right : BudgetRow =>
      left.round ≤ right.round) (rowsOf BudgetRow.workOrderId workOrderId tables.budgets)
    refine ((List.Perm.of_eq ?_).trans (hsorted.map fun budget => budget.round)).nodup_iff.mpr
      hrounds
    rw [toDomain]
    exact List.map_map

/-- Some batch of one line of an item that is outstanding is accepted. -/
theorem exists_accepts (h : SagaReaches settings config log)
    (hpositive : 0 < config.store.tables.outstandingOf itemId) :
    ∃ pid batch ready withdrawal quantity,
      Accepts settings config pid batch ready withdrawal ∧ 0 < quantity ∧
        withdrawal.lines = [⟨itemId, quantity⟩] := by
  obtain ⟨row, hrow, state, item, hstate, hstatus, hitem, rfl, hround, hleft⟩ :=
    exists_part h hpositive
  obtain ⟨bound, hbound⟩ := ReachesBy.exists_unmoved h
  have hidle : config.places bound = .idle := hbound bound (Nat.le_refl bound)
  let batch := WithdrawBatch.ofPart row.number item hleft
  obtain ⟨state', hstate', hsame⟩ := loads_sameState batch config.store.tables hrow
  obtain rfl : state' = state := Option.some.inj (hstate'.symm.trans hstate)
  obtain ⟨hids, hrounds⟩ := nodup_of_stateOf hstate
  have hwithdraws : ∃ after, Runs (WorkOrder.withdrawParts
      (batch.command.toInput batch.budgets.now)) (batch.loads config.store.tables row)
      [⟨item.inventoryItemId, item.remaining⟩] after :=
    WorkOrder.withdrawParts_accepts (hsame.status.trans hstatus)
      ((hsame.parts.map _).nodup_iff.mpr hids) ((hsame.budgets.map _).nodup_iff.mpr hrounds)
      (hsame.parts.mem_iff.mpr hitem)
      ((WorkOrder.onApprovedRound_congr hsame.budgets item).trans hround) rfl hleft
  obtain ⟨after, hruns⟩ := hwithdraws
  have hsaved :=
    (WorkOrder.withdrawParts_leaves 0 (toInput_positive batch.command) hruns).2.1
  have hid := congrArg WorkOrderRow.id hsaved
  change after.id = row.id at hid
  have hprepared : ∃ withdrawal, prepareWithdrawal batch.command
      (batch.loads config.store.tables row) config.store.nextId batch.budgets.now =
        .withdraw withdrawal ∧
      withdrawal.lines = [⟨item.inventoryItemId, item.remaining⟩] ∧
      withdrawal.undo.workOrderId = row.id ∧
      withdrawal.undo.operationId = config.store.nextId := by
    rw [prepareWithdrawal, hruns]
    exact ⟨_, rfl, rfl, hid, rfl⟩
  obtain ⟨withdrawal, hprepared, hlines, howner, hundo⟩ := hprepared
  have hinsert : ∃ db, (config.store.withNextId (config.store.nextId + 2)).insertStep
      withdrawal.undo .armed (batch.arming.now + milliseconds settings.graceSeconds)
      batch.arming.now = .ok db := by
    refine insertStep_goes ⟨row, hrow, howner.symm⟩ fun other hother htaken => ?_
    have hlt := (stepIds_of_reaches h).1 other hother
    rw [htaken, hundo] at hlt
    exact lt_irrefl _ hlt
  obtain ⟨db, hinsert⟩ := hinsert
  refine ⟨bound, batch, _, withdrawal, item.remaining, accepts_iff.mpr ⟨hidle, row, db,
    find?_key_of_mem config.store.tables.constraints.uxNumber hrow, hprepared, hinsert, rfl⟩,
    hleft, hlines⟩

/-- A batch of one line that inventory does not take lacks the item of the line. -/
theorem Accepts.lacks_or_commits (h : SagaReaches settings config log) {quantity : Int}
    {ready : Config WorkshopDb SagaPlace} {pid : Nat} {batch : WithdrawBatch}
    {withdrawal : Withdrawal}
    (haccepts : Accepts settings config pid batch ready withdrawal) (hquantity : 0 < quantity)
    (hlines : withdrawal.lines = [⟨itemId, quantity⟩])
    (hknown : itemId ∈ config.store.inventory.itemIds) :
    LacksItem ready.store.inventory withdrawal.consumeCommand batch.consuming.now itemId ∨
      ∃ last more, Commits settings ready pid batch withdrawal last more := by
  obtain ⟨hshelf, hskus⟩ := shelf_of_reaches (haccepts.reaches h)
  obtain ⟨-, hinventory, -⟩ := haccepts.store
  have hline : ∀ line ∈ withdrawal.consumeCommand.lines,
      line.inventoryItemId = itemId ∧ line.quantity = quantity := by
    intro line hmem
    change line ∈ withdrawal.lines at hmem
    rw [hlines, List.mem_singleton] at hmem
    rw [hmem]
    exact ⟨rfl, rfl⟩
  rcases consumeStockBatch_cases batch.consuming.now hshelf hskus
      (fun line hmem => (hline line hmem).2.symm ▸ hquantity)
      (fun line hmem => by rw [(hline line hmem).1, hinventory]; exact hknown) with
    ⟨inventory, hconsume⟩ | ⟨line, hmem, hlacks⟩
  · obtain ⟨db, hcommit⟩ := haccepts.commit_ok h inventory batch.committing.now
    exact Or.inr ⟨_, _, (commits_iff haccepts.place).mpr
      ⟨inventory, db, hconsume, hcommit, rfl, rfl⟩⟩
  · exact Or.inl ((hline line hmem).1 ▸ hlacks)

/-- A sequence of batches runs out of an item that the demand exceeds the shelf of: each
batch takes what is left of one part. -/
theorem exists_lacking (units : Nat) : ∀ {config : Config WorkshopDb SagaPlace}
    {log : List SagaEffect}, SagaReaches settings config log →
    itemId ∈ config.store.inventory.itemIds →
    onHand config.store.inventory itemId < config.store.tables.outstandingOf itemId →
    config.store.tables.outstandingOf itemId ≤ units →
    ∃ last more pid batch ready withdrawal, WithdrawsFrom settings config last more ∧
      Accepts settings last pid batch ready withdrawal ∧
      LacksItem ready.store.inventory withdrawal.consumeCommand batch.consuming.now
        itemId := by
  induction units with
  | zero =>
      intro config log h _ hless hunits
      have hcount := onHand_nonneg itemId (shelf_of_reaches h).1
      exact absurd (hcount.trans_lt hless) (by simpa using hunits)
  | succ units ih =>
      intro config log h hknown hless hunits
      have hcount := onHand_nonneg itemId (shelf_of_reaches h).1
      obtain ⟨pid, batch, ready, withdrawal, quantity, haccepts, hquantity, hlines⟩ :=
        exists_accepts h (hcount.trans_lt hless)
      rcases haccepts.lacks_or_commits h hquantity hlines hknown with hlacks | ⟨next, done,
        hcommits⟩
      · exact ⟨config, [], pid, batch, ready, withdrawal, .start, haccepts, hlacks⟩
      · have htaken : unitsOf itemId withdrawal.lines = quantity := by
          rw [hlines, unitsOf_cons, if_pos rfl]
          exact add_zero quantity
        obtain ⟨hids, hshelf, hdemand⟩ :=
          Commits.changes itemId h haccepts hcommits
        rw [htaken] at hshelf hdemand
        obtain ⟨last, more, pid', batch', ready', withdrawal', hfrom, hlast⟩ :=
          ih (hcommits.reaches (haccepts.reaches h)) (hids ▸ hknown) (by omega)
            (by rw [hdemand]; push_cast at hunits; omega)
        exact ⟨last, _, pid', batch', ready', withdrawal',
          (WithdrawsFrom.withdraw pid batch .start haccepts hcommits).trans hfrom, hlast⟩

/-- The items the report lists. -/
def shortItems (db : WorkshopDb) (order : RowOrder OutstandingDemandRow)
    (numbers : RowOrder String) : List ItemId :=
  (listStockShortages db order numbers).map StockShortageDto.inventoryItemId

theorem mem_shortItems (h : SagaReaches settings config log)
    (order : RowOrder OutstandingDemandRow) (numbers : RowOrder String) :
    itemId ∈ shortItems config.store order numbers ↔
      itemId ∈ config.store.inventory.itemIds ∧
        onHand config.store.inventory itemId < config.store.tables.outstandingOf itemId := by
  obtain ⟨hshelf, -⟩ := shelf_of_reaches h
  rw [shortItems, mem_listStockShortages order numbers hshelf.nodup fun row hrow =>
    (hshelf.count row hrow).2]
  constructor
  · rintro ⟨row, hrow, rfl, hless⟩
    exact ⟨List.mem_map_of_mem hrow, (onHand_of_mem hshelf.nodup hrow).symm ▸ hless⟩
  · rintro ⟨hknown, hless⟩
    obtain ⟨row, hrow, rfl⟩ := List.mem_map.mp hknown
    exact ⟨row, hrow, rfl, onHand_of_mem hshelf.nodup hrow ▸ hless⟩

/-- The shortage report is exact.  It lists an item once; it leaves an item out when no
sequence of batches the work orders accept is refused for lack of it; and some such
sequence is refused for lack of an item it lists. -/
theorem shortage_report_exact (h : SagaReaches settings config log)
    (order : RowOrder OutstandingDemandRow) (numbers : RowOrder String) :
    (shortItems config.store order numbers).Nodup ∧ ∀ itemId,
      (itemId ∉ shortItems config.store order numbers ↔
        ∀ last more pid batch ready withdrawal, WithdrawsFrom settings config last more →
          Accepts settings last pid batch ready withdrawal →
          ¬ LacksItem ready.store.inventory withdrawal.consumeCommand batch.consuming.now
            itemId) ∧
      (itemId ∈ shortItems config.store order numbers →
        ∃ last more pid batch ready withdrawal, WithdrawsFrom settings config last more ∧
          Accepts settings last pid batch ready withdrawal ∧
          LacksItem ready.store.inventory withdrawal.consumeCommand batch.consuming.now
            itemId ∧
          ready.store.inventory.consumeStockBatch withdrawal.consumeCommand
            batch.consuming.now = .error .insufficientStock) := by
  have hruns_out : ∀ itemId, itemId ∈ shortItems config.store order numbers →
      ∃ last more pid batch ready withdrawal, WithdrawsFrom settings config last more ∧
        Accepts settings last pid batch ready withdrawal ∧
        LacksItem ready.store.inventory withdrawal.consumeCommand batch.consuming.now
          itemId := by
    intro itemId hlisted
    obtain ⟨hknown, hless⟩ := (mem_shortItems h order numbers).mp hlisted
    exact exists_lacking _ h hknown hless (Int.self_le_toNat _)
  refine ⟨nodup_listStockShortages order numbers, fun itemId => ⟨⟨?_, ?_⟩, ?_⟩⟩
  · intro hleft last more pid batch ready withdrawal hfrom haccepts hlacks
    obtain ⟨hknown, hless⟩ := haccepts.lacking (hfrom.reaches h) hlacks
    obtain ⟨hids, hsame⟩ := WithdrawsFrom.keeps itemId h hfrom
    exact hleft ((mem_shortItems h order numbers).mpr ⟨hids ▸ hknown, by omega⟩)
  · intro hnever hlisted
    obtain ⟨last, more, pid, batch, ready, withdrawal, hfrom, haccepts, hlacks⟩ :=
      hruns_out itemId hlisted
    exact hnever last more pid batch ready withdrawal hfrom haccepts hlacks
  · intro hlisted
    obtain ⟨last, more, pid, batch, ready, withdrawal, hfrom, haccepts, hlacks⟩ :=
      hruns_out itemId hlisted
    exact ⟨last, more, pid, batch, ready, withdrawal, hfrom, haccepts, hlacks,
      hlacks.refused⟩

end Demand

namespace SagaWitness

/-- Three parts of five units of the item are approved, and ten are on the shelf. -/
def scarce : Config WorkshopDb SagaPlace × List SagaEffect :=
  endOfRun (sagaExec settings) emptyWorkshop (inExecution [part, part, part])
    (by decide +kernel)

theorem reaches_scarce : SagaReaches settings scarce.1 scarce.2 := reaches_endOfRun _

theorem shortage_report_exact_scarce :
    0 ∈ shortItems scarce.1.store .byKey .byKey ∧
      (shortItems scarce.1.store .byKey .byKey).Nodup ∧
      ∃ last more pid batch ready withdrawal,
        WithdrawsFrom settings scarce.1 last more ∧
        Accepts settings last pid batch ready withdrawal ∧
        LacksItem ready.store.inventory withdrawal.consumeCommand batch.consuming.now 0 ∧
        ready.store.inventory.consumeStockBatch withdrawal.consumeCommand
          batch.consuming.now = .error .insufficientStock := by
  have hlisted : (0 : ItemId) ∈ shortItems scarce.1.store .byKey .byKey := by
    decide +kernel
  obtain ⟨hnodup, hexact⟩ := shortage_report_exact reaches_scarce .byKey .byKey
  exact ⟨hlisted, hnodup, (hexact 0).2 hlisted⟩

end SagaWitness

end WorkOrders

end Workshop
