/-
The parts of open work orders and the catalog.  As long as no other program
commits between a check and the write that goes by it what would turn the check
around, no open work order plans an item that left the catalog; a check that is
outdated in between leaves one that does.
-/
import Workshop.Library.Undisturbed
import Workshop.WorkOrders.MadeChecks

namespace Workshop

namespace WorkOrders

open Inventory

/-- No open work order holds a part whose item left the catalog. -/
def OpenPartsListed (db : WorkshopDb) : Prop :=
  ∀ row ∈ db.tables.workOrders, row.status.isClosed = false →
    ∀ part ∈ db.tables.parts, part.workOrderId = row.id →
      ∀ item ∈ db.inventory.items, item.id = part.inventoryItemId →
        item.status ≠ .inactive

instance (db : WorkshopDb) : Decidable (OpenPartsListed db) :=
  inferInstanceAs (Decidable (∀ row ∈ db.tables.workOrders, row.status.isClosed = false →
    ∀ part ∈ db.tables.parts, part.workOrderId = row.id →
      ∀ item ∈ db.inventory.items, item.id = part.inventoryItemId →
        item.status ≠ .inactive))

section Runs

variable {settings : OutboxSettings} {config : Config WorkshopDb CheckedPlace}
variable {log : List SagaEffect}

theorem seenBySaga_of_reaches (h : Reaches (checkedExec settings) emptyChecked config log) :
    SagaReaches settings (config.seenAs CheckedPlace.saga) log := by
  refine ReachesBy.project CheckedPlace.saga ?_ h
  intro db place input out _ hexec
  rcases seen_of_exec hexec with hnone | ⟨sagaInput, -, hsaga⟩
  · exact Or.inl hnone
  · exact Or.inr ⟨sagaInput, trivial, hsaga⟩

/-- A turn of a program whose checks are made keeps the parts of open work
orders in the catalog. -/
theorem listed_of_turn (h : Reaches (checkedExec settings) emptyChecked config log)
    (hlisted : PartsListed config.store.inventory log) {pid : Nat} {input : CheckedInput}
    {out : CheckedOutcome} (hmade : ChecksMade config.store (config.places pid))
    (hexec : checkedExec settings config.store (config.places pid) input = some out) :
    PartsListed out.store.inventory (log ++ out.effects) := by
  rcases seen_of_exec hexec with ⟨hstore, -, heffects⟩ | ⟨sagaInput, hreading, hsaga⟩
  · rw [hstore, heffects, List.append_nil]
    exact hlisted
  · refine hlisted.step (seenBySaga_of_reaches h) (fun surroundings hinput => ?_) hsaga
    refine hmade.writes (eq_false_of_ne_true fun hreads => ?_)
    rw [hreading hreads] at hinput
    cases hinput

/-- The parts of open work orders stay in the catalog along every run in which no
other program turns a check around between its read and the write that goes by
it. -/
theorem listed_of_keeping
    (h : ReachesKeeping (checkedExec settings) KeepsChecks emptyChecked config log) :
    PartsListed config.store.inventory log := by
  refine (ReachesKeeping.invariant (G := fun db log => PartsListed db.inventory log)
    (R := ChecksMade) (fun hkeeps hmade => hmade.kept hkeeps) ?_
    (fun _ => checksMade_idle) ?_ h).1
  · intro workOrderId workOrder hlast
    cases hlast
  · intro config log pid input out before hlisted hmade hexec
    have hseen := seenBySaga_of_reaches before
    exact ⟨listed_of_turn before hlisted hmade hexec,
      hmade.step (sagaLedger_of_reaches hseen).1.items
        (fun _ hleft => hlisted.unused hseen hleft) hexec⟩

/-- No open work order holds a part whose item left the catalog, in every state a
run leads to in which no other program turns a check around between its read and
the write that goes by it. -/
theorem open_parts_listed
    (h : ReachesKeeping (checkedExec settings) KeepsChecks emptyChecked config log) :
    OpenPartsListed config.store := by
  have hsaga := seenBySaga_of_reaches h.reaches
  intro row hrow hopen part hpart howner item hitem hid hinactive
  have hleft : hasLeft config.store.inventory part.inventoryItemId = false :=
    (listed_of_keeping h).of_rows hsaga hrow hopen hpart howner
  have hnodup : config.store.inventory.itemIds.Nodup :=
    (sagaLedger_of_reaches hsaga).1.items
  rw [hasLeft, ← hid, catalogOf_of_mem hnodup hitem, Option.any_some] at hleft
  exact absurd hinactive (of_decide_eq_false hleft)

end Runs

namespace OpenPartsWitness

open SagaWitness (settings part stocked)

/-- The statement a program stands at runs, as often as asked. -/
def proceed (pid times : Nat) (now : Timestamp) : List (Nat × CheckedInput) :=
  List.replicate times (pid, .saga (.proceed { now }))

/-- An item on the shelf and a work order without items. -/
def opened : List (Nat × CheckedInput) :=
  stocked.map (Prod.map id .saga) ++
    [(0, .saga (.create ⟨"", 90, 91, 7, "Ana", "ABC1D23", "Fiat", "Uno", 2010, [],
      []⟩ 3))] ++ proceed 0 1 3 ++ [(0, .draw "OS-1")] ++ proceed 0 1 3

/-- A part is planned, up to the read of its catalog entry. -/
def planning : List (Nat × CheckedInput) :=
  (0, .saga (.request "OS-1" (.plain (.planPart part 7)))) :: proceed 0 4 4

/-- The item is loaded to be deactivated. -/
def deactivating : List (Nat × CheckedInput) :=
  [(1, .saga (.shelf (.deactivate 0 [] 5)))]

/-- Both requests make their check before either one saves. -/
def crossed : List (Nat × CheckedInput) :=
  opened ++ planning ++ deactivating ++ proceed 1 1 5 ++ proceed 0 1 6 ++
    proceed 1 1 6

def afterCrossed : Config WorkshopDb CheckedPlace × List SagaEffect :=
  endOfRun (checkedExec settings) emptyChecked crossed (by decide +kernel)

theorem reaches_afterCrossed :
    Reaches (checkedExec settings) emptyChecked afterCrossed.1 afterCrossed.2 :=
  reaches_endOfRun _

/-- The work order is open and plans the item, which left the catalog. -/
theorem open_part_may_leave :
    ¬ ∀ config log, Reaches (checkedExec settings) emptyChecked config log →
      OpenPartsListed config.store := by
  intro hall
  have hleft : ¬ OpenPartsListed afterCrossed.1.store := by decide +kernel
  exact hleft (hall _ _ reaches_afterCrossed)

/-- The item is loaded before the part is saved, and the open work orders are
read after it. -/
def refused : List (Nat × CheckedInput) :=
  opened ++ planning ++ deactivating ++ proceed 0 1 5 ++ proceed 1 1 6

def afterRefused : Config WorkshopDb CheckedPlace × List SagaEffect :=
  endOfRun (checkedExec settings) emptyChecked refused (by decide +kernel)

theorem refused_keeps :
    turnsKeep (checkedExec settings) KeepsChecks [0, 1] emptyChecked refused = true := by
  decide +kernel

theorem keepsChecks_idle (db db' : WorkshopDb) : KeepsChecks db db' (.running .idle) :=
  ⟨fun _ hitem => absurd hitem List.not_mem_nil, fun _ hitem => absurd hitem List.not_mem_nil⟩

theorem open_parts_listed_refused :
    afterRefused.1.store.tables.parts.length = 1 ∧
      OpenPartsListed afterRefused.1.store :=
  ⟨by decide +kernel, open_parts_listed
    (reachesKeeping_endOfRun (fun _ _ => keepsChecks_idle) (by decide) refused_keeps _)⟩

end OpenPartsWitness

end WorkOrders

end Workshop
