/-
The saga beside a clock that never goes back.  Every program reads the one clock, so an
input that carries a reading carries the present.
-/
import Workshop.Library.ClockedRuns
import Workshop.WorkOrders.StockSaga

namespace Workshop

namespace WorkOrders

open Inventory

/-- The clock reading of an input that inventory serves. -/
def stockReading : StockInput → Option Timestamp
  | .create _ _ _ _ _ now | .update _ _ _ _ now | .deactivate _ _ now
  | .replenish _ _ _ _ _ now | .adjust _ _ _ _ now | .consume _ now
  | .restore _ _ now | .confirm _ now | .proceed now => some now
  | .undo _ | .close _ _ _ | .abort => none

/-- The clock reading of an input. -/
def SagaInput.reading : SagaInput → Option Timestamp
  | .create _ now | .retry _ now => some now
  | .proceed surroundings => some surroundings.now
  | .shelf input => stockReading input
  | .request _ _ | .applyDue | .fail _ | .crash => none

/-- Runs of the saga beside a clock that never goes back, up to a time. -/
abbrev SagaReachesAt (settings : OutboxSettings) (config : Config WorkshopDb SagaPlace)
    (log : List SagaEffect) (now : Timestamp) : Prop :=
  ClockedReaches (sagaExec settings) (fun _ _ _ => True) SagaInput.reading emptyWorkshop 0
    config log now

/-- An executable run whose readings never go back is one beside a clock. -/
theorem sagaReachesAt_endOfRun {settings : OutboxSettings} {turns : List (Nat × SagaInput)}
    (hordered : (0 :: readingsOf SagaInput.reading turns).Pairwise (· ≤ ·))
    (hrun : (runTurns (sagaExec settings) emptyWorkshop turns).isSome) :
    SagaReachesAt settings (endOfRun (sagaExec settings) emptyWorkshop turns hrun).1
      (endOfRun (sagaExec settings) emptyWorkshop turns hrun).2
      ((readingsOf SagaInput.reading turns).getLastD 0) :=
  clockedReaches_endOfRun (fun _ _ _ => true) (fun _ => trivial) hordered
    (turnsPass_true (Option.some_get hrun).symm) hrun

end WorkOrders

end Workshop
