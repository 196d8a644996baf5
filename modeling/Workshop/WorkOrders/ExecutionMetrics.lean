/-
The average execution time.  One query over the rows answers it, so what the report is
worth depends on what the runs leave in the columns: that a finished work order has both
of its times, in this order, and is counted once however often it carries the service.
-/
import Mathlib.Algebra.Order.BigOperators.Group.List
import Mathlib.Algebra.Order.Round
import Mathlib.Data.Rat.Floor
import Workshop.WorkOrders.StageTimes

namespace Workshop

namespace WorkOrders

/-- Both bounds are inclusive and are bounds on the time of the completion. -/
structure AverageExecutionTimeFilter where
  serviceId : Option Uuid := none
  completedFrom : Option Timestamp := none
  completedTo : Option Timestamp := none

structure AverageExecutionTimeAggregate where
  averageSeconds : Int
  workOrderCount : Nat
deriving DecidableEq, Repr

structure AverageExecutionTimeDto extends AverageExecutionTimeAggregate where
  /-- Whether a service was asked for. -/
  approximated : Bool
deriving DecidableEq, Repr

/-- `EXTRACT(EPOCH FROM (wo.completed_at - wo.execution_started_at))` -/
def WorkOrderRow.elapsedSeconds (row : WorkOrderRow) : Option ℚ :=
  match row.executionStartedAt, row.completedAt with
  | some started, some completed => some (((completed : ℚ) - started) / 1000)
  | _, _ => none

/-- The `EXISTS` of the query: a filter on the services, not a join with them. -/
def WorkOrderRows.carries (rows : WorkOrderRows) (serviceId : Option Uuid)
    (row : WorkOrderRow) : Bool :=
  match serviceId with
  | none => true
  | some serviceId => rows.services.any fun service =>
      service.workOrderId = row.id && service.serviceId = serviceId

/-- The bounds on the time of the completion.  A comparison with no time holds not. -/
def AverageExecutionTimeFilter.admits (filter : AverageExecutionTimeFilter)
    (completedAt : Option Timestamp) : Bool :=
  (filter.completedFrom.all fun bound => completedAt.any fun time => bound ≤ time) &&
    filter.completedTo.all fun bound => completedAt.any fun time => time ≤ bound

/-- The `WHERE` of the query. -/
def WorkOrderRows.isMeasured (rows : WorkOrderRows) (filter : AverageExecutionTimeFilter)
    (row : WorkOrderRow) : Bool :=
  (row.status = .completed || row.status = .delivered) &&
    row.executionStartedAt.isSome && row.completedAt.isSome &&
    rows.carries filter.serviceId row && filter.admits row.completedAt

/-- `AVG`, which answers null of no rows. -/
def avg (values : List ℚ) : Option ℚ :=
  if values = [] then none else some (values.sum / values.length)

/-- `TypeOrmWorkOrderMetricsQueryAdapter.averageExecutionTime`.  `toInternalId` is the
key resolver of the services module. -/
def averageExecutionTime (toInternalId : Uuid → Option Uuid) (rows : WorkOrderRows)
    (filter : AverageExecutionTimeFilter) : AverageExecutionTimeAggregate :=
  if filter.serviceId.any fun serviceId => (toInternalId serviceId).isNone then
    { averageSeconds := 0, workOrderCount := 0 }
  else
    let measured := rows.workOrders.filter (rows.isMeasured filter)
    { averageSeconds := round ((avg (measured.filterMap WorkOrderRow.elapsedSeconds)).getD 0)
      workOrderCount := measured.length }

/-- `GetAverageExecutionTimeUseCase.execute` -/
def getAverageExecutionTime (toInternalId : Uuid → Option Uuid) (rows : WorkOrderRows)
    (filter : AverageExecutionTimeFilter) : AverageExecutionTimeDto :=
  { averageExecutionTime toInternalId rows filter with
    approximated := filter.serviceId.isSome }

/-- The finished work orders a report is about. -/
def WorkOrderRows.finished (rows : WorkOrderRows) (filter : AverageExecutionTimeFilter) :
    List WorkOrderRow :=
  rows.workOrders.filter fun row =>
    (row.status = .completed || row.status = .delivered) &&
      rows.carries filter.serviceId row && filter.admits row.completedAt

/-- What a report says of the finished work orders it is about: how many they are, and
to half a second what they took on average.  The answer is in whole seconds, so only
bounds in whole seconds on what they took are bounds on it. -/
structure AverageExecutionTimeDto.Reports (report : AverageExecutionTimeDto)
    (filter : AverageExecutionTimeFilter) (finished : List WorkOrderRow) : Prop where
  approximated : report.approximated = filter.serviceId.isSome
  counted : report.workOrderCount = finished.length
  timed : ∀ row ∈ finished, ∃ started completed, row.executionStartedAt = some started ∧
    row.completedAt = some completed ∧ started ≤ completed
  nearest : |(report.averageSeconds : ℚ) * finished.length -
    (finished.filterMap WorkOrderRow.elapsedSeconds).sum| ≤ finished.length / 2
  atLeast : finished ≠ [] → ∀ seconds : Int,
    (∀ row ∈ finished, ∀ elapsed ∈ row.elapsedSeconds, (seconds : ℚ) ≤ elapsed) →
      seconds ≤ report.averageSeconds
  atMost : finished ≠ [] → ∀ seconds : Int,
    (∀ row ∈ finished, ∀ elapsed ∈ row.elapsedSeconds, elapsed ≤ (seconds : ℚ)) →
      report.averageSeconds ≤ seconds
  none : finished = [] → report.averageSeconds = 0

section Averages

variable {values : List ℚ}

theorem avg_eq (h : values ≠ []) : avg values = some (values.sum / values.length) :=
  if_neg h

theorem length_pos_cast (h : values ≠ []) : (0 : ℚ) < values.length :=
  Nat.cast_pos.mpr (List.length_pos_iff.mpr h)

/-- An average is no less than the least of its values. -/
theorem le_avg (h : values ≠ []) {least : ℚ} (hleast : ∀ value ∈ values, least ≤ value) :
    least ≤ values.sum / values.length := by
  rw [le_div_iff₀ (length_pos_cast h), mul_comm, ← nsmul_eq_mul]
  exact List.card_nsmul_le_sum values least hleast

theorem avg_le (h : values ≠ []) {most : ℚ} (hmost : ∀ value ∈ values, value ≤ most) :
    values.sum / values.length ≤ most := by
  rw [div_le_iff₀ (length_pos_cast h), mul_comm, ← nsmul_eq_mul]
  exact List.sum_le_card_nsmul values most hmost

theorem round_le_round {left right : ℚ} (h : left ≤ right) : round left ≤ round right := by
  rw [round_eq, round_eq]
  exact Int.floor_le_floor (add_le_add_left h _)

/-- A rounded average is half a unit from the sum of its values, each. -/
theorem abs_round_avg_le (h : values ≠ []) :
    |(round (values.sum / values.length) : ℚ) * values.length - values.sum| ≤
      values.length / 2 := by
  have hpos := length_pos_cast h
  have hnear := abs_sub_round (values.sum / values.length)
  rw [abs_sub_comm] at hnear
  have hdiff : (round (values.sum / values.length) : ℚ) * values.length - values.sum =
      ((round (values.sum / values.length) : ℚ) - values.sum / values.length) *
        values.length := by
    rw [sub_mul, div_mul_cancel₀ _ hpos.ne']
  calc |(round (values.sum / values.length) : ℚ) * values.length - values.sum|
      = |(round (values.sum / values.length) : ℚ) - values.sum / values.length| *
          values.length := by rw [hdiff, abs_mul, abs_of_pos hpos]
    _ ≤ 1 / 2 * values.length := mul_le_mul_of_nonneg_right hnear hpos.le
    _ = values.length / 2 := by ring

end Averages

section Reports

variable {rows : WorkOrderRows} {filter : AverageExecutionTimeFilter}
variable {toInternalId : Uuid → Option Uuid}

/-- Rows both of whose times are set, in order. -/
def TimedRows (rows : WorkOrderRows) : Prop :=
  ∀ row ∈ rows.workOrders, row.status = .completed ∨ row.status = .delivered →
    ∃ started completed, row.executionStartedAt = some started ∧
      row.completedAt = some completed ∧ started ≤ completed

/-- The conditions on the two times exclude no finished work order. -/
theorem filter_isMeasured (htimed : TimedRows rows) :
    rows.workOrders.filter (rows.isMeasured filter) = rows.finished filter := by
  refine List.filter_congr fun row hrow => ?_
  by_cases hdone : row.status = .completed ∨ row.status = .delivered
  · obtain ⟨started, completed, hstarted, hcompleted, -⟩ := htimed row hrow hdone
    simp [WorkOrderRows.isMeasured, hstarted, hcompleted]
  · have hopen : (row.status = .completed || row.status = .delivered) = false := by
      simpa using hdone
    simp only [WorkOrderRows.isMeasured, hopen, Bool.false_and]

/-- A service that no row refers to is carried by no work order. -/
theorem finished_eq_nil {serviceId : Uuid} (hservice : filter.serviceId = some serviceId)
    (hnone : ∀ service ∈ rows.services, service.serviceId ≠ serviceId) :
    rows.finished filter = [] := by
  refine List.filter_eq_nil_iff.mpr fun row _ hkept => ?_
  simp only [Bool.and_eq_true, WorkOrderRows.carries, hservice, List.any_eq_true] at hkept
  obtain ⟨⟨-, service, hmem, -, hsame⟩, -⟩ := hkept
  exact hnone service hmem (of_decide_eq_true hsame)

/-- What the finished rows took, row by row. -/
theorem elapsed_of_timed {finished : List WorkOrderRow}
    (htimed : ∀ row ∈ finished, ∃ started completed,
      row.executionStartedAt = some started ∧ row.completedAt = some completed ∧
        started ≤ completed) :
    (finished.filterMap WorkOrderRow.elapsedSeconds).length = finished.length := by
  induction finished with
  | nil => rfl
  | cons row finished ih =>
      obtain ⟨started, completed, hstarted, hcompleted, -⟩ := htimed row List.mem_cons_self
      have helapsed : row.elapsedSeconds = some (((completed : ℚ) - started) / 1000) := by
        rw [WorkOrderRow.elapsedSeconds, hstarted, hcompleted]
      rw [List.filterMap_cons_some helapsed, List.length_cons, List.length_cons,
        ih fun other hother => htimed other (List.mem_cons_of_mem _ hother)]

/-- A report over timed rows says what it should of the finished ones. -/
theorem reports_of_timed (htimed : TimedRows rows)
    (hknown : ∀ service ∈ rows.services, (toInternalId service.serviceId).isSome) :
    (getAverageExecutionTime toInternalId rows filter).Reports filter
      (rows.finished filter) := by
  have hfinished : ∀ row ∈ rows.finished filter, ∃ started completed,
      row.executionStartedAt = some started ∧ row.completedAt = some completed ∧
        started ≤ completed := by
    intro row hrow
    obtain ⟨hmem, hkept⟩ := List.mem_filter.mp hrow
    simp only [Bool.and_eq_true, Bool.or_eq_true, decide_eq_true_eq] at hkept
    exact htimed row hmem hkept.1.1
  have hlength := elapsed_of_timed hfinished
  have hreport : averageExecutionTime toInternalId rows filter =
      { averageSeconds := round ((avg ((rows.finished filter).filterMap
          WorkOrderRow.elapsedSeconds)).getD 0)
        workOrderCount := (rows.finished filter).length } := by
    rw [averageExecutionTime]
    split
    · rename_i hunknown
      obtain ⟨serviceId, hservice, hnone⟩ := (Option.any_eq_true _ _).mp hunknown
      rw [finished_eq_nil hservice]
      · simp [avg]
      · rintro service hmem rfl
        rw [Option.isNone_iff_eq_none] at hnone
        have hsome := hknown service hmem
        rw [hnone] at hsome
        cases hsome
    · rw [filter_isMeasured htimed]
  rw [getAverageExecutionTime, hreport]
  generalize rows.finished filter = finished at hfinished hlength
  rcases eq_or_ne finished [] with rfl | hsome
  · refine ⟨rfl, rfl, hfinished, ?_, fun habsurd => absurd rfl habsurd,
      fun habsurd => absurd rfl habsurd, fun _ => ?_⟩ <;> simp [avg]
  · have hvalues : finished.filterMap WorkOrderRow.elapsedSeconds ≠ [] := by
      rw [← List.length_pos_iff, hlength]
      exact List.length_pos_iff.mpr hsome
    have haverage := avg_eq hvalues
    have hmem : ∀ {bound : ℚ → Prop}, (∀ row ∈ finished, ∀ elapsed ∈ row.elapsedSeconds,
        bound elapsed) → ∀ value ∈ finished.filterMap WorkOrderRow.elapsedSeconds,
          bound value := by
      intro bound hbound value hvalue
      obtain ⟨row, hrow, helapsed⟩ := List.mem_filterMap.mp hvalue
      exact hbound row hrow value helapsed
    rw [haverage]
    refine ⟨rfl, rfl, hfinished, ?_, fun _ seconds hleast => ?_, fun _ seconds hmost => ?_,
      fun hnil => absurd hnil hsome⟩
    · have hnear := abs_round_avg_le hvalues
      rw [hlength] at hnear
      simpa [hlength] using hnear
    · have hle := round_le_round (le_avg hvalues (hmem hleast))
      rwa [round_intCast] at hle
    · have hle := round_le_round (avg_le hvalues (hmem hmost))
      rwa [round_intCast] at hle

end Reports

section Runs

variable {settings : OutboxSettings} {config : Config WorkshopDb SagaPlace}
variable {log : List SagaEffect} {now : Timestamp} {toInternalId : Uuid → Option Uuid}

/-- A clock that never goes back leaves every finished work order both of its times. -/
theorem timedRows_of_clocked (h : SagaReachesAt settings config log now) :
    TimedRows config.store.tables.toWorkOrderRows := by
  intro row hrow hdone
  obtain ⟨saved, version, htimely, -, hsame⟩ := timely_of_stored h.reachesBy
    (madeBy_of_clocked h).1
    (WorkOrderTables.stateOf_eq_some_iff.mpr ⟨row, hrow, rfl, rfl⟩)
  have hstages := hsame.stages
  have hstamped := htimely.reachable.stamped.1
  have hordered := htimely.ordered
  change _ = saved.stages at hstages
  rw [← hstages] at hstamped hordered
  have hexecuted : row.executionStartedAt.isSome := by
    refine (hstamped.executionStarted ?_).mpr (Or.inl ?_)
    · intro hcanceled
      change row.status = .canceled at hcanceled
      rcases hdone with hstatus | hstatus <;> rw [hstatus] at hcanceled <;> cases hcanceled
    · change row.status ∈ executedStates
      rcases hdone with hstatus | hstatus <;> rw [hstatus] <;> decide
  have hfinished : row.completedAt.isSome := hstamped.completed.mpr hdone
  obtain ⟨started, hstarted⟩ := Option.isSome_iff_exists.mp hexecuted
  obtain ⟨completed, hcompleted⟩ := Option.isSome_iff_exists.mp hfinished
  exact ⟨started, completed, hstarted, hcompleted,
    hordered.started_le_completed hstarted hcompleted⟩

/-- Whatever requests interleave, as long as the clock they read never goes back, the
report counts every finished work order it is about exactly once, each took no less than
no time, and the seconds it answers are the average of what they took, to half a second
and within any bounds in whole seconds that they all keep to. -/
theorem execution_time_reported (h : SagaReachesAt settings config log now)
    (hknown : ∀ service ∈ config.store.tables.services,
      (toInternalId service.serviceId).isSome) (filter : AverageExecutionTimeFilter) :
    (getAverageExecutionTime toInternalId config.store.tables.toWorkOrderRows filter).Reports
      filter (config.store.tables.finished filter) :=
  reports_of_timed (timedRows_of_clocked h) hknown

end Runs

namespace SagaWitness

def revision : ServiceRef where
  serviceId := 20
  name := "Revision"
  price := ⟨1000, partPrice_nonneg⟩

/-- The work order carries one service twice, and its execution takes a second and a half. -/
def revisedTwice : List (Nat × SagaInput) :=
  stocked ++ [(0, .create ⟨"OS-1", 90, 91, 7, "Ana", "ABC1D23", "Fiat", "Uno", 2010,
      [revision, revision], [part]⟩ 3), (0, .proceed { now := 3 })] ++
    plainRequest 0 4 (.startDiagnosis 7) ++ plainRequest 0 5 (.completeDiagnosis 7) ++
    plainRequest 0 6 (.approveBudget 7 none) ++ plainRequest 0 1506 (.completeWorkOrder 7)

def revised : Config WorkshopDb SagaPlace × List SagaEffect :=
  endOfRun (sagaExec settings) emptyWorkshop revisedTwice (by decide +kernel)

theorem execution_time_reported_revised :
    (revised.1.store.tables.services.map ServiceRow.serviceId) = [20, 20] ∧
      getAverageExecutionTime some revised.1.store.tables.toWorkOrderRows
        { serviceId := some 20 } = ⟨⟨2, 1⟩, true⟩ ∧
      (getAverageExecutionTime some revised.1.store.tables.toWorkOrderRows
        { serviceId := some 20 }).Reports { serviceId := some 20 }
          (revised.1.store.tables.finished { serviceId := some 20 }) := by
  have hclocked : SagaReachesAt settings revised.1 revised.2 _ :=
    sagaReachesAt_endOfRun (by decide +kernel) _
  exact ⟨by decide +kernel, by decide +kernel,
    execution_time_reported hclocked (fun _ _ => rfl) _⟩

end SagaWitness

end WorkOrders

end Workshop
