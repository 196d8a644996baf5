/-
The order of the outbox.  A step that is no undo is claimed only when the older
ones of its work order are done, one that inventory applied was claimed, and
one that is done was applied.
-/
import Workshop.WorkOrders.Provenance

namespace Workshop

namespace WorkOrders

open Inventory

/-- The older steps of the work order of a step are done, but for its undos. -/
def OlderDone (older : List StockStepRow) (row : StockStepRow) : Prop :=
  ∀ old ∈ older, old.workOrderId = row.workOrderId →
    old.kind ≠ .undoConsumption → old.status = .done

/-- How the outbox and what was applied of it fit together. -/
structure OrderSound (steps : List StockStepRow) (log : List SagaEffect) :
    Prop where
  claimed : ∀ older row newer, steps = older ++ row :: newer →
    row.kind ≠ .undoConsumption → .claimed row.operationId ∈ log →
      OlderDone older row
  applied : ∀ step, .applied step ∈ log → step.kind ≠ .undoConsumption ∧
    Recorded steps step ∧ .claimed step.operationId ∈ log
  done : ∀ row ∈ steps, row.kind ≠ .undoConsumption → row.status = .done →
    .applied row.toStockStep ∈ log

/-- A step an applier is about to complete was applied, unless it is an
undo. -/
def SagaPlace.HasApplied (log : List SagaEffect) : SagaPlace → Prop
  | .completing (.application step _) => step.kind ≠ .undoConsumption →
      .applied step.toStockStep ∈ log
  | _ => True

section Moves

variable {place next : SagaPlace} {effects log : List SagaEffect}
variable {steps steps' older older' : List StockStepRow} {row row' : StockStepRow}

/-- A step is applied by an applier that stands at it. -/
theorem StockChange.applies {db db' : InventoryDb} {step : StockStep}
    (h : StockChange db place next effects db') (happlied : .applied step ∈ effects) :
    ∃ claimed queue, claimed.toStockStep = step ∧
      (place = .applying claimed queue ∧
          (claimed.kind = .confirmConsumption ∨ claimed.kind = .restore) ∨
        ∃ closure candidates,
          place = .closing claimed queue closure candidates) := by
  cases h with
  | quiet _ _ nextId hle _ hnone => exact absurd happlied (hnone step)
  | confirm claimed queue operationId now hkind hoperation =>
      have hstep : step = claimed.toStockStep := by simpa using happlied
      exact ⟨claimed, queue, hstep.symm, Or.inl ⟨rfl, Or.inl hkind⟩⟩
  | restore claimed queue order now _ hkind hrestore =>
      have hstep : step = claimed.toStockStep := by simpa using happlied
      exact ⟨claimed, queue, hstep.symm, Or.inl ⟨rfl, Or.inr hkind⟩⟩
  | close claimed queue closure candidates now =>
      have hstep : step = claimed.toStockStep := by simpa using happlied
      exact ⟨claimed, queue, hstep.symm, Or.inr ⟨closure, candidates, rfl⟩⟩
  | _ => simp at happlied

theorem OlderDone.mono (h : OlderDone older row)
    (holder : List.Forall₂ (RowChange place effects) older older')
    (howner : row'.workOrderId = row.workOrderId) : OlderDone older' row' := by
  intro old' hold' hsame hkind
  obtain ⟨old, hold, hstep, hchange⟩ := exists_left_of_forall₂ holder hold'
  rw [hstep, howner] at hsame
  rw [hstep] at hkind
  rw [h old hold hsame hkind] at hchange
  exact hchange.of_done

theorem SagaPlace.HasApplied.mono (h : place.HasApplied log) :
    place.HasApplied (log ++ effects) := by
  cases place with
  | completing errand =>
      cases errand with
      | compensation undo => trivial
      | application step queue => exact fun hkind => List.mem_append_left _ (h hkind)
  | _ => trivial

/-- A row that was added had no older row of its operation id. -/
theorem added_new (hids : (steps'.map fun row => row.operationId).Nodup)
    {newer' : List StockStepRow} (hsplit : steps' = older' ++ row' :: newer')
    (holder : List.Forall₂ (RowChange place effects) steps older')
    (hrow : row ∈ steps) : row.operationId ≠ row'.operationId := by
  intro hid
  obtain ⟨kept, hkept, hstep, -⟩ := exists_right_of_forall₂ holder hrow
  rw [hsplit, List.map_append, List.map_cons, List.nodup_append] at hids
  refine hids.2.2 kept.operationId (List.mem_map_of_mem hkept) row'.operationId
    List.mem_cons_self ?_
  rw [hstep]
  exact hid

end Moves

section Runs

variable {settings : OutboxSettings} {config : Config WorkshopDb SagaPlace}
variable {log : List SagaEffect} {pid : Nat} {input : SagaInput} {out : SagaOutcome}

/-- What is applied is a step that is no undo, held by its applier. -/
theorem applied_of_exec (h : SagaReaches settings config log)
    (hexec : sagaExec settings config.store (config.places pid) input = some out)
    {step : StockStep} (happlied : .applied step ∈ out.effects) :
    step.kind ≠ .undoConsumption ∧ Recorded config.store.steps step ∧
      .claimed step.operationId ∈ log := by
  obtain ⟨claimed, queue, rfl, hplace⟩ :=
    (sagaMove_of_exec hexec).stock.applies happlied
  have hworks := (outbox_of_reaches h).2 pid
  have hknows := (rows_of_reaches h).2 pid
  rcases hplace with ⟨hplace, hkind⟩ | ⟨closure, candidates, hplace⟩
  · rw [hplace] at hworks
    refine ⟨?_, hworks.held _ List.mem_cons_self, hworks.claimed _ List.mem_cons_self⟩
    rcases hkind with hkind | hkind <;> rw [hkind] <;> nofun
  · rw [hplace] at hworks hknows
    refine ⟨fun hkind => ?_, hworks.held _ List.mem_cons_self,
      hworks.claimed _ List.mem_cons_self⟩
    have hclosure := hknows.1
    rw [hkind] at hclosure
    cases hclosure

/-- A step that is no undo is claimed only when the older ones of its work order are
done. -/
theorem olderDone_of_claim (h : SagaReaches settings config log)
    (hexec : sagaExec settings config.store (config.places pid) input = some out)
    {older newer : List StockStepRow} {row : StockStepRow}
    (hsplit : config.store.steps = older ++ row :: newer)
    (hkind : row.kind ≠ .undoConsumption)
    (hclaimed : .claimed row.operationId ∈ out.effects) : OlderDone older row := by
  obtain ⟨⟨front, found, back, hfound, hid, -, hholds⟩, -⟩ :=
    (sagaMove_of_exec hexec).claims hclaimed
  obtain ⟨rfl, rfl, rfl⟩ :=
    eq_of_split (outbox_of_reaches h).1.ids hsplit hfound hid.symm
  intro old hold hsame hundo
  have hfree := (hholds.resolve_left hkind) old hold
  simp only [StockSteps.holds, hsame, hundo, ne_eq, not_false_eq_true,
    decide_true, Bool.true_and, decide_eq_false_iff_not] at hfree
  cases hstatus : old.status with
  | done => rfl
  | _ => exact absurd (by simp [hstatus]) hfree

/-- Nobody has claimed a row that was just added. -/
theorem added_not_claimed (h : SagaReaches settings config log)
    (hexec : sagaExec settings config.store (config.places pid) input = some out)
    {older newer : List StockStepRow} {row : StockStepRow}
    (hsplit : out.store.steps = older ++ row :: newer)
    (holder : List.Forall₂ (RowChange (config.places pid) out.effects)
      config.store.steps older) : .claimed row.operationId ∉ log ++ out.effects := by
  have hids := (outbox_of_reaches h).1.ids
  have hnew := fun {old : StockStepRow} (hold : old ∈ config.store.steps) =>
    added_new ((steps_of_exec h hexec).fresh hids) hsplit holder hold
  intro hclaimed
  rcases List.mem_append.mp hclaimed with hclaimed | hclaimed
  · obtain ⟨old, hold, hid, -⟩ := (outbox_of_reaches h).1.claimed _ hclaimed
    exact hnew hold hid
  · obtain ⟨⟨front, found, back, hfound, hid, -⟩, -⟩ :=
      (sagaMove_of_exec hexec).claims hclaimed
    exact hnew (by simp [hfound]) hid

/-- A step becomes done at the hands of the applier that applied it. -/
theorem OrderSound.applied_of_done (horder : OrderSound config.store.steps log)
    (h : SagaReaches settings config log) (happlied : (config.places pid).HasApplied log)
    (hexec : sagaExec settings config.store (config.places pid) input = some out)
    {row' : StockStepRow} (hrow' : row' ∈ out.store.steps)
    (hkind : row'.kind ≠ .undoConsumption) (hdone : row'.status = .done) :
    .applied row'.toStockStep ∈ log ++ out.effects := by
  obtain ⟨houtbox, hworks⟩ := outbox_of_reaches h
  have hworking := hworks pid
  have hmade := (made_of_reaches h).2 pid
  rcases (steps_of_exec h hexec).mem hrow' with ⟨row, hrow, hstep, hchange⟩ | hadded
  · rw [hstep] at hkind ⊢
    rw [hdone] at hchange
    generalize hstatus : row.status = status at hchange
    cases hchange with
    | same => exact List.mem_append_left _ (horder.done row hrow hkind hstatus)
    | disarm withdrawal hplace heffect =>
        obtain ⟨saved, -, hplace', hid, -⟩ :=
          (sagaMove_of_exec hexec).withdraws heffect
        have hundo := Recorded.eq_of_id houtbox.ids ⟨row, hrow, rfl⟩
          (hworking.armed saved.undo (by rw [hplace']; rfl)) hid.symm
        rw [hundo, hmade.undoKind (by rw [hplace']; rfl)] at hkind
        exact absurd rfl hkind
    | complete errand hplace hid hopen =>
        rw [hplace] at happlied hworking
        cases errand with
        | compensation undo =>
            have hundo := Recorded.eq_of_id houtbox.ids ⟨row, hrow, rfl⟩
              (hworking.armed undo rfl) hid
            rw [hundo, hmade.undoKind (by rw [hplace]; rfl)] at hkind
            exact absurd rfl hkind
        | application step queue =>
            have hsame := Recorded.eq_of_id houtbox.ids ⟨row, hrow, rfl⟩
              (hworking.held _ List.mem_cons_self) hid
            rw [hsame] at hkind ⊢
            exact List.mem_append_left _ (happlied hkind)
  · exact absurd hdone hadded.not_done

/-- A step keeps the order of the outbox. -/
theorem OrderSound.step (horder : OrderSound config.store.steps log)
    (h : SagaReaches settings config log) (happlied : (config.places pid).HasApplied log)
    (hexec : sagaExec settings config.store (config.places pid) input = some out) :
    OrderSound out.store.steps (log ++ out.effects) := by
  have hsteps := steps_of_exec h hexec
  refine ⟨?_, ?_, fun _ => horder.applied_of_done h happlied hexec⟩
  · intro older' row' newer' hsplit hkind hclaimed
    rcases hsteps.split hsplit with
      ⟨older, row, newer, hbefore, ⟨hstep, -⟩, holder⟩ | ⟨hadded, holder⟩
    · rw [hstep] at hkind hclaimed
      suffices hdone : OlderDone older row from
        hdone.mono holder (congrArg StockStep.workOrderId hstep)
      rcases List.mem_append.mp hclaimed with hclaimed | hclaimed
      · exact horder.claimed older row newer hbefore hkind hclaimed
      · exact olderDone_of_claim h hexec hbefore hkind hclaimed
    · exact absurd hclaimed (added_not_claimed h hexec hsplit holder)
  · intro step happlied
    rcases List.mem_append.mp happlied with happlied | happlied
    · obtain ⟨hkind, hrecorded, hclaimed⟩ := horder.applied step happlied
      exact ⟨hkind, hsteps.recorded hrecorded, List.mem_append_left _ hclaimed⟩
    · obtain ⟨hkind, hrecorded, hclaimed⟩ := applied_of_exec h hexec happlied
      exact ⟨hkind, hsteps.recorded hrecorded, List.mem_append_left _ hclaimed⟩

/-- An applier comes to the completion of a step by applying it. -/
theorem hasApplied_of_exec (h : SagaReaches settings config log)
    (hexec : sagaExec settings config.store (config.places pid) input = some out) :
    out.place.HasApplied (log ++ out.effects) := by
  have hcame := (sagaMove_of_exec hexec).cameFrom
  unfold CameFrom at hcame
  cases hnext : out.place with
  | completing errand =>
      cases errand with
      | compensation undo => trivial
      | application step queue =>
          intro hkind
          rw [hnext] at hcame
          rcases hcame with ⟨named, now, hplace, -⟩ | ⟨hstart, -⟩ |
            ⟨applied, rest, hsame, heffects, -⟩
          · obtain ⟨-, hundo⟩ := errand_recorded h hplace
            exact absurd hundo hkind
          · exact absurd hstart.undoKind hkind
          · cases hsame
            rw [heffects]
            exact List.mem_append_right _ List.mem_cons_self
  | _ => trivial

theorem order_of_reaches (h : SagaReaches settings config log) :
    OrderSound config.store.steps log ∧
      ∀ pid, (config.places pid).HasApplied log := by
  refine ReachesBy.invariant_of_places
    (G := fun db log => OrderSound db.steps log)
    (L := fun _ log place => place.HasApplied log)
    ?_ (fun _ => trivial) ?_ ?_ h
  · refine ⟨fun older row newer hsplit => ?_, fun _ hmem => absurd hmem List.not_mem_nil,
      fun _ hmem => absurd hmem List.not_mem_nil⟩
    cases older <;> cases hsplit
  · intro config log pid input out before horder happlied _ hexec
    exact ⟨horder.step before (happlied pid) hexec, hasApplied_of_exec before hexec⟩
  · intro config log pid input out _ _ happlied _ _ other _
    exact (happlied other).mono

/-- The older steps of a step that was applied were applied. -/
theorem older_applied (h : SagaReaches settings config log)
    {older newer : List StockStepRow} {row old : StockStepRow}
    (hsplit : config.store.steps = older ++ row :: newer)
    (hkind : row.kind ≠ .undoConsumption)
    (hclaimed : .claimed row.operationId ∈ log) (hold : old ∈ older)
    (howner : old.workOrderId = row.workOrderId)
    (hold_kind : old.kind ≠ .undoConsumption) : .applied old.toStockStep ∈ log := by
  have horder := (order_of_reaches h).1
  exact horder.done old (by simp [hsplit, hold]) hold_kind
    (horder.claimed older row newer hsplit hkind hclaimed old hold howner hold_kind)

end Runs

end WorkOrders

end Workshop
