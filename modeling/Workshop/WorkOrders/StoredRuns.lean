/-
The stored rows along a run.  The saves of a log, replayed over the tables as
the migrations leave them, store the state each of them left, so both readers
answer what was saved last.
-/
import Workshop.WorkOrders.SavedOperations
import Workshop.WorkOrders.StoredSaves

namespace Workshop

namespace WorkOrders

/-- The tables the saves of a log leave, when all of them commit. -/
def storedBy (owners : Owners) (log : List SagaEffect) : Except StoredError StoredTables :=
  (log.filterMap SagaEffect.saves).foldlM
    (fun tables workOrder => tables.save owners workOrder) StoredTables.empty

/-- The version a save leaves in the row. -/
def SagaEffect.leftVersion : SagaEffect → Nat
  | .saved edit => edit.changed.version + 1
  | _ => 0

/-- A save over the state that was saved last, and what it leaves. -/
structure SavedOver (last : Option WorkOrder) (effect : SagaEffect)
    (workOrder : WorkOrder) : Prop where
  named : workOrder.ChildrenNamed
  known : workOrder.RoundsKnown
  first : last = none → effect.leftVersion = 0
  next : ∀ state, last = some state → state.createdAt = workOrder.createdAt ∧
    effect.leftVersion = workOrder.version + 1 ∧
    ∀ budget ∈ state.budgets, budget.id ∈ workOrder.budgets.map Budget.id
  left : effect.leaves workOrder.id last =
    some { workOrder with version := effect.leftVersion }

/-- The tables store the states the saves of a log left, and no others. -/
structure StoredStates (owners : Owners) (tables : StoredTables)
    (log : List SagaEffect) : Prop where
  keys : tables.Sequenced
  states : ∀ workOrderId state, lastSaved workOrderId log = some state →
    state.id = workOrderId ∧ ∃ row, StoredAs owners tables.toStoredRows row state
  rows : ∀ row ∈ tables.workOrders, ∃ state, lastSaved row.externalId log = some state

section Replay

variable {owners : Owners} {before after : StoredTables} {log : List SagaEffect}
variable {effect : SagaEffect} {workOrder : WorkOrder} {workOrderId : WorkOrderId}
variable {last : Option WorkOrder}

theorem leaves_of_saves_none (h : effect.saves = none) :
    effect.leaves workOrderId last = last := by
  cases effect with
  | created workOrder => cases h
  | saved edit => cases h
  | _ => rfl

theorem leaves_of_ne (hsaves : effect.saves = some workOrder)
    (hne : workOrder.id ≠ workOrderId) : effect.leaves workOrderId last = last := by
  cases effect with
  | created opened =>
      cases hsaves
      exact if_neg hne
  | saved edit =>
      cases hsaves
      exact if_neg hne
  | _ => cases hsaves

/-- The saves of other work orders leave the last save of this one. -/
theorem leaves_of_others {effects : List SagaEffect}
    (h : ∀ other ∈ effects, ∀ saved, other.saves = some saved →
      saved.id ≠ workOrderId) :
    effects.foldl (SagaEffect.leaves workOrderId) last = last := by
  induction effects with
  | nil => rfl
  | cons effect effects ih =>
      have hsame : effect.leaves workOrderId last = last := by
        cases hsaves : effect.saves with
        | none => exact leaves_of_saves_none hsaves
        | some saved =>
            exact leaves_of_ne hsaves (h effect List.mem_cons_self saved hsaves)
      rw [List.foldl_cons, hsame]
      exact ih fun other hother => h other (List.mem_cons_of_mem _ hother)

theorem lastSaved_concat : lastSaved workOrderId (log ++ [effect]) =
    effect.leaves workOrderId (lastSaved workOrderId log) := by
  rw [lastSaved_append]
  rfl

theorem storedBy_concat_none (hsaves : effect.saves = none) :
    storedBy owners (log ++ [effect]) = storedBy owners log := by
  rw [storedBy, List.filterMap_append, List.filterMap_cons, hsaves, List.filterMap_nil,
    List.append_nil, storedBy]

theorem storedBy_concat (hsaves : effect.saves = some workOrder)
    (h : storedBy owners (log ++ [effect]) = .ok after) :
    ∃ before, storedBy owners log = .ok before ∧
      before.save owners workOrder = .ok after := by
  rw [storedBy, List.filterMap_append, List.filterMap_cons, hsaves, List.filterMap_nil,
    List.foldlM_append] at h
  obtain ⟨before, hbefore, h⟩ := bind_eq_ok_iff.mp h
  rw [List.foldlM_cons] at h
  obtain ⟨left, hleft, h⟩ := bind_eq_ok_iff.mp h
  rw [List.foldlM_nil, pure_eq_ok_iff] at h
  exact ⟨before, hbefore, h ▸ hleft⟩

/-- A save that commits is stored, under the row the work order has or a new
one. -/
theorem StoredStates.stores {written : WrittenRows} (h : StoredStates owners before log)
    (hover : SavedOver (lastSaved workOrder.id log) effect workOrder)
    (hwrites : before.Saves owners workOrder written after) :
    StoredAs owners after.toStoredRows written.row
        { workOrder with version := effect.leftVersion } ∧
      ∀ row ∈ before.workOrders, row.externalId ≠ workOrder.id →
        row.id ≠ written.row.id := by
  rcases StoredTables.writeRow_cases hwrites.row with
    ⟨hnone, hrow⟩ | ⟨existing, hexisting, hid, hversion, hrow⟩
  · -- An insert draws a key that no row refers to.
    have hfirst : lastSaved workOrder.id log = none := by
      cases hlast : lastSaved workOrder.id log with
      | none => rfl
      | some state =>
          obtain ⟨hself, row, hstored⟩ := h.states _ state hlast
          exact absurd (hstored.written.externalId.trans hself)
            (hnone row hstored.stored)
    have hnew := hrow.id
    rw [hover.first hfirst]
    refine ⟨hwrites.stores h.keys hover.named hover.known (fun found hfound => ?_)
      (hnew ▸ hrow), fun row hmem _ hsame => ?_⟩
    · obtain ⟨hmem, howner⟩ := mem_rowsOf.mp hfound
      obtain ⟨row, hrow, hsame⟩ :=
        List.mem_map.mp (before.constraints.fkBudgets found hmem)
      have hlt := h.keys.workOrders row hrow
      rw [hsame, howner, hnew] at hlt
      exact absurd hlt (lt_irrefl _)
    · have hlt := h.keys.workOrders row hmem
      rw [hsame, hnew] at hlt
      exact lt_irrefl _ hlt
  · obtain ⟨state, hlast⟩ := h.rows existing hexisting
    rw [hid] at hlast
    obtain ⟨hself, row, hstored⟩ := h.states _ state hlast
    obtain rfl : row = existing :=
      List.inj_on_of_nodup_map before.constraints.uxExternalId hstored.stored hexisting
        (hstored.written.externalId.trans (hself.trans hid.symm))
    obtain ⟨hcreated, hleft, hbudgets⟩ := hover.next state hlast
    have hkey := hrow.id
    have htime : row.createdAt = workOrder.createdAt :=
      hstored.written.createdAt.trans hcreated
    rw [htime] at hrow
    rw [hleft]
    refine ⟨hwrites.stores h.keys hover.named hover.known (fun found hfound => ?_)
      (hkey ▸ hrow), fun other hother hne hsame => hne ?_⟩
    · rw [hkey] at hfound
      obtain ⟨budget, hbudget, hfrom⟩ := hstored.budgets.exists_item hfound
      rw [hfrom.externalId]
      exact hbudgets budget hbudget
    · rw [List.inj_on_of_nodup_map before.constraints.pkWorkOrders hother hexisting
        (hsame.trans hkey), hid]

/-- One save of a run, over the states that are stored. -/
theorem StoredStates.saved (h : StoredStates owners before log)
    (hsaves : effect.saves = some workOrder)
    (hover : SavedOver (lastSaved workOrder.id log) effect workOrder)
    (hsave : before.save owners workOrder = .ok after) :
    StoredStates owners after (log ++ [effect]) := by
  obtain ⟨written, hwrites⟩ := StoredTables.save_ok hsave
  obtain ⟨hstored, hapart⟩ := h.stores hover hwrites
  refine ⟨hwrites.sequenced h.keys, fun workOrderId state hlast => ?_, fun row hrow => ?_⟩
  · rw [lastSaved_concat] at hlast
    by_cases hself : workOrder.id = workOrderId
    · subst hself
      rw [hover.left, Option.some.injEq] at hlast
      subst hlast
      exact ⟨rfl, _, hstored⟩
    · rw [leaves_of_ne hsaves hself] at hlast
      obtain ⟨hid, row, hrow⟩ := h.states workOrderId state hlast
      refine ⟨hid, row, hwrites.keeps hrow (hapart row hrow.stored fun hsame => ?_)⟩
      exact hself (hsame.symm.trans (hrow.written.externalId.trans hid))
  · rw [lastSaved_concat]
    by_cases hself : workOrder.id = row.externalId
    · rw [← hself]
      exact ⟨_, hover.left⟩
    · rw [leaves_of_ne hsaves hself]
      rw [hwrites.left] at hrow
      rcases mem_upsert.mp hrow with rfl | ⟨hold, -⟩
      · exact absurd hstored.written.externalId.symm hself
      · exact h.rows row hold

/-- The saves of a log store the states they left. -/
theorem stored_of_saves (hlog : ∀ earlier effect later, log = earlier ++ effect :: later →
      ∀ workOrder, effect.saves = some workOrder →
        SavedOver (lastSaved workOrder.id earlier) effect workOrder) :
    ∀ tables, storedBy owners log = .ok tables → StoredStates owners tables log := by
  induction log using List.reverseRecOn with
  | nil =>
      intro tables h
      rw [storedBy, List.filterMap_nil, List.foldlM_nil, pure_eq_ok_iff] at h
      subst h
      refine ⟨⟨?_, ?_, ?_, ?_⟩, fun _ _ hlast => (nomatch hlast), ?_⟩ <;>
        exact fun row hrow => absurd hrow List.not_mem_nil
  | append_singleton log effect ih =>
      intro tables h
      have hearlier := ih fun earlier other later hsplit => hlog earlier other
        (later ++ [effect]) (by rw [hsplit, List.append_assoc, List.cons_append])
      cases hsaves : effect.saves with
      | none =>
          rw [storedBy_concat_none hsaves] at h
          have hstates := hearlier tables h
          have hsame : ∀ workOrderId, lastSaved workOrderId (log ++ [effect]) =
              lastSaved workOrderId log := fun workOrderId => by
            rw [lastSaved_concat, leaves_of_saves_none hsaves]
          refine ⟨hstates.keys, fun workOrderId state hlast => ?_, fun row hrow => ?_⟩
          · rw [hsame] at hlast
            exact hstates.states workOrderId state hlast
          · rw [hsame]
            exact hstates.rows row hrow
      | some workOrder =>
          obtain ⟨before, hbefore, hsave⟩ := storedBy_concat hsaves h
          exact (hearlier before hbefore).saved hsaves
            (hlog log effect [] rfl workOrder hsaves) hsave

end Replay

section Runs

variable {settings : OutboxSettings} {config : Config WorkshopDb SagaPlace}
variable {log : List SagaEffect} {owners : Owners}
variable {pid : Nat} {input : SagaInput} {out : SagaOutcome}

/-- A new work order is saved over nothing. -/
theorem savedOver_created {workOrder : WorkOrder} {bound : Uuid}
    (hopened : Opened bound workOrder) :
    SavedOver none (.created workOrder) workOrder where
  named := hopened.named
  known := hopened.known
  first := fun _ => rfl
  next := fun _ hlast => nomatch hlast
  left := if_pos rfl

/-- An edit is saved over the state it was made of. -/
theorem savedOver_saved {edit : Edit} {fresh : Uuid} {moved : ItemId → Int}
    {state : WorkOrder} {operation : WorkOrderOperation}
    (hfollows : edit.Follows fresh moved) (hnamed : edit.loaded.ChildrenNamed)
    (hknown : state.RoundsKnown) (hby : edit.By operation)
    (hsame : SameState edit.loaded state) :
    SavedOver (some state) (.saved edit) edit.changed := by
  have hevolves := hfollows.evolves
  have hcreated : edit.changed.createdAt = edit.loaded.createdAt :=
    operation.keepsCreation _ _ _ hby.runs
  refine ⟨childrenNamed_of_evolves hevolves hfollows.below hnamed,
    hevolves.known (hsame.roundsKnown hknown), fun hnone => (nomatch hnone),
    fun other hother => ?_, ?_⟩
  · rw [Option.some.injEq] at hother
    subst hother
    refine ⟨(congrArg WorkOrderRow.createdAt hsame.row).symm.trans hcreated.symm, rfl,
      fun budget hbudget => hevolves.budgets.subset ?_⟩
    exact List.mem_map_of_mem (hsame.budgets.mem_iff.mpr hbudget)
  · rw [SagaEffect.leaves, if_pos rfl, WorkOrderTables.overwritten, ← hcreated,
      ← hevolves.version]
    rfl

/-- A save is the first effect of its transaction. -/
theorem first_saves {first effect : SagaEffect} {rest between later : List SagaEffect}
    {workOrder : WorkOrder} (hrest : ∀ other ∈ rest, other.saves = none)
    (heffects : first :: rest = between ++ effect :: later)
    (hsaves : effect.saves = some workOrder) : between = [] ∧ effect = first := by
  cases between with
  | nil => exact ⟨rfl, (List.cons.inj heffects).1.symm⟩
  | cons head between =>
      obtain ⟨rfl, hmore⟩ := List.cons.inj heffects
      have hnone := hrest effect (hmore ▸ List.mem_append_right _ List.mem_cons_self)
      rw [hnone] at hsaves
      cases hsaves

/-- A save of a move is one over the state that was saved last. -/
theorem savedOver_of_exec (h : SagaReaches settings config log)
    (hexec : sagaExec settings config.store (config.places pid) input = some out)
    {between later : List SagaEffect} {effect : SagaEffect} {workOrder : WorkOrder}
    (heffects : out.effects = between ++ effect :: later)
    (hsaves : effect.saves = some workOrder) :
    SavedOver (lastSaved workOrder.id (log ++ between)) effect workOrder := by
  obtain ⟨hserial, hreads⟩ := serial_of_reaches h
  have hplace := (made_of_reaches h).2 pid
  have hperforms := (performed_of_reaches h).2 pid
  have hread := hreads pid
  have hlast : ∀ {edit rest}, out.effects = .saved edit :: rest →
      ∃ state, lastSaved edit.changed.id log = some state ∧
        SameState edit.loaded state := lastSaved_of_saves h hexec
  have hchange := (sagaMove_of_exec hexec).tables
  revert hchange hplace hperforms hread hlast heffects
  generalize out.store.tables = tables'
  generalize out.effects = effects
  generalize config.places pid = place
  intro heffects hplace hperforms hread hlast hchange
  have hedit : ∀ {edit : Edit} {rest : List SagaEffect},
      effects = .saved edit :: rest → edit.loaded.ChildrenNamed →
      (∃ fresh moved, edit.Follows fresh moved) →
      (∃ operation, edit.By operation) →
      SavedOver (lastSaved edit.changed.id log) (.saved edit) edit.changed := by
    rintro edit rest hfirst hnamed ⟨fresh, moved, hfollows⟩ ⟨operation, hby⟩
    obtain ⟨state, hstate, hsame⟩ := hlast hfirst
    obtain ⟨stored, hstored, hrel⟩ :=
      exists_left_of_rel (hserial.last edit.changed.id) hstate
    rw [hstate]
    exact savedOver_saved hfollows hnamed
      (hrel.symm.roundsKnown (hserial.sound _ _ hstored).1) hby hsame
  cases hchange with
  | same _ hsaved hcreated =>
      have hnone := saves_none hsaved hcreated effect
        (heffects ▸ List.mem_append_right _ List.mem_cons_self)
      rw [hnone] at hsaves
      cases hsaves
  | create opened _ hsave =>
      obtain ⟨rfl, rfl⟩ := first_saves (by simp) heffects hsaves
      cases hsaves
      rw [List.append_nil, right_eq_none_of_rel (hserial.last workOrder.id) hread]
      exact savedOver_created hplace
  | save edit step _ hsave =>
      obtain ⟨rfl, rfl⟩ := first_saves (by simp) heffects hsaves
      cases hsaves
      obtain ⟨fresh, -, hfollows⟩ := hplace.1.follows
      rw [List.append_nil]
      exact hedit rfl hplace.2.children ⟨fresh, _, hfollows⟩ hperforms
  | commit withdrawal _ hsave =>
      obtain ⟨rfl, rfl⟩ := first_saves (by simp [SagaEffect.saves]) heffects hsaves
      cases hsaves
      obtain ⟨fresh, -, hfollows⟩ := hplace.1.follows
      rw [List.append_nil]
      exact hedit rfl hplace.2.children ⟨fresh, _, hfollows⟩ hperforms

/-- In every run each save is one over the state that was saved last. -/
theorem savedOver_of_reaches (h : SagaReaches settings config log) :
    ∀ earlier effect later, log = earlier ++ effect :: later →
      ∀ workOrder, effect.saves = some workOrder →
        SavedOver (lastSaved workOrder.id earlier) effect workOrder := by
  refine ReachesBy.invariant (P := fun _ log => ∀ earlier effect later,
    log = earlier ++ effect :: later → ∀ workOrder, effect.saves = some workOrder →
      SavedOver (lastSaved workOrder.id earlier) effect workOrder)
    (fun earlier effect later hlog => by simp at hlog) ?_ h
  intro config log pid input out before hearlier _ hexec earlier effect later hlog
    workOrder hsaves
  rcases split_append hlog with ⟨rest, hold, -⟩ | ⟨between, rfl, heffects⟩
  · exact hearlier earlier effect rest hold workOrder hsaves
  · exact savedOver_of_exec before hexec heffects hsaves

/-- In every run a work order that was saved is read back as it was saved until it
is saved again, by the repository at its next version and by the read side,
whatever was saved before and whatever order the rows are read in. -/
theorem saved_work_order_read_back (h : SagaReaches settings config log)
    {earlier between later : List SagaEffect} {effect : SagaEffect}
    (hlog : log = earlier ++ effect :: (between ++ later)) {workOrder : WorkOrder}
    (hsaves : effect.saves = some workOrder)
    (hlast : ∀ other ∈ between, ∀ saved, other.saves = some saved →
      saved.id ≠ workOrder.id)
    {tables : StoredTables}
    (hstored : storedBy owners (earlier ++ effect :: between) = .ok tables)
    (orders : LoadOrders) :
    ∃ loaded dto,
      tables.findByNumber owners orders workOrder.number = .ok (some loaded) ∧
      SameState loaded { workOrder with version := effect.leftVersion } ∧
      (loaded.budgets.Pairwise fun left right => left.round < right.round) ∧
      tables.getByNumber owners workOrder.number = .ok (some dto) ∧
      dto.Answers workOrder := by
  have hover := savedOver_of_reaches h
  have hstates := stored_of_saves (fun front other back hsplit =>
    hover front other (back ++ later) (by
      rw [hlog, ← List.cons_append, ← List.append_assoc, hsplit, List.append_assoc,
        List.cons_append])) tables hstored
  have hleft : lastSaved workOrder.id (earlier ++ effect :: between) =
      some { workOrder with version := effect.leftVersion } := by
    rw [lastSaved_append, List.foldl_cons,
      (hover earlier effect (between ++ later) hlog workOrder hsaves).left]
    exact leaves_of_others hlast
  obtain ⟨-, row, hrow⟩ := hstates.states workOrder.id _ hleft
  obtain ⟨loaded, hfind, hsame, hrounds⟩ := hrow.findByNumber orders
  obtain ⟨dto, hget, hanswers⟩ := hrow.getByNumber
  exact ⟨loaded, dto, hfind, hsame, hrounds, hget, hanswers.columns,
    hanswers.services, hanswers.parts, hanswers.budgets, hanswers.rounds⟩

end Runs

namespace StoredWitness

open SagaWitness (opened part plainRequest settings stocked)

/-- A service that costs nothing. -/
def wash : ServiceRef := ⟨50, "Wash", Money.zero⟩

/-- A part is planned and removed, and round one is quoted twice. -/
def requests : List (Nat × SagaInput) :=
  stocked ++ opened [part] ++ plainRequest 0 4 (.addRequestedService wash 7) ++
    plainRequest 0 5 (.planPart part 7) ++ plainRequest 0 6 (.removeItem 6 7) ++
    plainRequest 0 7 (.startDiagnosis 7) ++ plainRequest 0 8 (.completeDiagnosis 7) ++
    plainRequest 0 9 (.rejectBudget 7 none) ++
    plainRequest 0 10 (.completeDiagnosis 7)

def quoted : Config WorkshopDb SagaPlace × List SagaEffect :=
  endOfRun (sagaExec settings) emptyWorkshop requests (by decide +kernel)

def resolver (externalId : Uuid) : KeyResolver := ⟨[(1, externalId)], by simp, by simp⟩

def owners : Owners :=
  ⟨resolver 90, resolver 91, resolver 7, resolver 50, resolver 0⟩

/-- What was saved at a place of the log. -/
def editAt (index : Nat) : Option Edit :=
  match quoted.2[index]? with
  | some (.saved edit) => some edit
  | _ => none

/-- The last save, of the second quote. -/
def requote : Edit := (editAt 7).get (by decide +kernel)

theorem log_quoted :
    quoted.2 = quoted.2.take 7 ++ .saved requote :: ([] ++ []) := by
  decide +kernel

theorem saved_work_order_read_back_requote : ∃ tables loaded dto,
    storedBy owners (quoted.2.take 7 ++ [.saved requote]) = .ok tables ∧
      tables.findByNumber owners {} requote.changed.number = .ok (some loaded) ∧
      SameState loaded { requote.changed with version := 7 } ∧
      (loaded.budgets.Pairwise fun left right => left.round < right.round) ∧
      tables.getByNumber owners requote.changed.number = .ok (some dto) ∧
      dto.Answers requote.changed := by
  have hcommits : (storedBy owners (quoted.2.take 7 ++ [.saved requote])).isOk = true := by
    decide +kernel
  cases hstored : storedBy owners (quoted.2.take 7 ++ [.saved requote]) with
  | error error =>
      rw [hstored] at hcommits
      cases hcommits
  | ok tables =>
      obtain ⟨loaded, dto, hread⟩ := saved_work_order_read_back (reaches_endOfRun _)
        log_quoted rfl (fun _ hother => absurd hother List.not_mem_nil) hstored {}
      have hversion : (SagaEffect.saved requote).leftVersion = 7 := by decide +kernel
      rw [hversion] at hread
      exact ⟨tables, loaded, dto, rfl, hread⟩

end StoredWitness

end WorkOrders

end Workshop
