/-
The accounts that registrations open.  The step of a registration is done only
when its customer is saved, its account is gone, or an applier discarded before
the account was there.
-/
import Workshop.Customers.RegistrationMoves

namespace Workshop

namespace Customers

/-- The ids of a registration, chosen one after the other. -/
structure Attempt.Named (attempt : Attempt) (bound : Uuid) : Prop where
  customerId : attempt.customerId = attempt.userId + 1
  operationId : attempt.operationId = attempt.userId + 2
  below : attempt.operationId < bound

/-- A step of the table. -/
def Recorded (steps : List AccountStepRow) (step : AccountStep) : Prop :=
  ∃ row ∈ steps, row.toAccountStep = step

/-- Every id in the tables was handed out, and a step is named after its
account. -/
structure NamedBelow (db : RegistrationDb) (log : List RegistrationEffect) : Prop where
  users : ∀ userId, db.HasUser userId → userId < db.nextId
  customers : ∀ customer ∈ db.customers, customer.id < db.nextId
  steps : ∀ row ∈ db.steps, row.operationId = row.userId + 2 ∧
    row.operationId < db.nextId
  opened : ∀ attempt, .opened attempt ∈ log → attempt.Named db.nextId

/-- The ids a program works with were handed out as well. -/
structure RegistrationPlace.NamedBelow (db : RegistrationDb)
    (place : RegistrationPlace) : Prop where
  attempt : ∀ attempt, place.attempt = some attempt → attempt.Named db.nextId
  held : ∀ step ∈ place.held, Recorded db.steps step
  customer : ∀ attempt customer, place = .saving attempt customer →
    customer.id = attempt.customerId ∧ customer.userId = attempt.userId

section Names

variable {settings : OutboxSettings} {db db' : RegistrationDb}
variable {place next : RegistrationPlace} {effects log : List RegistrationEffect}
variable {config : Config RegistrationDb RegistrationPlace}

theorem Attempt.Named.mono {attempt : Attempt} {bound more : Uuid}
    (h : attempt.Named bound) (hle : bound ≤ more) : attempt.Named more :=
  ⟨h.customerId, h.operationId, h.below.trans_le hle⟩

theorem Attempt.Named.userId_lt {attempt : Attempt} {bound : Uuid}
    (h : attempt.Named bound) : attempt.userId < bound := by
  have hbelow := h.below
  rw [h.operationId] at hbelow
  exact Nat.lt_of_le_of_lt (Nat.le_add_right _ _) hbelow

theorem Attempt.Named.customerId_lt {attempt : Attempt} {bound : Uuid}
    (h : attempt.Named bound) : attempt.customerId < bound := by
  have hbelow := h.below
  rw [h.operationId] at hbelow
  rw [h.customerId]
  exact Nat.lt_trans (Nat.lt_succ_self _) hbelow

/-- A step is told by its account. -/
theorem step_eq {step other : AccountStep} (hstep : step.operationId = step.userId + 2)
    (hother : other.operationId = other.userId + 2)
    (hid : step.operationId = other.operationId) : step = other := by
  obtain ⟨operationId, kind, userId⟩ := step
  obtain ⟨otherId, otherKind, otherUser⟩ := other
  obtain rfl : operationId = otherId := hid
  have huser : userId = otherUser :=
    Nat.add_right_cancel (hstep.symm.trans hother)
  cases kind
  cases otherKind
  rw [huser]

theorem Advances.recorded (h : Advances db db' place effects) {step : AccountStep}
    (hstep : Recorded db.steps step) : Recorded db'.steps step := by
  obtain ⟨kept, added, hsteps, hkept, -⟩ := h.steps
  obtain ⟨row, hrow, rfl⟩ := hstep
  obtain ⟨row', hrow', hsame, -⟩ := hkept.kept hrow
  refine ⟨row', ?_, hsame⟩
  rw [hsteps]
  exact List.mem_append_left _ hrow'

theorem held_nextApplication {step : AccountStep} {queue : List ClaimedAccountStep} :
    step ∈ (nextApplication queue).held ↔
      step ∈ queue.map ClaimedAccountStep.toAccountStep := by
  cases queue <;> rfl

theorem attempt_nextApplication (queue : List ClaimedAccountStep) :
    (nextApplication queue).attempt = none := by
  cases queue <;> rfl

theorem attempt_of_isFree (h : place.isFree = true) : place.attempt = none := by
  cases place <;> first | rfl | cases h

theorem held_of_isFree (h : place.isFree = true) : place.held = [] := by
  cases place <;> first | rfl | cases h

/-- A program keeps the registration it works for, or begins one. -/
theorem RegistrationMove.attempt
    (h : RegistrationMove settings db place db' next effects) {attempt : Attempt}
    (hnext : next.attempt = some attempt) :
    place.attempt = some attempt ∨
      attempt.userId = db.nextId ∧ attempt.Named db'.nextId := by
  cases h with
  | free place next hfree =>
      rw [attempt_of_isFree hfree] at hnext
      cases hnext
  | fail place error =>
      cases place with
      | discarding errand | deleting errand | completing errand =>
          cases errand <;> exact Or.inl hnext
      | _ => first | exact Or.inl hnext | cases hnext
  | begin command dueAt =>
      cases hnext
      exact Or.inr ⟨rfl, rfl, rfl, Nat.lt_succ_self _⟩
  | complete errand =>
      cases errand with
      | compensation attempt => cases hnext
      | application step queue =>
          rw [Errand.afterwards, attempt_nextApplication] at hnext
          cases hnext
  | claim now operationIds surroundings =>
      have hnone : (claimDue settings db now operationIds surroundings).place.attempt =
          none := attempt_nextApplication _
      rw [hnone] at hnext
      cases hnext
  | recordError step queue error =>
      rw [attempt_nextApplication] at hnext
      cases hnext
  | checkSessions errand => cases errand <;> exact Or.inl hnext
  | delete errand => cases errand <;> exact Or.inl hnext
  | _ => first | exact Or.inl hnext | cases hnext

/-- A program keeps the steps it holds, or claims them from the table. -/
theorem RegistrationMove.held
    (h : RegistrationMove settings db place db' next effects) {step : AccountStep}
    (hnext : step ∈ next.held) : step ∈ place.held ∨ Recorded db.steps step := by
  cases h with
  | free place next hfree =>
      rw [held_of_isFree hfree] at hnext
      cases hnext
  | fail place error =>
      cases place with
      | discarding errand | deleting errand | completing errand =>
          cases errand with
          | compensation attempt => cases hnext
          | application step queue => exact Or.inl hnext
      | _ => cases hnext
  | complete errand =>
      cases errand with
      | compensation attempt => cases hnext
      | application step queue =>
          exact Or.inl (List.mem_cons_of_mem _ (held_nextApplication.mp hnext))
  | claim now operationIds surroundings =>
      obtain ⟨claimed, hclaimed, rfl⟩ := List.mem_map.mp (held_nextApplication.mp hnext)
      exact Or.inr (mem_claimedSteps hclaimed)
  | recordError step queue error =>
      exact Or.inl (List.mem_cons_of_mem _ (held_nextApplication.mp hnext))
  | checkSessions errand => cases errand <;> exact Or.inl hnext
  | delete errand => cases errand <;> exact Or.inl hnext
  | _ => first | exact Or.inl hnext | cases hnext

/-- The customer that is about to be saved has the ids of its registration. -/
theorem RegistrationMove.saving
    (h : RegistrationMove settings db place db' next effects) {attempt : Attempt}
    {customer : Customer} (hnext : next = .saving attempt customer) :
    place = .saving attempt customer ∨
      customer.id = attempt.customerId ∧ customer.userId = attempt.userId := by
  cases h with
  | opens attempt' user customer' identity huser hid huserId hsave =>
      cases hnext
      exact Or.inr ⟨hid, huserId⟩
  | tick => exact Or.inl hnext
  | free place next hfree =>
      subst hnext
      cases hfree
  | fail place error =>
      cases place with
      | discarding errand | deleting errand | completing errand =>
          cases errand <;> cases hnext
      | _ => cases hnext
  | complete errand =>
      cases errand with
      | compensation attempt => cases hnext
      | application step queue => cases queue <;> cases hnext
  | claim now operationIds surroundings =>
      have hplace : ∀ queue, nextApplication queue ≠ .saving attempt customer := by
        intro queue
        cases queue <;> nofun
      exact absurd hnext (hplace _)
  | recordError step queue error => cases queue <;> cases hnext
  | _ => cases hnext

/-- A move hands out the ids of its registration, and stores nothing else. -/
theorem NamedBelow.advance (hnamed : NamedBelow db log) (hplace : place.NamedBelow db)
    (hadv : Advances db db' place effects) : NamedBelow db' (log ++ effects) := by
  have hmine := fun attempt hattempt =>
    (hplace.attempt attempt hattempt).mono hadv.nextId
  refine ⟨fun userId huser => ?_, fun customer hcustomer => ?_, fun row hrow => ?_,
    fun attempt hopened => ?_⟩
  · rcases hadv.users userId huser with hold | ⟨rfl, hlt⟩ | ⟨attempt, hopening, -, rfl⟩
    · exact (hnamed.users userId hold).trans_le hadv.nextId
    · exact hlt
    · exact (hmine attempt (by rw [hopening]; rfl)).userId_lt
  · rcases hadv.customers customer hcustomer with hold | ⟨hid, hlt⟩ | ⟨attempt, hsaving⟩
    · exact (hnamed.customers customer hold).trans_le hadv.nextId
    · rw [hid]
      exact hlt
    · rw [(hplace.customer attempt customer hsaving).1]
      exact (hmine attempt (by rw [hsaving]; rfl)).customerId_lt
  · obtain ⟨kept, added, hsteps, hkept, hadded⟩ := hadv.steps
    rw [hsteps] at hrow
    rcases List.mem_append.mp hrow with hrow | hrow
    · obtain ⟨old, hold, hsame, -⟩ := hkept.mem hrow
      have hstep := hnamed.steps old hold
      rw [hsame]
      exact ⟨hstep.1, hstep.2.trans_le hadv.nextId⟩
    · obtain ⟨attempt, dueAt, harming, hsame, -⟩ := hadded row hrow
      have hname := hmine attempt (by rw [harming]; rfl)
      rw [hsame]
      exact ⟨hname.operationId, hname.below⟩
  · rcases List.mem_append.mp hopened with hold | hnew
    · exact (hnamed.opened attempt hold).mono hadv.nextId
    · exact hmine attempt (by rw [hadv.opened attempt hnew]; rfl)

/-- The ids a program works with stay handed out while any program moves. -/
theorem RegistrationPlace.NamedBelow.advance {other : RegistrationPlace}
    (hother : other.NamedBelow db) (hadv : Advances db db' place effects) :
    other.NamedBelow db' :=
  ⟨fun attempt hattempt => (hother.attempt attempt hattempt).mono hadv.nextId,
    fun step hstep => hadv.recorded (hother.held step hstep), hother.customer⟩

theorem RegistrationMove.named (h : RegistrationMove settings db place db' next effects)
    (hplace : place.NamedBelow db) : next.NamedBelow db' := by
  have hkept := hplace.advance h.advances
  refine ⟨fun attempt hnext => ?_, fun step hstep => ?_, fun attempt customer hnext => ?_⟩
  · rcases h.attempt hnext with hold | ⟨-, hname⟩
    · exact hkept.attempt attempt hold
    · exact hname
  · rcases h.held hstep with hold | hrecorded
    · exact hkept.held step hold
    · exact h.advances.recorded hrecorded
  · rcases h.saving hnext with hold | hids
    · exact hplace.customer attempt customer hold
    · exact hids

/-- In every run the ids are handed out once. -/
theorem named_of_reaches (h : RegistrationReaches settings config log) :
    NamedBelow config.store log ∧ ∀ pid, (config.places pid).NamedBelow config.store := by
  refine ReachesBy.invariant_of_places (G := NamedBelow)
    (L := fun db _ place => place.NamedBelow db) ?_ (fun _ => ?_) ?_ ?_ h
  · refine ⟨?_, fun _ hcustomer => absurd hcustomer List.not_mem_nil,
      fun _ hrow => absurd hrow List.not_mem_nil,
      fun _ hopened => absurd hopened List.not_mem_nil⟩
    rintro userId ⟨user, huser, -⟩
    cases huser
  · refine ⟨fun _ hattempt => ?_, fun _ hstep => absurd hstep List.not_mem_nil,
      fun _ _ hplace => ?_⟩
    · cases hattempt
    · cases hplace
  · intro config log pid input out before hnamed hplaces _ hexec
    have hmove := registrationMove_of_exec hexec
    exact ⟨hnamed.advance (hplaces pid) hmove.advances, hmove.named (hplaces pid)⟩
  · intro config log pid input out before _ hplaces _ hexec other _
    exact (hplaces other).advance (registrationMove_of_exec hexec).advances

/-- Two programs work for two registrations. -/
theorem attempts_distinct (h : RegistrationReaches settings config log) :
    ∀ pid other, other ≠ pid → ∀ attempt attempt' : Attempt,
      (config.places pid).attempt = some attempt →
        (config.places other).attempt = some attempt' →
          attempt.userId ≠ attempt'.userId := by
  refine ReachesBy.invariant_of_pairs
    (D := fun place place' => ∀ attempt attempt' : Attempt,
      place.attempt = some attempt → place'.attempt = some attempt' →
        attempt.userId ≠ attempt'.userId) ?_ ?_ ?_ h
  · exact fun hne attempt attempt' hattempt hattempt' =>
      (hne attempt' attempt hattempt' hattempt).symm
  · exact fun _ _ _ _ hattempt => nomatch hattempt
  · intro config log pid input out before hexec other _ hne attempt attempt' hattempt
      hattempt'
    rcases (registrationMove_of_exec hexec).attempt hattempt with hold | ⟨hnew, -⟩
    · exact hne attempt attempt' hold hattempt'
    · have hname := ((named_of_reaches before).2 other).attempt attempt' hattempt'
      rw [hnew]
      exact hname.userId_lt.ne'

end Names

/-- An applier discarded for the step while the account was not opened. -/
def DiscardedEarly (log : List RegistrationEffect) (step : AccountStep) : Prop :=
  ∃ before after, log = before ++ .foundNoAccount step :: after ∧
    ∀ attempt, .opened attempt ∈ before → attempt.step ≠ step

/-- The account was not opened and the customer was not saved. -/
structure Attempt.Fresh (attempt : Attempt) (db : RegistrationDb)
    (log : List RegistrationEffect) : Prop where
  unopened : ∀ other, .opened other ∈ log → other.userId ≠ attempt.userId
  unsaved : ∀ customer ∈ db.customers, customer.id ≠ attempt.customerId

/-- The step of a registration is in the table, and done only when an applier
discarded early. -/
def Attempt.Armed (attempt : Attempt) (db : RegistrationDb)
    (log : List RegistrationEffect) : Prop :=
  ∃ row ∈ db.steps, row.toAccountStep = attempt.step ∧
    (row.status = .done → DiscardedEarly log attempt.step)

/-- What a program knows of the account it works for. -/
def RegistrationPlace.Knows (db : RegistrationDb) (log : List RegistrationEffect) :
    RegistrationPlace → Prop
  | .arming attempt _ => ¬ db.HasUser attempt.userId ∧ attempt.Fresh db log
  | .checkingEmail attempt | .checkingDocument attempt | .opening attempt =>
      attempt.Fresh db log ∧ attempt.Armed db log
  | .saving attempt _ => ∀ customer ∈ db.customers, customer.id ≠ attempt.customerId
  | .completing (.compensation attempt) => ¬ db.HasUser attempt.userId
  | .completing (.application step _) => DiscardedEarly log step.toAccountStep ∨
      (∃ attempt, .opened attempt ∈ log ∧ attempt.step = step.toAccountStep) ∧
        ¬ db.HasUser step.userId
  | _ => True

/-- No customer is without its account, and the step of an opened account is
done only when the account is gone, referred to, or was discarded for early. -/
structure AccountsKept (db : RegistrationDb) (log : List RegistrationEffect) : Prop where
  customers : ∀ customer ∈ db.customers, db.HasUser customer.userId
  opened : ∀ attempt, .opened attempt ∈ log → ∃ row ∈ db.steps,
    row.toAccountStep = attempt.step ∧ (row.status = .done →
      ¬ db.HasUser attempt.userId ∨ db.Refers attempt.userId ∨
        DiscardedEarly log attempt.step)
  users : ∀ row ∈ db.steps, db.HasUser row.userId →
    ∃ attempt, .opened attempt ∈ log ∧ attempt.step = row.toAccountStep

section Keeping

variable {settings : OutboxSettings} {db db' : RegistrationDb}
variable {place next : RegistrationPlace} {effects log : List RegistrationEffect}
variable {config : Config RegistrationDb RegistrationPlace}

theorem DiscardedEarly.mono {step : AccountStep} (h : DiscardedEarly log step) :
    DiscardedEarly (log ++ effects) step := by
  obtain ⟨before, after, rfl, hnone⟩ := h
  exact ⟨before, after ++ effects, by simp, hnone⟩

/-- An account that is gone comes back only when it is opened. -/
theorem Advances.gone (h : Advances db db' place effects) {userId : UserId}
    (hbelow : userId < db.nextId)
    (hnot : ∀ attempt, place = .opening attempt → attempt.userId ≠ userId)
    (hgone : ¬ db.HasUser userId) : ¬ db'.HasUser userId := by
  intro hback
  rcases h.users userId hback with hold | ⟨hnew, -⟩ | ⟨attempt, hplace, -, hsame⟩
  · exact hgone hold
  · exact hbelow.ne hnew
  · exact hnot attempt hplace hsame.symm

/-- A registration stays fresh while other programs move. -/
theorem Advances.fresh (h : Advances db db' place effects)
    (hplace : place.NamedBelow db) {attempt : Attempt}
    (hnamed : attempt.Named db.nextId)
    (hother : ∀ other, place.attempt = some other → other.userId ≠ attempt.userId)
    (hfresh : attempt.Fresh db log) : attempt.Fresh db' (log ++ effects) := by
  constructor
  · intro other hopened
    rcases List.mem_append.mp hopened with hold | hnew
    · exact hfresh.unopened other hold
    · exact hother other (by rw [h.opened other hnew]; rfl)
  · intro customer hcustomer
    rcases h.customers customer hcustomer with hold | ⟨hid, -⟩ | ⟨other, hsaving⟩
    · exact hfresh.unsaved customer hold
    · rw [hid]
      exact hnamed.customerId_lt.ne'
    · have hmine : place.attempt = some other := by rw [hsaving]; rfl
      rw [(hplace.customer other customer hsaving).1,
        (hplace.attempt other hmine).customerId, hnamed.customerId]
      exact fun hsame => hother other hmine (Nat.succ.inj hsame)

/-- The three ways a program closes the row of a registration: for that
registration itself, saved or discarded, or for the step an applier holds. -/
theorem closes_cases (hplace : place.NamedBelow db) (hnamedDb : NamedBelow db log)
    {attempt : Attempt} (hnamed : attempt.Named db.nextId)
    (h : place.Closes effects attempt.operationId) :
    (∃ other customer, place = .saving other customer ∧
        .registered customer ∈ effects ∧ customer.userId = attempt.userId ∧
        other.userId = attempt.userId) ∨
      (∃ other, place = .completing (.compensation other) ∧
        other.userId = attempt.userId) ∨
      ∃ step queue, place = .completing (.application step queue) ∧
        step.toAccountStep = attempt.step := by
  have huser : ∀ other, place.attempt = some other →
      attempt.operationId = other.operationId → other.userId = attempt.userId := by
    intro other hother hsame
    rw [hnamed.operationId, (hplace.attempt other hother).operationId] at hsame
    exact (Nat.add_right_cancel hsame).symm
  rcases h with ⟨other, customer, rfl, heffect, hsame⟩ | ⟨errand, rfl, hsame⟩
  · have hid := huser other rfl hsame
    exact Or.inl ⟨other, customer, rfl, heffect,
      (hplace.customer other customer rfl).2.trans hid, hid⟩
  · cases errand with
    | compensation other =>
        exact Or.inr (Or.inl ⟨other, rfl, huser other rfl hsame⟩)
    | application step queue =>
        obtain ⟨row, hrow, hstep⟩ := hplace.held step.toAccountStep List.mem_cons_self
        have hrowNamed := (hnamedDb.steps row hrow).1
        rw [hstep] at hrowNamed
        exact Or.inr (Or.inr ⟨step, queue, rfl,
          step_eq hrowNamed hnamed.operationId hsame.symm⟩)

/-- A row of the table goes on, and is closed only where the program closes
it. -/
theorem Advances.row (h : Advances db db' place effects) {row : AccountStepRow}
    (hrow : row ∈ db.steps) :
    ∃ row' ∈ db'.steps, row'.toAccountStep = row.toAccountStep ∧
      (row'.status = .done →
        row.status = .done ∨ place.Closes effects row.operationId) := by
  obtain ⟨kept, added, hsteps, hkept, -⟩ := h.steps
  obtain ⟨row', hrow', hchange⟩ := hkept.kept hrow
  refine ⟨row', ?_, hchange⟩
  rw [hsteps]
  exact List.mem_append_left _ hrow'

theorem knows_of_isFree (h : place.isFree = true) : place.Knows db log := by
  cases place <;> first | exact trivial | cases h

theorem knows_onError (error : String) : (place.onError error).Knows db log := by
  cases place with
  | discarding errand | deleting errand | completing errand =>
      cases errand <;> exact trivial
  | _ => exact trivial

theorem knows_nextApplication (queue : List ClaimedAccountStep) :
    (nextApplication queue).Knows db log := by
  cases queue <;> exact trivial

/-- Every customer keeps its account: the foreign key refuses the delete, and a
save finds the account. -/
theorem RegistrationMove.customersKept
    (h : RegistrationMove settings db place db' next effects)
    (hkept : ∀ customer ∈ db.customers, db.HasUser customer.userId) :
    ∀ customer ∈ db'.customers, db'.HasUser customer.userId := by
  have hsaved : ∀ {found saved : RegistrationDb} {customer : Customer},
      found.saveCustomer customer = .ok saved → found.customers = db.customers →
      found.identity.users = db.identity.users →
      ∀ other ∈ saved.customers, saved.HasUser other.userId := by
    intro found saved customer hsave hcustomers husers other hother
    obtain ⟨huser, rfl⟩ := saveCustomer_ok hsave
    rcases mem_upsert.mp hother with rfl | ⟨hold, -⟩
    · exact huser
    · rw [hcustomers] at hold
      have hhas := hkept other hold
      rw [RegistrationDb.HasUser, ← husers] at hhas
      exact hhas
  cases h with
  | link _ customer _ hid hsave => exact hsaved hsave rfl rfl
  | save attempt customer _ hsave => exact hsaved hsave rfl rfl
  | opens attempt user customer identity huser hid huserId hsave =>
      exact fun other hother =>
        (hasUser_saveUser hsave _).mpr (Or.inl (hkept other hother))
  | registerUser user identity hid hsave =>
      exact fun other hother =>
        (hasUser_saveUser hsave _).mpr (Or.inl (hkept other hother))
  | saveSession session identity hsave =>
      obtain ⟨tokens, -, rfl⟩ := Identity.saveSession_eq_ok hsave
      exact hkept
  | delete errand _ hdelete =>
      intro other hother
      rcases deleteUser_ok hdelete with ⟨-, rfl⟩ | ⟨hnone, hdeleted⟩
      · exact hkept other hother
      · rw [hdeleted] at hother
        refine (hasUser_deleteUser hdelete).mpr ⟨hkept other hother, fun hsame => ?_⟩
        exact hnone ⟨other, hother, hsame⟩
  | _ => exact hkept

/-- A saved customer stays. -/
theorem RegistrationMove.refers
    (h : RegistrationMove settings db place db' next effects)
    (hbelow : ∀ customer ∈ db.customers, customer.id < db.nextId)
    (hplace : place.NamedBelow db) (hknows : place.Knows db log) {userId : UserId}
    (hrefers : db.Refers userId) : db'.Refers userId := by
  have hsaved : ∀ {found saved : RegistrationDb} {customer : Customer},
      found.saveCustomer customer = .ok saved → found.customers = db.customers →
      (∀ other ∈ db.customers, other.id ≠ customer.id) → saved.Refers userId := by
    intro found saved customer hsave hcustomers hnew
    obtain ⟨-, rfl⟩ := saveCustomer_ok hsave
    obtain ⟨other, hother, hsame⟩ := hrefers
    exact ⟨other, mem_upsert.mpr (Or.inr ⟨hcustomers ▸ hother, hnew other hother⟩),
      hsame⟩
  cases h with
  | link _ customer _ hid hsave =>
      exact hsaved hsave rfl fun other hother => hid ▸ (hbelow other hother).ne
  | save attempt customer _ hsave =>
      refine hsaved hsave rfl ?_
      rw [(hplace.customer attempt customer rfl).1]
      exact hknows
  | delete errand _ hdelete =>
      rcases deleteUser_ok hdelete with ⟨-, rfl⟩ | ⟨-, rfl⟩ <;> exact hrefers
  | _ => exact hrefers

theorem RegistrationMove.registers
    (h : RegistrationMove settings db place db' next effects) {customer : Customer}
    (heffect : .registered customer ∈ effects) : db'.Refers customer.userId := by
  have hsaved : ∀ {found saved : RegistrationDb} {other : Customer},
      found.saveCustomer other = .ok saved →
      .registered customer ∈ [RegistrationEffect.registered other] →
        saved.Refers customer.userId := by
    intro found saved other hsave hmem
    obtain ⟨-, rfl⟩ := saveCustomer_ok hsave
    rw [List.mem_singleton, RegistrationEffect.registered.injEq] at hmem
    exact ⟨other, mem_upsert.mpr (Or.inl rfl), hmem ▸ rfl⟩
  cases h with
  | link _ other _ hid hsave => exact hsaved hsave heffect
  | save attempt other _ hsave => exact hsaved hsave heffect
  | opens => cases List.mem_singleton.mp heffect
  | delete errand =>
      unfold discardEffects at heffect
      split at heffect
      · exact absurd heffect List.not_mem_nil
      · split at heffect
        · cases List.mem_singleton.mp heffect
        · exact absurd heffect List.not_mem_nil
  | _ => exact absurd heffect List.not_mem_nil

/-- The step of an account that was opened is done only with a reason, whoever
moves. -/
theorem RegistrationMove.openedKept
    (h : RegistrationMove settings db place db' next effects)
    (hnamed : NamedBelow db log) (hplace : place.NamedBelow db)
    (hknows : place.Knows db log) (hkept : AccountsKept db log) {attempt : Attempt}
    (hopened : .opened attempt ∈ log ++ effects) :
    ∃ row ∈ db'.steps, row.toAccountStep = attempt.step ∧ (row.status = .done →
      ¬ db'.HasUser attempt.userId ∨ db'.Refers attempt.userId ∨
        DiscardedEarly (log ++ effects) attempt.step) := by
  have hadv := h.advances
  rcases List.mem_append.mp hopened with hold | hnew
  · obtain ⟨row, hrow, hstep, hdone⟩ := hkept.opened attempt hold
    obtain ⟨row', hrow', hsame, hcloses⟩ := hadv.row hrow
    have hname := hnamed.opened attempt hold
    have hgone : ¬ db.HasUser attempt.userId → ¬ db'.HasUser attempt.userId := by
      refine hadv.gone hname.userId_lt ?_
      rintro other rfl hsame
      exact hknows.1.unopened attempt hold hsame.symm
    refine ⟨row', hrow', hsame.trans hstep, fun hdone' => ?_⟩
    rcases hcloses hdone' with hbefore | hcloses
    · rcases hdone hbefore with hnone | hrefers | hearly
      · exact Or.inl (hgone hnone)
      · exact Or.inr (Or.inl (h.refers hnamed.customers hplace hknows hrefers))
      · exact Or.inr (Or.inr hearly.mono)
    · rw [show row.operationId = attempt.operationId from
        congrArg AccountStep.operationId hstep] at hcloses
      rcases closes_cases hplace hnamed hname hcloses with
        ⟨other, customer, -, heffect, huser, -⟩ | ⟨other, rfl, huser⟩ |
          ⟨step, queue, rfl, hstep⟩
      · exact Or.inr (Or.inl (huser ▸ h.registers heffect))
      · exact Or.inl (hgone (huser ▸ hknows))
      · rcases hknows with hearly | ⟨-, hnone⟩
        · exact Or.inr (Or.inr (hstep ▸ hearly.mono))
        · have huser : step.userId = attempt.userId := congrArg AccountStep.userId hstep
          exact Or.inl (hgone (huser ▸ hnone))
  · have hopening := hadv.opened attempt hnew
    subst hopening
    obtain ⟨-, row, hrow, hstep, hdone⟩ := hknows
    obtain ⟨row', hrow', hsame, hcloses⟩ := hadv.row hrow
    refine ⟨row', hrow', hsame.trans hstep, fun hdone' => Or.inr (Or.inr ?_)⟩
    rcases hcloses hdone' with hbefore | ⟨_, _, hsaving, -⟩ | ⟨_, hcompleting, -⟩
    · exact (hdone hbefore).mono
    · cases hsaving
    · cases hcompleting

/-- An account that a step names was opened by its registration. -/
theorem Advances.usersKept (h : Advances db db' place effects)
    (hnamed : NamedBelow db log) (hplace : place.NamedBelow db)
    (hknows : place.Knows db log) (hkept : AccountsKept db log)
    {row : AccountStepRow} (hrow : row ∈ db'.steps) (huser : db'.HasUser row.userId) :
    ∃ attempt, .opened attempt ∈ log ++ effects ∧ attempt.step = row.toAccountStep := by
  obtain ⟨kept, added, hsteps, hchange, hadded⟩ := h.steps
  rw [hsteps] at hrow
  rcases List.mem_append.mp hrow with hrow | hrow
  · obtain ⟨old, hold, hsame, -⟩ := hchange.mem hrow
    have hid : row.userId = old.userId := congrArg AccountStep.userId hsame
    have hstep := hnamed.steps old hold
    rw [hid] at huser
    rcases h.users old.userId huser with hhas | ⟨hnew, -⟩ |
      ⟨attempt, hopening, heffect, hopened⟩
    · obtain ⟨attempt, hopened, hstep⟩ := hkept.users old hold hhas
      exact ⟨attempt, List.mem_append_left _ hopened, hstep.trans hsame.symm⟩
    · rw [hstep.1, hnew] at hstep
      exact absurd hstep.2 (Nat.not_lt.mpr (Nat.le_add_right _ _))
    · have hname := hplace.attempt attempt (by rw [hopening]; rfl)
      refine ⟨attempt, List.mem_append_right _ heffect, ?_⟩
      rw [hsame]
      refine step_eq hname.operationId hstep.1 ?_
      rw [hstep.1, hopened]
      exact hname.operationId
  · obtain ⟨attempt, dueAt, harming, hstep, -⟩ := hadded row hrow
    subst harming
    have hname := hplace.attempt attempt rfl
    have hid : row.userId = attempt.userId := congrArg AccountStep.userId hstep
    rw [hid] at huser
    refine absurd huser (h.gone hname.userId_lt (fun _ hopening => ?_) hknows.1)
    cases hopening

/-- What the program that moved knows afterwards. -/
theorem RegistrationMove.knows
    (h : RegistrationMove settings db place db' next effects)
    (hnamed : NamedBelow db log) (hplace : place.NamedBelow db)
    (hknows : place.Knows db log) (hkept : AccountsKept db log) :
    next.Knows db' (log ++ effects) := by
  cases h with
  | free _ _ hfree => exact knows_of_isFree hfree
  | fail _ error => exact knows_onError error
  | tick place elapsed =>
      rw [List.append_nil]
      cases place with
      | arming attempt dueAt =>
          exact ⟨hknows.1, hknows.2.unopened, hknows.2.unsaved⟩
      | checkingEmail attempt | checkingDocument attempt | opening attempt =>
          exact ⟨⟨hknows.1.unopened, hknows.1.unsaved⟩, hknows.2⟩
      | discarding errand | deleting errand | completing errand =>
          cases errand <;> exact hknows
      | _ => exact hknows
  | begin command dueAt =>
      refine ⟨fun huser => lt_irrefl _ (hnamed.users _ huser), ?_, ?_⟩
      · intro other hopened
        rw [List.append_nil] at hopened
        exact (hnamed.opened other hopened).userId_lt.ne
      · exact fun customer hcustomer =>
          ((hnamed.customers customer hcustomer).trans (Nat.lt_succ_self _)).ne
  | arm attempt dueAt steps harm =>
      rw [List.append_nil]
      unfold AccountSteps.arm at harm
      split at harm
      · cases harm
      · cases harm
        exact ⟨⟨hknows.2.unopened, hknows.2.unsaved⟩, _,
          List.mem_append_right _ (List.mem_singleton_self _), rfl,
          fun hdone => absurd hdone StepStatus.noConfusion⟩
  | checkEmail =>
      rw [List.append_nil]
      exact hknows
  | checkDocument =>
      rw [List.append_nil]
      exact hknows
  | opens => exact hknows.1.unsaved
  | delete errand _ hdelete =>
      have hgone : ¬ db'.HasUser errand.step.userId :=
        fun huser => ((hasUser_deleteUser hdelete).mp huser).2 rfl
      cases errand with
      | compensation attempt => exact hgone
      | application step queue =>
          by_cases hopened : ∃ attempt, .opened attempt ∈ log ∧
              attempt.step = step.toAccountStep
          · obtain ⟨attempt, hmem, hstep⟩ := hopened
            exact Or.inr ⟨⟨attempt, List.mem_append_left _ hmem, hstep⟩, hgone⟩
          · -- No account was opened for the step, so none was there to discard.
            have hnone : ¬ db.HasUser step.userId := by
              intro huser
              obtain ⟨row, hrow, hstep⟩ :=
                hplace.held step.toAccountStep List.mem_cons_self
              have hid : row.userId = step.userId := congrArg AccountStep.userId hstep
              obtain ⟨attempt, hmem, hattempt⟩ :=
                hkept.users row hrow (hid ▸ huser)
              exact hopened ⟨attempt, hmem, hattempt.trans hstep⟩
            refine Or.inl ⟨log, [], ?_, fun attempt hmem hstep =>
              hopened ⟨attempt, hmem, hstep⟩⟩
            rw [discardEffects, if_pos (findUserById_isNone.mpr hnone)]
  | complete errand =>
      cases errand with
      | compensation attempt => exact trivial
      | application step queue => exact knows_nextApplication queue
  | claim => exact knows_nextApplication _
  | recordError step queue => exact knows_nextApplication queue
  | _ => exact trivial

/-- What the other programs know stays true while one moves. -/
theorem RegistrationPlace.Knows.mono {other : RegistrationPlace}
    (hother : other.Knows db log) (h : Advances db db' place effects)
    (hnamed : Customers.NamedBelow db log) (hplace : place.NamedBelow db)
    (hnamedOther : other.NamedBelow db) (hknows : place.Knows db log)
    (hdistinct : ∀ attempt attempt', place.attempt = some attempt →
      other.attempt = some attempt' → attempt.userId ≠ attempt'.userId) :
    other.Knows db' (log ++ effects) := by
  have hfresh : ∀ attempt, other.attempt = some attempt → attempt.Fresh db log →
      attempt.Fresh db' (log ++ effects) := fun attempt hmine =>
    h.fresh hplace (hnamedOther.attempt attempt hmine)
      fun attempt' hattempt' => hdistinct attempt' attempt hattempt' hmine
  have hgone : ∀ attempt, other.attempt = some attempt → ¬ db.HasUser attempt.userId →
      ¬ db'.HasUser attempt.userId := fun attempt hmine =>
    h.gone (hnamedOther.attempt attempt hmine).userId_lt fun attempt' hopening =>
      hdistinct attempt' attempt (by rw [hopening]; rfl) hmine
  have harmed : ∀ attempt, other.attempt = some attempt → attempt.Fresh db log →
      attempt.Armed db log → attempt.Armed db' (log ++ effects) := by
    rintro attempt hmine hfresh ⟨row, hrow, hstep, hdone⟩
    obtain ⟨row', hrow', hsame, hcloses⟩ := h.row hrow
    refine ⟨row', hrow', hsame.trans hstep, fun hdone' => ?_⟩
    rcases hcloses hdone' with hbefore | hcloses
    · exact (hdone hbefore).mono
    · rw [show row.operationId = attempt.operationId from
        congrArg AccountStep.operationId hstep] at hcloses
      rcases closes_cases hplace hnamed (hnamedOther.attempt attempt hmine) hcloses with
        ⟨attempt', _, hsaving, -, -, huser⟩ | ⟨attempt', hcompleting, huser⟩ |
          ⟨step, queue, hcompleting, hstep⟩
      · exact absurd huser (hdistinct attempt' attempt (by rw [hsaving]; rfl) hmine)
      · exact absurd huser (hdistinct attempt' attempt (by rw [hcompleting]; rfl) hmine)
      · rw [hcompleting] at hknows
        rcases hknows with hearly | ⟨⟨opened, hopened, hsame⟩, -⟩
        · exact hstep ▸ hearly.mono
        · exact absurd (congrArg AccountStep.userId (hsame.trans hstep))
            (hfresh.unopened opened hopened)
  cases other with
  | arming attempt dueAt => exact ⟨hgone attempt rfl hother.1, hfresh attempt rfl hother.2⟩
  | checkingEmail attempt | checkingDocument attempt | opening attempt =>
      exact ⟨hfresh attempt rfl hother.1, harmed attempt rfl hother.1 hother.2⟩
  | saving attempt customer =>
      have hkept : attempt.Fresh db [] :=
        ⟨fun _ hopened => absurd hopened List.not_mem_nil, hother⟩
      exact (h.fresh hplace (hnamedOther.attempt attempt rfl)
        (fun attempt' hattempt' => hdistinct attempt' attempt hattempt' rfl) hkept).unsaved
  | completing errand =>
      cases errand with
      | compensation attempt => exact hgone attempt rfl hother
      | application step queue =>
          rcases hother with hearly | ⟨⟨attempt, hopened, hstep⟩, hnone⟩
          · exact Or.inl hearly.mono
          · refine Or.inr ⟨⟨attempt, List.mem_append_left _ hopened, hstep⟩, ?_⟩
            have huser : attempt.userId = step.userId := congrArg AccountStep.userId hstep
            rw [← huser] at hnone ⊢
            refine h.gone (hnamed.opened attempt hopened).userId_lt ?_ hnone
            rintro opening rfl hsame
            exact hknows.1.unopened attempt hopened hsame.symm
  | _ => exact trivial

/-- In every run. -/
theorem kept_of_reaches (h : RegistrationReaches settings config log) :
    AccountsKept config.store log ∧
      ∀ pid, (config.places pid).Knows config.store log := by
  refine ReachesBy.invariant_of_places (G := AccountsKept)
    (L := fun db log place => place.Knows db log) ?_ (fun _ => ?_) ?_ ?_ h
  · exact ⟨fun _ hcustomer => absurd hcustomer List.not_mem_nil,
      fun _ hopened => absurd hopened List.not_mem_nil,
      fun _ hrow => absurd hrow List.not_mem_nil⟩
  · exact trivial
  · intro config log pid input out before hkept hplaces _ hexec
    have hmove := registrationMove_of_exec hexec
    obtain ⟨hnamed, hnames⟩ := named_of_reaches before
    refine ⟨⟨hmove.customersKept hkept.customers, fun attempt hopened => ?_, ?_⟩, ?_⟩
    · exact hmove.openedKept hnamed (hnames pid) (hplaces pid) hkept hopened
    · exact fun row hrow huser => hmove.advances.usersKept hnamed (hnames pid)
        (hplaces pid) hkept hrow huser
    · exact hmove.knows hnamed (hnames pid) (hplaces pid) hkept
  · intro config log pid input out before _ hplaces _ hexec other hne
    obtain ⟨hnamed, hnames⟩ := named_of_reaches before
    exact (hplaces other).mono (registrationMove_of_exec hexec).advances hnamed
      (hnames pid) (hnames other) (hplaces pid)
      (attempts_distinct before pid other hne)

/-- However registrations and appliers interleave, crash and fail: no customer is
without its account, and once no step is open or failed, every account a
registration opened that is still there belongs to a saved customer, or an
applier discarded for its step before it was opened. -/
theorem opened_accounts_kept (h : RegistrationReaches settings config log) :
    (∀ customer ∈ config.store.customers, config.store.HasUser customer.userId) ∧
      ((∀ row ∈ config.store.steps, row.status = .done) →
        ∀ attempt, .opened attempt ∈ log → config.store.HasUser attempt.userId →
          config.store.Refers attempt.userId ∨ DiscardedEarly log attempt.step) := by
  obtain ⟨hkept, -⟩ := kept_of_reaches h
  refine ⟨hkept.customers, fun hdone attempt hopened huser => ?_⟩
  obtain ⟨row, hrow, -, hreason⟩ := hkept.opened attempt hopened
  exact (hreason (hdone row hrow)).resolve_left (not_not_intro huser)

end Keeping

namespace RegistrationWitness

def settings : OutboxSettings where
  graceSeconds := 300
  maxAttempts := 10

def ana : RegisterCustomerCommand where
  userId := none
  email := some "ana@example.com"
  name := some "Ana Souza"
  document := some "12345678909"
  address := none
  phoneNumber := some "11987654321"

/-- The statement a program stands at runs, as often as asked. -/
def runs (pid times : Nat) : List (Nat × RegistrationInput) :=
  List.replicate times (pid, .proceed {})

/-- A registration arms its step and stalls past the grace period; an applier
claims the step, finds no account and completes it. -/
def stalled : List (Nat × RegistrationInput) :=
  (0, .register ana) :: runs 0 1 ++ (2, .tick 300000) :: (1, .applyDue) :: runs 1 4

/-- Then it opens the account and crashes. -/
def late : Config RegistrationDb RegistrationPlace × List RegistrationEffect :=
  endOfRun (registrationExec settings) emptyRegistrations
    (stalled ++ runs 0 3 ++ [(0, .crash)]) (by decide +kernel)

theorem reaches_late : RegistrationReaches settings late.1 late.2 :=
  reaches_endOfRun _

def attempt : Attempt := ⟨ana, 0, 1, 2⟩

theorem opened_accounts_kept_late :
    (∀ customer ∈ late.1.store.customers, late.1.store.HasUser customer.userId) ∧
      (late.1.store.Refers 0 ∨ DiscardedEarly late.2 attempt.step) := by
  have hdone : ∀ row ∈ late.1.store.steps, row.status = .done := by decide +kernel
  have hopened : .opened attempt ∈ late.2 := by decide +kernel
  have huser : late.1.store.HasUser 0 := by
    unfold RegistrationDb.HasUser
    decide +kernel
  have hkept := opened_accounts_kept reaches_late
  exact ⟨hkept.1, hkept.2 hdone attempt hopened huser⟩

theorem late_idle (pid : Nat) : (late.1.places pid).attempt = none := by
  by_cases hpid : pid ∈ [0, 1, 2]
  · have hidle : ∀ pid ∈ [0, 1, 2], (late.1.places pid).attempt = none := by
      decide +kernel
    exact hidle pid hpid
  · have hpids : ∀ turn ∈ stalled ++ runs 0 3 ++ [(0, .crash)],
        turn.1 ∈ [0, 1, 2] := by decide +kernel
    have hother : ∀ turn ∈ stalled ++ runs 0 3 ++ [(0, .crash)], turn.1 ≠ pid := by
      intro turn hturn heq
      apply hpid
      rw [← heq]
      exact hpids turn hturn
    have hplace : late.1.places pid = emptyRegistrations.places pid := by
      unfold late
      exact endOfRun_places _ hother
    rw [hplace]
    rfl

/-- Without the second case an account is left without a customer: no
registration is running, and its step is done. -/
theorem accounts_may_be_orphaned : ¬ ∀ config log,
    RegistrationReaches settings config log →
      (∀ customer ∈ config.store.customers, config.store.HasUser customer.userId) ∧
      ((∀ pid, (config.places pid).attempt = none) →
        (∀ row ∈ config.store.steps, row.status = .done) →
        ∀ attempt, .opened attempt ∈ log → config.store.HasUser attempt.userId →
          config.store.Refers attempt.userId) := by
  intro hall
  have hdone : ∀ row ∈ late.1.store.steps, row.status = .done := by decide +kernel
  have hopened : .opened attempt ∈ late.2 := by decide +kernel
  have huser : late.1.store.HasUser 0 := by
    unfold RegistrationDb.HasUser
    decide +kernel
  have hnone : ¬ late.1.store.Refers 0 := by
    unfold RegistrationDb.Refers
    decide +kernel
  obtain ⟨-, hkept⟩ := hall _ _ reaches_late
  exact hnone (hkept late_idle hdone attempt hopened huser)

end RegistrationWitness

end Customers

end Workshop
