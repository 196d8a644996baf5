/-
What the stored vehicles keep while requests interleave: every row can be read again,
the plates in use are unique, and a registered vehicle keeps its row.
-/
import Workshop.Vehicles.VehicleRequests

namespace Workshop

namespace Vehicles

/-- What every stored vehicle and every loaded copy satisfies at a moment. -/
structure VehicleRow.Sound (calendar : Calendar) (now : Timestamp) (row : VehicleRow) :
    Prop where
  plate : isPlate row.plate.toList = true
  fromMinYear : minYear ≤ row.year
  toNextYear : row.year ≤ calendar.fullYear now + 1
  brand : row.brand ≠ ""
  model : row.model ≠ ""
  changed : row.createdAt ≤ row.updatedAt ∧ row.updatedAt ≤ now
  removed : ∀ removedAt ∈ row.deletedAt, row.createdAt ≤ removedAt ∧ removedAt ≤ now

section Values

variable {calendar : Calendar} {now later : Timestamp} {row : VehicleRow}
variable {vehicle changed : Vehicle}

theorem VehicleRow.Sound.mono (h : row.Sound calendar now) (hle : now ≤ later) :
    row.Sound calendar later :=
  { h with
    toNextYear := h.toNextYear.trans (Int.add_le_add_right (calendar.mono hle) 1)
    changed := ⟨h.changed.1, h.changed.2.trans hle⟩
    removed := fun removedAt hremoved =>
      ⟨(h.removed removedAt hremoved).1, (h.removed removedAt hremoved).2.trans hle⟩ }

theorem toUpper_of_plateChar {c : Char} (h : c.isUpper = true ∨ c.isDigit = true) :
    c.isAlphanum = true ∧ c.toUpper = c := by
  have hvalue : c.toNat ≤ 90 := by
    rcases h with hupper | hdigit
    · obtain ⟨-, hle⟩ : c.val ≥ 'A'.val ∧ c.val ≤ 'Z'.val := of_decide_eq_true hupper
      exact UInt32.le_iff_toNat_le.mp hle
    · have hrange := Char.isDigit_iff_toNat.mp hdigit
      exact hrange.2.trans (by decide)
  constructor
  · apply Bool.or_eq_true_iff.mpr
    rcases h with hupper | hdigit
    · exact Or.inl (Bool.or_eq_true_iff.mpr (Or.inl hupper))
    · exact Or.inr hdigit
  · unfold Char.toUpper
    rw [dif_neg]
    rintro ⟨hlower, -⟩
    have hleast : 97 ≤ c.toNat := UInt32.le_iff_toNat_le.mp hlower
    omega

/-- A plate is what normalizing it leaves. -/
theorem plateChars_of_isPlate {plate : String} (h : isPlate plate.toList = true) :
    plateChars plate = plate.toList := by
  have hchars : ∀ c ∈ plate.toList, c.isUpper = true ∨ c.isDigit = true := by
    intro c hc
    unfold isPlate isOldPlate isMercosulPlate at h
    generalize plate.toList = chars at h hc
    split at h
    · rename_i c1 c2 c3 c4 c5 c6 c7
      simp only [Bool.or_eq_true, Bool.and_eq_true] at h
      simp only [List.mem_cons, List.not_mem_nil, or_false] at hc
      grind
    · cases h
  have hkept : plate.toList.filter Char.isAlphanum = plate.toList :=
    List.filter_eq_self.mpr fun c hc => (toUpper_of_plateChar (hchars c hc)).1
  rw [plateChars, hkept]
  exact (List.map_congr_left fun c hc => (toUpper_of_plateChar (hchars c hc)).2).trans
    (List.map_id _)

theorem plateCreate_eq_ok {raw : String} {plate : LicensePlate}
    (h : LicensePlate.create raw = .ok plate) :
    plate.value = String.ofList (plateChars raw) := by
  unfold LicensePlate.create at h
  split at h
  · cases h
    rfl
  · cases h

theorem yearCreate_eq_ok {raw : ℚ} {currentYear : Int} {year : VehicleYear}
    (h : VehicleYear.create raw currentYear = .ok year) :
    year.value = raw.num ∧ year.value ≤ currentYear + 1 := by
  unfold VehicleYear.create at h
  split at h
  · rename_i hyear
    cases h
    exact ⟨rfl, hyear.2.2⟩
  · cases h

theorem normaliseText_ne_empty {raw text : String} (h : normaliseText raw = .ok text) :
    text ≠ "" := by
  unfold normaliseText at h
  split at h
  · cases h
  · rename_i hne
    cases h
    exact hne

/-- A sound row is read back as the vehicle it was made of. -/
theorem VehicleRow.Sound.readable (h : row.Sound calendar now) :
    ∃ vehicle, VehicleMapper.toDomain row (calendar.fullYear now) = .ok vehicle ∧
      VehicleMapper.toOrm vehicle = row := by
  have hchars := plateChars_of_isPlate h.plate
  have hplate : LicensePlate.create row.plate = .ok ⟨row.plate, h.plate⟩ := by
    unfold LicensePlate.create
    rw [dif_pos (by rw [hchars]; exact h.plate)]
    congr 2
    rw [hchars, String.ofList_toList]
  have hyear : VehicleYear.create row.year (calendar.fullYear now) =
      .ok ⟨row.year, h.fromMinYear⟩ :=
    dif_pos ⟨rfl, h.fromMinYear, h.toNextYear⟩
  refine ⟨⟨row.externalId, row.customerId, ⟨row.plate, h.plate⟩, row.brand, row.model,
    ⟨row.year, h.fromMinYear⟩, row.createdAt, row.updatedAt, row.deletedAt⟩, ?_, rfl⟩
  unfold VehicleMapper.toDomain
  rw [hplate, hyear]
  rfl

/-- Reading a row and writing it again leaves the row. -/
theorem toOrm_of_toDomain {currentYear : Int} (hplate : isPlate row.plate.toList = true)
    (h : VehicleMapper.toDomain row currentYear = .ok vehicle) :
    VehicleMapper.toOrm vehicle = row := by
  obtain ⟨plate, hcreate, h⟩ := bind_eq_ok_iff.mp h
  obtain ⟨year, hyear, h⟩ := bind_eq_ok_iff.mp h
  cases h
  have hvalue := plateCreate_eq_ok hcreate
  rw [plateChars_of_isPlate hplate, String.ofList_toList] at hvalue
  have hnum := (yearCreate_eq_ok hyear).1
  cases row
  simp only [VehicleMapper.toOrm]
  congr

/-- A registration makes a sound vehicle under the id it was given. -/
theorem registerVehicle_eq_ok {id : VehicleId} {command : RegisterVehicleCommand}
    {owner : OwnerAnswer}
    (h : registerVehicle id command owner now (calendar.fullYear now) = .ok vehicle) :
    vehicle.id = id ∧ (VehicleMapper.toOrm vehicle).Sound calendar now := by
  obtain ⟨-, -, h⟩ := bind_eq_ok_iff.mp h
  obtain ⟨plate, -, h⟩ := bind_eq_ok_iff.mp h
  obtain ⟨year, hyear, h⟩ := bind_eq_ok_iff.mp h
  obtain ⟨brand, hbrand, h⟩ := bind_eq_ok_iff.mp h
  obtain ⟨model, hmodel, h⟩ := bind_eq_ok_iff.mp h
  cases h
  exact ⟨rfl, plate.valid, year.least, (yearCreate_eq_ok hyear).2,
    normaliseText_ne_empty hbrand, normaliseText_ne_empty hmodel,
    ⟨Nat.le_refl _, Nat.le_refl _⟩, fun _ hremoved => by cases hremoved⟩

theorem updatedText_ne_empty {raw : Option String} {kept text : String} (hkept : kept ≠ "")
    (h : Vehicle.updatedText raw kept = .ok text) : text ≠ "" := by
  cases raw with
  | none =>
      cases h
      exact hkept
  | some raw => exact normaliseText_ne_empty h

/-- An update changes the details and the time. -/
theorem updateVehicle_eq_ok {command : UpdateVehicleCommand} {currentYear : Int}
    (h : updateVehicle vehicle command now currentYear = .ok changed) :
    ∃ brand model year, changed = { vehicle with
      brand := brand, model := model, year := year, updatedAt := now } := by
  obtain ⟨updated, -, h⟩ := bind_eq_ok_iff.mp h
  obtain ⟨brand, -, h⟩ := bind_eq_ok_iff.mp h
  obtain ⟨model, -, h⟩ := bind_eq_ok_iff.mp h
  cases h
  exact ⟨brand, model, _, rfl⟩

theorem sound_updateVehicle {command : UpdateVehicleCommand}
    (hsound : (VehicleMapper.toOrm vehicle).Sound calendar now)
    (h : updateVehicle vehicle command now (calendar.fullYear now) = .ok changed) :
    (VehicleMapper.toOrm changed).Sound calendar now := by
  obtain ⟨updated, hupdated, h⟩ := bind_eq_ok_iff.mp h
  obtain ⟨brand, hbrand, h⟩ := bind_eq_ok_iff.mp h
  obtain ⟨model, hmodel, h⟩ := bind_eq_ok_iff.mp h
  cases h
  have hyear : (updated.getD vehicle.year).value ≤ calendar.fullYear now + 1 := by
    cases hcommand : command.year with
    | none =>
        rw [hcommand] at hupdated
        cases hupdated
        exact hsound.toNextYear
    | some raw =>
        rw [hcommand] at hupdated
        obtain ⟨year, hcreate, rfl⟩ := map_eq_ok_iff.mp hupdated
        exact (yearCreate_eq_ok hcreate).2
  exact
    { hsound with
      fromMinYear := (updated.getD vehicle.year).least
      toNextYear := hyear
      brand := updatedText_ne_empty hsound.brand hbrand
      model := updatedText_ne_empty hsound.model hmodel
      changed := ⟨hsound.changed.1.trans hsound.changed.2, Nat.le_refl _⟩ }

theorem sound_remove (hsound : (VehicleMapper.toOrm vehicle).Sound calendar now) :
    (VehicleMapper.toOrm (vehicle.remove now)).Sound calendar now := by
  unfold Vehicle.remove
  split
  · exact hsound
  · have hcreated := hsound.changed.1.trans hsound.changed.2
    exact
      { hsound with
        changed := ⟨hcreated, Nat.le_refl _⟩
        removed := fun removedAt hremoved => by
          cases hremoved
          exact ⟨hcreated, Nat.le_refl _⟩ }

end Values

/-- The copies of vehicles a request works on, as rows. -/
def VehiclePlace.copies : VehiclePlace → List VehicleRow
  | .idle => []
  | .loaded _ vehicle => [VehicleMapper.toOrm vehicle]
  | .transferring vehicle _ _ => [VehicleMapper.toOrm vehicle]
  | .saving place => place.copies

/-- A save compares a row with the one of its key; a transfer takes the time of the
update it belongs to. -/
def VehiclePlace.Follows : VehiclePlace → Prop
  | .saving place => vehicleTable.Reads place
  | .transferring vehicle _ now => vehicle.updatedAt = now
  | _ => True

def VehicleEffect.draft : VehicleEffect → Option VehicleRow
  | .registering row => some row
  | _ => none

theorem draft_eq_some (effect : VehicleEffect) (row : VehicleRow) :
    effect.draft = some row ↔ effect = .registering row := by
  cases effect <;> simp [VehicleEffect.draft]

/-- The columns of a vehicle that never change. -/
def VehicleRow.fixed (row : VehicleRow) : VehicleId × String × Timestamp :=
  (row.externalId, row.plate, row.createdAt)

/-- A row has the id, the plate and the creation of a registered vehicle. -/
def Drafted (log : List VehicleEffect) (row : VehicleRow) : Prop :=
  HasOrigin VehicleRow.fixed (draftsOf VehicleEffect.draft log) row

/-- Every stored row goes back to one registration. -/
structure VehiclesMade (db : VehicleDb) (log : List VehicleEffect) : Prop where
  unique : vehicleTable.Unique db.rows
  drafted : ∀ row ∈ db.rows, Drafted log row
  drafts : DraftsBelow VehicleRow.externalId (draftsOf VehicleEffect.draft log) db.nextId
  plates : ∀ draft ∈ draftsOf VehicleEffect.draft log, isPlate draft.plate.toList = true

section Outcomes

variable {db : VehicleDb} {step : SaveStep VehicleRow} {log more : List VehicleEffect}
variable {row other : VehicleRow}

theorem externalId_of_fixed {left right : VehicleRow} (h : left.fixed = right.fixed) :
    left.externalId = right.externalId :=
  congrArg Prod.fst h

theorem Drafted.append (h : Drafted log row) : Drafted (log ++ more) row := by
  unfold Drafted
  rw [draftsOf_append]
  exact HasOrigin.append h

/-- Rows of one id go back to one registration. -/
theorem Drafted.agree (hmade : VehiclesMade db log) (h : Drafted log row)
    (hother : Drafted log other) (hid : row.externalId = other.externalId) :
    row.plate = other.plate ∧ row.createdAt = other.createdAt := by
  have hfixed := HasOrigin.agree hmade.drafts externalId_of_fixed h hother hid
  exact Prod.mk.inj (congrArg Prod.snd hfixed)

/-- What a save writes goes back to the registration of what it read. -/
theorem Drafted.merge {read written current : VehicleRow} (hmade : VehiclesMade db log)
    (hwritten : Drafted log written) (hcurrent : Drafted log current)
    (hid : current.externalId = written.externalId) :
    Drafted log (VehicleRow.merge read written current) := by
  obtain ⟨hplate, hcreated⟩ := hwritten.agree hmade hcurrent hid.symm
  have hkept : (VehicleRow.merge read written current).fixed = current.fixed :=
    Prod.ext (mergeColumn_of_eq hid.symm)
      (Prod.ext (mergeColumn_of_eq hplate) (mergeColumn_of_eq hcreated))
  obtain ⟨draft, hdraft, hsame⟩ := hcurrent
  exact ⟨draft, hdraft, hsame.trans hkept.symm⟩

/-- What a save writes is as sound as the rows it is made of. -/
theorem VehicleRow.Sound.merge {calendar : Calendar} {now : Timestamp}
    {read written current : VehicleRow} (hwritten : written.Sound calendar now)
    (hcurrent : current.Sound calendar now) (hsame : written.createdAt = current.createdAt) :
    (VehicleRow.merge read written current).Sound calendar now := by
  have hcreated : (VehicleRow.merge read written current).createdAt = current.createdAt :=
    mergeColumn_of_eq hsame
  constructor
  · exact mergeColumn_holds (p := fun plate : String => isPlate plate.toList = true)
      hwritten.plate hcurrent.plate
  · exact mergeColumn_holds hwritten.fromMinYear hcurrent.fromMinYear
  · exact mergeColumn_holds (p := fun year : Int => year ≤ calendar.fullYear now + 1)
      hwritten.toNextYear hcurrent.toNextYear
  · exact mergeColumn_holds (p := fun brand => brand ≠ "") hwritten.brand hcurrent.brand
  · exact mergeColumn_holds (p := fun model => model ≠ "") hwritten.model hcurrent.model
  · rw [hcreated]
    exact mergeColumn_holds (p := fun time => current.createdAt ≤ time ∧ time ≤ now)
      (hsame ▸ hwritten.changed) hcurrent.changed
  · rw [hcreated]
    exact mergeColumn_holds (p := fun deletedAt : Option Timestamp =>
        ∀ removedAt ∈ deletedAt, current.createdAt ≤ removedAt ∧ removedAt ≤ now)
      (hsame ▸ hwritten.removed) hcurrent.removed

end Outcomes

section Steps

variable {calendar : Calendar} {db : VehicleDb} {place : VehiclePlace}
variable {input : VehicleInput} {out : VehicleOutcome} {log : List VehicleEffect}
variable {now : Timestamp}

/-- A turn that registers nothing leaves the registrations as they were. -/
theorem VehiclesMade.unregistered {db' : VehicleDb} {effects : List VehicleEffect}
    (h : VehiclesMade db log) (hnext : db'.nextId = db.nextId)
    (heffects : draftsOf VehicleEffect.draft effects = []) (hunique : vehicleTable.Unique db'.rows)
    (hdrafted : ∀ row ∈ db'.rows, Drafted log row) : VehiclesMade db' (log ++ effects) := by
  have hsame : draftsOf VehicleEffect.draft (log ++ effects) = draftsOf VehicleEffect.draft log := by
    rw [draftsOf_append, heffects, List.append_nil]
  refine ⟨hunique, fun row hrow => (hdrafted row hrow).append, ?_, ?_⟩
  · rw [hsame, hnext]
    exact h.drafts
  · rw [hsame]
    exact h.plates

theorem VehiclesMade.registered (h : VehiclesMade db log) {row : VehicleRow}
    (hid : row.externalId = db.nextId) (hplate : isPlate row.plate.toList = true) :
    VehiclesMade { db with nextId := db.nextId + 1 } (log ++ [.registering row]) := by
  have hdrafts : draftsOf VehicleEffect.draft (log ++ [.registering row]) = draftsOf VehicleEffect.draft log ++ [row] :=
    draftsOf_append
  refine ⟨h.unique, fun other hother => (h.drafted other hother).append, ?_, ?_⟩
  · rw [hdrafts]
    exact h.drafts.concat hid
  · intro draft hdraft
    rw [hdrafts] at hdraft
    rcases List.mem_append.mp hdraft with hdraft | hdraft
    · exact h.plates draft hdraft
    · rwa [List.mem_singleton.mp hdraft]

theorem VehiclesMade.plate (h : VehiclesMade db log) {row : VehicleRow}
    (hrow : row ∈ db.rows) : isPlate row.plate.toList = true := by
  obtain ⟨draft, hdraft, hfixed⟩ := h.drafted row hrow
  have hplate : draft.plate = row.plate := congrArg (fun columns => columns.2.1) hfixed
  rw [← hplate]
  exact h.plates draft hdraft

/-- Every turn keeps the stored rows and the copies those of registered vehicles. -/
theorem VehicleMove.made (h : VehicleMove calendar db place input out)
    (hmade : VehiclesMade db log) (hcopies : ∀ copy ∈ place.copies, Drafted log copy)
    (hfollows : place.Follows) :
    VehiclesMade out.store (log ++ out.effects) ∧
      (∀ copy ∈ out.place.copies, Drafted (log ++ out.effects) copy) ∧
        out.place.Follows := by
  have hunchanged : ∀ {effects : List VehicleEffect}, draftsOf VehicleEffect.draft effects = [] →
      VehiclesMade db (log ++ effects) := fun heffects =>
    hmade.unregistered rfl heffects hmade.unique hmade.drafted
  cases h with
  | refuse _ _ error =>
      exact ⟨hunchanged rfl, fun _ hcopy => absurd hcopy List.not_mem_nil, trivial⟩
  | register command owner now vehicle hregister =>
      obtain ⟨hid, hsound⟩ := registerVehicle_eq_ok hregister
      refine ⟨hmade.registered hid hsound.plate, fun copy hcopy => ?_, trivial⟩
      obtain rfl := List.mem_singleton.mp hcopy
      refine ⟨_, ?_, rfl⟩
      rw [draftsOf_append]
      exact List.mem_append_right _ (List.mem_singleton_self _)
  | find request today row vehicle hrow hload =>
      refine ⟨hunchanged rfl, fun copy hcopy => ?_, trivial⟩
      obtain rfl := List.mem_singleton.mp hcopy
      rw [toOrm_of_toDomain (hmade.plate hrow) hload]
      exact (hmade.drafted row hrow).append
  | remove vehicleId vehicle now =>
      refine ⟨hunchanged rfl, fun copy hcopy => ?_, trivial⟩
      obtain rfl := List.mem_singleton.mp hcopy
      have hdrafted := hcopies _ (List.mem_singleton_self _)
      unfold Vehicle.remove
      split
      · exact hdrafted.append
      · exact hdrafted.append
  | update command vehicle changed now hupdate place hplace =>
      obtain ⟨brand, model, year, rfl⟩ := updateVehicle_eq_ok hupdate
      have hdrafted := hcopies _ (List.mem_singleton_self _)
      rcases hplace with rfl | ⟨customerId, rfl⟩
      · refine ⟨hunchanged rfl, fun copy hcopy => ?_, trivial⟩
        obtain rfl := List.mem_singleton.mp hcopy
        exact hdrafted.append
      · refine ⟨hunchanged rfl, fun copy hcopy => ?_, rfl⟩
        obtain rfl := List.mem_singleton.mp hcopy
        exact hdrafted.append
  | transfer vehicle customerId now answer =>
      refine ⟨hunchanged rfl, fun copy hcopy => ?_, trivial⟩
      obtain rfl := List.mem_singleton.mp hcopy
      exact (hcopies _ (List.mem_singleton_self _)).append
  | save place step hmove =>
      obtain ⟨hrows, hnext⟩ := hmove.holds (P := Drafted log)
        (fun _ hwritten hcurrent _ hkey => hwritten.merge hmade hcurrent hkey)
        hfollows hmade.drafted hcopies
      refine ⟨hmade.unregistered afterSave_nextId
        (afterSave_drafts (fun _ => rfl) fun _ => rfl)
        ?_ ?_, fun copy hcopy => ?_, ?_⟩
      · rw [afterSave_rows]
        exact hmove.unique hmade.unique
      · rw [afterSave_rows]
        exact hrows
      · rw [afterSave_copies VehiclePlace.copies rfl fun _ => rfl] at hcopy
        exact (hnext copy hcopy).append
      · cases step with
        | next next => exact hmove.reads
        | saved row rows => trivial
        | failed row error => trivial

/-- Every turn leaves the stored rows and the copies sound at its time. -/
theorem VehicleMove.sound (h : VehicleMove calendar db place input out)
    (hmade : VehiclesMade db log) (hcopies : ∀ copy ∈ place.copies, Drafted log copy)
    (hfollows : place.Follows) (hreading : ∀ read, input.reading = some read → read = now)
    (hrows : ∀ row ∈ db.rows, row.Sound calendar now)
    (hsound : ∀ copy ∈ place.copies, copy.Sound calendar now) :
    (∀ row ∈ out.store.rows, row.Sound calendar now) ∧
      ∀ copy ∈ out.place.copies, copy.Sound calendar now := by
  cases h with
  | refuse _ _ error => exact ⟨hrows, fun _ hcopy => absurd hcopy List.not_mem_nil⟩
  | register command owner time vehicle hregister =>
      obtain rfl := hreading time rfl
      refine ⟨hrows, fun copy hcopy => ?_⟩
      obtain rfl := List.mem_singleton.mp hcopy
      exact (registerVehicle_eq_ok hregister).2
  | find request today row vehicle hrow hload =>
      refine ⟨hrows, fun copy hcopy => ?_⟩
      obtain rfl := List.mem_singleton.mp hcopy
      rw [toOrm_of_toDomain (hmade.plate hrow) hload]
      exact hrows row hrow
  | remove vehicleId vehicle time =>
      obtain rfl := hreading time rfl
      refine ⟨hrows, fun copy hcopy => ?_⟩
      obtain rfl := List.mem_singleton.mp hcopy
      exact sound_remove (hsound _ (List.mem_singleton_self _))
  | update command vehicle changed time hupdate place hplace =>
      obtain rfl := hreading time rfl
      have hchanged := sound_updateVehicle (hsound _ (List.mem_singleton_self _)) hupdate
      refine ⟨hrows, fun copy hcopy => ?_⟩
      rcases hplace with rfl | ⟨customerId, rfl⟩ <;>
        obtain rfl := List.mem_singleton.mp hcopy <;> exact hchanged
  | transfer vehicle customerId time answer =>
      refine ⟨hrows, fun copy hcopy => ?_⟩
      obtain rfl := List.mem_singleton.mp hcopy
      have hold := hsound _ (List.mem_singleton_self _)
      change vehicle.updatedAt = time at hfollows
      subst hfollows
      exact { hold with }
  | save place step hmove =>
      obtain ⟨hstored, hnext⟩ := hmove.holds
        (P := fun row => Drafted log row ∧ row.Sound calendar now)
        (fun _ hwritten hcurrent _ hkey =>
          ⟨hwritten.1.merge hmade hcurrent.1 hkey,
            hwritten.2.merge hcurrent.2 (hwritten.1.agree hmade hcurrent.1 hkey.symm).2⟩)
        hfollows (fun row hrow => ⟨hmade.drafted row hrow, hrows row hrow⟩)
        (fun copy hcopy => ⟨hcopies copy hcopy, hsound copy hcopy⟩)
      refine ⟨fun row hrow => ?_, fun copy hcopy => ?_⟩
      · rw [afterSave_rows] at hrow
        exact (hstored row hrow).2
      · rw [afterSave_copies VehiclePlace.copies rfl fun _ => rfl] at hcopy
        exact (hnext copy hcopy).2

end Steps

section Runs

variable {calendar : Calendar} {config last : Config VehicleDb VehiclePlace}
variable {log more : List VehicleEffect} {now : Timestamp} {row : VehicleRow}

/-- In every run the stored rows and the copies are those of registered vehicles. -/
theorem made_of_reaches (h : Reaches (vehicleExec calendar) noVehicles config log) :
    VehiclesMade config.store log ∧ ∀ pid,
      (∀ copy ∈ (config.places pid).copies, Drafted log copy) ∧
        (config.places pid).Follows := by
  have hempty : VehiclesMade noVehicles.store [] :=
    ⟨⟨List.nodup_nil, List.nodup_nil⟩, fun _ hrow => absurd hrow List.not_mem_nil,
      ⟨List.nodup_nil, fun _ hdraft => absurd hdraft List.not_mem_nil⟩,
      fun _ hdraft => absurd hdraft List.not_mem_nil⟩
  refine ReachesBy.invariant_of_places
    (G := fun db log => VehiclesMade db log)
    (L := fun _ log place => (∀ copy ∈ place.copies, Drafted log copy) ∧ place.Follows)
    hempty (fun _ => ⟨fun _ hcopy => absurd hcopy List.not_mem_nil, trivial⟩) ?_ ?_ h
  · intro config log pid input out _ hmade hplaces _ hexec
    obtain ⟨hcopies, hfollows⟩ := hplaces pid
    exact (vehicleMove_of_exec hexec).made hmade hcopies hfollows
  · intro config log pid input out _ _ hplaces _ _ other _
    exact ⟨fun copy hcopy => ((hplaces other).1 copy hcopy).append, (hplaces other).2⟩

/-- With a clock that never goes back they are sound at every moment. -/
theorem sound_of_reachesAt (h : VehiclesReachAt calendar config log now) :
    ∀ row ∈ config.store.rows, row.Sound calendar now := by
  refine (ClockedReaches.invariant_of_places
    (G := fun now db _ => ∀ row ∈ db.rows, VehicleRow.Sound calendar now row)
    (L := fun now place => ∀ copy ∈ place.copies, VehicleRow.Sound calendar now copy)
    (fun _ hrow => absurd hrow List.not_mem_nil)
    (fun _ _ hcopy => absurd hcopy List.not_mem_nil) ?_ ?_ h).1
  · intro now later hle
    exact ⟨fun hrows row hrow => (hrows row hrow).mono hle,
      fun hcopies copy hcopy => (hcopies copy hcopy).mono hle⟩
  · intro config log now pid input out before hrows hcopies hreading hexec
    obtain ⟨hmade, hplaces⟩ := made_of_reaches before.reachesBy
    exact (vehicleMove_of_exec hexec).sound hmade (hplaces pid).1 (hplaces pid).2 hreading
      hrows hcopies

/-- What is true of the stored vehicles at a moment. -/
structure VehiclesSound (calendar : Calendar) (db : VehicleDb) (log : List VehicleEffect)
    (now : Timestamp) : Prop where
  readable : ∀ row ∈ db.rows, ∃ vehicle,
    VehicleMapper.toDomain row (calendar.fullYear now) = .ok vehicle ∧
      VehicleMapper.toOrm vehicle = row
  ids : (db.rows.map VehicleRow.externalId).Nodup
  plates : ((db.rows.filter fun row => row.deletedAt.isNone).map VehicleRow.plate).Nodup
  registered : ∀ row ∈ db.rows, ∃ draft, .registering draft ∈ log ∧
    draft.externalId = row.externalId ∧ draft.plate = row.plate ∧
      draft.createdAt = row.createdAt
  times : ∀ row ∈ db.rows, row.createdAt ≤ row.updatedAt ∧ row.updatedAt ≤ now ∧
    ∀ removedAt ∈ row.deletedAt, row.createdAt ≤ removedAt ∧ removedAt ≤ now

/-- Whatever requests interleave and however their saves mix the columns of one row, with
a clock that never goes back every stored vehicle can be read again at any later moment,
and the plates in use are unique. -/
theorem vehicles_sound (h : VehiclesReachAt calendar config log now) :
    VehiclesSound calendar config.store log now := by
  have hmade := (made_of_reaches h.reachesBy).1
  have hsound := sound_of_reachesAt h
  refine ⟨fun row hrow => (hsound row hrow).readable, hmade.unique.keys, ?_, ?_, ?_⟩
  · rw [← filterMap_ite]
    exact hmade.unique.entries
  · intro row hrow
    obtain ⟨draft, hdraft, hfixed⟩ := hmade.drafted row hrow
    simp only [VehicleRow.fixed, Prod.mk.injEq] at hfixed
    exact ⟨draft, (mem_draftsOf draft_eq_some).mp hdraft, hfixed⟩
  · exact fun row hrow =>
      ⟨(hsound row hrow).changed.1, (hsound row hrow).changed.2, (hsound row hrow).removed⟩

/-- A row of the same vehicle is removed when this one was. -/
def RemovedAs (row other : VehicleRow) : Prop :=
  other.externalId = row.externalId → other.deletedAt = row.deletedAt

/-- What a save writes of a removed vehicle is removed, if its copies are. -/
theorem RemovedAs.merge {read written current : VehicleRow} (hwritten : RemovedAs row written)
    (hcurrent : RemovedAs row current) (hid : current.externalId = written.externalId) :
    RemovedAs row (VehicleRow.merge read written current) := by
  intro hsame
  have hkept : current.externalId = row.externalId :=
    (mergeColumn_of_eq hid.symm).symm.trans hsame
  exact mergeColumn_holds (p := fun deletedAt => deletedAt = row.deletedAt)
    (hwritten (hid.symm.trans hkept)) (hcurrent hkept)

/-- A turn that finds the vehicle removed and no older copy of it leaves it removed. -/
theorem VehicleMove.removed {db : VehicleDb} {place : VehiclePlace} {input : VehicleInput}
    {out : VehicleOutcome} (h : VehicleMove calendar db place input out)
    (hmade : VehiclesMade db log) (hfollows : place.Follows)
    (hid : row.externalId < db.nextId) (hremoved : row.deletedAt.isSome)
    (hrows : ∀ other ∈ db.rows, RemovedAs row other)
    (hcopies : ∀ copy ∈ place.copies, RemovedAs row copy) :
    (∀ other ∈ out.store.rows, RemovedAs row other) ∧
      ∀ copy ∈ out.place.copies, RemovedAs row copy := by
  cases h with
  | refuse _ _ error => exact ⟨hrows, fun _ hcopy => absurd hcopy List.not_mem_nil⟩
  | register command owner time vehicle hregister =>
      refine ⟨hrows, fun copy hcopy hsame => ?_⟩
      obtain rfl := List.mem_singleton.mp hcopy
      have hnew := (registerVehicle_eq_ok hregister).1
      change vehicle.id = row.externalId at hsame
      rw [← hsame, hnew] at hid
      exact absurd hid (Nat.lt_irrefl _)
  | find request today other vehicle hother hload =>
      refine ⟨hrows, fun copy hcopy => ?_⟩
      obtain rfl := List.mem_singleton.mp hcopy
      rw [toOrm_of_toDomain (hmade.plate hother) hload]
      exact hrows other hother
  | remove vehicleId vehicle time =>
      refine ⟨hrows, fun copy hcopy hsame => ?_⟩
      obtain rfl := List.mem_singleton.mp hcopy
      have hold := hcopies _ (List.mem_singleton_self _)
      unfold Vehicle.remove at hsame ⊢
      by_cases hdeleted : vehicle.deletedAt.isSome
      · rw [if_pos hdeleted] at hsame ⊢
        exact hold hsame
      · rw [if_neg hdeleted] at hsame
        have hcopy : vehicle.deletedAt = row.deletedAt := hold hsame
        rw [hcopy] at hdeleted
        exact absurd hremoved hdeleted
  | update command vehicle changed time hupdate place hplace =>
      obtain ⟨brand, model, year, rfl⟩ := updateVehicle_eq_ok hupdate
      have hold := hcopies _ (List.mem_singleton_self _)
      refine ⟨hrows, fun copy hcopy => ?_⟩
      rcases hplace with rfl | ⟨customerId, rfl⟩ <;>
        obtain rfl := List.mem_singleton.mp hcopy <;> exact hold
  | transfer vehicle customerId time answer =>
      refine ⟨hrows, fun copy hcopy => ?_⟩
      have hold := hcopies _ (List.mem_singleton_self _)
      obtain rfl := List.mem_singleton.mp hcopy
      exact hold
  | save place step hmove =>
      obtain ⟨hstored, hnext⟩ := hmove.holds (P := RemovedAs row)
        (fun _ hwritten hcurrent _ hkey => hwritten.merge hcurrent hkey)
        hfollows hrows hcopies
      refine ⟨fun other hother => ?_, fun copy hcopy => ?_⟩
      · rw [afterSave_rows] at hother
        exact hstored other hother
      · rw [afterSave_copies VehiclePlace.copies rfl fun _ => rfl] at hcopy
        exact hnext copy hcopy

/-- No turn takes the row of a vehicle away. -/
theorem VehicleMove.keeps {db : VehicleDb} {place : VehiclePlace} {input : VehicleInput}
    {out : VehicleOutcome} (h : VehicleMove calendar db place input out)
    (hrow : row ∈ db.rows) :
    ∃ row' ∈ out.store.rows, row'.externalId = row.externalId := by
  cases h with
  | save place step hmove =>
      rw [afterSave_rows]
      exact hmove.keeps hrow
  | _ => exact ⟨row, hrow, rfl⟩

theorem row_of_reaches (hrow : row ∈ config.store.rows)
    (hlater : Reaches (vehicleExec calendar) config last more) :
    ∃ row' ∈ last.store.rows, row'.externalId = row.externalId := by
  refine ReachesBy.invariant (P := fun config _ =>
    ∃ row' ∈ config.store.rows, row'.externalId = row.externalId)
    ⟨row, hrow, rfl⟩ ?_ hlater
  intro config log pid input out _ hkept _ hexec
  obtain ⟨row', hrow', hid⟩ := hkept
  obtain ⟨row'', hrow'', hid'⟩ := (vehicleMove_of_exec hexec).keeps hrow'
  exact ⟨row'', hrow'', hid'.trans hid⟩

theorem removed_of_reaches (h : Reaches (vehicleExec calendar) noVehicles config log)
    (hrow : row ∈ config.store.rows) (hremoved : row.deletedAt.isSome)
    (hcopies : ∀ pid, ∀ copy ∈ (config.places pid).copies, RemovedAs row copy)
    (hlater : Reaches (vehicleExec calendar) config last more) :
    ∀ other ∈ last.store.rows, RemovedAs row other := by
  have hmade := (made_of_reaches h).1
  have hrows : ∀ other ∈ config.store.rows, RemovedAs row other := fun other hother hid =>
    congrArg VehicleRow.deletedAt
      (List.inj_on_of_nodup_map hmade.unique.keys hother hrow hid)
  refine (ReachesBy.invariant_of_places
    (G := fun db _ => ∀ other ∈ db.rows, RemovedAs row other)
    (L := fun _ _ place => ∀ copy ∈ place.copies, RemovedAs row copy)
    hrows hcopies ?_ ?_ hlater).1
  · intro middle more pid input out before hkept hplaces _ hexec
    obtain ⟨hmade', hplaces'⟩ := made_of_reaches (h.trans before)
    have hdrafted : Drafted (log ++ more) row := (hmade.drafted row hrow).append
    have hbelow := HasOrigin.below hmade'.drafts externalId_of_fixed hdrafted
    exact (vehicleMove_of_exec hexec).removed hmade' (hplaces' pid).2 hbelow hremoved hkept
      (hplaces pid)
  · exact fun pid input out _ _ hplaces _ _ other _ => hplaces other

/-- Whatever requests interleave, a registered vehicle is never taken away and keeps its
id, its plate and its creation; and it stays removed unless a request is still at work on a
copy that it loaded before. -/
theorem vehicle_kept (h : Reaches (vehicleExec calendar) noVehicles config log)
    (hrow : row ∈ config.store.rows)
    (hlater : Reaches (vehicleExec calendar) config last more) :
    ∃ row' ∈ last.store.rows, row'.externalId = row.externalId ∧ row'.plate = row.plate ∧
      row'.createdAt = row.createdAt ∧ (row.deletedAt.isSome →
        (∀ pid, ∀ copy ∈ (config.places pid).copies, RemovedAs row copy) →
          row'.deletedAt = row.deletedAt) := by
  obtain ⟨row', hrow', hid⟩ := row_of_reaches hrow hlater
  have hfirst := (made_of_reaches h).1
  have hlast := (made_of_reaches (h.trans hlater)).1
  obtain ⟨hplate, hcreated⟩ := (hlast.drafted row' hrow').agree hlast
    (hfirst.drafted row hrow).append hid
  exact ⟨row', hrow', hid, hplate, hcreated, fun hremoved hcopies =>
    removed_of_reaches h hrow hremoved hcopies hlater row' hrow' hid⟩

end Runs

namespace VehicleWitness

def registering (plate : String) (now : Timestamp) : VehicleInput :=
  .register ⟨90, plate, " Fiat ", "Uno", 1971⟩ (some true) now

def rebranding : VehicleRequest := .update ⟨0, some "Volkswagen", none, none, none⟩

/-- A program registers a vehicle. -/
def registered : List (Nat × VehicleInput) :=
  [(0, registering "abc-1234" 10), (0, .proceed), (0, .proceed)]

/-- An update reads the row to write before a removal of the vehicle is saved, and writes
the brand and the time after it; the plate is registered again. -/
def mixed : Config VehicleDb VehiclePlace × List VehicleEffect :=
  endOfRun (vehicleExec Calendar.utc) noVehicles
    (registered ++ [(1, .find rebranding 20), (1, .change 21), (2, .find (.remove 0) 22),
      (2, .change 23), (1, .proceed), (1, .proceed), (2, .proceed), (2, .proceed),
      (2, .proceed), (1, .proceed), (3, registering "ABC 1234" 30), (3, .proceed),
      (3, .proceed)]) (by decide +kernel)

theorem vehicles_sound_mixed :
    mixed.1.store.rows = [⟨0, 90, "ABC1234", "Volkswagen", "Uno", 1971, 10, 21, some 23⟩,
      ⟨1, 90, "ABC1234", "Fiat", "Uno", 1971, 30, 30, none⟩] ∧
      VehiclesSound Calendar.utc mixed.1.store mixed.2 30 :=
  ⟨by decide +kernel, vehicles_sound (clockedReaches_endOfRun (fun _ _ _ => true)
    (fun _ => trivial) (by decide +kernel) (by decide +kernel) _)⟩

/-- The vehicle is removed and no request is at work on it. -/
def removed : Config VehicleDb VehiclePlace × List VehicleEffect :=
  endOfRun (vehicleExec Calendar.utc) noVehicles
    (registered ++ [(0, .find (.remove 0) 20), (0, .change 21), (0, .proceed),
      (0, .proceed), (0, .proceed)]) (by decide +kernel)

/-- An update of the removed vehicle. -/
def rebranded : Config VehicleDb VehiclePlace × List VehicleEffect :=
  endOfRun (vehicleExec Calendar.utc) removed.1
    [(1, .find rebranding 30), (1, .change 31), (1, .proceed), (1, .proceed),
      (1, .proceed)] (by decide +kernel)

def removedRow : VehicleRow := ⟨0, 90, "ABC1234", "Fiat", "Uno", 1971, 10, 21, some 21⟩

theorem removed_quiet (pid : Nat) : (removed.1.places pid).copies = [] := by
  by_cases hpid : pid = 0
  · subst hpid
    decide +kernel
  · have hidle : removed.1.places pid = .idle := by
      refine endOfRun_places _ fun turn hturn => ?_
      have hzero : turn.1 = 0 := by
        simp only [registered, List.cons_append, List.nil_append, List.mem_cons,
          List.not_mem_nil, or_false] at hturn
        rcases hturn with rfl | rfl | rfl | rfl | rfl | rfl | rfl | rfl <;> rfl
      rw [hzero]
      exact Ne.symm hpid
    rw [hidle]
    rfl

theorem vehicle_kept_rebranded : ∃ row ∈ rebranded.1.store.rows, row.externalId = 0 ∧
    row.deletedAt = some 21 := by
  have hreached : Reaches (vehicleExec Calendar.utc) noVehicles removed.1 removed.2 :=
    reaches_endOfRun _
  have hlater : Reaches (vehicleExec Calendar.utc) removed.1 rebranded.1 rebranded.2 :=
    reaches_endOfRun _
  have hrow : removedRow ∈ removed.1.store.rows := by decide +kernel
  obtain ⟨row, hkept, hid, -, -, hremoved⟩ := vehicle_kept hreached hrow hlater
  refine ⟨row, hkept, hid, hremoved rfl fun pid copy hcopy => ?_⟩
  rw [removed_quiet] at hcopy
  exact absurd hcopy List.not_mem_nil

end VehicleWitness

end Vehicles

end Workshop
