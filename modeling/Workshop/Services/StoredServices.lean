/-
What the catalog keeps while requests interleave: every service can be read again, the
names of the active ones are unique but for case, and a request that is told that a name
is in use met another active service that has it.
-/
import Workshop.Services.ServiceRequests

namespace Workshop

namespace Services

/-- What every stored service and every loaded copy satisfies. -/
structure ServiceRow.Sound (row : ServiceRow) : Prop where
  tidy : tidyName row.name = row.name
  named : row.name ≠ ""
  short : (codeUnits row.name).length ≤ maxNameLength
  price : ∃ price : ServicePrice, row.priceCents = price.amount.toText
  duration : 0 < row.estimatedDurationMinutes

section Values

variable {row : ServiceRow} {service : Service}

theorem sound_toOrm (service : Service) : (ServiceMapper.toOrm service).Sound :=
  ⟨service.name.tidy, service.name.nonempty, service.name.short, ⟨service.price, rfl⟩,
    service.duration.pos⟩

/-- A price is read back from the text of its column. -/
theorem priceFromDatabase_toText (price : ServicePrice) :
    priceFromDatabase price.amount.toText = .ok price := by
  obtain ⟨⟨cents, hnonneg⟩, hnumber⟩ := price
  unfold priceFromDatabase
  rw [readNumber, Money.numberOf_toText, Option.map_some, hnumber]
  refine (dif_pos ⟨rfl, hnonneg⟩).trans ?_
  congr 3

/-- A sound row is read back as the service it was made of. -/
theorem ServiceRow.Sound.readable (h : row.Sound) :
    ∃ service, ServiceMapper.toDomain row = .ok service ∧ ServiceMapper.toOrm service = row := by
  obtain ⟨price, hprice⟩ := h.price
  have hname : ServiceName.create row.name = .ok ⟨row.name, h.tidy, h.named, h.short⟩ := by
    unfold ServiceName.create
    simp only [h.tidy]
    exact dif_pos ⟨h.named, h.short⟩
  have hduration : ServiceDuration.fromMinutes row.estimatedDurationMinutes =
      .ok ⟨row.estimatedDurationMinutes, h.duration⟩ :=
    dif_pos ⟨rfl, h.duration⟩
  refine ⟨⟨row.externalId, ⟨row.name, h.tidy, h.named, h.short⟩, row.description, price,
    ⟨row.estimatedDurationMinutes, h.duration⟩, row.status, row.createdAt, row.updatedAt⟩,
    ?_, ?_⟩
  · unfold ServiceMapper.toDomain
    rw [hname, hduration, hprice, priceFromDatabase_toText]
    rfl
  · have hsame := congrArg (fun text => { row with priceCents := text }) hprice.symm
    exact hsame

/-- Reading a row and writing it again leaves the row. -/
theorem toOrm_of_toDomain (hsound : row.Sound)
    (h : ServiceMapper.toDomain row = .ok service) : ServiceMapper.toOrm service = row := by
  obtain ⟨service', hload, hrow⟩ := hsound.readable
  rw [h] at hload
  cases hload
  exact hrow

theorem ServiceRow.Sound.merge {read written current : ServiceRow} (hwritten : written.Sound)
    (hcurrent : current.Sound) : (ServiceRow.merge read written current).Sound := by
  refine ⟨mergeColumn_holds (p := fun name => tidyName name = name) hwritten.tidy
      hcurrent.tidy,
    mergeColumn_holds (p := fun name => name ≠ "") hwritten.named hcurrent.named,
    mergeColumn_holds (p := fun name => (codeUnits name).length ≤ maxNameLength)
      hwritten.short hcurrent.short,
    mergeColumn_holds (p := fun text => ∃ price : ServicePrice, text = price.amount.toText)
      hwritten.price hcurrent.price,
    mergeColumn_holds hwritten.duration hcurrent.duration⟩

end Values

/-- The copies of services a request works on, as rows. -/
def ServicePlace.copies : ServicePlace → List ServiceRow
  | .idle => []
  | .naming _ => []
  | .loaded _ service => [ServiceMapper.toOrm service]
  | .saving place => place.copies

/-- A save compares a row with the one of its key; a request changes the service it
asked for. -/
def ServicePlace.Follows (lower : String → String) : ServicePlace → Prop
  | .saving place => (serviceTable lower).Reads place
  | .loaded request service => service.id = request.serviceId
  | _ => True

def ServiceEffect.draft : ServiceEffect → Option ServiceRow
  | .creating row => some row
  | _ => none

theorem draft_eq_some (effect : ServiceEffect) (row : ServiceRow) :
    effect.draft = some row ↔ effect = .creating row := by
  cases effect <;> simp [ServiceEffect.draft]

/-- The columns of a service that never change. -/
def ServiceRow.fixed (row : ServiceRow) : ServiceId × Timestamp :=
  (row.externalId, row.createdAt)

/-- A row that is sound and goes back to one creation. -/
structure ServiceRow.Made (log : List ServiceEffect) (row : ServiceRow) : Prop where
  origin : HasOrigin ServiceRow.fixed (draftsOf ServiceEffect.draft log) row
  sound : row.Sound

/-- Every stored row goes back to one creation. -/
structure ServicesMade (lower : String → String) (db : ServiceDb)
    (log : List ServiceEffect) : Prop where
  unique : (serviceTable lower).Unique db.rows
  made : ∀ row ∈ db.rows, row.Made log
  drafts : DraftsBelow ServiceRow.externalId (draftsOf ServiceEffect.draft log) db.nextId

section Outcomes

variable {db : ServiceDb} {step : SaveStep ServiceRow} {log more : List ServiceEffect}
variable {row other : ServiceRow}

theorem externalId_of_fixed {left right : ServiceRow} (h : left.fixed = right.fixed) :
    left.externalId = right.externalId :=
  congrArg Prod.fst h

theorem ServiceRow.Made.append (h : row.Made log) : row.Made (log ++ more) :=
  ⟨by rw [draftsOf_append]; exact h.origin.append, h.sound⟩

theorem ServiceRow.Made.below {lower : String → String} (h : row.Made log)
    (hmade : ServicesMade lower db log) : row.externalId < db.nextId :=
  h.origin.below hmade.drafts externalId_of_fixed

/-- What a save writes goes back to the creation of what it read. -/
theorem ServiceRow.Made.merge {lower : String → String} {read written current : ServiceRow}
    (hmade : ServicesMade lower db log) (hwritten : written.Made log)
    (hcurrent : current.Made log) (hid : current.externalId = written.externalId) :
    (ServiceRow.merge read written current).Made log := by
  have hfixed := hwritten.origin.agree hmade.drafts externalId_of_fixed hcurrent.origin hid.symm
  have hkept : (ServiceRow.merge read written current).fixed = current.fixed :=
    Prod.ext (mergeColumn_of_eq hid.symm) (mergeColumn_of_eq (congrArg Prod.snd hfixed))
  obtain ⟨draft, hdraft, hsame⟩ := hcurrent.origin
  exact ⟨⟨draft, hdraft, hsame.trans hkept.symm⟩, hwritten.sound.merge hcurrent.sound⟩

end Outcomes

section Steps

variable {lower : String → String} {db : ServiceDb} {place : ServicePlace}
variable {input : ServiceInput} {out : ServiceOutcome} {log : List ServiceEffect}

/-- A turn that creates nothing leaves the creations as they were. -/
theorem ServicesMade.uncreated {db' : ServiceDb} {effects : List ServiceEffect}
    (h : ServicesMade lower db log) (hnext : db'.nextId = db.nextId)
    (heffects : draftsOf ServiceEffect.draft effects = []) (hunique : (serviceTable lower).Unique db'.rows)
    (hmade : ∀ row ∈ db'.rows, row.Made log) : ServicesMade lower db' (log ++ effects) := by
  refine ⟨hunique, fun row hrow => (hmade row hrow).append, ?_⟩
  rw [draftsOf_append, heffects, List.append_nil, hnext]
  exact h.drafts

/-- Every turn keeps the stored rows and the copies those of created services. -/
theorem ServiceMove.made (h : ServiceMove lower db place input out)
    (hmade : ServicesMade lower db log) (hcopies : ∀ copy ∈ place.copies, copy.Made log)
    (hfollows : place.Follows lower) :
    ServicesMade lower out.store (log ++ out.effects) ∧
      (∀ copy ∈ out.place.copies, copy.Made (log ++ out.effects)) ∧
        out.place.Follows lower := by
  have hunchanged : ∀ {effects : List ServiceEffect}, draftsOf ServiceEffect.draft effects = [] →
      ServicesMade lower db (log ++ effects) := fun heffects =>
    hmade.uncreated rfl heffects hmade.unique hmade.made
  cases h with
  | create new now service hid hname hfree =>
      have hdrafts : draftsOf ServiceEffect.draft (log ++ [.creating (ServiceMapper.toOrm service)]) =
          draftsOf ServiceEffect.draft log ++ [ServiceMapper.toOrm service] := draftsOf_append
      refine ⟨⟨hmade.unique, fun row hrow => (hmade.made row hrow).append, ?_⟩,
        fun copy hcopy => ?_, trivial⟩
      · rw [hdrafts]
        exact hmade.drafts.concat hid
      · obtain rfl := List.mem_singleton.mp hcopy
        refine ⟨⟨_, ?_, rfl⟩, sound_toOrm service⟩
        rw [hdrafts]
        exact List.mem_append_right _ (List.mem_singleton_self _)
  | find request row service hrow hid hload =>
      have hsame := toOrm_of_toDomain (hmade.made row hrow).sound hload
      refine ⟨hunchanged rfl, fun copy hcopy => ?_, ?_⟩
      · obtain rfl := List.mem_singleton.mp hcopy
        rw [hsame]
        exact (hmade.made row hrow).append
      · exact (congrArg ServiceRow.externalId hsame).trans hid
  | update command service input now hfree =>
      have hmadeCopy := hcopies _ (List.mem_singleton_self _)
      refine ⟨hunchanged rfl, fun copy hcopy => ?_, trivial⟩
      obtain rfl := List.mem_singleton.mp hcopy
      exact ⟨hmadeCopy.append.origin, sound_toOrm _⟩
  | deactivate serviceId service now =>
      have hmadeCopy := hcopies _ (List.mem_singleton_self _)
      refine ⟨hunchanged rfl, fun copy hcopy => ?_, trivial⟩
      obtain rfl := List.mem_singleton.mp hcopy
      unfold Service.deactivate
      split
      · exact hmadeCopy.append
      · exact ⟨hmadeCopy.append.origin, sound_toOrm _⟩
  | save place step hmove =>
      obtain ⟨hrows, hnext⟩ := hmove.holds (P := ServiceRow.Made log)
        (fun _ hwritten hcurrent _ hkey => hwritten.merge hmade hcurrent hkey)
        hfollows hmade.made hcopies
      refine ⟨hmade.uncreated afterSave_nextId
        (afterSave_drafts (fun _ => rfl) fun _ => rfl)
        ?_ ?_, fun copy hcopy => ?_, ?_⟩
      · rw [afterSave_rows]
        exact hmove.unique hmade.unique
      · rw [afterSave_rows]
        exact hrows
      · rw [afterSave_copies ServicePlace.copies rfl fun _ => rfl] at hcopy
        exact (hnext copy hcopy).append
      · cases step with
        | next next => exact hmove.reads
        | saved row rows => trivial
        | failed row error => trivial
  | _ => exact ⟨hunchanged rfl, fun _ hcopy => absurd hcopy List.not_mem_nil, trivial⟩

end Steps

section Runs

variable {lower : String → String} {config : Config ServiceDb ServicePlace}
variable {log : List ServiceEffect} {row : ServiceRow}

/-- In every run the stored rows and the copies are those of created services. -/
theorem made_of_reaches (h : CatalogReaches lower config log) :
    ServicesMade lower config.store log ∧ ∀ pid,
      (∀ copy ∈ (config.places pid).copies, copy.Made log) ∧
        (config.places pid).Follows lower := by
  have hempty : ServicesMade lower noServices.store [] :=
    ⟨⟨List.nodup_nil, List.nodup_nil⟩, fun _ hrow => absurd hrow List.not_mem_nil,
      ⟨List.nodup_nil, fun _ hdraft => absurd hdraft List.not_mem_nil⟩⟩
  refine ReachesBy.invariant_of_places
    (G := fun db log => ServicesMade lower db log)
    (L := fun _ log place => (∀ copy ∈ place.copies, copy.Made log) ∧ place.Follows lower)
    hempty (fun _ => ⟨fun _ hcopy => absurd hcopy List.not_mem_nil, trivial⟩) ?_ ?_ h
  · intro config log pid input out _ hmade hplaces _ hexec
    obtain ⟨hcopies, hfollows⟩ := hplaces pid
    exact (serviceMove_of_exec hexec).made hmade hcopies hfollows
  · intro config log pid input out _ _ hplaces _ _ other _
    exact ⟨fun copy hcopy => ((hplaces other).1 copy hcopy).append, (hplaces other).2⟩

/-- What is true of the catalog at every moment. -/
structure CatalogSound (lower : String → String) (db : ServiceDb)
    (log : List ServiceEffect) : Prop where
  readable : ∀ row ∈ db.rows, ∃ service,
    ServiceMapper.toDomain row = .ok service ∧ ServiceMapper.toOrm service = row
  ids : (db.rows.map ServiceRow.externalId).Nodup
  names : ((db.rows.filter fun row => row.status = .active).map
    fun row => lower row.name).Nodup
  created : ∀ row ∈ db.rows, ∃ draft, .creating draft ∈ log ∧
    draft.externalId = row.externalId ∧ draft.createdAt = row.createdAt

/-- Whatever requests interleave between the look at a name and the save, and however
their saves mix the columns of one row, every stored service can be read again and no two
active services have one name but for case. -/
theorem catalog_sound (h : CatalogReaches lower config log) :
    CatalogSound lower config.store log := by
  have hmade := (made_of_reaches h).1
  refine ⟨fun row hrow => (hmade.made row hrow).sound.readable, hmade.unique.keys, ?_, ?_⟩
  · have htest : (fun row : ServiceRow => if decide (row.status = .active) = true
        then some (lower row.name) else none) = ServiceRow.activeName lower := by
      funext row
      simp [ServiceRow.activeName]
    rw [← filterMap_ite, htest]
    exact hmade.unique.entries
  · intro row hrow
    obtain ⟨draft, hdraft, hfixed⟩ := (hmade.made row hrow).origin
    exact ⟨draft, (mem_draftsOf draft_eq_some).mp hdraft, congrArg Prod.fst hfixed, congrArg Prod.snd hfixed⟩

end Runs

/-- What a request found out about the key of the row it is about to write. -/
def ServicePlace.Knows (lower : String → String) (rows : List ServiceRow) :
    ServicePlace → Prop
  | .saving place => (serviceTable lower).Knows rows place
  | _ => True

/-- Two requests work on one service only once its row is stored. -/
def ApartUntilStored (rows : List ServiceRow) (place other : ServicePlace) : Prop :=
  ∀ copy ∈ place.copies, ∀ copy' ∈ other.copies, copy.externalId = copy'.externalId →
    copy.externalId ∈ rows.map ServiceRow.externalId

section Keys

variable {lower : String → String} {db : ServiceDb} {place other : ServicePlace}
variable {input : ServiceInput} {out : ServiceOutcome} {log : List ServiceEffect}
variable {config : Config ServiceDb ServicePlace}

/-- What a turn does to the ids of the rows and of the copies. -/
structure KeyStep (lower : String → String) (db : ServiceDb) (place : ServicePlace)
    (out : ServiceOutcome) : Prop where
  kept : ∀ id ∈ db.rows.map ServiceRow.externalId,
    id ∈ out.store.rows.map ServiceRow.externalId
  stored : ∀ id ∈ out.store.rows.map ServiceRow.externalId,
    id ∈ db.rows.map ServiceRow.externalId ∨ ∃ copy ∈ place.copies, copy.externalId = id
  copied : ∀ copy ∈ out.place.copies,
    copy.externalId ∈ db.rows.map ServiceRow.externalId ∨
      (∃ old ∈ place.copies, old.externalId = copy.externalId) ∨ copy.externalId = db.nextId
  knows : out.place.Knows lower out.store.rows

theorem ServiceMove.keyStep (h : ServiceMove lower db place input out)
    (hmade : ServicesMade lower db log) (hfollows : place.Follows lower) :
    KeyStep lower db place out := by
  cases h with
  | create new now service hid hname hfree =>
      refine ⟨fun _ hid => hid, fun _ hid => Or.inl hid, fun copy hcopy => ?_, trivial⟩
      obtain rfl := List.mem_singleton.mp hcopy
      exact Or.inr (Or.inr hid)
  | find request row service hrow hid hload =>
      refine ⟨fun _ hid => hid, fun _ hid => Or.inl hid, fun copy hcopy => ?_, trivial⟩
      obtain rfl := List.mem_singleton.mp hcopy
      rw [toOrm_of_toDomain (hmade.made row hrow).sound hload]
      exact Or.inl (List.mem_map.mpr ⟨row, hrow, rfl⟩)
  | update command service input now hfree =>
      refine ⟨fun _ hid => hid, fun _ hid => Or.inl hid, fun copy hcopy => ?_, trivial⟩
      obtain rfl := List.mem_singleton.mp hcopy
      exact Or.inr (Or.inl ⟨_, List.mem_singleton_self _, rfl⟩)
  | deactivate serviceId service now =>
      refine ⟨fun _ hid => hid, fun _ hid => Or.inl hid, fun copy hcopy => ?_, trivial⟩
      obtain rfl := List.mem_singleton.mp hcopy
      refine Or.inr (Or.inl ⟨_, List.mem_singleton_self _, ?_⟩)
      unfold Service.deactivate
      split <;> rfl
  | save place step hmove =>
      refine ⟨fun id hid => ?_, fun id hid => ?_, fun copy hcopy => ?_, ?_⟩
      · rw [afterSave_rows]
        obtain ⟨row, hrow, rfl⟩ := List.mem_map.mp hid
        obtain ⟨row', hrow', hsame⟩ := hmove.keeps hrow
        exact List.mem_map.mpr ⟨row', hrow', hsame⟩
      · rw [afterSave_rows] at hid
        exact hmove.keys hfollows hid
      · rw [afterSave_copies ServicePlace.copies rfl fun _ => rfl] at hcopy
        rcases hmove.copied copy hcopy with hrow | hold
        · exact Or.inl (List.mem_map.mpr ⟨copy, hrow, rfl⟩)
        · exact Or.inr (Or.inl ⟨copy, hold, rfl⟩)
      · cases step with
        | next next => exact hmove.knows
        | saved row rows => trivial
        | failed row error => trivial
  | _ =>
      exact ⟨fun _ hid => hid, fun _ hid => Or.inl hid,
        fun _ hcopy => absurd hcopy List.not_mem_nil, trivial⟩

/-- What keeps two requests from storing one key. -/
structure KeysApart (lower : String → String) (config : Config ServiceDb ServicePlace) :
    Prop where
  knows : ∀ pid, (config.places pid).Knows lower config.store.rows
  apart : ∀ pid other, pid ≠ other →
    ApartUntilStored config.store.rows (config.places pid) (config.places other)

/-- What other requests know of their keys is still true after a turn. -/
theorem KeyStep.knows_other (h : KeyStep lower db place out)
    (hapart : ApartUntilStored db.rows place other) (hknows : other.Knows lower db.rows) :
    other.Knows lower out.store.rows := by
  cases other with
  | saving saving =>
      refine TableSpec.Knows.mono hknows h.kept fun copy hcopy hstored => ?_
      rcases h.stored _ hstored with hold | ⟨copy', hcopy', hid⟩
      · exact hold
      · have hboth := hapart copy' hcopy' copy hcopy hid
        exact hid ▸ hboth
  | _ => trivial

/-- A request that moved stays apart from the others. -/
theorem KeyStep.apart_other (h : KeyStep lower db place out)
    (hapart : ApartUntilStored db.rows place other)
    (hbelow : ∀ copy ∈ other.copies, copy.externalId < db.nextId) :
    ApartUntilStored out.store.rows out.place other := by
  intro copy hcopy copy' hcopy' hid
  rcases h.copied copy hcopy with hstored | ⟨old, hold, hsame⟩ | hnew
  · exact h.kept _ hstored
  · rw [← hsame] at hid ⊢
    exact h.kept _ (hapart old hold copy' hcopy' hid)
  · have hlt := hbelow copy' hcopy'
    rw [← hid, hnew] at hlt
    exact absurd hlt (Nat.lt_irrefl _)

theorem ApartUntilStored.symm {rows : List ServiceRow}
    (h : ApartUntilStored rows place other) : ApartUntilStored rows other place :=
  fun copy hcopy copy' hcopy' hid => hid ▸ h copy' hcopy' copy hcopy hid.symm

theorem keysApart_of_reaches (h : CatalogReaches lower config log) :
    KeysApart lower config := by
  have hstart : KeysApart lower noServices :=
    ⟨fun _ => trivial, fun _ _ _ _ hcopy => absurd hcopy List.not_mem_nil⟩
  refine ReachesBy.invariant (P := fun config _ => KeysApart lower config) hstart ?_ h
  intro config log pid input out before hkeys _ hexec
  obtain ⟨hmade, hplaces⟩ := made_of_reaches before
  have hstep := (serviceMove_of_exec hexec).keyStep hmade (hplaces pid).2
  have hbelow : ∀ other, ∀ copy ∈ (config.places other).copies,
      copy.externalId < config.store.nextId := fun other copy hcopy =>
    ((hplaces other).1 copy hcopy).below hmade
  have hmoved : ∀ other, other ≠ pid →
      ApartUntilStored out.store.rows out.place (config.places other) := fun other hne =>
    hstep.apart_other (hkeys.apart pid other (Ne.symm hne)) (hbelow other)
  constructor
  · intro other
    by_cases hother : other = pid
    · rw [hother, Config.after_places_self]
      exact hstep.knows
    · rw [Config.after_places_of_ne config out hother]
      exact hstep.knows_other (hkeys.apart pid other (Ne.symm hother)) (hkeys.knows other)
  · intro left right hne
    by_cases hleft : left = pid
    · rw [hleft, Config.after_places_self,
        Config.after_places_of_ne config out (hleft ▸ Ne.symm hne)]
      exact hmoved right (hleft ▸ Ne.symm hne)
    · rw [Config.after_places_of_ne config out hleft]
      by_cases hright : right = pid
      · rw [hright, Config.after_places_self]
        exact (hmoved left hleft).symm
      · rw [Config.after_places_of_ne config out hright]
        exact fun copy hcopy copy' hcopy' hid =>
          hstep.kept _ (hkeys.apart left right hne copy hcopy copy' hcopy' hid)

end Keys

/-- The service and the name a request is about to store: the name it asked for, or where
its save changes no name the one the row has. -/
inductive Wants (lower : String → String) (db : ServiceDb) :
    ServicePlace → ServiceId → String → Prop
  | create (new : NewService) : Wants lower db (.naming new) db.nextId new.name.value
  | rename (command : UpdateServiceCommand) (service : Service) (name : ServiceName)
      (hname : checkGiven ServiceName.create command.name = .ok (some name)) :
      Wants lower db (.loaded (.update command) service) service.id name.value
  | insert (row : ServiceRow) (found : Bool) :
      Wants lower db (.saving (.storing row found)) row.externalId row.name
  | update (row read current : ServiceRow) (hcurrent : current ∈ db.rows)
      (hid : current.externalId = row.externalId) :
      Wants lower db (.saving (.merging row read)) row.externalId
        (mergeColumn read.name row.name current.name)

/-- Another service is active under the name, but for case. -/
def NameHeld (lower : String → String) (db : ServiceDb) (id : ServiceId) (name : String) :
    Prop :=
  ∃ other ∈ db.rows, other.status = .active ∧ other.externalId ≠ id ∧
    lower other.name = lower name

section Conflicts

variable {lower : String → String} {db : ServiceDb} {place : ServicePlace}
variable {input : ServiceInput} {out : ServiceOutcome} {log : List ServiceEffect}
variable {config : Config ServiceDb ServicePlace}

theorem activeName_eq_some {row : ServiceRow} {name : String}
    (h : row.activeName lower = some name) : row.status = .active ∧ lower row.name = name := by
  unfold ServiceRow.activeName at h
  split at h
  · rename_i hactive
    exact ⟨hactive, Option.some.inj h⟩
  · cases h

/-- A violation of the index is a name that another active service has. -/
theorem nameHeld_of_isEntryTaken {row : ServiceRow}
    (h : (serviceTable lower).isEntryTaken db.rows row = true) :
    NameHeld lower db row.externalId row.name := by
  obtain ⟨other, hother, hne, hsome, hsame⟩ := TableSpec.isEntryTaken_iff.mp h
  obtain ⟨name, hname⟩ := Option.isSome_iff_exists.mp hsome
  obtain ⟨-, hrow⟩ := activeName_eq_some hname
  obtain ⟨hactive, hheld⟩ := activeName_eq_some (hsame.trans hname)
  exact ⟨other, hother, hactive, hne, hheld.trans hrow.symm⟩

theorem nameHeld_of_exists {name : ServiceName} {excludingId : Option ServiceId}
    {id : ServiceId} (hid : ∀ row ∈ db.rows,
      (excludingId.all fun excluded => row.externalId ≠ excluded) = true → row.externalId ≠ id)
    (h : db.existsActiveByName lower name excludingId = true) :
    NameHeld lower db id name.value := by
  obtain ⟨other, hother, htest⟩ := List.any_eq_true.mp h
  simp only [Bool.and_eq_true, decide_eq_true_eq] at htest
  obtain ⟨⟨hname, hactive⟩, hexcluded⟩ := htest
  exact ⟨other, hother, hactive, hid other hother hexcluded, hname⟩

theorem nameHeld_of_saveMove {saving : SavePlace ServiceRow} {row : ServiceRow}
    (h : (serviceTable lower).SaveMove db.rows saving (.failed row .entryTaken))
    (hreads : (serviceTable lower).Reads saving) :
    ∃ id name, Wants lower db (.saving saving) id name ∧ NameHeld lower db id name := by
  cases h with
  | insertTaken other found htaken =>
      exact ⟨_, _, Wants.insert row found, nameHeld_of_isEntryTaken htaken⟩
  | updateTaken other read current hcurrent hkey htaken =>
      have hid : (ServiceRow.merge read row current).externalId = row.externalId :=
        (serviceTable lower).merge_key hreads hkey
      have hheld := nameHeld_of_isEntryTaken htaken
      change NameHeld lower db (ServiceRow.merge read row current).externalId _ at hheld
      rw [hid] at hheld
      exact ⟨_, _, Wants.update row read current hcurrent hkey, hheld⟩

/-- A turn that answers that a name is in use found another service under it. -/
theorem ServiceMove.nameHeld (h : ServiceMove lower db place input out)
    (hmade : ServicesMade lower db log) (hfollows : place.Follows lower)
    (hrefused : .refused .serviceNameAlreadyInUse ∈ out.effects) :
    ∃ id name, Wants lower db place id name ∧ NameHeld lower db id name := by
  cases h with
  | refuse _ _ error hname hunique =>
      cases List.mem_singleton.mp hrefused
      exact absurd rfl hname
  | createTaken new now htaken =>
      refine ⟨_, _, Wants.create new, nameHeld_of_exists (fun row hrow _ => ?_) htaken⟩
      exact Nat.ne_of_lt ((hmade.made row hrow).below hmade)
  | renameTaken command service now name hname htaken =>
      refine ⟨_, _, Wants.rename command service name hname,
        nameHeld_of_exists (fun row _ hexcluded => ?_) htaken⟩
      have hne : row.externalId ≠ command.serviceId := by simpa using hexcluded
      exact fun hsame => hne (hsame.trans hfollows)
  | save place step hmove =>
      cases step with
      | next next => cases hrefused
      | saved row rows => simp [RowStore.afterSave, serviceSaves] at hrefused
      | failed row error =>
          have herror := List.mem_singleton.mp hrefused
          cases error with
          | entryTaken => exact nameHeld_of_saveMove hmove hfollows
          | _ => cases herror
  | create => simp at hrefused
  | _ => cases hrefused

/-- A turn that knows its key does not violate it. -/
theorem ServiceMove.not_uniqueViolation (h : ServiceMove lower db place input out)
    (hknows : place.Knows lower db.rows) : .refused .uniqueViolation ∉ out.effects := by
  intro hrefused
  cases h with
  | refuse _ _ error hname hunique =>
      cases List.mem_singleton.mp hrefused
      exact absurd rfl hunique
  | createTaken => simp [ServiceDb.refuse] at hrefused
  | renameTaken => simp [ServiceDb.refuse] at hrefused
  | save place step hmove =>
      cases step with
      | next next => cases hrefused
      | saved row rows => simp [RowStore.afterSave, serviceSaves] at hrefused
      | failed row error =>
          have herror := List.mem_singleton.mp hrefused
          have hne := hmove.error_ne_keyTaken hknows
          cases error with
          | keyTaken => exact hne rfl
          | _ => cases herror
  | create => simp at hrefused
  | _ => cases hrefused

/-- Whatever requests interleave, a request that is told that a name is in use finds, at
that statement, another active service that has the name it is about to store; and none
ever ends in a violation of a key that nothing translates. -/
theorem conflicts_answered (h : CatalogReaches lower config log) {pid : Nat}
    (hexec : serviceExec lower config.store (config.places pid) input = some out) :
    (.refused .serviceNameAlreadyInUse ∈ out.effects →
      ∃ id name, Wants lower config.store (config.places pid) id name ∧
        NameHeld lower config.store id name) ∧
      .refused .uniqueViolation ∉ out.effects := by
  obtain ⟨hmade, hplaces⟩ := made_of_reaches h
  have hmove := serviceMove_of_exec hexec
  exact ⟨hmove.nameHeld hmade (hplaces pid).2,
    hmove.not_uniqueViolation ((keysApart_of_reaches h).knows pid)⟩

end Conflicts

namespace CatalogWitness

/-- `lower` of a text without accents. -/
def lowerText (text : String) : String := String.ofList (text.toList.map Char.toLower)

def creating (name : String) : ServiceInput := .create ⟨name, 15099, 60, none⟩

/-- Two requests create one service; both look at the name before either one saves. -/
def racing : List (Nat × ServiceInput) :=
  [(0, creating " Troca  de oleo "), (1, creating "TROCA DE OLEO"), (0, .change 10),
    (1, .change 11), (0, .proceed), (0, .proceed), (1, .proceed)]

def raced : Config ServiceDb ServicePlace × List ServiceEffect :=
  endOfRun (serviceExec lowerText) noServices racing (by decide +kernel)

theorem catalog_sound_raced :
    raced.1.store.rows =
      [⟨0, "Troca de oleo", none, "15099", 60, .active, 10, 10⟩] ∧
      CatalogSound lowerText raced.1.store raced.2 :=
  ⟨by decide +kernel, catalog_sound (reaches_endOfRun _)⟩

theorem second_saves : (serviceExec lowerText raced.1.store (raced.1.places 1)
    .proceed).isSome := by
  decide +kernel

/-- The save of the second request. -/
def second : ServiceOutcome :=
  (serviceExec lowerText raced.1.store (raced.1.places 1) .proceed).get second_saves

theorem second_refused : .refused .serviceNameAlreadyInUse ∈ second.effects := by
  decide +kernel

theorem conflicts_answered_second :
    (∃ id name, Wants lowerText raced.1.store (raced.1.places 1) id name ∧
      NameHeld lowerText raced.1.store id name) ∧
      .refused .uniqueViolation ∉ second.effects := by
  have hraced : CatalogReaches lowerText raced.1 raced.2 := reaches_endOfRun _
  have hexec : serviceExec lowerText raced.1.store (raced.1.places 1) .proceed =
      some second := (Option.some_get second_saves).symm
  have hanswered := conflicts_answered hraced hexec
  exact ⟨hanswered.1 second_refused, hanswered.2⟩

end CatalogWitness

end Services

end Workshop
