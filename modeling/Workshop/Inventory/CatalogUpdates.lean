/-
Changes of the catalog next to the operations of stock.  The programs are
those of inventory, each remembering what its request asked for and the tables
it read; every save of a loaded copy writes the catalog entry it read.
-/
import Workshop.Inventory.Catalog

namespace Workshop

namespace Inventory

/-- What a request does to the catalog entry it loaded. -/
inductive CatalogChange
  | update (name : Option String) (description : Option (Option String))
      (unitPrice : Option Money)
  | deactivate
  /-- A replenishment or an adjustment. -/
  | keep
deriving DecidableEq, Repr

def CatalogChange.apply (change : CatalogChange) (entry : Catalog) : Catalog :=
  match change with
  | .update name description unitPrice =>
      { entry with
        name := name.getD entry.name
        description := description.getD entry.description
        unitPrice := unitPrice.getD entry.unitPrice }
  | .deactivate => { entry with status := .inactive }
  | .keep => entry

def StockInput.catalogChange : StockInput → CatalogChange
  | .update _ name description unitPriceCents _ =>
      .update name description
        (unitPriceCents.bind fun cents => (priceOf cents).toOption)
  | .deactivate .. => .deactivate
  | _ => .keep

/-- What the save of a request commits to the catalog. -/
inductive CatalogEffect
  | created (id : ItemId) (entry : Catalog)
  | saved (id : ItemId) (change : CatalogChange)
deriving DecidableEq, Repr

/-- A place with the request that leads there and the tables it read. -/
structure StockRequest where
  place : StockPlace
  asked : StockInput
  read : InventoryDb

def StockPlace.isIdle : StockPlace → Bool
  | .idle => true
  | _ => false

/-- The effect of a committed save. -/
def savedEffect (asked : StockInput) (item : InventoryItem) : CatalogEffect :=
  match asked with
  | .create .. => .created item.id item.catalog
  | asked => .saved item.id asked.catalogChange

def catalogEffects (db : InventoryDb) (request : StockRequest) (input : StockInput) :
    List CatalogEffect :=
  match request.place, input with
  | .saving item, .proceed _ =>
      match db.save item with
      | .ok _ => [savedEffect request.asked item]
      | .error _ => []
  | _, _ => []

/-- One statement of a request of inventory, with what it commits. -/
def catalogExec (db : InventoryDb) (request : StockRequest) (input : StockInput) :
    Option (Outcome InventoryDb StockRequest CatalogEffect) :=
  (stockExec db request.place input).map fun out => {
    store := out.store
    place := if request.place.isIdle then ⟨out.place, input, db⟩
      else { request with place := out.place }
    effects := catalogEffects db request input }

/-- The tables as the migrations leave them, and no request under way. -/
def emptyCatalog : Config InventoryDb StockRequest :=
  ⟨{}, fun _ => ⟨.idle, .abort, {}⟩⟩

/-- The programs without what they remember. -/
def plainStock (config : Config InventoryDb StockRequest) :
    Config InventoryDb StockPlace :=
  ⟨config.store, fun pid => (config.places pid).place⟩

/-- The changes of an item that were committed, in the order of their commits. -/
def catalogChanges (id : ItemId) (log : List CatalogEffect) : List CatalogChange :=
  log.filterMap fun
    | .saved id' change => if id' = id then some change else none
    | _ => none

/-- The entry a serial order of changes makes of the created one. -/
def replayCatalog (entry : Catalog) (order : List CatalogChange) : Catalog :=
  order.foldl (fun entry change => change.apply entry) entry

/-- The stored entry is the one of a serial order of the committed operations,
and a deactivated item stays inactive. -/
structure CatalogKept (db : InventoryDb) (log : List CatalogEffect) : Prop where
  serial : ∀ id entry, CatalogEffect.created id entry ∈ log →
    ∃ order : List CatalogChange, order.Perm (catalogChanges id log) ∧
      db.catalogOf id = some (replayCatalog entry order)
  inactive : ∀ id, CatalogEffect.saved id .deactivate ∈ log →
    ∃ entry, db.catalogOf id = some entry ∧ entry.status = .inactive

/-- A copy that is saved, and not refused, is saved over the catalog entry it was loaded
with. -/
def savesAsRead (db : InventoryDb) (request : StockRequest) (input : StockInput) :
    Bool :=
  match request.place, input with
  | .saving item, .proceed _ =>
      match db.save item with
      | .error _ => true
      | .ok _ => db.catalogOf item.id = request.read.catalogOf item.id
  | _, _ => true

section Requests

variable {db : InventoryDb} {request : StockRequest} {input : StockInput}
variable {out : Outcome InventoryDb StockRequest CatalogEffect}
variable {log : List CatalogEffect} {config : Config InventoryDb StockRequest}
variable {allowed : InventoryDb → StockRequest → StockInput → Prop}

theorem catalogExec_eq_some :
    catalogExec db request input = some out ↔
      ∃ plain, stockExec db request.place input = some plain ∧
        out = {
          store := plain.store
          place := if request.place.isIdle then ⟨plain.place, input, db⟩
            else { request with place := plain.place }
          effects := catalogEffects db request input } := by
  unfold catalogExec
  rw [Option.map_eq_some_iff]
  exact exists_congr fun plain => and_congr_right fun _ => eq_comm

/-- A run with its requests remembered is a run of inventory. -/
theorem plainStock_reaches (h : ReachesBy catalogExec allowed emptyCatalog config log) :
    ∃ units, Reaches stockExec emptyStock (plainStock config) units := by
  induction h with
  | start => exact ⟨[], ReachesBy.start⟩
  | turn pid input before hallowed hexec ih =>
      rename_i config log out
      obtain ⟨plain, hplain, rfl⟩ := catalogExec_eq_some.mp hexec
      obtain ⟨units, hunits⟩ := ih
      have hafter : plainStock (config.after pid {
          store := plain.store
          place := if (config.places pid).place.isIdle
            then ⟨plain.place, input, config.store⟩
            else { config.places pid with place := plain.place }
          effects := catalogEffects config.store (config.places pid) input }) =
          (plainStock config).after pid plain := by
        unfold plainStock Config.after
        congr 1
        funext other
        by_cases heq : other = pid
        · subst heq
          simp only [Function.update_self]
          split <;> rfl
        · simp [heq]
      refine ⟨units ++ plain.effects, ?_⟩
      rw [hafter]
      exact ReachesBy.turn pid input hunits trivial hplain

end Requests

/-- What a statement does to the catalog, and what the next place carries. -/
inductive CatalogMove (db : InventoryDb) :
    StockPlace → StockInput → InventoryDb → StockPlace → Prop
  | created (sku name : String) (description : Option String)
      (kind : InventoryItemKind) (unitPriceCents : Int) (now : Timestamp)
      (unitPrice : Money) :
      CatalogMove db .idle (.create sku name description kind unitPriceCents now)
        { db with nextId := db.nextId + 1 }
        (.saving (InventoryItem.create db.nextId sku name description kind unitPrice
          now))
  | loaded (input : StockInput) (nextId : Uuid) (hle : db.nextId ≤ nextId)
      (item : InventoryItem) (entry : Catalog)
      (hread : db.catalogOf item.id = some entry)
      (hchange : item.catalog = input.catalogChange.apply entry)
      (heffect : savedEffect input item = .saved item.id input.catalogChange) :
      CatalogMove db .idle input { db with nextId } (.saving item)
  | saved (now : Timestamp) (db' : InventoryDb) (item : InventoryItem)
      (hsave : db.save item = .ok db') :
      CatalogMove db (.saving item) (.proceed now) db' .idle
  | kept (place : StockPlace) (input : StockInput) (db' : InventoryDb)
      (next : StockPlace) (hcatalog : ∀ id, db'.catalogOf id = db.catalogOf id)
      (hnext : db.nextId ≤ db'.nextId) (hquiet : ∀ asked read,
        catalogEffects db ⟨place, asked, read⟩ input = [])
      (hplace : ∀ item, next ≠ .saving item) :
      CatalogMove db place input db' next

section Moves

variable {db db' : InventoryDb} {place : StockPlace} {input : StockInput}
variable {out : StockOutcome}

/-- A load carries the entry it read, as the request changes it. -/
theorem loadThen_catalog {itemId : ItemId}
    {change : InventoryItem → Except InventoryError InventoryItem}
    (hchange : ∀ item item', change item = .ok item' →
      item'.id = item.id ∧ item'.catalog = input.catalogChange.apply item.catalog)
    (hasked : ∀ item, savedEffect input item = .saved item.id input.catalogChange)
    (hquiet : ∀ asked read, catalogEffects db ⟨.idle, asked, read⟩ input = [])
    (nextId : Uuid) (hle : db.nextId ≤ nextId) :
    CatalogMove db .idle input { db with nextId } (loadThen db itemId change) := by
  have hidle : CatalogMove db .idle input { db with nextId } .idle :=
    CatalogMove.kept _ _ _ _ (fun _ => rfl) hle hquiet nofun
  unfold loadThen InventoryDb.findById
  cases hfind : db.items.find? (fun row => row.id = itemId) with
  | none => exact hidle
  | some row =>
      cases hload : toDomain row with
      | error e =>
          simp only [hload, Except.map]
          exact hidle
      | ok loaded =>
          cases hchanged : change loaded with
          | error e =>
              simp only [hload, hchanged, Except.map]
              exact hidle
          | ok changed =>
              obtain ⟨hid, hcatalog⟩ := hchange _ _ hchanged
              have hrow : row.id = itemId := by simpa using List.find?_some hfind
              have hitem : changed.id = itemId :=
                hid.trans ((toDomain_ok hload).1.trans hrow)
              rw [toDomain_catalog hload] at hcatalog
              simp only [hload, hchanged, Except.map]
              refine CatalogMove.loaded input nextId hle changed row.catalog ?_ hcatalog
                (hasked changed)
              rw [InventoryDb.catalogOf, hitem, hfind, Option.map_some]

theorem updateItem_catalog {name : Option String}
    {description : Option (Option String)} {unitPriceCents : Option Int}
    {now : Timestamp} {itemId : ItemId} {item item' : InventoryItem}
    (h : updateItem name description unitPriceCents now item = .ok item') :
    item'.id = item.id ∧ item'.catalog =
      (StockInput.update itemId name description unitPriceCents now).catalogChange.apply
        item.catalog := by
  obtain ⟨unitPrice, hprice, h⟩ := bind_eq_ok_iff.mp h
  rw [pure_eq_ok_iff] at h
  subst h
  refine ⟨rfl, ?_⟩
  have hsame : unitPrice =
      unitPriceCents.bind fun cents => (priceOf cents).toOption := by
    cases unitPriceCents with
    | none =>
        cases hprice
        rfl
    | some cents =>
        cases hcents : priceOf cents with
        | error e => simp [hcents] at hprice
        | ok price =>
            rw [Option.mapM_some, hcents] at hprice
            cases hprice
            simp [hcents, Except.toOption]
  rw [hsame]
  rfl

theorem deactivateItem_catalog {workOrderNumbers : List String} {now : Timestamp}
    {item item' : InventoryItem}
    (h : deactivateItem workOrderNumbers now item = .ok item') :
    item'.id = item.id ∧
      item'.catalog = CatalogChange.deactivate.apply item.catalog := by
  unfold deactivateItem InventoryItem.deactivate at h
  split at h
  · cases h
  · cases h
    split
    · rename_i hinactive
      refine ⟨rfl, ?_⟩
      unfold CatalogChange.apply InventoryItem.catalog
      rw [hinactive]
    · exact ⟨rfl, rfl⟩

/-- A transaction that changes no entry. -/
theorem catalogMove_of_commit {result : Except InventoryError InventoryDb}
    (hresult : ∀ db', result = .ok db' →
      (∀ id, db'.catalogOf id = db.catalogOf id) ∧ db.nextId ≤ db'.nextId)
    (hquiet : ∀ asked read, catalogEffects db ⟨place, asked, read⟩ input = []) :
    CatalogMove db place input (commit db result).store (commit db result).place := by
  cases result with
  | error e =>
      exact CatalogMove.kept _ _ _ _ (fun _ => rfl) (Nat.le_refl _) hquiet nofun
  | ok db' =>
      obtain ⟨hcatalog, hnext⟩ := hresult db' rfl
      exact CatalogMove.kept _ _ _ _ hcatalog hnext hquiet nofun

/-- Every statement of inventory is one of the moves. -/
theorem catalogMove_of_exec (hnodup : db.itemIds.Nodup)
    (hexec : stockExec db place input = some out) :
    CatalogMove db place input out.store out.place := by
  have hquietly : ∀ db' next, (∀ id, db'.catalogOf id = db.catalogOf id) →
      db.nextId ≤ db'.nextId → (∀ asked read,
        catalogEffects db ⟨place, asked, read⟩ input = []) →
      (∀ item, next ≠ .saving item) → CatalogMove db place input db' next :=
    fun db' next => CatalogMove.kept place input db' next
  unfold stockExec at hexec
  split at hexec
  case h_1 sku name description kind unitPriceCents now =>
    cases hexec
    unfold createItem
    split
    · exact hquietly _ _ (fun _ => rfl) (Nat.le_refl _) (fun _ _ => rfl) nofun
    · rename_i unitPrice _
      split
      · exact hquietly _ _ (fun _ => rfl) (Nat.le_refl _) (fun _ _ => rfl) nofun
      · exact CatalogMove.created sku name description kind unitPriceCents now unitPrice
  case h_2 itemId name description unitPriceCents now =>
    cases hexec
    exact loadThen_catalog (fun item item' h => updateItem_catalog h) (fun _ => rfl)
      (fun _ _ => rfl) db.nextId (Nat.le_refl _)
  case h_3 itemId workOrderNumbers now =>
    cases hexec
    exact loadThen_catalog (fun item item' h => deactivateItem_catalog h)
      (fun _ => rfl) (fun _ _ => rfl) db.nextId (Nat.le_refl _)
  case h_4 itemId quantity unitPriceCents actorUserId note now =>
    cases hexec
    refine loadThen_catalog (fun item item' h => ?_) (fun _ => rfl) (fun _ _ => rfl)
      _ (Nat.le_succ _)
    obtain ⟨unitPrice, -, h⟩ := bind_eq_ok_iff.mp h
    exact replenish_catalog h
  case h_5 itemId quantity actorUserId note now =>
    cases hexec
    exact loadThen_catalog (fun item item' h => adjustDown_catalog h) (fun _ => rfl)
      (fun _ _ => rfl) _ (Nat.le_succ _)
  case h_6 command now =>
    cases hexec
    refine catalogMove_of_commit (fun db' h => ?_) fun _ _ => rfl
    obtain ⟨posts, hposted, -⟩ := consumeStockBatch_ok hnodup h
    exact ⟨consumeStockBatch_catalog hnodup h, hposted.nextId ▸ Nat.le_add_right _ _⟩
  case h_7 command order now =>
    cases hexec
    refine catalogMove_of_commit (fun db' h => ?_) fun _ _ => rfl
    refine ⟨restoreStockBatch_catalog hnodup h, ?_⟩
    rcases restoreStockBatch_ok hnodup h with ⟨-, rfl⟩ | ⟨-, posts, hposted, -⟩
    · exact Nat.le_refl _
    · exact hposted.nextId ▸ Nat.le_add_right _ _
  case h_8 command =>
    split at hexec
    · cases hexec
      exact hquietly _ _ (fun _ => rfl) (Nat.le_refl _) (fun _ _ => rfl) nofun
    · cases hexec
      exact hquietly _ _ (fun _ => rfl) (Nat.le_refl _) (fun _ _ => rfl) nofun
  case h_9 operationId now =>
    cases hexec
    exact hquietly _ _ (fun _ => rfl) (Nat.le_refl _) (fun _ _ => rfl) nofun
  case h_10 closure workOrderId actorUserId =>
    cases hexec
    exact hquietly _ _ (fun _ => rfl) (Nat.le_refl _) (fun _ _ => rfl) nofun
  case h_11 item now =>
    cases hexec
    cases hsave : db.save item with
    | error e =>
        refine hquietly _ _ (fun _ => rfl) (Nat.le_refl _) (fun asked read => ?_) nofun
        simp [catalogEffects, hsave]
    | ok db' => exact CatalogMove.saved now db' item hsave
  case h_12 command named now =>
    cases hexec
    refine catalogMove_of_commit (fun db' h => ?_) fun _ _ => rfl
    obtain ⟨posts, hposted, -⟩ := undoConsumption_ok hnodup h
    exact ⟨undoConsumption_catalog hnodup h, hposted.nextId ▸ Nat.le_add_right _ _⟩
  case h_13 closure actorUserId candidates now =>
    cases hexec
    exact hquietly _ _ (fun _ => rfl) (Nat.le_refl _) (fun _ _ => rfl) nofun
  case h_14 =>
    cases hexec
    refine hquietly _ _ (fun _ => rfl) (Nat.le_refl _) (fun asked read => ?_) nofun
    unfold catalogEffects
    split
    · rename_i heq
      cases heq
    · rfl
  case h_15 => cases hexec

end Moves

/-- What a request saves: the entry it read as it changes it, or a new one. -/
def CarriesRead (request : StockRequest) (item : InventoryItem) : Prop :=
  (∃ entry change, request.read.catalogOf item.id = some entry ∧
    item.catalog = CatalogChange.apply change entry ∧
    savedEffect request.asked item = .saved item.id change) ∨
    (request.read.catalogOf item.id = none ∧
      savedEffect request.asked item = .created item.id item.catalog)

def StockRequest.Known (db : InventoryDb) (request : StockRequest) : Prop :=
  ∀ item, request.place = .saving item →
    item.id < db.nextId ∧ CarriesRead request item

/-- The entries after the committed operations, in the order of the commits. -/
structure CatalogReplayed (db : InventoryDb) (log : List CatalogEffect) : Prop where
  below : ∀ id entry, db.catalogOf id = some entry → id < db.nextId
  replayed : ∀ id entry, CatalogEffect.created id entry ∈ log →
    db.catalogOf id = some (replayCatalog entry (catalogChanges id log))
  stored : ∀ id change, CatalogEffect.saved id change ∈ log →
    ∃ entry, db.catalogOf id = some entry
  inactive : ∀ id, CatalogEffect.saved id .deactivate ∈ log →
    ∀ entry, db.catalogOf id = some entry → entry.status = .inactive

section Replays

variable {db db' : InventoryDb} {log effects : List CatalogEffect} {id : ItemId}
variable {request : StockRequest} {input : StockInput} {item : InventoryItem}
variable {config : Config InventoryDb StockRequest}

theorem catalogChanges_append : catalogChanges id (log ++ effects) =
    catalogChanges id log ++ catalogChanges id effects :=
  List.filterMap_append

theorem catalogChanges_eq_nil (h : ∀ change, CatalogEffect.saved id change ∉ log) :
    catalogChanges id log = [] := by
  refine List.filterMap_eq_nil_iff.mpr fun effect heffect => ?_
  cases effect with
  | created id' entry => rfl
  | saved id' change =>
      refine if_neg ?_
      rintro rfl
      exact h change heffect

theorem catalogChanges_saved {id' : ItemId} {change : CatalogChange} :
    catalogChanges id [.saved id' change] = if id' = id then [change] else [] := by
  unfold catalogChanges
  rw [List.filterMap_cons]
  by_cases heq : id' = id <;> simp [heq]

/-- No change makes an inactive item active. -/
theorem apply_inactive {change : CatalogChange} {entry : Catalog}
    (h : entry.status = .inactive) : (change.apply entry).status = .inactive := by
  cases change with
  | update name description unitPrice => exact h
  | deactivate => rfl
  | keep => exact h

theorem replayed_kept (hinv : CatalogReplayed db log)
    (hcatalog : ∀ id, db'.catalogOf id = db.catalogOf id)
    (hnext : db.nextId ≤ db'.nextId) : CatalogReplayed db' log := by
  constructor
  · intro id entry hentry
    rw [hcatalog] at hentry
    exact Nat.lt_of_lt_of_le (hinv.below id entry hentry) hnext
  · intro id entry hcreated
    rw [hcatalog]
    exact hinv.replayed id entry hcreated
  · intro id change hsaved
    rw [hcatalog]
    exact hinv.stored id change hsaved
  · intro id hsaved
    rw [hcatalog]
    exact hinv.inactive id hsaved

/-- The save of a new item starts its history. -/
theorem replayed_created (hinv : CatalogReplayed db log)
    (hsave : db.save item = .ok db') (hnext : db'.nextId = db.nextId)
    (hbelow : item.id < db.nextId) (hnew : db.catalogOf item.id = none) :
    CatalogReplayed db' (log ++ [.created item.id item.catalog]) := by
  have hold : ∀ {id entry}, db.catalogOf id = some entry → item.id ≠ id := by
    rintro id entry hentry rfl
    rw [hnew] at hentry
    cases hentry
  have hnone : ∀ id, catalogChanges id
      [CatalogEffect.created item.id item.catalog] = [] :=
    fun id => catalogChanges_eq_nil (by simp)
  constructor
  · intro id entry hentry
    rw [hnext]
    rw [catalogOf_save hsave] at hentry
    split at hentry
    · rename_i heq
      exact heq ▸ hbelow
    · exact hinv.below id entry hentry
  · intro id entry hmem
    rw [catalogChanges_append, hnone, List.append_nil, catalogOf_save hsave]
    rcases List.mem_append.mp hmem with hlog | hlast
    · have hstored := hinv.replayed id entry hlog
      rw [if_neg (hold hstored)]
      exact hstored
    · cases List.mem_singleton.mp hlast
      rw [if_pos rfl, catalogChanges_eq_nil]
      · rfl
      · intro change hsaved
        obtain ⟨entry, hentry⟩ := hinv.stored _ change hsaved
        exact hold hentry rfl
  · intro id change hmem
    obtain ⟨entry, hentry⟩ := hinv.stored id change (by simpa using hmem)
    rw [catalogOf_save hsave, if_neg (hold hentry)]
    exact ⟨entry, hentry⟩
  · intro id hmem
    have hlog : CatalogEffect.saved id .deactivate ∈ log := by simpa using hmem
    obtain ⟨entry, hentry⟩ := hinv.stored id _ hlog
    rw [catalogOf_save hsave, if_neg (hold hentry)]
    exact hinv.inactive id hlog

/-- The save of a changed entry, over the entry it was read as, continues it. -/
theorem replayed_saved (hinv : CatalogReplayed db log)
    (hsave : db.save item = .ok db') (hnext : db'.nextId = db.nextId)
    {entry : Catalog} {change : CatalogChange}
    (hstored : db.catalogOf item.id = some entry)
    (hchange : item.catalog = change.apply entry) :
    CatalogReplayed db' (log ++ [.saved item.id change]) := by
  constructor
  · intro id current hcurrent
    rw [hnext]
    rw [catalogOf_save hsave] at hcurrent
    split at hcurrent
    · rename_i heq
      exact heq ▸ hinv.below item.id entry hstored
    · exact hinv.below id current hcurrent
  · intro id first hmem
    have hlog := hinv.replayed id first (by simpa using hmem)
    rw [catalogChanges_append, catalogChanges_saved, catalogOf_save hsave]
    by_cases heq : item.id = id
    · subst heq
      rw [hstored, Option.some.injEq] at hlog
      rw [if_pos rfl, if_pos rfl, hchange, hlog, replayCatalog, replayCatalog,
        List.foldl_append]
      rfl
    · rw [if_neg heq, if_neg heq, List.append_nil]
      exact hlog
  · intro id other hmem
    rw [catalogOf_save hsave]
    split
    · exact ⟨item.catalog, rfl⟩
    · rename_i hne
      refine hinv.stored id other ?_
      simpa [Ne.symm hne] using hmem
  · intro id hmem current hcurrent
    rw [catalogOf_save hsave] at hcurrent
    split at hcurrent
    · rename_i heq
      subst heq
      rw [← Option.some.inj hcurrent, hchange]
      rcases List.mem_append.mp hmem with hlog | hlast
      · exact apply_inactive (hinv.inactive item.id hlog entry hstored)
      · cases List.mem_singleton.mp hlast
        rfl
    · rename_i hne
      refine hinv.inactive id ?_ current hcurrent
      simpa [Ne.symm hne] using hmem

theorem replayed_step (hknown : request.Known db)
    (hallowed : savesAsRead db request input = true) (hinv : CatalogReplayed db log)
    {next : StockPlace} (h : CatalogMove db request.place input db' next) :
    CatalogReplayed db' (log ++ catalogEffects db request input) := by
  obtain ⟨place, asked, read⟩ := request
  cases h with
  | created sku name description kind unitPriceCents now unitPrice =>
      rw [catalogEffects, List.append_nil]
      · exact replayed_kept hinv (fun _ => rfl) (Nat.le_succ _)
      · exact nofun
  | loaded _ nextId hle item entry hread hchange heffect =>
      rw [catalogEffects, List.append_nil]
      · exact replayed_kept hinv (fun _ => rfl) hle
      · exact nofun
  | saved now _ item hsave =>
      have heffects : catalogEffects db ⟨.saving item, asked, read⟩ (.proceed now) =
          [savedEffect asked item] := by
        simp only [catalogEffects, hsave]
      have hnext : db'.nextId = db.nextId := by
        obtain ⟨row, -, -, -, -, rfl⟩ := save_ok hsave
        rfl
      have hread : db.catalogOf item.id = read.catalogOf item.id := by
        simp only [savesAsRead, hsave] at hallowed
        exact of_decide_eq_true hallowed
      obtain ⟨hbelow, hcarried⟩ := hknown item rfl
      rw [heffects]
      rcases hcarried with ⟨entry, change, hentry, hchange, heffect⟩ | ⟨hnone, heffect⟩
      · rw [show savedEffect asked item = _ from heffect]
        exact replayed_saved hinv hsave hnext (hread.trans hentry) hchange
      · rw [show savedEffect asked item = _ from heffect]
        exact replayed_created hinv hsave hnext hbelow (hread.trans hnone)
  | kept _ _ _ _ hcatalog hnext hquiet hplace =>
      rw [hquiet, List.append_nil]
      exact replayed_kept hinv hcatalog hnext

theorem nextId_step {place next : StockPlace}
    (h : CatalogMove db place input db' next) : db.nextId ≤ db'.nextId := by
  cases h with
  | created => exact Nat.le_succ _
  | loaded _ _ hle => exact hle
  | saved _ _ item hsave =>
      obtain ⟨row, -, -, -, -, rfl⟩ := save_ok hsave
      exact Nat.le_refl _
  | kept _ _ _ _ _ hnext => exact hnext

theorem known_of_move (hinv : CatalogReplayed db log) {next : StockPlace}
    (h : CatalogMove db request.place input db' next) :
    StockRequest.Known db' (if request.place.isIdle then ⟨next, input, db⟩
      else { request with place := next }) := by
  obtain ⟨place, asked, read⟩ := request
  cases h with
  | created sku name description kind unitPriceCents now unitPrice =>
      intro item hitem
      cases hitem
      refine ⟨Nat.lt_succ_self _, Or.inr ⟨?_, rfl⟩⟩
      cases hentry : db.catalogOf db.nextId with
      | none => exact hentry
      | some entry => exact absurd (hinv.below _ entry hentry) (Nat.lt_irrefl _)
  | loaded _ nextId hle item entry hread hchange heffect =>
      intro other hother
      cases hother
      exact ⟨Nat.lt_of_lt_of_le (hinv.below _ entry hread) hle,
        Or.inl ⟨entry, _, hread, hchange, heffect⟩⟩
  | saved => exact nofun
  | kept _ _ _ _ _ _ _ hplace =>
      intro item hitem
      split at hitem
      · exact absurd hitem (hplace item)
      · exact absurd hitem (hplace item)

theorem catalogReplayed_of_reaches
    (h : ReachesBy catalogExec
      (fun db request input => savesAsRead db request input = true) emptyCatalog config
      log) :
    CatalogReplayed config.store log := by
  have hinv : CatalogReplayed config.store log ∧
      ∀ pid, (config.places pid).Known config.store := by
    refine ReachesBy.invariant_of_places (G := CatalogReplayed)
      (L := fun db _ request => request.Known db) ?_ ?_ ?_ ?_ h
    · constructor
      all_goals simp [emptyCatalog, InventoryDb.catalogOf]
    · exact fun _ _ hitem => by cases hitem
    · intro config log pid input out before hinv hknown hallowed hexec
      obtain ⟨units, hplain⟩ := plainStock_reaches before
      obtain ⟨plain, hstep, rfl⟩ := catalogExec_eq_some.mp hexec
      have hmove := catalogMove_of_exec (ledgerShape_of_reaches hplain).1.items hstep
      exact ⟨replayed_step (hknown pid) hallowed hinv hmove, known_of_move hinv hmove⟩
    · intro config log pid input out before hinv hknown hallowed hexec other _ item hitem
      obtain ⟨units, hplain⟩ := plainStock_reaches before
      obtain ⟨plain, hstep, rfl⟩ := catalogExec_eq_some.mp hexec
      have hmove := catalogMove_of_exec (ledgerShape_of_reaches hplain).1.items hstep
      obtain ⟨hbelow, hcarried⟩ := hknown other item hitem
      exact ⟨Nat.lt_of_lt_of_le hbelow (nextId_step hmove), hcarried⟩
  exact hinv.1

/-- No change of the catalog is lost in a run whose copies are saved over the
entry they were loaded with. -/
theorem catalog_kept
    (h : ReachesBy catalogExec
      (fun db request input => savesAsRead db request input = true) emptyCatalog config
      log) :
    CatalogKept config.store log := by
  have hinv := catalogReplayed_of_reaches h
  constructor
  · intro id entry hcreated
    exact ⟨catalogChanges id log, List.Perm.refl _, hinv.replayed id entry hcreated⟩
  · intro id hsaved
    obtain ⟨entry, hentry⟩ := hinv.stored id _ hsaved
    exact ⟨entry, hentry, hinv.inactive id hsaved entry hentry⟩

end Replays

namespace CatalogWitness

/-- Item 0 is created. -/
def created : List (Nat × StockInput) :=
  [(0, .create "OIL-1" "Oil filter" none .part 1000 1), (0, .proceed 1)]

/-- A new price is saved, then units come in, then the item is deactivated. -/
def oneAfterAnother : Config InventoryDb StockRequest × List CatalogEffect :=
  endOfRun catalogExec emptyCatalog
    (created ++ [(1, .update 0 none none (some 1200) 2), (1, .proceed 2),
      (2, .replenish 0 9 900 7 none 3), (2, .proceed 3), (1, .deactivate 0 [] 4),
      (1, .proceed 4)])
    (by decide +kernel)

theorem catalog_kept_oneAfterAnother :
    CatalogKept oneAfterAnother.1.store oneAfterAnother.2 :=
  catalog_kept (reachesBy_endOfRun savesAsRead id (by decide +kernel) _)

/-- The replenishment loads the item before the deactivation saves, and saves
after it: the item is active again. -/
def reactivated : Config InventoryDb StockRequest × List CatalogEffect :=
  endOfRun catalogExec emptyCatalog
    (created ++ [(2, .replenish 0 9 900 7 none 2), (1, .deactivate 0 [] 3),
      (1, .proceed 3), (2, .proceed 4)])
    (by decide +kernel)

theorem reaches_reactivated :
    Reaches catalogExec emptyCatalog reactivated.1 reactivated.2 :=
  reaches_endOfRun _

theorem catalog_not_always_kept :
    ¬ ∀ config log, Reaches catalogExec emptyCatalog config log →
      CatalogKept config.store log := by
  intro hall
  have hkept := hall reactivated.1 reactivated.2 reaches_reactivated
  have hsaved : .saved 0 .deactivate ∈ reactivated.2 := by decide +kernel
  have hactive : (reactivated.1.store.catalogOf 0).map Catalog.status =
      some .active := by decide +kernel
  obtain ⟨entry, hentry, hinactive⟩ := hkept.inactive 0 hsaved
  rw [hentry, Option.map_some, hinactive] at hactive
  cases hactive

end CatalogWitness

end Inventory

end Workshop
