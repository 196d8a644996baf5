/-
Saves of whole rows into a table with a partial unique index.  A save reads the
row it is about to write, compares the two column by column and writes the
columns that differ; the others keep what was written to them in between.
-/
import Workshop.Library.Interleaving
import Workshop.Library.Upserts

namespace Workshop

universe u v w

/-- A column after an update that writes it only where it differs from what was read. -/
def mergeColumn {α : Type u} [DecidableEq α] (read written current : α) : α :=
  if written = read then current else written

section Columns

variable {α : Type u} [DecidableEq α] {read written current : α}

theorem mergeColumn_cases (read written current : α) :
    mergeColumn read written current = current ∨
      mergeColumn read written current = written := by
  unfold mergeColumn
  split
  · exact Or.inl rfl
  · exact Or.inr rfl

/-- Where nothing was written in between, the column is the written one. -/
theorem mergeColumn_self (read written : α) : mergeColumn read written read = written := by
  unfold mergeColumn
  split
  · rename_i hsame
    exact hsame.symm
  · rfl

theorem mergeColumn_of_eq (hsame : written = current) :
    mergeColumn read written current = current := by
  rcases mergeColumn_cases read written current with hmerge | hmerge
  · exact hmerge
  · exact hmerge.trans hsame

theorem mergeColumn_holds {p : α → Prop} (hwritten : p written) (hcurrent : p current) :
    p (mergeColumn read written current) := by
  rcases mergeColumn_cases read written current with hmerge | hmerge
  · rwa [hmerge]
  · rwa [hmerge]

end Columns

/-- A table: the key of its rows, the entry its partial unique index has for a row, the
rows its columns can hold, and the row that an update leaves which writes the columns
in which a written row differs from a read one. -/
structure TableSpec (R : Type u) (K : Type v) (E : Type w) where
  key : R → K
  entry : R → Option E
  fits : R → Bool
  merge : (read written current : R) → R
  merge_key : ∀ {read written current}, key read = key written →
    key current = key written → key (merge read written current) = key written
  merge_self : ∀ read written, merge read written read = written

inductive RowError
  /-- A column cannot hold its value. -/
  | unfit
  | keyTaken
  | entryTaken
deriving DecidableEq, Repr

namespace TableSpec

variable {R : Type u} {K : Type v} {E : Type w} [DecidableEq K]

section Statements

variable (spec : TableSpec R K E)

def findRow (rows : List R) (key : K) : Option R :=
  rows.find? fun other => spec.key other = key

variable [DecidableEq E]

/-- Whether another row has the index entry of this one. -/
def isEntryTaken (rows : List R) (row : R) : Bool :=
  rows.any fun other => spec.key other ≠ spec.key row && (spec.entry row).isSome &&
    spec.entry other = spec.entry row

/-- `INSERT` -/
def insertRow (rows : List R) (row : R) : Except RowError (List R) :=
  if spec.fits row = false then .error .unfit
  else if rows.any fun other => spec.key other = spec.key row then .error .keyTaken
  else if spec.isEntryTaken rows row then .error .entryTaken
  else .ok (rows ++ [row])

/-- `UPDATE` of the columns in which the written row differs from the read one. -/
def updateRow (rows : List R) (read written : R) : Except RowError (List R) :=
  match spec.findRow rows (spec.key written) with
  | none => .ok rows
  | some current =>
      if spec.fits (spec.merge read written current) = false then .error .unfit
      else if spec.isEntryTaken rows (spec.merge read written current) then
        .error .entryTaken
      else .ok (upsert spec.key (spec.merge read written current) rows)

end Statements

end TableSpec

/-- Where a save stands: before it asks whether the row is there, before it inserts or
reads the row, before it updates the row it read. -/
inductive SavePlace (R : Type u)
  | finding (row : R)
  | storing (row : R) (found : Bool)
  | merging (row read : R)
deriving DecidableEq

/-- What a statement of a save comes to. -/
inductive SaveStep (R : Type u)
  | next (place : SavePlace R)
  | saved (row : R) (rows : List R)
  | failed (row : R) (error : RowError)

namespace SavePlace

variable {R : Type u}

/-- The row to write, and the row read to compare it with. -/
def copies : SavePlace R → List R
  | .finding row => [row]
  | .storing row _ => [row]
  | .merging row read => [row, read]

end SavePlace

namespace SaveStep

variable {R : Type u}

/-- The rows after the statement, from those before it. -/
def rowsAfter (rows : List R) : SaveStep R → List R
  | .saved _ rows' => rows'
  | _ => rows

def copies : SaveStep R → List R
  | .next place => place.copies
  | _ => []

/-- The end of a statement that writes the row or fails. -/
def ofResult (row : R) : Except RowError (List R) → SaveStep R
  | .ok rows => .saved row rows
  | .error error => .failed row error

end SaveStep

namespace TableSpec

variable {R : Type u} {K : Type v} {E : Type w} [DecidableEq K]

/-- The row a save read has the key of the row it writes. -/
def Reads (spec : TableSpec R K E) : SavePlace R → Prop
  | .merging row read => spec.key read = spec.key row
  | _ => True

/-- What a save found out about the key of the row it writes. -/
def Knows (spec : TableSpec R K E) (rows : List R) : SavePlace R → Prop
  | .finding _ => True
  | .storing row found => found = true ↔ spec.key row ∈ rows.map spec.key
  | .merging row _ => spec.key row ∈ rows.map spec.key

variable [DecidableEq E]

/-- One statement of a save. -/
def saveStep (spec : TableSpec R K E) (rows : List R) : SavePlace R → SaveStep R
  | .finding row =>
      .next (.storing row (rows.any fun other => spec.key other = spec.key row))
  | .storing row false => .ofResult row (spec.insertRow rows row)
  | .storing row true =>
      match spec.findRow rows (spec.key row) with
      | none => .ofResult row (spec.insertRow rows row)
      | some read => .next (.merging row read)
  | .merging row read => .ofResult row (spec.updateRow rows read row)

/-- The keys of the rows are unique, and so are the entries the index has for them. -/
structure Unique (spec : TableSpec R K E) (rows : List R) : Prop where
  keys : (rows.map spec.key).Nodup
  entries : (rows.filterMap spec.entry).Nodup

/-- What a statement of a save can do. -/
inductive SaveMove (spec : TableSpec R K E) (rows : List R) :
    SavePlace R → SaveStep R → Prop
  | find (row : R) (found : Bool) (hfound : found = true ↔ spec.key row ∈ rows.map spec.key) :
      SaveMove spec rows (.finding row) (.next (.storing row found))
  | read (row read : R) (found : Bool) (hread : read ∈ rows)
      (hkey : spec.key read = spec.key row) :
      SaveMove spec rows (.storing row found) (.next (.merging row read))
  | insert (row : R) (found : Bool) (hfits : spec.fits row = true)
      (hnew : spec.key row ∉ rows.map spec.key)
      (hfree : spec.isEntryTaken rows row = false) :
      SaveMove spec rows (.storing row found) (.saved row (rows ++ [row]))
  | update (row read current : R) (hcurrent : current ∈ rows)
      (hkey : spec.key current = spec.key row)
      (hfits : spec.fits (spec.merge read row current) = true)
      (hfree : spec.isEntryTaken rows (spec.merge read row current) = false) :
      SaveMove spec rows (.merging row read)
        (.saved row (upsert spec.key (spec.merge read row current) rows))
  | gone (row read : R) (hgone : spec.key row ∉ rows.map spec.key) :
      SaveMove spec rows (.merging row read) (.saved row rows)
  | unfit (place : SavePlace R) (row : R) (hrow : row ∈ place.copies) :
      SaveMove spec rows place (.failed row .unfit)
  | keyTaken (row : R) (found : Bool) (htaken : spec.key row ∈ rows.map spec.key)
      (hunseen : found = false) :
      SaveMove spec rows (.storing row found) (.failed row .keyTaken)
  | insertTaken (row : R) (found : Bool) (htaken : spec.isEntryTaken rows row = true) :
      SaveMove spec rows (.storing row found) (.failed row .entryTaken)
  | updateTaken (row read current : R) (hcurrent : current ∈ rows)
      (hkey : spec.key current = spec.key row)
      (htaken : spec.isEntryTaken rows (spec.merge read row current) = true) :
      SaveMove spec rows (.merging row read) (.failed row .entryTaken)

section Lookups

variable {R : Type u} {K : Type v} {E : Type w} [DecidableEq K]
variable {spec : TableSpec R K E} {rows : List R} {row other : R}

theorem findRow_eq_some (h : spec.findRow rows (spec.key row) = some other) :
    other ∈ rows ∧ spec.key other = spec.key row :=
  ⟨List.mem_of_find?_eq_some h, by simpa using List.find?_some h⟩

theorem findRow_eq_none :
    spec.findRow rows (spec.key row) = none ↔ spec.key row ∉ rows.map spec.key := by
  simp [findRow, List.find?_eq_none, List.mem_map]

theorem any_key_iff :
    (rows.any fun other => spec.key other = spec.key row) = true ↔
      spec.key row ∈ rows.map spec.key := by
  simp [List.any_eq_true, List.mem_map]

end Lookups

section Moves

variable {R : Type u} {K : Type v} {E : Type w} [DecidableEq K] [DecidableEq E]
variable {spec : TableSpec R K E} {rows : List R} {row read : R}

/-- The index has the entry of the row under another key. -/
theorem isEntryTaken_iff : spec.isEntryTaken rows row = true ↔
    ∃ other ∈ rows, spec.key other ≠ spec.key row ∧ (spec.entry row).isSome ∧
      spec.entry other = spec.entry row := by
  simp [isEntryTaken, List.any_eq_true, and_assoc]

theorem saveMove_of_insert {found : Bool} (hunseen : spec.key row ∈ rows.map spec.key →
      found = false) :
    SaveMove spec rows (.storing row found) (.ofResult row (spec.insertRow rows row)) := by
  unfold insertRow
  split
  · exact SaveMove.unfit _ _ (List.mem_singleton_self row)
  · rename_i hfits
    split
    · rename_i htaken
      have hkey := any_key_iff.mp htaken
      exact SaveMove.keyTaken row found hkey (hunseen hkey)
    · rename_i hnew
      split
      · rename_i htaken
        exact SaveMove.insertTaken row found htaken
      · rename_i hfree
        exact SaveMove.insert row found (eq_true_of_ne_false hfits)
          (fun hkey => hnew (any_key_iff.mpr hkey)) (Bool.eq_false_iff.mpr hfree)

theorem saveMove_of_update :
    SaveMove spec rows (.merging row read) (.ofResult row (spec.updateRow rows read row)) := by
  unfold updateRow
  cases hfind : spec.findRow rows (spec.key row) with
  | none => exact SaveMove.gone row read (findRow_eq_none.mp hfind)
  | some current =>
      obtain ⟨hmem, hkey⟩ := findRow_eq_some hfind
      dsimp only
      split
      · exact SaveMove.unfit _ _ List.mem_cons_self
      · rename_i hfits
        split
        · rename_i htaken
          exact SaveMove.updateTaken row read current hmem hkey htaken
        · rename_i hfree
          exact SaveMove.update row read current hmem hkey
            (eq_true_of_ne_false hfits) (Bool.eq_false_iff.mpr hfree)

/-- Every statement of a save is one of these moves. -/
theorem saveMove (spec : TableSpec R K E) (rows : List R) (place : SavePlace R) :
    SaveMove spec rows place (spec.saveStep rows place) := by
  cases place with
  | finding row => exact SaveMove.find row _ any_key_iff
  | storing row found =>
      cases found with
      | false => exact saveMove_of_insert fun _ => rfl
      | true =>
          rw [saveStep]
          cases hfind : spec.findRow rows (spec.key row) with
          | none => exact saveMove_of_insert fun hkey => absurd hkey (findRow_eq_none.mp hfind)
          | some read =>
              obtain ⟨hmem, hkey⟩ := findRow_eq_some hfind
              exact SaveMove.read row read true hmem hkey
  | merging row read => exact saveMove_of_update

end Moves

/-- Rows with unique keys have unique entries when no two keys share one. -/
theorem entries_nodup_iff {R : Type u} {K : Type v} {E : Type w} {spec : TableSpec R K E} {rows : List R}
    (hkeys : (rows.map spec.key).Nodup) : (rows.filterMap spec.entry).Nodup ↔
      ∀ left ∈ rows, ∀ right ∈ rows, ∀ entry, spec.entry left = some entry →
        spec.entry right = some entry → spec.key left = spec.key right := by
  induction rows with
  | nil => simp
  | cons row rows ih =>
      rw [List.map_cons, List.nodup_cons] at hkeys
      have hrest := ih hkeys.2
      have hrow : ∀ other ∈ rows, spec.key other ≠ spec.key row := fun other hother hkey =>
        hkeys.1 (List.mem_map.mpr ⟨other, hother, hkey⟩)
      constructor
      · intro hnodup left hleft right hright entry hentry hentry'
        have hapart : ∀ other ∈ rows, spec.entry row = some entry →
            spec.entry other ≠ some entry := by
          intro other hother hself hsame
          rw [List.filterMap_cons_some hself, List.nodup_cons] at hnodup
          exact hnodup.1 (List.mem_filterMap.mpr ⟨other, hother, hsame⟩)
        rcases List.mem_cons.mp hleft with rfl | hold <;>
          rcases List.mem_cons.mp hright with rfl | hold'
        · rfl
        · exact absurd hentry' (hapart right hold' hentry)
        · exact absurd hentry (hapart left hold hentry')
        · refine hrest.mp ?_ left hold right hold' entry hentry hentry'
          cases hcase : spec.entry row with
          | none => rwa [List.filterMap_cons_none hcase] at hnodup
          | some other =>
              rw [List.filterMap_cons_some hcase] at hnodup
              exact (List.nodup_cons.mp hnodup).2
      · intro hsame
        have hnodup := hrest.mpr fun left hleft right hright =>
          hsame left (List.mem_cons_of_mem _ hleft) right (List.mem_cons_of_mem _ hright)
        cases hcase : spec.entry row with
        | none => rwa [List.filterMap_cons_none hcase]
        | some entry =>
            rw [List.filterMap_cons_some hcase, List.nodup_cons]
            refine ⟨fun hmem => ?_, hnodup⟩
            obtain ⟨other, hother, hentry⟩ := List.mem_filterMap.mp hmem
            exact hrow other hother (hsame other (List.mem_cons_of_mem _ hother) row
              List.mem_cons_self entry hentry hcase)

/-- What a save knows of its key stays true unless another save brings the key. -/
theorem Knows.mono {R : Type u} {K : Type v} {E : Type w} {spec : TableSpec R K E}
    {rows rows' : List R} {place : SavePlace R} (hknows : spec.Knows rows place)
    (hgrows : ∀ key ∈ rows.map spec.key, key ∈ rows'.map spec.key)
    (hnew : ∀ copy ∈ place.copies, spec.key copy ∈ rows'.map spec.key →
      spec.key copy ∈ rows.map spec.key) : spec.Knows rows' place := by
  cases place with
  | finding row => trivial
  | storing row found =>
      exact hknows.trans ⟨hgrows _, hnew row (List.mem_singleton_self row)⟩
  | merging row read => exact hgrows _ hknows

section Kept

variable {R : Type u} {K : Type v} {E : Type w} [DecidableEq K] [DecidableEq E]
variable {spec : TableSpec R K E} {rows : List R} {row : R} {place : SavePlace R}
variable {step : SaveStep R}

theorem unique_upsert (h : spec.Unique rows)
    (hfree : spec.isEntryTaken rows row = false) :
    spec.Unique (upsert spec.key row rows) := by
  have hkeys : ((upsert spec.key row rows).map spec.key).Nodup := nodup_upsert h.keys
  have hentries := (entries_nodup_iff h.keys).mp h.entries
  have hapart : ∀ other ∈ rows, spec.key other ≠ spec.key row → ∀ entry,
      spec.entry row = some entry → spec.entry other ≠ some entry := by
    intro other hother hne entry hentry hsame
    have htaken : spec.isEntryTaken rows row = true :=
      isEntryTaken_iff.mpr ⟨other, hother, hne, Option.isSome_of_eq_some hentry,
        hsame.trans hentry.symm⟩
    rw [hfree] at htaken
    cases htaken
  refine ⟨hkeys, (entries_nodup_iff hkeys).mpr ?_⟩
  intro left hleft right hright entry hentry hentry'
  rcases mem_upsert.mp hleft with rfl | ⟨hold, hne⟩ <;>
    rcases mem_upsert.mp hright with rfl | ⟨hold', hne'⟩
  · rfl
  · exact absurd hentry' (hapart right hold' hne' entry hentry)
  · exact absurd hentry (hapart left hold hne entry hentry')
  · exact hentries left hold right hold' entry hentry hentry'

/-- A statement of a save keeps keys and entries unique. -/
theorem SaveMove.unique (h : SaveMove spec rows place step) (hunique : spec.Unique rows) :
    spec.Unique (step.rowsAfter rows) := by
  cases h with
  | insert row found hfits hnew hfree =>
      have hsame : rows ++ [row] = upsert spec.key row rows :=
        (upsert_of_not_mem hnew).symm
      change spec.Unique (rows ++ [row])
      rw [hsame]
      exact unique_upsert hunique hfree
  | update row read current hcurrent hkey hfits hfree => exact unique_upsert hunique hfree
  | _ => exact hunique

/-- What holds of the rows and of the copies a save has holds after its statement, if it
passes to a row with columns of either. -/
theorem SaveMove.holds {P : R → Prop} (h : SaveMove spec rows place step)
    (hmerge : ∀ {read written current}, P read → P written → P current →
      spec.key read = spec.key written → spec.key current = spec.key written →
        P (spec.merge read written current))
    (hread : spec.Reads place)
    (hrows : ∀ row ∈ rows, P row) (hplace : ∀ row ∈ place.copies, P row) :
    (∀ row ∈ step.rowsAfter rows, P row) ∧ ∀ row ∈ step.copies, P row := by
  cases h with
  | find row found hfound => exact ⟨hrows, hplace⟩
  | read row read found hmem hkey =>
      refine ⟨hrows, fun copy hcopy => ?_⟩
      rcases List.mem_cons.mp hcopy with rfl | hcopy
      · exact hplace _ (List.mem_singleton_self _)
      · rw [List.mem_singleton.mp hcopy]
        exact hrows read hmem
  | insert row found hfits hnew hfree =>
      refine ⟨fun other hother => ?_, fun _ hmem => absurd hmem List.not_mem_nil⟩
      rcases List.mem_append.mp hother with hother | hother
      · exact hrows other hother
      · rw [List.mem_singleton.mp hother]
        exact hplace row (List.mem_singleton_self _)
  | update row read current hcurrent hkey hfits hfree =>
      refine ⟨fun other hother => ?_, fun _ hmem => absurd hmem List.not_mem_nil⟩
      rcases mem_upsert.mp hother with rfl | ⟨hother, -⟩
      · exact hmerge (hplace read (by simp [SavePlace.copies]))
          (hplace row (by simp [SavePlace.copies])) (hrows current hcurrent)
          hread hkey
      · exact hrows other hother
  | _ => exact ⟨hrows, fun _ hmem => absurd hmem List.not_mem_nil⟩

/-- The row a save reads has the key of the row to write. -/
theorem SaveMove.reads {next : SavePlace R} (h : SaveMove spec rows place (.next next)) :
    spec.Reads next := by
  cases h with
  | find row found hfound => trivial
  | read row read found hmem hkey => exact hkey

theorem SaveMove.knows {next : SavePlace R} (h : SaveMove spec rows place (.next next)) :
    spec.Knows rows next := by
  cases h with
  | find row found hfound => exact hfound
  | read row read found hmem hkey => exact List.mem_map.mpr ⟨read, hmem, hkey⟩

/-- A save that knows whether its key is there violates no key. -/
theorem SaveMove.error_ne_keyTaken {error : RowError} (hknows : spec.Knows rows place)
    (h : SaveMove spec rows place (.failed row error)) : error ≠ .keyTaken := by
  rintro rfl
  cases h with
  | keyTaken other found htaken hunseen =>
      subst hunseen
      cases hknows.mpr htaken

/-- The keys after a statement of a save are those before it and those of its copies. -/
theorem SaveMove.keys (h : SaveMove spec rows place step) (hread : spec.Reads place)
    {key : K} (hkey : key ∈ (step.rowsAfter rows).map spec.key) :
    key ∈ rows.map spec.key ∨ ∃ copy ∈ place.copies, spec.key copy = key := by
  obtain ⟨row, hrow, rfl⟩ := List.mem_map.mp hkey
  cases h with
  | insert other found hfits hnew hfree =>
      rcases List.mem_append.mp hrow with hrow | hrow
      · exact Or.inl (List.mem_map.mpr ⟨row, hrow, rfl⟩)
      · obtain rfl := List.mem_singleton.mp hrow
        exact Or.inr ⟨row, List.mem_singleton_self row, rfl⟩
  | update other read current hcurrent hsame hfits hfree =>
      rcases mem_upsert.mp hrow with rfl | ⟨hrow, -⟩
      · refine Or.inl (List.mem_map.mpr ⟨current, hcurrent, ?_⟩)
        exact hsame.trans (spec.merge_key hread hsame).symm
      · exact Or.inl (List.mem_map.mpr ⟨row, hrow, rfl⟩)
  | _ => exact Or.inl (List.mem_map.mpr ⟨row, hrow, rfl⟩)

/-- A save works on the rows it has and on rows of the table. -/
theorem SaveMove.copied (h : SaveMove spec rows place step) :
    ∀ copy ∈ step.copies, copy ∈ rows ∨ copy ∈ place.copies := by
  cases h with
  | find row found hfound => exact fun _ hcopy => Or.inr hcopy
  | read row read found hmem hkey =>
      intro copy hcopy
      rcases List.mem_cons.mp hcopy with rfl | hcopy
      · exact Or.inr (List.mem_singleton_self _)
      · rw [List.mem_singleton.mp hcopy]
        exact Or.inl hmem
  | _ => exact fun _ hcopy => absurd hcopy List.not_mem_nil

/-- No statement of a save takes the row of a key away. -/
theorem SaveMove.keeps (h : SaveMove spec rows place step) (hrow : row ∈ rows) :
    ∃ row' ∈ step.rowsAfter rows, spec.key row' = spec.key row := by
  cases h with
  | insert other found hfits hnew hfree =>
      exact ⟨row, List.mem_append_left _ hrow, rfl⟩
  | update other read current hcurrent hkey hfits hfree =>
      by_cases hsame : spec.key row = spec.key (spec.merge read other current)
      · exact ⟨_, mem_upsert.mpr (Or.inl rfl), hsame.symm⟩
      · exact ⟨row, mem_upsert.mpr (Or.inr ⟨hrow, hsame⟩), rfl⟩
  | _ => exact ⟨row, hrow, rfl⟩

end Kept

end TableSpec

/-- A table with the generator of its keys: no key from `nextId` on was handed out. -/
structure RowStore (R : Type u) where
  rows : List R := []
  nextId : Nat := 0

/-- Where the requests of a module stand during a save, and what they tell of its end. -/
structure SaveEnds (R : Type u) (P : Type v) (E : Type w) where
  saving : SavePlace R → P
  idle : P
  saved : R → E
  failed : RowError → E

/-- A request after one more statement of its save. -/
def RowStore.afterSave {R : Type u} {P : Type v} {E : Type w} (ends : SaveEnds R P E)
    (store : RowStore R) : SaveStep R → Outcome (RowStore R) P E
  | .next place => { store := store, place := ends.saving place }
  | .saved row rows =>
      { store := { store with rows := rows }
        place := ends.idle
        effects := [ends.saved row] }
  | .failed _ error =>
      { store := store, place := ends.idle, effects := [ends.failed error] }

/-- The rows as requests first made them. -/
def draftsOf {R : Type u} {E : Type w} (draft : E → Option R) (log : List E) : List R :=
  log.filterMap draft

section Stores

variable {R : Type u} {P : Type v} {E : Type w} {ends : SaveEnds R P E}
variable {store : RowStore R} {step : SaveStep R} {draft : E → Option R} {made : R → E}
variable {log more : List E} {row : R}

theorem afterSave_rows : (store.afterSave ends step).store.rows = step.rowsAfter store.rows := by
  cases step <;> rfl

theorem afterSave_nextId : (store.afterSave ends step).store.nextId = store.nextId := by
  cases step <;> rfl

/-- A request works on the copies its save has. -/
theorem afterSave_copies (copies : P → List R) (hidle : copies ends.idle = [])
    (hsaving : ∀ place, copies (ends.saving place) = place.copies) :
    copies (store.afterSave ends step).place = step.copies := by
  cases step with
  | next place => exact hsaving place
  | saved row rows => exact hidle
  | failed row error => exact hidle

/-- A save makes no row anew. -/
theorem afterSave_drafts (hsaved : ∀ row, draft (ends.saved row) = none)
    (hfailed : ∀ error, draft (ends.failed error) = none) :
    draftsOf draft (store.afterSave ends step).effects = [] := by
  cases step with
  | next place => rfl
  | saved row rows => exact List.filterMap_cons_none (hsaved row)
  | failed row error => exact List.filterMap_cons_none (hfailed error)

theorem draftsOf_append :
    draftsOf draft (log ++ more) = draftsOf draft log ++ draftsOf draft more :=
  List.filterMap_append

theorem mem_draftsOf (hdraft : ∀ effect row, draft effect = some row ↔ effect = made row) :
    row ∈ draftsOf draft log ↔ made row ∈ log := by
  unfold draftsOf
  rw [List.mem_filterMap]
  constructor
  · rintro ⟨effect, heffect, hsome⟩
    exact (hdraft effect row).mp hsome ▸ heffect
  · exact fun hmem => ⟨made row, hmem, (hdraft _ row).mpr rfl⟩

end Stores

section Origins

variable {R : Type u} {F : Type v} {fixed : R → F} {key : R → Nat}
variable {drafts more : List R} {row other : R} {next : Nat}

/-- A row has the columns that never change from one of the drafts. -/
def HasOrigin (fixed : R → F) (drafts : List R) (row : R) : Prop :=
  ∃ draft ∈ drafts, fixed draft = fixed row

/-- The drafts have keys of their own, all handed out already. -/
structure DraftsBelow (key : R → Nat) (drafts : List R) (next : Nat) : Prop where
  keys : (drafts.map key).Nodup
  below : ∀ draft ∈ drafts, key draft < next

theorem HasOrigin.append (h : HasOrigin fixed drafts row) :
    HasOrigin fixed (drafts ++ more) row := by
  obtain ⟨draft, hdraft, hsame⟩ := h
  exact ⟨draft, List.mem_append_left _ hdraft, hsame⟩

/-- Rows of one key have the columns that never change from one draft. -/
theorem HasOrigin.agree (hdrafts : DraftsBelow key drafts next)
    (hfixed : ∀ {left right}, fixed left = fixed right → key left = key right)
    (h : HasOrigin fixed drafts row) (hother : HasOrigin fixed drafts other)
    (hkey : key row = key other) : fixed row = fixed other := by
  obtain ⟨draft, hdraft, hsame⟩ := h
  obtain ⟨draft', hdraft', hsame'⟩ := hother
  obtain rfl := List.inj_on_of_nodup_map hdrafts.keys hdraft hdraft'
    ((hfixed hsame).trans (hkey.trans (hfixed hsame').symm))
  exact hsame.symm.trans hsame'

theorem HasOrigin.below (hdrafts : DraftsBelow key drafts next)
    (hfixed : ∀ {left right}, fixed left = fixed right → key left = key right)
    (h : HasOrigin fixed drafts row) : key row < next := by
  obtain ⟨draft, hdraft, hsame⟩ := h
  rw [← hfixed hsame]
  exact hdrafts.below draft hdraft

/-- A draft under the next key joins the others. -/
theorem DraftsBelow.concat (h : DraftsBelow key drafts next) (hkey : key row = next) :
    DraftsBelow key (drafts ++ [row]) (next + 1) := by
  constructor
  · rw [List.map_append, List.map_singleton, List.nodup_append]
    refine ⟨h.keys, List.nodup_singleton _, fun k hk k' hk' => ?_⟩
    obtain ⟨draft, hdraft, rfl⟩ := List.mem_map.mp hk
    rw [List.mem_singleton.mp hk', hkey]
    exact Nat.ne_of_lt (h.below draft hdraft)
  · intro draft hdraft
    rcases List.mem_append.mp hdraft with hdraft | hdraft
    · exact Nat.lt_succ_of_lt (h.below draft hdraft)
    · rw [List.mem_singleton.mp hdraft, hkey]
      exact Nat.lt_succ_self _

end Origins

end Workshop
