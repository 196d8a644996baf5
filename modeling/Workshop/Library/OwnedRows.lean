/-
The rows of one table that belong to one owner.  A save writes all rows of its
owner: a row the owner already has is rewritten where it stands, a new one goes
to the end, and one the owner no longer has may be dropped first.
-/
import Mathlib.Data.List.Perm.Basic
import Mathlib.Data.List.Perm.Lattice
import Mathlib.Data.List.Nodup

namespace Workshop

universe u v w z

variable {R : Type u} {K : Type v} {O : Type w} [DecidableEq K] [DecidableEq O]
variable (key : R → K) (owner : R → O)

/-- The rows of one owner, in the order of the table. -/
def rowsOf (self : O) (table : List R) : List R :=
  table.filter fun row => owner row = self

/-- Drops the rows of an owner that are not written again. -/
def dropRows (self : O) (written table : List R) : List R :=
  table.filter fun row =>
    !decide (owner row = self) || decide (key row ∈ written.map key)

/-- The row to write under the key of a row, or the row as it is. -/
def rewritten (written : List R) (row : R) : R :=
  (written.find? fun other => key other = key row).getD row

/-- Writes the rows of an owner. -/
def writeRows (self : O) (written table : List R) : List R :=
  (table.map fun row =>
      if owner row = self then rewritten key written row else row) ++
    written.filter fun row =>
      !decide (key row ∈ (rowsOf owner self table).map key)

section Reading

variable {key owner} {self other : O} {written table : List R} {row : R}

@[simp] theorem mem_rowsOf :
    row ∈ rowsOf owner self table ↔ row ∈ table ∧ owner row = self := by
  simp [rowsOf]

theorem rowsOf_append (table more : List R) :
    rowsOf owner self (table ++ more) =
      rowsOf owner self table ++ rowsOf owner self more := by
  simp [rowsOf]

variable (key) in
theorem rewritten_cases (written : List R) (row : R) :
    rewritten key written row = row ∨
      rewritten key written row ∈ written ∧
        key (rewritten key written row) = key row := by
  unfold rewritten
  cases hfind : written.find? fun other => key other = key row with
  | none => exact Or.inl rfl
  | some found =>
      have hkey : key found = key row := by
        simpa using List.find?_some hfind
      exact Or.inr ⟨List.mem_of_find?_eq_some hfind, hkey⟩

theorem key_rewritten (written : List R) (row : R) :
    key (rewritten key written row) = key row := by
  rcases rewritten_cases key written row with hsame | ⟨-, hkey⟩
  · rw [hsame]
  · exact hkey

/-- Keys tell rows apart, so the row found under a key is the row that has
it. -/
theorem rewritten_eq_of_mem (hkeys : (written.map key).Nodup)
    {found : R} (hfound : found ∈ written) (hkey : key found = key row) :
    rewritten key written row = found := by
  rcases hfind : written.find? fun other => key other = key row with
    _ | first
  · exact absurd hkey (by simpa using List.find?_eq_none.mp hfind found hfound)
  · have hfirst : key first = key row := by simpa using List.find?_some hfind
    have hsame := List.inj_on_of_nodup_map hkeys
      (List.mem_of_find?_eq_some hfind) hfound (hfirst.trans hkey.symm)
    simp [rewritten, hfind, hsame]

omit [DecidableEq O] in
theorem owner_rewritten (hwritten : ∀ row ∈ written, owner row = self)
    (howner : owner row = self) : owner (rewritten key written row) = self := by
  rcases rewritten_cases key written row with hsame | ⟨hmem, -⟩
  · rw [hsame, howner]
  · exact hwritten _ hmem

theorem rowsOf_map_rewritten_of_ne (hne : other ≠ self)
    (hwritten : ∀ row ∈ written, owner row = self) (table : List R) :
    rowsOf owner other (table.map fun row =>
        if owner row = self then rewritten key written row else row) =
      rowsOf owner other table := by
  induction table with
  | nil => rfl
  | cons row table ih =>
      simp only [rowsOf, List.map_cons, List.filter_cons] at ih ⊢
      by_cases hself : owner row = self
      · simp only [hself, if_true, owner_rewritten hwritten hself,
          decide_eq_true_eq, hne.symm, if_false]
        exact ih
      · simp only [hself, if_false]
        rw [ih]

/-- The rows of another owner stay as they are. -/
theorem rowsOf_writeRows_of_ne (hne : other ≠ self)
    (hwritten : ∀ row ∈ written, owner row = self) :
    rowsOf owner other (writeRows key owner self written table) =
      rowsOf owner other table := by
  have hnew : rowsOf owner other (written.filter fun row =>
      !decide (key row ∈ (rowsOf owner self table).map key)) = [] := by
    rw [rowsOf, List.filter_eq_nil_iff]
    intro row hrow howner
    have hself := hwritten row (List.mem_of_mem_filter hrow)
    exact hne ((of_decide_eq_true howner).symm.trans hself)
  rw [writeRows, rowsOf_append, hnew, List.append_nil,
    rowsOf_map_rewritten_of_ne hne hwritten]

theorem rowsOf_dropRows_of_ne (hne : other ≠ self) :
    rowsOf owner other (dropRows key owner self written table) =
      rowsOf owner other table := by
  rw [rowsOf, dropRows, List.filter_filter]
  refine List.filter_congr fun row _ => ?_
  by_cases howner : owner row = other
  · simp [howner, hne]
  · simp [howner]

theorem rowsOf_dropRows :
    rowsOf owner self (dropRows key owner self written table) =
      (rowsOf owner self table).filter fun row =>
        decide (key row ∈ written.map key) := by
  rw [rowsOf, dropRows, rowsOf, List.filter_filter, List.filter_filter]
  refine List.filter_congr fun row _ => ?_
  by_cases howner : owner row = self
  · simp [howner]
  · simp [howner]

theorem rowsOf_map_rewritten (hwritten : ∀ row ∈ written, owner row = self)
    (table : List R) :
    rowsOf owner self (table.map fun row =>
        if owner row = self then rewritten key written row else row) =
      (rowsOf owner self table).map (rewritten key written) := by
  induction table with
  | nil => rfl
  | cons row table ih =>
      simp only [rowsOf, List.map_cons, List.filter_cons] at ih ⊢
      by_cases hself : owner row = self
      · simp only [hself, if_true, owner_rewritten hwritten hself, decide_true,
          List.map_cons]
        rw [ih]
      · simp only [hself, if_false, decide_false, Bool.false_eq_true]
        exact ih

/-- After a save the rows of the owner are the rows it wrote, in some order,
when it wrote every row it already had. -/
theorem rowsOf_writeRows (hkeys : (written.map key).Nodup)
    (hwritten : ∀ row ∈ written, owner row = self)
    (htable : ((rowsOf owner self table).map key).Nodup)
    (hkept : ∀ row ∈ rowsOf owner self table, key row ∈ written.map key) :
    (rowsOf owner self (writeRows key owner self written table)).Perm written := by
  have hnew : rowsOf owner self (written.filter fun row =>
      !decide (key row ∈ (rowsOf owner self table).map key)) =
        written.filter fun row =>
          !decide (key row ∈ (rowsOf owner self table).map key) := by
    rw [rowsOf, List.filter_eq_self]
    intro row hrow
    exact decide_eq_true (hwritten row (List.mem_of_mem_filter hrow))
  have hold : ((rowsOf owner self table).map (rewritten key written)).Perm
      (written.filter fun row =>
        decide (key row ∈ (rowsOf owner self table).map key)) := by
    rw [List.perm_ext_iff_of_nodup]
    · intro row
      constructor
      · intro hrow
        obtain ⟨old, hold, rfl⟩ := List.mem_map.mp hrow
        obtain ⟨found, hfound, hkey⟩ := List.mem_map.mp (hkept old hold)
        rw [rewritten_eq_of_mem hkeys hfound hkey]
        refine List.mem_filter.mpr ⟨hfound, decide_eq_true ?_⟩
        rw [hkey]
        exact List.mem_map_of_mem hold
      · intro hrow
        obtain ⟨hmem, hkey⟩ := List.mem_filter.mp hrow
        obtain ⟨old, hold, hsame⟩ := List.mem_map.mp (of_decide_eq_true hkey)
        exact List.mem_map.mpr
          ⟨old, hold, rewritten_eq_of_mem hkeys hmem hsame.symm⟩
    · refine List.Nodup.of_map key ?_
      have hsame : ((rowsOf owner self table).map (rewritten key written)).map key =
          (rowsOf owner self table).map key := by
        rw [List.map_map]
        exact List.map_congr_left fun row _ => key_rewritten written row
      rw [hsame]
      exact htable
    · exact (List.Nodup.of_map key hkeys).filter _
  rw [writeRows, rowsOf_append, rowsOf_map_rewritten hwritten, hnew]
  exact (hold.append_right _).trans (List.filter_append_perm _ _)

/-- A save of rows under the keys an owner has adds no row. -/
theorem writeRows_eq_map (hknown : ∀ row ∈ written, key row ∈ (rowsOf owner self table).map key) :
    writeRows key owner self written table = table.map fun row =>
      if owner row = self then rewritten key written row else row := by
  have hnone : (written.filter fun row =>
      !decide (key row ∈ (rowsOf owner self table).map key)) = [] := by
    refine List.filter_eq_nil_iff.mpr fun row hrow => ?_
    rw [decide_eq_true (hknown row hrow)]
    exact Bool.false_ne_true
  rw [writeRows, hnone, List.append_nil]

/-- A save under just the keys an owner has does not drop a row either. -/
theorem writeRows_dropRows
    (hkept : ∀ row ∈ rowsOf owner self table, key row ∈ written.map key)
    (hknown : ∀ row ∈ written, key row ∈ (rowsOf owner self table).map key) :
    writeRows key owner self written (dropRows key owner self written table) =
      table.map fun row => if owner row = self then rewritten key written row else row := by
  have hall : dropRows key owner self written table = table := by
    refine List.filter_eq_self.mpr fun row hrow => ?_
    by_cases howner : owner row = self
    · rw [decide_eq_true (hkept row (mem_rowsOf.mpr ⟨hrow, howner⟩)), Bool.or_true]
    · rw [decide_eq_false howner]
      rfl
  rw [hall, writeRows_eq_map hknown]

/-- Such a save keeps what is the same in a row and in the row written over it. -/
theorem map_rewritten {β : Type z} {f : R → β}
    (hsame : ∀ row ∈ table, owner row = self → f (rewritten key written row) = f row) :
    (table.map fun row => if owner row = self then rewritten key written row else row).map f =
      table.map f := by
  rw [List.map_map]
  refine List.map_congr_left fun row hrow => ?_
  simp only [Function.comp_apply]
  split
  · rename_i howner
    exact hsame row hrow howner
  · rfl

/-- The keys of a table after a save: those it had and the new ones. -/
theorem mem_writeRows (hrow : row ∈ writeRows key owner self written table) :
    row ∈ table ∨ row ∈ written := by
  rcases List.mem_append.mp hrow with hrow | hrow
  · obtain ⟨old, hold, rfl⟩ := List.mem_map.mp hrow
    split
    · rcases rewritten_cases key written old with hsame | ⟨hmem, -⟩
      · rw [hsame]
        exact Or.inl hold
      · exact Or.inr hmem
    · exact Or.inl hold
  · exact Or.inr (List.mem_of_mem_filter hrow)

theorem mem_dropRows (hrow : row ∈ dropRows key owner self written table) :
    row ∈ table :=
  List.mem_of_mem_filter hrow

end Reading

end Workshop
