/-
Rows with a key of the table and a name of their own.  What is written under a
name keeps the key of the row that has the name, and takes the next number of
a sequence when there is none.  The rows of an owner that are written so stand
for the items they were written from.
-/
import Workshop.Library.OwnedRows
import Workshop.Library.Results

namespace Workshop

universe u v w x

/-- Rows that stand for some items, one row for each, in any order. -/
def RowsFor {A : Type v} {R : Type u} (stands : A → R → Prop) (items : List A)
    (rows : List R) : Prop :=
  ∃ written, List.Forall₂ stands items written ∧ rows.Perm written

namespace RowsFor

variable {A : Type v} {R : Type u} {stands : A → R → Prop}
variable {items : List A} {rows : List R}

theorem exists_row (h : RowsFor stands items rows) {item : A} (hitem : item ∈ items) :
    ∃ row ∈ rows, stands item row := by
  obtain ⟨written, hwritten, hperm⟩ := h
  obtain ⟨row, hrow, hstands⟩ := exists_right_of_forall₂ hwritten hitem
  exact ⟨row, hperm.mem_iff.mpr hrow, hstands⟩

theorem exists_item (h : RowsFor stands items rows) {row : R} (hrow : row ∈ rows) :
    ∃ item ∈ items, stands item row := by
  obtain ⟨written, hwritten, hperm⟩ := h
  exact exists_left_of_forall₂ hwritten (hperm.mem_iff.mp hrow)

/-- Read in any order, the rows answer what the items they stand for do. -/
theorem mapM {B : Type v} {ε : Type x} {read : R → Except ε B} (answer : A → B)
    (h : RowsFor stands items rows)
    (hread : ∀ item ∈ items, ∀ row, stands item row → read row = .ok (answer item))
    {arranged : List R} (hperm : arranged.Perm rows) :
    ∃ answers, arranged.mapM read = .ok answers ∧ answers.Perm (items.map answer) := by
  obtain ⟨written, hwritten, hrows⟩ := h
  have hmem : List.Forall₂ (fun item row => item ∈ items ∧ stands item row) items
      written :=
    (List.forall₂_and_left _ _).mpr ⟨fun _ hitem => hitem, hwritten⟩
  have hanswers : List.Forall₂ (fun b row => read row = .ok b) (items.map answer)
      written :=
    List.forall₂_map_left_iff.mpr
      (hmem.imp fun item row hboth => hread item hboth.1 row hboth.2)
  exact exists_mapM_of_forall₂ hanswers (fun _ _ hsame => hsame) (hperm.trans hrows)

end RowsFor

variable {R : Type u} {A : Type v} {N : Type w} [DecidableEq N]
variable (key : R → Nat) (name : R → N)

/-- The key to write under a name. -/
def keptKey (rows : List R) (wanted : N) (fresh : Nat) : Nat :=
  ((rows.find? fun row => name row = wanted).map key).getD fresh

/-- The keys to write under the names of some items, of which every one has a
number of the sequence at hand. -/
def keptKeys (rows : List R) (nameOf : A → N) (items : List A) (next : Nat) :
    List Nat :=
  (items.zipIdx next).map fun entry =>
    keptKey key name rows (nameOf entry.1) entry.2

theorem keptKey_cases (rows : List R) (wanted : N) (fresh : Nat) :
    (∃ row ∈ rows, name row = wanted ∧ keptKey key name rows wanted fresh = key row) ∨
      (∀ row ∈ rows, name row ≠ wanted) ∧ keptKey key name rows wanted fresh = fresh := by
  unfold keptKey
  cases hfind : rows.find? fun row => name row = wanted with
  | none =>
      refine Or.inr ⟨fun row hrow => ?_, rfl⟩
      simpa using List.find?_eq_none.mp hfind row hrow
  | some row =>
      exact Or.inl ⟨row, List.mem_of_find?_eq_some hfind,
        by simpa using List.find?_some hfind, rfl⟩

section Keys

variable {key name} {rows : List R} {row : R} {wanted : N} {fresh next : Nat}
variable {nameOf : A → N} {items : List A}

/-- The row of a name keeps its key. -/
theorem keptKey_of_mem (hnames : (rows.map name).Nodup) (hrow : row ∈ rows)
    (hname : name row = wanted) : keptKey key name rows wanted fresh = key row := by
  rcases keptKey_cases key name rows wanted fresh with ⟨found, hfound, hsame, hkey⟩ | ⟨hnone, -⟩
  · rw [hkey, List.inj_on_of_nodup_map hnames hfound hrow (hsame.trans hname.symm)]
  · exact absurd hname (hnone row hrow)

theorem keptKey_lt (hbelow : ∀ row ∈ rows, key row < next) (hfresh : fresh < next) :
    keptKey key name rows wanted fresh < next := by
  rcases keptKey_cases key name rows wanted fresh with ⟨row, hrow, -, hkey⟩ | ⟨-, hkey⟩
  · rw [hkey]
    exact hbelow row hrow
  · rw [hkey]
    exact hfresh

theorem mem_zipIdx_lt {entry : A × Nat} (h : entry ∈ items.zipIdx next) :
    entry.1 ∈ items ∧ next ≤ entry.2 ∧ entry.2 < next + items.length := by
  obtain ⟨item, index⟩ := entry
  obtain ⟨hle, hlt, hitem⟩ := List.mem_zipIdx h
  exact ⟨hitem ▸ List.getElem_mem _, hle, hlt⟩

/-- Keys that are kept or drawn tell the items apart as their names do. -/
theorem keptKeys_nodup (hkeys : ∀ left ∈ rows, ∀ right ∈ rows,
      key left = key right → name left = name right)
    (hbelow : ∀ row ∈ rows, key row < next) (hnames : (items.map nameOf).Nodup) :
    (keptKeys key name rows nameOf items next).Nodup := by
  have hindices : ((items.zipIdx next).map Prod.snd).Nodup := by
    rw [List.zipIdx_map_snd]
    exact List.nodup_range'
  have hitems : ((items.zipIdx next).map fun entry => nameOf entry.1).Nodup := by
    have hmap : (items.zipIdx next).map (fun entry => nameOf entry.1) =
        items.map nameOf := by
      rw [← Function.comp_def nameOf Prod.fst, ← List.map_map, List.zipIdx_map_fst]
    rw [hmap]
    exact hnames
  refine (List.Nodup.of_map _ hindices).map_on ?_
  intro left hleft right hright hsame
  have hfreshLeft := (mem_zipIdx_lt hleft).2.1
  have hfreshRight := (mem_zipIdx_lt hright).2.1
  rcases keptKey_cases key name rows (nameOf left.1) left.2 with
    ⟨row, hrow, hname, hkey⟩ | ⟨-, hkey⟩
  · rcases keptKey_cases key name rows (nameOf right.1) right.2 with
      ⟨other, hother, hname', hkey'⟩ | ⟨-, hkey'⟩
    · rw [hkey, hkey'] at hsame
      have hboth := hkeys row hrow other hother hsame
      rw [hname, hname'] at hboth
      exact List.inj_on_of_nodup_map hitems hleft hright hboth
    · have hlt := hbelow row hrow
      omega
  · rcases keptKey_cases key name rows (nameOf right.1) right.2 with
      ⟨other, hother, -, hkey'⟩ | ⟨-, hkey'⟩
    · have hlt := hbelow other hother
      omega
    · rw [hkey, hkey'] at hsame
      exact List.inj_on_of_nodup_map hindices hleft hright hsame

end Keys

section Writing

variable {O : Type x} [DecidableEq O] {key name} {owner : R → O} {self : O}
variable {nameOf : A → N} {items : List A} {next : Nat} {table left written : List R}
variable {stands : Nat → A → R → Prop}

/-- What is written for an item, under the key it keeps or draws. -/
def WrittenUnder (stands : Nat → A → R → Prop) (key : R → Nat) (name : R → N)
    (rows : List R) (nameOf : A → N) (entry : A × Nat) (row : R) : Prop :=
  stands (keptKey key name rows (nameOf entry.1) entry.2) entry.1 row

/-- The rows a save writes for the items of an owner. -/
structure Writes (stands : Nat → A → R → Prop) (key : R → Nat) (name : R → N)
    (owner : R → O) (holder : O) (nameOf : A → N) : Prop where
  key : ∀ {k item row}, stands k item row → key row = k
  name : ∀ {k item row}, stands k item row → name row = nameOf item
  owner : ∀ {k item row}, stands k item row → owner row = holder

variable (hwrites : Writes stands key name owner self nameOf)
variable (hwritten : List.Forall₂
  (WrittenUnder stands key name (rowsOf owner self table) nameOf)
  (items.zipIdx next) written)

include hwrites hwritten

theorem keys_written : written.map key =
    keptKeys key name (rowsOf owner self table) nameOf items next :=
  map_eq_map_of_forall₂
    (hwritten.imp fun _ _ hrow => (hwrites.key hrow).symm) |>.symm

theorem stands_written :
    List.Forall₂ (fun item row => stands (key row) item row) items written := by
  have hstands : List.Forall₂ (fun item row => stands (key row) item row)
      ((items.zipIdx next).map Prod.fst) written := by
    refine List.forall₂_map_left_iff.mpr (hwritten.imp fun entry row hrow => ?_)
    rw [hwrites.key hrow]
    exact hrow
  rwa [List.zipIdx_map_fst] at hstands

theorem names_written : written.map name = items.map nameOf :=
  map_eq_map_of_forall₂ ((stands_written hwrites hwritten).imp fun _ _ hrow =>
    (hwrites.name hrow).symm) |>.symm

theorem owner_written : ∀ row ∈ written, owner row = self := by
  intro row hrow
  obtain ⟨item, -, hstands⟩ :=
    exists_left_of_forall₂ (stands_written hwrites hwritten) hrow
  exact hwrites.owner hstands

/-- The rows an owner has after a save are the rows it wrote, when every row that
was left for it is written again. -/
theorem writeRows_perm (hkeys : (table.map key).Nodup)
    (hnames : (table.map name).Nodup) (hbelow : ∀ row ∈ table, key row < next)
    (hitems : (items.map nameOf).Nodup) (hleft : left.Sublist table)
    (hkept : ∀ row ∈ rowsOf owner self left, name row ∈ items.map nameOf) :
    (rowsOf owner self (writeRows key owner self written left)).Perm written := by
  have hkeysWritten := keys_written hwrites hwritten
  refine rowsOf_writeRows ?_ (owner_written hwrites hwritten) ?_ ?_
  · rw [hkeysWritten]
    refine keptKeys_nodup ?_ ?_ hitems
    · intro row hrow other hother hsame
      rw [List.inj_on_of_nodup_map hkeys (mem_rowsOf.mp hrow).1
        (mem_rowsOf.mp hother).1 hsame]
    · exact fun row hrow => hbelow row (mem_rowsOf.mp hrow).1
  · exact hkeys.sublist ((List.filter_sublist.trans hleft).map key)
  · intro row hrow
    obtain ⟨hmem, howner⟩ := mem_rowsOf.mp hrow
    obtain ⟨item, hitem, hname⟩ := List.mem_map.mp (hkept row hrow)
    rw [← List.zipIdx_map_fst next items] at hitem
    obtain ⟨entry, hentry, rfl⟩ := List.mem_map.mp hitem
    rw [hkeysWritten]
    refine List.mem_map.mpr ⟨entry, hentry, ?_⟩
    exact keptKey_of_mem (hnames.sublist (List.filter_sublist.map name))
      (mem_rowsOf.mpr ⟨hleft.subset hmem, howner⟩) hname.symm

/-- The same for a save that drops the rows it does not write again first. -/
theorem replaceRows_perm (hkeys : (table.map key).Nodup)
    (hnames : (table.map name).Nodup) (hbelow : ∀ row ∈ table, key row < next)
    (hitems : (items.map nameOf).Nodup) :
    (rowsOf owner self (writeRows key owner self written
      (dropRows name owner self written table))).Perm written := by
  refine writeRows_perm hwrites hwritten hkeys hnames hbelow hitems
    List.filter_sublist fun row hrow => ?_
  rw [rowsOf_dropRows] at hrow
  rw [← names_written hwrites hwritten]
  exact of_decide_eq_true (List.mem_filter.mp hrow).2

/-- A save writes no key that the sequence has not handed out. -/
theorem key_writeRows_lt (hbelow : ∀ row ∈ table, key row < next)
    (hleft : left.Sublist table) :
    ∀ row ∈ writeRows key owner self written left, key row < next + items.length := by
  intro row hrow
  rcases mem_writeRows hrow with hold | hnew
  · have hlt := hbelow row (hleft.subset hold)
    omega
  · have hkey := List.mem_map_of_mem (f := key) hnew
    rw [keys_written hwrites hwritten] at hkey
    obtain ⟨entry, hentry, hsame⟩ := List.mem_map.mp hkey
    rw [← hsame]
    refine keptKey_lt (fun other hother => ?_) (mem_zipIdx_lt hentry).2.2
    have hlt := hbelow other (mem_rowsOf.mp hother).1
    omega

end Writing

end Workshop
