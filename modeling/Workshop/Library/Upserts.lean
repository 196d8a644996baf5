/-
Tables whose rows are told apart by a key, and the write that replaces the row
with its key or adds it.
-/
import Mathlib.Data.List.Basic
import Mathlib.Data.List.Induction
import Mathlib.Data.List.Nodup

namespace Workshop

universe u v

variable {α : Type u} {κ : Type v} [DecidableEq κ] {key : α → κ}
variable {row : α} {rows : List α}

/-- What is taken of each row that passes a test. -/
theorem filterMap_ite {β : Type v} (p : α → Bool) (f : α → β) (rows : List α) :
    (rows.filterMap fun row => if p row = true then some (f row) else none) =
      (rows.filter p).map f := by
  induction rows with
  | nil => rfl
  | cons row rows ih =>
      rw [List.filterMap_cons, List.filter_cons, ih]
      cases p row <;> rfl

/-- Writes a row in place of the one with its key, or at the end. -/
def upsert (key : α → κ) (row : α) (rows : List α) : List α :=
  if rows.any fun other => key other = key row
  then rows.map fun other => if key other = key row then row else other
  else rows ++ [row]

/-- The key does not matter as long as it names the same rows. -/
theorem upsert_congr {κ' : Type v} [DecidableEq κ'] {key' : α → κ'}
    (h : ∀ other ∈ rows, key other = key row ↔ key' other = key' row) :
    upsert key row rows = upsert key' row rows := by
  have hany : (rows.any fun other => decide (key other = key row)) =
      rows.any fun other => decide (key' other = key' row) := by
    rw [Bool.eq_iff_iff, List.any_eq_true, List.any_eq_true]
    refine exists_congr fun other => and_congr_right fun hother => ?_
    rw [decide_eq_true_iff, decide_eq_true_iff]
    exact h other hother
  have hmap : (rows.map fun other => if key other = key row then row else other) =
      rows.map fun other => if key' other = key' row then row else other :=
    List.map_congr_left fun other hother => if_congr (h other hother) rfl rfl
  unfold upsert
  rw [hany, hmap]

theorem mem_upsert {a : α} :
    a ∈ upsert key row rows ↔ a = row ∨ a ∈ rows ∧ key a ≠ key row := by
  unfold upsert
  split
  · rename_i hany
    obtain ⟨old, hold, hkey⟩ := List.any_eq_true.mp hany
    rw [List.mem_map]
    constructor
    · rintro ⟨other, hother, rfl⟩
      split
      · exact Or.inl rfl
      · rename_i hne
        exact Or.inr ⟨hother, hne⟩
    · rintro (rfl | ⟨ha, hne⟩)
      · exact ⟨old, hold, if_pos (of_decide_eq_true hkey)⟩
      · exact ⟨a, ha, if_neg hne⟩
  · rename_i hnone
    rw [List.mem_append, List.mem_singleton]
    constructor
    · rintro (ha | rfl)
      · refine Or.inr ⟨ha, fun hkey => hnone ?_⟩
        exact List.any_eq_true.mpr ⟨a, ha, decide_eq_true hkey⟩
      · exact Or.inl rfl
    · rintro (rfl | ⟨ha, -⟩)
      · exact Or.inr rfl
      · exact Or.inl ha

theorem upsert_of_not_mem (hnew : key row ∉ rows.map key) :
    upsert key row rows = rows ++ [row] := by
  unfold upsert
  rw [if_neg]
  intro hany
  obtain ⟨other, hother, hkey⟩ := List.any_eq_true.mp hany
  exact hnew (List.mem_map.mpr ⟨other, hother, of_decide_eq_true hkey⟩)

/-- A row whose key only the last row has takes its place. -/
theorem upsert_concat {last : α} (hlast : key last = key row)
    (hnew : key row ∉ rows.map key) :
    upsert key row (rows ++ [last]) = rows ++ [row] := by
  unfold upsert
  have hany : ((rows ++ [last]).any fun other => key other = key row) = true :=
    List.any_eq_true.mpr ⟨last, by simp, decide_eq_true hlast⟩
  have hrows : (rows.map fun other => if key other = key row then row else other) =
      rows := by
    refine (List.map_congr_left fun other hother => ?_).trans (List.map_id rows)
    rw [if_neg, id]
    exact fun hkey => hnew (hkey ▸ List.mem_map_of_mem hother)
  rw [if_pos hany, List.map_append, hrows, List.map_singleton, if_pos hlast]

/-- Rows picked by something that rows of one key share: what is written to the
table is written to the picked rows, or not at all. -/
theorem filter_upsert {p : α → Bool}
    (hsame : ∀ other ∈ rows, key other = key row → p other = p row) :
    (upsert key row rows).filter p =
      if p row then upsert key row (rows.filter p) else rows.filter p := by
  unfold upsert
  by_cases hany : (rows.any fun other => key other = key row) = true
  · rw [if_pos hany]
    have hmap : ∀ l : List α, (∀ other ∈ l, other ∈ rows) →
        (l.map fun other => if key other = key row then row else other).filter p =
          (l.filter p).map fun other =>
            if key other = key row then row else other := by
      intro l
      induction l with
      | nil => exact fun _ => rfl
      | cons other l ih =>
          intro hl
          have hrest := ih fun a ha => hl a (List.mem_cons_of_mem _ ha)
          have hp : p (if key other = key row then row else other) = p other := by
            split
            · rename_i hkey
              exact (hsame other (hl other List.mem_cons_self) hkey).symm
            · rfl
          rw [List.map_cons, List.filter_cons, List.filter_cons, hp, hrest]
          split <;> rfl
    rw [hmap rows fun _ h => h]
    by_cases hrow : p row = true
    · rw [if_pos hrow, if_pos]
      obtain ⟨old, hold, hkey⟩ := List.any_eq_true.mp hany
      refine List.any_eq_true.mpr ⟨old, List.mem_filter.mpr ⟨hold, ?_⟩, hkey⟩
      rw [hsame old hold (of_decide_eq_true hkey), hrow]
    · rw [if_neg hrow]
      refine (List.map_congr_left fun other hother => ?_).trans (List.map_id _)
      obtain ⟨hmem, hp⟩ := List.mem_filter.mp hother
      rw [if_neg, id]
      exact fun hkey => hrow (hsame other hmem hkey ▸ hp)
  · rw [if_neg hany, List.filter_append]
    by_cases hrow : p row = true
    · rw [if_pos hrow, if_neg, List.filter_singleton, hrow, cond_true]
      intro hfiltered
      obtain ⟨old, hold, hkey⟩ := List.any_eq_true.mp hfiltered
      exact hany (List.any_eq_true.mpr ⟨old, List.mem_of_mem_filter hold, hkey⟩)
    · rw [if_neg hrow, List.filter_singleton, Bool.eq_false_iff.mpr hrow,
        cond_false, List.append_nil]

/-- A search by key finds the written row, or what it found before. -/
theorem find?_upsert (k : κ) :
    (upsert key row rows).find? (fun other => key other = k) =
      if key row = k then some row
      else rows.find? fun other => key other = k := by
  unfold upsert
  split
  · rename_i hany
    have hkeys : ∀ other : α,
        key (if key other = key row then row else other) = key other := by
      intro other
      split
      · rename_i heq
        exact heq.symm
      · rfl
    rw [List.find?_map]
    have hsame : ((fun other => decide (key other = k)) ∘ fun other =>
        if key other = key row then row else other) =
          fun other => decide (key other = k) := by
      funext other
      rw [Function.comp_apply, hkeys]
    rw [hsame]
    split
    · rename_i heq
      subst heq
      obtain ⟨old, hold, hkey⟩ := List.any_eq_true.mp hany
      cases hfind : rows.find? fun other => key other = key row with
      | none => exact absurd hkey (List.find?_eq_none.mp hfind old hold)
      | some found =>
          have hfound : key found = key row := by simpa using List.find?_some hfind
          rw [Option.map_some, if_pos hfound]
    · rename_i hne
      cases hfind : rows.find? fun other => key other = k with
      | none => rfl
      | some found =>
          have hfound : key found = k := by simpa using List.find?_some hfind
          rw [Option.map_some, if_neg]
          rw [hfound]
          exact Ne.symm hne
  · rename_i hnone
    rw [List.find?_append]
    split
    · rename_i heq
      have hmissing : rows.find? (fun other => key other = k) = none := by
        rw [List.find?_eq_none]
        intro other hother hkey
        refine hnone (List.any_eq_true.mpr ⟨other, hother, ?_⟩)
        rw [heq]
        exact hkey
      rw [hmissing]
      simp [heq]
    · rename_i hne
      simp [hne]

/-- A search by key in rows that were rewritten under their keys. -/
theorem find?_map_key {f : α → α} (hkey : ∀ a, key (f a) = key a) (k : κ) :
    (rows.map f).find? (fun other => key other = k) =
      (rows.find? fun other => key other = k).map f := by
  rw [List.find?_map]
  congr 1
  refine congrArg (fun p => rows.find? p) (funext fun other => ?_)
  rw [Function.comp_apply, hkey]

theorem nodup_upsert (hkeys : (rows.map key).Nodup) :
    ((upsert key row rows).map key).Nodup := by
  unfold upsert
  split
  · have hsame : (rows.map fun other =>
        if key other = key row then row else other).map key = rows.map key := by
      rw [List.map_map]
      refine List.map_congr_left fun other _ => ?_
      rw [Function.comp_apply]
      split
      · rename_i heq
        exact heq.symm
      · rfl
    rw [hsame]
    exact hkeys
  · rename_i hnone
    rw [List.map_append, List.map_singleton, List.nodup_append]
    refine ⟨hkeys, List.nodup_singleton _, ?_⟩
    intro k hk other hother heq
    obtain ⟨a, ha, rfl⟩ := List.mem_map.mp hk
    rw [List.mem_singleton.mp hother] at heq
    exact hnone (List.any_eq_true.mpr ⟨a, ha, decide_eq_true heq⟩)

/-- In a table with distinct keys a search by key finds each row. -/
theorem find?_key_of_mem (hkeys : (rows.map key).Nodup) (hrow : row ∈ rows) :
    rows.find? (fun other => key other = key row) = some row := by
  cases hfind : rows.find? fun other => key other = key row with
  | none =>
      exact absurd (decide_eq_true rfl) (List.find?_eq_none.mp hfind row hrow)
  | some found =>
      have hfound : key found = key row := by simpa using List.find?_some hfind
      rw [List.inj_on_of_nodup_map hkeys (List.mem_of_find?_eq_some hfind) hrow hfound]

section Rows

variable {written : List α}

/-- Writes the rows one after another. -/
def upsertAll (key : α → κ) (written rows : List α) : List α :=
  written.foldl (fun rows row => upsert key row rows) rows

theorem upsertAll_concat :
    upsertAll key (written ++ [row]) rows = upsert key row (upsertAll key written rows) := by
  rw [upsertAll, List.foldl_append]
  rfl

theorem nodup_upsertAll (hkeys : (rows.map key).Nodup) :
    ((upsertAll key written rows).map key).Nodup := by
  induction written using List.reverseRecOn with
  | nil => exact hkeys
  | append_singleton written row ih =>
      rw [upsertAll_concat]
      exact nodup_upsert ih

/-- Where a key tells the row, every row written is there in the end. -/
theorem mem_upsertAll (hsame : ∀ a ∈ written, ∀ b ∈ written, key a = key b → a = b) {a : α} :
    a ∈ upsertAll key written [] ↔ a ∈ written := by
  induction written using List.reverseRecOn with
  | nil => exact Iff.rfl
  | append_singleton written row ih =>
      have hrow : row ∈ written ++ [row] := List.mem_append_right _ (List.mem_singleton_self _)
      rw [upsertAll_concat, mem_upsert, ih fun b hb c hc =>
        hsame b (List.mem_append_left _ hb) c (List.mem_append_left _ hc)]
      constructor
      · rintro (rfl | ⟨ha, -⟩)
        · exact hrow
        · exact List.mem_append_left _ ha
      · intro ha
        by_cases hkey : key a = key row
        · exact Or.inl (hsame a ha row hrow hkey)
        · rcases List.mem_append.mp ha with ha | ha
          · exact Or.inr ⟨ha, hkey⟩
          · exact Or.inl (List.mem_singleton.mp ha)

end Rows

end Workshop
