/-
Rows collected by a key: one entry a key, which every further row of the key is
merged into.  The entry of a key is the merge of its rows in their order.
-/
import Mathlib.Data.List.Induction
import Workshop.Library.Upserts

namespace Workshop

universe u v

variable {α : Type u} {κ : Type v} [DecidableEq κ] {key : α → κ}
variable {merge : α → α → α} {rows more : List α} {row : α} {k : κ}

/-- The rows merged from the first on. -/
def mergeAll (merge : α → α → α) : List α → Option α
  | [] => none
  | row :: rows => some (rows.foldl merge row)

/-- Merges a row into the entry of its key, or opens one. -/
def collectRow (key : α → κ) (merge : α → α → α) (entries : List α) (row : α) : List α :=
  match entries.find? fun entry => key entry = key row with
  | none => upsert key row entries
  | some entry => upsert key (merge entry row) entries

def collect (key : α → κ) (merge : α → α → α) (rows : List α) : List α :=
  rows.foldl (collectRow key merge) []

theorem mergeAll_concat : mergeAll merge (rows ++ [row]) =
    match mergeAll merge rows with
    | none => some row
    | some merged => some (merge merged row) := by
  cases rows with
  | nil => rfl
  | cons first rows => simp [mergeAll]

@[simp] theorem collect_nil : collect key merge [] = [] := rfl

theorem collect_concat :
    collect key merge (rows ++ [row]) = collectRow key merge (collect key merge rows) row := by
  simp [collect]

theorem nodup_collect : ((collect key merge rows).map key).Nodup := by
  induction rows using List.reverseRecOn with
  | nil => exact List.nodup_nil
  | append_singleton rows row ih =>
      rw [collect_concat, collectRow]
      split
      · exact nodup_upsert ih
      · exact nodup_upsert ih

/-- The entry of a key is the merge of its rows. -/
theorem find?_collect (hkey : ∀ entry row, key row = key entry →
      key (merge entry row) = key entry) (k : κ) :
    (collect key merge rows).find? (fun entry => key entry = k) =
      mergeAll merge (rows.filter fun row => key row = k) := by
  induction rows using List.reverseRecOn with
  | nil => rfl
  | append_singleton rows row ih =>
      rw [collect_concat, collectRow, List.filter_append]
      by_cases hrow : key row = k
      · subst hrow
        rw [List.filter_singleton, decide_eq_true rfl, cond_true, mergeAll_concat, ← ih]
        cases hfound : (collect key merge rows).find? fun entry => key entry = key row with
        | none =>
            dsimp only
            rw [find?_upsert, if_pos rfl]
        | some entry =>
            have hentry : key entry = key row := by simpa using List.find?_some hfound
            dsimp only
            rw [find?_upsert, if_pos ((hkey entry row hentry.symm).trans hentry)]
      · rw [List.filter_singleton, decide_eq_false hrow, cond_false, List.append_nil, ← ih]
        split
        · rw [find?_upsert, if_neg hrow]
        · rename_i entry hfound
          have hentry : key entry = key row := by simpa using List.find?_some hfound
          rw [find?_upsert, if_neg]
          rw [hkey entry row hentry.symm, hentry]
          exact hrow

/-- Every entry is the merge of the rows of its key. -/
theorem mergeAll_of_mem_collect (hkey : ∀ entry row, key row = key entry →
      key (merge entry row) = key entry) {entry : α}
    (hentry : entry ∈ collect key merge rows) :
    mergeAll merge (rows.filter fun row => key row = key entry) = some entry := by
  rw [← find?_collect hkey, find?_key_of_mem nodup_collect hentry]

/-- Every key that a row has has an entry. -/
theorem exists_entry (hkey : ∀ entry row, key row = key entry →
      key (merge entry row) = key entry) (hrow : row ∈ rows) :
    ∃ entry ∈ collect key merge rows, key entry = key row := by
  have hmem : row ∈ rows.filter fun other => key other = key row :=
    List.mem_filter.mpr ⟨hrow, decide_eq_true rfl⟩
  cases hgroup : rows.filter fun other => key other = key row with
  | nil =>
      rw [hgroup] at hmem
      exact absurd hmem List.not_mem_nil
  | cons first group =>
      have hfound : (collect key merge rows).find? (fun entry => key entry = key row) =
          mergeAll merge (rows.filter fun other => key other = key row) :=
        find?_collect hkey (key row)
      rw [hgroup] at hfound
      exact ⟨_, List.mem_of_find?_eq_some hfound, by simpa using List.find?_some hfound⟩

/-- A merge of rows keeps what merging with any row keeps. -/
theorem mergeAll_induction {P : List α → α → Prop} (hone : ∀ row, P [row] row)
    (hmerge : ∀ group merged row, P group merged → P (group ++ [row]) (merge merged row))
    {merged : α} (h : mergeAll merge rows = some merged) : P rows merged := by
  induction rows using List.reverseRecOn generalizing merged with
  | nil => cases h
  | append_singleton rows row ih =>
      rw [mergeAll_concat] at h
      split at h
      · rename_i hnone
        obtain rfl := Option.some.inj h
        cases rows with
        | nil => exact hone row
        | cons first rows => cases hnone
      · rename_i known hknown
        obtain rfl := Option.some.inj h
        exact hmerge rows known row (ih hknown)

end Workshop
