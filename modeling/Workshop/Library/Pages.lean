/-
A list cut into pages of one size, counted from one, and the places that a list keeps
in its sublists.
-/
import Mathlib.Algebra.Order.Floor.Div
import Mathlib.Data.List.Basic

namespace Workshop

universe u

variable {α : Type u} {l : List α} {size page : Nat}

/-- One page of a list. -/
def pageOf (size : Nat) (l : List α) (page : Nat) : List α :=
  (l.drop ((page - 1) * size)).take size

/-- The first pages of a list are its beginning. -/
theorem flatMap_pageOf (size : Nat) (l : List α) (count : Nat) :
    (List.range' 1 count).flatMap (pageOf size l) = l.take (count * size) := by
  induction count with
  | zero => simp
  | succ count ih =>
      rw [List.range'_concat, List.flatMap_append, ih, List.flatMap_singleton, pageOf,
        Nat.one_mul, Nat.add_sub_cancel_left, Nat.succ_mul, List.take_add]

/-- The pages that the length of a list takes are the whole list. -/
theorem flatMap_pageOf_ceilDiv (hsize : 0 < size) (l : List α) :
    (List.range' 1 (l.length ⌈/⌉ size)).flatMap (pageOf size l) = l := by
  rw [flatMap_pageOf]
  refine List.take_of_length_le ?_
  rw [mul_comm]
  exact (ceilDiv_le_iff_le_mul hsize).mp le_rfl

/-- A page before the last one is full. -/
theorem length_pageOf (hsize : 0 < size) (hpage : 1 ≤ page)
    (hlt : page < l.length ⌈/⌉ size) : (pageOf size l page).length = size := by
  have hless : size * page < l.length := by
    rw [← not_le, ← ceilDiv_le_iff_le_mul hsize, not_le]
    exact hlt
  obtain ⟨before, rfl⟩ := Nat.exists_eq_add_of_le' hpage
  rw [pageOf, List.length_take, List.length_drop, Nat.add_sub_cancel]
  rw [mul_comm, Nat.succ_mul] at hless
  omega

/-- A page past the last one is empty. -/
theorem pageOf_eq_nil (hsize : 0 < size) (hlt : l.length ⌈/⌉ size < page) :
    pageOf size l page = [] := by
  have hle : l.length ≤ size * (page - 1) :=
    (ceilDiv_le_iff_le_mul hsize).mp (Nat.le_sub_one_of_lt hlt)
  rw [pageOf, List.drop_eq_nil_of_le (by rwa [mul_comm]), List.take_nil]

/-- A sublist keeps which of two entries comes first. -/
theorem idxOf_lt_idxOf_of_sublist [DecidableEq α] {kept : List α} {a b : α}
    (hsublist : kept.Sublist l) (hnodup : l.Nodup) (ha : a ∈ kept) (hb : b ∈ kept) :
    kept.idxOf a < kept.idxOf b ↔ l.idxOf a < l.idxOf b := by
  induction hsublist with
  | slnil => cases ha
  | cons c hsublist ih =>
      rw [List.nodup_cons] at hnodup
      have hne : ∀ x ∈ _, c ≠ x := fun x hx heq => hnodup.1 (heq ▸ hsublist.subset hx)
      rw [ih hnodup.2 ha hb, List.idxOf_cons_ne _ (hne a ha), List.idxOf_cons_ne _ (hne b hb)]
      omega
  | cons_cons c hsublist ih =>
      rw [List.nodup_cons] at hnodup
      by_cases hca : c = a
      · by_cases hcb : c = b
        · rw [← hca, ← hcb]
          simp
        · subst hca
          rw [List.idxOf_cons_self, List.idxOf_cons_self, List.idxOf_cons_ne _ hcb,
            List.idxOf_cons_ne _ hcb]
          simp
      · by_cases hcb : c = b
        · subst hcb
          rw [List.idxOf_cons_self, List.idxOf_cons_self]
          simp
        · rw [List.idxOf_cons_ne _ hca, List.idxOf_cons_ne _ hcb, List.idxOf_cons_ne _ hca,
            List.idxOf_cons_ne _ hcb, Nat.succ_lt_succ_iff, Nat.succ_lt_succ_iff]
          exact ih hnodup.2 ((List.mem_cons.mp ha).resolve_left (Ne.symm hca))
            ((List.mem_cons.mp hb).resolve_left (Ne.symm hcb))

end Workshop
