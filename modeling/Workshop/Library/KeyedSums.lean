/-
Sums over the entries of a list that satisfy a test.  A ledger is a list of
entries, a balance is such a sum, and the entries that point at one key are a
fiber of it.
-/
import Mathlib.Algebra.BigOperators.Group.List.Basic
import Mathlib.Algebra.Order.Floor.Div
import Mathlib.Algebra.Order.Group.Int

namespace Workshop

universe u v w

variable {α : Type u} {β : Type v} {κ : Type w}

/-- The sum of `f` over the entries of a list that satisfy `p`. -/
def sumWhere (p : α → Bool) (f : α → Int) (l : List α) : Int :=
  ((l.filter p).map f).sum

@[simp] theorem sumWhere_nil (p : α → Bool) (f : α → Int) :
    sumWhere p f [] = 0 := rfl

theorem sumWhere_cons (p : α → Bool) (f : α → Int) (a : α) (l : List α) :
    sumWhere p f (a :: l) = (if p a then f a else 0) + sumWhere p f l := by
  cases hpa : p a <;> simp [sumWhere, hpa]

@[simp] theorem sumWhere_append (p : α → Bool) (f : α → Int) (l m : List α) :
    sumWhere p f (l ++ m) = sumWhere p f l + sumWhere p f m := by
  simp [sumWhere]

theorem sumWhere_perm {p : α → Bool} {f : α → Int} {l m : List α}
    (hperm : l.Perm m) : sumWhere p f l = sumWhere p f m :=
  ((hperm.filter p).map f).sum_eq

/-- What one entry adds to a sum goes when the entry is erased. -/
theorem sumWhere_eraseIdx {p : α → Bool} {f : α → Int} {l : List α} {index : Nat}
    {a : α} (h : l[index]? = some a) :
    sumWhere p f (l.eraseIdx index) =
      sumWhere p f l - if p a = true then f a else 0 := by
  obtain ⟨hlength, rfl⟩ := List.getElem?_eq_some_iff.mp h
  have hperm := sumWhere_perm (p := p) (f := f)
    (List.getElem_cons_eraseIdx_perm hlength)
  rw [sumWhere_cons] at hperm
  omega

/-- Rewriting one entry changes a sum by what the entry adds to it. -/
theorem sumWhere_set {p : α → Bool} {f : α → Int} {l : List α} {index : Nat}
    {a : α} (h : l[index]? = some a) (a' : α) :
    sumWhere p f (l.set index a') =
      sumWhere p f l - (if p a = true then f a else 0) +
        if p a' = true then f a' else 0 := by
  have hlength := (List.getElem?_eq_some_iff.mp h).1
  have hperm := sumWhere_perm (p := p) (f := f)
    (List.set_perm_cons_eraseIdx hlength a')
  rw [sumWhere_cons, sumWhere_eraseIdx h] at hperm
  omega

theorem sumWhere_map (p : β → Bool) (f : β → Int) (g : α → β) (l : List α) :
    sumWhere p f (l.map g) = sumWhere (p ∘ g) (f ∘ g) l := by
  simp [sumWhere, List.filter_map]

theorem sumWhere_filter (p q : α → Bool) (f : α → Int) (l : List α) :
    sumWhere p f (l.filter q) = sumWhere (fun a => p a && q a) f l := by
  simp [sumWhere, List.filter_filter]

/-- A summand that a second test may zero is summed where both tests pass. -/
theorem sumWhere_ite (p q : α → Bool) (f : α → Int) (l : List α) :
    sumWhere p (fun a => if q a = true then f a else 0) l =
      sumWhere (fun a => p a && q a) f l := by
  induction l with
  | nil => rfl
  | cons a l ih =>
      rw [sumWhere_cons, sumWhere_cons, ih]
      cases p a <;> cases q a <;> simp

theorem sumWhere_flatMap (p : β → Bool) (f : β → Int) (g : α → List β)
    (l : List α) :
    sumWhere p f (l.flatMap g) =
      sumWhere (fun _ => true) (fun a => sumWhere p f (g a)) l := by
  induction l with
  | nil => rfl
  | cons a l ih => simp [sumWhere_cons, ih]

/-- Entries on which the tests and the summands agree contribute the same. -/
theorem sumWhere_congr {p q : α → Bool} {f g : α → Int} {l : List α}
    (htest : ∀ a ∈ l, p a = q a) (hterm : ∀ a ∈ l, p a = true → f a = g a) :
    sumWhere p f l = sumWhere q g l := by
  induction l with
  | nil => rfl
  | cons a l ih =>
      have htail := ih (fun b hb => htest b (List.mem_cons_of_mem a hb))
        (fun b hb => hterm b (List.mem_cons_of_mem a hb))
      rw [sumWhere_cons, sumWhere_cons, htail, ← htest a List.mem_cons_self]
      by_cases hpa : p a = true
      · simp [hpa, hterm a List.mem_cons_self hpa]
      · simp [hpa]

/-- Two lists that agree entry by entry have one sum. -/
theorem sumWhere_forall₂ {p : α → Bool} {q : β → Bool} {f : α → Int}
    {g : β → Int} {l : List α} {m : List β}
    (h : List.Forall₂ (fun a b => p a = q b ∧ f a = g b) l m) :
    sumWhere p f l = sumWhere q g m := by
  induction h with
  | nil => rfl
  | cons hhead _ ih => rw [sumWhere_cons, sumWhere_cons, ih, hhead.1, hhead.2]

theorem sumWhere_eq_zero {p : α → Bool} {f : α → Int} {l : List α}
    (hnone : ∀ a ∈ l, p a = true → f a = 0) : sumWhere p f l = 0 := by
  induction l with
  | nil => rfl
  | cons a l ih =>
      rw [sumWhere_cons, ih fun b hb => hnone b (List.mem_cons_of_mem a hb)]
      by_cases hpa : p a = true
      · simp [hpa, hnone a List.mem_cons_self hpa]
      · simp [hpa]

theorem sumWhere_le {p : α → Bool} {f g : α → Int} {l : List α}
    (hle : ∀ a ∈ l, p a = true → f a ≤ g a) : sumWhere p f l ≤ sumWhere p g l := by
  induction l with
  | nil => exact Int.le_refl 0
  | cons a l ih =>
      have htail := ih fun b hb => hle b (List.mem_cons_of_mem a hb)
      rw [sumWhere_cons, sumWhere_cons]
      by_cases hpa : p a = true
      · have hhead := hle a List.mem_cons_self hpa
        simp only [hpa, if_true]
        omega
      · simp only [hpa, Bool.false_eq_true, if_false]
        omega

theorem sumWhere_nonneg {p : α → Bool} {f : α → Int} {l : List α}
    (hnonneg : ∀ a ∈ l, p a = true → 0 ≤ f a) : 0 ≤ sumWhere p f l := by
  have hle : sumWhere p (fun _ => 0) l ≤ sumWhere p f l := sumWhere_le hnonneg
  have hzero : sumWhere p (fun _ => 0) l = 0 :=
    sumWhere_eq_zero fun _ _ _ => rfl
  omega

/-- One entry of a sum of non-negative terms is at most the sum. -/
theorem le_sumWhere_of_mem {p : α → Bool} {f : α → Int} {l : List α} {a : α}
    (hnonneg : ∀ b ∈ l, p b = true → 0 ≤ f b) (hmem : a ∈ l)
    (hpa : p a = true) : f a ≤ sumWhere p f l := by
  induction l with
  | nil => simp at hmem
  | cons b l ih =>
      have htail : ∀ c ∈ l, p c = true → 0 ≤ f c :=
        fun c hc => hnonneg c (List.mem_cons_of_mem b hc)
      rw [sumWhere_cons]
      rcases List.mem_cons.mp hmem with rfl | hmem
      · have hrest := sumWhere_nonneg htail
        simp only [hpa, if_true]
        omega
      · have hrest := ih htail hmem
        by_cases hpb : p b = true
        · have hhead := hnonneg b List.mem_cons_self hpb
          simp only [hpb, if_true]
          omega
        · simp only [hpb, Bool.false_eq_true, if_false]
          omega

theorem sumWhere_add (p : α → Bool) (f g : α → Int) (l : List α) :
    sumWhere p (fun a => f a + g a) l = sumWhere p f l + sumWhere p g l := by
  induction l with
  | nil => rfl
  | cons a l ih =>
      simp only [sumWhere_cons, ih]
      split <;> omega

theorem sumWhere_sub (p : α → Bool) (f g : α → Int) (l : List α) :
    sumWhere p (fun a => f a - g a) l = sumWhere p f l - sumWhere p g l := by
  induction l with
  | nil => rfl
  | cons a l ih =>
      simp only [sumWhere_cons, ih]
      split <;> omega

/-- Filtering does not see an entry that fails the test go. -/
theorem filter_eraseIdx {p : α → Bool} {l : List α} {index : Nat} {a : α}
    (hindex : l[index]? = some a) (hfails : p a = false) :
    (l.eraseIdx index).filter p = l.filter p := by
  induction l generalizing index with
  | nil => rfl
  | cons b l ih =>
      cases index with
      | zero =>
          obtain rfl := Option.some.inj hindex
          simp [hfails]
      | succ index =>
          rw [List.getElem?_cons_succ] at hindex
          rw [List.eraseIdx_cons_succ, List.filter_cons, List.filter_cons, ih hindex]

/-- Filtering does not see a change of the entries that fail the test before
and after. -/
theorem filter_map_of_fixed {p : α → Bool} {f : α → α} {l : List α}
    (hfixed : ∀ a ∈ l, p (f a) = true ∨ p a = true → f a = a) :
    (l.map f).filter p = l.filter p := by
  induction l with
  | nil => rfl
  | cons a l ih =>
      have hrest := ih fun b hb => hfixed b (List.mem_cons_of_mem a hb)
      have ha := hfixed a List.mem_cons_self
      rw [List.map_cons, List.filter_cons, List.filter_cons, hrest]
      by_cases hpass : p (f a) = true ∨ p a = true
      · rw [ha hpass]
      · obtain ⟨hafter, hbefore⟩ := not_or.mp hpass
        rw [if_neg hafter, if_neg hbefore]

theorem sumWhere_map_of_fixed {p : α → Bool} (g : α → Int) {f : α → α} {l : List α}
    (hfixed : ∀ a ∈ l, p (f a) = true ∨ p a = true → f a = a) :
    sumWhere p g (l.map f) = sumWhere p g l := by
  rw [sumWhere, sumWhere, filter_map_of_fixed hfixed]

/-- A test splits a sum into the entries that pass it and those that do not. -/
theorem sumWhere_split (p q : α → Bool) (f : α → Int) (l : List α) :
    sumWhere p f l =
      sumWhere (fun a => p a && q a) f l + sumWhere (fun a => p a && !q a) f l := by
  induction l with
  | nil => rfl
  | cons a l ih =>
      simp only [sumWhere_cons, ih]
      cases p a <;> cases q a <;> simp <;> omega

section Fibers

variable [DecidableEq κ]

/-- Among entries with distinct keys only one has a given key. -/
theorem sumWhere_single {key : α → κ} {q : α → Bool} {l : List α} {a : α}
    (n : Int) (hnodup : (l.map key).Nodup) (hmem : a ∈ l) (hqa : q a = true) :
    sumWhere q (fun b => if key b = key a then n else 0) l = n := by
  induction l with
  | nil => simp at hmem
  | cons b l ih =>
      rw [List.map_cons, List.nodup_cons] at hnodup
      rw [sumWhere_cons]
      rcases List.mem_cons.mp hmem with rfl | hmem
      · have hrest : sumWhere q (fun c => if key c = key a then n else 0) l = 0 :=
          sumWhere_eq_zero fun c hc _ => by
            have hne : key c ≠ key a := fun hkey =>
              hnodup.1 (hkey ▸ List.mem_map_of_mem hc)
            simp [hne]
        simp [hrest, hqa]
      · have hne : key b ≠ key a := fun hkey =>
          hnodup.1 (hkey ▸ List.mem_map_of_mem hmem)
        simp [hne, ih hnodup.2 hmem]

/-- A join over distinct keys finds one entry under a key or none. -/
theorem sumWhere_join {key : α → κ} {q : α → Bool} {l : List α} {k : κ} (n : Int)
    (hnodup : (l.map key).Nodup) (hkey : ∀ a ∈ l, q a = true → key a = k) :
    sumWhere (fun _ => true) (fun _ => n) (l.filter q) = if l.any q = true then n else 0 := by
  rw [sumWhere_filter]
  by_cases hany : l.any q = true
  · obtain ⟨a, hmem, hqa⟩ := List.any_eq_true.mp hany
    rw [if_pos hany]
    refine Eq.trans (sumWhere_congr (fun _ _ => rfl) fun b hb hqb => ?_)
      (sumWhere_single n hnodup hmem hqa)
    exact (if_pos ((hkey b hb hqb).trans (hkey a hmem hqa).symm)).symm
  · rw [if_neg hany]
    exact sumWhere_eq_zero fun b hb hqb => absurd (List.any_eq_true.mpr ⟨b, hb, hqb⟩) hany

/-- Summing the fibers of `target` over entries with distinct keys that cover
every target counts each summand once. -/
theorem sumWhere_fibers {key : α → κ} {target : β → Option κ} {p : β → Bool}
    {f : β → Int} {q : α → Bool} {l : List α} {entries : List β}
    (hnodup : (l.map key).Nodup)
    (hcover : ∀ e ∈ entries, p e = true →
      ∃ a ∈ l, q a = true ∧ target e = some (key a)) :
    sumWhere q (fun a =>
        sumWhere (fun e => p e && decide (target e = some (key a))) f entries) l =
      sumWhere p f entries := by
  induction entries with
  | nil => exact sumWhere_eq_zero fun _ _ _ => rfl
  | cons e entries ih =>
      have htail := ih fun d hd => hcover d (List.mem_cons_of_mem e hd)
      simp only [sumWhere_cons, sumWhere_add, htail]
      by_cases hpe : p e = true
      · obtain ⟨a, hmem, hqa, htarget⟩ := hcover e List.mem_cons_self hpe
        have hsame : (fun b => if (p e && decide (target e = some (key b))) = true
            then f e else 0) = fun b => if key b = key a then f e else 0 := by
          funext b
          simp [hpe, htarget, eq_comm]
        rw [hsame, sumWhere_single (f e) hnodup hmem hqa]
        simp [hpe]
      · have hnone : sumWhere q
            (fun a => if (p e && decide (target e = some (key a))) = true
              then f e else 0) l = 0 :=
          sumWhere_eq_zero fun _ _ _ => by simp [hpe]
        rw [hnone]
        simp [hpe]

/-- A sum is non-negative when the part of it under every key is. -/
theorem sumWhere_nonneg_of_keys {key : α → κ} {p : α → Bool} {f : α → Int} {l : List α}
    (hparts : ∀ k, 0 ≤ sumWhere (fun a => p a && decide (key a = k)) f l) :
    0 ≤ sumWhere p f l := by
  have hcover : ∀ a ∈ l, p a = true →
      ∃ k ∈ (l.map key).dedup, true = true ∧ some (key a) = some (id k) := fun a ha _ =>
    ⟨key a, List.mem_dedup.mpr (List.mem_map_of_mem ha), rfl, rfl⟩
  have hnodup : ((l.map key).dedup.map id).Nodup := by
    rw [List.map_id]
    exact List.nodup_dedup _
  rw [← sumWhere_fibers (q := fun _ => true) hnodup hcover]
  refine sumWhere_nonneg fun k _ _ => ?_
  simpa using hparts k

/-- Then the part of the sum under one key is no more than the sum. -/
theorem sumWhere_key_le {key : α → κ} {p : α → Bool} {f : α → Int} {l : List α}
    (hparts : ∀ k, 0 ≤ sumWhere (fun a => p a && decide (key a = k)) f l) (k : κ) :
    sumWhere (fun a => p a && decide (key a = k)) f l ≤ sumWhere p f l := by
  rw [sumWhere_split p (fun a => decide (key a = k))]
  have hothers : ∀ other, 0 ≤ sumWhere
      (fun a => (p a && !decide (key a = k)) && decide (key a = other)) f l := by
    intro other
    by_cases hother : other = k
    · refine (sumWhere_eq_zero fun a _ htest => ?_).ge
      simp only [hother, Bool.and_eq_true, Bool.not_eq_true', decide_eq_false_iff_not,
        decide_eq_true_eq] at htest
      exact absurd htest.2 htest.1.2
    · refine (hparts other).trans_eq (sumWhere_congr (fun a _ => ?_) fun _ _ _ => rfl)
      by_cases hkey : key a = other
      · simp [hkey, hother]
      · simp [hkey]
  have hrest := sumWhere_nonneg_of_keys hothers
  omega

end Fibers

end Workshop
