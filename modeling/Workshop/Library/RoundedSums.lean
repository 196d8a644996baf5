/-
Sums in an arithmetic that rounds.  Up to a bound it is exact, and what lies beyond
the bound it leaves beyond it; so the amounts that come up while terms are added tell
whether the exact sum is within the bound.
-/
import Mathlib.Algebra.Order.BigOperators.Group.List
import Mathlib.Algebra.Order.Floor.Div
import Mathlib.Algebra.Order.Group.Int

namespace Workshop

/-- A rounding of integers that is exact up to a bound and never takes a number
beyond it back. -/
structure ExactUpTo (round : Int → Int) (bound : Int) : Prop where
  exact : ∀ n, 0 ≤ n → n ≤ bound → round n = n
  beyond : ∀ n, bound < n → bound < round n

/-- How a computed amount stands to the exact one: the same up to a bound, and beyond
the bound when the exact one is. -/
structure AgreesUpTo (bound computed exact : Int) : Prop where
  within : exact ≤ bound → computed = exact
  beyond : bound < exact → bound < computed

/-- What comes up while terms are added to a total: every term, and the total after
it. -/
def amountsUp (round : Int → Int) : Int → List Int → List Int
  | _, [] => []
  | total, term :: terms =>
      round term :: round (total + round term) ::
        amountsUp round (round (total + round term)) terms

/-- The total in the end. -/
def roundedTotal (round : Int → Int) (total : Int) (terms : List Int) : Int :=
  terms.foldl (fun total term => round (total + round term)) total

variable {round : Int → Int} {bound : Int} {terms : List Int}

/-- One term that is added within the bound. -/
theorem ExactUpTo.add (hround : ExactUpTo round bound) {total term : Int}
    (htotal : 0 ≤ total) (hterm : 0 ≤ term) (hle : total + term ≤ bound) :
    round term = term ∧ round (total + round term) = total + term := by
  have hfirst : round term = term := hround.exact term hterm (by omega)
  refine ⟨hfirst, ?_⟩
  rw [hfirst]
  exact hround.exact _ (by omega) hle

theorem AgreesUpTo.refl (n : Int) : AgreesUpTo bound n n := ⟨fun _ => rfl, id⟩

/-- A rounded amount agrees with the exact one. -/
theorem ExactUpTo.agrees (hround : ExactUpTo round bound) {n : Int} (hnonneg : 0 ≤ n) :
    AgreesUpTo bound (round n) n :=
  ⟨hround.exact n hnonneg, hround.beyond n⟩

section Agreement

variable {computed exact term added : Int}

theorem AgreesUpTo.nonneg (h : AgreesUpTo bound computed exact) (hbound : 0 ≤ bound)
    (hexact : 0 ≤ exact) : 0 ≤ computed := by
  rcases lt_or_ge bound exact with hlt | hle
  · have := h.beyond hlt
    omega
  · rw [h.within hle]
    exact hexact

/-- The rounded sum of two computed amounts agrees with the sum of the exact ones. -/
theorem AgreesUpTo.add (hround : ExactUpTo round bound) (hbound : 0 ≤ bound)
    (htotal : AgreesUpTo bound computed exact) (hterm : AgreesUpTo bound added term)
    (hexact : 0 ≤ exact) (hnonneg : 0 ≤ term) :
    AgreesUpTo bound (round (computed + added)) (exact + term) where
  within := by
    intro hle
    rw [htotal.within (by omega), hterm.within (by omega)]
    exact hround.exact _ (by omega) hle
  beyond := by
    intro hlt
    refine hround.beyond _ ?_
    have hcomputed := htotal.nonneg hbound hexact
    have hadded := hterm.nonneg hbound hnonneg
    rcases lt_or_ge bound exact with hlarge | hsmall
    · have := htotal.beyond hlarge
      omega
    · rcases lt_or_ge bound term with hlarge | hfits
      · have := hterm.beyond hlarge
        omega
      · rw [htotal.within hsmall, hterm.within hfits]
        exact hlt

/-- What is taken off a computed amount makes it up again with what is left. -/
theorem AgreesUpTo.subtract (hround : ExactUpTo round bound)
    (htotal : AgreesUpTo bound computed exact) (hterm : 0 ≤ term)
    (hfits : 0 ≤ computed - term) :
    AgreesUpTo bound (round (computed - term) + term) exact where
  within := by
    intro hle
    have hsame := htotal.within hle
    rw [hround.exact _ hfits (by omega)]
    omega
  beyond := by
    intro hlt
    have hlarge := htotal.beyond hlt
    rcases lt_or_ge bound (computed - term) with hmore | hless
    · have := hround.beyond _ hmore
      omega
    · rw [hround.exact _ hfits hless]
      omega

end Agreement

/-- Within the bound nothing is rounded. -/
theorem amountsUp_exact (hround : ExactUpTo round bound)
    (hnonneg : ∀ term ∈ terms, 0 ≤ term) :
    ∀ {total : Int}, 0 ≤ total → total + terms.sum ≤ bound →
      amountsUp round total terms = amountsUp id total terms ∧
        roundedTotal round total terms = total + terms.sum := by
  induction terms with
  | nil => exact fun _ _ => ⟨rfl, (Int.add_zero _).symm⟩
  | cons term terms ih =>
      intro total htotal hle
      have hterm := hnonneg term List.mem_cons_self
      have hrest : ∀ other ∈ terms, 0 ≤ other := fun other hother =>
        hnonneg other (List.mem_cons_of_mem _ hother)
      have hsum : 0 ≤ terms.sum := List.sum_nonneg hrest
      rw [List.sum_cons, ← Int.add_assoc] at hle
      obtain ⟨hfirst, hadded⟩ := hround.add htotal hterm (by omega)
      obtain ⟨hamounts, hlast⟩ := ih hrest (by omega : 0 ≤ total + term) hle
      constructor
      · rw [amountsUp, hadded, hfirst, hamounts]
        rfl
      · rw [roundedTotal, List.foldl_cons, hadded, List.sum_cons, ← Int.add_assoc]
        exact hlast

/-- Everything that comes up is within the bound exactly when the sum is. -/
theorem amountsUp_le_iff (hround : ExactUpTo round bound)
    (hnonneg : ∀ term ∈ terms, 0 ≤ term) :
    ∀ {total : Int}, 0 ≤ total → total ≤ bound →
      ((∀ amount ∈ amountsUp round total terms, amount ≤ bound) ↔
        total + terms.sum ≤ bound) := by
  induction terms with
  | nil =>
      intro total _ hle
      simp [amountsUp, hle]
  | cons term terms ih =>
      intro total htotal hle
      have hterm := hnonneg term List.mem_cons_self
      have hrest : ∀ other ∈ terms, 0 ≤ other := fun other hother =>
        hnonneg other (List.mem_cons_of_mem _ hother)
      have hsum : 0 ≤ terms.sum := List.sum_nonneg hrest
      rw [amountsUp, List.forall_mem_cons, List.forall_mem_cons, List.sum_cons,
        ← Int.add_assoc]
      by_cases hfits : total + term ≤ bound
      · obtain ⟨hfirst, hadded⟩ := hround.add htotal hterm hfits
        rw [hadded, hfirst, ih hrest (by omega) hfits]
        constructor
        · exact fun h => h.2.2
        · exact fun h => ⟨by omega, hfits, h⟩
      · -- The first amount beyond the bound is this term or the total after it.
        refine iff_of_false (fun h => ?_) (by omega)
        by_cases hlarge : term ≤ bound
        · have hfirst : round term = term := hround.exact term hterm hlarge
          rw [hfirst] at h
          have := hround.beyond (total + term) (by omega)
          omega
        · have := hround.beyond term (by omega)
          omega

end Workshop
