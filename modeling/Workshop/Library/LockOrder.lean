/-
Who waits for whom.  A party waits for another when it wants something that
the other holds and it does not.  If everything a party holds ranks below
what it waits for, no party waits for itself through any chain of others.
-/
import Mathlib.Logic.Relation
import Mathlib.Order.Basic

namespace Workshop

universe u v w

variable {τ : Type u} {ρ : Type v} {α : Type w}

/-- The edges of the wait-for graph. -/
def WaitsFor (wants holds : τ → ρ → Prop) (party other : τ) : Prop :=
  ∃ row, wants party row ∧ ¬ holds party row ∧ holds other row

/-- What a party waits for ranks above all it holds. -/
def AsksUpwards [LT α] (rank : ρ → α) (wants holds : τ → ρ → Prop)
    (party : τ) : Prop :=
  ∀ row held, wants party row → ¬ holds party row → holds party held →
    rank held < rank row

section Acyclic

variable [Preorder α] {rank : ρ → α} {wants holds : τ → ρ → Prop}

/-- Along a chain of waiting parties the ranks rise: the last one holds
something that ranks at least as high as what the first one waits for. -/
theorem rank_le_of_waits (hup : ∀ party, AsksUpwards rank wants holds party)
    {first last : τ}
    (hchain : Relation.TransGen (WaitsFor wants holds) first last) :
    ∃ row held, wants first row ∧ ¬ holds first row ∧ holds last held ∧
      rank row ≤ rank held := by
  induction hchain with
  | single hwaits =>
      obtain ⟨row, hwants, hnot, hholds⟩ := hwaits
      exact ⟨row, row, hwants, hnot, hholds, le_rfl⟩
  | tail _ hwaits ih =>
      obtain ⟨row, held, hwants, hnot, hholds, hle⟩ := ih
      obtain ⟨next, hwants', hnot', hholds'⟩ := hwaits
      have hless : rank held < rank next :=
        hup _ next held hwants' hnot' hholds
      exact ⟨row, next, hwants, hnot, hholds', hle.trans hless.le⟩

/-- The wait-for graph has no cycle. -/
theorem waits_acyclic (hup : ∀ party, AsksUpwards rank wants holds party)
    (party : τ) : ¬ Relation.TransGen (WaitsFor wants holds) party party := by
  intro hcycle
  obtain ⟨row, held, hwants, hnot, hholds, hle⟩ := rank_le_of_waits hup hcycle
  exact lt_irrefl _ ((hup party row held hwants hnot hholds).trans_le hle)

end Acyclic

end Workshop
