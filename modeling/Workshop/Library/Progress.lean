/-
What comes to hold along a run.  The positions of the run are numbered and a property is
one of positions, so that it may speak of the state there and of all that the run is
given from outside, such as a clock.
-/
import Mathlib.Data.Nat.Basic

namespace Workshop

/-- Wherever `P` holds, `Q` holds there or later. -/
def LeadsTo (P Q : Nat → Prop) : Prop :=
  ∀ n, P n → ∃ m, n ≤ m ∧ Q m

section Rules

variable {P Q R : Nat → Prop}

theorem LeadsTo.of_imp (h : ∀ n, P n → Q n) : LeadsTo P Q :=
  fun n hn => ⟨n, le_rfl, h n hn⟩

theorem LeadsTo.trans (hfirst : LeadsTo P Q) (hsecond : LeadsTo Q R) : LeadsTo P R := by
  intro n hn
  obtain ⟨middle, hle, hmiddle⟩ := hfirst n hn
  obtain ⟨last, hle', hlast⟩ := hsecond middle hmiddle
  exact ⟨last, Nat.le_trans hle hle', hlast⟩

theorem LeadsTo.mono {P' Q' : Nat → Prop} (h : LeadsTo P Q) (hbefore : ∀ n, P' n → P n)
    (hafter : ∀ n, Q n → Q' n) : LeadsTo P' Q' :=
  ((LeadsTo.of_imp hbefore).trans h).trans (LeadsTo.of_imp hafter)

theorem LeadsTo.or (hleft : LeadsTo P R) (hright : LeadsTo Q R) :
    LeadsTo (fun n => P n ∨ Q n) R :=
  fun n hn => hn.elim (hleft n) (hright n)

/-- What comes back until something else happens comes back as late as asked for. -/
theorem LeadsTo.late (h : ∀ n, P n → ∃ m, n < m ∧ (Q m ∨ P m)) (bound : Nat) :
    LeadsTo P fun n => Q n ∨ P n ∧ bound ≤ n := by
  intro n hn
  induction hleft : bound - n using Nat.strong_induction_on generalizing n with
  | h left ih =>
      by_cases hlate : bound ≤ n
      · exact ⟨n, le_rfl, Or.inr ⟨hn, hlate⟩⟩
      · obtain ⟨m, hlt, hm | hm⟩ := h n hn
        · exact ⟨m, Nat.le_of_lt hlt, Or.inl hm⟩
        · obtain ⟨last, hle, hlast⟩ := ih (bound - m) (by omega) m hm rfl
          exact ⟨last, Nat.le_trans (Nat.le_of_lt hlt) hle, hlast⟩

/-- A rank that is positive until `Q` holds and that falls again and again reaches it. -/
theorem LeadsTo.of_rank (rank : Nat → Nat)
    (h : ∀ k, LeadsTo (fun n => P n ∧ rank n = k)
      fun n => Q n ∨ P n ∧ rank n < k) : LeadsTo P Q := by
  intro n hn
  induction hrank : rank n using Nat.strong_induction_on generalizing n with
  | h k ih =>
      obtain ⟨m, hle, hm | ⟨hm, hless⟩⟩ := h k n ⟨hn, hrank⟩
      · exact ⟨m, hle, hm⟩
      · obtain ⟨last, hle', hlast⟩ := ih (rank m) hless m hm rfl
        exact ⟨last, Nat.le_trans hle hle', hlast⟩

/-- What holds at a position and is kept by every move holds from there on. -/
theorem holds_from (hkept : ∀ n, P n → P (n + 1)) {n : Nat} (hn : P n) :
    ∀ m, n ≤ m → P m := by
  intro m hle
  induction hle with
  | refl => exact hn
  | step _ ih => exact hkept _ ih

end Rules

end Workshop
