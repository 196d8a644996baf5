/-
Integers as a `Number` holds them.  A double keeps 53 bits of an integer: a result is
exact up to `Number.MAX_SAFE_INTEGER`, and beyond it is rounded to the nearest double.
-/
import Workshop.Library.RoundedSums

namespace Workshop

/-- `Number.MAX_SAFE_INTEGER` -/
def maxExactCents : Int := 2 ^ 53 - 1

theorem maxExactCents_nonneg : 0 ≤ maxExactCents := by decide

/-- The double nearest to a natural number, the one with the even last bit of two. -/
def nearestDouble (n : Nat) : Nat :=
  let unit := 2 ^ (n.log2 - 52)
  let kept := n / unit
  let rest := n % unit
  if 2 * rest < unit then kept * unit
  else if unit < 2 * rest then (kept + 1) * unit
  else (kept + kept % 2) * unit

/-- The `Number` an integer result is. -/
def toNumber : Int → Int
  | .ofNat n => nearestDouble n
  | .negSucc n => -nearestDouble (n + 1)

theorem nearestDouble_of_lt {n : Nat} (h : n < 2 ^ 53) : nearestDouble n = n := by
  have hlog : n.log2 ≤ 52 := by
    by_cases hzero : n = 0
    · simp [hzero]
    · have := (Nat.log2_lt hzero).mpr h
      omega
  have hunit : n.log2 - 52 = 0 := Nat.sub_eq_zero_of_le hlog
  simp [nearestDouble, hunit, Nat.mod_one]

/-- A number of 54 bits or more keeps its leading bit. -/
theorem le_nearestDouble {n : Nat} (h : 2 ^ 53 ≤ n) : 2 ^ 53 ≤ nearestDouble n := by
  have hne : n ≠ 0 := by omega
  have hlog : 53 ≤ n.log2 := (Nat.le_log2 hne).mpr h
  have hpower : 2 ^ 52 * 2 ^ (n.log2 - 52) = 2 ^ n.log2 := by
    rw [← Nat.pow_add]
    congr 1
    omega
  have hkept : 2 ^ 52 ≤ n / 2 ^ (n.log2 - 52) := by
    rw [Nat.le_div_iff_mul_le (Nat.two_pow_pos _), hpower]
    exact Nat.log2_self_le hne
  have hunit : 2 ^ 53 ≤ n / 2 ^ (n.log2 - 52) * 2 ^ (n.log2 - 52) := by
    refine le_trans (le_trans (Nat.pow_le_pow_right Nat.two_pos hlog) hpower.ge) ?_
    exact Nat.mul_le_mul_right _ hkept
  have hmore : ∀ more, 2 ^ 53 ≤
      (n / 2 ^ (n.log2 - 52) + more) * 2 ^ (n.log2 - 52) := fun more =>
    hunit.trans (Nat.mul_le_mul_right _ (Nat.le_add_right _ _))
  simp only [nearestDouble]
  split
  · exact hunit
  · split
    · exact hmore _
    · exact hmore _

/-- A multiple of the spacing of the doubles around it is one. -/
theorem nearestDouble_of_dvd {n : Nat} (h : 2 ^ (n.log2 - 52) ∣ n) :
    nearestDouble n = n := by
  have hrest : n % 2 ^ (n.log2 - 52) = 0 := Nat.mod_eq_zero_of_dvd h
  simp only [nearestDouble, hrest, Nat.mul_zero, Nat.two_pow_pos, if_true]
  exact Nat.div_mul_cancel h

/-- At most 53 bits, shifted, are a double. -/
theorem nearestDouble_shift {bits shift : Nat} (hbits : bits ≤ 2 ^ 53) :
    nearestDouble (bits * 2 ^ shift) = bits * 2 ^ shift := by
  apply nearestDouble_of_dvd
  rcases Nat.lt_or_eq_of_le hbits with hlt | rfl
  · have hless : bits * 2 ^ shift < 2 ^ (53 + shift) := by
      rw [Nat.pow_add]
      exact Nat.mul_lt_mul_of_pos_right hlt (Nat.two_pow_pos shift)
    have hlog : (bits * 2 ^ shift).log2 - 52 ≤ shift := by
      by_cases hzero : bits * 2 ^ shift = 0
      · simp [hzero]
      · have := (Nat.log2_lt hzero).mpr hless
        omega
    exact (Nat.pow_dvd_pow 2 hlog).trans (Nat.dvd_mul_left _ _)
  · rw [← Nat.pow_add, Nat.log2_two_pow]
    exact Nat.pow_dvd_pow 2 (by omega)

/-- A double has at most 53 bits. -/
theorem nearestDouble_bits (n : Nat) :
    ∃ bits shift, bits ≤ 2 ^ 53 ∧ nearestDouble n = bits * 2 ^ shift := by
  have hkept : n / 2 ^ (n.log2 - 52) < 2 ^ 53 := by
    rw [Nat.div_lt_iff_lt_mul (Nat.two_pow_pos _), ← Nat.pow_add]
    exact Nat.lt_log2_self.trans_le (Nat.pow_le_pow_right Nat.two_pos (by omega))
  have hodd := Nat.mod_lt (n / 2 ^ (n.log2 - 52)) Nat.two_pos
  simp only [nearestDouble]
  split
  · exact ⟨_, _, Nat.le_of_lt hkept, rfl⟩
  · split
    · exact ⟨_, _, hkept, rfl⟩
    · exact ⟨_, _, by omega, rfl⟩

/-- A double is the double nearest to it. -/
theorem toNumber_toNumber (n : Int) : toNumber (toNumber n) = toNumber n := by
  have hnearest : ∀ n, nearestDouble (nearestDouble n) = nearestDouble n := by
    intro n
    obtain ⟨bits, shift, hbits, hsame⟩ := nearestDouble_bits n
    rw [hsame]
    exact nearestDouble_shift hbits
  cases n with
  | ofNat n => exact congrArg Int.ofNat (hnearest n)
  | negSucc n =>
      change toNumber (-(nearestDouble (n + 1) : Int)) = -(nearestDouble (n + 1) : Int)
      cases hvalue : nearestDouble (n + 1) with
      | zero => rfl
      | succ value =>
          change -(nearestDouble (value + 1) : Int) = _
          rw [← hvalue, hnearest]

theorem toNumber_nonneg {n : Int} (h : 0 ≤ n) : 0 ≤ toNumber n := by
  obtain ⟨n, rfl⟩ := Int.eq_ofNat_of_zero_le h
  exact Int.natCast_nonneg (nearestDouble n)

/-- What is negative stays so. -/
theorem toNumber_neg {n : Int} (h : n < 0) : toNumber n < 0 := by
  obtain ⟨n, rfl⟩ := Int.eq_negSucc_of_lt_zero h
  have hpositive : 0 < nearestDouble (n + 1) := by
    rcases Nat.lt_or_ge (n + 1) (2 ^ 53) with hlt | hge
    · rw [nearestDouble_of_lt hlt]
      exact Nat.succ_pos n
    · exact Nat.lt_of_lt_of_le (Nat.two_pow_pos 53) (le_nearestDouble hge)
  change -(nearestDouble (n + 1) : Int) < 0
  omega

/-- `Number` arithmetic on amounts is exact up to `Number.MAX_SAFE_INTEGER`, and a
larger result stays larger. -/
theorem toNumber_exactUpTo : ExactUpTo toNumber maxExactCents where
  exact := by
    intro n hnonneg hle
    obtain ⟨n, rfl⟩ := Int.eq_ofNat_of_zero_le hnonneg
    have hlt : n < 2 ^ 53 := by
      rw [maxExactCents] at hle
      omega
    exact congrArg Int.ofNat (nearestDouble_of_lt hlt)
  beyond := by
    intro n hlt
    rw [maxExactCents] at hlt ⊢
    obtain ⟨n, rfl⟩ := Int.eq_ofNat_of_zero_le (by omega : 0 ≤ n)
    have hlarge : 2 ^ 53 ≤ nearestDouble n := le_nearestDouble (by omega)
    change _ < (nearestDouble n : Int)
    omega

/-- One cent more than the largest exact amount is kept, two are not. -/
example : toNumber (2 ^ 53) = 2 ^ 53 ∧ toNumber (2 ^ 53 + 1) = 2 ^ 53 := by decide

end Workshop
