/-
Amounts as a `bigint` column hands them out: texts of decimal digits, which
`Number` reads back.
-/
import Workshop.Shared.Values

namespace Workshop

/-- The number a list of digits names. -/
def digitsToNat (digits : List Char) : Option Nat :=
  if digits ≠ [] ∧ digits.all Char.isDigit then some (Nat.ofDigitChars 10 digits 0)
  else none

/-- `Number` of the text of an integer; `none` is `NaN`. -/
def numberOf (raw : String) : Option Int :=
  match raw.toList with
  | '-' :: digits => (digitsToNat digits).map fun n => -(n : Int)
  | digits => (digitsToNat digits).map Int.ofNat

/-- `String(cents)` -/
def Money.toText (amount : Money) : String := toString amount.cents

theorem digitsToNat_toDigits (n : Nat) :
    digitsToNat (Nat.toDigits 10 n) = some n := by
  have hdigits : (Nat.toDigits 10 n).all Char.isDigit = true :=
    List.all_eq_true.mpr fun c hc =>
      Nat.isDigit_of_mem_toDigits (by decide) (by decide) hc
  rw [digitsToNat, if_pos ⟨Nat.toDigits_ne_nil, hdigits⟩,
    Nat.ofDigitChars_ten_toDigits]

namespace Money

variable (amount : Money)

theorem toList_toText :
    amount.toText.toList = Nat.toDigits 10 amount.cents.toNat := by
  obtain ⟨cents, hnonneg⟩ := amount
  obtain ⟨n, rfl⟩ := Int.eq_ofNat_of_zero_le hnonneg
  exact Nat.toList_repr

theorem toText_ne_empty : amount.toText ≠ "" := by
  intro hempty
  have hlist := amount.toList_toText
  rw [hempty] at hlist
  exact Nat.toDigits_ne_nil hlist.symm

/-- An amount is read back from its text. -/
theorem numberOf_toText : numberOf amount.toText = some amount.cents := by
  have hcents : (amount.cents.toNat : Int) = amount.cents :=
    Int.toNat_of_nonneg amount.nonneg
  unfold numberOf
  rw [toList_toText]
  split
  · rename_i digits hdigits
    have hminus : '-' ∈ Nat.toDigits 10 amount.cents.toNat := by
      rw [hdigits]
      exact List.mem_cons_self
    exact absurd (Nat.isDigit_of_mem_toDigits (by decide) (by decide) hminus)
      (by decide)
  · rw [digitsToNat_toDigits, Option.map_some]
    exact congrArg some hcents

end Money

end Workshop
