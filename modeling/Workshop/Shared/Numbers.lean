/-
Amounts as a column of text gives them back: `Number` of the text of an integer.
-/
import Workshop.Shared.MoneyText

namespace Workshop

/-- Every amount passes a test. -/
def AllCents (P : Int → Prop) (amounts : List Money) : Prop :=
  ∀ amount ∈ amounts, P amount.cents

/-- `Number` of the text of an integer. -/
def readNumber (raw : String) : Option Int := (numberOf raw).map toNumber

/-- An amount up to `Number.MAX_SAFE_INTEGER` is read back from its text. -/
theorem readNumber_toText {amount : Money} (hle : amount.cents ≤ maxExactCents) :
    readNumber amount.toText = some amount.cents := by
  rw [readNumber, Money.numberOf_toText, Option.map_some,
    toNumber_exactUpTo.exact _ amount.nonneg hle]

end Workshop
