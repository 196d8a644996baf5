/-
Values every module shares: identifiers, moments and amounts of money.
-/
import Mathlib.Algebra.Order.Floor.Div
import Mathlib.Data.List.Perm.Basic
import Workshop.Shared.Doubles

namespace Workshop

/-- An external id.  The id generator hands every one out once, so a counter
stands for it. -/
abbrev Uuid := Nat

/-- A moment, in milliseconds. -/
abbrev Timestamp := Nat

abbrev UserId := Uuid
abbrev WorkOrderId := Uuid
abbrev ItemId := Uuid
abbrev MovementId := Uuid
abbrev OperationId := Uuid

/-- The order in which a statement lists the rows its `ORDER BY` leaves tied.
It can be any rearrangement, and a different one each time. -/
structure RowOrder (α : Type) where
  arrange : List α → List α
  perm : ∀ rows, (arrange rows).Perm rows

/-- The order of the internal key. -/
def RowOrder.byKey {α : Type} : RowOrder α := ⟨id, fun _ => List.Perm.refl _⟩

/-- The amount `Money.fromCents` refuses. -/
structure InvalidMoneyAmountError where
  cents : Int
deriving DecidableEq, Repr

/-- A non-negative amount in cents. -/
structure Money where
  cents : Int
  nonneg : 0 ≤ cents
deriving DecidableEq, Repr

namespace Money

def fromCents (cents : Int) : Except InvalidMoneyAmountError Money :=
  if h : 0 ≤ cents then .ok ⟨cents, h⟩ else .error ⟨cents⟩

def zero : Money := ⟨0, Int.le_refl 0⟩

/-- A `Number` sum.  What the columns hold is far below the largest double, so the sum
is an amount again and `add` never refuses. -/
def add (amount other : Money) : Money :=
  ⟨toNumber (amount.cents + other.cents),
    toNumber_nonneg (Int.add_nonneg amount.nonneg other.nonneg)⟩

def subtract (amount other : Money) : Except InvalidMoneyAmountError Money :=
  fromCents (toNumber (amount.cents - other.cents))

def multiply (amount : Money) (quantity : Int) :
    Except InvalidMoneyAmountError Money :=
  fromCents (toNumber (amount.cents * quantity))

def isGreaterThan (amount other : Money) : Bool :=
  amount.cents > other.cents

/-- A sum agrees with the exact one when its terms do. -/
theorem add_agrees {amount other : Money} {exact term : Int}
    (hamount : AgreesUpTo maxExactCents amount.cents exact)
    (hother : AgreesUpTo maxExactCents other.cents term)
    (hexact : 0 ≤ exact) (hterm : 0 ≤ term) :
    AgreesUpTo maxExactCents (amount.add other).cents (exact + term) :=
  hamount.add toNumber_exactUpTo maxExactCents_nonneg hother hexact hterm

theorem fromCents_toNumber_ok {n : Int} {amount : Money}
    (h : fromCents (toNumber n) = .ok amount) : 0 ≤ n ∧ amount.cents = toNumber n := by
  rw [fromCents] at h
  split at h
  · rename_i hnonneg
    cases h
    exact ⟨not_lt.mp fun hneg => absurd (toNumber_neg hneg) (not_lt.mpr hnonneg), rfl⟩
  · cases h

theorem fromCents_toNumber_error {n : Int} {error : InvalidMoneyAmountError}
    (h : fromCents (toNumber n) = .error error) : n < 0 := by
  rw [fromCents] at h
  split at h
  · cases h
  · rename_i hneg
    exact not_le.mp fun hnonneg => hneg (toNumber_nonneg hnonneg)

end Money

end Workshop
