/-
Years of moments.  The year of a moment depends on the time zone of the server, and
all the model asks of it is that it does not go back.
-/
import Mathlib.Data.Nat.Find
import Workshop.Shared.Values

namespace Workshop

/-- What `getFullYear` answers in the time zone of the server. -/
structure Calendar where
  fullYear : Timestamp → Int
  mono : ∀ {time later : Timestamp}, time ≤ later → fullYear time ≤ fullYear later

/-- The number of the day, counted from 1970, on which a year begins. -/
def dayFromYear (year : Int) : Int :=
  365 * (year - 1970) + (year - 1969) / 4 - (year - 1901) / 100 + (year - 1601) / 400

def timeFromYear (year : Int) : Int := 86400000 * dayFromYear year

/-- The years past since 1970; no more than years of 365 days. -/
def yearsPast (time : Timestamp) : Nat :=
  Nat.findGreatest (fun past : Nat => timeFromYear (1970 + past) ≤ time) (time / 31536000000)

/-- The last year that has begun. -/
def utcFullYear (time : Timestamp) : Int := 1970 + yearsPast time

theorem utcFullYear_mono {time later : Timestamp} (hle : time ≤ later) :
    utcFullYear time ≤ utcFullYear later := by
  have hyears : yearsPast time ≤ yearsPast later :=
    Nat.findGreatest_mono
      (fun past hpast => hpast.trans (Int.ofNat_le.mpr hle)) (Nat.div_le_div_right hle)
  exact Int.add_le_add_left (Int.ofNat_le.mpr hyears) 1970

theorem le_timeFromYear (past : Nat) : 31536000000 * (past : Int) ≤ timeFromYear (1970 + past) := by
  unfold timeFromYear dayFromYear
  omega

/-- A moment is in its year: the year has begun and the next one has not. -/
theorem utcFullYear_spec (time : Timestamp) :
    timeFromYear (utcFullYear time) ≤ time ∧ time < timeFromYear (utcFullYear time + 1) := by
  have hfirst : timeFromYear (1970 + (0 : Nat)) ≤ time := by
    have hzero : timeFromYear (1970 + (0 : Nat)) = 0 := by decide
    omega
  constructor
  · exact Nat.findGreatest_spec (P := fun past : Nat => timeFromYear (1970 + past) ≤ time)
      (Nat.zero_le _) hfirst
  · by_contra hnext
    have hbegun := not_lt.mp hnext
    rw [utcFullYear, add_assoc, ← Nat.cast_succ] at hbegun
    have hbound := (le_timeFromYear _).trans hbegun
    have hwithin : (yearsPast time).succ ≤ time / 31536000000 := by omega
    exact Nat.findGreatest_is_greatest
      (P := fun past : Nat => timeFromYear (1970 + past) ≤ time)
      (Nat.lt_succ_self _) hwithin hbegun

def Calendar.utc : Calendar := ⟨utcFullYear, utcFullYear_mono⟩

end Workshop
