/-
The one shape every scanner is normalised into, and the comparisons the
consolidation orders and merges by.
-/
import Mathlib.Data.List.Dedup
import Mathlib.Data.List.Sort
import Workshop.Shared.CodeUnits

namespace Workshop

namespace Security

inductive Severity
  | critical
  | high
  | medium
  | low
  | informational
deriving DecidableEq, Repr

/-- How much a finding has been verified. -/
inductive Confidence
  | confirmed
  | potential
  | informational
deriving DecidableEq, Repr

inductive FindingCategory
  | dependency
  | sast
  | dast
deriving DecidableEq, Repr

structure Finding where
  /-- Assigned during consolidation. -/
  id : String
  title : String
  severity : Severity
  tools : List String
  category : FindingCategory
  owasp : Option String
  cwe : List String
  cve : List String
  description : String
  evidence : Option String
  impact : Option String
  recommendation : Option String
  location : Option String
  confidence : Confidence
  packageName : Option String
  vulnerableVersions : Option String
  fixedIn : Option String
  httpMethod : Option String
  endpoint : Option String
  /-- Two findings that share it are the same vulnerability. -/
  dedupeKey : String
deriving DecidableEq, Repr

inductive ScannerStatus
  | ok
  | skipped
  | failed
deriving DecidableEq, Repr

structure ScannerResult where
  tool : String
  status : ScannerStatus
  reason : Option String
  findings : List Finding
  durationMs : Nat
  rawOutputPath : Option String
deriving DecidableEq, Repr

/-- `SEVERITY_ORDER` -/
def severityOrder : Severity → Nat
  | .critical => 0
  | .high => 1
  | .medium => 2
  | .low => 3
  | .informational => 4

theorem severityOrder_inj {left right : Severity}
    (h : severityOrder left = severityOrder right) : left = right := by
  cases left <;> cases right <;> first | rfl | cases h

/-- `String.prototype.localeCompare`: a comparison by the rules of a locale, under
which distinct strings may be equal. -/
structure Collation where
  localeCompare : String → String → Int
  total : ∀ a b, localeCompare a b ≤ 0 ∨ localeCompare b a ≤ 0
  trans : ∀ a b c, localeCompare a b ≤ 0 → localeCompare b c ≤ 0 → localeCompare a c ≤ 0

/-- Descending by severity, then alphabetical by title. -/
def compareSeverity (collation : Collation) (a b : Finding) : Int :=
  let bySeverity : Int := severityOrder a.severity - severityOrder b.severity
  if bySeverity ≠ 0 then bySeverity else collation.localeCompare a.title b.title

def isMoreSevere (a b : Severity) : Bool := decide (severityOrder a < severityOrder b)

/-- Drops the missing and empty values and the repeated ones; `sort` orders by code
units. -/
def uniqueSorted (values : List (Option String)) : List String :=
  ((values.filterMap id).filter fun value => value ≠ "").dedup.insertionSort
    fun a b => codeUnits a ≤ codeUnits b

section Comparisons

variable {collation : Collation} {a b c : Finding}

theorem compareSeverity_total :
    compareSeverity collation a b ≤ 0 ∨ compareSeverity collation b a ≤ 0 := by
  unfold compareSeverity
  rcases Nat.lt_trichotomy (severityOrder a.severity) (severityOrder b.severity) with
    hless | hsame | hmore
  · refine Or.inl ?_
    rw [if_pos (by omega)]
    omega
  · rw [if_neg (by omega), if_neg (by omega)]
    exact collation.total a.title b.title
  · refine Or.inr ?_
    rw [if_pos (by omega)]
    omega

theorem compareSeverity_le_iff : compareSeverity collation a b ≤ 0 ↔
    severityOrder a.severity < severityOrder b.severity ∨
      severityOrder a.severity = severityOrder b.severity ∧
        collation.localeCompare a.title b.title ≤ 0 := by
  unfold compareSeverity
  dsimp only
  split
  · omega
  · constructor
    · intro h
      exact Or.inr ⟨by omega, h⟩
    · rintro (h | ⟨-, h⟩)
      · omega
      · exact h

theorem compareSeverity_trans (hab : compareSeverity collation a b ≤ 0)
    (hbc : compareSeverity collation b c ≤ 0) : compareSeverity collation a c ≤ 0 := by
  rw [compareSeverity_le_iff] at hab hbc ⊢
  rcases hab with hab | ⟨hab, htitle⟩
  · exact Or.inl (by omega)
  · rcases hbc with hbc | ⟨hbc, htitle'⟩
    · exact Or.inl (by omega)
    · exact Or.inr ⟨by omega, collation.trans _ _ _ htitle htitle'⟩

theorem mem_uniqueSorted {values : List (Option String)} {value : String} :
    value ∈ uniqueSorted values ↔ some value ∈ values ∧ value ≠ "" := by
  simp [uniqueSorted, List.mem_insertionSort]

theorem nodup_uniqueSorted (values : List (Option String)) :
    (uniqueSorted values).Nodup :=
  (List.perm_insertionSort _ _).nodup_iff.mpr (List.nodup_dedup _)

end Comparisons

end Security

end Workshop
