/-
Texts as the value objects tidy them: the white space `\s` matches, taken off both
ends and, in a name, reduced to single blanks within.
-/
import Mathlib.Data.List.DropRight
import Mathlib.Data.List.TakeWhile

namespace Workshop

/-- The white space and the line ends that `\s` matches and `trim` takes off. -/
def isSpace (c : Char) : Bool :=
  c.toNat ∈ [0x9, 0xA, 0xB, 0xC, 0xD, 0x20, 0xA0, 0x1680, 0x2028, 0x2029, 0x202F,
    0x205F, 0x3000, 0xFEFF] || (0x2000 ≤ c.toNat && c.toNat ≤ 0x200A)

def trimChars (chars : List Char) : List Char :=
  (chars.dropWhile isSpace).rdropWhile isSpace

/-- `replace(/\s+/g, ' ')`, where the character before may be white space already. -/
def collapseFrom : (afterSpace : Bool) → List Char → List Char
  | _, [] => []
  | afterSpace, c :: rest =>
      if isSpace c then
        if afterSpace then collapseFrom true rest else ' ' :: collapseFrom true rest
      else c :: collapseFrom false rest

def collapseSpaces (chars : List Char) : List Char := collapseFrom false chars

/-- `trim` -/
def trim (text : String) : String := String.ofList (trimChars text.toList)

/-- `trim().replace(/\s+/g, ' ')` -/
def tidyName (text : String) : String :=
  String.ofList (collapseSpaces (trimChars text.toList))

/-- No white space at either end. -/
structure Trimmed (chars : List Char) : Prop where
  head : chars.dropWhile isSpace = chars
  last : chars.rdropWhile isSpace = chars

/-- Every run of white space is one blank. -/
def isCollapsedFrom : (afterSpace : Bool) → List Char → Bool
  | _, [] => true
  | afterSpace, c :: rest =>
      if isSpace c then !afterSpace && c = ' ' && isCollapsedFrom true rest
      else isCollapsedFrom false rest

section Trimming

variable {chars : List Char} {c : Char}

theorem Trimmed.trimChars_eq (h : Trimmed chars) : trimChars chars = chars := by
  rw [trimChars, h.head, h.last]

theorem dropWhile_append_of_head {more : List Char}
    (h : (c :: more).dropWhile isSpace = c :: more) : isSpace c = false := by
  cases hspace : isSpace c with
  | false => rfl
  | true =>
      rw [List.dropWhile_cons_of_pos hspace] at h
      have hlength := congrArg List.length h
      have hle := (List.dropWhile_suffix isSpace (l := more)).length_le
      rw [List.length_cons] at hlength
      omega

theorem trimmed_trimChars (chars : List Char) : Trimmed (trimChars chars) := by
  refine ⟨?_, List.rdropWhile_idempotent isSpace _⟩
  have hdropped := List.dropWhile_idempotent isSpace (l := chars)
  obtain ⟨rest, hrest⟩ := List.rdropWhile_prefix isSpace (l := chars.dropWhile isSpace)
  change trimChars chars ++ rest = _ at hrest
  cases hcase : trimChars chars with
  | nil => rfl
  | cons c kept =>
      rw [← hrest, hcase, List.cons_append] at hdropped
      exact List.dropWhile_cons_of_neg (by rw [dropWhile_append_of_head hdropped]; simp)

theorem collapseFrom_concat (hspace : isSpace c = false) (afterSpace : Bool) :
    collapseFrom afterSpace (chars ++ [c]) = collapseFrom afterSpace chars ++ [c] := by
  induction chars generalizing afterSpace with
  | nil => simp [collapseFrom, hspace]
  | cons first rest ih =>
      rw [List.cons_append, collapseFrom, collapseFrom]
      split
      · split
        · exact ih true
        · rw [ih true, List.cons_append]
      · rw [ih false, List.cons_append]

theorem isCollapsedFrom_collapseFrom (afterSpace : Bool) (chars : List Char) :
    isCollapsedFrom afterSpace (collapseFrom afterSpace chars) = true := by
  have hblank : isSpace ' ' = true := by decide
  induction chars generalizing afterSpace with
  | nil => rfl
  | cons c rest ih =>
      rw [collapseFrom]
      split
      · cases afterSpace with
        | true => exact ih true
        | false => simp [isCollapsedFrom, hblank, ih true]
      · rename_i hspace
        simp [isCollapsedFrom, hspace, ih false]

theorem collapseFrom_of_isCollapsedFrom {afterSpace : Bool}
    (h : isCollapsedFrom afterSpace chars = true) :
    collapseFrom afterSpace chars = chars := by
  induction chars generalizing afterSpace with
  | nil => rfl
  | cons c rest ih =>
      rw [isCollapsedFrom] at h
      rw [collapseFrom]
      split
      · rename_i hspace
        rw [if_pos hspace] at h
        simp only [Bool.and_eq_true, Bool.not_eq_true', decide_eq_true_eq] at h
        obtain ⟨⟨rfl, rfl⟩, hrest⟩ := h
        rw [if_neg Bool.false_ne_true, ih hrest]
      · rename_i hspace
        rw [if_neg hspace] at h
        rw [ih h]

theorem Trimmed.collapseSpaces (h : Trimmed chars) : Trimmed (collapseSpaces chars) := by
  rcases List.eq_nil_or_concat chars with rfl | ⟨front, last, rfl⟩
  · exact h
  · rw [List.concat_eq_append] at h ⊢
    have hlast : isSpace last = false := by
      have hnot := List.rdropWhile_eq_self_iff.mp h.last (by simp)
      simpa using hnot
    have hcollapsed : collapseFrom false (front ++ [last]) =
        collapseFrom false front ++ [last] := collapseFrom_concat hlast false
    constructor
    · cases front with
      | nil => simp [Workshop.collapseSpaces, collapseFrom, hlast]
      | cons first rest =>
          have hfirst := dropWhile_append_of_head h.head
          rw [Workshop.collapseSpaces, List.cons_append, collapseFrom,
            if_neg (by rw [hfirst]; simp)]
          exact List.dropWhile_cons_of_neg (by rw [hfirst]; simp)
    · rw [Workshop.collapseSpaces, hcollapsed]
      exact List.rdropWhile_concat_neg _ _ _ (by rw [hlast]; simp)

/-- A tidied name is tidied already. -/
theorem tidyName_tidyName (text : String) : tidyName (tidyName text) = tidyName text := by
  have htrimmed := (trimmed_trimChars text.toList).collapseSpaces
  have hcollapsed := isCollapsedFrom_collapseFrom false (trimChars text.toList)
  rw [tidyName, tidyName, String.toList_ofList, htrimmed.trimChars_eq]
  exact congrArg String.ofList (collapseFrom_of_isCollapsedFrom hcollapsed)

end Trimming

end Workshop
