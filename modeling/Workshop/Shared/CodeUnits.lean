/-
The order of strings in the source: `<` and `sort` compare UTF-16 code units, not
characters.
-/
import Mathlib.Data.List.Lex
import Mathlib.Data.List.Sort

namespace Workshop

/-- The code units of a character; one beyond the basic plane has two. -/
def charUnits (c : Char) : List Nat :=
  if c.toNat < 0x10000 then [c.toNat]
  else [0xD800 + (c.toNat - 0x10000) / 0x400, 0xDC00 + (c.toNat - 0x10000) % 0x400]

def codeUnits (text : String) : List Nat := text.toList.flatMap charUnits

/-- No character is a surrogate, and none is beyond the last plane. -/
theorem toNat_valid (c : Char) :
    c.toNat < 0xD800 ∨ 0xDFFF < c.toNat ∧ c.toNat < 0x110000 := c.valid

theorem charUnits_append_inj {c d : Char} {more rest : List Nat}
    (h : charUnits c ++ more = charUnits d ++ rest) : c = d ∧ more = rest := by
  have hc := toNat_valid c
  have hd := toNat_valid d
  have hsame : c.toNat = d.toNat ∧ more = rest := by
    unfold charUnits at h
    split at h <;> split at h <;>
      simp only [List.cons_append, List.nil_append, List.cons.injEq] at h
    · exact h
    · omega
    · omega
    · exact ⟨by omega, h.2.2⟩
  exact ⟨Char.toNat_inj.mp hsame.1, hsame.2⟩

theorem charUnits_ne_nil (c : Char) : charUnits c ≠ [] := by
  unfold charUnits
  split <;> exact List.cons_ne_nil _ _

/-- Strings with the same code units are the same. -/
theorem codeUnits_inj {left right : String} (h : codeUnits left = codeUnits right) :
    left = right := by
  have hunits : ∀ l m : List Char, l.flatMap charUnits = m.flatMap charUnits → l = m := by
    intro l
    induction l with
    | nil =>
        intro m hm
        cases m with
        | nil => rfl
        | cons d m =>
            rw [List.flatMap_nil, List.flatMap_cons, eq_comm] at hm
            exact absurd (List.append_eq_nil_iff.mp hm).1 (charUnits_ne_nil d)
    | cons c l ih =>
        intro m hm
        cases m with
        | nil =>
            rw [List.flatMap_nil, List.flatMap_cons] at hm
            exact absurd (List.append_eq_nil_iff.mp hm).1 (charUnits_ne_nil c)
        | cons d m =>
            rw [List.flatMap_cons, List.flatMap_cons] at hm
            obtain ⟨rfl, hrest⟩ := charUnits_append_inj hm
            rw [ih m hrest]
  exact String.toList_inj.mp (hunits _ _ h)

/-- Entries under different names, sorted, are in the strict order of their names. -/
theorem pairwise_sortedByName {β : Type*} {entries : List (String × β)}
    (hnames : (entries.map Prod.fst).Nodup) :
    (entries.insertionSort fun a b => codeUnits a.1 ≤ codeUnits b.1).Pairwise
      fun a b => codeUnits a.1 < codeUnits b.1 := by
  have : Std.Total fun a b : String × β => codeUnits a.1 ≤ codeUnits b.1 :=
    ⟨fun a b => le_total (codeUnits a.1) (codeUnits b.1)⟩
  have : IsTrans (String × β) fun a b => codeUnits a.1 ≤ codeUnits b.1 :=
    ⟨fun a b c => le_trans⟩
  have hsorted := List.pairwise_insertionSort
    (fun a b : String × β => codeUnits a.1 ≤ codeUnits b.1) entries
  have hnodup := ((List.perm_insertionSort
    (fun a b : String × β => codeUnits a.1 ≤ codeUnits b.1) entries).map
      Prod.fst).nodup_iff.mpr hnames
  rw [List.Nodup, List.pairwise_map] at hnodup
  refine (hsorted.and hnodup).imp fun hboth => lt_of_le_of_ne hboth.1 fun heq => ?_
  exact hboth.2 (codeUnits_inj heq)

end Workshop
