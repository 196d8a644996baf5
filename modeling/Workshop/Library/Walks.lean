/-
Lists of moves.  Every entry leads from one place to another, and a list is a
walk when each entry starts where the one before it ended.
-/
import Mathlib.Data.List.Chain
import Mathlib.Data.List.Destutter
import Mathlib.Data.List.Rotate

namespace Workshop

universe u v

variable {α : Type u} {κ : Type v}

/-- The list leads from the first place to the last. -/
def Walk (source target : α → κ) : κ → List α → κ → Prop
  | first, [], last => first = last
  | first, a :: l, last => source a = first ∧ Walk source target (target a) l last

instance Walk.decidable [DecidableEq κ] (source target : α → κ) :
    ∀ (first : κ) (l : List α) (last : κ), Decidable (Walk source target first l last)
  | first, [], last => inferInstanceAs (Decidable (first = last))
  | first, a :: l, last =>
      have := Walk.decidable source target (target a) l last
      inferInstanceAs (Decidable (source a = first ∧
        Walk source target (target a) l last))

/-- In a linked list every element but the last has a next one. -/
theorem exists_next_of_isChain {R : α → α → Prop} {l : List α} {last : α}
    (h : (l ++ [last]).IsChain R) : ∀ a ∈ l, ∃ b ∈ l ++ [last], R a b := by
  induction l with
  | nil => exact nofun
  | cons a l ih =>
      rw [List.cons_append, List.isChain_cons] at h
      intro other hother
      rcases List.mem_cons.mp hother with rfl | hother
      · cases hl : l ++ [last] with
        | nil => simp at hl
        | cons b rest =>
            rw [hl] at h
            refine ⟨b, ?_, h.1 b rfl⟩
            rw [List.cons_append, hl]
            exact List.mem_cons_of_mem _ List.mem_cons_self
      · obtain ⟨b, hb, hab⟩ := ih h.2 other hother
        exact ⟨b, List.mem_cons_of_mem _ hb, hab⟩

section Chains

variable {R : α → α → Prop} {l : List α} {a b : α}

/-- The last element of a linked list, exchanged for one that the elements link
to alike. -/
theorem isChain_concat_congr (h : (l ++ [a]).IsChain R) (hlink : ∀ c, R c a → R c b) :
    (l ++ [b]).IsChain R := by
  rw [List.isChain_append] at h ⊢
  refine ⟨h.1, List.isChain_singleton _, fun c hc last hlast => ?_⟩
  obtain rfl : b = last := by simpa using hlast
  exact hlink c (h.2.2 c hc a (by simp))

/-- A linked list goes on with what its last element links to. -/
theorem isChain_concat_concat (h : (l ++ [a]).IsChain R) (hlink : R a b) :
    (l ++ [a] ++ [b]).IsChain R := by
  refine h.append (List.isChain_singleton _) fun c hc last hlast => ?_
  obtain rfl : b = last := by simpa using hlast
  obtain rfl : a = c := by simpa using hc
  exact hlink

end Chains

section Walks

variable {source target : α → κ} {first last other : κ} {l m : List α} {a : α}

@[simp] theorem walk_nil : Walk source target first [] last ↔ first = last :=
  Iff.rfl

@[simp] theorem walk_cons : Walk source target first (a :: l) last ↔
    source a = first ∧ Walk source target (target a) l last := Iff.rfl

/-- A walk over two lists passes through one place between them. -/
theorem walk_append : Walk source target first (l ++ m) last ↔
    ∃ middle, Walk source target first l middle ∧
      Walk source target middle m last := by
  induction l generalizing first with
  | nil => simp
  | cons a l ih =>
      rw [List.cons_append, walk_cons, ih]
      constructor
      · rintro ⟨hsource, middle, hleft, hright⟩
        exact ⟨middle, ⟨hsource, hleft⟩, hright⟩
      · rintro ⟨middle, ⟨hsource, hleft⟩, hright⟩
        exact ⟨hsource, middle, hleft, hright⟩

theorem walk_concat : Walk source target first (l ++ [a]) last ↔
    Walk source target first l (source a) ∧ target a = last := by
  rw [walk_append]
  constructor
  · rintro ⟨middle, hwalk, rfl, hlast⟩
    exact ⟨hwalk, hlast⟩
  · rintro ⟨hwalk, hlast⟩
    exact ⟨source a, hwalk, rfl, hlast⟩

/-- The places of a walk, under other names. -/
theorem walk_map {β : Type*} {f : β → α} {l : List β} : Walk source target first (l.map f) last ↔
    Walk (source ∘ f) (target ∘ f) first l last := by
  induction l generalizing first with
  | nil => exact Iff.rfl
  | cons b l ih => exact and_congr_right fun _ => ih

/-- Where a walk ends, its places tell its moves. -/
theorem Walk.eq_of_sources {l m : List (κ × κ)} (h : Walk Prod.fst Prod.snd first l last)
    (hother : Walk Prod.fst Prod.snd other m last) (hsources : l.map Prod.fst = m.map Prod.fst) :
    first = other ∧ l = m := by
  induction l generalizing first other m with
  | nil =>
      obtain rfl : m = [] := List.map_eq_nil_iff.mp hsources.symm
      exact ⟨Eq.trans h (Eq.symm hother), rfl⟩
  | cons move l ih =>
      cases m with
      | nil => cases hsources
      | cons move' m =>
          rw [List.map_cons, List.map_cons, List.cons.injEq] at hsources
          obtain ⟨htarget, rfl⟩ := ih h.2 hother.2 hsources.2
          refine ⟨h.1.symm.trans (hsources.1.trans hother.1), ?_⟩
          rw [Prod.ext hsources.1 htarget]

/-- A closed walk is closed wherever it starts. -/
theorem Walk.rotate (h : Walk source target first l first) (n : Nat) :
    ∃ middle, Walk source target middle (l.rotate n) middle := by
  rw [List.rotate_eq_drop_append_take_mod]
  rw [← List.take_append_drop (n % l.length) l, walk_append] at h
  obtain ⟨middle, htake, hdrop⟩ := h
  exact ⟨middle, walk_append.mpr ⟨first, hdrop, htake⟩⟩

/-- A list leads from one place to at most one other. -/
theorem Walk.unique (h : Walk source target first l last)
    (hother : Walk source target first l other) : last = other := by
  induction l generalizing first with
  | nil => exact h.symm.trans hother
  | cons a l ih => exact ih h.2 hother.2

/-- A walk that gets anywhere has a move that leads there. -/
theorem Walk.exists_target (h : Walk source target first l last)
    (hne : first ≠ last) : ∃ a ∈ l, target a = last := by
  induction l generalizing first with
  | nil => exact absurd h hne
  | cons a l ih =>
      by_cases hlast : target a = last
      · exact ⟨a, List.mem_cons_self, hlast⟩
      · obtain ⟨b, hb, htarget⟩ := ih h.2 hlast
        exact ⟨b, List.mem_cons_of_mem a hb, htarget⟩

/-- Where moves are left out, none of which starts where another one left out
ended, the rest is a walk between the same places only if nothing is left out. -/
theorem walk_filter_iff {p : α → Bool} (h : Walk source target first l last)
    (hapart : ∀ a ∈ l, ∀ b ∈ l, p a = false → p b = false → target a ≠ source b) :
    Walk source target first (l.filter p) last ↔ ∀ a ∈ l, p a = true := by
  constructor
  · intro hfilter
    induction l generalizing first with
    | nil => exact fun _ ha => absurd ha List.not_mem_nil
    | cons a l ih =>
        have hrest : ∀ b ∈ l, ∀ c ∈ l, p b = false → p c = false →
            target b ≠ source c := fun b hb c hc =>
          hapart b (List.mem_cons_of_mem a hb) c (List.mem_cons_of_mem a hc)
        have ha := List.mem_cons_self (a := a) (l := l)
        by_cases hp : p a = true
        · rw [List.filter_cons_of_pos hp] at hfilter
          intro b hb
          rcases List.mem_cons.mp hb with rfl | hb
          · exact hp
          · exact ih h.2 hrest hfilter.2 b hb
        · -- The walk goes on from where `a` led, and the rest from where it began.
          have hhidden := Bool.eq_false_iff.mpr hp
          have hmoves := hapart a ha a ha hhidden hhidden
          rw [List.filter_cons_of_neg hp] at hfilter
          cases l with
          | nil => exact absurd (h.2.trans (h.1.trans hfilter).symm) hmoves
          | cons b l =>
              have hnext : source b = target a := h.2.1
              by_cases hb : p b = true
              · rw [List.filter_cons_of_pos hb] at hfilter
                exact absurd (hnext.symm.trans (hfilter.1.trans h.1.symm)) hmoves
              · exact absurd hnext.symm (hapart a ha b
                  (List.mem_cons_of_mem a List.mem_cons_self) hhidden
                  (Bool.eq_false_iff.mpr hb))
  · intro hall
    rwa [List.filter_eq_self.mpr hall]

end Walks

section Repeats

variable {β : Type v} {block : α → List β} {entry : α → Option β} {l : List α}

/-- What each element stands for, repeated or not at all. -/
def RepeatsEntry (block : α → List β) (entry : α → Option β) (a : α) : Prop :=
  (entry a = none ∧ block a = []) ∨
    ∃ b n, entry a = some b ∧ block a = List.replicate (n + 1) b

theorem head?_flatMap_entries (hblock : ∀ a ∈ l, RepeatsEntry block entry a) :
    (l.flatMap block).head? = (l.filterMap entry).head? := by
  induction l with
  | nil => rfl
  | cons a l ih =>
      rw [List.flatMap_cons]
      rcases hblock a List.mem_cons_self with ⟨hentry, hnil⟩ | ⟨b, n, hentry, hrun⟩
      · rw [hnil, List.nil_append, List.filterMap_cons_none hentry]
        exact ih fun other hother => hblock other (List.mem_cons_of_mem a hother)
      · rw [hrun, List.filterMap_cons_some hentry]
        rfl

variable [DecidableEq β]

/-- A run of one element before another element is kept once. -/
theorem destutter_replicate_append {b : β} {m : List β} (hne : m.head? ≠ some b)
    (n : ℕ) : (List.replicate (n + 1) b ++ m).destutter (· ≠ ·) =
      b :: m.destutter (· ≠ ·) := by
  rw [List.replicate_succ, List.cons_append, List.destutter_cons']
  induction n with
  | zero =>
      cases m with
      | nil => rfl
      | cons c m =>
          have hbc : b ≠ c := fun heq => hne (congrArg some heq.symm)
          rw [List.replicate_zero, List.nil_append, List.destutter'_cons_pos _ hbc,
            List.destutter_cons']
  | succ n ih =>
      rw [List.replicate_succ, List.cons_append,
        List.destutter'_cons_neg _ (not_not.mpr rfl), ih]

/-- Runs that stand for entries of which no two neighbours are the same merge to
these entries. -/
theorem destutter_flatMap (hblock : ∀ a ∈ l, RepeatsEntry block entry a)
    (hne : (l.filterMap entry).IsChain (· ≠ ·)) :
    (l.flatMap block).destutter (· ≠ ·) = l.filterMap entry := by
  induction l with
  | nil => rfl
  | cons a l ih =>
      have hrest : ∀ other ∈ l, RepeatsEntry block entry other :=
        fun other hother => hblock other (List.mem_cons_of_mem a hother)
      rw [List.flatMap_cons]
      rcases hblock a List.mem_cons_self with ⟨hentry, hnil⟩ | ⟨b, n, hentry, hrun⟩
      · rw [List.filterMap_cons_none hentry] at hne ⊢
        rw [hnil, List.nil_append]
        exact ih hrest hne
      · rw [List.filterMap_cons_some hentry, List.isChain_cons] at hne
        rw [List.filterMap_cons_some hentry, hrun, destutter_replicate_append,
          ih hrest hne.2]
        rw [head?_flatMap_entries hrest]
        exact fun hhead => hne.1 b hhead rfl

end Repeats

end Workshop
