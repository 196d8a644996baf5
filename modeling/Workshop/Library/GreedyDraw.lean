/-
Drawing a quantity from a list of offers, the first offer first.  One want
never takes more from an offer than it holds; several wants that all start
from the same offers can, and the last section says exactly when they do.
-/
import Workshop.Library.KeyedSums

namespace Workshop

universe u

variable {κ : Type u}

/-- The draws that cover `want` from the offers in the order they stand. -/
def allocate : List (κ × Int) → Int → List (κ × Int)
  | [], _ => []
  | offer :: offers, want =>
      if want ≤ 0 then []
      else
        (offer.1, min want offer.2) :: allocate offers (want - min want offer.2)

/-- What a list of draws takes in all. -/
def drawnTotal (draws : List (κ × Int)) : Int :=
  sumWhere (fun _ => true) Prod.snd draws

/-- What a list of draws takes from one key. -/
def drawnFrom [DecidableEq κ] (k : κ) (draws : List (κ × Int)) : Int :=
  sumWhere (fun draw => decide (draw.1 = k)) Prod.snd draws

@[simp] theorem allocate_nil (want : Int) :
    allocate ([] : List (κ × Int)) want = [] := rfl

theorem allocate_of_nonpos {want : Int} (offers : List (κ × Int))
    (hwant : want ≤ 0) : allocate offers want = [] := by
  cases offers with
  | nil => rfl
  | cons offer offers => simp [allocate, hwant]

theorem allocate_cons_of_pos {want : Int} (offer : κ × Int)
    (offers : List (κ × Int)) (hwant : 0 < want) :
    allocate (offer :: offers) want =
      (offer.1, min want offer.2) :: allocate offers (want - min want offer.2) := by
  rw [allocate, if_neg (by omega)]

@[simp] theorem drawnTotal_nil : drawnTotal ([] : List (κ × Int)) = 0 := rfl

@[simp] theorem drawnTotal_cons (draw : κ × Int) (draws : List (κ × Int)) :
    drawnTotal (draw :: draws) = draw.2 + drawnTotal draws := by
  simp [drawnTotal, sumWhere_cons]

/-- Every draw takes something, and no more than its offer holds. -/
theorem mem_allocate {offers : List (κ × Int)}
    (hpos : ∀ offer ∈ offers, 0 < offer.2) {want : Int} {draw : κ × Int}
    (hmem : draw ∈ allocate offers want) :
    0 < draw.2 ∧ ∃ offer ∈ offers, offer.1 = draw.1 ∧ draw.2 ≤ offer.2 := by
  induction offers generalizing want with
  | nil => simp at hmem
  | cons offer offers ih =>
      have hoffer := hpos offer List.mem_cons_self
      by_cases hwant : want ≤ 0
      · simp [allocate_of_nonpos _ hwant] at hmem
      · rw [allocate_cons_of_pos _ _ (by omega), List.mem_cons] at hmem
        rcases hmem with rfl | hmem
        · refine ⟨by simp only; omega, offer, List.mem_cons_self, rfl, ?_⟩
          exact min_le_right _ _
        · obtain ⟨hdraw, other, hother, hkey, hle⟩ :=
            ih (fun o ho => hpos o (List.mem_cons_of_mem offer ho)) hmem
          exact ⟨hdraw, other, List.mem_cons_of_mem offer hother, hkey, hle⟩

/-- The draws cover the want as far as the offers reach. -/
theorem drawnTotal_allocate {offers : List (κ × Int)}
    (hpos : ∀ offer ∈ offers, 0 < offer.2) {want : Int} (hwant : 0 ≤ want) :
    drawnTotal (allocate offers want) = min want (drawnTotal offers) := by
  induction offers generalizing want with
  | nil => simp [hwant]
  | cons offer offers ih =>
      have hoffer := hpos offer List.mem_cons_self
      have hrest : ∀ o ∈ offers, 0 < o.2 :=
        fun o ho => hpos o (List.mem_cons_of_mem offer ho)
      have hnonneg : 0 ≤ drawnTotal offers :=
        sumWhere_nonneg fun o ho _ => (hrest o ho).le
      rcases hwant.lt_or_eq with hlt | rfl
      · rw [allocate_cons_of_pos _ _ hlt, drawnTotal_cons, drawnTotal_cons,
          ih hrest (by omega)]
        simp only
        omega
      · rw [allocate_of_nonpos _ (Int.le_refl 0), drawnTotal_cons, drawnTotal_nil]
        omega

/-- A want the first offer covers takes everything from it. -/
theorem allocate_of_le_first {offer : κ × Int} (offers : List (κ × Int))
    {want : Int} (hwant : 0 < want) (hle : want ≤ offer.2) :
    allocate (offer :: offers) want = [(offer.1, want)] := by
  rw [allocate_cons_of_pos _ _ hwant, min_eq_left hle,
    allocate_of_nonpos _ (by omega)]

section Keys

variable [DecidableEq κ]

@[simp] theorem drawnFrom_nil (k : κ) : drawnFrom k [] = 0 := rfl

theorem drawnFrom_cons (k : κ) (draw : κ × Int) (draws : List (κ × Int)) :
    drawnFrom k (draw :: draws) =
      (if draw.1 = k then draw.2 else 0) + drawnFrom k draws := by
  simp [drawnFrom, sumWhere_cons]

@[simp] theorem drawnFrom_append (k : κ) (draws more : List (κ × Int)) :
    drawnFrom k (draws ++ more) = drawnFrom k draws + drawnFrom k more := by
  simp [drawnFrom]

theorem drawnFrom_eq_zero {k : κ} {draws : List (κ × Int)}
    (hnone : ∀ draw ∈ draws, draw.1 ≠ k) : drawnFrom k draws = 0 :=
  sumWhere_eq_zero fun draw hdraw hkey =>
    absurd (of_decide_eq_true hkey) (hnone draw hdraw)

/-- One want takes from an offer at most what it holds. -/
theorem drawnFrom_allocate_le {offers : List (κ × Int)}
    (hpos : ∀ offer ∈ offers, 0 < offer.2)
    (hnodup : (offers.map Prod.fst).Nodup) {want : Int} {offer : κ × Int}
    (hmem : offer ∈ offers) :
    drawnFrom offer.1 (allocate offers want) ≤ offer.2 := by
  induction offers generalizing want with
  | nil => simp at hmem
  | cons first offers ih =>
      rw [List.map_cons, List.nodup_cons] at hnodup
      have hrest : ∀ o ∈ offers, 0 < o.2 :=
        fun o ho => hpos o (List.mem_cons_of_mem first ho)
      have hoffer := hpos offer hmem
      by_cases hwant : want ≤ 0
      · rw [allocate_of_nonpos _ hwant, drawnFrom_nil]
        omega
      rw [allocate_cons_of_pos _ _ (by omega), drawnFrom_cons]
      rcases List.mem_cons.mp hmem with rfl | hmem
      · have hnone : drawnFrom offer.1
            (allocate offers (want - min want offer.2)) = 0 := by
          refine drawnFrom_eq_zero fun draw hdraw hkey => hnodup.1 ?_
          obtain ⟨_, other, hother, hsame, _⟩ := mem_allocate hrest hdraw
          exact List.mem_map.mpr ⟨other, hother, hsame.trans hkey⟩
        rw [hnone]
        simp
      · have hne : first.1 ≠ offer.1 := fun heq =>
          hnodup.1 (heq ▸ List.mem_map_of_mem hmem)
        have htail : drawnFrom offer.1
            (allocate offers (want - min want first.2)) ≤ offer.2 :=
          ih hrest hnodup.2 hmem
        simpa [hne] using htail

/-- What several wants take from one key when each of them starts from the
same offers. -/
def drawnByAll (k : κ) (offers : List (κ × Int)) (wants : List Int) : Int :=
  drawnFrom k (wants.flatMap (allocate offers))

@[simp] theorem drawnByAll_nil (k : κ) (offers : List (κ × Int)) :
    drawnByAll k offers [] = 0 := rfl

@[simp] theorem drawnByAll_cons (k : κ) (offers : List (κ × Int)) (want : Int)
    (wants : List Int) :
    drawnByAll k offers (want :: wants) =
      drawnFrom k (allocate offers want) + drawnByAll k offers wants := by
  simp [drawnByAll]

/-- Wants that start from the same offers stay within them when at most one
of them wants anything, or when all together they want no more than the first
offer holds. -/
def Fits (offers : List (κ × Int)) (wants : List Int) : Prop :=
  (wants.filter (0 < ·)).length ≤ 1 ∨
    ∀ first ∈ offers.head?, sumWhere (0 < ·) id wants ≤ first.2

instance (offers : List (κ × Int)) (wants : List Int) :
    Decidable (Fits offers wants) :=
  inferInstanceAs (Decidable (_ ∨ ∀ first ∈ offers.head?, _ ≤ first.2))

section Wants

/-- Cutting every want down to `bound` leaves at least the sum cut down. -/
theorem min_le_sumWhere_min {bound : Int} (hbound : 0 ≤ bound)
    (wants : List Int) :
    min bound (sumWhere (0 < ·) id wants) ≤
      sumWhere (0 < ·) (fun want => min want bound) wants := by
  induction wants with
  | nil => simp [hbound]
  | cons want wants ih =>
      rw [sumWhere_cons, sumWhere_cons]
      by_cases hwant : 0 < want
      · have hnonneg : 0 ≤ sumWhere (0 < ·) (fun w => min w bound) wants :=
          sumWhere_nonneg fun w _ hw => by
            have := of_decide_eq_true hw
            omega
        simp only [hwant, decide_true, if_true, id]
        omega
      · simpa [hwant] using ih

/-- Two positive wants that exceed `bound` together still exceed it once each
is cut down to it. -/
theorem lt_sumWhere_min {bound : Int} (hbound : 0 < bound) {wants : List Int}
    (htwo : 2 ≤ (wants.filter (0 < ·)).length)
    (hsum : bound < sumWhere (0 < ·) id wants) :
    bound < sumWhere (0 < ·) (fun want => min want bound) wants := by
  induction wants with
  | nil => simp at htwo
  | cons want wants ih =>
      by_cases hwant : 0 < want
      · have hone : 1 ≤ (wants.filter (0 < ·)).length := by
          simpa [hwant] using htwo
        obtain ⟨other, hother⟩ := List.exists_mem_of_length_pos hone
        obtain ⟨hmem, hpos⟩ := List.mem_filter.mp hother
        have hcut : min other bound ≤
            sumWhere (0 < ·) (fun w => min w bound) wants :=
          le_sumWhere_of_mem (f := fun w => min w bound)
            (fun w _ hw => by have := of_decide_eq_true hw; omega) hmem hpos
        have hlow := min_le_sumWhere_min hbound.le wants
        have hother : 0 < other := of_decide_eq_true hpos
        rw [sumWhere_cons] at hsum ⊢
        simp only [hwant, decide_true, if_true, id] at hsum ⊢
        omega
      · rw [sumWhere_cons] at hsum ⊢
        simp only [hwant, decide_false, Bool.false_eq_true, if_false,
          zero_add] at hsum ⊢
        exact ih (by simpa [hwant] using htwo) hsum

end Wants

variable {first : κ × Int} {offers : List (κ × Int)}

/-- What a want takes from the first offer. -/
theorem drawnFrom_allocate_first
    (hpos : ∀ offer ∈ first :: offers, 0 < offer.2)
    (hnodup : ((first :: offers).map Prod.fst).Nodup) (want : Int) :
    drawnFrom first.1 (allocate (first :: offers) want) =
      if 0 < want then min want first.2 else 0 := by
  by_cases hwant : 0 < want
  · rw [List.map_cons, List.nodup_cons] at hnodup
    have hnone : drawnFrom first.1
        (allocate offers (want - min want first.2)) = 0 := by
      refine drawnFrom_eq_zero fun draw hdraw hkey => hnodup.1 ?_
      obtain ⟨_, other, hother, hsame, _⟩ := mem_allocate
        (fun o ho => hpos o (List.mem_cons_of_mem first ho)) hdraw
      exact List.mem_map.mpr ⟨other, hother, hsame.trans hkey⟩
    rw [allocate_cons_of_pos _ _ hwant, drawnFrom_cons, hnone]
    simp [hwant]
  · rw [allocate_of_nonpos _ (by omega), drawnFrom_nil, if_neg hwant]

/-- What several wants take from the first offer. -/
theorem drawnByAll_first
    (hpos : ∀ offer ∈ first :: offers, 0 < offer.2)
    (hnodup : ((first :: offers).map Prod.fst).Nodup) (wants : List Int) :
    drawnByAll first.1 (first :: offers) wants =
      sumWhere (0 < ·) (fun want => min want first.2) wants := by
  induction wants with
  | nil => rfl
  | cons want wants ih =>
      rw [drawnByAll_cons, drawnFrom_allocate_first hpos hnodup, ih, sumWhere_cons]
      simp

/-- Wants below the first offer leave every other offer alone. -/
theorem drawnByAll_eq_zero_of_le_first {wants : List Int}
    (hle : ∀ want ∈ wants, want ≤ first.2) {k : κ} (hne : k ≠ first.1) :
    drawnByAll k (first :: offers) wants = 0 := by
  refine drawnFrom_eq_zero fun draw hdraw hkey => ?_
  obtain ⟨want, hmem, hdraw⟩ := List.mem_flatMap.mp hdraw
  by_cases hwant : 0 < want
  · rw [allocate_of_le_first _ hwant (hle want hmem), List.mem_singleton] at hdraw
    exact hne (by rw [← hkey, hdraw])
  · simp [allocate_of_nonpos _ (not_lt.mp hwant)] at hdraw

/-- With at most one positive want, all of them take what one takes. -/
theorem drawnByAll_le_of_single {wants : List Int}
    (hone : (wants.filter (0 < ·)).length ≤ 1) {offers : List (κ × Int)}
    (hpos : ∀ offer ∈ offers, 0 < offer.2)
    (hnodup : (offers.map Prod.fst).Nodup) {offer : κ × Int}
    (hmem : offer ∈ offers) : drawnByAll offer.1 offers wants ≤ offer.2 := by
  induction wants with
  | nil => exact (hpos offer hmem).le
  | cons want wants ih =>
      rw [drawnByAll_cons]
      by_cases hwant : 0 < want
      · have hnone : (wants.filter (0 < ·)).length = 0 := by
          simpa [hwant] using hone
        have hrest : drawnByAll offer.1 offers wants = 0 := by
          refine drawnFrom_eq_zero fun draw hdraw _ => ?_
          obtain ⟨other, hother, hdraw⟩ := List.mem_flatMap.mp hdraw
          have hlow : ¬ 0 < other := fun h => by
            have hmem : other ∈ wants.filter (0 < ·) :=
              List.mem_filter.mpr ⟨hother, decide_eq_true h⟩
            exact absurd (List.length_pos_of_mem hmem) (by omega)
          simp [allocate_of_nonpos _ (not_lt.mp hlow)] at hdraw
        rw [hrest, add_zero]
        exact drawnFrom_allocate_le hpos hnodup hmem
      · rw [allocate_of_nonpos _ (not_lt.mp hwant), drawnFrom_nil, zero_add]
        exact ih (by simpa [hwant] using hone)

/-- Several wants that start from the same offers keep within every offer
exactly when they fit. -/
theorem drawnByAll_le_iff_fits {offers : List (κ × Int)} {wants : List Int}
    (hpos : ∀ offer ∈ offers, 0 < offer.2)
    (hnodup : (offers.map Prod.fst).Nodup) :
    (∀ offer ∈ offers, drawnByAll offer.1 offers wants ≤ offer.2) ↔
      Fits offers wants := by
  constructor
  · intro hwithin
    cases offers with
    | nil => exact Or.inr (by simp)
    | cons first offers =>
        have hfirst := hwithin first List.mem_cons_self
        rw [drawnByAll_first hpos hnodup] at hfirst
        by_cases htwo : 2 ≤ (wants.filter (0 < ·)).length
        · refine Or.inr ?_
          intro head hhead
          obtain rfl : first = head := by simpa using hhead
          by_contra hover
          have hcut := lt_sumWhere_min (hpos first List.mem_cons_self) htwo
            (not_le.mp hover)
          omega
        · exact Or.inl (by omega)
  · rintro (hone | hsum) offer hmem
    · exact drawnByAll_le_of_single hone hpos hnodup hmem
    · cases offers with
      | nil => simp at hmem
      | cons first offers =>
          have htotal : sumWhere (0 < ·) id wants ≤ first.2 :=
            hsum first (by simp)
          have hfirst := hpos first List.mem_cons_self
          have hle : ∀ want ∈ wants, want ≤ first.2 := by
            intro want hwant
            by_cases hpositive : 0 < want
            · have := le_sumWhere_of_mem (f := id)
                (fun w _ hw => (of_decide_eq_true hw : 0 < w).le) hwant
                (decide_eq_true hpositive)
              exact this.trans htotal
            · omega
          by_cases hkey : offer.1 = first.1
          · have hsame : offer = first := by
              rcases List.mem_cons.mp hmem with rfl | hmem
              · rfl
              · rw [List.map_cons, List.nodup_cons] at hnodup
                exact absurd (hkey ▸ List.mem_map_of_mem hmem) hnodup.1
            subst hsame
            rw [drawnByAll_first hpos hnodup]
            refine le_trans (sumWhere_le fun w _ _ => ?_) htotal
            exact min_le_left _ _
          · rw [drawnByAll_eq_zero_of_le_first hle hkey]
            exact (hpos offer hmem).le

end Keys

end Workshop
