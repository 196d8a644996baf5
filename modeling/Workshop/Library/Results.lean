/-
Computations that answer a value or an error: what a successful answer says
about the computations it was made of.
-/
import Mathlib.Data.List.Forall2
import Mathlib.Data.List.Nodup
import Mathlib.Data.List.Perm.Basic
import Mathlib.Data.Option.Defs

namespace Workshop

universe u v w

variable {ε : Type u} {α : Type v} {β : Type v}

/-- A sequence that succeeded went through both of its parts. -/
theorem bind_eq_ok_iff {x : Except ε α} {f : α → Except ε β} {b : β} :
    (x >>= f) = .ok b ↔ ∃ a, x = .ok a ∧ f a = .ok b := by
  cases x with
  | error e => exact ⟨nofun, fun ⟨_, hx, _⟩ => nomatch hx⟩
  | ok a => exact ⟨fun h => ⟨a, rfl, h⟩, fun ⟨_, hx, hf⟩ => by cases hx; exact hf⟩

@[simp] theorem pure_eq_ok_iff {a b : α} :
    (pure a : Except ε α) = .ok b ↔ a = b :=
  ⟨fun h => by cases h; rfl, fun h => h ▸ rfl⟩

@[simp] theorem throw_eq_ok_iff {e : ε} {a : α} :
    (throw e : Except ε α) = .ok a ↔ False :=
  ⟨nofun, nofun⟩

theorem map_eq_ok_iff {x : Except ε α} {f : α → β} {b : β} :
    x.map f = .ok b ↔ ∃ a, x = .ok a ∧ f a = b := by
  cases x with
  | error e => exact ⟨nofun, fun ⟨_, hx, _⟩ => nomatch hx⟩
  | ok a =>
      refine ⟨fun h => ⟨a, rfl, by cases h; rfl⟩, fun ⟨_, hx, hf⟩ => ?_⟩
      cases hx
      exact congrArg Except.ok hf

/-- Mapping a list succeeds when every entry does, entry by entry. -/
theorem forall₂_of_mapM_eq_ok {f : α → Except ε β} :
    ∀ {l : List α} {m : List β}, l.mapM f = .ok m →
      List.Forall₂ (fun a b => f a = .ok b) l m
  | [], m, h => by
      rw [List.mapM_nil, pure_eq_ok_iff] at h
      subst h
      exact List.Forall₂.nil
  | a :: l, m, h => by
      rw [List.mapM_cons] at h
      obtain ⟨b, hb, h⟩ := bind_eq_ok_iff.mp h
      obtain ⟨bs, hbs, h⟩ := bind_eq_ok_iff.mp h
      rw [pure_eq_ok_iff] at h
      subst h
      exact List.Forall₂.cons hb (forall₂_of_mapM_eq_ok hbs)

/-- Every error a computation can answer is of one kind. -/
def ErrorsIn (p : ε → Prop) (x : Except ε α) : Prop := ∀ e, x = .error e → p e

section Errors

variable {p : ε → Prop}

theorem ErrorsIn.ok (a : α) : ErrorsIn p (.ok a) := nofun

theorem ErrorsIn.error {e : ε} (he : p e) : ErrorsIn p (.error e : Except ε α) := by
  intro e' h
  cases h
  exact he

theorem ErrorsIn.bind {x : Except ε α} {f : α → Except ε β} (hx : ErrorsIn p x)
    (hf : ∀ a, x = .ok a → ErrorsIn p (f a)) : ErrorsIn p (x >>= f) := by
  cases x with
  | error e => exact ErrorsIn.error (hx e rfl)
  | ok a => exact hf a rfl

theorem ErrorsIn.mapM {f : α → Except ε β} {l : List α}
    (hf : ∀ a ∈ l, ErrorsIn p (f a)) : ErrorsIn p (l.mapM f) := by
  induction l with
  | nil => exact ErrorsIn.ok []
  | cons a l ih =>
      rw [List.mapM_cons]
      refine ErrorsIn.bind (hf a List.mem_cons_self) fun b _ => ?_
      exact ErrorsIn.bind (ih fun a ha => hf a (List.mem_cons_of_mem _ ha))
        fun bs _ => ErrorsIn.ok (b :: bs)

end Errors

section Forall₂

variable {γ : Type u} {δ : Type v} {R : γ → δ → Prop} {l : List γ} {m : List δ}

/-- Every entry on the right stands beside one on the left. -/
theorem exists_left_of_forall₂ (h : List.Forall₂ R l m) {b : δ} (hb : b ∈ m) :
    ∃ a ∈ l, R a b := by
  induction h with
  | nil => simp at hb
  | cons hhead _ ih =>
      rcases List.mem_cons.mp hb with rfl | hb
      · exact ⟨_, List.mem_cons_self, hhead⟩
      · obtain ⟨a, ha, hab⟩ := ih hb
        exact ⟨a, List.mem_cons_of_mem _ ha, hab⟩

/-- Every entry on the left stands beside one on the right. -/
theorem exists_right_of_forall₂ (h : List.Forall₂ R l m) {a : γ} (ha : a ∈ l) :
    ∃ b ∈ m, R a b := by
  obtain ⟨b, hb, hab⟩ := exists_left_of_forall₂ h.flip ha
  exact ⟨b, hb, hab⟩

/-- What two lists agree on entry by entry they agree on as a whole. -/
theorem map_eq_map_of_forall₂ {κ : Type w} {f : γ → κ} {g : δ → κ}
    (h : List.Forall₂ (fun a b => f a = g b) l m) : l.map f = m.map g := by
  have hmaps : List.Forall₂ (· = ·) (l.map f) (m.map g) :=
    List.forall₂_map_left_iff.mpr (List.forall₂_map_right_iff.mpr h)
  rwa [List.forall₂_eq_eq_eq] at hmaps

/-- Mapping a list succeeds when every entry is known to. -/
theorem mapM_eq_ok_of_forall₂ {ε : Type w} {f : γ → Except ε δ}
    (h : List.Forall₂ (fun a b => f a = .ok b) l m) : l.mapM f = .ok m := by
  induction h with
  | nil => rfl
  | cons hhead _ ih =>
      rw [List.mapM_cons, hhead, ih]
      rfl

/-- What every entry is related to makes a list. -/
theorem exists_forall₂ (h : ∀ a ∈ l, ∃ b, R a b) : ∃ m, List.Forall₂ R l m := by
  induction l with
  | nil => exact ⟨[], List.Forall₂.nil⟩
  | cons a l ih =>
      obtain ⟨b, hb⟩ := h a List.mem_cons_self
      obtain ⟨m, hm⟩ := ih fun other hother => h other (List.mem_cons_of_mem a hother)
      exact ⟨b :: m, List.Forall₂.cons hb hm⟩

/-- Mapping a list succeeds when every entry can be mapped. -/
theorem exists_mapM_of_forall {ε : Type w} {f : γ → Except ε δ}
    (h : ∀ a ∈ l, ∃ b, f a = .ok b) : ∃ answers, l.mapM f = .ok answers := by
  obtain ⟨answers, hanswers⟩ := exists_forall₂ h
  exact ⟨answers, mapM_eq_ok_of_forall₂ hanswers⟩

/-- In any order, the entries on the right are read as those on the left. -/
theorem exists_mapM_of_forall₂ {ε : Type w} {f : δ → Except ε γ}
    (h : List.Forall₂ R l m) (hread : ∀ a b, R a b → f b = .ok a) {arranged : List δ}
    (hperm : arranged.Perm m) :
    ∃ answers, arranged.mapM f = .ok answers ∧ answers.Perm l := by
  have hflip : List.Forall₂ (fun b a => f b = .ok a) m l :=
    (h.imp hread).flip
  obtain ⟨answers, hanswers, hsame⟩ := List.perm_comp_forall₂ hperm hflip
  exact ⟨answers, mapM_eq_ok_of_forall₂ hanswers, hsame⟩

/-- An entry on the right splits both lists at the entry beside it. -/
theorem split_of_forall₂ {before : List δ} {b : δ} {after : List δ}
    (h : List.Forall₂ R l (before ++ b :: after)) :
    ∃ front a back, l = front ++ a :: back ∧ R a b ∧
      List.Forall₂ R front before := by
  have hfront := List.forall₂_take_append l before (b :: after) h
  have hback := List.forall₂_drop_append l before (b :: after) h
  obtain ⟨a, back, hab, -, hdrop⟩ := List.forall₂_cons_right_iff.mp hback
  refine ⟨l.take before.length, a, back, ?_, hab, hfront⟩
  rw [← hdrop, List.take_append_drop]

end Forall₂

section Splits

variable {γ : Type u} {front back earlier later : List γ} {a : γ}

/-- An entry of two lists one after the other stands in the first or in the
second. -/
theorem split_append (h : front ++ back = earlier ++ a :: later) :
    (∃ rest, front = earlier ++ a :: rest ∧ later = rest ++ back) ∨
      ∃ before, earlier = front ++ before ∧ back = before ++ a :: later := by
  rcases List.append_eq_append_iff.mp h with ⟨middle, hearlier, hback⟩ | ⟨middle, hfront, hrest⟩
  · exact Or.inr ⟨middle, hearlier, hback⟩
  · cases middle with
    | nil => exact Or.inr ⟨[], by rw [hfront, List.append_nil, List.append_nil], hrest.symm⟩
    | cons first middle =>
        obtain ⟨rfl, hlater⟩ := List.cons.inj hrest
        exact Or.inl ⟨middle, hfront, hlater⟩

end Splits

section Rel

variable {γ : Type u} {δ : Type v} {R : γ → δ → Prop} {x : Option γ} {y : Option δ}

/-- Two related options hold related values, or none at all. -/
theorem exists_right_of_rel (h : Option.Rel R x y) {a : γ} (ha : x = some a) :
    ∃ b, y = some b ∧ R a b := by
  subst ha
  cases h with
  | some hab => exact ⟨_, rfl, hab⟩

theorem exists_left_of_rel (h : Option.Rel R x y) {b : δ} (hb : y = some b) :
    ∃ a, x = some a ∧ R a b := by
  subst hb
  cases h with
  | some hab => exact ⟨_, rfl, hab⟩

theorem right_eq_none_of_rel (h : Option.Rel R x y) (hx : x = none) : y = none := by
  subst hx
  cases h
  rfl

end Rel

section Keys

variable {γ : Type u} {κ : Type v} {key : γ → κ} {l : List γ}

/-- One entry of a list whose keys are distinct has the key of that entry. -/
theorem filter_key_eq_singleton [DecidableEq κ] (hkeys : (l.map key).Nodup)
    {a : γ} (ha : a ∈ l) : l.filter (fun b => decide (key b = key a)) = [a] := by
  induction l with
  | nil => simp at ha
  | cons b l ih =>
      rw [List.map_cons, List.nodup_cons] at hkeys
      rcases List.mem_cons.mp ha with rfl | ha
      · have hnone : l.filter (fun b => decide (key b = key a)) = [] := by
          rw [List.filter_eq_nil_iff]
          intro other hother hkey
          exact hkeys.1 (of_decide_eq_true hkey ▸ List.mem_map_of_mem hother)
        simp [hnone]
      · have hne : key b ≠ key a := fun hkey =>
          hkeys.1 (hkey ▸ List.mem_map_of_mem ha)
        simp [hne, ih hkeys.2 ha]

/-- Entries told apart by a key stand at one place. -/
theorem eq_of_split (hkeys : (l.map key).Nodup) {front back front' back' : List γ}
    {a a' : γ} (h : l = front ++ a :: back) (h' : l = front' ++ a' :: back')
    (hkey : key a = key a') : front = front' ∧ a = a' ∧ back = back' := by
  subst h
  have hmem : a' ∈ front ++ a :: back := by simp [h']
  have hsame : a = a' := List.inj_on_of_nodup_map hkeys (by simp) hmem hkey
  subst hsame
  have hnodup := List.Nodup.of_map key hkeys
  have hfront : a ∉ front := fun hmem =>
    (List.nodup_append.mp hnodup).2.2 a hmem a List.mem_cons_self rfl
  have hback : a ∉ back :=
    (List.nodup_cons.mp (List.nodup_append.mp hnodup).2.1).1
  obtain ⟨hfronts, -, hbacks⟩ :=
    (List.append_cons_inj_of_notMem hfront hback).mp h'
  exact ⟨hfronts, rfl, hbacks⟩

end Keys

end Workshop
