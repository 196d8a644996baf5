/-
Breadth-first search.  The steps out of a vertex are given in an order, a vertex is
arrived at once, and the way to a vertex is read off the steps the vertices were
arrived at by.  The search is bounded by the number of vertices.
-/
import Mathlib.Data.List.Nodup
import Mathlib.Data.List.Perm.Subperm
import Workshop.Library.Upserts
import Workshop.Library.Walks

namespace Workshop

universe u v w

/-- The steps the vertices were arrived at by, the vertices whose steps were not
looked at yet, and the vertices seen. -/
structure Frontier (α : Type u) (σ : Type v) where
  arrivedBy : List (α × σ)
  waiting : List α
  seen : List α

namespace Frontier

variable {α : Type u} {σ : Type v}

def start (first : α) : Frontier α σ := ⟨[], [first], [first]⟩

variable [DecidableEq α]

/-- Takes a step to a vertex that was not seen before. -/
def arrive (target : σ → α) (frontier : Frontier α σ) (step : σ) : Frontier α σ :=
  if target step ∈ frontier.seen then frontier
  else
    { arrivedBy := frontier.arrivedBy ++ [(target step, step)]
      waiting := frontier.waiting ++ [target step]
      seen := frontier.seen ++ [target step] }

def arrivalAt (frontier : Frontier α σ) (vertex : α) : Option σ :=
  (frontier.arrivedBy.find? fun entry => entry.1 = vertex).map Prod.snd

/-- Looks at the waiting vertices in turn until the goal was arrived at.  `none` means
that the bound was reached. -/
def search (target : σ → α) (next : α → List σ) (goal : α) :
    Nat → Frontier α σ → Option (Frontier α σ)
  | 0, _ => none
  | fuel + 1, frontier =>
      match frontier.waiting with
      | [] => some frontier
      | vertex :: waiting =>
          if (frontier.arrivalAt goal).isSome then some frontier
          else search target next goal fuel
            ((next vertex).foldl (arrive target) { frontier with waiting })

/-- Goes back from a vertex to the first one, ahead of the path that leads on from it.
`some none` means that the vertex was not arrived at. -/
def walkBack (source : σ → α) (frontier : Frontier α σ) (first : α) :
    Nat → α → List σ → Option (Option (List σ))
  | 0, _, _ => none
  | fuel + 1, current, path =>
      if current = first then some (some path)
      else
        match frontier.arrivalAt current with
        | none => some none
        | some step => walkBack source frontier first fuel (source step) (step :: path)

end Frontier

/-- The fewest steps from the first vertex to the goal, if any. -/
def shortestWay {α : Type u} {σ : Type v} [DecidableEq α] (source target : σ → α)
    (next : α → List σ) (first goal : α) (fuel : Nat) : Option (Option (List σ)) :=
  (Frontier.search target next goal fuel (.start first)).bind fun frontier =>
    frontier.walkBack source first fuel goal []

/-- What a search keeps: the queue is in the order of the distances, which differ by one
at most among the waiting vertices, and only the `todo` steps of the vertices looked at
may lead to a vertex that is not in the queue. -/
structure Layered {α : Type u} {σ : Type v} (source target : σ → α) (next : α → List σ)
    (first : α) (depth : α → Nat) (expanded : List α) (todo : List σ)
    (frontier : Frontier α σ) : Prop where
  nodup : (expanded ++ frontier.waiting).Nodup
  seen : ∀ v, v ∈ frontier.seen ↔ v ∈ expanded ++ frontier.waiting
  started : first ∈ expanded ++ frontier.waiting
  atStart : depth first = 0
  ordered : (expanded ++ frontier.waiting).Pairwise fun a b => depth a ≤ depth b
  close : ∀ w ∈ frontier.waiting, ∀ v ∈ expanded ++ frontier.waiting,
    depth v ≤ depth w + 1
  arrived : ∀ entry ∈ frontier.arrivedBy, target entry.2 = entry.1 ∧
    entry.2 ∈ next (source entry.2) ∧ source entry.2 ∈ expanded ∧
    depth entry.1 = depth (source entry.2) + 1 ∧ entry.1 ∈ expanded ++ frontier.waiting
  arrivedOnce : (frontier.arrivedBy.map Prod.fst).Nodup
  arrivals : ∀ v ∈ expanded ++ frontier.waiting, v = first ∨
    ∃ step, (v, step) ∈ frontier.arrivedBy
  closed : ∀ v ∈ expanded, ∀ step ∈ next v, step ∈ todo ∨
    target step ∈ expanded ++ frontier.waiting ∧ depth (target step) ≤ depth v + 1
  todoNear : ∀ step ∈ todo, step ∈ next (source step) ∧ source step ∈ expanded ∧
    ∀ v ∈ expanded ++ frontier.waiting, depth v ≤ depth (source step) + 1
  shallow : ∀ v ∈ expanded ++ frontier.waiting,
    depth v < (expanded ++ frontier.waiting).length

namespace Layered

open Frontier

variable {α : Type u} {σ : Type v} {source target : σ → α} {next : α → List σ}
variable {first goal : α} {depth : α → Nat} {expanded waiting : List α} {todo : List σ}
variable {frontier : Frontier α σ} {step : σ} {vertex : α} {depth' : α → Nat}

theorem start (source target : σ → α) (next : α → List σ) (first : α) :
    Layered source target next first (fun _ => 0) [] [] (.start first) where
  nodup := List.nodup_singleton _
  seen := fun _ => Iff.rfl
  started := List.mem_singleton_self _
  atStart := rfl
  ordered := List.pairwise_singleton _ _
  close := fun _ _ _ _ => Nat.zero_le _
  arrived := fun _ h => absurd h List.not_mem_nil
  arrivedOnce := List.nodup_nil
  arrivals := fun _ h => Or.inl (List.mem_singleton.mp h)
  closed := fun _ h => absurd h List.not_mem_nil
  todoNear := fun _ h => absurd h List.not_mem_nil
  shallow := fun _ _ => Nat.zero_lt_one

/-- The first waiting vertex is looked at: all its steps are to do. -/
theorem look (h : Layered source target next first depth expanded [] frontier)
    (hwaiting : frontier.waiting = vertex :: waiting)
    (hsource : ∀ v, ∀ step ∈ next v, source step = v) :
    Layered source target next first depth (expanded ++ [vertex]) (next vertex)
      { frontier with waiting } := by
  have hqueue : expanded ++ [vertex] ++ waiting = expanded ++ frontier.waiting := by
    rw [hwaiting, List.append_assoc, List.singleton_append]
  have hvertex : vertex ∈ frontier.waiting := by
    rw [hwaiting]
    exact List.mem_cons_self
  refine ⟨?_, ?_, ?_, h.atStart, ?_, ?_, ?_, h.arrivedOnce, ?_, ?_, ?_, ?_⟩
  · rw [hqueue]
    exact h.nodup
  · rw [hqueue]
    exact h.seen
  · rw [hqueue]
    exact h.started
  · rw [hqueue]
    exact h.ordered
  · rw [hqueue]
    intro w hw
    exact h.close w (hwaiting ▸ List.mem_cons_of_mem _ hw)
  · rw [hqueue]
    intro entry hentry
    obtain ⟨htarget, hstep, hexpanded, hrest⟩ := h.arrived entry hentry
    exact ⟨htarget, hstep, List.mem_append_left _ hexpanded, hrest⟩
  · rw [hqueue]
    exact h.arrivals
  · rw [hqueue]
    intro v hv step hstep
    rcases List.mem_append.mp hv with hold | hnew
    · rcases h.closed v hold step hstep with htodo | hdone
      · exact absurd htodo List.not_mem_nil
      · exact Or.inr hdone
    · rw [List.mem_singleton.mp hnew] at hstep
      exact Or.inl hstep
  · rw [hqueue]
    intro step hstep
    rw [hsource vertex step hstep]
    exact ⟨hstep, List.mem_concat_self, h.close vertex hvertex⟩
  · rw [hqueue]
    exact h.shallow

/-- A step to a vertex that was seen changes nothing. -/
theorem skip (h : Layered source target next first depth expanded (step :: todo) frontier)
    (hsource : ∀ v, ∀ step ∈ next v, source step = v)
    (hqueued : target step ∈ expanded ++ frontier.waiting) :
    Layered source target next first depth expanded todo frontier := by
  obtain ⟨-, -, hnear⟩ := h.todoNear step List.mem_cons_self
  refine { h with closed := ?_, todoNear := ?_ }
  · intro v hv other hother
    rcases h.closed v hv other hother with htodo | hdone
    · rcases List.mem_cons.mp htodo with rfl | htodo
      · refine Or.inr ⟨hqueued, ?_⟩
        rw [← hsource v other hother]
        exact hnear _ hqueued
      · exact Or.inl htodo
    · exact Or.inr hdone
  · exact fun other hother => h.todoNear other (List.mem_cons_of_mem _ hother)

/-- A step to a new vertex puts it at the end of the queue. -/
theorem take (h : Layered source target next first depth expanded (step :: todo) frontier)
    (hsource : ∀ v, ∀ step ∈ next v, source step = v)
    (hsame : ∀ other ∈ todo, source other = source step)
    (hnew : target step ∉ expanded ++ frontier.waiting)
    (hkeep : ∀ v ∈ expanded ++ frontier.waiting, depth' v = depth v)
    (hdepth : depth' (target step) = depth (source step) + 1) :
    Layered source target next first depth' expanded todo
      { arrivedBy := frontier.arrivedBy ++ [(target step, step)]
        waiting := frontier.waiting ++ [target step]
        seen := frontier.seen ++ [target step] } := by
  obtain ⟨hstep, hfrom, hnear⟩ := h.todoNear step List.mem_cons_self
  have hqueue : expanded ++ (frontier.waiting ++ [target step]) =
      expanded ++ frontier.waiting ++ [target step] := (List.append_assoc _ _ _).symm
  have hsourceDepth : depth' (source step) = depth (source step) :=
    hkeep _ (List.mem_append_left _ hfrom)
  have hmem : ∀ {v}, v ∈ expanded ++ frontier.waiting →
      v ∈ expanded ++ frontier.waiting ++ [target step] := List.mem_append_left _
  -- Nothing of the queue is deeper than the new vertex.
  have hdeepest : ∀ v ∈ expanded ++ frontier.waiting ++ [target step],
      depth' v ≤ depth' (source step) + 1 := by
    intro v hv
    rw [hsourceDepth]
    rcases List.mem_append.mp hv with hold | hlast
    · rw [hkeep v hold]
      exact hnear v hold
    · rw [List.mem_singleton.mp hlast, hdepth]
  refine ⟨?_, ?_, ?_, ?_, ?_, ?_, ?_, ?_, ?_, ?_, ?_, ?_⟩
  · rw [hqueue, ← List.concat_eq_append]
    exact h.nodup.concat hnew
  · intro v
    rw [hqueue, List.mem_append, List.mem_append, h.seen v]
  · rw [hqueue]
    exact hmem h.started
  · rw [hkeep first h.started]
    exact h.atStart
  · rw [hqueue, List.pairwise_append]
    refine ⟨h.ordered.imp_of_mem ?_, List.pairwise_singleton _ _, ?_⟩
    · intro a b ha hb hle
      rw [hkeep a ha, hkeep b hb]
      exact hle
    · intro v hv last hlast
      rw [List.mem_singleton.mp hlast, hdepth, ← hsourceDepth]
      exact hdeepest v (hmem hv)
  · rw [hqueue]
    intro w hw v hv
    refine (hdeepest v hv).trans (Nat.add_le_add_right ?_ 1)
    rcases List.mem_append.mp hw with hold | hlast
    · rw [hsourceDepth, hkeep w (List.mem_append_right _ hold)]
      exact (List.pairwise_append.mp h.ordered).2.2 _ hfrom w hold
    · rw [List.mem_singleton.mp hlast, hdepth, hsourceDepth]
      exact Nat.le_succ _
  · rw [hqueue]
    intro entry hentry
    rcases List.mem_append.mp hentry with hold | hlast
    · obtain ⟨htarget, hnext, hexpanded, hone, hqueued⟩ := h.arrived entry hold
      rw [hkeep _ hqueued, hkeep _ (List.mem_append_left _ hexpanded)]
      exact ⟨htarget, hnext, hexpanded, hone, hmem hqueued⟩
    · rw [List.mem_singleton.mp hlast]
      exact ⟨rfl, hstep, hfrom, by rw [hdepth, hsourceDepth], List.mem_concat_self⟩
  · rw [List.map_append, List.map_singleton, ← List.concat_eq_append]
    refine h.arrivedOnce.concat fun hold => ?_
    obtain ⟨entry, hentry, heq⟩ := List.mem_map.mp hold
    have hqueued := (h.arrived entry hentry).2.2.2.2
    rw [heq] at hqueued
    exact hnew hqueued
  · rw [hqueue]
    intro v hv
    rcases List.mem_append.mp hv with hold | hlast
    · rcases h.arrivals v hold with rfl | ⟨other, hother⟩
      · exact Or.inl rfl
      · exact Or.inr ⟨other, List.mem_append_left _ hother⟩
    · rw [List.mem_singleton.mp hlast]
      exact Or.inr ⟨step, List.mem_concat_self⟩
  · rw [hqueue]
    intro v hv other hother
    have hv' : depth' v = depth v := hkeep v (List.mem_append_left _ hv)
    rcases h.closed v hv other hother with htodo | ⟨hqueued, hnext⟩
    · rcases List.mem_cons.mp htodo with rfl | htodo
      · refine Or.inr ⟨List.mem_concat_self, ?_⟩
        rw [hdepth, hv', hsource v other hother]
      · exact Or.inl htodo
    · refine Or.inr ⟨hmem hqueued, ?_⟩
      rw [hkeep _ hqueued, hv']
      exact hnext
  · rw [hqueue]
    intro other hother
    obtain ⟨hnext, hexpanded, -⟩ := h.todoNear other (List.mem_cons_of_mem _ hother)
    refine ⟨hnext, hexpanded, ?_⟩
    rw [hsame other hother]
    exact hdeepest
  · rw [hqueue, List.length_append, List.length_singleton]
    intro v hv
    rcases List.mem_append.mp hv with hold | hlast
    · rw [hkeep v hold]
      exact Nat.lt_succ_of_lt (h.shallow v hold)
    · rw [List.mem_singleton.mp hlast, hdepth]
      exact Nat.succ_lt_succ (h.shallow _ (List.mem_append_left _ hfrom))

variable [DecidableEq α]

theorem arrive (h : Layered source target next first depth expanded (step :: todo) frontier)
    (hsource : ∀ v, ∀ step ∈ next v, source step = v)
    (hsame : ∀ other ∈ todo, source other = source step) :
    ∃ depth, Layered source target next first depth expanded todo
      (frontier.arrive target step) := by
  unfold Frontier.arrive
  split
  · rename_i hseen
    exact ⟨depth, h.skip hsource ((h.seen _).mp hseen)⟩
  · rename_i hunseen
    have hnew : target step ∉ expanded ++ frontier.waiting := fun hqueued =>
      hunseen ((h.seen _).mpr hqueued)
    refine ⟨Function.update depth (target step) (depth (source step) + 1),
      h.take hsource hsame hnew ?_ (Function.update_self _ _ _)⟩
    intro v hv
    have hne : v ≠ target step := fun heq => hnew (heq ▸ hv)
    exact Function.update_of_ne hne _ _

/-- All the steps of a vertex are looked at. -/
theorem arriveAll (h : Layered source target next first depth expanded todo frontier)
    (hsource : ∀ v, ∀ step ∈ next v, source step = v)
    (hsame : ∀ step ∈ todo, source step = vertex) :
    ∃ depth, Layered source target next first depth expanded []
      (todo.foldl (Frontier.arrive target) frontier) := by
  induction todo generalizing frontier depth with
  | nil => exact ⟨depth, h⟩
  | cons step todo ih =>
      have hstep := hsame step List.mem_cons_self
      obtain ⟨depth', hnext⟩ := h.arrive hsource fun other hother =>
        (hsame other (List.mem_cons_of_mem _ hother)).trans hstep.symm
      exact ih hnext fun other hother => hsame other (List.mem_cons_of_mem _ hother)

/-- How a search ends: with nothing waiting, or at the goal. -/
theorem search (hsource : ∀ v, ∀ step ∈ next v, source step = v)
    (h : Layered source target next first depth expanded [] frontier) {fuel : Nat}
    {found : Frontier α σ} (hsearch : frontier.search target next goal fuel = some found) :
    ∃ depth expanded, Layered source target next first depth expanded [] found ∧
      (found.waiting = [] ∨ goal ∈ expanded ++ found.waiting) := by
  induction fuel generalizing frontier depth expanded with
  | zero => cases hsearch
  | succ fuel ih =>
      rw [Frontier.search] at hsearch
      split at hsearch
      · rename_i hwaiting
        obtain rfl := Option.some.inj hsearch
        exact ⟨depth, expanded, h, Or.inl hwaiting⟩
      · rename_i vertex waiting hwaiting
        split at hsearch
        · rename_i harrived
          obtain rfl := Option.some.inj hsearch
          refine ⟨depth, expanded, h, Or.inr ?_⟩
          rw [Frontier.arrivalAt, Option.isSome_map] at harrived
          obtain ⟨entry, hentry⟩ := Option.isSome_iff_exists.mp harrived
          have hgoal : entry.1 = goal := by simpa using List.find?_some hentry
          rw [← hgoal]
          exact (h.arrived entry (List.mem_of_find?_eq_some hentry)).2.2.2.2
        · obtain ⟨depth', hnext⟩ := (h.look hwaiting hsource).arriveAll hsource
            (hsource vertex)
          exact ih hnext hsearch

omit [DecidableEq α] in
theorem mem_vertices {vertices : List α}
    (h : Layered source target next first depth expanded todo frontier)
    (htarget : ∀ v, ∀ step ∈ next v, target step ∈ vertices) (hfirst : first ∈ vertices) :
    ∀ v ∈ expanded ++ frontier.waiting, v ∈ vertices := by
  intro v hv
  rcases h.arrivals v hv with rfl | ⟨step, hstep⟩
  · exact hfirst
  · obtain ⟨htaken, hnext, -⟩ := h.arrived _ hstep
    have hlast := htarget _ _ hnext
    rwa [htaken] at hlast

/-- Every round looks at one more vertex, so the search does not outlast the vertices. -/
theorem search_ne_none {vertices : List α}
    (hsource : ∀ v, ∀ step ∈ next v, source step = v)
    (htarget : ∀ v, ∀ step ∈ next v, target step ∈ vertices) (hfirst : first ∈ vertices)
    (h : Layered source target next first depth expanded [] frontier) {fuel : Nat}
    (hfuel : vertices.length < expanded.length + fuel) :
    frontier.search target next goal fuel ≠ none := by
  induction fuel generalizing frontier depth expanded with
  | zero =>
      have hnodup : expanded.Nodup := h.nodup.sublist (List.sublist_append_left _ _)
      have hsubset : expanded ⊆ vertices := fun v hv =>
        h.mem_vertices htarget hfirst v (List.mem_append_left _ hv)
      have hlength := (List.subperm_of_subset hnodup hsubset).length_le
      omega
  | succ fuel ih =>
      rw [Frontier.search]
      split
      · exact Option.some_ne_none _
      · rename_i vertex waiting hwaiting
        split
        · exact Option.some_ne_none _
        · obtain ⟨depth', hnext⟩ := (h.look hwaiting hsource).arriveAll hsource
            (hsource vertex)
          refine ih hnext ?_
          rw [List.length_append, List.length_singleton]
          omega

omit [DecidableEq α] in
/-- A walk from a vertex of the queue to the goal is no shorter than the way found. -/
theorem depth_le (h : Layered source target next first depth expanded [] frontier)
    (hend : frontier.waiting = [] ∨ goal ∈ expanded ++ frontier.waiting)
    {path : List σ} (hvertex : vertex ∈ expanded ++ frontier.waiting)
    (hwalk : Walk source target vertex path goal)
    (hsteps : ∀ step ∈ path, step ∈ next (source step)) :
    goal ∈ expanded ++ frontier.waiting ∧ depth goal ≤ depth vertex + path.length := by
  induction path generalizing vertex with
  | nil =>
      rw [walk_nil] at hwalk
      subst hwalk
      exact ⟨hvertex, Nat.le_refl _⟩
  | cons step path ih =>
      rw [walk_cons] at hwalk
      obtain ⟨rfl, hwalk⟩ := hwalk
      rw [List.length_cons]
      rcases List.mem_append.mp hvertex with hexpanded | hwaiting
      · rcases h.closed _ hexpanded step (hsteps step List.mem_cons_self) with
          htodo | ⟨hqueued, hnext⟩
        · exact absurd htodo List.not_mem_nil
        · obtain ⟨hgoal, hdepth⟩ := ih hqueued hwalk fun other hother =>
            hsteps other (List.mem_cons_of_mem _ hother)
          exact ⟨hgoal, by omega⟩
      · -- A vertex still waits, so the search ended at the goal.
        rcases hend with hnone | hgoal
        · rw [hnone] at hwaiting
          exact absurd hwaiting List.not_mem_nil
        · have hclose := h.close _ hwaiting goal hgoal
          exact ⟨hgoal, by omega⟩

theorem arrivalAt_eq (h : Layered source target next first depth expanded todo frontier)
    (hstep : (vertex, step) ∈ frontier.arrivedBy) :
    frontier.arrivalAt vertex = some step := by
  rw [Frontier.arrivalAt, find?_key_of_mem h.arrivedOnce hstep]
  rfl

theorem arrivalAt_eq_none
    (h : Layered source target next first depth expanded todo frontier)
    (hvertex : vertex ∉ expanded ++ frontier.waiting) :
    frontier.arrivalAt vertex = none := by
  rw [Frontier.arrivalAt, Option.map_eq_none_iff, List.find?_eq_none]
  intro entry hentry heq
  have hqueued := (h.arrived entry hentry).2.2.2.2
  rw [of_decide_eq_true heq] at hqueued
  exact hvertex hqueued

/-- The way back from a vertex of the queue has one step for each layer. -/
theorem walkBack (h : Layered source target next first depth expanded todo frontier)
    (hvertex : vertex ∈ expanded ++ frontier.waiting) {fuel : Nat}
    (hfuel : depth vertex < fuel) (path : List σ) :
    ∃ way, frontier.walkBack source first fuel vertex path = some (some (way ++ path)) ∧
      Walk source target first way vertex ∧ (∀ step ∈ way, step ∈ next (source step)) ∧
      way.map (fun step => depth (source step)) = List.range (depth vertex) := by
  induction fuel generalizing vertex path with
  | zero => omega
  | succ fuel ih =>
      rw [Frontier.walkBack]
      split
      · rename_i hfirst
        subst hfirst
        exact ⟨[], rfl, rfl, fun _ hstep => absurd hstep List.not_mem_nil,
          by rw [h.atStart]; rfl⟩
      · rename_i hne
        obtain ⟨step, hstep⟩ := (h.arrivals vertex hvertex).resolve_left hne
        obtain ⟨htarget, hnext, hexpanded, hlayer, -⟩ := h.arrived _ hstep
        have hdepth : depth vertex = depth (source step) + 1 := hlayer
        rw [h.arrivalAt_eq hstep]
        have hqueued : source step ∈ expanded ++ frontier.waiting :=
          List.mem_append_left _ hexpanded
        obtain ⟨way, hback, hwalk, hsteps, hdepths⟩ :=
          ih hqueued (by omega) (step :: path)
        refine ⟨way ++ [step], ?_, walk_concat.mpr ⟨hwalk, htarget⟩, ?_, ?_⟩
        · rw [List.append_assoc, List.singleton_append]
          exact hback
        · intro other hother
          rcases List.mem_append.mp hother with hold | hlast
          · exact hsteps other hold
          · rw [List.mem_singleton.mp hlast]
            exact hnext
        · rw [List.map_append, hdepths, hdepth, List.range_succ]
          rfl

end Layered

section Ways

variable {α : Type u} {σ : Type v} [DecidableEq α] {source target : σ → α}
variable {next : α → List σ} {first goal : α} {vertices : List α} {fuel : Nat}

/-- The steps lead from one vertex to the other, each of them among those out of its
vertex. -/
def IsWay (source target : σ → α) (next : α → List σ) (first : α) (path : List σ)
    (goal : α) : Prop :=
  Walk source target first path goal ∧ ∀ step ∈ path, step ∈ next (source step)

/-- The search answers when it may look at every vertex: a shortest way that passes no
vertex twice, or nothing when no way leads to the goal. -/
theorem shortestWay_spec (goal : α) (hsource : ∀ v, ∀ step ∈ next v, source step = v)
    (htarget : ∀ v, ∀ step ∈ next v, target step ∈ vertices) (hfirst : first ∈ vertices)
    (hfuel : vertices.length < fuel) :
    (∃ way, shortestWay source target next first goal fuel = some (some way) ∧
      IsWay source target next first way goal ∧ (way.map source ++ [goal]).Nodup ∧
      ∀ other, IsWay source target next first other goal → way.length ≤ other.length) ∨
    shortestWay source target next first goal fuel = some none ∧
      ∀ other, ¬ IsWay source target next first other goal := by
  have hstart := Layered.start source target next first
  have hsome : (Frontier.start first).search target next goal fuel ≠ none :=
    hstart.search_ne_none hsource htarget hfirst (by rw [List.length_nil]; omega)
  obtain ⟨found, hfound⟩ := Option.ne_none_iff_exists'.mp hsome
  obtain ⟨depth, expanded, h, hend⟩ := hstart.search hsource hfound
  have hanswer : shortestWay source target next first goal fuel =
      found.walkBack source first fuel goal [] := by
    rw [shortestWay, hfound, Option.bind_some]
  have hreach : ∀ other, IsWay source target next first other goal →
      goal ∈ expanded ++ found.waiting ∧ depth goal ≤ other.length := by
    rintro other ⟨hwalk, hsteps⟩
    obtain ⟨hgoal, hdepth⟩ := h.depth_le hend h.started hwalk hsteps
    rw [h.atStart, Nat.zero_add] at hdepth
    exact ⟨hgoal, hdepth⟩
  by_cases hgoal : goal ∈ expanded ++ found.waiting
  · have hdepth : depth goal < fuel := by
      have hshallow := h.shallow goal hgoal
      have hlength := (List.subperm_of_subset h.nodup
        (h.mem_vertices htarget hfirst)).length_le
      omega
    obtain ⟨way, hback, hwalk, hsteps, hdepths⟩ := h.walkBack hgoal hdepth []
    rw [List.append_nil] at hback
    refine Or.inl ⟨way, hanswer.trans hback, ⟨hwalk, hsteps⟩, ?_, ?_⟩
    · refine List.Nodup.of_map depth ?_
      rw [List.map_append, List.map_map, List.map_singleton]
      have hsources : way.map (depth ∘ source) = List.range (depth goal) := hdepths
      rw [hsources, ← List.range_succ]
      exact List.nodup_range
    · intro other hother
      have hlength : way.length = depth goal := by
        rw [← List.length_map (fun step => depth (source step)), hdepths,
          List.length_range]
      rw [hlength]
      exact (hreach other hother).2
  · refine Or.inr ⟨?_, fun other hother => hgoal (hreach other hother).1⟩
    have hne : goal ≠ first := fun heq => hgoal (heq ▸ h.started)
    obtain ⟨bound, rfl⟩ : ∃ bound, fuel = bound + 1 := ⟨fuel - 1, by omega⟩
    rw [hanswer, Frontier.walkBack, if_neg hne, h.arrivalAt_eq_none hgoal]

end Ways

section Bounds

variable {α : Type u} {σ : Type v} [DecidableEq α] {source target : σ → α}
variable {next : α → List σ} {first goal : α} {more : Nat}

theorem search_mono (fuel : Nat) : ∀ {frontier found : Frontier α σ},
    frontier.search target next goal fuel = some found → fuel ≤ more →
      frontier.search target next goal more = some found := by
  induction fuel generalizing more with
  | zero => exact fun h _ => nomatch h
  | succ fuel ih =>
      intro frontier found h hle
      obtain ⟨more, rfl⟩ : ∃ rest, more = rest + 1 := ⟨more - 1, by omega⟩
      rw [Frontier.search] at h ⊢
      split at h
      · exact h
      · split at h
        · rename_i harrived
          rw [if_pos harrived]
          exact h
        · rename_i harrived
          rw [if_neg harrived]
          exact ih h (by omega)

theorem walkBack_mono {frontier : Frontier α σ} (fuel : Nat) : ∀ {current : α}
    {path : List σ} {way : Option (List σ)},
    frontier.walkBack source first fuel current path = some way → fuel ≤ more →
      frontier.walkBack source first more current path = some way := by
  induction fuel generalizing more with
  | zero => exact fun h _ => nomatch h
  | succ fuel ih =>
      intro current path way h hle
      obtain ⟨more, rfl⟩ : ∃ rest, more = rest + 1 := ⟨more - 1, by omega⟩
      rw [Frontier.walkBack] at h ⊢
      split at h
      · rename_i hfirst
        rw [if_pos hfirst]
        exact h
      · rename_i hfirst
        rw [if_neg hfirst]
        cases harrival : frontier.arrivalAt current with
        | none =>
            rw [harrival] at h
            exact h
        | some step =>
            rw [harrival] at h
            exact ih h (Nat.le_of_succ_le_succ hle)

/-- A larger bound changes no answer. -/
theorem shortestWay_mono {fuel : Nat} {way : Option (List σ)}
    (h : shortestWay source target next first goal fuel = some way) (hle : fuel ≤ more) :
    shortestWay source target next first goal more = some way := by
  obtain ⟨found, hfound, hback⟩ := Option.bind_eq_some_iff.mp h
  rw [shortestWay, search_mono fuel hfound hle, Option.bind_some]
  exact walkBack_mono fuel hback hle

end Bounds

section Labels

variable {α : Type u} {σ : Type v} {τ : Type w} {source target : σ → α}
variable {source' target' : τ → α} {label : σ → τ} {frontier : Frontier α σ}

/-- The frontier of the same search with other names for the steps. -/
def Frontier.relabel (label : σ → τ) (frontier : Frontier α σ) : Frontier α τ where
  arrivedBy := frontier.arrivedBy.map fun entry => (entry.1, label entry.2)
  waiting := frontier.waiting
  seen := frontier.seen

variable [DecidableEq α] {next : α → List σ} {first goal : α}

theorem arrivalAt_relabel (vertex : α) :
    (frontier.relabel label).arrivalAt vertex = (frontier.arrivalAt vertex).map label := by
  rw [Frontier.arrivalAt, Frontier.relabel, List.find?_map, Frontier.arrivalAt,
    Option.map_map, Option.map_map]
  rfl

theorem arrive_relabel (htarget : ∀ step, target' (label step) = target step)
    (frontier : Frontier α σ) (step : σ) :
    (frontier.relabel label).arrive target' (label step) =
      (frontier.arrive target step).relabel label := by
  unfold Frontier.arrive
  rw [htarget]
  by_cases hseen : target step ∈ frontier.seen
  · rw [if_pos (by exact hseen), if_pos hseen]
  · rw [if_neg (by exact hseen), if_neg hseen]
    simp [Frontier.relabel]

theorem arriveAll_relabel (htarget : ∀ step, target' (label step) = target step)
    (steps : List σ) : ∀ frontier : Frontier α σ,
    (steps.map label).foldl (Frontier.arrive target') (frontier.relabel label) =
      (steps.foldl (Frontier.arrive target) frontier).relabel label := by
  induction steps with
  | nil => exact fun _ => rfl
  | cons step steps ih =>
      intro frontier
      rw [List.map_cons, List.foldl_cons, arrive_relabel htarget, ih, List.foldl_cons]

theorem search_relabel (htarget : ∀ step, target' (label step) = target step)
    (fuel : Nat) : ∀ frontier : Frontier α σ,
    (frontier.relabel label).search target' (fun v => (next v).map label) goal fuel =
      (frontier.search target next goal fuel).map (Frontier.relabel label) := by
  induction fuel with
  | zero => exact fun _ => rfl
  | succ fuel ih =>
      intro frontier
      rw [Frontier.search, Frontier.search, arrivalAt_relabel, Option.isSome_map]
      change (match frontier.waiting with
        | [] => _
        | vertex :: waiting => _) = _
      cases hwaiting : frontier.waiting with
      | nil => rfl
      | cons vertex waiting =>
          dsimp only
          split
          · rfl
          · rw [← ih, ← arriveAll_relabel htarget]
            rfl

theorem walkBack_relabel (hsource : ∀ step, source' (label step) = source step)
    (fuel : Nat) : ∀ (current : α) (path : List σ),
    (frontier.relabel label).walkBack source' first fuel current (path.map label) =
      (frontier.walkBack source first fuel current path).map
        (Option.map (List.map label)) := by
  induction fuel with
  | zero => exact fun _ _ => rfl
  | succ fuel ih =>
      intro current path
      rw [Frontier.walkBack, Frontier.walkBack, arrivalAt_relabel]
      split
      · rfl
      · cases frontier.arrivalAt current with
        | none => rfl
        | some step =>
            rw [Option.map_some]
            dsimp only
            rw [hsource, ← List.map_cons, ih]

/-- The way found does not depend on how the steps are named. -/
theorem shortestWay_relabel (hsource : ∀ step, source' (label step) = source step)
    (htarget : ∀ step, target' (label step) = target step) (fuel : Nat) :
    shortestWay source' target' (fun v => (next v).map label) first goal fuel =
      (shortestWay source target next first goal fuel).map
        (Option.map (List.map label)) := by
  have hsearch : (Frontier.start first : Frontier α τ).search target'
      (fun v => (next v).map label) goal fuel =
        ((Frontier.start first).search target next goal fuel).map
          (Frontier.relabel label) := search_relabel htarget fuel (.start first)
  rw [shortestWay, shortestWay, hsearch]
  cases (Frontier.start first).search target next goal fuel with
  | none => rfl
  | some found =>
      rw [Option.map_some, Option.bind_some, Option.bind_some]
      exact walkBack_relabel hsource fuel goal []

end Labels

end Workshop
