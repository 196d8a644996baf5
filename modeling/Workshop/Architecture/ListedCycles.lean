/-
The cycles the check lists: each is closed by a dependency and shortest among the cycles
through it, and the list holds every one of them once.
-/
import Workshop.Architecture.CycleSearch

namespace Workshop

namespace Architecture

/-- A cycle of the graph that starts at its least module. -/
structure Listed (graph : ModuleGraph) (cycle : List Step) : Prop where
  nonempty : cycle ≠ []
  steps : ∀ step ∈ cycle, stepAt graph step.fromModule step.toModule = some step
  closed : ∃ name, Walk Prod.fst Prod.snd name (routeOf cycle) name
  elementary : (cycle.map Step.fromModule).Nodup
  leastFirst : LeastFirst (cycle.map Step.fromModule)

/-- The cycle that a step closes, as it is listed. -/
def closedBy (graph : ModuleGraph) (fuel : Nat) (step : Step) : Option (List Step) :=
  (shortestPath graph step.toModule step.fromModule fuel).join.map fun way =>
    rotated (step :: way)

section Routes

variable {graph graph' : ModuleGraph} {cycle other : List Step}

theorem routeOf_rotate (cycle : List Step) (n : Nat) :
    routeOf (cycle.rotate n) = (routeOf cycle).rotate n := List.map_rotate _ _ _

theorem sources_routeOf (cycle : List Step) :
    (routeOf cycle).map Prod.fst = cycle.map Step.fromModule := by
  rw [routeOf, List.map_map]
  rfl

/-- The route tells the steps, where the graphs agree on them. -/
theorem steps_of_route
    (hcycle : ∀ step ∈ cycle, stepAt graph step.fromModule step.toModule = some step)
    (hother : ∀ step ∈ other, stepAt graph' step.fromModule step.toModule = some step)
    (hagree : ∀ edge ∈ routeOf cycle, stepAt graph' edge.1 edge.2 = stepAt graph edge.1 edge.2)
    (hroute : routeOf other = routeOf cycle) : other = cycle := by
  have hread : ∀ {graph : ModuleGraph} {steps : List Step},
      (∀ step ∈ steps, stepAt graph step.fromModule step.toModule = some step) →
        (routeOf steps).map (fun edge => stepAt graph edge.1 edge.2) = steps.map some := by
    intro graph steps hsteps
    rw [routeOf, List.map_map]
    exact List.map_congr_left hsteps
  refine List.map_injective_iff.mpr (Option.some_injective Step) ?_
  rw [← hread hcycle, ← hread hother, hroute]
  exact List.map_congr_left hagree

/-- The names of the modules of a listed cycle tell its steps. -/
theorem Listed.eq_of_names (h : Listed graph cycle) (hother : Listed graph other)
    (hnames : cycle.map Step.fromModule = other.map Step.fromModule) : cycle = other := by
  refine (steps_of_route h.steps hother.steps (fun _ _ => rfl) ?_).symm
  obtain ⟨name, hclosed⟩ := h.closed
  obtain ⟨name', hclosed'⟩ := hother.closed
  rw [← sources_routeOf, ← sources_routeOf] at hnames
  have hstart : ∀ {route : List (String × String)} {name}, route ≠ [] →
      Walk Prod.fst Prod.snd name route name → (route.map Prod.fst).head? = some name := by
    intro route name hne hwalk
    cases route with
    | nil => exact absurd rfl hne
    | cons edge route => exact congrArg some hwalk.1
  have hne : ∀ {steps : List Step}, steps ≠ [] → routeOf steps ≠ [] :=
    fun hsteps heq => hsteps (List.map_eq_nil_iff.mp heq)
  have hhead := hstart (hne h.nonempty) hclosed
  rw [hnames, hstart (hne hother.nonempty) hclosed', Option.some.injEq] at hhead
  subst hhead
  exact (hclosed.eq_of_sources hclosed' hnames).2.symm

end Routes

section Closing

variable {files files' : List CruisedModule} {graph graph' : ModuleGraph}
variable {fuel fuel' : Nat} {step : Step} {cycle : List Step}

/-- A cycle through a dependency leads back from its end to its start. -/
theorem ImportCycle.exists_way {route : List (String × String)} {edge : String × String}
    (h : ImportCycle files route) (hedge : edge ∈ route) :
    ∃ way, Leads files edge.2 way edge.1 ∧ way.length + 1 = route.length := by
  obtain ⟨-, name, hwalk, hdepends⟩ := h
  obtain ⟨front, back, rfl⟩ := List.append_of_mem hedge
  obtain ⟨middle, hfront, rfl, hback⟩ := walk_append.mp hwalk
  refine ⟨back ++ front, ⟨walk_append.mpr ⟨name, hback, hfront⟩, fun other hother => ?_⟩, ?_⟩
  · rcases List.mem_append.mp hother with hother | hother
    · exact hdepends other (List.mem_append_right _ (List.mem_cons_of_mem _ hother))
    · exact hdepends other (List.mem_append_left _ hother)
  · rw [List.length_append, List.length_append, List.length_cons]
    omega

/-- A listed cycle is a cycle of the import relation. -/
theorem Listed.importCycle (h : GraphOf graph (importsOf files)) (hlisted : Listed graph cycle) :
    ImportCycle files (routeOf cycle) := by
  obtain ⟨name, hwalk⟩ := hlisted.closed
  refine ⟨fun heq => hlisted.nonempty (List.map_eq_nil_iff.mp heq), name, hwalk, ?_⟩
  refine List.forall_mem_map.mpr fun step hstep => ?_
  exact (h.dependsOn_iff _).mpr ⟨step, hlisted.steps step hstep⟩

theorem GraphOf.closedBy_spec (h : GraphOf graph (importsOf files))
    (hfuel : graph.length < fuel)
    (hstep : stepAt graph step.fromModule step.toModule = some step) :
    (∃ cycle, closedBy graph fuel step = some cycle ∧ Listed graph cycle ∧ step ∈ cycle ∧
      ∀ route, ImportCycle files route → (step.fromModule, step.toModule) ∈ route →
        cycle.length ≤ route.length) ∨
    closedBy graph fuel step = none ∧ ∀ route, ImportCycle files route →
      (step.fromModule, step.toModule) ∉ route := by
  rcases h.shortestPath_spec step.fromModule (h.mem_names hstep).2 hfuel with
    ⟨way, hway, hsteps, hwalk, hnodup, hshort⟩ | ⟨hnone, hno⟩
  · have hne : step :: way ≠ [] := List.cons_ne_nil _ _
    refine Or.inl ⟨rotated (step :: way), ?_, ?_, ?_, ?_⟩
    · rw [closedBy, hway]
      rfl
    · have hclosed : Walk Prod.fst Prod.snd step.fromModule (routeOf (step :: way))
          step.fromModule := ⟨rfl, hwalk⟩
      have hleast := leastFirst_rotated hne
      rw [rotated_eq_rotate hne] at hleast ⊢
      refine ⟨?_, ?_, ?_, ?_, hleast⟩
      · rwa [Ne, List.rotate_eq_nil_iff]
      · intro same hsame
        rcases List.mem_cons.mp (List.mem_rotate.mp hsame) with rfl | hsame
        · exact hstep
        · exact hsteps same hsame
      · rw [routeOf_rotate]
        exact hclosed.rotate _
      · rw [List.map_rotate, List.nodup_rotate]
        exact (List.perm_append_singleton _ _).nodup_iff.mp hnodup
    · rw [rotated_eq_rotate hne]
      exact List.mem_rotate.mpr List.mem_cons_self
    · intro route hroute hedge
      obtain ⟨back, hback, hlength⟩ := hroute.exists_way hedge
      rw [rotated_eq_rotate hne, List.length_rotate, List.length_cons, ← hlength]
      exact Nat.succ_le_succ (hshort back hback)
  · refine Or.inr ⟨?_, fun route hroute hedge => ?_⟩
    · rw [closedBy, hnone]
      rfl
    · obtain ⟨back, hback, -⟩ := hroute.exists_way hedge
      exact hno back hback

/-- Graphs that agree on a cycle list it alike. -/
theorem GraphOf.closedBy_congr (h : GraphOf graph (importsOf files))
    (h' : GraphOf graph' (importsOf files'))
    (hsame : ∀ step, step ∈ importsOf files ↔ step ∈ importsOf files')
    (hfuel : graph.length < fuel) (hfuel' : graph'.length < fuel')
    (hstep : stepAt graph step.fromModule step.toModule = some step)
    (hcycle : closedBy graph fuel step = some cycle)
    (hagree : ∀ edge ∈ routeOf cycle,
      stepAt graph' edge.1 edge.2 = stepAt graph edge.1 edge.2) :
    closedBy graph' fuel' step = some cycle := by
  have hfirst := (h.mem_names hstep).2
  obtain ⟨way, hpath, rfl⟩ := Option.map_eq_some_iff.mp hcycle
  have hpath := Option.join_eq_some_iff.mp hpath
  have hne : step :: way ≠ [] := List.cons_ne_nil _ _
  rw [rotated_eq_rotate hne, routeOf_rotate] at hagree
  have hagree : ∀ edge ∈ routeOf (step :: way),
      stepAt graph' edge.1 edge.2 = stepAt graph edge.1 edge.2 :=
    fun edge hedge => hagree edge (List.mem_rotate.mpr hedge)
  have hstep' : stepAt graph' step.fromModule step.toModule = some step :=
    (hagree (step.fromModule, step.toModule) List.mem_cons_self).trans hstep
  obtain ⟨way', hpath', hroute⟩ := h.shortestPath_congr h' hsame hfirst hfuel
    (h'.mem_names hstep').2 hfuel' hpath
  have hsteps : ∀ {graph : ModuleGraph} {files} {fuel} {way : List Step},
      GraphOf graph (importsOf files) → graph.length < fuel →
      stepAt graph step.fromModule step.toModule = some step →
      shortestPath graph step.toModule step.fromModule fuel = some (some way) →
        ∀ other ∈ way, stepAt graph other.fromModule other.toModule = some other := by
    intro graph files fuel way h hfuel hstep hpath
    rcases h.shortestPath_spec step.fromModule (h.mem_names hstep).2 hfuel with
      ⟨found, hfound, hsteps, -⟩ | ⟨hnone, -⟩
    · rw [hpath, Option.some.injEq, Option.some.injEq] at hfound
      rwa [hfound]
    · rw [hpath] at hnone
      cases hnone
  have hway : way' = way := steps_of_route (hsteps h hfuel hstep hpath)
    (hsteps h' hfuel' hstep' hpath')
    (fun edge hedge => hagree edge (List.mem_cons_of_mem _ hedge)) hroute
  rw [closedBy, hpath', hway]
  rfl

end Closing

end Architecture

end Workshop
