/-
The search of the check: the shortest way between two modules along the imports, the
cycle each dependency closes, and the list of these cycles without repetition.
-/
import Workshop.Architecture.CycleKeys
import Workshop.Architecture.ModuleGraph

namespace Workshop

namespace Architecture

/-- A file of one module imports a file of another. -/
def Imports (files : List CruisedModule) (step : Step) : Prop :=
  (∃ file ∈ files, file.source = step.importer ∧
    step.imported ∈ file.dependencies.getD []) ∧
  moduleOf step.importer = some step.fromModule ∧
  moduleOf step.imported = some step.toModule ∧ step.toModule ≠ step.fromModule

/-- The import relation between modules. -/
def DependsOn (files : List CruisedModule) (edge : String × String) : Prop :=
  ∃ step, Imports files step ∧ step.fromModule = edge.1 ∧ step.toModule = edge.2

/-- The dependencies lead from one module to the other. -/
def Leads (files : List CruisedModule) (first : String) (route : List (String × String))
    (last : String) : Prop :=
  Walk Prod.fst Prod.snd first route last ∧ ∀ edge ∈ route, DependsOn files edge

/-- A cycle of the import relation. -/
def ImportCycle (files : List CruisedModule) (route : List (String × String)) : Prop :=
  route ≠ [] ∧ ∃ name, Leads files name route name

def routeOf (steps : List Step) : List (String × String) :=
  steps.map fun step => (step.fromModule, step.toModule)

section Imports

variable {files : List CruisedModule} {step : Step}

theorem mem_importsOf : step ∈ importsOf files ↔ Imports files step := by
  have hfile : ∀ file : CruisedModule, step ∈ importsOfFile file ↔
      file.source = step.importer ∧ step.imported ∈ file.dependencies.getD [] ∧
        moduleOf step.importer = some step.fromModule ∧
        moduleOf step.imported = some step.toModule ∧
        step.toModule ≠ step.fromModule := by
    intro file
    obtain ⟨fromModule, toModule, importer, imported⟩ := step
    constructor
    · intro hstep
      unfold importsOfFile at hstep
      split at hstep
      · exact absurd hstep List.not_mem_nil
      · rename_i name hname
        obtain ⟨resolved, hresolved, hto⟩ := List.mem_filterMap.mp hstep
        unfold stepTo at hto
        split at hto
        · cases hto
        · rename_i target htarget
          split at hto
          · cases hto
          · rename_i hne
            cases hto
            exact ⟨rfl, hresolved, hname, htarget, hne⟩
    · rintro ⟨rfl, hresolved, hname, htarget, hne⟩
      dsimp only at hresolved hname htarget hne
      simp only [importsOfFile, hname]
      refine List.mem_filterMap.mpr ⟨imported, hresolved, ?_⟩
      simp only [stepTo, htarget, if_neg hne]
  rw [importsOf, List.mem_flatMap]
  constructor
  · rintro ⟨file, hmem, hstep⟩
    obtain ⟨hsource, himported, hmodules⟩ := (hfile file).mp hstep
    exact ⟨⟨file, hmem, hsource, himported⟩, hmodules⟩
  · rintro ⟨⟨file, hmem, hsource, himported⟩, hmodules⟩
    exact ⟨file, hmem, (hfile file).mpr ⟨hsource, himported, hmodules⟩⟩

end Imports

section Ways

variable {files files' : List CruisedModule} {graph graph' : ModuleGraph}
variable {first goal name : String} {fuel fuel' : Nat} {step : Step}

/-- The dependencies are the steps of the graph. -/
theorem GraphOf.dependsOn_iff (h : GraphOf graph (importsOf files)) (edge : String × String) :
    DependsOn files edge ↔ ∃ step, stepAt graph edge.1 edge.2 = some step := by
  constructor
  · rintro ⟨step, himports, hfrom, hto⟩
    rw [← hfrom, ← hto]
    exact h.exists_stepAt (mem_importsOf.mpr himports)
  · rintro ⟨step, hat⟩
    obtain ⟨hstep, hfrom, hto, -⟩ := h.of_stepAt hat
    exact ⟨step, mem_importsOf.mp hstep, hfrom, hto⟩

theorem GraphOf.mem_sortedEntries (h : GraphOf graph (importsOf files))
    {entry : String × Step} : entry ∈ sortedEntries graph name ↔
      stepAt graph name entry.1 = some entry.2 := by
  rw [sortedEntries, List.mem_insertionSort]
  exact h.mem_entriesOf

/-- The names of an entry. -/
def edgeOf (entry : String × Step) : String × String := (entry.2.fromModule, entry.1)

/-- The way along the entries that the search answers with. -/
abbrev wayOf (graph : ModuleGraph) (first goal : String) (fuel : Nat) :
    Option (Option (List (String × Step))) :=
  shortestWay (fun entry => entry.2.fromModule) Prod.fst (sortedEntries graph) first goal fuel

theorem shortestPath_eq : shortestPath graph first goal fuel =
    (wayOf graph first goal fuel).map (Option.map (List.map Prod.snd)) := rfl

/-- A way of entries, for every route. -/
theorem GraphOf.exists_entries (h : GraphOf graph (importsOf files))
    {route : List (String × String)} (hroute : Leads files first route goal) :
    ∃ entries, entries.length = route.length ∧ IsWay (fun entry => entry.2.fromModule)
      Prod.fst (sortedEntries graph) first entries goal := by
  obtain ⟨hwalk, hdepends⟩ := hroute
  induction route generalizing first with
  | nil => exact ⟨[], rfl, hwalk, fun _ hentry => absurd hentry List.not_mem_nil⟩
  | cons edge route ih =>
      rw [List.forall_mem_cons] at hdepends
      obtain ⟨step, hat⟩ := (h.dependsOn_iff edge).mp hdepends.1
      obtain ⟨entries, hlength, hleads, hsteps⟩ := ih hwalk.2 hdepends.2
      obtain ⟨-, hfrom, -, -⟩ := h.of_stepAt hat
      refine ⟨(edge.2, step) :: entries, ?_, ⟨hfrom.trans hwalk.1, hleads⟩, ?_⟩
      · rw [List.length_cons, List.length_cons, hlength]
      · refine List.forall_mem_cons.mpr ⟨h.mem_sortedEntries.mpr ?_, hsteps⟩
        dsimp only
        rw [hfrom]
        exact hat

/-- What the search answers with: a shortest way, each of whose entries is a step of the
graph, or nothing when no route leads to the goal. -/
theorem GraphOf.wayOf_spec (h : GraphOf graph (importsOf files)) (goal : String)
    (hfirst : first ∈ graph.map Prod.fst) (hfuel : graph.length < fuel) :
    (∃ way, wayOf graph first goal fuel = some (some way) ∧
      (∀ entry ∈ way, stepAt graph entry.2.fromModule entry.1 = some entry.2) ∧
      Walk Prod.fst Prod.snd first (way.map edgeOf) goal ∧
      ((way.map edgeOf).map Prod.fst ++ [goal]).Nodup ∧
      ∀ route, Leads files first route goal → way.length ≤ route.length) ∨
    wayOf graph first goal fuel = some none ∧ ∀ route, ¬ Leads files first route goal := by
  have hsource : ∀ name, ∀ entry ∈ sortedEntries graph name, entry.2.fromModule = name :=
    fun name entry hentry => (h.of_stepAt (h.mem_sortedEntries.mp hentry)).2.1
  have htarget : ∀ name, ∀ entry ∈ sortedEntries graph name,
      entry.1 ∈ graph.map Prod.fst :=
    fun name entry hentry => (h.mem_names (h.mem_sortedEntries.mp hentry)).2
  have hbound : (graph.map Prod.fst).length < fuel := by rwa [List.length_map]
  rcases shortestWay_spec goal hsource htarget hfirst hbound with
    ⟨way, hway, ⟨hwalk, hentries⟩, hnodup, hshort⟩ | ⟨hnone, hno⟩
  · refine Or.inl ⟨way, hway, fun entry hentry => ?_, walk_map.mpr hwalk, ?_, ?_⟩
    · exact h.mem_sortedEntries.mp (hentries entry hentry)
    · rw [List.map_map]
      exact hnodup
    · intro route hroute
      obtain ⟨entries, hlength, hleads⟩ := h.exists_entries hroute
      rw [← hlength]
      exact hshort entries hleads
  · refine Or.inr ⟨hnone, fun route hroute => ?_⟩
    obtain ⟨entries, -, hleads⟩ := h.exists_entries hroute
    exact hno entries hleads

theorem GraphOf.routeOf_entries (h : GraphOf graph (importsOf files))
    {way : List (String × Step)}
    (hway : ∀ entry ∈ way, stepAt graph entry.2.fromModule entry.1 = some entry.2) :
    routeOf (way.map Prod.snd) = way.map edgeOf := by
  rw [routeOf, List.map_map]
  refine List.map_congr_left fun entry hentry => ?_
  obtain ⟨-, -, hto, -⟩ := h.of_stepAt (hway entry hentry)
  exact congrArg (Prod.mk _) hto

/-- The entries of a module are in the strict order of their names. -/
theorem GraphOf.sortedEntries_sorted (h : GraphOf graph (importsOf files)) :
    (sortedEntries graph name).Pairwise fun a b => codeUnits a.1 < codeUnits b.1 :=
  pairwise_sortedByName h.nodup_entriesOf

/-- The same imports lead from a module under the same names, in the same order. -/
theorem GraphOf.edges_eq (h : GraphOf graph (importsOf files))
    (h' : GraphOf graph' (importsOf files'))
    (hsame : ∀ step, step ∈ importsOf files ↔ step ∈ importsOf files') (name : String) :
    (sortedEntries graph name).map edgeOf = (sortedEntries graph' name).map edgeOf := by
  have hsorted : ∀ {graph : ModuleGraph} {files}, GraphOf graph (importsOf files) →
      ((sortedEntries graph name).map edgeOf).Pairwise fun a b =>
        codeUnits a.2 < codeUnits b.2 :=
    fun h => List.pairwise_map.mpr h.sortedEntries_sorted
  have hmem : ∀ {graph : ModuleGraph} {files}, GraphOf graph (importsOf files) →
      ∀ edge, edge ∈ (sortedEntries graph name).map edgeOf ↔
        edge.1 = name ∧ DependsOn files edge := by
    intro graph files h edge
    rw [List.mem_map, h.dependsOn_iff]
    constructor
    · rintro ⟨entry, hentry, rfl⟩
      have hat := h.mem_sortedEntries.mp hentry
      obtain ⟨-, rfl, -, -⟩ := h.of_stepAt hat
      exact ⟨rfl, entry.2, hat⟩
    · rintro ⟨rfl, step, hat⟩
      obtain ⟨-, hfrom, -, -⟩ := h.of_stepAt hat
      exact ⟨(edge.2, step), h.mem_sortedEntries.mpr hat, Prod.ext hfrom rfl⟩
  have : Std.Antisymm fun a b : String × String => codeUnits a.2 < codeUnits b.2 :=
    ⟨fun _ _ hless hmore => absurd hless hmore.not_gt⟩
  have : Std.Irrefl fun a b : String × String => codeUnits a.2 < codeUnits b.2 :=
    ⟨fun _ => lt_irrefl _⟩
  refine (hsorted h).eq_of_mem_iff (hsorted h') fun edge => ?_
  rw [hmem h, hmem h']
  refine and_congr_right fun _ => exists_congr fun step => and_congr_left fun _ => ?_
  rw [← mem_importsOf, ← mem_importsOf, hsame]

/-- The names on the way do not depend on which of the imports the graph keeps. -/
theorem GraphOf.wayOf_congr (h : GraphOf graph (importsOf files))
    (h' : GraphOf graph' (importsOf files'))
    (hsame : ∀ step, step ∈ importsOf files ↔ step ∈ importsOf files')
    (hfirst : first ∈ graph'.map Prod.fst) (hfuel : graph'.length < fuel')
    {way : List (String × Step)} (hway : wayOf graph first goal fuel = some (some way)) :
    ∃ way', wayOf graph' first goal fuel' = some (some way') ∧
      way'.map edgeOf = way.map edgeOf := by
  have hmore := shortestWay_mono hway (le_max_left fuel fuel')
  have hlabel : ∀ graph : ModuleGraph, shortestWay Prod.fst Prod.snd
      (fun name => (sortedEntries graph name).map edgeOf) first goal (max fuel fuel') =
        (wayOf graph first goal (max fuel fuel')).map (Option.map (List.map edgeOf)) :=
    fun graph => shortestWay_relabel (fun _ => rfl) (fun _ => rfl) _
  have hroutes : (wayOf graph' first goal (max fuel fuel')).map
      (Option.map (List.map edgeOf)) = some (some (way.map edgeOf)) := by
    rw [← hlabel graph', ← funext (h.edges_eq h' hsame), hlabel graph]
    exact congrArg _ hmore
  obtain ⟨answer, hanswer⟩ : ∃ answer, wayOf graph' first goal fuel' = some answer := by
    rcases h'.wayOf_spec goal hfirst hfuel with ⟨way, hway, -⟩ | ⟨hnone, -⟩
    · exact ⟨_, hway⟩
    · exact ⟨_, hnone⟩
  have hmax : wayOf graph' first goal (max fuel fuel') = some answer :=
    shortestWay_mono hanswer (le_max_right fuel fuel')
  rw [hmax, Option.map_some, Option.some.injEq, Option.map_eq_some_iff] at hroutes
  obtain ⟨way', rfl, hroute⟩ := hroutes
  exact ⟨way', hanswer, hroute⟩

/-- The shortest path is a shortest way along the imports that passes no module twice;
there is none when no route leads to the goal. -/
theorem GraphOf.shortestPath_spec (h : GraphOf graph (importsOf files)) (goal : String)
    (hfirst : first ∈ graph.map Prod.fst) (hfuel : graph.length < fuel) :
    (∃ way, shortestPath graph first goal fuel = some (some way) ∧
      (∀ step ∈ way, stepAt graph step.fromModule step.toModule = some step) ∧
      Walk Prod.fst Prod.snd first (routeOf way) goal ∧
      (way.map Step.fromModule ++ [goal]).Nodup ∧
      ∀ route, Leads files first route goal → way.length ≤ route.length) ∨
    shortestPath graph first goal fuel = some none ∧
      ∀ route, ¬ Leads files first route goal := by
  rcases h.wayOf_spec goal hfirst hfuel with
    ⟨way, hway, hentries, hwalk, hnodup, hshort⟩ | ⟨hnone, hno⟩
  · have hroute := h.routeOf_entries hentries
    refine Or.inl ⟨way.map Prod.snd, ?_, ?_, ?_, ?_, ?_⟩
    · rw [shortestPath_eq, hway]
      rfl
    · rw [List.forall_mem_map]
      intro entry hentry
      have hat := hentries entry hentry
      obtain ⟨-, -, hto, -⟩ := h.of_stepAt hat
      rwa [hto]
    · rwa [hroute]
    · rw [List.map_map] at hnodup ⊢
      exact hnodup
    · rwa [List.length_map]
  · refine Or.inr ⟨?_, hno⟩
    rw [shortestPath_eq, hnone]
    rfl

theorem GraphOf.shortestPath_congr (h : GraphOf graph (importsOf files))
    (h' : GraphOf graph' (importsOf files'))
    (hsame : ∀ step, step ∈ importsOf files ↔ step ∈ importsOf files')
    (hfirst : first ∈ graph.map Prod.fst) (hfuel : graph.length < fuel)
    (hfirst' : first ∈ graph'.map Prod.fst) (hfuel' : graph'.length < fuel')
    {way : List Step} (hway : shortestPath graph first goal fuel = some (some way)) :
    ∃ way', shortestPath graph' first goal fuel' = some (some way') ∧
      routeOf way' = routeOf way := by
  have hsteps : ∀ {graph : ModuleGraph} {files} {fuel} {entries : List (String × Step)},
      GraphOf graph (importsOf files) → first ∈ graph.map Prod.fst → graph.length < fuel →
      wayOf graph first goal fuel = some (some entries) →
        routeOf (entries.map Prod.snd) = entries.map edgeOf := by
    intro graph files fuel entries h hfirst hfuel hentries
    rcases h.wayOf_spec goal hfirst hfuel with ⟨found, hfound, hat, -⟩ | ⟨hnone, -⟩
    · rw [hentries, Option.some.injEq, Option.some.injEq] at hfound
      rw [hfound]
      exact h.routeOf_entries hat
    · rw [hentries] at hnone
      cases hnone
  obtain ⟨found, hfound, hentries⟩ := Option.map_eq_some_iff.mp hway
  obtain ⟨entries, rfl, rfl⟩ := Option.map_eq_some_iff.mp hentries
  obtain ⟨entries', hentries', hedges⟩ := h.wayOf_congr h' hsame hfirst' hfuel' hfound
  refine ⟨entries'.map Prod.snd, ?_, ?_⟩
  · rw [shortestPath_eq, hentries']
    rfl
  · rw [hsteps h' hfirst' hfuel' hentries', hsteps h hfirst hfuel hfound, hedges]

end Ways

end Architecture

end Workshop
