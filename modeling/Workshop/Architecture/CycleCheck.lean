/-
What the check answers: the cycles of the import relation between modules, each of them
with files that make it, and for every dependency on a cycle a shortest one.
-/
import Mathlib.Data.List.Forall2
import Workshop.Architecture.ListedCycles
import Workshop.Library.Results

namespace Workshop

namespace Architecture

section Answers

variable {files files' : List CruisedModule} {graph graph' : ModuleGraph}
variable {fuel fuel' : Nat} {cycle : List Step}

/-- The loop over the steps writes the cycle each of them closes under its key. -/
theorem foldlM_addCycle (steps : List Step) : ∀ cycles : List (String × List Step),
    (∀ step ∈ steps, shortestPath graph step.toModule step.fromModule fuel ≠ none) →
    steps.foldlM (addCycle graph fuel) cycles = some (upsertAll Prod.fst
      ((steps.filterMap (closedBy graph fuel)).map fun cycle => (cycleKey cycle, cycle))
        cycles) := by
  induction steps with
  | nil => exact fun _ _ => rfl
  | cons step steps ih =>
      intro cycles hsome
      rw [List.forall_mem_cons] at hsome
      rw [List.foldlM_cons, addCycle, List.filterMap_cons, closedBy]
      cases hpath : shortestPath graph step.toModule step.fromModule fuel with
      | none => exact absurd hpath hsome.1
      | some found =>
          cases found with
          | none => exact ih cycles hsome.2
          | some way =>
              exact ih (upsert Prod.fst (cycleKey (rotated (step :: way)),
                rotated (step :: way)) cycles) hsome.2

theorem GraphOf.listed_of_closedBy (h : GraphOf graph (importsOf files))
    (hfuel : graph.length < fuel) {step : Step} (hstep : step ∈ stepsOf graph)
    (hcycle : closedBy graph fuel step = some cycle) :
    Listed graph cycle ∧ step ∈ cycle ∧ ∀ route, ImportCycle files route →
      (step.fromModule, step.toModule) ∈ route → cycle.length ≤ route.length := by
  rcases h.closedBy_spec hfuel (h.mem_stepsOf.mp hstep) with
    ⟨found, hfound, hspec⟩ | ⟨hnone, -⟩
  · rw [hcycle, Option.some.injEq] at hfound
    rwa [hfound]
  · rw [hcycle] at hnone
    cases hnone

/-- Cycles under one key are the same. -/
theorem GraphOf.eq_of_cycleKey (h : GraphOf graph (importsOf files)) {other : List Step}
    (hcycle : Listed graph cycle) (hother : Listed graph other)
    (hkey : cycleKey cycle = cycleKey other) : cycle = other := by
  have hname : ∀ {steps : List Step}, Listed graph steps →
      ∀ step ∈ steps, ModuleName step.fromModule.toList := by
    intro steps hlisted step hstep
    obtain ⟨himport, -⟩ := h.of_stepAt (hlisted.steps step hstep)
    exact moduleName_of_moduleOf (mem_importsOf.mp himport).2.1
  exact hcycle.eq_of_names hother
    (cycleKey_inj hcycle.nonempty hother.nonempty (hname hcycle) (hname hother) hkey)

/-- The answer is the cycles that the steps close, in the order of their keys. -/
theorem GraphOf.findCycles_spec (h : GraphOf graph (importsOf files))
    (hfuel : graph.length < fuel) :
    ∃ answer, findCycles graph fuel = some answer ∧
      (∀ cycle, cycle ∈ answer ↔
        ∃ step ∈ stepsOf graph, closedBy graph fuel step = some cycle) ∧
      answer.Pairwise fun a b => codeUnits (cycleKey a) < codeUnits (cycleKey b) := by
  have hsome : ∀ step ∈ stepsOf graph,
      shortestPath graph step.toModule step.fromModule fuel ≠ none := by
    intro step hstep hnone
    rcases h.shortestPath_spec step.fromModule
      (h.mem_names (h.mem_stepsOf.mp hstep)).2 hfuel with ⟨way, hway, -⟩ | ⟨hway, -⟩ <;>
    · rw [hnone] at hway
      cases hway
  let closed := (stepsOf graph).filterMap (closedBy graph fuel)
  let entries := closed.map fun cycle => (cycleKey cycle, cycle)
  have hclosed : ∀ {cycle}, cycle ∈ closed ↔
      ∃ step ∈ stepsOf graph, closedBy graph fuel step = some cycle := List.mem_filterMap
  have hkeys : ∀ a ∈ entries, ∀ b ∈ entries, a.1 = b.1 → a = b := by
    refine List.forall_mem_map.mpr fun cycle hcycle => List.forall_mem_map.mpr
      fun other hother hkey => ?_
    obtain ⟨step, hstep, hcloses⟩ := hclosed.mp hcycle
    obtain ⟨step', hstep', hcloses'⟩ := hclosed.mp hother
    rw [h.eq_of_cycleKey (h.listed_of_closedBy hfuel hstep hcloses).1
      (h.listed_of_closedBy hfuel hstep' hcloses').1 hkey]
  let sorted := (upsertAll Prod.fst entries []).insertionSort fun a b =>
    codeUnits a.1 ≤ codeUnits b.1
  have hmem : ∀ entry, entry ∈ sorted ↔ entry ∈ entries := by
    intro entry
    rw [List.mem_insertionSort]
    exact mem_upsertAll hkeys
  refine ⟨sorted.map Prod.snd, ?_, fun cycle => ?_, ?_⟩
  · rw [findCycles, foldlM_addCycle _ _ hsome]
    rfl
  · rw [← hclosed, List.mem_map]
    constructor
    · rintro ⟨entry, hentry, rfl⟩
      obtain ⟨cycle, hcycle, rfl⟩ := List.mem_map.mp ((hmem entry).mp hentry)
      exact hcycle
    · intro hcycle
      exact ⟨_, (hmem _).mpr (List.mem_map_of_mem hcycle), rfl⟩
  · have hsorted : sorted.Pairwise fun a b => codeUnits a.1 < codeUnits b.1 :=
      pairwise_sortedByName (nodup_upsertAll List.nodup_nil)
    rw [List.pairwise_map]
    refine hsorted.imp_of_mem fun ha hb hless => ?_
    obtain ⟨cycle, -, rfl⟩ := List.mem_map.mp ((hmem _).mp ha)
    obtain ⟨other, -, rfl⟩ := List.mem_map.mp ((hmem _).mp hb)
    exact hless

/-- Graphs of the same imports that agree on every cycle give the same answer. -/
theorem GraphOf.findCycles_congr (h : GraphOf graph (importsOf files))
    (h' : GraphOf graph' (importsOf files'))
    (hsame : ∀ step, step ∈ importsOf files ↔ step ∈ importsOf files')
    (hagree : ∀ route, ImportCycle files route → ∀ edge ∈ route,
      stepAt graph' edge.1 edge.2 = stepAt graph edge.1 edge.2)
    (hfuel : graph.length < fuel) (hfuel' : graph'.length < fuel') :
    findCycles graph fuel = findCycles graph' fuel' := by
  obtain ⟨answer, hanswer, hmem, hsorted⟩ := h.findCycles_spec hfuel
  obtain ⟨answer', hanswer', hmem', hsorted'⟩ := h'.findCycles_spec hfuel'
  have : Std.Antisymm fun a b : List Step => codeUnits (cycleKey a) < codeUnits (cycleKey b) :=
    ⟨fun _ _ hless hmore => absurd hless hmore.not_gt⟩
  have : Std.Irrefl fun a b : List Step => codeUnits (cycleKey a) < codeUnits (cycleKey b) :=
    ⟨fun _ => lt_irrefl _⟩
  rw [hanswer, hanswer']
  refine congrArg some (hsorted.eq_of_mem_iff hsorted' fun cycle => ?_)
  have hcycles : ∀ route, ImportCycle files route ↔ ImportCycle files' route := by
    intro route
    simp only [ImportCycle, Leads, DependsOn, ← mem_importsOf, hsame]
  rw [hmem, hmem']
  constructor
  · rintro ⟨step, hstep, hcloses⟩
    obtain ⟨hlisted, hin, -⟩ := h.listed_of_closedBy hfuel hstep hcloses
    have hon := hagree _ (hlisted.importCycle h)
    have hat := h.mem_stepsOf.mp hstep
    refine ⟨step, h'.mem_stepsOf.mpr ?_, h.closedBy_congr h' hsame hfuel hfuel' hat hcloses hon⟩
    exact (hon _ (List.mem_map_of_mem hin)).trans hat
  · rintro ⟨step, hstep, hcloses⟩
    obtain ⟨hlisted, hin, -⟩ := h'.listed_of_closedBy hfuel' hstep hcloses
    have hon : ∀ edge ∈ routeOf cycle,
        stepAt graph edge.1 edge.2 = stepAt graph' edge.1 edge.2 :=
      fun edge hedge => (hagree _ ((hcycles _).mpr (hlisted.importCycle h')) edge hedge).symm
    have hat := h'.mem_stepsOf.mp hstep
    refine ⟨step, h.mem_stepsOf.mpr ?_,
      h'.closedBy_congr h (fun step => (hsame step).symm) hfuel' hfuel hat hcloses hon⟩
    exact (hon _ (List.mem_map_of_mem hin)).trans hat

end Answers

/-- The check answers with these cycles, whatever bound above the number of modules its
searches have. -/
def Answers (files : List CruisedModule) (answer : List (List Step)) : Prop :=
  ∀ fuel, (moduleGraph files).length < fuel →
    findCycles (moduleGraph files) fuel = some answer

/-- What an answer says of the import relation. -/
structure CycleAnswer (files : List CruisedModule) (answer : List (List Step)) : Prop where
  /-- Every cycle listed is an elementary cycle of real imports. -/
  sound : ∀ cycle ∈ answer, ImportCycle files (routeOf cycle) ∧
    (cycle.map Step.fromModule).Nodup ∧ ∀ step ∈ cycle, Imports files step
  empty_iff : answer = [] ↔ ∀ route, ¬ ImportCycle files route
  /-- Every dependency on a cycle is on a listed one that is shortest for it. -/
  complete : ∀ route, ImportCycle files route → ∀ edge ∈ route,
    ∃ cycle ∈ answer, edge ∈ routeOf cycle ∧
      ∀ other, ImportCycle files other → edge ∈ other → cycle.length ≤ other.length
  once : answer.Pairwise fun cycle other =>
    ¬ (cycle.map Step.fromModule).IsRotated (other.map Step.fromModule)

/-- The files in another order, and the dependencies of each in another order. -/
def Rearranged (files files' : List CruisedModule) : Prop :=
  ∃ arranged, arranged.Perm files ∧ List.Forall₂ (fun file file' : CruisedModule =>
    file.source = file'.source ∧
      (file.dependencies.getD []).Perm (file'.dependencies.getD [])) arranged files'

/-- The check is right about the files, and answers alike in whatever order they and
their dependencies come. -/
def CheckExact (files : List CruisedModule) : Prop :=
  ∃ answer, Answers files answer ∧ CycleAnswer files answer ∧
    ∀ files', Rearranged files files' → Answers files' answer

/-- An import along a dependency, none of which has a lesser text. -/
def LeastImport (files : List CruisedModule) (edge : String × String) (step : Step) : Prop :=
  Imports files step ∧ step.fromModule = edge.1 ∧ step.toModule = edge.2 ∧
    ∀ same, Imports files same → same.fromModule = edge.1 → same.toModule = edge.2 →
      codeUnits (stepText step) ≤ codeUnits (stepText same)

/-- No two imports of least text along a dependency on a cycle. -/
def LeastImportUnique (files : List CruisedModule) : Prop :=
  ∀ route, ImportCycle files route → ∀ edge ∈ route, ∀ step other,
    LeastImport files edge step → LeastImport files edge other → step = other

section Exactness

variable {files files' : List CruisedModule} {answer : List (List Step)}
variable {edge : String × String} {step : Step}

/-- Whatever the files, the check ends and its answer is right. -/
theorem exists_cycleAnswer (files : List CruisedModule) :
    ∃ answer, Answers files answer ∧ CycleAnswer files answer := by
  have h := graphOf_moduleGraph files
  obtain ⟨answer, hanswer, hmem, hsorted⟩ := h.findCycles_spec (Nat.lt_succ_self _)
  have hlisted : ∀ {cycle}, cycle ∈ answer → Listed (moduleGraph files) cycle := by
    intro cycle hcycle
    obtain ⟨step, hstep, hcloses⟩ := (hmem cycle).mp hcycle
    exact (h.listed_of_closedBy (Nat.lt_succ_self _) hstep hcloses).1
  have hcomplete : ∀ route, ImportCycle files route → ∀ edge ∈ route,
      ∃ cycle ∈ answer, edge ∈ routeOf cycle ∧
        ∀ other, ImportCycle files other → edge ∈ other → cycle.length ≤ other.length := by
    intro route hroute edge hedge
    have hleads := hroute
    obtain ⟨-, name, -, hdepends⟩ := hleads
    obtain ⟨step, hat⟩ := (h.dependsOn_iff edge).mp (hdepends edge hedge)
    obtain ⟨-, hfrom, hto, -⟩ := h.of_stepAt hat
    have hpair : (step.fromModule, step.toModule) = edge := Prod.ext hfrom hto
    rw [← hfrom, ← hto] at hat
    rcases h.closedBy_spec (Nat.lt_succ_self _) hat with
      ⟨cycle, hcloses, hlisted, hin, hshort⟩ | ⟨-, hnone⟩
    · rw [hpair] at hshort
      refine ⟨cycle, (hmem cycle).mpr ⟨step, h.mem_stepsOf.mpr hat, hcloses⟩, ?_, hshort⟩
      rw [← hpair]
      exact List.mem_map_of_mem hin
    · rw [hpair] at hnone
      exact absurd hedge (hnone route hroute)
  refine ⟨answer, fun fuel hfuel => ?_, ⟨fun cycle hcycle => ?_, ?_, hcomplete, ?_⟩⟩
  · rw [← hanswer]
    exact h.findCycles_congr h (fun _ => Iff.rfl) (fun _ _ _ _ => rfl) hfuel
      (Nat.lt_succ_self _)
  · have hcycle := hlisted hcycle
    refine ⟨hcycle.importCycle h, hcycle.elementary, fun step hstep => ?_⟩
    exact mem_importsOf.mp (h.of_stepAt (hcycle.steps step hstep)).1
  · constructor
    · intro hnil route hroute
      obtain ⟨edge, hedge⟩ := List.exists_mem_of_ne_nil route hroute.1
      obtain ⟨cycle, hcycle, -⟩ := hcomplete route hroute edge hedge
      rw [hnil] at hcycle
      exact absurd hcycle List.not_mem_nil
    · intro hnone
      refine List.eq_nil_iff_forall_not_mem.mpr fun cycle hcycle => ?_
      exact hnone _ ((hlisted hcycle).importCycle h)
  · refine hsorted.imp_of_mem fun hcycle hother hless hrotated => ?_
    have hcycle := hlisted hcycle
    have hother := hlisted hother
    have hnames := hcycle.leastFirst.eq_of_isRotated hother.leastFirst hcycle.elementary
      hrotated
    rw [hcycle.eq_of_names hother hnames] at hless
    exact lt_irrefl _ hless

theorem Rearranged.imports_iff (h : Rearranged files files') (step : Step) :
    Imports files step ↔ Imports files' step := by
  obtain ⟨arranged, hperm, hfiles⟩ := h
  refine and_congr_left fun _ => ?_
  constructor
  · rintro ⟨file, hfile, hsource, himported⟩
    obtain ⟨file', hfile', hsame, hdependencies⟩ :=
      exists_right_of_forall₂ hfiles (hperm.mem_iff.mpr hfile)
    exact ⟨file', hfile', hsame ▸ hsource, hdependencies.mem_iff.mp himported⟩
  · rintro ⟨file', hfile', hsource, himported⟩
    obtain ⟨file, hfile, hsame, hdependencies⟩ := exists_left_of_forall₂ hfiles hfile'
    exact ⟨file, hperm.mem_iff.mp hfile, hsame.trans hsource,
      hdependencies.mem_iff.mpr himported⟩

theorem GraphOf.leastImport {graph : ModuleGraph} (h : GraphOf graph (importsOf files))
    (hat : stepAt graph edge.1 edge.2 = some step) : LeastImport files edge step := by
  obtain ⟨hstep, hfrom, hto, hleast⟩ := h.of_stepAt hat
  exact ⟨mem_importsOf.mp hstep, hfrom, hto, fun same hsame =>
    hleast same (mem_importsOf.mpr hsame)⟩

theorem LeastImport.congr (h : LeastImport files edge step)
    (hsame : ∀ step, Imports files step ↔ Imports files' step) :
    LeastImport files' edge step :=
  ⟨(hsame step).mp h.1, h.2.1, h.2.2.1, fun same himports =>
    h.2.2.2 same ((hsame same).mpr himports)⟩

/-- Any import can be the first that the loops meet. -/
theorem Imports.exists_rearranged (h : Imports files step) :
    ∃ files', Rearranged files files' ∧ ∃ rest, importsOf files' = step :: rest := by
  obtain ⟨⟨file, hfile, hsource, himported⟩, hfrom, hto, hne⟩ := h
  obtain ⟨before, after, rfl⟩ := List.append_of_mem hfile
  obtain ⟨front, back, hdependencies⟩ := List.append_of_mem himported
  refine ⟨⟨file.source, some (step.imported :: (front ++ back))⟩ :: (before ++ after),
    ⟨file :: (before ++ after), List.perm_middle.symm, List.Forall₂.cons ⟨rfl, ?_⟩ ?_⟩, ?_⟩
  · rw [hdependencies]
    exact List.perm_middle
  · exact List.forall₂_same.mpr fun _ _ => ⟨rfl, List.Perm.refl _⟩
  · obtain ⟨fromModule, toModule, importer, imported⟩ := step
    dsimp only at hsource hfrom hto hne ⊢
    rw [importsOf, List.flatMap_cons]
    simp only [importsOfFile, hfrom, Option.getD_some, List.filterMap_cons, stepTo, hto,
      if_neg hne, hsource]
    exact ⟨_, rfl⟩

/-- The first import of least text is the step that the graph keeps. -/
theorem LeastImport.stepAt_eq (h : LeastImport files edge step) {rest : List Step}
    (hfirst : importsOf files = step :: rest) :
    stepAt (moduleGraph files) edge.1 edge.2 = some step := by
  obtain ⟨-, hfrom, hto, hleast⟩ := h
  have hfold : ∀ steps : List Step,
      (∀ same ∈ steps, codeUnits (stepText step) ≤ codeUnits (stepText same)) →
        steps.foldl keepLess step = step := by
    intro steps
    induction steps with
    | nil => exact fun _ => rfl
    | cons same steps ih =>
        intro hsteps
        rw [List.forall_mem_cons] at hsteps
        have hkeep : keepLess step same = step := by
          refine if_neg fun hprecedes => ?_
          exact absurd (of_decide_eq_true hprecedes) hsteps.1.not_gt
        rw [List.foldl_cons, hkeep]
        exact ih hsteps.2
  rw [(graphOf_moduleGraph files).least, between, hfirst, List.filter_cons,
    if_pos (decide_eq_true ⟨hfrom, hto⟩), mergeAll, hfold]
  intro same hsame
  obtain ⟨hsame, hmodules⟩ := List.mem_filter.mp hsame
  obtain ⟨hsource, htarget⟩ := of_decide_eq_true hmodules
  refine hleast same (mem_importsOf.mp ?_) hsource htarget
  rw [hfirst]
  exact List.mem_cons_of_mem _ hsame

/-- An answer names the step of the graph wherever a listed cycle passes a dependency. -/
theorem Answers.step_eq (h : Answers files answer) {cycle : List Step} {same : Step}
    (hcycle : cycle ∈ answer) (hsame : same ∈ cycle)
    (hat : stepAt (moduleGraph files) same.fromModule same.toModule = some step) :
    same = step := by
  have hgraph := graphOf_moduleGraph files
  obtain ⟨found, hfound, hmem, -⟩ := hgraph.findCycles_spec (Nat.lt_succ_self _)
  rw [h _ (Nat.lt_succ_self _), Option.some.injEq] at hfound
  subst hfound
  obtain ⟨closing, hstep, hcloses⟩ := (hmem cycle).mp hcycle
  have hlisted := (hgraph.listed_of_closedBy (Nat.lt_succ_self _) hstep hcloses).1
  rw [hlisted.steps same hsame, Option.some.injEq] at hat
  exact hat

/-- The check is right and takes no account of the order exactly when no dependency on
a cycle has two imports of the least text. -/
theorem checkExact_iff (files : List CruisedModule) :
    CheckExact files ↔ LeastImportUnique files := by
  constructor
  · rintro ⟨answer, -, hanswer, hrearranged⟩ route hroute edge hedge step other hstep hother
    obtain ⟨cycle, hcycle, hon, -⟩ := hanswer.complete route hroute edge hedge
    obtain ⟨same, hsame, hpair⟩ := List.mem_map.mp hon
    -- the answer names any import of least text, once that import comes first
    have hnamed : ∀ {step}, LeastImport files edge step → same = step := by
      intro step hstep
      obtain ⟨files', hfiles, rest, hfirst⟩ := hstep.1.exists_rearranged
      have hat := (hstep.congr hfiles.imports_iff).stepAt_eq hfirst
      rw [← hpair] at hat
      exact (hrearranged files' hfiles).step_eq hcycle hsame hat
    rw [← hnamed hstep, hnamed hother]
  · intro hunique
    obtain ⟨answer, hanswers, hanswer⟩ := exists_cycleAnswer files
    refine ⟨answer, hanswers, hanswer, fun files' hfiles fuel hfuel => ?_⟩
    have h := graphOf_moduleGraph files
    have h' := graphOf_moduleGraph files'
    have hsame : ∀ step, step ∈ importsOf files ↔ step ∈ importsOf files' := by
      intro step
      rw [mem_importsOf, mem_importsOf, hfiles.imports_iff]
    rw [← hanswers _ (Nat.lt_succ_self _)]
    refine (h.findCycles_congr h' hsame ?_ (Nat.lt_succ_self _) hfuel).symm
    intro route hroute edge hedge
    have hleads := hroute
    obtain ⟨-, name, -, hdepends⟩ := hleads
    obtain ⟨step, hat⟩ := (h.dependsOn_iff edge).mp (hdepends edge hedge)
    obtain ⟨step', hat'⟩ := (h'.dependsOn_iff edge).mp (by
      obtain ⟨step, himports, hmodules⟩ := hdepends edge hedge
      exact ⟨step, (hfiles.imports_iff step).mp himports, hmodules⟩)
    rw [hat, hat', hunique route hroute edge hedge step step' (h.leastImport hat)
      ((h'.leastImport hat').congr fun step => (hfiles.imports_iff step).symm)]

end Exactness

namespace TieWitness

/-- Two imports from one module to another whose texts are the same: a tab in a file
name is where the other import has the tab between its names. -/
def tiedFiles : List CruisedModule := [
  ⟨"src/modules/a/x", some ["src/modules/b/y\tsrc/modules/b/z"]⟩,
  ⟨"src/modules/a/x\tsrc/modules/b/y", some ["src/modules/b/z"]⟩,
  ⟨"src/modules/b/q", some ["src/modules/a/x"]⟩]

theorem order_decides_named_files : ¬ CheckExact tiedFiles := by
  rintro ⟨answer, hanswer, -, hrearranged⟩
  have hreversed : Rearranged tiedFiles tiedFiles.reverse :=
    ⟨tiedFiles.reverse, List.reverse_perm _,
      List.forall₂_same.mpr fun _ _ => ⟨rfl, List.Perm.refl _⟩⟩
  have hforward := hanswer 3 (by decide +kernel)
  have hbackward := hrearranged _ hreversed 3 (by decide +kernel)
  have hdiffer : findCycles (moduleGraph tiedFiles) 3 ≠
      findCycles (moduleGraph tiedFiles.reverse) 3 := by decide +kernel
  exact hdiffer (hforward.trans hbackward.symm)

end TieWitness

end Architecture

end Workshop
