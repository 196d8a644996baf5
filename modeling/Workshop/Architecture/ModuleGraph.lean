/-
What the loops over the files make of the graph: for each pair of modules the import
with the least text, and of those the one that was met first.
-/
import Workshop.Architecture.ModuleCycles
import Workshop.Library.Groups

namespace Workshop

namespace Architecture

/-- The import of a file by a file of another module, as a step. -/
def stepTo (fromModule importer resolved : String) : Option Step :=
  match moduleOf resolved with
  | none => none
  | some toModule =>
      if toModule = fromModule then none
      else some { fromModule, toModule, importer, imported := resolved }

/-- The imports of files of other modules, in the order of the dependencies. -/
def importsOfFile (file : CruisedModule) : List Step :=
  match moduleOf file.source with
  | none => []
  | some fromModule =>
      (file.dependencies.getD []).filterMap (stepTo fromModule file.source)

/-- The imports between modules, in the order the loops meet them. -/
def importsOf (files : List CruisedModule) : List Step := files.flatMap importsOfFile

/-- The step from one module to another. -/
def stepAt (graph : ModuleGraph) (fromModule toModule : String) : Option Step :=
  ((entriesOf graph fromModule).find? fun entry => entry.1 = toModule).map Prod.snd

/-- A step gives way to one that precedes it. -/
def keepLess (known step : Step) : Step := if precedes step known then step else known

/-- The steps between two modules. -/
def between (steps : List Step) (fromModule toModule : String) : List Step :=
  steps.filter fun step => step.fromModule = fromModule ∧ step.toModule = toModule

/-- The graph of these imports. -/
structure GraphOf (graph : ModuleGraph) (steps : List Step) : Prop where
  names : (graph.map Prod.fst).Nodup
  entries : ∀ entry ∈ graph, (entry.2.map Prod.fst).Nodup
  known : ∀ entry ∈ graph, ∀ step ∈ entry.2, step.1 ∈ graph.map Prod.fst
  least : ∀ fromModule toModule, stepAt graph fromModule toModule =
    mergeAll keepLess (between steps fromModule toModule)

section Graphs

variable {graph : ModuleGraph} {steps : List Step} {step : Step} {name other : String}

theorem graphOf_nil : GraphOf [] [] where
  names := List.nodup_nil
  entries := fun _ h => absurd h List.not_mem_nil
  known := fun _ h => absurd h List.not_mem_nil
  least := fun _ _ => rfl

theorem entriesOf_of_mem {entry : String × List (String × Step)}
    (hnames : (graph.map Prod.fst).Nodup) (hentry : entry ∈ graph) :
    entriesOf graph entry.1 = entry.2 := by
  rw [entriesOf, find?_key_of_mem hnames hentry]
  rfl

theorem entriesOf_of_not_mem (hname : name ∉ graph.map Prod.fst) :
    entriesOf graph name = [] := by
  have hnone : (graph.find? fun entry => entry.1 = name) = none := by
    rw [List.find?_eq_none]
    intro entry hentry heq
    exact hname (of_decide_eq_true heq ▸ List.mem_map_of_mem hentry)
  rw [entriesOf, hnone]
  rfl

theorem openModule_names : (openModule graph name).map Prod.fst =
    if name ∈ graph.map Prod.fst then graph.map Prod.fst
    else graph.map Prod.fst ++ [name] := by
  have hany : (graph.any fun entry => decide (entry.1 = name)) = true ↔
      name ∈ graph.map Prod.fst := by
    rw [List.any_eq_true, List.mem_map]
    exact exists_congr fun entry => and_congr_right fun _ => decide_eq_true_iff
  unfold openModule
  by_cases hname : name ∈ graph.map Prod.fst
  · rw [if_pos (hany.mpr hname), if_pos hname]
  · rw [if_neg fun h => hname (hany.mp h), if_neg hname, List.map_append]
    rfl

theorem mem_openModule : name ∈ (openModule graph name).map Prod.fst := by
  rw [openModule_names]
  split
  · assumption
  · exact List.mem_concat_self

theorem subset_openModule : graph.map Prod.fst ⊆ (openModule graph name).map Prod.fst := by
  rw [openModule_names]
  split
  · exact List.Subset.refl _
  · exact List.subset_append_left _ _

/-- A module that was opened has no steps yet. -/
theorem entriesOf_openModule : entriesOf (openModule graph name) other =
    entriesOf graph other := by
  unfold openModule
  split
  · rfl
  · rename_i hnone
    by_cases hother : other ∈ graph.map Prod.fst
    · obtain ⟨entry, hentry, rfl⟩ := List.mem_map.mp hother
      unfold entriesOf
      rw [List.find?_append]
      cases hfound : graph.find? fun other => other.1 = entry.1 with
      | none => exact absurd (decide_eq_true rfl) (List.find?_eq_none.mp hfound entry hentry)
      | some found => rfl
    · rw [entriesOf_of_not_mem hother, entriesOf, List.find?_append]
      have hnone : (graph.find? fun entry => entry.1 = other) = none := by
        rw [List.find?_eq_none]
        intro entry hentry heq
        exact hother (of_decide_eq_true heq ▸ List.mem_map_of_mem hentry)
      rw [hnone, Option.none_or, List.find?_singleton]
      split <;> rfl

theorem GraphOf.openModule (h : GraphOf graph steps) (name : String) :
    GraphOf (openModule graph name) steps := by
  refine ⟨?_, ?_, ?_, ?_⟩
  · rw [openModule_names]
    split
    · exact h.names
    · rename_i hnew
      rw [← List.concat_eq_append]
      exact h.names.concat hnew
  · intro entry hentry
    unfold Architecture.openModule at hentry
    split at hentry
    · exact h.entries entry hentry
    · rcases List.mem_append.mp hentry with hold | hlast
      · exact h.entries entry hold
      · rw [List.mem_singleton.mp hlast]
        exact List.nodup_nil
  · intro entry hentry step hstep
    unfold Architecture.openModule at hentry
    split at hentry
    · exact subset_openModule (h.known entry hentry step hstep)
    · rcases List.mem_append.mp hentry with hold | hlast
      · exact subset_openModule (h.known entry hold step hstep)
      · rw [List.mem_singleton.mp hlast] at hstep
        exact absurd hstep List.not_mem_nil
  · intro fromModule toModule
    rw [stepAt, entriesOf_openModule]
    exact h.least fromModule toModule

theorem setStep_names : (setStep graph step).map Prod.fst = graph.map Prod.fst := by
  rw [setStep, List.map_map]
  refine List.map_congr_left fun entry _ => ?_
  rw [Function.comp_apply]
  split <;> rfl

/-- Setting a step of a module that was opened changes its steps alone. -/
theorem entriesOf_setStep (hfrom : step.fromModule ∈ graph.map Prod.fst) :
    entriesOf (setStep graph step) name =
      if name = step.fromModule then
        upsert Prod.fst (step.toModule, step) (entriesOf graph name)
      else entriesOf graph name := by
  have hkey : ∀ entry : String × List (String × Step),
      (if entry.1 = step.fromModule
        then (entry.1, upsert Prod.fst (step.toModule, step) entry.2) else entry).1 =
          entry.1 := by
    intro entry
    split <;> rfl
  rw [entriesOf, setStep, find?_map_key hkey, entriesOf]
  cases hfound : graph.find? fun entry => entry.1 = name with
  | none =>
      rw [if_neg]
      · rfl
      · intro heq
        obtain ⟨entry, hentry, hname⟩ := List.mem_map.mp hfrom
        exact absurd (decide_eq_true (hname.trans heq.symm))
          (List.find?_eq_none.mp hfound entry hentry)
  | some entry =>
      have hname : entry.1 = name := by simpa using List.find?_some hfound
      rw [← hname, Option.map_some, Option.map_some, Option.getD_some, Option.map_some,
        Option.getD_some]
      split <;> rfl

theorem stepAt_setStep (hfrom : step.fromModule ∈ graph.map Prod.fst) :
    stepAt (setStep graph step) name other =
      if name = step.fromModule ∧ other = step.toModule then some step
      else stepAt graph name other := by
  rw [stepAt, entriesOf_setStep hfrom]
  by_cases hname : name = step.fromModule
  · rw [if_pos hname, find?_upsert]
    by_cases hother : step.toModule = other
    · rw [if_pos hother, if_pos ⟨hname, hother.symm⟩]
      rfl
    · rw [if_neg hother, if_neg fun h => hother h.2.symm]
      rfl
  · rw [if_neg hname, if_neg fun h => hname h.1]
    rfl

theorem between_concat (fromModule toModule : String) :
    between (steps ++ [step]) fromModule toModule =
      if fromModule = step.fromModule ∧ toModule = step.toModule
      then between steps fromModule toModule ++ [step]
      else between steps fromModule toModule := by
  rw [between, List.filter_append, List.filter_singleton]
  by_cases hsame : step.fromModule = fromModule ∧ step.toModule = toModule
  · rw [if_pos ⟨hsame.1.symm, hsame.2.symm⟩, decide_eq_true hsame]
    rfl
  · rw [if_neg fun h => hsame ⟨h.1.symm, h.2.symm⟩, decide_eq_false hsame, cond_false,
      List.append_nil]
    rfl

/-- A step that is the first between its modules, or precedes the one there is. -/
theorem GraphOf.setStep (h : GraphOf graph steps)
    (hfrom : step.fromModule ∈ graph.map Prod.fst)
    (hto : step.toModule ∈ graph.map Prod.fst)
    (hless : ∀ known, stepAt graph step.fromModule step.toModule = some known →
      keepLess known step = step) :
    GraphOf (setStep graph step) (steps ++ [step]) := by
  refine ⟨?_, ?_, ?_, ?_⟩
  · rw [setStep_names]
    exact h.names
  · intro entry hentry
    obtain ⟨old, hold, rfl⟩ := List.mem_map.mp hentry
    split
    · exact nodup_upsert (h.entries old hold)
    · exact h.entries old hold
  · intro entry hentry target htarget
    rw [setStep_names]
    obtain ⟨old, hold, rfl⟩ := List.mem_map.mp hentry
    split at htarget
    · rcases mem_upsert.mp htarget with rfl | ⟨hkept, -⟩
      · exact hto
      · exact h.known old hold target hkept
    · exact h.known old hold target htarget
  · intro fromModule toModule
    rw [stepAt_setStep hfrom, between_concat]
    split
    · rename_i hsame
      obtain ⟨rfl, rfl⟩ := hsame
      rw [mergeAll_concat, ← h.least]
      cases hknown : stepAt graph step.fromModule step.toModule with
      | none => rfl
      | some known =>
          dsimp only
          rw [hless known hknown]
    · exact h.least fromModule toModule

/-- A step that does not precede the one there is. -/
theorem GraphOf.keep (h : GraphOf graph steps) {known : Step}
    (hknown : stepAt graph step.fromModule step.toModule = some known)
    (hless : keepLess known step = known) : GraphOf graph (steps ++ [step]) := by
  refine ⟨h.names, h.entries, h.known, ?_⟩
  intro fromModule toModule
  rw [between_concat]
  split
  · rename_i hsame
    obtain ⟨rfl, rfl⟩ := hsame
    rw [mergeAll_concat, ← h.least, hknown]
    dsimp only
    rw [hless]
  · exact h.least fromModule toModule

/-- One dependency of a file of a module that was opened. -/
theorem GraphOf.addDependency (h : GraphOf graph steps) {fromModule : String}
    (hfrom : fromModule ∈ graph.map Prod.fst) (importer resolved : String) :
    GraphOf (addDependency fromModule importer graph resolved)
        (steps ++ (stepTo fromModule importer resolved).toList) ∧
      fromModule ∈ (addDependency fromModule importer graph resolved).map Prod.fst := by
  cases hmodule : moduleOf resolved with
  | none =>
      simp only [Architecture.addDependency, stepTo, hmodule, Option.toList_none,
        List.append_nil]
      exact ⟨h, hfrom⟩
  | some toModule =>
      by_cases hsame : toModule = fromModule
      · simp only [Architecture.addDependency, stepTo, hmodule, if_pos hsame,
          Option.toList_none, List.append_nil]
        exact ⟨h, hfrom⟩
      · have hopen := h.openModule toModule
        have hfrom' : fromModule ∈ (Architecture.openModule graph toModule).map Prod.fst :=
          subset_openModule hfrom
        simp only [Architecture.addDependency, stepTo, hmodule, if_neg hsame,
          Option.toList_some]
        cases hfound : (entriesOf (Architecture.openModule graph toModule) fromModule).find?
            fun entry => entry.1 = toModule with
        | none =>
            dsimp only
            refine ⟨hopen.setStep hfrom' mem_openModule ?_, ?_⟩
            · intro known hknown
              rw [stepAt] at hknown
              dsimp only at hknown
              rw [hfound] at hknown
              cases hknown
            · rw [setStep_names]
              exact hfrom'
        | some entry =>
            have hat : stepAt (Architecture.openModule graph toModule) fromModule toModule =
                some entry.2 := by
              rw [stepAt, hfound]
              rfl
            obtain ⟨found, known⟩ := entry
            dsimp only at hat ⊢
            split
            · rename_i hprecedes
              refine ⟨hopen.setStep hfrom' mem_openModule ?_, ?_⟩
              · intro other hother
                dsimp only at hother
                rw [hat] at hother
                obtain rfl := Option.some.inj hother
                rw [keepLess, if_pos hprecedes]
              · rw [setStep_names]
                exact hfrom'
            · rename_i hprecedes
              refine ⟨hopen.keep hat ?_, hfrom'⟩
              rw [keepLess, if_neg hprecedes]

/-- The dependencies of a file, one after another. -/
theorem GraphOf.addDependencies {fromModule importer : String} (resolved : List String) :
    ∀ {graph : ModuleGraph} {steps : List Step}, GraphOf graph steps →
      fromModule ∈ graph.map Prod.fst →
      GraphOf (resolved.foldl (Architecture.addDependency fromModule importer) graph)
        (steps ++ resolved.filterMap (stepTo fromModule importer)) := by
  induction resolved with
  | nil =>
      intro graph steps h _
      rw [List.filterMap_nil, List.append_nil]
      exact h
  | cons first resolved ih =>
      intro graph steps h hfrom
      obtain ⟨hnext, hfrom'⟩ := h.addDependency hfrom importer first
      have hrest := ih hnext hfrom'
      rw [List.append_assoc] at hrest
      have hsteps : (stepTo fromModule importer first).toList ++
          resolved.filterMap (stepTo fromModule importer) =
            (first :: resolved).filterMap (stepTo fromModule importer) := by
        rw [List.filterMap_cons]
        cases stepTo fromModule importer first <;> rfl
      rwa [hsteps] at hrest

theorem GraphOf.addFile (h : GraphOf graph steps) (file : CruisedModule) :
    GraphOf (addFile graph file) (steps ++ importsOfFile file) := by
  cases hmodule : moduleOf file.source with
  | none =>
      simp only [Architecture.addFile, importsOfFile, hmodule, List.append_nil]
      exact h
  | some fromModule =>
      simp only [Architecture.addFile, importsOfFile, hmodule]
      exact GraphOf.addDependencies _ (h.openModule _) mem_openModule

/-- The graph of the files is the graph of their imports. -/
theorem graphOf_moduleGraph (files : List CruisedModule) :
    GraphOf (moduleGraph files) (importsOf files) := by
  have hfold : ∀ (files : List CruisedModule) {graph : ModuleGraph} {steps : List Step},
      GraphOf graph steps →
        GraphOf (files.foldl Architecture.addFile graph) (steps ++ importsOf files) := by
    intro files
    induction files with
    | nil =>
        intro graph steps h
        rw [importsOf, List.flatMap_nil, List.append_nil]
        exact h
    | cons file files ih =>
        intro graph steps h
        rw [importsOf, List.flatMap_cons, ← List.append_assoc]
        exact ih (h.addFile file)
  exact hfold files graphOf_nil

theorem GraphOf.nodup_entriesOf (h : GraphOf graph steps) :
    ((entriesOf graph name).map Prod.fst).Nodup := by
  by_cases hname : name ∈ graph.map Prod.fst
  · obtain ⟨module, hmodule, rfl⟩ := List.mem_map.mp hname
    rw [entriesOf_of_mem h.names hmodule]
    exact h.entries module hmodule
  · rw [entriesOf_of_not_mem hname]
    exact List.nodup_nil

/-- The entries of a module are its steps. -/
theorem GraphOf.mem_entriesOf (h : GraphOf graph steps) {entry : String × Step} :
    entry ∈ entriesOf graph name ↔ stepAt graph name entry.1 = some entry.2 := by
  constructor
  · intro hentry
    rw [stepAt, find?_key_of_mem h.nodup_entriesOf hentry]
    rfl
  · intro hat
    obtain ⟨found, hfound, hstep⟩ := Option.map_eq_some_iff.mp hat
    have hname : found.1 = entry.1 := by simpa using List.find?_some hfound
    have hentry : entry = found := Prod.ext hname.symm hstep.symm
    rw [hentry]
    exact List.mem_of_find?_eq_some hfound

/-- The step from one module to another is an import between them with the least text. -/
theorem GraphOf.of_stepAt (h : GraphOf graph steps)
    (hat : stepAt graph name other = some step) :
    step ∈ steps ∧ step.fromModule = name ∧ step.toModule = other ∧
      ∀ same ∈ steps, same.fromModule = name → same.toModule = other →
        codeUnits (stepText step) ≤ codeUnits (stepText same) := by
  have hleast : mergeAll keepLess (between steps name other) = some step :=
    (h.least name other).symm.trans hat
  have hgroup : step ∈ between steps name other ∧ ∀ same ∈ between steps name other,
      codeUnits (stepText step) ≤ codeUnits (stepText same) := by
    refine mergeAll_induction (P := fun group merged => merged ∈ group ∧
      ∀ same ∈ group, codeUnits (stepText merged) ≤ codeUnits (stepText same)) ?_ ?_ hleast
    · intro row
      refine ⟨List.mem_singleton_self _, fun same hsame => ?_⟩
      rw [List.mem_singleton.mp hsame]
    · rintro group known step ⟨hknown, hless⟩
      rw [keepLess]
      split
      · rename_i hprecedes
        have hstep := of_decide_eq_true hprecedes
        refine ⟨List.mem_append_right _ (List.mem_singleton_self _), fun same hsame => ?_⟩
        rcases List.mem_append.mp hsame with hsame | hsame
        · exact hstep.le.trans (hless same hsame)
        · rw [List.mem_singleton.mp hsame]
      · rename_i hprecedes
        have hstep := not_lt.mp fun h => hprecedes (decide_eq_true h)
        refine ⟨List.mem_append_left _ hknown, fun same hsame => ?_⟩
        rcases List.mem_append.mp hsame with hsame | hsame
        · exact hless same hsame
        · rw [List.mem_singleton.mp hsame]
          exact hstep
  have hmem : ∀ {same}, same ∈ between steps name other ↔
      same ∈ steps ∧ same.fromModule = name ∧ same.toModule = other := by
    intro same
    rw [between, List.mem_filter, decide_eq_true_iff]
  obtain ⟨hstep, hfrom, hto⟩ := hmem.mp hgroup.1
  exact ⟨hstep, hfrom, hto, fun same hsame hsource htarget =>
    hgroup.2 same (hmem.mpr ⟨hsame, hsource, htarget⟩)⟩

theorem GraphOf.exists_stepAt (h : GraphOf graph steps) (hstep : step ∈ steps) :
    ∃ known, stepAt graph step.fromModule step.toModule = some known := by
  have hbetween : step ∈ between steps step.fromModule step.toModule := by
    rw [between, List.mem_filter]
    exact ⟨hstep, decide_eq_true ⟨rfl, rfl⟩⟩
  rw [h.least]
  cases hgroup : between steps step.fromModule step.toModule with
  | nil =>
      rw [hgroup] at hbetween
      exact absurd hbetween List.not_mem_nil
  | cons first rest => exact ⟨_, rfl⟩

/-- The modules a step leads from and to have an entry. -/
theorem GraphOf.mem_names (h : GraphOf graph steps)
    (hat : stepAt graph name other = some step) :
    name ∈ graph.map Prod.fst ∧ other ∈ graph.map Prod.fst := by
  have hentry : (other, step) ∈ entriesOf graph name := h.mem_entriesOf.mpr hat
  have hname : name ∈ graph.map Prod.fst := by
    by_contra hnone
    rw [entriesOf_of_not_mem hnone] at hentry
    exact absurd hentry List.not_mem_nil
  refine ⟨hname, ?_⟩
  obtain ⟨module, hmodule, rfl⟩ := List.mem_map.mp hname
  rw [entriesOf_of_mem h.names hmodule] at hentry
  exact h.known module hmodule (other, step) hentry

theorem GraphOf.mem_stepsOf (h : GraphOf graph steps) :
    step ∈ stepsOf graph ↔ stepAt graph step.fromModule step.toModule = some step := by
  rw [stepsOf, List.mem_flatMap]
  constructor
  · rintro ⟨module, hmodule, hstep⟩
    obtain ⟨entry, hentry, rfl⟩ := List.mem_map.mp hstep
    have hat : stepAt graph module.1 entry.1 = some entry.2 := by
      rw [← h.mem_entriesOf, entriesOf_of_mem h.names hmodule]
      exact hentry
    obtain ⟨-, hfrom, hto, -⟩ := h.of_stepAt hat
    rwa [← hfrom, ← hto] at hat
  · intro hat
    obtain ⟨module, hmodule, hname⟩ := List.mem_map.mp (h.mem_names hat).1
    have hentry : (step.toModule, step) ∈ entriesOf graph step.fromModule :=
      h.mem_entriesOf.mpr hat
    rw [← hname, entriesOf_of_mem h.names hmodule] at hentry
    exact ⟨module, hmodule, List.mem_map_of_mem hentry⟩

end Graphs

end Architecture

end Workshop
