/-
A cycle as it is listed: it starts at its least module, and the names of its modules in
one text are its key.  Cycles that are rotations of one another are listed alike, and a
key gives back the names it was made of.
-/
import Mathlib.Data.List.TakeWhile
import Workshop.Architecture.ModuleCycles

namespace Workshop

namespace Architecture

section Rotations

variable {cycle : List Step} {names other : List String}

/-- The module of the step that is first in the reported cycle is the least one. -/
theorem firstIndex_least (hcycle : cycle ≠ []) :
    ∃ lowest, cycle[firstIndex cycle]? = some lowest ∧
      ∀ step ∈ cycle, codeUnits lowest.fromModule ≤ codeUnits step.fromModule := by
  have hfold : ∀ next : Nat → Step × Nat → Nat,
      (∀ low lowest entry, cycle[low]? = some lowest → next low entry =
        if codeUnits entry.1.fromModule < codeUnits lowest.fromModule then entry.2
        else low) →
      ∀ (rest front : List Step) (low : Nat) (lowest : Step),
        front ++ rest = cycle → cycle[low]? = some lowest →
        (∀ step ∈ front, codeUnits lowest.fromModule ≤ codeUnits step.fromModule) →
        ∃ least, cycle[(rest.zipIdx front.length).foldl next low]? = some least ∧
          ∀ step ∈ cycle, codeUnits least.fromModule ≤ codeUnits step.fromModule := by
    intro next hnext rest
    induction rest with
    | nil =>
        intro front low lowest hcycle hlowest hleast
        rw [List.append_nil] at hcycle
        exact ⟨lowest, hlowest, hcycle ▸ hleast⟩
    | cons step rest ih =>
        intro front low lowest hcycle hlowest hleast
        rw [List.zipIdx_cons, List.foldl_cons, hnext low lowest _ hlowest]
        have hwhole : front ++ [step] ++ rest = cycle := by
          rw [List.append_assoc, List.singleton_append]
          exact hcycle
        have hstep : cycle[front.length]? = some step := by
          rw [← hcycle, List.getElem?_append_right le_rfl, Nat.sub_self]
          rfl
        have hlength : (front ++ [step]).length = front.length + 1 := List.length_append
        rw [← hlength]
        split
        · rename_i hless
          refine ih (front ++ [step]) front.length step hwhole hstep fun same hsame => ?_
          rcases List.mem_append.mp hsame with hsame | hsame
          · exact hless.le.trans (hleast same hsame)
          · rw [List.mem_singleton.mp hsame]
        · rename_i hless
          refine ih (front ++ [step]) low lowest hwhole hlowest fun same hsame => ?_
          rcases List.mem_append.mp hsame with hsame | hsame
          · exact hleast same hsame
          · rw [List.mem_singleton.mp hsame]
            exact not_lt.mp hless
  cases hfirst : cycle[0]? with
  | none =>
      have hlength := List.length_pos_iff.mpr hcycle
      rw [List.getElem?_eq_none_iff] at hfirst
      omega
  | some first =>
      refine hfold _ (fun low lowest entry hlowest => ?_) cycle [] 0 first rfl hfirst
        fun _ h => absurd h List.not_mem_nil
      rw [hlowest]

theorem rotated_eq_rotate (hcycle : cycle ≠ []) :
    rotated cycle = cycle.rotate (firstIndex cycle) := by
  obtain ⟨lowest, hlowest, -⟩ := firstIndex_least hcycle
  have hbound := (List.getElem?_eq_some_iff.mp hlowest).1
  rw [rotated, List.rotate_eq_drop_append_take hbound.le]

/-- The first name is the least. -/
def LeastFirst (names : List String) : Prop :=
  ∀ first ∈ names.head?, ∀ name ∈ names, codeUnits first ≤ codeUnits name

theorem leastFirst_rotated (hcycle : cycle ≠ []) :
    LeastFirst ((rotated cycle).map Step.fromModule) := by
  obtain ⟨lowest, hlowest, hleast⟩ := firstIndex_least hcycle
  have hbound := (List.getElem?_eq_some_iff.mp hlowest).1
  intro first hfirst name hname
  rw [rotated_eq_rotate hcycle] at hfirst hname
  rw [List.head?_map, List.head?_rotate hbound, hlowest] at hfirst
  obtain ⟨step, hstep, rfl⟩ := List.mem_map.mp hname
  obtain rfl := Option.some.inj hfirst
  exact hleast step (List.mem_rotate.mp hstep)

/-- Names that start with the least one are the only rotation that does. -/
theorem LeastFirst.eq_of_isRotated (h : LeastFirst names) (hother : LeastFirst other)
    (hnodup : names.Nodup) (hrotated : names.IsRotated other) : names = other := by
  obtain ⟨n, rfl⟩ := hrotated
  by_cases hnil : names = []
  · rw [hnil, List.rotate_nil]
  · have hpos := List.length_pos_iff.mpr hnil
    have hbound : n % names.length < names.length := Nat.mod_lt _ hpos
    rw [← List.rotate_mod] at hother ⊢
    have hhead : (names.rotate (n % names.length)).head? = some names[n % names.length] := by
      rw [List.head?_rotate hbound, List.getElem?_eq_getElem hbound]
    have hfirst : names.head? = some names[0] := by
      rw [List.head?_eq_getElem?, List.getElem?_eq_getElem hpos]
    have hsame : names[n % names.length] = names[0] := by
      refine codeUnits_inj (le_antisymm ?_ ?_)
      · exact hother _ hhead _ (List.mem_rotate.mpr (List.getElem_mem hpos))
      · exact h _ hfirst _ (List.getElem_mem hbound)
    rw [hnodup.getElem_inj_iff.mp hsame, List.rotate_zero]

end Rotations

section Keys

/-- The names `moduleOf` gives: a folder under `src/modules`, or `src/shared`. -/
def ModuleName (name : List Char) : Prop :=
  name = "src/shared".toList ∨
    ∃ folder, '/' ∉ folder ∧ name = "src/modules/".toList ++ folder

theorem moduleName_of_moduleOf {file name : String} (h : moduleOf file = some name) :
    ModuleName name.toList := by
  unfold moduleOf at h
  split at h
  · rename_i rest _
    dsimp only at h
    split at h
    · obtain rfl := Option.some.inj h
      refine Or.inr ⟨rest.takeWhile (· ≠ '/'), fun hslash => ?_, ?_⟩
      · have hne := List.mem_takeWhile_imp hslash
        exact of_decide_eq_true hne rfl
      · rw [String.toList_append]
        exact congrArg _ String.toList_ofList
    · cases h
  · split at h
    · obtain rfl := Option.some.inj h
      exact Or.inl rfl
    · cases h

/-- The names of more modules, each after a blank. -/
def namesText (names : List String) : List Char :=
  names.flatMap fun name => ' ' :: name.toList

theorem namesText_cons (name : String) (names : List String) :
    namesText (name :: names) = ' ' :: (name.toList ++ namesText names) := rfl

theorem namesText_eq {names : List String} (hnames : names ≠ []) :
    namesText names = ' ' :: (String.intercalate " " names).toList := by
  induction names with
  | nil => exact absurd rfl hnames
  | cons name names ih =>
      rw [namesText_cons]
      by_cases hrest : names = []
      · rw [hrest, String.intercalate_singleton]
        exact congrArg _ (List.append_nil _)
      · rw [String.intercalate_cons_of_ne_nil hrest, ih hrest, String.toList_append,
          String.toList_append, List.append_assoc]
        rfl

/-- What follows a name is nothing, or starts with a blank and `src/`. -/
theorem namesText_start {names : List String}
    (hnames : ∀ name ∈ names, ModuleName name.toList) :
    namesText names = [] ∨ ∃ rest, namesText names = " src".toList ++ '/' :: rest := by
  cases names with
  | nil => exact Or.inl rfl
  | cons name names =>
      refine Or.inr ?_
      rw [namesText_cons]
      rcases hnames name List.mem_cons_self with hname | ⟨folder, -, hname⟩
      · rw [hname]
        exact ⟨_, rfl⟩
      · rw [hname, List.append_assoc]
        exact ⟨_, rfl⟩

/-- The folder at the start of a text ends at the next name. -/
theorem folder_append_inj {left right : List Char} {more rest : List String}
    (hleft : '/' ∉ left) (hright : '/' ∉ right)
    (hmore : ∀ name ∈ more, ModuleName name.toList)
    (hrest : ∀ name ∈ rest, ModuleName name.toList)
    (h : left ++ namesText more = right ++ namesText rest) :
    left = right ∧ namesText more = namesText rest := by
  rcases namesText_start hmore with hmore | ⟨after, hmore⟩ <;>
    rcases namesText_start hrest with hrest | ⟨after', hrest⟩ <;>
    rw [hmore, hrest] at h ⊢
  · rw [List.append_nil, List.append_nil] at h
    exact ⟨h, rfl⟩
  · rw [List.append_nil] at h
    exact absurd (h ▸ by simp) hleft
  · rw [List.append_nil] at h
    exact absurd (h ▸ by simp) hright
  · rw [← List.append_assoc, ← List.append_assoc] at h
    have hnone : ∀ {folder : List Char}, '/' ∉ folder →
        '/' ∉ folder ++ " src".toList := by
      intro folder hfolder hslash
      rcases List.mem_append.mp hslash with hslash | hslash
      · exact hfolder hslash
      · exact absurd hslash (by decide)
    have hcut : ∀ (after : List Char) {text : List Char}, '/' ∉ text →
        (text ++ '/' :: after).takeWhile (· ≠ '/') = text := by
      intro after text htext
      rw [List.takeWhile_append_of_pos, List.takeWhile_cons_of_neg, List.append_nil]
      · exact fun hslash => of_decide_eq_true hslash rfl
      · exact fun c hc => decide_eq_true fun heq => htext (heq ▸ hc)
    have hfolders : left ++ " src".toList = right ++ " src".toList := by
      rw [← hcut after (hnone hleft), h, hcut _ (hnone hright)]
    rw [hfolders] at h
    refine ⟨List.append_cancel_right hfolders, ?_⟩
    rw [List.append_cancel_left h]

theorem name_append_inj {left right : List Char} {more rest : List String}
    (hleft : ModuleName left) (hright : ModuleName right)
    (hmore : ∀ name ∈ more, ModuleName name.toList)
    (hrest : ∀ name ∈ rest, ModuleName name.toList)
    (h : left ++ namesText more = right ++ namesText rest) :
    left = right ∧ namesText more = namesText rest := by
  have hapart : ∀ {text folder after : List Char},
      "src/shared".toList ++ text ≠ "src/modules/".toList ++ folder ++ after := by
    intro text folder after heq
    have hstart := congrArg (List.take 5) heq
    rw [List.append_assoc, List.take_append_of_le_length (by decide),
      List.take_append_of_le_length (by decide)] at hstart
    exact absurd hstart (by decide)
  rcases hleft with rfl | ⟨folder, hfolder, rfl⟩ <;>
    rcases hright with rfl | ⟨folder', hfolder', rfl⟩
  · exact ⟨rfl, List.append_cancel_left h⟩
  · exact absurd h hapart
  · exact absurd h.symm hapart
  · rw [List.append_assoc, List.append_assoc] at h
    obtain ⟨rfl, hafter⟩ := folder_append_inj hfolder hfolder' hmore hrest
      (List.append_cancel_left h)
    exact ⟨rfl, hafter⟩

theorem namesText_inj {names other : List String}
    (hnames : ∀ name ∈ names, ModuleName name.toList)
    (hother : ∀ name ∈ other, ModuleName name.toList)
    (h : namesText names = namesText other) : names = other := by
  induction names generalizing other with
  | nil =>
      cases other with
      | nil => rfl
      | cons name other => cases h
  | cons name names ih =>
      cases other with
      | nil => cases h
      | cons name' other =>
          rw [List.forall_mem_cons] at hnames hother
          rw [namesText_cons, namesText_cons, List.cons.injEq] at h
          obtain ⟨hname, hrest⟩ := name_append_inj hnames.1 hother.1 hnames.2 hother.2 h.2
          rw [String.toList_inj.mp hname, ih hnames.2 hother.2 hrest]

/-- A key stands for the names it was made of. -/
theorem cycleKey_inj {cycle other : List Step} (hcycle : cycle ≠ []) (hother : other ≠ [])
    (hnames : ∀ step ∈ cycle, ModuleName step.fromModule.toList)
    (hothers : ∀ step ∈ other, ModuleName step.fromModule.toList)
    (h : cycleKey cycle = cycleKey other) :
    cycle.map Step.fromModule = other.map Step.fromModule := by
  have hne : ∀ {steps : List Step}, steps ≠ [] → steps.map Step.fromModule ≠ [] :=
    fun hsteps heq => hsteps (List.map_eq_nil_iff.mp heq)
  refine namesText_inj (List.forall_mem_map.mpr hnames) (List.forall_mem_map.mpr hothers) ?_
  rw [namesText_eq (hne hcycle), namesText_eq (hne hother)]
  exact congrArg (fun key => ' ' :: String.toList key) h

end Keys

end Architecture

end Workshop
