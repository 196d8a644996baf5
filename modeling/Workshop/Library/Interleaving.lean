/-
Sequential programs that share one store and interleave statement by
statement.  A program is a partial function from the store, the place the
program has reached and an input to what its next statement leaves behind;
the input carries every choice the program itself does not make.
-/
import Mathlib.Logic.Function.Basic
import Mathlib.Data.List.Basic

namespace Workshop

universe u v w x y z

/-- What one statement leaves behind: the store, the place the program has
reached, and the effects it committed, in order. -/
structure Outcome (S : Type u) (K : Type v) (E : Type w) where
  store : S
  place : K
  effects : List E := []

/-- The store together with the place every program has reached.  Programs
are numbered, and there is no bound on how many of them run. -/
structure Config (S : Type u) (K : Type v) where
  store : S
  places : Nat → K

variable {S : Type u} {K : Type v} {E : Type w} {I : Type x}

/-- The configuration after program `pid` made its move. -/
def Config.after (config : Config S K) (pid : Nat) (out : Outcome S K E) :
    Config S K :=
  ⟨out.store, Function.update config.places pid out.place⟩

@[simp] theorem Config.after_store (config : Config S K) (pid : Nat)
    (out : Outcome S K E) : (config.after pid out).store = out.store := rfl

@[simp] theorem Config.after_places_self (config : Config S K) (pid : Nat)
    (out : Outcome S K E) : (config.after pid out).places pid = out.place := by
  simp [Config.after]

theorem Config.after_places_of_ne (config : Config S K) {pid other : Nat}
    (out : Outcome S K E) (hne : other ≠ pid) :
    (config.after pid out).places other = config.places other := by
  simp [Config.after, hne]

/-- Of two moves of one program only the second can be told. -/
@[simp] theorem Config.after_after (config : Config S K) (pid : Nat)
    (out out' : Outcome S K E) :
    (config.after pid out).after pid out' = config.after pid out' := by
  simp [Config.after]

/-- Run the named turns one after another, collecting the committed effects.
A turn that is not enabled stops the run. -/
def runTurns (exec : S → K → I → Option (Outcome S K E)) :
    Config S K → List (Nat × I) → Option (Config S K × List E)
  | config, [] => some (config, [])
  | config, (pid, input) :: turns =>
      match exec config.store (config.places pid) input with
      | none => none
      | some out =>
          match runTurns exec (config.after pid out) turns with
          | none => none
          | some (last, log) => some (last, out.effects ++ log)

/-- Every turn of an executable run passes a check where it is taken. -/
def turnsPass (exec : S → K → I → Option (Outcome S K E))
    (check : S → K → I → Bool) : Config S K → List (Nat × I) → Bool
  | _, [] => true
  | config, (pid, input) :: turns =>
      check config.store (config.places pid) input &&
        match exec config.store (config.places pid) input with
        | none => false
        | some out => turnsPass exec check (config.after pid out) turns

/-- The configurations and effect logs that turns satisfying `allowed` lead
to. -/
inductive ReachesBy (exec : S → K → I → Option (Outcome S K E))
    (allowed : S → K → I → Prop) (first : Config S K) :
    Config S K → List E → Prop
  | start : ReachesBy exec allowed first first []
  | turn {config : Config S K} {log : List E} (pid : Nat) (input : I)
      {out : Outcome S K E} (before : ReachesBy exec allowed first config log)
      (hallowed : allowed config.store (config.places pid) input)
      (hexec : exec config.store (config.places pid) input = some out) :
      ReachesBy exec allowed first (config.after pid out) (log ++ out.effects)

/-- Reachability by any turns whatever. -/
abbrev Reaches (exec : S → K → I → Option (Outcome S K E))
    (first : Config S K) : Config S K → List E → Prop :=
  ReachesBy exec (fun _ _ _ => True) first

section Reachability

variable {exec : S → K → I → Option (Outcome S K E)}
variable {allowed : S → K → I → Prop} {first config : Config S K}
variable {log : List E}

/-- A run under a restriction is a run. -/
theorem ReachesBy.reaches (h : ReachesBy exec allowed first config log) :
    Reaches exec first config log := by
  induction h with
  | start => exact ReachesBy.start
  | turn pid input _ _ hexec ih => exact ReachesBy.turn pid input ih trivial hexec

/-- Runs compose, and so do their logs. -/
theorem ReachesBy.trans {last : Config S K} {more : List E}
    (h : ReachesBy exec allowed first config log)
    (hmore : ReachesBy exec allowed config last more) :
    ReachesBy exec allowed first last (log ++ more) := by
  induction hmore with
  | start => simpa using h
  | turn pid input _ hallowed hexec ih =>
      rw [← List.append_assoc]
      exact ReachesBy.turn pid input ih hallowed hexec

/-- What an executable run computes is reachable by turns that satisfy
`allowed` when every turn passes a check for it. -/
theorem reachesBy_of_runTurns (check : S → K → I → Bool)
    (hcheck : ∀ {s k i}, check s k i = true → allowed s k i)
    {turns : List (Nat × I)} :
    ∀ {first last : Config S K} {log : List E},
      turnsPass exec check first turns = true →
      runTurns exec first turns = some (last, log) →
        ReachesBy exec allowed first last log := by
  induction turns with
  | nil =>
      intro first last log _ hrun
      simp only [runTurns, Option.some.injEq, Prod.mk.injEq] at hrun
      obtain ⟨rfl, rfl⟩ := hrun
      exact ReachesBy.start
  | cons turn turns ih =>
      intro first last log hpass hrun
      obtain ⟨pid, input⟩ := turn
      simp only [runTurns] at hrun
      simp only [turnsPass, Bool.and_eq_true] at hpass
      cases hexec : exec first.store (first.places pid) input with
      | none => simp [hexec] at hrun
      | some out =>
          cases hrest : runTurns exec (first.after pid out) turns with
          | none => simp [hexec, hrest] at hrun
          | some result =>
              obtain ⟨final, rest⟩ := result
              simp only [hexec, hrest, Option.some.injEq,
                Prod.mk.injEq] at hrun
              obtain ⟨rfl, rfl⟩ := hrun
              have hfirst : ReachesBy exec allowed first (first.after pid out)
                  ([] ++ out.effects) :=
                ReachesBy.turn pid input ReachesBy.start (hcheck hpass.1) hexec
              exact ReachesBy.trans hfirst
                (ih (by simpa [hexec] using hpass.2) hrest)

theorem turnsPass_true {turns : List (Nat × I)} {last : Config S K} :
    ∀ {first : Config S K} {log : List E},
      runTurns exec first turns = some (last, log) →
        turnsPass exec (fun _ _ _ => true) first turns = true := by
  induction turns with
  | nil => exact fun _ => rfl
  | cons turn turns ih =>
      intro first log hrun
      obtain ⟨pid, input⟩ := turn
      simp only [runTurns] at hrun
      cases hexec : exec first.store (first.places pid) input with
      | none => simp [hexec] at hrun
      | some out =>
          cases hrest : runTurns exec (first.after pid out) turns with
          | none => simp [hexec, hrest] at hrun
          | some result =>
              simp only [hexec, hrest, Option.some.injEq, Prod.mk.injEq] at hrun
              simp only [turnsPass, hexec, Bool.true_and]
              exact ih (by rw [hrest, ← hrun.1])

/-- What the executable run computes is reachable. -/
theorem reaches_of_runTurns {turns : List (Nat × I)} {last : Config S K}
    (hrun : runTurns exec first turns = some (last, log)) :
    Reaches exec first last log :=
  reachesBy_of_runTurns (fun _ _ _ => true) (fun _ => trivial)
    (turnsPass_true hrun) hrun

/-- The inputs of one program run one after the other. -/
theorem runTurns_map_cons {pid : Nat} {input : I} {inputs : List I}
    {last : Config S K} :
    runTurns exec config ((input :: inputs).map (Prod.mk pid)) = some (last, log) ↔
      ∃ out rest, exec config.store (config.places pid) input = some out ∧
        runTurns exec (config.after pid out) (inputs.map (Prod.mk pid)) = some (last, rest) ∧
        log = out.effects ++ rest := by
  rw [List.map_cons, runTurns]
  cases hexec : exec config.store (config.places pid) input with
  | none => simp
  | some out =>
      cases hrest : runTurns exec (config.after pid out) (inputs.map (Prod.mk pid)) with
      | none => simp [hrest]
      | some result =>
          obtain ⟨final, rest⟩ := result
          simp only [hrest, Option.some.injEq, Prod.mk.injEq]
          constructor
          · rintro ⟨rfl, rfl⟩
            exact ⟨out, rest, rfl, by rw [hrest], rfl⟩
          · rintro ⟨_, _, rfl, hsame, rfl⟩
            rw [hrest, Option.some.injEq, Prod.mk.injEq] at hsame
            exact ⟨hsame.1, hsame.2 ▸ rfl⟩

/-- Only finitely many programs have moved. -/
theorem ReachesBy.exists_unmoved (h : ReachesBy exec allowed first config log) :
    ∃ bound, ∀ pid, bound ≤ pid → config.places pid = first.places pid := by
  induction h with
  | start => exact ⟨0, fun _ _ => rfl⟩
  | @turn config log pid input out _ _ _ ih =>
      obtain ⟨bound, hbound⟩ := ih
      refine ⟨max bound (pid + 1), fun other hother => ?_⟩
      rw [Config.after_places_of_ne config out (by omega), hbound other (by omega)]

/-- A program that takes no turn stays where it is. -/
theorem runTurns_places {turns : List (Nat × I)} {pid : Nat} {last : Config S K} :
    ∀ {first : Config S K} {log : List E}, (∀ turn ∈ turns, turn.1 ≠ pid) →
      runTurns exec first turns = some (last, log) →
        last.places pid = first.places pid := by
  induction turns with
  | nil =>
      intro first log _ hrun
      simp only [runTurns, Option.some.injEq, Prod.mk.injEq] at hrun
      rw [hrun.1]
  | cons turn turns ih =>
      intro first log hother hrun
      obtain ⟨mover, input⟩ := turn
      simp only [runTurns] at hrun
      cases hexec : exec first.store (first.places mover) input with
      | none => simp [hexec] at hrun
      | some out =>
          cases hrest : runTurns exec (first.after mover out) turns with
          | none => simp [hexec, hrest] at hrun
          | some result =>
              simp only [hexec, hrest, Option.some.injEq, Prod.mk.injEq] at hrun
              have hstay := ih (fun turn hturn =>
                hother turn (List.mem_cons_of_mem _ hturn))
                (hrest.trans (congrArg some (Prod.ext hrun.1 rfl)))
              rw [hstay, Config.after_places_of_ne first out
                (hother _ List.mem_cons_self).symm]

/-- The configuration and the log an executable run that is never stuck ends
with. -/
def endOfRun (exec : S → K → I → Option (Outcome S K E)) (first : Config S K)
    (turns : List (Nat × I)) (hrun : (runTurns exec first turns).isSome) :
    Config S K × List E :=
  (runTurns exec first turns).get hrun

theorem reaches_endOfRun {turns : List (Nat × I)}
    (hrun : (runTurns exec first turns).isSome) :
    Reaches exec first (endOfRun exec first turns hrun).1
      (endOfRun exec first turns hrun).2 :=
  reaches_of_runTurns (Option.some_get hrun).symm

theorem endOfRun_places {turns : List (Nat × I)}
    (hrun : (runTurns exec first turns).isSome) {pid : Nat}
    (hother : ∀ turn ∈ turns, turn.1 ≠ pid) :
    (endOfRun exec first turns hrun).1.places pid = first.places pid :=
  runTurns_places hother (Option.some_get hrun).symm

theorem reachesBy_endOfRun (check : S → K → I → Bool)
    (hcheck : ∀ {s k i}, check s k i = true → allowed s k i)
    {turns : List (Nat × I)} (hpass : turnsPass exec check first turns = true)
    (hrun : (runTurns exec first turns).isSome) :
    ReachesBy exec allowed first (endOfRun exec first turns hrun).1
      (endOfRun exec first turns hrun).2 :=
  reachesBy_of_runTurns check hcheck hpass (Option.some_get hrun).symm

/-- An invariant of the store, the log and every place: one induction over
the run, in which the step may use that the configuration it starts from is
itself reachable. -/
theorem ReachesBy.invariant {P : Config S K → List E → Prop}
    (hstart : P first [])
    (hturn : ∀ {config : Config S K} {log : List E} (pid : Nat) (input : I)
      {out : Outcome S K E}, ReachesBy exec allowed first config log →
      P config log → allowed config.store (config.places pid) input →
      exec config.store (config.places pid) input = some out →
      P (config.after pid out) (log ++ out.effects))
    (h : ReachesBy exec allowed first config log) : P config log := by
  induction h with
  | start => exact hstart
  | turn pid input before hallowed hexec ih =>
      exact hturn pid input before ih hallowed hexec

/-- The same induction for an invariant made of a store part and a part for
each place.  A step re-establishes the store part and the part of the program
that moved, and leaves the part of every other program standing. -/
theorem ReachesBy.invariant_of_places {G : S → List E → Prop}
    {L : S → List E → K → Prop}
    (hstore : G first.store []) (hplaces : ∀ pid, L first.store [] (first.places pid))
    (hmoved : ∀ {config : Config S K} {log : List E} (pid : Nat) (input : I)
      {out : Outcome S K E}, ReachesBy exec allowed first config log →
      G config.store log → (∀ other, L config.store log (config.places other)) →
      allowed config.store (config.places pid) input →
      exec config.store (config.places pid) input = some out →
      G out.store (log ++ out.effects) ∧ L out.store (log ++ out.effects) out.place)
    (hothers : ∀ {config : Config S K} {log : List E} (pid : Nat) (input : I)
      {out : Outcome S K E}, ReachesBy exec allowed first config log →
      G config.store log → (∀ other, L config.store log (config.places other)) →
      allowed config.store (config.places pid) input →
      exec config.store (config.places pid) input = some out →
      ∀ other, other ≠ pid → L out.store (log ++ out.effects) (config.places other))
    (h : ReachesBy exec allowed first config log) :
    G config.store log ∧ ∀ pid, L config.store log (config.places pid) := by
  refine ReachesBy.invariant (P := fun config log =>
    G config.store log ∧ ∀ pid, L config.store log (config.places pid))
    ⟨hstore, hplaces⟩ ?_ h
  intro config log pid input out before hinv hallowed hexec
  have hmove := hmoved pid input before hinv.1 hinv.2 hallowed hexec
  refine ⟨hmove.1, fun other => ?_⟩
  by_cases heq : other = pid
  · subst heq
    rw [Config.after_places_self]
    exact hmove.2
  · rw [Config.after_places_of_ne config out heq]
    exact hothers pid input before hinv.1 hinv.2 hallowed hexec other heq

/-- The same induction for a relation between the places of two programs: the
program that moved has to be related to every other one anew. -/
theorem ReachesBy.invariant_of_pairs {D : K → K → Prop}
    (hsymm : ∀ {k k' : K}, D k k' → D k' k)
    (hstart : ∀ pid other, D (first.places pid) (first.places other))
    (hmoved : ∀ {config : Config S K} {log : List E} (pid : Nat) (input : I)
      {out : Outcome S K E}, ReachesBy exec allowed first config log →
      exec config.store (config.places pid) input = some out →
      ∀ other, other ≠ pid → D (config.places pid) (config.places other) →
      D out.place (config.places other))
    (h : ReachesBy exec allowed first config log) :
    ∀ pid other, other ≠ pid → D (config.places pid) (config.places other) := by
  refine ReachesBy.invariant (P := fun config _ => ∀ pid other, other ≠ pid →
    D (config.places pid) (config.places other))
    (fun pid other _ => hstart pid other) ?_ h
  intro config log pid input out before hpairs _ hexec left right hne
  by_cases hleft : left = pid
  · subst hleft
    rw [Config.after_places_self, Config.after_places_of_ne config out hne]
    exact hmoved left input before hexec right hne (hpairs left right hne)
  · rw [Config.after_places_of_ne config out hleft]
    by_cases hright : right = pid
    · subst hright
      rw [Config.after_places_self]
      exact hsymm (hmoved right input before hexec left hne.symm
        (hpairs right left hne.symm))
    · rw [Config.after_places_of_ne config out hright]
      exact hpairs left right hne

/-- The configuration with every place as another program sees it. -/
def Config.seenAs {K' : Type y} (seen : K' → K) (config : Config S K') : Config S K :=
  ⟨config.store, fun pid => seen (config.places pid)⟩

theorem Config.seenAs_after {K' : Type y} (seen : K' → K) (config : Config S K')
    (pid : Nat) (out : Outcome S K' E) :
    (config.after pid out).seenAs seen =
      (config.seenAs seen).after pid ⟨out.store, seen out.place, out.effects⟩ :=
  congrArg (Config.mk out.store)
    (Function.comp_update seen config.places pid out.place)

/-- A program every turn of which is either no turn of another program or one
of its turns, under a restriction of its own, makes only runs of that program. -/
theorem ReachesBy.project {K' : Type y} {I' : Type z}
    {exec' : S → K' → I' → Option (Outcome S K' E)} {allowed' : S → K' → I' → Prop}
    {first' config' : Config S K'} (seen : K' → K)
    (hturn : ∀ {s k i} {out : Outcome S K' E}, allowed' s k i →
      exec' s k i = some out →
        (out.store = s ∧ seen out.place = seen k ∧ out.effects = []) ∨
        ∃ input, allowed s (seen k) input ∧ exec s (seen k) input =
          some ⟨out.store, seen out.place, out.effects⟩)
    (h : ReachesBy exec' allowed' first' config' log) :
    ReachesBy exec allowed (first'.seenAs seen) (config'.seenAs seen) log := by
  induction h with
  | start => exact ReachesBy.start
  | turn pid input before hallowed hexec ih =>
      rename_i config log out
      rw [Config.seenAs_after]
      rcases hturn hallowed hexec with ⟨hstore, hplace, heffects⟩ | ⟨input, hstep⟩
      · have hsame : (config.seenAs seen).after pid
            (⟨out.store, seen out.place, out.effects⟩ : Outcome S K E) =
            config.seenAs seen := by
          rw [hstore, hplace]
          exact congrArg (Config.mk config.store)
            (Function.update_eq_self pid (config.seenAs seen).places)
        rw [hsame, heffects, List.append_nil]
        exact ih
      · exact ReachesBy.turn pid input ih hstep.1 hstep.2

/-- The configurations and effect logs that the turns of one program lead to:
what it serves, it serves one after the other. -/
inductive AloneBy (exec : S → K → I → Option (Outcome S K E))
    (allowed : S → K → I → Prop) (pid : Nat) (first : Config S K) :
    Config S K → List E → Prop
  | start : AloneBy exec allowed pid first first []
  | turn {config : Config S K} {log : List E} (input : I) {out : Outcome S K E}
      (before : AloneBy exec allowed pid first config log)
      (hallowed : allowed config.store (config.places pid) input)
      (hexec : exec config.store (config.places pid) input = some out) :
      AloneBy exec allowed pid first (config.after pid out) (log ++ out.effects)

variable {pid : Nat}

theorem AloneBy.reachesBy (h : AloneBy exec allowed pid first config log) :
    ReachesBy exec allowed first config log := by
  induction h with
  | start => exact ReachesBy.start
  | turn input _ hallowed hexec ih => exact ReachesBy.turn pid input ih hallowed hexec

/-- An invariant of the store and the one place that moves. -/
theorem AloneBy.invariant {P : S → K → Prop} (hstart : P first.store (first.places pid))
    (hturn : ∀ {config : Config S K} {log : List E} (input : I)
      {out : Outcome S K E}, AloneBy exec allowed pid first config log →
      P config.store (config.places pid) →
      allowed config.store (config.places pid) input →
      exec config.store (config.places pid) input = some out →
      P out.store out.place)
    (h : AloneBy exec allowed pid first config log) :
    P config.store (config.places pid) := by
  induction h with
  | start => exact hstart
  | turn input before hallowed hexec ih =>
      rw [Config.after_store, Config.after_places_self]
      exact hturn input before ih hallowed hexec

theorem AloneBy.trans {last : Config S K} {more : List E}
    (h : AloneBy exec allowed pid first config log)
    (hmore : AloneBy exec allowed pid config last more) :
    AloneBy exec allowed pid first last (log ++ more) := by
  induction hmore with
  | start => simpa using h
  | turn input _ hallowed hexec ih =>
      rw [← List.append_assoc]
      exact AloneBy.turn input ih hallowed hexec

theorem aloneBy_of_runTurns (check : S → K → I → Bool)
    (hcheck : ∀ {s k i}, check s k i = true → allowed s k i) {inputs : List I} :
    ∀ {first last : Config S K} {log : List E},
      turnsPass exec check first (inputs.map (Prod.mk pid)) = true →
      runTurns exec first (inputs.map (Prod.mk pid)) = some (last, log) →
        AloneBy exec allowed pid first last log := by
  induction inputs with
  | nil =>
      intro first last log _ hrun
      simp only [List.map_nil, runTurns, Option.some.injEq, Prod.mk.injEq] at hrun
      obtain ⟨rfl, rfl⟩ := hrun
      exact AloneBy.start
  | cons input inputs ih =>
      intro first last log hpass hrun
      simp only [List.map_cons, runTurns] at hrun
      simp only [List.map_cons, turnsPass, Bool.and_eq_true] at hpass
      cases hexec : exec first.store (first.places pid) input with
      | none => simp [hexec] at hrun
      | some out =>
          cases hrest : runTurns exec (first.after pid out)
              (inputs.map (Prod.mk pid)) with
          | none => simp [hexec, hrest] at hrun
          | some result =>
              obtain ⟨final, rest⟩ := result
              simp only [hexec, hrest, Option.some.injEq, Prod.mk.injEq] at hrun
              obtain ⟨rfl, rfl⟩ := hrun
              have hfirst : AloneBy exec allowed pid first (first.after pid out)
                  ([] ++ out.effects) :=
                AloneBy.turn input AloneBy.start (hcheck hpass.1) hexec
              exact AloneBy.trans hfirst (ih (by simpa [hexec] using hpass.2) hrest)

theorem aloneBy_endOfRun (check : S → K → I → Bool)
    (hcheck : ∀ {s k i}, check s k i = true → allowed s k i) {inputs : List I}
    (hpass : turnsPass exec check first (inputs.map (Prod.mk pid)) = true)
    (hrun : (runTurns exec first (inputs.map (Prod.mk pid))).isSome) :
    AloneBy exec allowed pid first
      (endOfRun exec first (inputs.map (Prod.mk pid)) hrun).1
      (endOfRun exec first (inputs.map (Prod.mk pid)) hrun).2 :=
  aloneBy_of_runTurns check hcheck hpass (Option.some_get hrun).symm

end Reachability

end Workshop
