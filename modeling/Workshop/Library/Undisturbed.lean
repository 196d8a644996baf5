/-
Runs in which the programs leave each other what they rely on.  A program reads,
goes on by what it read and writes; a turn of another program in between may
change the store, but nothing the program relies on at its place.
-/
import Workshop.Library.Interleaving

namespace Workshop

universe u v w x

variable {S : Type u} {K : Type v} {E : Type w} {I : Type x}

/-- The configurations and effect logs that turns lead to which keep, for every
other program, what it relies on at its place. -/
inductive ReachesKeeping (exec : S → K → I → Option (Outcome S K E))
    (keeps : S → S → K → Prop) (first : Config S K) :
    Config S K → List E → Prop
  | start : ReachesKeeping exec keeps first first []
  | turn {config : Config S K} {log : List E} (pid : Nat) (input : I)
      {out : Outcome S K E} (before : ReachesKeeping exec keeps first config log)
      (hkeeps : ∀ other, other ≠ pid →
        keeps config.store out.store (config.places other))
      (hexec : exec config.store (config.places pid) input = some out) :
      ReachesKeeping exec keeps first (config.after pid out) (log ++ out.effects)

/-- Every turn of an executable run keeps what the other programs of a list
rely on. -/
def turnsKeep (exec : S → K → I → Option (Outcome S K E)) (keeps : S → S → K → Prop)
    [∀ before after place, Decidable (keeps before after place)] (pids : List Nat) :
    Config S K → List (Nat × I) → Bool
  | _, [] => true
  | config, (pid, input) :: turns =>
      match exec config.store (config.places pid) input with
      | none => false
      | some out =>
          decide (∀ other ∈ pids, other ≠ pid →
            keeps config.store out.store (config.places other)) &&
            turnsKeep exec keeps pids (config.after pid out) turns

variable {exec : S → K → I → Option (Outcome S K E)} {keeps : S → S → K → Prop}
variable {first config : Config S K} {log : List E}

/-- A run under this restriction is a run. -/
theorem ReachesKeeping.reaches (h : ReachesKeeping exec keeps first config log) :
    Reaches exec first config log := by
  induction h with
  | start => exact ReachesBy.start
  | turn pid input _ _ hexec ih => exact ReachesBy.turn pid input ih trivial hexec

theorem ReachesKeeping.trans {last : Config S K} {more : List E}
    (h : ReachesKeeping exec keeps first config log)
    (hmore : ReachesKeeping exec keeps config last more) :
    ReachesKeeping exec keeps first last (log ++ more) := by
  induction hmore with
  | start => simpa using h
  | turn pid input _ hkeeps hexec ih =>
      rw [← List.append_assoc]
      exact ReachesKeeping.turn pid input ih hkeeps hexec

/-- The own turns of a program establish what it relies on, and the turns of the
others keep it, so it holds wherever the program stands; an invariant of the
store and the log may rest on it. -/
theorem ReachesKeeping.invariant {G : S → List E → Prop} {R : S → K → Prop}
    (hkept : ∀ {before after : S} {place : K}, keeps before after place →
      R before place → R after place)
    (hstore : G first.store []) (hplaces : ∀ pid, R first.store (first.places pid))
    (hturn : ∀ {config : Config S K} {log : List E} (pid : Nat) (input : I)
      {out : Outcome S K E}, Reaches exec first config log → G config.store log →
      R config.store (config.places pid) →
      exec config.store (config.places pid) input = some out →
      G out.store (log ++ out.effects) ∧ R out.store out.place)
    (h : ReachesKeeping exec keeps first config log) :
    G config.store log ∧ ∀ pid, R config.store (config.places pid) := by
  induction h with
  | start => exact ⟨hstore, hplaces⟩
  | turn pid input before hkeeps hexec ih =>
      rename_i config log out
      have hmoved := hturn pid input before.reaches ih.1 (ih.2 pid) hexec
      refine ⟨hmoved.1, fun other => ?_⟩
      by_cases heq : other = pid
      · subst heq
        rw [Config.after_places_self]
        exact hmoved.2
      · rw [Config.after_places_of_ne config out heq]
        exact hkept (hkeeps other heq) (ih.2 other)

variable [∀ before after place, Decidable (keeps before after place)]

/-- An executable run of some programs is one of these runs when its turns keep
what the listed programs rely on, and no other program has begun. -/
theorem reachesKeeping_of_runTurns {pids : List Nat} {turns : List (Nat × I)} :
    ∀ {first last : Config S K} {log : List E},
      (∀ other, other ∉ pids → ∀ before after,
        keeps before after (first.places other)) →
      (∀ turn ∈ turns, turn.1 ∈ pids) →
      turnsKeep exec keeps pids first turns = true →
      runTurns exec first turns = some (last, log) →
        ReachesKeeping exec keeps first last log := by
  induction turns with
  | nil =>
      intro first last log _ _ _ hrun
      simp only [runTurns, Option.some.injEq, Prod.mk.injEq] at hrun
      obtain ⟨rfl, rfl⟩ := hrun
      exact ReachesKeeping.start
  | cons turn turns ih =>
      intro first last log hidle hlisted hkeep hrun
      obtain ⟨pid, input⟩ := turn
      simp only [runTurns] at hrun
      simp only [turnsKeep] at hkeep
      cases hexec : exec first.store (first.places pid) input with
      | none => simp [hexec] at hrun
      | some out =>
          cases hrest : runTurns exec (first.after pid out) turns with
          | none => simp [hexec, hrest] at hrun
          | some result =>
              obtain ⟨final, rest⟩ := result
              simp only [hexec, hrest, Option.some.injEq, Prod.mk.injEq] at hrun
              obtain ⟨rfl, rfl⟩ := hrun
              simp only [hexec, Bool.and_eq_true, decide_eq_true_eq] at hkeep
              obtain ⟨hkeeps, hlater⟩ := hkeep
              have hpid : pid ∈ pids := hlisted (pid, input) List.mem_cons_self
              have hfirst : ReachesKeeping exec keeps first (first.after pid out)
                  ([] ++ out.effects) := by
                refine ReachesKeeping.turn pid input ReachesKeeping.start
                  (fun other hne => ?_) hexec
                by_cases hother : other ∈ pids
                · exact hkeeps other hother hne
                · exact hidle other hother _ _
              refine ReachesKeeping.trans hfirst (ih (fun other hother => ?_)
                (fun turn hturn => hlisted turn (List.mem_cons_of_mem _ hturn))
                hlater hrest)
              have hne : other ≠ pid := fun heq => hother (heq ▸ hpid)
              rw [Config.after_places_of_ne first out hne]
              exact hidle other hother

theorem reachesKeeping_endOfRun {pids : List Nat} {turns : List (Nat × I)}
    (hidle : ∀ other, other ∉ pids → ∀ before after,
      keeps before after (first.places other))
    (hlisted : ∀ turn ∈ turns, turn.1 ∈ pids)
    (hkeep : turnsKeep exec keeps pids first turns = true)
    (hrun : (runTurns exec first turns).isSome) :
    ReachesKeeping exec keeps first (endOfRun exec first turns hrun).1
      (endOfRun exec first turns hrun).2 :=
  reachesKeeping_of_runTurns hidle hlisted hkeep (Option.some_get hrun).symm

end Workshop
