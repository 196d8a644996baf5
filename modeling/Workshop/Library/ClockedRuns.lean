/-
Runs beside a clock that never goes back.  The clock is no part of the store:
it only says which readings a turn may take, so a run with a clock is a run,
and an invariant may compare what is stored with the time it is.
-/
import Mathlib.Order.Defs.PartialOrder
import Workshop.Library.Interleaving

namespace Workshop

universe u v w x y

variable {S : Type u} {K : Type v} {E : Type w} {I : Type x} {T : Type y} [Preorder T]

/-- The configurations, effect logs and times that turns satisfying `allowed` lead to from a
configuration at a time, when every reading a turn takes is one of a clock that never goes
back. -/
inductive ClockedReaches (exec : S → K → I → Option (Outcome S K E))
    (allowed : S → K → I → Prop) (reading : I → Option T) (first : Config S K) (since : T) :
    Config S K → List E → T → Prop
  | start : ClockedReaches exec allowed reading first since first [] since
  | wait {config : Config S K} {log : List E} {now later : T}
      (before : ClockedReaches exec allowed reading first since config log now)
      (hle : now ≤ later) :
      ClockedReaches exec allowed reading first since config log later
  | turn {config : Config S K} {log : List E} {now : T} (pid : Nat) (input : I)
      {out : Outcome S K E}
      (before : ClockedReaches exec allowed reading first since config log now)
      (hallowed : allowed config.store (config.places pid) input)
      (hreading : ∀ read, reading input = some read → read = now)
      (hexec : exec config.store (config.places pid) input = some out) :
      ClockedReaches exec allowed reading first since (config.after pid out)
        (log ++ out.effects) now

section Clocked

variable {exec : S → K → I → Option (Outcome S K E)} {allowed : S → K → I → Prop}
variable {reading : I → Option T} {first config : Config S K} {log : List E} {since now : T}

/-- A run with a clock is a run. -/
theorem ClockedReaches.reachesBy
    (h : ClockedReaches exec allowed reading first since config log now) :
    ReachesBy exec allowed first config log := by
  induction h with
  | start => exact ReachesBy.start
  | wait _ _ ih => exact ih
  | turn pid input _ hallowed _ hexec ih => exact ReachesBy.turn pid input ih hallowed hexec

/-- An invariant of the store, the log, the time and every place: it holds on as
time passes, and a turn re-establishes it for the store and for every program. -/
theorem ClockedReaches.invariant_of_places {G : T → S → List E → Prop}
    {L : T → K → Prop} (hstore : G since first.store [])
    (hplaces : ∀ pid, L since (first.places pid))
    (hwait : ∀ {now later : T}, now ≤ later →
      (∀ {store log}, G now store log → G later store log) ∧
        ∀ {place}, L now place → L later place)
    (hmoved : ∀ {config : Config S K} {log : List E} {now : T} (pid : Nat) (input : I)
      {out : Outcome S K E},
      ClockedReaches exec allowed reading first since config log now →
      G now config.store log → L now (config.places pid) →
      (∀ read, reading input = some read → read = now) →
      exec config.store (config.places pid) input = some out →
      G now out.store (log ++ out.effects) ∧ L now out.place)
    (h : ClockedReaches exec allowed reading first since config log now) :
    G now config.store log ∧ ∀ pid, L now (config.places pid) := by
  induction h with
  | start => exact ⟨hstore, hplaces⟩
  | wait _ hle ih => exact ⟨(hwait hle).1 ih.1, fun pid => (hwait hle).2 (ih.2 pid)⟩
  | @turn config log now pid input out before hallowed hreading hexec ih =>
      have hmove := hmoved pid input before ih.1 (ih.2 pid) hreading hexec
      refine ⟨hmove.1, fun other => ?_⟩
      by_cases heq : other = pid
      · subst heq
        rw [Config.after_places_self]
        exact hmove.2
      · rw [Config.after_places_of_ne config out heq]
        exact ih.2 other

/-- The readings of a run, each no earlier than the one before it. -/
def readingsOf (reading : I → Option T) (turns : List (Nat × I)) : List T :=
  turns.filterMap fun turn => reading turn.2

/-- What an executable run computes is reached with a clock when its readings
never go back. -/
theorem clockedReaches_of_runTurns {turns : List (Nat × I)} {last : Config S K}
    {more : List E} {before : Config S K} {log : List E} {now : T}
    (check : S → K → I → Bool) (hcheck : ∀ {s k i}, check s k i = true → allowed s k i)
    (h : ClockedReaches exec allowed reading first since before log now)
    (hordered : (now :: readingsOf reading turns).Pairwise (· ≤ ·))
    (hpass : turnsPass exec check before turns = true)
    (hrun : runTurns exec before turns = some (last, more)) :
    ClockedReaches exec allowed reading first since last (log ++ more)
      ((readingsOf reading turns).getLastD now) := by
  induction turns generalizing before log now more with
  | nil =>
      simp only [runTurns, Option.some.injEq, Prod.mk.injEq] at hrun
      obtain ⟨rfl, rfl⟩ := hrun
      simpa [readingsOf] using h
  | cons turn turns ih =>
      obtain ⟨pid, input⟩ := turn
      simp only [runTurns] at hrun
      simp only [turnsPass, Bool.and_eq_true] at hpass
      cases hexec : exec before.store (before.places pid) input with
      | none => simp [hexec] at hrun
      | some out =>
          cases hrest : runTurns exec (before.after pid out) turns with
          | none => simp [hexec, hrest] at hrun
          | some result =>
              obtain ⟨final, rest⟩ := result
              simp only [hexec, hrest, Option.some.injEq, Prod.mk.injEq] at hrun
              obtain ⟨rfl, rfl⟩ := hrun
              have hpasses : turnsPass exec check (before.after pid out) turns = true := by
                simpa [hexec] using hpass.2
              rw [← List.append_assoc]
              cases hread : reading input with
              | none =>
                  have hsame : readingsOf reading ((pid, input) :: turns) =
                      readingsOf reading turns := by
                    simp [readingsOf, hread]
                  rw [hsame] at hordered ⊢
                  refine ih (.turn pid input h (hcheck hpass.1) (fun read hsome => ?_) hexec)
                    hordered hpasses hrest
                  rw [hread] at hsome
                  cases hsome
              | some read =>
                  have hcons : readingsOf reading ((pid, input) :: turns) =
                      read :: readingsOf reading turns := by
                    simp [readingsOf, hread]
                  rw [hcons, List.pairwise_cons] at hordered
                  rw [hcons, List.getLastD_cons]
                  have hle : now ≤ read := hordered.1 read List.mem_cons_self
                  refine ih (.turn pid input (.wait h hle) (hcheck hpass.1)
                    (fun other hsome => ?_) hexec) hordered.2 hpasses hrest
                  rw [hread] at hsome
                  exact (Option.some.inj hsome).symm

theorem clockedReaches_endOfRun {turns : List (Nat × I)} (check : S → K → I → Bool)
    (hcheck : ∀ {s k i}, check s k i = true → allowed s k i)
    (hordered : (since :: readingsOf reading turns).Pairwise (· ≤ ·))
    (hpass : turnsPass exec check first turns = true)
    (hrun : (runTurns exec first turns).isSome) :
    ClockedReaches exec allowed reading first since (endOfRun exec first turns hrun).1
      (endOfRun exec first turns hrun).2 ((readingsOf reading turns).getLastD since) :=
  clockedReaches_of_runTurns check hcheck .start hordered hpass (Option.some_get hrun).symm

end Clocked

end Workshop
