/-
Runs that remember: the log is kept beside the store, and every program keeps
the store and the log as it found them when it left a resting place.  The
memory says which steps a run may take and has no part in what they do.
-/
import Workshop.Library.Interleaving

namespace Workshop

universe u v w x

/-- A store and the log that led to it. -/
structure Recorded (S : Type u) (E : Type w) where
  store : S
  log : List E

/-- A place and what the program found when it began. -/
structure Recalled (S : Type u) (K : Type v) (E : Type w) where
  place : K
  since : Recorded S E

variable {S : Type u} {K : Type v} {E : Type w} {I : Type x}

/-- The same programs with their memory. -/
def recording (resting : K → Bool) (exec : S → K → I → Option (Outcome S K E)) :
    Recorded S E → Recalled S K E → I →
      Option (Outcome (Recorded S E) (Recalled S K E) E) :=
  fun now recalled input =>
    (exec now.store recalled.place input).map fun out => {
      store := ⟨out.store, now.log ++ out.effects⟩
      place := ⟨out.place, if resting recalled.place then now else recalled.since⟩
      effects := out.effects }

/-- A configuration with nothing to remember. -/
def Config.record (first : Config S K) : Config (Recorded S E) (Recalled S K E) :=
  ⟨⟨first.store, []⟩, fun pid => ⟨first.places pid, ⟨first.store, []⟩⟩⟩

/-- The configuration without its memory. -/
def Config.forget (config : Config (Recorded S E) (Recalled S K E)) : Config S K :=
  ⟨config.store.store, fun pid => (config.places pid).place⟩

@[simp] theorem Config.forget_store (config : Config (Recorded S E) (Recalled S K E)) :
    config.forget.store = config.store.store := rfl

@[simp] theorem Config.forget_places (config : Config (Recorded S E) (Recalled S K E))
    (pid : Nat) : config.forget.places pid = (config.places pid).place := rfl

@[simp] theorem Config.forget_record (first : Config S K) :
    (first.record : Config (Recorded S E) (Recalled S K E)).forget = first := rfl

section Recordings

variable {exec : S → K → I → Option (Outcome S K E)} {resting : K → Bool}
variable {now : Recorded S E} {recalled : Recalled S K E} {input : I}
variable {allowed : Recorded S E → Recalled S K E → I → Prop}
variable {first config : Config S K} {log : List E}

/-- What a remembering step does, in terms of the step it remembers. -/
theorem recording_eq_some {out : Outcome (Recorded S E) (Recalled S K E) E} :
    recording resting exec now recalled input = some out ↔
      ∃ plain, exec now.store recalled.place input = some plain ∧
        out = {
          store := ⟨plain.store, now.log ++ plain.effects⟩
          place := ⟨plain.place, if resting recalled.place then now else recalled.since⟩
          effects := plain.effects } := by
  unfold recording
  rw [Option.map_eq_some_iff]
  exact exists_congr fun plain => and_congr_right fun _ => eq_comm

theorem Config.forget_after (config : Config (Recorded S E) (Recalled S K E))
    (pid : Nat) (plain : Outcome S K E) (log : List E) (since : Recorded S E) :
    (config.after pid {
      store := ⟨plain.store, log⟩, place := ⟨plain.place, since⟩
      effects := plain.effects }).forget = config.forget.after pid plain := by
  unfold Config.forget Config.after
  congr 1
  funext other
  by_cases heq : other = pid
  · subst heq
    simp
  · simp [heq]

/-- A run that remembers is a run, under any restriction that its steps meet,
and it remembers its log. -/
theorem ReachesBy.forget {plainly : S → K → I → Prop}
    (hplainly : ∀ {now recalled input}, allowed now recalled input →
      plainly now.store recalled.place input)
    {config : Config (Recorded S E) (Recalled S K E)}
    (h : ReachesBy (recording resting exec) allowed first.record config log) :
    ReachesBy exec plainly first config.forget log ∧ config.store.log = log := by
  induction h with
  | start => exact ⟨ReachesBy.start, rfl⟩
  | turn pid input before hallowed hexec ih =>
      obtain ⟨plain, hplain, rfl⟩ := recording_eq_some.mp hexec
      refine ⟨?_, ?_⟩
      · rw [Config.forget_after]
        exact ReachesBy.turn pid input ih.1 (hplainly hallowed) hplain
      · rw [Config.after_store, ih.2]

/-- Every run can be remembered. -/
theorem Reaches.recorded (resting : K → Bool) (h : Reaches exec first config log) :
    ∃ recorded : Config (Recorded S E) (Recalled S K E), recorded.forget = config ∧
      Reaches (recording resting exec) first.record recorded log := by
  induction h with
  | start => exact ⟨first.record, rfl, ReachesBy.start⟩
  | turn pid input before _ hexec ih =>
      obtain ⟨recorded, rfl, hreaches⟩ := ih
      refine ⟨_, ?_, ReachesBy.turn pid input hreaches trivial
        (recording_eq_some.mpr ⟨_, hexec, rfl⟩)⟩
      rw [Config.forget_after]

end Recordings

end Workshop
