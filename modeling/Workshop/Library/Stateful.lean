/-
Computations that change a state in place and may throw.  `Runs` says that one
ends well and `Throws` that it does not, and the rules below take a run of a
`do` block apart.
-/
import Mathlib.Init

namespace Workshop

universe u v

variable {ε σ α β : Type}

/-- The computation ends without a throw: from `start` it answers `result` and
leaves `last`. -/
def Runs (computation : EStateM ε σ α) (start : σ) (result : α) (last : σ) :
    Prop :=
  computation start = .ok result last

variable {start last : σ} {result : α}

@[simp] theorem runs_pure {value : α} :
    Runs (pure value : EStateM ε σ α) start result last ↔
      result = value ∧ last = start := by
  simp only [Runs, pure, EStateM.pure, EStateM.Result.ok.injEq]
  exact and_congr eq_comm eq_comm

@[simp] theorem runs_throw {error : ε} :
    Runs (throw error : EStateM ε σ α) start result last ↔ False := by
  change EStateM.Result.error error start = .ok result last ↔ False
  simp

@[simp] theorem runs_get {answer : σ} :
    Runs (get : EStateM ε σ σ) start answer last ↔
      answer = start ∧ last = start := by
  change EStateM.Result.ok start start = .ok answer last ↔ _
  rw [EStateM.Result.ok.injEq]
  exact and_congr eq_comm eq_comm

@[simp] theorem runs_set {next : σ} {answer : PUnit} :
    Runs (set next : EStateM ε σ PUnit) start answer last ↔ last = next := by
  change EStateM.Result.ok PUnit.unit next = .ok answer last ↔ _
  simp only [EStateM.Result.ok.injEq, true_and]
  exact eq_comm

@[simp] theorem runs_modify {change : σ → σ} {answer : PUnit} :
    Runs (modify change : EStateM ε σ PUnit) start answer last ↔
      last = change start := by
  change EStateM.Result.ok PUnit.unit (change start) = .ok answer last ↔ _
  simp only [EStateM.Result.ok.injEq, true_and]
  exact eq_comm

/-- A run of two computations is a run of the first and then of the second. -/
@[simp] theorem runs_bind {first : EStateM ε σ α} {rest : α → EStateM ε σ β}
    {answer : β} :
    Runs (first >>= rest) start answer last ↔
      ∃ middle state, Runs first start middle state ∧
        Runs (rest middle) state answer last := by
  simp only [Runs, bind, EStateM.bind]
  cases first start with
  | ok value state =>
      simp only [EStateM.Result.ok.injEq]
      constructor
      · intro hrest
        exact ⟨value, state, ⟨rfl, rfl⟩, hrest⟩
      · rintro ⟨middle, between, ⟨rfl, rfl⟩, hrest⟩
        exact hrest
  | error error state => simp

@[simp] theorem runs_map {computation : EStateM ε σ α} {f : α → β} {answer : β} :
    Runs (f <$> computation) start answer last ↔
      ∃ value, Runs computation start value last ∧ answer = f value := by
  rw [map_eq_pure_bind, runs_bind]
  constructor
  · rintro ⟨value, state, hrun, hpure⟩
    obtain ⟨rfl, rfl⟩ := runs_pure.mp hpure
    exact ⟨value, hrun, rfl⟩
  · rintro ⟨value, hrun, rfl⟩
    exact ⟨value, last, hrun, runs_pure.mpr ⟨rfl, rfl⟩⟩

@[simp] theorem runs_ite {condition : Prop} [Decidable condition]
    {yes no : EStateM ε σ α} :
    Runs (if condition then yes else no) start result last ↔
      if condition then Runs yes start result last
      else Runs no start result last := by
  split <;> rfl

/-- The computation ends with a throw: from `start` it answers `error` and
leaves what it had changed until then. -/
def Throws (computation : EStateM ε σ α) (start : σ) (error : ε) (last : σ) :
    Prop :=
  computation start = .error error last

variable {error : ε}

@[simp] theorem throws_pure {value : α} :
    Throws (pure value : EStateM ε σ α) start error last ↔ False := by
  simp [Throws, pure, EStateM.pure]

@[simp] theorem throws_throw {thrown : ε} :
    Throws (throw thrown : EStateM ε σ α) start error last ↔
      error = thrown ∧ last = start := by
  change EStateM.Result.error thrown start = .error error last ↔ _
  rw [EStateM.Result.error.injEq]
  exact and_congr eq_comm eq_comm

@[simp] theorem throws_get :
    Throws (get : EStateM ε σ σ) start error last ↔ False := by
  change EStateM.Result.ok start start = .error error last ↔ False
  simp

@[simp] theorem throws_set {next : σ} :
    Throws (set next : EStateM ε σ PUnit) start error last ↔ False := by
  change EStateM.Result.ok PUnit.unit next = .error error last ↔ False
  simp

@[simp] theorem throws_modify {change : σ → σ} :
    Throws (modify change : EStateM ε σ PUnit) start error last ↔ False := by
  change EStateM.Result.ok PUnit.unit (change start) = .error error last ↔ False
  simp

/-- Two computations throw when the first does, or when it ends well and the
second throws. -/
@[simp] theorem throws_bind {first : EStateM ε σ α} {rest : α → EStateM ε σ β} :
    Throws (first >>= rest) start error last ↔
      Throws first start error last ∨
        ∃ middle state, Runs first start middle state ∧
          Throws (rest middle) state error last := by
  simp only [Throws, Runs, bind, EStateM.bind]
  cases first start with
  | ok value state =>
      simp only [reduceCtorEq, false_or, EStateM.Result.ok.injEq]
      constructor
      · intro hrest
        exact ⟨value, state, ⟨rfl, rfl⟩, hrest⟩
      · rintro ⟨middle, between, ⟨rfl, rfl⟩, hrest⟩
        exact hrest
  | error thrown state => simp

@[simp] theorem throws_map {computation : EStateM ε σ α} {f : α → β} :
    Throws (f <$> computation) start error last ↔
      Throws computation start error last := by
  rw [map_eq_pure_bind, throws_bind]
  simp

@[simp] theorem throws_ite {condition : Prop} [Decidable condition]
    {yes no : EStateM ε σ α} :
    Throws (if condition then yes else no) start error last ↔
      if condition then Throws yes start error last
      else Throws no start error last := by
  split <;> rfl

section Keeping

variable {τ : Type} {part : σ → τ}

/-- A computation that leaves a part of the state alone when it ends well. -/
def Keeps (part : σ → τ) (computation : EStateM ε σ α) : Prop :=
  ∀ start result last, Runs computation start result last → part last = part start

theorem keeps_pure (value : α) : Keeps part (pure value : EStateM ε σ α) := by
  intro start result last h
  rw [(runs_pure.mp h).2]

theorem keeps_throw (error : ε) : Keeps part (throw error : EStateM ε σ α) :=
  fun _ _ _ h => (runs_throw.mp h).elim

theorem keeps_get : Keeps part (get : EStateM ε σ σ) := by
  intro start result last h
  rw [(runs_get.mp h).2]

theorem keeps_modify {change : σ → σ} (h : ∀ state, part (change state) = part state) :
    Keeps part (modify change : EStateM ε σ PUnit) := by
  intro start result last hruns
  rw [runs_modify.mp hruns, h]

theorem Keeps.bind {first : EStateM ε σ α} {rest : α → EStateM ε σ β}
    (hfirst : Keeps part first) (hrest : ∀ value, Keeps part (rest value)) :
    Keeps part (first >>= rest) := by
  intro start result last h
  obtain ⟨value, middle, hmiddle, hlast⟩ := runs_bind.mp h
  exact (hrest value _ _ _ hlast).trans (hfirst _ _ _ hmiddle)

theorem Keeps.map {computation : EStateM ε σ α} (f : α → β)
    (h : Keeps part computation) : Keeps part (f <$> computation) := by
  intro start result last hruns
  obtain ⟨value, hvalue, -⟩ := runs_map.mp hruns
  exact h _ _ _ hvalue

theorem Keeps.ite {condition : Prop} [Decidable condition]
    {yes no : EStateM ε σ α} (hyes : Keeps part yes) (hno : Keeps part no) :
    Keeps part (if condition then yes else no) := by
  split
  · exact hyes
  · exact hno

end Keeping

/-- The state a computation leaves, whether it ends well or throws. -/
def leftBy (computation : EStateM ε σ α) (start : σ) : σ :=
  match computation start with
  | .ok _ last => last
  | .error _ last => last

theorem leftBy_cases (computation : EStateM ε σ α) (start : σ) :
    (∃ result, Runs computation start result (leftBy computation start)) ∨
      ∃ error, Throws computation start error (leftBy computation start) := by
  simp only [Runs, Throws, leftBy]
  cases computation start with
  | ok value last => exact Or.inl ⟨value, rfl⟩
  | error thrown last => exact Or.inr ⟨thrown, rfl⟩

theorem Runs.leftBy_eq {computation : EStateM ε σ α}
    (h : Runs computation start result last) : leftBy computation start = last := by
  rw [Runs] at h
  rw [leftBy, h]

theorem Throws.leftBy_eq {computation : EStateM ε σ α}
    (h : Throws computation start error last) : leftBy computation start = last := by
  rw [Throws] at h
  rw [leftBy, h]

end Workshop
