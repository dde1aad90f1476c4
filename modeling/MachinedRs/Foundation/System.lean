import Mathlib.Logic.Relation

/-!
# Labelled systems with an executable step

A system has initial states and a partial step function.  The label carries
every choice the system itself does not determine: who moves next and what the
outside world answers.  Quantifying over label lists is then quantifying over
all interleavings and all behaviours of the environment.
-/

namespace Foundation

universe u v

structure System (σ : Type u) (ℓ : Type v) where
  Initial : σ → Prop
  step : σ → ℓ → Option σ

namespace System

variable {σ : Type u} {ℓ : Type v} (system : System σ ℓ)

def run : σ → List ℓ → Option σ
  | state, [] => some state
  | state, label :: labels =>
      (system.step state label).bind fun next => run next labels

/-- Some run from an initial state ends in this state. -/
def Reachable (state : σ) : Prop :=
  ∃ start labels, system.Initial start ∧ system.run start labels = some state

/-- Every step of the run meets `condition` in the state it is taken from. -/
def MeetsAll (condition : σ → ℓ → Prop) : σ → List ℓ → Prop
  | _, [] => True
  | state, label :: labels =>
      condition state label ∧
        ∀ next, system.step state label = some next →
          MeetsAll condition next labels

instance decidableMeetsAll (condition : σ → ℓ → Prop)
    [∀ state label, Decidable (condition state label)] :
    ∀ state labels, Decidable (system.MeetsAll condition state labels)
  | _, [] => isTrue trivial
  | state, label :: labels =>
      match stepped : system.step state label with
      | none =>
          decidable_of_iff (condition state label) (by
            simp [MeetsAll, stepped])
      | some next =>
          have := decidableMeetsAll condition next labels
          decidable_of_iff
            (condition state label ∧
              system.MeetsAll condition next labels) (by
            simp [MeetsAll, stepped])

variable {system}

@[simp] theorem run_nil (state : σ) : system.run state [] = some state :=
  rfl

theorem run_cons_eq_some {state final : σ} {label : ℓ} {labels : List ℓ} :
    system.run state (label :: labels) = some final ↔
      ∃ next, system.step state label = some next ∧
        system.run next labels = some final := by
  simp [run, Option.bind_eq_some_iff]

theorem run_append (state : σ) (first second : List ℓ) :
    system.run state (first ++ second) =
      (system.run state first).bind fun middle => system.run middle second := by
  induction first generalizing state with
  | nil => rfl
  | cons label labels induction =>
      simp only [List.cons_append, run]
      cases system.step state label with
      | none => rfl
      | some next => exact induction next

theorem meetsAll_append {condition : σ → ℓ → Prop} {state : σ}
    {first second : List ℓ} (before : system.MeetsAll condition state first)
    (after : ∀ middle, system.run state first = some middle →
      system.MeetsAll condition middle second) :
    system.MeetsAll condition state (first ++ second) := by
  induction first generalizing state with
  | nil => exact after state rfl
  | cons label labels induction =>
      refine ⟨before.1, fun next stepped => induction (before.2 next stepped) ?_⟩
      intro middle reached
      exact after middle (run_cons_eq_some.mpr ⟨next, stepped, reached⟩)

theorem meetsAll_of_forall {condition : σ → ℓ → Prop}
    (always : ∀ state label, condition state label) (state : σ)
    (labels : List ℓ) : system.MeetsAll condition state labels := by
  induction labels generalizing state with
  | nil => trivial
  | cons label labels induction =>
      exact ⟨always state label, fun next _ => induction next⟩

/-- A property kept by every step whose condition holds is kept by every run
whose steps all meet the condition. -/
theorem run_invariant_of_meetsAll
    {condition : σ → ℓ → Prop} {invariant : σ → Prop}
    (preserved : ∀ state label next, condition state label →
      system.step state label = some next → invariant state → invariant next)
    {start final : σ} {labels : List ℓ}
    (meets : system.MeetsAll condition start labels)
    (result : system.run start labels = some final)
    (initially : invariant start) : invariant final := by
  induction labels generalizing start with
  | nil =>
      cases result
      exact initially
  | cons label labels induction =>
      obtain ⟨next, stepped, rest⟩ := run_cons_eq_some.mp result
      exact induction (meets.2 next stepped) rest
        (preserved start label next meets.1 stepped initially)

theorem run_invariant {invariant : σ → Prop}
    (preserved : ∀ state label next,
      system.step state label = some next → invariant state → invariant next)
    {start final : σ} {labels : List ℓ}
    (result : system.run start labels = some final)
    (initially : invariant start) : invariant final :=
  run_invariant_of_meetsAll
    (fun state label next _ => preserved state label next)
    (meetsAll_of_forall (fun _ _ => trivial) start labels) result initially

theorem Reachable.run {state final : σ} {labels : List ℓ}
    (reachable : system.Reachable state)
    (result : system.run state labels = some final) :
    system.Reachable final := by
  obtain ⟨start, earlier, initial, reached⟩ := reachable
  refine ⟨start, earlier ++ labels, initial, ?_⟩
  rw [run_append, reached]
  exact result

/-- What holds initially and is kept by every step holds in every reachable
state. -/
theorem Reachable.invariant {invariant : σ → Prop} {state : σ}
    (reachable : system.Reachable state)
    (initially : ∀ start, system.Initial start → invariant start)
    (preserved : ∀ state label next,
      system.step state label = some next → invariant state → invariant next) :
    invariant state := by
  obtain ⟨start, labels, initial, result⟩ := reachable
  exact run_invariant preserved result (initially start initial)

end System

end Foundation
