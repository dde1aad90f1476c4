import MachinedRs.Foundation.Broadcast
import MachinedRs.Foundation.System
import MachinedRs.RuntimeCore.EventLog

/-!
# The controller loop

`controller_loop` subscribes to the store's events, reconciles once, and then
waits: a matching event, a lag notice or a timer tick leads to another
reconcile.  The loop is a state machine over its program points; what a
reconcile does is a parameter.

The loop is level-triggered and coalesces events blindly, so the question is
whether a change can be overlooked.  Each operation commits first and sends
its event later, and any number of writers interleave.
-/

namespace MachinedRs

open Foundation

inductive InputKind where
  | strong
  | weak
deriving DecidableEq, Repr

/-- A resource type, in a namespace, that a controller watches. -/
structure Input where
  ns : String
  typ : ResourceType
  kind : InputKind
deriving DecidableEq, Repr

/-- Capacity of the store's broadcast channel. -/
def channelCapacity : Nat :=
  1024

/-- The key's namespace and type are among the inputs. -/
def Watches (inputs : List Input) (key : Key) : Prop :=
  ∃ input ∈ inputs, input.typ = key.typ ∧ input.ns = key.ns

instance (inputs : List Input) (key : Key) : Decidable (Watches inputs key) :=
  inferInstanceAs
    (Decidable (∃ input ∈ inputs, input.typ = key.typ ∧ input.ns = key.ns))

def matchesInputs (inputs : List Input) (event : Event) : Bool :=
  inputs.any fun input =>
    input.typ = event.object.metadata.typ ∧
      input.ns = event.object.metadata.ns

theorem matchesInputs_iff (inputs : List Input) (event : Event) :
    matchesInputs inputs event = true ↔ Watches inputs event.object.key := by
  simp [matchesInputs, Watches, ResourceObject.key, Metadata.key]

/-- Program points of the loop, `ρ` being the state of a running reconcile. -/
inductive LoopPhase (ρ : Type) where
  | starting
  | subscribed
  | reconciling (activity : ρ)
  | selecting
  | debouncing
  | draining
  | drained
  | stopped
deriving DecidableEq, Repr

structure Loop (ρ : Type) where
  phase : LoopPhase ρ
  position : Nat
deriving DecidableEq, Repr

inductive LoopMove where
  | watch
  | reconcileBegins
  | reconcileEnds
  | tick
  | recv
  | debounced
  | tryRecv
  | cancelled
deriving DecidableEq, Repr

/-- What distinguishes one controller's loop from another's. -/
structure LoopConfig (ρ : Type) where
  inputs : List Input
  resync : Bool
  capacity : Nat
  /-- A reconcile as it starts. -/
  reconcile : ρ
  /-- The reconcile has returned, with `Ok` or with an error that is logged. -/
  finished : ρ → Bool

/-- One step of the loop.  The store keeps a sender alive, so the channel is
never closed. -/
def Loop.step {ρ : Type} (config : LoopConfig ρ) (sent : List Event)
    (loop : Loop ρ) (move : LoopMove) : Option (Loop ρ) :=
  match move, loop.phase with
  | .watch, .starting => some { phase := .subscribed, position := sent.length }
  | .reconcileBegins, .subscribed =>
      some { loop with phase := .reconciling config.reconcile }
  | .reconcileBegins, .drained =>
      some { loop with phase := .reconciling config.reconcile }
  | .reconcileEnds, .reconciling activity =>
      if config.finished activity then
        some { loop with phase := .selecting }
      else
        none
  | .tick, .selecting =>
      if config.resync then
        some { loop with phase := .reconciling config.reconcile }
      else
        none
  | .recv, .selecting =>
      match receive config.capacity sent loop.position with
      | .empty => none
      | .message event next =>
          if matchesInputs config.inputs event then
            some { phase := .debouncing, position := next }
          else
            some { phase := .selecting, position := next }
      | .lagged _ next => some { phase := .debouncing, position := next }
  | .debounced, .debouncing => some { loop with phase := .draining }
  | .tryRecv, .draining =>
      match receive config.capacity sent loop.position with
      | .empty => some { loop with phase := .drained }
      | .message _ next => some { phase := .draining, position := next }
      | .lagged _ next => some { phase := .drained, position := next }
  | .cancelled, .selecting => some { loop with phase := .stopped }
  | _, _ => none

/-- The moves with which a reconcile begins. -/
def LoopMove.begins : LoopMove → Bool
  | .reconcileBegins => true
  | .tick => true
  | _ => false

/-- Everything a step of the loop can do. -/
inductive LoopStep {ρ : Type} (config : LoopConfig ρ) (sent : List Event) :
    LoopMove → Loop ρ → Loop ρ → Prop where
  | subscribes {position : Nat} :
      LoopStep config sent .watch ⟨.starting, position⟩
        ⟨.subscribed, sent.length⟩
  | begins {move : LoopMove} {phase : LoopPhase ρ} {position : Nat}
      (beginning : move.begins = true)
      (due : phase = .subscribed ∨ phase = .drained ∨
        phase = .selecting ∧ config.resync = true) :
      LoopStep config sent move ⟨phase, position⟩
        ⟨.reconciling config.reconcile, position⟩
  | ends {activity : ρ} {position : Nat}
      (finished : config.finished activity = true) :
      LoopStep config sent .reconcileEnds ⟨.reconciling activity, position⟩
        ⟨.selecting, position⟩
  | skips {position : Nat} {event : Event}
      (found : sent[position]? = some event)
      (ignored : matchesInputs config.inputs event = false) :
      LoopStep config sent .recv ⟨.selecting, position⟩
        ⟨.selecting, position + 1⟩
  | wakes {position next : Nat} (within : next ≤ sent.length)
      (cause : (∃ event, sent[position]? = some event ∧
          matchesInputs config.inputs event = true) ∨
        position + config.capacity < sent.length) :
      LoopStep config sent .recv ⟨.selecting, position⟩ ⟨.debouncing, next⟩
  | drains {move : LoopMove} {phase nextPhase : LoopPhase ρ}
      {position next : Nat} (quiet : move.begins = false)
      (before : phase = .debouncing ∨ phase = .draining)
      (after : nextPhase = .draining ∨ nextPhase = .drained)
      (within : next = position ∨ next ≤ sent.length) :
      LoopStep config sent move ⟨phase, position⟩ ⟨nextPhase, next⟩
  | stops {position : Nat} :
      LoopStep config sent .cancelled ⟨.selecting, position⟩
        ⟨.stopped, position⟩

private theorem loopStep_recv {ρ : Type} {config : LoopConfig ρ}
    {sent : List Event} {position : Nat} {next : Loop ρ}
    (stepped : Loop.step config sent ⟨.selecting, position⟩ .recv =
      some next) :
    LoopStep config sent .recv ⟨.selecting, position⟩ next := by
  simp only [Loop.step] at stepped
  split at stepped
  · cases stepped
  · rename_i event following received
    obtain ⟨found, rfl⟩ := getElem?_of_receive_message received
    have within := next_le_length_of_receive_message received
    split at stepped
    · rename_i matching
      cases stepped
      exact .wakes within (.inl ⟨event, found, matching⟩)
    · rename_i different
      cases stepped
      rw [Bool.not_eq_true] at different
      exact .skips found different
  · rename_i skipped following received
    cases stepped
    exact .wakes (next_le_length_of_receive_lagged received)
      (.inr (lagged_of_receive_lagged received))

private theorem loopStep_tryRecv {ρ : Type} {config : LoopConfig ρ}
    {sent : List Event} {position : Nat} {next : Loop ρ}
    (stepped : Loop.step config sent ⟨.draining, position⟩ .tryRecv =
      some next) :
    LoopStep config sent .tryRecv ⟨.draining, position⟩ next := by
  simp only [Loop.step] at stepped
  split at stepped
  · cases stepped
    exact .drains rfl (.inr rfl) (.inr rfl) (.inl rfl)
  · rename_i event following received
    cases stepped
    exact .drains rfl (.inr rfl) (.inl rfl)
      (.inr (next_le_length_of_receive_message received))
  · rename_i skipped following received
    cases stepped
    exact .drains rfl (.inr rfl) (.inr rfl)
      (.inr (next_le_length_of_receive_lagged received))

theorem Loop.step_spec {ρ : Type} {config : LoopConfig ρ}
    {sent : List Event} {loop next : Loop ρ} {move : LoopMove}
    (stepped : loop.step config sent move = some next) :
    LoopStep config sent move loop next := by
  obtain ⟨phase, position⟩ := loop
  cases move with
  | watch =>
      cases phase with
      | starting =>
          cases stepped
          exact .subscribes
      | _ => cases stepped
  | reconcileBegins =>
      cases phase with
      | subscribed =>
          cases stepped
          exact .begins rfl (.inl rfl)
      | drained =>
          cases stepped
          exact .begins rfl (.inr (.inl rfl))
      | _ => cases stepped
  | reconcileEnds =>
      cases phase with
      | reconciling activity =>
          simp only [Loop.step, Option.ite_none_right_eq_some,
            Option.some.injEq] at stepped
          obtain ⟨finished, rfl⟩ := stepped
          exact .ends finished
      | _ => cases stepped
  | tick =>
      cases phase with
      | selecting =>
          simp only [Loop.step, Option.ite_none_right_eq_some,
            Option.some.injEq] at stepped
          obtain ⟨resync, rfl⟩ := stepped
          exact .begins rfl (.inr (.inr ⟨rfl, resync⟩))
      | _ => cases stepped
  | recv =>
      cases phase with
      | selecting => exact loopStep_recv stepped
      | _ => cases stepped
  | debounced =>
      cases phase with
      | debouncing =>
          cases stepped
          exact .drains rfl (.inl rfl) (.inl rfl) (.inl rfl)
      | _ => cases stepped
  | tryRecv =>
      cases phase with
      | draining => exact loopStep_tryRecv stepped
      | _ => cases stepped
  | cancelled =>
      cases phase with
      | selecting =>
          cases stepped
          exact .stops
      | _ => cases stepped

end MachinedRs
