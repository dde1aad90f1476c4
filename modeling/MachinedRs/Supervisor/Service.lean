import MachinedRs.Foundation.Machine
import MachinedRs.Foundation.System
import MachinedRs.RuntimeCore.Scope
import MachinedRs.Supervisor.StartOrder

/-!
# Supervised services

Every service has a task of its own: it waits until its dependencies are
ready, runs the service, reflects what happens in a `ServiceStatus` and starts
over if the restart policy says so.  A task runs in stages, each a program that
ends with the next stage; delays are not modelled, so a task may move at any
time.
-/

namespace MachinedRs

open Foundation

inductive RunnerError where
  | spawn (id source : String)
  | notRunning (id : String)
  | other (message : String)
deriving DecidableEq, Repr

def RunnerError.display : RunnerError → String
  | .spawn id source => "spawning service " ++ id ++ ": " ++ source
  | .notRunning id => "service " ++ id ++ " is not running"
  | .other message => message

inductive RunOutcome where
  | success
  | failure
  | stopped
deriving DecidableEq, Repr

inductive Policy where
  | never
  | onFailure
  | always
deriving DecidableEq, Repr

def policyOf : RestartPolicy → Policy
  | .never => .never
  | .onFailure => .onFailure
  | .always => .always

def shouldRestart (policy : Policy) (outcome : RunOutcome) : Bool :=
  match policy with
  | .never => false
  | .onFailure => outcome = .failure
  | .always => outcome ≠ .stopped

inductive Branch where
  | first
  | second
deriving DecidableEq, Repr

/-- What a task does besides working on the store. -/
inductive TaskOp where
  /-- `stop.load`. -/
  | stopping (id : String)
  /-- A branch of a `select!` is polled. -/
  | select
  /-- `runner.run` is entered. -/
  | enter (id : String)
  /-- `runner.run` returns. -/
  | returned (id : String)
deriving DecidableEq, Repr

@[reducible] def TaskOp.Answer : TaskOp → Type
  | .stopping _ => Bool
  | .select => Branch
  | .enter _ => Unit
  | .returned _ => Except RunnerError RunOutcome

abbrev taskSignature : Signature :=
  { Op := TaskOp, Answer := TaskOp.Answer }

abbrev superviseSignature : Signature :=
  stateSignature.sum taskSignature

def serviceKey (id : String) : Key :=
  ⟨"runtime", .serviceStatus, id⟩

/-- Write or refresh the status; a failed write is only logged. -/
def publishStatus (id : String) (state : ServiceState) (healthy : Bool)
    (message : String) : Program stateSignature Unit :=
  let spec : Resource := .serviceStatus
    { serviceId := id
      state := state
      healthy := healthy
      lastMessage := message }
  .call (.get (serviceKey id)) fun existing =>
    match existing with
    | .ok object =>
        .call (.update (serviceKey id) object.metadata.version spec)
          fun _ => .done ()
    | .error _ =>
        .call (.create (.new "runtime" id spec)) fun _ => .done ()

def publishThen {α : Type} (id : String) (state : ServiceState)
    (healthy : Bool) (message : String)
    (next : Program superviseSignature α) : Program superviseSignature α :=
  (publishStatus id state healthy message).inl.bind fun _ => next

/-- `DefaultReadiness` on the answer of the store. -/
def isReady (found : Except Error ResourceObject) : Bool :=
  match found with
  | .ok object =>
      match object.spec with
      | .serviceStatus status =>
          (status.state = .running && status.healthy) ||
            status.state = .finished
      | _ => false
  | .error _ => false

def allReady : List String → Program stateSignature Bool
  | [] => .done true
  | dep :: deps =>
      .call (.get (serviceKey dep)) fun found =>
        if isReady found then allReady deps else .done false

def pendingDeps : List String → Program stateSignature (List String)
  | [] => .done []
  | dep :: deps =>
      .call (.get (serviceKey dep)) fun found =>
        (pendingDeps deps).bind fun pending =>
          .done (if isReady found then pending else dep :: pending)

/-- What a run publishes when it has ended by itself. -/
def finalStatus : RunOutcome → ServiceState × String
  | .success => (.finished, "exited 0")
  | .failure => (.failed, "exited non-zero")
  | .stopped => (.finished, "stopped")

/-- Publish how the run ended; an error counts as a failure. -/
def publishResult (id : String) (result : Except RunnerError RunOutcome) :
    Program superviseSignature RunOutcome :=
  match result with
  | .ok outcome =>
      publishThen id (finalStatus outcome).1 (outcome ≠ .failure)
        (finalStatus outcome).2 (.done outcome)
  | .error error =>
      publishThen id .failed false error.display (.done .failure)

def runService (id : String) : Program superviseSignature RunOutcome :=
  publishThen id .preparing false "starting"
    (publishThen id .running true "running"
      (.call (.inr (.enter id)) fun _ =>
        .call (.inr (.returned id)) fun result => publishResult id result))

inductive TaskStage where
  | head
  /-- In the first `select!`; the wait is not yet polled, or it has slept this
  many times. -/
  | gate (ticks : Option Nat)
  /-- Past the first `select!`. -/
  | admitted
  /-- In the `select!` of the backoff. -/
  | backoff
  | finished
deriving DecidableEq, Repr

/-- The wait for the dependencies, from one sleep to the next. -/
def waitForDeps (id : String) (deps : List String) :
    Option Nat → Program superviseSignature TaskStage
  | none =>
      if deps.isEmpty then
        .done .admitted
      else
        (allReady deps).inl.bind fun ready =>
          if ready then
            .done .admitted
          else
            publishThen id .waiting false
              ("waiting for: " ++ String.intercalate "," deps)
              (.done (.gate (some 0)))
  | some ticks =>
      (allReady deps).inl.bind fun ready =>
        if ready then
          .done .admitted
        else if (ticks + 1) % 150 = 0 then
          (pendingDeps deps).inl.bind fun _ =>
            .done (.gate (some (ticks + 1)))
        else
          .done (.gate (some (ticks + 1)))

/-- Stop here if the stop intent is set. -/
def unlessStopping (id message : String)
    (next : Program superviseSignature TaskStage) :
    Program superviseSignature TaskStage :=
  .call (.inr (.stopping id)) fun (stopping : Bool) =>
    if stopping then
      publishThen id .stopped true message (.done .finished)
    else
      next

/-- One look at the stop intent in the second branch of a `select!`. -/
def pollStop (id : String) (stopped waits : TaskStage) :
    Program superviseSignature TaskStage :=
  .call (.inr (.stopping id)) fun (stopping : Bool) =>
    .done (if stopping then stopped else waits)

/-- The loop of `run_supervised`, stage by stage. -/
def runSupervised (config : ServiceConfig) :
    TaskStage → Program superviseSignature TaskStage
  | .head => unlessStopping config.id "stopped" (.done (.gate none))
  | .gate ticks =>
      .call (.inr .select) fun (branch : Branch) =>
        match branch with
        | .first => waitForDeps config.id config.dependsOn ticks
        | .second => pollStop config.id .admitted (.gate ticks)
  | .admitted =>
      unlessStopping config.id "stopped"
        ((runService config.id).bind fun outcome =>
          unlessStopping config.id "drained"
            (.done
              (if shouldRestart (policyOf config.restart) outcome then .backoff
              else .finished)))
  | .backoff =>
      .call (.inr .select) fun (branch : Branch) =>
        match branch with
        | .first => .done .head
        | .second => pollStop config.id .head .backoff
  | .finished => .done .finished

inductive Mark where
  /-- The store sent an event. -/
  | sent (event : Event)
  | entered (id : String)
  | returned (id : String) (result : Except RunnerError RunOutcome)
deriving DecidableEq

/-- What the tasks share: the store, the stop intents that are set and the
record. -/
structure Supervised where
  objects : Objects
  stopping : List String
  log : List Mark

/-- What the outside decides: the branch that is polled and what a run
returns. -/
structure TaskChoice where
  branch : Branch
  result : Except RunnerError RunOutcome

def taskMachine : Machine superviseSignature Supervised TaskChoice :=
  { perform := fun world operation choice =>
      match operation with
      | .inl operation =>
          (operation.answer? world.objects []).map fun answer =>
            (answer,
              { world with
                objects := operation.after world.objects
                log := world.log ++
                  (operation.emits world.objects).map .sent })
      | .inr (.stopping id) => some (decide (id ∈ world.stopping), world)
      | .inr .select => some (choice.branch, world)
      | .inr (.enter id) =>
          some ((), { world with log := world.log ++ [.entered id] })
      | .inr (.returned id) =>
          some (choice.result,
            { world with
              log := world.log ++ [.returned id choice.result] }) }

structure Supervision where
  world : Supervised
  programs : String → Program superviseSignature TaskStage

inductive SupervisionMove where
  /-- The task of a service moves. -/
  | task (config : ServiceConfig) (choice : TaskChoice)
  /-- `stop_all` sets the stop intent of a service. -/
  | stop (id : String)
  /-- Somebody else works on the store. -/
  | other (operation : Op)

def Op.sparesStatus : Op → Bool
  | .get _ => true
  | operation =>
      match operation.key? with
      | some key => key.typ ≠ .serviceStatus
      | none => true

namespace Supervision

/-- A task performs its next operation, or begins its next stage. -/
def advance (config : ServiceConfig)
    (program : Program superviseSignature TaskStage) (world : Supervised)
    (choice : TaskChoice) :
    Option (Program superviseSignature TaskStage × Supervised) :=
  match program with
  | .done .finished => none
  | .done stage => some (runSupervised config stage, world)
  | .call operation next =>
      (taskMachine.perform world operation choice).map
        fun (answer, after) => (next answer, after)

def step (tasks : List ServiceConfig) (state : Supervision) :
    SupervisionMove → Option Supervision
  | .task config choice =>
      if config ∈ tasks then
        (advance config (state.programs config.id) state.world choice).map
          fun (program, after) =>
            { world := after
              programs :=
                Function.update state.programs config.id program }
      else
        none
  | .stop id =>
      some { state with
        world := { state.world with
          stopping := id :: state.world.stopping } }
  | .other operation =>
      if operation.sparesStatus then
        some { state with
          world := { state.world with
            objects := operation.after state.world.objects
            log := state.world.log ++
              (operation.emits state.world.objects).map .sent } }
      else
        none

end Supervision

def supervision (tasks : List ServiceConfig) :
    System Supervision SupervisionMove :=
  { Initial := fun state =>
      state.world = ⟨∅, [], []⟩ ∧
        state.programs = fun _ => .done .head
    step := Supervision.step tasks }

def DependsOn (services : List ServiceConfig) (id dep : String) : Prop :=
  ∃ config ∈ services, config.id = id ∧ dep ∈ config.dependsOn

/-- This event put the service into this state. -/
def Mark.Announces (id : String) (state : ServiceState) : Mark → Prop
  | .sent event =>
      event.kind ≠ .destroyed ∧ event.object.key = serviceKey id ∧
        ∃ spec, event.object.spec = .serviceStatus spec ∧ spec.state = state
  | .entered _ => False
  | .returned _ _ => False

def Ran (log : List Mark) (id : String) : Prop :=
  ∃ mark ∈ log, mark.Announces id .running

end MachinedRs
