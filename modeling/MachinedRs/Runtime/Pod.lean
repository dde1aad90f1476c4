import MachinedRs.Foundation.History
import MachinedRs.Foundation.System
import MachinedRs.RuntimeCore.OwnedPass

/-!
# Pods

The pod controller brings up each configured pod in a pass: it looks for the
sandbox and the container by name and makes what is missing.  Any reply of the
container runtime may be lost after the call took effect; the next pass then
finds what was made.
-/

namespace MachinedRs

open Foundation

section Cri

structure PodSpec where
  name : String
  uid : String
  hostNetwork : Bool
deriving DecidableEq, Repr

structure ContainerSpec where
  name : String
  image : String
  command : List String
  args : List String
deriving DecidableEq, Repr

inductive ContainerState where
  | created
  | running
  | exited
  | unknown
deriving DecidableEq, Repr

/-- The calls of `CriClient` that the controller makes. -/
inductive CriCall where
  | imagePresent (image : String)
  | findSandbox (name : String)
  | runPodSandbox (spec : PodSpec)
  | findContainer (sandbox name : String)
  | createContainer (sandbox : String) (spec : ContainerSpec)
  | startContainer (container : String)
  | containerState (container : String)
  | podIp (sandbox : String)
deriving DecidableEq, Repr

/-- Errors are what they display. -/
@[reducible] def CriCall.Answer : CriCall → Type
  | .imagePresent _ => Except String Bool
  | .findSandbox _ => Except String (Option String)
  | .runPodSandbox _ => Except String String
  | .findContainer _ _ => Except String (Option String)
  | .createContainer _ _ => Except String String
  | .startContainer _ => Except String Unit
  | .containerState _ => Except String ContainerState
  | .podIp _ => Except String (Option String)

abbrev criSignature : Signature :=
  { Op := CriCall, Answer := CriCall.Answer }

structure Sandbox where
  id : String
  name : String
deriving DecidableEq, Repr

structure Container where
  id : String
  sandbox : String
  name : String
deriving DecidableEq, Repr

/-- The sandboxes and containers that were ever made; none is removed.  Whether
a container runs is left to the answers: it may exit at any time. -/
structure CriRuntime where
  sandboxes : List Sandbox
  containers : List Container
deriving DecidableEq, Repr

def CriRuntime.empty : CriRuntime :=
  { sandboxes := []
    containers := [] }

/-- What settles a call.  A call that is lost has had its effect. -/
inductive CriFate where
  | fails (message : String)
  | lost (message : String) (id : String)
  | id (id : String)
  | absent
  | started
  | present (present : Bool)
  | state (state : ContainerState)
  | ip (ip : Option String)
deriving DecidableEq, Repr

namespace CriCall

def refused (message : String) : (call : CriCall) → call.Answer
  | .imagePresent _ => .error message
  | .findSandbox _ => .error message
  | .runPodSandbox _ => .error message
  | .findContainer _ _ => .error message
  | .createContainer _ _ => .error message
  | .startContainer _ => .error message
  | .containerState _ => .error message
  | .podIp _ => .error message

/-- What a call changes; `id` is what the runtime names the new object. -/
def effect (runtime : CriRuntime) (id : String) : CriCall → CriRuntime
  | .runPodSandbox spec =>
      { runtime with sandboxes := ⟨id, spec.name⟩ :: runtime.sandboxes }
  | .createContainer sandbox spec =>
      { runtime with
        containers := ⟨id, sandbox, spec.name⟩ :: runtime.containers }
  | _ => runtime

/-- The calls that neither make nor start anything. -/
def isQuery : CriCall → Bool
  | .runPodSandbox _ => false
  | .createContainer _ _ => false
  | .startContainer _ => false
  | _ => true

/-- The replies of calls that succeed.  The two searches find what is there and
nothing else; of everything else any reply is possible. -/
def reply (runtime : CriRuntime) :
    (call : CriCall) → CriFate → Option call.Answer
  | .imagePresent _, .present present => some (.ok present)
  | .findSandbox name, .id id =>
      if ⟨id, name⟩ ∈ runtime.sandboxes then some (.ok (some id)) else none
  | .findSandbox name, .absent =>
      if ∀ sandbox ∈ runtime.sandboxes, sandbox.name ≠ name then
        some (.ok none)
      else
        none
  | .runPodSandbox _, .id id => some (.ok id)
  | .findContainer sandbox name, .id id =>
      if ⟨id, sandbox, name⟩ ∈ runtime.containers then some (.ok (some id))
      else none
  | .findContainer sandbox name, .absent =>
      if ∀ container ∈ runtime.containers,
          ¬ (container.sandbox = sandbox ∧ container.name = name) then
        some (.ok none)
      else
        none
  | .createContainer _ _, .id id => some (.ok id)
  | .startContainer _, .started => some (.ok ())
  | .containerState _, .state state => some (.ok state)
  | .podIp _, .ip ip => some (.ok ip)
  | _, _ => none

/-- The identifier in a fate, if it has one. -/
def newId : CriFate → String
  | .id id => id
  | .lost _ id => id
  | _ => ""

def perform (runtime : CriRuntime) (call : CriCall) (fate : CriFate) :
    Option (call.Answer × CriRuntime) :=
  match fate with
  | .fails message => some (call.refused message, runtime)
  | .lost message id => some (call.refused message, call.effect runtime id)
  | fate =>
      (call.reply runtime fate).map fun answer =>
        (answer, call.effect runtime (newId fate))

end CriCall

end Cri

section Controller

structure PodConfig where
  name : String
  image : String
  command : List String
  args : List String
  hostNetwork : Bool
deriving DecidableEq, Repr

namespace PodController

def ns : String :=
  "runtime"

def owner : String :=
  "pod-controller"

abbrev podSignature : Signature :=
  stateSignature.sum criSignature

def statusObj (name : String) (phase : PodPhase)
    (containerId message podIp : String) : ResourceObject :=
  .new ns name
    (.podStatus
      { name := name
        phase := phase
        containerId := containerId
        podIp := podIp
        message := message })

/-- On the answer to `get` for the status of containerd. -/
def runtimeReady : Except Error ResourceObject → Bool
  | .ok object =>
      match object.spec with
      | .runtimeStatus status => status.ready
      | _ => false
  | .error _ => false

def ensureSandbox (pod : PodConfig) :
    Program podSignature (Except String String) :=
  .call (.inr (.findSandbox pod.name))
    fun (found : Except String (Option String)) =>
      .attempt found fun
        | some id => .done (.ok id)
        | none =>
            .call
              (.inr (.runPodSandbox
                { name := pod.name
                  uid := "uid-" ++ pod.name
                  hostNetwork := pod.hostNetwork }))
              fun (run : Except String String) => .done run

def startContainer (id : String) :
    Program podSignature (Except String String) :=
  .call (.inr (.startContainer id)) fun (started : Except String Unit) =>
    .attempt started fun _ => .done (.ok id)

def ensureContainer (sandbox : String) (pod : PodConfig) :
    Program podSignature (Except String String) :=
  .call (.inr (.findContainer sandbox pod.name))
    fun (found : Except String (Option String)) =>
      .attempt found fun
        | some id =>
            .call (.inr (.containerState id))
              fun (state : Except String ContainerState) =>
                match state with
                | .ok .created => startContainer id
                | _ => .done (.ok id)
        | none =>
            .call
              (.inr (.createContainer sandbox
                { name := pod.name
                  image := pod.image
                  command := pod.command
                  args := pod.args }))
              fun (created : Except String String) =>
                .attempt created startContainer

/-- The pod's address, as far as it is known. -/
def knownIp : Except String (Option String) → String
  | .ok (some ip) => ip
  | _ => ""

def observe (pod : PodConfig) (sandbox container : String) :
    Program podSignature ResourceObject :=
  .call (.inr (.containerState container))
    fun (state : Except String ContainerState) =>
      match state with
      | .ok .running =>
          .call (.inr (.podIp sandbox))
            fun (ip : Except String (Option String)) =>
              .done (statusObj pod.name .running container "" (knownIp ip))
      | .ok .exited =>
          .done (statusObj pod.name .failed container "container exited" "")
      | .ok _ => .done (statusObj pod.name .pending container "starting" "")
      | .error error =>
          .done (statusObj pod.name .pending container error "")

def runOne (pod : PodConfig) : Program podSignature ResourceObject :=
  .call (.inr (.imagePresent pod.image)) fun (image : Except String Bool) =>
    match image with
    | .ok true =>
        (ensureSandbox pod).bind fun
          | .error message =>
              .done (statusObj pod.name .pending "" message "")
          | .ok sandbox =>
              (ensureContainer sandbox pod).bind fun
                | .error message =>
                    .done (statusObj pod.name .pending "" message "")
                | .ok container => observe pod sandbox container
    | .ok false =>
        .done (statusObj pod.name .pending "" "image not present" "")
    | .error _ =>
        .done (statusObj pod.name .pending "" "cri unreachable" "")

/-- The loop over the pods; what it has pushed so far is `desired`. -/
def runAll (ready : Bool) : List PodConfig → List ResourceObject →
    Program podSignature (List ResourceObject)
  | [], desired => .done desired
  | pod :: pods, desired =>
      if ready then
        (runOne pod).bind fun object => runAll ready pods (desired ++ [object])
      else
        runAll ready pods
          (desired ++ [statusObj pod.name .pending "" "runtime not ready" ""])

def publish (desired : List ResourceObject) :
    Program podSignature (Result Unit) :=
  (reconcileOwned owner ns .podStatus desired).inl

def reconcile (pods : List PodConfig) : Program podSignature (Result Unit) :=
  if pods.isEmpty then
    publish []
  else
    .call (.inl (.get ⟨ns, .runtimeStatus, "containerd"⟩)) fun found =>
      (runAll (runtimeReady found) pods []).bind publish

end PodController

end Controller

namespace PodController

/-- What settles an operation: what the store holds by then, the order of a
listing, or the fate of a call. -/
structure PodChoice where
  objects : Objects
  listing : List ResourceObject
  fate : CriFate

/-- The store belongs to everyone: at each operation it holds whatever it
holds by then.  The runtime changes by the controller's calls only. -/
def podMachine : Machine podSignature CriRuntime PodChoice :=
  { perform := fun runtime operation choice =>
      match operation with
      | .inl operation =>
          (Op.answer? choice.objects choice.listing operation).map
            fun answer => (answer, runtime)
      | .inr call => call.perform runtime choice.fate }

/-- A pass that runs as far as its choices go. -/
structure PodPass where
  pods : List PodConfig
  choices : List PodChoice

def podSystem : System CriRuntime PodPass :=
  { Initial := fun runtime => runtime = .empty
    step := fun runtime pass =>
      (podMachine.exec (reconcile pass.pods) runtime pass.choices).map
        Prod.snd }

/-- At most one sandbox of a name, and one container of a name in a
sandbox. -/
structure Unique (runtime : CriRuntime) : Prop where
  sandboxes : (runtime.sandboxes.map Sandbox.name).Nodup
  containers : (runtime.containers.map fun container =>
    (container.sandbox, container.name)).Nodup

abbrev PodLog := List podSignature.Exchange

/-- The last exchange made the container or found it in `Created`. -/
def JustKnown (before : PodLog) (id : String) : Prop :=
  (∃ earlier sandbox spec, before =
    earlier ++ [⟨.inr (.createContainer sandbox spec), .ok id⟩]) ∨
  ∃ earlier, before =
    earlier ++ [⟨.inr (.containerState id), .ok .created⟩]

def StartsKnown (before : PodLog) (exchange : podSignature.Exchange) : Prop :=
  ∀ id, exchange.1 = .inr (.startContainer id) → JustKnown before id

def ReadRunning (log : PodLog) (id : String) : Prop :=
  ⟨.inr (.containerState id), .ok .running⟩ ∈ log

/-- The operation writes this status. -/
def Writes (operation : podSignature.Op) (status : PodStatus) : Prop :=
  (∃ object, operation = .inl (.create object) ∧
    object.spec = .podStatus status) ∨
  ∃ key version, operation = .inl (.update key version (.podStatus status))

def PublishesRead (before : PodLog) (exchange : podSignature.Exchange) :
    Prop :=
  ∀ status, Writes exchange.1 status → status.phase = .running →
    ReadRunning before status.containerId

section Runtime

variable {runtime after : CriRuntime} {fate : CriFate}

/-- A call leaves the runtime alone or has its effect. -/
theorem perform_after {call : CriCall} {answer : call.Answer}
    (performed : call.perform runtime fate = some (answer, after)) :
    after = runtime ∨ ∃ id, after = call.effect runtime id := by
  unfold CriCall.perform at performed
  split at performed
  · cases performed
    exact .inl rfl
  · cases performed
    exact .inr ⟨_, rfl⟩
  · obtain ⟨_, _, same⟩ := Option.map_eq_some_iff.mp performed
    cases same
    exact .inr ⟨_, rfl⟩

/-- The store is not part of the runtime. -/
theorem perform_store {operation : Op} {choice : PodChoice}
    {answer : operation.Answer}
    (performed : podMachine.perform runtime (.inl operation) choice =
      some (answer, after)) : after = runtime := by
  obtain ⟨_, _, same⟩ := Option.map_eq_some_iff.mp performed
  cases same
  rfl

theorem perform_findSandbox_none {name : String}
    (performed : CriCall.perform runtime (.findSandbox name) fate =
      some (.ok none, after)) :
    after = runtime ∧ ∀ sandbox ∈ runtime.sandboxes, sandbox.name ≠ name := by
  cases fate with
  | absent =>
      obtain ⟨answer, replied, same⟩ := Option.map_eq_some_iff.mp performed
      cases same
      exact ⟨rfl, (Option.ite_none_right_eq_some.mp replied).1⟩
  | id id =>
      obtain ⟨answer, replied, same⟩ := Option.map_eq_some_iff.mp performed
      cases same
      cases (Option.ite_none_right_eq_some.mp replied).2
  | _ => cases performed

theorem perform_findContainer_none {sandbox name : String}
    (performed : CriCall.perform runtime (.findContainer sandbox name) fate =
      some (.ok none, after)) :
    after = runtime ∧ ∀ container ∈ runtime.containers,
      ¬ (container.sandbox = sandbox ∧ container.name = name) := by
  cases fate with
  | absent =>
      obtain ⟨answer, replied, same⟩ := Option.map_eq_some_iff.mp performed
      cases same
      exact ⟨rfl, (Option.ite_none_right_eq_some.mp replied).1⟩
  | id id =>
      obtain ⟨answer, replied, same⟩ := Option.map_eq_some_iff.mp performed
      cases same
      cases (Option.ite_none_right_eq_some.mp replied).2
  | _ => cases performed

theorem Unique.runPodSandbox {spec : PodSpec} (unique : Unique runtime)
    (absent : ∀ sandbox ∈ runtime.sandboxes, sandbox.name ≠ spec.name)
    (id : String) :
    Unique (CriCall.effect runtime id (.runPodSandbox spec)) := by
  refine ⟨List.nodup_cons.mpr ⟨?_, unique.sandboxes⟩, unique.containers⟩
  intro member
  obtain ⟨sandbox, isSandbox, same⟩ := List.mem_map.mp member
  exact absent sandbox isSandbox same

theorem Unique.createContainer {sandbox : String} {spec : ContainerSpec}
    (unique : Unique runtime)
    (absent : ∀ container ∈ runtime.containers,
      ¬ (container.sandbox = sandbox ∧ container.name = spec.name))
    (id : String) :
    Unique (CriCall.effect runtime id (.createContainer sandbox spec)) := by
  refine ⟨unique.sandboxes, List.nodup_cons.mpr ⟨?_, unique.containers⟩⟩
  intro member
  obtain ⟨container, isContainer, same⟩ := List.mem_map.mp member
  exact absent container isContainer (Prod.mk.inj same)

end Runtime

section Passes

/-- What holds at every point of a pass. -/
structure Sound (state : CriRuntime × PodLog) : Prop where
  unique : Unique state.1
  starts : Each StartsKnown state.2
  publishes : Each PublishesRead state.2

/-- The status of a running pod rests on what was read. -/
def Supported (log : PodLog) (object : ResourceObject) : Prop :=
  ∀ status, object.spec = .podStatus status → status.phase = .running →
    ReadRunning log status.containerId

theorem Supported.mono {log longer : PodLog} {object : ResourceObject}
    (supported : Supported log object) (grown : log ⊆ longer) :
    Supported longer object := by
  intro status isStatus runs
  exact grown (supported status isStatus runs)

theorem supported_statusObj (log : PodLog) (name : String) {phase : PodPhase}
    (other : phase ≠ .running) (containerId message podIp : String) :
    Supported log (statusObj name phase containerId message podIp) := by
  intro status isStatus runs
  cases isStatus
  exact absurd runs other

variable {α : Type} {post : α → CriRuntime × PodLog → Prop}
  {runtime : CriRuntime} {log : PodLog}

/-- A call to the runtime. -/
theorem protected_cri {call : CriCall}
    {next : call.Answer → Program podSignature α}
    (sound : Sound (runtime, log))
    (starts : ∀ id, call = .startContainer id → JustKnown log id)
    (unique : ∀ id, Unique (call.effect runtime id))
    (goesOn : ∀ fate answer after,
      call.perform runtime fate = some (answer, after) →
      Sound (after, log ++ [⟨.inr call, answer⟩]) →
      (podMachine.recorded.alone Sound).Protected post (next answer)
        (after, log ++ [⟨.inr call, answer⟩])) :
    (podMachine.recorded.alone Sound).Protected post
      (.call (.inr call) next) (runtime, log) := by
  apply Machine.recorded_call sound
  intro choice answer after performed
  apply goesOn choice.fate answer after performed
  constructor
  · rcases perform_after performed with rfl | ⟨id, rfl⟩
    · exact sound.unique
    · exact unique id
  · apply sound.starts.concat
    intro id isStart
    exact starts id (Sum.inr.inj isStart)
  · apply sound.publishes.concat
    rintro status (⟨object, isCreate, _⟩ | ⟨key, version, isUpdate⟩)
    · cases isCreate
    · cases isUpdate

/-- A call that only asks. -/
theorem protected_query {call : CriCall}
    {next : call.Answer → Program podSignature α}
    (sound : Sound (runtime, log)) (query : call.isQuery = true)
    (goesOn : ∀ fate answer after,
      call.perform runtime fate = some (answer, after) →
      Sound (after, log ++ [⟨.inr call, answer⟩]) →
      (podMachine.recorded.alone Sound).Protected post (next answer)
        (after, log ++ [⟨.inr call, answer⟩])) :
    (podMachine.recorded.alone Sound).Protected post
      (.call (.inr call) next) (runtime, log) := by
  apply protected_cri sound _ _ goesOn
  · rintro id rfl
    cases query
  · intro id
    cases call with
    | runPodSandbox spec => cases query
    | createContainer sandbox spec => cases query
    | _ => exact sound.unique

theorem ensureSandbox_protected (sound : Sound (runtime, log))
    (pod : PodConfig) :
    (podMachine.recorded.alone Sound).Protected (fun _ _ => True)
      (ensureSandbox pod) (runtime, log) := by
  refine protected_query sound rfl ?_
  intro fate found after performed soundFound
  cases found with
  | error error => exact Machine.done soundFound trivial
  | ok found =>
      cases found with
      | some id => exact Machine.done soundFound trivial
      | none =>
          obtain ⟨rfl, absent⟩ := perform_findSandbox_none performed
          apply protected_cri soundFound (by simp)
            (soundFound.unique.runPodSandbox absent)
          intro fate run after performed soundRun
          exact Machine.done soundRun trivial

theorem startContainer_protected (sound : Sound (runtime, log)) {id : String}
    (known : JustKnown log id) :
    (podMachine.recorded.alone Sound).Protected (fun _ _ => True)
      (startContainer id) (runtime, log) := by
  apply protected_cri sound
  · intro other same
    cases same
    exact known
  · intro _
    exact sound.unique
  · intro fate started after performed soundStarted
    cases started with
    | error error => exact Machine.done soundStarted trivial
    | ok _ => exact Machine.done soundStarted trivial

theorem ensureContainer_protected (sound : Sound (runtime, log))
    (sandbox : String) (pod : PodConfig) :
    (podMachine.recorded.alone Sound).Protected (fun _ _ => True)
      (ensureContainer sandbox pod) (runtime, log) := by
  refine protected_query sound rfl ?_
  intro fate found after performed soundFound
  cases found with
  | error error => exact Machine.done soundFound trivial
  | ok found =>
      cases found with
      | some id =>
          refine protected_query soundFound rfl ?_
          intro fate state after performed soundRead
          cases state with
          | error error => exact Machine.done soundRead trivial
          | ok state =>
              cases state with
              | created =>
                  exact startContainer_protected soundRead (.inr ⟨_, rfl⟩)
              | running => exact Machine.done soundRead trivial
              | exited => exact Machine.done soundRead trivial
              | unknown => exact Machine.done soundRead trivial
      | none =>
          obtain ⟨rfl, absent⟩ := perform_findContainer_none performed
          apply protected_cri soundFound (by simp)
            (soundFound.unique.createContainer absent)
          intro fate created after performed soundCreated
          cases created with
          | error error => exact Machine.done soundCreated trivial
          | ok id =>
              exact startContainer_protected soundCreated
                (.inl ⟨_, _, _, rfl⟩)

theorem observe_protected (sound : Sound (runtime, log)) (pod : PodConfig)
    (sandbox container : String) :
    (podMachine.recorded.alone Sound).Protected
      (fun object state => Supported state.2 object)
      (observe pod sandbox container) (runtime, log) := by
  refine protected_query sound rfl ?_
  intro fate state after performed soundRead
  have unsupported : ∀ phase message, phase ≠ PodPhase.running →
      Supported (log ++ [⟨.inr (.containerState container), state⟩])
        (statusObj pod.name phase container message "") := by
    intro phase message other
    exact supported_statusObj _ _ other _ _ _
  cases state with
  | error error =>
      exact Machine.done soundRead (unsupported _ _ (by decide))
  | ok state =>
      cases state with
      | created => exact Machine.done soundRead (unsupported _ _ (by decide))
      | exited => exact Machine.done soundRead (unsupported _ _ (by decide))
      | unknown => exact Machine.done soundRead (unsupported _ _ (by decide))
      | running =>
          refine protected_query soundRead rfl ?_
          intro fate ip after performed soundIp
          apply Machine.done soundIp
          intro status isStatus _
          cases isStatus
          apply List.mem_append_left
          exact List.mem_append_right _ List.mem_cons_self

theorem runOne_protected (sound : Sound (runtime, log)) (pod : PodConfig) :
    (podMachine.recorded.alone Sound).Protected
      (fun object state => Supported state.2 object) (runOne pod)
      (runtime, log) := by
  have unsupported : ∀ (log : PodLog) message,
      Supported log (statusObj pod.name .pending "" message "") := by
    intro log message
    exact supported_statusObj _ _ (by decide) _ _ _
  refine protected_query sound rfl ?_
  intro fate image after performed soundImage
  cases image with
  | error error => exact Machine.done soundImage (unsupported _ _)
  | ok present =>
      cases present with
      | false => exact Machine.done soundImage (unsupported _ _)
      | true =>
          apply Setting.Protected.bind
          apply Setting.Protected.mono _
            (ensureSandbox_protected soundImage pod).keeping
          rintro sandbox ⟨runtime, log⟩ ⟨soundSandbox, _⟩
          cases sandbox with
          | error message => exact Machine.done soundSandbox (unsupported _ _)
          | ok sandbox =>
              apply Setting.Protected.bind
              apply Setting.Protected.mono _
                (ensureContainer_protected soundSandbox sandbox pod).keeping
              rintro container ⟨runtime, log⟩ ⟨soundContainer, _⟩
              cases container with
              | error message =>
                  exact Machine.done soundContainer (unsupported _ _)
              | ok container =>
                  exact observe_protected soundContainer pod sandbox container

theorem runAll_protected (ready : Bool) (pods : List PodConfig)
    (desired : List ResourceObject) (sound : Sound (runtime, log))
    (supported : ∀ object ∈ desired, Supported log object) :
    (podMachine.recorded.alone Sound).Protected
      (fun objects state => ∀ object ∈ objects, Supported state.2 object)
      (runAll ready pods desired) (runtime, log) := by
  induction pods generalizing runtime log desired with
  | nil => exact Machine.done sound supported
  | cons pod pods induction =>
      unfold runAll
      split
      · apply Setting.Protected.bind
        have grows := podMachine.recorded_grows (runOne pod) runtime log
        apply Setting.Protected.mono _
          (grows.with (runOne_protected sound pod)).keeping
        rintro object ⟨after, longer⟩ ⟨soundAfter, grown, isSupported⟩
        apply induction _ soundAfter
        intro other member
        rcases List.mem_append.mp member with earlier | last
        · exact (supported other earlier).mono grown
        · rw [List.mem_singleton.mp last]
          exact isSupported
      · apply induction _ sound
        intro other member
        rcases List.mem_append.mp member with earlier | last
        · exact supported other earlier
        · rw [List.mem_singleton.mp last]
          exact supported_statusObj _ _ (by decide) _ _ _

/-- Operations on the store that write the specs of supported objects only. -/
theorem protected_store {desired : List ResourceObject}
    {program : Program stateSignature α}
    (only : program.Only (Op.WritesSpecOf desired))
    (sound : Sound (runtime, log))
    (supported : ∀ object ∈ desired, Supported log object) :
    (podMachine.recorded.alone Sound).Protected (fun _ _ => True)
      (program.inl : Program podSignature α) (runtime, log) := by
  induction program generalizing log with
  | done value => exact Machine.done sound trivial
  | call operation next induction =>
      apply Machine.recorded_call sound
      intro choice answer after performed
      cases perform_store performed
      apply induction answer (only.2 answer)
      · constructor
        · exact sound.unique
        · apply sound.starts.concat
          intro id isStart
          cases isStart
        · apply sound.publishes.concat
          rintro status (⟨object, isCreate, isStatus⟩ |
            ⟨key, version, isUpdate⟩)
          · cases isCreate
            obtain ⟨wanted, isWanted, spec⟩ := only.1
            exact supported wanted isWanted status (spec ▸ isStatus)
          · cases isUpdate
            obtain ⟨wanted, isWanted, spec⟩ := only.1
            exact supported wanted isWanted status spec.symm
      · intro object member
        exact (supported object member).mono (List.subset_append_left _ _)

theorem reconcile_protected (sound : Sound (runtime, log))
    (pods : List PodConfig) :
    (podMachine.recorded.alone Sound).Protected (fun _ _ => True)
      (reconcile pods) (runtime, log) := by
  unfold reconcile
  split
  · exact protected_store (reconcileOwned_writes owner ns .podStatus [])
      sound (by simp)
  · apply Machine.recorded_call sound
    intro choice found after performed
    cases perform_store performed
    have soundRead : Sound (runtime, log ++
        [⟨.inl (.get ⟨ns, .runtimeStatus, "containerd"⟩), found⟩]) := by
      refine ⟨sound.unique, sound.starts.concat ?_, sound.publishes.concat ?_⟩
      · intro id isStart
        cases isStart
      · rintro status (⟨object, isCreate, _⟩ | ⟨key, version, isUpdate⟩)
        · cases isCreate
        · cases isUpdate
    apply Setting.Protected.bind
    have objects := runAll_protected (runtimeReady found) pods [] soundRead
      (by simp)
    apply Setting.Protected.mono _ objects.keeping
    rintro desired ⟨after, longer⟩ ⟨soundAfter, supported⟩
    exact protected_store (reconcileOwned_writes owner ns .podStatus desired)
      soundAfter supported

theorem sound_start {runtime : CriRuntime} (unique : Unique runtime) :
    Sound (runtime, []) :=
  ⟨unique, Each.nil, Each.nil⟩

theorem unique_of_reachable {runtime : CriRuntime}
    (reachable : podSystem.Reachable runtime) : Unique runtime := by
  apply reachable.invariant
  · rintro start rfl
    exact ⟨List.nodup_nil, List.nodup_nil⟩
  · intro before pass next stepped unique
    obtain ⟨⟨rest, final⟩, ran, rfl⟩ := Option.map_eq_some_iff.mp stepped
    obtain ⟨log, recorded⟩ := Machine.recorded_of_exec ran []
    exact (Machine.protected_of_exec
      (reconcile_protected (sound_start unique) pass.pods)
      recorded).holds.unique

end Passes

/-- Whatever replies were lost in the passes before, no point of a pass has two
sandboxes of a name or two containers of a name in a sandbox; only containers
known to be in `Created` are started; and a pod is published as running only if
its container was read as running. -/
theorem pods_never_duplicated {runtime : CriRuntime}
    (reachable : podSystem.Reachable runtime) (pods : List PodConfig)
    {choices : List PodChoice} {rest : Program podSignature (Result Unit)}
    {final : CriRuntime} {log : PodLog}
    (ran : podMachine.recorded.exec (reconcile pods) (runtime, []) choices =
      some (rest, (final, log))) :
    Unique final ∧ Each StartsKnown log ∧ Each PublishesRead log := by
  have unique := unique_of_reachable reachable
  have sound := (Machine.protected_of_exec
    (reconcile_protected (sound_start unique) pods) ran).holds
  exact ⟨sound.unique, sound.starts, sound.publishes⟩

def web : PodConfig :=
  { name := "web"
    image := "nginx"
    command := []
    args := []
    hostNetwork := true }

/-- The store holds that containerd is ready. -/
def choiceOf (fate : CriFate) : PodChoice :=
  { objects := Finmap.singleton ⟨ns, .runtimeStatus, "containerd"⟩
      (.new ns "containerd"
        (.runtimeStatus
          { ready := true
            name := "containerd"
            version := "2.0" }))
    listing := []
    fate := fate }

def oneSandbox : CriRuntime :=
  { sandboxes := [⟨"s1", "web"⟩]
    containers := [] }

def onePod : CriRuntime :=
  { sandboxes := [⟨"s1", "web"⟩]
    containers := [⟨"c1", "s1", "web"⟩] }

/-- The reply to `run_pod_sandbox` is lost in the first pass. -/
def lostReply : PodPass :=
  { pods := [web, web]
    choices := [.started, .present true, .absent, .lost "deadline" "s1"].map
      choiceOf }

/-- The second pass, up to the start of the container. -/
def secondPass : List PodChoice :=
  [.started, .present true, .id "s1", .absent, .id "c1", .started].map choiceOf

theorem pods_never_duplicated_lost : ∃ rest log,
    podSystem.Reachable oneSandbox ∧
    podMachine.recorded.exec (reconcile [web, web]) (oneSandbox, [])
      secondPass = some (rest, (onePod, log)) ∧
    log.length = 6 ∧
    Unique onePod ∧ Each StartsKnown log ∧ Each PublishesRead log := by
  have first : podSystem.step .empty lostReply = some oneSandbox := by
    decide +kernel
  have reachable : podSystem.Reachable oneSandbox := by
    refine ⟨.empty, [lostReply], rfl, ?_⟩
    rw [System.run, first]
    rfl
  have second : (podMachine.recorded.exec (reconcile [web, web])
      (oneSandbox, []) secondPass).map
        (fun result => (result.2.1, result.2.2.length)) =
      some (onePod, 6) := by
    decide +kernel
  obtain ⟨⟨rest, final, log⟩, ran, same⟩ := Option.map_eq_some_iff.mp second
  obtain ⟨rfl, length⟩ := Prod.mk.inj same
  exact ⟨rest, log, reachable, ran, length,
    pods_never_duplicated reachable [web, web] ran⟩

end PodController

end MachinedRs
