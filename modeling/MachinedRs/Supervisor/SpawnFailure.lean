import Mathlib.Logic.Relation
import MachinedRs.Supervisor.Gating

/-!
# A service that fails to spawn

`run_service` publishes `Running` before it enters the runner.  So a service
whose program cannot even be spawned reads `Running` for a while, and its
dependents may pass their gates in that time.  For every accepted list and every
service of it there is such a run.
-/

namespace MachinedRs

open Foundation

/-- What a task can come to on its own. -/
def Goes (config : ServiceConfig) :
    Program superviseSignature TaskStage × Supervised →
      Program superviseSignature TaskStage × Supervised → Prop :=
  Relation.ReflTransGen fun before after =>
    ∃ choice, Supervision.advance config before.1 before.2 choice = some after

/-- The status of the service in the store. -/
def Reads (objects : Objects) (id : String) (state : ServiceState) : Prop :=
  ∃ object spec, objects.lookup (serviceKey id) = some object ∧
    object.spec = .serviceStatus spec ∧ spec.state = state ∧
      spec.healthy = true

section Alone

variable {config : ServiceConfig} {world after : Supervised}
  {final : Program superviseSignature TaskStage × Supervised}

theorem goes_begin {stage : TaskStage} (unfinished : stage ≠ .finished)
    (rest : Goes config (runSupervised config stage, world) final) :
    Goes config (.done stage, world) final := by
  refine .head ⟨⟨.first, .ok .success⟩, ?_⟩ rest
  cases stage with
  | finished => exact absurd rfl unfinished
  | _ => rfl

theorem goes_call {operation : superviseSignature.Op}
    {next : superviseSignature.Answer operation →
      Program superviseSignature TaskStage}
    {answer : superviseSignature.Answer operation} (choice : TaskChoice)
    (performed : taskMachine.perform world operation choice =
      some (answer, after))
    (rest : Goes config (next answer, after) final) :
    Goes config (.call operation next, world) final := by
  refine .head ⟨choice, ?_⟩ rest
  rw [Supervision.advance, performed]
  rfl

theorem goes_allReady {deps : List String}
    (ready : ∀ dep ∈ deps, Reads world.objects dep .running)
    {next : Bool → Program superviseSignature TaskStage}
    (rest : Goes config (next true, world) final) :
    Goes config ((allReady deps).inl.bind next, world) final := by
  induction deps with
  | nil => exact rest
  | cons dep deps induction =>
      obtain ⟨object, spec, stored, isStatus, isRunning, healthy⟩ :=
        ready dep List.mem_cons_self
      have reads : isReady (State.get world.objects (serviceKey dep)) =
          true := by
        simp [isReady, State.get, stored, isStatus, isRunning, healthy]
      refine goes_call ⟨.first, .ok .success⟩ (perform_get (serviceKey dep)) ?_
      simp only [reads, if_true]
      exact induction fun other member =>
        ready other (List.mem_cons_of_mem _ member)

/-- What is left of a publication. -/
structure StatusWritten (config : ServiceConfig) (state : ServiceState)
    (world after : Supervised) : Prop where
  reads : ∃ object spec,
    after.objects.lookup (serviceKey config.id) = some object ∧
      object.spec = .serviceStatus spec ∧ spec.state = state ∧
        (state = .running → spec.healthy = true)
  others : ∀ key, key ≠ serviceKey config.id →
    after.objects.lookup key = world.objects.lookup key
  stopping : after.stopping = world.stopping
  log : ∃ event, after.log = world.log ++ [.sent event]

theorem goes_publish (config : ServiceConfig) (state : ServiceState)
    (healthy : Bool) (message : String)
    (isHealthy : state = .running → healthy = true)
    (next : Program superviseSignature TaskStage) (world : Supervised) :
    ∃ after, StatusWritten config state world after ∧
      ∀ final, Goes config (next, after) final →
        Goes config (publishThen config.id state healthy message next, world)
          final := by
  let spec : ServiceStatusSpec := ⟨config.id, state, healthy, message⟩
  have published : ∀ (kind : EventKind) (object : ResourceObject),
      object.spec = .serviceStatus spec →
      StatusWritten config state world
        { world with
          objects := world.objects.insert (serviceKey config.id) object
          log := world.log ++ [.sent ⟨kind, object⟩] } := by
    intro kind object isStatus
    refine ⟨⟨object, spec, ?_, isStatus, rfl, isHealthy⟩, ?_, rfl, _, rfl⟩
    · exact Finmap.lookup_insert _
    · intro key different
      exact Finmap.lookup_insert_of_ne _ different
  cases stored : world.objects.lookup (serviceKey config.id) with
  | some object =>
      refine ⟨_, published .updated (object.withSpec (.serviceStatus spec)).bump
        rfl, ?_⟩
      intro final rest
      refine goes_call ⟨.first, .ok .success⟩
        (perform_get (serviceKey config.id)) ?_
      simp only [State.get, stored]
      exact goes_call ⟨.first, .ok .success⟩ (perform_update stored _) rest
  | none =>
      let object := ResourceObject.new "runtime" config.id
        (.serviceStatus spec)
      refine ⟨_, published .created object.fresh rfl, ?_⟩
      intro final rest
      refine goes_call ⟨.first, .ok .success⟩
        (perform_get (serviceKey config.id)) ?_
      simp only [State.get, stored]
      exact goes_call ⟨.first, .ok .success⟩
        (perform_create (by exact stored)) rest

theorem goes_unlessStopping {message : String}
    {next : Program superviseSignature TaskStage}
    (notStopping : config.id ∉ world.stopping)
    (rest : Goes config (next, world) final) :
    Goes config (unlessStopping config.id message next, world) final := by
  have answered : taskMachine.perform world (.inr (.stopping config.id))
      ⟨.first, .ok .success⟩ = some (false, world) := by
    simp [taskMachine, notStopping]
  exact goes_call _ answered rest

theorem goes_gate
    (ready : ∀ dep ∈ config.dependsOn, Reads world.objects dep .running)
    (rest : Goes config (.done .admitted, world) final) :
    Goes config (runSupervised config (.gate none), world) final := by
  refine goes_call ⟨.first, .ok .success⟩ rfl ?_
  change Goes config
    (waitForDeps config.id config.dependsOn none, world) final
  rw [waitForDeps]
  split
  · exact rest
  · exact goes_allReady ready rest

/-- What is left when the runner has been entered. -/
structure Entered (config : ServiceConfig) (world after : Supervised) :
    Prop where
  reads : Reads after.objects config.id .running
  others : ∀ key, key ≠ serviceKey config.id →
    after.objects.lookup key = world.objects.lookup key
  stopping : after.stopping = world.stopping
  log : ∃ first second,
    after.log = world.log ++ [.sent first, .sent second, .entered config.id]

theorem goes_enter (config : ServiceConfig) (world : Supervised)
    (notStopping : config.id ∉ world.stopping)
    (ready : ∀ dep ∈ config.dependsOn, Reads world.objects dep .running) :
    ∃ next after,
      Goes config (.done .head, world)
          (.call (.inr (.returned config.id)) next, after) ∧
        Entered config world after := by
  let ending (result : Except RunnerError RunOutcome) :
      Program superviseSignature TaskStage :=
    (publishResult config.id result).bind fun outcome =>
      unlessStopping config.id "drained"
        (.done
          (if shouldRestart (policyOf config.restart) outcome then .backoff
          else .finished))
  let rest : Program superviseSignature TaskStage :=
    .call (.inr (.enter config.id)) fun _ =>
      .call (.inr (.returned config.id)) ending
  have admitted : runSupervised config .admitted =
      unlessStopping config.id "stopped"
        (publishThen config.id .preparing false "starting"
          (publishThen config.id .running true "running" rest)) := by
    simp only [runSupervised, runService, publishThen_bind,
      Program.call_bind, rest, ending]
  obtain ⟨prepared, isPrepared, prepares⟩ := goes_publish config .preparing
    false "starting" (by simp)
    (publishThen config.id .running true "running" rest) world
  obtain ⟨running, isRunning, runs⟩ := goes_publish config .running true
    "running" (fun _ => rfl) rest prepared
  obtain ⟨object, spec, stored, isStatus, reads, healthy⟩ := isRunning.reads
  obtain ⟨first, firstLog⟩ := isPrepared.log
  obtain ⟨second, secondLog⟩ := isRunning.log
  refine ⟨ending,
    { running with log := running.log ++ [.entered config.id] }, ?_, ?_⟩
  · refine goes_begin (by simp) ?_
    apply goes_unlessStopping notStopping
    refine goes_begin (by simp) ?_
    apply goes_gate ready
    refine goes_begin (by simp) ?_
    rw [admitted]
    apply goes_unlessStopping notStopping
    apply prepares
    apply runs
    exact goes_call ⟨.first, .ok .success⟩ rfl .refl
  · refine ⟨⟨object, spec, stored, isStatus, reads, healthy rfl⟩, ?_, ?_, ?_⟩
    · intro key different
      exact (isRunning.others key different).trans
        (isPrepared.others key different)
    · exact isRunning.stopping.trans isPrepared.stopping
    · refine ⟨first, second, ?_⟩
      simp only [secondLog, firstLog, List.append_assoc, List.cons_append,
        List.nil_append]

end Alone

section Schedule

variable {tasks : List ServiceConfig} {state : Supervision}

theorem run_of_goes {config : ServiceConfig} (isTask : config ∈ tasks)
    {program : Program superviseSignature TaskStage} {after : Supervised}
    (goes : Goes config (state.programs config.id, state.world)
      (program, after)) :
    ∃ moves, (supervision tasks).run state moves =
      some ⟨after, Function.update state.programs config.id program⟩ := by
  generalize starting : (state.programs config.id, state.world) = start at goes
  generalize ending : (program, after) = final at goes
  induction goes using Relation.ReflTransGen.head_induction_on
    generalizing state with
  | refl =>
      have same := starting.trans ending.symm
      cases same
      refine ⟨[], ?_⟩
      rw [Function.update_eq_self]
      rfl
  | @head before middle advances _ induction =>
      obtain ⟨choice, advanced⟩ := advances
      obtain ⟨moved, world⟩ := middle
      subst starting
      let next : Supervision :=
        ⟨world, Function.update state.programs config.id moved⟩
      have begins : (next.programs config.id, next.world) =
          (moved, world) := by
        simp only [next, Function.update_self]
      obtain ⟨moves, ran⟩ := induction begins
      refine ⟨.task config choice :: moves, ?_⟩
      rw [System.run_cons_eq_some]
      refine ⟨next, ?_, ?_⟩
      · change Supervision.step tasks state (.task config choice) = some next
        rw [Supervision.step, if_pos isTask, advanced]
        rfl
      · rw [ran]
        simp only [next, Function.update_idem]

/-- The tasks so far have all entered their runners; the others have not
moved. -/
structure Supervision.Entering (tasks started : List ServiceConfig)
    (state : Supervision) : Prop where
  reachable : (supervision tasks).Reachable state
  stopping : state.world.stopping = []
  reads : ∀ config ∈ started, Reads state.world.objects config.id .running
  inside : ∀ config ∈ started, ∃ next,
    state.programs config.id = .call (.inr (.returned config.id)) next
  entered : ∀ config ∈ started, .entered config.id ∈ state.world.log
  noneReturned : ∀ id result, .returned id result ∉ state.world.log
  outside : ∀ config ∈ tasks, config ∉ started →
    state.programs config.id = .done .head

theorem Supervision.Entering.next {started rest : List ServiceConfig}
    {config : ServiceConfig} (distinct : (tasks.map (·.id)).Nodup)
    (split : tasks = started ++ config :: rest)
    (depends : ∀ dep ∈ config.dependsOn, ∃ other ∈ started, other.id = dep)
    (entering : state.Entering tasks started) :
    ∃ after, Supervision.Entering tasks (started ++ [config]) after := by
  have isTask : config ∈ tasks := by
    rw [split]
    simp
  have apart : ∀ other ∈ tasks, other ≠ config → other.id ≠ config.id := by
    intro other isOther different same
    exact different (List.inj_on_of_nodup_map distinct isOther isTask same)
  have isStarted : ∀ other ∈ started, other ∈ tasks ∧ other ≠ config := by
    intro other member
    refine ⟨by rw [split]; exact List.mem_append_left _ member, ?_⟩
    rintro rfl
    rw [split, List.map_append, List.map_cons] at distinct
    have disjoint := (List.nodup_append.mp distinct).2.2
    exact disjoint _ (List.mem_map_of_mem member) _ List.mem_cons_self rfl
  obtain ⟨next, world, goes, entered⟩ := goes_enter config state.world
    (by rw [entering.stopping]; exact List.not_mem_nil) (by
      intro dep member
      obtain ⟨other, isOther, rfl⟩ := depends dep member
      exact entering.reads other isOther)
  rw [← entering.outside config isTask fun member =>
    (isStarted config member).2 rfl] at goes
  obtain ⟨moves, ran⟩ := run_of_goes isTask goes
  obtain ⟨first, second, log⟩ := entered.log
  have kept : ∀ other ∈ tasks, other ≠ config →
      Function.update state.programs config.id
          (.call (.inr (.returned config.id)) next) other.id =
        state.programs other.id := by
    intro other isOther different
    exact Function.update_of_ne (apart other isOther different) _ _
  refine ⟨⟨world, Function.update state.programs config.id
    (.call (.inr (.returned config.id)) next)⟩, ?_⟩
  constructor
  · exact entering.reachable.run ran
  · exact entered.stopping.trans entering.stopping
  · intro other member
    rcases List.mem_append.mp member with earlier | last
    · obtain ⟨isOther, different⟩ := isStarted other earlier
      obtain ⟨object, spec, stored, reads⟩ := entering.reads other earlier
      refine ⟨object, spec, ?_, reads⟩
      rw [entered.others _ fun same => apart other isOther different
        (serviceKey_injective same)]
      exact stored
    · rw [List.mem_singleton.mp last]
      exact entered.reads
  · intro other member
    rcases List.mem_append.mp member with earlier | last
    · obtain ⟨isOther, different⟩ := isStarted other earlier
      obtain ⟨following, isInside⟩ := entering.inside other earlier
      exact ⟨following, (kept other isOther different).trans isInside⟩
    · rw [List.mem_singleton.mp last]
      exact ⟨next, Function.update_self ..⟩
  · intro other member
    dsimp only
    rw [log]
    rcases List.mem_append.mp member with earlier | last
    · exact List.mem_append_left _ (entering.entered other earlier)
    · rw [List.mem_singleton.mp last]
      simp
  · intro id result returned
    dsimp only at returned
    rw [log] at returned
    rcases List.mem_append.mp returned with earlier | last
    · exact entering.noneReturned id result earlier
    · simp at last
  · intro other isOther notStarted
    rw [List.mem_append, List.mem_singleton, not_or] at notStarted
    exact (kept other isOther notStarted.2).trans
      (entering.outside other isOther notStarted.1)

/-- In the start order every task finds its dependencies among the earlier
ones. -/
theorem depends_earlier {services started rest : List ServiceConfig}
    {config : ServiceConfig} (isService : config ∈ services)
    (follows : Kahn.Follows (dependencyEdges services) (tasks.map (·.id)))
    (split : tasks = started ++ config :: rest) :
    ∀ dep ∈ config.dependsOn, ∃ other ∈ started, other.id = dep := by
  intro dep member
  have isEdge : (dep, config.id) ∈ dependencyEdges services :=
    List.mem_flatMap.mpr
      ⟨config, isService, List.mem_map.mpr ⟨dep, member, rfl⟩⟩
  have earlier := follows (started.map (·.id)) config.id (rest.map (·.id))
    (by rw [split, List.map_append, List.map_cons]) (dep, config.id) isEdge
    rfl
  exact List.mem_map.mp earlier

theorem Supervision.Entering.all {services started rest : List ServiceConfig}
    (distinct : (tasks.map (·.id)).Nodup)
    (members : ∀ service, service ∈ tasks ↔ service ∈ services)
    (follows : Kahn.Follows (dependencyEdges services) (tasks.map (·.id)))
    (split : tasks = started ++ rest)
    (entering : state.Entering tasks started) :
    ∃ after, Supervision.Entering tasks tasks after := by
  induction rest generalizing started state with
  | nil =>
      rw [List.append_nil] at split
      subst split
      exact ⟨state, entering⟩
  | cons config rest induction =>
      have isService : config ∈ services := by
        rw [← members, split]
        simp
      obtain ⟨after, further⟩ := entering.next distinct split
        (depends_earlier isService follows split)
      refine induction ?_ further
      rw [List.append_assoc]
      exact split

end Schedule

/-- For every accepted list and every service of it there is a run in which the
service's runner returns a spawn error on every attempt, its status reads
`Running`, and the runner of every service that depends on it is entered. -/
theorem spawn_failure_releases_dependents
    {services tasks : List ServiceConfig}
    (accepted : startAll services = .ok tasks) {failing : ServiceConfig}
    (isService : failing ∈ services) (source : String) :
    ∃ middle moves final, (supervision tasks).Reachable middle ∧
      (supervision tasks).run middle moves = some final ∧
      Reads middle.world.objects failing.id .running ∧
      (∀ id, Relation.TransGen (DependsOn services) id failing.id →
        .entered id ∈ middle.world.log) ∧
      .returned failing.id (.error (.spawn failing.id source)) ∈
        final.world.log ∧
      ∀ result, .returned failing.id result ∈ final.world.log →
        result = .error (.spawn failing.id source) := by
  obtain ⟨ordered, members⟩ := startAll_spec accepted
  obtain ⟨distinctServices, perm, follows⟩ := startOrder_spec ordered
  have distinct : (tasks.map (·.id)).Nodup :=
    perm.nodup_iff.mpr distinctServices
  have initially : Supervision.Entering tasks []
      ⟨⟨∅, [], []⟩, fun _ => .done .head⟩ :=
    ⟨⟨_, [], ⟨rfl, rfl⟩, rfl⟩, rfl, nofun, nofun, nofun, nofun,
      fun _ _ _ => rfl⟩
  obtain ⟨middle, entering⟩ :=
    initially.all distinct members follows (List.nil_append tasks).symm
  have isTask := (members failing).mpr isService
  obtain ⟨next, inside⟩ := entering.inside failing isTask
  let result : Except RunnerError RunOutcome :=
    .error (.spawn failing.id source)
  have returns : Goes failing (middle.programs failing.id, middle.world)
      (next result,
        { middle.world with
          log := middle.world.log ++ [.returned failing.id result] }) := by
    rw [inside]
    exact goes_call ⟨.first, result⟩ rfl .refl
  obtain ⟨moves, ran⟩ := run_of_goes isTask returns
  refine ⟨middle, moves, _, entering.reachable, ran,
    entering.reads failing isTask, ?_, ?_, ?_⟩
  · intro id depends
    obtain ⟨_, direct, _⟩ := Relation.TransGen.head'_iff.mp depends
    obtain ⟨config, isConfig, rfl, _⟩ := direct
    exact entering.entered config ((members config).mpr isConfig)
  · exact List.mem_append_right _ List.mem_cons_self
  · intro other member
    rcases List.mem_append.mp member with earlier | last
    · exact absurd earlier (entering.noneReturned _ _)
    · injection List.mem_singleton.mp last

/-- The two services of the test of `stop_all`. -/
def stuckServices : List ServiceConfig :=
  [⟨"never-ready", ["/nonexistent-machined-test-binary"], [], .never⟩,
    ⟨"stuck", ["true"], ["never-ready"], .never⟩]

theorem spawn_failure_releases_dependents_neverReady :
    ∃ middle, (supervision stuckServices).Reachable middle ∧
      Reads middle.world.objects "never-ready" .running ∧
      .entered "stuck" ∈ middle.world.log := by
  have accepted : startAll stuckServices = .ok stuckServices := by
    decide +kernel
  obtain ⟨middle, _, _, reachable, _, reads, entered, _⟩ :=
    spawn_failure_releases_dependents accepted List.mem_cons_self
      "No such file or directory"
  have depends : DependsOn stuckServices "stuck" "never-ready" :=
    ⟨_, List.mem_cons_of_mem _ List.mem_cons_self, rfl, List.mem_cons_self⟩
  exact ⟨middle, reachable, reads, entered "stuck" (.single depends)⟩

def spawnFails : TaskChoice :=
  ⟨.first, .error (.spawn "never-ready" "No such file or directory")⟩

/-- The spawn of `never-ready` has failed, its status still reads `Running`, and
`stuck` has been entered. -/
theorem spawn_failure_releases_stuck :
    startAll stuckServices = .ok stuckServices ∧
      ∃ state, (supervision stuckServices).Reachable state ∧
        (state.world.objects.lookup (serviceKey "never-ready")).map
            ResourceObject.spec =
          some (.serviceStatus ⟨"never-ready", .running, true, "running"⟩) ∧
        .entered "stuck" ∈ state.world.log ∧
        .returned "never-ready" spawnFails.result ∈ state.world.log := by
  let moves : List SupervisionMove :=
    List.replicate 10 (.task
        ⟨"never-ready", ["/nonexistent-machined-test-binary"], [], .never⟩
        spawnFails) ++
      List.replicate 12
        (.task ⟨"stuck", ["true"], ["never-ready"], .never⟩ spawnFails) ++
      List.replicate 2 (.task
        ⟨"never-ready", ["/nonexistent-machined-test-binary"], [], .never⟩
        spawnFails)
  have computed : ((supervision stuckServices).run
      ⟨⟨∅, [], []⟩, fun _ => .done .head⟩ moves).map (fun state =>
        decide ((state.world.objects.lookup (serviceKey "never-ready")).map
            ResourceObject.spec =
          some (.serviceStatus ⟨"never-ready", .running, true, "running"⟩) ∧
        .entered "stuck" ∈ state.world.log ∧
        .returned "never-ready" spawnFails.result ∈ state.world.log)) =
      some true := by
    decide +kernel
  obtain ⟨state, ran, holds⟩ := Option.map_eq_some_iff.mp computed
  exact ⟨by decide +kernel, state, ⟨_, moves, ⟨rfl, rfl⟩, ran⟩,
    of_decide_eq_true holds⟩

end MachinedRs
