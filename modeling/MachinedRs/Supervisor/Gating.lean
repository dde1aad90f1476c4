import MachinedRs.Foundation.History
import MachinedRs.RuntimeCore.EventLog
import MachinedRs.Supervisor.Service

/-!
# Services start after their dependencies

A task passes its gate when it has read every dependency as ready, and a status
that reads ready was preceded by `Running`.  Each task is the only writer of its
own status, so none of its publications is lost.  What a task knows about others
is only that they have run, and that does not change any more.
-/

namespace MachinedRs

open Foundation

/-- A run of a service and its announcement come after its dependencies ran. -/
def Justified (tasks : List ServiceConfig) (log : List Mark) : Prop :=
  Each (fun before mark => ∀ config ∈ tasks,
    mark.Announces config.id .running ∨ mark = .entered config.id →
      ∀ dep ∈ config.dependsOn, Ran before dep) log

structure Supervised.Gated (tasks : List ServiceConfig) (world : Supervised) :
    Prop where
  keyed : State.WellKeyed world.objects
  shown : ∀ id object spec,
    world.objects.lookup (serviceKey id) = some object →
      object.spec = .serviceStatus spec →
        spec.state = .running ∨ spec.state = .finished → Ran world.log id
  justified : Justified tasks world.log

/-- What the other parties do between two operations of a task. -/
structure Interferes (tasks : List ServiceConfig) (id : String)
    (before after : Supervised) : Prop where
  gated : before.Gated tasks → after.Gated tasks
  log : before.log <+: after.log
  stopping : before.stopping ⊆ after.stopping
  own : after.objects.lookup (serviceKey id) =
    before.objects.lookup (serviceKey id)

theorem Interferes.refl (tasks : List ServiceConfig) (id : String)
    (world : Supervised) : Interferes tasks id world world :=
  ⟨fun gated => gated, List.prefix_rfl, fun _ member => member, rfl⟩

theorem Interferes.trans {tasks : List ServiceConfig} {id : String}
    {first second third : Supervised}
    (moved : Interferes tasks id first second)
    (movedAgain : Interferes tasks id second third) :
    Interferes tasks id first third :=
  ⟨fun gated => movedAgain.gated (moved.gated gated),
    moved.log.trans movedAgain.log,
    fun _ member => movedAgain.stopping (moved.stopping member),
    movedAgain.own.trans moved.own⟩

/-- A task among the others. -/
def gateSetting (tasks : List ServiceConfig) (id : String) :
    Setting superviseSignature Supervised :=
  { perform := fun world operation answer after =>
      ∃ choice, taskMachine.perform world operation choice =
        some (answer, after)
    rely := Interferes tasks id
    invariant := Supervised.Gated tasks
    rely_refl := Interferes.refl tasks id
    rely_trans := Interferes.trans }

theorem serviceKey_injective {id other : String}
    (same : serviceKey id = serviceKey other) : id = other := by
  injection same

theorem Ran.mono {before after : List Mark} {id : String}
    (ran : Ran before id) (grows : before <+: after) : Ran after id := by
  obtain ⟨mark, member, announces⟩ := ran
  exact ⟨mark, grows.subset member, announces⟩

section Perform

variable {world : Supervised} {choice : TaskChoice}

theorem perform_get (key : Key) :
    taskMachine.perform world (.inl (.get key)) choice =
      some (State.get world.objects key, world) := by
  change some (State.get world.objects key,
    { world with log := world.log ++ [] }) = _
  rw [List.append_nil]

theorem perform_update {key : Key} {object : ResourceObject}
    (stored : world.objects.lookup key = some object) (spec : Resource) :
    taskMachine.perform world
        (.inl (.update key object.metadata.version spec)) choice =
      some (.ok (),
        { world with
          objects := world.objects.insert key (object.withSpec spec).bump
          log := world.log ++
            [.sent ⟨.updated, (object.withSpec spec).bump⟩] }) := by
  have succeeds : State.update world.objects key object.metadata.version
      spec = State.replace world.objects key (object.withSpec spec).bump () := by
    simp [State.update, stored]
  change some ((State.update world.objects key _ spec).result,
    { world with
      objects := (State.update world.objects key _ spec).objects
      log := world.log ++
        (State.update world.objects key _ spec).emits.map Mark.sent }) = _
  rw [succeeds]
  rfl

theorem perform_create {object : ResourceObject}
    (absent : world.objects.lookup object.key = none) :
    taskMachine.perform world (.inl (.create object)) choice =
      some (.ok (),
        { world with
          objects := world.objects.insert object.key object.fresh
          log := world.log ++ [.sent ⟨.created, object.fresh⟩] }) := by
  have missing : object.key ∉ world.objects := Finmap.lookup_eq_none.mp absent
  have succeeds : State.create world.objects object =
      ⟨.ok (), world.objects.insert object.key object.fresh,
        [⟨.created, object.fresh⟩]⟩ :=
    if_neg missing
  change some ((State.create world.objects object).result,
    { world with
      objects := (State.create world.objects object).objects
      log := world.log ++
        (State.create world.objects object).emits.map Mark.sent }) = _
  rw [succeeds]
  rfl

/-- Whatever a task does, the log grows and no stop intent is taken back. -/
theorem perform_grows {operation : superviseSignature.Op}
    {answer : superviseSignature.Answer operation} {after : Supervised}
    (performed : taskMachine.perform world operation choice =
      some (answer, after)) :
    world.log <+: after.log ∧ world.stopping ⊆ after.stopping := by
  match operation with
  | .inl operation =>
      obtain ⟨value, _, same⟩ := Option.map_eq_some_iff.mp performed
      cases same
      exact ⟨List.prefix_append _ _, fun _ member => member⟩
  | .inr (.stopping id) =>
      cases performed
      exact ⟨List.prefix_rfl, fun _ member => member⟩
  | .inr .select =>
      cases performed
      exact ⟨List.prefix_rfl, fun _ member => member⟩
  | .inr (.enter id) =>
      cases performed
      exact ⟨List.prefix_append _ _, fun _ member => member⟩
  | .inr (.returned id) =>
      cases performed
      exact ⟨List.prefix_append _ _, fun _ member => member⟩

end Perform

theorem publishThen_bind {α β : Type} (id : String) (state : ServiceState)
    (healthy : Bool) (message : String)
    (next : Program superviseSignature α)
    (rest : α → Program superviseSignature β) :
    (publishThen id state healthy message next).bind rest =
      publishThen id state healthy message (next.bind rest) :=
  Program.bind_assoc _ _ _

section Gate

variable {tasks : List ServiceConfig} {config : ServiceConfig}
  {world after : Supervised}

/-- A status that reads ready was preceded by `Running`. -/
theorem Supervised.Gated.ran_of_ready (gated : world.Gated tasks)
    {dep : String}
    (ready : isReady (State.get world.objects (serviceKey dep)) = true) :
    Ran world.log dep := by
  cases stored : world.objects.lookup (serviceKey dep) with
  | none => simp [isReady, State.get, stored] at ready
  | some object =>
      simp only [isReady, State.get, stored] at ready
      split at ready
      · rename_i spec isStatus
        apply gated.shown dep object spec stored isStatus
        rw [Bool.or_eq_true, Bool.and_eq_true, decide_eq_true_iff,
          decide_eq_true_iff] at ready
        rcases ready with ⟨running, _⟩ | finished
        · exact .inl running
        · exact .inr finished
      · cases ready

/-- A task publishes: `Running` after its dependencies ran, and `Finished` after
`Running`. -/
theorem Supervised.Gated.announce (gated : world.Gated tasks)
    (distinct : (tasks.map (·.id)).Nodup) (isTask : config ∈ tasks)
    {kind : EventKind} {object : ResourceObject} {spec : ServiceStatusSpec}
    (alive : kind ≠ .destroyed) (own : object.key = serviceKey config.id)
    (isStatus : object.spec = .serviceStatus spec)
    (running : spec.state = .running →
      ∀ dep ∈ config.dependsOn, Ran world.log dep)
    (finished : spec.state = .finished → Ran world.log config.id) :
    Supervised.Gated tasks
      { world with
        objects := world.objects.insert (serviceKey config.id) object
        log := world.log ++ [.sent ⟨kind, object⟩] } := by
  have grows : world.log <+: world.log ++ [.sent ⟨kind, object⟩] :=
    List.prefix_append _ _
  refine ⟨?_, ?_, ?_⟩
  · intro key other stored
    by_cases same : key = serviceKey config.id
    · subst same
      rw [Finmap.lookup_insert] at stored
      cases stored
      exact own
    · rw [Finmap.lookup_insert_of_ne _ same] at stored
      exact gated.keyed key other stored
  · intro id other otherSpec stored isOther reads
    by_cases same : id = config.id
    · subst same
      rw [Finmap.lookup_insert] at stored
      cases stored
      rw [isStatus] at isOther
      cases isOther
      rcases reads with isRunning | isFinished
      · exact ⟨_, List.mem_append_right _ List.mem_cons_self,
          alive, own, spec, isStatus, isRunning⟩
      · exact (finished isFinished).mono grows
    · rw [Finmap.lookup_insert_of_ne _ fun equal =>
        same (serviceKey_injective equal)] at stored
      exact (gated.shown id other otherSpec stored isOther reads).mono grows
  · apply gated.justified.concat
    rintro other isOther (announces | entered)
    · obtain ⟨_, otherKey, otherSpec, isSpec, isRunning⟩ := announces
      have same : other = config :=
        List.inj_on_of_nodup_map distinct isOther isTask
          (serviceKey_injective (otherKey.symm.trans own))
      rw [isStatus] at isSpec
      cases isSpec
      rw [same]
      exact running isRunning
    · cases entered

/-- A mark that only records something keeps the gate, if it is justified. -/
theorem Supervised.Gated.record {mark : Mark} (gated : world.Gated tasks)
    (justifies : ∀ other ∈ tasks,
      mark.Announces other.id .running ∨ mark = .entered other.id →
        ∀ dep ∈ other.dependsOn, Ran world.log dep) :
    Supervised.Gated tasks { world with log := world.log ++ [mark] } := by
  refine ⟨gated.keyed, ?_, gated.justified.concat justifies⟩
  intro id object spec stored isStatus reads
  exact (gated.shown id object spec stored isStatus reads).mono
    (List.prefix_append _ _)

theorem Supervised.Gated.enter (gated : world.Gated tasks)
    (distinct : (tasks.map (·.id)).Nodup) (isTask : config ∈ tasks)
    (ran : ∀ dep ∈ config.dependsOn, Ran world.log dep) :
    Supervised.Gated tasks
      { world with log := world.log ++ [.entered config.id] } := by
  apply gated.record
  rintro other isOther (announces | entered)
  · exact announces.elim
  · injection entered with same
    rw [← List.inj_on_of_nodup_map distinct isTask isOther same]
    exact ran

theorem Supervised.Gated.returned (gated : world.Gated tasks) (id : String)
    (result : Except RunnerError RunOutcome) :
    Supervised.Gated tasks
      { world with log := world.log ++ [.returned id result] } := by
  apply gated.record
  rintro other isOther (announces | entered)
  · exact announces.elim
  · cases entered

/-- What holds from now on, as seen by a task. -/
structure Later (tasks : List ServiceConfig) (world after : Supervised) :
    Prop where
  gated : after.Gated tasks
  log : world.log <+: after.log
  stopping : world.stopping ⊆ after.stopping

theorem Later.trans {third : Supervised} (later : Later tasks world after)
    (last : Later tasks after third) : Later tasks world third :=
  ⟨last.gated, later.log.trans last.log,
    fun _ member => last.stopping (later.stopping member)⟩

theorem Interferes.later {id : String}
    (moved : Interferes tasks id world after) (gated : world.Gated tasks) :
    Later tasks world after :=
  ⟨moved.gated gated, moved.log, moved.stopping⟩

/-- A task that has passed its gate knows that its dependencies ran, or it is
being stopped. -/
def Reached (config : ServiceConfig) (stage : TaskStage)
    (world : Supervised) : Prop :=
  stage = .admitted →
    (∀ dep ∈ config.dependsOn, Ran world.log dep) ∨
      config.id ∈ world.stopping

theorem Reached.later {stage : TaskStage}
    (reached : Reached config stage world)
    (later : Later tasks world after) : Reached config stage after := by
  intro admitted
  rcases reached admitted with ran | stopping
  · exact .inl fun dep member => (ran dep member).mono later.log
  · exact .inr (later.stopping stopping)

theorem gate_done {stage : TaskStage} (gated : world.Gated tasks)
    (reached : Reached config stage world) :
    (gateSetting tasks config.id).Protected (Reached config)
      (.done stage) world := by
  intro later moved
  exact ⟨moved.gated gated, reached.later (moved.later gated)⟩

theorem gate_call {operation : superviseSignature.Op}
    {next : superviseSignature.Answer operation →
      Program superviseSignature TaskStage}
    (gated : world.Gated tasks)
    (goesOn : ∀ later choice answer after,
      Interferes tasks config.id world later → Later tasks world later →
        taskMachine.perform later operation choice = some (answer, after) →
          (gateSetting tasks config.id).Protected (Reached config)
            (next answer) after) :
    (gateSetting tasks config.id).Protected (Reached config)
      (.call operation next) world := by
  intro later moved
  refine ⟨moved.gated gated, ?_⟩
  rintro answer after ⟨choice, performed⟩
  exact goesOn later choice answer after moved (moved.later gated) performed

/-- A publication is not lost, since nobody else writes the status. -/
theorem publishThen_protected (distinct : (tasks.map (·.id)).Nodup)
    (isTask : config ∈ tasks) (gated : world.Gated tasks)
    {state : ServiceState} {healthy : Bool} {message : String}
    {next : Program superviseSignature TaskStage}
    (running : state = .running →
      ∀ dep ∈ config.dependsOn, Ran world.log dep)
    (finished : state = .finished → Ran world.log config.id)
    (goesOn : ∀ after, Later tasks world after →
      (state = .running → Ran after.log config.id) →
        (gateSetting tasks config.id).Protected (Reached config)
          next after) :
    (gateSetting tasks config.id).Protected (Reached config)
      (publishThen config.id state healthy message next) world := by
  let spec : ServiceStatusSpec := ⟨config.id, state, healthy, message⟩
  have announced : ∀ (last : Supervised) (kind : EventKind)
      (object : ResourceObject), Later tasks world last →
      kind ≠ .destroyed → object.key = serviceKey config.id →
      object.spec = .serviceStatus spec →
      (gateSetting tasks config.id).Protected (Reached config) next
        { last with
          objects := last.objects.insert (serviceKey config.id) object
          log := last.log ++ [.sent ⟨kind, object⟩] } := by
    intro last kind object later alive own isStatus
    have grows : last.log <+: last.log ++ [.sent ⟨kind, object⟩] :=
      List.prefix_append _ _
    have stillGated := later.gated.announce distinct isTask alive own isStatus
      (fun isRunning dep member =>
        (running isRunning dep member).mono later.log)
      (fun isFinished => (finished isFinished).mono later.log)
    apply goesOn
    · exact later.trans ⟨stillGated, grows, fun _ member => member⟩
    · intro isRunning
      exact ⟨_, List.mem_append_right _ List.mem_cons_self, alive, own, spec,
        isStatus, isRunning⟩
  apply gate_call gated
  intro later choice found after moved isLater performed
  rw [perform_get] at performed
  cases performed
  cases stored : later.objects.lookup (serviceKey config.id) with
  | some object =>
      simp only [State.get, stored]
      apply gate_call isLater.gated
      intro last choice updated after movedAgain isLast performed
      have still := movedAgain.own.trans stored
      rw [perform_update still] at performed
      cases performed
      exact announced last .updated _ (isLater.trans isLast) (by decide)
        (isLater.gated.keyed _ object stored) rfl
  | none =>
      simp only [State.get, stored]
      apply gate_call isLater.gated
      intro last choice created after movedAgain isLast performed
      have still := movedAgain.own.trans stored
      rw [perform_create (by exact still)] at performed
      cases performed
      exact announced last .created _ (isLater.trans isLast) (by decide) rfl
        rfl

/-- The readiness of all dependencies, read one after the other. -/
theorem allReady_protected {deps : List String} (gated : world.Gated tasks)
    {next : Bool → Program superviseSignature TaskStage}
    (goesOn : ∀ ready after, Later tasks world after →
      (ready = true → ∀ dep ∈ deps, Ran after.log dep) →
        (gateSetting tasks config.id).Protected (Reached config)
          (next ready) after) :
    (gateSetting tasks config.id).Protected (Reached config)
      ((allReady deps).inl.bind next) world := by
  induction deps generalizing world with
  | nil =>
      exact goesOn true world
        ((Interferes.refl tasks config.id world).later gated) nofun
  | cons dep deps induction =>
      apply gate_call gated
      intro later choice found after moved isLater performed
      rw [perform_get] at performed
      cases performed
      cases ready : isReady (State.get later.objects (serviceKey dep)) with
      | false =>
          simp only [ready]
          exact goesOn false later isLater nofun
      | true =>
          simp only [ready]
          have ran := isLater.gated.ran_of_ready ready
          apply induction isLater.gated
          intro all last isLast allRan
          apply goesOn all last (isLater.trans isLast)
          intro isAll other member
          rcases List.mem_cons.mp member with rfl | inRest
          · exact ran.mono isLast.log
          · exact allRan isAll other inRest

theorem pendingDeps_protected {deps : List String} (gated : world.Gated tasks)
    {next : List String → Program superviseSignature TaskStage}
    (goesOn : ∀ pending after, Later tasks world after →
      (gateSetting tasks config.id).Protected (Reached config)
        (next pending) after) :
    (gateSetting tasks config.id).Protected (Reached config)
      ((pendingDeps deps).inl.bind next) world := by
  induction deps generalizing world next with
  | nil =>
      exact goesOn [] world
        ((Interferes.refl tasks config.id world).later gated)
  | cons dep deps induction =>
      apply gate_call gated
      intro later choice found after moved isLater performed
      rw [perform_get] at performed
      cases performed
      simp only [Program.inl_bind, Program.bind_assoc]
      apply induction isLater.gated
      intro pending last isLast
      exact goesOn _ last (isLater.trans isLast)

section Stages

variable (distinct : (tasks.map (·.id)).Nodup) (isTask : config ∈ tasks)

include distinct isTask

theorem unlessStopping_protected (gated : world.Gated tasks)
    {message : String} {next : Program superviseSignature TaskStage}
    (goesOn : ∀ later, Later tasks world later →
      config.id ∉ later.stopping →
        (gateSetting tasks config.id).Protected (Reached config)
          next later) :
    (gateSetting tasks config.id).Protected (Reached config)
      (unlessStopping config.id message next) world := by
  apply gate_call gated
  intro later choice stopping after moved isLater performed
  cases performed
  by_cases isStopping : config.id ∈ later.stopping
  · simp only [isStopping, decide_true, if_true]
    refine publishThen_protected distinct isTask isLater.gated nofun nofun ?_
    intro last isLast _
    exact gate_done isLast.gated nofun
  · simp only [isStopping, decide_false]
    exact goesOn later isLater isStopping

omit distinct isTask in
theorem pollStop_protected (gated : world.Gated tasks)
    {stopped waits : TaskStage} (notYet : waits ≠ .admitted) :
    (gateSetting tasks config.id).Protected (Reached config)
      (pollStop config.id stopped waits) world := by
  apply gate_call gated
  intro later choice stopping after moved isLater performed
  cases performed
  apply gate_done isLater.gated
  intro admitted
  by_cases isStopping : config.id ∈ later.stopping
  · exact .inr isStopping
  · simp only [isStopping, decide_false] at admitted
    exact absurd admitted notYet

theorem waitForDeps_protected (gated : world.Gated tasks)
    (ticks : Option Nat) :
    (gateSetting tasks config.id).Protected (Reached config)
      (waitForDeps config.id config.dependsOn ticks) world := by
  cases ticks with
  | none =>
      rw [waitForDeps]
      split
      · rename_i isEmpty
        apply gate_done gated
        intro _
        rw [List.isEmpty_iff.mp isEmpty]
        exact .inl nofun
      · apply allReady_protected gated
        intro ready after later ran
        cases ready with
        | true => exact gate_done later.gated fun _ => .inl (ran rfl)
        | false =>
            refine publishThen_protected distinct isTask later.gated nofun nofun ?_
            intro last isLast _
            exact gate_done isLast.gated nofun
  | some ticks =>
      rw [waitForDeps]
      apply allReady_protected gated
      intro ready after later ran
      cases ready with
      | true => exact gate_done later.gated fun _ => .inl (ran rfl)
      | false =>
          rw [if_neg Bool.false_ne_true]
          split
          · apply pendingDeps_protected later.gated
            intro pending last isLast
            exact gate_done isLast.gated nofun
          · exact gate_done later.gated nofun

/-- From the gate on: the dependencies have run, so `Running` may be published
and the runner entered. -/
theorem runService_protected (gated : world.Gated tasks)
    (ran : ∀ dep ∈ config.dependsOn, Ran world.log dep)
    {next : RunOutcome → Program superviseSignature TaskStage}
    (goesOn : ∀ outcome after, Later tasks world after →
      (gateSetting tasks config.id).Protected (Reached config)
        (next outcome) after) :
    (gateSetting tasks config.id).Protected (Reached config)
      ((runService config.id).bind next) world := by
  simp only [runService, publishThen_bind, Program.call_bind]
  refine publishThen_protected distinct isTask gated nofun nofun ?_
  intro prepared isPrepared _
  refine publishThen_protected distinct isTask isPrepared.gated
    (fun _ dep member => (ran dep member).mono isPrepared.log) nofun ?_
  intro running isRunning announced
  have begun := isPrepared.trans isRunning
  have announced := announced rfl
  apply gate_call begun.gated
  intro entering choice _ after moved isEntering performed
  cases performed
  have entered := isEntering.gated.enter distinct isTask fun dep member =>
    (ran dep member).mono (begun.log.trans isEntering.log)
  have inside : Later tasks running
      { entering with log := entering.log ++ [.entered config.id] } :=
    isEntering.trans ⟨entered, List.prefix_append _ _, fun _ member => member⟩
  apply gate_call inside.gated
  intro ended choice answer after moved isEnded performed
  obtain ⟨branch, result⟩ := choice
  cases performed
  have returned := isEnded.gated.returned config.id result
  have outside : Later tasks running
      { ended with log := ended.log ++ [.returned config.id result] } :=
    (inside.trans isEnded).trans
      ⟨returned, List.prefix_append _ _, fun _ member => member⟩
  have ranOnce := announced.mono outside.log
  cases result with
  | ok outcome =>
      simp only [publishResult, publishThen_bind, Program.done_bind]
      refine publishThen_protected distinct isTask outside.gated ?_
        (fun _ => ranOnce) ?_
      · intro isRunning
        cases outcome with
        | _ => cases isRunning
      · intro last isLast _
        exact goesOn outcome last ((begun.trans outside).trans isLast)
  | error error =>
      simp only [publishResult, publishThen_bind, Program.done_bind]
      refine publishThen_protected distinct isTask outside.gated nofun nofun ?_
      intro last isLast _
      exact goesOn .failure last ((begun.trans outside).trans isLast)

theorem runSupervised_protected (gated : world.Gated tasks)
    {stage : TaskStage} (reached : Reached config stage world) :
    (gateSetting tasks config.id).Protected (Reached config)
      (runSupervised config stage) world := by
  cases stage with
  | head =>
      apply unlessStopping_protected distinct isTask gated
      intro later isLater _
      exact gate_done isLater.gated nofun
  | gate ticks =>
      apply gate_call gated
      intro later choice branch after moved isLater performed
      cases performed
      cases choice.branch with
      | first => exact waitForDeps_protected distinct isTask isLater.gated ticks
      | second => exact pollStop_protected isLater.gated nofun
  | admitted =>
      apply unlessStopping_protected distinct isTask gated
      intro later isLater notStopping
      have ran : ∀ dep ∈ config.dependsOn, Ran later.log dep := by
        rcases reached.later isLater rfl with ran | stopping
        · exact ran
        · exact absurd stopping notStopping
      apply runService_protected distinct isTask isLater.gated ran
      intro outcome after isAfter
      apply unlessStopping_protected distinct isTask isAfter.gated
      intro last isLast _
      apply gate_done isLast.gated
      intro admitted
      split at admitted
      · cases admitted
      · cases admitted
  | backoff =>
      apply gate_call gated
      intro later choice branch after moved isLater performed
      cases performed
      cases choice.branch with
      | first => exact gate_done isLater.gated nofun
      | second => exact pollStop_protected isLater.gated nofun
  | finished => exact gate_done gated nofun

end Stages

end Gate

/-- A task writes no status but its own. -/
def OwnStatus (id : String) : superviseSignature.Op → Prop
  | .inl operation => operation.Writes (· = serviceKey id)
  | .inr _ => True

section Only

theorem publishThen_only {α : Type} (id : String) (state : ServiceState)
    (healthy : Bool) (message : String)
    {next : Program superviseSignature α} (only : next.Only (OwnStatus id)) :
    (publishThen id state healthy message next).Only (OwnStatus id) := by
  have own : (publishStatus id state healthy message).Only
      fun (operation : Op) => operation.Writes (· = serviceKey id) := by
    refine ⟨trivial, ?_⟩
    intro existing
    cases existing with
    | ok object =>
        refine ⟨?_, fun _ => trivial⟩
        intro key same
        exact (Option.some.inj same).symm
    | error error =>
        refine ⟨?_, fun _ => trivial⟩
        intro key same
        exact (Option.some.inj same).symm
  exact own.inl.bind fun _ => only

theorem allReady_only (deps : List String) (allowed : Key → Prop) :
    (allReady deps).Only fun (operation : Op) => operation.Writes allowed := by
  induction deps with
  | nil => exact trivial
  | cons dep deps induction =>
      refine ⟨trivial, ?_⟩
      intro found
      dsimp only
      split
      · exact induction
      · exact trivial

theorem pendingDeps_only (deps : List String) (allowed : Key → Prop) :
    (pendingDeps deps).Only fun (operation : Op) => operation.Writes allowed := by
  induction deps with
  | nil => exact trivial
  | cons dep deps induction =>
      refine ⟨trivial, ?_⟩
      intro found
      exact induction.bind fun _ => trivial

theorem unlessStopping_only (id message : String)
    {next : Program superviseSignature TaskStage}
    (only : next.Only (OwnStatus id)) :
    (unlessStopping id message next).Only (OwnStatus id) := by
  refine ⟨trivial, ?_⟩
  intro stopping
  dsimp only
  split
  · exact publishThen_only id _ _ _ trivial
  · exact only

theorem waitForDeps_only (id : String) (deps : List String)
    (ticks : Option Nat) :
    (waitForDeps id deps ticks).Only (OwnStatus id) := by
  have reads : ((allReady deps).inl : Program superviseSignature _).Only
      (OwnStatus id) :=
    (allReady_only deps _).inl
  have pending : ((pendingDeps deps).inl : Program superviseSignature _).Only
      (OwnStatus id) :=
    (pendingDeps_only deps _).inl
  cases ticks with
  | none =>
      rw [waitForDeps]
      split
      · exact trivial
      · refine reads.bind ?_
        intro ready
        split
        · exact trivial
        · exact publishThen_only id _ _ _ trivial
  | some ticks =>
      rw [waitForDeps]
      refine reads.bind ?_
      intro ready
      split
      · exact trivial
      · split
        · exact pending.bind fun _ => trivial
        · exact trivial

theorem runService_only (id : String) :
    (runService id).Only (OwnStatus id) := by
  apply publishThen_only
  apply publishThen_only
  refine ⟨trivial, fun _ => ⟨trivial, ?_⟩⟩
  intro result
  cases result with
  | ok outcome => exact publishThen_only id _ _ _ trivial
  | error error => exact publishThen_only id _ _ _ trivial

theorem runSupervised_only (config : ServiceConfig) (stage : TaskStage) :
    (runSupervised config stage).Only (OwnStatus config.id) := by
  cases stage with
  | head => exact unlessStopping_only _ _ trivial
  | gate ticks =>
      refine ⟨trivial, ?_⟩
      intro branch
      cases branch with
      | first => exact waitForDeps_only _ _ ticks
      | second => exact ⟨trivial, fun _ => trivial⟩
  | admitted =>
      apply unlessStopping_only
      apply (runService_only config.id).bind
      intro outcome
      exact unlessStopping_only _ _ trivial
  | backoff =>
      refine ⟨trivial, ?_⟩
      intro branch
      cases branch with
      | first => exact trivial
      | second => exact ⟨trivial, fun _ => trivial⟩
  | finished => exact trivial

end Only

/-- Every task is protected from the others. -/
structure Supervision.Safe (tasks : List ServiceConfig)
    (state : Supervision) : Prop where
  gated : state.world.Gated tasks
  safe : ∀ config ∈ tasks, (gateSetting tasks config.id).Protected
    (Reached config) (state.programs config.id) state.world
  only : ∀ config ∈ tasks,
    (state.programs config.id).Only (OwnStatus config.id)

section Steps

variable {tasks : List ServiceConfig} {state next : Supervision}

/-- What a task does is interference to the other tasks. -/
theorem interferes_of_perform {id other : String} {world after : Supervised}
    {operation : superviseSignature.Op}
    {answer : superviseSignature.Answer operation} {choice : TaskChoice}
    (own : OwnStatus id operation)
    (performed : taskMachine.perform world operation choice =
      some (answer, after))
    (gated : after.Gated tasks) (different : other ≠ id) :
    Interferes tasks other world after := by
  obtain ⟨log, stopping⟩ := perform_grows performed
  refine ⟨fun _ => gated, log, stopping, ?_⟩
  match operation with
  | .inl operation =>
      obtain ⟨value, _, same⟩ := Option.map_eq_some_iff.mp performed
      cases same
      exact (Op.Writes.outside own world.objects _ fun equal =>
        different (serviceKey_injective equal)).symm
  | .inr (.stopping id) =>
      cases performed
      rfl
  | .inr .select =>
      cases performed
      rfl
  | .inr (.enter id) =>
      cases performed
      rfl
  | .inr (.returned id) =>
      cases performed
      rfl

/-- One move of a task keeps it protected and is interference to the others. -/
theorem advance_safe (distinct : (tasks.map (·.id)).Nodup)
    {config : ServiceConfig} (isTask : config ∈ tasks)
    {program moved : Program superviseSignature TaskStage}
    {world after : Supervised} {choice : TaskChoice}
    (safe : (gateSetting tasks config.id).Protected (Reached config)
      program world)
    (only : program.Only (OwnStatus config.id))
    (stepped : Supervision.advance config program world choice =
      some (moved, after)) :
    (gateSetting tasks config.id).Protected (Reached config) moved after ∧
      moved.Only (OwnStatus config.id) ∧
      ∀ other, other ≠ config.id → Interferes tasks other world after := by
  cases program with
  | done stage =>
      have gated : world.Gated tasks := safe.holds
      have reached : Reached config stage world := safe.finished
      have begins : moved = runSupervised config stage ∧ after = world := by
        cases stage with
        | finished => cases stepped
        | _ =>
            cases stepped
            exact ⟨rfl, rfl⟩
      obtain ⟨rfl, rfl⟩ := begins
      exact ⟨runSupervised_protected distinct isTask gated reached,
        runSupervised_only config stage,
        fun other _ => Interferes.refl tasks other _⟩
  | call operation rest =>
      obtain ⟨⟨answer, final⟩, performed, same⟩ :=
        Option.map_eq_some_iff.mp stepped
      cases same
      have advanced := safe.advance ⟨choice, performed⟩
      refine ⟨advanced, only.2 answer, ?_⟩
      intro other different
      exact interferes_of_perform only.1 performed advanced.holds different

theorem Supervision.Safe.task (distinct : (tasks.map (·.id)).Nodup)
    (safe : state.Safe tasks) {config : ServiceConfig} {choice : TaskChoice}
    (stepped : state.step tasks (.task config choice) = some next) :
    next.Safe tasks := by
  obtain ⟨isTask, advanced⟩ := Option.ite_none_right_eq_some.mp stepped
  obtain ⟨⟨program, after⟩, moved, rfl⟩ := Option.map_eq_some_iff.mp advanced
  obtain ⟨still, only, others⟩ := advance_safe distinct isTask
    (safe.safe config isTask) (safe.only config isTask) moved
  have each : ∀ other ∈ tasks,
      (gateSetting tasks other.id).Protected (Reached other)
          (Function.update state.programs config.id program other.id) after ∧
        (Function.update state.programs config.id program other.id).Only
          (OwnStatus other.id) := by
    intro other isOther
    by_cases same : other.id = config.id
    · have equal := List.inj_on_of_nodup_map distinct isOther isTask same
      subst equal
      rw [Function.update_self]
      exact ⟨still, only⟩
    · rw [Function.update_of_ne same]
      exact ⟨(safe.safe other isOther).interfere (others other.id same),
        safe.only other isOther⟩
  exact ⟨still.holds, fun other isOther => (each other isOther).1,
    fun other isOther => (each other isOther).2⟩

/-- A change of the world that is interference to all tasks. -/
theorem Supervision.Safe.interfere (safe : state.Safe tasks)
    {after : Supervised}
    (moved : ∀ id, Interferes tasks id state.world after) :
    Supervision.Safe tasks { state with world := after } :=
  ⟨(moved "").gated safe.gated,
    fun config isTask => (safe.safe config isTask).interfere (moved config.id),
    safe.only⟩

theorem Op.writes_of_sparesStatus {operation : Op}
    (spares : operation.sparesStatus = true) :
    operation.Writes fun key => key.typ ≠ .serviceStatus := by
  cases operation with
  | get key => exact trivial
  | list ns typ =>
      intro key same
      cases same
  | _ =>
      intro key same
      cases same
      exact of_decide_eq_true spares

/-- Others change no status, so nothing they do announces a service. -/
theorem Supervised.Gated.other {world : Supervised}
    (gated : world.Gated tasks) {operation : Op}
    (spares : operation.sparesStatus = true) :
    Supervised.Gated tasks
      { world with
        objects := operation.after world.objects
        log := world.log ++ (operation.emits world.objects).map .sent } := by
  have outside := (Op.writes_of_sparesStatus spares).outside world.objects
  refine ⟨gated.keyed.after operation, ?_, ?_⟩
  · intro id object spec stored isStatus reads
    have before : world.objects.lookup (serviceKey id) = some object :=
      (outside (serviceKey id) fun other => other rfl).trans stored
    exact (gated.shown id object spec before isStatus reads).mono
      (List.prefix_append _ _)
  · apply gated.justified.append
    intro mark member before config isTask concerns
    obtain ⟨event, sent, rfl⟩ := List.mem_map.mp member
    rcases concerns with ⟨_, own, _⟩ | entered
    · have changed := (operation.effect world.objects).lookup_ne_of_mem
        gated.keyed sent
      rw [own] at changed
      exact absurd (outside (serviceKey config.id) fun other => other rfl).symm
        changed
    · cases entered

theorem Supervision.Safe.step (distinct : (tasks.map (·.id)).Nodup)
    (safe : state.Safe tasks) {move : SupervisionMove}
    (stepped : state.step tasks move = some next) : next.Safe tasks := by
  cases move with
  | task config choice => exact safe.task distinct stepped
  | stop id =>
      cases stepped
      apply safe.interfere
      intro other
      exact ⟨fun gated => ⟨gated.keyed, gated.shown, gated.justified⟩,
        List.prefix_rfl, fun _ member => List.mem_cons_of_mem _ member, rfl⟩
  | other operation =>
      obtain ⟨spares, same⟩ := Option.ite_none_right_eq_some.mp stepped
      cases same
      apply safe.interfere
      intro id
      refine ⟨fun gated => gated.other spares, List.prefix_append _ _,
        fun _ member => member, ?_⟩
      exact ((Op.writes_of_sparesStatus spares).outside state.world.objects
        (serviceKey id) fun other => other rfl).symm

theorem Supervision.safe_of_initial
    (initial : (supervision tasks).Initial state) : state.Safe tasks := by
  obtain ⟨world, programs⟩ := state
  obtain ⟨isEmpty, atHead⟩ := initial
  cases isEmpty
  cases atHead
  have gated : Supervised.Gated tasks ⟨∅, [], []⟩ := by
    refine ⟨State.wellKeyed_empty, ?_, Each.nil⟩
    intro id object spec stored
    rw [Finmap.lookup_empty] at stored
    cases stored
  exact ⟨gated, fun _ _ => gate_done gated nofun, fun _ _ => trivial⟩

end Steps

/-- In a justified log the whole chain of dependencies precedes a run. -/
theorem Justified.transitive {services tasks : List ServiceConfig}
    (members : ∀ service, service ∈ tasks ↔ service ∈ services)
    {log : List Mark} (justified : Justified tasks log) {id dep : String}
    (depends : Relation.TransGen (DependsOn services) id dep) :
    ∀ before mark after, log = before ++ mark :: after →
      mark.Announces id .running ∨ mark = .entered id → Ran before dep := by
  induction depends using Relation.TransGen.head_induction_on with
  | single direct =>
      intro before mark after split concerns
      obtain ⟨config, isService, rfl, isDep⟩ := direct
      exact justified before mark after split config
        ((members config).mpr isService) concerns _ isDep
  | head direct _ induction =>
      intro before mark after split concerns
      obtain ⟨config, isService, rfl, isDep⟩ := direct
      obtain ⟨earlier, member, announces⟩ := justified before mark after split
        config ((members config).mpr isService) concerns _ isDep
      obtain ⟨first, second, rfl⟩ := List.append_of_mem member
      have ran := induction first earlier (second ++ mark :: after)
        (by rw [split, List.append_assoc, List.cons_append]) (.inl announces)
      exact ran.mono (List.prefix_append _ _)

/-- Whenever `runner.run` is entered for a service, every service it depends on,
directly or not, has published `Running` before. -/
theorem entered_after_dependencies_ran {services tasks : List ServiceConfig}
    (accepted : startAll services = .ok tasks) {state : Supervision}
    (reachable : (supervision tasks).Reachable state)
    {before after : List Mark} {id dep : String}
    (entered : state.world.log = before ++ .entered id :: after)
    (depends : Relation.TransGen (DependsOn services) id dep) :
    ∃ mark ∈ before, mark.Announces dep .running := by
  obtain ⟨ordered, members⟩ := startAll_spec accepted
  have perm := (startOrder_spec ordered).2.1
  have distinct : (tasks.map (·.id)).Nodup :=
    perm.nodup_iff.mpr (startOrder_spec ordered).1
  have safe : state.Safe tasks :=
    reachable.invariant (fun _ initial => Supervision.safe_of_initial initial)
      fun _ _ _ stepped safe => safe.step distinct stepped
  exact safe.gated.justified.transitive members depends before _ after
    entered (.inr rfl)

def chainServices : List ServiceConfig :=
  [⟨"app", ["app"], ["db"], .never⟩, ⟨"db", ["db"], ["net"], .always⟩,
    ⟨"net", ["net"], [], .never⟩]

/-- `app` is entered once `db` and `net` are. -/
theorem entered_after_dependencies_ran_chain :
    ∃ state before after, (supervision chainServices.reverse).Reachable state ∧
      state.world.log = before ++ .entered "app" :: after ∧
      ∃ mark ∈ before, mark.Announces "net" .running := by
  let move (config : ServiceConfig) : SupervisionMove :=
    .task config ⟨.first, .ok .success⟩
  let moves : List SupervisionMove :=
    List.replicate 11 (move ⟨"net", ["net"], [], .never⟩) ++
      List.replicate 12 (move ⟨"db", ["db"], ["net"], .always⟩) ++
      List.replicate 12 (move ⟨"app", ["app"], ["db"], .never⟩)
  have accepted : startAll chainServices = .ok chainServices.reverse := by
    decide +kernel
  have computed : ((supervision chainServices.reverse).run
      ⟨⟨∅, [], []⟩, fun _ => .done .head⟩ moves).map
        (fun state => state.world.log.getLast?) =
          some (some (.entered "app")) := by
    decide +kernel
  obtain ⟨state, ran, last⟩ := Option.map_eq_some_iff.mp computed
  obtain ⟨before, split⟩ := List.getLast?_eq_some_iff.mp last
  have reachable : (supervision chainServices.reverse).Reachable state :=
    ⟨_, moves, ⟨rfl, rfl⟩, ran⟩
  have direct : DependsOn chainServices "app" "db" :=
    ⟨_, List.mem_cons_self, rfl, List.mem_cons_self⟩
  have further : DependsOn chainServices "db" "net" :=
    ⟨_, List.mem_cons_of_mem _ List.mem_cons_self, rfl, List.mem_cons_self⟩
  exact ⟨state, before, [], reachable, split,
    entered_after_dependencies_ran accepted reachable split
      (.head direct (.single further))⟩

end MachinedRs
