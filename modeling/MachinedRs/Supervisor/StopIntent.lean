import MachinedRs.Supervisor.Gating

/-!
# A stop intent is final

A task looks at its stop intent before it waits, before it runs the service and
after the run.  So a stop intent that is set at any moment lets at most the run
through that has passed its check already.  One task is watched here, and what
the others do is left open: they may change the store in any way, and with it
the readiness of the dependencies, but they do not write the status of this
service.
-/

namespace MachinedRs.StopIntent

open Foundation

/-- What happens to a task that matters for its stop intent. -/
inductive Moment where
  /-- The stop intent is set. -/
  | stopSet
  /-- `stop.load`, with what it gave. -/
  | checked (stopping : Bool)
  /-- `runner.run` is entered. -/
  | entered
  /-- The store took a new status of the service. -/
  | published (state : ServiceState)
  /-- `run_supervised` returns. -/
  | returned
deriving DecidableEq, Repr

/-- The state of the service that an event announces. -/
def announced (id : String) (event : Event) : Option ServiceState :=
  if event.kind ≠ .destroyed ∧ event.object.key = serviceKey id then
    match event.object.spec with
    | .serviceStatus spec => some spec.state
    | _ => none
  else
    none

def momentsOf (id : String) (world : Supervised) :
    superviseSignature.Op → List Moment
  | .inl operation =>
      ((Op.emits world.objects operation).filterMap (announced id)).map
        .published
  | .inr (.stopping other) => [.checked (decide (other ∈ world.stopping))]
  | .inr .select => []
  | .inr (.enter _) => [.entered]
  | .inr (.returned _) => []

/-- What the next move of the task amounts to. -/
def nextMoments (id : String) (world : Supervised) :
    Program superviseSignature TaskStage → List Moment
  | .done _ => []
  | .call operation _ => momentsOf id world operation

def ending : Program superviseSignature TaskStage → List Moment
  | .done .finished => [.returned]
  | _ => []

/-- What a task works on, and what has happened to it. -/
structure Watch where
  world : Supervised
  history : List Moment

structure Watched extends Watch where
  program : Program superviseSignature TaskStage

inductive Move where
  | task (choice : TaskChoice)
  /-- `stop_all` sets the stop intent of a service. -/
  | stop (id : String)
  /-- Somebody else works on the store. -/
  | other (operation : Op)

/-- The operation does not change the status of the service. -/
def leavesStatus (id : String) : Op → Bool
  | .get _ => true
  | operation => operation.key? ≠ some (serviceKey id)

def Watched.step (config : ServiceConfig) (state : Watched) :
    Move → Option Watched
  | .task choice =>
      (Supervision.advance config state.program state.world choice).map
        fun (program, after) =>
          { world := after
            history := state.history ++
              nextMoments config.id state.world state.program ++
                ending program
            program := program }
  | .stop id =>
      some { state with
        world := { state.world with
          stopping := id :: state.world.stopping }
        history := state.history ++
          if id = config.id then [.stopSet] else [] }
  | .other operation =>
      if leavesStatus config.id operation then
        some { state with
          world := { state.world with
            objects := operation.after state.world.objects
            log := state.world.log ++
              (operation.emits state.world.objects).map .sent } }
      else
        none

/-- One task over any store, with the stop intent not yet set. -/
def watched (config : ServiceConfig) : System Watched Move :=
  { Initial := fun state =>
      State.WellKeyed state.world.objects ∧
        config.id ∉ state.world.stopping ∧ state.history = [] ∧
          state.program = .done .head
    step := Watched.step config }

def Moment.status? : Moment → Option ServiceState
  | .published state => some state
  | _ => none

/-- The status that was published last. -/
def lastStatus (history : List Moment) : Option ServiceState :=
  (history.filterMap Moment.status?).getLast?

/-- The stop intent was set between these two parts, and that was only after
the check that followed the last run. -/
def SetLate (before after : List Moment) : Prop :=
  ∃ earlier between later : List Moment,
    before = earlier ++ .entered :: (between ++ .checked false :: later) ∧
      (∀ stopping, .checked stopping ∉ between) ∧
        .entered ∉ between ++ later ++ after

/-- Nothing that the task decides. -/
def Moment.Quiet : Moment → Prop
  | .stopSet => True
  | .published _ => True
  | _ => False

/-- Nothing happened but that the stop intent was set. -/
abbrev Stops (before after : List Moment) : Prop :=
  GrowsBy (· = .stopSet) before after

/-- Nothing happened that the task decides. -/
abbrev Calm (before after : List Moment) : Prop :=
  GrowsBy Moment.Quiet before after

/-- The task has found no stop intent, and it is about to run. -/
def Opened (history : List Moment) : Prop :=
  ∃ before : List Moment, .stopSet ∉ before ∧
    Calm (before ++ [.checked false]) history

/-- The task has entered its runner and not looked at the stop intent since. -/
def Running (history : List Moment) : Prop :=
  ∃ before, Calm (before ++ [.entered]) history

/-- The check after the last run has found no stop intent. -/
def Closed (history : List Moment) : Prop :=
  ∃ ran : List Moment, Running ran ∧ .stopSet ∉ ran ∧
    Stops (ran ++ [.checked false]) history

/-- The task may return. -/
def Returnable (history : List Moment) : Prop :=
  lastStatus history = some .stopped ∨ Closed history

/-- When a task does what. -/
def Allowed (before : List Moment) : Moment → Prop
  | .stopSet => True
  | .checked stopping => stopping = true ↔ .stopSet ∈ before
  | .entered => Opened before ∧ .returned ∉ before
  | .published _ => .returned ∉ before
  | .returned => Returnable before

section History

variable {history before middle after : List Moment} {state : ServiceState}

theorem Stops.calm (stops : Stops before after) : Calm before after := by
  apply stops.mono
  rintro moment rfl
  exact trivial

theorem Opened.calm (opened : Opened before) (calm : Calm before after) :
    Opened after := by
  obtain ⟨first, unset, since⟩ := opened
  exact ⟨first, unset, since.trans calm⟩

theorem Running.calm (running : Running before) (calm : Calm before after) :
    Running after := by
  obtain ⟨first, since⟩ := running
  exact ⟨first, since.trans calm⟩

theorem Closed.stops (closed : Closed before) (stops : Stops before after) :
    Closed after := by
  obtain ⟨ran, running, unset, since⟩ := closed
  exact ⟨ran, running, unset, since.trans stops⟩

theorem Calm.not_returned (calm : Calm before after)
    (unreturned : .returned ∉ before) : .returned ∉ after :=
  calm.not_mem id unreturned

theorem lastStatus_append (history : List Moment)
    (silent : ∀ state, .published state ∉ after) :
    lastStatus (history ++ after) = lastStatus history := by
  have none : after.filterMap Moment.status? = [] := by
    apply List.filterMap_eq_nil_iff.mpr
    intro moment member
    cases moment with
    | published state => exact absurd member (silent state)
    | _ => rfl
  rw [lastStatus, List.filterMap_append, none, List.append_nil]
  rfl

theorem lastStatus_publish (history : List Moment) (state : ServiceState) :
    lastStatus (history ++ [.published state]) = some state := by
  rw [lastStatus, List.filterMap_append]
  exact List.getLast?_concat

theorem Returnable.stops (returnable : Returnable before)
    (stops : Stops before after) : Returnable after := by
  rcases returnable with isStopped | closed
  · obtain ⟨rest, rfl, only⟩ := stops
    refine .inl (Eq.trans (lastStatus_append before ?_) isStopped)
    intro state member
    cases only _ member
  · exact .inr (closed.stops stops)

theorem split_of_unset {first rest later : List Moment} {moment : Moment}
    (split : before ++ .stopSet :: later = first ++ moment :: rest)
    (unset : .stopSet ∉ first ++ [moment]) :
    ∃ between, before = first ++ moment :: between ∧
      rest = between ++ .stopSet :: later := by
  rcases List.append_eq_append_iff.mp split with
    ⟨between, rfl, same⟩ | ⟨between, rfl, same⟩
  · cases between with
    | nil =>
        obtain ⟨rfl, _⟩ := List.cons.inj same
        simp at unset
    | cons head between =>
        obtain ⟨rfl, _⟩ := List.cons.inj same
        simp at unset
  · cases between with
    | nil =>
        obtain ⟨rfl, _⟩ := List.cons.inj same
        simp at unset
    | cons head between =>
        obtain ⟨rfl, rfl⟩ := List.cons.inj same
        exact ⟨between, rfl, rfl⟩

end History

/-- The record is right about the stop intent, and all of it was allowed. -/
structure Watch.Sound (id : String) (watch : Watch) : Prop where
  keyed : State.WellKeyed watch.world.objects
  honest : id ∈ watch.world.stopping ↔ .stopSet ∈ watch.history
  allowed : Each Allowed watch.history

/-- What the other parties do between two operations of the task. -/
structure Disturbs (id : String) (before after : Watch) : Prop where
  sound : before.Sound id → after.Sound id
  own : after.world.objects.lookup (serviceKey id) =
    before.world.objects.lookup (serviceKey id)
  stops : Stops before.history after.history

theorem Disturbs.refl (id : String) (watch : Watch) :
    Disturbs id watch watch :=
  ⟨fun sound => sound, rfl, GrowsBy.refl _ _⟩

theorem Disturbs.trans {id : String} {first second third : Watch}
    (moved : Disturbs id first second)
    (movedAgain : Disturbs id second third) : Disturbs id first third :=
  ⟨fun sound => movedAgain.sound (moved.sound sound),
    movedAgain.own.trans moved.own, moved.stops.trans movedAgain.stops⟩

/-- The task among the others. -/
def watchSetting (id : String) : Setting superviseSignature Watch :=
  { perform := fun watch operation answer after =>
      (∃ choice, taskMachine.perform watch.world operation choice =
        some (answer, after.world)) ∧
        after.history = watch.history ++ momentsOf id watch.world operation
    rely := Disturbs id
    invariant := Watch.Sound id
    rely_refl := Disturbs.refl id
    rely_trans := Disturbs.trans }

/-- A stage ends before the task returns, and the last one with good reason. -/
def StageEnds (stage : TaskStage) (watch : Watch) : Prop :=
  .returned ∉ watch.history ∧ (stage = .finished → Returnable watch.history)

section Stages

variable {id : String} {watch : Watch}

theorem Watch.Sound.concat {world : Supervised} {moment : Moment}
    (sound : watch.Sound id) (keyed : State.WellKeyed world.objects)
    (same : world.stopping = watch.world.stopping)
    (allowed : Allowed watch.history moment) (other : moment ≠ .stopSet) :
    Watch.Sound id ⟨world, watch.history ++ [moment]⟩ := by
  refine ⟨keyed, ?_, sound.allowed.concat allowed⟩
  rw [same, sound.honest, List.mem_append, List.mem_singleton]
  simp [other.symm]

theorem watch_done {stage : TaskStage} (sound : watch.Sound id)
    (ends : StageEnds stage watch) :
    (watchSetting id).Protected StageEnds (.done stage) watch := by
  intro later moved
  refine ⟨moved.sound sound, moved.stops.calm.not_returned ends.1, ?_⟩
  intro isFinished
  exact (ends.2 isFinished).stops moved.stops

theorem watch_call {operation : superviseSignature.Op}
    {next : superviseSignature.Answer operation →
      Program superviseSignature TaskStage}
    (sound : watch.Sound id)
    (goesOn : ∀ later choice answer world, Disturbs id watch later →
      later.Sound id →
        taskMachine.perform later.world operation choice =
          some (answer, world) →
          (watchSetting id).Protected StageEnds (next answer)
            ⟨world, later.history ++ momentsOf id later.world operation⟩) :
    (watchSetting id).Protected StageEnds (.call operation next) watch := by
  intro later moved
  refine ⟨moved.sound sound, ?_⟩
  rintro answer ⟨world, history⟩ ⟨⟨choice, performed⟩, rfl⟩
  exact goesOn later choice answer world moved (moved.sound sound) performed

theorem reading_watched {α : Type} {program : Program stateSignature α}
    (reads : program.Only fun (operation : Op) =>
      operation.Writes fun _ => False)
    (sound : watch.Sound id)
    {next : α → Program superviseSignature TaskStage}
    (goesOn : ∀ value after, after.Sound id →
      Stops watch.history after.history →
        (watchSetting id).Protected StageEnds (next value) after) :
    (watchSetting id).Protected StageEnds (program.inl.bind next) watch := by
  induction program generalizing watch with
  | done value => exact goesOn value watch sound (GrowsBy.refl _ _)
  | call operation following induction =>
      apply watch_call sound
      intro later choice answer world moved isSound performed
      obtain ⟨value, _, same⟩ := Option.map_eq_some_iff.mp performed
      cases same
      have unnoticed : momentsOf id later.world (.inl operation) = [] := by
        cases operation with
        | get key => rfl
        | list ns typ => rfl
        | create object => exact (reads.1 _ rfl).elim
        | _ => exact (reads.1 _ rfl).elim
      rw [unnoticed, List.append_nil]
      apply induction _ (reads.2 _)
      · exact ⟨isSound.keyed.after operation, isSound.honest, isSound.allowed⟩
      · intro value after afterSound stops
        exact goesOn value after afterSound (moved.stops.trans stops)

theorem perform_store {world after : Supervised} {operation : Op}
    {choice : TaskChoice} {answer : operation.Answer}
    (performed : taskMachine.perform world (.inl operation) choice =
      some (answer, after)) :
    after.objects = operation.after world.objects ∧
      after.stopping = world.stopping := by
  obtain ⟨value, _, same⟩ := Option.map_eq_some_iff.mp performed
  cases same
  exact ⟨rfl, rfl⟩

theorem perform_task {world after : Supervised} {operation : TaskOp}
    {choice : TaskChoice} {answer : operation.Answer}
    (performed : taskMachine.perform world (.inr operation) choice =
      some (answer, after)) :
    after.objects = world.objects ∧ after.stopping = world.stopping := by
  cases operation with
  | _ =>
      cases performed
      exact ⟨rfl, rfl⟩

theorem moments_update {world : Supervised} {object : ResourceObject}
    (stored : world.objects.lookup (serviceKey id) = some object)
    (own : object.key = serviceKey id) (spec : ServiceStatusSpec) :
    momentsOf id world (.inl (.update (serviceKey id)
      object.metadata.version (.serviceStatus spec))) =
        [.published spec.state] := by
  have emits : (Op.update (serviceKey id) object.metadata.version
      (.serviceStatus spec)).emits world.objects =
        [⟨.updated, (object.withSpec (.serviceStatus spec)).bump⟩] := by
    change (State.update world.objects _ _ _).emits = _
    simp [State.update, stored, State.replace]
  have shows : announced id
      ⟨.updated, (object.withSpec (.serviceStatus spec)).bump⟩ =
        some spec.state :=
    if_pos ⟨by simp, own⟩
  simp [momentsOf, emits, shows]

theorem moments_create {world : Supervised}
    (absent : world.objects.lookup (serviceKey id) = none)
    (spec : ServiceStatusSpec) :
    momentsOf id world (.inl (.create
      (.new "runtime" id (.serviceStatus spec)))) =
        [.published spec.state] := by
  let object := ResourceObject.new "runtime" id (.serviceStatus spec)
  have missing : object.key ∉ world.objects := Finmap.lookup_eq_none.mp absent
  have emits : (Op.create object).emits world.objects =
      [⟨.created, object.fresh⟩] :=
    congrArg Commit.emits (if_neg missing)
  have shows : announced id ⟨.created, object.fresh⟩ = some spec.state :=
    if_pos ⟨by simp, rfl⟩
  simp only [momentsOf]
  rw [emits]
  simp [shows]

theorem publishThen_watched (sound : watch.Sound id)
    (unreturned : .returned ∉ watch.history)
    {state : ServiceState} {healthy : Bool} {message : String}
    {next : Program superviseSignature TaskStage}
    (goesOn : ∀ after, after.Sound id → Calm watch.history after.history →
      lastStatus after.history = some state →
        (watchSetting id).Protected StageEnds next after) :
    (watchSetting id).Protected StageEnds
      (publishThen id state healthy message next) watch := by
  have announces : ∀ (last : Watch) (operation : Op) (choice : TaskChoice)
      (answer : operation.Answer) (world : Supervised),
      last.Sound id → Stops watch.history last.history →
      taskMachine.perform last.world (.inl operation) choice =
        some (answer, world) →
      momentsOf id last.world (.inl operation) = [.published state] →
      (watchSetting id).Protected StageEnds next
        ⟨world, last.history ++ momentsOf id last.world (.inl operation)⟩ := by
    intro last operation choice answer world isSound stops performed moments
    obtain ⟨objects, stopping⟩ := perform_store performed
    have keyed : State.WellKeyed world.objects := by
      rw [objects]
      exact isSound.keyed.after operation
    rw [moments]
    refine goesOn _ ?_ (stops.calm.concat trivial)
      (lastStatus_publish last.history state)
    exact isSound.concat keyed stopping (stops.calm.not_returned unreturned)
      nofun
  apply watch_call sound
  intro later choice found world moved isSound performed
  rw [perform_get] at performed
  cases performed
  have unnoticed : momentsOf id later.world (.inl (.get (serviceKey id))) =
      [] :=
    rfl
  rw [unnoticed, List.append_nil]
  cases stored : later.world.objects.lookup (serviceKey id) with
  | some object =>
      simp only [State.get, stored]
      apply watch_call isSound
      intro last choice updated world movedAgain isSound performed
      have still := movedAgain.own.trans stored
      exact announces last _ choice updated world isSound
        (moved.stops.trans movedAgain.stops) performed
        (moments_update still (isSound.keyed _ object still) _)
  | none =>
      simp only [State.get, stored]
      apply watch_call isSound
      intro last choice created world movedAgain isSound performed
      have still := movedAgain.own.trans stored
      exact announces last _ choice created world isSound
        (moved.stops.trans movedAgain.stops) performed
        (moments_create still _)

theorem check_watched (sound : watch.Sound id)
    (unreturned : .returned ∉ watch.history)
    {next : Bool → Program superviseSignature TaskStage}
    (goesOn : ∀ stopping after middle, after.Sound id →
      .returned ∉ after.history → Stops watch.history middle →
        (stopping = true ↔ .stopSet ∈ middle) →
          after.history = middle ++ [.checked stopping] →
            (watchSetting id).Protected StageEnds (next stopping) after) :
    (watchSetting id).Protected StageEnds
      (.call (.inr (.stopping id)) next) watch := by
  apply watch_call sound
  intro later choice stopping world moved isSound performed
  cases performed
  have honest : decide (id ∈ later.world.stopping) = true ↔
      .stopSet ∈ later.history :=
    decide_eq_true_iff.trans isSound.honest
  have stillUnreturned := moved.stops.calm.not_returned unreturned
  refine goesOn _ _ later.history ?_ ?_ moved.stops honest rfl
  · exact isSound.concat isSound.keyed rfl honest (by simp)
  · simp [momentsOf, stillUnreturned]

theorem stage_done {stage : TaskStage} (sound : watch.Sound id)
    (unreturned : .returned ∉ watch.history)
    (unfinished : stage ≠ .finished) :
    (watchSetting id).Protected StageEnds (.done stage) watch :=
  watch_done sound
    ⟨unreturned, fun isFinished => absurd isFinished unfinished⟩

theorem unlessStopping_watched (sound : watch.Sound id)
    (unreturned : .returned ∉ watch.history) {message : String}
    {next : Program superviseSignature TaskStage}
    (goesOn : ∀ after middle, after.Sound id → .returned ∉ after.history →
      Stops watch.history middle → .stopSet ∉ middle →
        after.history = middle ++ [.checked false] →
          (watchSetting id).Protected StageEnds next after) :
    (watchSetting id).Protected StageEnds
      (unlessStopping id message next) watch := by
  apply check_watched sound unreturned
  intro stopping after middle afterSound afterUnreturned stops honest history
  cases stopping with
  | true =>
      apply publishThen_watched afterSound afterUnreturned
      intro last lastSound calm isStopped
      exact watch_done lastSound ⟨calm.not_returned afterUnreturned,
        fun _ => .inl isStopped⟩
  | false =>
      apply goesOn after middle afterSound afterUnreturned stops _ history
      intro isSet
      exact Bool.false_ne_true (honest.mpr isSet)

theorem pollStop_watched (sound : watch.Sound id)
    (unreturned : .returned ∉ watch.history) {stopped waits : TaskStage}
    (goesOn : stopped ≠ .finished) (goesBack : waits ≠ .finished) :
    (watchSetting id).Protected StageEnds (pollStop id stopped waits)
      watch := by
  apply check_watched sound unreturned
  intro stopping after middle afterSound afterUnreturned _ _ _
  cases stopping with
  | true => exact stage_done afterSound afterUnreturned goesOn
  | false => exact stage_done afterSound afterUnreturned goesBack

theorem select_watched (sound : watch.Sound id)
    (unreturned : .returned ∉ watch.history)
    {next : Branch → Program superviseSignature TaskStage}
    (goesOn : ∀ branch after, after.Sound id → .returned ∉ after.history →
      (watchSetting id).Protected StageEnds (next branch) after) :
    (watchSetting id).Protected StageEnds (.call (.inr .select) next)
      watch := by
  apply watch_call sound
  intro later choice branch world moved isSound performed
  cases performed
  have unnoticed : momentsOf id later.world (.inr .select) = [] := rfl
  rw [unnoticed, List.append_nil]
  exact goesOn choice.branch later isSound
    (moved.stops.calm.not_returned unreturned)

theorem waitForDeps_watched (sound : watch.Sound id)
    (unreturned : .returned ∉ watch.history) (deps : List String)
    (ticks : Option Nat) :
    (watchSetting id).Protected StageEnds (waitForDeps id deps ticks)
      watch := by
  cases ticks with
  | none =>
      rw [waitForDeps]
      split
      · exact stage_done sound unreturned (by simp)
      · apply reading_watched (allReady_only deps _) sound
        intro ready after afterSound stops
        have stillUnreturned := stops.calm.not_returned unreturned
        cases ready with
        | true => exact stage_done afterSound stillUnreturned (by simp)
        | false =>
            apply publishThen_watched afterSound stillUnreturned
            intro last lastSound calm _
            exact stage_done lastSound (calm.not_returned stillUnreturned)
              (by simp)
  | some ticks =>
      rw [waitForDeps]
      apply reading_watched (allReady_only deps _) sound
      intro ready after afterSound stops
      have stillUnreturned := stops.calm.not_returned unreturned
      cases ready with
      | true => exact stage_done afterSound stillUnreturned (by simp)
      | false =>
          rw [if_neg Bool.false_ne_true]
          split
          · apply reading_watched (pendingDeps_only deps _) afterSound
            intro pending last lastSound stops
            exact stage_done lastSound
              (stops.calm.not_returned stillUnreturned) (by simp)
          · exact stage_done afterSound stillUnreturned (by simp)

theorem exists_publishResult_bind (id : String)
    (result : Except RunnerError RunOutcome)
    (next : RunOutcome → Program superviseSignature TaskStage) :
    ∃ state healthy message outcome,
      (publishResult id result).bind next =
        publishThen id state healthy message (next outcome) := by
  cases result with
  | ok outcome => exact ⟨_, _, _, outcome, publishThen_bind _ _ _ _ _ _⟩
  | error error => exact ⟨_, _, _, .failure, publishThen_bind _ _ _ _ _ _⟩

theorem runService_watched (sound : watch.Sound id)
    (unreturned : .returned ∉ watch.history) (opened : Opened watch.history)
    {next : RunOutcome → Program superviseSignature TaskStage}
    (goesOn : ∀ outcome after, after.Sound id →
      .returned ∉ after.history → Running after.history →
        (watchSetting id).Protected StageEnds (next outcome) after) :
    (watchSetting id).Protected StageEnds ((runService id).bind next)
      watch := by
  simp only [runService, publishThen_bind, Program.call_bind]
  apply publishThen_watched sound unreturned
  intro prepared preparedSound preparing _
  apply publishThen_watched preparedSound (preparing.not_returned unreturned)
  intro running runningSound announcing _
  apply watch_call runningSound
  intro entering choice _ world moved enteringSound performed
  cases performed
  have calm : Calm watch.history entering.history :=
    (preparing.trans announcing).trans moved.stops.calm
  have enteringUnreturned := calm.not_returned unreturned
  have entered : Watch.Sound id
      ⟨{ entering.world with log := entering.world.log ++ [.entered id] },
        entering.history ++ [.entered]⟩ :=
    enteringSound.concat enteringSound.keyed rfl
      ⟨opened.calm calm, enteringUnreturned⟩ (by simp)
  apply watch_call entered
  intro ended choice answer world moved endedSound performed
  obtain ⟨branch, result⟩ := choice
  cases performed
  have isRunning : Running ended.history :=
    ⟨entering.history, moved.stops.calm⟩
  have endedUnreturned : .returned ∉ ended.history :=
    moved.stops.calm.not_returned (by simp [enteringUnreturned])
  have unnoticed : momentsOf id ended.world (.inr (.returned id)) = [] :=
    rfl
  rw [unnoticed, List.append_nil]
  have returned : Watch.Sound id
      ⟨{ ended.world with log := ended.world.log ++ [.returned id result] },
        ended.history⟩ :=
    ⟨endedSound.keyed, endedSound.honest, endedSound.allowed⟩
  obtain ⟨state, healthy, message, outcome, publishes⟩ :=
    exists_publishResult_bind id result next
  change (watchSetting id).Protected StageEnds
    ((publishResult id result).bind next) _
  rw [publishes]
  apply publishThen_watched returned endedUnreturned
  intro last lastSound publishing _
  exact goesOn outcome last lastSound
    (publishing.not_returned endedUnreturned) (isRunning.calm publishing)

theorem runSupervised_watched (config : ServiceConfig)
    (sound : watch.Sound config.id)
    (unreturned : .returned ∉ watch.history) {stage : TaskStage}
    (unfinished : stage ≠ .finished) :
    (watchSetting config.id).Protected StageEnds (runSupervised config stage)
      watch := by
  cases stage with
  | head =>
      apply unlessStopping_watched sound unreturned
      intro after middle afterSound afterUnreturned stops unset isHistory
      exact stage_done afterSound afterUnreturned nofun
  | gate ticks =>
      apply select_watched sound unreturned
      intro branch later isSound stillUnreturned
      cases branch with
      | first =>
          exact waitForDeps_watched isSound stillUnreturned config.dependsOn
            ticks
      | second => exact pollStop_watched isSound stillUnreturned nofun nofun
  | admitted =>
      apply unlessStopping_watched sound unreturned
      intro after middle afterSound afterUnreturned stops unset isHistory
      have opened : Opened after.history := by
        rw [isHistory]
        exact ⟨middle, unset, GrowsBy.refl _ _⟩
      apply runService_watched afterSound afterUnreturned opened
      intro outcome ran ranSound ranUnreturned running
      apply unlessStopping_watched ranSound ranUnreturned
      intro last middle lastSound lastUnreturned stops unset isHistory
      have closed : Closed last.history := by
        rw [isHistory]
        exact ⟨middle, running.calm stops.calm, unset, GrowsBy.refl _ _⟩
      exact watch_done lastSound ⟨lastUnreturned, fun _ => .inr closed⟩
  | backoff =>
      apply select_watched sound unreturned
      intro branch later isSound stillUnreturned
      cases branch with
      | first => exact stage_done isSound stillUnreturned nofun
      | second => exact pollStop_watched isSound stillUnreturned nofun nofun
  | finished => exact absurd rfl unfinished

end Stages

/-- The task is on its way, or it has returned. -/
structure Watched.Safe (config : ServiceConfig) (state : Watched) : Prop where
  sound : state.Sound config.id
  safe : state.program ≠ .done .finished →
    (watchSetting config.id).Protected StageEnds state.program state.toWatch

section Steps

variable {config : ServiceConfig} {state next : Watched}

theorem Watched.safe_of_protected {watch : Watch}
    {program : Program superviseSignature TaskStage}
    (going : (watchSetting config.id).Protected StageEnds program watch) :
    Watched.Safe config
      { world := watch.world
        history := watch.history ++ ending program
        program := program } := by
  have unended (same : ending program = []) : Watched.Safe config
      { world := watch.world
        history := watch.history ++ ending program
        program := program } := by
    rw [same, List.append_nil]
    exact ⟨going.holds, fun _ => going⟩
  cases program with
  | call operation next => exact unended rfl
  | done stage =>
      cases stage with
      | finished =>
          refine ⟨?_, fun unfinished => absurd rfl unfinished⟩
          have sound := going.holds
          exact sound.concat sound.keyed rfl (going.finished.2 rfl) nofun
      | _ => exact unended rfl

theorem Watched.Safe.task (safe : state.Safe config) {choice : TaskChoice}
    {program : Program superviseSignature TaskStage} {world : Supervised}
    (advanced : Supervision.advance config state.program state.world choice =
      some (program, world)) :
    Watched.Safe config
      { world := world
        history := state.history ++
          nextMoments config.id state.world state.program ++ ending program
        program := program } := by
  obtain ⟨watch, current⟩ := state
  cases current with
  | done stage =>
      by_cases isFinished : stage = .finished
      · subst isFinished
        cases advanced
      · have begins : some (runSupervised config stage, watch.world) =
            some (program, world) := by
          rw [← advanced]
          cases stage with
          | finished => exact absurd rfl isFinished
          | _ => rfl
        cases begins
        have going := safe.safe (by simp [isFinished])
        have begun : (watchSetting config.id).Protected StageEnds
            (runSupervised config stage)
            ⟨watch.world, watch.history ++ []⟩ := by
          rw [List.append_nil]
          exact runSupervised_watched config safe.sound going.finished.1
            isFinished
        exact Watched.safe_of_protected begun
  | call operation next =>
      obtain ⟨⟨answer, after⟩, performed, same⟩ :=
        Option.map_eq_some_iff.mp advanced
      cases same
      have going : (watchSetting config.id).Protected StageEnds (next answer)
          ⟨world, watch.history ++
            momentsOf config.id watch.world operation⟩ :=
        (safe.safe nofun).advance ⟨⟨choice, performed⟩, rfl⟩
      exact Watched.safe_of_protected going

theorem Watched.Safe.disturb (safe : state.Safe config)
    (moved : Disturbs config.id state.toWatch next.toWatch)
    (same : next.program = state.program) : next.Safe config := by
  refine ⟨moved.sound safe.sound, ?_⟩
  rw [same]
  intro unfinished
  exact (safe.safe unfinished).interfere moved

theorem writes_of_leavesStatus {id : String} {operation : Op}
    (leaves : leavesStatus id operation = true) :
    operation.Writes (· ≠ serviceKey id) := by
  cases operation with
  | get key => exact trivial
  | list ns typ => exact nofun
  | _ =>
      intro key same isOwn
      subst isOwn
      exact of_decide_eq_true leaves same

theorem Watched.Safe.step (safe : state.Safe config) {move : Move}
    (stepped : state.step config move = some next) : next.Safe config := by
  cases move with
  | task choice =>
      obtain ⟨⟨program, world⟩, advanced, rfl⟩ :=
        Option.map_eq_some_iff.mp stepped
      exact safe.task advanced
  | stop id =>
      cases stepped
      by_cases own : id = config.id
      · rw [if_pos own]
        refine safe.disturb ⟨?_, rfl, [.stopSet], rfl, ?_⟩ rfl
        · intro sound
          refine ⟨sound.keyed, ?_, sound.allowed.concat trivial⟩
          simp [own]
        · intro moment member
          exact List.mem_singleton.mp member
      · rw [if_neg own, List.append_nil]
        refine safe.disturb ⟨?_, rfl, GrowsBy.refl _ _⟩ rfl
        intro sound
        refine ⟨sound.keyed, ?_, sound.allowed⟩
        rw [List.mem_cons, sound.honest]
        exact or_iff_right (Ne.symm own)
  | other operation =>
      obtain ⟨leaves, same⟩ := Option.ite_none_right_eq_some.mp stepped
      cases same
      refine safe.disturb ⟨?_, ?_, GrowsBy.refl _ _⟩ rfl
      · intro sound
        exact ⟨sound.keyed.after operation, sound.honest, sound.allowed⟩
      · exact ((writes_of_leavesStatus leaves).outside state.world.objects
          (serviceKey config.id) fun other => other rfl).symm

theorem Watched.safe_of_initial (initial : (watched config).Initial state) :
    state.Safe config := by
  obtain ⟨⟨world, history⟩, program⟩ := state
  obtain ⟨keyed, unset, isEmpty, atHead⟩ := initial
  cases isEmpty
  cases atHead
  have sound : Watch.Sound config.id ⟨world, []⟩ :=
    ⟨keyed, iff_of_false unset nofun, Each.nil⟩
  exact ⟨sound, fun _ => stage_done sound nofun nofun⟩

end Steps

section Final

variable {history before after : List Moment}

theorem quiet_until_entered (allowed : Each Allowed history)
    {between later : List Moment}
    (split : history = before ++ .stopSet :: (between ++ .entered :: later)) :
    ∀ moment ∈ between, moment.Quiet := by
  obtain ⟨⟨first, unset, rest, same, quiet⟩, _⟩ :=
    allowed (before ++ .stopSet :: between) .entered later (by simp [split])
  rw [List.append_assoc] at same
  obtain ⟨gap, _, rfl⟩ := split_of_unset same (by simp [unset])
  intro moment member
  exact quiet moment (by simp [member])

theorem count_entered_le_one (allowed : Each Allowed history)
    (split : history = before ++ .stopSet :: after) :
    after.count .entered ≤ 1 := by
  by_cases runs : .entered ∈ after
  · obtain ⟨between, later, rfl, first⟩ := List.eq_append_cons_of_mem runs
    have last : .entered ∉ later := by
      intro again
      obtain ⟨second, rest, rfl⟩ := List.append_of_mem again
      have splitAgain : history = before ++ .stopSet ::
          ((between ++ .entered :: second) ++ .entered :: rest) := by
        simp [split]
      exact quiet_until_entered allowed splitAgain .entered (by simp)
    simp [List.count_eq_zero_of_not_mem first,
      List.count_eq_zero_of_not_mem last]
  · rw [List.count_eq_zero_of_not_mem runs]
    exact Nat.zero_le 1

theorem not_entered_after_check (allowed : Each Allowed history)
    {between rest : List Moment} {stopping : Bool}
    (split : history =
      before ++ .stopSet :: (between ++ .checked stopping :: rest)) :
    .entered ∉ rest := by
  intro runs
  obtain ⟨middle, later, rfl⟩ := List.append_of_mem runs
  have splitAgain : history = before ++ .stopSet ::
      ((between ++ .checked stopping :: middle) ++ .entered :: later) := by
    simp [split]
  exact quiet_until_entered allowed splitAgain (.checked stopping) (by simp)

theorem silent_after_returned (allowed : Each Allowed history)
    (split : history = before ++ .returned :: after) :
    .entered ∉ after ∧ ∀ state, .published state ∉ after := by
  refine ⟨?_, ?_⟩
  · intro member
    obtain ⟨middle, rest, rfl⟩ := List.append_of_mem member
    apply (allowed (before ++ .returned :: middle) .entered rest
      (by simp [split])).2
    simp
  · intro state member
    obtain ⟨middle, rest, rfl⟩ := List.append_of_mem member
    apply allowed (before ++ .returned :: middle) (.published state) rest
      (by simp [split])
    simp

theorem checked_after_stop (allowed : Each Allowed history)
    (split : history = before ++ .stopSet :: after) {stopping : Bool}
    (member : .checked stopping ∈ after) : stopping = true := by
  obtain ⟨middle, rest, rfl⟩ := List.append_of_mem member
  apply (allowed (before ++ .stopSet :: middle) (.checked stopping) rest
    (by simp [split])).mpr
  simp

theorem Closed.setLate {between : List Moment}
    (closed : Closed (before ++ .stopSet :: between))
    (rest : .entered ∉ after) : SetLate before (between ++ after) := by
  obtain ⟨_, ⟨earlier, gap, rfl, quiet⟩, unset, last, same, only⟩ := closed
  rw [List.append_assoc _ _ last] at same
  obtain ⟨later, rfl, rfl⟩ := split_of_unset same (by simpa using unset)
  refine ⟨earlier, gap, later, by simp, ?_, ?_⟩
  · intro stopping member
    exact quiet _ member
  · intro member
    simp only [List.mem_append] at member
    rcases member with (inGap | inLater) | inBetween | inAfter
    · exact quiet _ inGap
    · cases only .entered (by simp [inLater])
    · cases only .entered (by simp [inBetween])
    · exact rest inAfter

/-- What a task that returns after the stop intent was set has published
last. -/
theorem stopped_or_setLate (allowed : Each Allowed history)
    (split : history = before ++ .stopSet :: after)
    (returns : .returned ∈ after) :
    lastStatus history = some .stopped ∨ SetLate before after := by
  obtain ⟨between, rest, rfl⟩ := List.append_of_mem returns
  have splitAgain : history =
      (before ++ .stopSet :: between) ++ .returned :: rest := by
    simp [split]
  obtain ⟨noRun, silent⟩ := silent_after_returned allowed splitAgain
  rcases allowed _ .returned rest splitAgain with isStopped | closed
  · left
    rw [splitAgain, lastStatus_append _ (by simp [silent])]
    exact isStopped
  · right
    exact closed.setLate (by simp [noRun])

end Final

/-- Whatever the restart policy, the outcomes of the runs and the readiness of
the dependencies: once the stop intent is set, it stays set, at most one run is
entered, and none after the next check; nothing is published after the task has
returned, and the last status is `Stopped` unless the intent was set only after
the check that followed the last run. -/
theorem stop_intent_final (config : ServiceConfig) {state : Watched}
    (reachable : (watched config).Reachable state) :
    (∀ before after : List Moment,
      state.history = before ++ .stopSet :: after →
      (∀ stopping, .checked stopping ∈ after → stopping = true) ∧
      after.count .entered ≤ 1 ∧
      (∀ (unchecked : List Moment) (stopping : Bool) (rest : List Moment),
        after = unchecked ++ .checked stopping :: rest → .entered ∉ rest) ∧
      (.returned ∈ after →
        lastStatus state.history = some .stopped ∨ SetLate before after)) ∧
    ∀ before after : List Moment,
      state.history = before ++ .returned :: after →
      ∀ status, .published status ∉ after := by
  have safe : state.Safe config :=
    reachable.invariant (fun _ initial => Watched.safe_of_initial initial)
      fun _ _ _ stepped safe => safe.step stepped
  have allowed := safe.sound.allowed
  constructor
  · intro before after split
    refine ⟨?_, count_entered_le_one allowed split, ?_,
      stopped_or_setLate allowed split⟩
    · intro stopping member
      exact checked_after_stop allowed split member
    · intro unchecked stopping rest same
      rw [same] at split
      exact not_entered_after_check allowed split
  · intro before after split
    exact (silent_after_returned allowed split).2

/-- A service that is restarted whenever it exits. -/
def restarted : ServiceConfig :=
  ⟨"web", ["web"], [], .always⟩

/-- `stop_all` comes right after the check before the run. -/
def stopBeforeRun : List Move :=
  List.replicate 6 (.task ⟨.first, .ok .failure⟩) ++ [.stop "web"] ++
    List.replicate 11 (.task ⟨.first, .ok .failure⟩)

def beforeStop : List Moment :=
  [.checked false, .checked false]

/-- The run that had passed its check is the last one. -/
def afterStop : List Moment :=
  [.published .preparing, .published .running, .entered, .published .failed,
    .checked true, .published .stopped, .returned]

theorem stop_intent_final_drained : ∃ state,
    (watched restarted).Reachable state ∧
      state.history = beforeStop ++ .stopSet :: afterStop ∧
      afterStop.count .entered ≤ 1 ∧
      (lastStatus state.history = some .stopped ∨
        SetLate beforeStop afterStop) := by
  let start : Watched := ⟨⟨⟨∅, [], []⟩, []⟩, .done .head⟩
  have ran : ((watched restarted).run start stopBeforeRun).map
      (fun state => state.history) =
        some (beforeStop ++ .stopSet :: afterStop) := by
    decide +kernel
  obtain ⟨state, reached, history⟩ := Option.map_eq_some_iff.mp ran
  have reachable : (watched restarted).Reachable state :=
    ⟨start, stopBeforeRun,
      ⟨State.wellKeyed_empty, by simp [start], rfl, rfl⟩, reached⟩
  obtain ⟨_, atMostOne, _, last⟩ :=
    (stop_intent_final restarted reachable).1 beforeStop afterStop history
  exact ⟨state, reachable, history, atMostOne, last (by decide)⟩

/-- The watched task is the task of the service among all the others. -/
structure Shows (config : ServiceConfig) (state : Supervision)
    (seen : Watched) : Prop where
  program : seen.program = state.programs config.id
  objects : seen.world.objects = state.world.objects
  stopping : seen.world.stopping = state.world.stopping

section Supervision

variable {tasks : List ServiceConfig} {config : ServiceConfig}
  {state next : Supervision} {seen : Watched}

theorem perform_agree {world other after : Supervised}
    (objects : other.objects = world.objects)
    (stopping : other.stopping = world.stopping)
    {operation : superviseSignature.Op}
    {answer : superviseSignature.Answer operation} {choice : TaskChoice}
    (performed : taskMachine.perform world operation choice =
      some (answer, after)) :
    ∃ otherAfter,
      taskMachine.perform other operation choice =
        some (answer, otherAfter) ∧
      otherAfter.objects = after.objects ∧
      otherAfter.stopping = after.stopping := by
  obtain ⟨otherObjects, otherStopping, otherLog⟩ := other
  cases objects
  cases stopping
  match operation with
  | .inl operation =>
      obtain ⟨value, answered, same⟩ := Option.map_eq_some_iff.mp performed
      cases same
      exact ⟨_, Option.map_eq_some_iff.mpr ⟨answer, answered, rfl⟩, rfl, rfl⟩
  | .inr operation =>
      cases operation with
      | _ =>
          cases performed
          exact ⟨_, rfl, rfl, rfl⟩

theorem advance_agree {world other after : Supervised}
    (objects : other.objects = world.objects)
    (stopping : other.stopping = world.stopping)
    {program moved : Program superviseSignature TaskStage}
    {choice : TaskChoice}
    (advanced : Supervision.advance config program world choice =
      some (moved, after)) :
    ∃ otherAfter,
      Supervision.advance config program other choice =
        some (moved, otherAfter) ∧
      otherAfter.objects = after.objects ∧
      otherAfter.stopping = after.stopping := by
  cases program with
  | done stage =>
      cases stage with
      | finished => cases advanced
      | _ =>
          cases advanced
          exact ⟨other, rfl, objects, stopping⟩
  | call operation rest =>
      obtain ⟨⟨answer, final⟩, performed, same⟩ :=
        Option.map_eq_some_iff.mp advanced
      cases same
      obtain ⟨otherAfter, performedToo, agree⟩ :=
        perform_agree objects stopping performed
      refine ⟨otherAfter, ?_, agree⟩
      rw [Supervision.advance, performedToo]
      rfl

/-- What another task does is either not seen, or it is an operation on the
store by somebody else. -/
theorem advance_other {other : ServiceConfig}
    (different : config.id ≠ other.id)
    {program moved : Program superviseSignature TaskStage}
    {world after : Supervised} {choice : TaskChoice}
    (only : program.Only (OwnStatus other.id))
    (advanced : Supervision.advance other program world choice =
      some (moved, after)) :
    after.stopping = world.stopping ∧
      (after.objects = world.objects ∨
        ∃ operation : Op, leavesStatus config.id operation = true ∧
          after.objects = operation.after world.objects) := by
  cases program with
  | done stage =>
      cases stage with
      | finished => cases advanced
      | _ =>
          cases advanced
          exact ⟨rfl, .inl rfl⟩
  | call operation rest =>
      obtain ⟨⟨answer, final⟩, performed, same⟩ :=
        Option.map_eq_some_iff.mp advanced
      cases same
      match operation with
      | .inl operation =>
          obtain ⟨objects, stopping⟩ := perform_store performed
          refine ⟨stopping, .inr ⟨operation, ?_, objects⟩⟩
          have own : operation.Writes (· = serviceKey other.id) := only.1
          cases operation with
          | get key => rfl
          | list ns typ => rfl
          | _ =>
              apply decide_eq_true
              intro same
              exact different (serviceKey_injective (own _ same))
      | .inr operation =>
          obtain ⟨objects, stopping⟩ := perform_task performed
          exact ⟨stopping, .inl objects⟩

theorem run_single {move : Move} {after : Watched}
    (stepped : seen.step config move = some after) :
    (watched config).run seen [move] = some after :=
  System.run_cons_eq_some.mpr ⟨after, stepped, rfl⟩

theorem leavesStatus_of_sparesStatus {operation : Op} (id : String)
    (spares : operation.sparesStatus = true) :
    leavesStatus id operation = true := by
  cases operation with
  | get key => rfl
  | list ns typ => rfl
  | _ =>
      apply decide_eq_true
      intro same
      apply of_decide_eq_true spares
      rw [Option.some.inj same]
      rfl

theorem Shows.task (isShown : Shows config state seen) {choice : TaskChoice}
    {program : Program superviseSignature TaskStage} {after : Supervised}
    (advanced : Supervision.advance config (state.programs config.id)
      state.world choice = some (program, after)) :
    ∃ moves final, (watched config).run seen moves = some final ∧
      Shows config
        { world := after
          programs := Function.update state.programs config.id program }
        final := by
  obtain ⟨seenAfter, advancedToo, objects, stopping⟩ :=
    advance_agree isShown.objects isShown.stopping advanced
  rw [← isShown.program] at advancedToo
  refine ⟨[.task choice], _, run_single
    (Option.map_eq_some_iff.mpr ⟨_, advancedToo, rfl⟩), ?_, objects,
    stopping⟩
  exact (Function.update_self config.id program state.programs).symm

theorem Shows.otherTask (isShown : Shows config state seen)
    {other : ServiceConfig} (different : config.id ≠ other.id)
    {choice : TaskChoice} {program : Program superviseSignature TaskStage}
    {after : Supervised}
    (only : (state.programs other.id).Only (OwnStatus other.id))
    (advanced : Supervision.advance other (state.programs other.id)
      state.world choice = some (program, after)) :
    ∃ moves final, (watched config).run seen moves = some final ∧
      Shows config
        { world := after
          programs := Function.update state.programs other.id program }
        final := by
  obtain ⟨stopping, changed⟩ := advance_other different only advanced
  have same : seen.program =
      Function.update state.programs other.id program config.id := by
    rw [Function.update_of_ne different]
    exact isShown.program
  rcases changed with unchanged | ⟨operation, leaves, changes⟩
  · exact ⟨[], seen, rfl, same, isShown.objects.trans unchanged.symm,
      isShown.stopping.trans stopping.symm⟩
  · refine ⟨[.other operation], _, run_single (if_pos leaves), same, ?_,
      isShown.stopping.trans stopping.symm⟩
    exact (congrArg operation.after isShown.objects).trans changes.symm

theorem Shows.step (distinct : (tasks.map (·.id)).Nodup)
    (isTask : config ∈ tasks) (safe : state.Safe tasks)
    (isShown : Shows config state seen) {move : SupervisionMove}
    (stepped : state.step tasks move = some next) :
    ∃ moves final, (watched config).run seen moves = some final ∧
      Shows config next final := by
  cases move with
  | task other choice =>
      obtain ⟨isOther, mapped⟩ := Option.ite_none_right_eq_some.mp stepped
      obtain ⟨⟨program, after⟩, advanced, rfl⟩ :=
        Option.map_eq_some_iff.mp mapped
      by_cases sameId : config.id = other.id
      · have equal := List.inj_on_of_nodup_map distinct isTask isOther sameId
        subst equal
        exact isShown.task advanced
      · exact isShown.otherTask sameId (safe.only other isOther) advanced
  | stop id =>
      cases stepped
      exact ⟨[.stop id], _, run_single rfl, isShown.program, isShown.objects,
        congrArg (id :: ·) isShown.stopping⟩
  | other operation =>
      obtain ⟨spares, same⟩ := Option.ite_none_right_eq_some.mp stepped
      cases same
      refine ⟨[.other operation], _,
        run_single (if_pos (leavesStatus_of_sparesStatus _ spares)),
        isShown.program, ?_, isShown.stopping⟩
      exact congrArg operation.after isShown.objects

/-- Whatever happens to a task among the others happens to a watched one. -/
theorem supervision_watched (distinct : (tasks.map (·.id)).Nodup)
    (isTask : config ∈ tasks)
    (reachable : (supervision tasks).Reachable state) :
    ∃ seen, (watched config).Reachable seen ∧ Shows config state seen := by
  have both : state.Safe tasks ∧ ∃ seen, (watched config).Reachable seen ∧
      Shows config state seen := by
    apply reachable.invariant
    · rintro start initial
      refine ⟨Supervision.safe_of_initial initial,
        ⟨⟨start.world, []⟩, .done .head⟩, ?_, ?_, rfl, rfl⟩
      · refine ⟨_, [], ⟨?_, ?_, rfl, rfl⟩, rfl⟩
        · rw [initial.1]
          exact State.wellKeyed_empty
        · rw [initial.1]
          exact List.not_mem_nil
      · rw [initial.2]
    · rintro middle move last stepped ⟨safe, seen, seenReachable, isShown⟩
      obtain ⟨moves, final, ran, finalShown⟩ :=
        isShown.step distinct isTask safe stepped
      exact ⟨safe.step distinct stepped, final, seenReachable.run ran,
        finalShown⟩
  exact both.2

def proxied : ServiceConfig :=
  ⟨"proxy", ["proxy"], ["web"], .onFailure⟩

/-- The two tasks move in turns, and the first one is stopped meanwhile. -/
def inTurns : List SupervisionMove :=
  let turn : List SupervisionMove := [.task restarted ⟨.first, .ok .failure⟩,
    .task proxied ⟨.first, .ok .failure⟩]
  (List.replicate 24 turn).flatten ++ .stop "web" ::
    (List.replicate 4 turn).flatten

def Mark.entered? : Mark → Option String
  | .entered id => some id
  | _ => none

theorem supervision_watched_inTurns : ∃ state : Supervision,
    (supervision [restarted, proxied]).Reachable state ∧
      state.world.log.filterMap Mark.entered? = ["web", "proxy", "web"] ∧
      ∀ config ∈ [restarted, proxied], ∃ seen,
        (watched config).Reachable seen ∧ Shows config state seen := by
  have ran : ((supervision [restarted, proxied]).run
      ⟨⟨∅, [], []⟩, fun _ => .done .head⟩ inTurns).map
        (fun state => state.world.log.filterMap Mark.entered?) =
          some ["web", "proxy", "web"] := by
    decide +kernel
  obtain ⟨state, reached, entered⟩ := Option.map_eq_some_iff.mp ran
  have reachable : (supervision [restarted, proxied]).Reachable state :=
    ⟨_, inTurns, ⟨rfl, rfl⟩, reached⟩
  refine ⟨state, reachable, entered, fun config isTask => ?_⟩
  exact supervision_watched (by decide) isTask reachable

end Supervision

end MachinedRs.StopIntent
