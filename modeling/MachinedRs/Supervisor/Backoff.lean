import MachinedRs.Foundation.System
import MachinedRs.Supervisor.StopIntent

/-!
# How often a service is restarted

The loop of `run_supervised` with its clock.  A run that has ended is followed
by a delay.  The delay doubles up to a cap, and starts over after a run of a
minute.  Whatever the runs do, a service is not started more often than five
times in 91 seconds, up to a constant: no restart is cheaper on average than
the five that follow one run of a minute.

The clocked task knows only where the loop stands.  It follows every run of the
task itself, operation by operation, whenever the stop intent is set.
-/

namespace MachinedRs

open Foundation

/-- Durations are in nanoseconds. -/
def oneSecond : Nat :=
  1000000000

/-- The delay to sleep now and the next backoff. -/
def backoffStep (current ranFor : Nat) : Nat × Nat :=
  let base := oneSecond
  let cap := 30 * oneSecond
  let healthyReset := 60 * oneSecond
  let delay := if healthyReset ≤ ranFor then base else current
  (delay, min (delay * 2) cap)

inductive ClockStage where
  /-- At the head of the loop or waiting for the dependencies. -/
  | gate
  | running (started : Nat)
  | asleep (wakes : Nat)
  | finished
deriving DecidableEq, Repr

structure ClockedTask where
  now : Nat
  backoff : Nat
  stopping : Bool
  /-- How often `runner.run` was entered. -/
  entries : Nat
  stage : ClockStage
deriving DecidableEq, Repr

inductive ClockMove where
  | pass (span : Nat)
  /-- The stop intent is set. -/
  | stop
  /-- The task goes on; a run that ends here ends like this. -/
  | proceed (outcome : RunOutcome)

def ClockedTask.step (policy : Policy) (task : ClockedTask) :
    ClockMove → Option ClockedTask
  | .pass span => some { task with now := task.now + span }
  | .stop => some { task with stopping := true }
  | .proceed outcome =>
      match task.stage with
      | .gate =>
          if task.stopping then
            some { task with stage := .finished }
          else
            some { task with
              entries := task.entries + 1
              stage := .running task.now }
      | .running started =>
          if task.stopping ∨ ¬ shouldRestart policy outcome then
            some { task with stage := .finished }
          else
            let (delay, next) := backoffStep task.backoff (task.now - started)
            some { task with
              backoff := next
              stage := .asleep (task.now + delay) }
      | .asleep wakes =>
          if task.stopping ∨ wakes ≤ task.now then
            some { task with stage := .gate }
          else
            none
      | .finished => none

def clockedTask (policy : Policy) : System ClockedTask ClockMove :=
  { Initial := fun task => task = ⟨0, oneSecond, false, 0, .gate⟩
    step := ClockedTask.step policy }

/-- Every backoff with the time, five times over, that the restarts from here
on can be ahead of the pace. -/
def levels : List (Nat × Nat) :=
  [(1, 300), (2, 214), (4, 133), (8, 62), (16, 11), (30, 0)].map
    fun (backoff, lead) => (backoff * oneSecond, lead * oneSecond)

theorem backoffStep_levels {backoff lead : Nat}
    (level : (backoff, lead) ∈ levels) (ranFor : Nat) :
    ∃ after, ((backoffStep backoff ranFor).2, after) ∈ levels ∧
      (backoffStep backoff ranFor).1 ≤ 30 * oneSecond ∧
      (ranFor < 60 * oneSecond → 91 * oneSecond + after ≤
        5 * (backoffStep backoff ranFor).1 + lead) ∧
      (60 * oneSecond ≤ ranFor → after ≤
        5 * (backoffStep backoff ranFor).1 + 209 * oneSecond) := by
  by_cases healthy : 60 * oneSecond ≤ ranFor
  · refine ⟨214 * oneSecond, ?_⟩
    rw [backoffStep, if_pos healthy]
    refine ⟨by decide, by decide, ?_, fun _ => by decide⟩
    intro short
    exact absurd healthy (Nat.not_le.mpr short)
  · have next : ∀ entry ∈ levels, ∃ other ∈ levels,
        min (entry.1 * 2) (30 * oneSecond) = other.1 ∧
        entry.1 ≤ 30 * oneSecond ∧
        91 * oneSecond + other.2 ≤ 5 * entry.1 + entry.2 := by
      decide
    obtain ⟨⟨_, after⟩, member, rfl, capped, paid⟩ := next _ level
    refine ⟨after, ?_⟩
    rw [backoffStep, if_neg healthy]
    exact ⟨member, capped, fun _ => paid, fun long => absurd long healthy⟩

section Pace

variable {slack : Int} {task next : ClockedTask}

/-- The next entry is paid for. -/
def ClockedTask.Ahead (slack : Int) (lead : Nat) (task : ClockedTask) : Prop :=
  match task.stage with
  | .gate =>
      task.stopping = true ∨
        91 * oneSecond * task.entries + lead ≤ 5 * task.now + slack
  | .running started =>
      91 * oneSecond * task.entries + lead ≤
          5 * task.now + slack + 91 * oneSecond ∧
        91 * oneSecond * task.entries + 209 * oneSecond ≤
          5 * max task.now (started + 60 * oneSecond) + slack
  | .asleep wakes =>
      wakes ≤ task.now + 30 * oneSecond ∧
        91 * oneSecond * task.entries + lead ≤ 5 * max task.now wakes + slack
  | .finished => True

structure ClockedTask.Paced (slack : Int) (task : ClockedTask) : Prop where
  bounded : 91 * oneSecond * task.entries ≤
    5 * task.now + slack + 91 * oneSecond
  ahead : ∃ lead, (task.backoff, lead) ∈ levels ∧ task.Ahead slack lead

theorem ClockedTask.Paced.step {policy : Policy} {move : ClockMove}
    (stepped : task.step policy move = some next) (paced : task.Paced slack) :
    next.Paced slack := by
  obtain ⟨bounded, lead, level, ahead⟩ := paced
  obtain ⟨now, backoff, stopping, entries, stage⟩ := task
  unfold ClockedTask.step at stepped
  simp only [oneSecond] at bounded
  cases move with
  | pass span =>
      cases stepped
      refine ⟨by simp only [oneSecond]; omega, lead, level, ?_⟩
      cases stage with
      | gate => exact ahead.imp_right fun paid => by dsimp only at paid ⊢; omega
      | finished => trivial
      | _ =>
          simp only [Ahead, oneSecond] at ahead ⊢
          omega
  | stop =>
      cases stepped
      refine ⟨bounded, lead, level, ?_⟩
      cases stage with
      | gate => exact .inl rfl
      | _ => exact ahead
  | proceed outcome =>
      cases stage with
      | gate =>
          dsimp only at stepped
          split at stepped
          · cases stepped
            exact ⟨bounded, lead, level, trivial⟩
          · next going =>
              cases stepped
              have paid := ahead.resolve_left going
              simp only [oneSecond] at paid
              refine ⟨?_, lead, level, ?_⟩
              · simp only [oneSecond]
                omega
              · simp only [Ahead, oneSecond]
                omega
      | running started =>
          dsimp only at stepped
          split at stepped
          · cases stepped
            exact ⟨bounded, lead, level, trivial⟩
          · cases stepped
            obtain ⟨after, afterLevel, capped, short, long⟩ :=
              backoffStep_levels level (now - started)
            refine ⟨bounded, after, afterLevel, ?_⟩
            simp only [Ahead, oneSecond] at ahead capped short long ⊢
            omega
      | asleep wakes =>
          dsimp only at stepped
          split at stepped
          · next ready =>
              cases stepped
              refine ⟨bounded, lead, level, ?_⟩
              simp only [Ahead, oneSecond] at ahead ⊢
              rcases ready with stopped | passed
              · exact .inl stopped
              · right
                omega
          · cases stepped
      | finished => cases stepped

theorem paced_of_reachable {policy : Policy}
    (reachable : (clockedTask policy).Reachable task) :
    task.Paced (300 * oneSecond) := by
  apply reachable.invariant
  · rintro _ rfl
    exact ⟨by decide, 300 * oneSecond, by decide, .inr (by decide)⟩
  · exact fun _ _ _ => ClockedTask.Paced.step

end Pace

/-- In every stretch of every run the service is entered at most once more
than five times in 91 seconds, up to a constant of 300 fifths of a second, and
no delay is longer than half a minute. -/
theorem restarts_paced {policy : Policy} {task later : ClockedTask}
    {moves : List ClockMove} (reachable : (clockedTask policy).Reachable task)
    (result : (clockedTask policy).run task moves = some later) :
    91 * oneSecond * later.entries + 5 * task.now ≤
        91 * oneSecond * task.entries + 5 * later.now + 391 * oneSecond ∧
      ∀ wakes, later.stage = .asleep wakes →
        wakes ≤ later.now + 30 * oneSecond := by
  obtain ⟨_, lead, level, ahead⟩ := paced_of_reachable reachable
  have small : ∀ entry ∈ levels, entry.2 ≤ 300 * oneSecond := by decide
  have within := small _ level
  have paced : task.Paced (91 * oneSecond * task.entries - 5 * task.now +
      300 * oneSecond) := by
    refine ⟨by simp only [oneSecond]; omega, lead, level, ?_⟩
    obtain ⟨now, backoff, stopping, entries, stage⟩ := task
    cases stage with
    | gate => exact .inr (by simp only [oneSecond] at within ⊢; omega)
    | finished => trivial
    | _ =>
        simp only [ClockedTask.Ahead, oneSecond] at within ahead ⊢
        omega
  obtain ⟨bounded, _, _, asleep⟩ := System.run_invariant
    (fun _ _ _ => ClockedTask.Paced.step) result paced
  constructor
  · simp only [oneSecond] at bounded ⊢
    omega
  · intro wakes stage
    rw [ClockedTask.Ahead, stage] at asleep
    exact asleep.1

/-- A service that fails at once is entered six times in 31 seconds, exactly
what the bound allows. -/
theorem restarts_paced_failing :
    ∃ moves later,
      (clockedTask .always).run ⟨0, oneSecond, false, 0, .gate⟩ moves =
        some later ∧
      later.entries = 6 ∧ later.now = 31 * oneSecond ∧
      91 * oneSecond * later.entries + 5 * 0 ≤
        91 * oneSecond * 0 + 5 * later.now + 391 * oneSecond := by
  have ran : (clockedTask .always).run ⟨0, oneSecond, false, 0, .gate⟩
      (.proceed .failure :: [1, 2, 4, 8, 16].flatMap fun delay =>
        [.proceed .failure, .pass (delay * oneSecond), .proceed .failure,
          .proceed .failure]) =
        some ⟨31 * oneSecond, 30 * oneSecond, false, 6,
          .running (31 * oneSecond)⟩ := by
    decide
  exact ⟨_, _, ran, rfl, rfl,
    (restarts_paced ⟨_, [], rfl, rfl⟩ ran).1⟩

section Follow

open StopIntent

abbrev TaskProgram : Type :=
  Program superviseSignature TaskStage

structure TaskClock where
  now : Nat
  backoff : Nat
  /-- The time of the last `stop.load`. -/
  loaded : Nat
  started : Nat
  /-- When the sleep of the backoff is over. -/
  wakes : Option Nat

/-- What the next move of the task does to its clock.  `started` is read right
after the stop intent, and a sleep is not over before its time. -/
def TaskClock.tick (clock : TaskClock) (choice : TaskChoice) :
    TaskProgram → Option TaskClock
  | .done .head => some { clock with wakes := none }
  | .done .backoff =>
      match clock.wakes with
      | some _ => some clock
      | none =>
          let (delay, next) :=
            backoffStep clock.backoff (clock.now - clock.started)
          some { clock with
            backoff := next
            wakes := some (clock.now + delay) }
  | .call (.inr (.stopping _)) _ => some { clock with loaded := clock.now }
  | .call (.inr (.enter _)) _ => some { clock with started := clock.loaded }
  | .call (.inr .select) _ =>
      if choice.branch = .first ∧ ∃ wakes ∈ clock.wakes, clock.now < wakes then
        none
      else
        some clock
  | _ => some clock

/-- A watched task with its clock. -/
structure Timed where
  task : Watched
  clock : TaskClock

inductive TimedMove where
  | pass (span : Nat)
  | move (move : Move)

def Timed.step (config : ServiceConfig) (state : Timed) :
    TimedMove → Option Timed
  | .pass span =>
      some { state with
        clock := { state.clock with now := state.clock.now + span } }
  | .move move =>
      (state.task.step config move).bind fun after =>
        match move with
        | .task choice =>
            (state.clock.tick choice state.task.program).map (⟨after, ·⟩)
        | _ => some { state with task := after }

def timed (config : ServiceConfig) : System Timed TimedMove :=
  { Initial := fun state =>
      (watched config).Initial state.task ∧
        state.clock = ⟨0, oneSecond, 0, 0, none⟩
    step := Timed.step config }

/-- Where the clocked task is while the task is at work. -/
inductive TaskPhase where
  | waiting
  /-- No stop intent was found, and `runner.run` is not yet entered. -/
  | starting
  | running
  | asleep
  /-- The backoff is over. -/
  | woken
  | finished
deriving DecidableEq

variable (config : ServiceConfig)

/-- Where the answer to an operation takes the task. -/
inductive PhaseStep :
    TaskPhase → (operation : TaskOp) → operation.Answer → TaskPhase → Prop where
  | poll (branch : Branch) : PhaseStep .waiting .select branch .waiting
  | look (isSet : Bool) :
      PhaseStep .waiting (.stopping config.id) isSet .waiting
  | refuse : PhaseStep .waiting (.stopping config.id) true .finished
  | clear : PhaseStep .waiting (.stopping config.id) false .starting
  | enter : PhaseStep .starting (.enter config.id) () .running
  | leave (result : Except RunnerError RunOutcome) :
      PhaseStep .running (.returned config.id) result .running
  | drain : PhaseStep .running (.stopping config.id) true .finished
  | restart : PhaseStep .running (.stopping config.id) false .running
  | retire {outcome : RunOutcome}
      (ends : shouldRestart (policyOf config.restart) outcome = false) :
      PhaseStep .running (.stopping config.id) false .finished
  | wake : PhaseStep .asleep .select .first .woken
  | watch : PhaseStep .asleep .select .second .asleep
  | interrupt : PhaseStep .asleep (.stopping config.id) true .woken
  | sleep : PhaseStep .asleep (.stopping config.id) false .asleep

/-- What is left of a stage takes the task on from this phase. -/
inductive Keeps : TaskPhase → TaskProgram → Prop where
  | waits {stage : TaskStage} (unfinished : stage ≠ .finished)
      (unslept : stage ≠ .backoff) : Keeps .waiting (.done stage)
  | rests {outcome : RunOutcome}
      (restarts : shouldRestart (policyOf config.restart) outcome = true) :
      Keeps .running (.done .backoff)
  | sleeps : Keeps .asleep (.done .backoff)
  | wakes : Keeps .woken (.done .head)
  | ends : Keeps .finished (.done .finished)
  | store {phase : TaskPhase} {operation : Op}
      {next : operation.Answer → TaskProgram}
      (after : ∀ answer, Keeps phase (next answer)) :
      Keeps phase (.call (.inl operation) next)
  | task {phase : TaskPhase} {operation : TaskOp}
      {next : operation.Answer → TaskProgram}
      (reached : operation.Answer → TaskPhase)
      (goes : ∀ answer,
        PhaseStep config phase operation answer (reached answer))
      (after : ∀ answer, Keeps (reached answer) (next answer)) :
      Keeps phase (.call (.inr operation) next)

variable {config} {phase : TaskPhase}

theorem Keeps.inl_bind {α : Type} (program : Program stateSignature α)
    {next : α → TaskProgram}
    (after : ∀ result, Keeps config phase (next result)) :
    Keeps config phase (program.inl.bind next) := by
  induction program with
  | done result => exact after result
  | call operation _ induction => exact .store induction

theorem Keeps.check {next : Bool → TaskProgram} {stopped clear : TaskPhase}
    (isStopped : PhaseStep config phase (.stopping config.id) true stopped)
    (isClear : PhaseStep config phase (.stopping config.id) false clear)
    (afterStopped : Keeps config stopped (next true))
    (afterClear : Keeps config clear (next false)) :
    Keeps config phase (.call (.inr (.stopping config.id)) next) := by
  refine .task (fun isSet => bif isSet then stopped else clear) ?_ ?_
  · exact Bool.forall_bool.mpr ⟨isClear, isStopped⟩
  · exact Bool.forall_bool.mpr ⟨afterClear, afterStopped⟩

theorem waitForDeps_follows (ticks : Option Nat) :
    Keeps config .waiting
      (waitForDeps config.id config.dependsOn ticks) := by
  have gate : ∀ ticks, Keeps config .waiting (.done (.gate ticks)) :=
    fun _ => .waits nofun nofun
  have admitted : Keeps config .waiting (.done .admitted) :=
    .waits nofun nofun
  cases ticks with
  | none =>
      rw [waitForDeps]
      split
      · exact admitted
      · refine .inl_bind _ fun ready => ?_
        split
        · exact admitted
        · exact .inl_bind _ fun _ => gate _
  | some ticks =>
      refine .inl_bind _ fun ready => ?_
      split
      · exact admitted
      · split
        · exact .inl_bind _ fun _ => gate _
        · exact gate _

theorem runService_follows {next : RunOutcome → TaskProgram}
    (after : ∀ outcome, Keeps config .running (next outcome)) :
    Keeps config .starting ((runService config.id).bind next) := by
  simp only [runService, publishThen_bind, Program.call_bind]
  refine .inl_bind _ fun _ => .inl_bind _ fun _ =>
    .task _ (fun _ => .enter) fun _ => .task _ .leave ?_
  intro result
  obtain ⟨state, healthy, message, outcome, publishes⟩ :=
    exists_publishResult_bind config.id result next
  rw [publishes]
  exact .inl_bind _ fun _ => after outcome

/-- The phase in which a stage begins. -/
def TaskStage.begins : TaskStage → TaskPhase
  | .backoff => .asleep
  | .finished => .finished
  | _ => .waiting

theorem runSupervised_follows (config : ServiceConfig) (stage : TaskStage) :
    Keeps config stage.begins (runSupervised config stage) := by
  have stops : ∀ message, Keeps config .finished
      (publishThen config.id .stopped true message (.done .finished)) :=
    fun _ => .inl_bind _ fun _ => .ends
  cases stage with
  | head => exact .check .refuse (.look _) (stops _) (.waits nofun nofun)
  | gate ticks =>
      refine .task _ .poll fun branch => ?_
      cases branch with
      | first => exact waitForDeps_follows ticks
      | second =>
          exact .check (.look _) (.look _) (.waits nofun nofun)
            (.waits nofun nofun)
  | admitted =>
      refine .check .refuse .clear (stops _) (runService_follows ?_)
      intro outcome
      cases restarts : shouldRestart (policyOf config.restart) outcome with
      | true => exact .check .drain .restart (stops _) (.rests restarts)
      | false => exact .check .drain (.retire restarts) (stops _) .ends
  | backoff =>
      refine .task (fun branch => if branch = .first then .woken else .asleep)
        ?_ ?_
      · rintro (_ | _)
        · exact .wake
        · exact .watch
      · rintro (_ | _)
        · exact .wakes
        · exact .check .interrupt .sleep .wakes .sleeps
  | finished => exact .ends

/-- What the clocked task knows of the task in a phase. -/
def TaskPhase.Agrees (stopped : Prop) (clock : TaskClock)
    (clocked : ClockedTask) : TaskPhase → Prop
  | .waiting => clock.wakes = none ∧ clocked.stage = .gate
  | .starting =>
      clock.wakes = none ∧ clocked.stopping = false ∧
        clocked.stage = .running clock.loaded
  | .running =>
      clock.wakes = none ∧ clocked.stopping = false ∧
        clocked.stage = .running clock.started
  | .asleep =>
      clocked.stopping = false ∧
        ∃ wakes, clock.wakes = some wakes ∧ clocked.stage = .asleep wakes
  | .woken =>
      ∃ wakes, clock.wakes = some wakes ∧ clocked.stage = .asleep wakes ∧
        (wakes ≤ clock.now ∨ stopped)
  | .finished => clocked.stage = .finished

/-- The clocked task is where the task is.  It counts a run from the check that
lets it through, and it notices a stop intent when the task does. -/
structure Tracked (config : ServiceConfig) (phase : TaskPhase)
    (program : TaskProgram) (clock : TaskClock) (entered : Nat)
    (stopped : Prop) (clocked : ClockedTask) : Prop where
  now : clocked.now = clock.now
  backoff : clocked.backoff = clock.backoff
  entries : clocked.entries = entered + if phase = .starting then 1 else 0
  stopping : clocked.stopping = true → stopped
  agrees : phase.Agrees stopped clock clocked
  follows : Keeps config phase program

variable {clock ticked : TaskClock} {entered : Nat} {stopped : Prop}
  {program : TaskProgram} {clocked : ClockedTask} {choice : TaskChoice}

theorem Tracked.stage {stage : TaskStage}
    (tracked : Tracked config phase (.done stage) clock entered stopped
      clocked)
    (unfinished : stage ≠ .finished)
    (ticks : clock.tick choice (.done stage) = some ticked) :
    ∃ moves later,
      (clockedTask (policyOf config.restart)).run clocked moves = some later ∧
      Tracked config stage.begins (runSupervised config stage) ticked entered
        stopped later := by
  have begins := runSupervised_follows config stage
  obtain ⟨now, backoff, entries, stopping, agrees, follows⟩ := tracked
  cases follows with
  | waits _ unslept =>
      obtain ⟨awake, atGate⟩ := agrees
      cases stage with
      | finished => exact absurd rfl unfinished
      | backoff => exact absurd rfl unslept
      | head =>
          cases ticks
          exact ⟨[], clocked, rfl, now, backoff, entries, stopping,
            ⟨rfl, atGate⟩, begins⟩
      | _ =>
          cases ticks
          exact ⟨[], clocked, rfl, now, backoff, entries, stopping,
            ⟨awake, atGate⟩, begins⟩
  | @rests outcome restarts =>
      obtain ⟨awake, unstopped, isRunning⟩ := agrees
      rw [TaskClock.tick, awake] at ticks
      cases ticks
      have slept : (clockedTask (policyOf config.restart)).run clocked
          [.proceed outcome] = some { clocked with
            backoff := (backoffStep clock.backoff
              (clock.now - clock.started)).2
            stage := .asleep (clock.now + (backoffStep clock.backoff
              (clock.now - clock.started)).1) } := by
        simp [System.run, clockedTask, ClockedTask.step, isRunning, unstopped,
          restarts, now, backoff]
      exact ⟨_, _, slept, now, rfl, entries, stopping,
        ⟨unstopped, _, rfl, rfl⟩, begins⟩
  | sleeps =>
      obtain ⟨unstopped, wakes, isAsleep, stage⟩ := agrees
      rw [TaskClock.tick, isAsleep] at ticks
      cases ticks
      exact ⟨[], clocked, rfl, now, backoff, entries, stopping,
        ⟨unstopped, wakes, isAsleep, stage⟩, begins⟩
  | wakes =>
      obtain ⟨wakes, isAsleep, stage, ready⟩ := agrees
      cases ticks
      rcases ready with passed | isSet
      · have woken : (clockedTask (policyOf config.restart)).run clocked
            [.proceed .success] = some { clocked with stage := .gate } := by
          simp [System.run, clockedTask, ClockedTask.step, stage, now, passed]
        exact ⟨_, _, woken, now, backoff, entries, stopping, ⟨rfl, rfl⟩,
          begins⟩
      · have woken : (clockedTask (policyOf config.restart)).run clocked
            [.stop, .proceed .success] =
              some { clocked with stopping := true, stage := .gate } := by
          simp [System.run, clockedTask, ClockedTask.step, stage]
        exact ⟨_, _, woken, now, backoff, entries, fun _ => isSet, ⟨rfl, rfl⟩,
          begins⟩
  | ends => exact absurd rfl unfinished

/-- The clocked task notices the stop intent. -/
theorem clocked_finishes (policy : Policy)
    (atWork : clocked.stage = .gate ∨
      ∃ started, clocked.stage = .running started) :
    (clockedTask policy).run clocked [.stop, .proceed .success] =
      some { clocked with stopping := true, stage := .finished } := by
  rcases atWork with stage | ⟨started, stage⟩
  all_goals simp [System.run, clockedTask, ClockedTask.step, stage]

theorem Tracked.goes {operation : TaskOp} {reached : TaskPhase}
    {next : operation.Answer → TaskProgram} {answer : operation.Answer}
    {world after : Supervised}
    (tracked : Tracked config phase (.call (.inr operation) next) clock entered
      (config.id ∈ world.stopping) clocked)
    (goes : PhaseStep config phase operation answer reached)
    (follows : Keeps config reached (next answer))
    (ticks : clock.tick choice (.call (.inr operation) next) = some ticked)
    (performed : taskMachine.perform world (.inr operation) choice =
      some (answer, after)) :
    ∃ moves later,
      (clockedTask (policyOf config.restart)).run clocked moves = some later ∧
      Tracked config reached (next answer) ticked
        (entered +
          (momentsOf config.id world (.inr operation)).count .entered)
        (config.id ∈ world.stopping) later := by
  obtain ⟨now, backoff, entries, stopping, agrees, _⟩ := tracked
  have isRead : ∀ isSet, some (decide (config.id ∈ world.stopping), world) =
      some (isSet, after) → (isSet = true ↔ config.id ∈ world.stopping) := by
    rintro _ ⟨⟩
    exact decide_eq_true_iff
  cases goes with
  | poll | watch =>
      obtain ⟨_, same⟩ := Option.ite_none_left_eq_some.mp ticks
      cases same
      exact ⟨[], clocked, rfl, now, backoff, entries, stopping, agrees,
        follows⟩
  | look | enter | leave | restart | sleep =>
      cases ticks
      exact ⟨[], clocked, rfl, now, backoff, entries, stopping, agrees,
        follows⟩
  | refuse =>
      cases ticks
      exact ⟨_, _, clocked_finishes _ (.inl agrees.2), now, backoff, entries,
        fun _ => (isRead _ performed).mp rfl, rfl, follows⟩
  | drain =>
      cases ticks
      exact ⟨_, _, clocked_finishes _ (.inr ⟨_, agrees.2.2⟩), now, backoff,
        entries, fun _ => (isRead _ performed).mp rfl, rfl, follows⟩
  | clear =>
      cases ticks
      have unstopped : clocked.stopping = false := by
        by_contra isSet
        exact nomatch (isRead _ performed).mpr
          (stopping (Bool.eq_true_of_not_eq_false isSet))
      have started : (clockedTask (policyOf config.restart)).run clocked
          [.proceed .success] = some { clocked with
            entries := clocked.entries + 1
            stage := .running clock.now } := by
        simp [System.run, clockedTask, ClockedTask.step, agrees.2, unstopped,
          now]
      exact ⟨_, _, started, now, backoff, congrArg (· + 1) entries, stopping,
        ⟨agrees.1, unstopped, rfl⟩, follows⟩
  | @retire outcome ends =>
      cases ticks
      have finished : (clockedTask (policyOf config.restart)).run clocked
          [.proceed outcome] = some { clocked with stage := .finished } := by
        simp [System.run, clockedTask, ClockedTask.step, agrees.2.2, ends]
      exact ⟨_, _, finished, now, backoff, entries, stopping, rfl, follows⟩
  | wake =>
      obtain ⟨ready, same⟩ := Option.ite_none_left_eq_some.mp ticks
      cases same
      obtain ⟨_, wakes, isAsleep, stage⟩ := agrees
      have passed : wakes ≤ clock.now := by
        by_contra early
        have first : choice.branch = .first := by
          injection performed with same
          exact congrArg Prod.fst same
        exact ready ⟨first, wakes, isAsleep, Nat.not_le.mp early⟩
      exact ⟨[], clocked, rfl, now, backoff, entries, stopping,
        ⟨wakes, isAsleep, stage, .inl passed⟩, follows⟩
  | interrupt =>
      cases ticks
      obtain ⟨_, wakes, isAsleep, stage⟩ := agrees
      exact ⟨[], clocked, rfl, now, backoff, entries, stopping,
        ⟨wakes, isAsleep, stage, .inr ((isRead _ performed).mp rfl)⟩, follows⟩

theorem Tracked.elsewhere {later : Prop} (span : Nat)
    (tracked : Tracked config phase program clock entered stopped clocked)
    (stays : stopped → later) :
    Tracked config phase program { clock with now := clock.now + span } entered
      later { clocked with now := clocked.now + span } := by
  obtain ⟨now, backoff, entries, stopping, agrees, follows⟩ := tracked
  refine ⟨congrArg (· + span) now, backoff, entries,
    fun isSet => stays (stopping isSet), ?_, follows⟩
  cases phase with
  | woken =>
      obtain ⟨wakes, isAsleep, stage, ready⟩ := agrees
      exact ⟨wakes, isAsleep, stage, ready.imp Nat.le_add_right_of_le stays⟩
  | _ => exact agrees

/-- The clocked task is where the task is, with as many runs entered. -/
def Timed.Follows (config : ServiceConfig) (state : Timed)
    (clocked : ClockedTask) : Prop :=
  ∃ phase, Tracked config phase state.task.program state.clock
    (state.task.history.count .entered)
    (config.id ∈ state.task.world.stopping) clocked

variable {state final : Timed}

theorem Timed.Follows.task (follows : state.Follows config clocked)
    (stepped : state.step config (.move (.task choice)) = some final) :
    ∃ moves later,
      (clockedTask (policyOf config.restart)).run clocked moves = some later ∧
      final.Follows config later := by
  obtain ⟨⟨⟨world, history⟩, program⟩, clock⟩ := state
  obtain ⟨phase, tracked⟩ := follows
  obtain ⟨_, moved, ended⟩ := Option.bind_eq_some_iff.mp stepped
  obtain ⟨ticked, ticks, rfl⟩ := Option.map_eq_some_iff.mp ended
  obtain ⟨⟨rest, after⟩, advanced, rfl⟩ := Option.map_eq_some_iff.mp moved
  have unended : (ending rest).count .entered = 0 := by
    unfold ending
    split <;> rfl
  unfold Timed.Follows
  simp only [List.count_append, unended, Nat.add_zero]
  cases program with
  | done stage =>
      by_cases isFinished : stage = .finished
      · subst isFinished
        cases advanced
      · obtain ⟨moves, later, ran, begun⟩ := tracked.stage isFinished ticks
        refine ⟨moves, later, ran, stage.begins, ?_⟩
        cases stage with
        | finished => exact absurd rfl isFinished
        | _ =>
            cases advanced
            exact begun
  | call operation next =>
      obtain ⟨⟨answer, _⟩, performed, same⟩ :=
        Option.map_eq_some_iff.mp advanced
      cases same
      cases tracked.follows with
      | @store _ operation _ follows =>
          cases ticks
          have unentered : .entered ∉ momentsOf config.id world
              (.inl operation) := by
            simp [momentsOf]
          refine ⟨[], clocked, rfl, phase, ?_⟩
          rw [(perform_store performed).2, nextMoments,
            List.count_eq_zero.mpr unentered]
          exact { tracked with follows := follows answer }
      | task reached goes follows =>
          rw [(perform_task performed).2]
          obtain ⟨moves, later, ran, followed⟩ :=
            tracked.goes (goes answer) (follows answer) ticks performed
          exact ⟨moves, later, ran, reached answer, followed⟩

theorem Timed.Follows.step {move : TimedMove}
    (follows : state.Follows config clocked)
    (stepped : state.step config move = some final) :
    ∃ moves later,
      (clockedTask (policyOf config.restart)).run clocked moves = some later ∧
      final.Follows config later := by
  obtain ⟨phase, tracked⟩ := follows
  cases move with
  | pass span =>
      cases stepped
      exact ⟨[.pass span], _, rfl, phase, tracked.elsewhere span id⟩
  | move move =>
      cases move with
      | task choice => exact Timed.Follows.task ⟨phase, tracked⟩ stepped
      | stop id =>
          cases stepped
          refine ⟨[], clocked, rfl, phase, ?_⟩
          have uncounted : (if id = config.id then [Moment.stopSet]
              else []).count .entered = 0 := by
            split <;> rfl
          rw [List.count_append, uncounted]
          exact tracked.elsewhere 0 (List.mem_cons_of_mem _)
      | other operation =>
          obtain ⟨after, moved, same⟩ := Option.bind_eq_some_iff.mp stepped
          obtain ⟨_, moved⟩ := Option.ite_none_right_eq_some.mp moved
          cases same
          cases moved
          exact ⟨[], clocked, rfl, phase, tracked⟩

/-- The clocked task follows every run of the task. -/
theorem clockedTask_follows (reachable : (timed config).Reachable state) :
    ∃ clocked,
      (clockedTask (policyOf config.restart)).Reachable clocked ∧
      state.Follows config clocked := by
  apply reachable.invariant
  · rintro start ⟨⟨_, unset, isEmpty, atHead⟩, isNew⟩
    refine ⟨_, ⟨_, [], rfl, rfl⟩, .waiting, ?_⟩
    rw [isEmpty, atHead, isNew]
    exact ⟨rfl, rfl, rfl, nofun, ⟨rfl, rfl⟩, .waits nofun nofun⟩
  · rintro state move next stepped ⟨clocked, reached, follows⟩
    obtain ⟨moves, later, ran, followed⟩ := follows.step stepped
    exact ⟨later, reached.run ran, followed⟩

/-- The task itself keeps the pace. -/
theorem entered_paced (reachable : (timed config).Reachable state) :
    91 * oneSecond * state.task.history.count .entered ≤
      5 * state.clock.now + 391 * oneSecond := by
  obtain ⟨clocked, reached, phase, tracked⟩ := clockedTask_follows reachable
  have bounded := (paced_of_reachable reached).bounded
  have entries := tracked.entries
  have now := tracked.now
  simp only [oneSecond] at bounded ⊢
  omega

end Follow

end MachinedRs
