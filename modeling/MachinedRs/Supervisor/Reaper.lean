import MachinedRs.Supervisor.Service

/-!
# Children and the reaper

Every service's child is to be collected by the `wait` of its own runner, and
the reaper of PID 1 is for orphans.  But the reaper waits for any child, so it
can be faster than a runner.  The kernel keeps an exited child until one wait
has collected it; a process id is the position in the table and is not used
again.
-/

namespace MachinedRs

open Foundation

inductive ExitStatus where
  | exited (code : Nat)
  | signaled (signal : Nat)
deriving DecidableEq, Repr

def ExitStatus.success : ExitStatus → Bool
  | .exited code => code = 0
  | .signaled _ => false

/-- Whose wait has collected a child. -/
inductive Collector where
  | runner
  | reaper
deriving DecidableEq, Repr

inductive ProcessPhase where
  | running
  | zombie (status : ExitStatus)
  | collected (status : ExitStatus) (collector : Collector)
deriving DecidableEq, Repr

/-- A child of PID 1; an orphan has no service. -/
structure Process where
  service : Option String
  phase : ProcessPhase
deriving DecidableEq, Repr

inductive ProcessOp where
  | spawn (id : String) (command : List String)
  | wait (pid : Nat)
deriving DecidableEq, Repr

@[reducible] def ProcessOp.Answer : ProcessOp → Type
  | .spawn _ _ => Except String Nat
  | .wait _ => Except String ExitStatus

abbrev processSignature : Signature :=
  { Op := ProcessOp, Answer := ProcessOp.Answer }

/-- How a run reports the status of its child. -/
def outcomeOf (status : ExitStatus) : RunOutcome :=
  if status.success then .success else .failure

namespace ProcessRunner

/-- The run from the spawned child on. -/
def awaitChild (id : String) (pid : Nat) :
    Program processSignature (Except RunnerError RunOutcome) :=
  .call (.wait pid) fun (waited : Except String ExitStatus) =>
    .done (match waited with
      | .ok status => .ok (outcomeOf status)
      | .error message => .error (.other ("wait " ++ id ++ ": " ++ message)))

/-- The slot with the child's id, which only `stop_all` reads, is left out. -/
def run (id : String) (command : List String) :
    Program processSignature (Except RunnerError RunOutcome) :=
  match command with
  | [] => .done (.error (.other ("service " ++ id ++ " has empty command")))
  | _ :: _ =>
      .call (.spawn id command) fun (spawned : Except String Nat) =>
        match spawned with
        | .error source => .done (.error (.spawn id source))
        | .ok pid => awaitChild id pid

end ProcessRunner

def noChildProcesses : String :=
  "No child processes (os error 10)"

/-- The kernel.  The choice is the error of a spawn, if it fails; a wait for a
child that is still running does not return. -/
def processMachine :
    Machine processSignature (List Process) (Option String) :=
  { perform := fun table operation choice =>
      match operation with
      | .spawn id _ =>
          match choice with
          | some message => some (.error message, table)
          | none =>
              some (.ok table.length, table ++ [⟨some id, .running⟩])
      | .wait pid =>
          match table[pid]? with
          | some ⟨_, .running⟩ => none
          | some ⟨service, .zombie status⟩ =>
              some (.ok status,
                table.set pid ⟨service, .collected status .runner⟩)
          | some ⟨_, .collected _ _⟩ => some (.error noChildProcesses, table)
          | none => some (.error noChildProcesses, table) }

/-- A run of a service's runner, with the child it has spawned. -/
structure ProcessRun where
  program : Program processSignature (Except RunnerError RunOutcome)
  child : Option Nat

/-- A run that has returned. -/
structure RunRecord where
  id : String
  child : Option Nat
  result : Except RunnerError RunOutcome
deriving DecidableEq

structure ReaperNode where
  table : List Process
  runs : String → Option ProcessRun
  records : List RunRecord
  /-- A `SIGCHLD` has not been handled yet. -/
  signalled : Bool
  /-- `reap_all` is in its loop. -/
  reaping : Bool

inductive ReaperMove where
  /-- A service's runner is entered. -/
  | begins (id : String) (command : List String)
  /-- A service's run makes its next step. -/
  | runner (id : String) (choice : Option String)
  /-- An orphan becomes a child of PID 1. -/
  | adopts
  | exits (pid : Nat) (status : ExitStatus)
  /-- The signal is received and `reap_all` begins. -/
  | sigchld
  /-- `waitpid` for any child collects this one. -/
  | reaps (pid : Nat)
  /-- `waitpid` for any child finds none that has exited. -/
  | reapsNone

/-- The child of a run after an operation. -/
def childAfter : (operation : ProcessOp) → operation.Answer → Option Nat →
    Option Nat
  | .spawn _ _, .ok pid, _ => some pid
  | .spawn _ _, .error _, child => child
  | .wait _, _, child => child

def ProcessPhase.isZombie : ProcessPhase → Bool
  | .zombie _ => true
  | _ => false

namespace ReaperNode

def runnerStep (node : ReaperNode) (id : String) (run : ProcessRun)
    (choice : Option String) : Option ReaperNode :=
  match run.program with
  | .done result =>
      some { node with
        runs := Function.update node.runs id none
        records := node.records ++ [⟨id, run.child, result⟩] }
  | .call operation next =>
      (processMachine.perform node.table operation choice).map
        fun (answer, after) =>
          { node with
            table := after
            runs := Function.update node.runs id
              (some ⟨next answer, childAfter operation answer run.child⟩) }

def step (node : ReaperNode) : ReaperMove → Option ReaperNode
  | .begins id command =>
      match node.runs id with
      | some _ => none
      | none =>
          some { node with
            runs := Function.update node.runs id
              (some ⟨ProcessRunner.run id command, none⟩) }
  | .runner id choice =>
      (node.runs id).bind fun run => node.runnerStep id run choice
  | .adopts =>
      some { node with table := node.table ++ [⟨none, .running⟩] }
  | .exits pid status =>
      match node.table[pid]? with
      | some ⟨service, .running⟩ =>
          some { node with
            table := node.table.set pid ⟨service, .zombie status⟩
            signalled := true }
      | _ => none
  | .sigchld =>
      if node.signalled && !node.reaping then
        some { node with signalled := false, reaping := true }
      else
        none
  | .reaps pid =>
      if node.reaping then
        match node.table[pid]? with
        | some ⟨service, .zombie status⟩ =>
            some { node with
              table := node.table.set pid
                ⟨service, .collected status .reaper⟩ }
        | _ => none
      else
        none
  | .reapsNone =>
      if node.reaping && node.table.all (!·.phase.isZombie) then
        some { node with reaping := false }
      else
        none

end ReaperNode

def reaperSystem : System ReaperNode ReaperMove :=
  { Initial := fun node =>
      node.table = [] ∧ node.runs = (fun _ => none) ∧ node.records = [] ∧
        node.signalled = false ∧ node.reaping = false
    step := ReaperNode.step }

/-- No supervised child has exited without being collected. -/
def ReaperNode.NoneWaiting (node : ReaperNode) : Prop :=
  ∀ process ∈ node.table, process.service ≠ none →
    process.phase.isZombie = false

instance (node : ReaperNode) : Decidable node.NoneWaiting :=
  inferInstanceAs (Decidable (∀ process ∈ node.table,
    process.service ≠ none → process.phase.isZombie = false))

/-- The reaper waits for any child only while none of a service waits to be
collected. -/
def ReapsOrphans (node : ReaperNode) : ReaperMove → Prop
  | .reaps _ => node.NoneWaiting
  | _ => True

instance (node : ReaperNode) (move : ReaperMove) :
    Decidable (ReapsOrphans node move) :=
  match move with
  | .reaps _ => inferInstanceAs (Decidable node.NoneWaiting)
  | .begins _ _ => isTrue trivial
  | .runner _ _ => isTrue trivial
  | .adopts => isTrue trivial
  | .exits _ _ => isTrue trivial
  | .sigchld => isTrue trivial
  | .reapsNone => isTrue trivial

/-- A service's child is collected by nobody but its runner. -/
def Process.Owned (process : Process) : Prop :=
  process.service ≠ none → ∀ status collector,
    process.phase = .collected status collector → collector = .runner

/-- Every service's child is collected by its own run, and every run that has
spawned a child returns what the child exited with. -/
structure ReaperNode.Faithful (node : ReaperNode) : Prop where
  owned : ∀ process ∈ node.table, process.Owned
  returned : ∀ record ∈ node.records, ∀ pid, record.child = some pid →
    ∃ status,
      node.table[pid]? =
          some ⟨some record.id, .collected status .runner⟩ ∧
        record.result = .ok (outcomeOf status)

def ProcessPhase.isCollected : ProcessPhase → Bool
  | .collected _ _ => true
  | _ => false

/-- Nobody else collects the children of this service. -/
def Spares (id : String) (table after : List Process) : Prop :=
  ∀ (pid : Nat) (phase : ProcessPhase),
    table[pid]? = some ⟨some id, phase⟩ →
    ∃ later : ProcessPhase, after[pid]? = some ⟨some id, later⟩ ∧
      (later = phase ∨
        phase.isCollected = false ∧ later.isCollected = false)

/-- Where a run is, and what has become of its child. -/
inductive RunState (table : List Process) (id : String) : ProcessRun → Prop where
  | begun (command : List String) :
      RunState table id ⟨ProcessRunner.run id command, none⟩
  | failed (error : RunnerError) :
      RunState table id ⟨.done (.error error), none⟩
  | waiting {pid : Nat} {phase : ProcessPhase}
      (own : table[pid]? = some ⟨some id, phase⟩)
      (uncollected : phase.isCollected = false) :
      RunState table id ⟨ProcessRunner.awaitChild id pid, some pid⟩
  | ended {pid : Nat} {status : ExitStatus}
      (own : table[pid]? = some ⟨some id, .collected status .runner⟩) :
      RunState table id ⟨.done (.ok (outcomeOf status)), some pid⟩

structure ReaperNode.Kept (node : ReaperNode) : Prop where
  faithful : node.Faithful
  runs : ∀ id run, node.runs id = some run → RunState node.table id run

section Steps

variable {node next : ReaperNode} {table after : List Process} {id : String}

theorem RunState.spared {run : ProcessRun} (state : RunState table id run)
    (spares : Spares id table after) : RunState after id run := by
  cases state with
  | begun command => exact .begun command
  | failed error => exact .failed error
  | waiting own uncollected =>
      obtain ⟨later, isLater, same | ⟨_, still⟩⟩ := spares _ _ own
      · rw [same] at isLater
        exact .waiting isLater uncollected
      · exact .waiting isLater still
  | ended own =>
      obtain ⟨later, isLater, same | ⟨uncollected, _⟩⟩ := spares _ _ own
      · rw [same] at isLater
        exact .ended isLater
      · cases uncollected

/-- What has been collected stays so. -/
def Settles (table after : List Process) : Prop :=
  ∀ (pid : Nat) (process : Process), table[pid]? = some process →
    process.phase.isCollected = true → after[pid]? = some process

theorem found_append {more : List Process} {pid : Nat} {process : Process}
    (found : table[pid]? = some process) :
    (table ++ more)[pid]? = some process := by
  have bound := (List.getElem?_eq_some_iff.mp found).1
  rw [List.getElem?_append_left bound]
  exact found

theorem spares_append (id : String) (table more : List Process) :
    Spares id table (table ++ more) := by
  intro pid phase found
  exact ⟨phase, found_append found, .inl rfl⟩

theorem settles_append (table more : List Process) :
    Settles table (table ++ more) := by
  intro pid process found _
  exact found_append found

section Set

variable {pid : Nat} {service : Option String} {phase later : ProcessPhase}
  (found : table[pid]? = some ⟨service, phase⟩)

include found

theorem found_set : (table.set pid ⟨service, later⟩)[pid]? =
    some ⟨service, later⟩ :=
  List.getElem?_set_self (List.getElem?_eq_some_iff.mp found).1

/-- A change of an entry that is another party's, or that is not collected
before or after. -/
theorem spares_set
    (allowed : service ≠ some id ∨
      phase.isCollected = false ∧ later.isCollected = false) :
    Spares id table (table.set pid ⟨service, later⟩) := by
  intro other otherPhase otherFound
  by_cases same : pid = other
  · subst same
    rw [found] at otherFound
    cases otherFound
    refine ⟨later, found_set found, .inr ?_⟩
    rcases allowed with another | uncollected
    · exact absurd rfl another
    · exact uncollected
  · refine ⟨otherPhase, ?_, .inl rfl⟩
    rw [List.getElem?_set_ne same]
    exact otherFound

theorem settles_set (uncollected : phase.isCollected = false) :
    Settles table (table.set pid ⟨service, later⟩) := by
  intro other process otherFound collected
  by_cases same : pid = other
  · subst same
    rw [found] at otherFound
    cases otherFound
    rw [uncollected] at collected
    cases collected
  · rw [List.getElem?_set_ne same]
    exact otherFound

end Set

theorem owned_append {process : Process}
    (owned : ∀ process ∈ table, process.Owned)
    (fresh : process.phase = .running) :
    ∀ other ∈ table ++ [process], other.Owned := by
  intro other member
  rcases List.mem_append.mp member with earlier | last
  · exact owned other earlier
  · rw [List.mem_singleton.mp last]
    intro _ status collector collected
    rw [fresh] at collected
    cases collected

theorem owned_set {pid : Nat} {process : Process}
    (owned : ∀ process ∈ table, process.Owned) (allowed : process.Owned) :
    ∀ other ∈ table.set pid process, other.Owned := by
  intro other member
  rcases List.mem_or_eq_of_mem_set member with earlier | same
  · exact owned other earlier
  · rw [same]
    exact allowed

theorem ReaperNode.Faithful.settled (faithful : node.Faithful)
    (owned : ∀ process ∈ next.table, process.Owned)
    (settles : Settles node.table next.table)
    (records : next.records = node.records) : next.Faithful := by
  refine ⟨owned, ?_⟩
  intro record member pid isChild
  rw [records] at member
  obtain ⟨status, found, result⟩ :=
    faithful.returned record member pid isChild
  exact ⟨status, settles pid _ found rfl, result⟩

theorem ReaperNode.Kept.interfere (kept : node.Kept)
    (owned : ∀ process ∈ next.table, process.Owned)
    (settles : Settles node.table next.table)
    (spares : ∀ id, Spares id node.table next.table)
    (runs : next.runs = node.runs) (records : next.records = node.records) :
    next.Kept := by
  refine ⟨kept.faithful.settled owned settles records, ?_⟩
  intro id run isRun
  rw [runs] at isRun
  exact (kept.runs id run isRun).spared (spares id)

theorem ReaperNode.Kept.update (kept : node.Kept)
    (faithful : next.Faithful) {run : Option ProcessRun}
    (runs : next.runs = Function.update node.runs id run)
    (own : ∀ current, run = some current →
      RunState next.table id current)
    (spares : ∀ other, other ≠ id → Spares other node.table next.table) :
    next.Kept := by
  refine ⟨faithful, ?_⟩
  intro other current isRun
  rw [runs] at isRun
  by_cases same : other = id
  · subst same
    rw [Function.update_self] at isRun
    exact own current isRun
  · rw [Function.update_of_ne same] at isRun
    exact (kept.runs other current isRun).spared (spares other same)

theorem Spares.refl (id : String) (table : List Process) :
    Spares id table table := by
  intro pid phase found
  exact ⟨phase, found, .inl rfl⟩

theorem ReaperNode.Kept.returns (kept : node.Kept) {child : Option Nat}
    {result : Except RunnerError RunOutcome}
    (collected : ∀ pid, child = some pid → ∃ status,
      node.table[pid]? = some ⟨some id, .collected status .runner⟩ ∧
        result = .ok (outcomeOf status)) :
    ReaperNode.Kept
      { node with
        runs := Function.update node.runs id none
        records := node.records ++ [⟨id, child, result⟩] } := by
  refine kept.update ⟨kept.faithful.owned, ?_⟩ rfl nofun
    fun other _ => Spares.refl other node.table
  intro record member pid isChild
  rcases List.mem_append.mp member with earlier | last
  · exact kept.faithful.returned record earlier pid isChild
  · rw [List.mem_singleton.mp last] at isChild ⊢
    exact collected pid isChild

theorem ReaperNode.Kept.spawned (kept : node.Kept) (id : String) :
    ReaperNode.Kept
      { node with
        table := node.table ++ [⟨some id, .running⟩]
        runs := Function.update node.runs id
          (some ⟨ProcessRunner.awaitChild id node.table.length,
            some node.table.length⟩) } := by
  refine kept.update
    (kept.faithful.settled (owned_append kept.faithful.owned rfl)
      (settles_append _ _) rfl) rfl ?_
    fun other _ => spares_append other _ _
  rintro current ⟨⟩
  have own : (node.table ++ [⟨some id, .running⟩])[node.table.length]? =
      some ⟨some id, .running⟩ :=
    List.getElem?_concat_length
  exact .waiting own rfl

theorem ReaperNode.Kept.collects (kept : node.Kept) {pid : Nat}
    {status : ExitStatus}
    (found : node.table[pid]? = some ⟨some id, .zombie status⟩) :
    ReaperNode.Kept
      { node with
        table := node.table.set pid ⟨some id, .collected status .runner⟩
        runs := Function.update node.runs id
          (some ⟨.done (.ok (outcomeOf status)), some pid⟩) } := by
  refine kept.update
    (kept.faithful.settled (owned_set kept.faithful.owned ?_)
      (settles_set found rfl) rfl) rfl ?_ ?_
  · rintro _ _ _ ⟨⟩
    rfl
  · rintro current ⟨⟩
    exact .ended (found_set found)
  · intro other different
    exact spares_set found (.inl fun same => different (Option.some.inj same).symm)

theorem ReaperNode.Kept.runner (kept : node.Kept) {run : ProcessRun}
    {choice : Option String} (isRun : node.runs id = some run)
    (stepped : node.runnerStep id run choice = some next) : next.Kept := by
  cases kept.runs id run isRun with
  | begun command =>
      cases command with
      | nil =>
          cases stepped
          exact kept.returns nofun
      | cons program arguments =>
          cases choice with
          | some message =>
              cases stepped
              refine kept.update (kept.faithful.settled kept.faithful.owned
                (fun _ _ found _ => found) rfl) rfl ?_
                fun other _ => Spares.refl other node.table
              rintro current ⟨⟩
              exact .failed _
          | none =>
              cases stepped
              exact kept.spawned id
  | failed error =>
      cases stepped
      exact kept.returns nofun
  | @waiting pid phase own uncollected =>
      simp only [ReaperNode.runnerStep, ProcessRunner.awaitChild,
        processMachine, own] at stepped
      cases phase with
      | running => cases stepped
      | zombie status =>
          cases stepped
          exact kept.collects own
      | collected status collector => cases uncollected
  | ended own =>
      cases stepped
      apply kept.returns
      rintro pid ⟨⟩
      exact ⟨_, own, rfl⟩

theorem ReaperNode.Kept.step (kept : node.Kept) {move : ReaperMove}
    (allowed : ReapsOrphans node move)
    (stepped : node.step move = some next) : next.Kept := by
  cases move with
  | begins id command =>
      simp only [ReaperNode.step] at stepped
      split at stepped
      · cases stepped
      · cases stepped
        refine kept.update (kept.faithful.settled kept.faithful.owned
          (fun _ _ found _ => found) rfl) rfl ?_
          fun other _ => Spares.refl other node.table
        rintro current ⟨⟩
        exact .begun command
  | runner id choice =>
      obtain ⟨run, isRun, moved⟩ := Option.bind_eq_some_iff.mp stepped
      exact kept.runner isRun moved
  | adopts =>
      cases stepped
      exact kept.interfere (owned_append kept.faithful.owned rfl)
        (settles_append _ _) (fun id => spares_append id _ _) rfl rfl
  | exits pid status =>
      simp only [ReaperNode.step] at stepped
      split at stepped
      · rename_i service found
        cases stepped
        exact kept.interfere (owned_set kept.faithful.owned nofun)
          (settles_set found rfl)
          (fun id => spares_set found (.inr ⟨rfl, rfl⟩)) rfl rfl
      · cases stepped
  | sigchld =>
      obtain ⟨_, same⟩ := Option.ite_none_right_eq_some.mp stepped
      cases same
      exact kept.interfere kept.faithful.owned (fun _ _ found _ => found)
        (fun id => Spares.refl id _) rfl rfl
  | reaps pid =>
      obtain ⟨_, collected⟩ := Option.ite_none_right_eq_some.mp stepped
      split at collected
      · rename_i service status found
        cases collected
        have orphan : service = none := by
          by_contra supervised
          have waits := allowed _ (List.mem_of_getElem? found) supervised
          cases waits
        subst orphan
        exact kept.interfere
          (owned_set kept.faithful.owned fun supervised => absurd rfl supervised)
          (settles_set found rfl) (fun id => spares_set found (.inl nofun))
          rfl rfl
      · cases collected
  | reapsNone =>
      obtain ⟨_, same⟩ := Option.ite_none_right_eq_some.mp stepped
      cases same
      exact kept.interfere kept.faithful.owned (fun _ _ found _ => found)
        (fun id => Spares.refl id _) rfl rfl

theorem ReaperNode.kept_of_initial (initial : reaperSystem.Initial node) :
    node.Kept := by
  obtain ⟨noTable, noRuns, noRecords, _⟩ := initial
  refine ⟨⟨?_, ?_⟩, ?_⟩
  · rw [noTable]
    nofun
  · rw [noRecords]
    nofun
  · rw [noRuns]
    nofun

theorem ReaperNode.steals (reaping : node.reaping = true)
    (waiting : ¬ node.NoneWaiting) :
    ∃ pid next, node.step (.reaps pid) = some next ∧ ¬ next.Faithful := by
  simp only [ReaperNode.NoneWaiting, not_forall] at waiting
  obtain ⟨⟨service, phase⟩, member, supervised, isZombie⟩ := waiting
  obtain ⟨pid, found⟩ := List.getElem?_of_mem member
  cases phase with
  | running => exact absurd rfl isZombie
  | collected status collector => exact absurd rfl isZombie
  | zombie status =>
      refine ⟨pid, { node with
        table := node.table.set pid ⟨service, .collected status .reaper⟩ },
        ?_, ?_⟩
      · simp only [ReaperNode.step, reaping, found, if_true]
      · intro faithful
        have stolen := faithful.owned ⟨service, .collected status .reaper⟩
          (List.mem_of_getElem? (found_set found)) supervised status .reaper
          rfl
        cases stolen

end Steps

/-- As long as the reaper waits only while no exited child of a service is left
to its runner, every run returns what its child exited with; and whenever the
reaper waits otherwise, it can take a child from its runner. -/
theorem reaper_spares_services {start node : ReaperNode}
    {moves : List ReaperMove} (initial : reaperSystem.Initial start)
    (meets : reaperSystem.MeetsAll ReapsOrphans start moves)
    (ran : reaperSystem.run start moves = some node) :
    node.Faithful ∧
      (node.reaping = true → ¬ node.NoneWaiting →
        ∃ pid next, node.step (.reaps pid) = some next ∧
          ¬ next.Faithful) := by
  have preserved : ∀ state move after, ReapsOrphans state move →
      reaperSystem.step state move = some after →
        state.Kept → after.Kept := by
    intro state move after allowed stepped kept
    exact kept.step allowed stepped
  have kept : node.Kept :=
    System.run_invariant_of_meetsAll preserved meets ran
      (ReaperNode.kept_of_initial initial)
  exact ⟨kept.faithful, fun reaping waiting =>
    ReaperNode.steals reaping waiting⟩

def reaperStart : ReaperNode :=
  { table := []
    runs := fun _ => none
    records := []
    signalled := false
    reaping := false }

/-- The runner of `kubelet` collects its child, then the reaper an orphan. -/
theorem reaper_spares_services_orphan :
    ∃ node, reaperSystem.run reaperStart
        [.begins "kubelet" ["kubelet"], .runner "kubelet" none, .adopts,
          .exits 0 (.exited 0), .runner "kubelet" none, .exits 1 (.exited 1),
          .sigchld, .reaps 1, .runner "kubelet" none, .reapsNone] =
        some node ∧
      node.records = [⟨"kubelet", some 0, .ok .success⟩] ∧
      node.Faithful := by
  have computed : (reaperSystem.run reaperStart
      [.begins "kubelet" ["kubelet"], .runner "kubelet" none, .adopts,
        .exits 0 (.exited 0), .runner "kubelet" none, .exits 1 (.exited 1),
        .sigchld, .reaps 1, .runner "kubelet" none, .reapsNone]).map
        ReaperNode.records =
      some [⟨"kubelet", some 0, .ok .success⟩] := by
    decide +kernel
  obtain ⟨node, ran, records⟩ := Option.map_eq_some_iff.mp computed
  refine ⟨node, ran, records, ?_⟩
  exact (reaper_spares_services ⟨rfl, rfl, rfl, rfl, rfl⟩ (by
    decide +kernel) ran).1

/-- The reaper is faster than the runner: the child of `kubelet` has exited with
0 and its run returns an error. -/
theorem reaper_steals_status :
    ∃ node, reaperSystem.run reaperStart
        [.begins "kubelet" ["kubelet"], .runner "kubelet" none,
          .exits 0 (.exited 0), .sigchld, .reaps 0, .runner "kubelet" none,
          .runner "kubelet" none] = some node ∧
      node.table = [⟨some "kubelet", .collected (.exited 0) .reaper⟩] ∧
      node.records = [⟨"kubelet", some 0,
        .error (.other
          "wait kubelet: No child processes (os error 10)")⟩] := by
  have computed : (reaperSystem.run reaperStart
      [.begins "kubelet" ["kubelet"], .runner "kubelet" none,
        .exits 0 (.exited 0), .sigchld, .reaps 0, .runner "kubelet" none,
        .runner "kubelet" none]).map (fun node => (node.table, node.records)) =
      some ([⟨some "kubelet", .collected (.exited 0) .reaper⟩],
        [⟨"kubelet", some 0, .error (.other
          "wait kubelet: No child processes (os error 10)")⟩]) := by
    decide +kernel
  obtain ⟨node, ran, same⟩ := Option.map_eq_some_iff.mp computed
  injection same with table records
  exact ⟨node, ran, table, records⟩

end MachinedRs
