import MachinedRs.Block.Discovery
import MachinedRs.Block.Pass
import MachinedRs.Block.Provision
import MachinedRs.Foundation.System

/-!
# Laying out the disk during one boot

Discovery scans once, and nobody refreshes what it published.  A wake that
reaches the provisioner after it has laid out the disk therefore shows it the
disk as it was before.  The system is the boot: discovery's single pass, the
provisioner inside its controller loop, the store and the event channel between
them, and a backend that may return anything.
-/

namespace MachinedRs

open Foundation

/-- The backend call, if it was one, returned `Ok`. -/
def callSucceeded : blockControllerSignature.Exchange → Bool
  | ⟨.inl _, _⟩ => true
  | ⟨.inr _, .ok _⟩ => true
  | ⟨.inr _, .error _⟩ => false

def isCreatePartitions : blockControllerSignature.Exchange → Bool
  | ⟨.inr (.createPartitions _ _), _⟩ => true
  | _ => false

def isWipe : blockControllerSignature.Exchange → Bool
  | ⟨.inr (.wipe _), _⟩ => true
  | _ => false

/-- Of a pass that has ended: it got through its layout, every call having
succeeded. -/
def laidOut (log : PassLog) : Bool :=
  log.any isCreatePartitions && log.all callSucceeded

def destructive (log : PassLog) : Bool :=
  log.any fun exchange => isWipe exchange || isCreatePartitions exchange

structure Boot where
  objects : Objects
  sent : List Event
  discovery : Pass
  loop : Loop Pass
  /-- The logs of the provisioner's passes that have ended. -/
  passes : List PassLog

inductive BootMove where
  | discovery (choice : Choice)
  | discoveryEmit
  | loop (move : LoopMove)
  | pass (choice : Choice)
  | passEmit
deriving DecidableEq, Repr

namespace Boot

def provisionerLoop (install : InstallSection) : LoopConfig Pass :=
  { inputs := VolumeProvisioner.inputs
    resync := false
    capacity := channelCapacity
    reconcile := Pass.begin (VolumeProvisioner.reconcile (some install))
    finished := Pass.finished }

def start : Boot :=
  { objects := ∅
    sent := []
    discovery := Pass.begin DiskDiscovery.reconcile
    loop := { phase := .starting, position := 0 }
    passes := [] }

/-- The log of the pass in progress, if there is one. -/
def present (boot : Boot) : List PassLog :=
  match boot.loop.phase with
  | .reconciling pass => [pass.log]
  | _ => []

/-- The logs of all passes of the provisioner, in order. -/
def logs (boot : Boot) : List PassLog :=
  boot.passes ++ boot.present

def step (install : InstallSection) (boot : Boot) : BootMove → Option Boot
  | .discovery choice =>
      (boot.discovery.step boot.objects choice).map fun (pass, objects) =>
        { boot with discovery := pass, objects := objects }
  | .discoveryEmit =>
      boot.discovery.emit.map fun (pass, event) =>
        { boot with discovery := pass, sent := boot.sent ++ [event] }
  | .loop move =>
      (boot.loop.step (provisionerLoop install) boot.sent move).map
        fun loop =>
          { boot with
            loop := loop
            passes := boot.passes ++
              if move = .reconcileEnds then boot.present else [] }
  | .pass choice =>
      match boot.loop.phase with
      | .reconciling pass =>
          (pass.step boot.objects choice).map fun (next, objects) =>
            { boot with
              loop := { boot.loop with phase := .reconciling next }
              objects := objects }
      | _ => none
  | .passEmit =>
      match boot.loop.phase with
      | .reconciling pass =>
          pass.emit.map fun (next, event) =>
            { boot with
              loop := { boot.loop with phase := .reconciling next }
              sent := boot.sent ++ [event] }
      | _ => none

/-- After a pass that laid out the disk, no pass is destructive. -/
def LaidOutOnce (boot : Boot) : Prop :=
  boot.logs.Pairwise fun earlier later =>
    laidOut earlier = true → destructive later = false

instance (boot : Boot) : Decidable boot.LaidOutOnce :=
  inferInstanceAs (Decidable (boot.logs.Pairwise fun earlier later =>
    laidOut earlier = true → destructive later = false))

/-- Discovery has sent its last event, and nothing that is still in the channel
wakes the provisioner. -/
structure Quiet (boot : Boot) : Prop where
  discovered : boot.discovery.finished = true
  read : ∀ event ∈ boot.sent.drop boot.loop.position,
    matchesInputs VolumeProvisioner.inputs event = false
  fits : boot.sent.length ≤ boot.loop.position + channelCapacity

instance (boot : Boot) : Decidable boot.Quiet :=
  decidable_of_iff
    (boot.discovery.finished = true ∧
      (∀ event ∈ boot.sent.drop boot.loop.position,
        matchesInputs VolumeProvisioner.inputs event = false) ∧
      boot.sent.length ≤ boot.loop.position + channelCapacity)
    ⟨fun ⟨discovered, read, fits⟩ => ⟨discovered, read, fits⟩,
      fun quiet => ⟨quiet.discovered, quiet.read, quiet.fits⟩⟩

/-- A pass that laid out the disk ends only when the boot is quiet. -/
def EndsQuietly (boot : Boot) (move : BootMove) : Prop :=
  move = .loop .reconcileEnds → boot.present.any laidOut = true → boot.Quiet

instance (boot : Boot) (move : BootMove) :
    Decidable (boot.EndsQuietly move) :=
  inferInstanceAs (Decidable (move = .loop .reconcileEnds →
    boot.present.any laidOut = true → boot.Quiet))

end Boot

def bootSystem (install : InstallSection) : System Boot BootMove :=
  { Initial := fun boot => boot = Boot.start
    step := Boot.step install }

namespace Boot

/-- Some pass has laid out the disk. -/
def Finished (boot : Boot) : Prop :=
  ∃ log ∈ boot.passes, laidOut log = true

/-- What every step keeps: once the disk is laid out, the loop waits for events
that do not come. -/
structure Safe (boot : Boot) : Prop where
  ended : boot.passes.Pairwise fun earlier later =>
    laidOut earlier = true → destructive later = false
  settled : boot.Finished → boot.Quiet ∧
    (boot.loop.phase = .selecting ∨ boot.loop.phase = .stopped)

variable {install : InstallSection} {boot next : Boot}

theorem Safe.of_phase (safe : boot.Safe)
    (waiting : boot.loop.phase ≠ .selecting)
    (running : boot.loop.phase ≠ .stopped) : ¬ boot.Finished := by
  intro finished
  rcases (safe.settled finished).2 with selecting | stopped
  · exact waiting selecting
  · exact running stopped

theorem Safe.of_unfinished (safe : boot.Safe)
    (passes : next.passes = boot.passes) (unfinished : ¬ boot.Finished) :
    next.Safe := by
  constructor
  · rw [passes]
    exact safe.ended
  · intro finished
    rw [Finished, passes] at finished
    exact (unfinished finished).elim

theorem Safe.of_waiting (safe : boot.Safe)
    (passes : next.passes = boot.passes)
    (quiet : boot.Quiet → next.Quiet)
    (waiting : next.loop.phase = .selecting ∨ next.loop.phase = .stopped) :
    next.Safe := by
  constructor
  · rw [passes]
    exact safe.ended
  · intro finished
    rw [Finished, passes] at finished
    exact ⟨quiet (safe.settled finished).1, waiting⟩

theorem Safe.discovery (safe : boot.Safe) {choice : Choice}
    (stepped : boot.step install (.discovery choice) = some next) :
    next.Safe := by
  obtain ⟨⟨pass, objects⟩, passed, rfl⟩ := Option.map_eq_some_iff.mp stepped
  refine safe.of_unfinished rfl ?_
  intro finished
  have discovered := (safe.settled finished).1.discovered
  obtain ⟨operation, rest, answer, program, _⟩ := Pass.step_spec passed
  rw [Pass.finished, program] at discovered
  simp [Program.isDone] at discovered

theorem Safe.discoveryEmit (safe : boot.Safe)
    (stepped : boot.step install .discoveryEmit = some next) :
    next.Safe := by
  obtain ⟨⟨pass, event⟩, emitted, rfl⟩ := Option.map_eq_some_iff.mp stepped
  refine safe.of_unfinished rfl ?_
  intro finished
  have discovered := (safe.settled finished).1.discovered
  rw [Pass.finished, Bool.and_eq_true, List.isEmpty_iff] at discovered
  rw [Pass.emit, discovered.2] at emitted
  cases emitted

theorem Safe.pass (safe : boot.Safe) {choice : Choice}
    (stepped : boot.step install (.pass choice) = some next) :
    next.Safe := by
  simp only [step] at stepped
  split at stepped
  · rename_i pass phase
    obtain ⟨_, _, rfl⟩ := Option.map_eq_some_iff.mp stepped
    refine safe.of_unfinished rfl (safe.of_phase ?_ ?_)
    · simp [phase]
    · simp [phase]
  · cases stepped

theorem Safe.passEmit (safe : boot.Safe)
    (stepped : boot.step install .passEmit = some next) :
    next.Safe := by
  simp only [step] at stepped
  split at stepped
  · rename_i pass phase
    obtain ⟨_, _, rfl⟩ := Option.map_eq_some_iff.mp stepped
    refine safe.of_unfinished rfl (safe.of_phase ?_ ?_)
    · simp [phase]
    · simp [phase]
  · cases stepped

theorem Quiet.not_wakes (quiet : boot.Quiet)
    (cause : (∃ event, boot.sent[boot.loop.position]? = some event ∧
        matchesInputs VolumeProvisioner.inputs event = true) ∨
      boot.loop.position + channelCapacity < boot.sent.length) : False := by
  rcases cause with ⟨event, found, matching⟩ | behind
  · have ahead : event ∈ boot.sent.drop boot.loop.position := by
      apply List.mem_of_getElem? (i := 0)
      rw [List.getElem?_drop]
      exact found
    rw [quiet.read event ahead] at matching
    cases matching
  · exact Nat.not_lt_of_le quiet.fits behind

theorem Quiet.skip {objects : Objects} {sent : List Event} {discovery : Pass}
    {phase : LoopPhase Pass} {position : Nat} {passes after : List PassLog}
    (quiet : Quiet ⟨objects, sent, discovery, ⟨phase, position⟩, passes⟩) :
    Quiet ⟨objects, sent, discovery, ⟨phase, position + 1⟩, after⟩ := by
  refine ⟨quiet.discovered, ?_, ?_⟩
  · intro event ahead
    apply quiet.read event
    rw [← List.drop_drop] at ahead
    exact List.mem_of_mem_drop ahead
  · have fits := quiet.fits
    dsimp only at fits ⊢
    omega

theorem Safe.ends {objects : Objects} {sent : List Event} {discovery : Pass}
    {activity : Pass} {position : Nat} {passes : List PassLog}
    (safe : Safe
      ⟨objects, sent, discovery, ⟨.reconciling activity, position⟩, passes⟩)
    (quietly : laidOut activity.log = true → Quiet
      ⟨objects, sent, discovery, ⟨.reconciling activity, position⟩, passes⟩) :
    Safe ⟨objects, sent, discovery, ⟨.selecting, position⟩,
      passes ++ [activity.log]⟩ := by
  have unfinished : ∀ log ∈ passes, laidOut log = false := by
    intro log member
    rw [← Bool.not_eq_true]
    intro finished
    exact safe.of_phase (by simp) (by simp) ⟨log, member, finished⟩
  constructor
  · apply List.pairwise_append.mpr
    refine ⟨safe.ended, List.pairwise_singleton _ _, ?_⟩
    intro earlier member later _ finished
    rw [unfinished earlier member] at finished
    cases finished
  · rintro ⟨log, member, finished⟩
    rcases List.mem_append.mp member with before | last
    · rw [unfinished log before] at finished
      cases finished
    · rw [List.mem_singleton] at last
      subst last
      have quiet := quietly finished
      exact ⟨⟨quiet.discovered, quiet.read, quiet.fits⟩, .inl rfl⟩

theorem Safe.loop (safe : boot.Safe) {move : LoopMove}
    (quietly : boot.EndsQuietly (.loop move))
    (stepped : boot.step install (.loop move) = some next) :
    next.Safe := by
  obtain ⟨following, moved, rfl⟩ := Option.map_eq_some_iff.mp stepped
  obtain ⟨objects, sent, discovery, previous, passes⟩ := boot
  cases Loop.step_spec moved with
  | subscribes =>
      apply safe.of_unfinished (List.append_nil _)
      exact safe.of_phase (by simp) (by simp)
  | @begins _ phase position beginning due =>
      have notEnds : move ≠ .reconcileEnds := by
        rintro rfl
        cases beginning
      apply safe.of_unfinished
      · simp [notEnds]
      · rcases due with rfl | rfl | ⟨_, resync⟩
        · exact safe.of_phase (by simp) (by simp)
        · exact safe.of_phase (by simp) (by simp)
        · cases resync
  | ends finished =>
      apply safe.ends
      intro laid
      apply quietly rfl
      simp [present, laid]
  | skips found ignored =>
      apply safe.of_waiting (List.append_nil _) _ (.inl rfl)
      intro quiet
      exact quiet.skip
  | wakes within cause =>
      apply safe.of_unfinished (List.append_nil _)
      intro finished
      exact (safe.settled finished).1.not_wakes cause
  | @drains _ phase nextPhase position following quiet before after within =>
      have unfinished : ¬ Finished
          ⟨objects, sent, discovery, ⟨phase, position⟩, passes⟩ := by
        rcases before with rfl | rfl
        · exact safe.of_phase (by simp) (by simp)
        · exact safe.of_phase (by simp) (by simp)
      apply safe.of_unfinished _ unfinished
      have notEnds : move ≠ .reconcileEnds := by
        rintro rfl
        rcases before with rfl | rfl
        · cases moved
        · cases moved
      simp [notEnds]
  | stops =>
      apply safe.of_waiting (List.append_nil _) _ (.inr rfl)
      intro quiet
      exact ⟨quiet.discovered, quiet.read, quiet.fits⟩

theorem Safe.step (safe : boot.Safe) {move : BootMove}
    (quietly : boot.EndsQuietly move)
    (stepped : boot.step install move = some next) : next.Safe := by
  cases move with
  | discovery choice => exact safe.discovery stepped
  | discoveryEmit => exact safe.discoveryEmit stepped
  | loop move => exact safe.loop quietly stepped
  | pass choice => exact safe.pass stepped
  | passEmit => exact safe.passEmit stepped

theorem safe_start : start.Safe := by
  constructor
  · exact List.Pairwise.nil
  · rintro ⟨log, member, _⟩
    simp [start] at member

theorem Safe.laidOutOnce (safe : boot.Safe) : boot.LaidOutOnce := by
  apply List.pairwise_append.mpr
  refine ⟨safe.ended, ?_, ?_⟩
  · unfold present
    split
    · exact List.pairwise_singleton _ _
    · exact List.Pairwise.nil
  · intro earlier member later inProgress laid
    rcases (safe.settled ⟨earlier, member, laid⟩).2 with selecting | stopped
    · simp [present, selecting] at inProgress
    · simp [present, stopped] at inProgress

end Boot

/-- A boot in which every pass that laid out the disk ends quietly lays it out
at most once. -/
theorem laidOutOnce_of_endsQuietly (install : InstallSection)
    (moves : List BootMove) (final : Boot)
    (quietly :
      (bootSystem install).MeetsAll Boot.EndsQuietly Boot.start moves)
    (result : (bootSystem install).run Boot.start moves = some final) :
    final.LaidOutOnce := by
  have safe : final.Safe :=
    System.run_invariant_of_meetsAll
      (fun _ _ _ quietly stepped safe => safe.step quietly stepped)
      quietly result Boot.safe_start
  exact safe.laidOutOnce

/-! The runs of the two boots below differ only in when the provisioner
subscribes. -/

/-- The backend of a blank disk. -/
def blankReply : Reply :=
  { failure := none
    disks := [sda]
    volumes := []
    devices := ["/dev/sda1", "/dev/sda2", "/dev/sda3"] }

/-- Discovery finds the disk without volumes and publishes its status. -/
def discoverBlankDisk : List BootMove :=
  let status := (DiskDiscovery.diskObject sda).withOwner
    DiskDiscovery.owner
  [.discovery ⟨[], blankReply⟩, .discovery ⟨[], blankReply⟩,
    .discovery ⟨[], blankReply⟩, .discovery ⟨[], blankReply⟩,
    .discovery ⟨[], blankReply⟩, .discoveryEmit,
    .discovery ⟨[status.fresh], blankReply⟩]

/-- A pass that partitions and formats the disk and publishes three volumes. -/
def layOutBlankDisk : List BootMove :=
  let published := (fixedLayout.zip blankReply.devices).map fun
    (plan, device) =>
      ((volumeStatusObj plan.label device plan.fs.asStr plan.label
        .provisioned).withOwner VolumeProvisioner.owner).fresh
  let step : BootMove := .pass ⟨[], blankReply⟩
  [.loop .reconcileBegins, step, step, step, step, step, step,
    step, step, .passEmit, step, step, .passEmit, step, step, .passEmit,
    .pass ⟨published, blankReply⟩, .loop .reconcileEnds]

/-- The provisioner subscribes after discovery has finished; its own events do
not wake it. -/
def subscribedLate : List BootMove :=
  discoverBlankDisk ++ [.loop .watch] ++ layOutBlankDisk ++
    [.loop .recv, .loop .recv, .loop .recv]

theorem laidOutOnce_of_endsQuietly_subscribedLate :
    ∃ final, (bootSystem ⟨"/dev/sda", true⟩).run Boot.start subscribedLate =
        some final ∧
      final.passes.any laidOut = true ∧ final.LaidOutOnce := by
  have computed : ((bootSystem ⟨"/dev/sda", true⟩).run Boot.start
      subscribedLate).map (fun final => final.passes.any laidOut) =
        some true := by
    decide
  obtain ⟨final, result, laid⟩ := Option.map_eq_some_iff.mp computed
  exact ⟨final, result, laid,
    laidOutOnce_of_endsQuietly _ subscribedLate final (by decide) result⟩

/-- The provisioner subscribes before discovery publishes.  Its initial pass
lays out the disk; then the queued event wakes it, and the volumes in the store
still show the blank disk. -/
def subscribedEarly : List BootMove :=
  [.loop .watch] ++ discoverBlankDisk ++ layOutBlankDisk ++
    [.loop .recv, .loop .debounced, .loop .tryRecv, .loop .tryRecv,
      .loop .tryRecv, .loop .tryRecv, .loop .reconcileBegins,
      .pass ⟨[], blankReply⟩, .pass ⟨[], blankReply⟩,
      .pass ⟨[], blankReply⟩]

theorem laid_out_twice_subscribedEarly :
    ∃ final, (bootSystem ⟨"/dev/sda", true⟩).run Boot.start subscribedEarly =
        some final ∧ ¬ final.LaidOutOnce := by
  have computed : ((bootSystem ⟨"/dev/sda", true⟩).run Boot.start
      subscribedEarly).map (fun final => decide final.LaidOutOnce) =
        some false := by
    decide
  obtain ⟨final, result, twice⟩ := Option.map_eq_some_iff.mp computed
  exact ⟨final, result, of_decide_eq_false twice⟩

end MachinedRs
