import MachinedRs.Block.Discovery
import MachinedRs.Block.Pass
import MachinedRs.Block.Provision
import MachinedRs.Foundation.System

/-!
# Without `wipe` nothing is destroyed

A pass is judged by its log.  The log of every pass under `wipe = false`
satisfies `NonDestructive`, whatever the store holds, whatever the backend
returns and wherever the pass stands.
-/

namespace MachinedRs

open Foundation

/-- The pass has made this call; the answer may still be an error. -/
def Called (log : PassLog) (call : BlockCall) : Prop :=
  ∃ answer, (⟨.inr call, answer⟩ : blockControllerSignature.Exchange) ∈ log

/-- The pass has read the discovered volumes and found a single one on the
install disk, labelled EFI. -/
def SawImage (installDisk : String) (log : PassLog) : Prop :=
  ∃ listing volume,
    (⟨.inl (.list blockNs .discoveredVolume), listing⟩ :
      blockControllerSignature.Exchange) ∈ log ∧
    (VolumeProvisioner.discoveredSpecs listing).filter
      (onInstallDisk installDisk) = [volume] ∧
    volume.partitionLabel = "EFI"

/-- The pass has appended partitions and got this device for one of them. -/
def Appended (log : PassLog) (device : String) : Prop :=
  ∃ disk plan, ∃ devices : List String,
    (⟨.inr (.addPartitions disk plan), .ok devices⟩ :
      blockControllerSignature.Exchange) ∈ log ∧ device ∈ devices

structure NonDestructive (installDisk : String) (log : PassLog) : Prop where
  noWipe : ∀ disk, ¬ Called log (.wipe disk)
  noCreate : ∀ disk plan, ¬ Called log (.createPartitions disk plan)
  adds : ∀ disk plan, Called log (.addPartitions disk plan) →
    SawImage installDisk log ∧ ∀ entry ∈ plan, entry.label ≠ "EFI"
  formats : ∀ device fs label, Called log (.format device fs label) →
    (label = "STATE" ∨ label = "EPHEMERAL") ∧ Appended log device

section Logs

variable {installDisk : String} {log : PassLog}
  {exchange : blockControllerSignature.Exchange}

theorem SawImage.append (saw : SawImage installDisk log) (later : PassLog) :
    SawImage installDisk (log ++ later) := by
  obtain ⟨listing, volume, member, single, label⟩ := saw
  exact ⟨listing, volume, List.mem_append_left _ member, single, label⟩

theorem Appended.append {device : String} (appended : Appended log device)
    (later : PassLog) : Appended (log ++ later) device := by
  obtain ⟨disk, plan, devices, member, listed⟩ := appended
  exact ⟨disk, plan, devices, List.mem_append_left _ member, listed⟩

theorem called_append_singleton {call : BlockCall}
    (called : Called (log ++ [exchange]) call) :
    Called log call ∨ exchange.1 = .inr call := by
  obtain ⟨answer, member⟩ := called
  rcases List.mem_append.mp member with earlier | last
  · exact .inl ⟨answer, earlier⟩
  · right
    rw [List.mem_singleton] at last
    rw [← last]

theorem nonDestructive_nil : NonDestructive installDisk [] := by
  constructor
  all_goals simp [Called]

namespace NonDestructive

/-- An exchange keeps the log harmless if it is neither a wipe nor a fresh
partition table, and an append or a format only where the log allows it. -/
theorem extend (safe : NonDestructive installDisk log)
    (notWipe : ∀ disk, exchange.1 ≠ .inr (.wipe disk))
    (notCreate : ∀ disk plan, exchange.1 ≠ .inr (.createPartitions disk plan))
    (added : ∀ disk plan, exchange.1 = .inr (.addPartitions disk plan) →
      SawImage installDisk log ∧ ∀ entry ∈ plan, entry.label ≠ "EFI")
    (formatted : ∀ device fs label,
      exchange.1 = .inr (.format device fs label) →
      (label = "STATE" ∨ label = "EPHEMERAL") ∧ Appended log device) :
    NonDestructive installDisk (log ++ [exchange]) := by
  constructor
  · intro disk called
    rcases called_append_singleton called with earlier | last
    · exact safe.noWipe disk earlier
    · exact notWipe disk last
  · intro disk plan called
    rcases called_append_singleton called with earlier | last
    · exact safe.noCreate disk plan earlier
    · exact notCreate disk plan last
  · intro disk plan called
    have allowed : SawImage installDisk log ∧
        ∀ entry ∈ plan, entry.label ≠ "EFI" := by
      rcases called_append_singleton called with earlier | last
      · exact safe.adds disk plan earlier
      · exact added disk plan last
    exact ⟨allowed.1.append _, allowed.2⟩
  · intro device fs label called
    have allowed : (label = "STATE" ∨ label = "EPHEMERAL") ∧
        Appended log device := by
      rcases called_append_singleton called with earlier | last
      · exact safe.formats device fs label earlier
      · exact formatted device fs label last
    exact ⟨allowed.1, allowed.2.append _⟩

theorem store (safe : NonDestructive installDisk log) (operation : Op)
    (answer : operation.Answer) :
    NonDestructive installDisk (log ++ [⟨.inl operation, answer⟩]) := by
  apply safe.extend
  all_goals simp

end NonDestructive

end Logs

theorem wipe_of_provision {installDisk : String} {wipe : Bool}
    {discovered : List DiscoveredVolume}
    (decision : planProvisioning installDisk wipe discovered = .provision) :
    wipe = true := by
  unfold planProvisioning at decision
  dsimp only at decision
  split at decision
  · cases decision
  · split at decision
    · assumption
    · split at decision <;> cases decision

theorem image_of_completeLayout {installDisk : String} {wipe : Bool}
    {discovered : List DiscoveredVolume}
    (decision :
      planProvisioning installDisk wipe discovered = .completeLayout) :
    ∃ volume, discovered.filter (onInstallDisk installDisk) = [volume] ∧
      volume.partitionLabel = "EFI" := by
  unfold planProvisioning at decision
  dsimp only at decision
  split at decision
  · cases decision
  · split at decision
    · cases decision
    · split at decision
      · rename_i image
        rw [Bool.and_eq_true, decide_eq_true_eq, decide_eq_true_eq] at image
        obtain ⟨single, labels⟩ := image
        obtain ⟨volume, isSingle⟩ := List.length_eq_one_iff.mp single
        rw [isSingle] at labels
        refine ⟨volume, isSingle, ?_⟩
        simpa using labels
      · cases decision

namespace VolumeProvisioner

variable {install : InstallSection} {log : PassLog}

/-- Every continuation of this program keeps the log harmless. -/
abbrev Harmless (installDisk : String) {α : Type}
    (program : Program blockControllerSignature α) (log : PassLog) : Prop :=
  (Setting.recording (NonDestructive installDisk)).Protected
    (fun _ _ => True) program log

theorem harmless_done {α : Type} {installDisk : String}
    (safe : NonDestructive installDisk log) (value : α) :
    Harmless installDisk (.done value) log :=
  (Setting.recording_alone _).done safe trivial

theorem harmless_publish {installDisk : String}
    (safe : NonDestructive installDisk log) (statuses : List ResourceObject) :
    Harmless installDisk (publish statuses) log := by
  apply Setting.recording_inl
  · intro log operation answer safe
    exact safe.store operation answer
  · exact safe

theorem harmless_formatAll {installDisk : String}
    (pairs : List (PartitionPlan × String)) (statuses : List ResourceObject)
    (labels : ∀ pair ∈ pairs,
      pair.1.label = "STATE" ∨ pair.1.label = "EPHEMERAL")
    (devices : ∀ pair ∈ pairs, Appended log pair.2)
    (safe : NonDestructive installDisk log) :
    (Setting.recording (NonDestructive installDisk)).Protected
      (fun _ after => NonDestructive installDisk after)
      (formatAll pairs statuses) log := by
  induction pairs generalizing statuses log with
  | nil => exact (Setting.recording_alone _).done safe safe
  | cons pair pairs induction =>
      apply Setting.recording_call safe
      intro answer
      have formatted : NonDestructive installDisk
          (log ++ [⟨.inr (.format pair.2 pair.1.fs pair.1.label),
            answer⟩]) := by
        apply safe.extend
        · simp
        · simp
        · simp
        · intro device fs label same
          cases same
          exact ⟨labels pair List.mem_cons_self,
            devices pair List.mem_cons_self⟩
      cases answer with
      | error error => exact (Setting.recording_alone _).done formatted formatted
      | ok value =>
          apply induction
          · intro other member
            exact labels other (List.mem_cons_of_mem _ member)
          · intro other member
            exact (devices other (List.mem_cons_of_mem _ member)).append _
          · exact formatted

theorem harmless_completeLayout (discovered : List DiscoveredVolume)
    (saw : SawImage install.disk log)
    (safe : NonDestructive install.disk log) :
    Harmless install.disk (completeLayout install discovered) log := by
  apply Setting.recording_call safe
  intro answer
  have added : NonDestructive install.disk
      (log ++ [⟨.inr (.addPartitions install.disk appendedLayout),
        answer⟩]) := by
    apply safe.extend
    · simp
    · simp
    · intro disk plan same
      cases same
      refine ⟨saw, ?_⟩
      intro entry member
      rcases appendedLayout_labels member with label | label
      all_goals
        rw [label]
        decide
    · simp
  cases answer with
  | error error => exact harmless_done added _
  | ok devices =>
      apply Setting.Protected.bind
      apply Setting.Protected.mono _
        (harmless_formatAll _ _ ?_ ?_ added)
      · intro formatted after safe
        refine Setting.Protected.attempt (fun _ => harmless_done safe _) ?_
        intro statuses _
        exact harmless_publish safe statuses
      · intro pair member
        exact appendedLayout_labels (List.of_mem_zip member).1
      · intro pair member
        exact ⟨install.disk, appendedLayout, devices,
          List.mem_append_right _ (List.mem_singleton_self _),
          (List.of_mem_zip member).2⟩

theorem harmless_reconcile (keeps : install.wipe = false) :
    Harmless install.disk (reconcile (some install)) [] := by
  apply Setting.recording_call nonDestructive_nil
  intro found
  have foundSafe : NonDestructive install.disk
      ([] ++ [⟨.inl (.get ⟨blockNs, .diskStatus, leaf install.disk⟩),
        found⟩]) :=
    nonDestructive_nil.store
      (.get ⟨blockNs, .diskStatus, leaf install.disk⟩) found
  cases found with
  | error error => exact harmless_done foundSafe _
  | ok status =>
      apply Setting.recording_call foundSafe
      intro listing
      have listedSafe := foundSafe.store (.list blockNs .discoveredVolume)
        listing
      dsimp only
      unfold carryOut carryOutPlan
      split
      · exact harmless_done listedSafe _
      · exact harmless_publish listedSafe _
      · rename_i decision
        have wipe := wipe_of_provision decision
        rw [keeps] at wipe
        cases wipe
      · rename_i decision
        obtain ⟨volume, single, label⟩ := image_of_completeLayout decision
        apply harmless_completeLayout _ _ listedSafe
        exact ⟨listing, volume,
          List.mem_append_right _ (List.mem_singleton_self _), single, label⟩

end VolumeProvisioner

/-- The provisioner over a store that others write to: its present pass and
the logs of its earlier ones. -/
structure Provisioning where
  objects : Objects
  pass : Pass
  earlier : List PassLog

inductive ProvisioningMove where
  | begin
  | pass (choice : Choice)
  | emit
  | other (operation : Op)
deriving DecidableEq, Repr

namespace Provisioning

def step (install : Option InstallSection) (state : Provisioning) :
    ProvisioningMove → Option Provisioning
  | .begin =>
      if state.pass.finished then
        some { state with
          pass := Pass.begin (VolumeProvisioner.reconcile install)
          earlier := state.earlier ++ [state.pass.log] }
      else
        none
  | .pass choice =>
      (state.pass.step state.objects choice).map fun (pass, objects) =>
        { state with pass := pass, objects := objects }
  | .emit =>
      state.pass.emit.map fun (pass, _) => { state with pass := pass }
  | .other operation =>
      some { state with objects := operation.after state.objects }

end Provisioning

/-- The store may hold anything, and the first pass is about to begin. -/
def provisioningSystem (install : Option InstallSection) :
    System Provisioning ProvisioningMove :=
  { Initial := fun state =>
      state.pass = Pass.begin (VolumeProvisioner.reconcile install) ∧
        state.earlier = []
    step := Provisioning.step install }

/-- The logs of all passes, the one in progress included. -/
def Provisioning.logs (state : Provisioning) : List PassLog :=
  state.earlier ++ [state.pass.log]

/-- What every step keeps: earlier passes were harmless, and so is the present
one however it goes on. -/
structure Provisioning.Harmless (installDisk : String)
    (state : Provisioning) : Prop where
  earlier : ∀ log ∈ state.earlier, NonDestructive installDisk log
  present : VolumeProvisioner.Harmless installDisk state.pass.program
    state.pass.log

theorem Provisioning.Harmless.logs {installDisk : String}
    {state : Provisioning} (harmless : state.Harmless installDisk) :
    ∀ log ∈ state.logs, NonDestructive installDisk log := by
  intro log member
  rcases List.mem_append.mp member with before | last
  · exact harmless.earlier log before
  · rw [List.mem_singleton] at last
    rw [last]
    exact harmless.present.holds

theorem Provisioning.Harmless.step {install : InstallSection}
    (keeps : install.wipe = false) {state next : Provisioning}
    (harmless : state.Harmless install.disk) {move : ProvisioningMove}
    (stepped : state.step (some install) move = some next) :
    next.Harmless install.disk := by
  cases move with
  | begin =>
      simp only [Provisioning.step, Option.ite_none_right_eq_some,
        Option.some.injEq] at stepped
      obtain ⟨_, rfl⟩ := stepped
      exact ⟨harmless.logs, VolumeProvisioner.harmless_reconcile keeps⟩
  | pass choice =>
      obtain ⟨⟨pass, objects⟩, passed, rfl⟩ := Option.map_eq_some_iff.mp stepped
      obtain ⟨operation, rest, answer, program, nextProgram, nextLog⟩ :=
        Pass.step_spec passed
      refine ⟨harmless.earlier, ?_⟩
      have present := harmless.present
      rw [program] at present
      dsimp only
      rw [nextProgram, nextLog]
      exact present.advance rfl
  | emit =>
      obtain ⟨⟨pass, event⟩, emitted, rfl⟩ := Option.map_eq_some_iff.mp stepped
      obtain ⟨sameProgram, sameLog⟩ := Pass.emit_spec emitted
      refine ⟨harmless.earlier, ?_⟩
      dsimp only
      rw [sameProgram, sameLog]
      exact harmless.present
  | other operation =>
      cases stepped
      exact ⟨harmless.earlier, harmless.present⟩

/-- With `wipe = false` the provisioner never wipes or writes a fresh partition
table; it appends only next to a lone EFI partition, never an EFI partition,
and formats only what it has just appended.  This holds for every pass, from
every store, under every interference and every behaviour of the backend. -/
theorem wipe_false_nonDestructive (install : InstallSection)
    (keeps : install.wipe = false) (state : Provisioning)
    (reachable : (provisioningSystem (some install)).Reachable state) :
    ∀ log ∈ state.logs, NonDestructive install.disk log := by
  have harmless : state.Harmless install.disk := by
    apply reachable.invariant
    · rintro start ⟨begun, none⟩
      refine ⟨?_, ?_⟩
      · simp [none]
      · rw [begun]
        exact VolumeProvisioner.harmless_reconcile keeps
    · intro state move next stepped harmless
      exact harmless.step keeps stepped
  exact harmless.logs

/-- The pass reads the store, appends two partitions and formats them. -/
def adoptFlashedDisk : List ProvisioningMove :=
  let reply : Reply := ⟨none, [], [], ["/dev/sda2", "/dev/sda3"]⟩
  [.other (.create (DiskDiscovery.volumeObject flashedEfi)),
    .other (.create (DiskDiscovery.diskObject sda)),
    .pass ⟨[], reply⟩,
    .pass ⟨[(DiskDiscovery.volumeObject flashedEfi).fresh], reply⟩,
    .pass ⟨[], reply⟩, .pass ⟨[], reply⟩, .pass ⟨[], reply⟩]

theorem wipe_false_nonDestructive_adoptFlashedDisk :
    ∃ state, (provisioningSystem (some ⟨"/dev/sda", false⟩)).Reachable state ∧
      state.pass.log.length = 5 ∧
      ∀ log ∈ state.logs, NonDestructive "/dev/sda" log := by
  let install : InstallSection := ⟨"/dev/sda", false⟩
  let start : Provisioning :=
    { objects := ∅
      pass := Pass.begin (VolumeProvisioner.reconcile (some install))
      earlier := [] }
  have computed : ((provisioningSystem (some install)).run start
      adoptFlashedDisk).map (fun state => state.pass.log.length) = some 5 := by
    decide
  obtain ⟨state, result, length⟩ := Option.map_eq_some_iff.mp computed
  have reachable : (provisioningSystem (some install)).Reachable state :=
    ⟨start, adoptFlashedDisk, ⟨rfl, rfl⟩, result⟩
  exact ⟨state, reachable, length,
    wipe_false_nonDestructive install rfl state reachable⟩

end MachinedRs
