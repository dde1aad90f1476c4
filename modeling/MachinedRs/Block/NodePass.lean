import MachinedRs.Block.Scanned

/-!
# The provisioner's pass on a node

What each branch of the pass makes of the disk and of the published volume
statuses, starting from a store that knows the disk as of some scan.
-/

namespace MachinedRs

open Foundation

/-- An object under which the provisioner publishes a volume. -/
structure PlainStatus (object : ResourceObject) : Prop where
  ns : object.key.ns = blockNs
  typ : object.key.typ = .volumeStatus
  released : object.metadata.finalizers = []

theorem plainStatus_volumeStatusObj (name device fs label : String)
    (phase : VolumePhase) :
    PlainStatus (volumeStatusObj name device fs label phase) :=
  ⟨rfl, rfl, rfl⟩

/-- The volume statuses in the store are those of this list. -/
structure Publishes (statuses : List ResourceObject) (objects : Objects) :
    Prop where
  only : ∀ key object, objects.lookup key = some object →
    key.ns = blockNs → key.typ = .volumeStatus →
    ∃ status ∈ statuses, object.spec = status.spec
  all : ∀ status ∈ statuses, ∃ object,
    objects.lookup status.key = some object ∧ object.spec = status.spec

section Publishing

variable {disk : InstallDisk} {scanned : List Partition} {objects : Objects}
  {statuses : List ResourceObject}

/-- Publishing leaves exactly the given statuses and keeps what the store knows
about the disk. -/
theorem publishes_ensures (known : Known disk scanned objects)
    (plain : ∀ status ∈ statuses, PlainStatus status)
    (distinct : (statuses.map ResourceObject.key).Nodup) :
    storeMachine.Ensures
      (fun result after => result = .ok () ∧ Known disk scanned after ∧
        Publishes statuses after)
      (reconcileOwned VolumeProvisioner.owner blockNs .volumeStatus statuses)
      objects := by
  apply Setting.Protected.mono _
    (reconcileOwned_released known.keyed known.statuses
      (fun status member => ⟨(plain status member).ns,
        (plain status member).typ⟩)
      fun status member => (plain status member).released)
  rintro result after ⟨succeeded, keyed, owned, specs, other⟩
  refine ⟨succeeded, ⟨keyed, ?_, ?_, owned⟩, ?_, ?_⟩
  · obtain ⟨status, stored⟩ := known.barrier
    refine ⟨status, ?_⟩
    rw [other]
    · exact stored
    · simp
  · rw [State.list_congr known.keyed keyed]
    · exact known.volumes
    · intro key _ isVolume
      apply other
      simp [isVolume]
  · intro key object stored ns typ
    have spec := specs key ns typ
    rw [stored] at spec
    obtain ⟨status, last, sameSpec⟩ := Option.map_eq_some_iff.mp spec.symm
    exact ⟨status, (lastDesired_mem last).1, sameSpec.symm⟩
  · intro status isStatus
    have spec := specs status.key (plain status isStatus).ns
      (plain status isStatus).typ
    rw [lastDesired_of_nodup isStatus distinct] at spec
    exact Option.map_eq_some_iff.mp spec

end Publishing

/-- The labels are exactly those of the layout. -/
def ours (labels : List String) : Bool :=
  !labels.isEmpty && layoutLabels.all (labels.contains ·) &&
    labels.all (layoutLabels.contains ·)

theorem ours_iff (labels : List String) :
    ours labels = true ↔ ∀ label, label ∈ labels ↔ label ∈ layoutLabels := by
  simp only [ours, Bool.and_eq_true, Bool.not_eq_true', List.all_eq_true,
    List.contains_iff_mem]
  constructor
  · rintro ⟨⟨_, covered⟩, known⟩ label
    exact ⟨known label, covered label⟩
  · intro same
    refine ⟨⟨?_, fun label => (same label).mpr⟩, fun label => (same label).mp⟩
    have efi : "EFI" ∈ labels := (same "EFI").mpr (by decide)
    cases labels with
    | nil => cases efi
    | cons label labels => rfl

/-- The guard's decision about a disk with these labels. -/
def decision (wipe : Bool) (labels : List String) : ProvisionDecision :=
  if ours labels then
    .skip
  else if wipe then
    .provision
  else if labels = ["EFI"] then
    .completeLayout
  else
    .refuseForeign

theorem decision_perm {wipe : Bool} {labels other : List String}
    (perm : labels.Perm other) :
    decision wipe labels = decision wipe other := by
  have sameOurs : ours labels = ours other := by
    rw [Bool.eq_iff_iff, ours_iff, ours_iff]
    constructor
    · intro same label
      rw [← same label, perm.mem_iff]
    · intro same label
      rw [← same label, perm.mem_iff]
  have sameImage : labels = ["EFI"] ↔ other = ["EFI"] := by
    constructor
    · intro image
      rw [image] at perm
      exact List.perm_singleton.mp perm.symm
    · intro image
      rw [image] at perm
      exact List.perm_singleton.mp perm
  simp only [decision, sameOurs, sameImage]

/-- When all discovered volumes are on the install disk, only their labels
matter. -/
theorem planProvisioning_eq {installDisk : String} {wipe : Bool}
    {discovered : List DiscoveredVolume}
    (onDisk : ∀ volume ∈ discovered, onInstallDisk installDisk volume = true) :
    planProvisioning installDisk wipe discovered =
      decision wipe (discovered.map DiscoveredVolume.partitionLabel) := by
  have all : discovered.filter (onInstallDisk installDisk) = discovered :=
    List.filter_eq_self.mpr onDisk
  have image : (decide (discovered.length = 1) &&
      decide (discovered.map DiscoveredVolume.partitionLabel = ["EFI"])) =
        decide (discovered.map DiscoveredVolume.partitionLabel =
          ["EFI"]) := by
    rw [Bool.and_eq_right_iff_imp]
    intro labels
    have length := congrArg List.length (of_decide_eq_true labels)
    simpa using length
  simp only [planProvisioning, all, image, decision, ours, List.isEmpty_map,
    decide_eq_true_eq]

namespace InstallDisk

def install (disk : InstallDisk) (wipe : Bool) : InstallSection :=
  { disk := disk.info.path, wipe := wipe }

/-- The partitions as the provisioner reads them. -/
def discovered (disk : InstallDisk) (partitions : List Partition) :
    List DiscoveredVolume :=
  (disk.volumes partitions).map DiskDiscovery.discoveredVolume

theorem discovered_labels (disk : InstallDisk) (partitions : List Partition) :
    (disk.discovered partitions).map DiscoveredVolume.partitionLabel =
      partitions.map Partition.label := by
  apply List.ext_getElem?
  intro index
  simp only [discovered, volumes, List.getElem?_map, List.getElem?_mapIdx,
    Option.map_map]
  rfl

theorem mem_discovered {disk : InstallDisk} {partitions : List Partition}
    {volume : DiscoveredVolume} (member : volume ∈ disk.discovered partitions) :
    ∃ index partition, partitions[index]? = some partition ∧
      volume = DiskDiscovery.discoveredVolume (disk.volume index partition) := by
  obtain ⟨found, listed, rfl⟩ := List.mem_map.mp member
  obtain ⟨index, within, rfl⟩ := List.mem_iff_getElem.mp listed
  have inside : index < partitions.length := by
    simpa [volumes] using within
  refine ⟨index, partitions[index], List.getElem?_eq_getElem inside, ?_⟩
  simp [volumes]

theorem onInstallDisk_of_mem {disk : InstallDisk}
    {partitions : List Partition} {volume : DiscoveredVolume}
    (member : volume ∈ disk.discovered partitions) :
    volume.disk = leaf disk.info.path := by
  obtain ⟨index, partition, _, rfl⟩ := mem_discovered member
  exact disk.named

end InstallDisk

section Reading

variable {disk : InstallDisk} {faulty : Bool} {invariant : Node → Prop}
  {post : Result Unit → Node → Prop} {node : Node}
  {scanned : List Partition} {wipe : Bool}

theorem discoveredSpecs_perm (known : Known disk scanned node.objects)
    {listing : List ResourceObject}
    (enumerates : (listing : Multiset ResourceObject) =
      State.list node.objects blockNs .discoveredVolume) :
    (VolumeProvisioner.discoveredSpecs listing).Perm
      (disk.discovered scanned) := by
  rw [known.volumes] at enumerates
  have perm := Multiset.coe_eq_coe.mp enumerates
  rw [InstallDisk.discovered, ← DiskDiscovery.discoveredSpecs_stored]
  exact perm.filterMap _

/-- A pass passes the barrier and reads the disk as of the scan, its volumes
in some order. -/
theorem node_reconcile (known : Known disk scanned node.objects)
    (holds : invariant node)
    (goesOn : ∀ discovered : List DiscoveredVolume,
      discovered.Perm (disk.discovered scanned) →
      ((nodeMachine disk faulty).alone invariant).Protected post
        (VolumeProvisioner.carryOut (disk.install wipe) discovered) node) :
    ((nodeMachine disk faulty).alone invariant).Protected post
      (VolumeProvisioner.reconcile (some (disk.install wipe))) node := by
  obtain ⟨status, stored⟩ := known.barrier
  apply node_get holds
  have found : State.get node.objects
      ⟨blockNs, .diskStatus, leaf (disk.install wipe).disk⟩ =
        .ok status := by
    rw [State.get, InstallDisk.install, stored]
  rw [found]
  apply node_list holds
  intro listing enumerates
  exact goesOn _ (discoveredSpecs_perm known enumerates)

theorem planProvisioning_scanned {discovered : List DiscoveredVolume}
    (perm : discovered.Perm (disk.discovered scanned)) :
    planProvisioning (disk.install wipe).disk (disk.install wipe).wipe
      discovered = decision wipe (scanned.map Partition.label) := by
  rw [planProvisioning_eq, ← disk.discovered_labels scanned]
  · exact decision_perm (perm.map _)
  · intro volume member
    have onDisk := InstallDisk.onInstallDisk_of_mem (perm.mem_iff.mp member)
    simp [onInstallDisk, InstallDisk.install, onDisk]

end Reading

/-- Each planned partition with the device it gets after the first `existing`
ones. -/
def numbered (path : String) :
    Nat → List PartitionPlan → List (PartitionPlan × String)
  | _, [] => []
  | existing, entry :: plan =>
      (entry, partDevice path (existing + 1)) ::
        numbered path (existing + 1) plan

theorem zip_devices (path : String) (existing : Nat)
    (plan : List PartitionPlan) :
    plan.zip (InstallDisk.devices path existing plan) =
      numbered path existing plan := by
  induction plan generalizing existing with
  | nil => rfl
  | cons entry plan induction =>
      have rest := induction (existing + 1)
      simp only [InstallDisk.devices, List.mapIdx_cons, List.zip_cons_cons,
        numbered, Nat.add_zero]
      rw [← rest]
      have shifted : ∀ index, existing + (index + 1) + 1 =
          existing + 1 + index + 1 := by
        intro index
        omega
      simp only [InstallDisk.devices, shifted]

/-- Planned partitions once they are formatted. -/
def filled (plan : List PartitionPlan) : List Partition :=
  plan.map fun entry => { label := entry.label, fs := some entry.fs }

def formatCalls (pairs : List (PartitionPlan × String)) : List BlockCall :=
  pairs.map fun (entry, device) => .format device entry.fs entry.label

def plannedStatuses (pairs : List (PartitionPlan × String)) :
    List ResourceObject :=
  pairs.map fun (entry, device) =>
    volumeStatusObj entry.label device entry.fs.asStr entry.label .provisioned

theorem after_format (disk : InstallDisk) (before rest : List Partition)
    (label fsLabel : String) (fs : FsType) :
    disk.after (before ++ { label := label, fs := none } :: rest)
      (.format (partDevice disk.info.path (before.length + 1)) fs fsLabel) =
        before ++ { label := label, fs := some fs } :: rest := by
  apply List.ext_getElem?
  intro index
  have reached : partDevice disk.info.path (index + 1) =
      partDevice disk.info.path (before.length + 1) ↔
        index = before.length := by
    constructor
    · intro same
      have equal := partDevice_injective same
      omega
    · intro same
      rw [same]
  simp only [InstallDisk.after, List.getElem?_mapIdx, reached]
  by_cases same : index = before.length
  · subst same
    simp
  · simp only [same, if_false]
    by_cases earlier : index < before.length
    · simp [List.getElem?_append_left earlier]
    · have later : before.length ≤ index := Nat.le_of_not_gt earlier
      have shifted : index - before.length ≠ 0 := by omega
      simp [List.getElem?_append_right later, List.getElem?_cons, shifted]

section Formatting

variable {disk : InstallDisk} {faulty : Bool} {invariant : Node → Prop}

/-- The formats of a pass, one partition after the other.  `stages` says that
the invariant holds wherever the pass may be cut off. -/
theorem node_formatAll (plan : List PartitionPlan) (before : List Partition)
    (statuses : List ResourceObject) (objects : Objects)
    (completed : List BlockCall)
    (stages : ∀ formatted remaining, plan = formatted ++ remaining →
      invariant
        { objects := objects
          partitions :=
            before ++ filled formatted ++ InstallDisk.blank remaining
          completed := completed ++
            formatCalls (numbered disk.info.path before.length formatted) }) :
    ((nodeMachine disk faulty).alone invariant).Protected
      (fun result after =>
        (faulty = true ∧ (∃ error, result = .error error) ∧
          after.objects = objects) ∨
        result = .ok (statuses ++
            plannedStatuses (numbered disk.info.path before.length plan)) ∧
          after =
            { objects := objects
              partitions := before ++ filled plan
              completed := completed ++
                formatCalls (numbered disk.info.path before.length plan) })
      (VolumeProvisioner.formatAll
        (numbered disk.info.path before.length plan) statuses)
      { objects := objects
        partitions := before ++ InstallDisk.blank plan
        completed := completed } := by
  have here : invariant
      { objects := objects
        partitions := before ++ InstallDisk.blank plan
        completed := completed } := by
    simpa [filled, numbered, formatCalls] using stages [] plan rfl
  induction plan generalizing before statuses completed with
  | nil =>
      refine Machine.done here (.inr ?_)
      simp [filled, numbered, formatCalls, plannedStatuses, InstallDisk.blank]
  | cons entry plan induction =>
      apply node_accepted here rfl
      · intro error faults
        exact Machine.done here (.inl ⟨faults, ⟨_, rfl⟩, rfl⟩)
      · have formatted : disk.after
            (before ++ InstallDisk.blank (entry :: plan))
            (.format (partDevice disk.info.path (before.length + 1))
              entry.fs entry.label) =
            (before ++ filled [entry]) ++ InstallDisk.blank plan := by
          have reached := after_format disk before (InstallDisk.blank plan)
            entry.label entry.label entry.fs
          simpa [InstallDisk.blank, filled] using reached
        dsimp only
        rw [formatted]
        have laterStages : ∀ done remaining, plan = done ++ remaining →
            invariant
              { objects := objects
                partitions := before ++ filled [entry] ++ filled done ++
                  InstallDisk.blank remaining
                completed := completed ++
                  [.format (partDevice disk.info.path (before.length + 1))
                    entry.fs entry.label] ++
                  formatCalls (numbered disk.info.path
                    (before ++ filled [entry]).length done) } := by
          intro done remaining split
          have stage := stages (entry :: done) remaining (by rw [split]; rfl)
          simpa [filled, numbered, formatCalls] using stage
        have later := induction (before ++ filled [entry])
          (statuses ++ [volumeStatusObj entry.label
            (partDevice disk.info.path (before.length + 1)) entry.fs.asStr
            entry.label .provisioned])
          (completed ++
            [.format (partDevice disk.info.path (before.length + 1))
              entry.fs entry.label])
          laterStages
          (by simpa [filled, numbered, formatCalls] using
            laterStages [] plan rfl)
        have length : (before ++ filled [entry]).length =
            before.length + 1 := by
          simp [filled]
        rw [length] at later
        apply Setting.Protected.mono _ later
        rintro result after (failed | ⟨succeeded, final⟩)
        · exact .inl failed
        · refine .inr ⟨?_, ?_⟩
          · rw [succeeded]
            simp [numbered, plannedStatuses]
          · rw [final]
            simp [numbered, formatCalls, filled]

theorem plain_plannedStatuses (pairs : List (PartitionPlan × String)) :
    ∀ status ∈ plannedStatuses pairs, PlainStatus status := by
  intro status member
  obtain ⟨⟨entry, device⟩, _, rfl⟩ := List.mem_map.mp member
  exact plainStatus_volumeStatusObj _ _ _ _ _

variable {scanned : List Partition}

/-- A pass from its partition table on: it fails, or every partition of the
plan is formatted and the statuses are published. -/
theorem node_formatAndPublish (plan : List PartitionPlan)
    (before : List Partition) (statuses : List ResourceObject)
    (completed : List BlockCall) {objects : Objects}
    (known : Known disk scanned objects)
    (plain : ∀ status ∈ statuses, PlainStatus status)
    (distinct : ((statuses ++ plannedStatuses
      (numbered disk.info.path before.length plan)).map
        ResourceObject.key).Nodup)
    (stages : ∀ objects formatted remaining, plan = formatted ++ remaining →
      invariant
        { objects := objects
          partitions :=
            before ++ filled formatted ++ InstallDisk.blank remaining
          completed := completed ++
            formatCalls (numbered disk.info.path before.length formatted) }) :
    ((nodeMachine disk faulty).alone invariant).Protected
      (fun result after => Known disk scanned after.objects ∧
        (faulty = true ∧ (∃ error, result = .error error) ∨
          result = .ok () ∧ after.partitions = before ++ filled plan ∧
            Publishes (statuses ++ plannedStatuses
              (numbered disk.info.path before.length plan)) after.objects))
      (VolumeProvisioner.formatAndPublish plan
        (InstallDisk.devices disk.info.path before.length plan) statuses)
      { objects := objects
        partitions := before ++ InstallDisk.blank plan
        completed := completed } := by
  rw [VolumeProvisioner.formatAndPublish, zip_devices]
  have kept : ∀ objects, invariant
      { objects := objects
        partitions := before ++ filled plan
        completed := completed ++
          formatCalls (numbered disk.info.path before.length plan) } := by
    intro objects
    simpa [InstallDisk.blank] using
      stages objects plan [] (List.append_nil _).symm
  apply Setting.Protected.bind
  apply Setting.Protected.mono _
    (node_formatAll plan before statuses objects completed
      (stages objects)).keeping
  rintro result after ⟨holds, ⟨faults, ⟨error, rfl⟩, same⟩ | ⟨rfl, rfl⟩⟩
  · refine Machine.done holds ⟨?_, .inl ⟨faults, error, rfl⟩⟩
    rw [same]
    exact known
  · apply node_store
    · exact kept
    · apply publishes_ensures known _ distinct
      intro status member
      rcases List.mem_append.mp member with given | planned
      · exact plain status given
      · exact plain_plannedStatuses _ status planned
    · rintro value later ⟨rfl, laterKnown, publishes⟩
      exact ⟨laterKnown, .inr ⟨rfl, rfl, publishes⟩⟩

theorem node_layOut {node : Node} (known : Known disk scanned node.objects)
    (holds : invariant node)
    (stages : ∀ objects formatted remaining,
      fixedLayout = formatted ++ remaining →
      invariant
        { objects := objects
          partitions := filled formatted ++ InstallDisk.blank remaining
          completed := node.completed ++
            [.createPartitions disk.info.path fixedLayout] ++
            formatCalls (numbered disk.info.path 0 formatted) }) :
    ((nodeMachine disk faulty).alone invariant).Protected
      (fun result after => Known disk scanned after.objects ∧
        (faulty = true ∧ (∃ error, result = .error error) ∨
          result = .ok () ∧ after.partitions = filled fixedLayout ∧
            Publishes (plannedStatuses
              (numbered disk.info.path 0 fixedLayout)) after.objects))
      (VolumeProvisioner.layOut disk.info.path) node := by
  apply node_accepted holds rfl
  · intro error faults
    exact Machine.done holds ⟨known, .inl ⟨faults, _, rfl⟩⟩
  · have distinct : ((([] : List ResourceObject) ++ plannedStatuses
        (numbered disk.info.path 0 fixedLayout)).map
          ResourceObject.key).Nodup := by
      have keys : (([] : List ResourceObject) ++ plannedStatuses
          (numbered disk.info.path 0 fixedLayout)).map ResourceObject.key =
            layoutLabels.map fun label => ⟨blockNs, .volumeStatus, label⟩ :=
        rfl
      rw [keys]
      decide
    exact node_formatAndPublish fixedLayout [] [] _ known (by simp) distinct
      stages

theorem answer_addPartitions (partitions : List Partition) (path : String)
    (plan : List PartitionPlan)
    (absent : ∀ entry ∈ plan, ∀ partition ∈ partitions,
      partition.label ≠ entry.label) :
    disk.answer partitions (.addPartitions path plan) =
      .ok (InstallDisk.devices path partitions.length plan) := by
  have none : plan.find? (fun entry => partitions.any
      fun partition => partition.label = entry.label) = none := by
    rw [List.find?_eq_none]
    intro entry member used
    obtain ⟨partition, isThere, same⟩ := List.any_eq_true.mp used
    exact absent entry member partition isThere (of_decide_eq_true same)
  simp [InstallDisk.answer, none]

theorem answer_addPartitions_used {partitions : List Partition}
    (path : String) {plan : List PartitionPlan} {entry : PartitionPlan}
    {partition : Partition} (planned : entry ∈ plan)
    (present : partition ∈ partitions)
    (same : partition.label = entry.label) :
    ∃ error, disk.answer partitions (.addPartitions path plan) =
      .error error := by
  have used : ∃ found, plan.find? (fun entry => partitions.any
      fun partition => partition.label = entry.label) = some found := by
    apply Option.isSome_iff_exists.mp
    rw [List.find?_isSome]
    refine ⟨entry, planned, ?_⟩
    rw [List.any_eq_true]
    exact ⟨partition, present, decide_eq_true same⟩
  obtain ⟨found, isFound⟩ := used
  simp only [InstallDisk.answer, isFound]
  exact ⟨_, rfl⟩

theorem node_completeLayout {node : Node} {wipe : Bool}
    {discovered : List DiscoveredVolume}
    (known : Known disk scanned node.objects) (holds : invariant node)
    (absent : ∀ entry ∈ appendedLayout, ∀ partition ∈ node.partitions,
      partition.label ≠ entry.label)
    (distinct : ((provisionedStatusFromDiscovered disk.info.path discovered ++
      plannedStatuses (numbered disk.info.path node.partitions.length
        appendedLayout)).map ResourceObject.key).Nodup)
    (stages : ∀ objects formatted remaining,
      appendedLayout = formatted ++ remaining →
      invariant
        { objects := objects
          partitions := node.partitions ++ filled formatted ++
            InstallDisk.blank remaining
          completed := node.completed ++
            [.addPartitions disk.info.path appendedLayout] ++
            formatCalls (numbered disk.info.path node.partitions.length
              formatted) }) :
    ((nodeMachine disk faulty).alone invariant).Protected
      (fun result after => Known disk scanned after.objects ∧
        (faulty = true ∧ (∃ error, result = .error error) ∨
          result = .ok () ∧
            after.partitions = node.partitions ++ filled appendedLayout ∧
            Publishes
              (provisionedStatusFromDiscovered disk.info.path discovered ++
                plannedStatuses (numbered disk.info.path
                  node.partitions.length appendedLayout)) after.objects))
      (VolumeProvisioner.completeLayout (disk.install wipe) discovered)
      node := by
  have accepted : disk.answer node.partitions
      (.addPartitions disk.info.path appendedLayout) =
        .ok (InstallDisk.devices disk.info.path node.partitions.length
          appendedLayout) :=
    answer_addPartitions _ _ _ absent
  apply node_accepted holds accepted
  · intro error faults
    exact Machine.done holds ⟨known, .inl ⟨faults, _, rfl⟩⟩
  · apply node_formatAndPublish appendedLayout node.partitions _ _ known _
      distinct stages
    intro status member
    obtain ⟨volume, _, rfl⟩ := List.mem_map.mp member
    exact plainStatus_volumeStatusObj _ _ _ _ _

end Formatting

end MachinedRs
