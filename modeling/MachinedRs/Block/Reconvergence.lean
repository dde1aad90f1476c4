import Mathlib.Logic.Relation
import MachinedRs.Block.NodePass

/-!
# Provisioning after an interrupted pass

A pass that lays out or completes the disk is cut off, the node reboots, scans
the disk again and reconciles with the same configuration.  The guard goes by
labels alone, so a partition table without filesystems passes for a finished
layout.
-/

namespace MachinedRs

open Foundation

/-- The status names a partition that holds the layout's filesystem for its
label. -/
def Names (disk : InstallDisk) (partitions : List Partition)
    (status : VolumeStatus) : Prop :=
  ∃ index partition entry,
    status.device = partDevice disk.info.path (index + 1) ∧
    partitions[index]? = some partition ∧
    partition.label = status.label ∧
    entry ∈ fixedLayout ∧ entry.label = status.label ∧
    partition.fs = some entry.fs

/-- Every volume published as provisioned is what it claims to be. -/
def Sound (disk : InstallDisk) (node : Node) : Prop :=
  ∀ key object status, node.objects.lookup key = some object →
    key.ns = blockNs → key.typ = .volumeStatus →
    object.spec = .volumeStatus status → status.phase = .provisioned →
    Names disk node.partitions status

/-- Any number of complete passes, with any failures of the backend. -/
def Passes (disk : InstallDisk) (wipe : Bool) : Node → Node → Prop :=
  Relation.ReflTransGen fun node next => ∃ result,
    (nodeMachine disk true).Returns
      (VolumeProvisioner.reconcile (some (disk.install wipe)))
      node result next

/-- Whenever a pass returns `Ok`, the published volumes are sound. -/
def Reconverges (disk : InstallDisk) (wipe : Bool) (node : Node) : Prop :=
  ∀ later final, Passes disk wipe node later →
    (nodeMachine disk true).Returns
      (VolumeProvisioner.reconcile (some (disk.install wipe)))
      later (.ok ()) final →
    Sound disk final

/-- The partition tables among these calls. -/
def writtenPlans (completed : List BlockCall) : List (List PartitionPlan) :=
  completed.filterMap fun call =>
    match call with
    | .createPartitions _ plan => some plan
    | .addPartitions _ plan => some plan
    | _ => none

def formatCount (completed : List BlockCall) : Nat :=
  completed.countP fun call =>
    match call with
    | .format _ _ _ => true
    | _ => false

/-- A pass may be cut off before its partition table is written or after its
last format.  An adopted EFI partition has to hold its filesystem already. -/
def Recoverable (wipe : Bool) (original : List Partition)
    (completed : List BlockCall) : Prop :=
  (∀ plan ∈ writtenPlans completed, formatCount completed = plan.length) ∧
    (wipe = false → ∀ partition ∈ original, partition.label = "EFI" →
      partition.fs = some .vfat)

/-- Each partition holds the filesystem the layout wants for its label. -/
def WellFormatted (partitions : List Partition) : Prop :=
  ∀ partition ∈ partitions, ∃ entry ∈ fixedLayout,
    entry.label = partition.label ∧ partition.fs = some entry.fs

theorem sound_of_publishes {disk : InstallDisk} {node : Node}
    {statuses : List ResourceObject}
    (publishes : Publishes statuses node.objects)
    (named : ∀ object ∈ statuses, ∀ status,
      object.spec = .volumeStatus status →
      Names disk node.partitions status) :
    Sound disk node := by
  intro key object status stored ns typ spec _
  obtain ⟨published, member, same⟩ := publishes.only key object stored ns typ
  apply named published member
  rw [← same, spec]

theorem reconverges_of_pass {disk : InstallDisk} {wipe : Bool}
    {scanned : List Partition} (invariant : Node → Prop) {node : Node}
    (pass : ∀ node, Known disk scanned node.objects → invariant node →
      ((nodeMachine disk true).alone invariant).Protected
        (fun result after => Known disk scanned after.objects ∧
          (result = .ok () → Sound disk after))
        (VolumeProvisioner.reconcile (some (disk.install wipe))) node)
    (known : Known disk scanned node.objects) (holds : invariant node) :
    Reconverges disk wipe node := by
  intro later final passes returns
  have kept : Known disk scanned later.objects ∧ invariant later := by
    clear returns
    induction passes with
    | refl => exact ⟨known, holds⟩
    | tail _ step induction =>
        obtain ⟨result, choices, executed⟩ := step
        have safe := Machine.protected_of_exec
          (pass _ induction.1 induction.2) executed
        exact ⟨safe.finished.1, safe.holds⟩
  exact (Machine.post_of_returns (pass later kept.1 kept.2) returns).2 rfl

theorem names_planned {disk : InstallDisk} (plan : List PartitionPlan)
    (before : List Partition)
    (ofLayout : ∀ entry ∈ plan, entry ∈ fixedLayout)
    {object : ResourceObject}
    (member : object ∈ plannedStatuses
      (numbered disk.info.path before.length plan))
    {status : VolumeStatus} (spec : object.spec = .volumeStatus status) :
    Names disk (before ++ filled plan) status := by
  induction plan generalizing before with
  | nil => cases member
  | cons entry plan induction =>
      rcases List.mem_cons.mp member with rfl | later
      · cases spec
        exact ⟨before.length, ⟨entry.label, some entry.fs⟩, entry, rfl,
          by simp [filled], rfl, ofLayout entry List.mem_cons_self, rfl, rfl⟩
      · have length : before.length + 1 =
            (before ++ filled [entry]).length := by
          simp [filled]
        have extended : before ++ filled (entry :: plan) =
            (before ++ filled [entry]) ++ filled plan := by
          simp [filled]
        rw [extended]
        apply induction
        · intro other isPlanned
          exact ofLayout other (List.mem_cons_of_mem _ isPlanned)
        · rw [← length]
          exact later

section Scanned

variable {disk : InstallDisk} {scanned : List Partition}
  {discovered : List DiscoveredVolume}

theorem provisionedStatus_eq
    (perm : discovered.Perm (disk.discovered scanned))
    (labels : ∀ partition ∈ scanned, partition.label ∈ layoutLabels) :
    provisionedStatusFromDiscovered disk.info.path discovered =
      discovered.map statusOfVolume := by
  have onDisk : discovered.filter
      (fun volume => volume.disk = leaf disk.info.path) = discovered := by
    apply List.filter_eq_self.mpr
    intro volume member
    exact decide_eq_true
      (InstallDisk.onInstallDisk_of_mem (perm.mem_iff.mp member))
  have labelled : discovered.filter
      (fun volume => layoutLabels.contains volume.partitionLabel) =
        discovered := by
    apply List.filter_eq_self.mpr
    intro volume member
    obtain ⟨index, partition, found, rfl⟩ :=
      InstallDisk.mem_discovered (perm.mem_iff.mp member)
    rw [List.contains_iff_mem]
    exact labels partition (List.mem_of_getElem? found)
  rw [provisionedStatusFromDiscovered, onDisk, labelled]

theorem mem_statuses (perm : discovered.Perm (disk.discovered scanned))
    {object : ResourceObject}
    (member : object ∈ discovered.map statusOfVolume) :
    ∃ index partition, scanned[index]? = some partition ∧
      object = statusOfVolume
        (DiskDiscovery.discoveredVolume (disk.volume index partition)) := by
  obtain ⟨volume, isDiscovered, rfl⟩ := List.mem_map.mp member
  obtain ⟨index, partition, found, rfl⟩ :=
    InstallDisk.mem_discovered (perm.mem_iff.mp isDiscovered)
  exact ⟨index, partition, found, rfl⟩

theorem statuses_mem (perm : discovered.Perm (disk.discovered scanned))
    {index : Nat} {partition : Partition}
    (found : scanned[index]? = some partition) :
    statusOfVolume
        (DiskDiscovery.discoveredVolume (disk.volume index partition)) ∈
      discovered.map statusOfVolume := by
  apply List.mem_map_of_mem
  rw [perm.mem_iff]
  apply List.mem_map_of_mem
  apply List.mem_of_getElem? (i := index)
  rw [InstallDisk.volumes, List.getElem?_mapIdx, found]
  rfl

theorem nodup_statuses (perm : discovered.Perm (disk.discovered scanned))
    (distinct : (scanned.map Partition.label).Nodup) :
    ((discovered.map statusOfVolume).map ResourceObject.key).Nodup := by
  have labels : (discovered.map DiscoveredVolume.partitionLabel).Nodup := by
    rw [(perm.map DiscoveredVolume.partitionLabel).nodup_iff,
      disk.discovered_labels scanned]
    exact distinct
  have keys : (discovered.map statusOfVolume).map ResourceObject.key =
      (discovered.map DiscoveredVolume.partitionLabel).map
        fun label => ⟨blockNs, .volumeStatus, label⟩ := by
    simp only [List.map_map]
    rfl
  rw [keys]
  apply labels.map
  intro first second same
  exact congrArg Key.id same

/-- The published status of a scanned partition is sound exactly when the
partition holds its filesystem. -/
theorem names_iff {partitions : List Partition} {index : Nat}
    {partition : Partition} (found : partitions[index]? = some partition)
    {status : VolumeStatus}
    (spec : (statusOfVolume (DiskDiscovery.discoveredVolume
      (disk.volume index partition))).spec = .volumeStatus status) :
    Names disk partitions status ↔ ∃ entry ∈ fixedLayout,
      entry.label = partition.label ∧ partition.fs = some entry.fs := by
  cases spec
  constructor
  · rintro ⟨other, namedPartition, entry, device, located, _, isEntry, label,
      filesystem⟩
    have same : other = index := by
      have equal := partDevice_injective device
      omega
    rw [same, found] at located
    cases located
    exact ⟨entry, isEntry, label, filesystem⟩
  · rintro ⟨entry, isEntry, label, filesystem⟩
    exact ⟨index, partition, entry, rfl, found, rfl, isEntry, label,
      filesystem⟩

end Scanned

section Passes

variable {disk : InstallDisk} {wipe : Bool} {left : List Partition}
  {node : Node}

theorem node_skip (faulty : Bool) (invariant : Node → Prop)
    (known : Known disk left node.objects)
    (isOurs : ours (left.map Partition.label) = true)
    (distinct : (left.map Partition.label).Nodup)
    (always : ∀ objects, invariant { node with objects := objects }) :
    ((nodeMachine disk faulty).alone invariant).Protected
      (fun result after => result = .ok () ∧
        after.partitions = node.partitions ∧
        Known disk left after.objects ∧
        ∃ discovered : List DiscoveredVolume,
          discovered.Perm (disk.discovered left) ∧
          Publishes (discovered.map statusOfVolume) after.objects)
      (VolumeProvisioner.reconcile (some (disk.install wipe))) node := by
  apply node_reconcile known (always node.objects)
  intro discovered perm
  have skips : decision wipe (left.map Partition.label) = .skip := by
    rw [decision, if_pos isOurs]
  have labels : ∀ partition ∈ left, partition.label ∈ layoutLabels := by
    intro partition member
    apply ((ours_iff _).mp isOurs _).mp
    exact List.mem_map_of_mem member
  rw [VolumeProvisioner.carryOut, planProvisioning_scanned perm, skips,
    VolumeProvisioner.carryOutPlan]
  rw [InstallDisk.install, provisionedStatus_eq perm labels]
  apply node_store always
  · apply publishes_ensures known _ (nodup_statuses perm distinct)
    intro status member
    obtain ⟨volume, _, rfl⟩ := List.mem_map.mp member
    exact plainStatus_volumeStatusObj _ _ _ _ _
  · rintro result objects ⟨rfl, afterKnown, publishes⟩
    exact ⟨rfl, rfl, afterKnown, discovered, perm, publishes⟩

theorem reconverges_iff_wellFormatted
    (known : Known disk left node.objects) (isLeft : node.partitions = left)
    (isOurs : ours (left.map Partition.label) = true)
    (distinct : (left.map Partition.label).Nodup) :
    Reconverges disk wipe node ↔ WellFormatted left := by
  constructor
  · intro reconverges partition member
    obtain ⟨index, found⟩ := List.mem_iff_getElem?.mp member
    obtain ⟨result, final, returns⟩ := (nodeMachine_total disk true).returns
      (VolumeProvisioner.reconcile (some (disk.install wipe))) node
    obtain ⟨rfl, unchanged, _, discovered, perm, publishes⟩ :=
      Machine.post_of_returns
        (node_skip true (fun _ => True) known isOurs distinct
          (fun _ => trivial)) returns
    have sound := reconverges node final .refl returns
    obtain ⟨object, stored, spec⟩ :=
      publishes.all _ (statuses_mem perm found)
    have named := sound _ object _ stored rfl rfl spec rfl
    rw [unchanged, isLeft] at named
    exact (names_iff found rfl).mp named
  · intro formatted
    apply reconverges_of_pass (fun node => node.partitions = left) _ known
      isLeft
    intro node known isLeft
    apply Setting.Protected.mono _
      (node_skip true _ known isOurs distinct (fun _ => isLeft))
    rintro result after ⟨_, unchanged, afterKnown, discovered, perm,
      publishes⟩
    refine ⟨afterKnown, fun _ => ?_⟩
    apply sound_of_publishes publishes
    intro object member status spec
    obtain ⟨index, partition, found, rfl⟩ := mem_statuses perm member
    rw [unchanged, isLeft]
    exact (names_iff found spec).mpr
      (formatted partition (List.mem_of_getElem? found))

theorem node_provision (faulty : Bool) (invariant : Node → Prop)
    (known : Known disk left node.objects)
    (provisions : decision wipe (left.map Partition.label) = .provision)
    (holds : invariant node)
    (wiped : invariant
      { node with
        partitions := []
        completed := node.completed ++ [.wipe disk.info.path] })
    (stages : ∀ completed, completed = node.completed ∨
        completed = node.completed ++ [.wipe disk.info.path] →
      ∀ objects formatted remaining, fixedLayout = formatted ++ remaining →
      invariant
        { objects := objects
          partitions := filled formatted ++ InstallDisk.blank remaining
          completed := completed ++
            [.createPartitions disk.info.path fixedLayout] ++
            formatCalls (numbered disk.info.path 0 formatted) }) :
    ((nodeMachine disk faulty).alone invariant).Protected
      (fun result after => Known disk left after.objects ∧
        (faulty = true ∧ (∃ error, result = .error error) ∨
          result = .ok () ∧ after.partitions = filled fixedLayout ∧
            Publishes (plannedStatuses
              (numbered disk.info.path 0 fixedLayout)) after.objects))
      (VolumeProvisioner.reconcile (some (disk.install wipe))) node := by
  apply node_reconcile known holds
  intro discovered perm
  rw [VolumeProvisioner.carryOut, planProvisioning_scanned perm, provisions,
    VolumeProvisioner.carryOutPlan]
  dsimp only [VolumeProvisioner.provision]
  split
  · apply node_accepted holds rfl
    · intro error faults
      exact Machine.done holds ⟨known, .inl ⟨faults, _, rfl⟩⟩
    · exact node_layOut known wiped (stages _ (.inr rfl))
  · exact node_layOut known holds (stages _ (.inl rfl))

theorem reconverges_of_provision (known : Known disk left node.objects)
    (provisions : decision wipe (left.map Partition.label) = .provision) :
    Reconverges disk wipe node := by
  apply reconverges_of_pass (fun _ => True) _ known trivial
  intro node known _
  apply Setting.Protected.mono _
    (node_provision true _ known provisions trivial trivial
      (fun _ _ _ _ _ _ => trivial))
  rintro result after ⟨afterKnown, outcome⟩
  refine ⟨afterKnown, ?_⟩
  rintro rfl
  rcases outcome with ⟨_, error, failed⟩ | ⟨_, laid, publishes⟩
  · cases failed
  · apply sound_of_publishes publishes
    intro object member status spec
    rw [laid]
    exact names_planned fixedLayout [] (fun _ member => member) member spec

/-- The label of the first appended partition is in use. -/
def HasState (node : Node) : Prop :=
  ∃ partition ∈ node.partitions, partition.label = "STATE"

theorem provisionedStatus_efi {filesystem : Option FsType}
    {discovered : List DiscoveredVolume}
    (perm : discovered.Perm (disk.discovered [⟨"EFI", filesystem⟩])) :
    provisionedStatusFromDiscovered disk.info.path discovered =
      [statusOfVolume (DiskDiscovery.discoveredVolume
        (disk.volume 0 ⟨"EFI", filesystem⟩))] := by
  have single : discovered = disk.discovered [⟨"EFI", filesystem⟩] :=
    List.perm_singleton.mp perm
  rw [provisionedStatus_eq perm, single]
  · rfl
  · intro partition member
    rw [List.mem_singleton] at member
    rw [member]
    exact List.mem_cons_self

theorem efi_ne_appended {filesystem : Option FsType} :
    ∀ entry ∈ appendedLayout,
      ∀ partition ∈ [(⟨"EFI", filesystem⟩ : Partition)],
        partition.label ≠ entry.label := by
  intro entry isEntry partition member
  rw [List.mem_singleton] at member
  rw [member]
  rcases appendedLayout_labels isEntry with label | label
  · rw [label]
    simp
  · rw [label]
    simp

theorem refused_of_hasState (used : HasState node) :
    ∃ error, disk.answer node.partitions
      (.addPartitions disk.info.path appendedLayout) = .error error := by
  obtain ⟨partition, present, label⟩ := used
  have planned : ∃ entry ∈ appendedLayout, partition.label = entry.label := by
    refine ⟨⟨"STATE", .linuxFilesystem, .ext4, 1024 * 1024 * 1024⟩, ?_,
      label⟩
    decide
  obtain ⟨entry, isEntry, same⟩ := planned
  exact answer_addPartitions_used _ isEntry present same

/-- Layout completion on an image disk, or on one that has been completed
since the scan. -/
theorem node_complete (faulty : Bool) (invariant : Node → Prop)
    {filesystem : Option FsType}
    (known : Known disk [⟨"EFI", filesystem⟩] node.objects)
    (holds : invariant node)
    (isLeft : node.partitions = [⟨"EFI", filesystem⟩] ∨ HasState node)
    (stages : node.partitions = [⟨"EFI", filesystem⟩] →
      ∀ objects formatted remaining, appendedLayout = formatted ++ remaining →
      invariant
        { objects := objects
          partitions := [⟨"EFI", filesystem⟩] ++ filled formatted ++
            InstallDisk.blank remaining
          completed := node.completed ++
            [.addPartitions disk.info.path appendedLayout] ++
            formatCalls (numbered disk.info.path 1 formatted) }) :
    ((nodeMachine disk faulty).alone invariant).Protected
      (fun result after =>
        Known disk [⟨"EFI", filesystem⟩] after.objects ∧
        ((faulty = true ∨ HasState node) ∧ (∃ error, result = .error error) ∨
          result = .ok () ∧
            after.partitions =
              [⟨"EFI", filesystem⟩] ++ filled appendedLayout ∧
            Publishes
              (statusOfVolume (DiskDiscovery.discoveredVolume
                  (disk.volume 0 ⟨"EFI", filesystem⟩)) ::
                plannedStatuses
                  (numbered disk.info.path 1 appendedLayout))
              after.objects))
      (VolumeProvisioner.reconcile (some (disk.install false))) node := by
  apply node_reconcile known holds
  intro discovered perm
  have completes : decision false
      ([⟨"EFI", filesystem⟩].map Partition.label) = .completeLayout := by
    change decision false ["EFI"] = .completeLayout
    decide
  have statuses := provisionedStatus_efi perm
  rw [VolumeProvisioner.carryOut, planProvisioning_scanned perm, completes,
    VolumeProvisioner.carryOutPlan]
  rcases isLeft with image | used
  · obtain ⟨objects, partitions, completed⟩ := node
    dsimp only at image
    subst image
    apply Setting.Protected.mono _
      (node_completeLayout known holds efi_ne_appended _ (stages rfl))
    · rintro result after ⟨afterKnown, outcome⟩
      refine ⟨afterKnown, ?_⟩
      rcases outcome with ⟨faults, failed⟩ | ⟨succeeded, laid, publishes⟩
      · exact .inl ⟨.inl faults, failed⟩
      · rw [statuses] at publishes
        exact .inr ⟨succeeded, laid, publishes⟩
    · have keys : (provisionedStatusFromDiscovered disk.info.path discovered ++
          plannedStatuses (numbered disk.info.path 1 appendedLayout)).map
            ResourceObject.key =
              layoutLabels.map fun label =>
                ⟨blockNs, .volumeStatus, label⟩ := by
        rw [statuses]
        rfl
      change (List.map ResourceObject.key _).Nodup
      rw [List.length_singleton, keys]
      decide
  · obtain ⟨refusal, refused⟩ := refused_of_hasState used
    apply node_call holds
    · intro error _
      exact Machine.done holds ⟨known, .inl ⟨.inr used, _, rfl⟩⟩
    · intro devices answered
      rw [InstallDisk.install, refused] at answered
      cases answered

theorem filled_blank_labels (formatted remaining : List PartitionPlan) :
    (filled formatted ++ InstallDisk.blank remaining).map Partition.label =
      (formatted ++ remaining).map PartitionPlan.label := by
  simp [filled, InstallDisk.blank, Function.comp_def]

/-- A partition table without EFI carries STATE, however far its formats
got. -/
theorem hasState_of_stage {objects : Objects} {completed : List BlockCall}
    {before : List Partition} {formatted remaining : List PartitionPlan}
    (split : appendedLayout = formatted ++ remaining) :
    HasState
      { objects := objects
        partitions :=
          before ++ filled formatted ++ InstallDisk.blank remaining
        completed := completed } := by
  have labels := filled_blank_labels formatted remaining
  rw [← split] at labels
  have member : "STATE" ∈ (filled formatted ++
      InstallDisk.blank remaining).map Partition.label := by
    rw [labels]
    decide
  obtain ⟨partition, isThere, label⟩ := List.mem_map.mp member
  refine ⟨partition, ?_, label⟩
  rw [List.append_assoc]
  exact List.mem_append_right _ isThere

theorem fixedLayout_efi {entry : PartitionPlan} (member : entry ∈ fixedLayout)
    (label : entry.label = "EFI") : entry.fs = .vfat := by
  simp only [fixedLayout, List.mem_cons, List.not_mem_nil, or_false] at member
  rcases member with rfl | rfl | rfl
  · rfl
  · simp at label
  · simp at label

theorem appendedLayout_ofLayout {entry : PartitionPlan}
    (member : entry ∈ appendedLayout) : entry ∈ fixedLayout :=
  (List.mem_filter.mp member).1

/-- An adopted image disk reconverges exactly when its EFI partition holds a
filesystem already. -/
theorem reconverges_iff_vfat {filesystem : Option FsType}
    (known : Known disk [⟨"EFI", filesystem⟩] node.objects)
    (isLeft : node.partitions = [⟨"EFI", filesystem⟩]) :
    Reconverges disk false node ↔ filesystem = some .vfat := by
  have efi : ∀ plan : List Partition,
      (⟨"EFI", filesystem⟩ :: plan)[0]? = some ⟨"EFI", filesystem⟩ :=
    fun _ => rfl
  constructor
  · intro reconverges
    obtain ⟨result, final, returns⟩ := (nodeMachine_total disk false).returns
      (VolumeProvisioner.reconcile (some (disk.install false))) node
    obtain ⟨_, outcome⟩ := Machine.post_of_returns
      (node_complete false (fun _ => True) known trivial (.inl isLeft)
        (fun _ _ _ _ _ => trivial)) returns
    rcases outcome with ⟨cause, _⟩ | ⟨rfl, laid, publishes⟩
    · rcases cause with impossible | ⟨partition, member, label⟩
      · cases impossible
      · rw [isLeft, List.mem_singleton] at member
        rw [member] at label
        simp at label
    · have sound := reconverges node final .refl
        (returns_of_faultless returns)
      obtain ⟨object, stored, spec⟩ := publishes.all _ List.mem_cons_self
      have named := sound _ object _ stored rfl rfl spec rfl
      rw [laid] at named
      obtain ⟨entry, isEntry, label, holds⟩ := (names_iff (efi _) rfl).mp named
      rw [fixedLayout_efi isEntry label] at holds
      exact holds
  · intro formatted
    apply reconverges_of_pass
      (fun node => node.partitions = [⟨"EFI", filesystem⟩] ∨ HasState node)
      _ known (.inl isLeft)
    intro node known holds
    apply Setting.Protected.mono _
      (node_complete true _ known holds holds _)
    · rintro result after ⟨afterKnown, outcome⟩
      refine ⟨afterKnown, ?_⟩
      rintro rfl
      rcases outcome with ⟨_, error, failed⟩ | ⟨_, laid, publishes⟩
      · cases failed
      · apply sound_of_publishes publishes
        intro object member status spec
        rw [laid]
        rcases List.mem_cons.mp member with rfl | planned
        · apply (names_iff (efi _) spec).mpr
          refine ⟨_, List.mem_cons_self, rfl, ?_⟩
          exact formatted
        · exact names_planned appendedLayout [⟨"EFI", filesystem⟩]
            (fun _ => appendedLayout_ofLayout) planned spec
    · intro _ objects formatted remaining split
      exact .inr (hasState_of_stage split)

end Passes

/-- Where a pass may have been cut off, and what it leaves on the disk. -/
inductive Interrupted (wipe : Bool) (original : List Partition) :
    List Partition → List BlockCall → Prop where
  | before {completed : List BlockCall} (unwritten : writtenPlans completed = [])
      (partitions : List Partition)
      (isLeft : partitions = original ∨ wipe = true ∧ partitions = []) :
      Interrupted wipe original partitions completed
  | after {completed : List BlockCall}
      {base : List Partition} {plan formatted remaining : List PartitionPlan}
      (branch : wipe = true ∧ base = [] ∧ plan = fixedLayout ∨
        wipe = false ∧ base = original ∧ plan = appendedLayout)
      (split : plan = formatted ++ remaining)
      (written : writtenPlans completed = [plan])
      (formats : formatCount completed = formatted.length) :
      Interrupted wipe original
        (base ++ filled formatted ++ InstallDisk.blank remaining) completed

theorem writtenPlans_formatCalls (path : String) (existing : Nat)
    (plan : List PartitionPlan) :
    writtenPlans (formatCalls (numbered path existing plan)) = [] := by
  induction plan generalizing existing with
  | nil => rfl
  | cons entry plan induction => exact induction (existing + 1)

theorem formatCount_formatCalls (path : String) (existing : Nat)
    (plan : List PartitionPlan) :
    formatCount (formatCalls (numbered path existing plan)) =
      plan.length := by
  induction plan generalizing existing with
  | nil => rfl
  | cons entry plan induction =>
      have rest := induction (existing + 1)
      simp only [numbered, formatCalls, List.map_cons, formatCount,
        List.countP_cons, List.length_cons, if_true] at rest ⊢
      rw [rest]

theorem writtenPlans_append (first second : List BlockCall) :
    writtenPlans (first ++ second) =
      writtenPlans first ++ writtenPlans second :=
  List.filterMap_append

theorem formatCount_append (first second : List BlockCall) :
    formatCount (first ++ second) =
      formatCount first + formatCount second :=
  List.countP_append

theorem wipe_of_decision {wipe : Bool} {labels : List String}
    (provisions : decision wipe labels = .provision) : wipe = true := by
  cases wipe with
  | true => rfl
  | false =>
      simp only [decision] at provisions
      split at provisions
      · cases provisions
      · rw [if_neg Bool.false_ne_true] at provisions
        split at provisions
        · cases provisions
        · cases provisions

theorem image_of_decision {wipe : Bool} {labels : List String}
    (completes : decision wipe labels = .completeLayout) :
    wipe = false ∧ labels = ["EFI"] := by
  simp only [decision] at completes
  split at completes
  · cases completes
  · cases wipe with
    | true => cases completes
    | false =>
        rw [if_neg Bool.false_ne_true] at completes
        split at completes
        · rename_i image
          exact ⟨rfl, image⟩
        · cases completes

theorem eq_of_labels {partitions : List Partition}
    (labels : partitions.map Partition.label = ["EFI"]) :
    ∃ filesystem, partitions = [⟨"EFI", filesystem⟩] := by
  obtain ⟨partition, rfl⟩ : ∃ partition, partitions = [partition] := by
    apply List.length_eq_one_iff.mp
    simpa using congrArg List.length labels
  obtain ⟨label, filesystem⟩ := partition
  cases labels
  exact ⟨filesystem, rfl⟩

theorem Interrupted.of_stage {wipe : Bool} {original base : List Partition}
    {plan formatted remaining : List PartitionPlan}
    {completed : List BlockCall} {table : BlockCall} (path : String)
    (existing : Nat)
    (branch : wipe = true ∧ base = [] ∧ plan = fixedLayout ∨
      wipe = false ∧ base = original ∧ plan = appendedLayout)
    (split : plan = formatted ++ remaining)
    (unwritten : writtenPlans completed = [])
    (unformatted : formatCount completed = 0)
    (written : writtenPlans [table] = [plan])
    (notFormat : formatCount [table] = 0) :
    Interrupted wipe original
      (base ++ filled formatted ++ InstallDisk.blank remaining)
      (completed ++ [table] ++
        formatCalls (numbered path existing formatted)) := by
  apply Interrupted.after branch split
  · rw [writtenPlans_append, writtenPlans_append, unwritten, written,
      writtenPlans_formatCalls]
    rfl
  · rw [formatCount_append, formatCount_append, unformatted, notFormat,
      formatCount_formatCalls, Nat.zero_add]

/-- A working pass that is cut off anywhere, be it by an error of the backend
or by a loss of power. -/
theorem interrupted_of_cut {disk : InstallDisk} {wipe : Bool}
    {original : List Partition} {booted stopped : Node}
    {choices : List NodeChoice}
    {rest : Program blockControllerSignature (Result Unit)}
    (known : Known disk original booted.objects)
    (isOriginal : booted.partitions = original)
    (calls : booted.completed = [.listDisks, .listVolumes])
    (working : decision wipe (original.map Partition.label) = .provision ∨
      decision wipe (original.map Partition.label) = .completeLayout)
    (cut : (nodeMachine disk true).exec
      (VolumeProvisioner.reconcile (some (disk.install wipe))) booted choices =
        some (rest, stopped)) :
    Interrupted wipe original stopped.partitions stopped.completed := by
  have start : Interrupted wipe original booted.partitions
      booted.completed := by
    apply Interrupted.before
    · rw [calls]
      rfl
    · exact .inl isOriginal
  let invariant : Node → Prop := fun node =>
    Interrupted wipe original node.partitions node.completed
  rcases working with provisions | completes
  · have wipes := wipe_of_decision provisions
    have wiped : Interrupted wipe original []
        (booted.completed ++ [.wipe disk.info.path]) := by
      apply Interrupted.before
      · rw [calls]
        rfl
      · exact .inr ⟨wipes, rfl⟩
    have pass := node_provision true invariant known provisions start wiped (by
      intro completed earlier objects formatted remaining split
      have clean : writtenPlans completed = [] ∧
          formatCount completed = 0 := by
        rw [calls] at earlier
        rcases earlier with rfl | rfl
        · exact ⟨rfl, rfl⟩
        · exact ⟨rfl, rfl⟩
      exact Interrupted.of_stage _ 0 (.inl ⟨wipes, rfl, rfl⟩) split clean.1
        clean.2 rfl rfl)
    exact (Machine.protected_of_exec pass cut).holds
  · obtain ⟨keeps, labels⟩ := image_of_decision completes
    obtain ⟨filesystem, rfl⟩ := eq_of_labels labels
    subst keeps
    have pass := node_complete true invariant known start (.inl isOriginal) (by
      intro _ objects formatted remaining split
      rw [calls]
      exact Interrupted.of_stage _ 1 (.inr ⟨rfl, rfl, rfl⟩) split rfl rfl
        rfl rfl)
    exact (Machine.protected_of_exec pass cut).holds

theorem wellFormatted_stage {base : List Partition}
    {formatted remaining : List PartitionPlan}
    (ofLayout : ∀ entry ∈ formatted, entry ∈ fixedLayout) :
    WellFormatted (base ++ filled formatted ++ InstallDisk.blank remaining) ↔
      WellFormatted base ∧ remaining = [] := by
  constructor
  · intro wellFormatted
    refine ⟨?_, ?_⟩
    · intro partition member
      apply wellFormatted partition
      rw [List.append_assoc]
      exact List.mem_append_left _ member
    · cases remaining with
      | nil => rfl
      | cons entry remaining =>
          obtain ⟨_, _, _, holds⟩ := wellFormatted ⟨entry.label, none⟩ (by
            simp [InstallDisk.blank])
          cases holds
  · rintro ⟨baseFormatted, rfl⟩ partition member
    rw [InstallDisk.blank, List.map_nil, List.append_nil] at member
    rcases List.mem_append.mp member with inBase | isFilled
    · exact baseFormatted partition inBase
    · obtain ⟨entry, isEntry, rfl⟩ := List.mem_map.mp isFilled
      exact ⟨entry, ofLayout entry isEntry, rfl, rfl⟩

theorem wellFormatted_efi {filesystem : Option FsType} :
    WellFormatted [⟨"EFI", filesystem⟩] ↔ filesystem = some .vfat := by
  constructor
  · intro wellFormatted
    obtain ⟨entry, isEntry, label, holds⟩ :=
      wellFormatted _ (List.mem_singleton_self _)
    rw [fixedLayout_efi isEntry label] at holds
    exact holds
  · rintro rfl partition member
    rw [List.mem_singleton] at member
    rw [member]
    exact ⟨_, List.mem_cons_self, rfl, rfl⟩

/-- The labels of a disk whose partition table was written are ours, however
far the formats got. -/
theorem labels_of_stage {original base : List Partition} {wipe : Bool}
    {plan formatted remaining : List PartitionPlan}
    (working : decision wipe (original.map Partition.label) = .provision ∨
      decision wipe (original.map Partition.label) = .completeLayout)
    (branch : wipe = true ∧ base = [] ∧ plan = fixedLayout ∨
      wipe = false ∧ base = original ∧ plan = appendedLayout)
    (split : plan = formatted ++ remaining) :
    (base ++ filled formatted ++ InstallDisk.blank remaining).map
      Partition.label = layoutLabels := by
  rw [List.append_assoc, List.map_append, filled_blank_labels, ← split]
  rcases branch with ⟨_, rfl, rfl⟩ | ⟨keeps, rfl, rfl⟩
  · rfl
  · rcases working with provisions | completes
    · rw [wipe_of_decision provisions] at keeps
      cases keeps
    · rw [(image_of_decision completes).2]
      rfl

theorem recoverable_of_stage {original base : List Partition} {wipe : Bool}
    {plan formatted remaining : List PartitionPlan}
    {completed : List BlockCall}
    (working : decision wipe (original.map Partition.label) = .provision ∨
      decision wipe (original.map Partition.label) = .completeLayout)
    (branch : wipe = true ∧ base = [] ∧ plan = fixedLayout ∨
      wipe = false ∧ base = original ∧ plan = appendedLayout)
    (split : plan = formatted ++ remaining)
    (written : writtenPlans completed = [plan])
    (formats : formatCount completed = formatted.length) :
    Recoverable wipe original completed ↔
      WellFormatted base ∧ remaining = [] := by
  have finished : (∀ plan ∈ writtenPlans completed,
      formatCount completed = plan.length) ↔ remaining = [] := by
    rw [written, formats, split]
    simp
  rw [Recoverable, finished, and_comm]
  apply and_congr_left'
  rcases branch with ⟨wipes, rfl, _⟩ | ⟨keeps, rfl, _⟩
  · simp [wipes, WellFormatted]
  · rcases working with provisions | completes
    · rw [wipe_of_decision provisions] at keeps
      cases keeps
    · obtain ⟨filesystem, rfl⟩ := eq_of_labels (image_of_decision completes).2
      rw [wellFormatted_efi]
      simp [keeps]

/-- A pass cut off before its partition table leaves the disk to be laid out
or completed again. -/
theorem reconverges_iff_of_unwritten {disk : InstallDisk} {wipe : Bool}
    {original left : List Partition} {completed : List BlockCall}
    {node : Node} (known : Known disk left node.objects)
    (isLeft : node.partitions = left)
    (working : decision wipe (original.map Partition.label) = .provision ∨
      decision wipe (original.map Partition.label) = .completeLayout)
    (unwritten : writtenPlans completed = [])
    (cause : left = original ∨ wipe = true ∧ left = []) :
    Reconverges disk wipe node ↔ Recoverable wipe original completed := by
  have finished : ∀ plan ∈ writtenPlans completed,
      formatCount completed = plan.length := by
    rw [unwritten]
    simp
  rcases working with provisions | completes
  · have wipes := wipe_of_decision provisions
    subst wipes
    have again : decision true (left.map Partition.label) = .provision := by
      rcases cause with rfl | ⟨_, rfl⟩
      · exact provisions
      · decide
    constructor
    · intro _
      refine ⟨finished, ?_⟩
      intro keeps
      cases keeps
    · intro _
      exact reconverges_of_provision known again
  · obtain ⟨keeps, labels⟩ := image_of_decision completes
    subst keeps
    obtain ⟨filesystem, rfl⟩ := eq_of_labels labels
    rcases cause with rfl | ⟨impossible, _⟩
    · rw [reconverges_iff_vfat known isLeft, Recoverable]
      simp [unwritten]
    · cases impossible

/-- After an interrupted pass, a reboot and a fresh scan, everything a
successful pass publishes is sound if and only if the pass was cut off before
it wrote its partition table or after its last format, and an adopted EFI
partition already held its filesystem. -/
theorem reconverges_iff_recoverable (disk : InstallDisk) (wipe : Bool)
    (original : List Partition) (booted stopped rebooted : Node)
    (choices : List NodeChoice)
    (rest : Program blockControllerSignature (Result Unit))
    (scanned : (nodeMachine disk true).Returns DiskDiscovery.reconcile
      (Node.boot original) (.ok ()) booted)
    (working :
      planProvisioning disk.info.path wipe (disk.discovered original) =
          .provision ∨
        planProvisioning disk.info.path wipe (disk.discovered original) =
          .completeLayout)
    (cut : (nodeMachine disk true).exec
      (VolumeProvisioner.reconcile (some (disk.install wipe))) booted choices =
        some (rest, stopped))
    (rescanned : (nodeMachine disk true).Returns DiskDiscovery.reconcile
      (Node.boot stopped.partitions) (.ok ()) rebooted) :
    Reconverges disk wipe rebooted ↔
      Recoverable wipe original stopped.completed := by
  obtain ⟨known, isOriginal, calls⟩ :=
    (Machine.post_of_returns (discovery_known disk original true) scanned).2
      rfl
  obtain ⟨leftKnown, isLeft, _⟩ :=
    (Machine.post_of_returns (discovery_known disk stopped.partitions true)
      rescanned).2 rfl
  have decided : planProvisioning disk.info.path wipe
      (disk.discovered original) =
        decision wipe (original.map Partition.label) :=
    planProvisioning_scanned (List.Perm.refl _)
  rw [decided] at working
  have interrupted :=
    interrupted_of_cut known isOriginal calls working cut
  generalize stopped.partitions = left at leftKnown isLeft interrupted
  generalize stopped.completed = completed at interrupted ⊢
  cases interrupted with
  | before unwritten _ cause =>
      exact reconverges_iff_of_unwritten leftKnown isLeft working unwritten
        cause
  | @after _ base plan formatted remaining branch split written formats =>
      have labels := labels_of_stage working branch split
      rw [reconverges_iff_wellFormatted leftKnown isLeft
          (by rw [labels]; decide) (by rw [labels]; decide),
        recoverable_of_stage working branch split written formats]
      apply wellFormatted_stage
      intro entry member
      have planned : entry ∈ formatted ++ remaining :=
        List.mem_append_left _ member
      rw [← split] at planned
      rcases branch with ⟨_, _, rfl⟩ | ⟨_, _, rfl⟩
      · exact planned
      · exact appendedLayout_ofLayout planned

theorem discovery_returns (disk : InstallDisk) (partitions : List Partition) :
    ∃ booted, (nodeMachine disk true).Returns DiskDiscovery.reconcile
      (Node.boot partitions) (.ok ()) booted := by
  obtain ⟨result, booted, returns⟩ := (nodeMachine_total disk false).returns
    DiskDiscovery.reconcile (Node.boot partitions)
  have succeeded := (Machine.post_of_returns
    (discovery_known disk partitions false) returns).1 rfl
  rw [succeeded] at returns
  exact ⟨booted, returns_of_faultless returns⟩

def sdaDisk : InstallDisk :=
  { info := sda, named := by decide }

def returnedOk : Program blockControllerSignature (Result Unit) → Bool
  | .done (.ok ()) => true
  | _ => false

theorem eq_done_of_returnedOk
    {program : Program blockControllerSignature (Result Unit)}
    (isReturned : returnedOk program = true) : program = .done (.ok ()) := by
  cases program with
  | call operation rest => cases isReturned
  | done result =>
      cases result with
      | error error => cases isReturned
      | ok value => rfl

theorem cut_after_table :
    ∃ booted stopped choices rest,
      (nodeMachine sdaDisk true).Returns DiskDiscovery.reconcile
        (Node.boot []) (.ok ()) booted ∧
      (nodeMachine sdaDisk true).exec
        (VolumeProvisioner.reconcile (some (sdaDisk.install true))) booted
        choices = some (rest, stopped) ∧
      stopped.partitions = InstallDisk.blank fixedLayout := by
  let quiet : NodeChoice := ⟨[], none⟩
  let listed : NodeChoice :=
    ⟨[((DiskDiscovery.diskObject sda).withOwner DiskDiscovery.owner).fresh],
      none⟩
  let scan := (nodeMachine sdaDisk true).exec DiskDiscovery.reconcile
    (Node.boot []) [quiet, quiet, quiet, quiet, quiet, listed]
  have computed : (scan.bind fun scanned =>
      ((nodeMachine sdaDisk true).exec
        (VolumeProvisioner.reconcile (some (sdaDisk.install true))) scanned.2
        [quiet, quiet, quiet]).map fun cut =>
          (returnedOk scanned.1, cut.2.partitions)) =
      some (true, InstallDisk.blank fixedLayout) := by
    decide
  obtain ⟨⟨program, booted⟩, scanned, continued⟩ :=
    Option.bind_eq_some_iff.mp computed
  obtain ⟨⟨rest, stopped⟩, cut, equality⟩ :=
    Option.map_eq_some_iff.mp continued
  have finished : program = .done (.ok ()) :=
    eq_done_of_returnedOk (congrArg Prod.fst equality)
  rw [finished] at scanned
  exact ⟨booted, stopped, _, rest, ⟨_, scanned⟩, cut,
    congrArg Prod.snd equality⟩

theorem reconverges_iff_recoverable_sda :
    ∃ booted stopped rebooted choices rest,
      (nodeMachine sdaDisk true).Returns DiskDiscovery.reconcile
        (Node.boot []) (.ok ()) booted ∧
      (nodeMachine sdaDisk true).exec
        (VolumeProvisioner.reconcile (some (sdaDisk.install true))) booted
        choices = some (rest, stopped) ∧
      (nodeMachine sdaDisk true).Returns DiskDiscovery.reconcile
        (Node.boot stopped.partitions) (.ok ()) rebooted ∧
      (Reconverges sdaDisk true rebooted ↔
        Recoverable true [] stopped.completed) := by
  obtain ⟨booted, stopped, choices, rest, scanned, cut, _⟩ := cut_after_table
  obtain ⟨rebooted, rescanned⟩ := discovery_returns sdaDisk stopped.partitions
  exact ⟨booted, stopped, rebooted, choices, rest, scanned, cut, rescanned,
    reconverges_iff_recoverable sdaDisk true [] booted stopped rebooted
      choices rest scanned (.inl (by decide)) cut rescanned⟩

/-- Cut off right after `create_partitions`, the pass leaves a disk that the
next boot publishes as provisioned, without any filesystem on it. -/
theorem not_reconverges_after_table :
    ∃ booted stopped rebooted choices rest,
      (nodeMachine sdaDisk true).Returns DiskDiscovery.reconcile
        (Node.boot []) (.ok ()) booted ∧
      (nodeMachine sdaDisk true).exec
        (VolumeProvisioner.reconcile (some (sdaDisk.install true))) booted
        choices = some (rest, stopped) ∧
      (nodeMachine sdaDisk true).Returns DiskDiscovery.reconcile
        (Node.boot stopped.partitions) (.ok ()) rebooted ∧
      ¬ Reconverges sdaDisk true rebooted := by
  obtain ⟨booted, stopped, choices, rest, scanned, cut, laid⟩ :=
    cut_after_table
  obtain ⟨rebooted, rescanned⟩ := discovery_returns sdaDisk stopped.partitions
  refine ⟨booted, stopped, rebooted, choices, rest, scanned, cut, rescanned,
    ?_⟩
  obtain ⟨known, isLeft, _⟩ := (Machine.post_of_returns
    (discovery_known sdaDisk stopped.partitions true) rescanned).2 rfl
  rw [laid] at known isLeft
  rw [reconverges_iff_wellFormatted known isLeft (by decide) (by decide)]
  intro formatted
  obtain ⟨_, _, _, holds⟩ := formatted _ List.mem_cons_self
  cases holds

end MachinedRs
