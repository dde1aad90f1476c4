import MachinedRs.Block.Backend
import MachinedRs.RuntimeCore.ControllerLoop

/-!
# The volume provisioner

The pure guard that takes the destructive decision, and the reconcile pass that
carries it out.
-/

namespace MachinedRs

open Foundation

/-- The part of the machine configuration the provisioner reads. -/
structure InstallSection where
  disk : String
  wipe : Bool
deriving DecidableEq, Repr

inductive ProvisionDecision where
  | skip
  | provision
  | completeLayout
  | refuseForeign
deriving DecidableEq, Repr

/-- The fixed labels this OS lays out. -/
def layoutLabels : List String :=
  ["EFI", "STATE", "EPHEMERAL"]

/-- The discovered volume belongs to the install disk. -/
def onInstallDisk (installDisk : String) (volume : DiscoveredVolume) : Bool :=
  volume.disk = leaf installDisk || volume.device = installDisk

def planProvisioning (installDisk : String) (wipe : Bool)
    (discovered : List DiscoveredVolume) : ProvisionDecision :=
  let onDisk := discovered.filter (onInstallDisk installDisk)
  let labels := onDisk.map DiscoveredVolume.partitionLabel
  let isOurs := !onDisk.isEmpty &&
    layoutLabels.all (labels.contains ·) &&
    labels.all (layoutLabels.contains ·)
  let isImage := onDisk.length = 1 && labels = ["EFI"]
  if isOurs then
    .skip
  else if wipe then
    .provision
  else if isImage then
    .completeLayout
  else
    .refuseForeign

def fixedLayout : List PartitionPlan :=
  [ { label := "EFI"
      partType := .efiSystem
      fs := .vfat
      sizeBytes := 512 * 1024 * 1024 },
    { label := "STATE"
      partType := .linuxFilesystem
      fs := .ext4
      sizeBytes := 1024 * 1024 * 1024 },
    { label := "EPHEMERAL"
      partType := .linuxFilesystem
      fs := .ext4
      sizeBytes := 0 } ]

/-- The fixed layout without EFI, which the imager has already written. -/
def appendedLayout : List PartitionPlan :=
  fixedLayout.filter fun plan => plan.label ≠ "EFI"

theorem appendedLayout_labels {plan : PartitionPlan}
    (member : plan ∈ appendedLayout) :
    plan.label = "STATE" ∨ plan.label = "EPHEMERAL" := by
  simp only [appendedLayout, fixedLayout, List.mem_filter, List.mem_cons,
    List.not_mem_nil, or_false] at member
  obtain ⟨rfl | rfl | rfl, notEfi⟩ := member
  · simp at notEfi
  · exact .inl rfl
  · exact .inr rfl

def volumeStatusObj (name device fs label : String) (phase : VolumePhase) :
    ResourceObject :=
  ResourceObject.new blockNs name
    (.volumeStatus
      { name := name
        device := device
        fs := fs
        label := label
        phase := phase })

/-- The status published for a discovered volume. -/
def statusOfVolume (volume : DiscoveredVolume) : ResourceObject :=
  volumeStatusObj volume.partitionLabel volume.device
    (volume.fsType.getD "") volume.partitionLabel .provisioned

def provisionedStatusFromDiscovered (disk : String)
    (discovered : List DiscoveredVolume) : List ResourceObject :=
  ((discovered.filter fun volume => volume.disk = leaf disk).filter
    fun volume => layoutLabels.contains volume.partitionLabel).map
      statusOfVolume

namespace VolumeProvisioner

def owner : String :=
  "volume-provisioner"

def inputs : List Input :=
  [.diskStatus, .discoveredVolume].map fun typ =>
    { ns := blockNs, typ := typ, kind := .weak }

/-- The specs of the listed objects that are discovered volumes. -/
def discoveredSpecs (listing : List ResourceObject) : List DiscoveredVolume :=
  listing.filterMap fun object =>
    match object.spec with
    | .discoveredVolume volume => some volume
    | _ => none

def publish (statuses : List ResourceObject) :
    Program blockControllerSignature (Result Unit) :=
  (reconcileOwned owner blockNs .volumeStatus statuses).inl

/-- Format each planned partition on its device, collecting the statuses to
publish. -/
def formatAll : List (PartitionPlan × String) → List ResourceObject →
    Program blockControllerSignature (Result (List ResourceObject))
  | [], statuses => .done (.ok statuses)
  | (plan, device) :: rest, statuses =>
      .call (.inr (.format device plan.fs plan.label)) fun formatted =>
        propagateBlock formatted fun _ =>
          formatAll rest (statuses ++
            [volumeStatusObj plan.label device plan.fs.asStr plan.label
              .provisioned])

def formatAndPublish (layout : List PartitionPlan) (devices : List String)
    (statuses : List ResourceObject) :
    Program blockControllerSignature (Result Unit) :=
  (formatAll (layout.zip devices) statuses).bind fun formatted =>
    Program.attempt formatted publish

/-- The `Provision` branch after the optional wipe. -/
def layOut (disk : String) :
    Program blockControllerSignature (Result Unit) :=
  .call (.inr (.createPartitions disk fixedLayout)) fun created =>
    propagateBlock created fun devices =>
      formatAndPublish fixedLayout devices []

def provision (install : InstallSection)
    (discovered : List DiscoveredVolume) :
    Program blockControllerSignature (Result Unit) :=
  if !discovered.isEmpty && install.wipe then
    .call (.inr (.wipe install.disk)) fun wiped =>
      propagateBlock wiped fun _ => layOut install.disk
  else
    layOut install.disk

def completeLayout (install : InstallSection)
    (discovered : List DiscoveredVolume) :
    Program blockControllerSignature (Result Unit) :=
  .call (.inr (.addPartitions install.disk appendedLayout)) fun added =>
    propagateBlock added fun devices =>
      formatAndPublish appendedLayout devices
        (provisionedStatusFromDiscovered install.disk discovered)

/-- What a pass does once it has decided. -/
def carryOutPlan (install : InstallSection) (discovered : List DiscoveredVolume)
    (decision : ProvisionDecision) :
    Program blockControllerSignature (Result Unit) :=
  match decision with
  | .refuseForeign =>
      .done (.error (.controller ("install disk " ++ install.disk ++
        " has foreign data; set install.wipe to overwrite")))
  | .skip =>
      publish (provisionedStatusFromDiscovered install.disk discovered)
  | .provision => provision install discovered
  | .completeLayout => completeLayout install discovered

/-- What a pass does once it has read the discovered volumes. -/
def carryOut (install : InstallSection) (discovered : List DiscoveredVolume) :
    Program blockControllerSignature (Result Unit) :=
  carryOutPlan install discovered
    (planProvisioning install.disk install.wipe discovered)

/-- Nothing happens until discovery has published the disk's status. -/
def reconcile : Option InstallSection →
    Program blockControllerSignature (Result Unit)
  | none => .done (.ok ())
  | some install =>
      .call (.inl (.get ⟨blockNs, .diskStatus, leaf install.disk⟩))
        fun found =>
          match found with
          | .error _ => .done (.ok ())
          | .ok _ =>
              .call (.inl (.list blockNs .discoveredVolume)) fun listing =>
                carryOut install (discoveredSpecs listing)

end VolumeProvisioner

end MachinedRs
