import MachinedRs.Block.Backend

/-!
# Disk discovery

One scan of the disks and their partitions.  The volumes are published before
the disks, so that a disk's status tells that its volumes are in the store.
-/

namespace MachinedRs

open Foundation

namespace DiskDiscovery

def owner : String :=
  "disk-discovery"

def diskObject (disk : DiskInfo) : ResourceObject :=
  ResourceObject.new blockNs disk.name
    (.diskStatus
      { name := disk.name
        path := disk.path
        sizeBytes := disk.sizeBytes
        model := disk.model
        serial := disk.serial
        rotational := disk.rotational
        readOnly := disk.readOnly })

def discoveredVolume (volume : VolumeInfo) : DiscoveredVolume :=
  { device := volume.device
    disk := volume.disk
    partitionUuid := volume.partitionUuid
    partitionLabel := volume.partitionLabel
    partitionTypeGuid := volume.partitionTypeGuid
    fsType := volume.fsType.map FsType.asStr
    fsLabel := volume.fsLabel
    fsUuid := volume.fsUuid
    sizeBytes := volume.sizeBytes }

def volumeObject (volume : VolumeInfo) : ResourceObject :=
  ResourceObject.new blockNs (leaf volume.device)
    (.discoveredVolume (discoveredVolume volume))

/-- Content first, then the status that serves as the barrier. -/
def publish (disks : List DiskInfo) (volumes : List VolumeInfo) :
    Program stateSignature (Result Unit) :=
  (reconcileOwned owner blockNs .discoveredVolume
    (volumes.map volumeObject)).bind fun published =>
      Program.attempt published fun _ =>
        reconcileOwned owner blockNs .diskStatus (disks.map diskObject)

def reconcile : Program blockControllerSignature (Result Unit) :=
  .call (.inr .listDisks) fun disks =>
    propagateBlock disks fun disks =>
      .call (.inr .listVolumes) fun volumes =>
        propagateBlock volumes fun volumes =>
          (publish disks volumes).inl

end DiskDiscovery

/-- The disk of the sample runs. -/
def sda : DiskInfo :=
  { name := "sda"
    path := "/dev/sda"
    sizeBytes := 8589934592
    model := "M"
    serial := "S"
    rotational := false
    readOnly := false }

/-- The one partition of a disk flashed with the image. -/
def flashedEfi : VolumeInfo :=
  { device := "/dev/sda1"
    disk := "sda"
    partitionUuid := "u"
    partitionLabel := "EFI"
    partitionTypeGuid := PartType.efiSystem.typeGuid
    fsType := some .vfat
    fsLabel := none
    fsUuid := none
    sizeBytes := 536870912 }

end MachinedRs
