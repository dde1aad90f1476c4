import MachinedRs.Block.Disk
import MachinedRs.Block.Provision

/-!
# What the store knows about the disk

A scan puts the disk's partitions into the store.  The provisioner's passes
change nothing but volume statuses, so what it reads about the disk stays as of
the scan, however the disk itself goes on.
-/

namespace MachinedRs

open Foundation

/-- A volume as discovery leaves it in the store. -/
def DiskDiscovery.stored (volume : VolumeInfo) : ResourceObject :=
  ((DiskDiscovery.volumeObject volume).withOwner DiskDiscovery.owner).fresh

theorem DiskDiscovery.discoveredSpecs_stored (volumes : List VolumeInfo) :
    VolumeProvisioner.discoveredSpecs (volumes.map DiskDiscovery.stored) =
      volumes.map DiskDiscovery.discoveredVolume := by
  rw [VolumeProvisioner.discoveredSpecs, List.filterMap_map]
  exact congrFun
    (List.filterMap_eq_map (f := DiskDiscovery.discoveredVolume)) _

/-- The store knows the disk as it was when its partitions were `scanned`. -/
structure Known (disk : InstallDisk) (scanned : List Partition)
    (objects : Objects) : Prop where
  keyed : State.WellKeyed objects
  barrier : ∃ status, objects.lookup
    ⟨blockNs, .diskStatus, leaf disk.info.path⟩ = some status
  volumes : State.list objects blockNs .discoveredVolume =
    ((disk.volumes scanned).map DiskDiscovery.stored :
      Multiset ResourceObject)
  /-- Only the provisioner writes volume statuses, and nobody holds them. -/
  statuses : ∀ key object, objects.lookup key = some object →
    key.ns = blockNs → key.typ = .volumeStatus →
    object.metadata.owner = some VolumeProvisioner.owner ∧
      object.metadata.finalizers = []

section Discovery

variable (disk : InstallDisk) (partitions : List Partition)

theorem nodup_volume_keys :
    (((disk.volumes partitions).map DiskDiscovery.volumeObject).map
      ResourceObject.key).Nodup := by
  rw [List.nodup_iff_getElem?_ne_getElem?]
  intro first second before within same
  have secondWithin : second < partitions.length := by
    simpa [InstallDisk.volumes] using within
  have firstWithin : first < partitions.length := before.trans secondWithin
  simp only [InstallDisk.volumes, List.getElem?_map, List.getElem?_mapIdx,
    List.getElem?_eq_getElem firstWithin,
    List.getElem?_eq_getElem secondWithin, Option.map_some,
    Option.some.injEq] at same
  have leaves : leaf (partDevice disk.info.path (first + 1)) =
      leaf (partDevice disk.info.path (second + 1)) :=
    congrArg Key.id same
  have equal := leaf_partDevice_injective leaves
  omega

theorem volume_key_typ {key : Key}
    (member : key ∈ ((disk.volumes partitions).map
      DiskDiscovery.volumeObject).map ResourceObject.key) :
    key.ns = blockNs ∧ key.typ = .discoveredVolume := by
  rw [List.map_map] at member
  obtain ⟨volume, _, rfl⟩ := List.mem_map.mp member
  exact ⟨rfl, rfl⟩

theorem publish_lookup :
    storeMachine.Ensures
      (fun result after => result = .ok () ∧ State.WellKeyed after ∧
        (∀ volume ∈ disk.volumes partitions,
          after.lookup (DiskDiscovery.volumeObject volume).key =
            some (DiskDiscovery.stored volume)) ∧
        (∃ status, after.lookup (DiskDiscovery.diskObject disk.info).key =
          some status) ∧
        ∀ key, key ≠ (DiskDiscovery.diskObject disk.info).key →
          key ∉ ((disk.volumes partitions).map
            DiskDiscovery.volumeObject).map ResourceObject.key →
          after.lookup key = none)
      (DiskDiscovery.publish [disk.info] (disk.volumes partitions)) ∅ := by
  apply Setting.Protected.bind
  apply Setting.Protected.mono _
    (reconcileOwned_fresh DiskDiscovery.owner State.wellKeyed_empty
      (nodup_volume_keys disk partitions) _ _)
  · rintro result middle ⟨rfl, middleKeyed, volumesStored, others⟩
    have noDisk : ∀ key : Key, key.ns = blockNs → key.typ = .diskStatus →
        middle.lookup key = none := by
      intro key _ isDisk
      rw [others key]
      · exact Finmap.lookup_empty key
      · intro member
        have isVolume := (volume_key_typ disk partitions member).2
        rw [isDisk] at isVolume
        cases isVolume
    have single : (([disk.info].map DiskDiscovery.diskObject).map
        ResourceObject.key).Nodup :=
      List.nodup_singleton _
    apply Setting.Protected.mono _
      (reconcileOwned_fresh DiskDiscovery.owner middleKeyed single _ noDisk)
    · rintro result after ⟨succeeded, keyed, diskStored, unchanged⟩
      have diskKey : ∀ key, key ∉ ([disk.info].map
          DiskDiscovery.diskObject).map ResourceObject.key ↔
            key ≠ (DiskDiscovery.diskObject disk.info).key := by
        intro key
        simp
      refine ⟨succeeded, keyed, ?_, ?_, ?_⟩
      · intro volume member
        rw [unchanged]
        · exact volumesStored _ (List.mem_map_of_mem member)
        · apply (diskKey _).mpr
          intro same
          cases congrArg Key.typ same
      · exact ⟨_, diskStored _ (List.mem_singleton_self _)⟩
      · intro key notDisk notVolume
        rw [unchanged key ((diskKey key).mpr notDisk), others key notVolume]
        exact Finmap.lookup_empty key
    · intro object member
      rw [List.map_singleton, List.mem_singleton] at member
      rw [member]
      exact ⟨rfl, rfl⟩
  · intro object member
    exact volume_key_typ disk partitions (List.mem_map_of_mem member)
  · intro key _ _
    exact Finmap.lookup_empty key

theorem publish_known :
    storeMachine.Ensures
      (fun result after => result = .ok () ∧ Known disk partitions after)
      (DiskDiscovery.publish [disk.info] (disk.volumes partitions)) ∅ := by
  apply Setting.Protected.mono _ (publish_lookup disk partitions)
  rintro result after ⟨succeeded, keyed, volumesStored, diskStored, others⟩
  have diskKey : (DiskDiscovery.diskObject disk.info).key =
      ⟨blockNs, .diskStatus, leaf disk.info.path⟩ := by
    rw [← disk.named]
    rfl
  refine ⟨succeeded, keyed, ?_, ?_, ?_⟩
  · rw [← diskKey]
    exact diskStored
  · apply State.list_eq keyed
    · have keys := nodup_volume_keys disk partitions
      rw [List.map_map] at keys
      apply List.Nodup.of_map ResourceObject.key
      rw [List.map_map]
      exact keys
    · intro object member
      obtain ⟨volume, isVolume, rfl⟩ := List.mem_map.mp member
      exact ⟨volumesStored volume isVolume, rfl, rfl⟩
    · intro key object stored _ isVolume
      have notDisk : key ≠ (DiskDiscovery.diskObject disk.info).key := by
        rintro rfl
        cases isVolume
      by_cases member : key ∈ ((disk.volumes partitions).map
          DiskDiscovery.volumeObject).map ResourceObject.key
      · rw [List.map_map] at member
        obtain ⟨volume, isListed, rfl⟩ := List.mem_map.mp member
        have found := volumesStored volume isListed
        rw [Function.comp_apply, found] at stored
        cases stored
        exact List.mem_map_of_mem isListed
      · rw [others key notDisk member] at stored
        cases stored
  · intro key object stored _ isStatus
    rw [others key] at stored
    · cases stored
    · rintro rfl
      cases isStatus
    · intro member
      have isVolume := (volume_key_typ disk partitions member).2
      rw [isStatus] at isVolume
      cases isVolume

theorem discovery_known (faulty : Bool) :
    (nodeMachine disk faulty).Ensures
      (fun result after => (faulty = false → result = .ok ()) ∧
        (result = .ok () → Known disk partitions after.objects ∧
          after.partitions = partitions ∧
          after.completed = [.listDisks, .listVolumes]))
      DiskDiscovery.reconcile (Node.boot partitions) := by
  have failed : ∀ {error : Error} {after : Node}, faulty = true →
      (faulty = false → (.error error : Result Unit) = .ok ()) ∧
        ((.error error : Result Unit) = .ok () →
          Known disk partitions after.objects ∧
            after.partitions = partitions ∧
            after.completed = [.listDisks, .listVolumes]) := by
    intro error after faults
    constructor
    · intro faultless
      rw [faults] at faultless
      cases faultless
    · intro succeeded
      cases succeeded
  apply node_accepted trivial rfl
  · intro error faults
    exact Machine.done trivial (failed faults)
  apply node_accepted trivial rfl
  · intro error faults
    exact Machine.done trivial (failed faults)
  apply node_store
  · intro objects
    trivial
  · exact publish_known disk partitions
  · rintro result objects ⟨rfl, known⟩
    exact ⟨fun _ => rfl, fun _ => ⟨known, rfl, rfl⟩⟩

end Discovery

end MachinedRs
