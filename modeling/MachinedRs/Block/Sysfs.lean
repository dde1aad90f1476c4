import Mathlib.Data.List.Sort
import Mathlib.Data.String.Basic
import MachinedRs.Block.Discovery
import MachinedRs.Block.Provision
import MachinedRs.Foundation.Numeral
import MachinedRs.RuntimeCore.OwnedContract

/-!
# The scan of the disks

`SysfsBlock` lists the disks of `/sys/block` and their partitions: those of the
GPT, or, when there is none, the ones the kernel shows below the disk.  A
partition's device is named after the disk and a number.  Such a name can be
read in one way only, so the objects of different partitions never share an id,
and the provisioner's guard gets to see each of them.
-/

namespace MachinedRs

open Foundation

/-- A name like `loop0p`, which reads like a disk and a separator. -/
def endsDigitP (disk : String) : Bool :=
  match disk.toList.reverse with
  | last :: digit :: _ => last = 'p' && digit.isDigit
  | _ => false

/-- The device name of a partition up to its number. -/
def partStem (disk : String) : List Char :=
  match disk.toList.getLast? with
  | some last => if last.isDigit then disk.toList ++ ['p'] else disk.toList
  | none => disk.toList

theorem partDevice_toList (disk : String) (number : Nat) :
    (partDevice disk number).toList =
      partStem disk ++ Nat.toDigits 10 number := by
  unfold partDevice partStem
  cases disk.toList.getLast? with
  | none => simp
  | some last =>
      by_cases digit : last.isDigit
      · simp [digit]
      · simp [digit]

theorem partStem_ends {disk : String} {symbol : Char}
    (last : symbol ∈ (partStem disk).getLast?) :
    ¬ symbol.isDigit = true := by
  unfold partStem at last
  split at last
  · rename_i final ends
    split at last
    · rw [List.getLast?_concat] at last
      cases last
      decide
    · rename_i notDigit
      rw [ends] at last
      cases last
      exact notDigit
  · rename_i empty
    rw [empty] at last
    cases last

theorem endsDigitP_of_append {name : String} {disk : List Char} {digit : Char}
    (ends : disk.getLast? = some digit) (isDigit : digit.isDigit = true)
    (same : name.toList = disk ++ ['p']) : endsDigitP name = true := by
  obtain ⟨before, rfl⟩ := List.getLast?_eq_some_iff.mp ends
  rw [endsDigitP, same]
  simp [isDigit]

/-- Either both names get a separator or none of them does. -/
theorem partStem_injective {disk other : String}
    (plain : endsDigitP disk = false) (otherPlain : endsDigitP other = false)
    (same : partStem disk = partStem other) : disk = other := by
  apply String.toList_injective
  have stem : ∀ name : String, partStem name = name.toList ∨
      (∃ digit, name.toList.getLast? = some digit ∧ digit.isDigit = true) ∧
        partStem name = name.toList ++ ['p'] := by
    intro name
    unfold partStem
    split
    · rename_i last ends
      split
      · rename_i isDigit
        exact .inr ⟨⟨last, ends, isDigit⟩, rfl⟩
      · exact .inl rfl
    · exact .inl rfl
  rcases stem disk with bare | ⟨⟨digit, ends, isDigit⟩, separated⟩
  · rcases stem other with otherBare | ⟨⟨digit, ends, isDigit⟩, separated⟩
    · rw [← bare, same, otherBare]
    · have ending : endsDigitP disk = true :=
        endsDigitP_of_append ends isDigit (by rw [← bare, same, separated])
      rw [plain] at ending
      cases ending
  · rcases stem other with otherBare | ⟨_, otherSeparated⟩
    · have ending : endsDigitP other = true :=
        endsDigitP_of_append ends isDigit
          (by rw [← otherBare, ← same, separated])
      rw [otherPlain] at ending
      cases ending
    · rw [separated, otherSeparated] at same
      exact List.append_cancel_right same

theorem partDevice_identifies {disk other : String}
    {number otherNumber : Nat} (plain : endsDigitP disk = false)
    (otherPlain : endsDigitP other = false)
    (same : partDevice disk number = partDevice other otherNumber) :
    disk = other ∧ number = otherNumber := by
  have digits : ∀ value, ∀ symbol ∈ Nat.toDigits 10 value,
      symbol.isDigit = true := by
    intro value symbol member
    exact Nat.isDigit_of_mem_toDigits (by decide : 0 < 10) (by decide) member
  have lists := congrArg String.toList same
  rw [partDevice_toList, partDevice_toList] at lists
  obtain ⟨stems, numbers⟩ :=
    append_run_inj (digits number) (digits otherNumber)
      (fun _ => partStem_ends) (fun _ => partStem_ends) lists
  exact ⟨partStem_injective plain otherPlain stems,
    toDigits_injective (by decide) (by decide) numbers⟩

/-- `u64::from_str`: decimal digits after an optional plus sign. -/
def parseU64 (text : List Char) : Option Nat :=
  let digits :=
    match text with
    | '+' :: rest => rest
    | _ => text
  if digits ≠ [] ∧ digits.all (fun character => (digit? 10 character).isSome) ∧
      numeral 10 digits < 2 ^ 64 then
    some (numeral 10 digits)
  else
    none

/-- The filesystem found at the beginning of a device. -/
structure FsProbe where
  fsType : FsType
  label : Option String
  uuid : Option String
deriving DecidableEq, Repr

/-- A partition of a GPT; a size that does not fit counts as `0`. -/
structure GptPartition where
  partGuid : String
  name : String
  partTypeGuid : String
  bytesLen : Nat
deriving DecidableEq, Repr

structure PartEntry where
  device : String
  uuid : String
  label : String
  typeGuid : String
  sizeBytes : Nat
deriving DecidableEq, Repr

def devPath (name : String) : String :=
  "/dev/" ++ name

/-- What a scan reads, with what file names, partition tables and the kernel
guarantee about it. -/
structure SysfsBlock where
  /-- The entries of `/sys/block`. -/
  entries : Except String (List (Except String String))
  /-- The trimmed text of a file below `/sys/block`, if it can be read. -/
  readTrim : List String → Option String
  /-- The partitions in the GPT of a disk, by their indices. -/
  gpt : String → Except String (List (Nat × GptPartition))
  /-- The names below `/sys/block/<disk>`. -/
  subdirs : String → Option (List String)
  /-- The filesystem on a device, if it can be read and is known. -/
  probe : String → Option FsProbe
  distinct : ∀ listed, entries = .ok listed →
    (listed.filterMap Except.toOption).Nodup
  flat : ∀ listed, entries = .ok listed →
    ∀ name ∈ listed.filterMap Except.toOption, '/' ∉ name.toList
  indices : ∀ disk partitions, gpt disk = .ok partitions →
    (partitions.map Prod.fst).Nodup
  subdirsDistinct : ∀ disk names, subdirs disk = some names → names.Nodup
  /-- The kernel names partitions in the same way. -/
  partitionNamed : ∀ disk names, subdirs disk = some names →
    ∀ name ∈ names, (readTrim [disk, name, "partition"]).isSome →
      ∃ number, name = partDevice disk number

namespace SysfsBlock

variable (block : SysfsBlock)

/-- The size in bytes, from a count of sectors. -/
def sizeBytes (directory : List String) : Nat :=
  let sectors :=
    ((block.readTrim (directory ++ ["size"])).bind
      fun text => parseU64 text.toList).getD 0
  min (sectors * 512) (2 ^ 64 - 1)

/-- Devices that are only memory. -/
def skipped (name : String) : Bool :=
  "ram".toList.isPrefixOf name.toList || "zram".toList.isPrefixOf name.toList

def diskInfo (name : String) : DiskInfo :=
  { name := name
    path := devPath name
    sizeBytes := block.sizeBytes [name]
    model := (block.readTrim [name, "device", "model"]).getD ""
    serial := (block.readTrim [name, "device", "serial"]).getD ""
    rotational := block.readTrim [name, "queue", "rotational"] = some "1"
    readOnly := block.readTrim [name, "ro"] = some "1" }

def readEntries :
    List (Except String String) → Except BlockError (List DiskInfo)
  | [] => .ok []
  | .error source :: _ => .error (.io "/sys/block" source)
  | .ok name :: rest =>
      if skipped name then
        readEntries rest
      else
        (readEntries rest).map (block.diskInfo name :: ·)

def listDisks : Except BlockError (List DiskInfo) :=
  match block.entries with
  | .error source => .error (.io "/sys/block" source)
  | .ok listed =>
      (block.readEntries listed).map
        (List.insertionSort fun one other => one.name ≤ other.name)

/-- The names below a disk that stand for partitions. -/
def sysfsPartitionNames (disk : String) (names : List String) : List String :=
  names.filter fun name =>
    disk.toList.isPrefixOf name.toList &&
      (block.readTrim [disk, name, "partition"]).isSome

def readSysfsPartitions (disk : String) : List PartEntry :=
  match block.subdirs disk with
  | none => []
  | some names =>
      ((block.sysfsPartitionNames disk names).map fun name =>
        { device := name
          uuid := ""
          label := ""
          typeGuid := ""
          sizeBytes := block.sizeBytes [disk, name] }).insertionSort
            fun one other => one.device ≤ other.device

def readPartitions (disk : String) : Except BlockError (List PartEntry) :=
  match block.gpt disk with
  | .ok partitions =>
      .ok (partitions.map fun (index, partition) =>
        { device := partDevice disk index
          uuid := partition.partGuid
          label := partition.name
          typeGuid := partition.partTypeGuid
          sizeBytes := partition.bytesLen })
  | .error message =>
      let parts := block.readSysfsPartitions disk
      if parts.isEmpty then
        .error (.gpt (devPath disk) message)
      else
        .ok parts

def volumeInfo (disk : String) (part : PartEntry) : VolumeInfo :=
  let probe := block.probe (devPath part.device)
  { device := devPath part.device
    disk := disk
    partitionUuid := part.uuid
    partitionLabel := part.label
    partitionTypeGuid := part.typeGuid
    fsType := probe.map FsProbe.fsType
    fsLabel := probe.bind FsProbe.label
    fsUuid := probe.bind FsProbe.uuid
    sizeBytes := part.sizeBytes }

/-- A disk whose partitions cannot be read is skipped. -/
def diskVolumes (disk : String) : List VolumeInfo :=
  match block.readPartitions disk with
  | .ok parts => parts.map (block.volumeInfo disk)
  | .error _ => []

def listVolumes : Except BlockError (List VolumeInfo) :=
  block.listDisks.map
    (List.flatMap fun disk => block.diskVolumes disk.name)

/-- The disks whose names a scan comes across. -/
def Shows (name : String) : Prop :=
  ∃ listed, block.entries = .ok listed ∧
    name ∈ listed.filterMap Except.toOption

variable {block}

theorem readEntries_names {listed : List (Except String String)}
    {disks : List DiskInfo} (read : block.readEntries listed = .ok disks) :
    disks.map DiskInfo.name =
      (listed.filterMap Except.toOption).filter (! skipped ·) := by
  induction listed generalizing disks with
  | nil =>
      cases read
      rfl
  | cons entry listed induction =>
      cases entry with
      | error source => cases read
      | ok name =>
          rw [readEntries] at read
          by_cases virtual : skipped name = true
          · rw [if_pos virtual] at read
            rw [induction read]
            simp [Except.toOption, virtual]
          · rw [if_neg virtual] at read
            obtain ⟨others, rest, rfl⟩ := map_eq_ok_iff.mp read
            rw [List.map_cons, induction rest]
            simp [Except.toOption, virtual, diskInfo]

theorem listDisks_names {disks : List DiskInfo}
    (listed : block.listDisks = .ok disks) :
    (disks.map DiskInfo.name).Nodup ∧
      ∀ disk ∈ disks, block.Shows disk.name := by
  unfold listDisks at listed
  cases entries : block.entries with
  | error source =>
      rw [entries] at listed
      cases listed
  | ok names =>
      rw [entries] at listed
      obtain ⟨found, read, rfl⟩ := map_eq_ok_iff.mp listed
      have perm := List.perm_insertionSort
        (fun one other : DiskInfo => one.name ≤ other.name) found
      have foundNames := readEntries_names read
      constructor
      · rw [(perm.map DiskInfo.name).nodup_iff, foundNames]
        exact (block.distinct names entries).filter _
      · intro disk member
        have named : disk.name ∈ found.map DiskInfo.name :=
          List.mem_map_of_mem (perm.mem_iff.mp member)
        rw [foundNames] at named
        exact ⟨names, entries, (List.mem_filter.mp named).1⟩

theorem readSysfsPartitions_devices (disk : String) :
    ((block.readSysfsPartitions disk).map PartEntry.device).Nodup ∧
      ∀ part ∈ block.readSysfsPartitions disk,
        ∃ number, part.device = partDevice disk number := by
  unfold readSysfsPartitions
  cases shown : block.subdirs disk with
  | none =>
      refine ⟨List.nodup_nil, ?_⟩
      intro part member
      cases member
  | some names =>
      dsimp only
      constructor
      · rw [((List.perm_insertionSort _ _).map PartEntry.device).nodup_iff,
          List.map_map]
        have distinct : (block.sysfsPartitionNames disk names).Nodup :=
          (block.subdirsDistinct disk names shown).filter _
        exact distinct.map_on fun _ _ _ _ same => same
      · intro part member
        rw [List.mem_insertionSort, List.mem_map] at member
        obtain ⟨name, isPartition, rfl⟩ := member
        obtain ⟨isShown, marked⟩ := List.mem_filter.mp isPartition
        rw [Bool.and_eq_true] at marked
        exact block.partitionNamed disk names shown name isShown marked.2

theorem readPartitions_devices {disk : String} {parts : List PartEntry}
    (read : block.readPartitions disk = .ok parts) :
    (parts.map PartEntry.device).Nodup ∧
      ∀ part ∈ parts, ∃ number, part.device = partDevice disk number := by
  unfold readPartitions at read
  cases table : block.gpt disk with
  | ok partitions =>
      rw [table] at read
      cases read
      constructor
      · have distinct := block.indices disk partitions table
        have named : (partitions.map Prod.fst).map (partDevice disk) =
            (partitions.map fun (index, partition) =>
              ({ device := partDevice disk index
                 uuid := partition.partGuid
                 label := partition.name
                 typeGuid := partition.partTypeGuid
                 sizeBytes := partition.bytesLen } : PartEntry)).map
                PartEntry.device := by
          rw [List.map_map, List.map_map]
          rfl
        rw [← named]
        exact distinct.map fun _ _ => partDevice_injective
      · intro part member
        obtain ⟨⟨index, partition⟩, _, rfl⟩ := List.mem_map.mp member
        exact ⟨index, rfl⟩
  | error message =>
      simp only [table] at read
      split at read
      · cases read
      · cases read
        exact readSysfsPartitions_devices disk

theorem diskVolumes_devices (disk : String) :
    ((block.diskVolumes disk).map VolumeInfo.device).Nodup ∧
      ∀ volume ∈ block.diskVolumes disk,
        ∃ number, volume.device = devPath (partDevice disk number) := by
  unfold diskVolumes
  cases read : block.readPartitions disk with
  | error error =>
      refine ⟨List.nodup_nil, ?_⟩
      intro volume member
      cases member
  | ok parts =>
      obtain ⟨distinct, named⟩ := readPartitions_devices read
      constructor
      · have devices : (parts.map (block.volumeInfo disk)).map
            VolumeInfo.device = (parts.map PartEntry.device).map devPath := by
          rw [List.map_map, List.map_map]
          rfl
        rw [devices]
        apply distinct.map
        intro one other same
        exact String.append_right_inj _ |>.mp same
      · intro volume member
        obtain ⟨part, isPart, rfl⟩ := List.mem_map.mp member
        obtain ⟨number, device⟩ := named part isPart
        exact ⟨number, congrArg devPath device⟩

theorem slash_notMem_partDevice {disk : String} (flat : '/' ∉ disk.toList)
    (number : Nat) : '/' ∉ (partDevice disk number).toList := by
  obtain ⟨separator, separatorFlat, device⟩ := exists_separator disk
  rw [device, String.toList_append, String.toList_append, List.mem_append,
    List.mem_append]
  rintro ((inDisk | inSeparator) | inNumber)
  · exact flat inDisk
  · exact separatorFlat inSeparator
  · exact slash_notMem_toString number inNumber

theorem leaf_devPath {name : String} (flat : '/' ∉ name.toList) :
    leaf (devPath name) = name := by
  rw [devPath, leaf_append "/dev/" name flat]
  have root : leaf "/dev/" = "" := by decide
  rw [root, String.empty_append]

theorem Shows.flat {name : String} (shown : block.Shows name) :
    '/' ∉ name.toList := by
  obtain ⟨listed, entries, member⟩ := shown
  exact block.flat listed entries name member

/-- The id of a volume is the device name of its partition. -/
theorem diskVolumes_leaf {disk : String} (shown : block.Shows disk)
    {volume : VolumeInfo} (member : volume ∈ block.diskVolumes disk) :
    ∃ number, volume.device = devPath (partDevice disk number) ∧
      leaf volume.device = partDevice disk number := by
  obtain ⟨number, device⟩ := (diskVolumes_devices disk).2 volume member
  refine ⟨number, device, ?_⟩
  rw [device]
  exact leaf_devPath (slash_notMem_partDevice shown.flat number)

theorem diskVolumes_ids {disk : String} (shown : block.Shows disk) :
    ((block.diskVolumes disk).map fun volume => leaf volume.device).Nodup := by
  have devices := (block.diskVolumes_devices disk).1
  apply List.Nodup.map_on _ devices.of_map
  intro one isOne other isOther same
  obtain ⟨_, device, id⟩ := diskVolumes_leaf shown isOne
  obtain ⟨_, otherDevice, otherId⟩ := diskVolumes_leaf shown isOther
  rw [id, otherId] at same
  apply List.inj_on_of_nodup_map devices isOne isOther
  rw [device, otherDevice, same]

/-- The ids of one scan are distinct, over all disks. -/
theorem listVolumes_ids
    (plain : ∀ name, block.Shows name → endsDigitP name = false)
    {volumes : List VolumeInfo} (listed : block.listVolumes = .ok volumes) :
    (volumes.map fun volume => leaf volume.device).Nodup := by
  obtain ⟨disks, scan, rfl⟩ := map_eq_ok_iff.mp listed
  obtain ⟨distinct, shown⟩ := listDisks_names scan
  rw [List.map_flatMap, List.nodup_flatMap]
  constructor
  · intro disk isListed
    exact diskVolumes_ids (shown disk isListed)
  · have apart : disks.Pairwise fun one other => one.name ≠ other.name :=
      List.pairwise_map.mp distinct
    apply apart.imp_of_mem
    intro one other isOne isOther different
    rw [Function.onFun, List.disjoint_left]
    intro id inOne inOther
    obtain ⟨volume, isVolume, rfl⟩ := List.mem_map.mp inOne
    obtain ⟨otherVolume, isOtherVolume, same⟩ := List.mem_map.mp inOther
    obtain ⟨_, _, leafOf⟩ := diskVolumes_leaf (shown one isOne) isVolume
    obtain ⟨_, _, otherLeaf⟩ :=
      diskVolumes_leaf (shown other isOther) isOtherVolume
    rw [leafOf, otherLeaf] at same
    exact different (partDevice_identifies (plain _ (shown other isOther))
      (plain _ (shown one isOne)) same).1.symm

end SysfsBlock

section Published

variable {volumes : List VolumeInfo} {objects : Objects}

/-- The volumes that are found are all in what the guard reads, whatever was in
the store before the scan. -/
def DiskDiscovery.Visible (volumes : List VolumeInfo) (after : Objects) :
    Prop :=
  ∀ listing : List ResourceObject,
    (listing : Multiset ResourceObject) =
      State.list after blockNs .discoveredVolume →
    ∀ volume ∈ volumes, DiskDiscovery.discoveredVolume volume ∈
      VolumeProvisioner.discoveredSpecs listing

theorem DiskDiscovery.visible_of_published {after : Objects}
    (keyed : State.WellKeyed after)
    (published : ∀ volume ∈ volumes, ∃ existing,
      after.lookup (volumeObject volume).key = some existing ∧
        existing.spec = (volumeObject volume).spec) :
    Visible volumes after := by
  intro listing enumerates volume member
  obtain ⟨existing, stored, spec⟩ := published volume member
  have key := keyed _ existing stored
  have listed : existing ∈ listing := by
    rw [← Multiset.mem_coe, enumerates, State.mem_list_iff keyed, key]
    exact ⟨stored, rfl, rfl⟩
  apply List.mem_filterMap.mpr
  refine ⟨existing, listed, ?_⟩
  rw [spec]
  rfl

theorem DiskDiscovery.publish_visible (disks : List DiskInfo)
    (distinct : (volumes.map fun volume => leaf volume.device).Nodup)
    (keyed : State.WellKeyed objects) :
    storeMachine.Ensures
      (fun result after => result = .ok () ∧ Visible volumes after)
      (publish disks volumes) objects := by
  have typed : OfType blockNs .discoveredVolume
      (volumes.map volumeObject) := by
    intro object member
    obtain ⟨volume, _, rfl⟩ := List.mem_map.mp member
    exact ⟨rfl, rfl⟩
  have ids : ((volumes.map volumeObject).map
      fun object => object.metadata.id).Nodup := by
    rw [List.map_map]
    exact distinct
  have diskTyped : OfType blockNs .diskStatus (disks.map diskObject) := by
    intro object member
    obtain ⟨disk, _, rfl⟩ := List.mem_map.mp member
    exact ⟨rfl, rfl⟩
  apply Setting.Protected.bind
  apply Setting.Protected.mono _
    (reconcileOwned_ensures owner blockNs .discoveredVolume _ keyed)
  rintro result middle ⟨rfl, middleKeyed, lookup⟩
  apply Setting.Protected.mono _
    (reconcileOwned_ensures owner blockNs .diskStatus _ middleKeyed)
  rintro result after ⟨succeeded, afterKeyed, afterLookup⟩
  refine ⟨succeeded, visible_of_published afterKeyed ?_⟩
  intro volume member
  have notDisk : ¬ ((volumeObject volume).key.ns = blockNs ∧
      (volumeObject volume).key.typ = .diskStatus) := by
    rintro ⟨_, isDisk⟩
    cases isDisk
  rw [afterLookup, reconciled_of_other diskTyped notDisk, lookup,
    reconciled_of_desired keyed typed ids (List.mem_map_of_mem member)]
  exact ⟨_, rfl, upserted_spec _ _ _⟩

end Published

/-- Different partitions have different device names; a scan gives them
different ids, and none hides another from the guard. -/
theorem partition_names_identify :
    (∀ (disk other : String) (number otherNumber : Nat),
      endsDigitP disk = false → endsDigitP other = false →
      partDevice disk number = partDevice other otherNumber →
        disk = other ∧ number = otherNumber) ∧
    ∀ (block : SysfsBlock) (volumes : List VolumeInfo),
      (∀ name, block.Shows name → endsDigitP name = false) →
      block.listVolumes = .ok volumes →
        (volumes.map fun volume =>
          (DiskDiscovery.volumeObject volume).metadata.id).Nodup ∧
        ∀ (disks : List DiskInfo) (objects : Objects),
          State.WellKeyed objects →
            storeMachine.Ensures
              (fun result after => result = .ok () ∧
                DiskDiscovery.Visible volumes after)
              (DiskDiscovery.publish disks volumes) objects := by
  constructor
  · intro disk other number otherNumber plain otherPlain same
    exact partDevice_identifies plain otherPlain same
  · intro block volumes plain listed
    have distinct := SysfsBlock.listVolumes_ids plain listed
    refine ⟨distinct, ?_⟩
    intro disks objects keyed
    exact DiskDiscovery.publish_visible disks distinct keyed

/-- Two disks with a GPT and an SD card without one. -/
def mixedDisks : SysfsBlock :=
  { entries := .ok [.ok "sda", .ok "ram0", .ok "nvme0n1", .ok "mmcblk0"]
    readTrim := fun path =>
      if path = ["mmcblk0", "mmcblk0p1", "partition"] then some "1"
      else if path = ["mmcblk0", "mmcblk0p1", "size"] then some "2048"
      else none
    gpt := fun disk =>
      if disk = "sda" then
        .ok [(1, ⟨"u1", "EFI", "t", 1024⟩), (11, ⟨"u2", "STATE", "t", 1024⟩)]
      else if disk = "nvme0n1" then .ok [(1, ⟨"u3", "DATA", "t", 1024⟩)]
      else .error "invalid GPT signature"
    subdirs := fun disk =>
      if disk = "mmcblk0" then some ["queue", "mmcblk0p1"] else some []
    probe := fun device =>
      if device = "/dev/mmcblk0p1" then some ⟨.vfat, none, none⟩ else none
    distinct := by
      rintro listed ⟨⟩
      decide
    flat := by
      rintro listed ⟨⟩
      decide
    indices := by
      intro disk partitions table
      split at table
      · cases table
        decide
      · split at table
        · cases table
          decide
        · cases table
    subdirsDistinct := by
      intro disk names shown
      split at shown
      · cases shown
        decide
      · cases shown
        decide
    partitionNamed := by
      intro disk names shown name member marked
      split at shown
      · rename_i isCard
        cases shown
        rw [List.mem_cons, List.mem_singleton] at member
        rcases member with rfl | rfl
        · simp at marked
        · exact ⟨1, by rw [isCard]; decide⟩
      · cases shown
        cases member }

theorem partition_names_identify_mixed :
    (∃ disk number, endsDigitP disk = false ∧
      partDevice disk number = "nvme0n1p1" ∧
        disk = "nvme0n1" ∧ number = 1) ∧
    ∃ volumes, mixedDisks.listVolumes = .ok volumes ∧
      volumes.map (fun volume =>
        (DiskDiscovery.volumeObject volume).metadata.id) =
          ["mmcblk0p1", "nvme0n1p1", "sda1", "sda11"] ∧
      storeMachine.Ensures
        (fun result after => result = .ok () ∧
          DiskDiscovery.Visible volumes after)
        (DiskDiscovery.publish [] volumes) ∅ := by
  have plain : ∀ name, mixedDisks.Shows name → endsDigitP name = false := by
    rintro name ⟨listed, ⟨⟩, member⟩
    revert name
    decide
  cases listed : mixedDisks.listVolumes with
  | error error =>
      have succeeds : mixedDisks.listVolumes.toOption.isSome = true := by
        decide +kernel
      rw [listed] at succeeds
      cases succeeds
  | ok volumes =>
      have ids : mixedDisks.listVolumes.toOption.map
          (List.map fun volume =>
            (DiskDiscovery.volumeObject volume).metadata.id) =
              some ["mmcblk0p1", "nvme0n1p1", "sda1", "sda11"] := by
        decide +kernel
      rw [listed] at ids
      have reading := partition_names_identify.1 "nvme0n1" "nvme0n1" 1 1
        (by decide) (by decide) rfl
      exact ⟨⟨"nvme0n1", 1, by decide, by decide, reading⟩, volumes, rfl,
        Option.some.inj ids,
        (partition_names_identify.2 mixedDisks volumes plain listed).2 [] ∅
          State.wellKeyed_empty⟩

end MachinedRs
