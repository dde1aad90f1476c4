import MachinedRs.Block.Discovery
import MachinedRs.Foundation.Machine
import MachinedRs.RuntimeCore.OwnedPass

/-!
# A node with one disk

The backend over an actual disk: a list of partitions, each with a label and
possibly a filesystem.  Any call may fail without effect.  Together with the
store this gives a machine on which the block controllers run.
-/

namespace MachinedRs

open Foundation

structure Partition where
  label : String
  fs : Option FsType
deriving DecidableEq, Repr

/-- The disk to install to, under the name discovery reports. -/
structure InstallDisk where
  info : DiskInfo
  named : info.name = leaf info.path

namespace InstallDisk

/-- A partition as discovery finds it; what the provisioner does not read is
left blank. -/
def volume (disk : InstallDisk) (index : Nat) (partition : Partition) :
    VolumeInfo :=
  { device := partDevice disk.info.path (index + 1)
    disk := disk.info.name
    partitionUuid := ""
    partitionLabel := partition.label
    partitionTypeGuid := ""
    fsType := partition.fs
    fsLabel := none
    fsUuid := none
    sizeBytes := 0 }

def volumes (disk : InstallDisk) (partitions : List Partition) :
    List VolumeInfo :=
  partitions.mapIdx disk.volume

/-- The devices of partitions appended after the first `existing` ones. -/
def devices (path : String) (existing : Nat) (plan : List PartitionPlan) :
    List String :=
  plan.mapIdx fun index _ => partDevice path (existing + index + 1)

/-- Appending refuses a label that is already there. -/
def answer (disk : InstallDisk) (partitions : List Partition) :
    (call : BlockCall) → Except BlockError call.Value
  | .listDisks => .ok [disk.info]
  | .listVolumes => .ok (disk.volumes partitions)
  | .wipe _ => .ok ()
  | .createPartitions path plan => .ok (devices path 0 plan)
  | .addPartitions path plan =>
      match plan.find? fun entry =>
        partitions.any fun partition => partition.label = entry.label with
      | some entry =>
          .error (.gpt path ("partition " ++ entry.label ++
            " already exists on " ++ path ++ "; refusing to append"))
      | none => .ok (devices path partitions.length plan)
  | .format _ _ _ => .ok ()

/-- Freshly created partitions hold no filesystem. -/
def blank (plan : List PartitionPlan) : List Partition :=
  plan.map fun entry => { label := entry.label, fs := none }

/-- The partitions after a call that succeeded.  A fresh table replaces the old
one, as the backend trait demands. -/
def after (disk : InstallDisk) (partitions : List Partition) :
    BlockCall → List Partition
  | .listDisks => partitions
  | .listVolumes => partitions
  | .wipe _ => []
  | .createPartitions _ plan => blank plan
  | .addPartitions _ plan => partitions ++ blank plan
  | .format device fs _ =>
      partitions.mapIdx fun index partition =>
        if partDevice disk.info.path (index + 1) = device then
          { partition with fs := some fs }
        else
          partition

end InstallDisk

/-- The store, the disk and the calls that have succeeded since the boot. -/
structure Node where
  objects : Objects
  partitions : List Partition
  completed : List BlockCall

/-- A node that has just booted. -/
def Node.boot (partitions : List Partition) : Node :=
  { objects := ∅, partitions := partitions, completed := [] }

structure NodeChoice where
  listing : List ResourceObject
  failure : Option BlockError
deriving DecidableEq, Repr

/-- Whether a call fails is a choice, if failures are possible at all. -/
def diskMachine (disk : InstallDisk) (faulty : Bool) :
    Machine blockSignature Node NodeChoice :=
  { perform := fun node call choice =>
      match choice.failure, faulty with
      | some error, true => some (.error error, node)
      | _, _ =>
          match disk.answer node.partitions call with
          | .error error => some (.error error, node)
          | .ok value =>
              some (.ok value,
                { node with
                  partitions := disk.after node.partitions call
                  completed := node.completed ++ [call] }) }

def nodeStoreMachine : Machine stateSignature Node NodeChoice :=
  storeMachine.zoom Node.objects
    (fun objects node => { node with objects := objects })
    NodeChoice.listing

def nodeMachine (disk : InstallDisk) (faulty : Bool) :
    Machine blockControllerSignature Node NodeChoice :=
  nodeStoreMachine.sum (diskMachine disk faulty)

theorem nodeMachine_total (disk : InstallDisk) (faulty : Bool) :
    (nodeMachine disk faulty).Total := by
  intro node operation
  cases operation with
  | inl operation =>
      obtain ⟨listing, answer, after, performed⟩ :=
        storeMachine_total node.objects operation
      refine ⟨⟨listing, none⟩, answer, { node with objects := after }, ?_⟩
      simp [nodeMachine, Machine.sum, nodeStoreMachine, Machine.zoom, performed]
  | inr call =>
      refine ⟨⟨[], none⟩, ?_⟩
      simp only [nodeMachine, Machine.sum, diskMachine]
      split
      · exact ⟨_, _, rfl⟩
      · exact ⟨_, _, rfl⟩

section Rules

variable {disk : InstallDisk} {faulty : Bool} {α : Type}
  {invariant : Node → Prop} {post : α → Node → Prop} {node : Node}

theorem node_store {program : Program stateSignature α}
    {storePost : α → Objects → Prop}
    (always : ∀ objects, invariant { node with objects := objects })
    (ensures : storeMachine.Ensures storePost program node.objects)
    (implies : ∀ value objects, storePost value objects →
      post value { node with objects := objects }) :
    ((nodeMachine disk faulty).alone invariant).Protected post program.inl
      node := by
  apply Machine.protected_sum_inl
  apply Machine.protected_zoom
  · intro part
    rfl
  · intro part later
    rfl
  · rfl
  · exact (ensures.protected always).mono implies

theorem node_get {key : Key}
    {next : (Op.get key).Answer → Program blockControllerSignature α}
    (holds : invariant node)
    (goesOn : ((nodeMachine disk faulty).alone invariant).Protected post
      (next (State.get node.objects key)) node) :
    ((nodeMachine disk faulty).alone invariant).Protected post
      (.call (.inl (.get key)) next) node := by
  apply Machine.call holds
  intro choice answer later performed
  cases performed
  exact goesOn

theorem node_list {ns : String} {typ : ResourceType}
    {next : (Op.list ns typ).Answer → Program blockControllerSignature α}
    (holds : invariant node)
    (goesOn : ∀ listing : List ResourceObject,
      (listing : Multiset ResourceObject) =
        State.list node.objects ns typ →
      ((nodeMachine disk faulty).alone invariant).Protected post
        (next listing) node) :
    ((nodeMachine disk faulty).alone invariant).Protected post
      (.call (.inl (.list ns typ)) next) node := by
  apply Machine.call holds
  intro choice answer later performed
  obtain ⟨⟨found, objects⟩, listed, equality⟩ :=
    Option.map_eq_some_iff.mp performed
  cases equality
  obtain ⟨enumeration, answered, same⟩ := Option.map_eq_some_iff.mp listed
  obtain ⟨enumerates, isListing⟩ := Option.ite_none_right_eq_some.mp answered
  cases same
  cases isListing
  exact goesOn choice.listing enumerates

theorem node_call {call : BlockCall}
    {next : Except BlockError call.Value →
      Program blockControllerSignature α}
    (holds : invariant node)
    (fails : ∀ error, faulty = true ∨
        disk.answer node.partitions call = .error error →
      ((nodeMachine disk faulty).alone invariant).Protected post
        (next (.error error)) node)
    (succeeds : ∀ value, disk.answer node.partitions call = .ok value →
      ((nodeMachine disk faulty).alone invariant).Protected post
        (next (.ok value))
        { node with
          partitions := disk.after node.partitions call
          completed := node.completed ++ [call] }) :
    ((nodeMachine disk faulty).alone invariant).Protected post
      (.call (.inr call) next) node := by
  apply Machine.call holds
  intro choice answer later performed
  simp only [nodeMachine, Machine.sum, diskMachine] at performed
  split at performed
  · cases performed
    exact fails _ (.inl rfl)
  · split at performed
    · rename_i error refused
      cases performed
      exact fails error (.inr refused)
    · rename_i value answered
      cases performed
      exact succeeds value answered

theorem node_accepted {call : BlockCall} {value : call.Value}
    {next : Except BlockError call.Value →
      Program blockControllerSignature α}
    (holds : invariant node)
    (accepted : disk.answer node.partitions call = .ok value)
    (fails : ∀ error, faulty = true →
      ((nodeMachine disk faulty).alone invariant).Protected post
        (next (.error error)) node)
    (goesOn : ((nodeMachine disk faulty).alone invariant).Protected post
      (next (.ok value))
      { node with
        partitions := disk.after node.partitions call
        completed := node.completed ++ [call] }) :
    ((nodeMachine disk faulty).alone invariant).Protected post
      (.call (.inr call) next) node := by
  apply node_call holds
  · intro error cause
    rcases cause with faults | refused
    · exact fails error faults
    · rw [accepted] at refused
      cases refused
  · intro found answered
    rw [accepted] at answered
    cases answered
    exact goesOn

end Rules

theorem returns_of_faultless {disk : InstallDisk} {α : Type}
    {program : Program blockControllerSignature α} {node final : Node}
    {value : α}
    (returns : (nodeMachine disk false).Returns program node value final) :
    (nodeMachine disk true).Returns program node value final := by
  obtain ⟨choices, result⟩ := returns
  refine ⟨choices.map fun choice => { choice with failure := none }, ?_⟩
  induction choices generalizing program node with
  | nil => simpa using result
  | cons choice choices induction =>
      cases program with
      | done value => cases result
      | call operation next =>
          obtain ⟨⟨answer, later⟩, performed, continued⟩ :=
            Option.bind_eq_some_iff.mp result
          have same : (nodeMachine disk true).perform node operation
              { choice with failure := none } = some (answer, later) := by
            rw [← performed]
            cases operation with
            | inl operation => rfl
            | inr call =>
                simp only [nodeMachine, Machine.sum, diskMachine]
                cases choice.failure with
                | none => rfl
                | some error => rfl
          rw [List.map_cons, Machine.exec, same]
          exact induction continued

end MachinedRs
