import Mathlib.Data.List.TakeWhile
import MachinedRs.RuntimeCore.Owned

/-!
# The block backend

The calls through which the block controllers reach the disks, with their
results and errors.  The backend is only an interface here: a call can return
anything, and what it does to a disk is modelled where it matters.
-/

namespace MachinedRs

open Foundation

/-- The text of an operating system error stands for the error itself. -/
inductive BlockError where
  | io (path source : String)
  | gpt (device message : String)
  | wipe (disk message : String)
  | mkfs (device message : String)
deriving DecidableEq, Repr

def BlockError.display : BlockError → String
  | .io path source => "io " ++ path ++ ": " ++ source
  | .gpt device message => "gpt " ++ device ++ ": " ++ message
  | .wipe disk message => "wipe " ++ disk ++ ": " ++ message
  | .mkfs device message => "mkfs " ++ device ++ ": " ++ message

inductive FsType where
  | ext4
  | vfat
  | xfs
  | swap
deriving DecidableEq, Repr

def FsType.asStr : FsType → String
  | .ext4 => "ext4"
  | .vfat => "vfat"
  | .xfs => "xfs"
  | .swap => "swap"

structure DiskInfo where
  name : String
  path : String
  sizeBytes : Nat
  model : String
  serial : String
  rotational : Bool
  readOnly : Bool
deriving DecidableEq, Repr

/-- A discovered partition and its probed filesystem. -/
structure VolumeInfo where
  device : String
  disk : String
  partitionUuid : String
  partitionLabel : String
  partitionTypeGuid : String
  fsType : Option FsType
  fsLabel : Option String
  fsUuid : Option String
  sizeBytes : Nat
deriving DecidableEq, Repr

inductive PartType where
  | efiSystem
  | linuxFilesystem
deriving DecidableEq, Repr

def PartType.typeGuid : PartType → String
  | .efiSystem => "C12A7328-F81F-11D2-BA4B-00A0C93EC93B"
  | .linuxFilesystem => "0FC63DAF-8483-4772-8E79-3D69D8477DE4"

/-- A planned partition; size `0` means the remaining space. -/
structure PartitionPlan where
  label : String
  partType : PartType
  fs : FsType
  sizeBytes : Nat
deriving DecidableEq, Repr

/-- What follows the last `/` of a device path. -/
def leaf (device : String) : String :=
  String.ofList (device.toList.reverse.takeWhile (· ≠ '/')).reverse

/-- The device of a partition: a `p` separates the number from a disk name
that ends in a digit. -/
def partDevice (disk : String) (number : Nat) : String :=
  let separator :=
    match disk.toList.getLast? with
    | some last => if last.isDigit then "p" else ""
    | none => ""
  disk ++ separator ++ toString number

theorem leaf_append (device suffix : String) (flat : '/' ∉ suffix.toList) :
    leaf (device ++ suffix) = leaf device ++ suffix := by
  have taken : ∀ character ∈ suffix.toList.reverse,
      decide (character ≠ '/') = true := by
    intro character member
    rw [List.mem_reverse] at member
    apply decide_eq_true
    rintro rfl
    exact flat member
  apply String.toList_injective
  simp only [leaf, String.toList_append, List.reverse_append,
    String.toList_ofList]
  rw [List.takeWhile_append_of_pos taken]
  simp

theorem toString_injective {first second : Nat}
    (same : toString first = toString second) : first = second := by
  have digits : Nat.toDigits 10 first = Nat.toDigits 10 second := by
    have lists := congrArg String.toList same
    simpa using lists
  rw [← Nat.ofDigitChars_ten_toDigits (n := first), digits,
    Nat.ofDigitChars_ten_toDigits]

theorem slash_notMem_toString (number : Nat) :
    '/' ∉ (toString number).toList := by
  intro member
  have digit : '/' ∈ Nat.toDigits 10 number := by simpa using member
  have isDigit : Char.isDigit '/' = true :=
    Nat.isDigit_of_mem_toDigits (by decide : 0 < 10) (by decide) digit
  revert isDigit
  decide

theorem exists_separator (disk : String) :
    ∃ separator : String, '/' ∉ separator.toList ∧
      ∀ number, partDevice disk number =
        disk ++ separator ++ toString number := by
  refine ⟨match disk.toList.getLast? with
    | some last => if last.isDigit then "p" else ""
    | none => "", ?_, fun _ => rfl⟩
  split
  · split
    · decide
    · decide
  · decide

theorem leaf_partDevice_injective {disk : String} {first second : Nat}
    (same : leaf (partDevice disk first) = leaf (partDevice disk second)) :
    first = second := by
  obtain ⟨separator, flat, device⟩ := exists_separator disk
  have suffix : ∀ number,
      leaf (partDevice disk number) =
        leaf disk ++ (separator ++ toString number) := by
    intro number
    rw [device, String.append_assoc, leaf_append]
    rw [String.toList_append, List.mem_append, not_or]
    exact ⟨flat, slash_notMem_toString number⟩
  rw [suffix, suffix] at same
  apply toString_injective
  apply String.toList_injective
  have lists := congrArg String.toList same
  simpa using lists

theorem partDevice_injective {disk : String} {first second : Nat}
    (same : partDevice disk first = partDevice disk second) :
    first = second :=
  leaf_partDevice_injective (congrArg leaf same)

inductive BlockCall where
  | listDisks
  | listVolumes
  | wipe (disk : String)
  | createPartitions (disk : String) (plan : List PartitionPlan)
  | addPartitions (disk : String) (plan : List PartitionPlan)
  | format (device : String) (fs : FsType) (label : String)
deriving DecidableEq, Repr

namespace BlockCall

def Value : BlockCall → Type
  | .listDisks => List DiskInfo
  | .listVolumes => List VolumeInfo
  | .wipe _ => Unit
  | .createPartitions _ _ => List String
  | .addPartitions _ _ => List String
  | .format _ _ _ => Unit

end BlockCall

abbrev blockSignature : Signature :=
  { Op := BlockCall, Answer := fun call => Except BlockError call.Value }

/-- A block controller works on the store and on the backend. -/
abbrev blockControllerSignature : Signature :=
  stateSignature.sum blockSignature

/-- Namespace for block resources. -/
def blockNs : String :=
  "block"

/-- Map a backend error into a controller error. -/
def ctl (error : BlockError) : Error :=
  .controller error.display

/-- `.map_err(ctl)?` on the answer of a backend call. -/
def propagateBlock {α β : Type} (answer : Except BlockError α)
    (next : α → Program blockControllerSignature (Result β)) :
    Program blockControllerSignature (Result β) :=
  Program.attempt (answer.mapError ctl) next

end MachinedRs
