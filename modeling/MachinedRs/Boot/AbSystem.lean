import MachinedRs.Boot.CommandLine
import MachinedRs.Boot.Upgrade
import MachinedRs.Foundation.System

/-!
# Upgrades and reboots of an A/B node

A node is imaged and booted, upgrades any number of times and is reset at any
moment, also in the middle of an upgrade.
-/

namespace MachinedRs

open Foundation

/-- The store and the disk of a node. -/
structure UpgradeNode where
  objects : Objects
  disk : Disk

structure UpgradeChoice where
  listing : List ResourceObject
  fate : Fate
deriving DecidableEq, Repr

def upgradeMachine (whole : Path → Bool) :
    Machine Upgrade.upgradeSignature UpgradeNode UpgradeChoice :=
  (storeMachine.zoom UpgradeNode.objects
    (fun objects node => { node with objects := objects })
    UpgradeChoice.listing).sum
  ((fileMachine whole).zoom UpgradeNode.disk
    (fun disk node => { node with disk := disk }) UpgradeChoice.fate)

namespace Bootloader

/-- The slot a pointer file selects, if it selects exactly one. -/
def namedSlot (bootloader : Bootloader) (content : Content) : Option Slot :=
  [Slot.a, Slot.b].find? fun slot => bootloader.Names slot content

end Bootloader

/-- A node and the image it was given.  The extraction directory lies outside
the ESP, and the base command line is one line that chooses no slot. -/
structure AbSetup where
  decoding : Upgrade.Decoding
  bootloader : Bootloader
  esp : Path
  dir : Path
  rootfs : Path
  cmdline : String
  kernel : Content
  initrd : Content
  outside : ¬ esp <+: dir
  oneLine : '\n' ∉ cmdline.toList
  noSlot : NoSlot cmdline

/-- A running node.  `booted` and `verified` record the slot that was booted
and the bundles whose hash was verified. -/
structure AbState where
  node : UpgradeNode
  cmdline : String
  booted : Slot
  task : Option (Program Upgrade.upgradeSignature (Except String Unit))
  committed : Bool
  verified : List (List UInt8)

/-- An upgrade is requested, the one under way makes a step, or the node is
reset, with arguments around the command line of the slot. -/
inductive AbMove where
  | upgrade (bytes : List UInt8) (sha256 : String)
  | step (choice : UpgradeChoice)
  | reboot (before after : String)
deriving DecidableEq, Repr

/-- An upgrade that has returned is over; a successful one is committed. -/
def AbState.resume (state : AbState)
    (program : Program Upgrade.upgradeSignature (Except String Unit)) :
    AbState :=
  match program with
  | .done (.ok _) => { state with task := none, committed := true }
  | .done (.error _) => { state with task := none }
  | program => { state with task := some program }

namespace AbSetup

variable (setup : AbSetup)

def pointer : Path :=
  setup.bootloader.pointer setup.esp

/-- The write of the pointer file is taken to be all or nothing. -/
def whole (path : Path) : Bool :=
  path = setup.pointer

def machine : Machine Upgrade.upgradeSignature UpgradeNode UpgradeChoice :=
  upgradeMachine setup.whole

def backend (cmdline : String) : BootloaderBackend :=
  .new setup.bootloader setup.esp cmdline

/-- Boot the slot the pointer names, with the command line of that slot.  The
store starts empty. -/
def boot (files : Files) (verified : List (List UInt8))
    (before after : String) : Option AbState := do
  let content ← files.lookup setup.pointer
  let slot ← setup.bootloader.namedSlot content
  let command ← files.lookup (setup.bootloader.commandFile setup.esp slot)
  let text ← command.text?
  let line ← setup.bootloader.commandLine text
  if NoSlot before ∧ NoSlot after then
    some
      { node := { objects := ∅, disk := { files, touched := [] } }
        cmdline := before ++ " " ++ (line ++ " " ++ after)
        booted := slot
        task := none
        committed := false
        verified }
  else
    none

/-- A committed node only waits for its reboot. -/
def step (state : AbState) : AbMove → Option AbState
  | .upgrade bytes sha256 =>
      if state.task.isNone && !state.committed then
        some
          { state with
            task := some (Upgrade.stageAndCommit setup.decoding
              (setup.backend state.cmdline) setup.dir bytes sha256)
            verified :=
              if Upgrade.eqIgnoreAsciiCase
                  (setup.decoding.sha256Hex bytes) sha256 then
                bytes :: state.verified
              else
                state.verified }
      else
        none
  | .step choice =>
      match state.task with
      | some (.call operation next) =>
          (setup.machine.perform state.node operation choice).map
            fun (answer, node) =>
              { state with node := node }.resume (next answer)
      | _ => none
  | .reboot before after =>
      setup.boot state.node.disk.files state.verified before after

/-- The image is built on the ESP, and the node is booted from it. -/
def system : System AbState AbMove :=
  { Initial := fun state => ∃ blank disk before after,
      (fileMachine fun _ => false).Returns
        (buildTree setup.bootloader setup.rootfs setup.esp setup.cmdline
          setup.kernel setup.initrd) blank (.ok ()) disk ∧
      setup.boot disk.files [] before after = some state
    step := setup.step }

end AbSetup

end MachinedRs
