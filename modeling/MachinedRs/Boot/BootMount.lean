import Mathlib.Data.List.Sort
import Mathlib.Data.String.Basic
import MachinedRs.Block.Discovery
import MachinedRs.Boot.Bootloader
import MachinedRs.Foundation.System

/-!
# The flags of the boot mount

`mountBoot` mounts the boot partition read-only, without device nodes and
without setuid programs.  Staging a slot and flipping the boot pointer remount
it writable for a while.  A remount replaces the flags of the mount by those it
is given, and `LinuxPlatform` gives none but the one for read-only.  This module
follows the flags over all sequences of such calls.
-/

namespace MachinedRs

open Foundation

def msRdonly : UInt64 :=
  0x1

def msNosuid : UInt64 :=
  0x2

def msNodev : UInt64 :=
  0x4

def msRemount : UInt64 :=
  0x20

structure MountSpec where
  source : String
  target : String
  fstype : String
  flags : UInt64
  data : Option String
deriving DecidableEq, Repr

/-- A mounted filesystem. -/
structure Mount where
  source : String
  target : String
  fstype : String
  flags : UInt64
deriving DecidableEq, Repr

/-- The mount on top at the target gets other flags. -/
def replaceFlags (target : String) (flags : UInt64) :
    List Mount → Option (List Mount)
  | [] => none
  | mount :: mounts =>
      if mount.target = target then
        some ({ mount with flags := flags } :: mounts)
      else
        (replaceFlags target flags mounts).map (mount :: ·)

/-- The system call `mount(2)`, the latest mount first; it can be `refused` for
any reason. -/
def mountCall (refused : Option String) (source : Option String)
    (target : String) (fstype : Option String) (flags : UInt64)
    (mounts : List Mount) : Except String (List Mount) :=
  match refused with
  | some errno => .error errno
  | none =>
      if flags &&& msRemount ≠ 0 then
        match replaceFlags target (flags &&& ~~~msRemount) mounts with
        | some after => .ok after
        | none => .error "EINVAL: Invalid argument"
      else
        .ok
          ({ source := source.getD ""
             target := target
             fstype := fstype.getD ""
             flags := flags } :: mounts)

/-- How reading the list of mounts ends. -/
inductive Mountinfo where
  | readable
  | notFound
  | fails (message : String)
deriving DecidableEq, Repr

namespace LinuxPlatform

def mountError (target message : String) : String :=
  "mount " ++ target ++ ": " ++ message

def mount (refused : Option String) (spec : MountSpec)
    (mounts : List Mount) : Except String (List Mount) :=
  (mountCall refused (some spec.source) spec.target (some spec.fstype)
    spec.flags mounts).mapError (mountError spec.target)

def remountRw (refused : Option String) (target : String)
    (mounts : List Mount) : Except String (List Mount) :=
  (mountCall refused none target none msRemount mounts).mapError
    fun errno => mountError target ("remount rw: " ++ errno)

def remountRo (refused : Option String) (target : String)
    (mounts : List Mount) : Except String (List Mount) :=
  (mountCall refused none target none (msRemount ||| msRdonly)
    mounts).mapError fun errno => mountError target ("remount ro: " ++ errno)

/-- Without `/proc` nothing can be seen to be mounted. -/
def isMounted (mountinfo : Mountinfo) (target : String)
    (mounts : List Mount) : Except String Bool :=
  match mountinfo with
  | .readable => .ok (mounts.any fun mount => mount.target = target)
  | .notFound => .ok false
  | .fails message => .error ("io: " ++ message)

end LinuxPlatform

/-- The flags of the mount on top at the target. -/
def flagsAt (target : String) (mounts : List Mount) : Option UInt64 :=
  (mounts.find? fun mount => mount.target = target).map Mount.flags

theorem flagsAt_replaceFlags {target : String} {flags : UInt64}
    {mounts after : List Mount}
    (replaced : replaceFlags target flags mounts = some after) :
    flagsAt target after = some flags := by
  induction mounts generalizing after with
  | nil => cases replaced
  | cons mount mounts induction =>
      rw [replaceFlags] at replaced
      by_cases here : mount.target = target
      · rw [if_pos here] at replaced
        cases replaced
        simp [flagsAt, here]
      · rw [if_neg here] at replaced
        obtain ⟨rest, later, rfl⟩ := Option.map_eq_some_iff.mp replaced
        have below := induction later
        simpa [flagsAt, here] using below

theorem flagsAt_remount {refused : Option String} {target : String}
    {flags : UInt64} {mounts after : List Mount}
    (isRemount : flags &&& msRemount ≠ 0)
    (remounted : mountCall refused none target none flags mounts =
      .ok after) :
    flagsAt target after = some (flags &&& ~~~msRemount) := by
  unfold mountCall at remounted
  split at remounted
  · cases remounted
  · rw [if_pos isRemount] at remounted
    split at remounted
    · rename_i replaced
      cases remounted
      exact flagsAt_replaceFlags replaced
    · cases remounted

/-- The calls that `mountBoot` makes. -/
inductive MountBootCall where
  | listVolumes
  | isMounted (target : String)
  | mount (spec : MountSpec)
deriving DecidableEq, Repr

def MountBootCall.Answer : MountBootCall → Type
  | .listVolumes => Except BlockError (List VolumeInfo)
  | .isMounted _ => Except String Bool
  | .mount _ => Except String Unit

abbrev mountBootSignature : Signature :=
  { Op := MountBootCall, Answer := MountBootCall.Answer }

def firstByDevice (volumes : List VolumeInfo) : Option VolumeInfo :=
  (volumes.insertionSort fun one other => one.device ≤ other.device).head?

/-- The partition labelled `EFI` is preferred to any other FAT partition. -/
def bootVolume (volumes : List VolumeInfo) : Option VolumeInfo :=
  (firstByDevice
    (volumes.filter fun volume => volume.partitionLabel = "EFI")).or
    (firstByDevice
      (volumes.filter fun volume => volume.fsType = some .vfat))

def bootTarget : String :=
  "/boot"

def mountBootFlags : UInt64 :=
  msRdonly ||| msNosuid ||| msNodev

def bootSpec (device : String) : MountSpec :=
  { source := device
    target := bootTarget
    fstype := "vfat"
    flags := mountBootFlags
    data := none }

def mountBoot : Program mountBootSignature (Except String Unit) :=
  .call .listVolumes fun (listed : Except BlockError (List VolumeInfo)) =>
    match listed with
    | .error _ => .done (.ok ())
    | .ok volumes =>
        match bootVolume volumes with
        | none => .done (.ok ())
        | some volume =>
            .call (.isMounted bootTarget) fun (mounted : Except String Bool) =>
              match mounted with
              | .error error => .done (.error error)
              | .ok true => .done (.ok ())
              | .ok false =>
                  .call (.mount (bootSpec volume.device))
                    fun (result : Except String Unit) => .done result

structure MountBootChoice where
  volumes : Except BlockError (List VolumeInfo)
  mountinfo : Mountinfo
  refused : Option String

/-- What a call answers, and the mounts after it. -/
def MountBootCall.perform (mounts : List Mount) :
    (call : MountBootCall) → MountBootChoice →
      Option (call.Answer × List Mount)
  | .listVolumes, choice => some (choice.volumes, mounts)
  | .isMounted target, choice =>
      some (LinuxPlatform.isMounted choice.mountinfo target mounts, mounts)
  | .mount spec, choice =>
      match LinuxPlatform.mount choice.refused spec mounts with
      | .ok after => some (.ok (), after)
      | .error error => some (.error error, mounts)

def mountBootMachine :
    Machine mountBootSignature (List Mount) MountBootChoice :=
  { perform := MountBootCall.perform }

theorem mount_bootSpec {refused : Option String} {device : String}
    {mounts after : List Mount}
    (mounted : LinuxPlatform.mount refused (bootSpec device) mounts =
      .ok after) :
    after = ⟨device, bootTarget, "vfat", mountBootFlags⟩ :: mounts := by
  have called := mapError_eq_ok_iff.mp mounted
  cases refused with
  | some errno => cases called
  | none =>
      have plain : ¬ ((bootSpec device).flags &&& msRemount ≠ 0) := by
        change ¬ (mountBootFlags &&& msRemount ≠ 0)
        decide
      simp only [mountCall, if_neg plain] at called
      cases called
      rfl

theorem mountBoot_ensures (before : List Mount) :
    mountBootMachine.Ensures
      (fun _ after => after = before ∨
        flagsAt bootTarget after = some mountBootFlags)
      mountBoot before := by
  apply Machine.call trivial
  rintro choice answer after ⟨⟩
  cases choice.volumes with
  | error error => exact Machine.done trivial (.inl rfl)
  | ok volumes =>
      dsimp only
      split
      · exact Machine.done trivial (.inl rfl)
      · apply Machine.call trivial
        rintro later answer after ⟨⟩
        split
        · exact Machine.done trivial (.inl rfl)
        · exact Machine.done trivial (.inl rfl)
        · apply Machine.call trivial
          intro last answer after performed
          simp only [mountBootMachine, MountBootCall.perform] at performed
          split at performed
          · rename_i mounted
            cases performed
            refine Machine.done trivial (.inr ?_)
            rw [mount_bootSpec mounted]
            rfl
          · cases performed
            exact Machine.done trivial (.inl rfl)

/-- A remount that was asked for. -/
structure Remount where
  writable : Bool
  succeeded : Bool
deriving DecidableEq, Repr

/-- The mounts, with a record of the remounts. -/
structure BootState where
  mounts : List Mount
  remounts : List Remount
deriving DecidableEq, Repr

/-- Whatever the files answer does not matter to the mounts. -/
structure BootChoice where
  answer : (operation : FileOp) → operation.Answer
  refused : Option String

def LinuxPlatform.remount (refused : Option String) (target : String)
    (writable : Bool) (mounts : List Mount) : Except String (List Mount) :=
  if writable then
    remountRw refused target mounts
  else
    remountRo refused target mounts

def FileOp.onMounts (state : BootState) :
    (operation : FileOp) → BootChoice → Option (operation.Answer × BootState)
  | .remount mount writable, choice =>
      match LinuxPlatform.remount choice.refused mount.display writable
          state.mounts with
      | .ok mounts =>
          some (.ok (),
            { mounts := mounts
              remounts := state.remounts ++ [⟨writable, true⟩] })
      | .error error =>
          some (.error error,
            { state with
              remounts := state.remounts ++ [⟨writable, false⟩] })
  | operation, choice => some (choice.answer operation, state)

def bootMachine : Machine fileSignature BootState BootChoice :=
  { perform := FileOp.onMounts }

def bootPath : Path :=
  ["boot"]

def BootState.flags (state : BootState) : Option UInt64 :=
  flagsAt bootTarget state.mounts

/-- The flags after these remounts. -/
def flagsAfter (remounts : List Remount) : UInt64 :=
  match (remounts.filter Remount.succeeded).getLast? with
  | none => mountBootFlags
  | some last => if last.writable then 0 else msRdonly

/-- The last remount that succeeded determines the flags. -/
def BootState.Tracks (state : BootState) : Prop :=
  state.flags = some (flagsAfter state.remounts)

/-- Unless a remount has failed, the last one was back to read-only. -/
def BootState.Sealed (state : BootState) : Prop :=
  (∀ remount ∈ state.remounts, remount.succeeded = true) →
    ∀ last ∈ state.remounts.getLast?, last.writable = false

/-- Operations on files. -/
def FileOp.NoRemount : FileOp → Prop
  | .remount _ _ => False
  | _ => True

section Calls

variable {state : BootState} {α : Type}

theorem flagsAfter_succeeded (remounts : List Remount) (writable : Bool) :
    flagsAfter (remounts ++ [⟨writable, true⟩]) =
      if writable then 0 else msRdonly := by
  simp [flagsAfter, List.filter_append]

theorem flagsAfter_failed (remounts : List Remount) (writable : Bool) :
    flagsAfter (remounts ++ [⟨writable, false⟩]) = flagsAfter remounts := by
  simp [flagsAfter, List.filter_append]

theorem flagsAt_linux_remount {refused : Option String} {target : String}
    {writable : Bool} {mounts after : List Mount}
    (remounted : LinuxPlatform.remount refused target writable mounts =
      .ok after) :
    flagsAt target after = some (if writable then 0 else msRdonly) := by
  cases writable with
  | true =>
      exact flagsAt_remount (by decide) (mapError_eq_ok_iff.mp remounted)
  | false =>
      exact flagsAt_remount (by decide) (mapError_eq_ok_iff.mp remounted)

/-- A remount of the boot partition succeeds and sets the flags, or it leaves
them. -/
theorem boot_remount {writable : Bool}
    {post : α → BootState → Prop}
    {next : Except String Unit → Program fileSignature α}
    (tracks : state.Tracks)
    (goesOn : ∀ mounts succeeded,
      BootState.Tracks ⟨mounts, state.remounts ++ [⟨writable, succeeded⟩]⟩ →
      ∀ answer : Except String Unit, (succeeded = true ↔ answer = .ok ()) →
      (bootMachine.alone BootState.Tracks).Protected post (next answer)
        ⟨mounts, state.remounts ++ [⟨writable, succeeded⟩]⟩) :
    (bootMachine.alone BootState.Tracks).Protected post
      (.call (.remount bootPath writable) next) state := by
  apply Machine.call tracks
  intro choice answer after performed
  simp only [bootMachine, FileOp.onMounts] at performed
  split at performed
  · rename_i mounts remounted
    cases performed
    apply goesOn mounts true
    · rw [BootState.Tracks, flagsAfter_succeeded]
      exact flagsAt_linux_remount remounted
    · simp
  · cases performed
    apply goesOn state.mounts false
    · rw [BootState.Tracks, flagsAfter_failed]
      exact tracks
    · simp

theorem still_of_noRemount {program : Program fileSignature α}
    (only : program.Only FileOp.NoRemount) (tracks : state.Tracks) :
    (bootMachine.alone BootState.Tracks).Protected
      (fun _ after => after = state) program state := by
  induction program with
  | done value => exact Machine.done tracks rfl
  | call operation next induction =>
      apply Machine.call tracks
      intro choice answer after performed
      cases operation with
      | remount mount writable => exact only.1.elim
      | _ =>
          cases performed
          exact induction _ (only.2 _)

theorem inRwWindow_sealed
    {body : Program fileSignature (Except String Unit)}
    (only : body.Only FileOp.NoRemount) (tracks : state.Tracks) :
    (bootMachine.alone BootState.Tracks).Protected
      (fun _ after => after.Sealed) (inRwWindow bootPath body) state := by
  have failed : ∀ {mounts remounts writable},
      BootState.Sealed ⟨mounts, remounts ++ [⟨writable, false⟩]⟩ := by
    intro mounts remounts writable all
    have conflict := all ⟨writable, false⟩ (by simp)
    cases conflict
  apply boot_remount tracks
  intro mounts succeeded opened answer agrees
  cases answer with
  | error error =>
      have refused : succeeded = false := by simpa using agrees
      rw [refused] at opened
      rw [refused]
      exact Machine.done opened failed
  | ok value =>
      apply Setting.Protected.bind
      apply (still_of_noRemount only opened).keeping.mono
      rintro result after ⟨kept, rfl⟩
      apply boot_remount kept
      intro later closed sealed answer _
      refine Machine.done sealed ?_
      cases closed with
      | false => exact failed
      | true =>
          intro _ last isLast
          rw [List.getLast?_concat] at isLast
          cases isLast
          rfl

theorem writeInactiveSlot_sealed (slot : Slot) (kernel initrd : Path)
    (tracks : state.Tracks) :
    (bootMachine.alone BootState.Tracks).Protected
      (fun _ after => after.Sealed)
      (writeInactiveSlot bootPath slot kernel initrd) state := by
  refine inRwWindow_sealed ?_ tracks
  refine ⟨trivial, fun _ => Program.Only.attempt fun _ => ?_⟩
  refine ⟨trivial, fun _ => Program.Only.attempt fun _ => ?_⟩
  refine ⟨trivial, fun _ => Program.Only.attempt fun _ => ?_⟩
  exact ⟨trivial, fun _ => trivial⟩

theorem setActive_sealed (bootloader : Bootloader) (current slot : Slot)
    (tracks : state.Tracks) :
    (bootMachine.alone BootState.Tracks).Protected
      (fun _ after => after.Sealed)
      (BootloaderBackend.setActive ⟨bootloader, bootPath, current⟩ slot)
      state := by
  cases bootloader with
  | sdBoot =>
      refine inRwWindow_sealed ?_ tracks
      refine ⟨trivial, fun _ => Program.Only.attempt fun _ => ?_⟩
      exact ⟨trivial, fun _ => ⟨trivial, fun _ => trivial⟩⟩
  | piBoot =>
      refine inRwWindow_sealed ?_ tracks
      refine ⟨trivial, fun _ => Program.Only.attempt fun _ => ?_⟩
      refine Program.Only.attempt fun _ => ?_
      refine ⟨trivial, fun _ => Program.Only.attempt fun _ => ?_⟩
      exact ⟨trivial, fun _ => ⟨trivial, fun _ => trivial⟩⟩

end Calls

/-- The calls, on either backend. -/
inductive UpgradeCall where
  | stageInactive (bootloader : Bootloader) (current : Slot)
      (kernel initrd : Path)
  | setActive (bootloader : Bootloader) (current slot : Slot)
deriving DecidableEq, Repr

def UpgradeCall.program : UpgradeCall → Program fileSignature Unit
  | .stageInactive bootloader current kernel initrd =>
      (BootloaderBackend.stageInactive ⟨bootloader, bootPath, current⟩ kernel
        initrd).bind fun _ => .done ()
  | .setActive bootloader current slot =>
      (BootloaderBackend.setActive ⟨bootloader, bootPath, current⟩
        slot).bind fun _ => .done ()

/-- The mounts and what is left of the call in progress. -/
structure BootNode where
  state : BootState
  call : Program fileSignature Unit

inductive MountMove where
  | start (call : UpgradeCall)
  | perform (choice : BootChoice)

def BootNode.step (node : BootNode) : MountMove → Option BootNode
  | .start call =>
      if node.call.isDone then some { node with call := call.program }
      else none
  | .perform choice =>
      match node.call with
      | .done _ => none
      | .call operation next =>
          (bootMachine.perform node.state operation choice).map
            fun (answer, state) => { state := state, call := next answer }

/-- The boot partition was mounted by `mountBoot`, and no call was made yet. -/
def mountSystem : System BootNode MountMove :=
  { Initial := fun node => node.call.isDone = true ∧
      node.state.remounts = [] ∧
      ∃ before, mountBootMachine.Returns mountBoot before (.ok ())
        node.state.mounts ∧ node.state.mounts ≠ before
    step := BootNode.step }

section Runs

variable {node next : BootNode}

/-- The call in progress keeps the flags tracked and ends sealed. -/
def BootNode.Safe (node : BootNode) : Prop :=
  (bootMachine.alone BootState.Tracks).Protected
    (fun _ after => after.Sealed) node.call node.state

theorem BootNode.Safe.sealed (safe : node.Safe)
    (atRest : node.call.isDone = true) : node.state.Sealed := by
  obtain ⟨state, call⟩ := node
  cases call with
  | done value => exact safe.finished
  | call operation next => cases atRest

theorem safe_initial (initial : mountSystem.Initial node) : node.Safe := by
  obtain ⟨state, call⟩ := node
  obtain ⟨atRest, none, before, returned, changed⟩ := initial
  have none : state.remounts = [] := none
  cases call with
  | call operation next => cases atRest
  | done value =>
      apply Machine.done
      · rcases Machine.post_of_returns (mountBoot_ensures before) returned with
          same | flags
        · exact absurd same changed
        · rw [BootState.Tracks, none]
          exact flags
      · intro _ last isLast
        rw [none] at isLast
        cases isLast

theorem UpgradeCall.program_safe (call : UpgradeCall) {state : BootState}
    (tracks : state.Tracks) :
    BootNode.Safe { state := state, call := call.program } := by
  cases call with
  | stageInactive bootloader current kernel initrd =>
      apply Setting.Protected.bind
      apply Setting.Protected.bind
      apply (writeInactiveSlot_sealed current.other kernel initrd
        tracks).keeping.mono
      rintro staged after ⟨kept, isSealed⟩
      cases staged with
      | error error => exact Machine.done kept (Machine.done kept isSealed)
      | ok value => exact Machine.done kept (Machine.done kept isSealed)
  | setActive bootloader current slot =>
      apply Setting.Protected.bind
      apply (setActive_sealed bootloader current slot tracks).keeping.mono
      rintro result after ⟨kept, isSealed⟩
      exact Machine.done kept isSealed

theorem safe_step {move : MountMove}
    (stepped : mountSystem.step node move = some next) (safe : node.Safe) :
    next.Safe := by
  obtain ⟨state, call⟩ := node
  cases move with
  | start upgrade =>
      obtain ⟨_, same⟩ := Option.ite_none_right_eq_some.mp stepped
      cases same
      exact upgrade.program_safe safe.holds
  | perform choice =>
      cases call with
      | done value => cases stepped
      | call operation following =>
          obtain ⟨⟨answer, after⟩, performed, same⟩ :=
            Option.map_eq_some_iff.mp stepped
          cases same
          exact safe.advance ⟨choice, performed⟩

theorem safe_of_reachable (reachable : mountSystem.Reachable node) :
    node.Safe := by
  apply reachable.invariant
  · intro start initial
    exact safe_initial initial
  · intro state move later stepped safe
    exact safe_step stepped safe

/-- No remount has succeeded so far. -/
def BootState.Untouched (state : BootState) : Prop :=
  ∀ remount ∈ state.remounts, remount.succeeded = false

theorem BootState.untouched_iff (state : BootState) :
    state.Untouched ↔ state.remounts.filter Remount.succeeded = [] := by
  rw [List.filter_eq_nil_iff]
  constructor
  · intro untouched remount member
    simp [untouched remount member]
  · intro none remount member
    simpa using none remount member

theorem flagsAfter_cases (state : BootState) :
    (state.Untouched ∧ flagsAfter state.remounts = mountBootFlags) ∨
      ¬ state.Untouched ∧ (flagsAfter state.remounts = 0 ∨
        flagsAfter state.remounts = msRdonly) := by
  rw [BootState.untouched_iff, flagsAfter]
  cases last : (state.remounts.filter Remount.succeeded).getLast? with
  | none => exact .inl ⟨List.getLast?_eq_none_iff.mp last, rfl⟩
  | some remount =>
      right
      constructor
      · intro empty
        rw [empty] at last
        cases last
      · obtain ⟨writable, succeeded⟩ := remount
        cases writable with
        | true => exact .inl rfl
        | false => exact .inr rfl

/-- The protection of the boot mount holds exactly until the first remount that
succeeds; after each call the mount is read-only again, and no more than
that. -/
theorem boot_protection_iff_untouched
    (reachable : mountSystem.Reachable node) :
    (node.state.flags = some mountBootFlags ↔ node.state.Untouched) ∧
    ((∃ flags, node.state.flags = some flags ∧ flags &&& msNosuid ≠ 0 ∧
      flags &&& msNodev ≠ 0) ↔ node.state.Untouched) ∧
    (node.call.isDone = true →
      (∀ remount ∈ node.state.remounts, remount.succeeded = true) →
      node.state.flags = some
        (if node.state.remounts = [] then mountBootFlags else msRdonly)) := by
  have safe := safe_of_reachable reachable
  have tracks : node.state.flags = some (flagsAfter node.state.remounts) :=
    safe.holds
  rw [tracks]
  refine ⟨?_, ?_, ?_⟩
  · rcases flagsAfter_cases node.state with
      ⟨untouched, flags⟩ | ⟨touched, flags | flags⟩
    · simp [untouched, flags]
    · simp only [touched, flags]
      decide
    · simp only [touched, flags]
      decide
  · rcases flagsAfter_cases node.state with
      ⟨untouched, flags⟩ | ⟨touched, flags | flags⟩
    · simp only [untouched, flags, iff_true]
      exact ⟨mountBootFlags, rfl, by decide, by decide⟩
    · simp only [touched, flags, iff_false]
      rintro ⟨found, ⟨⟩, nosuid, _⟩
      exact nosuid rfl
    · simp only [touched, flags, iff_false]
      rintro ⟨found, ⟨⟩, nosuid, _⟩
      exact nosuid rfl
  · intro atRest all
    rcases List.eq_nil_or_concat node.state.remounts with
      empty | ⟨earlier, last, shape⟩
    · rw [empty]
      rfl
    · rw [List.concat_eq_append] at shape
      have isLast : last ∈ node.state.remounts.getLast? := by
        rw [shape, List.getLast?_concat]
        rfl
      have readOnly := safe.sealed atRest all last isLast
      have succeeded : last.succeeded = true :=
        all last (List.mem_of_getLast? isLast)
      have nonempty : node.state.remounts ≠ [] := by
        rw [shape]
        simp
      rw [if_neg nonempty, shape]
      obtain ⟨writable, success⟩ := last
      cases readOnly
      cases succeeded
      rw [flagsAfter_succeeded]
      rfl

end Runs

def FileOp.allSucceed : (operation : FileOp) → operation.Answer
  | .createDirAll _ => .ok ()
  | .write _ _ => .ok ()
  | .copy _ _ => .ok ()
  | .rename _ _ => .ok ()
  | .readToString _ => .ok ""
  | .exists _ => true
  | .sync _ => .ok ()
  | .remount _ _ => .ok ()

/-- The boot partition of the flashed disk is mounted. -/
def bootMounted : BootNode :=
  { state :=
      { mounts := [⟨"/dev/sda1", bootTarget, "vfat", mountBootFlags⟩]
        remounts := [] }
    call := .done () }

theorem bootMounted_initial : mountSystem.Initial bootMounted := by
  let choice : MountBootChoice :=
    { volumes := .ok [flashedEfi]
      mountinfo := .readable
      refused := none }
  have returned : mountBootMachine.Returns mountBoot [] (.ok ())
      bootMounted.state.mounts :=
    ⟨[choice, choice, choice], rfl⟩
  exact ⟨rfl, rfl, [], returned, by decide⟩

/-- Stage a slot, with so many operations performed. -/
def staging (performed : Nat) : List MountMove :=
  .start (.stageInactive .sdBoot .a ["run", "vmlinuz"] ["run", "initrd"]) ::
    List.replicate performed (.perform ⟨FileOp.allSucceed, none⟩)

/-- One slot is staged without any failure.  While it is written the mount has
no flags at all, and afterwards it allows setuid programs and device nodes. -/
theorem staging_drops_protection :
    ∃ between after, mountSystem.Reachable between ∧
      between.state.flags = some 0 ∧
      mountSystem.Reachable after ∧ after.call.isDone = true ∧
      after.state.remounts = [⟨true, true⟩, ⟨false, true⟩] ∧
      after.state.flags = some msRdonly ∧
      after.state.flags ≠ some mountBootFlags := by
  have first : ((mountSystem.run bootMounted (staging 1)).map
      fun node => node.state.flags) = some (some 0) := by
    decide +kernel
  have whole : ((mountSystem.run bootMounted (staging 6)).map
      fun node => (node.call.isDone, node.state.remounts,
        node.state.flags)) =
      some (true, [⟨true, true⟩, ⟨false, true⟩], some msRdonly) := by
    decide +kernel
  obtain ⟨between, opened, noFlags⟩ := Option.map_eq_some_iff.mp first
  obtain ⟨after, closed, view⟩ := Option.map_eq_some_iff.mp whole
  obtain ⟨atRest, rest⟩ := Prod.mk.inj view
  obtain ⟨remounts, flags⟩ := Prod.mk.inj rest
  have different : after.state.flags ≠ some mountBootFlags := by
    rw [flags]
    decide
  exact ⟨between, after, ⟨_, _, bootMounted_initial, opened⟩, noFlags,
    ⟨_, _, bootMounted_initial, closed⟩, atRest, remounts, flags, different⟩

/-- The remount is refused, and the call fails with the protection kept. -/
theorem boot_protection_refused :
    ∃ node, mountSystem.Reachable node ∧ node.call.isDone = true ∧
      node.state.remounts = [⟨true, false⟩] ∧
      node.state.flags = some mountBootFlags := by
  have ran : ((mountSystem.run bootMounted
      [.start (.setActive .piBoot .a .b),
        .perform ⟨FileOp.allSucceed, some "EBUSY: Device or resource busy"⟩]).map
      fun node => (node.call.isDone, node.state.remounts)) =
      some (true, [⟨true, false⟩]) := by
    decide +kernel
  obtain ⟨node, reached, view⟩ := Option.map_eq_some_iff.mp ran
  obtain ⟨atRest, remounts⟩ := Prod.mk.inj view
  have reachable : mountSystem.Reachable node :=
    ⟨_, _, bootMounted_initial, reached⟩
  have untouched : node.state.Untouched := by
    rw [BootState.Untouched, remounts]
    decide
  exact ⟨node, reachable, atRest, remounts,
    (boot_protection_iff_untouched reachable).1.mpr untouched⟩

end MachinedRs
