import MachinedRs.Boot.Pointer

/-!
# The image a node is first booted from

The imager stages the kernel and the initramfs at the root of the ESP's tree,
moves them into slot A, and writes the boot pointer and a command line for each
slot.  What it leaves on the ESP is the start of every A/B history.
-/

namespace MachinedRs

open Foundation

abbrev Imaging :=
  Program fileSignature (Except String Unit)

/-! File operations with the context of their error, each followed by the rest
of the function. -/

namespace Imaging

def createDirAll (dir : Path) (context : String) (next : Imaging) : Imaging :=
  .call (.createDirAll dir) fun created =>
    .attempt (withContext context created) fun _ => next

def write (path : Path) (content : Content) (context : String)
    (next : Imaging) : Imaging :=
  .call (.write path content) fun written =>
    .attempt (withContext context written) fun _ => next

def copy (source target : Path) (context : String) (next : Imaging) :
    Imaging :=
  .call (.copy source target) fun copied =>
    .attempt (withContext context copied) fun _ => next

def rename (source target : Path) (context : String) (next : Imaging) :
    Imaging :=
  .call (.rename source target) fun renamed =>
    .attempt (withContext context renamed) fun _ => next

def ensureExists (path : Path) (error : String) (next : Imaging) : Imaging :=
  .call (.exists path) fun (found : Bool) =>
    if found then next else .done (.error error)

/-- A loop whose body ends early only by an error. -/
def forEach {α : Type} (body : α → Imaging → Imaging) :
    List α → Imaging → Imaging
  | [], next => next
  | element :: elements, next => body element (forEach body elements next)

end Imaging

/-- Both layouts move the staged kernel and initramfs in the same way. -/
def moveKernelToSlotA (staging : Path) (next : Imaging) : Imaging :=
  .createDirAll (staging ++ ["A"])
    ("create " ++ (staging ++ ["A"]).display) <|
  .forEach
    (fun file =>
      .rename (staging ++ [file]) (staging ++ ["A", file])
        ("move " ++ file ++ " into slot A"))
    ["vmlinuz", "initramfs.img"] next

namespace Sdboot

def loaderConf : String :=
  "default a\ntimeout 0\n"

def entryConf (slot cmdline : String) : String :=
  let up := String.ofList (slot.toList.map Char.toUpper)
  "title machined (" ++ slot ++ ")\n" ++
    "linux /" ++ up ++ "/vmlinuz\n" ++
    "initrd /" ++ up ++ "/initramfs.img\n" ++
    "options " ++ cmdline ++ " machined.slot=" ++ slot ++ "\n"

def assemble (staging : Path) (cmdline : String) : Imaging :=
  let entries := staging ++ ["loader", "entries"]
  moveKernelToSlotA staging <|
  .createDirAll entries ("create " ++ Path.display entries) <|
  .write (staging ++ ["loader", "loader.conf"]) (.ofText loaderConf)
    "write loader.conf" <|
  .write (entries ++ ["a.conf"]) (.ofText (entryConf "a" cmdline))
    "write a.conf" <|
  .write (entries ++ ["b.conf"]) (.ofText (entryConf "b" cmdline))
    "write b.conf" <|
  .done (.ok ())

end Sdboot

namespace Rpi

def pi3Blobs : List String :=
  ["bootcode.bin", "start.elf", "fixup.dat"]

def pi3Dtb : String :=
  "bcm2837-rpi-3-a-plus.dtb"

def pi3Overlays : List String :=
  ["disable-bt.dtbo"]

def configTxt : String :=
  "arm_64bit=1\n" ++
    "os_prefix=A/\n" ++
    "kernel=vmlinuz\n" ++
    "initramfs initramfs.img followkernel\n" ++
    "gpu_mem=16\n" ++
    "enable_uart=1\n" ++
    "dtoverlay=disable-bt\n" ++
    "device_tree=bcm2837-rpi-3-a-plus.dtb\n"

def cmdlineTxtFor (slot : String) : String :=
  "console=serial0,115200 console=tty1 machined.slot=" ++ slot ++ "\n"

/-- The body of the loop over the slot directories. -/
def scaffoldSlot (boot staging : Path) :
    String × String → Imaging → Imaging
  | (dir, id), next =>
      let slot := staging ++ [dir]
      let overlays := slot ++ ["overlays"]
      .createDirAll overlays
        ("create slot dir " ++ Path.display overlays) <|
      .copy (boot ++ [pi3Dtb]) (slot ++ [pi3Dtb])
        ("stage " ++ pi3Dtb ++ " into " ++ dir) <|
      .forEach
        (fun ovl next =>
          .ensureExists (boot ++ ["overlays", ovl])
            ("Pi overlay " ++ ovl ++ " missing (linux-rpi apk)") <|
          .copy (boot ++ ["overlays", ovl]) (overlays ++ [ovl])
            ("stage overlay " ++ ovl ++ " into " ++ dir) next)
        pi3Overlays <|
      .write (slot ++ ["cmdline.txt"]) (.ofText (cmdlineTxtFor id))
        ("write " ++ dir ++ "/cmdline.txt") next

def stagePiFirmware (rootfs staging : Path) (next : Imaging) : Imaging :=
  let boot := rootfs ++ ["boot"]
  .forEach
    (fun blob next =>
      .ensureExists (boot ++ [blob])
        ("Pi firmware blob " ++ blob ++
          " missing (raspberrypi-bootloader apks)") <|
      .copy (boot ++ [blob]) (staging ++ [blob]) ("stage " ++ blob) next)
    pi3Blobs <|
  .write (staging ++ ["config.txt"]) (.ofText configTxt)
    "write config.txt" <|
  .ensureExists (boot ++ [pi3Dtb])
    ("Pi 3A+ DTB " ++ pi3Dtb ++ " missing (linux-rpi apk)") <|
  .forEach (scaffoldSlot boot staging) [("A", "a"), ("B", "b")] next

end Rpi

/-- The part of the image build between the two that stages the kernel. -/
def stageKernel (staging : Path) (kernel initrd : Content) (next : Imaging) :
    Imaging :=
  .write (staging ++ ["vmlinuz"]) kernel
    ("writing " ++ (staging ++ ["vmlinuz"]).display) <|
  .write (staging ++ ["initramfs.img"]) initrd
    ("writing " ++ (staging ++ ["initramfs.img"]).display)
    next

/-- The image build, as far as the boot slots are concerned. -/
def buildTree (bootloader : Bootloader) (rootfs staging : Path)
    (cmdline : String) (kernel initrd : Content) : Imaging :=
  match bootloader with
  | .sdBoot =>
      stageKernel staging kernel initrd <|
      Sdboot.assemble staging cmdline
  | .piBoot =>
      Rpi.stagePiFirmware rootfs staging <|
      stageKernel staging kernel initrd <|
      moveKernelToSlotA staging <|
      .done (.ok ())

namespace Bootloader

/-- The file that gives a slot its command line. -/
def commandFile (esp : Path) (slot : Slot) : Bootloader → Path
  | .sdBoot => esp ++ ["loader", "entries", slot.id ++ ".conf"]
  | .piBoot => slotDir esp slot ++ ["cmdline.txt"]

def commandText (cmdline : String) (slot : Slot) : Bootloader → String
  | .sdBoot => Sdboot.entryConf slot.id cmdline
  | .piBoot => Rpi.cmdlineTxtFor slot.id

/-- The pointer file of an image. -/
def pointerText : Bootloader → String
  | .sdBoot => Sdboot.loaderConf
  | .piBoot => Rpi.configTxt

end Bootloader

/-- An ESP as the imager leaves it. -/
structure Imaged (bootloader : Bootloader) (esp : Path) (cmdline : String)
    (kernel initrd : Content) (files : Files) : Prop where
  kernel : files.lookup (slotDir esp .a ++ ["vmlinuz"]) = some kernel
  initrd : files.lookup (slotDir esp .a ++ ["initramfs.img"]) = some initrd
  pointer : files.lookup (bootloader.pointer esp) =
    some (.ofText bootloader.pointerText)
  command : ∀ slot, files.lookup (bootloader.commandFile esp slot) =
    some (.ofText (bootloader.commandText cmdline slot))

section Building

/-- If the program succeeds, the property holds. -/
abbrev Yields (property : Disk → Prop) (program : Imaging) (disk : Disk) :
    Prop :=
  (fileMachine fun _ => false).Ensures
    (fun result after => result = .ok () → property after) program disk

namespace Yields

variable {property : Disk → Prop} {disk : Disk} {next : Imaging}

theorem error (message : String) :
    Yields property (.done (.error message)) disk := by
  apply Machine.done trivial
  intro impossible
  cases impossible

theorem ok (holds : property disk) : Yields property (.done (.ok ())) disk :=
  Machine.done trivial fun _ => holds

theorem createDirAll {dir : Path} {context : String}
    (goesOn : Yields property next (disk.touch dir)) :
    Yields property (.createDirAll dir context next) disk :=
  call_createDirAll trivial (fun _ => error context) goesOn

theorem write {path : Path} {content : Content} {context : String}
    (goesOn : Yields property next (disk.put path content)) :
    Yields property (.write path content context next) disk :=
  call_write trivial (fun _ => error context)
    (fun _ _ _ => error context) goesOn

theorem copy {source target : Path} {context : String}
    (goesOn : ∀ content, Yields property next (disk.put target content)) :
    Yields property (.copy source target context next) disk :=
  call_copy trivial (fun _ => error context)
    (fun _ _ _ _ _ => error context) fun content _ => goesOn content

theorem rename {source target : Path} {context : String}
    (goesOn : ∀ content, disk.files.lookup source = some content →
      Yields property next (disk.move source target content)) :
    Yields property (.rename source target context next) disk :=
  call_rename trivial (fun _ => error context) goesOn

theorem ensureExists {path : Path} {message : String}
    (goesOn : Yields property next disk) :
    Yields property (.ensureExists path message next) disk := by
  apply call_exists trivial
  intro found
  cases found with
  | false => exact error message
  | true => exact goesOn

end Yields

variable {bootloader : Bootloader} {esp : Path} {cmdline : String}
  {kernel initrd : Content} {disk : Disk} {property : Disk → Prop}

/-- The kernel and the initramfs end up in slot A; nothing else is moved. -/
theorem moveKernelToSlotA_yields {next : Imaging}
    (kernelStaged : disk.files.lookup (esp ++ ["vmlinuz"]) = some kernel)
    (initrdStaged :
      disk.files.lookup (esp ++ ["initramfs.img"]) = some initrd)
    (goesOn : Yields property next
      (((disk.touch (esp ++ ["A"])).move (esp ++ ["vmlinuz"])
        (esp ++ ["A", "vmlinuz"]) kernel).move (esp ++ ["initramfs.img"])
        (esp ++ ["A", "initramfs.img"]) initrd)) :
    Yields property (moveKernelToSlotA esp next) disk := by
  apply Yields.createDirAll
  apply Yields.rename
  intro content found
  have isKernel : content = kernel :=
    Option.some.inj (found.symm.trans kernelStaged)
  subst isKernel
  apply Yields.rename
  intro content found
  have isInitrd : content = initrd := by
    simp only [Disk.lookup_move, Disk.lookup_touch] at found
    simp [initrdStaged] at found
    exact found.symm
  subst isInitrd
  exact goesOn

theorem scaffoldSlot_yields {boot : Path} {dir id : String} {next : Imaging}
    (goesOn : ∀ dtb overlay, Yields property next
      ((((disk.touch (esp ++ [dir] ++ ["overlays"])).put
        (esp ++ [dir] ++ [Rpi.pi3Dtb]) dtb).put
        (esp ++ [dir] ++ ["overlays"] ++ ["disable-bt.dtbo"]) overlay).put
        (esp ++ [dir] ++ ["cmdline.txt"])
        (.ofText (Rpi.cmdlineTxtFor id)))) :
    Yields property (Rpi.scaffoldSlot boot esp (dir, id) next) disk := by
  apply Yields.createDirAll
  apply Yields.copy
  intro dtb
  apply Yields.ensureExists
  apply Yields.copy
  intro overlay
  apply Yields.write
  exact goesOn dtb overlay

/-- A successful build leaves slot A with the staged kernel and initramfs,
the pointer at slot A, and a command line for each slot. -/
theorem buildTree_imaged (bootloader : Bootloader) (rootfs esp : Path)
    (cmdline : String) (kernel initrd : Content) (disk : Disk) :
    Yields
      (fun after => Imaged bootloader esp cmdline kernel initrd after.files)
      (buildTree bootloader rootfs esp cmdline kernel initrd) disk := by
  cases bootloader with
  | sdBoot =>
      apply Yields.write
      apply Yields.write
      apply moveKernelToSlotA_yields
      · simp
        rfl
      · simp
        rfl
      apply Yields.createDirAll
      apply Yields.write
      apply Yields.write
      apply Yields.write
      apply Yields.ok
      constructor
      · simp [slotDir, Slot.dir]
      · simp [slotDir, Slot.dir]
      · simp [Bootloader.pointer, SdBootBackend.conf,
          Bootloader.pointerText]
      · intro slot
        cases slot with
        | a => simp [Bootloader.commandFile, Bootloader.commandText, Slot.id]
        | b => simp [Bootloader.commandFile, Bootloader.commandText, Slot.id]
  | piBoot =>
      apply Yields.ensureExists
      apply Yields.copy
      intro bootcode
      apply Yields.ensureExists
      apply Yields.copy
      intro start
      apply Yields.ensureExists
      apply Yields.copy
      intro fixup
      apply Yields.write
      apply Yields.ensureExists
      apply scaffoldSlot_yields
      intro dtbA overlayA
      apply scaffoldSlot_yields
      intro dtbB overlayB
      apply Yields.write
      apply Yields.write
      apply moveKernelToSlotA_yields
      · simp
        rfl
      · simp
        rfl
      apply Yields.ok
      constructor
      · simp [slotDir, Slot.dir]
      · simp [slotDir, Slot.dir]
      · simp [Bootloader.pointer, PiBootBackend.conf, Rpi.pi3Dtb,
          Bootloader.pointerText]
      · intro slot
        cases slot with
        | a => simp [Bootloader.commandFile, Bootloader.commandText, slotDir,
            Rpi.pi3Dtb, Slot.id, Slot.dir]
        | b => simp [Bootloader.commandFile, Bootloader.commandText, slotDir,
            Rpi.pi3Dtb, Slot.id, Slot.dir]

end Building

end MachinedRs
