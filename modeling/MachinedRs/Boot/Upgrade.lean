import MachinedRs.Boot.Pointer
import MachinedRs.RuntimeCore.OwnedPass

/-!
# Staging and committing an upgrade

`stageAndCommit` verifies a bundle, extracts it, stages the kernel and the
initramfs into the inactive slot and flips the boot pointer, publishing its
progress.  It is a program over the store and the file system.
-/

namespace MachinedRs

open Foundation

namespace Upgrade

/-- An entry of a tar archive: the file name of its path, if that is UTF-8,
and its data.  Reading either can fail. -/
structure TarEntry where
  name : Except String (Option String)
  data : Except String Content

/-- The functions of the bundle's bytes that other crates compute. -/
structure Decoding where
  sha256Hex : List UInt8 → String
  entries : List UInt8 → Except String (List (Except String TarEntry))

abbrev upgradeSignature : Signature :=
  stateSignature.sum fileSignature

def ns : String :=
  "runtime"

def owner : String :=
  "upgrade"

def publish (phase : UpgradePhase) (message : String) :
    Program stateSignature (Result Unit) :=
  reconcileOwned owner ns .upgradeStatus
    [.new ns "upgrade" (.upgradeStatus { phase, message })]

def eqIgnoreAsciiCase (first second : String) : Bool :=
  first.toList.map Char.toLower = second.toList.map Char.toLower

/-- Where the extraction puts an entry; other entries are skipped. -/
def target (dir : Path) (name : String) : Option Path :=
  if name = "vmlinuz" then some (dir ++ ["vmlinuz"])
  else if name = "initramfs.img" then some (dir ++ ["initramfs.img"])
  else none

/-- The loop over the entries of the archive. -/
def extractEntries (dir : Path) :
    List (Except String TarEntry) → Option Path → Option Path →
      Program fileSignature (Except String (Path × Path))
  | [], some kernel, some initrd => .done (.ok (kernel, initrd))
  | [], _, _ =>
      .done (.error "bundle missing vmlinuz and/or initramfs.img")
  | entry :: entries, kernel, initrd =>
      .attempt entry fun entry =>
        .attempt entry.name fun name =>
          match name.bind fun name =>
              (target dir name).map fun target => (name, target) with
          | none => extractEntries dir entries kernel initrd
          | some (name, target) =>
              .attempt entry.data fun buf =>
                .call (.write target buf) fun written =>
                  .attempt written fun _ =>
                    if name = "vmlinuz" then
                      extractEntries dir entries (some target) initrd
                    else
                      extractEntries dir entries kernel (some target)

def extractBundle (decoding : Decoding) (tgz : List UInt8) (dir : Path) :
    Program fileSignature (Except String (Path × Path)) :=
  .call (.createDirAll dir) fun created =>
    .attempt created fun _ =>
      .attempt (decoding.entries tgz) fun entries =>
        extractEntries dir entries none none

/-- Publish the failure and return it. -/
def fail (error : String) : Program upgradeSignature (Except String Unit) :=
  (publish .failed error).inl.bind fun _ => .done (.error error)

/-- `stageAndCommit` from the flip of the pointer on. -/
def commit (backend : BootloaderBackend) (slot : Slot) :
    Program upgradeSignature (Except String Unit) :=
  (backend.setActive slot).inr.bind fun active =>
    match active with
    | .error error => fail error
    | .ok _ =>
        (publish .staged slot.id).inl.bind fun _ => .done (.ok ())

/-- `stageAndCommit` from the staging on. -/
def stage (backend : BootloaderBackend) (kernel initrd : Path) :
    Program upgradeSignature (Except String Unit) :=
  (backend.stageInactive kernel initrd).inr.bind fun staged =>
    match staged with
    | .error error => fail error
    | .ok slot => commit backend slot

def stageAndCommit (decoding : Decoding) (backend : BootloaderBackend)
    (dir : Path) (bytes : List UInt8) (sha256 : String) :
    Program upgradeSignature (Except String Unit) :=
  (publish .verifying "").inl.bind fun _ =>
    if !eqIgnoreAsciiCase (decoding.sha256Hex bytes) sha256 then
      fail ("sha256 mismatch: got " ++ decoding.sha256Hex bytes ++
        ", want " ++ sha256)
    else
      (extractBundle decoding bytes dir).inr.bind fun extracted =>
        match extracted with
        | .error error => fail error
        | .ok (kernel, initrd) => stage backend kernel initrd

/-- What extracting into or staging into a directory writes. -/
def Payload (base path : Path) : Prop :=
  path = base ∨ path = base ++ ["vmlinuz"] ∨ path = base ++ ["initramfs.img"]

theorem Payload.isPrefix {base path : Path} (inside : Payload base path) :
    base <+: path := by
  rcases inside with same | kernel | initrd
  · rw [same]
  · rw [kernel]
    exact List.prefix_append base _
  · rw [initrd]
    exact List.prefix_append base _

/-- Data of an entry of this name. -/
def Holds (entries : List (Except String TarEntry)) (name : String)
    (content : Content) : Prop :=
  ∃ entry, .ok entry ∈ entries ∧ entry.name = .ok (some name) ∧
    entry.data = .ok content

section Extraction

variable {whole : Path → Bool} {dir : Path} {before disk : Disk}
  {all : List (Except String TarEntry)}

/-- What the loop has found so far is in place. -/
def Extracted (all : List (Except String TarEntry)) (dir : Path)
    (name : String) (disk : Disk) (found : Option Path) : Prop :=
  ∀ path, found = some path → path = dir ++ [name] ∧
    ∃ content, disk.files.lookup path = some content ∧
      Holds all name content

theorem Extracted.none (name : String) :
    Extracted all dir name disk none := by
  intro path impossible
  cases impossible

theorem Extracted.put {name other : String} {found : Option Path}
    {content : Content} (extracted : Extracted all dir name disk found)
    (differs : name ≠ other) :
    Extracted all dir name (disk.put (dir ++ [other]) content) found := by
  intro path isFound
  obtain ⟨place, stored, lookup, holds⟩ := extracted path isFound
  refine ⟨place, stored, ?_, holds⟩
  have elsewhere : path ≠ dir ++ [other] := by
    rw [place]
    simpa using differs
  rw [Disk.lookup_put, if_neg elsewhere]
  exact lookup

theorem Extracted.now {name : String} {content : Content}
    (holds : Holds all name content) :
    Extracted all dir name (disk.put (dir ++ [name]) content)
      (some (dir ++ [name])) := by
  rintro path ⟨⟩
  exact ⟨rfl, content, by rw [Disk.lookup_put, if_pos rfl], holds⟩

/-- What a successful extraction returns. -/
def Extraction (all : List (Except String TarEntry)) (dir : Path) :
    Except String (Path × Path) → Disk → Prop
  | .error _, _ => True
  | .ok (kernel, initrd), disk =>
      Extracted all dir "vmlinuz" disk (some kernel) ∧
        Extracted all dir "initramfs.img" disk (some initrd)

theorem target_eq_some {name : String} {place : Path}
    (found : target dir name = some place) :
    place = dir ++ [name] ∧ (name = "vmlinuz" ∨ name = "initramfs.img") := by
  unfold target at found
  split at found
  case isTrue kernel =>
    cases found
    rw [kernel]
    exact ⟨rfl, .inl rfl⟩
  case isFalse =>
    obtain ⟨initrd, equality⟩ := Option.ite_none_right_eq_some.mp found
    cases equality
    rw [initrd]
    exact ⟨rfl, .inr rfl⟩

theorem extractEntries_protected (entries : List (Except String TarEntry))
    (members : ∀ entry ∈ entries, entry ∈ all)
    {kernel initrd : Option Path}
    (kernelFound : Extracted all dir "vmlinuz" disk kernel)
    (initrdFound : Extracted all dir "initramfs.img" disk initrd)
    (confined : Disk.Confined (Payload dir) before disk) :
    ((fileMachine whole).alone
      (Disk.Confined (Payload dir) before)).Protected (Extraction all dir)
      (extractEntries dir entries kernel initrd) disk := by
  induction entries generalizing disk kernel initrd with
  | nil =>
      cases kernel with
      | none => exact Machine.done confined trivial
      | some kernel =>
          cases initrd with
          | none => exact Machine.done confined trivial
          | some initrd =>
              exact Machine.done confined ⟨kernelFound, initrdFound⟩
  | cons entry entries induction =>
      have inAll := members entry List.mem_cons_self
      have continues := fun disk kernel initrd =>
        @induction disk (fun other member =>
          members other (List.mem_cons_of_mem entry member)) kernel initrd
      clear induction
      apply Setting.Protected.attempt
      · intro error
        exact Machine.done confined trivial
      rintro entry rfl
      apply Setting.Protected.attempt
      · intro error
        exact Machine.done confined trivial
      intro name named
      split
      case h_1 => exact continues _ _ _ kernelFound initrdFound confined
      case h_2 name target wanted =>
        obtain ⟨found, isNamed, placed⟩ := Option.bind_eq_some_iff.mp wanted
        obtain ⟨place, targeted, equality⟩ :=
          Option.map_eq_some_iff.mp placed
        cases equality
        rw [isNamed] at named
        obtain ⟨isPlace, either⟩ := target_eq_some targeted
        have inside : Payload dir target := by
          rw [isPlace]
          rcases either with rfl | rfl
          · exact .inr (.inl rfl)
          · exact .inr (.inr rfl)
        apply Setting.Protected.attempt
        · intro error
          exact Machine.done confined trivial
        intro buf read
        have holds : Holds all name buf := ⟨entry, inAll, named, read⟩
        apply call_write confined
        · intro message
          exact Machine.done confined trivial
        · intro torn length message
          exact Machine.done (confined.put inside _) trivial
        · have written := confined.put inside buf
          rw [isPlace] at written
          simp only [Program.attempt]
          rcases either with rfl | rfl
          · rw [if_pos rfl, isPlace]
            exact continues _ _ _ (.now holds)
              (initrdFound.put (by decide)) written
          · rw [if_neg (by decide), isPlace]
            exact continues _ _ _ (kernelFound.put (by decide))
              (.now holds) written

theorem extractBundle_protected (decoding : Decoding) (tgz : List UInt8)
    (dir : Path) (disk : Disk) :
    ((fileMachine whole).alone
      (Disk.Confined (Payload dir) disk)).Protected
      (fun result after => Disk.Confined (Payload dir) disk after ∧
        ∀ paths, result = .ok paths → ∃ all,
          decoding.entries tgz = .ok all ∧ Extraction all dir result after)
      (extractBundle decoding tgz dir) disk := by
  have unchanged := Disk.Confined.refl (Payload dir) disk
  have created : Disk.Confined (Payload dir) disk (disk.touch dir) :=
    unchanged.touch (.inl rfl)
  have failed : ∀ {after : Disk} {error : String} (paths : Path × Path),
      (Except.error error : Except String (Path × Path)) = .ok paths →
      ∃ all, decoding.entries tgz = .ok all ∧
        Extraction all dir (.error error) after := by
    intro after error paths impossible
    cases impossible
  apply Setting.Protected.keeping
  apply call_createDirAll unchanged
  · intro message
    exact Machine.done unchanged failed
  apply Setting.Protected.attempt
  · intro error
    exact Machine.done created failed
  intro _ _
  apply Setting.Protected.attempt
  · intro error
    exact Machine.done created failed
  intro all decoded
  apply (extractEntries_protected all (fun _ member => member)
    (Extracted.none "vmlinuz") (Extracted.none "initramfs.img")
    created).mono
  intro result after extraction paths _
  exact ⟨all, decoded, extraction⟩

end Extraction

section Staging

variable {whole : Path → Bool} {esp : Path} {disk : Disk}
  {kernelFile initrdFile : Path} {kernel initrd : Content}

/-- A slot directory with exactly these files. -/
def Staged (esp : Path) (slot : Slot) (kernel initrd : Content)
    (files : Files) : Prop :=
  files.lookup (slotDir esp slot ++ ["vmlinuz"]) = some kernel ∧
    files.lookup (slotDir esp slot ++ ["initramfs.img"]) = some initrd

theorem writeInactiveSlot_protected (slot : Slot)
    (kernelStored : disk.files.lookup kernelFile = some kernel)
    (initrdStored : disk.files.lookup initrdFile = some initrd)
    (outside : ¬ Payload (slotDir esp slot) initrdFile) :
    ((fileMachine whole).alone
      (Disk.Confined (Payload (slotDir esp slot)) disk)).Protected
      (fun result after => result = .ok () →
        Staged esp slot kernel initrd after.files)
      (writeInactiveSlot esp slot kernelFile initrdFile) disk := by
  have unchanged := Disk.Confined.refl (Payload (slotDir esp slot)) disk
  have created : Disk.Confined (Payload (slotDir esp slot)) disk
      (disk.touch (slotDir esp slot)) :=
    unchanged.touch (.inl rfl)
  have kernelPlace : Payload (slotDir esp slot)
      (slotDir esp slot ++ ["vmlinuz"]) :=
    .inr (.inl rfl)
  have initrdPlace : Payload (slotDir esp slot)
      (slotDir esp slot ++ ["initramfs.img"]) :=
    .inr (.inr rfl)
  have failed : ∀ {after : Disk} {error : String},
      (Except.error error : Except String Unit) = .ok () →
      Staged esp slot kernel initrd after.files := by
    intro after error impossible
    cases impossible
  apply inRwWindow_protected unchanged
  · intro error
    exact failed
  apply call_createDirAll unchanged
  · intro message
    exact Machine.done unchanged failed
  apply call_copy created
  · intro message
    exact Machine.done created failed
  · intro content found torn length message
    exact Machine.done (created.put kernelPlace _) failed
  intro content found
  have isKernel : content = kernel :=
    Option.some.inj (found.symm.trans kernelStored)
  subst isKernel
  have copied := created.put kernelPlace content
  apply call_copy copied
  · intro message
    exact Machine.done copied failed
  · intro content found torn length message
    exact Machine.done (copied.put initrdPlace _) failed
  intro second found
  have isInitrd : second = initrd :=
    Option.some.inj (found.symm.trans
      ((copied.lookup initrdFile outside).trans initrdStored))
  subst isInitrd
  apply call_sync (copied.put initrdPlace second)
  intro _
  apply Machine.done (copied.put initrdPlace second)
  intro _
  constructor
  · simp
  · simp

theorem stageInactive_protected (backend : BootloaderBackend)
    (kernelStored : disk.files.lookup kernelFile = some kernel)
    (initrdStored : disk.files.lookup initrdFile = some initrd)
    (outside : ¬ Payload (slotDir backend.esp backend.current.other)
      initrdFile) :
    ((fileMachine whole).alone
      (Disk.Confined (Payload (slotDir backend.esp backend.current.other))
        disk)).Protected
      (fun result after =>
        Disk.Confined (Payload (slotDir backend.esp backend.current.other))
          disk after ∧
        ∀ slot, result = .ok slot → slot = backend.current.other ∧
          Staged backend.esp slot kernel initrd after.files)
      (backend.stageInactive kernelFile initrdFile) disk := by
  apply Setting.Protected.bind
  apply (writeInactiveSlot_protected backend.current.other kernelStored
    initrdStored outside).keeping.mono
  rintro result after ⟨confined, staged⟩
  cases result with
  | error error =>
      apply Machine.done confined
      refine ⟨confined, ?_⟩
      intro slot impossible
      cases impossible
  | ok _ =>
      apply Machine.done confined
      refine ⟨confined, ?_⟩
      rintro slot ⟨⟩
      exact ⟨rfl, staged rfl⟩

end Staging

end Upgrade

end MachinedRs
