import MachinedRs.Boot.AbSystem
import MachinedRs.Boot.PointerFlip

/-!
# A/B slot safety over upgrades and reboots

The slot a node runs from is the one it takes itself to run from and is not
written to.  The boot pointer always names a slot with a complete kernel and
initramfs of one origin, whatever fails and whenever the node is reset.
-/

namespace MachinedRs

open Foundation

namespace AbSetup

variable (setup : AbSetup)

/-- Kernel and initramfs are the imager's or those of one verified bundle. -/
def Origin (verified : List (List UInt8)) (kernel initrd : Content) : Prop :=
  (kernel = setup.kernel ∧ initrd = setup.initrd) ∨
    ∃ bytes ∈ verified, ∃ entries,
      setup.decoding.entries bytes = .ok entries ∧
      Upgrade.Holds entries "vmlinuz" kernel ∧
      Upgrade.Holds entries "initramfs.img" initrd

/-- The directory of the slot holds a complete kernel and initramfs. -/
def Complete (verified : List (List UInt8)) (slot : Slot) (files : Files) :
    Prop :=
  ∃ kernel initrd, Upgrade.Staged setup.esp slot kernel initrd files ∧
    setup.Origin verified kernel initrd

def PointsTo (slot : Slot) (files : Files) : Prop :=
  ∃ content, files.lookup setup.pointer = some content ∧
    setup.bootloader.Names slot content

/-- What nothing changes between two boots. -/
structure Kept (verified : List (List UInt8)) (booted : Slot) (disk : Disk) :
    Prop where
  commands : ∀ slot,
    disk.files.lookup (setup.bootloader.commandFile setup.esp slot) =
      some (.ofText (setup.bootloader.commandText setup.cmdline slot))
  untouched : ∀ path ∈ disk.touched, ¬ slotDir setup.esp booted <+: path
  complete : setup.Complete verified booted disk.files

/-- The pointer may name the other slot only once that is complete. -/
def Bootable (verified : List (List UInt8)) (booted : Slot) (disk : Disk) :
    Prop :=
  setup.Kept verified booted disk ∧
    (setup.PointsTo booted disk.files ∨
      setup.PointsTo booted.other disk.files ∧
        setup.Complete verified booted.other disk.files)

section Regions

/-- A region that leaves alone what nothing may change. -/
structure Clear (booted : Slot) (region : Path → Prop) : Prop where
  command : ∀ slot, ¬ region (setup.bootloader.commandFile setup.esp slot)
  avoids : ∀ path, region path → ¬ slotDir setup.esp booted <+: path

variable {setup} {verified : List (List UInt8)} {booted slot : Slot}
  {region : Path → Prop} {disk after : Disk}

theorem Complete.confined (complete : setup.Complete verified slot disk.files)
    (avoids : ∀ path, region path → ¬ slotDir setup.esp slot <+: path)
    (confined : Disk.Confined region disk after) :
    setup.Complete verified slot after.files := by
  obtain ⟨kernel, initrd, ⟨kernelStored, initrdStored⟩, origin⟩ := complete
  have same : ∀ file, after.files.lookup (slotDir setup.esp slot ++ [file]) =
      disk.files.lookup (slotDir setup.esp slot ++ [file]) := by
    intro file
    apply confined.lookup
    intro inside
    exact avoids _ inside (List.prefix_append _ [file])
  refine ⟨kernel, initrd, ⟨?_, ?_⟩, origin⟩
  · rw [same, kernelStored]
  · rw [same, initrdStored]

theorem Kept.confined (kept : setup.Kept verified booted disk)
    (clear : setup.Clear booted region)
    (confined : Disk.Confined region disk after) :
    setup.Kept verified booted after := by
  constructor
  · intro slot
    rw [confined.lookup _ (clear.command slot)]
    exact kept.commands slot
  · intro path member
    rcases confined.touched path member with earlier | inside
    · exact kept.untouched path earlier
    · exact clear.avoids path inside
  · exact kept.complete.confined clear.avoids confined

theorem PointsTo.confined (points : setup.PointsTo slot disk.files)
    (avoids : ¬ region setup.pointer)
    (confined : Disk.Confined region disk after) :
    setup.PointsTo slot after.files := by
  obtain ⟨content, stored, names⟩ := points
  refine ⟨content, ?_, names⟩
  rw [confined.lookup _ avoids, stored]

theorem slotDir_isPrefix_iff {esp rest : Path} {first : String} :
    slotDir esp slot <+: esp ++ first :: rest ↔
      slot.dir = first := by
  rw [slotDir, List.prefix_append_right_inj]
  simp

theorem other_dir (slot : Slot) : slot.dir ≠ slot.other.dir := by
  cases slot with
  | a => decide
  | b => decide

theorem not_payload_dir (setup : AbSetup) (first : String) (rest : Path) :
    ¬ Upgrade.Payload setup.dir (setup.esp ++ first :: rest) := by
  have parent : ∀ file, setup.esp ++ first :: rest ≠ setup.dir ++ [file] := by
    intro file equality
    have shorter := congrArg List.dropLast equality
    rw [List.dropLast_concat,
      List.dropLast_append_of_ne_nil (List.cons_ne_nil first rest)] at shorter
    exact setup.outside ⟨_, shorter⟩
  rintro (same | kernel | initrd)
  · exact setup.outside ⟨_, same⟩
  · exact parent _ kernel
  · exact parent _ initrd

theorem pointer_below (setup : AbSetup) :
    ∃ first rest, setup.pointer = setup.esp ++ first :: rest ∧
      ∀ slot : Slot, slot.dir ≠ first := by
  unfold pointer
  cases setup.bootloader with
  | sdBoot =>
      refine ⟨"loader", ["loader.conf"], rfl, ?_⟩
      intro slot
      cases slot with
      | a => decide
      | b => decide
  | piBoot =>
      refine ⟨"config.txt", [], rfl, ?_⟩
      intro slot
      cases slot with
      | a => decide
      | b => decide

theorem command_below (setup : AbSetup) (slot : Slot) :
    ∃ first rest, setup.bootloader.commandFile setup.esp slot =
      setup.esp ++ first :: rest := by
  cases setup.bootloader with
  | sdBoot => exact ⟨_, _, rfl⟩
  | piBoot => exact ⟨slot.dir, ["cmdline.txt"], List.append_assoc _ _ _⟩

theorem clear_extraction (setup : AbSetup) (booted : Slot) :
    setup.Clear booted (Upgrade.Payload setup.dir) := by
  constructor
  · intro slot
    obtain ⟨first, rest, below⟩ := setup.command_below slot
    rw [below]
    exact setup.not_payload_dir first rest
  · rintro path inside ⟨rest, rfl⟩
    rw [slotDir, List.append_assoc] at inside
    exact setup.not_payload_dir _ _ inside

theorem not_extracted_pointer (setup : AbSetup) :
    ¬ Upgrade.Payload setup.dir setup.pointer := by
  obtain ⟨first, rest, below, _⟩ := setup.pointer_below
  rw [below]
  exact setup.not_payload_dir first rest

theorem clear_staging (setup : AbSetup) (booted : Slot) :
    setup.Clear booted
      (Upgrade.Payload (slotDir setup.esp booted.other)) := by
  constructor
  · intro slot
    cases setup.bootloader with
    | sdBoot => simp [Upgrade.Payload, slotDir,
        Bootloader.commandFile]
    | piBoot => simp [Upgrade.Payload, slotDir,
        Bootloader.commandFile]
  · have differs := other_dir booted
    rintro path (rfl | rfl | rfl)
    · simpa [slotDir] using differs
    · simpa [slotDir] using differs
    · simpa [slotDir] using differs

theorem not_staged_pointer (setup : AbSetup) (slot : Slot) :
    ¬ Upgrade.Payload (slotDir setup.esp slot) setup.pointer := by
  obtain ⟨first, rest, below, differs⟩ := setup.pointer_below
  intro inside
  apply differs slot
  apply slotDir_isPrefix_iff.mp
  rw [← below]
  exact inside.isPrefix

theorem clear_flip (setup : AbSetup) (booted : Slot) :
    setup.Clear booted (· = setup.pointer) := by
  constructor
  · intro slot
    unfold pointer
    cases setup.bootloader with
    | sdBoot => simp [Bootloader.pointer, SdBootBackend.conf,
        Bootloader.commandFile]
    | piBoot => simp [Bootloader.pointer, PiBootBackend.conf,
        Bootloader.commandFile, slotDir]
  · rintro path rfl starts
    obtain ⟨first, rest, below, differs⟩ := setup.pointer_below
    rw [below] at starts
    exact differs booted (slotDir_isPrefix_iff.mp starts)

end Regions

section Staging

variable {setup} {verified : List (List UInt8)} {booted : Slot}
  {node : UpgradeNode}

theorem machine_files {α : Type} {invariant fileInvariant : Disk → Prop}
    {post : α → Disk → Prop} {program : Program fileSignature α}
    (keeps : ∀ disk, fileInvariant disk → invariant disk)
    (safe : ((fileMachine setup.whole).alone fileInvariant).Protected post
      program node.disk) :
    (setup.machine.alone fun node => invariant node.disk).Protected
      (fun value node => post value node.disk) program.inr node := by
  apply Machine.protected_sum_inr
  apply Machine.protected_zoom
  · intro part
    rfl
  · intro part later
    rfl
  · rfl
  · exact Machine.weaken keeps safe

theorem machine_store {α : Type} {invariant : Disk → Prop}
    (program : Program stateSignature α) (holds : invariant node.disk) :
    (setup.machine.alone fun node => invariant node.disk).Protected
      (fun _ after => after.disk = node.disk) program.inl node := by
  apply Machine.protected_sum_inl
  apply Machine.protected_zoom
  · intro part
    rfl
  · intro part later
    rfl
  · rfl
  · have ensures := storeMachine.ensures_trivial program node.objects
    apply (ensures.protected fun _ => holds).mono
    intro value part _
    rfl

/-- A failed upgrade leaves the pointer at the slot that runs. -/
def Unmoved (booted : Slot) (result : Except String Unit)
    (node : UpgradeNode) : Prop :=
  ∀ error, result = .error error → setup.PointsTo booted node.disk.files

theorem fail_protected (error : String)
    (kept : setup.Kept verified booted node.disk)
    (points : setup.PointsTo booted node.disk.files) :
    (setup.machine.alone fun node =>
      setup.Bootable verified booted node.disk).Protected
      (setup.Unmoved booted) (Upgrade.fail error) node := by
  have bootable : setup.Bootable verified booted node.disk :=
    ⟨kept, .inl points⟩
  apply Setting.Protected.bind
  apply (machine_store _ bootable).keeping.mono
  rintro _ after ⟨holds, same⟩
  apply Machine.done holds
  intro _ _
  rw [same]
  exact points

theorem flip_confined {disk after : Disk} {new : Option Content}
    {result : Except String Unit}
    (ends : FlipEnd setup.whole setup.pointer new disk result after) :
    Disk.Confined (· = setup.pointer) disk after := by
  have unchanged := Disk.Confined.refl (· = setup.pointer) disk
  cases ends with
  | untouched error => exact unchanged
  | cut error content length flips torn => exact unchanged.put rfl _
  | flipped content flips => exact unchanged.put rfl content

/-- With a pointer write that is all or nothing, a flip to a complete slot
leaves the node bootable, and moves the pointer only if it succeeds. -/
theorem flip_bootable {disk after : Disk} {old : Content}
    {result : Except String Unit}
    (kept : setup.Kept verified booted disk)
    (complete : setup.Complete verified booted.other disk.files)
    (stored : disk.files.lookup setup.pointer = some old)
    (names : setup.bootloader.Names booted old)
    (ends : FlipEnd setup.whole setup.pointer
      (setup.bootloader.flipped booted.other old) disk result after) :
    setup.Bootable verified booted after ∧
      ∀ error, result = .error error →
        setup.PointsTo booted after.files := by
  have confined := flip_confined ends
  have keptAfter := kept.confined (setup.clear_flip booted) confined
  have completeAfter := complete.confined
    (setup.clear_flip booted.other).avoids confined
  cases ends with
  | untouched error =>
      have points : setup.PointsTo booted disk.files := ⟨old, stored, names⟩
      exact ⟨⟨keptAfter, .inl points⟩, fun _ _ => points⟩
  | cut error content length flips torn => simp [whole] at torn
  | flipped content flips =>
      have moved : setup.PointsTo booted.other
          (disk.put setup.pointer content).files :=
        ⟨content, Finmap.lookup_insert _,
          Bootloader.names_of_flipped names flips⟩
      refine ⟨⟨keptAfter, .inr ⟨moved, completeAfter⟩⟩, ?_⟩
      intro error impossible
      cases impossible

theorem commit_protected (cmdline : String)
    (kept : setup.Kept verified booted node.disk)
    (points : setup.PointsTo booted node.disk.files)
    (complete : setup.Complete verified booted.other node.disk.files) :
    (setup.machine.alone fun node =>
      setup.Bootable verified booted node.disk).Protected
      (setup.Unmoved booted)
      (Upgrade.commit (setup.backend cmdline) booted.other) node := by
  obtain ⟨old, stored, names⟩ := points
  have flips : (setup.machine.alone fun node =>
      setup.Bootable verified booted node.disk).Protected
      (fun result after => FlipEnd setup.whole setup.pointer
        (setup.bootloader.flipped booted.other old) node.disk result
        after.disk)
      ((setup.backend cmdline).setActive booted.other).inr node := by
    apply machine_files _ (setActive_protected (setup.backend cmdline) stored)
    rintro disk ⟨result, ends⟩
    exact (flip_bootable kept complete stored names ends).1
  apply Setting.Protected.bind
  apply flips.keeping.mono
  rintro result after ⟨bootable, ends⟩
  have unmoved := (flip_bootable kept complete stored names ends).2
  cases result with
  | error error =>
      exact fail_protected error bootable.1 (unmoved error rfl)
  | ok _ =>
      apply Setting.Protected.bind
      apply (machine_store _ bootable).keeping.mono
      rintro _ final ⟨holds, _⟩
      apply Machine.done holds
      intro error impossible
      cases impossible

theorem kept_of_confined {region : Path → Prop} {disk after : Disk}
    (kept : setup.Kept verified booted disk)
    (points : setup.PointsTo booted disk.files)
    (clear : setup.Clear booted region) (avoids : ¬ region setup.pointer)
    (confined : Disk.Confined region disk after) :
    setup.Kept verified booted after ∧
      setup.PointsTo booted after.files :=
  ⟨kept.confined clear confined, points.confined avoids confined⟩

theorem stage_protected {cmdline : String} {bytes : List UInt8}
    {entries : List (Except String Upgrade.TarEntry)}
    {kernelFile initrdFile : Path}
    (current : parseSlot cmdline = booted)
    (kept : setup.Kept verified booted node.disk)
    (points : setup.PointsTo booted node.disk.files)
    (isVerified : bytes ∈ verified)
    (decoded : setup.decoding.entries bytes = .ok entries)
    (extraction : Upgrade.Extraction entries setup.dir
      (.ok (kernelFile, initrdFile)) node.disk) :
    (setup.machine.alone fun node =>
      setup.Bootable verified booted node.disk).Protected
      (setup.Unmoved booted)
      (Upgrade.stage (setup.backend cmdline) kernelFile initrdFile) node := by
  obtain ⟨_, kernel, kernelStored, kernelHeld⟩ := extraction.1 kernelFile rfl
  obtain ⟨place, initrd, initrdStored, initrdHeld⟩ :=
    extraction.2 initrdFile rfl
  have outside : ¬ Upgrade.Payload (slotDir setup.esp booted.other)
      initrdFile := by
    intro inside
    obtain ⟨rest, below⟩ := inside.isPrefix
    rw [slotDir, List.append_assoc, List.singleton_append] at below
    apply setup.not_payload_dir booted.other.dir rest
    rw [below]
    exact .inr (.inr place)
  subst current
  have keeps : ∀ {disk : Disk},
      Disk.Confined
        (Upgrade.Payload (slotDir setup.esp (parseSlot cmdline).other))
        node.disk disk →
      setup.Kept verified (parseSlot cmdline) disk ∧
        setup.PointsTo (parseSlot cmdline) disk.files := by
    intro disk confined
    exact kept_of_confined kept points (setup.clear_staging _)
      (setup.not_staged_pointer _) confined
  have stages : (setup.machine.alone fun node =>
      setup.Bootable verified (parseSlot cmdline) node.disk).Protected
      (fun result after =>
        Disk.Confined
          (Upgrade.Payload (slotDir setup.esp (parseSlot cmdline).other))
          node.disk after.disk ∧
        ∀ slot, result = .ok slot → slot = (parseSlot cmdline).other ∧
          Upgrade.Staged setup.esp slot kernel initrd after.disk.files)
      ((setup.backend cmdline).stageInactive kernelFile initrdFile).inr
      node := by
    apply machine_files _ (Upgrade.stageInactive_protected
      (setup.backend cmdline) kernelStored initrdStored outside)
    intro disk confined
    exact ⟨(keeps confined).1, .inl (keeps confined).2⟩
  apply Setting.Protected.bind
  apply stages.mono
  rintro staged after ⟨confined, result⟩
  obtain ⟨keptAfter, pointsAfter⟩ := keeps confined
  cases staged with
  | error error => exact fail_protected error keptAfter pointsAfter
  | ok slot =>
      obtain ⟨isOther, files⟩ := result slot rfl
      rw [isOther] at files ⊢
      apply commit_protected cmdline keptAfter pointsAfter
      exact ⟨kernel, initrd, files, .inr ⟨bytes, isVerified, entries,
        decoded, kernelHeld, initrdHeld⟩⟩

theorem stageAndCommit_protected {cmdline sha256 : String}
    {bytes : List UInt8} (current : parseSlot cmdline = booted)
    (kept : setup.Kept verified booted node.disk)
    (points : setup.PointsTo booted node.disk.files)
    (member : Upgrade.eqIgnoreAsciiCase (setup.decoding.sha256Hex bytes)
      sha256 = true → bytes ∈ verified) :
    (setup.machine.alone fun node =>
      setup.Bootable verified booted node.disk).Protected
      (setup.Unmoved booted)
      (Upgrade.stageAndCommit setup.decoding (setup.backend cmdline)
        setup.dir bytes sha256) node := by
  have start : setup.Bootable verified booted node.disk :=
    ⟨kept, .inl points⟩
  apply Setting.Protected.bind
  apply (machine_store _ start).mono
  intro _ published same
  rw [← same] at kept points
  clear same start
  split
  case isTrue mismatch => exact fail_protected _ kept points
  case isFalse matched =>
    have isVerified : bytes ∈ verified := by
      apply member
      simpa using matched
    have keeps : ∀ {disk : Disk},
        Disk.Confined (Upgrade.Payload setup.dir) published.disk disk →
        setup.Kept verified booted disk ∧
          setup.PointsTo booted disk.files := by
      intro disk confined
      exact kept_of_confined kept points (setup.clear_extraction booted)
        setup.not_extracted_pointer confined
    have extracts : (setup.machine.alone fun node =>
        setup.Bootable verified booted node.disk).Protected
        (fun result after =>
          Disk.Confined (Upgrade.Payload setup.dir) published.disk
            after.disk ∧
          ∀ paths, result = .ok paths → ∃ entries,
            setup.decoding.entries bytes = .ok entries ∧
            Upgrade.Extraction entries setup.dir result after.disk)
        (Upgrade.extractBundle setup.decoding bytes setup.dir).inr
        published := by
      apply machine_files _ (Upgrade.extractBundle_protected
        setup.decoding bytes setup.dir published.disk)
      intro disk confined
      exact ⟨(keeps confined).1, .inl (keeps confined).2⟩
    apply Setting.Protected.bind
    apply extracts.mono
    rintro extracted after ⟨confined, extraction⟩
    obtain ⟨keptAfter, pointsAfter⟩ := keeps confined
    cases extracted with
    | error error => exact fail_protected error keptAfter pointsAfter
    | ok paths =>
        obtain ⟨entries, decoded, found⟩ := extraction paths rfl
        exact stage_protected current keptAfter pointsAfter isVerified
          decoded found

end Staging

section Runs

variable {setup} {verified more : List (List UInt8)} {booted slot : Slot}
  {disk : Disk} {files : Files}

theorem Complete.mono (complete : setup.Complete verified slot files)
    (grows : ∀ bytes ∈ verified, bytes ∈ more) :
    setup.Complete more slot files := by
  obtain ⟨kernel, initrd, staged, origin⟩ := complete
  refine ⟨kernel, initrd, staged, ?_⟩
  rcases origin with imager | ⟨bytes, member, held⟩
  · exact .inl imager
  · exact .inr ⟨bytes, grows bytes member, held⟩

theorem Kept.mono (kept : setup.Kept verified booted disk)
    (grows : ∀ bytes ∈ verified, bytes ∈ more) :
    setup.Kept more booted disk :=
  ⟨kept.commands, kept.untouched, kept.complete.mono grows⟩

/-- What holds of a node at every moment. -/
structure Safe (setup : AbSetup) (state : AbState) : Prop where
  current : parseSlot state.cmdline = state.booted
  bootable : setup.Bootable state.verified state.booted state.node.disk
  idle : state.task = none → state.committed = false →
    setup.PointsTo state.booted state.node.disk.files
  running : ∀ program, state.task = some program →
    (setup.machine.alone fun node =>
      setup.Bootable state.verified state.booted node.disk).Protected
      (setup.Unmoved state.booted) program state.node

theorem selector_ne (bootloader : Bootloader) :
    bootloader.selector .a ≠ bootloader.selector .b := by
  cases bootloader with
  | sdBoot => decide
  | piBoot => decide

theorem names_unique {bootloader : Bootloader} {first second : Slot}
    {content : Content} (names : bootloader.Names first content)
    (also : bootloader.Names second content) : first = second := by
  obtain ⟨entry, rest, shape⟩ := List.exists_cons_of_ne_nil names.1
  have member : entry ∈ bootloader.selections content := by
    rw [shape]
    exact List.mem_cons_self
  have same : bootloader.selector first = bootloader.selector second := by
    rw [← names.2 entry member, ← also.2 entry member]
  cases first with
  | a =>
      cases second with
      | a => rfl
      | b => exact absurd same (selector_ne bootloader)
  | b =>
      cases second with
      | a => exact absurd same.symm (selector_ne bootloader)
      | b => rfl

theorem names_of_namedSlot {bootloader : Bootloader} {content : Content}
    (named : bootloader.namedSlot content = some slot) :
    bootloader.Names slot content := by
  have found := List.find?_some named
  simpa using found

/-- A node boots the slot its pointer names and takes itself to run from
it. -/
theorem boot_safe {before after : String} {state : AbState}
    (commands : ∀ slot,
      files.lookup (setup.bootloader.commandFile setup.esp slot) =
        some (.ofText (setup.bootloader.commandText setup.cmdline slot)))
    (points : setup.PointsTo slot files)
    (complete : setup.Complete verified slot files)
    (boots : setup.boot files verified before after = some state) :
    setup.Safe state := by
  obtain ⟨content, stored, names⟩ := points
  obtain ⟨pointer, read, boots⟩ := Option.bind_eq_some_iff.mp boots
  obtain ⟨named, isNamed, boots⟩ := Option.bind_eq_some_iff.mp boots
  obtain ⟨command, found, boots⟩ := Option.bind_eq_some_iff.mp boots
  obtain ⟨text, decoded, boots⟩ := Option.bind_eq_some_iff.mp boots
  obtain ⟨line, isLine, boots⟩ := Option.bind_eq_some_iff.mp boots
  obtain ⟨⟨noSlot, _⟩, equality⟩ := Option.ite_none_right_eq_some.mp boots
  have isPointer : pointer = content :=
    Option.some.inj (read.symm.trans stored)
  subst isPointer
  have isSlot : named = slot :=
    names_unique (names_of_namedSlot isNamed) names
  subst isSlot
  have isCommand : command =
      .ofText (setup.bootloader.commandText setup.cmdline named) :=
    Option.some.inj (found.symm.trans (commands named))
  subst isCommand
  rw [Content.text?_ofText] at decoded
  cases decoded
  obtain ⟨expected, isExpected, argument⟩ :=
    setup.bootloader.commandLine_commandText named setup.oneLine setup.noSlot
  have isLine : line = expected :=
    Option.some.inj (isLine.symm.trans isExpected)
  subst isLine
  cases equality
  have points : setup.PointsTo named files := ⟨pointer, stored, names⟩
  constructor
  · exact parseSlot_surrounded after noSlot argument
  · refine ⟨⟨commands, ?_, complete⟩, .inl points⟩
    intro path impossible
    cases impossible
  · intro _ _
    exact points
  · intro program impossible
    cases impossible

theorem Bootable.points (bootable : setup.Bootable verified booted disk) :
    ∃ slot, setup.PointsTo slot disk.files ∧
      setup.Complete verified slot disk.files := by
  obtain ⟨kept, points | ⟨points, complete⟩⟩ := bootable
  · exact ⟨booted, points, kept.complete⟩
  · exact ⟨booted.other, points, complete⟩

theorem Safe.resume {state : AbState}
    {program : Program Upgrade.upgradeSignature (Except String Unit)}
    (current : parseSlot state.cmdline = state.booted)
    (safe : (setup.machine.alone fun node =>
      setup.Bootable state.verified state.booted node.disk).Protected
      (setup.Unmoved state.booted) program state.node) :
    setup.Safe (state.resume program) := by
  have bootable := safe.holds
  cases program with
  | done result =>
      cases result with
      | error error =>
          refine ⟨current, bootable, ?_, ?_⟩
          · intro _ _
            exact safe.finished error rfl
          · intro program impossible
            cases impossible
      | ok value =>
          refine ⟨current, bootable, ?_, ?_⟩
          · intro _ impossible
            cases impossible
          · intro program impossible
            cases impossible
  | call operation next =>
      refine ⟨current, bootable, ?_, ?_⟩
      · intro impossible
        cases impossible
      · rintro program ⟨⟩
        exact safe

theorem Safe.step {state next : AbState} {move : AbMove}
    (safe : setup.Safe state) (stepped : setup.step state move = some next) :
    setup.Safe next := by
  cases move with
  | upgrade bytes sha256 =>
      obtain ⟨free, equality⟩ := Option.ite_none_right_eq_some.mp stepped
      rw [Bool.and_eq_true, Option.isNone_iff_eq_none,
        Bool.not_eq_true'] at free
      have points := safe.idle free.1 free.2
      have grows : ∀ known ∈ state.verified, known ∈
          if Upgrade.eqIgnoreAsciiCase (setup.decoding.sha256Hex bytes)
            sha256 then bytes :: state.verified else state.verified := by
        intro known member
        split
        · exact List.mem_cons_of_mem bytes member
        · exact member
      have kept := safe.bootable.1.mono grows
      cases equality
      refine ⟨safe.current, ⟨kept, .inl points⟩, ?_, ?_⟩
      · intro impossible
        cases impossible
      · rintro program ⟨⟩
        apply stageAndCommit_protected safe.current kept points
        intro matched
        rw [if_pos matched]
        exact List.mem_cons_self
  | step choice =>
      cases running : state.task with
      | none => simp [AbSetup.step, running] at stepped
      | some program =>
          cases program with
          | done result => simp [AbSetup.step, running] at stepped
          | call operation goesOn =>
              simp only [AbSetup.step, running] at stepped
              obtain ⟨⟨answer, node⟩, performed, equality⟩ :=
                Option.map_eq_some_iff.mp stepped
              cases equality
              have advanced :=
                (safe.running _ running).advance ⟨choice, performed⟩
              exact Safe.resume safe.current advanced
  | reboot before after =>
      obtain ⟨slot, points, complete⟩ := safe.bootable.points
      exact boot_safe safe.bootable.1.commands points complete stepped

theorem names_pointerText (bootloader : Bootloader) :
    bootloader.Names .a (.ofText bootloader.pointerText) := by
  cases bootloader with
  | sdBoot => decide
  | piBoot => decide +kernel

theorem safe_of_initial {state : AbState}
    (initial : setup.system.Initial state) : setup.Safe state := by
  obtain ⟨blank, disk, before, after, built, boots⟩ := initial
  have imaged := Machine.post_of_returns (buildTree_imaged _ _ _ _ _ _ _)
    built rfl
  apply boot_safe imaged.command _ _ boots
  · exact .a
  · exact ⟨_, imaged.pointer, names_pointerText setup.bootloader⟩
  · exact ⟨setup.kernel, setup.initrd, ⟨imaged.kernel, imaged.initrd⟩,
      .inl ⟨rfl, rfl⟩⟩

end Runs

end AbSetup

/-- At every point of every history of upgrades, failures and reboots, a node
takes itself to run from the slot that was booted, nothing in that slot's
directory was written since, and the boot pointer names a slot whose kernel and
initramfs are both complete and come from the imager or from one verified
bundle. -/
theorem slots_stay_safe (setup : AbSetup) {state : AbState}
    (reachable : setup.system.Reachable state) :
    ((setup.backend state.cmdline).currentSlot = state.booted ∧
      ∀ path ∈ state.node.disk.touched,
        ¬ slotDir setup.esp state.booted <+: path) ∧
    ∃ slot content kernel initrd,
      state.node.disk.files.lookup setup.pointer = some content ∧
      setup.bootloader.Names slot content ∧
      state.node.disk.files.lookup (slotDir setup.esp slot ++ ["vmlinuz"]) =
        some kernel ∧
      state.node.disk.files.lookup
        (slotDir setup.esp slot ++ ["initramfs.img"]) = some initrd ∧
      setup.Origin state.verified kernel initrd := by
  have safe : setup.Safe state :=
    reachable.invariant (fun _ => AbSetup.safe_of_initial)
      (fun _ _ _ stepped safe => safe.step stepped)
  refine ⟨⟨safe.current, safe.bootable.1.untouched⟩, ?_⟩
  obtain ⟨slot, ⟨content, stored, names⟩, kernel, initrd,
    ⟨kernelStored, initrdStored⟩, origin⟩ := safe.bootable.points
  exact ⟨slot, content, kernel, initrd, stored, names, kernelStored,
    initrdStored, origin⟩

/-- A node with systemd-boot and a bundle of two files. -/
def bundledNode : AbSetup :=
  { decoding :=
      { sha256Hex := fun _ => "e3b0"
        entries := fun _ => .ok
          [.ok { name := .ok (some "vmlinuz"), data := .ok (.ofText "K2") },
            .ok { name := .ok (some "initramfs.img")
                  data := .ok (.ofText "I2") }] }
    bootloader := .sdBoot
    esp := ["boot"]
    dir := ["var", "machined-upgrade"]
    rootfs := ["rootfs"]
    cmdline := "console=ttyS0"
    kernel := .ofText "K1"
    initrd := .ofText "I1"
    outside := by decide
    oneLine := by decide
    noSlot := by decide }

/-- The status an upgrade publishes first, as stored. -/
def verifying : ResourceObject :=
  ((ResourceObject.new Upgrade.ns "upgrade"
    (.upgradeStatus { phase := .verifying, message := "" })).withOwner
      Upgrade.owner).fresh

def stagedToB : ResourceObject :=
  (verifying.withSpec
    (.upgradeStatus { phase := .staged, message := "b" })).bump

/-- A whole upgrade without a failure, and the reboot after it. -/
def upgradeToB : List AbMove :=
  let steps (count : Nat) (listing : List ResourceObject) : List AbMove :=
    List.replicate count (.step { listing, fate := .succeeds })
  [.upgrade [] "E3B0"] ++ steps 17 [verifying] ++ steps 3 [stagedToB] ++
    [.reboot "quiet" ""]

theorem slots_stay_safe_upgradeToB :
    ∃ state, bundledNode.system.Reachable state ∧ state.booted = .b ∧
      (bundledNode.backend state.cmdline).currentSlot = .b := by
  have computed :
      ((fileMachine fun _ => false).exec
        (buildTree .sdBoot ["rootfs"] ["boot"] "console=ttyS0"
          (.ofText "K1") (.ofText "I1"))
        { files := ∅, touched := [] } (List.replicate 9 .succeeds)).bind
        (fun built =>
          (built.1.value?.bind Except.toOption).bind fun _ =>
            (bundledNode.boot built.2.files [] "" "").bind fun start =>
              (bundledNode.system.run start upgradeToB).map
                AbState.booted) = some .b := by
    decide +kernel
  obtain ⟨⟨program, disk⟩, built, computed⟩ :=
    Option.bind_eq_some_iff.mp computed
  obtain ⟨_, succeeded, computed⟩ := Option.bind_eq_some_iff.mp computed
  obtain ⟨start, boots, computed⟩ := Option.bind_eq_some_iff.mp computed
  obtain ⟨state, ran, isB⟩ := Option.map_eq_some_iff.mp computed
  cases program with
  | call operation next => cases succeeded
  | done result =>
      cases result with
      | error error => cases succeeded
      | ok _ =>
          have reachable : bundledNode.system.Reachable state :=
            ⟨start, upgradeToB, ⟨_, disk, "", "", ⟨_, built⟩, boots⟩, ran⟩
          have safe := slots_stay_safe bundledNode reachable
          exact ⟨state, reachable, isB, safe.1.1.trans isB⟩

end MachinedRs
