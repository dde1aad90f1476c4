import MachinedRs.Boot.Bootloader

/-!
# The boot pointer

Which slot a pointer file names, what `setActive` puts in its place, the
states it passes through on the way, and what it leaves when its operations
meet given fates.
-/

namespace MachinedRs

open Foundation

namespace Bootloader

def pointer (esp : Path) : Bootloader → Path
  | .sdBoot => SdBootBackend.conf esp
  | .piBoot => PiBootBackend.conf esp

/-- Whether an entry of the pointer file is about the slot to boot. -/
def selects : Bootloader → Content → Bool
  | .sdBoot, entry =>
      entry.takeWhile (fun symbol => !symbol.blank) =
        Content.ofText "default"
  | .piBoot, entry => (Content.ofText "os_prefix=").isPrefixOf entry

/-- The entry that selects a slot. -/
def selector : Bootloader → Slot → Content
  | .sdBoot, slot => .ofText ("default " ++ slot.id)
  | .piBoot, slot => .ofText (PiBootBackend.osPrefix slot)

def selections (bootloader : Bootloader) (content : Content) :
    List Content :=
  (symbols.entries content).filter bootloader.selects

def otherDirectives (bootloader : Bootloader) (content : Content) :
    List Content :=
  (symbols.entries content).filter fun entry => !bootloader.selects entry

/-- The pointer file selects exactly this slot. -/
def Names (bootloader : Bootloader) (slot : Slot) (content : Content) :
    Prop :=
  bootloader.selections content ≠ [] ∧
    ∀ entry ∈ bootloader.selections content, entry = bootloader.selector slot

instance (bootloader : Bootloader) (slot : Slot) (content : Content) :
    Decidable (bootloader.Names slot content) :=
  inferInstanceAs (Decidable (_ ∧ _))

/-- What `setActive` writes in place of a pointer file, if it comes that
far. -/
def flipped (slot : Slot) (old : Content) : Bootloader → Option Content
  | .sdBoot => some (.ofText (SdBootBackend.confText slot))
  | .piBoot =>
      old.text?.bind fun config =>
        (PiBootBackend.rewriteOsPrefix config slot).toOption.map .ofText

/-- What befalls the write of the new pointer file.  It is not reached unless
the remount, and on the Pi the read, succeeds. -/
def writeFate : Bootloader → List Fate → Option Fate
  | .sdBoot, .succeeds :: fates => fates.head?
  | .piBoot, .succeeds :: .succeeds :: fates => fates.head?
  | _, _ => none

end Bootloader

/-- How a flip ends: with its result, and with what it made of the disk. -/
inductive FlipEnd (whole : Path → Bool) (pointer : Path)
    (new : Option Content) (before : Disk) :
    Except String Unit → Disk → Prop where
  | untouched (error : String) :
      FlipEnd whole pointer new before (.error error) before
  | cut (error : String) (content : Content) (length : Nat)
      (flips : new = some content) (torn : whole pointer = false) :
      FlipEnd whole pointer new before (.error error)
        (before.put pointer (content.written length))
  | flipped (content : Content) (flips : new = some content) :
      FlipEnd whole pointer new before (.ok ()) (before.put pointer content)

/-- The disks a flip can leave behind, wherever it is cut off. -/
def FlipState (whole : Path → Bool) (pointer : Path) (new : Option Content)
    (before after : Disk) : Prop :=
  ∃ result, FlipEnd whole pointer new before result after

/-- The pointer file is then the old one, or holds the first bytes of the
new. -/
theorem FlipState.bytes {whole : Path → Bool} {pointer : Path}
    {new : Option Content} {before after : Disk} {old : Content}
    (state : FlipState whole pointer new before after)
    (stored : before.files.lookup pointer = some old) :
    ∃ left, after.files.lookup pointer = some left ∧
      (left = old ∨ ∃ content, new = some content ∧
        left.bytes <+: content.bytes) := by
  obtain ⟨result, ends⟩ := state
  cases ends with
  | untouched error => exact ⟨old, stored, .inl rfl⟩
  | cut error content length flips torn =>
      refine ⟨_, Finmap.lookup_insert _, .inr ⟨content, flips, ?_⟩⟩
      rw [Content.bytes_written]
      exact List.take_prefix length content.bytes
  | flipped content flips =>
      exact ⟨content, Finmap.lookup_insert _,
        .inr ⟨content, flips, List.prefix_rfl⟩⟩

section SetActive

variable {whole : Path → Bool} {slot : Slot} {disk : Disk} {old : Content}

theorem FlipState.refl (pointer : Path) (new : Option Content) :
    FlipState whole pointer new disk disk :=
  ⟨.error "", .untouched ""⟩

theorem flip_protected {pointer dir : Path} {content : Content}
    {new : Option Content} {context : String}
    (flips : new = some content) :
    ((fileMachine whole).alone (FlipState whole pointer new disk)).Protected
      (FlipEnd whole pointer new disk)
      (.call (.write pointer content) fun written =>
        .attempt (withContext context written) fun _ =>
          .call (.sync pointer) fun _ =>
            .call (.sync dir) fun _ => .done (.ok ())) disk := by
  have unchanged : FlipState whole pointer new disk disk :=
    FlipState.refl pointer new
  apply call_write unchanged
  · intro message
    exact Machine.done unchanged (.untouched context)
  · intro torn length message
    have ends : FlipEnd whole pointer new disk (.error context)
        (disk.put pointer (content.written length)) :=
      .cut context content length flips torn
    exact Machine.done ⟨_, ends⟩ ends
  · have ends : FlipEnd whole pointer new disk (.ok ())
        (disk.put pointer content) :=
      .flipped content flips
    apply call_sync ⟨_, ends⟩
    intro _
    apply call_sync ⟨_, ends⟩
    intro _
    exact Machine.done ⟨_, ends⟩ ends

/-- Wherever `setActive` ends or is cut off, the disk is as before but for the
pointer file, and that is untouched, cut or flipped. -/
theorem setActive_protected (backend : BootloaderBackend)
    (stored : disk.files.lookup (backend.bootloader.pointer backend.esp) =
      some old) :
    ((fileMachine whole).alone
      (FlipState whole (backend.bootloader.pointer backend.esp)
        (backend.bootloader.flipped slot old) disk)).Protected
      (FlipEnd whole (backend.bootloader.pointer backend.esp)
        (backend.bootloader.flipped slot old) disk)
      (backend.setActive slot) disk := by
  obtain ⟨bootloader, esp, current⟩ := backend
  have unchanged : FlipState whole (bootloader.pointer esp)
      (bootloader.flipped slot old) disk disk :=
    FlipState.refl _ _
  cases bootloader with
  | sdBoot =>
      apply inRwWindow_protected unchanged .untouched
      exact flip_protected rfl
  | piBoot =>
      apply inRwWindow_protected unchanged .untouched
      apply call_readToString unchanged
      · intro message
        exact Machine.done unchanged (.untouched _)
      · intro content config found decoded
        have same : content = old :=
          Option.some.inj (found.symm.trans stored)
        cases rewritten : PiBootBackend.rewriteOsPrefix config slot with
        | error error =>
            simp only [withContext, Except.mapError, Program.attempt,
              rewritten]
            exact Machine.done unchanged (.untouched _)
        | ok new =>
            simp only [withContext, Except.mapError, Program.attempt,
              rewritten]
            apply flip_protected
            rw [Bootloader.flipped, ← same, decoded, Option.bind_some,
              rewritten]
            rfl

end SetActive

section Schedule

variable {whole : Path → Bool} {disk final : Disk} {fates : List Fate}
  {rest : Program fileSignature (Except String Unit)}

/-- What a write leaves of a file. -/
def leaves (old new : Content) : Fate → Content
  | .succeeds => new
  | .fails _ => old
  | .cut length _ => new.written length

theorem lookup_of_exec_write {esp pointer dir : Path} {context : String}
    {old new : Content} (stored : disk.files.lookup pointer = some old)
    (result : (fileMachine whole).exec
      (Program.bind (.call (.write pointer new) fun written =>
        .attempt (withContext context written) fun _ =>
          .call (.sync pointer) fun _ =>
            .call (.sync dir) fun _ => .done (.ok ())) (sealed esp))
      disk fates = some (rest, final)) :
    final.files.lookup pointer =
      some ((fates.head?.map (leaves old new)).getD old) := by
  rcases Machine.exec_call result with ⟨none, same⟩ |
    ⟨fate, later, answer, after, shape, performed, continued⟩
  · rw [none, same]
    exact stored
  · have idle : final = after := by
      apply exec_idle _ continued
      apply Program.Only.bind _ (idle_sealed esp)
      cases answer with
      | error error => exact trivial
      | ok _ => exact ⟨trivial, fun _ => ⟨trivial, fun _ => trivial⟩⟩
    rw [shape, idle, List.head?_cons, Option.map_some, Option.getD_some]
    cases fate with
    | succeeds =>
        cases performed
        exact Finmap.lookup_insert _
    | fails message =>
        cases performed
        exact stored
    | cut length message =>
        obtain ⟨_, equality⟩ := Option.ite_none_left_eq_some.mp performed
        cases equality
        exact Finmap.lookup_insert _

/-- The pointer file that a flip leaves behind. -/
def Bootloader.left (bootloader : Bootloader) (slot : Slot) (old : Content)
    (fates : List Fate) : Content :=
  ((bootloader.flipped slot old).bind fun new =>
    (bootloader.writeFate fates).map (leaves old new)).getD old

theorem Bootloader.left_of_writeFate {bootloader : Bootloader}
    (unreached : bootloader.writeFate fates = none) (slot : Slot)
    (old : Content) : bootloader.left slot old fates = old := by
  rw [left, unreached]
  cases bootloader.flipped slot old with
  | none => rfl
  | some new => rfl

variable {esp : Path} {slot : Slot} {old : Content}

theorem lookup_of_exec_sdBoot
    (stored : disk.files.lookup (SdBootBackend.conf esp) = some old)
    (result : (fileMachine whole).exec (SdBootBackend.setActive esp slot)
      disk fates = some (rest, final)) :
    final.files.lookup (SdBootBackend.conf esp) =
      some (Bootloader.sdBoot.left slot old fates) := by
  rcases exec_inRwWindow result with ⟨same, unreached⟩ |
    ⟨later, shape, continued⟩
  · have nothing : Bootloader.sdBoot.writeFate fates = none := by
      unfold Bootloader.writeFate
      split
      · exact absurd rfl (unreached _)
      · contradiction
      · rfl
    rw [same, stored, Bootloader.left_of_writeFate nothing]
  · rw [shape]
    exact lookup_of_exec_write stored continued

theorem lookup_of_exec_piBoot
    (stored : disk.files.lookup (PiBootBackend.conf esp) = some old)
    (result : (fileMachine whole).exec (PiBootBackend.setActive esp slot)
      disk fates = some (rest, final)) :
    final.files.lookup (PiBootBackend.conf esp) =
      some (Bootloader.piBoot.left slot old fates) := by
  rcases exec_inRwWindow result with ⟨same, unreached⟩ |
    ⟨later, shape, continued⟩
  · have nothing : Bootloader.piBoot.writeFate fates = none := by
      unfold Bootloader.writeFate
      split
      · contradiction
      · exact absurd rfl (unreached _)
      · rfl
    rw [same, stored, Bootloader.left_of_writeFate nothing]
  · subst shape
    rcases Machine.exec_call continued with ⟨none, same⟩ |
      ⟨fate, fates, answer, after, shape, performed, written⟩
    · rw [same, stored, none, Bootloader.left_of_writeFate rfl]
    · subst shape
      cases fate with
      | succeeds =>
          obtain ⟨content, found, decoded⟩ :=
            Option.bind_eq_some_iff.mp performed
          obtain ⟨config, text, equality⟩ :=
            Option.map_eq_some_iff.mp decoded
          cases equality
          have same : content = old :=
            Option.some.inj (found.symm.trans stored)
          subst same
          cases rewritten : PiBootBackend.rewriteOsPrefix config slot with
          | error error =>
              simp only [withContext, Except.mapError, Program.attempt,
                rewritten] at written
              have flips : Bootloader.piBoot.flipped slot content = none := by
                rw [Bootloader.flipped, text, Option.bind_some, rewritten]
                rfl
              rw [exec_idle (idle_sealed esp _) written, stored,
                Bootloader.left, flips]
              rfl
          | ok new =>
              have flips : Bootloader.piBoot.flipped slot content =
                  some (.ofText new) := by
                rw [Bootloader.flipped, text, Option.bind_some, rewritten]
                rfl
              simp only [withContext, Except.mapError, Program.attempt,
                rewritten] at written
              rw [Bootloader.left, flips]
              exact lookup_of_exec_write stored written
      | fails message =>
          cases performed
          rw [exec_idle (idle_sealed esp _) written, stored,
            Bootloader.left_of_writeFate rfl]
      | cut length message => cases performed

theorem lookup_of_exec_setActive (backend : BootloaderBackend)
    (stored : disk.files.lookup (backend.bootloader.pointer backend.esp) =
      some old)
    (result : (fileMachine whole).exec (backend.setActive slot) disk fates =
      some (rest, final)) :
    final.files.lookup (backend.bootloader.pointer backend.esp) =
      some (backend.bootloader.left slot old fates) := by
  obtain ⟨bootloader, esp, current⟩ := backend
  cases bootloader with
  | sdBoot => exact lookup_of_exec_sdBoot stored result
  | piBoot => exact lookup_of_exec_piBoot stored result

end Schedule

end MachinedRs
