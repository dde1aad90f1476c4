import MachinedRs.Boot.BootMount
import MachinedRs.Foundation.Numeral
import MachinedRs.Foundation.Text

/-!
# The list of mounts as text

`is_mounted` reads `/proc/self/mountinfo` and compares the fifth word of every
line with the target.  The kernel writes one line for each mount and escapes
the characters of a path that would break the line apart.  This module states
what the kernel writes and shows that the scan finds exactly the mounts, so
that the rest of the model may speak about mounts instead of text.
-/

namespace MachinedRs

open Foundation

/-- The characters of a path that the kernel escapes. -/
def escapedChars : List Char :=
  [' ', '\t', '\n', '\\']

/-- An escaped character: a backslash and three octal digits. -/
def octalEscape (character : Char) : List Char :=
  '\\' :: (places 8 3 character.toNat).map Nat.digitChar

def mangle (path : List Char) : List Char :=
  path.flatMap fun character =>
    if character ∈ escapedChars then octalEscape character else [character]

/-- What the kernel says about one mount.  `rest` is everything after the mount
point: options, optional fields, filesystem type, source, super options. -/
structure MountinfoLine where
  mountId : Nat
  parentId : Nat
  major : Nat
  minor : Nat
  root : List Char
  mountPoint : List Char
  rest : List Char
deriving DecidableEq, Repr

namespace MountinfoLine

def device (line : MountinfoLine) : List Char :=
  Nat.toDigits 10 line.major ++ ':' :: Nat.toDigits 10 line.minor

/-- The fields up to the mount point. -/
def head (line : MountinfoLine) : List Char :=
  Nat.toDigits 10 line.mountId ++ ' ' ::
    (Nat.toDigits 10 line.parentId ++ ' ' ::
      (line.device ++ ' ' :: (mangle line.root ++ ' ' ::
        mangle line.mountPoint)))

def text (line : MountinfoLine) : List Char :=
  line.head ++ ' ' :: line.rest

/-- Paths are not empty, and the only white space in them is what the kernel
escapes.  Any other, such as a no-break space, cuts the path in two words. -/
structure WellFormed (line : MountinfoLine) : Prop where
  root : line.root ≠ []
  mountPoint : line.mountPoint ≠ []
  rootBlanks : ∀ character ∈ line.root,
    isWhitespace character = true → character ∈ escapedChars
  mountPointBlanks : ∀ character ∈ line.mountPoint,
    isWhitespace character = true → character ∈ escapedChars
  rest : '\n' ∉ line.rest

instance (line : MountinfoLine) : Decidable line.WellFormed :=
  have (path : List Char) : Decidable (∀ character ∈ path,
      isWhitespace character = true → character ∈ escapedChars) :=
    List.decidableBAll _ path
  decidable_of_iff
    ((line.root ≠ [] ∧ line.mountPoint ≠ []) ∧
      (∀ character ∈ line.root,
        isWhitespace character = true → character ∈ escapedChars) ∧
      (∀ character ∈ line.mountPoint,
        isWhitespace character = true → character ∈ escapedChars) ∧
      '\n' ∉ line.rest)
    ⟨fun ⟨⟨root, point⟩, rootBlanks, pointBlanks, rest⟩ =>
      ⟨root, point, rootBlanks, pointBlanks, rest⟩,
      fun ⟨root, point, rootBlanks, pointBlanks, rest⟩ =>
        ⟨⟨root, point⟩, rootBlanks, pointBlanks, rest⟩⟩

end MountinfoLine

def mountinfoText (lines : List MountinfoLine) : List Char :=
  unicode.unlines (lines.map MountinfoLine.text)

/-- The scan of `is_mounted` over the content of mountinfo. -/
def LinuxPlatform.isMountedIn (content : List Char) (target : List Char) :
    Bool :=
  (unicode.lines content).any fun line =>
    (unicode.words line)[4]? = some target

private theorem solid_digitChar :
    ∀ place < 16, isWhitespace (Nat.digitChar place) = false := by
  decide

theorem solid_toDigits {number : Nat} {character : Char}
    (member : character ∈ Nat.toDigits 10 number) :
    isWhitespace character = false := by
  obtain ⟨place, small, rfl⟩ := mem_toDigits (by decide) (by decide) member
  exact solid_digitChar place small

theorem solid_octalEscape {escaped character : Char}
    (member : character ∈ octalEscape escaped) :
    isWhitespace character = false := by
  rcases List.mem_cons.mp member with rfl | digit
  · decide
  · obtain ⟨place, isPlace, rfl⟩ := List.mem_map.mp digit
    have small := lt_of_mem_places (by decide) isPlace
    exact solid_digitChar place (Nat.lt_of_lt_of_le small (by decide))

theorem solid_mangle {path : List Char}
    (blanks : ∀ character ∈ path,
      isWhitespace character = true → character ∈ escapedChars)
    {character : Char} (member : character ∈ mangle path) :
    isWhitespace character = false := by
  obtain ⟨original, isOriginal, written⟩ := List.mem_flatMap.mp member
  by_cases escaped : original ∈ escapedChars
  · rw [if_pos escaped] at written
    exact solid_octalEscape written
  · rw [if_neg escaped, List.mem_singleton] at written
    rw [written]
    by_contra blank
    exact escaped (blanks original isOriginal (Bool.not_eq_false _ ▸ blank))

theorem mangle_ne_nil {path : List Char} (nonempty : path ≠ []) :
    mangle path ≠ [] := by
  obtain ⟨first, rest, rfl⟩ := List.exists_cons_of_ne_nil nonempty
  rw [mangle, List.flatMap_cons]
  by_cases escaped : first ∈ escapedChars
  · rw [if_pos escaped]
    exact List.cons_ne_nil _ _
  · rw [if_neg escaped]
    exact List.cons_ne_nil _ _

theorem mangle_of_plain {path : List Char}
    (plain : ∀ character ∈ path, character ∉ escapedChars) :
    mangle path = path := by
  induction path with
  | nil => rfl
  | cons first rest induction =>
      have later := induction fun character member =>
        plain character (List.mem_cons_of_mem first member)
      have unescaped := plain first List.mem_cons_self
      rw [mangle] at later ⊢
      rw [List.flatMap_cons, if_neg unescaped, later]
      rfl

/-- Only the path itself is written like a path without such characters: an
escape would leave a backslash. -/
theorem mangle_eq_iff_of_plain {path target : List Char}
    (plain : ∀ character ∈ target, character ∉ escapedChars) :
    mangle path = target ↔ path = target := by
  constructor
  · intro same
    have unescaped : ∀ character ∈ path, character ∉ escapedChars := by
      intro character member escaped
      have backslash : '\\' ∈ mangle path := by
        apply List.mem_flatMap.mpr
        refine ⟨character, member, ?_⟩
        rw [if_pos escaped]
        exact List.mem_cons_self
      rw [same] at backslash
      exact plain '\\' backslash (by decide)
    rw [← same, mangle_of_plain unescaped]
  · rintro rfl
    exact mangle_of_plain plain

theorem solid_device {line : MountinfoLine} {character : Char}
    (member : character ∈ line.device) : isWhitespace character = false := by
  rcases List.mem_append.mp member with major | rest
  · exact solid_toDigits major
  · rcases List.mem_cons.mp rest with rfl | minor
    · decide
    · exact solid_toDigits minor

section Line

variable {line : MountinfoLine}

theorem newline_notMem_of_solid {text : List Char}
    (solid : ∀ character ∈ text, isWhitespace character = false) :
    '\n' ∉ text := by
  intro member
  have blank := solid '\n' member
  revert blank
  decide

theorem MountinfoLine.WellFormed.words_head (wellFormed : line.WellFormed) :
    unicode.words line.head =
      [Nat.toDigits 10 line.mountId, Nat.toDigits 10 line.parentId,
        line.device, mangle line.root, mangle line.mountPoint] := by
  have blank : unicode.blank ' ' = true := by decide
  have digits : ∀ number, ∀ character ∈ Nat.toDigits 10 number,
      unicode.blank character = false := fun _ _ => solid_toDigits
  have nonempty : line.device ≠ [] := by simp [MountinfoLine.device]
  rw [MountinfoLine.head,
    unicode.words_cons Nat.toDigits_ne_nil (digits _) blank,
    unicode.words_cons Nat.toDigits_ne_nil (digits _) blank,
    unicode.words_cons nonempty (fun _ => solid_device) blank,
    unicode.words_cons (mangle_ne_nil wellFormed.root)
      (fun _ => solid_mangle wellFormed.rootBlanks) blank,
    unicode.words_piece (mangle_ne_nil wellFormed.mountPoint)
      (fun _ => solid_mangle wellFormed.mountPointBlanks)]

theorem MountinfoLine.WellFormed.newline_notMem
    (wellFormed : line.WellFormed) : '\n' ∉ line.text := by
  have digits : ∀ number, '\n' ∉ Nat.toDigits 10 number := fun _ =>
    newline_notMem_of_solid fun _ => solid_toDigits
  have device : '\n' ∉ line.device :=
    newline_notMem_of_solid fun _ => solid_device
  have root : '\n' ∉ mangle line.root :=
    newline_notMem_of_solid fun _ => solid_mangle wellFormed.rootBlanks
  have point : '\n' ∉ mangle line.mountPoint :=
    newline_notMem_of_solid fun _ => solid_mangle wellFormed.mountPointBlanks
  simp [MountinfoLine.text, MountinfoLine.head, digits, device, root, point,
    wellFormed.rest]

theorem MountinfoLine.stripCarriage_text (line : MountinfoLine) :
    ∃ ending, unicode.stripCarriage line.text =
      line.head ++ ' ' :: ending := by
  unfold Alphabet.stripCarriage MountinfoLine.text
  split
  · rename_i carriage
    cases rest : line.rest with
    | nil =>
        rw [rest, List.getLast?_append_cons] at carriage
        cases carriage
    | cons first others =>
        refine ⟨(first :: others).dropLast, ?_⟩
        rw [List.dropLast_append_of_ne_nil (List.cons_ne_nil _ _),
          List.dropLast_cons_of_ne_nil (List.cons_ne_nil _ _)]
  · exact ⟨line.rest, rfl⟩

end Line

theorem LinuxPlatform.isMountedIn_iff {lines : List MountinfoLine}
    (wellFormed : ∀ line ∈ lines, line.WellFormed) {target : List Char} :
    LinuxPlatform.isMountedIn (mountinfoText lines) target = true ↔
      ∃ line ∈ lines, mangle line.mountPoint = target := by
  rw [LinuxPlatform.isMountedIn]
  induction lines with
  | nil =>
      have empty : unicode.lines (mountinfoText []) = [] := by decide
      simp [empty]
  | cons line lines induction =>
      have first := wellFormed line List.mem_cons_self
      have later := induction fun other member =>
        wellFormed other (List.mem_cons_of_mem line member)
      have shape : mountinfoText (line :: lines) =
          line.text ++ unicode.newline :: mountinfoText lines := by
        simp [mountinfoText, Alphabet.unlines]
      obtain ⟨ending, stripped⟩ := line.stripCarriage_text
      have blank : unicode.blank ' ' = true := by decide
      rw [shape, unicode.lines_append first.newline_notMem, List.any_cons,
        Bool.or_eq_true, later, stripped, unicode.words_append blank,
        first.words_head]
      simp

/-- The lines are about these mounts. -/
def ListsMounts (lines : List MountinfoLine) (mounts : List Mount) : Prop :=
  lines.map MountinfoLine.mountPoint =
    mounts.map fun mount => mount.target.toList

/-- If the paths hold no white space that the kernel does not escape, then for
a target without escaped characters the scan of the text tells exactly whether
the target is among the mounts. -/
theorem LinuxPlatform.is_mounted_reads_mountinfo {lines : List MountinfoLine}
    {mounts : List Mount}
    (wellFormed : ∀ line ∈ lines, line.WellFormed)
    (listed : ListsMounts lines mounts) {target : String}
    (plain : ∀ character ∈ target.toList, character ∉ escapedChars) :
    LinuxPlatform.isMounted .readable target mounts =
      .ok (LinuxPlatform.isMountedIn (mountinfoText lines) target.toList) := by
  have scanned : LinuxPlatform.isMountedIn (mountinfoText lines)
      target.toList = true ↔ ∃ mount ∈ mounts, mount.target = target := by
    rw [LinuxPlatform.isMountedIn_iff wellFormed]
    simp only [mangle_eq_iff_of_plain plain]
    rw [← List.mem_map, listed, List.mem_map]
    simp only [String.toList_inj]
  have found : (mounts.any fun mount => mount.target = target) =
      LinuxPlatform.isMountedIn (mountinfoText lines) target.toList := by
    rw [Bool.eq_iff_iff, scanned, List.any_eq_true]
    simp
  rw [← found]
  rfl

example : LinuxPlatform.isMountedIn (mountinfoText [{
      mountId := 40, parentId := 1, major := 8, minor := 1
      root := "/".toList, mountPoint := "/mnt/a\u00A0b".toList
      rest := "rw - ext4 /dev/sda1 rw".toList }])
    "/mnt/a".toList = true := by
  decide +kernel

/-- A boot partition beside a mount point with a blank in its name. -/
def bootBesideBackup : List MountinfoLine :=
  [ { mountId := 28
      parentId := 1
      major := 253
      minor := 1
      root := "/".toList
      mountPoint := "/boot".toList
      rest := "ro,nosuid,nodev - vfat /dev/vda1 ro".toList },
    { mountId := 31
      parentId := 1
      major := 8
      minor := 17
      root := "/".toList
      mountPoint := "/mnt/old boot".toList
      rest := "rw shared:4 - ext4 /dev/sdb1 rw".toList } ]

def bootBesideBackupMounts : List Mount :=
  [ ⟨"/dev/vda1", "/boot", "vfat", 7⟩,
    ⟨"/dev/sdb1", "/mnt/old boot", "ext4", 0⟩ ]

theorem LinuxPlatform.is_mounted_reads_mountinfo_boot :
    LinuxPlatform.isMounted .readable "/boot" bootBesideBackupMounts =
      .ok (LinuxPlatform.isMountedIn (mountinfoText bootBesideBackup)
        "/boot".toList) ∧
    LinuxPlatform.isMountedIn (mountinfoText bootBesideBackup)
      "/boot".toList = true := by
  have plain : ("/boot".toList.all fun character =>
      decide (character ∉ escapedChars)) = true := by
    decide
  have listed : ListsMounts bootBesideBackup bootBesideBackupMounts := rfl
  refine ⟨LinuxPlatform.is_mounted_reads_mountinfo ?_ listed ?_,
    by decide +kernel⟩
  · decide
  · intro character member
    exact of_decide_eq_true (List.all_eq_true.mp plain character member)

end MachinedRs
