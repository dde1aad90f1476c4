import MachinedRs.Boot.Imager

/-!
# From the imager's command line back to the slot

A bootloader reads the command line of a slot from the file the imager wrote
for it, and may put other arguments around it.  `parseSlot` gets the slot back.
-/

namespace MachinedRs

open Foundation

/-- No argument chooses a slot. -/
def NoSlot (text : String) : Prop :=
  ∀ word ∈ unicode.words text.toList, ¬ "machined.slot=".toList <+: word

instance (text : String) : Decidable (NoSlot text) :=
  inferInstanceAs (Decidable (∀ word ∈ _, _))

theorem slotArgument_append (first second : List (List Char)) :
    slotArgument (first ++ second) =
      (slotArgument first).or (slotArgument second) :=
  List.findSome?_append

theorem NoSlot.slotArgument {text : String} (noSlot : NoSlot text) :
    slotArgument (unicode.words text.toList) = none := by
  apply List.findSome?_eq_none_iff.mpr
  intro word member
  apply Option.eq_none_iff_forall_ne_some.mpr
  intro value found
  obtain ⟨start, shape, same⟩ := List.dropPrefix?_eq_some_iff.mp found
  rw [beq_iff_eq.mp same] at shape
  exact noSlot word member ⟨value, shape.symm⟩

theorem words_surrounded (first second : String) :
    unicode.words (first ++ " " ++ second).toList =
      unicode.words first.toList ++ unicode.words second.toList := by
  have blank : unicode.blank ' ' = true := by decide
  have space : " ".toList = [' '] := by decide
  rw [String.toList_append, String.toList_append, space, List.append_assoc,
    List.singleton_append, unicode.words_append blank]

theorem parseSlot_of_slotArgument {cmdline : String} {slot : Slot}
    (found : slotArgument (unicode.words cmdline.toList) =
      some slot.id.toList) :
    parseSlot cmdline = slot := by
  rw [parseSlot, found]
  cases slot with
  | a => decide
  | b => decide

/-- The first slot argument decides, whatever follows it. -/
theorem parseSlot_surrounded {before line : String} (after : String)
    {slot : Slot} (noSlot : NoSlot before)
    (found : slotArgument (unicode.words line.toList) =
      some slot.id.toList) :
    parseSlot (before ++ " " ++ (line ++ " " ++ after)) = slot := by
  apply parseSlot_of_slotArgument
  rw [words_surrounded, words_surrounded, slotArgument_append,
    slotArgument_append, noSlot.slotArgument, found]
  rfl

namespace Bootloader

/-- The command line a bootloader takes from the file of a slot. -/
def commandLine : Bootloader → String → Option String
  | .sdBoot, text =>
      ((unicode.entries text.toList).findSome? fun entry =>
        entry.dropPrefix? "options ".toList).map String.ofList
  | .piBoot, text => some text

/-- The lines of an entry before its options. -/
def entryHead (slot : Slot) : String :=
  let up := String.ofList (slot.id.toList.map Char.toUpper)
  "title machined (" ++ slot.id ++ ")\n" ++
    "linux /" ++ up ++ "/vmlinuz\n" ++
    "initrd /" ++ up ++ "/initramfs.img\n"

def entryOptions (slot : Slot) (cmdline : String) : String :=
  "options " ++ (cmdline ++ " " ++ ("machined.slot=" ++ slot.id))

theorem toList_entryConf (slot : Slot) (cmdline : String) :
    (Sdboot.entryConf slot.id cmdline).toList =
      (entryHead slot).toList ++
        ((entryOptions slot cmdline).toList ++ ['\n']) := by
  have shape : Sdboot.entryConf slot.id cmdline =
      entryHead slot ++ "options " ++ cmdline ++ " machined.slot=" ++
        slot.id ++ "\n" :=
    rfl
  have token : " machined.slot=".toList =
      " ".toList ++ "machined.slot=".toList := by
    decide
  have newline : "\n".toList = ['\n'] := by decide
  rw [shape, entryOptions]
  simp only [String.toList_append, token, newline, List.append_assoc]

/-- The head of an entry is whole lines, none of them options. -/
theorem entryHead_lines (slot : Slot) :
    ∃ lines, (entryHead slot).toList = lines ++ ['\n'] ∧
      (unicode.entries lines).findSome? (fun entry =>
        entry.dropPrefix? "options ".toList) = none := by
  refine ⟨(entryHead slot).toList.dropLast, ?_, ?_⟩
  · cases slot with
    | a => decide
    | b => decide
  · cases slot with
    | a => decide
    | b => decide

theorem entryOptions_solid (slot : Slot) (cmdline : String) :
    ∃ first middle last,
      (entryOptions slot cmdline).toList = first :: (middle ++ [last]) ∧
      unicode.blank first = false ∧ unicode.blank last = false := by
  have key : "options ".toList = 'o' :: "ptions ".toList := by decide
  have shape : (entryOptions slot cmdline).toList =
      'o' :: (("ptions ".toList ++
        (cmdline ++ " " ++ "machined.slot=").toList) ++ slot.id.toList) := by
    rw [entryOptions, String.toList_append, key]
    simp only [String.toList_append, List.cons_append, List.append_assoc]
  cases slot with
  | a => exact ⟨'o', _, 'a', shape, by decide, by decide⟩
  | b => exact ⟨'o', _, 'b', shape, by decide, by decide⟩

theorem entries_entryOptions (slot : Slot) {cmdline : String}
    (oneLine : '\n' ∉ cmdline.toList) :
    unicode.entries (entryOptions slot cmdline).toList =
      [(entryOptions slot cmdline).toList] := by
  have fresh : unicode.newline ∉ (entryOptions slot cmdline).toList := by
    cases slot with
    | a => simp [unicode, entryOptions, Slot.id, oneLine]
    | b => simp [unicode, entryOptions, Slot.id, oneLine]
  obtain ⟨first, middle, last, shape, firstSolid, lastSolid⟩ :=
    entryOptions_solid slot cmdline
  have trimmed := unicode.trim_solid middle firstSolid lastSolid
  rw [← shape] at trimmed
  rw [unicode.entries_piece fresh, trimmed, shape]
  rfl

theorem commandLine_entryConf (slot : Slot) {cmdline : String}
    (oneLine : '\n' ∉ cmdline.toList) :
    sdBoot.commandLine (Sdboot.entryConf slot.id cmdline) =
      some (cmdline ++ " " ++ ("machined.slot=" ++ slot.id)) := by
  obtain ⟨lines, shape, notOptions⟩ := entryHead_lines slot
  have split := unicode.entries_append lines
    ((entryOptions slot cmdline).toList ++ ['\n'])
  have ended := unicode.entries_append (entryOptions slot cmdline).toList []
  have newline : unicode.newline = '\n' := rfl
  rw [unicode.entries_nil, List.append_nil, newline,
    entries_entryOptions slot oneLine] at ended
  rw [ended, newline] at split
  have found : (entryOptions slot cmdline).toList.dropPrefix?
      "options ".toList =
      some (cmdline ++ " " ++ ("machined.slot=" ++ slot.id)).toList := by
    rw [entryOptions, String.toList_append]
    exact List.dropPrefix?_append_of_beq _ (beq_self_eq_true _)
  rw [commandLine, toList_entryConf, shape, List.append_assoc,
    List.singleton_append, split, List.findSome?_append, notOptions,
    Option.none_or, List.findSome?_singleton, found, Option.map_some,
    String.ofList_toList]

/-- The command line read back for a slot chooses that slot. -/
theorem commandLine_commandText (bootloader : Bootloader) (slot : Slot)
    {cmdline : String} (oneLine : '\n' ∉ cmdline.toList)
    (noSlot : NoSlot cmdline) :
    ∃ line,
      bootloader.commandLine (bootloader.commandText cmdline slot) =
        some line ∧
      slotArgument (unicode.words line.toList) = some slot.id.toList := by
  cases bootloader with
  | sdBoot =>
      refine ⟨_, commandLine_entryConf slot oneLine, ?_⟩
      rw [words_surrounded, slotArgument_append, noSlot.slotArgument,
        Option.none_or]
      cases slot with
      | a => decide
      | b => decide
  | piBoot =>
      refine ⟨Rpi.cmdlineTxtFor slot.id, rfl, ?_⟩
      cases slot with
      | a => decide +kernel
      | b => decide +kernel

end Bootloader

end MachinedRs
