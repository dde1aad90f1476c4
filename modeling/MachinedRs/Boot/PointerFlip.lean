import MachinedRs.Boot.Pointer

/-!
# Cutting off a flip of the boot pointer

A flip replaces the pointer file by a write in place, so a failure or a power
cut leaves any part of the new file.  The pointer still names the old or the
new slot, with every other directive of `config.txt` in place, exactly when
the write was not begun or lost nothing that matters: for `loader.conf` what
follows the slot, for `config.txt` what follows its last directive, and
repeated `os_prefix=` lines.
-/

namespace MachinedRs

open Foundation

namespace PiBootBackend

/-- Whether a trimmed line of `config.txt` selects a slot. -/
def isSelection (entry : List Char) : Bool :=
  Bootloader.piBoot.selects (entry.map .char)

theorem isSelection_trim (line : List Char) :
    isSelection (unicode.trim line) = isOsPrefix line := by
  have solid : unicode.blank ("os_prefix=".toList.getLast (by decide)) =
      false := by
    decide
  rw [Bool.eq_iff_iff, isSelection, Bootloader.selects, isOsPrefix,
    List.isPrefixOf_iff_prefix, List.isPrefixOf_iff_prefix]
  exact (List.prefix_map_iff_of_injective unicode_embeds.injective).trans
    (unicode.isPrefix_trim_iff (by decide) solid line)

theorem entries_osPrefix (slot : Slot) :
    unicode.entries (osPrefix slot).toList = [(osPrefix slot).toList] := by
  cases slot with
  | a => decide
  | b => decide

theorem isSelection_osPrefix (slot : Slot) :
    isSelection (osPrefix slot).toList = true := by
  cases slot with
  | a => decide
  | b => decide

theorem entries_of_isOsPrefix {line : List Char}
    (fresh : unicode.newline ∉ line) (flips : isOsPrefix line = true) :
    unicode.entries line = [unicode.trim line] := by
  have selection : isSelection (unicode.trim line) = true := by
    rw [isSelection_trim, flips]
  rw [unicode.entries_piece fresh]
  apply List.filter_eq_self.mpr
  intro entry member
  rw [List.mem_singleton.mp member]
  simp only [ne_eq, decide_not, Bool.not_eq_true', decide_eq_false_iff_not]
  intro empty
  rw [empty] at selection
  cases selection

theorem isSelection_of_stays {line entry : List Char}
    (fresh : unicode.newline ∉ line) (stays : isOsPrefix line = false)
    (member : entry ∈ unicode.entries line) : isSelection entry = false := by
  rw [unicode.entries_piece fresh] at member
  rw [List.mem_singleton.mp (List.mem_of_mem_filter member),
    isSelection_trim, stays]

section FlipLine

variable (slot : Slot) {line : List Char} (fresh : unicode.newline ∉ line)

include fresh

theorem others_flipLine :
    (unicode.entries (flipLine slot line)).filter (fun entry =>
        !isSelection entry) =
      (unicode.entries line).filter fun entry => !isSelection entry := by
  cases flips : isOsPrefix line with
  | true =>
      rw [flipLine, if_pos flips, entries_osPrefix,
        entries_of_isOsPrefix fresh flips]
      simp [isSelection_osPrefix, isSelection_trim, flips]
  | false => simp [flipLine, flips]

theorem selections_flipLine :
    (unicode.entries (flipLine slot line)).filter isSelection =
      ((unicode.entries line).filter isSelection).map fun _ =>
        (osPrefix slot).toList := by
  cases flips : isOsPrefix line with
  | true =>
      rw [flipLine, if_pos flips, entries_osPrefix,
        entries_of_isOsPrefix fresh flips]
      simp [isSelection_osPrefix, isSelection_trim, flips]
  | false =>
      have none : (unicode.entries line).filter isSelection = [] := by
        apply List.filter_eq_nil_iff.mpr
        intro entry member
        rw [isSelection_of_stays fresh flips member]
        exact Bool.false_ne_true
      simp [flipLine, flips, none]

end FlipLine

section Rewriting

variable {config new : String} {slot : Slot}

theorem entries_rewritten
    (rewritten : rewriteOsPrefix config slot = .ok new) :
    unicode.entries new.toList =
      (unicode.lines config.toList).flatMap fun line =>
        unicode.entries (flipLine slot line) := by
  rw [(rewriteOsPrefix_eq_ok.mp rewritten).2, String.toList_ofList,
    unicode.entries_unlines, List.flatMap_map]

theorem others_rewritten
    (rewritten : rewriteOsPrefix config slot = .ok new) :
    (unicode.entries new.toList).filter (fun entry => !isSelection entry) =
      (unicode.entries config.toList).filter fun entry =>
        !isSelection entry := by
  rw [entries_rewritten rewritten,
    unicode.entries_eq_flatMap_lines config.toList, List.filter_flatMap,
    List.filter_flatMap]
  apply List.flatMap_congr
  intro line member
  exact others_flipLine slot (unicode.notMem_of_mem_lines member)

theorem selections_rewritten
    (rewritten : rewriteOsPrefix config slot = .ok new) :
    (unicode.entries new.toList).filter isSelection =
      ((unicode.entries config.toList).filter isSelection).map fun _ =>
        (osPrefix slot).toList := by
  rw [entries_rewritten rewritten,
    unicode.entries_eq_flatMap_lines config.toList, List.filter_flatMap,
    List.filter_flatMap, List.map_flatMap]
  apply List.flatMap_congr
  intro line member
  exact selections_flipLine slot (unicode.notMem_of_mem_lines member)

end Rewriting

end PiBootBackend

namespace Bootloader

theorem selections_ofText (config : String) :
    piBoot.selections (.ofText config) =
      ((unicode.entries config.toList).filter
        PiBootBackend.isSelection).map fun entry => entry.map .char := by
  rw [selections, Content.ofText, unicode_embeds.entries_map,
    List.filter_map]
  rfl

theorem otherDirectives_ofText (config : String) :
    piBoot.otherDirectives (.ofText config) =
      ((unicode.entries config.toList).filter fun entry =>
        !PiBootBackend.isSelection entry).map fun entry =>
          entry.map .char := by
  rw [otherDirectives, Content.ofText, unicode_embeds.entries_map,
    List.filter_map]
  rfl

/-- What a flip of `config.txt` makes of its directives. -/
structure Rewritten (slot : Slot) (old new : Content) : Prop where
  others : piBoot.otherDirectives new = piBoot.otherDirectives old
  selections : piBoot.selections new =
    (piBoot.selections old).map fun _ => piBoot.selector slot
  text : ∃ config, old = .ofText config

theorem rewritten_of_flipped {slot : Slot} {old new : Content}
    (flips : piBoot.flipped slot old = some new) :
    Rewritten slot old new := by
  obtain ⟨config, decoded, rewrites⟩ := Option.bind_eq_some_iff.mp flips
  obtain ⟨text, accepted, equality⟩ := Option.map_eq_some_iff.mp rewrites
  have rewritten : PiBootBackend.rewriteOsPrefix config slot = .ok text := by
    cases result : PiBootBackend.rewriteOsPrefix config slot with
    | error error =>
        rw [result] at accepted
        cases accepted
    | ok found =>
        rw [result] at accepted
        cases accepted
        rfl
  have shape := Content.ofText_of_text? decoded
  subst shape
  subst equality
  refine ⟨?_, ?_, config, rfl⟩
  · rw [otherDirectives_ofText, otherDirectives_ofText,
      PiBootBackend.others_rewritten rewritten]
  · rw [selections_ofText, selections_ofText,
      PiBootBackend.selections_rewritten rewritten, List.map_map,
      List.map_map]
    rfl

/-- A pointer file as it may be before a flip. -/
def Valid (previous : Slot) (old : Content) : Bootloader → Prop
  | .sdBoot => old = .ofText (SdBootBackend.confText previous)
  | .piBoot => piBoot.Names previous old

/-- The pointer file left behind denotes exactly the old or exactly the new
slot, and `config.txt` has kept its other directives. -/
structure Intact (bootloader : Bootloader) (previous slot : Slot)
    (old left : Content) : Prop where
  names : bootloader.Names previous left ∨ bootloader.Names slot left
  directives : bootloader = .piBoot →
    piBoot.otherDirectives left = piBoot.otherDirectives old

/-- Only `os_prefix=` directives of the new file are lost, and not all of
them. -/
def LosesSelections (new kept : Content) : Prop :=
  ∃ lost, symbols.entries new = symbols.entries kept ++ lost ∧
    (∀ entry ∈ lost, piBoot.selects entry = true) ∧
    ∃ entry ∈ symbols.entries kept, piBoot.selects entry = true

/-- The cut fell into a later `os_prefix=` directive, and what it left of it
is by chance the one other directive that is lost. -/
def Mimics (slot : Slot) (new kept : Content) : Prop :=
  ∃ whole part lost, symbols.entries new = whole ++ lost ∧
    symbols.entries kept = whole ++ [part] ∧
    part <+: piBoot.selector slot ∧
    (lost.filter fun entry => !piBoot.selects entry) = [part] ∧
    ∃ entry ∈ whole, piBoot.selects entry = true

/-- The write of a new pointer file may stop after so many bytes: with
`default` and the slot in `loader.conf`; between two characters of
`config.txt`, with nothing lost that matters. -/
def MayStop (slot : Slot) (new : Content) (length : Nat) : Bootloader → Prop
  | .sdBoot => (sdBoot.selector slot).bytes.length ≤ length
  | .piBoot =>
      ∃ kept lost, new = kept ++ lost ∧
        kept.bytes = new.bytes.take length ∧
        (LosesSelections new kept ∨ Mimics slot new kept)

/-- If the write of the pointer is cut off, it is where it may stop. -/
def Spared (bootloader : Bootloader) (slot : Slot) (old : Content)
    (fates : List Fate) : Prop :=
  ∀ length message new,
    bootloader.writeFate fates = some (.cut length message) →
    bootloader.flipped slot old = some new →
    bootloader.MayStop slot new length

theorem Valid.names {bootloader : Bootloader} {previous : Slot}
    {old : Content} (valid : bootloader.Valid previous old) :
    bootloader.Names previous old := by
  cases bootloader with
  | sdBoot =>
      rw [show old = _ from valid]
      cases previous with
      | a => decide
      | b => decide
  | piBoot => exact valid

theorem Valid.intact {bootloader : Bootloader} {previous : Slot}
    {old : Content} (valid : bootloader.Valid previous old) (slot : Slot) :
    bootloader.Intact previous slot old old :=
  ⟨.inl valid.names, fun _ => rfl⟩

section SdBoot

/-- The new `loader.conf`, cut after so many bytes. -/
def sdBootCut (slot : Slot) (length : Nat) : Content :=
  (Content.ofText (SdBootBackend.confText slot)).take length

theorem length_confText (slot : Slot) :
    (Content.ofText (SdBootBackend.confText slot)).length = 20 := by
  cases slot with
  | a => decide
  | b => decide

theorem sdBoot_written (slot : Slot) (length : Nat) :
    (Content.ofText (SdBootBackend.confText slot)).written length =
      sdBootCut slot (min length 20) := by
  have single : ∀ symbol ∈ Content.ofText (SdBootBackend.confText slot),
      symbol.bytes.length = 1 := by
    cases slot with
    | a => decide
    | b => decide
  rw [Content.written_eq_take single, sdBootCut, List.take_eq_take_min,
    length_confText]

theorem length_selector (slot : Slot) :
    (sdBoot.selector slot).bytes.length = 9 := by
  cases slot with
  | a => decide
  | b => decide

theorem names_sdBootCut_iff (previous slot : Slot) : ∀ length < 21,
    (sdBoot.Names previous (sdBootCut slot length) ∨
      sdBoot.Names slot (sdBootCut slot length)) ↔ 9 ≤ length := by
  cases previous with
  | a =>
      cases slot with
      | a => decide
      | b => decide
  | b =>
      cases slot with
      | a => decide
      | b => decide

theorem sdBoot_intact_iff (previous slot : Slot) (old : Content)
    (length : Nat) :
    sdBoot.Intact previous slot old
        ((Content.ofText (SdBootBackend.confText slot)).written length) ↔
      (sdBoot.selector slot).bytes.length ≤ length := by
  have bound : min length 20 < 21 := by omega
  have named := names_sdBootCut_iff previous slot _ bound
  rw [sdBoot_written, length_selector]
  constructor
  · intro intact
    have reached := named.mp intact.names
    omega
  · intro reached
    refine ⟨named.mpr (by omega), ?_⟩
    intro impossible
    cases impossible

end SdBoot

section PiBoot

variable {previous slot : Slot} {old new left : Content}

theorem Rewritten.names (rewritten : Rewritten slot old new)
    (valid : piBoot.Names previous old) : piBoot.Names slot new := by
  rw [Names, rewritten.selections]
  constructor
  · simpa using valid.1
  · intro entry member
    obtain ⟨_, _, equality⟩ := List.mem_map.mp member
    exact equality.symm

/-- A file is intact with some whole directives of the new one, an
`os_prefix=` among them, and all its other directives. -/
theorem intact_of_whole (valid : piBoot.Names previous old)
    (flips : piBoot.flipped slot old = some new) {whole lost : List Content}
    (shape : symbols.entries new = whole ++ lost)
    (chosen : ∃ entry ∈ whole, piBoot.selects entry = true)
    (selected : piBoot.selections left = whole.filter piBoot.selects)
    (others : piBoot.otherDirectives left = piBoot.otherDirectives new) :
    piBoot.Intact previous slot old left := by
  have rewritten := rewritten_of_flipped flips
  have names := rewritten.names valid
  constructor
  · right
    rw [Names, selected]
    constructor
    · obtain ⟨entry, member, selects⟩ := chosen
      exact List.ne_nil_of_mem (List.mem_filter.mpr ⟨member, selects⟩)
    · intro entry member
      apply names.2
      rw [selections, shape, List.filter_append]
      exact List.mem_append_left _ member
  · intro _
    rw [others]
    exact rewritten.others

theorem LosesSelections.intact (valid : piBoot.Names previous old)
    (flips : piBoot.flipped slot old = some new)
    (loses : LosesSelections new left) :
    piBoot.Intact previous slot old left := by
  obtain ⟨lost, shape, selecting, chosen⟩ := loses
  apply intact_of_whole valid flips shape chosen rfl
  have none : (lost.filter fun entry => !piBoot.selects entry) = [] := by
    apply List.filter_eq_nil_iff.mpr
    intro entry member
    simp [selecting entry member]
  rw [otherDirectives, otherDirectives, shape, List.filter_append, none,
    List.append_nil]

theorem Mimics.intact (valid : piBoot.Names previous old)
    (flips : piBoot.flipped slot old = some new)
    (mimics : Mimics slot new left) :
    piBoot.Intact previous slot old left := by
  obtain ⟨whole, part, lost, shape, found, _, only, chosen⟩ := mimics
  have member : part ∈ lost.filter fun entry => !piBoot.selects entry := by
    rw [only]
    exact List.mem_cons_self
  have plain : piBoot.selects part = false := by
    simpa using (List.mem_filter.mp member).2
  apply intact_of_whole valid flips shape chosen
  · rw [selections, found, List.filter_append]
    simp [plain]
  · rw [otherDirectives, otherDirectives, found, shape, List.filter_append,
      List.filter_append, only]
    simp [plain]

theorem Intact.noByte (intact : piBoot.Intact previous slot old left)
    {config : String} (text : old = .ofText config) {entry : Content}
    (member : entry ∈ symbols.entries left) (value : UInt8) :
    .byte value ∉ entry := by
  have noByte : ∀ text : String, Symbol.byte value ∉ Content.ofText text := by
    intro text inside
    obtain ⟨_, _, equality⟩ := List.mem_map.mp inside
    cases equality
  cases selected : piBoot.selects entry with
  | true =>
      have selection : entry ∈ piBoot.selections left :=
        List.mem_filter.mpr ⟨member, selected⟩
      rcases intact.names with names | names
      · rw [names.2 entry selection]
        exact noByte _
      · rw [names.2 entry selection]
        exact noByte _
  | false =>
      have other : entry ∈ piBoot.otherDirectives left := by
        apply List.mem_filter.mpr
        exact ⟨member, by rw [selected]; rfl⟩
      rw [intact.directives rfl, text, otherDirectives_ofText] at other
      obtain ⟨characters, _, equality⟩ := List.mem_map.mp other
      rw [← equality]
      intro inside
      obtain ⟨_, _, impossible⟩ := List.mem_map.mp inside
      cases impossible

theorem stray_eq_nil {kept : Content} {stray : List UInt8}
    (intact : piBoot.Intact previous slot old
      (kept ++ stray.map .byte))
    {config : String} (text : old = .ofText config) : stray = [] := by
  cases stray with
  | nil => rfl
  | cons value stray =>
      have inside : Symbol.byte value ∈
          symbols.solid (kept ++ (value :: stray).map .byte) := by
        apply List.mem_filter.mpr
        exact ⟨by simp, rfl⟩
      rw [← symbols.solid_flatten_entries] at inside
      obtain ⟨entry, member, found⟩ :=
        List.mem_flatten.mp (List.mem_of_mem_filter inside)
      exact absurd found (intact.noByte text member value)

theorem length_piBoot_selector (slot : Slot) :
    (piBoot.selector slot).length = 12 := by
  cases slot with
  | a => decide
  | b => decide

theorem Rewritten.eq_selector (rewritten : Rewritten slot old new)
    {entry : Content} (member : entry ∈ symbols.entries new)
    (selects : piBoot.selects entry = true) :
    entry = piBoot.selector slot := by
  have selection : entry ∈ piBoot.selections new :=
    List.mem_filter.mpr ⟨member, selects⟩
  rw [rewritten.selections] at selection
  obtain ⟨_, _, equality⟩ := List.mem_map.mp selection
  exact equality.symm

theorem losesSelections_of_intact
    (intact : piBoot.Intact previous slot old left)
    (rewritten : Rewritten slot old new) {lost : List Content}
    (shape : symbols.entries new = symbols.entries left ++ lost) :
    LosesSelections new left := by
  have others := (intact.directives rfl).trans rewritten.others.symm
  have nonempty : piBoot.selections left ≠ [] := by
    rcases intact.names with names | names
    · exact names.1
    · exact names.1
  refine ⟨lost, shape, ?_, ?_⟩
  · rw [otherDirectives, otherDirectives, shape, List.filter_append,
      List.self_eq_append_right] at others
    intro entry member
    simpa using List.filter_eq_nil_iff.mp others entry member
  · obtain ⟨entry, member⟩ := List.exists_mem_of_ne_nil _ nonempty
    exact ⟨entry, (List.mem_filter.mp member).1,
      (List.mem_filter.mp member).2⟩

/-- A proper beginning of a directive selects nothing in an intact file: the
selectors of both slots are equally long. -/
theorem Intact.selects_part
    (intact : piBoot.Intact previous slot old left)
    (rewritten : Rewritten slot old new) {part entry : Content}
    (kept : part ∈ symbols.entries left)
    (member : entry ∈ symbols.entries new) (begins : part <+: entry)
    (proper : part ≠ entry) : piBoot.selects part = false := by
  apply Bool.eq_false_of_not_eq_true
  intro selects
  have selection : part ∈ piBoot.selections left :=
    List.mem_filter.mpr ⟨kept, selects⟩
  have longer : piBoot.selects entry = true :=
    List.isPrefixOf_iff_prefix.mpr
      ((List.isPrefixOf_iff_prefix.mp selects).trans begins)
  have whole := rewritten.eq_selector member longer
  have partLength : part.length = 12 := by
    rcases intact.names with names | names
    · rw [names.2 part selection, length_piBoot_selector]
    · rw [names.2 part selection, length_piBoot_selector]
  apply proper
  apply begins.eq_of_length
  rw [partLength, whole, length_piBoot_selector]

theorem mimics_of_intact (intact : piBoot.Intact previous slot old left)
    (rewritten : Rewritten slot old new) {whole later : List Content}
    {part entry : Content}
    (shape : symbols.entries new = whole ++ entry :: later)
    (found : symbols.entries left = whole ++ [part])
    (begins : part <+: entry) (proper : part ≠ entry) :
    Mimics slot new left := by
  have member : entry ∈ symbols.entries new := by
    rw [shape]
    exact List.mem_append_right whole List.mem_cons_self
  have kept : part ∈ symbols.entries left := by
    rw [found]
    exact List.mem_append_right whole List.mem_cons_self
  have plain := intact.selects_part rewritten kept member begins proper
  have others := (intact.directives rfl).trans rewritten.others.symm
  rw [otherDirectives, otherDirectives, shape, found, List.filter_append,
    List.filter_append, List.append_cancel_left_eq] at others
  have only : ((entry :: later).filter fun entry =>
      !piBoot.selects entry) = [part] := by
    rw [← others]
    simp [plain]
  have selects : piBoot.selects entry = true := by
    apply Bool.eq_true_of_not_eq_false
    intro stays
    rw [List.filter_cons_of_pos (by simp [stays])] at only
    exact proper (List.cons.inj only).1.symm
  have chosen : piBoot.selections left = whole.filter piBoot.selects := by
    rw [selections, found, List.filter_append]
    simp [plain]
  have nonempty : whole.filter piBoot.selects ≠ [] := by
    rw [← chosen]
    rcases intact.names with names | names
    · exact names.1
    · exact names.1
  obtain ⟨first, selection⟩ := List.exists_mem_of_ne_nil _ nonempty
  refine ⟨whole, part, entry :: later, shape, found, ?_, only, first,
    List.mem_filter.mp selection⟩
  rw [← rewritten.eq_selector member selects]
  exact begins

theorem piBoot_intact_iff (valid : piBoot.Names previous old)
    (flips : piBoot.flipped slot old = some new) (length : Nat) :
    piBoot.Intact previous slot old (new.written length) ↔
      piBoot.MayStop slot new length := by
  have rewritten := rewritten_of_flipped flips
  constructor
  · intro intact
    obtain ⟨config, text⟩ := rewritten.text
    obtain ⟨kept, lost, stray, shape, result⟩ := new.written_shape length
    rw [result] at intact
    have whole : stray = [] := stray_eq_nil intact text
    rw [whole, List.map_nil, List.append_nil] at intact result
    refine ⟨kept, lost, shape, ?_, ?_⟩
    · rw [← result, Content.bytes_written]
    · obtain ⟨before, rest, split, cut⟩ := symbols.entries_cut kept lost
      rw [← shape] at split
      rcases cut with same | ⟨part, entry, later, found, first, begins⟩
      · left
        rw [← same] at split
        exact losesSelections_of_intact intact rewritten split
      · rw [first] at split
        by_cases ends : part = entry
        · left
          apply losesSelections_of_intact intact rewritten
          rw [split, found, ends, List.append_assoc]
          rfl
        · right
          exact mimics_of_intact intact rewritten split found begins ends
  · rintro ⟨kept, lost, shape, cut, spared⟩
    rw [shape] at cut
    have left : new.written length = kept := by
      rw [shape]
      exact Content.written_append cut
    rw [left]
    rcases spared with loses | mimics
    · exact loses.intact valid flips
    · exact mimics.intact valid flips

end PiBoot

theorem names_of_flipped {bootloader : Bootloader} {previous slot : Slot}
    {old new : Content} (names : bootloader.Names previous old)
    (flips : bootloader.flipped slot old = some new) :
    bootloader.Names slot new := by
  cases bootloader with
  | sdBoot =>
      cases flips
      have valid : sdBoot.Valid slot (.ofText (SdBootBackend.confText slot)) :=
        rfl
      exact valid.names
  | piBoot => exact (rewritten_of_flipped flips).names names

theorem intact_of_flipped {bootloader : Bootloader} {previous slot : Slot}
    {old new : Content} (valid : bootloader.Valid previous old)
    (flips : bootloader.flipped slot old = some new) :
    bootloader.Intact previous slot old new := by
  refine ⟨.inr (names_of_flipped valid.names flips), ?_⟩
  intro pi
  subst pi
  exact (rewritten_of_flipped flips).others

theorem intact_written_iff {bootloader : Bootloader} {previous slot : Slot}
    {old new : Content} (valid : bootloader.Valid previous old)
    (flips : bootloader.flipped slot old = some new) (length : Nat) :
    bootloader.Intact previous slot old (new.written length) ↔
      bootloader.MayStop slot new length := by
  cases bootloader with
  | sdBoot =>
      cases flips
      exact sdBoot_intact_iff previous slot old length
  | piBoot => exact piBoot_intact_iff valid flips length

end Bootloader

theorem Bootloader.intact_left_iff {bootloader : Bootloader}
    {previous slot : Slot} {old : Content}
    (valid : bootloader.Valid previous old) (fates : List Fate) :
    bootloader.Intact previous slot old (bootloader.left slot old fates) ↔
      bootloader.Spared slot old fates := by
  cases flips : bootloader.flipped slot old with
  | none =>
      rw [left, flips]
      apply iff_of_true (valid.intact slot)
      intro length message new _ impossible
      rw [flips] at impossible
      cases impossible
  | some new =>
      have unlessCut : ∀ content,
          bootloader.left slot old fates = content →
          bootloader.Intact previous slot old content →
          (∀ length message, bootloader.writeFate fates ≠
            some (.cut length message)) →
          (bootloader.Intact previous slot old
              (bootloader.left slot old fates) ↔
            bootloader.Spared slot old fates) := by
        intro content same intact uncut
        rw [same]
        apply iff_of_true intact
        intro length message _ cut _
        exact absurd cut (uncut length message)
      cases reached : bootloader.writeFate fates with
      | none =>
          apply unlessCut old _ (valid.intact slot)
          · simp [reached]
          · exact left_of_writeFate reached slot old
      | some fate =>
          cases fate with
          | succeeds =>
              apply unlessCut new _ (intact_of_flipped valid flips)
              · simp [reached]
              · rw [left, flips, reached]
                rfl
          | fails message =>
              apply unlessCut old _ (valid.intact slot)
              · simp [reached]
              · rw [left, flips, reached]
                rfl
          | cut length message =>
              have cutFile : bootloader.left slot old fates =
                  new.written length := by
                rw [left, flips, reached]
                rfl
              rw [cutFile, intact_written_iff valid flips]
              constructor
              · intro mayStop others text found cut rewritten
                rw [reached] at cut
                rw [flips] at rewritten
                cases cut
                cases rewritten
                exact mayStop
              · intro spared
                exact spared length message new reached flips

/-- Wherever a flip fails or loses power, the pointer left on the ESP is
intact exactly when the write was spared: it was not begun, completed, or
stopped where it may. -/
theorem pointer_intact_iff_spared (backend : BootloaderBackend)
    {disk final : Disk} {old : Content} {previous slot : Slot}
    {fates : List Fate} {rest : Program fileSignature (Except String Unit)}
    (stored : disk.files.lookup (backend.bootloader.pointer backend.esp) =
      some old)
    (valid : backend.bootloader.Valid previous old)
    (cutOff : (fileMachine fun _ => false).exec (backend.setActive slot) disk
      fates = some (rest, final)) :
    ∃ left,
      final.files.lookup (backend.bootloader.pointer backend.esp) =
        some left ∧
      (backend.bootloader.Intact previous slot old left ↔
        backend.bootloader.Spared slot old fates) :=
  ⟨backend.bootloader.left slot old fates,
    lookup_of_exec_setActive backend stored cutOff,
    Bootloader.intact_left_iff valid fates⟩

/-- An ESP with only a pointer file, at slot A. -/
def pointerOnly (bootloader : Bootloader) (text : String) : Disk :=
  { files := Finmap.singleton (bootloader.pointer ["boot"]) (.ofText text)
    touched := [] }

/-- A flip of `config.txt` that loses only the newline at its end. -/
theorem pointer_intact_iff_spared_lastNewline :
    ∃ rest final,
      (fileMachine fun _ => false).exec
        (BootloaderBackend.setActive ⟨.piBoot, ["boot"], .a⟩ .b)
        (pointerOnly .piBoot "os_prefix=A/\ngpu_mem=16\n")
        [.succeeds, .succeeds, .cut 23 "No space left on device"] =
        some (rest, final) ∧
      final.files.lookup (Bootloader.piBoot.pointer ["boot"]) =
        some (.ofText "os_prefix=B/\ngpu_mem=16") ∧
      Bootloader.piBoot.Intact .a .b
        (.ofText "os_prefix=A/\ngpu_mem=16\n")
        (.ofText "os_prefix=B/\ngpu_mem=16") := by
  have computed :
      ((fileMachine fun _ => false).exec
        (BootloaderBackend.setActive ⟨.piBoot, ["boot"], .a⟩ .b)
        (pointerOnly .piBoot "os_prefix=A/\ngpu_mem=16\n")
        [.succeeds, .succeeds, .cut 23 "No space left on device"]).map
        Prod.snd =
      some ((pointerOnly .piBoot "os_prefix=A/\ngpu_mem=16\n").put
        (Bootloader.piBoot.pointer ["boot"])
        (.ofText "os_prefix=B/\ngpu_mem=16")) := by
    decide +kernel
  obtain ⟨⟨rest, final⟩, ran, same⟩ := Option.map_eq_some_iff.mp computed
  have valid : Bootloader.piBoot.Names .a
      (.ofText "os_prefix=A/\ngpu_mem=16\n") := by
    decide +kernel
  obtain ⟨left, found, intact⟩ := pointer_intact_iff_spared
    ⟨.piBoot, ["boot"], .a⟩ Finmap.lookup_singleton_eq valid ran
  have cut : left = .ofText "os_prefix=B/\ngpu_mem=16" := by
    rw [show final = _ from same, Disk.lookup_put, if_pos rfl] at found
    exact (Option.some.inj found).symm
  subst cut
  refine ⟨rest, final, ran, found, intact.mpr ?_⟩
  intro length message new reached flips
  have newText : Bootloader.piBoot.flipped .b
      (.ofText "os_prefix=A/\ngpu_mem=16\n") =
      some (.ofText "os_prefix=B/\ngpu_mem=16\n") := by
    decide +kernel
  cases reached
  rw [newText] at flips
  cases flips
  refine ⟨.ofText "os_prefix=B/\ngpu_mem=16", [.char '\n'],
    by decide +kernel, by decide +kernel, .inl ⟨[], ?_, ?_, ?_⟩⟩
  · decide +kernel
  · intro entry impossible
    cases impossible
  · decide +kernel

/-- A flip whose write fails or loses power right after emptying the file
leaves a pointer that names no slot, with either bootloader. -/
theorem pointer_not_intact_emptied :
    (∃ rest final,
      (fileMachine fun _ => false).exec
        (BootloaderBackend.setActive ⟨.sdBoot, ["boot"], .a⟩ .b)
        (pointerOnly .sdBoot "default a\ntimeout 0\n")
        [.succeeds, .cut 0 "No space left on device"] = some (rest, final) ∧
      final.files.lookup (Bootloader.sdBoot.pointer ["boot"]) = some [] ∧
      ¬ Bootloader.sdBoot.Intact .a .b
        (.ofText "default a\ntimeout 0\n") []) ∧
    (∃ rest final,
      (fileMachine fun _ => false).exec
        (BootloaderBackend.setActive ⟨.piBoot, ["boot"], .a⟩ .b)
        (pointerOnly .piBoot "os_prefix=A/\ngpu_mem=16\n")
        [.succeeds, .succeeds, .cut 0 "No space left on device"] =
        some (rest, final) ∧
      final.files.lookup (Bootloader.piBoot.pointer ["boot"]) = some [] ∧
      ¬ Bootloader.piBoot.Intact .a .b
        (.ofText "os_prefix=A/\ngpu_mem=16\n") []) := by
  have nameless : ∀ bootloader : Bootloader, ∀ old,
      ¬ bootloader.Intact .a .b old [] := by
    intro bootloader old intact
    have nothing : bootloader.selections [] = [] := by
      rw [Bootloader.selections, symbols.entries_nil]
      rfl
    rcases intact.names with names | names
    · exact names.1 nothing
    · exact names.1 nothing
  constructor
  · exact ⟨_, _, rfl, Finmap.lookup_insert _, nameless .sdBoot _⟩
  · have computed :
        ((fileMachine fun _ => false).exec
          (BootloaderBackend.setActive ⟨.piBoot, ["boot"], .a⟩ .b)
          (pointerOnly .piBoot "os_prefix=A/\ngpu_mem=16\n")
          [.succeeds, .succeeds, .cut 0 "No space left on device"]).map
          Prod.snd =
        some ((pointerOnly .piBoot "os_prefix=A/\ngpu_mem=16\n").put
          (Bootloader.piBoot.pointer ["boot"]) []) := by
      decide +kernel
    obtain ⟨⟨rest, final⟩, ran, same⟩ := Option.map_eq_some_iff.mp computed
    refine ⟨rest, final, ran, ?_, nameless .piBoot _⟩
    rw [show final = _ from same]
    exact Finmap.lookup_insert _

end MachinedRs
