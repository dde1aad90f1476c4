import Mathlib.Data.List.DropRight

/-!
# Lines, entries and words of a text

Texts are lists over any alphabet with a newline, a carriage return and blank
symbols.  The lines of a text are its pieces between newlines; its entries are
the lines that are not blank, without the blanks around them; its words are the
pieces between blanks.
-/

namespace Foundation

/-- The symbols that lay out a text. -/
structure Alphabet (α : Type) where
  newline : α
  carriage : α
  blank : α → Bool
  newline_blank : blank newline = true
  carriage_blank : blank carriage = true

namespace Alphabet

section Trimming

variable {α : Type} (alphabet : Alphabet α)

def trimStart (text : List α) : List α :=
  text.dropWhile alphabet.blank

def trimEnd (text : List α) : List α :=
  text.rdropWhile alphabet.blank

def trim (text : List α) : List α :=
  alphabet.trimEnd (alphabet.trimStart text)

theorem trim_concat {symbol : α} (blank : alphabet.blank symbol = true)
    (text : List α) :
    alphabet.trim (text ++ [symbol]) = alphabet.trim text := by
  rw [trim, trim, trimStart, trimStart, List.dropWhile_append]
  split
  case isTrue dropped =>
    rw [List.isEmpty_iff.mp dropped]
    simp [blank]
  case isFalse =>
    exact List.rdropWhile_concat_pos _ _ _ blank

/-- Nothing is trimmed between symbols that are not blank. -/
theorem trim_solid {first last : α} (middle : List α)
    (firstSolid : alphabet.blank first = false)
    (lastSolid : alphabet.blank last = false) :
    alphabet.trim (first :: (middle ++ [last])) =
      first :: (middle ++ [last]) := by
  have start : alphabet.trimStart (first :: (middle ++ [last])) =
      first :: (middle ++ [last]) :=
    List.dropWhile_cons_of_neg (by simp [firstSolid])
  rw [trim, start, ← List.cons_append]
  exact List.rdropWhile_concat_neg _ _ _ (by simp [lastSolid])

/-- A word at the start of a line survives the trimming of its end. -/
theorem isPrefix_trim_iff {key : List α} (nonempty : key ≠ [])
    (solid : alphabet.blank (key.getLast nonempty) = false) (line : List α) :
    key <+: alphabet.trim line ↔ key <+: alphabet.trimStart line := by
  constructor
  · intro starts
    exact starts.trans (List.rdropWhile_prefix _ _)
  · rintro ⟨rest, equality⟩
    rw [trim, ← equality]
    clear equality
    induction rest using List.reverseRecOn with
    | nil =>
        have kept : alphabet.trimEnd key = key := by
          apply List.rdropWhile_eq_self_iff.mpr
          intro _
          simp [solid]
        exact ⟨[], by rw [List.append_nil, kept]⟩
    | append_singleton rest symbol induction =>
        rw [← List.append_assoc, trimEnd]
        by_cases blank : alphabet.blank symbol = true
        · rw [List.rdropWhile_concat_pos _ _ _ blank]
          exact induction
        · rw [List.rdropWhile_concat_neg _ _ _ blank, List.append_assoc]
          exact List.prefix_append key _

theorem trimEnd_isPrefix_append (first rest : List α) :
    alphabet.trimEnd first <+: alphabet.trimEnd (first ++ rest) := by
  induction rest using List.reverseRecOn with
  | nil => exact ⟨[], by rw [List.append_nil, List.append_nil]⟩
  | append_singleton rest symbol induction =>
      rw [← List.append_assoc]
      by_cases blank : alphabet.blank symbol = true
      · have trimmed : alphabet.trimEnd (first ++ rest ++ [symbol]) =
            alphabet.trimEnd (first ++ rest) :=
          List.rdropWhile_concat_pos _ _ _ blank
        rw [trimmed]
        exact induction
      · have whole : alphabet.trimEnd (first ++ rest ++ [symbol]) =
            first ++ (rest ++ [symbol]) :=
          (List.rdropWhile_concat_neg _ _ _ blank).trans
            (List.append_assoc first rest [symbol])
        rw [whole]
        exact (List.rdropWhile_prefix _ _).trans (List.prefix_append first _)

/-- What is left of a line by a cut trims to a beginning of it. -/
theorem trim_isPrefix_append (first rest : List α) :
    alphabet.trim first <+: alphabet.trim (first ++ rest) := by
  rw [trim, trim, trimStart, trimStart, List.dropWhile_append]
  split
  case isTrue dropped =>
    rw [List.isEmpty_iff.mp dropped]
    exact List.nil_prefix
  case isFalse =>
    exact alphabet.trimEnd_isPrefix_append _ rest

/-- The symbols of a text that are not blank. -/
def solid (text : List α) : List α :=
  text.filter fun symbol => !alphabet.blank symbol

theorem solid_append (first text : List α) :
    alphabet.solid (first ++ text) =
      alphabet.solid first ++ alphabet.solid text :=
  List.filter_append first text

theorem solid_trimStart (text : List α) :
    alphabet.solid (alphabet.trimStart text) = alphabet.solid text := by
  induction text with
  | nil => rfl
  | cons symbol text induction =>
      by_cases blank : alphabet.blank symbol = true
      · have skipped : alphabet.solid (symbol :: text) =
            alphabet.solid text := by
          apply List.filter_cons_of_neg
          simp [blank]
        rw [trimStart, List.dropWhile_cons_of_pos blank, skipped]
        exact induction
      · rw [trimStart, List.dropWhile_cons_of_neg blank]

theorem solid_trimEnd (text : List α) :
    alphabet.solid (alphabet.trimEnd text) = alphabet.solid text := by
  have reversed := alphabet.solid_trimStart text.reverse
  rw [solid, solid, List.filter_reverse] at reversed
  rw [solid, trimEnd, List.rdropWhile, List.filter_reverse]
  exact List.reverse_eq_iff.mpr reversed

def words (text : List α) : List (List α) :=
  (text.splitOnP alphabet.blank).filter (· ≠ [])

/-- A blank separates words. -/
theorem words_append {symbol : α} (blank : alphabet.blank symbol = true)
    (first text : List α) :
    alphabet.words (first ++ symbol :: text) =
      alphabet.words first ++ alphabet.words text := by
  rw [words, List.splitOnP_append_cons first text blank, List.filter_append]
  rfl

/-- A piece without blanks is one word. -/
theorem words_piece {word : List α} (nonempty : word ≠ [])
    (unblanked : ∀ symbol ∈ word, alphabet.blank symbol = false) :
    alphabet.words word = [word] := by
  rw [words, List.splitOnP_eq_singleton unblanked]
  simp [nonempty]

/-- The first word of a text ends at the first blank. -/
theorem words_cons {word : List α} (nonempty : word ≠ [])
    (unblanked : ∀ symbol ∈ word, alphabet.blank symbol = false)
    {symbol : α} (blank : alphabet.blank symbol = true) (text : List α) :
    alphabet.words (word ++ symbol :: text) = word :: alphabet.words text := by
  rw [alphabet.words_append blank, alphabet.words_piece nonempty unblanked]
  rfl

theorem solid_of_mem_splitOnP {text piece : List α}
    (member : piece ∈ text.splitOnP alphabet.blank) :
    ∀ symbol ∈ piece, alphabet.blank symbol = false := by
  induction text generalizing piece with
  | nil =>
      rw [List.splitOnP_nil, List.mem_singleton] at member
      simp [member]
  | cons first text induction =>
      rw [List.splitOnP_cons_eq_if_modifyHead] at member
      split at member
      · rcases List.mem_cons.mp member with rfl | later
        · simp
        · exact induction later
      case isFalse firstSolid =>
        cases pieces : text.splitOnP alphabet.blank with
        | nil =>
            rw [pieces] at member
            cases member
        | cons head rest =>
            rw [pieces] at member induction
            rcases List.mem_cons.mp member with rfl | later
            · have inside := induction List.mem_cons_self
              simpa [firstSolid] using inside
            · exact induction (List.mem_cons_of_mem head later)

theorem solid_of_mem_words {text word : List α}
    (member : word ∈ alphabet.words text) :
    ∀ symbol ∈ word, alphabet.blank symbol = false :=
  alphabet.solid_of_mem_splitOnP (List.mem_of_mem_filter member)

/-- A text without blanks is its own trimming. -/
theorem trim_eq_self {text : List α}
    (unblanked : ∀ symbol ∈ text, alphabet.blank symbol = false) :
    alphabet.trim text = text := by
  have start : alphabet.trimStart text = text := by
    cases text with
    | nil => rfl
    | cons first text =>
        have firstSolid := unblanked first List.mem_cons_self
        exact List.dropWhile_cons_of_neg (by simp [firstSolid])
  rw [trim, start, trimEnd]
  apply List.rdropWhile_eq_self_iff.mpr
  intro nonempty
  simp [unblanked _ (List.getLast_mem nonempty)]

end Trimming

section Lines

variable {α : Type} [DecidableEq α] (alphabet : Alphabet α)

/-- A line may end in a carriage return before its newline. -/
def stripCarriage (line : List α) : List α :=
  if line.getLast? = some alphabet.carriage then line.dropLast else line

/-- The lines of a text.  The piece after the last newline is a line only if
it is not empty, and it keeps a carriage return. -/
def lines (text : List α) : List (List α) :=
  (text.splitOn alphabet.newline).dropLast.map alphabet.stripCarriage ++
    (text.splitOn alphabet.newline).getLast?.toList.filter (· ≠ [])

def unlines (lines : List (List α)) : List α :=
  lines.flatMap fun line => line ++ [alphabet.newline]

def entries (text : List α) : List (List α) :=
  ((text.splitOn alphabet.newline).map alphabet.trim).filter (· ≠ [])

/-- A text is a single piece, or a line followed by a text. -/
theorem lines_induction {motive : List α → Prop}
    (piece : ∀ line, alphabet.newline ∉ line → motive line)
    (more : ∀ line text, alphabet.newline ∉ line → motive line →
      motive text → motive (line ++ alphabet.newline :: text))
    (text : List α) : motive text := by
  by_cases member : alphabet.newline ∈ text
  · obtain ⟨line, rest, equality, fresh⟩ :=
      List.eq_append_cons_of_mem member
    have shorter : rest.length < text.length := by
      rw [equality, List.length_append, List.length_cons]
      omega
    rw [equality]
    exact more line rest fresh (piece line fresh)
      (lines_induction piece more rest)
  · exact piece text member
termination_by text.length

variable {line text : List α}

theorem splitOn_piece (fresh : alphabet.newline ∉ line) :
    line.splitOn alphabet.newline = [line] := by
  apply List.splitOnP_eq_singleton
  intro symbol member
  simp only [beq_eq_false_iff_ne]
  rintro rfl
  exact fresh member

theorem splitOn_append (first text : List α) :
    (first ++ alphabet.newline :: text).splitOn alphabet.newline =
      first.splitOn alphabet.newline ++ text.splitOn alphabet.newline :=
  List.splitOnP_append_cons first text (by simp)

theorem lines_piece (fresh : alphabet.newline ∉ line) :
    alphabet.lines line = [line].filter (· ≠ []) := by
  simp [lines, alphabet.splitOn_piece fresh]

theorem lines_append (fresh : alphabet.newline ∉ line) :
    alphabet.lines (line ++ alphabet.newline :: text) =
      alphabet.stripCarriage line :: alphabet.lines text := by
  have pieces := List.splitOnP_ne_nil (· == alphabet.newline) text
  have split : text.splitOn alphabet.newline ≠ [] := pieces
  rw [lines, alphabet.splitOn_append, alphabet.splitOn_piece fresh,
    List.singleton_append, List.dropLast_cons_of_ne_nil split,
    List.getLast?_cons_of_ne_nil split, List.map_cons, List.cons_append]
  rfl

theorem notMem_of_mem_lines {text line : List α}
    (member : line ∈ alphabet.lines text) : alphabet.newline ∉ line := by
  induction text using alphabet.lines_induction with
  | piece whole fresh =>
      rw [alphabet.lines_piece fresh] at member
      rw [List.mem_singleton.mp (List.mem_of_mem_filter member)]
      exact fresh
  | more first text fresh _ induction =>
      rw [alphabet.lines_append fresh] at member
      rcases List.mem_cons.mp member with rfl | later
      · intro inside
        apply fresh
        unfold stripCarriage at inside
        split at inside
        · exact List.dropLast_subset _ inside
        · exact inside
      · exact induction later

/-- Lines that are written out are read back, unless a carriage return at the
end of one is taken for a part of the line break. -/
theorem lines_unlines {lines : List (List α)}
    (plain : ∀ line ∈ lines, alphabet.newline ∉ line ∧
      line.getLast? ≠ some alphabet.carriage) :
    alphabet.lines (alphabet.unlines lines) = lines := by
  induction lines with
  | nil => simp [unlines, alphabet.lines_piece List.not_mem_nil]
  | cons line lines induction =>
      obtain ⟨fresh, uncarried⟩ := plain line List.mem_cons_self
      have shape : alphabet.unlines (line :: lines) =
          line ++ alphabet.newline :: alphabet.unlines lines := by
        simp [unlines]
      have rest := induction fun other member =>
        plain other (List.mem_cons_of_mem line member)
      rw [shape, alphabet.lines_append fresh, rest, stripCarriage,
        if_neg uncarried]

/-- Words that are written out one in a line are read back. -/
theorem trimmed_lines_unlines {words : List (List α)}
    (nonempty : ∀ word ∈ words, word ≠ [])
    (unblanked : ∀ word ∈ words, ∀ symbol ∈ word,
      alphabet.blank symbol = false) :
    ((alphabet.lines (alphabet.unlines words)).map alphabet.trim).filter
      (· ≠ []) = words := by
  have plain : ∀ word ∈ words, alphabet.newline ∉ word ∧
      word.getLast? ≠ some alphabet.carriage := by
    intro word member
    constructor
    · intro inside
      have blank := alphabet.newline_blank
      rw [unblanked word member _ inside] at blank
      cases blank
    · intro ends
      have blank := alphabet.carriage_blank
      rw [unblanked word member _ (List.mem_of_getLast? ends)] at blank
      cases blank
  have trimmed : words.map alphabet.trim = words := by
    rw [List.map_congr_left fun word member =>
      alphabet.trim_eq_self (unblanked word member), List.map_id']
  rw [alphabet.lines_unlines plain, trimmed]
  apply List.filter_eq_self.mpr
  intro word member
  simp [nonempty word member]

theorem entries_piece (fresh : alphabet.newline ∉ line) :
    alphabet.entries line = [alphabet.trim line].filter (· ≠ []) := by
  rw [entries, alphabet.splitOn_piece fresh, List.map_singleton]

theorem entries_append (first text : List α) :
    alphabet.entries (first ++ alphabet.newline :: text) =
      alphabet.entries first ++ alphabet.entries text := by
  rw [entries, alphabet.splitOn_append, List.map_append, List.filter_append]
  rfl

@[simp] theorem entries_nil : alphabet.entries [] = [] := by
  rw [alphabet.entries_piece List.not_mem_nil]
  rfl

theorem entries_unlines (lines : List (List α)) :
    alphabet.entries (alphabet.unlines lines) =
      lines.flatMap alphabet.entries := by
  induction lines with
  | nil => exact alphabet.entries_nil
  | cons line lines induction =>
      have shape : alphabet.unlines (line :: lines) =
          line ++ alphabet.newline :: alphabet.unlines lines := by
        simp [unlines]
      rw [shape, alphabet.entries_append, induction, List.flatMap_cons]

theorem trim_stripCarriage (line : List α) :
    alphabet.trim (alphabet.stripCarriage line) = alphabet.trim line := by
  unfold stripCarriage
  split
  case isTrue ends =>
    have shape := List.dropLast_append_getLast? _ ends
    have trimmed := alphabet.trim_concat alphabet.carriage_blank line.dropLast
    rw [shape] at trimmed
    exact trimmed.symm
  case isFalse => rfl

/-- The entries of a text are those of its lines. -/
theorem entries_eq_flatMap_lines (text : List α) :
    alphabet.entries text =
      (alphabet.lines text).flatMap alphabet.entries := by
  induction text using alphabet.lines_induction with
  | piece line fresh =>
      rw [alphabet.lines_piece fresh]
      cases line with
      | nil => simp
      | cons symbol line => simp
  | more line text fresh _ induction =>
      have member : alphabet.stripCarriage line ∈
          alphabet.lines (line ++ alphabet.newline :: text) := by
        rw [alphabet.lines_append fresh]
        exact List.mem_cons_self
      have stripped := alphabet.notMem_of_mem_lines member
      rw [alphabet.entries_append, alphabet.lines_append fresh,
        List.flatMap_cons, ← induction, alphabet.entries_piece fresh,
        alphabet.entries_piece stripped, alphabet.trim_stripCarriage]

/-- The first entry of a text goes up to the first newline. -/
theorem exists_entries_append {line : List α}
    (fresh : alphabet.newline ∉ line) (text : List α) :
    ∃ first later, alphabet.entries (line ++ text) =
      [alphabet.trim (line ++ first)].filter (· ≠ []) ++ later := by
  by_cases member : alphabet.newline ∈ text
  · obtain ⟨first, rest, equality, before⟩ :=
      List.eq_append_cons_of_mem member
    have joined : alphabet.newline ∉ line ++ first := by
      simp [fresh, before]
    refine ⟨first, alphabet.entries rest, ?_⟩
    rw [equality, ← List.append_assoc, alphabet.entries_append,
      alphabet.entries_piece joined]
  · have joined : alphabet.newline ∉ line ++ text := by
      simp [fresh, member]
    refine ⟨text, [], ?_⟩
    rw [alphabet.entries_piece joined, List.append_nil]

/-- A cut leaves the entries before it, and perhaps the beginning of one
more. -/
theorem entries_cut (kept lost : List α) :
    ∃ whole rest, alphabet.entries (kept ++ lost) = whole ++ rest ∧
      (alphabet.entries kept = whole ∨
        ∃ part entry later, alphabet.entries kept = whole ++ [part] ∧
          rest = entry :: later ∧ part <+: entry) := by
  induction kept using alphabet.lines_induction with
  | piece line fresh =>
      obtain ⟨first, later, split⟩ :=
        alphabet.exists_entries_append fresh lost
      have begins := alphabet.trim_isPrefix_append line first
      refine ⟨[], alphabet.entries (line ++ lost), rfl, ?_⟩
      rw [alphabet.entries_piece fresh]
      by_cases empty : alphabet.trim line = []
      · left
        simp [empty]
      · right
        have nonempty : alphabet.trim (line ++ first) ≠ [] := by
          intro none
          rw [none] at begins
          exact empty (List.prefix_nil.mp begins)
        refine ⟨alphabet.trim line, alphabet.trim (line ++ first), later,
          ?_, ?_, begins⟩
        · simp [empty]
        · rw [split]
          simp [nonempty]
  | more line text fresh _ induction =>
      obtain ⟨whole, rest, split, cut⟩ := induction
      refine ⟨alphabet.entries line ++ whole, rest, ?_, ?_⟩
      · rw [List.append_assoc, List.cons_append, alphabet.entries_append,
          split, List.append_assoc]
      · rw [alphabet.entries_append]
        rcases cut with same | ⟨part, entry, later, found, shape, begins⟩
        · left
          rw [same]
        · right
          refine ⟨part, entry, later, ?_, shape, begins⟩
          rw [found, List.append_assoc]

/-- Trimming and dropping blank lines loses blanks only. -/
theorem solid_flatten_entries (text : List α) :
    alphabet.solid (alphabet.entries text).flatten = alphabet.solid text := by
  induction text using alphabet.lines_induction with
  | piece line fresh =>
      have trimmed : alphabet.solid (alphabet.trim line) =
          alphabet.solid line := by
        rw [trim, solid_trimEnd, solid_trimStart]
      rw [alphabet.entries_piece fresh]
      by_cases empty : alphabet.trim line = []
      · simp [empty, ← trimmed]
      · simp [empty, trimmed]
  | more line text fresh head tail =>
      have blank : alphabet.solid (alphabet.newline :: text) =
          alphabet.solid text := by
        apply List.filter_cons_of_neg
        simp [alphabet.newline_blank]
      rw [alphabet.entries_append, List.flatten_append, solid_append, head,
        tail, solid_append, blank]

end Lines

section Embedding

variable {α β : Type} {alphabet : Alphabet α} {other : Alphabet β}
  {embed : α → β}

/-- An embedding of one alphabet into another keeps the layout. -/
structure Embeds (alphabet : Alphabet α) (other : Alphabet β)
    (embed : α → β) : Prop where
  injective : Function.Injective embed
  newline : embed alphabet.newline = other.newline
  blank : ∀ symbol, other.blank (embed symbol) = alphabet.blank symbol

theorem Embeds.trim_map (embeds : alphabet.Embeds other embed)
    (text : List α) :
    other.trim (text.map embed) = (alphabet.trim text).map embed := by
  have same : other.blank ∘ embed = alphabet.blank := by
    funext symbol
    exact embeds.blank symbol
  rw [trim, trim, trimStart, trimStart, List.dropWhile_map, same, trimEnd,
    trimEnd, List.rdropWhile, List.rdropWhile, ← List.map_reverse,
    List.dropWhile_map, same, List.map_reverse]

theorem Embeds.entries_map [DecidableEq α] [DecidableEq β]
    (embeds : alphabet.Embeds other embed)
    (text : List α) :
    other.entries (text.map embed) =
      (alphabet.entries text).map fun entry => entry.map embed := by
  induction text using alphabet.lines_induction with
  | piece line fresh =>
      have image : other.newline ∉ line.map embed := by
        rw [← embeds.newline, List.mem_map_of_injective embeds.injective]
        exact fresh
      rw [other.entries_piece image, alphabet.entries_piece fresh,
        embeds.trim_map]
      by_cases empty : alphabet.trim line = []
      · simp [empty]
      · simp [empty]
  | more line text fresh head tail =>
      rw [List.map_append, List.map_cons, embeds.newline,
        other.entries_append, head, tail, alphabet.entries_append,
        List.map_append]

end Embedding

end Alphabet

/-- The characters with the Unicode property `White_Space`. -/
def isWhitespace (character : Char) : Bool :=
  let code := character.toNat
  (0x9 ≤ code && code ≤ 0xD) || code == 0x20 || code == 0x85 ||
    code == 0xA0 || code == 0x1680 || (0x2000 ≤ code && code ≤ 0x200A) ||
    code == 0x2028 || code == 0x2029 || code == 0x202F || code == 0x205F ||
    code == 0x3000

def unicode : Alphabet Char :=
  { newline := '\n'
    carriage := '\r'
    blank := isWhitespace
    newline_blank := rfl
    carriage_blank := rfl }

end Foundation
