import Mathlib.Data.Finmap
import MachinedRs.Foundation.Machine
import MachinedRs.Foundation.Text

/-!
# Files whose writes can be cut off

A write first empties the file and then appends its bytes; it may fail or lose
power after any number of them.  Paths the machine is told to treat as whole
are the exception: a write to them happens or does not.
-/

namespace Foundation

/-- A unit of a file: a whole character, or a byte that belongs to none. -/
inductive Symbol where
  | char (character : Char)
  | byte (value : UInt8)
deriving DecidableEq, Repr

def Symbol.bytes : Symbol → List UInt8
  | .char character => String.utf8EncodeChar character
  | .byte value => [value]

theorem Symbol.length_bytes_pos (symbol : Symbol) :
    0 < symbol.bytes.length := by
  cases symbol with
  | char character =>
      rw [bytes, String.length_utf8EncodeChar]
      exact character.utf8Size_pos
  | byte value => exact Nat.one_pos

def Symbol.blank : Symbol → Bool
  | .char character => isWhitespace character
  | .byte _ => false

def Symbol.toChar? : Symbol → Option Char
  | .char character => some character
  | .byte _ => none

def symbols : Alphabet Symbol :=
  { newline := .char '\n'
    carriage := .char '\r'
    blank := Symbol.blank
    newline_blank := rfl
    carriage_blank := rfl }

theorem unicode_embeds : unicode.Embeds symbols Symbol.char := by
  constructor
  · intro first second equality
    cases equality
    rfl
  · rfl
  · intro character
    rfl

abbrev Content := List Symbol

namespace Content

def ofText (text : String) : Content :=
  text.toList.map .char

/-- The text of a file without stray bytes. -/
def text? (content : Content) : Option String :=
  (content.mapM Symbol.toChar?).map String.ofList

def bytes (content : Content) : List UInt8 :=
  content.flatMap Symbol.bytes

/-- What is in the file once this many bytes of the content are. -/
def written : Content → Nat → Content
  | [], _ => []
  | symbol :: content, length =>
      if symbol.bytes.length ≤ length then
        symbol :: written content (length - symbol.bytes.length)
      else
        (symbol.bytes.take length).map .byte

theorem bytes_map_byte (values : List UInt8) :
    bytes (values.map .byte) = values := by
  induction values with
  | nil => rfl
  | cons value values induction =>
      rw [List.map_cons, bytes, List.flatMap_cons]
      exact congrArg (value :: ·) induction

theorem bytes_written (content : Content) (length : Nat) :
    (content.written length).bytes = content.bytes.take length := by
  induction content generalizing length with
  | nil => rw [written, bytes, List.flatMap_nil, List.take_nil]
  | cons symbol content induction =>
      have split : bytes (symbol :: content) =
          symbol.bytes ++ bytes content :=
        List.flatMap_cons
      rw [written, split, List.take_append]
      split
      case isTrue fits =>
        have step : bytes (symbol ::
            written content (length - symbol.bytes.length)) =
            symbol.bytes ++
              bytes (written content (length - symbol.bytes.length)) :=
          List.flatMap_cons
        rw [step, induction, List.take_of_length_le fits]
      case isFalse exceeds =>
        have nothing : length - symbol.bytes.length = 0 := by omega
        rw [bytes_map_byte, nothing, List.take_zero, List.append_nil]

/-- A cut keeps whole symbols and perhaps some bytes of the next one. -/
theorem written_shape (content : Content) (length : Nat) :
    ∃ kept lost stray, content = kept ++ lost ∧
      content.written length = kept ++ List.map .byte stray := by
  induction content generalizing length with
  | nil => exact ⟨[], [], [], rfl, rfl⟩
  | cons symbol content induction =>
      rw [written]
      split
      case isTrue fits =>
        obtain ⟨kept, lost, stray, shape, result⟩ :=
          induction (length - symbol.bytes.length)
        refine ⟨symbol :: kept, lost, stray, ?_, ?_⟩
        · rw [shape]
          rfl
        · rw [result]
          rfl
      case isFalse exceeds =>
        exact ⟨[], symbol :: content, symbol.bytes.take length, rfl, rfl⟩

/-- A cut between two symbols keeps those before it. -/
theorem written_append {kept lost : Content} {length : Nat}
    (cut : bytes kept = (bytes (kept ++ lost)).take length) :
    written (kept ++ lost) length = kept := by
  induction kept generalizing length with
  | nil =>
      cases lost with
      | nil => rfl
      | cons symbol lost =>
          have positive := symbol.length_bytes_pos
          have counted := congrArg List.length cut
          have total : (bytes (symbol :: lost)).length =
              symbol.bytes.length + (bytes lost).length := by
            rw [bytes, List.flatMap_cons, List.length_append]
            rfl
          rw [List.nil_append, List.length_take, total] at counted
          have nothing : length = 0 := by
            have empty : (bytes []).length = 0 := rfl
            omega
          rw [List.nil_append, written, if_neg (by omega), nothing]
          rfl
  | cons symbol kept induction =>
      have left : bytes (symbol :: kept) = symbol.bytes ++ bytes kept :=
        List.flatMap_cons
      have right : bytes (symbol :: kept ++ lost) =
          symbol.bytes ++ bytes (kept ++ lost) :=
        List.flatMap_cons
      rw [left, right, List.take_append] at cut
      have fits : symbol.bytes.length ≤ length := by
        have counted := congrArg List.length cut
        simp only [List.length_append, List.length_take] at counted
        omega
      rw [List.take_of_length_le fits, List.append_cancel_left_eq] at cut
      rw [List.cons_append, written, if_pos fits, induction cut]

/-- Symbols of one byte are written or not. -/
theorem written_eq_take {content : Content}
    (single : ∀ symbol ∈ content, symbol.bytes.length = 1) (length : Nat) :
    content.written length = content.take length := by
  induction content generalizing length with
  | nil => rw [written, List.take_nil]
  | cons symbol content induction =>
      have one := single symbol List.mem_cons_self
      have rest := induction fun other member =>
        single other (List.mem_cons_of_mem symbol member)
      rw [written, one]
      cases length with
      | zero => rfl
      | succ length =>
          rw [if_pos (Nat.succ_le_succ (Nat.zero_le length)), rest]
          rfl

@[simp] theorem text?_ofText (text : String) :
    text? (ofText text) = some text := by
  have decoded : ∀ characters : List Char,
      (characters.map Symbol.char).mapM Symbol.toChar? =
        some characters := by
    intro characters
    induction characters with
    | nil => rfl
    | cons character characters induction =>
        rw [List.map_cons, List.mapM_cons, induction]
        rfl
  rw [text?, ofText, decoded, Option.map_some, String.ofList_toList]

theorem ofText_of_text? {content : Content} {text : String}
    (decoded : content.text? = some text) : content = ofText text := by
  obtain ⟨characters, read, equality⟩ := Option.map_eq_some_iff.mp decoded
  rw [← equality, ofText, String.toList_ofList]
  clear equality decoded
  induction content generalizing characters with
  | nil =>
      cases read
      rfl
  | cons symbol content induction =>
      rw [List.mapM_cons] at read
      obtain ⟨character, first, continued⟩ := Option.bind_eq_some_iff.mp read
      obtain ⟨others, rest, equality⟩ := Option.bind_eq_some_iff.mp continued
      cases equality
      rw [List.map_cons, ← induction others rest]
      cases symbol with
      | char found =>
          cases first
          rfl
      | byte value => cases first

end Content

/-- An absolute path, by its components. -/
abbrev Path := List String

def Path.display (path : Path) : String :=
  String.join (path.map fun component => "/" ++ component)

abbrev Files := Finmap fun _ : Path => Content

/-- The files, and the paths that were written to. -/
structure Disk where
  files : Files
  touched : List Path
deriving DecidableEq

def Disk.put (disk : Disk) (path : Path) (content : Content) : Disk :=
  { files := disk.files.insert path content
    touched := path :: disk.touched }

def Disk.touch (disk : Disk) (path : Path) : Disk :=
  { disk with touched := path :: disk.touched }

def Disk.move (disk : Disk) (source target : Path) (content : Content) :
    Disk :=
  { files := (disk.files.erase source).insert target content
    touched := source :: target :: disk.touched }

@[simp] theorem Disk.lookup_put (disk : Disk) (path other : Path)
    (content : Content) :
    (disk.put path content).files.lookup other =
      if other = path then some content else disk.files.lookup other := by
  by_cases same : other = path
  · rw [if_pos same, same]
    exact Finmap.lookup_insert _
  · rw [if_neg same]
    exact Finmap.lookup_insert_of_ne _ same

@[simp] theorem Disk.lookup_touch (disk : Disk) (path other : Path) :
    (disk.touch path).files.lookup other = disk.files.lookup other :=
  rfl

@[simp] theorem Disk.lookup_move (disk : Disk) (source target other : Path)
    (content : Content) :
    (disk.move source target content).files.lookup other =
      if other = target then some content
      else if other = source then none
      else disk.files.lookup other := by
  by_cases arrived : other = target
  · rw [if_pos arrived, arrived]
    exact Finmap.lookup_insert _
  · rw [if_neg arrived]
    by_cases left : other = source
    · rw [if_pos left, left]
      rw [left] at arrived
      exact (Finmap.lookup_insert_of_ne _ arrived).trans
        (Finmap.lookup_erase _ _)
    · rw [if_neg left]
      exact (Finmap.lookup_insert_of_ne _ arrived).trans
        (Finmap.lookup_erase_ne left)

/-- Whatever was written since lies in the region. -/
structure Disk.Confined (region : Path → Prop) (before after : Disk) :
    Prop where
  lookup : ∀ path, ¬ region path →
    after.files.lookup path = before.files.lookup path
  touched : ∀ path ∈ after.touched, path ∈ before.touched ∨ region path

namespace Disk.Confined

variable {region : Path → Prop} {before after : Disk} {path : Path}

theorem refl (region : Path → Prop) (disk : Disk) :
    Disk.Confined region disk disk := by
  constructor
  · intro path outside
    rfl
  · intro path member
    exact .inl member

theorem touch (confined : Disk.Confined region before after)
    (inside : region path) :
    Disk.Confined region before (after.touch path) := by
  constructor
  · exact confined.lookup
  · intro other member
    rcases List.mem_cons.mp member with rfl | earlier
    · exact .inr inside
    · exact confined.touched other earlier

theorem put (confined : Disk.Confined region before after)
    (inside : region path) (content : Content) :
    Disk.Confined region before (after.put path content) := by
  constructor
  · intro other outside
    have differs : other ≠ path := by
      intro same
      rw [same] at outside
      exact outside inside
    rw [Disk.lookup_put, if_neg differs]
    exact confined.lookup other outside
  · intro other member
    rcases List.mem_cons.mp member with rfl | earlier
    · exact .inr inside
    · exact confined.touched other earlier

end Disk.Confined

inductive FileOp where
  | createDirAll (dir : Path)
  | write (path : Path) (content : Content)
  | copy (source target : Path)
  | rename (source target : Path)
  | readToString (path : Path)
  | exists (path : Path)
  | sync (path : Path)
  | remount (mount : Path) (writable : Bool)
deriving DecidableEq, Repr

/-- Errors are what they display. -/
def FileOp.Answer : FileOp → Type
  | .readToString _ => Except String String
  | .exists _ => Bool
  | _ => Except String Unit

abbrev fileSignature : Signature :=
  { Op := FileOp, Answer := FileOp.Answer }

/-- How an operation ends.  A cut one has written some bytes before. -/
inductive Fate where
  | succeeds
  | fails (message : String)
  | cut (length : Nat) (message : String)
deriving DecidableEq, Repr

namespace FileOp

def perform (whole : Path → Bool) (disk : Disk) :
    (operation : FileOp) → Fate → Option (operation.Answer × Disk)
  | .createDirAll dir, .succeeds => some (.ok (), disk.touch dir)
  | .createDirAll _, .fails message => some (.error message, disk)
  | .write path content, .succeeds => some (.ok (), disk.put path content)
  | .write _ _, .fails message => some (.error message, disk)
  | .write path content, .cut length message =>
      if whole path then none
      else some (.error message, disk.put path (content.written length))
  | .copy source target, .succeeds =>
      (disk.files.lookup source).map fun content =>
        (.ok (), disk.put target content)
  | .copy _ _, .fails message => some (.error message, disk)
  | .copy source target, .cut length message =>
      if whole target then none
      else (disk.files.lookup source).map fun content =>
        (.error message, disk.put target (content.written length))
  | .rename source target, .succeeds =>
      (disk.files.lookup source).map fun content =>
        (.ok (), disk.move source target content)
  | .rename _ _, .fails message => some (.error message, disk)
  | .readToString path, .succeeds =>
      (disk.files.lookup path).bind fun content =>
        content.text?.map fun text => (.ok text, disk)
  | .readToString _, .fails message => some (.error message, disk)
  | .exists path, .succeeds => some ((disk.files.lookup path).isSome, disk)
  | .exists _, .fails _ => some (false, disk)
  | .sync _, .succeeds => some (.ok (), disk)
  | .sync _, .fails message => some (.error message, disk)
  | .remount _ _, .succeeds => some (.ok (), disk)
  | .remount _ _, .fails message => some (.error message, disk)
  | _, _ => none

/-- Operations that change no file. -/
def Idle : FileOp → Prop
  | .sync _ => True
  | .remount _ _ => True
  | _ => False

theorem Idle.unchanged {whole : Path → Bool} {disk after : Disk}
    {operation : FileOp} {fate : Fate} {answer : operation.Answer}
    (idle : operation.Idle)
    (performed : perform whole disk operation fate = some (answer, after)) :
    after = disk := by
  cases operation with
  | sync path =>
      cases fate with
      | cut length message => cases performed
      | _ =>
          cases performed
          rfl
  | remount mount writable =>
      cases fate with
      | cut length message => cases performed
      | _ =>
          cases performed
          rfl
  | _ => exact idle.elim

end FileOp

/-- A machine on which writes to the `whole` paths are all or nothing. -/
def fileMachine (whole : Path → Bool) : Machine fileSignature Disk Fate :=
  { perform := FileOp.perform whole }

section Rules

variable {whole : Path → Bool} {α : Type} {invariant : Disk → Prop}
  {post : α → Disk → Prop} {disk : Disk}

theorem call_createDirAll {dir : Path}
    {next : Except String Unit → Program fileSignature α}
    (holds : invariant disk)
    (failed : ∀ message, ((fileMachine whole).alone invariant).Protected post
      (next (.error message)) disk)
    (created : ((fileMachine whole).alone invariant).Protected post
      (next (.ok ())) (disk.touch dir)) :
    ((fileMachine whole).alone invariant).Protected post
      (.call (.createDirAll dir) next) disk := by
  apply Machine.call holds
  intro fate answer after performed
  cases fate with
  | succeeds =>
      cases performed
      exact created
  | fails message =>
      cases performed
      exact failed message
  | cut length message => cases performed

theorem call_write {path : Path} {content : Content}
    {next : Except String Unit → Program fileSignature α}
    (holds : invariant disk)
    (failed : ∀ message, ((fileMachine whole).alone invariant).Protected post
      (next (.error message)) disk)
    (cut : whole path = false → ∀ length message,
      ((fileMachine whole).alone invariant).Protected post
        (next (.error message)) (disk.put path (content.written length)))
    (written : ((fileMachine whole).alone invariant).Protected post
      (next (.ok ())) (disk.put path content)) :
    ((fileMachine whole).alone invariant).Protected post
      (.call (.write path content) next) disk := by
  apply Machine.call holds
  intro fate answer after performed
  cases fate with
  | succeeds =>
      cases performed
      exact written
  | fails message =>
      cases performed
      exact failed message
  | cut length message =>
      obtain ⟨torn, equality⟩ := Option.ite_none_left_eq_some.mp performed
      cases equality
      exact cut (Bool.eq_false_of_not_eq_true torn) length message

theorem call_copy {source target : Path}
    {next : Except String Unit → Program fileSignature α}
    (holds : invariant disk)
    (failed : ∀ message, ((fileMachine whole).alone invariant).Protected post
      (next (.error message)) disk)
    (cut : ∀ content, disk.files.lookup source = some content →
      whole target = false → ∀ length message,
      ((fileMachine whole).alone invariant).Protected post
        (next (.error message)) (disk.put target (content.written length)))
    (copied : ∀ content, disk.files.lookup source = some content →
      ((fileMachine whole).alone invariant).Protected post
        (next (.ok ())) (disk.put target content)) :
    ((fileMachine whole).alone invariant).Protected post
      (.call (.copy source target) next) disk := by
  apply Machine.call holds
  intro fate answer after performed
  cases fate with
  | succeeds =>
      obtain ⟨content, found, equality⟩ :=
        Option.map_eq_some_iff.mp performed
      cases equality
      exact copied content found
  | fails message =>
      cases performed
      exact failed message
  | cut length message =>
      obtain ⟨torn, result⟩ := Option.ite_none_left_eq_some.mp performed
      obtain ⟨content, found, equality⟩ := Option.map_eq_some_iff.mp result
      cases equality
      exact cut content found (Bool.eq_false_of_not_eq_true torn) length
        message

theorem call_rename {source target : Path}
    {next : Except String Unit → Program fileSignature α}
    (holds : invariant disk)
    (failed : ∀ message, ((fileMachine whole).alone invariant).Protected post
      (next (.error message)) disk)
    (moved : ∀ content, disk.files.lookup source = some content →
      ((fileMachine whole).alone invariant).Protected post
        (next (.ok ())) (disk.move source target content)) :
    ((fileMachine whole).alone invariant).Protected post
      (.call (.rename source target) next) disk := by
  apply Machine.call holds
  intro fate answer after performed
  cases fate with
  | succeeds =>
      obtain ⟨content, found, equality⟩ :=
        Option.map_eq_some_iff.mp performed
      cases equality
      exact moved content found
  | fails message =>
      cases performed
      exact failed message
  | cut length message => cases performed

theorem call_readToString {path : Path}
    {next : Except String String → Program fileSignature α}
    (holds : invariant disk)
    (failed : ∀ message, ((fileMachine whole).alone invariant).Protected post
      (next (.error message)) disk)
    (read : ∀ content text, disk.files.lookup path = some content →
      content.text? = some text →
      ((fileMachine whole).alone invariant).Protected post
        (next (.ok text)) disk) :
    ((fileMachine whole).alone invariant).Protected post
      (.call (.readToString path) next) disk := by
  apply Machine.call holds
  intro fate answer after performed
  cases fate with
  | succeeds =>
      obtain ⟨content, found, decoded⟩ :=
        Option.bind_eq_some_iff.mp performed
      obtain ⟨text, result, equality⟩ := Option.map_eq_some_iff.mp decoded
      cases equality
      exact read content text found result
  | fails message =>
      cases performed
      exact failed message
  | cut length message => cases performed

theorem call_exists {path : Path} {next : Bool → Program fileSignature α}
    (holds : invariant disk)
    (goesOn : ∀ found, ((fileMachine whole).alone invariant).Protected post
      (next found) disk) :
    ((fileMachine whole).alone invariant).Protected post
      (.call (.exists path) next) disk := by
  apply Machine.call holds
  intro fate answer after performed
  cases fate with
  | succeeds =>
      cases performed
      exact goesOn _
  | fails message =>
      cases performed
      exact goesOn false
  | cut length message => cases performed

/-- An operation that changes no file can answer anything. -/
theorem call_idle {operation : FileOp}
    {next : operation.Answer → Program fileSignature α}
    (idle : operation.Idle) (holds : invariant disk)
    (goesOn : ∀ answer, ((fileMachine whole).alone invariant).Protected post
      (next answer) disk) :
    ((fileMachine whole).alone invariant).Protected post
      (.call operation next) disk := by
  apply Machine.call holds
  intro fate answer after performed
  rw [idle.unchanged performed]
  exact goesOn answer

theorem call_sync {path : Path}
    {next : Except String Unit → Program fileSignature α}
    (holds : invariant disk)
    (goesOn : ∀ answer, ((fileMachine whole).alone invariant).Protected post
      (next answer) disk) :
    ((fileMachine whole).alone invariant).Protected post
      (.call (.sync path) next) disk :=
  call_idle trivial holds goesOn

theorem call_remount {mount : Path} {writable : Bool}
    {next : Except String Unit → Program fileSignature α}
    (holds : invariant disk)
    (goesOn : ∀ answer, ((fileMachine whole).alone invariant).Protected post
      (next answer) disk) :
    ((fileMachine whole).alone invariant).Protected post
      (.call (.remount mount writable) next) disk :=
  call_idle trivial holds goesOn

end Rules

end Foundation
