import MachinedRs.Foundation.FileSystem

/-!
# Boot slots and bootloader backends

The two backends keep a kernel and an initramfs per slot on the ESP and differ
in the file that points to the slot to boot: `loader/loader.conf` for
systemd-boot, `config.txt` for the Raspberry Pi firmware.
-/

namespace MachinedRs

open Foundation

inductive Slot where
  | a
  | b
deriving DecidableEq, Repr

namespace Slot

def other : Slot → Slot
  | .a => .b
  | .b => .a

def id : Slot → String
  | .a => "a"
  | .b => "b"

def dir : Slot → String
  | .a => "A"
  | .b => "B"

end Slot

/-- What the first slot argument among the words says. -/
def slotArgument (words : List (List Char)) : Option (List Char) :=
  words.findSome? fun word => word.dropPrefix? "machined.slot=".toList

/-- The first `machined.slot=` word of a kernel command line decides. -/
def parseSlot (cmdline : String) : Slot :=
  match slotArgument (unicode.words cmdline.toList) with
  | some value => if value = "b".toList then .b else .a
  | none => .a

/-- An error shows the last context it was given. -/
def withContext {α : Type} (context : String) (result : Except String α) :
    Except String α :=
  result.mapError fun _ => context

/-- The ESP is remounted writable around the body and sealed again, whatever
the body's result. -/
def inRwWindow (esp : Path)
    (body : Program fileSignature (Except String Unit)) :
    Program fileSignature (Except String Unit) :=
  .call (.remount esp true) fun (remounted : Except String Unit) =>
    match remounted with
    | .error error =>
        .done (.error ("remount " ++ esp.display ++ " rw: " ++ error))
    | .ok _ =>
        body.bind fun result =>
          .call (.remount esp false) fun _ => .done result

def slotDir (esp : Path) (slot : Slot) : Path :=
  esp ++ [slot.dir]

def writeInactiveSlot (esp : Path) (slot : Slot) (kernel initrd : Path) :
    Program fileSignature (Except String Unit) :=
  inRwWindow esp <|
    .call (.createDirAll (slotDir esp slot)) fun created =>
      .attempt created fun _ =>
        .call (.copy kernel (slotDir esp slot ++ ["vmlinuz"])) fun copied =>
          .attempt copied fun _ =>
            .call (.copy initrd (slotDir esp slot ++ ["initramfs.img"]))
              fun copied =>
                .attempt copied fun _ =>
                  .call (.sync (slotDir esp slot)) fun _ => .done (.ok ())

namespace SdBootBackend

def conf (esp : Path) : Path :=
  esp ++ ["loader", "loader.conf"]

def confText (slot : Slot) : String :=
  "default " ++ slot.id ++ "\ntimeout 0\n"

def setActive (esp : Path) (slot : Slot) :
    Program fileSignature (Except String Unit) :=
  inRwWindow esp <|
    .call (.write (conf esp) (.ofText (confText slot))) fun written =>
      .attempt (withContext ("write " ++ (conf esp).display) written)
        fun _ =>
          .call (.sync (conf esp)) fun _ =>
            .call (.sync (esp ++ ["loader"])) fun _ => .done (.ok ())

end SdBootBackend

namespace PiBootBackend

def conf (esp : Path) : Path :=
  esp ++ ["config.txt"]

def isOsPrefix (line : List Char) : Bool :=
  "os_prefix=".toList.isPrefixOf (unicode.trimStart line)

def osPrefix (slot : Slot) : String :=
  "os_prefix=" ++ slot.dir ++ "/"

/-- One round of the loop: `found` says whether any line was flipped. -/
def rewriteLine (slot : Slot) :
    List Char × Bool → List Char → List Char × Bool
  | (out, found), line =>
      if isOsPrefix line then
        (out ++ (osPrefix slot).toList ++ ['\n'], true)
      else
        (out ++ line ++ ['\n'], found)

def rewriteOsPrefix (config : String) (slot : Slot) : Except String String :=
  match (unicode.lines config.toList).foldl (rewriteLine slot) ([], false)
      with
  | (out, true) => .ok (String.ofList out)
  | (_, false) => .error "config.txt has no os_prefix= line to flip"

def setActive (esp : Path) (slot : Slot) :
    Program fileSignature (Except String Unit) :=
  inRwWindow esp <|
    .call (.readToString (conf esp)) fun read =>
      .attempt (withContext ("read " ++ (conf esp).display) read)
        fun content =>
          .attempt (rewriteOsPrefix content slot) fun new =>
            .call (.write (conf esp) (.ofText new)) fun written =>
              .attempt (withContext ("write " ++ (conf esp).display) written)
                fun _ =>
                  .call (.sync (conf esp)) fun _ =>
                    .call (.sync esp) fun _ => .done (.ok ())

/-- What the loop does to each line. -/
def flipLine (slot : Slot) (line : List Char) : List Char :=
  if isOsPrefix line then (osPrefix slot).toList else line

theorem foldl_rewriteLine (slot : Slot) (lines : List (List Char))
    (out : List Char) (found : Bool) :
    lines.foldl (rewriteLine slot) (out, found) =
      (out ++ unicode.unlines (lines.map (flipLine slot)),
        found || lines.any isOsPrefix) := by
  induction lines generalizing out found with
  | nil => simp [Alphabet.unlines]
  | cons line lines induction =>
      have newline : unicode.newline = '\n' := rfl
      rw [List.foldl_cons, rewriteLine]
      by_cases flips : isOsPrefix line = true
      · rw [if_pos flips, induction]
        simp [Alphabet.unlines, flipLine, flips, newline]
      · rw [if_neg flips, induction]
        simp [Alphabet.unlines, flipLine, flips, newline]

theorem rewriteOsPrefix_eq_ok {config new : String} {slot : Slot} :
    rewriteOsPrefix config slot = .ok new ↔
      (unicode.lines config.toList).any isOsPrefix = true ∧
        new = String.ofList (unicode.unlines
          ((unicode.lines config.toList).map (flipLine slot))) := by
  rw [rewriteOsPrefix, foldl_rewriteLine, List.nil_append, Bool.false_or]
  cases (unicode.lines config.toList).any isOsPrefix with
  | true => simp [eq_comm]
  | false => simp

theorem isOsPrefix_osPrefix (slot : Slot) :
    isOsPrefix (osPrefix slot).toList = true := by
  cases slot with
  | a => decide
  | b => decide

/-- An earlier flip does not matter to a later one. -/
theorem flipLine_flipLine (earlier later : Slot) (line : List Char) :
    flipLine later (flipLine earlier line) = flipLine later line := by
  by_cases flips : isOsPrefix line = true
  · simp [flipLine, flips, isOsPrefix_osPrefix]
  · simp [flipLine, flips]

theorem isOsPrefix_flipLine (slot : Slot) (line : List Char) :
    isOsPrefix (flipLine slot line) = isOsPrefix line := by
  by_cases flips : isOsPrefix line = true
  · simp [flipLine, flips, isOsPrefix_osPrefix]
  · simp [flipLine, flips]

/-- A flipped line is still one line. -/
theorem flipLine_plain {line : List Char}
    (plain : unicode.newline ∉ line ∧
      line.getLast? ≠ some unicode.carriage) (slot : Slot) :
    unicode.newline ∉ flipLine slot line ∧
      (flipLine slot line).getLast? ≠ some unicode.carriage := by
  by_cases flips : isOsPrefix line = true
  · rw [flipLine, if_pos flips]
    cases slot with
    | a => decide
    | b => decide
  · rw [flipLine, if_neg flips]
    exact plain

/-- The rewrite selects the slot and nothing else.  It fails without a line to
flip; otherwise it flips the lines that select a slot and keeps the others, and
a later rewrite finds what it would have found before. -/
theorem rewriteOsPrefix_selects (config : String)
    (plain : ∀ line ∈ unicode.lines config.toList,
      line.getLast? ≠ some unicode.carriage) :
    (∀ slot, (∃ error, rewriteOsPrefix config slot = .error error) ↔
      ∀ line ∈ unicode.lines config.toList, isOsPrefix line = false) ∧
    ∀ slot new, rewriteOsPrefix config slot = .ok new →
      unicode.lines new.toList =
        (unicode.lines config.toList).map (flipLine slot) ∧
      (∀ line ∈ unicode.lines new.toList, isOsPrefix line = true →
        line = (osPrefix slot).toList) ∧
      rewriteOsPrefix new slot = .ok new ∧
      ∀ later, rewriteOsPrefix new later = rewriteOsPrefix config later := by
  constructor
  · intro slot
    have absent : (unicode.lines config.toList).any isOsPrefix = false ↔
        ∀ line ∈ unicode.lines config.toList, isOsPrefix line = false := by
      simp
    rw [← absent]
    constructor
    · rintro ⟨error, failed⟩
      by_contra found
      rw [Bool.not_eq_false] at found
      have succeeded := (@rewriteOsPrefix_eq_ok config _ slot).mpr
        ⟨found, rfl⟩
      rw [failed] at succeeded
      cases succeeded
    · intro missing
      refine ⟨"config.txt has no os_prefix= line to flip", ?_⟩
      rw [rewriteOsPrefix, foldl_rewriteLine, missing]
      rfl
  · intro slot new rewritten
    obtain ⟨found, text⟩ := rewriteOsPrefix_eq_ok.mp rewritten
    have flipped : unicode.lines new.toList =
        (unicode.lines config.toList).map (flipLine slot) := by
      rw [text, String.toList_ofList]
      apply unicode.lines_unlines
      intro line member
      obtain ⟨original, inside, rfl⟩ := List.mem_map.mp member
      exact flipLine_plain
        ⟨unicode.notMem_of_mem_lines inside, plain original inside⟩ slot
    have same : ∀ later,
        rewriteOsPrefix new later = rewriteOsPrefix config later := by
      intro later
      rw [rewriteOsPrefix, rewriteOsPrefix, foldl_rewriteLine,
        foldl_rewriteLine, flipped, List.map_map, List.any_map]
      have composed : flipLine later ∘ flipLine slot = flipLine later :=
        funext (flipLine_flipLine slot later)
      have kept : isOsPrefix ∘ flipLine slot = isOsPrefix :=
        funext (isOsPrefix_flipLine slot)
      rw [composed, kept]
    refine ⟨flipped, ?_, (same slot).trans rewritten, same⟩
    intro line member selects
    rw [flipped] at member
    obtain ⟨original, _, rfl⟩ := List.mem_map.mp member
    rw [isOsPrefix_flipLine] at selects
    exact if_pos selects

/-- Line breaks of both kinds, an indented line and a missing last newline. -/
theorem rewriteOsPrefix_selects_mixed :
    ∃ new, rewriteOsPrefix "kernel=vmlinuz\r\n  os_prefix=A/" .b = .ok new ∧
      ∀ later, rewriteOsPrefix new later =
        rewriteOsPrefix "kernel=vmlinuz\r\n  os_prefix=A/" later := by
  have rewritten : rewriteOsPrefix "kernel=vmlinuz\r\n  os_prefix=A/" .b =
      .ok "kernel=vmlinuz\nos_prefix=B/\n" := by
    decide
  obtain ⟨_, _, _, same⟩ := (rewriteOsPrefix_selects
    "kernel=vmlinuz\r\n  os_prefix=A/" (by decide)).2 .b _ rewritten
  exact ⟨_, rewritten, same⟩

example :
    rewriteOsPrefix "arm_64bit=1\nos_prefix=A/\nkernel=vmlinuz\n" .b =
      .ok "arm_64bit=1\nos_prefix=B/\nkernel=vmlinuz\n" := by
  decide

end PiBootBackend

inductive Bootloader where
  | sdBoot
  | piBoot
deriving DecidableEq, Repr

/-- Both implementations have the same fields. -/
structure BootloaderBackend where
  bootloader : Bootloader
  esp : Path
  current : Slot
deriving DecidableEq, Repr

namespace BootloaderBackend

def new (bootloader : Bootloader) (esp : Path) (cmdline : String) :
    BootloaderBackend :=
  { bootloader, esp, current := parseSlot cmdline }

def currentSlot (backend : BootloaderBackend) : Slot :=
  backend.current

def stageInactive (backend : BootloaderBackend) (kernel initrd : Path) :
    Program fileSignature (Except String Slot) :=
  (writeInactiveSlot backend.esp backend.current.other kernel initrd).bind
    fun staged => .attempt staged fun _ => .done (.ok backend.current.other)

def setActive (backend : BootloaderBackend) (slot : Slot) :
    Program fileSignature (Except String Unit) :=
  match backend.bootloader with
  | .sdBoot => SdBootBackend.setActive backend.esp slot
  | .piBoot => PiBootBackend.setActive backend.esp slot

end BootloaderBackend

section Rules

variable {whole : Path → Bool} {invariant : Disk → Prop}
  {post : Except String Unit → Disk → Prop} {disk : Disk}

/-- Neither remount changes the result of the body or the files. -/
theorem inRwWindow_protected {esp : Path}
    {body : Program fileSignature (Except String Unit)}
    (holds : invariant disk)
    (refused : ∀ error, post (.error error) disk)
    (safe : ((fileMachine whole).alone invariant).Protected post body disk) :
    ((fileMachine whole).alone invariant).Protected post
      (inRwWindow esp body) disk := by
  apply call_remount holds
  intro remounted
  cases remounted with
  | error error => exact Machine.done holds (refused _)
  | ok _ =>
      apply Setting.Protected.bind
      apply safe.keeping.mono
      rintro result after ⟨kept, finished⟩
      apply call_remount kept
      intro _
      exact Machine.done kept finished

end Rules

section Schedule

variable {whole : Path → Bool} {disk final : Disk} {fates : List Fate}
  {rest : Program fileSignature (Except String Unit)}

theorem exec_idle {program : Program fileSignature (Except String Unit)}
    (idle : program.Only FileOp.Idle)
    (result : (fileMachine whole).exec program disk fates =
      some (rest, final)) : final = disk := by
  apply Machine.exec_of_only _ idle result
  intro state operation fate answer after still performed
  exact still.unchanged performed

/-- The end of the window in which the ESP is writable. -/
def sealed (esp : Path) (result : Except String Unit) :
    Program fileSignature (Except String Unit) :=
  .call (.remount esp false) fun _ => .done result

theorem idle_sealed (esp : Path) (result : Except String Unit) :
    (sealed esp result).Only FileOp.Idle :=
  ⟨trivial, fun _ => trivial⟩

theorem exec_inRwWindow {esp : Path}
    {body : Program fileSignature (Except String Unit)}
    (result : (fileMachine whole).exec (inRwWindow esp body) disk fates =
      some (rest, final)) :
    (final = disk ∧ ∀ later, fates ≠ .succeeds :: later) ∨
      ∃ later, fates = .succeeds :: later ∧
        (fileMachine whole).exec (body.bind (sealed esp)) disk later =
          some (rest, final) := by
  rcases Machine.exec_call result with ⟨none, same⟩ |
    ⟨fate, later, answer, after, shape, performed, continued⟩
  · left
    refine ⟨same, ?_⟩
    intro later impossible
    rw [none] at impossible
    cases impossible
  · cases fate with
    | succeeds =>
        cases performed
        exact .inr ⟨later, shape, continued⟩
    | fails message =>
        cases performed
        left
        constructor
        · apply exec_idle _ continued
          exact trivial
        · intro others impossible
          rw [shape] at impossible
          cases impossible
    | cut length message => cases performed

end Schedule

end MachinedRs
