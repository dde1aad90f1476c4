import MachinedRs.Foundation.Bytes

/-!
# The newc archive

`CpioWriter` writes directories, files, symbolic links and character devices
into one buffer and pads that buffer to a multiple of four.  A newc reader knows
nothing of the buffer: it pads a name from the start of its own header and data
from its own start.  Both agree because every entry begins at a multiple of
four, so that an archive is read back as the entries it was written from.
-/

namespace MachinedRs

open Foundation

def S_IFDIR : UInt32 := 0o040000

def S_IFCHR : UInt32 := 0o020000

def S_IFREG : UInt32 := 0o100000

def S_IFLNK : UInt32 := 0o120000

/-- `"070701"` -/
def newcMagic : Bytes :=
  utf8 "070701"

def trailerName : String :=
  "TRAILER!!!"

/-- `value + 1`; an overflow is a panic. -/
def increment (value : UInt32) : Option UInt32 :=
  if value.toNat + 1 < 2 ^ 32 then some (value + 1) else none

/-- The loop pushes zeros until the length is a multiple of four. -/
def pad4 (buf : Bytes) : Bytes :=
  if buf.length % 4 = 0 then buf else pad4 (buf ++ [0])
termination_by padLength 4 buf.length
decreasing_by
  simp only [padLength, List.length_append, List.length_singleton]
  omega

structure CpioWriter where
  buf : Bytes
  ino : UInt32
deriving DecidableEq, Repr

namespace CpioWriter

def new : CpioWriter :=
  { buf := [], ino := 1 }

/-- The lengths are cut to 32 bits. -/
def headerFields (ino mode rmajor rminor : UInt32) (data : Bytes)
    (namesize : UInt32) : List UInt32 :=
  [ino, mode, 0, 0, 1, 0, data.length.toUInt32, 0, 0, rmajor, rminor,
    namesize, 0]

def entry (writer : CpioWriter) (name : String)
    (mode rmajor rminor : UInt32) (data : Bytes) : Option CpioWriter := do
  let next ← increment writer.ino
  let namesize ← increment (utf8 name).length.toUInt32
  let fields := headerFields writer.ino mode rmajor rminor data namesize
  let buf := writer.buf ++ newcMagic
  let buf := buf ++ fields.flatMap hexField
  let buf := buf ++ utf8 name ++ [0]
  let buf := pad4 buf
  let buf := pad4 (buf ++ data)
  some { buf := buf, ino := next }

def dir (writer : CpioWriter) (name : String) (perm : UInt32) :
    Option CpioWriter :=
  writer.entry name (S_IFDIR ||| perm) 0 0 []

def file (writer : CpioWriter) (name : String) (perm : UInt32)
    (data : Bytes) : Option CpioWriter :=
  writer.entry name (S_IFREG ||| perm) 0 0 data

def symlink (writer : CpioWriter) (name target : String) :
    Option CpioWriter :=
  writer.entry name (S_IFLNK ||| 0o777) 0 0 (utf8 target)

def charDevice (writer : CpioWriter) (name : String)
    (perm major minor : UInt32) : Option CpioWriter :=
  writer.entry name (S_IFCHR ||| perm) major minor []

def finish (writer : CpioWriter) : Option Bytes := do
  let writer ← writer.entry trailerName 0 0 0 []
  some writer.buf

end CpioWriter

/-- A call on the writer. -/
inductive CpioCall where
  | dir (name : String) (perm : UInt32)
  | file (name : String) (perm : UInt32) (data : Bytes)
  | symlink (name target : String)
  | charDevice (name : String) (perm major minor : UInt32)
deriving DecidableEq, Repr

def CpioWriter.call (writer : CpioWriter) : CpioCall → Option CpioWriter
  | .dir name perm => writer.dir name perm
  | .file name perm data => writer.file name perm data
  | .symlink name target => writer.symlink name target
  | .charDevice name perm major minor =>
      writer.charDevice name perm major minor

def CpioWriter.callAll (writer : CpioWriter) (calls : List CpioCall) :
    Option CpioWriter :=
  calls.foldlM CpioWriter.call writer

/-- The calls on a fresh writer, then `finish`. -/
def writeArchive (calls : List CpioCall) : Option Bytes := do
  let writer ← CpioWriter.new.callAll calls
  writer.finish

/-- An entry as a newc reader finds it. -/
structure CpioEntry where
  type : UInt32
  perm : UInt32
  rmajor : UInt32
  rminor : UInt32
  name : Bytes
  data : Bytes
deriving DecidableEq, Repr

/-- The magic and the thirteen fields, 110 bytes in all. -/
def readHeader : Reader (List UInt32) := fun bytes => do
  let (magic, bytes) ← takeBytes 6 bytes
  guard (magic = newcMagic)
  readMany readHexField 13 bytes

def readEntry : Reader CpioEntry := fun bytes => do
  let (fields, bytes) ← readHeader bytes
  match fields with
  | [_, mode, _, _, _, _, filesize, _, _, rmajor, rminor, namesize, _] => do
      let (name, bytes) ← takePadded 4 110 namesize.toNat bytes
      guard (name.getLast? = some 0)
      let (data, bytes) ← takePadded 4 0 filesize.toNat bytes
      some
        ({ type := mode &&& 0o170000, perm := mode &&& 0o7777
           rmajor := rmajor, rminor := rminor
           name := name.takeWhile (· ≠ 0), data := data }, bytes)
  | _ => none

def readEntries : Nat → Reader (List CpioEntry)
  | 0, _ => none
  | fuel + 1, bytes => do
      let (entry, bytes) ← readEntry bytes
      if entry.name = utf8 trailerName then
        some ([], bytes)
      else
        let (entries, bytes) ← readEntries fuel bytes
        some (entry :: entries, bytes)

/-- Every entry takes more than one byte, so the bytes are fuel enough. -/
def readArchive : Reader (List CpioEntry) := fun bytes =>
  readEntries bytes.length bytes

namespace CpioCall

def name : CpioCall → String
  | .dir name _ => name
  | .file name _ _ => name
  | .symlink name _ => name
  | .charDevice name _ _ _ => name

def type : CpioCall → UInt32
  | .dir _ _ => S_IFDIR
  | .file _ _ _ => S_IFREG
  | .symlink _ _ => S_IFLNK
  | .charDevice _ _ _ _ => S_IFCHR

def perm : CpioCall → UInt32
  | .dir _ perm => perm
  | .file _ perm _ => perm
  | .symlink _ _ => 0o777
  | .charDevice _ perm _ _ => perm

def rmajor : CpioCall → UInt32
  | .charDevice _ _ major _ => major
  | _ => 0

def rminor : CpioCall → UInt32
  | .charDevice _ _ _ minor => minor
  | _ => 0

def data : CpioCall → Bytes
  | .file _ _ data => data
  | .symlink _ target => utf8 target
  | _ => []

/-- What a reader should find of a call. -/
def entry (call : CpioCall) : CpioEntry :=
  { type := call.type, perm := call.perm, rmajor := call.rmajor
    rminor := call.rminor, name := utf8 call.name, data := call.data }

/-- The call can be written and read back. -/
structure Fits (call : CpioCall) : Prop where
  noNul : 0 ∉ utf8 call.name
  notTrailer : call.name ≠ trailerName
  nameFits : (utf8 call.name).length + 1 < 2 ^ 32
  dataFits : call.data.length < 2 ^ 32
  permFits : call.perm.toNat < 2 ^ 12

instance (call : CpioCall) : Decidable call.Fits :=
  decidable_of_iff
    (0 ∉ utf8 call.name ∧ call.name ≠ trailerName ∧
      (utf8 call.name).length + 1 < 2 ^ 32 ∧ call.data.length < 2 ^ 32 ∧
        call.perm.toNat < 2 ^ 12)
    ⟨fun ⟨noNul, notTrailer, nameFits, dataFits, permFits⟩ =>
        ⟨noNul, notTrailer, nameFits, dataFits, permFits⟩,
      fun fits =>
        ⟨fits.noNul, fits.notTrailer, fits.nameFits, fits.dataFits,
          fits.permFits⟩⟩

end CpioCall

theorem CpioWriter.call_eq_entry (writer : CpioWriter) (call : CpioCall) :
    writer.call call = writer.entry call.name (call.type ||| call.perm)
      call.rmajor call.rminor call.data := by
  cases call <;> rfl

theorem pad4_eq_padEnd (buf : Bytes) : pad4 buf = padEnd 4 buf := by
  induction buf using pad4.induct with
  | case1 buf aligned =>
      have none : padLength 4 buf.length = 0 := by
        rw [padLength, aligned]
      rw [pad4, if_pos aligned, padEnd, none, List.replicate_zero,
        List.append_nil]
  | case2 buf unaligned induction =>
      have more : padLength 4 buf.length =
          padLength 4 (buf.length + 1) + 1 := by
        rw [padLength, padLength]
        omega
      rw [pad4, if_neg unaligned, induction, padEnd, padEnd,
        List.length_append, List.length_singleton, more, List.replicate_succ,
        List.append_assoc, List.singleton_append]

section Entry

theorem increment_eq_some {value : UInt32} (fits : value.toNat + 1 < 2 ^ 32) :
    increment value = some (value + 1) :=
  if_pos fits

/-- The header of an entry with its name, before padding. -/
def entryHead (ino mode rmajor rminor : UInt32) (name data : Bytes) : Bytes :=
  newcMagic ++
    ((CpioWriter.headerFields ino mode rmajor rminor data
      (name.length.toUInt32 + 1)).flatMap hexField ++ (name ++ [0]))

/-- An entry on its own, padded from its own start. -/
def entryBytes (ino mode rmajor rminor : UInt32) (name data : Bytes) : Bytes :=
  padEnd 4 (entryHead ino mode rmajor rminor name data) ++ padEnd 4 data

variable {ino mode rmajor rminor : UInt32}

theorem length_entryHead (name data : Bytes) :
    (entryHead ino mode rmajor rminor name data).length =
      110 + (name.length + 1) := by
  have magic : newcMagic.length = 6 := by decide +kernel
  have fields : (CpioWriter.headerFields ino mode rmajor rminor data
      (name.length.toUInt32 + 1)).length = 13 := rfl
  rw [entryHead, List.length_append, List.length_append, List.length_append,
    length_flatMap_hexField, magic, fields, List.length_singleton,
    ← Nat.add_assoc]

theorem length_entryBytes_mod (name data : Bytes) :
    (entryBytes ino mode rmajor rminor name data).length % 4 = 0 := by
  rw [entryBytes, List.length_append, Nat.add_mod,
    length_padEnd_mod (by omega), length_padEnd_mod (by omega)]

theorem toNat_toUInt32 {length : Nat} (fits : length < 2 ^ 32) :
    length.toUInt32.toNat = length := by
  rw [Nat.toUInt32_eq, UInt32.toNat_ofNat_of_lt' fits]

theorem toNat_namesize {length : Nat} (fits : length + 1 < 2 ^ 32) :
    (length.toUInt32 + 1).toNat = length + 1 := by
  have small : length < 2 ^ 32 := by omega
  rw [UInt32.toNat_add, toNat_toUInt32 small]
  exact Nat.mod_eq_of_lt fits

/-- On an aligned buffer, padding the buffer pads the entry. -/
theorem CpioWriter.entry_eq_some (mode rmajor rminor : UInt32)
    (data : Bytes) {writer : CpioWriter} {name : String}
    (aligned : writer.buf.length % 4 = 0)
    (inoFits : writer.ino.toNat + 1 < 2 ^ 32)
    (nameFits : (utf8 name).length + 1 < 2 ^ 32) :
    writer.entry name mode rmajor rminor data =
      some
        { buf := writer.buf ++
            entryBytes writer.ino mode rmajor rminor (utf8 name) data
          ino := writer.ino + 1 } := by
  have small : (utf8 name).length < 2 ^ 32 := by omega
  have namesize : increment (utf8 name).length.toUInt32 =
      some ((utf8 name).length.toUInt32 + 1) := by
    apply increment_eq_some
    rw [toNat_toUInt32 small]
    exact nameFits
  have named : (padEnd 4 (writer.buf ++
      entryHead writer.ino mode rmajor rminor (utf8 name) data)).length % 4 =
        0 :=
    length_padEnd_mod (by omega) _
  have padded := padEnd_append named data
  rw [padEnd_append aligned, List.append_assoc] at padded
  simpa [entry, increment_eq_some inoFits, namesize, pad4_eq_padEnd,
    entryBytes, entryHead, padEnd_append aligned] using padded

theorem readHeader_append (data : Bytes) (namesize : UInt32) (rest : Bytes) :
    let fields :=
      CpioWriter.headerFields ino mode rmajor rminor data namesize
    readHeader (newcMagic ++ (fields.flatMap hexField ++ rest)) =
      some (fields, rest) := by
  intro fields
  have read : readMany readHexField 13 (fields.flatMap hexField ++ rest) =
      some (fields, rest) :=
    readMany_flatMap readHexField_hexField fields rest
  rw [readHeader,
    takeBytes_append (show newcMagic.length = 6 by decide +kernel)]
  simpa using read

theorem takeWhile_noNul {name : Bytes} (noNul : 0 ∉ name) :
    (name ++ [0]).takeWhile (· ≠ 0) = name := by
  have all : ∀ byte ∈ name, decide (byte ≠ 0) = true := by
    intro byte member
    exact decide_eq_true (ne_of_mem_of_not_mem member noNul)
  rw [List.takeWhile_append_of_pos all]
  simp

theorem readEntry_entryBytes {name data : Bytes} (noNul : 0 ∉ name)
    (nameFits : name.length + 1 < 2 ^ 32) (dataFits : data.length < 2 ^ 32)
    (rest : Bytes) :
    readEntry (entryBytes ino mode rmajor rminor name data ++ rest) =
      some
        ({ type := mode &&& 0o170000, perm := mode &&& 0o7777
           rmajor := rmajor, rminor := rminor, name := name
           data := data }, rest) := by
  have parts : entryBytes ino mode rmajor rminor name data ++ rest =
      newcMagic ++
        ((CpioWriter.headerFields ino mode rmajor rminor data
            (name.length.toUInt32 + 1)).flatMap hexField ++
          ((name ++ [0]) ++
            (List.replicate (padLength 4 (110 + (name.length + 1))) 0 ++
              (data ++
                (List.replicate (padLength 4 (0 + data.length)) 0 ++
                  rest))))) := by
    rw [entryBytes, padEnd, padEnd, length_entryHead, entryHead, Nat.zero_add]
    simp only [List.append_assoc]
  have nameLength : (name ++ [(0 : UInt8)]).length = name.length + 1 := by
    simp
  have nameRead := fun after =>
    @takePadded_append 4 _ _ nameLength 110 after
  have dataRead := @takePadded_append 4 data data.length rfl 0 rest
  have last : (name ++ [(0 : UInt8)]).getLast? = some 0 :=
    List.getLast?_concat
  rw [parts, readEntry, readHeader_append]
  simp only [CpioWriter.headerFields, Option.bind_eq_bind, Option.bind_some,
    toNat_namesize nameFits, toNat_toUInt32 dataFits, nameRead, dataRead,
    last, takeWhile_noNul noNul, guard, if_true, Option.pure_def]

end Entry

section Mode

theorem perm_masked {perm : UInt32} (fits : perm.toNat < 2 ^ 12) :
    perm &&& 0o7777 = perm := by
  apply UInt32.toNat_inj.mp
  rw [UInt32.toNat_and]
  exact Nat.and_two_pow_sub_one_of_lt_two_pow fits

theorem perm_no_type {perm : UInt32} (fits : perm.toNat < 2 ^ 12) :
    perm &&& 0o170000 = 0 := by
  rw [← perm_masked fits, UInt32.and_assoc]
  exact UInt32.and_zero

theorem or_and_mask (type perm mask : UInt32) :
    (type ||| perm) &&& mask = (type &&& mask) ||| (perm &&& mask) := by
  apply UInt32.toNat_inj.mp
  simp only [UInt32.toNat_and, UInt32.toNat_or]
  exact Nat.and_or_distrib_right _ _ _

theorem types_masked : ∀ type ∈ [S_IFDIR, S_IFREG, S_IFLNK, S_IFCHR],
    type &&& 0o7777 = 0 ∧ type &&& 0o170000 = type := by
  simp only [List.forall_mem_cons, List.not_mem_nil, false_implies,
    implies_true, and_true]
  decide

theorem CpioCall.type_masked (call : CpioCall) :
    call.type &&& 0o7777 = 0 ∧ call.type &&& 0o170000 = call.type := by
  apply types_masked
  cases call <;> simp [CpioCall.type]

/-- The type and the permissions of a mode are told apart. -/
theorem CpioCall.Fits.mode {call : CpioCall} (fits : call.Fits) :
    (call.type ||| call.perm) &&& 0o170000 = call.type ∧
      (call.type ||| call.perm) &&& 0o7777 = call.perm := by
  obtain ⟨noPerm, type⟩ := call.type_masked
  rw [or_and_mask, or_and_mask, noPerm, type, perm_masked fits.permFits,
    perm_no_type fits.permFits]
  exact ⟨UInt32.or_zero, UInt32.zero_or⟩

end Mode

section Archive

/-- The bytes of a call, wherever in the archive they stand. -/
def CpioCall.bytes (call : CpioCall) (ino : UInt32) : Bytes :=
  entryBytes ino (call.type ||| call.perm) call.rmajor call.rminor
    (utf8 call.name) call.data

/-- The calls one after the other, with their inode numbers, and the
trailer. -/
def archiveBytes : UInt32 → List CpioCall → Bytes
  | ino, [] => entryBytes ino 0 0 0 (utf8 trailerName) []
  | ino, call :: calls => call.bytes ino ++ archiveBytes (ino + 1) calls

theorem CpioCall.Fits.readEntry {call : CpioCall} (fits : call.Fits)
    (ino : UInt32) (rest : Bytes) :
    readEntry (call.bytes ino ++ rest) = some (call.entry, rest) := by
  obtain ⟨type, perm⟩ := fits.mode
  rw [CpioCall.bytes,
    readEntry_entryBytes fits.noNul fits.nameFits fits.dataFits, type, perm]
  rfl

theorem trailer_noNul : 0 ∉ utf8 trailerName := by
  decide +kernel

theorem trailer_nameFits : (utf8 trailerName).length + 1 < 2 ^ 32 := by
  decide +kernel

/-- The writer keeps its buffer aligned from call to call, so what it returns
is made of entries padded on their own. -/
theorem finish_callAll {calls : List CpioCall} {writer : CpioWriter}
    (aligned : writer.buf.length % 4 = 0)
    (fits : ∀ call ∈ calls, call.Fits)
    (few : writer.ino.toNat + calls.length + 1 < 2 ^ 32) :
    (writer.callAll calls).bind CpioWriter.finish =
      some (writer.buf ++ archiveBytes writer.ino calls) := by
  induction calls generalizing writer with
  | nil =>
      have written :=
        CpioWriter.entry_eq_some 0 0 0 [] aligned few trailer_nameFits
      simp [CpioWriter.callAll, CpioWriter.finish, written, archiveBytes]
  | cons call calls induction =>
      rw [List.length_cons] at few
      have inoFits : writer.ino.toNat + 1 < 2 ^ 32 := by omega
      have next : (writer.ino + 1).toNat = writer.ino.toNat + 1 := by
        rw [UInt32.toNat_add]
        exact Nat.mod_eq_of_lt inoFits
      have written := CpioWriter.entry_eq_some (call.type ||| call.perm)
        call.rmajor call.rminor call.data aligned inoFits
        (fits call List.mem_cons_self).nameFits
      rw [← CpioWriter.call_eq_entry] at written
      have later := @induction
        { buf := writer.buf ++ call.bytes writer.ino, ino := writer.ino + 1 }
        (by
          rw [List.length_append, Nat.add_mod, aligned, CpioCall.bytes,
            length_entryBytes_mod])
        (fun other member => fits other (List.mem_cons_of_mem call member))
        (by
          rw [next]
          omega)
      rw [CpioWriter.callAll, List.foldlM_cons, written, archiveBytes,
        ← List.append_assoc]
      exact later

theorem length_archiveBytes (ino : UInt32) (calls : List CpioCall) :
    calls.length < (archiveBytes ino calls).length := by
  induction calls generalizing ino with
  | nil =>
      rw [archiveBytes, entryBytes, padEnd, List.length_append,
        List.length_append, length_entryHead, List.length_nil]
      omega
  | cons call calls induction =>
      have later := induction (ino + 1)
      rw [archiveBytes, CpioCall.bytes, entryBytes, padEnd, List.length_append,
        List.length_append, List.length_append, length_entryHead,
        List.length_cons]
      omega

theorem readEntries_archiveBytes {calls : List CpioCall}
    (fits : ∀ call ∈ calls, call.Fits) {fuel : Nat}
    (enough : calls.length < fuel) (ino : UInt32) (rest : Bytes) :
    readEntries fuel (archiveBytes ino calls ++ rest) =
      some (calls.map CpioCall.entry, rest) := by
  induction calls generalizing fuel ino with
  | nil =>
      cases fuel with
      | zero => cases enough
      | succ fuel =>
          rw [archiveBytes, readEntries,
            readEntry_entryBytes trailer_noNul trailer_nameFits (by simp)]
          simp
  | cons call calls induction =>
      cases fuel with
      | zero => cases enough
      | succ fuel =>
          have here := fits call List.mem_cons_self
          have later := induction
            (fun other member => fits other (List.mem_cons_of_mem call member))
            (Nat.lt_of_succ_lt_succ enough) (ino + 1)
          have goesOn : call.entry.name ≠ utf8 trailerName := fun same =>
            here.notTrailer (utf8_injective same)
          rw [archiveBytes, List.append_assoc, readEntries, here.readEntry]
          simp [goesOn, later]

theorem CpioCall.entry_injective : Function.Injective CpioCall.entry := by
  intro first second same
  rw [CpioCall.entry, CpioCall.entry, CpioEntry.mk.injEq] at same
  obtain ⟨type, perm, major, minor, name, data⟩ := same
  have named := utf8_injective name
  cases first with
  | dir =>
      cases second with
      | dir =>
          cases named
          cases perm
          rfl
      | file => cases type
      | symlink => cases type
      | charDevice => cases type
  | file =>
      cases second with
      | dir => cases type
      | file =>
          cases named
          cases perm
          cases data
          rfl
      | symlink => cases type
      | charDevice => cases type
  | symlink =>
      cases second with
      | dir => cases type
      | file => cases type
      | symlink =>
          cases named
          cases utf8_injective data
          rfl
      | charDevice => cases type
  | charDevice =>
      cases second with
      | dir => cases type
      | file => cases type
      | symlink => cases type
      | charDevice =>
          cases named
          cases perm
          cases major
          cases minor
          rfl

variable {calls : List CpioCall}

theorem writeArchive_eq_some (fits : ∀ call ∈ calls, call.Fits)
    (few : calls.length < 2 ^ 32 - 2) :
    writeArchive calls = some (archiveBytes 1 calls) := by
  apply finish_callAll rfl fits
  rw [show CpioWriter.new.ino.toNat = 1 from rfl]
  omega

theorem readArchive_archiveBytes (fits : ∀ call ∈ calls, call.Fits) :
    readArchive (archiveBytes 1 calls) =
      some (calls.map CpioCall.entry, []) := by
  have whole := readEntries_archiveBytes fits
    (length_archiveBytes 1 calls) 1 []
  rwa [List.append_nil] at whole

end Archive

/-- A list of calls comes back from a newc reader as it was given, with nothing
left over; no other list has the same archive. -/
theorem cpio_round_trip {calls : List CpioCall}
    (fits : ∀ call ∈ calls, call.Fits) (few : calls.length < 2 ^ 32 - 2) :
    (∃ bytes, writeArchive calls = some bytes ∧
      readArchive bytes = some (calls.map CpioCall.entry, [])) ∧
    ∀ others : List CpioCall, (∀ call ∈ others, call.Fits) →
      others.length < 2 ^ 32 - 2 →
        writeArchive others = writeArchive calls → others = calls := by
  constructor
  · exact ⟨archiveBytes 1 calls, writeArchive_eq_some fits few,
      readArchive_archiveBytes fits⟩
  · intro others otherFits otherFew same
    rw [writeArchive_eq_some fits few, writeArchive_eq_some otherFits otherFew]
      at same
    have entries := readArchive_archiveBytes otherFits
    rw [Option.some.inj same, readArchive_archiveBytes fits] at entries
    have mapped := congrArg Prod.fst (Option.some.inj entries)
    exact (CpioCall.entry_injective.list_map mapped).symm

theorem cpio_round_trip_console :
    ∃ bytes,
      writeArchive
          [.dir "dev" 0o755, .charDevice "dev/console" 0o600 5 1,
            .file "init" 0o755 [0x7f, 0x45, 0x4c, 0x46],
            .symlink "bin" "usr/bin"] =
        some bytes ∧
      readArchive bytes =
        some
          ([⟨S_IFDIR, 0o755, 0, 0, utf8 "dev", []⟩,
            ⟨S_IFCHR, 0o600, 5, 1, utf8 "dev/console", []⟩,
            ⟨S_IFREG, 0o755, 0, 0, utf8 "init", [0x7f, 0x45, 0x4c, 0x46]⟩,
            ⟨S_IFLNK, 0o777, 0, 0, utf8 "bin", utf8 "usr/bin"⟩], []) :=
  (cpio_round_trip (by decide +kernel) (by decide)).1

end MachinedRs
