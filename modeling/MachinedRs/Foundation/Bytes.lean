import MachinedRs.Foundation.Numeral
import Mathlib.Data.UInt
import Mathlib.Data.List.Lemmas

/-!
# Byte strings and their readers

A format writes its values one after the other.  A reader takes a value from
the front of a byte string and leaves the rest; it reads what a writer wrote
when it returns the value and leaves the rest for every rest.
-/

namespace Foundation

abbrev Bytes := List UInt8

abbrev Reader (α : Type) := Bytes → Option (α × Bytes)

section Texts

/-- The UTF-8 bytes of a text. -/
def utf8 (text : String) : Bytes :=
  text.toByteArray.data.toList

@[simp] theorem utf8_append (first second : String) :
    utf8 (first ++ second) = utf8 first ++ utf8 second := by
  simp [utf8]

@[simp] theorem utf8_empty : utf8 "" = [] := by
  decide +kernel

theorem utf8_injective : Function.Injective utf8 := by
  intro first second same
  have arrays : first.toByteArray.data = second.toByteArray.data :=
    Array.toList_inj.mp same
  exact String.toByteArray_inj.mp (ByteArray.ext arrays)

end Texts

section Chunks

/-- The first `count` bytes, if there are that many. -/
def takeBytes (count : Nat) : Reader Bytes := fun bytes =>
  if count ≤ bytes.length then
    some (bytes.take count, bytes.drop count)
  else
    none

theorem takeBytes_append {taken : Bytes} {count : Nat}
    (length : taken.length = count) (rest : Bytes) :
    takeBytes count (taken ++ rest) = some (taken, rest) := by
  subst length
  simp [takeBytes]

/-- The same reader a number of times. -/
def readMany {α : Type} (reader : Reader α) : Nat → Reader (List α)
  | 0, bytes => some ([], bytes)
  | count + 1, bytes => do
      let (value, bytes) ← reader bytes
      let (values, bytes) ← readMany reader count bytes
      some (value :: values, bytes)

theorem readMany_flatMap {α : Type} {reader : Reader α} {write : α → Bytes}
    (reads : ∀ value rest, reader (write value ++ rest) = some (value, rest))
    (values : List α) (rest : Bytes) :
    readMany reader values.length (values.flatMap write ++ rest) =
      some (values, rest) := by
  induction values with
  | nil => rfl
  | cons value values induction =>
      rw [List.flatMap_cons, List.append_assoc, List.length_cons, readMany,
        reads]
      simp [induction]

end Chunks

section Padding

/-- The bytes missing to the next multiple of `unit`. -/
def padLength (unit length : Nat) : Nat :=
  (unit - length % unit) % unit

/-- The bytes, filled with zeros up to the next multiple of `unit`. -/
def padEnd (unit : Nat) (bytes : Bytes) : Bytes :=
  bytes ++ List.replicate (padLength unit bytes.length) 0

variable {unit : Nat}

theorem padLength_add {start : Nat} (aligned : start % unit = 0)
    (length : Nat) :
    padLength unit (start + length) = padLength unit length := by
  rw [padLength, padLength, Nat.add_mod, aligned, Nat.zero_add, Nat.mod_mod]

theorem add_padLength_mod (positive : 0 < unit) (length : Nat) :
    (length + padLength unit length) % unit = 0 := by
  have below : length % unit ≤ unit := (Nat.mod_lt length positive).le
  have parts : length + (unit - length % unit) =
      unit * (length / unit) + unit := by
    have whole := Nat.div_add_mod length unit
    omega
  rw [padLength, Nat.add_mod_mod, parts, Nat.add_mod_right,
    Nat.mul_mod_right]

theorem length_padEnd_mod (positive : 0 < unit) (bytes : Bytes) :
    (padEnd unit bytes).length % unit = 0 := by
  rw [padEnd, List.length_append, List.length_replicate]
  exact add_padLength_mod positive bytes.length

/-- After an aligned buffer, padding the buffer is padding what follows it. -/
theorem padEnd_append {buffer : Bytes} (aligned : buffer.length % unit = 0)
    (bytes : Bytes) :
    padEnd unit (buffer ++ bytes) = buffer ++ padEnd unit bytes := by
  rw [padEnd, padEnd, List.length_append, padLength_add aligned,
    List.append_assoc]

/-- `count` bytes and the padding behind them, where `start` bytes before them
count for the padding. -/
def takePadded (unit start count : Nat) : Reader Bytes := fun bytes => do
  let (taken, bytes) ← takeBytes count bytes
  let (_, bytes) ← takeBytes (padLength unit (start + count)) bytes
  some (taken, bytes)

theorem takePadded_append {taken : Bytes} {count : Nat}
    (length : taken.length = count) (start : Nat) (rest : Bytes) :
    takePadded unit start count
        (taken ++
          (List.replicate (padLength unit (start + count)) 0 ++ rest)) =
      some (taken, rest) := by
  have filled := takeBytes_append
    (@List.length_replicate _ (padLength unit (start + count)) (0 : UInt8))
    rest
  rw [takePadded, takeBytes_append length]
  simp [filled]

end Padding

section HexFields

/-- An upper-case hexadecimal digit. -/
def hexByte (place : Nat) : UInt8 :=
  if place < 10 then UInt8.ofNat (48 + place) else UInt8.ofNat (55 + place)

def hexValue? (byte : UInt8) : Option Nat :=
  if 48 ≤ byte ∧ byte ≤ 57 then
    some (byte.toNat - 48)
  else if 65 ≤ byte ∧ byte ≤ 70 then
    some (byte.toNat - 55)
  else if 97 ≤ byte ∧ byte ≤ 102 then
    some (byte.toNat - 87)
  else
    none

theorem hexValue?_hexByte :
    ∀ place < 16, hexValue? (hexByte place) = some place := by
  decide

/-- Eight hexadecimal digits, with leading zeros. -/
def hexField (value : UInt32) : Bytes :=
  (places 16 8 value.toNat).map hexByte

def readHexField : Reader UInt32 := fun bytes => do
  let (digits, bytes) ← takeBytes 8 bytes
  let places ← digits.mapM hexValue?
  some (UInt32.ofNat (ofPlaces 16 places), bytes)

@[simp] theorem length_hexField (value : UInt32) :
    (hexField value).length = 8 := by
  simp [hexField]

theorem length_flatMap_hexField (values : List UInt32) :
    (values.flatMap hexField).length = 8 * values.length := by
  induction values with
  | nil => rfl
  | cons value values induction =>
      rw [List.flatMap_cons, List.length_append, length_hexField, induction,
        List.length_cons]
      omega

theorem mapM_map_eq_some {α β : Type} {write : α → β} {read : β → Option α}
    {values : List α}
    (reads : ∀ value ∈ values, read (write value) = some value) :
    (values.map write).mapM read = some values := by
  induction values with
  | nil => rfl
  | cons value values induction =>
      have tail := induction fun other member =>
        reads other (List.mem_cons_of_mem value member)
      simp [reads value List.mem_cons_self, tail]

theorem readHexField_hexField (value : UInt32) (rest : Bytes) :
    readHexField (hexField value ++ rest) = some (value, rest) := by
  have digits : (hexField value).mapM hexValue? =
      some (places 16 8 value.toNat) := by
    apply mapM_map_eq_some
    intro place member
    exact hexValue?_hexByte place (lt_of_mem_places (by omega) member)
  have value_lt : value.toNat < 16 ^ 8 := value.toNat_lt
  rw [readHexField, takeBytes_append (length_hexField value)]
  simp [digits, ofPlaces_places value_lt]

end HexFields

end Foundation
