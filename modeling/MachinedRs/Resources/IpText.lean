import MachinedRs.Foundation.Numeral
import MachinedRs.Resources.Resource

/-!
# The text of IP addresses

How the standard library writes and reads an IP address, and how an address
with its prefix length is written and read over it.  A version 4 address is
four decimal octets.  A version 6 address is eight hexadecimal segments, the
longest run of zeroes left out, or an embedded version 4 address.  No two
addresses are written alike.
-/

namespace MachinedRs

open Foundation

abbrev Ipv4Addr :=
  BitVec 32

abbrev Ipv6Addr :=
  BitVec 128

def Ipv4Addr.octets (bits : Ipv4Addr) : List Nat :=
  places 256 4 bits.toNat

def Ipv6Addr.segments (bits : Ipv6Addr) : List Nat :=
  places 65536 8 bits.toNat

def Ipv4Addr.display (bits : Ipv4Addr) : List Char :=
  ['.'].intercalate ((octets bits).map (Nat.toDigits 10))

/-- A colon-separated part of an address. -/
def fmtSubslice (chunk : List Nat) : List Char :=
  [':'].intercalate (chunk.map (Nat.toDigits 16))

/-- A run of zeroes among the segments. -/
structure Span where
  start : Nat
  len : Nat
deriving DecidableEq, Repr

/-- The longest run so far and the run that reaches up to here. -/
structure Spans where
  longest : Span
  current : Span
deriving DecidableEq, Repr

def Spans.next (spans : Spans) (index segment : Nat) : Spans :=
  if segment = 0 then
    let current : Span :=
      { start := if spans.current.len = 0 then index else spans.current.start
        len := spans.current.len + 1 }
    { longest :=
        if spans.longest.len < current.len then current else spans.longest
      current := current }
  else
    { spans with current := ⟨0, 0⟩ }

def zeroSpans (segments : List Nat) : Spans :=
  segments.zipIdx.foldl (fun spans (segment, index) => spans.next index segment)
    ⟨⟨0, 0⟩, ⟨0, 0⟩⟩

def zeroes (segments : List Nat) : Span :=
  (zeroSpans segments).longest

/-- The version 4 address embedded in an IPv4-mapped address. -/
def Ipv6Addr.toIpv4Mapped (bits : Ipv6Addr) : Option Ipv4Addr :=
  if bits.toNat / 2 ^ 32 = 0xffff then some (bits.setWidth 32) else none

def fmtSegments (segments : List Nat) : List Char :=
  let span := zeroes segments
  if 1 < span.len then
    fmtSubslice (segments.take span.start) ++ ':' :: ':' ::
      fmtSubslice (segments.drop (span.start + span.len))
  else
    fmtSubslice segments

def Ipv6Addr.display (bits : Ipv6Addr) : List Char :=
  match toIpv4Mapped bits with
  | some embedded => "::ffff:".toList ++ Ipv4Addr.display embedded
  | none => fmtSegments (segments bits)

def IpAddr.display : IpAddr → List Char
  | .v4 bits => Ipv4Addr.display bits
  | .v6 bits => Ipv6Addr.display bits

def AddrCidr.display (address : AddrCidr) : List Char :=
  address.ip.display ++
    '/' :: Nat.toDigits 10 address.prefixLength.toNat

namespace Parser

/-- Take the given character off the front of the input. -/
def readGivenChar (target : Char) : List Char → Option (List Char)
  | [] => none
  | character :: rest => if character = target then some rest else none

/-- Take a number off the front of the input, stopping at the first character
that is not a digit. -/
def readNumber (radix maxDigits : Nat) (allowZeroPrefix : Bool) (bound : Nat)
    (input : List Char) : Option (Nat × List Char) :=
  let digits := input.takeWhile fun character =>
    (digit? radix character).isSome
  let hasLeadingZero := input.head? = some '0'
  if maxDigits < digits.length then
    none
  else if digits.length = 0 then
    none
  else if ¬ allowZeroPrefix ∧ hasLeadingZero ∧ 1 < digits.length then
    none
  else if numeral radix digits < bound then
    some (numeral radix digits, input.drop digits.length)
  else
    none

/-- All groups but the first follow a separator. -/
def readSeparator {α : Type} (separator : Char) (index : Nat)
    (inner : List Char → Option (α × List Char)) (input : List Char) :
    Option (α × List Char) :=
  if 0 < index then
    (readGivenChar separator input).bind inner
  else
    inner input

/-- The octets from `index` on. -/
def readOctets : (remaining index : Nat) → List Char →
    Option (List Nat × List Char)
  | 0, _, input => some ([], input)
  | remaining + 1, index, input =>
      (readSeparator '.' index (readNumber 10 3 false 256) input).bind
        fun (octet, rest) =>
          (readOctets remaining (index + 1) rest).map
            fun (octets, rest) => (octet :: octets, rest)

def readIpv4Addr (input : List Char) : Option (Ipv4Addr × List Char) :=
  (readOctets 4 0 input).map
    fun (octets, rest) => (BitVec.ofNat 32 (ofPlaces 256 octets), rest)

/-- Colon-separated groups with an optional embedded version 4 address at the
end; the flag tells whether there was one. -/
def readGroups : (remaining index : Nat) → List Char →
    List Nat × Bool × List Char
  | 0, _, input => ([], false, input)
  | remaining + 1, index, input =>
      let embedded :=
        if 0 < remaining then readSeparator ':' index readIpv4Addr input
        else none
      match embedded with
      | some (address, rest) => (places 65536 2 address.toNat, true, rest)
      | none =>
          match readSeparator ':' index (readNumber 16 4 true 65536) input with
          | some (group, rest) =>
              let (groups, isEmbedded, rest) :=
                readGroups remaining (index + 1) rest
              (group :: groups, isEmbedded, rest)
          | none => ([], false, input)

def ofSegments (segments : List Nat) : Ipv6Addr :=
  BitVec.ofNat 128 (ofPlaces 65536 segments)

def readIpv6Addr (input : List Char) : Option (Ipv6Addr × List Char) :=
  let (head, headIpv4, rest) := readGroups 8 0 input
  if head.length = 8 then
    some (ofSegments head, rest)
  else if headIpv4 then
    none
  else
    ((readGivenChar ':' rest).bind (readGivenChar ':')).map fun rest =>
      let (tail, _, rest) := readGroups (8 - (head.length + 1)) 0 rest
      let zeroes := List.replicate (8 - head.length - tail.length) 0
      (ofSegments (head ++ zeroes ++ tail), rest)

def readIpAddr (input : List Char) : Option (IpAddr × List Char) :=
  match readIpv4Addr input with
  | some (bits, rest) => some (.v4 bits, rest)
  | none => (readIpv6Addr input).map fun (bits, rest) => (.v6 bits, rest)

end Parser

/-- An address is read from the whole text or not at all. -/
def IpAddr.fromStr (text : List Char) : Option IpAddr :=
  (Parser.readIpAddr text).bind fun (address, rest) =>
    if rest = [] then some address else none

/-- `u8::from_str`: decimal digits after an optional plus sign. -/
def parseU8 (text : List Char) : Option UInt8 :=
  let digits :=
    match text with
    | '+' :: rest => rest
    | _ => text
  if digits ≠ [] ∧ digits.all (fun character => (digit? 10 character).isSome) ∧
      numeral 10 digits < 256 then
    some (UInt8.ofNat (numeral 10 digits))
  else
    none

/-- `str::split_once`. -/
def splitOnce (separator : Char) (text : List Char) :
    Option (List Char × List Char) :=
  match text.dropWhile (· ≠ separator) with
  | [] => none
  | _ :: rest => some (text.takeWhile (· ≠ separator), rest)

/-- The longest prefix length of the address family. -/
def IpAddr.most : IpAddr → UInt8
  | .v4 _ => 32
  | .v6 _ => 128

def AddrCidr.fromStr (text : String) : Option AddrCidr :=
  (splitOnce '/' text.toList).bind fun (ipText, prefixText) =>
    (IpAddr.fromStr ipText).bind fun ip =>
      (parseU8 prefixText).bind fun prefixLength =>
        if ip.most < prefixLength then none else some ⟨ip, prefixLength⟩

example : AddrCidr.fromStr "192.168.1.10/24" =
    some ⟨.v4 0xC0A8010A, 24⟩ := by
  decide +kernel

example : AddrCidr.fromStr "2001:db8::10.0.0.1/+064" =
    some ⟨.v6 0x20010db800000000000000000a000001, 64⟩ := by
  decide +kernel

example : AddrCidr.fromStr "192.168.1.010/24" = none := by
  decide +kernel

example : AddrCidr.fromStr "1::2::3/64" = none := by
  decide +kernel

section Separated

variable {separator : Char} {base : Nat}

/-- Numbers that are written one after the other are read back from the pieces
between the separators. -/
theorem splitOn_intercalate_toDigits
    (other : ∀ place < 16, separator ≠ Nat.digitChar place)
    (large : 1 < base) (bounded : base ≤ 16) {numbers : List Nat}
    (nonempty : numbers ≠ []) :
    ([separator].intercalate (numbers.map (Nat.toDigits base))).splitOn
        separator =
      numbers.map (Nat.toDigits base) := by
  apply List.splitOn_intercalate
  · intro piece member
    obtain ⟨number, _, rfl⟩ := List.mem_map.mp member
    exact notMem_toDigits other large bounded number
  · intro empty
    exact nonempty (List.map_eq_nil_iff.mp empty)

theorem mem_intercalate_toDigits (large : 1 < base) (bounded : base ≤ 16)
    {numbers : List Nat} {character : Char}
    (member : character ∈
      [separator].intercalate (numbers.map (Nat.toDigits base))) :
    character = separator ∨ ∃ place < 16, character = Nat.digitChar place := by
  rcases mem_intercalate member with same | ⟨piece, isPiece, inside⟩
  · exact .inl same
  · obtain ⟨number, _, rfl⟩ := List.mem_map.mp isPiece
    exact .inr (mem_toDigits large bounded inside)

theorem map_toDigits_injective (large : 1 < base) (bounded : base ≤ 16)
    {first second : List Nat}
    (same : first.map (Nat.toDigits base) =
      second.map (Nat.toDigits base)) :
    first = second := by
  refine List.map_injective_iff.mpr ?_ same
  intro one other equal
  exact toDigits_injective large bounded equal

end Separated

theorem Ipv4Addr.octets_ne_nil (bits : Ipv4Addr) : octets bits ≠ [] := by
  intro empty
  have length : (octets bits).length = 4 := length_places 4 bits.toNat
  rw [empty] at length
  cases length

theorem Ipv4Addr.display_injective {first second : Ipv4Addr}
    (same : display first = display second) : first = second := by
  have pieces := congrArg (List.splitOn '.') same
  rw [display, display,
    splitOn_intercalate_toDigits (by decide) (by decide) (by decide)
      (octets_ne_nil first),
    splitOn_intercalate_toDigits (by decide) (by decide) (by decide)
      (octets_ne_nil second)] at pieces
  apply BitVec.eq_of_toNat_eq
  have fits : ∀ bits : Ipv4Addr, bits.toNat < 256 ^ 4 :=
    fun bits => bits.isLt
  exact eq_of_places_eq (fits first) (fits second)
    (map_toDigits_injective (by decide) (by decide) pieces)

theorem Ipv4Addr.mem_display {bits : Ipv4Addr} {character : Char}
    (member : character ∈ display bits) :
    character = '.' ∨ ∃ place < 16, character = Nat.digitChar place :=
  mem_intercalate_toDigits (by decide) (by decide) member

theorem Ipv4Addr.dot_mem_display (bits : Ipv4Addr) :
    '.' ∈ display bits := by
  by_contra absent
  have pieces : (display bits).splitOn '.' =
      (octets bits).map (Nat.toDigits 10) :=
    splitOn_intercalate_toDigits (by decide) (by decide) (by decide)
      (octets_ne_nil bits)
  rw [List.splitOn_eq_singleton absent] at pieces
  have length := congrArg List.length pieces
  rw [List.length_map, octets, length_places] at length
  cases length

/-- The spans mark runs of zeroes in the segments read so far. -/
structure Spans.Mark (spans : Spans) (segments : List Nat) : Prop where
  longest : ∃ before after,
    segments = before ++ List.replicate spans.longest.len 0 ++ after ∧
      before.length = spans.longest.start
  current : ∃ before,
    segments = before ++ List.replicate spans.current.len 0 ∧
      (spans.current.len = 0 ∨ before.length = spans.current.start)

theorem Spans.Mark.next {spans : Spans} {segments : List Nat}
    (mark : spans.Mark segments) (segment : Nat) :
    (spans.next segments.length segment).Mark (segments ++ [segment]) := by
  obtain ⟨⟨before, after, split, start⟩, ⟨rest, run, runStart⟩⟩ := mark
  have kept : ∃ before after,
      segments ++ [segment] =
        before ++ List.replicate spans.longest.len 0 ++ after ∧
      before.length = spans.longest.start := by
    refine ⟨before, after ++ [segment], ?_, start⟩
    rw [split, List.append_assoc _ after]
  by_cases zero : segment = 0
  · have current : ∃ before,
        segments ++ [segment] =
          before ++ List.replicate (spans.current.len + 1) 0 ∧
        before.length =
          if spans.current.len = 0 then segments.length
          else spans.current.start := by
      by_cases none : spans.current.len = 0
      · refine ⟨segments, ?_, (if_pos none).symm⟩
        rw [none, zero]
        rfl
      · refine ⟨rest, ?_, ?_⟩
        · rw [run, zero, List.append_assoc, ← List.replicate_succ']
        · rw [if_neg none]
          exact runStart.resolve_left none
    rw [Spans.next, if_pos zero]
    refine ⟨?_, ?_⟩
    · dsimp only
      split
      · obtain ⟨before, here, hereStart⟩ := current
        exact ⟨before, [], by rw [List.append_nil]; exact here, hereStart⟩
      · exact kept
    · obtain ⟨before, here, hereStart⟩ := current
      exact ⟨before, here, .inr hereStart⟩
  · rw [Spans.next, if_neg zero]
    refine ⟨kept, segments ++ [segment], ?_, .inl rfl⟩
    simp

theorem zeroSpans_mark (segments : List Nat) :
    (zeroSpans segments).Mark segments := by
  induction segments using List.reverseRecOn with
  | nil => exact ⟨⟨[], [], rfl, rfl⟩, [], rfl, .inl rfl⟩
  | append_singleton segments segment induction =>
      have step : zeroSpans (segments ++ [segment]) =
          (zeroSpans segments).next segments.length segment := by
        simp [zeroSpans, List.zipIdx_append]
      rw [step]
      exact induction.next segment

/-- Segments are written in full or around a run of zeroes. -/
theorem fmtSegments_cases (segments : List Nat) :
    fmtSegments segments = fmtSubslice segments ∨
      ∃ before count after,
        segments = before ++ List.replicate count 0 ++ after ∧ 1 < count ∧
        fmtSegments segments =
          fmtSubslice before ++ ':' :: ':' :: fmtSubslice after := by
  by_cases compressed : 1 < (zeroes segments).len
  · obtain ⟨before, after, split, start⟩ := (zeroSpans_mark segments).longest
    refine .inr ⟨before, (zeroes segments).len, after, split, compressed, ?_⟩
    have front : segments.take (zeroes segments).start = before := by
      have length : (zeroes segments).start = before.length := start.symm
      rw [length]
      nth_rewrite 1 [split]
      rw [List.append_assoc, List.take_left]
    have back : segments.drop
        ((zeroes segments).start + (zeroes segments).len) = after := by
      have length : (zeroes segments).start + (zeroes segments).len =
          (before ++ List.replicate (zeroes segments).len 0).length := by
        rw [List.length_append, List.length_replicate, start]
        rfl
      rw [length]
      nth_rewrite 2 [split]
      exact List.drop_left
    rw [fmtSegments, if_pos compressed, front, back]
  · exact .inl (if_neg compressed)

/-- The pieces of a part, of which an empty one has none. -/
theorem splitOn_fmtSubslice (chunk : List Nat) :
    (fmtSubslice chunk).splitOn ':' =
      if chunk.map (Nat.toDigits 16) = [] then [[]]
      else chunk.map (Nat.toDigits 16) := by
  split
  case isTrue empty =>
    rw [List.map_eq_nil_iff.mp empty]
    rfl
  case isFalse nonempty =>
    apply splitOn_intercalate_toDigits (by decide) (by decide) (by decide)
    rintro rfl
    exact nonempty rfl

/-- The pieces up to the first empty one. -/
def leadingPieces (pieces : List (List Char)) : List (List Char) :=
  pieces.takeWhile (· ≠ [])

theorem leadingPieces_append {pieces : List (List Char)}
    (solid : ∀ piece ∈ pieces, piece ≠ []) (rest : List (List Char)) :
    leadingPieces ((if pieces = [] then [[]] else pieces) ++ [] :: rest) =
      pieces := by
  split
  case isTrue empty =>
    rw [empty]
    rfl
  case isFalse =>
    rw [leadingPieces, List.takeWhile_append_of_pos]
    · simp
    · intro piece member
      exact decide_eq_true (solid piece member)

theorem solid_of_mem {chunk : List Nat} {piece : List Char}
    (member : piece ∈ chunk.map (Nat.toDigits 16)) : piece ≠ [] := by
  obtain ⟨number, _, rfl⟩ := List.mem_map.mp member
  exact Nat.toDigits_ne_nil

/-- Eight segments from the pieces of their text. -/
def readBack (text : List Char) : List Nat :=
  let pieces := text.splitOn ':'
  let front := leadingPieces pieces
  let back := (leadingPieces pieces.reverse).reverse
  if front.length = 8 then
    front.map (numeral 16)
  else
    front.map (numeral 16) ++
      List.replicate (8 - front.length - back.length) 0 ++
      back.map (numeral 16)

theorem map_numeral_toDigits (chunk : List Nat) :
    (chunk.map (Nat.toDigits 16)).map (numeral 16) = chunk := by
  rw [List.map_map]
  have same : numeral 16 ∘ Nat.toDigits 16 = id := by
    funext number
    exact numeral_toDigits (by decide) (by decide) number
  rw [same, List.map_id]

theorem readBack_fmtSubslice {chunk : List Nat} (eight : chunk.length = 8) :
    readBack (fmtSubslice chunk) = chunk := by
  have nonempty : chunk.map (Nat.toDigits 16) ≠ [] := by
    intro empty
    rw [List.map_eq_nil_iff.mp empty] at eight
    cases eight
  have all : leadingPieces (chunk.map (Nat.toDigits 16)) =
      chunk.map (Nat.toDigits 16) := by
    have kept : ∀ piece ∈ chunk.map (Nat.toDigits 16),
        decide (piece ≠ []) = true :=
      fun _ member => decide_eq_true (solid_of_mem member)
    have taken : leadingPieces (chunk.map (Nat.toDigits 16) ++ []) =
        chunk.map (Nat.toDigits 16) ++ leadingPieces [] :=
      List.takeWhile_append_of_pos kept
    rw [List.append_nil] at taken
    rw [taken]
    exact List.append_nil _
  have long : (chunk.map (Nat.toDigits 16)).length = 8 := by
    rw [List.length_map, eight]
  rw [readBack, splitOn_fmtSubslice, if_neg nonempty, all,
    if_pos long, map_numeral_toDigits]

theorem readBack_compressed {before after : List Nat} {count : Nat}
    (eight : (before ++ List.replicate count 0 ++ after).length = 8)
    (several : 1 < count) :
    readBack (fmtSubslice before ++ ':' :: ':' :: fmtSubslice after) =
      before ++ List.replicate count 0 ++ after := by
  have pieces : (fmtSubslice before ++ ':' :: ':' ::
      fmtSubslice after).splitOn ':' =
      (fmtSubslice before).splitOn ':' ++
        [] :: (fmtSubslice after).splitOn ':' := by
    rw [List.splitOn_append_cons_self, List.splitOn_cons_eq_if_modifyHead]
    rfl
  have front : leadingPieces ((fmtSubslice before).splitOn ':' ++
      [] :: (fmtSubslice after).splitOn ':') =
      before.map (Nat.toDigits 16) := by
    rw [splitOn_fmtSubslice before]
    exact leadingPieces_append (fun _ member => solid_of_mem member) _
  have back : leadingPieces ((fmtSubslice before).splitOn ':' ++
      [] :: (fmtSubslice after).splitOn ':').reverse =
      (after.map (Nat.toDigits 16)).reverse := by
    have turned : ((fmtSubslice after).splitOn ':').reverse =
        if (after.map (Nat.toDigits 16)).reverse = [] then [[]]
        else (after.map (Nat.toDigits 16)).reverse := by
      rw [splitOn_fmtSubslice]
      simp only [List.reverse_eq_nil_iff]
      split
      · rfl
      · rfl
    rw [List.reverse_append, List.reverse_cons, List.append_assoc, turned]
    apply leadingPieces_append
    intro piece member
    exact solid_of_mem (List.mem_reverse.mp member)
  have lengths : before.length + count + after.length = 8 := by
    simpa [Nat.add_assoc] using eight
  rw [readBack, pieces, front, back, List.reverse_reverse, List.length_map,
    List.length_map, if_neg (by omega), map_numeral_toDigits, map_numeral_toDigits]
  have missing : 8 - before.length - after.length = count := by omega
  rw [missing]

theorem readBack_fmtSegments {segments : List Nat}
    (eight : segments.length = 8) :
    readBack (fmtSegments segments) = segments := by
  rcases fmtSegments_cases segments with full |
    ⟨before, count, after, split, several, compressed⟩
  · rw [full]
    exact readBack_fmtSubslice eight
  · rw [compressed, split]
    rw [split] at eight
    exact readBack_compressed eight several

theorem mem_fmtSegments {segments : List Nat} {character : Char}
    (member : character ∈ fmtSegments segments) :
    character = ':' ∨ ∃ place < 16, character = Nat.digitChar place := by
  have part : ∀ chunk : List Nat, character ∈ fmtSubslice chunk →
      character = ':' ∨ ∃ place < 16, character = Nat.digitChar place :=
    fun _ inside => mem_intercalate_toDigits (by decide) (by decide) inside
  rcases fmtSegments_cases segments with full | ⟨before, _, after, _, _, text⟩
  · rw [full] at member
    exact part segments member
  · rw [text, List.mem_append, List.mem_cons, List.mem_cons] at member
    rcases member with inside | colon | colon | inside
    · exact part before inside
    · exact .inl colon
    · exact .inl colon
    · exact part after inside

theorem colon_mem_fmtSegments {segments : List Nat}
    (eight : segments.length = 8) : ':' ∈ fmtSegments segments := by
  rcases fmtSegments_cases segments with full | ⟨before, _, after, _, _, text⟩
  · by_contra absent
    rw [full] at absent
    have whole := List.splitOn_eq_singleton absent
    rw [splitOn_fmtSubslice] at whole
    have length := congrArg List.length whole
    split at length
    case isTrue empty =>
      rw [List.map_eq_nil_iff.mp empty] at eight
      cases eight
    case isFalse =>
      rw [List.length_map, eight] at length
      cases length
  · rw [text]
    simp

/-- A version 6 address is written with its embedded address or as its
segments. -/
theorem Ipv6Addr.display_cases (bits : Ipv6Addr) :
    (∃ embedded : Ipv4Addr,
        bits.toNat = 0xffff * 2 ^ 32 + embedded.toNat ∧
        display bits = "::ffff:".toList ++ Ipv4Addr.display embedded) ∨
      display bits = fmtSegments (segments bits) := by
  by_cases mapped : bits.toNat / 2 ^ 32 = 0xffff
  · refine .inl ⟨bits.setWidth 32, ?_, ?_⟩
    · rw [BitVec.toNat_setWidth, ← mapped, Nat.mul_comm]
      exact (Nat.div_add_mod bits.toNat (2 ^ 32)).symm
    · rw [display, toIpv4Mapped, if_pos mapped]
  · refine .inr ?_
    rw [display, toIpv4Mapped, if_neg mapped]

theorem Ipv6Addr.length_segments (bits : Ipv6Addr) :
    (segments bits).length = 8 :=
  length_places 8 bits.toNat

theorem Ipv6Addr.dot_notMem_fmtSegments (segments : List Nat) :
    '.' ∉ fmtSegments segments := by
  intro member
  rcases mem_fmtSegments member with colon | ⟨place, small, same⟩
  · cases colon
  · revert place
    decide

theorem Ipv6Addr.display_injective {first second : Ipv6Addr}
    (same : display first = display second) : first = second := by
  have hasDot : ∀ embedded : Ipv4Addr,
      '.' ∈ "::ffff:".toList ++ Ipv4Addr.display embedded := fun embedded =>
    List.mem_append_right _ (Ipv4Addr.dot_mem_display embedded)
  apply BitVec.eq_of_toNat_eq
  rcases display_cases first with ⟨embedded, value, text⟩ | text
  · rcases display_cases second with ⟨other, otherValue, otherText⟩ | otherText
    · rw [text, otherText] at same
      rw [value, otherValue,
        Ipv4Addr.display_injective (List.append_cancel_left same)]
    · rw [text, otherText] at same
      have dot := hasDot embedded
      rw [same] at dot
      exact absurd dot (dot_notMem_fmtSegments _)
  · rcases display_cases second with ⟨other, otherValue, otherText⟩ | otherText
    · rw [text, otherText] at same
      have dot := hasDot other
      rw [← same] at dot
      exact absurd dot (dot_notMem_fmtSegments _)
    · rw [text, otherText] at same
      have back := congrArg readBack same
      rw [readBack_fmtSegments (length_segments first),
        readBack_fmtSegments (length_segments second)] at back
      have fits : ∀ bits : Ipv6Addr, bits.toNat < 65536 ^ 8 :=
        fun bits => bits.isLt
      exact eq_of_places_eq (fits first) (fits second) back

theorem Ipv6Addr.colon_mem_display (bits : Ipv6Addr) :
    ':' ∈ display bits := by
  rcases display_cases bits with ⟨embedded, _, text⟩ | text
  · rw [text]
    exact List.mem_append_left _ (by decide)
  · rw [text]
    exact colon_mem_fmtSegments (length_segments bits)

theorem IpAddr.mem_display {ip : IpAddr} {character : Char}
    (member : character ∈ ip.display) :
    character = '.' ∨ character = ':' ∨
      ∃ place < 16, character = Nat.digitChar place := by
  have ofV4 : ∀ bits : Ipv4Addr, character ∈ Ipv4Addr.display bits →
      character = '.' ∨ character = ':' ∨
        ∃ place < 16, character = Nat.digitChar place := by
    intro bits inside
    rcases Ipv4Addr.mem_display inside with dot | digit
    · exact .inl dot
    · exact .inr (.inr digit)
  cases ip with
  | v4 bits => exact ofV4 bits member
  | v6 bits =>
      rw [display] at member
      rcases Ipv6Addr.display_cases bits with ⟨embedded, _, text⟩ | text
      · rw [text, List.mem_append] at member
        rcases member with marker | inside
        · have known : "::ffff:".toList.all (fun symbol =>
              symbol = ':' ∨ symbol = Nat.digitChar 15) = true := by
            decide
          rcases of_decide_eq_true (List.all_eq_true.mp known character marker)
            with colon | digit
          · exact .inr (.inl colon)
          · exact .inr (.inr ⟨15, by decide, digit⟩)
        · exact ofV4 embedded inside
      · rw [text] at member
        exact .inr (mem_fmtSegments member)

theorem IpAddr.slash_notMem_display (ip : IpAddr) : '/' ∉ ip.display := by
  intro member
  rcases mem_display member with dot | colon | ⟨place, small, same⟩
  · cases dot
  · cases colon
  · revert place
    decide

theorem IpAddr.display_injective {first second : IpAddr}
    (same : first.display = second.display) : first = second := by
  have apart : ∀ (v4 : Ipv4Addr) (v6 : Ipv6Addr),
      Ipv4Addr.display v4 ≠ Ipv6Addr.display v6 := by
    intro v4 v6 equal
    have colon := Ipv6Addr.colon_mem_display v6
    rw [← equal] at colon
    rcases Ipv4Addr.mem_display colon with dot | ⟨place, small, digit⟩
    · cases dot
    · revert place
      decide
  cases first with
  | v4 bits =>
      cases second with
      | v4 other => rw [Ipv4Addr.display_injective same]
      | v6 other => exact absurd same (apart bits other)
  | v6 bits =>
      cases second with
      | v4 other => exact absurd same.symm (apart other bits)
      | v6 other => rw [Ipv6Addr.display_injective same]

theorem slash_notMem_toDigits (number : Nat) :
    '/' ∉ Nat.toDigits 10 number :=
  notMem_toDigits (by decide) (by decide) (by decide) number

theorem AddrCidr.display_injective {first second : AddrCidr}
    (same : first.display = second.display) : first = second := by
  obtain ⟨ip, length⟩ := append_separator_inj (slash_notMem_toDigits _)
    (slash_notMem_toDigits _) same
  have sameLength := UInt8.toNat_inj.mp
    (toDigits_injective (by decide) (by decide) length)
  have sameIp := IpAddr.display_injective ip
  cases first
  cases second
  cases sameIp
  cases sameLength
  rfl

end MachinedRs
