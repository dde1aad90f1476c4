import MachinedRs.Resources.IpText
import Mathlib.Data.List.TakeWhile
import Mathlib.Data.Nat.Digits.Defs

/-!
# Addresses are read back as they were written

Whatever address and prefix length is written, reading the text gives it back:
four octets, eight segments, segments with a run of zeroes left out, or an
embedded version 4 address.  The reader tries a version 4 address first, at the
start of the text and again at every group of a version 6 address, so it has to
fail at once on hexadecimal groups.
-/

namespace MachinedRs

open Foundation

namespace Parser

theorem eq_zero_of_leading_zero {base : Nat} (large : 1 < base)
    (bounded : base ≤ 16) {number : Nat}
    (leading : (Nat.toDigits base number).head? = some '0') : number = 0 := by
  induction number using Nat.strongRecOn with
  | ind number induction =>
      by_cases small : number < base
      · rw [Nat.toDigits_of_lt_base small] at leading
        have isZero : ∀ place < 16, Nat.digitChar place = '0' → place = 0 := by
          decide
        exact isZero number (Nat.lt_of_lt_of_le small bounded)
          (Option.some.inj leading)
      · have reached : base ≤ number := Nat.le_of_not_lt small
        rw [Nat.toDigits_of_base_le large reached,
          List.head?_append_of_ne_nil _ Nat.toDigits_ne_nil] at leading
        have zero := induction (number / base)
          (Nat.div_lt_self (by omega) large) leading
        have positive := Nat.div_pos reached (by omega)
        omega

theorem isSome_digit?_of_mem {base : Nat} (large : 1 < base)
    (bounded : base ≤ 16) {number : Nat} :
    ∀ character ∈ Nat.toDigits base number,
      (digit? base character).isSome = true := by
  induction number using Nat.strongRecOn with
  | ind number induction =>
      intro character member
      by_cases small : number < base
      · rw [Nat.toDigits_of_lt_base small, List.mem_singleton] at member
        rw [member, digit?_digitChar small bounded]
        rfl
      · rw [Nat.toDigits_of_base_le large (Nat.le_of_not_lt small),
          List.mem_append, List.mem_singleton] at member
        rcases member with earlier | last
        · exact induction (number / base)
            (Nat.div_lt_self (by omega) large) character earlier
        · rw [last, digit?_digitChar (Nat.mod_lt _ (by omega)) bounded]
          rfl

/-- The text goes on with something that is no digit. -/
def Stops (base : Nat) (rest : List Char) : Prop :=
  ∀ character, rest.head? = some character → digit? base character = none

theorem takeWhile_toDigits {base : Nat} {rest : List Char} (large : 1 < base)
    (bounded : base ≤ 16) (stops : Stops base rest) (number : Nat) :
    (Nat.toDigits base number ++ rest).takeWhile
      (fun character => (digit? base character).isSome) =
        Nat.toDigits base number := by
  rw [List.takeWhile_append_of_pos (isSome_digit?_of_mem large bounded)]
  cases rest with
  | nil => exact List.append_nil _
  | cons character rest =>
      rw [List.takeWhile_cons_of_neg (by simp [stops character rfl]),
        List.append_nil]

theorem readNumber_toDigits {base most bound number : Nat} {allowed : Bool}
    {rest : List Char} (large : 1 < base) (bounded : base ≤ 16)
    (short : (Nat.toDigits base number).length ≤ most)
    (small : number < bound) (stops : Stops base rest) :
    readNumber base most allowed bound (Nat.toDigits base number ++ rest) =
      some (number, rest) := by
  have digits := takeWhile_toDigits large bounded stops number
  have nonempty : (Nat.toDigits base number).length ≠ 0 := by
    rw [Ne, List.length_eq_zero_iff]
    exact Nat.toDigits_ne_nil
  have plain : ¬ (¬ allowed ∧
      (Nat.toDigits base number ++ rest).head? = some '0' ∧
      1 < (Nat.toDigits base number).length) := by
    rintro ⟨_, leading, several⟩
    rw [List.head?_append_of_ne_nil _ Nat.toDigits_ne_nil] at leading
    rw [eq_zero_of_leading_zero large bounded leading,
      Nat.toDigits_of_lt_base (by omega)] at several
    exact absurd several (by decide)
  rw [readNumber]
  simp only [digits, numeral_toDigits large bounded]
  rw [if_neg (by omega), if_neg nonempty, if_neg plain, if_pos small,
    List.drop_left]

/-- The numbers after the first one. -/
def following (separator : Char) (base : Nat) (numbers : List Nat) :
    List Char :=
  numbers.flatMap fun number => separator :: Nat.toDigits base number

section Following

variable {separator : Char} {base : Nat}

theorem intercalate_cons (number : Nat) (numbers : List Nat) :
    [separator].intercalate ((number :: numbers).map (Nat.toDigits base)) =
      Nat.toDigits base number ++ following separator base numbers := by
  induction numbers generalizing number with
  | nil => simp [following]
  | cons next numbers induction =>
      rw [List.map_cons, List.map_cons, List.intercalate_cons_cons,
        ← List.map_cons, induction]
      simp [following]

theorem following_cons (number : Nat) (numbers : List Nat)
    (rest : List Char) :
    following separator base (number :: numbers) ++ rest =
      separator :: (Nat.toDigits base number ++
        (following separator base numbers ++ rest)) := by
  simp [following]

theorem stops_following (separator : Char)
    (apart : digit? base separator = none)
    (numbers : List Nat) {rest : List Char} (stops : Stops base rest) :
    Stops base (following separator base numbers ++ rest) := by
  cases numbers with
  | nil => exact stops
  | cons number numbers =>
      rintro character ⟨⟩
      exact apart

end Following

theorem readOctet {octet : Nat} {rest : List Char} (small : octet < 256)
    (stops : Stops 10 rest) :
    readNumber 10 3 false 256 (Nat.toDigits 10 octet ++ rest) =
      some (octet, rest) :=
  readNumber_toDigits (by decide) (by decide)
    (Nat.toDigits_length 10 octet 3 (by decide) (by omega)) small stops

/-- One octet, after the separator if it is not the first. -/
theorem readOctets_cons {octet index : Nat} {octets : List Nat}
    {input rest : List Char} (small : octet < 256) (stops : Stops 10 rest)
    (skips : readSeparator '.' index (readNumber 10 3 false 256) input =
      readNumber 10 3 false 256
        (Nat.toDigits 10 octet ++ (following '.' 10 octets ++ rest)))
    (next : readOctets octets.length (index + 1)
      (following '.' 10 octets ++ rest) = some (octets, rest)) :
    readOctets (octets.length + 1) index input =
      some (octet :: octets, rest) := by
  have following := stops_following '.' (by decide) octets stops
  rw [readOctets, skips, readOctet small following, Option.bind_some]
  dsimp only
  rw [next]
  rfl

theorem readOctets_following (octets : List Nat) (index : Nat)
    {rest : List Char} (small : ∀ octet ∈ octets, octet < 256)
    (stops : Stops 10 rest) :
    readOctets octets.length (index + 1) (following '.' 10 octets ++ rest) =
      some (octets, rest) := by
  induction octets generalizing index with
  | nil => rfl
  | cons octet octets induction =>
      obtain ⟨first, others⟩ := List.forall_mem_cons.mp small
      rw [following_cons]
      exact readOctets_cons first stops rfl (induction (index + 1) others)

theorem readIpv4Addr_display (bits : Ipv4Addr) {rest : List Char}
    (stops : Stops 10 rest) :
    readIpv4Addr (Ipv4Addr.display bits ++ rest) = some (bits, rest) := by
  have small : ∀ octet ∈ Ipv4Addr.octets bits, octet < 256 :=
    fun _ => lt_of_mem_places (by decide)
  have four : (Ipv4Addr.octets bits).length = 4 := length_places 4 bits.toNat
  have value : BitVec.ofNat 32 (ofPlaces 256 (Ipv4Addr.octets bits)) =
      bits := by
    have fits : bits.toNat < 256 ^ 4 := bits.isLt
    rw [Ipv4Addr.octets, ofPlaces_places fits, BitVec.ofNat_toNat,
      BitVec.setWidth_eq]
  rw [Ipv4Addr.display, readIpv4Addr]
  cases split : Ipv4Addr.octets bits with
  | nil =>
      rw [split] at four
      cases four
  | cons octet octets =>
      rw [split] at small four value
      obtain ⟨first, others⟩ := List.forall_mem_cons.mp small
      have read := readOctets_cons first stops rfl
        (readOctets_following octets 0 others stops)
      rw [Nat.succ.inj four] at read
      rw [intercalate_cons, List.append_assoc, read, ← value]
      rfl

theorem readNumber_rest {base most bound number : Nat} {allowed : Bool}
    {input rest : List Char}
    (read : readNumber base most allowed bound input = some (number, rest)) :
    ∃ digits, input = digits ++ rest ∧
      ∀ character ∈ digits, (digit? base character).isSome = true := by
  refine ⟨input.takeWhile fun character => (digit? base character).isSome,
    ?_, fun _ => List.mem_takeWhile_imp⟩
  simp only [readNumber] at read
  split_ifs at read
  cases read
  exact (List.prefix_iff_eq_append.mp (List.takeWhile_prefix _)).symm

/-- A version 4 address has a dot before any colon. -/
theorem readIpv4Addr_eq_none {input : List Char}
    (noDot : '.' ∉ input.takeWhile (· ≠ ':')) : readIpv4Addr input = none := by
  rw [readIpv4Addr, Option.map_eq_none_iff, readOctets, readSeparator,
    if_neg (Nat.lt_irrefl 0)]
  cases read : readNumber 10 3 false 256 input with
  | none => rfl
  | some result =>
      obtain ⟨number, rest⟩ := result
      obtain ⟨digits, rfl, isDigit⟩ := readNumber_rest read
      rw [Option.bind_some]
      dsimp only
      rw [readOctets, readSeparator, if_pos (Nat.succ_pos 0)]
      cases rest with
      | nil => rfl
      | cons character rest =>
          by_cases dot : character = '.'
          · subst dot
            refine absurd ?_ noDot
            rw [List.takeWhile_append_of_pos, List.takeWhile_cons_of_pos rfl]
            · exact List.mem_append_right _ List.mem_cons_self
            · intro digit member
              have value := isDigit digit member
              rw [decide_eq_true_eq]
              rintro rfl
              cases value
          · rw [readGivenChar, if_neg dot]
            rfl

/-- The groups end here: nothing follows, or the place of the zeroes. -/
inductive Ends : List Char → Prop where
  | text : Ends []
  | zeroes (rest : List Char) : Ends (':' :: ':' :: rest)

theorem Ends.stops {rest : List Char} (ends : Ends rest) : Stops 16 rest := by
  cases ends with
  | text => nofun
  | zeroes rest =>
      rintro character ⟨⟩
      decide

theorem Ends.takeWhile {rest : List Char} (ends : Ends rest)
    (groups : List Nat) :
    (following ':' 16 groups ++ rest).takeWhile (· ≠ ':') = [] := by
  cases groups with
  | nil =>
      cases ends with
      | text => rfl
      | zeroes rest => rfl
  | cons group groups => rfl

section Group

variable {group : Nat} {rest : List Char}

/-- A group is not taken for the start of a version 4 address. -/
theorem group_not_ipv4 (group : Nat)
    (colon : rest.takeWhile (· ≠ ':') = []) :
    readIpv4Addr (Nat.toDigits 16 group ++ rest) = none := by
  apply readIpv4Addr_eq_none
  have digits : ∀ character ∈ Nat.toDigits 16 group,
      decide (character ≠ ':') = true := by
    intro character member
    rw [decide_eq_true_eq]
    rintro rfl
    exact notMem_toDigits (by decide) (by decide) (by decide) group member
  rw [List.takeWhile_append_of_pos digits, colon, List.append_nil]
  exact notMem_toDigits (by decide) (by decide) (by decide) group

theorem readGroup (small : group < 65536) (stops : Stops 16 rest) :
    readNumber 16 4 true 65536 (Nat.toDigits 16 group ++ rest) =
      some (group, rest) :=
  readNumber_toDigits (by decide) (by decide)
    (Nat.toDigits_length 16 group 4 (by decide) (by omega)) small stops

end Group

theorem readGroups_end {rest : List Char} (ends : Ends rest)
    (remaining index : Nat) :
    readGroups remaining index rest = ([], false, rest) := by
  have noIpv4 : ∀ tail, readIpv4Addr (':' :: tail) = none :=
    fun tail => readIpv4Addr_eq_none (by simp)
  have noGroup : ∀ tail, readNumber 16 4 true 65536 (':' :: tail) = none :=
    fun _ => rfl
  cases remaining with
  | zero => rfl
  | succ remaining =>
      cases ends with
      | text =>
          cases index with
          | zero => simp [readGroups, readSeparator, readIpv4Addr, readOctets,
              readNumber]
          | succ index => simp [readGroups, readSeparator, readGivenChar]
      | zeroes rest =>
          cases index with
          | zero => simp [readGroups, readSeparator, noIpv4, noGroup]
          | succ index =>
              simp [readGroups, readSeparator, readGivenChar, noIpv4, noGroup]

/-- One group, after the separator if it is not the first. -/
theorem readGroups_cons {group remaining index : Nat} {groups : List Nat}
    {input rest : List Char} (ends : Ends rest) (small : group < 65536)
    (skips : ∀ {α : Type} (inner : List Char → Option (α × List Char)),
      readSeparator ':' index inner input =
        inner (Nat.toDigits 16 group ++ (following ':' 16 groups ++ rest)))
    (next : readGroups remaining (index + 1)
      (following ':' 16 groups ++ rest) = (groups, false, rest)) :
    readGroups (remaining + 1) index input = (group :: groups, false, rest) := by
  have noIpv4 := group_not_ipv4 group (ends.takeWhile groups)
  have read := readGroup small
    (stops_following ':' (by decide) groups ends.stops)
  simp only [readGroups, skips, noIpv4, ite_self, read, next]

theorem readGroups_following (groups : List Nat) (remaining index : Nat)
    {rest : List Char} (ends : Ends rest) (enough : groups.length ≤ remaining)
    (small : ∀ group ∈ groups, group < 65536) :
    readGroups remaining (index + 1) (following ':' 16 groups ++ rest) =
      (groups, false, rest) := by
  induction groups generalizing remaining index with
  | nil => exact readGroups_end ends remaining (index + 1)
  | cons group groups induction =>
      obtain ⟨first, others⟩ := List.forall_mem_cons.mp small
      obtain _ | remaining := remaining
      · cases enough
      rw [following_cons]
      exact readGroups_cons ends first (fun _ => rfl)
        (induction remaining (index + 1) (Nat.le_of_succ_le_succ enough) others)

theorem readGroups_fmtSubslice (groups : List Nat) (remaining : Nat)
    {rest : List Char} (ends : Ends rest) (enough : groups.length ≤ remaining)
    (small : ∀ group ∈ groups, group < 65536) :
    readGroups remaining 0 (fmtSubslice groups ++ rest) =
      (groups, false, rest) := by
  cases groups with
  | nil => exact readGroups_end ends remaining 0
  | cons group groups =>
      obtain ⟨first, others⟩ := List.forall_mem_cons.mp small
      obtain _ | remaining := remaining
      · cases enough
      rw [fmtSubslice, intercalate_cons, List.append_assoc]
      exact readGroups_cons ends first (fun _ => rfl)
        (readGroups_following groups remaining 0 ends
          (Nat.le_of_succ_le_succ enough) others)

theorem readIpv6Addr_fmtSegments {segments : List Nat}
    (eight : segments.length = 8)
    (small : ∀ segment ∈ segments, segment < 65536) :
    readIpv6Addr (fmtSegments segments) = some (ofSegments segments, []) := by
  rcases fmtSegments_cases segments with full |
    ⟨before, count, after, split, several, compressed⟩
  · have read := readGroups_fmtSubslice segments 8 .text eight.le small
    rw [List.append_nil] at read
    rw [full]
    simp only [readIpv6Addr, read, eight, if_true]
  · subst split
    have lengths : before.length + count + after.length = 8 := by
      simpa [Nat.add_assoc] using eight
    have front := readGroups_fmtSubslice before 8
      (.zeroes (fmtSubslice after)) (by omega)
      fun segment member => small segment (by simp [member])
    have back := readGroups_fmtSubslice after (8 - (before.length + 1)) .text
      (by omega) fun segment member => small segment (by simp [member])
    rw [List.append_nil] at back
    have missing : 8 - before.length - after.length = count := by omega
    rw [compressed]
    simp only [readIpv6Addr, front, if_neg (show before.length ≠ 8 by omega),
      readGivenChar, if_true, Option.bind_some, Option.map_some, back, missing]
    rfl

/-- The groups after the zeroes end in a version 4 address. -/
theorem readGroups_embedded (embedded : Ipv4Addr) :
    readGroups 7 0 ("ffff:".toList ++ Ipv4Addr.display embedded) =
      (65535 :: places 65536 2 embedded.toNat, true, []) := by
  have noIpv4 : readIpv4Addr (Nat.toDigits 16 65535 ++
      ':' :: Ipv4Addr.display embedded) = none :=
    group_not_ipv4 65535 rfl
  have read : readNumber 16 4 true 65536 (Nat.toDigits 16 65535 ++
      ':' :: Ipv4Addr.display embedded) =
        some (65535, ':' :: Ipv4Addr.display embedded) := by
    apply readGroup (by decide)
    rintro character ⟨⟩
    decide
  have last : readIpv4Addr (Ipv4Addr.display embedded ++ []) =
      some (embedded, []) :=
    readIpv4Addr_display embedded nofun
  rw [List.append_nil] at last
  have text : "ffff:".toList ++ Ipv4Addr.display embedded =
      Nat.toDigits 16 65535 ++ ':' :: Ipv4Addr.display embedded := rfl
  rw [text]
  simp [readGroups, readSeparator, readGivenChar, noIpv4, read, last]

theorem ofSegments_embedded {bits : Ipv6Addr} {embedded : Ipv4Addr}
    (value : bits.toNat = 0xffff * 2 ^ 32 + embedded.toNat) :
    ofSegments (List.replicate 5 0 ++
      65535 :: places 65536 2 embedded.toNat) = bits := by
  have fits := embedded.isLt
  have same : ofPlaces 65536 (List.replicate 5 0 ++
      65535 :: places 65536 2 embedded.toNat) = bits.toNat := by
    simp only [ofPlaces, places, List.replicate, List.cons_append,
      List.nil_append, List.foldl_cons, List.foldl_nil]
    omega
  rw [ofSegments, same, BitVec.ofNat_toNat, BitVec.setWidth_eq]

theorem readIpv6Addr_display (bits : Ipv6Addr) :
    readIpv6Addr (Ipv6Addr.display bits) = some (bits, []) := by
  rcases Ipv6Addr.display_cases bits with ⟨embedded, value, text⟩ | text
  · have front := readGroups_end
      (.zeroes ("ffff:".toList ++ Ipv4Addr.display embedded)) 8 0
    have split : Ipv6Addr.display bits =
        ':' :: ':' :: ("ffff:".toList ++ Ipv4Addr.display embedded) := text
    have tail : (65535 :: places 65536 2 embedded.toNat).length = 3 := rfl
    rw [split, readIpv6Addr]
    simp only [front, readGivenChar, if_true, Option.bind_some,
      Option.map_some, List.length_nil, Nat.reduceAdd, Nat.reduceSub,
      readGroups_embedded, tail, List.nil_append, ofSegments_embedded value]
    rfl
  · have small : ∀ segment ∈ Ipv6Addr.segments bits, segment < 65536 :=
      fun _ => lt_of_mem_places (by decide)
    have fits : bits.toNat < 65536 ^ 8 := bits.isLt
    rw [text, readIpv6Addr_fmtSegments (Ipv6Addr.length_segments bits) small,
      ofSegments, Ipv6Addr.segments, ofPlaces_places fits,
      BitVec.ofNat_toNat, BitVec.setWidth_eq]

/-- A version 6 address is not taken for a version 4 address. -/
theorem readIpv4Addr_display_v6 (bits : Ipv6Addr) :
    readIpv4Addr (Ipv6Addr.display bits) = none := by
  apply readIpv4Addr_eq_none
  rcases Ipv6Addr.display_cases bits with ⟨embedded, _, text⟩ | text
  · rw [text]
    exact List.not_mem_nil
  · rw [text]
    intro member
    exact Ipv6Addr.dot_notMem_fmtSegments _
      ((List.takeWhile_prefix _).subset member)

end Parser

theorem IpAddr.fromStr_display (ip : IpAddr) :
    IpAddr.fromStr ip.display = some ip := by
  have read : Parser.readIpAddr ip.display = some (ip, []) := by
    cases ip with
    | v4 bits =>
        have whole : Parser.readIpv4Addr (Ipv4Addr.display bits ++ []) =
            some (bits, []) :=
          Parser.readIpv4Addr_display bits nofun
        rw [List.append_nil] at whole
        rw [display, Parser.readIpAddr, whole]
    | v6 bits =>
        rw [display, Parser.readIpAddr, Parser.readIpv4Addr_display_v6,
          Parser.readIpv6Addr_display]
        rfl
  rw [fromStr, read]
  rfl

theorem parseU8_toDigits (value : UInt8) :
    parseU8 (Nat.toDigits 10 value.toNat) = some value := by
  have isDigit : (Nat.toDigits 10 value.toNat).all
      (fun character => (digit? 10 character).isSome) = true :=
    List.all_eq_true.mpr (Parser.isSome_digit?_of_mem (by decide) (by decide))
  have read : numeral 10 (Nat.toDigits 10 value.toNat) = value.toNat :=
    numeral_toDigits (by decide) (by decide) value.toNat
  have small : numeral 10 (Nat.toDigits 10 value.toNat) < 256 := by
    rw [read]
    exact value.toNat_lt
  have noPlus : ∀ rest, Nat.toDigits 10 value.toNat ≠ '+' :: rest := by
    intro rest same
    have plus : '+' ∈ Nat.toDigits 10 value.toNat := by
      rw [same]
      exact List.mem_cons_self
    exact notMem_toDigits (by decide) (by decide) (by decide) _ plus
  rw [parseU8, if_pos ⟨Nat.toDigits_ne_nil, isDigit, small⟩, read,
    UInt8.ofNat_toNat]
  exact noPlus

theorem AddrCidr.fromStr_display (address : AddrCidr) :
    fromStr (String.ofList address.display) =
      if address.ip.most < address.prefixLength then none
      else some address := by
  have other : ∀ character ∈ address.ip.display,
      decide (character ≠ '/') = true := by
    intro character member
    rw [decide_eq_true_eq]
    rintro rfl
    exact address.ip.slash_notMem_display member
  have split : splitOnce '/' address.display =
      some (address.ip.display, Nat.toDigits 10 address.prefixLength.toNat) := by
    rw [splitOnce, display, List.dropWhile_append_of_pos other,
      List.takeWhile_append_of_pos other]
    simp
  rw [fromStr, String.toList_ofList, split, Option.bind_some]
  dsimp only
  rw [IpAddr.fromStr_display, Option.bind_some, parseU8_toDigits,
    Option.bind_some]

theorem AddrCidr.fits_of_fromStr {text : String} {address : AddrCidr}
    (read : fromStr text = some address) :
    ¬ address.ip.most < address.prefixLength := by
  obtain ⟨⟨ipText, prefixText⟩, _, read⟩ := Option.bind_eq_some_iff.mp read
  obtain ⟨ip, _, read⟩ := Option.bind_eq_some_iff.mp read
  obtain ⟨prefixLength, _, read⟩ := Option.bind_eq_some_iff.mp read
  obtain ⟨fits, made⟩ := Option.ite_none_left_eq_some.mp read
  cases made
  exact fits

/-- An address is read back from its own text exactly if its prefix length
fits the address, as it does for every address that was read from some
text. -/
theorem address_reads_back (address : AddrCidr) :
    AddrCidr.fromStr (String.ofList address.display) =
        (if address.ip.most < address.prefixLength then none
        else some address) ∧
      ∀ text, AddrCidr.fromStr text = some address →
        AddrCidr.fromStr (String.ofList address.display) = some address := by
  refine ⟨address.fromStr_display, ?_⟩
  intro text read
  rw [AddrCidr.fromStr_display, if_neg (AddrCidr.fits_of_fromStr read)]

end MachinedRs
