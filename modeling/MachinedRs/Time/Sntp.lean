import MachinedRs.Foundation.FixedWidth
import Mathlib.Algebra.Order.Group.Abs

/-!
# SNTP timestamps and the clock offset

A timestamp on the wire counts seconds since 1900 in 32 bits and fractions of a
second in 32 more.  The offset is computed in signed 128-bit nanoseconds; a
result of `none` means that an operation would overflow.
-/

namespace MachinedRs

open Foundation

inductive TimeError where
  | io (message : String)
  | timeout
  | badResponse (message : String)
  | clockSet (message : String)
deriving DecidableEq, Repr

/-- Seconds between the NTP epoch (1900) and the Unix epoch (1970). -/
def ntpUnixOffset : Int :=
  2208988800

def secondNs : Int :=
  1000000000

/-- A point in time of the operating system: nanoseconds since the Unix epoch
whose seconds are a signed 64-bit number. -/
structure SystemTime where
  ns : Int
  fits : -2 ^ 63 * secondNs ≤ ns ∧ ns < 2 ^ 63 * secondNs

structure SntpResponse where
  bytes : Bytes
  size : bytes.length = 48

def SntpResponse.first (response : SntpResponse) : UInt8 :=
  response.bytes.get ⟨0, by
    rw [response.size]
    decide⟩

def SntpResponse.field (response : SntpResponse) (index : Nat) : Bytes :=
  (response.bytes.drop index).take 8

namespace Sntp

def ntpToUnixNs (bytes : Bytes) : Option Int := do
  let secs : Int := (fromBeBytes (bytes.take 4)).toNat
  let frac : Int := (fromBeBytes ((bytes.drop 4).take 4)).toNat
  let scaled ← checked 128 (frac * secondNs)
  let fracNs := scaled >>> (32 : Nat)
  let sinceUnix ← checked 128 (secs - ntpUnixOffset)
  let whole ← checked 128 (sinceUnix * secondNs)
  checked 128 (whole + fracNs)

/-- A time before the Unix epoch counts as the epoch. -/
def stToNs (time : SystemTime) : Int :=
  if 0 ≤ time.ns then time.ns else 0

def parseOffset (response : SntpResponse) (t1 t4 : SystemTime) :
    Option (Except TimeError Int) :=
  if response.first &&& 0x07 ≠ 4 then
    some (.error (.badResponse "not a server (mode != 4) response"))
  else if (response.field 40).all (· = 0) then
    some (.error (.badResponse "zero transmit timestamp"))
  else do
    let t1n := stToNs t1
    let t4n := stToNs t4
    let t2n ← ntpToUnixNs (response.field 32)
    let t3n ← ntpToUnixNs (response.field 40)
    let request ← checked 128 (t2n - t1n)
    let reply ← checked 128 (t3n - t4n)
    let sum ← checked 128 (request + reply)
    some (.ok (sum.tdiv 2))

def unixNsToNtp (ns : Int) : Option Bytes := do
  let sinceNtp ← checked 128 (ns / secondNs + ntpUnixOffset)
  let secs := wrapU32 sinceNtp
  let frac := wrapU32 (((ns % secondNs) <<< (32 : Nat)).tdiv secondNs)
  some (toBeBytes secs ++ toBeBytes frac)

/-- The fields of the time to set, after `clock_gettime` has answered. -/
def steppedClock (nowSecs nowNanos offset : Int) : Option (Int × Int) := do
  let nowNs ← checked 128 (nowSecs * secondNs + nowNanos)
  let newNs ← checked 128 (nowNs + offset)
  some ((newNs / secondNs).bmod (2 ^ 64), newNs % secondNs)

/-- The number of times the 32-bit seconds have wrapped around since 1900. -/
def ntpEra (ns : Int) : Int :=
  (ns / secondNs + ntpUnixOffset) / 2 ^ 32

theorem ntpToUnixNs_words (secs frac : UInt32) :
    ntpToUnixNs (toBeBytes secs ++ toBeBytes frac) =
      some ((secs.toNat - ntpUnixOffset) * secondNs +
        frac.toNat * secondNs / 2 ^ 32) := by
  have first : (toBeBytes secs ++ toBeBytes frac).take 4 = toBeBytes secs :=
    List.take_left' (length_toBeBytes secs)
  have last : (toBeBytes secs ++ toBeBytes frac).drop 4 = toBeBytes frac :=
    List.drop_left' (length_toBeBytes secs)
  have whole : (toBeBytes frac).take 4 = toBeBytes frac :=
    List.take_of_length_le (Nat.le_of_eq (length_toBeBytes frac))
  have secsSmall : (secs.toNat : Int) < 2 ^ 32 := by
    exact_mod_cast secs.toNat_lt
  have fracSmall : (frac.toNat : Int) < 2 ^ 32 := by
    exact_mod_cast frac.toNat_lt
  have scaled : FitsSigned 128 (frac.toNat * secondNs) := by
    simp only [FitsSigned, secondNs]
    omega
  have sinceUnix : FitsSigned 128 (secs.toNat - ntpUnixOffset) := by
    simp only [FitsSigned, ntpUnixOffset]
    omega
  have seconds :
      FitsSigned 128 ((secs.toNat - ntpUnixOffset) * secondNs) := by
    simp only [FitsSigned, ntpUnixOffset, secondNs]
    omega
  have sum : FitsSigned 128 ((secs.toNat - ntpUnixOffset) * secondNs +
      frac.toNat * secondNs / 2 ^ 32) := by
    simp only [FitsSigned, ntpUnixOffset, secondNs]
    omega
  simp only [ntpToUnixNs, first, last, whole, fromBeBytes_toBeBytes,
    checked_of_fits scaled, checked_of_fits sinceUnix,
    checked_of_fits seconds, Option.bind_eq_bind, Option.bind_some,
    Int.shiftRight_eq_div_pow]
  exact checked_of_fits sum

theorem fraction_bounds (ns : Int) :
    let frac := wrapU32 (((ns % secondNs) <<< (32 : Nat)).tdiv secondNs)
    ns % secondNs - 1 ≤ frac.toNat * secondNs / 2 ^ 32 ∧
      frac.toNat * secondNs / 2 ^ 32 ≤ ns % secondNs := by
  intro frac
  have nonneg : 0 ≤ ns % secondNs := Int.emod_nonneg ns (by decide)
  have below : ns % secondNs < secondNs := Int.emod_lt_of_pos ns (by decide)
  have quotient : ((ns % secondNs) <<< (32 : Nat)).tdiv secondNs =
      ns % secondNs * 2 ^ 32 / secondNs := by
    rw [Int.shiftLeft_eq, Int.tdiv_eq_ediv_of_nonneg (by omega)]
  have value : (frac.toNat : Int) = ns % secondNs * 2 ^ 32 / secondNs := by
    rw [toNat_wrapU32, quotient]
    apply Int.emod_eq_of_lt
    · exact Int.ediv_nonneg (by omega) (by decide)
    · apply Int.ediv_lt_of_lt_mul (by decide)
      simp only [secondNs] at below ⊢
      omega
  rw [value]
  exact rescale_bounds (by decide) (by decide) (ns % secondNs)

/-- An encoded time is read back up to one nanosecond, in the era that begins
with 1900. -/
theorem exists_stamp {ns : Int} (fits : FitsSigned 128 ns) :
    ∃ stamp decoded, unixNsToNtp ns = some stamp ∧
      ntpToUnixNs stamp = some decoded ∧ FitsSigned 64 decoded ∧
      ns - 1 ≤ decoded + ntpEra ns * 2 ^ 32 * secondNs ∧
      decoded + ntpEra ns * 2 ^ 32 * secondNs ≤ ns := by
  have sinceNtp : FitsSigned 128 (ns / secondNs + ntpUnixOffset) := by
    simp only [FitsSigned, secondNs, ntpUnixOffset] at fits ⊢
    omega
  have encoded : unixNsToNtp ns =
      some (toBeBytes (wrapU32 (ns / secondNs + ntpUnixOffset)) ++
        toBeBytes
          (wrapU32 (((ns % secondNs) <<< (32 : Nat)).tdiv secondNs))) := by
    rw [unixNsToNtp, checked_of_fits sinceNtp]
    rfl
  refine ⟨_, _, encoded, ntpToUnixNs_words _ _, ?_⟩
  have fraction := fraction_bounds ns
  have whole := Int.mul_ediv_add_emod ns secondNs
  have wraps := Int.mul_ediv_add_emod (ns / secondNs + ntpUnixOffset) (2 ^ 32)
  rw [toNat_wrapU32]
  simp only [FitsSigned, ntpEra, secondNs, ntpUnixOffset]
    at fraction whole wraps ⊢
  omega

/-- A server's answer that carries its receive and transmit times. -/
structure Carries (response : SntpResponse) (s2 s3 : Int) : Prop where
  mode : response.first &&& 0x07 = 4
  receive : unixNsToNtp s2 = some (response.field 32)
  transmit : unixNsToNtp s3 = some (response.field 40)
  nonzero : ∃ byte ∈ response.field 40, byte ≠ 0

section Offset

variable {response : SntpResponse} {t1 t4 : SystemTime} {s2 s3 : Int}

/-- The offset that is computed, with what the eras of the server's times take
away from it. -/
theorem parseOffset_bounds (after1 : 0 ≤ t1.ns) (after4 : 0 ≤ t4.ns)
    (fits2 : FitsSigned 128 s2) (fits3 : FitsSigned 128 s3)
    (carries : Carries response s2 s3) :
    ∃ offset, parseOffset response t1 t4 = some (.ok offset) ∧
      -3 ≤ 2 * offset + (ntpEra s2 + ntpEra s3) * 2 ^ 32 * secondNs -
        ((s2 - t1.ns) + (s3 - t4.ns)) ∧
      2 * offset + (ntpEra s2 + ntpEra s3) * 2 ^ 32 * secondNs -
        ((s2 - t1.ns) + (s3 - t4.ns)) ≤ 1 := by
  obtain ⟨stamp2, decoded2, encoded2, reads2, small2, read2⟩ :=
    exists_stamp fits2
  obtain ⟨stamp3, decoded3, encoded3, reads3, small3, read3⟩ :=
    exists_stamp fits3
  rw [carries.receive, Option.some.injEq] at encoded2
  rw [carries.transmit, Option.some.injEq] at encoded3
  have before1 := t1.fits
  have before4 := t4.fits
  have request : FitsSigned 128 (decoded2 - t1.ns) := by
    simp only [FitsSigned, secondNs] at before1 small2 ⊢
    omega
  have reply : FitsSigned 128 (decoded3 - t4.ns) := by
    simp only [FitsSigned, secondNs] at before4 small3 ⊢
    omega
  have sum :
      FitsSigned 128 ((decoded2 - t1.ns) + (decoded3 - t4.ns)) := by
    simp only [FitsSigned, secondNs] at before1 before4 small2 small3 ⊢
    omega
  refine ⟨((decoded2 - t1.ns) + (decoded3 - t4.ns)).tdiv 2, ?_, ?_⟩
  · have isServer : ¬ response.first &&& 0x07 ≠ 4 :=
      fun other => other carries.mode
    have isSent : ¬ (response.field 40).all (· = 0) = true := by
      obtain ⟨byte, member, nonzero⟩ := carries.nonzero
      intro zeros
      exact nonzero (of_decide_eq_true (List.all_eq_true.mp zeros byte member))
    rw [parseOffset, if_neg isServer, if_neg isSent, encoded2, encoded3,
      reads2, reads3, stToNs, stToNs, if_pos after1, if_pos after4]
    simp only [checked_of_fits request, checked_of_fits reply,
      checked_of_fits sum, Option.bind_eq_bind, Option.bind_some]
  · have half := tdiv_two_bounds
      ((decoded2 - t1.ns) + (decoded3 - t4.ns))
    simp only [secondNs] at read2 read3 ⊢
    omega

/-- Within the first era the offset is exact up to the rounding.  If the server
is `theta` ahead, what is left of the error is half the difference between the
two ways. -/
theorem offset_accurate (t1 t4 : SystemTime) (s2 s3 : Int)
    (after1 : 0 ≤ t1.ns) (after4 : 0 ≤ t4.ns)
    (era2 : 0 ≤ s2 / secondNs + ntpUnixOffset ∧
      s2 / secondNs + ntpUnixOffset < 2 ^ 32)
    (era3 : 0 ≤ s3 / secondNs + ntpUnixOffset ∧
      s3 / secondNs + ntpUnixOffset < 2 ^ 32) :
    (∃ stamp, unixNsToNtp s2 = some stamp) ∧
    (∃ stamp, unixNsToNtp s3 = some stamp) ∧
    ∀ response, Carries response s2 s3 →
      ∃ offset, parseOffset response t1 t4 = some (.ok offset) ∧
        (-3 ≤ 2 * offset - ((s2 - t1.ns) + (s3 - t4.ns)) ∧
          2 * offset - ((s2 - t1.ns) + (s3 - t4.ns)) ≤ 1) ∧
        ∀ theta d1 d2, s2 = t1.ns + d1 + theta → t4.ns = s3 - theta + d2 →
          -3 ≤ 2 * (offset - theta) - (d1 - d2) ∧
            2 * (offset - theta) - (d1 - d2) ≤ 1 := by
  have first : ∀ {ns : Int}, 0 ≤ ns / secondNs + ntpUnixOffset ∧
      ns / secondNs + ntpUnixOffset < 2 ^ 32 →
      FitsSigned 128 ns ∧ ntpEra ns = 0 := by
    intro ns era
    simp only [FitsSigned, ntpEra, secondNs, ntpUnixOffset] at era ⊢
    omega
  obtain ⟨fits2, zero2⟩ := first era2
  obtain ⟨fits3, zero3⟩ := first era3
  obtain ⟨stamp2, _, encoded2, _⟩ := exists_stamp fits2
  obtain ⟨stamp3, _, encoded3, _⟩ := exists_stamp fits3
  refine ⟨⟨stamp2, encoded2⟩, ⟨stamp3, encoded3⟩, ?_⟩
  intro response carries
  obtain ⟨offset, parsed, low, high⟩ :=
    parseOffset_bounds after1 after4 fits2 fits3 carries
  rw [zero2, zero3] at low high
  refine ⟨offset, parsed, ?_, ?_⟩
  · omega
  · intro theta d1 d2 arrived returned
    omega

/-- A response with these two timestamps and nothing else. -/
def serverResponse (receive transmit : Bytes)
    (sizes : receive.length = 8 ∧ transmit.length = 8) : SntpResponse :=
  { bytes := 0x24 :: List.replicate 31 0 ++ receive ++ transmit
    size := by simp [sizes] }

/-- A time with the given seconds since the Unix epoch. -/
def atSecond (secs : Int) (small : 0 ≤ secs ∧ secs < 2 ^ 63) : SystemTime :=
  { ns := secs * secondNs
    fits := by
      simp only [secondNs]
      omega }

/-- The server is three quarters of a second ahead; its times do not have exact
binary fractions. -/
theorem offset_accurate_ahead :
    ∃ response offset,
      Carries response 1700000000750000001 1700000000750000002 ∧
      parseOffset response (atSecond 1700000000 (by decide))
        (atSecond 1700000000 (by decide)) = some (.ok offset) ∧
      -3 ≤ 2 * offset - (750000001 + 750000002) ∧
      2 * offset - (750000001 + 750000002) ≤ 1 := by
  let receive : Bytes := [232, 254, 111, 128, 192, 0, 0, 4]
  let transmit : Bytes := [232, 254, 111, 128, 192, 0, 0, 8]
  have carries : Carries (serverResponse receive transmit (by decide))
      1700000000750000001 1700000000750000002 :=
    ⟨by decide, by decide +kernel, by decide +kernel, ⟨232, by decide⟩⟩
  obtain ⟨_, _, accurate⟩ := offset_accurate
    (atSecond 1700000000 (by decide)) (atSecond 1700000000 (by decide))
    1700000000750000001 1700000000750000002 (by decide) (by decide)
    (by decide) (by decide)
  obtain ⟨offset, parsed, bounds, _⟩ := accurate _ carries
  exact ⟨_, offset, carries, parsed, bounds⟩

/-- 2036-02-07T06:28:16Z, when the 32-bit seconds wrap around. -/
def rollover : Int :=
  (2 ^ 32 - ntpUnixOffset) * secondNs

/-- Near the local time the offset is right exactly as long as the server's
times lie before the rollover. -/
theorem offset_near_iff_before_rollover (t1 t4 : SystemTime) (s2 s3 : Int)
    (after : 0 ≤ t1.ns) (ordered : t1.ns ≤ t4.ns)
    (near2 : |s2 - t1.ns| < 2 ^ 31 * secondNs)
    (near3 : |s3 - t1.ns| < 2 ^ 31 * secondNs) :
    (∃ stamp, unixNsToNtp s2 = some stamp) ∧
    (∃ stamp, unixNsToNtp s3 = some stamp) ∧
    ∀ response, Carries response s2 s3 →
      ∃ offset, parseOffset response t1 t4 = some (.ok offset) ∧
        (|2 * offset - ((s2 - t1.ns) + (s3 - t4.ns))| ≤ 4 ↔
          s2 < rollover ∧ s3 < rollover) := by
  have before := t1.fits
  have close : ∀ {ns : Int}, |ns - t1.ns| < 2 ^ 31 * secondNs →
      FitsSigned 128 ns ∧ 0 ≤ ntpEra ns ∧ (ntpEra ns = 0 ↔ ns < rollover) := by
    intro ns near
    rw [abs_lt] at near
    simp only [FitsSigned, ntpEra, rollover, secondNs, ntpUnixOffset]
      at near before ⊢
    omega
  obtain ⟨fits2, nonneg2, zero2⟩ := close near2
  obtain ⟨fits3, nonneg3, zero3⟩ := close near3
  obtain ⟨stamp2, _, encoded2, _⟩ := exists_stamp fits2
  obtain ⟨stamp3, _, encoded3, _⟩ := exists_stamp fits3
  refine ⟨⟨stamp2, encoded2⟩, ⟨stamp3, encoded3⟩, ?_⟩
  intro response carries
  obtain ⟨offset, parsed, low, high⟩ := parseOffset_bounds after
    (Int.le_trans after ordered) fits2 fits3 carries
  refine ⟨offset, parsed, ?_⟩
  rw [← zero2, ← zero3, abs_le]
  simp only [secondNs] at low high
  omega

theorem offset_near_before_rollover :
    ∃ response offset,
      Carries response 2085978495000000000 2085978495000000000 ∧
      parseOffset response (atSecond 2085978495 (by decide))
        (atSecond 2085978495 (by decide)) = some (.ok offset) ∧
      |2 * offset| ≤ 4 := by
  let stamp : Bytes := [255, 255, 255, 255, 0, 0, 0, 0]
  have carries : Carries (serverResponse stamp stamp (by decide))
      2085978495000000000 2085978495000000000 :=
    ⟨by decide, by decide +kernel, by decide +kernel, ⟨255, by decide⟩⟩
  obtain ⟨_, _, near⟩ := offset_near_iff_before_rollover
    (atSecond 2085978495 (by decide)) (atSecond 2085978495 (by decide))
    2085978495000000000 2085978495000000000 (by decide) (by decide)
    (by decide) (by decide)
  obtain ⟨offset, parsed, isNear⟩ := near _ carries
  have within := isNear.mpr (by decide)
  rw [show atSecond 2085978495 _ = ⟨2085978495000000000, _⟩ from rfl,
    Int.sub_self, Int.add_zero, Int.sub_zero] at within
  exact ⟨_, offset, carries, parsed, within⟩

/-- One second after the rollover the offset of a correct clock is some 136
years back, to a time before 1970, which `clock_settime` refuses. -/
theorem correct_clock_set_back :
    ∃ response, Carries response (rollover + secondNs) (rollover + secondNs) ∧
      parseOffset response (atSecond 2085978497 (by decide))
        (atSecond 2085978497 (by decide)) =
          some (.ok (-2 ^ 32 * secondNs)) ∧
      steppedClock 2085978497 0 (-2 ^ 32 * secondNs) =
        some (2085978497 - 2 ^ 32, 0) := by
  let stamp : Bytes := [0, 0, 0, 1, 0, 0, 0, 0]
  refine ⟨serverResponse stamp stamp (by decide), ?_, ?_, ?_⟩
  · exact ⟨by decide, by decide +kernel, by decide +kernel, ⟨1, by decide⟩⟩
  · decide +kernel
  · decide +kernel

end Offset

end Sntp

end MachinedRs
