import Mathlib.Data.List.Basic
import Mathlib.Algebra.Group.Nat.Defs

/-!
# Numerals and texts with separators

A number is written as its places in some base, a place as a digit.  Pieces are
written one after the other with a separator between them; as long as no piece
contains the separator, the pieces can be read back.
-/

namespace Foundation

section Places

variable {base : Nat}

/-- The number written by these places, the most significant first. -/
def ofPlaces (base : Nat) (places : List Nat) : Nat :=
  places.foldl (fun value place => value * base + place) 0

/-- The last `count` places of a number, the most significant first. -/
def places (base : Nat) : Nat → Nat → List Nat
  | 0, _ => []
  | count + 1, value => places base count (value / base) ++ [value % base]

theorem ofPlaces_concat (places : List Nat) (place : Nat) :
    ofPlaces base (places ++ [place]) = ofPlaces base places * base + place := by
  rw [ofPlaces, List.foldl_append]
  rfl

@[simp] theorem length_places (count value : Nat) :
    (places base count value).length = count := by
  induction count generalizing value with
  | zero => rfl
  | succ count induction => simp [places, induction]

theorem lt_of_mem_places {count value place : Nat} (positive : 0 < base)
    (member : place ∈ places base count value) : place < base := by
  induction count generalizing value with
  | zero => cases member
  | succ count induction =>
      rw [places, List.mem_append, List.mem_singleton] at member
      rcases member with earlier | last
      · exact induction earlier
      · rw [last]
        exact Nat.mod_lt value positive

theorem ofPlaces_places {count value : Nat} (small : value < base ^ count) :
    ofPlaces base (places base count value) = value := by
  induction count generalizing value with
  | zero =>
      have zero : value = 0 := by simpa using small
      rw [zero]
      rfl
  | succ count induction =>
      have quotient : value / base < base ^ count := by
        apply Nat.div_lt_of_lt_mul
        rw [Nat.mul_comm, ← Nat.pow_succ]
        exact small
      rw [places, ofPlaces_concat, induction quotient, Nat.mul_comm]
      exact Nat.div_add_mod value base

/-- Numbers that fit are told apart by their places. -/
theorem eq_of_places_eq {count first second : Nat}
    (firstFits : first < base ^ count) (secondFits : second < base ^ count)
    (same : places base count first = places base count second) :
    first = second := by
  rw [← ofPlaces_places firstFits, same, ofPlaces_places secondFits]

end Places

section Digits

/-- The value of a digit, letters counting from ten. -/
def digitValue? (character : Char) : Option Nat :=
  if '0' ≤ character ∧ character ≤ '9' then
    some (character.toNat - '0'.toNat)
  else if 'a' ≤ character ∧ character ≤ 'z' then
    some (character.toNat - 'a'.toNat + 10)
  else if 'A' ≤ character ∧ character ≤ 'Z' then
    some (character.toNat - 'A'.toNat + 10)
  else
    none

/-- The value of a digit of this base. -/
def digit? (base : Nat) (character : Char) : Option Nat :=
  (digitValue? character).filter (· < base)

/-- The number written by these digits; what is not a digit counts nothing. -/
def numeral (base : Nat) (digits : List Char) : Nat :=
  ofPlaces base (digits.map fun digit => (digit? base digit).getD 0)

theorem digitValue?_digitChar :
    ∀ place < 16, digitValue? (Nat.digitChar place) = some place := by
  decide

theorem digit?_digitChar {base place : Nat} (small : place < base)
    (bounded : base ≤ 16) :
    digit? base place.digitChar = some place := by
  have value := digitValue?_digitChar place (Nat.lt_of_lt_of_le small bounded)
  simp [digit?, value, small]

theorem numeral_toDigits {base : Nat} (large : 1 < base)
    (bounded : base ≤ 16) (number : Nat) :
    numeral base (Nat.toDigits base number) = number := by
  induction number using Nat.strongRecOn with
  | ind number induction =>
      by_cases small : number < base
      · rw [Nat.toDigits_of_lt_base small]
        simp [numeral, ofPlaces, digit?_digitChar small bounded]
      · have reaches : base ≤ number := Nat.le_of_not_lt small
        have less : number / base < number :=
          Nat.div_lt_self (by omega) large
        have place := digit?_digitChar
          (Nat.mod_lt number (Nat.lt_of_succ_lt large)) bounded
        have rest := induction (number / base) less
        rw [numeral] at rest
        rw [Nat.toDigits_of_base_le large reaches, numeral, List.map_append,
          List.map_singleton, ofPlaces_concat, rest, place, Nat.mul_comm]
        exact Nat.div_add_mod number base

theorem toDigits_injective {base first second : Nat} (large : 1 < base)
    (bounded : base ≤ 16)
    (same : Nat.toDigits base first = Nat.toDigits base second) :
    first = second := by
  rw [← numeral_toDigits large bounded first, same,
    numeral_toDigits large bounded second]

/-- The digits a number is written with. -/
theorem mem_toDigits {base number : Nat} {character : Char}
    (large : 1 < base) (bounded : base ≤ 16)
    (member : character ∈ Nat.toDigits base number) :
    ∃ place < 16, character = Nat.digitChar place := by
  induction number using Nat.strongRecOn with
  | ind number induction =>
      by_cases small : number < base
      · rw [Nat.toDigits_of_lt_base small, List.mem_singleton] at member
        exact ⟨number, Nat.lt_of_lt_of_le small bounded, member⟩
      · have reaches : base ≤ number := Nat.le_of_not_lt small
        rw [Nat.toDigits_of_base_le large reaches, List.mem_append,
          List.mem_singleton] at member
        rcases member with earlier | last
        · exact induction (number / base)
            (Nat.div_lt_self (by omega) large) earlier
        · have place : number % base < base :=
            Nat.mod_lt number (Nat.lt_of_succ_lt large)
          exact ⟨number % base, Nat.lt_of_lt_of_le place bounded, last⟩

/-- A character that is not a digit does not occur in a number. -/
theorem notMem_toDigits {base : Nat} {character : Char}
    (other : ∀ place < 16, character ≠ Nat.digitChar place)
    (large : 1 < base) (bounded : base ≤ 16) (number : Nat) :
    character ∉ Nat.toDigits base number := by
  intro member
  obtain ⟨place, small, same⟩ := mem_toDigits large bounded member
  exact other place small same

end Digits

section Separators

variable {α : Type} {separator : α}

/-- A text is cut at its last separator in one way only. -/
theorem append_separator_inj {first second firstRest secondRest : List α}
    (firstFree : separator ∉ firstRest) (secondFree : separator ∉ secondRest)
    (same : first ++ separator :: firstRest =
      second ++ separator :: secondRest) :
    first = second ∧ firstRest = secondRest := by
  rcases List.append_eq_append_iff.mp same with
    ⟨between, longer, rest⟩ | ⟨between, longer, rest⟩
  · cases between with
    | nil =>
        rw [List.append_nil] at longer
        cases rest
        exact ⟨longer.symm, rfl⟩
    | cons symbol between =>
        cases rest
        exact absurd (List.mem_append_right between List.mem_cons_self)
          firstFree
  · cases between with
    | nil =>
        rw [List.append_nil] at longer
        cases rest
        exact ⟨longer, rfl⟩
    | cons symbol between =>
        cases rest
        exact absurd (List.mem_append_right between List.mem_cons_self)
          secondFree

/-- A text is cut before the longest run at its end in one way only. -/
theorem append_run_inj {inRun : α → Prop}
    {first second firstRun secondRun : List α}
    (firstOnly : ∀ symbol ∈ firstRun, inRun symbol)
    (secondOnly : ∀ symbol ∈ secondRun, inRun symbol)
    (firstEnds : ∀ symbol ∈ first.getLast?, ¬ inRun symbol)
    (secondEnds : ∀ symbol ∈ second.getLast?, ¬ inRun symbol)
    (same : first ++ firstRun = second ++ secondRun) :
    first = second ∧ firstRun = secondRun := by
  have empty : ∀ {start between : List α},
      (∀ symbol ∈ between, inRun symbol) →
      (∀ symbol ∈ (start ++ between).getLast?, ¬ inRun symbol) →
      between = [] := by
    intro start between only ends
    cases last : between.getLast? with
    | none => exact List.getLast?_eq_none_iff.mp last
    | some symbol =>
        have final : symbol ∈ (start ++ between).getLast? := by
          rw [List.getLast?_append, last]
          rfl
        exact absurd (only symbol (List.mem_of_getLast? last))
          (ends symbol final)
  rcases List.append_eq_append_iff.mp same with
    ⟨between, rfl, rfl⟩ | ⟨between, rfl, rfl⟩
  · have none := empty (fun symbol member =>
      firstOnly symbol (List.mem_append_left _ member)) secondEnds
    rw [none]
    exact ⟨(List.append_nil _).symm, rfl⟩
  · have none := empty (fun symbol member =>
      secondOnly symbol (List.mem_append_left _ member)) firstEnds
    rw [none]
    exact ⟨List.append_nil _, rfl⟩

theorem mem_intercalate {pieces : List (List α)} {symbol : α}
    (member : symbol ∈ [separator].intercalate pieces) :
    symbol = separator ∨ ∃ piece ∈ pieces, symbol ∈ piece := by
  induction pieces with
  | nil => cases member
  | cons piece pieces induction =>
      cases pieces with
      | nil =>
          have here : symbol ∈ piece := by
            simpa [List.intercalate] using member
          exact .inr ⟨piece, List.mem_cons_self, here⟩
      | cons next pieces =>
          have parts : [separator].intercalate (piece :: next :: pieces) =
              piece ++ separator :: [separator].intercalate (next :: pieces) :=
            by simp [List.intercalate]
          rw [parts, List.mem_append, List.mem_cons] at member
          rcases member with here | same | later
          · exact .inr ⟨piece, List.mem_cons_self, here⟩
          · exact .inl same
          · rcases induction later with same | ⟨other, isPiece, inside⟩
            · exact .inl same
            · exact .inr ⟨other, List.mem_cons_of_mem piece isPiece, inside⟩

end Separators

end Foundation
