import Mathlib.Data.Set.Insert

/-!
# A slot between an owner and a consumer

An owner asks for an item in a slot, or for none.  A consumer puts what is asked
for into effect, reports it and takes hold of it.  The owner cannot remove what
is held: it dismisses it, and the consumer then undoes the effect, withdraws the
report and lets go.

If the owner never replaces an item by another one, the effects are those of the
item that is held, and a slot that neither party changes any more is settled: it
holds what the owner asks for.  If it does, the effect of the first item stays.
-/

namespace Foundation

inductive Custody (α : Type) where
  | absent
  | asked (item : α)
  | held (item : α)
  | dismissed (item : α)
  | released (item : α)

/-- The item in a slot, what is in effect on its account and what is
reported. -/
structure Slot (α ρ : Type) where
  stage : Custody α
  applied : Set α
  shown : Option ρ

namespace Custody

variable {α : Type}

/-- The owner asks for an item, or for none. -/
def ask : Option α → Custody α → Custody α
  | none, .absent => .absent
  | none, .asked _ => .absent
  | none, .held item => .dismissed item
  | none, .dismissed item => .dismissed item
  | none, .released _ => .absent
  | some item, .absent => .asked item
  | some item, .asked _ => .asked item
  | some item, .held _ => .held item
  | some item, .dismissed _ => .dismissed item
  | some item, .released _ => .released item

/-- The item in the slot. -/
def item? : Custody α → Option α
  | .absent => none
  | .asked item | .held item | .dismissed item | .released item => some item

/-- The item the consumer has hold of. -/
def inHand : Custody α → Option α
  | .held item => some item
  | .dismissed item => some item
  | _ => none

theorem item?_ask {wanted : Option α} {stage : Custody α} {item : α}
    (found : (stage.ask wanted).item? = some item) :
    wanted = some item ∨ stage.item? = some item := by
  cases wanted with
  | some other => cases stage <;> exact .inl found
  | none =>
      cases stage with
      | absent => cases found
      | asked other => cases found
      | held other => exact .inr found
      | dismissed other => exact .inr found
      | released other => cases found

end Custody

namespace Slot

variable {α ρ : Type} {report : α → ρ} {first second : Option α}
  {slot : Slot α ρ}

def empty : Slot α ρ :=
  { stage := .absent, applied := ∅, shown := none }

def ask (wanted : Option α) (slot : Slot α ρ) : Slot α ρ :=
  { slot with stage := slot.stage.ask wanted }

/-- The consumer takes hold of what is asked for and lets go of what is
dismissed. -/
def serve (report : α → ρ) (slot : Slot α ρ) : Slot α ρ :=
  match slot.stage with
  | .absent => slot
  | .asked item | .held item =>
      { stage := .held item
        applied := insert item slot.applied
        shown := some (report item) }
  | .dismissed item | .released item =>
      { stage := .released item
        applied := slot.applied \ {item}
        shown := none }

theorem item?_serve (report : α → ρ) (slot : Slot α ρ) :
    (slot.serve report).stage.item? = slot.stage.item? := by
  obtain ⟨stage, applied, shown⟩ := slot
  cases stage <;> rfl

/-- The slot of an owner that asks for the first wish for a while, and for the
second one once it has `switched`. -/
structure Tracks (report : α → ρ) (first second : Option α) (switched : Prop)
    (slot : Slot α ρ) : Prop where
  applied : slot.applied = {item | slot.stage.inHand = some item}
  shown : slot.shown = slot.stage.inHand.map report
  asked : ∀ item, slot.stage = .asked item ∨ slot.stage = .held item →
    first = some item ∨ switched ∧ second = some item
  dismissed : ∀ item,
    slot.stage = .dismissed item ∨ slot.stage = .released item →
    switched ∧ second = none

theorem tracks_empty (switched : Prop) :
    (empty : Slot α ρ).Tracks report first second switched := by
  refine ⟨?_, rfl, ?_, ?_⟩
  · ext item
    simp [empty, Custody.inHand]
  · rintro item (impossible | impossible)
    · cases impossible
    · cases impossible
  · rintro item (impossible | impossible)
    · cases impossible
    · cases impossible

theorem Tracks.switch {switched later : Prop}
    (tracks : slot.Tracks report first second switched)
    (stays : switched → later) :
    slot.Tracks report first second later := by
  refine ⟨tracks.applied, tracks.shown, ?_, ?_⟩
  · intro item stage
    rcases tracks.asked item stage with isFirst | ⟨already, isSecond⟩
    · exact .inl isFirst
    · exact .inr ⟨stays already, isSecond⟩
  · intro item stage
    obtain ⟨already, none⟩ := tracks.dismissed item stage
    exact ⟨stays already, none⟩

theorem Tracks.serve {switched : Prop}
    (tracks : slot.Tracks report first second switched) :
    (slot.serve report).Tracks report first second switched := by
  obtain ⟨stage, applied, shown⟩ := slot
  obtain ⟨appliedEq, shownEq, asked, dismissed⟩ := tracks
  dsimp only at appliedEq shownEq asked dismissed
  subst appliedEq shownEq
  cases stage with
  | absent =>
      refine ⟨rfl, rfl, ?_, ?_⟩
      · exact asked
      · exact dismissed
  | asked item =>
      refine ⟨?_, rfl, ?_, nofun⟩
      · ext other
        simp [Slot.serve, Custody.inHand]
      · rintro other (impossible | same)
        · cases impossible
        · cases same
          exact asked item (.inl rfl)
  | held item =>
      refine ⟨?_, rfl, ?_, nofun⟩
      · ext other
        simp [Slot.serve, Custody.inHand]
      · rintro other (impossible | same)
        · cases impossible
        · cases same
          exact asked item (.inr rfl)
  | dismissed item =>
      refine ⟨?_, rfl, nofun, ?_⟩
      · ext other
        simp [Slot.serve, Custody.inHand]
      · intro other _
        exact dismissed item (.inl rfl)
  | released item =>
      refine ⟨?_, rfl, nofun, ?_⟩
      · ext other
        simp [Slot.serve, Custody.inHand]
      · intro other _
        exact dismissed item (.inr rfl)

/-- Asking for the first wish again changes nothing but an empty slot. -/
theorem Tracks.askFirst {switched : Prop}
    (tracks : slot.Tracks report first second switched)
    (before : ¬ switched) :
    (slot.ask first).Tracks report first second switched := by
  obtain ⟨stage, applied, shown⟩ := slot
  have isFirst : ∀ item, stage = .asked item ∨ stage = .held item →
      first = some item := by
    intro item reached
    rcases tracks.asked item reached with found | ⟨already, _⟩
    · exact found
    · exact absurd already before
  cases stage with
  | absent =>
      cases first with
      | none => exact tracks
      | some item =>
          refine ⟨tracks.applied, tracks.shown, ?_, nofun⟩
          rintro other (same | impossible)
          · cases same
            exact .inl rfl
          · cases impossible
  | asked item =>
      rw [isFirst item (.inl rfl)] at tracks ⊢
      exact tracks
  | held item =>
      rw [isFirst item (.inr rfl)] at tracks ⊢
      exact tracks
  | dismissed item =>
      exact absurd (tracks.dismissed item (.inl rfl)).1 before
  | released item =>
      exact absurd (tracks.dismissed item (.inr rfl)).1 before

/-- Asking for the second wish keeps track, unless it replaces an item. -/
theorem Tracks.askSecond {switched : Prop}
    (tracks : slot.Tracks report first second switched) (after : switched)
    (same : ∀ one other, first = some one → second = some other →
      one = other) :
    (slot.ask second).Tracks report first second switched := by
  obtain ⟨stage, applied, shown⟩ := slot
  have isSecond : ∀ item other,
      stage = .asked item ∨ stage = .held item →
      second = some other → item = other := by
    intro item other reached wanted
    rcases tracks.asked item reached with found | ⟨_, found⟩
    · exact same item other found wanted
    · rw [found] at wanted
      exact Option.some.inj wanted
  cases wanted : second with
  | none =>
      subst wanted
      cases stage with
      | absent => exact tracks
      | asked item => exact ⟨tracks.applied, tracks.shown, nofun, nofun⟩
      | held item =>
          exact ⟨tracks.applied, tracks.shown, nofun, fun _ _ => ⟨after, rfl⟩⟩
      | dismissed item => exact tracks
      | released item => exact ⟨tracks.applied, tracks.shown, nofun, nofun⟩
  | some other =>
      subst wanted
      cases stage with
      | absent =>
          refine ⟨tracks.applied, tracks.shown, ?_, nofun⟩
          rintro item (found | impossible)
          · cases found
            exact .inr ⟨after, rfl⟩
          · cases impossible
      | asked item =>
          rw [isSecond item other (.inl rfl) rfl] at tracks
          exact tracks
      | held item =>
          rw [isSecond item other (.inr rfl) rfl] at tracks
          exact tracks
      | dismissed item =>
          cases (tracks.dismissed item (.inl rfl)).2
      | released item =>
          cases (tracks.dismissed item (.inr rfl)).2

/-- The slot in which the owner's wish is fulfilled. -/
def fulfilled (report : α → ρ) : Option α → Slot α ρ
  | none => empty
  | some item =>
      { stage := .held item, applied := {item}, shown := some (report item) }

/-- A slot whose stage neither party changes any more is the fulfilled one. -/
theorem Tracks.eq_fulfilled {switched : Prop}
    (tracks : slot.Tracks report first second switched)
    (stageAgain : (slot.ask second).stage = slot.stage)
    (stageServed : (slot.serve report).stage = slot.stage) :
    slot = fulfilled report second := by
  obtain ⟨stage, applied, shown⟩ := slot
  have appliedEq : applied = {item | stage.inHand = some item} :=
    tracks.applied
  have shownEq : shown = stage.inHand.map report := tracks.shown
  cases stage with
  | absent =>
      cases second with
      | none =>
          subst appliedEq shownEq
          have none : {item : α | Custody.absent.inHand = some item} = ∅ := by
            ext item
            simp [Custody.inHand]
          rw [none]
          rfl
      | some item => cases stageAgain
  | asked item => cases stageServed
  | held item =>
      cases second with
      | none => cases stageAgain
      | some other =>
          cases stageAgain
          subst appliedEq shownEq
          have one : {other | (Custody.held item).inHand = some other} =
              {item} := by
            ext other
            simp [Custody.inHand, eq_comm]
          rw [one]
          rfl
  | dismissed item => cases stageServed
  | released item =>
      have none := (tracks.dismissed item (.inr rfl)).2
      subst none
      cases stageAgain

/-- The wish is in effect, with what may be left of another one. -/
def Serves (report : α → ρ) (wanted : Option α) (slot : Slot α ρ) : Prop :=
  slot.stage = (fulfilled report wanted).stage ∧
    (fulfilled report wanted).applied ⊆ slot.applied ∧
    slot.shown = (fulfilled report wanted).shown

theorem serves_fulfilled (wanted : Option α) :
    (fulfilled report wanted).Serves report wanted :=
  ⟨rfl, Set.Subset.rfl, rfl⟩

/-- Both parties take turns: the first wish is applied, then the second one. -/
def rounds (report : α → ρ) (first second : Option α) : Slot α ρ :=
  ((((empty.ask first).serve report).ask second).serve report).ask second

theorem serves_rounds : (rounds report first second).Serves report second := by
  cases first with
  | none =>
      cases second with
      | none => exact ⟨rfl, Set.Subset.rfl, rfl⟩
      | some item =>
          refine ⟨rfl, ?_, rfl⟩
          exact Set.singleton_subset_iff.mpr (Set.mem_insert item _)
  | some item =>
      cases second with
      | none => exact ⟨rfl, Set.empty_subset _, rfl⟩
      | some other =>
          refine ⟨rfl, ?_, rfl⟩
          exact Set.singleton_subset_iff.mpr (Set.mem_insert other _)

/-- What was replaced in the slot is still in effect. -/
theorem mem_applied_rounds {item other : α} (isFirst : first = some item)
    (isSecond : second = some other) :
    item ∈ (rounds report first second).applied := by
  subst isFirst isSecond
  exact Set.mem_insert_of_mem other (Set.mem_insert item _)

end Slot

end Foundation
