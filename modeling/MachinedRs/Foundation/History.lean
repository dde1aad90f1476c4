import Mathlib.Data.List.Induction

/-!
# Histories

A history is the list of what has happened so far.  Such a list grows at its
end, and what is said about its items concerns what came before them.
-/

namespace Foundation

variable {α : Type} {holds : List α → α → Prop} {history : List α}

/-- Every item stands in the relation to what came before it. -/
def Each (holds : List α → α → Prop) (history : List α) : Prop :=
  ∀ before item after, history = before ++ item :: after → holds before item

theorem Each.nil : Each holds [] := by
  intro before item after split
  simp at split

theorem Each.concat {last : α} (each : Each holds history)
    (next : holds history last) : Each holds (history ++ [last]) := by
  intro before item after split
  rcases List.eq_nil_or_concat after with rfl | ⟨initial, final, rfl⟩
  · obtain ⟨rfl, same⟩ := List.append_inj' split rfl
    cases same
    exact next
  · have longer : history ++ [last] =
        (before ++ item :: initial) ++ [final] := by
      rw [split, List.concat_eq_append]
      simp
    obtain ⟨earlier, _⟩ := List.append_inj' longer rfl
    exact each before item initial earlier

/-- One history after the other. -/
theorem Each.join {items : List α} (each : Each holds history)
    (later : Each (fun before item => holds (history ++ before) item) items) :
    Each holds (history ++ items) := by
  intro before item after split
  rcases List.append_eq_append_iff.mp split with
    ⟨between, rfl, rest⟩ | ⟨between, front, rest⟩
  · exact later between item after rest
  · cases between with
    | nil =>
        rw [List.append_nil] at front
        have holdsNow : holds (history ++ []) item :=
          later [] item after rest.symm
        rw [List.append_nil, front] at holdsNow
        exact holdsNow
    | cons first between =>
        obtain ⟨rfl, _⟩ := List.cons.inj rest
        exact each before item between front

/-- Items of which the relation holds in any case. -/
theorem Each.append {items : List α} (each : Each holds history)
    (always : ∀ item ∈ items, ∀ before, holds before item) :
    Each holds (history ++ items) := by
  induction items generalizing history with
  | nil =>
      rw [List.append_nil]
      exact each
  | cons item items induction =>
      rw [List.append_cons]
      apply induction
      · exact each.concat (always item List.mem_cons_self history)
      · intro other member
        exact always other (List.mem_cons_of_mem _ member)

/-- What has happened since are items of one kind. -/
def GrowsBy (kind : α → Prop) (before after : List α) : Prop :=
  ∃ rest, after = before ++ rest ∧ ∀ item ∈ rest, kind item

section GrowsBy

variable {kind : α → Prop} {before middle after : List α}

theorem GrowsBy.refl (kind : α → Prop) (history : List α) :
    GrowsBy kind history history :=
  ⟨[], (List.append_nil history).symm, by simp⟩

theorem GrowsBy.trans (first : GrowsBy kind before middle)
    (second : GrowsBy kind middle after) : GrowsBy kind before after := by
  obtain ⟨rest, rfl, inRest⟩ := first
  obtain ⟨last, rfl, inLast⟩ := second
  refine ⟨rest ++ last, List.append_assoc before rest last, ?_⟩
  intro item member
  rcases List.mem_append.mp member with earlier | later
  · exact inRest item earlier
  · exact inLast item later

theorem GrowsBy.mono {wider : α → Prop} (grows : GrowsBy kind before after)
    (within : ∀ item, kind item → wider item) :
    GrowsBy wider before after := by
  obtain ⟨rest, rfl, inRest⟩ := grows
  exact ⟨rest, rfl, fun item member => within item (inRest item member)⟩

theorem GrowsBy.concat {last : α} (grows : GrowsBy kind before after)
    (isKind : kind last) : GrowsBy kind before (after ++ [last]) := by
  apply grows.trans
  refine ⟨[last], rfl, ?_⟩
  intro item member
  rw [List.mem_singleton.mp member]
  exact isKind

/-- What is not of the kind did not happen since. -/
theorem GrowsBy.not_mem {item : α} (grows : GrowsBy kind before after)
    (other : ¬ kind item) (absent : item ∉ before) : item ∉ after := by
  obtain ⟨rest, rfl, inRest⟩ := grows
  intro member
  rcases List.mem_append.mp member with earlier | later
  · exact absent earlier
  · exact other (inRest item later)

end GrowsBy

/-- The last item of its kind. -/
def Latest (chosen : α → Prop) (history : List α) (item : α) : Prop :=
  ∃ before after, history = before ++ item :: after ∧ chosen item ∧
    ∀ later ∈ after, ¬ chosen later

section Latest

variable {item last : α}

theorem Latest.mem {chosen : α → Prop}
    (latest : Latest chosen history item) :
    item ∈ history := by
  obtain ⟨before, after, rfl, _⟩ := latest
  exact List.mem_append_right _ List.mem_cons_self

theorem Latest.isChosen {chosen : α → Prop}
    (latest : Latest chosen history item) :
    chosen item := by
  obtain ⟨_, _, _, holds, _⟩ := latest
  exact holds

theorem not_latest_nil {chosen : α → Prop} :
    ¬ Latest chosen [] item := by
  rintro ⟨before, after, split, _⟩
  simp at split

theorem latest_concat_of_chosen (chosen : α → Prop) (holds : chosen last) :
    Latest chosen (history ++ [last]) item ↔ item = last := by
  constructor
  · rintro ⟨before, after, split, _, none⟩
    rcases List.eq_nil_or_concat after with rfl | ⟨initial, final, rfl⟩
    · obtain ⟨_, same⟩ := List.append_inj' split rfl
      exact (List.singleton_inj.mp same).symm
    · rw [List.concat_eq_append, ← List.cons_append, ← List.append_assoc]
        at split
      obtain ⟨_, same⟩ := List.append_inj' split rfl
      rw [← List.singleton_inj.mp same] at none
      exact absurd holds (none last (by simp))
  · rintro rfl
    exact ⟨history, [], rfl, holds, by simp⟩

theorem latest_concat_of_not (chosen : α → Prop) (other : ¬ chosen last) :
    Latest chosen (history ++ [last]) item ↔ Latest chosen history item := by
  constructor
  · rintro ⟨before, after, split, holds, none⟩
    rcases List.eq_nil_or_concat after with rfl | ⟨initial, final, rfl⟩
    · obtain ⟨_, same⟩ := List.append_inj' split rfl
      rw [← List.singleton_inj.mp same] at holds
      exact absurd holds other
    · rw [List.concat_eq_append, ← List.cons_append, ← List.append_assoc]
        at split
      obtain ⟨same, _⟩ := List.append_inj' split rfl
      refine ⟨before, initial, same, holds, ?_⟩
      intro later member
      exact none later (by simp [member])
  · rintro ⟨before, after, rfl, holds, none⟩
    refine ⟨before, after ++ [last], by simp, holds, ?_⟩
    intro later member
    rcases List.mem_append.mp member with earlier | final
    · exact none later earlier
    · rw [List.mem_singleton.mp final]
      exact other

/-- Unless there is none of its kind, some item is the last. -/
theorem exists_latest (chosen : α → Prop) (member : item ∈ history)
    (holds : chosen item) :
    ∃ last, Latest chosen history last := by
  induction history using List.reverseRecOn with
  | nil => cases member
  | append_singleton history final induction =>
      by_cases kind : chosen final
      · exact ⟨final, (latest_concat_of_chosen chosen kind).mpr rfl⟩
      · rcases List.mem_append.mp member with earlier | isFinal
        · obtain ⟨last, latest⟩ := induction earlier
          exact ⟨last, (latest_concat_of_not chosen kind).mpr latest⟩
        · rw [List.mem_singleton.mp isFinal] at holds
          exact absurd holds kind

end Latest

end Foundation
