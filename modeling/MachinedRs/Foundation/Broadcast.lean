import Mathlib.Data.List.Basic

/-!
# Bounded broadcast channels

A channel remembers how many messages were ever sent but retains only the last
`capacity` of them.  A receiver is a position in the stream.  A receiver that
has fallen behind the retained messages is told so once and continues with the
oldest retained one.
-/

namespace Foundation

universe u v

/-- The outcome of one receive; `next` is the receiver's position after it. -/
inductive Received (α : Type u) where
  | empty
  | message (value : α) (next : Nat)
  | lagged (skipped next : Nat)

def receive {α : Type u} (capacity : Nat) (sent : List α) (position : Nat) :
    Received α :=
  if position + capacity < sent.length then
    .lagged (sent.length - capacity - position) (sent.length - capacity)
  else
    match sent[position]? with
    | some value => .message value (position + 1)
    | none => .empty

variable {α : Type u} {capacity position next skipped : Nat} {sent : List α}

theorem length_le_of_receive_empty
    (received : receive capacity sent position = .empty) :
    sent.length ≤ position := by
  unfold receive at received
  split at received
  · cases received
  · split at received
    · cases received
    · rename_i missing
      exact List.getElem?_eq_none_iff.mp missing

theorem getElem?_of_receive_message {value : α}
    (received : receive capacity sent position = .message value next) :
    sent[position]? = some value ∧ next = position + 1 := by
  unfold receive at received
  split at received
  · cases received
  · split at received
    · rename_i found
      cases received
      exact ⟨found, rfl⟩
    · cases received

theorem not_lagged_of_receive_message {value : α}
    (received : receive capacity sent position = .message value next) :
    ¬ position + capacity < sent.length := by
  unfold receive at received
  split at received
  · cases received
  · assumption

theorem receive_message_of_getElem? {value : α}
    (current : ¬ position + capacity < sent.length)
    (found : sent[position]? = some value) :
    receive capacity sent position = .message value (position + 1) := by
  rw [receive, if_neg current, found]

theorem receive_empty_of_length_le (read : sent.length ≤ position) :
    receive capacity sent position = .empty := by
  have current : ¬ position + capacity < sent.length :=
    Nat.not_lt_of_le (Nat.le_trans read (Nat.le_add_right _ _))
  rw [receive, if_neg current, List.getElem?_eq_none_iff.mpr read]

theorem lagged_of_receive_lagged
    (received : receive capacity sent position = .lagged skipped next) :
    position + capacity < sent.length := by
  unfold receive at received
  split at received
  · assumption
  · split at received <;> cases received

theorem next_le_length_of_receive_lagged
    (received : receive capacity sent position = .lagged skipped next) :
    next ≤ sent.length := by
  unfold receive at received
  split at received
  · cases received
    exact Nat.sub_le sent.length capacity
  · split at received <;> cases received

theorem next_le_length_of_receive_message {value : α}
    (received : receive capacity sent position = .message value next) :
    next ≤ sent.length := by
  obtain ⟨found, rfl⟩ := getElem?_of_receive_message received
  obtain ⟨within, _⟩ := List.getElem?_eq_some_iff.mp found
  exact within

end Foundation
