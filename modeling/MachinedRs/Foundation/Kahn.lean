import Mathlib.Data.List.Nodup
import Mathlib.Data.List.Count
import Mathlib.Logic.Function.Basic
import MachinedRs.Foundation.History

/-!
# Kahn's algorithm

A node whose predecessors are all placed waits in a queue; placing it releases
its successors.  The queue may be arranged in any way after an insertion.
-/

namespace Foundation

structure Kahn (α : Type) where
  /-- How many predecessors of a node are not placed yet. -/
  indegree : α → Nat
  queue : List α
  order : List α

namespace Kahn

variable {α : Type} [DecidableEq α]

/-- One more predecessor of the child is placed. -/
def release (arrange : List α → List α) (kahn : Kahn α) (child : α) : Kahn α :=
  let left := kahn.indegree child - 1
  { kahn with
    indegree := Function.update kahn.indegree child left
    queue :=
      if left = 0 then arrange (kahn.queue ++ [child]) else kahn.queue }

/-- Move the last node of the queue to the order. -/
def pop (kahn : Kahn α) (node : α) : Kahn α :=
  { kahn with
    queue := kahn.queue.dropLast
    order := kahn.order ++ [node] }

/-- Place nodes until the queue is empty. -/
def drain (arrange : List α → List α) (children : α → List α) :
    Nat → Kahn α → Kahn α
  | 0, kahn => kahn
  | fuel + 1, kahn =>
      match kahn.queue.getLast? with
      | none => kahn
      | some node =>
          drain arrange children fuel
            ((children node).foldl (release arrange) (kahn.pop node))

/-- The targets of the edges from a node. -/
def targets (edges : List (α × α)) (node : α) : List α :=
  (edges.filter fun edge => edge.1 = node).map Prod.snd

/-- Every node of the order comes after the sources of its edges. -/
def Follows (edges : List (α × α)) (order : List α) : Prop :=
  Each (fun before node => ∀ edge ∈ edges, edge.2 = node → edge.1 ∈ before)
    order

/-- `pending` are the children of the last placed node that still have to be
released. -/
structure Ordered (nodes : List α) (edges : List (α × α))
    (pending : List α) (kahn : Kahn α) : Prop where
  nodup : (kahn.order ++ kahn.queue).Nodup
  free : ∀ node, node ∈ kahn.order ++ kahn.queue ↔
    node ∈ nodes ∧ kahn.indegree node = 0
  counted : ∀ node, kahn.indegree node =
    edges.countP (fun edge => edge.2 = node ∧ edge.1 ∉ kahn.order) +
      pending.count node
  follows : Follows edges kahn.order

section Invariant

variable {arrange : List α → List α} {nodes pending : List α}
  {edges : List (α × α)} {kahn : Kahn α}

theorem Ordered.release (arranges : ∀ queue, (arrange queue).Perm queue)
    {child : α} (ordered : Ordered nodes edges (child :: pending) kahn)
    (isNode : child ∈ nodes) :
    Ordered nodes edges pending (kahn.release arrange child) := by
  have here := ordered.counted child
  rw [List.count_cons_self] at here
  have absent : child ∉ kahn.order ++ kahn.queue := by
    intro member
    have zero := ((ordered.free child).mp member).2
    omega
  have counted : ∀ node, (kahn.release arrange child).indegree node =
      edges.countP (fun edge => edge.2 = node ∧ edge.1 ∉ kahn.order) +
        pending.count node := by
    intro node
    simp only [Kahn.release, Function.update_apply]
    split
    · rename_i same
      subst same
      omega
    · rename_i different
      rw [ordered.counted node, List.count_cons_of_ne (Ne.symm different)]
  have others : ∀ node, node ≠ child →
      (kahn.release arrange child).indegree node = kahn.indegree node := by
    intro node different
    simp only [Kahn.release, Function.update_of_ne different]
  have own : (kahn.release arrange child).indegree child =
      kahn.indegree child - 1 := by
    simp only [Kahn.release, Function.update_self]
  by_cases last : kahn.indegree child - 1 = 0
  · have queued : (kahn.order ++ (kahn.release arrange child).queue).Perm
        (kahn.order ++ kahn.queue ++ [child]) := by
      simp only [Kahn.release, last, if_true]
      rw [List.append_assoc]
      exact (arranges _).append_left _
    refine ⟨?_, ?_, counted, ordered.follows⟩
    · rw [show (kahn.release arrange child).order = kahn.order from rfl,
        queued.nodup_iff]
      refine List.nodup_append.mpr ⟨ordered.nodup,
        List.nodup_singleton child, ?_⟩
      rintro node member other single rfl
      rw [List.mem_singleton.mp single] at member
      exact absent member
    · intro node
      rw [show (kahn.release arrange child).order = kahn.order from rfl,
        queued.mem_iff, List.mem_append, List.mem_singleton]
      by_cases same : node = child
      · subst same
        rw [own]
        simp [isNode, last]
      · rw [others node same, ← ordered.free node]
        simp [same]
  · have unchanged : (kahn.release arrange child).queue = kahn.queue := by
      simp only [Kahn.release, last, if_false]
    refine ⟨?_, ?_, counted, ordered.follows⟩
    · rw [unchanged]
      exact ordered.nodup
    · intro node
      rw [unchanged]
      by_cases same : node = child
      · subst same
        rw [own]
        constructor
        · intro member
          exact absurd member absent
        · intro free
          exact absurd free.2 last
      · rw [others node same]
        exact ordered.free node

theorem releaseAll_order (kahn : Kahn α) (pending : List α) :
    (pending.foldl (Kahn.release arrange) kahn).order = kahn.order := by
  induction pending generalizing kahn with
  | nil => rfl
  | cons child pending induction => exact induction _

theorem Ordered.releaseAll (arranges : ∀ queue, (arrange queue).Perm queue)
    (areNodes : ∀ child ∈ pending, child ∈ nodes)
    (ordered : Ordered nodes edges pending kahn) :
    Ordered nodes edges [] (pending.foldl (Kahn.release arrange) kahn) := by
  induction pending generalizing kahn with
  | nil => exact ordered
  | cons child pending induction =>
      apply induction
      · intro other member
        exact areNodes other (List.mem_cons_of_mem _ member)
      · exact ordered.release arranges (areNodes child List.mem_cons_self)

/-- The edges into a node, by whether they come from the node just placed. -/
theorem countP_placed {order : List α} {last : α} (fresh : last ∉ order)
    (node : α) :
    edges.countP (fun edge => edge.2 = node ∧ edge.1 ∉ order) =
      edges.countP (fun edge => edge.2 = node ∧ edge.1 ∉ order ++ [last]) +
        (targets edges last).count node := by
  induction edges with
  | nil => rfl
  | cons edge edges induction =>
      rw [List.countP_cons, List.countP_cons, induction]
      by_cases fromLast : edge.1 = last
      · have more : targets (edge :: edges) last =
            edge.2 :: targets edges last := by
          simp [targets, fromLast]
        rw [more, List.count_cons]
        simp [fromLast, fresh]
        omega
      · have same : targets (edge :: edges) last = targets edges last := by
          simp [targets, fromLast]
        rw [same]
        simp [fromLast]
        omega

theorem Ordered.pop {node : α} (ordered : Ordered nodes edges [] kahn)
    (last : kahn.queue.getLast? = some node) :
    Ordered nodes edges (targets edges node) (kahn.pop node) := by
  obtain ⟨waiting, split⟩ := List.getLast?_eq_some_iff.mp last
  have queued : node ∈ kahn.order ++ kahn.queue := by
    rw [split]
    simp
  have fresh : node ∉ kahn.order := by
    intro member
    have disjoint := (List.nodup_append.mp ordered.nodup).2.2
    exact disjoint node member node (by rw [split]; simp) rfl
  have moved : (kahn.pop node).order ++ (kahn.pop node).queue =
      kahn.order ++ [node] ++ waiting := by
    simp only [Kahn.pop, split, List.dropLast_concat]
  have same : (kahn.order ++ [node] ++ waiting).Perm
      (kahn.order ++ kahn.queue) := by
    rw [split, List.append_assoc]
    exact List.perm_append_comm.append_left _
  refine ⟨?_, ?_, ?_, ?_⟩
  · rw [moved, same.nodup_iff]
    exact ordered.nodup
  · intro other
    rw [moved, same.mem_iff]
    exact ordered.free other
  · intro other
    have before := ordered.counted other
    rw [List.count_nil, Nat.add_zero, countP_placed fresh other] at before
    exact before
  · apply ordered.follows.concat
    intro edge member target
    have none : kahn.indegree node = 0 := ((ordered.free node).mp queued).2
    rw [ordered.counted node, List.count_nil, Nat.add_zero,
      List.countP_eq_zero] at none
    by_contra unplaced
    apply none edge member
    simp [target, unplaced]

theorem Ordered.length_le (ordered : Ordered nodes edges pending kahn) :
    kahn.order.length + kahn.queue.length ≤ nodes.length := by
  rw [← List.length_append]
  apply ordered.nodup.length_le_of_subset
  intro node member
  exact ((ordered.free node).mp member).1

/-- An order of the right length is an order of all nodes. -/
theorem Ordered.perm (ordered : Ordered nodes edges pending kahn)
    (complete : kahn.order.length = nodes.length) :
    kahn.order.Perm nodes := by
  have nodup := (List.nodup_append.mp ordered.nodup).1
  have within : kahn.order ⊆ nodes := by
    intro node member
    exact ((ordered.free node).mp (List.mem_append_left _ member)).1
  exact (List.subperm_of_subset nodup within).perm_of_length_le
    (Nat.le_of_eq complete.symm)

theorem targets_subset (closed : ∀ edge ∈ edges, edge.2 ∈ nodes) (node : α) :
    ∀ child ∈ targets edges node, child ∈ nodes := by
  intro child member
  obtain ⟨edge, isEdge, rfl⟩ := List.mem_map.mp member
  exact closed edge (List.mem_filter.mp isEdge).1

/-- The loop keeps the order, and with as much fuel as there are nodes it ends
with an empty queue. -/
theorem Ordered.drain (arranges : ∀ queue, (arrange queue).Perm queue)
    (closed : ∀ edge ∈ edges, edge.2 ∈ nodes) (fuel : Nat)
    (ordered : Ordered nodes edges [] kahn) :
    Ordered nodes edges []
        (Kahn.drain arrange (targets edges) fuel kahn) ∧
      (nodes.length ≤ kahn.order.length + fuel →
        (Kahn.drain arrange (targets edges) fuel kahn).queue = []) := by
  induction fuel generalizing kahn with
  | zero =>
      refine ⟨ordered, ?_⟩
      intro enough
      have bound := ordered.length_le
      have none : kahn.queue.length = 0 := by omega
      exact List.length_eq_zero_iff.mp none
  | succ fuel induction =>
      rw [Kahn.drain]
      cases last : kahn.queue.getLast? with
      | none => exact ⟨ordered, fun _ => List.getLast?_eq_none_iff.mp last⟩
      | some node =>
          have popped := ordered.pop last
          have released :=
            popped.releaseAll arranges (targets_subset closed node)
          obtain ⟨still, empties⟩ := induction released
          refine ⟨still, fun enough => empties ?_⟩
          rw [releaseAll_order]
          simp only [Kahn.pop, List.length_append, List.length_singleton]
          omega

end Invariant

end Kahn

end Foundation
