import Mathlib.Data.Fintype.Order
import Mathlib.Data.List.Sort
import Mathlib.Logic.Relation
import MachinedRs.Foundation.Kahn

/-!
# What Kahn's algorithm decides

On a graph without cycles some node is always ready, so all nodes get placed.
If the queue is kept sorted, every placed node is the greatest of those that
were ready; this determines the order, whatever the order of nodes and edges
was.  The counts of unplaced predecessors never fall below zero.
-/

namespace Foundation.Kahn

variable {α : Type}

/-- No node is reached from itself over edges. -/
def Acyclic (edges : List (α × α)) : Prop :=
  ∀ node, ¬ Relation.TransGen (fun source target => (source, target) ∈ edges)
    node node

/-- A node that can be placed next. -/
structure Ready (nodes : List α) (edges : List (α × α)) (placed : List α)
    (node : α) : Prop where
  isNode : node ∈ nodes
  unplaced : node ∉ placed
  released : ∀ edge ∈ edges, edge.2 = node → edge.1 ∈ placed

/-- On a graph without cycles some node is ready as long as one is unplaced. -/
theorem exists_ready {nodes placed : List α} {edges : List (α × α)}
    (acyclic : Acyclic edges) (closed : ∀ edge ∈ edges, edge.1 ∈ nodes)
    {node : α} (isNode : node ∈ nodes) (unplaced : node ∉ placed) :
    ∃ next, Ready nodes edges placed next := by
  let Precedes (one other : { node // node ∈ nodes }) : Prop :=
    Relation.TransGen (fun source target => (source, target) ∈ edges)
      one.1 other.1
  have : IsTrans _ Precedes := ⟨fun _ _ _ => Relation.TransGen.trans⟩
  have : Std.Irrefl Precedes := ⟨fun node => acyclic node.1⟩
  have : Finite { node // node ∈ nodes } := List.finite_toSet nodes
  have wellFounded : WellFounded Precedes :=
    Finite.wellFounded_of_trans_of_irrefl Precedes
  obtain ⟨next, nextUnplaced, first⟩ := wellFounded.has_min
    { node | node.1 ∉ placed } ⟨⟨node, isNode⟩, unplaced⟩
  refine ⟨next.1, next.2, nextUnplaced, ?_⟩
  rintro ⟨source, target⟩ member rfl
  by_contra sourceUnplaced
  exact first ⟨source, closed _ member⟩ sourceUnplaced (.single member)

section Placement

variable {edges : List (α × α)} {order : List α}

/-- Along a path of edges the positions in the order grow. -/
theorem idxOf_lt_of_follows [DecidableEq α] (follows : Follows edges order)
    (complete : ∀ edge ∈ edges, edge.2 ∈ order) {source target : α}
    (path : Relation.TransGen
      (fun source target => (source, target) ∈ edges) source target) :
    order.idxOf source < order.idxOf target := by
  have direct : ∀ source target, (source, target) ∈ edges →
      order.idxOf source < order.idxOf target := by
    intro source target member
    obtain ⟨before, after, split, first⟩ :=
      List.eq_append_cons_of_mem (complete _ member)
    have earlier := follows before target after split _ member rfl
    rw [split, List.idxOf_append_of_mem earlier,
      List.idxOf_append_of_notMem first, List.idxOf_cons_self, Nat.add_zero]
    exact List.idxOf_lt_length_of_mem earlier
  induction path with
  | single member => exact direct _ _ member
  | tail _ member induction => exact Nat.lt_trans induction (direct _ _ member)

theorem acyclic_of_follows [DecidableEq α] (follows : Follows edges order)
    (complete : ∀ edge ∈ edges, edge.2 ∈ order) : Acyclic edges := by
  intro node cycle
  exact Nat.lt_irrefl _ (idxOf_lt_of_follows follows complete cycle)

end Placement

/-- Every node is the greatest of those that were ready when it was placed, and
in the end none is ready. -/
structure Greedy [LE α] (nodes : List α) (edges : List (α × α))
    (order : List α) : Prop where
  chosen : Each (fun placed node => Ready nodes edges placed node ∧
    ∀ other, Ready nodes edges placed other → other ≤ node) order
  finished : ∀ node, ¬ Ready nodes edges order node

/-- Two such orders of graphs in which the same nodes are ready are equal. -/
theorem Greedy.unique [LinearOrder α]
    {nodes otherNodes order otherOrder : List α}
    {edges otherEdges : List (α × α)} (one : Greedy nodes edges order)
    (other : Greedy otherNodes otherEdges otherOrder)
    (same : ∀ placed node, Ready nodes edges placed node ↔
      Ready otherNodes otherEdges placed node) :
    order = otherOrder := by
  have rests : ∀ rest placed otherRest, order = placed ++ rest →
      otherOrder = placed ++ otherRest → rest = otherRest := by
    intro rest
    induction rest with
    | nil =>
        intro placed otherRest split otherSplit
        cases otherRest with
        | nil => rfl
        | cons node otherRest =>
            have ready := (other.chosen placed node otherRest otherSplit).1
            rw [List.append_nil] at split
            rw [← same, ← split] at ready
            exact absurd ready (one.finished node)
    | cons node rest induction =>
        intro placed otherRest split otherSplit
        obtain ⟨ready, greatest⟩ := one.chosen placed node rest split
        cases otherRest with
        | nil =>
            rw [List.append_nil] at otherSplit
            rw [same, ← otherSplit] at ready
            exact absurd ready (other.finished node)
        | cons otherNode otherRest =>
            obtain ⟨otherReady, otherGreatest⟩ :=
              other.chosen placed otherNode otherRest otherSplit
            have equal : node = otherNode := le_antisymm
              (otherGreatest node ((same placed node).mp ready))
              (greatest otherNode ((same placed otherNode).mpr otherReady))
            subst equal
            rw [List.append_cons] at split otherSplit
            rw [induction (placed ++ [node]) otherRest split otherSplit]
  exact rests order [] otherOrder rfl rfl

section Queue

variable [DecidableEq α] {arrange : List α → List α} {nodes pending : List α}
  {edges : List (α × α)} {kahn : Kahn α}

/-- The queue has exactly the nodes that are ready. -/
theorem Ordered.mem_queue_iff (ordered : Ordered nodes edges [] kahn)
    {node : α} : node ∈ kahn.queue ↔ Ready nodes edges kahn.order node := by
  have disjoint := (List.nodup_append.mp ordered.nodup).2.2
  have counted := ordered.counted node
  rw [List.count_nil, Nat.add_zero] at counted
  have free := ordered.free node
  rw [counted, List.countP_eq_zero] at free
  constructor
  · intro queued
    obtain ⟨isNode, released⟩ := free.mp (List.mem_append_right _ queued)
    refine ⟨isNode, fun placed => disjoint node placed node queued rfl, ?_⟩
    intro edge member target
    by_contra unplaced
    exact released edge member (decide_eq_true ⟨target, unplaced⟩)
  · intro ready
    have waiting : node ∈ kahn.order ++ kahn.queue := by
      refine free.mpr ⟨ready.isNode, ?_⟩
      intro edge member remaining
      obtain ⟨target, unplaced⟩ := of_decide_eq_true remaining
      exact unplaced (ready.released edge member target)
    exact (List.mem_append.mp waiting).resolve_left ready.unplaced

theorem Ordered.complete (ordered : Ordered nodes edges [] kahn)
    (done : kahn.queue = []) (acyclic : Acyclic edges)
    (closed : ∀ edge ∈ edges, edge.1 ∈ nodes) : nodes ⊆ kahn.order := by
  intro node isNode
  by_contra unplaced
  obtain ⟨next, ready⟩ := exists_ready acyclic closed isNode unplaced
  have queued := ordered.mem_queue_iff.mpr ready
  rw [done] at queued
  cases queued

end Queue

section Sorted

variable [LinearOrder α] {arrange : List α → List α} {nodes pending : List α}
  {edges : List (α × α)} {kahn : Kahn α}

theorem release_sorted (sorts : ∀ queue, (arrange queue).Pairwise (· ≤ ·))
    (sorted : kahn.queue.Pairwise (· ≤ ·)) (child : α) :
    (kahn.release arrange child).queue.Pairwise (· ≤ ·) := by
  simp only [release]
  split
  · exact sorts _
  · exact sorted

theorem releaseAll_sorted (sorts : ∀ queue, (arrange queue).Pairwise (· ≤ ·))
    (sorted : kahn.queue.Pairwise (· ≤ ·)) :
    (pending.foldl (release arrange) kahn).queue.Pairwise (· ≤ ·) := by
  induction pending generalizing kahn with
  | nil => exact sorted
  | cons child pending induction =>
      exact induction (release_sorted sorts sorted child)

/-- The last node of a sorted queue is its greatest. -/
theorem le_of_getLast? {queue : List α} (sorted : queue.Pairwise (· ≤ ·))
    {last node : α} (isLast : queue.getLast? = some last)
    (member : node ∈ queue) : node ≤ last := by
  obtain ⟨waiting, rfl⟩ := List.getLast?_eq_some_iff.mp isLast
  rcases List.mem_append.mp member with earlier | single
  · exact (List.pairwise_append.mp sorted).2.2 node earlier last
      (List.mem_singleton_self last)
  · exact le_of_eq (List.mem_singleton.mp single)

/-- With a sorted queue the loop always places the greatest ready node. -/
theorem Ordered.drain_chosen (arranges : ∀ queue, (arrange queue).Perm queue)
    (sorts : ∀ queue, (arrange queue).Pairwise (· ≤ ·))
    (closed : ∀ edge ∈ edges, edge.2 ∈ nodes) (fuel : Nat)
    (ordered : Ordered nodes edges [] kahn)
    (sorted : kahn.queue.Pairwise (· ≤ ·))
    (chosen : Each (fun placed node => Ready nodes edges placed node ∧
      ∀ other, Ready nodes edges placed other → other ≤ node) kahn.order) :
    Each (fun placed node => Ready nodes edges placed node ∧
        ∀ other, Ready nodes edges placed other → other ≤ node)
      (Kahn.drain arrange (targets edges) fuel kahn).order := by
  induction fuel generalizing kahn with
  | zero => exact chosen
  | succ fuel induction =>
      rw [Kahn.drain]
      cases last : kahn.queue.getLast? with
      | none => exact chosen
      | some node =>
          apply induction
          · exact (ordered.pop last).releaseAll arranges
              (targets_subset closed node)
          · apply releaseAll_sorted sorts
            exact sorted.sublist (List.dropLast_sublist _)
          · rw [releaseAll_order]
            refine chosen.concat ⟨?_, ?_⟩
            · exact ordered.mem_queue_iff.mp (List.mem_of_getLast? last)
            · intro other ready
              exact le_of_getLast? sorted last
                (ordered.mem_queue_iff.mpr ready)

end Sorted

section Checked

variable [DecidableEq α]

/-- `release` as it runs on machine integers: counting below zero panics. -/
def releaseChecked (arrange : List α → List α) (kahn : Kahn α) (child : α) :
    Option (Kahn α) :=
  if kahn.indegree child = 0 then
    none
  else
    some (kahn.release arrange child)

def drainChecked (arrange : List α → List α) (children : α → List α) :
    Nat → Kahn α → Option (Kahn α)
  | 0, kahn => some kahn
  | fuel + 1, kahn =>
      match kahn.queue.getLast? with
      | none => some kahn
      | some node =>
          ((children node).foldlM (releaseChecked arrange)
            (kahn.pop node)).bind (drainChecked arrange children fuel)

variable {arrange : List α → List α} {nodes pending : List α}
  {edges : List (α × α)} {kahn : Kahn α}

theorem Ordered.releaseAll_checked
    (arranges : ∀ queue, (arrange queue).Perm queue)
    (areNodes : ∀ child ∈ pending, child ∈ nodes)
    (ordered : Ordered nodes edges pending kahn) :
    pending.foldlM (releaseChecked arrange) kahn =
      some (pending.foldl (Kahn.release arrange) kahn) := by
  induction pending generalizing kahn with
  | nil => rfl
  | cons child pending induction =>
      have positive : kahn.indegree child ≠ 0 := by
        have counted := ordered.counted child
        rw [List.count_cons_self] at counted
        omega
      rw [List.foldlM_cons, releaseChecked, if_neg positive]
      refine induction ?_
        (ordered.release arranges (areNodes child List.mem_cons_self))
      intro other member
      exact areNodes other (List.mem_cons_of_mem child member)

/-- The counts never fall below zero. -/
theorem Ordered.drain_checked (arranges : ∀ queue, (arrange queue).Perm queue)
    (closed : ∀ edge ∈ edges, edge.2 ∈ nodes) (fuel : Nat)
    (ordered : Ordered nodes edges [] kahn) :
    drainChecked arrange (targets edges) fuel kahn =
      some (Kahn.drain arrange (targets edges) fuel kahn) := by
  induction fuel generalizing kahn with
  | zero => rfl
  | succ fuel induction =>
      rw [drainChecked, Kahn.drain]
      cases last : kahn.queue.getLast? with
      | none => rfl
      | some node =>
          have areNodes := targets_subset closed node
          have popped := ordered.pop last
          dsimp only
          rw [popped.releaseAll_checked arranges areNodes, Option.bind_some]
          exact induction (popped.releaseAll arranges areNodes)

end Checked

end Foundation.Kahn
