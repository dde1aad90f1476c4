import Mathlib.Algebra.BigOperators.Group.Finset.Basic
import Mathlib.Algebra.Order.BigOperators.Group.Finset
import Mathlib.Logic.Relation
import MachinedRs.Foundation.History

/-!
# Depth-first search

The search enters a node, searches the nodes it points to, and then puts the
node out; nodes that were entered before are skipped.  So every node that is
reached is put out once, and unless the graph has a cycle it comes after all
nodes it leads to.
-/

namespace Foundation

/-- A graph in which finitely many nodes point to others. -/
structure Graph (α : Type) where
  next : α → List α
  support : Finset α
  next_eq_nil : ∀ node ∉ support, next node = []

namespace Graph

variable {α : Type}

def Edge (graph : Graph α) (source target : α) : Prop :=
  target ∈ graph.next source

/-- What the search has entered, and what it has put out. -/
structure Search (α : Type) where
  seen : Finset α
  out : List α

def Search.start : Search α :=
  { seen := ∅
    out := [] }

def Search.leave (search : Search α) (node : α) : Search α :=
  { search with out := search.out ++ [node] }

section Explored

/-- What a search from `starts` has added. -/
structure Explored (graph : Graph α) (starts : List α)
    (search after : Search α) (added : List α) : Prop where
  out : after.out = search.out ++ added
  seen : ∀ node, node ∈ after.seen ↔ node ∈ search.seen ∨ node ∈ added
  fresh : ∀ node ∈ added, node ∉ search.seen
  distinct : added.Nodup
  covers : ∀ node ∈ starts, node ∈ after.seen
  closed : ∀ node ∈ added, ∀ child ∈ graph.next node, child ∈ after.seen
  sound : ∀ node ∈ added,
    ∃ start ∈ starts, Relation.ReflTransGen graph.Edge start node
  /-- A child that does not come before its parent was entered earlier, or it
  leads back to the parent. -/
  ordered : Each (fun before node => ∀ child ∈ graph.next node,
    child ∈ before ∨ child ∈ search.seen ∨
      Relation.ReflTransGen graph.Edge child node) added

variable {graph : Graph α} {node : α} {starts nodes : List α}
  {search inner after : Search α} {added first later : List α}

theorem Explored.nil (search : Search α) :
    graph.Explored [] search search [] :=
  { out := (List.append_nil _).symm
    seen := by simp
    fresh := by simp
    distinct := List.nodup_nil
    covers := by simp
    closed := by simp
    sound := by simp
    ordered := Each.nil }

theorem Explored.skip (seen : node ∈ search.seen)
    (rest : graph.Explored nodes search after added) :
    graph.Explored (node :: nodes) search after added :=
  { rest with
    covers := by
      intro other member
      rcases List.mem_cons.mp member with rfl | listed
      · exact (rest.seen other).mpr (.inl seen)
      · exact rest.covers other listed
    sound := by
      intro other member
      obtain ⟨start, listed, path⟩ := rest.sound other member
      exact ⟨start, List.mem_cons_of_mem node listed, path⟩ }

/-- One search after the other. -/
theorem Explored.append
    (one : graph.Explored starts search inner first)
    (other : graph.Explored nodes inner after later) :
    graph.Explored (starts ++ nodes) search after (first ++ later) := by
  constructor
  case out => rw [other.out, one.out, List.append_assoc]
  case seen =>
    intro node
    rw [other.seen node, one.seen node, List.mem_append, or_assoc]
  case fresh =>
    intro node member
    rcases List.mem_append.mp member with earlier | last
    · exact one.fresh node earlier
    · intro entered
      exact other.fresh node last ((one.seen node).mpr (.inl entered))
  case distinct =>
    apply List.Nodup.append one.distinct other.distinct
    intro node earlier last
    exact other.fresh node last ((one.seen node).mpr (.inr earlier))
  case covers =>
    intro node member
    rcases List.mem_append.mp member with earlier | last
    · exact (other.seen node).mpr (.inl (one.covers node earlier))
    · exact other.covers node last
  case closed =>
    intro node member child isChild
    rcases List.mem_append.mp member with earlier | last
    · exact (other.seen child).mpr
        (.inl (one.closed node earlier child isChild))
    · exact other.closed node last child isChild
  case sound =>
    intro node member
    rcases List.mem_append.mp member with earlier | last
    · obtain ⟨start, listed, path⟩ := one.sound node earlier
      exact ⟨start, List.mem_append_left _ listed, path⟩
    · obtain ⟨start, listed, path⟩ := other.sound node last
      exact ⟨start, List.mem_append_right _ listed, path⟩
  case ordered =>
    apply Each.join one.ordered
    intro before node rest split child isChild
    rcases other.ordered before node rest split child isChild with
      earlier | entered | cycle
    · exact .inl (List.mem_append_right _ earlier)
    · rcases (one.seen child).mp entered with entered | earlier
      · exact .inr (.inl entered)
      · exact .inl (List.mem_append_left _ earlier)
    · exact .inr (.inr cycle)

end Explored

variable [DecidableEq α]

def Search.enter (search : Search α) (node : α) : Search α :=
  { search with seen := insert node search.seen }

section Explore

/-- Bounds the calls that are left: one for each node of the list, and for each
unseen node one more than it points to. -/
def calls (graph : Graph α) (nodes : List α) (search : Search α) : Nat :=
  nodes.length +
    ∑ node ∈ graph.support \ search.seen, ((graph.next node).length + 1)

theorem calls_mono (graph : Graph α) (nodes : List α)
    {search after : Search α} (seen : search.seen ⊆ after.seen) :
    graph.calls nodes after ≤ graph.calls nodes search := by
  apply Nat.add_le_add_left
  exact Finset.sum_le_sum_of_subset (Finset.sdiff_subset_sdiff le_rfl seen)

theorem calls_cons (graph : Graph α) (node : α) (nodes : List α)
    (search : Search α) :
    graph.calls (node :: nodes) search = graph.calls nodes search + 1 := by
  rw [calls, calls, List.length_cons]
  omega

theorem calls_enter (graph : Graph α) {node : α} (nodes : List α)
    {search : Search α} (new : node ∉ search.seen) :
    graph.calls (graph.next node) (search.enter node) <
      graph.calls (node :: nodes) search := by
  by_cases supported : node ∈ graph.support
  · have unseen : node ∈ graph.support \ search.seen :=
      Finset.mem_sdiff.mpr ⟨supported, new⟩
    have rest : graph.support \ (search.enter node).seen =
        (graph.support \ search.seen).erase node :=
      Finset.sdiff_insert _ _ _
    have split := Finset.add_sum_erase (graph.support \ search.seen)
      (fun node => (graph.next node).length + 1) unseen
    rw [calls, calls, rest, List.length_cons]
    omega
  · have fewer : graph.calls [] (search.enter node) ≤ graph.calls [] search :=
      graph.calls_mono [] (Finset.subset_insert node search.seen)
    have more : graph.calls [] search ≤ graph.calls nodes search :=
      Nat.add_le_add_right (Nat.zero_le _) _
    rw [graph.next_eq_nil node supported, calls_cons]
    exact Nat.lt_succ_of_le (fewer.trans more)

/-- Search from every node of a list in turn. -/
def explore (graph : Graph α) :
    List α → (search : Search α) →
      { after : Search α // search.seen ⊆ after.seen }
  | [], search => ⟨search, le_rfl⟩
  | node :: nodes, search =>
      if _ : node ∈ search.seen then
        graph.explore nodes search
      else
        let inner := graph.explore (graph.next node) (search.enter node)
        let after := graph.explore nodes (inner.1.leave node)
        ⟨after.1, (Finset.subset_insert _ _).trans (inner.2.trans after.2)⟩
termination_by nodes search => graph.calls nodes search
decreasing_by
  · rw [calls_cons]
    omega
  · exact graph.calls_enter nodes ‹_›
  · have fewer := graph.calls_mono nodes
      ((Finset.subset_insert node search.seen).trans inner.2)
    rw [calls_cons]
    exact Nat.lt_succ_of_le fewer

/-- Search from one node. -/
def visit (graph : Graph α) (node : α) (search : Search α) : Search α :=
  (graph.explore [node] search).1

variable (graph : Graph α)

theorem explore_nil (search : Search α) :
    (graph.explore [] search).1 = search := by
  rw [explore]

theorem explore_cons (node : α) (nodes : List α) (search : Search α) :
    (graph.explore (node :: nodes) search).1 =
      (graph.explore nodes (graph.visit node search)).1 := by
  by_cases seen : node ∈ search.seen
  · have skipped : graph.visit node search = search := by
      rw [visit, explore, dif_pos seen, explore_nil]
    rw [skipped, explore, dif_pos seen]
  · have left : graph.visit node search =
        (graph.explore (graph.next node) (search.enter node)).1.leave
          node := by
      rw [visit, explore, dif_neg seen]
      exact graph.explore_nil _
    rw [left, explore, dif_neg seen]

end Explore

section ExploreSpec

variable {graph : Graph α} {node : α} {search inner : Search α}
  {first : List α}

/-- A node that was entered and left again. -/
theorem Explored.leave (new : node ∉ search.seen)
    (below : graph.Explored (graph.next node) (search.enter node) inner first) :
    graph.Explored [node] search (inner.leave node) (first ++ [node]) := by
  have seenBelow : ∀ other, other ∈ inner.seen ↔
      (other = node ∨ other ∈ search.seen) ∨ other ∈ first := by
    intro other
    rw [below.seen other, Search.enter, Finset.mem_insert]
  have reached : ∀ other ∈ first,
      Relation.ReflTransGen graph.Edge node other := by
    intro other member
    obtain ⟨child, isChild, path⟩ := below.sound other member
    exact .head isChild path
  have freshBelow : ∀ other ∈ first, other ≠ node ∧ other ∉ search.seen := by
    intro other member
    have absent := below.fresh other member
    rw [Search.enter, Finset.mem_insert, not_or] at absent
    exact absent
  constructor
  case out =>
    rw [Search.leave, below.out, List.append_assoc]
    rfl
  case seen =>
    intro other
    rw [Search.leave, seenBelow other, List.mem_append, List.mem_singleton]
    grind
  case fresh =>
    intro other member
    rcases List.mem_append.mp member with isBelow | isNode
    · exact (freshBelow other isBelow).2
    · rw [List.mem_singleton.mp isNode]
      exact new
  case distinct =>
    rw [← List.concat_eq_append]
    apply List.Nodup.concat _ below.distinct
    intro member
    exact (freshBelow node member).1 rfl
  case covers =>
    intro other member
    rw [List.mem_singleton.mp member]
    exact (seenBelow node).mpr (.inl (.inl rfl))
  case closed =>
    intro other member child isChild
    rcases List.mem_append.mp member with isBelow | isNode
    · exact below.closed other isBelow child isChild
    · rw [List.mem_singleton.mp isNode] at isChild
      exact below.covers child isChild
  case sound =>
    intro other member
    refine ⟨node, List.mem_singleton_self node, ?_⟩
    rcases List.mem_append.mp member with isBelow | isNode
    · exact reached other isBelow
    · rw [List.mem_singleton.mp isNode]
  case ordered =>
    apply Each.concat
    · intro before other rest split child isChild
      have member : other ∈ first := by
        rw [split]
        exact List.mem_append_right _ List.mem_cons_self
      rcases below.ordered before other rest split child isChild with
        earlier | entered | cycle
      · exact .inl earlier
      · rcases Finset.mem_insert.mp entered with rfl | entered
        · exact .inr (.inr (reached other member))
        · exact .inr (.inl entered)
      · exact .inr (.inr cycle)
    · intro child isChild
      rcases (seenBelow child).mp (below.covers child isChild) with
        (rfl | entered) | earlier
      · exact .inr (.inr .refl)
      · exact .inr (.inl entered)
      · exact .inl earlier

theorem exists_explored (graph : Graph α) (starts : List α)
    (search : Search α) :
    ∃ added, graph.Explored starts search (graph.explore starts search).1
      added := by
  fun_induction explore graph starts search with
  | case1 search => exact ⟨[], .nil search⟩
  | case2 node nodes search seen induction =>
      obtain ⟨added, explored⟩ := induction
      exact ⟨added, explored.skip seen⟩
  | case3 node nodes search new inner after below rest =>
      obtain ⟨first, below⟩ := below
      obtain ⟨later, rest⟩ := rest
      exact ⟨first ++ [node] ++ later, (below.leave new).append rest⟩

end ExploreSpec

section Start

variable (graph : Graph α) (starts : List α)

/-- Nothing was entered before: what is put out is all that was added. -/
theorem explored_start :
    graph.Explored starts .start (graph.explore starts .start).1
      (graph.explore starts .start).1.out := by
  obtain ⟨added, explored⟩ := graph.exists_explored starts .start
  rw [explored.out]
  exact explored

theorem nodup_explore : (graph.explore starts .start).1.out.Nodup :=
  (graph.explored_start starts).distinct

/-- Exactly the nodes that can be reached are put out. -/
theorem mem_explore_iff (node : α) :
    node ∈ (graph.explore starts .start).1.out ↔
      ∃ start ∈ starts, Relation.ReflTransGen graph.Edge start node := by
  have explored := graph.explored_start starts
  have out : ∀ node ∈ (graph.explore starts .start).1.seen,
      node ∈ (graph.explore starts .start).1.out := by
    intro node entered
    rcases (explored.seen node).mp entered with before | added
    · exact absurd before (Finset.notMem_empty node)
    · exact added
  constructor
  · exact explored.sound node
  · rintro ⟨start, listed, path⟩
    induction path with
    | refl => exact out start (explored.covers start listed)
    | tail _ isChild induction =>
        exact out _ (explored.closed _ induction _ isChild)

/-- Without a cycle among the nodes that are reached, each of them comes after
every node it leads to. -/
theorem explore_postorder
    (acyclic : ∀ node ∈ (graph.explore starts .start).1.out,
      ¬ Relation.TransGen graph.Edge node node) :
    Each (fun before node => ∀ target,
        Relation.TransGen graph.Edge node target → target ∈ before)
      (graph.explore starts .start).1.out := by
  have explored := graph.explored_start starts
  have children : Each (fun before node => ∀ child ∈ graph.next node,
      child ∈ before) (graph.explore starts .start).1.out := by
    intro before node after split child isChild
    rcases explored.ordered before node after split child isChild with
      earlier | entered | cycle
    · exact earlier
    · exact absurd entered (Finset.notMem_empty child)
    · have member : node ∈ (graph.explore starts .start).1.out := by
        rw [split]
        exact List.mem_append_right _ List.mem_cons_self
      exact absurd (Relation.TransGen.head' isChild cycle)
        (acyclic node member)
  intro before node after split target path
  induction path with
  | single isChild => exact children before node after split _ isChild
  | tail _ isChild induction =>
      obtain ⟨front, back, rfl⟩ := List.append_of_mem induction
      apply List.mem_append_left
      apply children front _ (back ++ node :: after) _ _ isChild
      rw [split, List.append_assoc]
      rfl

end Start

end Graph

end Foundation
