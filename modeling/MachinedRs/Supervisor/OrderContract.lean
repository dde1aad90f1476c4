import MachinedRs.Foundation.Topological
import MachinedRs.Supervisor.Service

/-!
# What the start order promises

`startOrder` accepts exactly the lists with distinct ids, known dependencies and
no cycle.  The order it returns depends on nothing but the ids and on who
depends on whom.  `stopAll` goes through the started services backwards.
-/

namespace MachinedRs

open Foundation

/-- The two lists have the same ids and the same dependencies, in any order and
any number. -/
structure SameGraph (services other : List ServiceConfig) : Prop where
  ids : (other.map (·.id)).Perm (services.map (·.id))
  dependsOn : ∀ id dep, DependsOn other id dep ↔ DependsOn services id dep

/-- `startOrder` on machine integers, with `keys` as the order in which the map
of in-degrees is iterated.  A count that falls below zero panics. -/
def startOrderIn (keys : List String) (services : List ServiceConfig) :
    Option (Except String (List String)) :=
  let ids := services.map (·.id)
  match addServices ids services .empty with
  | .error message => some (.error message)
  | .ok links =>
      let queue := sortIds (keys.filter fun id => links.indegree id = 0)
      (Kahn.drainChecked sortIds links.children services.length
        { indegree := links.indegree, queue := queue, order := [] }).map
          fun placed =>
            if placed.order.length ≠ services.length then
              .error "dependency cycle among services"
            else
              .ok placed.order

section Graph

variable {services other : List ServiceConfig}

theorem mem_dependencyEdges {dep id : String} :
    (dep, id) ∈ dependencyEdges services ↔ DependsOn services id dep := by
  simp only [dependencyEdges, List.mem_flatMap, List.mem_map, Prod.mk.injEq]
  constructor
  · rintro ⟨service, isService, _, isDep, rfl, rfl⟩
    exact ⟨service, isService, rfl, isDep⟩
  · rintro ⟨service, isService, rfl, isDep⟩
    exact ⟨service, isService, dep, isDep, rfl, rfl⟩

/-- A path of dependencies is a path of edges taken backwards. -/
theorem transGen_dependsOn {id dep : String} :
    Relation.TransGen (DependsOn services) id dep ↔
      Relation.TransGen
        (fun source target => (source, target) ∈ dependencyEdges services)
        dep id := by
  rw [← Relation.transGen_swap]
  have same : Function.swap (DependsOn services) = fun source target =>
      (source, target) ∈ dependencyEdges services := by
    funext dep id
    exact propext mem_dependencyEdges.symm
  rw [same]

theorem acyclic_iff :
    Kahn.Acyclic (dependencyEdges services) ↔
      ∀ id, ¬ Relation.TransGen (DependsOn services) id id := by
  constructor
  · intro acyclic id cycle
    exact acyclic id (transGen_dependsOn.mp cycle)
  · intro acyclic id cycle
    exact acyclic id (transGen_dependsOn.mpr cycle)

/-- Every dependency names a service of the list. -/
def DependenciesKnown (services : List ServiceConfig) : Prop :=
  ∀ id dep, DependsOn services id dep → dep ∈ services.map (·.id)

theorem sources_mem (known : DependenciesKnown services) :
    ∀ edge ∈ dependencyEdges services, edge.1 ∈ services.map (·.id) := by
  rintro ⟨dep, id⟩ member
  exact known id dep (mem_dependencyEdges.mp member)

theorem targets_mem :
    ∀ edge ∈ dependencyEdges services, edge.2 ∈ services.map (·.id) := by
  rintro ⟨dep, id⟩ member
  obtain ⟨service, isService, rfl, _⟩ := mem_dependencyEdges.mp member
  exact List.mem_map_of_mem isService

theorem SameGraph.ready_iff (same : SameGraph services other)
    (placed : List String) (id : String) :
    Kahn.Ready (services.map (·.id)) (dependencyEdges services) placed id ↔
      Kahn.Ready (other.map (·.id)) (dependencyEdges other) placed id := by
  have edges : ∀ edge, edge ∈ dependencyEdges other ↔
      edge ∈ dependencyEdges services := by
    rintro ⟨dep, target⟩
    rw [mem_dependencyEdges, mem_dependencyEdges]
    exact same.dependsOn target dep
  constructor
  · rintro ⟨isNode, unplaced, released⟩
    refine ⟨same.ids.mem_iff.mpr isNode, unplaced, ?_⟩
    intro edge member
    exact released edge ((edges edge).mp member)
  · rintro ⟨isNode, unplaced, released⟩
    refine ⟨same.ids.mem_iff.mp isNode, unplaced, ?_⟩
    intro edge member
    exact released edge ((edges edge).mpr member)

theorem SameGraph.known (same : SameGraph services other)
    (known : DependenciesKnown services) : DependenciesKnown other := by
  intro id dep depends
  rw [same.ids.mem_iff]
  exact known id dep ((same.dependsOn id dep).mp depends)

theorem SameGraph.transGen (same : SameGraph services other)
    {id dep : String} (path : Relation.TransGen (DependsOn other) id dep) :
    Relation.TransGen (DependsOn services) id dep :=
  Relation.TransGen.mono (fun id dep => (same.dependsOn id dep).mp) _ _ path

end Graph

section Filling

variable {ids : List String} {links : Links}

theorem addDependencies_known {id : String} {deps : List String}
    (known : ∀ dep ∈ deps, dep ∈ ids) :
    ∃ after, addDependencies ids id deps links = .ok after := by
  induction deps generalizing links with
  | nil => exact ⟨links, rfl⟩
  | cons dep deps induction =>
      rw [addDependencies, if_pos (known dep List.mem_cons_self)]
      exact induction fun other member =>
        known other (List.mem_cons_of_mem dep member)

theorem addServices_known {services : List ServiceConfig}
    (known : ∀ service ∈ services, ∀ dep ∈ service.dependsOn, dep ∈ ids) :
    ∃ after, addServices ids services links = .ok after := by
  induction services generalizing links with
  | nil => exact ⟨links, rfl⟩
  | cons service services induction =>
      obtain ⟨middle, added⟩ := addDependencies_known
        (known service List.mem_cons_self)
      rw [addServices, added]
      exact induction fun other member =>
        known other (List.mem_cons_of_mem service member)

theorem known_of_addDependencies {id : String} {deps : List String}
    {after : Links} (added : addDependencies ids id deps links = .ok after) :
    ∀ dep ∈ deps, dep ∈ ids := by
  induction deps generalizing links with
  | nil =>
      intro dep member
      cases member
  | cons first deps induction =>
      rw [addDependencies] at added
      split at added
      · rename_i known
        intro dep member
        rcases List.mem_cons.mp member with rfl | later
        · exact known
        · exact induction added dep later
      · cases added

theorem known_of_addServices {services : List ServiceConfig} {after : Links}
    (added : addServices ids services links = .ok after) :
    ∀ service ∈ services, ∀ dep ∈ service.dependsOn, dep ∈ ids := by
  induction services generalizing links with
  | nil =>
      intro service member
      cases member
  | cons first services induction =>
      rw [addServices] at added
      cases here : addDependencies ids first.id first.dependsOn links with
      | error message =>
          rw [here] at added
          cases added
      | ok middle =>
          rw [here] at added
          intro service member
          rcases List.mem_cons.mp member with rfl | later
          · exact known_of_addDependencies here
          · exact induction added service later

end Filling

theorem sortIds_sorted (ids : List String) :
    (sortIds ids).Pairwise (· ≤ ·) :=
  List.pairwise_insertionSort _ ids

/-- Sorting forgets the order of iteration. -/
theorem sortIds_eq_of_perm {one other : List String} (perm : one.Perm other) :
    sortIds one = sortIds other := by
  apply List.Perm.eq_of_pairwise
    (fun _ _ _ _ => le_antisymm) (sortIds_sorted one) (sortIds_sorted other)
  exact (sortIds_perm one).trans (perm.trans (sortIds_perm other).symm)

section Accepting

variable {services other : List ServiceConfig} {order : List String}

/-- What the loop leaves. -/
theorem placedOrder_spec {links : Links}
    (spans : links.Spans (dependencyEdges services)) :
    Kahn.Ordered (services.map (·.id)) (dependencyEdges services) []
        (placedOrder services links) ∧
      (placedOrder services links).queue = [] ∧
      Kahn.Greedy (services.map (·.id)) (dependencyEdges services)
        (placedOrder services links).order := by
  have start := spans.ordered (services.map (·.id))
  obtain ⟨ordered, empties⟩ :=
    start.drain sortIds_perm targets_mem services.length
  have chosen := start.drain_chosen sortIds_perm sortIds_sorted targets_mem
    services.length (sortIds_sorted _) Each.nil
  rw [← spans.children] at ordered empties chosen
  have done : (placedOrder services links).queue = [] := by
    apply empties
    rw [List.length_map, List.length_nil, Nat.zero_add]
  refine ⟨ordered, done, chosen, ?_⟩
  intro node ready
  have queued := ordered.mem_queue_iff.mpr ready
  have none : node ∈ (placedOrder services links).queue := queued
  rw [done] at none
  cases none

theorem startOrder_of_links {links : Links}
    (added : addServices (services.map (·.id)) services .empty = .ok links) :
    startOrder services =
      if (placedOrder services links).order.length ≠ services.length then
        .error "dependency cycle among services"
      else
        .ok (placedOrder services links).order := by
  rw [startOrder, added]
  rfl

theorem spans_of_added {links : Links}
    (added : addServices (services.map (·.id)) services .empty = .ok links) :
    links.Spans (dependencyEdges services) := by
  have spans := addServices_ok Links.spans_empty added
  rwa [List.nil_append] at spans

theorem links_of_known (known : DependenciesKnown services) :
    ∃ links,
      addServices (services.map (·.id)) services .empty = .ok links := by
  apply addServices_known
  intro service isService dep isDep
  exact known service.id dep ⟨service, isService, rfl, isDep⟩

theorem links_of_accepted (accepted : startOrder services = .ok order) :
    ∃ links,
      addServices (services.map (·.id)) services .empty = .ok links ∧
      order = (placedOrder services links).order := by
  cases added : addServices (services.map (·.id)) services .empty with
  | error message =>
      rw [startOrder, added] at accepted
      cases accepted
  | ok links =>
      refine ⟨links, rfl, ?_⟩
      rw [startOrder_of_links added] at accepted
      split at accepted
      · cases accepted
      · cases accepted
        rfl

theorem greedy_of_accepted (accepted : startOrder services = .ok order) :
    Kahn.Greedy (services.map (·.id)) (dependencyEdges services) order := by
  obtain ⟨links, added, rfl⟩ := links_of_accepted accepted
  exact (placedOrder_spec (spans_of_added added)).2.2

theorem known_of_accepted (accepted : startOrder services = .ok order) :
    DependenciesKnown services := by
  obtain ⟨links, added, _⟩ := links_of_accepted accepted
  rintro id dep ⟨service, isService, _, isDep⟩
  exact known_of_addServices added service isService dep isDep

theorem acyclic_of_accepted (accepted : startOrder services = .ok order) :
    Kahn.Acyclic (dependencyEdges services) := by
  obtain ⟨_, perm, follows⟩ := startOrder_spec accepted
  apply Kahn.acyclic_of_follows follows
  intro edge member
  exact perm.mem_iff.mpr (targets_mem edge member)

/-- Distinct ids, known dependencies and no cycle are enough. -/
theorem accepted_of_acyclic (distinct : (services.map (·.id)).Nodup)
    (known : DependenciesKnown services)
    (acyclic : Kahn.Acyclic (dependencyEdges services)) :
    ∃ order, startOrder services = .ok order := by
  obtain ⟨links, added⟩ := links_of_known known
  obtain ⟨ordered, done, _⟩ := placedOrder_spec (spans_of_added added)
  have all := ordered.complete done acyclic (sources_mem known)
  have enough := (List.subperm_of_subset distinct all).length_le
  have atMost := ordered.length_le
  rw [done, List.length_nil, Nat.add_zero] at atMost
  rw [List.length_map] at enough atMost
  refine ⟨(placedOrder services links).order, ?_⟩
  rw [startOrder_of_links added, if_neg]
  exact not_not.mpr (Nat.le_antisymm atMost enough)

/-- The order depends on the graph alone. -/
theorem accepted_of_sameGraph (same : SameGraph services other)
    (accepted : startOrder services = .ok order) :
    startOrder other = .ok order := by
  obtain ⟨distinct, _, _⟩ := startOrder_spec accepted
  have acyclic := acyclic_iff.mp (acyclic_of_accepted accepted)
  obtain ⟨otherOrder, otherAccepted⟩ := accepted_of_acyclic
    (same.ids.nodup_iff.mpr distinct)
    (same.known (known_of_accepted accepted))
    (acyclic_iff.mpr fun id cycle => acyclic id (same.transGen cycle))
  have equal := (greedy_of_accepted accepted).unique
    (greedy_of_accepted otherAccepted) same.ready_iff
  rw [otherAccepted, equal]

/-- Neither the order of iteration nor the width of the counters matters. -/
theorem startOrderIn_eq {keys : List String}
    (iterates : keys.Perm (services.map (·.id)).dedup) :
    startOrderIn keys services = some (startOrder services) := by
  cases added : addServices (services.map (·.id)) services .empty with
  | error message =>
      rw [startOrderIn, startOrder, added]
      rfl
  | ok links =>
      have spans := spans_of_added added
      have checked := (spans.ordered (services.map (·.id))).drain_checked
        sortIds_perm targets_mem services.length
      rw [startOrder_of_links added, startOrderIn, added]
      dsimp only
      rw [sortIds_eq_of_perm (iterates.filter _), spans.children, checked,
        placedOrder, spans.children]
      rfl

end Accepting

/-- What `stop_all` finds out about a service: its process when the stop begins,
whether its task ends within the grace period, and its process when it does
not. -/
structure StopFate where
  pid : Option Nat
  drains : Bool
  pidAtExpiry : Option Nat
deriving DecidableEq, Repr

inductive StopAction where
  | intent (id : String)
  | sigterm (id : String) (group : Nat)
  | joined (id : String)
  | sigkill (id : String) (group : Nat)
  | aborted (id : String)
  | publishedFailed (id : String)
deriving DecidableEq, Repr

def StopAction.service : StopAction → String
  | .intent id => id
  | .sigterm id _ => id
  | .joined id => id
  | .sigkill id _ => id
  | .aborted id => id
  | .publishedFailed id => id

/-- One round of the loop of `stop_all`. -/
def stopService (id : String) (fate : StopFate) : List StopAction :=
  .intent id :: (fate.pid.map (StopAction.sigterm id)).toList ++
    if fate.drains then
      [.joined id]
    else
      (fate.pidAtExpiry.map (StopAction.sigkill id)).toList ++
        [.aborted id, .publishedFailed id]

/-- The handles are popped from the end; `fates` says what happens to each. -/
def stopAll (fates : String → StopFate) (handles : List String) :
    List StopAction :=
  handles.reverse.flatMap fun id => stopService id (fates id)

/-- One round concerns one service. -/
theorem service_of_mem_stopService (id : String) (fate : StopFate) :
    ∀ action ∈ stopService id fate, action.service = id := by
  obtain ⟨pid, drains, pidAtExpiry⟩ := fate
  cases pid <;> cases drains <;> cases pidAtExpiry <;>
    simp [stopService, StopAction.service]

theorem service_of_mem_stopAll {fates : String → StopFate}
    {handles : List String} {action : StopAction}
    (member : action ∈ stopAll fates handles) :
    action.service ∈ handles := by
  obtain ⟨id, isHandle, isAction⟩ := List.mem_flatMap.mp member
  rw [service_of_mem_stopService id (fates id) action isAction]
  exact List.mem_reverse.mp isHandle

theorem stopAll_split (fates : String → StopFate) (before after : List String)
    (id : String) :
    stopAll fates (before ++ id :: after) =
      stopAll fates after ++ stopService id (fates id) ++
        stopAll fates before := by
  simp only [stopAll, List.reverse_append, List.reverse_cons,
    List.flatMap_append, List.flatMap_singleton, List.append_assoc]

/-- A service that stands later in the list is dealt with completely before
anything happens to an earlier one. -/
theorem stopAll_earlier {handles : List String} (distinct : handles.Nodup)
    {id dep : String} (isHandle : id ∈ handles)
    (earlier : handles.idxOf dep < handles.idxOf id)
    (fates : String → StopFate) :
    ∃ first rest,
      stopAll fates handles = first ++ stopService id (fates id) ++ rest ∧
      (∀ action ∈ first ++ stopService id (fates id),
        action.service ≠ dep) ∧
      ∀ action ∈ first ++ rest, action.service ≠ id := by
  obtain ⟨before, after, rfl, fresh⟩ := List.eq_append_cons_of_mem isHandle
  have isBefore : dep ∈ before := by
    by_contra missing
    rw [List.idxOf_append_of_notMem fresh, List.idxOf_cons_self,
      List.idxOf_append_of_notMem missing] at earlier
    omega
  rw [List.nodup_append, List.nodup_cons] at distinct
  obtain ⟨_, ⟨unrepeated, _⟩, apart⟩ := distinct
  refine ⟨stopAll fates after, stopAll fates before,
    stopAll_split fates before after id, ?_, ?_⟩
  · intro action member isDep
    rcases List.mem_append.mp member with others | own
    · have isAfter := service_of_mem_stopAll others
      rw [isDep] at isAfter
      exact apart dep isBefore dep (List.mem_cons_of_mem id isAfter) rfl
    · rw [service_of_mem_stopService id (fates id) action own] at isDep
      exact apart dep isBefore id List.mem_cons_self isDep.symm
  · intro action member isId
    rcases List.mem_append.mp member with later | sooner
    · have isAfter := service_of_mem_stopAll later
      rw [isId] at isAfter
      exact unrepeated isAfter
    · have isBefore := service_of_mem_stopAll sooner
      rw [isId] at isBefore
      exact fresh isBefore

/-- What the callers of `start_order`, `start_all` and `stop_all` rely on. -/
structure StartOrderContract (services : List ServiceConfig) : Prop where
  accepts : (services.map (·.id)).Nodup →
    ((∃ order, startOrder services = .ok order) ↔
      (∀ service ∈ services, ∀ dep ∈ service.dependsOn,
        dep ∈ services.map (·.id)) ∧
      ∀ id, ¬ Relation.TransGen (DependsOn services) id id)
  rejects : ¬ (services.map (·.id)).Nodup →
    ∃ message, startOrder services = .error message
  complete : ∀ order, startOrder services = .ok order →
    order.Nodup ∧ ∀ id, id ∈ order ↔ id ∈ services.map (·.id)
  topological : ∀ order, startOrder services = .ok order →
    ∀ id dep, Relation.TransGen (DependsOn services) id dep →
      order.idxOf dep < order.idxOf id
  canonical : ∀ other, SameGraph services other →
    ∀ order, startOrder services = .ok order → startOrder other = .ok order
  /-- No iteration order changes the result, and no count falls below zero. -/
  deterministic : ∀ keys, keys.Perm (services.map (·.id)).dedup →
    startOrderIn keys services = some (startOrder services)
  /-- A service is dealt with completely before its dependencies are. -/
  stops : ∀ tasks fates, startAll services = .ok tasks →
    ∀ id dep, Relation.TransGen (DependsOn services) id dep →
      ∃ first rest,
        stopAll fates (tasks.map (·.id)) =
          first ++ stopService id (fates id) ++ rest ∧
        (∀ action ∈ first ++ stopService id (fates id),
          action.service ≠ dep) ∧
        ∀ action ∈ first ++ rest, action.service ≠ id

section Contract

variable {services : List ServiceConfig} {order : List String}

theorem idxOf_lt_of_accepted (accepted : startOrder services = .ok order)
    {id dep : String}
    (path : Relation.TransGen (DependsOn services) id dep) :
    order.idxOf dep < order.idxOf id := by
  obtain ⟨_, perm, follows⟩ := startOrder_spec accepted
  apply Kahn.idxOf_lt_of_follows follows _ (transGen_dependsOn.mp path)
  intro edge member
  exact perm.mem_iff.mpr (targets_mem edge member)

theorem mem_ids_of_transGen {id dep : String}
    (path : Relation.TransGen (DependsOn services) id dep) :
    id ∈ services.map (·.id) := by
  obtain ⟨_, ⟨service, isService, rfl, _⟩, _⟩ :=
    Relation.TransGen.head'_iff.mp path
  exact List.mem_map_of_mem isService

end Contract

/-- `start_order` is a topological sort that depends on the graph alone. -/
theorem start_order_contract (services : List ServiceConfig) :
    StartOrderContract services := by
  refine ⟨?_, ?_, ?_, ?_, ?_, ?_, ?_⟩
  · intro distinct
    constructor
    · rintro ⟨order, accepted⟩
      refine ⟨?_, acyclic_iff.mp (acyclic_of_accepted accepted)⟩
      intro service isService dep isDep
      exact known_of_accepted accepted service.id dep
        ⟨service, isService, rfl, isDep⟩
    · rintro ⟨known, acyclic⟩
      apply accepted_of_acyclic distinct _ (acyclic_iff.mpr acyclic)
      rintro id dep ⟨service, isService, _, isDep⟩
      exact known service isService dep isDep
  · intro repeated
    cases result : startOrder services with
    | error message => exact ⟨message, rfl⟩
    | ok order => exact absurd (startOrder_spec result).1 repeated
  · intro order accepted
    obtain ⟨distinct, perm, _⟩ := startOrder_spec accepted
    exact ⟨perm.nodup_iff.mpr distinct, fun id => perm.mem_iff⟩
  · intro order accepted id dep path
    exact idxOf_lt_of_accepted accepted path
  · intro other same order accepted
    exact accepted_of_sameGraph same accepted
  · intro keys iterates
    exact startOrderIn_eq iterates
  · intro tasks fates started id dep path
    obtain ⟨accepted, _⟩ := startAll_spec started
    obtain ⟨distinct, perm, _⟩ := startOrder_spec accepted
    exact stopAll_earlier (perm.nodup_iff.mpr distinct)
      (perm.mem_iff.mpr (mem_ids_of_transGen path))
      (idxOf_lt_of_accepted accepted path) fates

example : stopAll (fun _ => ⟨some 7, true, none⟩) ["db", "app"] =
    [.intent "app", .sigterm "app" 7, .joined "app", .intent "db",
      .sigterm "db" 7, .joined "db"] := by
  decide

end MachinedRs
