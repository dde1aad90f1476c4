import Mathlib.Data.List.Dedup
import Mathlib.Data.List.Sort
import Mathlib.Data.String.Basic
import MachinedRs.Foundation.Kahn

/-!
# The order in which services start

`startOrder` puts dependencies before dependents, or rejects the list for an
unknown dependency, a cycle or an id that occurs twice.
-/

namespace MachinedRs

open Foundation

inductive RestartPolicy where
  | never
  | onFailure
  | always
deriving DecidableEq, Repr

structure ServiceConfig where
  id : String
  command : List String
  dependsOn : List String
  restart : RestartPolicy
deriving DecidableEq, Repr

/-- The two maps that are filled from the services. -/
structure Links where
  indegree : String → Nat
  children : String → List String

namespace Links

def empty : Links :=
  { indegree := fun _ => 0, children := fun _ => [] }

def add (links : Links) (dep id : String) : Links :=
  { indegree :=
      Function.update links.indegree id (links.indegree id + 1)
    children :=
      Function.update links.children dep (links.children dep ++ [id]) }

end Links

def addDependencies (ids : List String) (id : String) :
    List String → Links → Except String Links
  | [], links => .ok links
  | dep :: rest, links =>
      if dep ∈ ids then
        addDependencies ids id rest (links.add dep id)
      else
        .error ("service " ++ id ++ " depends on unknown " ++ dep)

def addServices (ids : List String) :
    List ServiceConfig → Links → Except String Links
  | [], links => .ok links
  | service :: rest, links =>
      (addDependencies ids service.id service.dependsOn links).bind
        (addServices ids rest)

/-- `sort_unstable` on distinct strings. -/
def sortIds (ids : List String) : List String :=
  ids.insertionSort (· ≤ ·)

/-- The loop of `startOrder` from its initial state; no id is placed twice, so
it ends within this fuel. -/
def placedOrder (services : List ServiceConfig) (links : Links) :
    Kahn String :=
  Kahn.drain sortIds links.children services.length
    { indegree := links.indegree
      queue := sortIds ((services.map (·.id)).dedup.filter fun id =>
        links.indegree id = 0)
      order := [] }

def startOrder (services : List ServiceConfig) :
    Except String (List String) :=
  (addServices (services.map (·.id)) services .empty).bind fun links =>
    let placed := placedOrder services links
    if placed.order.length ≠ services.length then
      .error "dependency cycle among services"
    else
      .ok placed.order

/-- The last of the services with this id, as collecting into a map leaves. -/
def byId (services : List ServiceConfig) (id : String) :
    Option ServiceConfig :=
  services.reverse.find? fun service => service.id = id

/-- The services for which tasks are spawned, in the order of spawning. -/
def startAll (services : List ServiceConfig) :
    Except String (List ServiceConfig) :=
  (startOrder services).map fun order => order.filterMap (byId services)

/-- The edges from every dependency to its dependents. -/
def dependencyEdges (services : List ServiceConfig) :
    List (String × String) :=
  services.flatMap fun service =>
    service.dependsOn.map fun dep => (dep, service.id)

section Spec

/-- The maps describe exactly these edges. -/
structure Links.Spans (edges : List (String × String)) (links : Links) :
    Prop where
  children : links.children = Kahn.targets edges
  indegree : ∀ id, links.indegree id = edges.countP fun edge => edge.2 = id

variable {edges : List (String × String)} {links after : Links}
  {ids : List String} {services : List ServiceConfig}

theorem Links.Spans.add (spans : links.Spans edges) (dep id : String) :
    (links.add dep id).Spans (edges ++ [(dep, id)]) := by
  constructor
  · funext other
    simp only [Links.add, Function.update_apply, spans.children,
      Kahn.targets, List.filter_append, List.map_append]
    by_cases same : other = dep
    · subst same
      simp
    · simp [same, Ne.symm same]
  · intro other
    simp only [Links.add, Function.update_apply, List.countP_append,
      List.countP_singleton]
    by_cases same : other = id
    · subst same
      simp [spans.indegree]
    · simp [same, Ne.symm same, spans.indegree]

theorem addDependencies_ok {id : String} {deps : List String}
    (spans : links.Spans edges)
    (added : addDependencies ids id deps links = .ok after) :
    after.Spans (edges ++ deps.map fun dep => (dep, id)) := by
  induction deps generalizing links edges with
  | nil =>
      cases added
      rw [List.map_nil, List.append_nil]
      exact spans
  | cons dep deps induction =>
      rw [addDependencies] at added
      split at added
      · rw [List.map_cons, List.append_cons]
        exact induction (spans.add dep id) added
      · cases added

theorem addServices_ok (spans : links.Spans edges)
    (added : addServices ids services links = .ok after) :
    after.Spans (edges ++ dependencyEdges services) := by
  induction services generalizing links edges with
  | nil =>
      cases added
      rw [dependencyEdges, List.flatMap_nil, List.append_nil]
      exact spans
  | cons service services induction =>
      rw [addServices] at added
      cases first : addDependencies ids service.id service.dependsOn links with
      | error message =>
          rw [first] at added
          cases added
      | ok middle =>
          rw [first] at added
          have spanned := induction (addDependencies_ok spans first) added
          rw [List.append_assoc] at spanned
          exact spanned

theorem Links.spans_empty : Links.empty.Spans [] :=
  ⟨rfl, fun _ => rfl⟩

theorem sortIds_perm (ids : List String) : (sortIds ids).Perm ids :=
  List.perm_insertionSort _ ids

/-- The loop starts with the services that depend on nothing. -/
theorem Links.Spans.ordered (spans : links.Spans edges) (ids : List String) :
    Kahn.Ordered ids edges []
      { indegree := links.indegree
        queue := sortIds (ids.dedup.filter fun id => links.indegree id = 0)
        order := [] } := by
  have queued := sortIds_perm
    (ids.dedup.filter fun id => links.indegree id = 0)
  constructor
  · rw [List.nil_append, queued.nodup_iff]
    exact (List.nodup_dedup ids).filter _
  · intro id
    rw [List.nil_append, queued.mem_iff, List.mem_filter, List.mem_dedup,
      decide_eq_true_iff]
  · intro id
    have all := spans.indegree id
    simpa using all
  · exact Each.nil

/-- An accepted list has no id twice, and the order places every service after
its dependencies. -/
theorem startOrder_spec {order : List String}
    (accepted : startOrder services = .ok order) :
    (services.map (·.id)).Nodup ∧ order.Perm (services.map (·.id)) ∧
      Kahn.Follows (dependencyEdges services) order := by
  rw [startOrder] at accepted
  cases added : addServices (services.map (·.id)) services .empty with
  | error message =>
      rw [added] at accepted
      cases accepted
  | ok links =>
      have spans := addServices_ok Links.spans_empty added
      rw [List.nil_append] at spans
      have closed : ∀ edge ∈ dependencyEdges services,
          edge.2 ∈ services.map (·.id) := by
        intro edge member
        obtain ⟨service, isService, isEdge⟩ := List.mem_flatMap.mp member
        obtain ⟨dep, _, rfl⟩ := List.mem_map.mp isEdge
        exact List.mem_map.mpr ⟨service, isService, rfl⟩
      have ordered := ((spans.ordered (services.map (·.id))).drain
        sortIds_perm closed services.length).1
      rw [added] at accepted
      dsimp only [Except.bind] at accepted
      rw [placedOrder, spans.children] at accepted
      split at accepted
      · cases accepted
      · rename_i complete
        cases accepted
        rw [not_not] at complete
        have perm := ordered.perm (by rw [complete, List.length_map])
        have nodup := (List.nodup_append.mp ordered.nodup).1
        exact ⟨perm.nodup_iff.mp nodup, perm, ordered.follows⟩

theorem byId_of_mem {id : String} (member : id ∈ services.map (·.id)) :
    ∃ service, byId services id = some service ∧ service.id = id := by
  obtain ⟨service, isService, same⟩ := List.mem_map.mp member
  cases found : byId services id with
  | none =>
      have none := List.find?_eq_none.mp found service
        (List.mem_reverse.mpr isService)
      simp [same] at none
  | some chosen =>
      exact ⟨chosen, rfl, of_decide_eq_true (List.find?_some found :)⟩

theorem map_filterMap_byId {order : List String}
    (known : order ⊆ services.map (·.id)) :
    (order.filterMap (byId services)).map (·.id) = order := by
  induction order with
  | nil => rfl
  | cons id order induction =>
      obtain ⟨first, rest⟩ := List.cons_subset.mp known
      obtain ⟨service, found, same⟩ := byId_of_mem first
      rw [List.filterMap_cons_some found, List.map_cons, same,
        induction rest]

/-- The tasks are the services, in an order that is a start order. -/
theorem startAll_spec {tasks : List ServiceConfig}
    (accepted : startAll services = .ok tasks) :
    startOrder services = .ok (tasks.map (·.id)) ∧
      ∀ service, service ∈ tasks ↔ service ∈ services := by
  rw [startAll] at accepted
  cases ordered : startOrder services with
  | error message =>
      rw [ordered] at accepted
      cases accepted
  | ok order =>
      rw [ordered] at accepted
      cases accepted
      obtain ⟨distinct, perm, _⟩ := startOrder_spec ordered
      have ids := map_filterMap_byId perm.subset
      refine ⟨congrArg _ ids.symm, ?_⟩
      have within : ∀ task ∈ order.filterMap (byId services),
          task ∈ services := by
        intro task member
        obtain ⟨id, _, found⟩ := List.mem_filterMap.mp member
        exact List.mem_reverse.mp (List.mem_of_find?_eq_some found)
      intro service
      refine ⟨within service, ?_⟩
      intro isService
      have placed : service.id ∈
          (order.filterMap (byId services)).map (·.id) := by
        rw [ids, perm.mem_iff]
        exact List.mem_map_of_mem isService
      obtain ⟨task, isTask, same⟩ := List.mem_map.mp placed
      rw [← List.inj_on_of_nodup_map distinct (within task isTask) isService
        same]
      exact isTask

end Spec

example : startOrder
    [⟨"app", ["app"], ["net", "db"], .never⟩, ⟨"db", ["db"], [], .always⟩,
      ⟨"net", ["net"], [], .never⟩] = .ok ["net", "db", "app"] := by
  decide +kernel

end MachinedRs
