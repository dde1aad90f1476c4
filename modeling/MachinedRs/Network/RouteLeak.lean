import MachinedRs.Network.Convergence

/-!
# Routes that leak

The route controller as the consumer of route specs.  The metric of a route is
part of the kernel's route but not of the id of its spec.  A config that changes
nothing but the metric replaces the spec in place: the new route is added, and
nobody removes the old one.  Without such a change, a state that no further pass
changes has exactly the routes of the second config in the kernel.
-/

namespace MachinedRs

open Foundation NetworkConfigController

namespace FakeState

theorem mem_routes_addRoute (kernel : FakeState) (route other : RouteReq) :
    other ∈ (kernel.addRoute route).2.routes ↔
      other = route ∨ other ∈ kernel.routes := by
  unfold addRoute
  split
  · rename_i already
    constructor
    · intro member
      exact .inr member
    · rintro (rfl | member)
      · exact already
      · exact member
  · simp only [List.mem_append, List.mem_singleton]
    exact or_comm

theorem mem_routes_delRoute (kernel : FakeState) (route other : RouteReq) :
    other ∈ (kernel.delRoute route).2.routes ↔
      other ≠ route ∧ other ∈ kernel.routes := by
  simp only [delRoute, List.mem_filter, decide_eq_true_eq]
  exact and_comm

end FakeState

theorem routeController_item? {resource : Resource} {route : RouteReq} :
    routeController.item? resource = some route ↔
      resource = .routeSpec
        ⟨route.destination, route.gateway, route.link, route.metric⟩ := by
  cases resource with
  | routeSpec spec =>
      cases spec
      cases route
      simp [routeController]
  | _ => exact ⟨nofun, nofun⟩

/-- The id under which a route is published; all published routes have a
gateway. -/
def RouteReq.ident (route : RouteReq) : String :=
  (route.gateway.map (routeId route.link route.destination)).getD route.link

def routeConsumer : SlotConsumer RouteReq :=
  { routeController with
    holds := fun kernel route => route ∈ kernel.routes
    ident := RouteReq.ident
    desired := fun provider => provider.network.routes
    typed := ⟨nofun, fun _ => rfl⟩
    desired_mem := Provider.routes_mem_desired
    status_foreign := by
      intro provider member
      change ResourceType.routeStatus ∈ [ResourceType.linkSpec, .addressSpec,
        .routeSpec, .hostnameSpec, .resolverSpec] at member
      revert member
      decide
    desired_item := by
      intro provider object member
      obtain ⟨link, destination, via, metric, _, rfl⟩ :=
        NetworkSection.mem_routes.mp member
      exact ⟨rfl, ⟨destination, some via, link, metric⟩, rfl, rfl⟩
    item_inj := by
      intro one other route oneFound otherFound
      rw [routeController_item?.mp oneFound,
        routeController_item?.mp otherFound]
    del_accepted := by
      intro kernel route
      rw [FakeState.accepts_iff]
      exact nofun
    holds_add := by
      intro kernel route _ other
      exact FakeState.mem_routes_addRoute kernel route other
    holds_del := by
      intro kernel route other
      exact FakeState.mem_routes_delRoute kernel route other
    add_held := by
      intro kernel route held
      change (kernel.addRoute route).2 = kernel
      rw [FakeState.addRoute, if_pos held] }

/-- The config describes this route. -/
def NetworkSection.Describes (network : NetworkSection) (route : RouteReq) :
    Prop :=
  ∃ via, route.gateway = some via ∧
    network.Routes route.link route.destination via route.metric

theorem routeConsumer_wanted {provider : Provider}
    (distinct : provider.network.RoutesDistinct) {id : String}
    {route : RouteReq} :
    routeConsumer.wanted provider id = some route ↔
      provider.network.Describes route ∧ id = route.ident := by
  rw [SlotConsumer.wanted_iff (NetworkSection.agreeing_routes.mpr distinct)]
  constructor
  · rintro ⟨object, member, rfl, found⟩
    obtain ⟨link, destination, via, metric, isRoute, rfl⟩ :=
      NetworkSection.mem_routes.mp member
    cases found
    exact ⟨⟨via, rfl, isRoute⟩, rfl⟩
  · rintro ⟨⟨via, gateway, isRoute⟩, rfl⟩
    refine ⟨routeObject route.link route.destination via route.metric,
      NetworkSection.mem_routes.mpr ⟨_, _, _, _, isRoute, rfl⟩, ?_, ?_⟩
    · rw [RouteReq.ident, gateway]
      rfl
    · apply routeController_item?.mpr
      rw [gateway]
      rfl

/-- The route specs and the routes of the kernel have not changed. -/
structure SameRoutes (before after : NetworkWorld) : Prop where
  specs : ∀ id, after.objects.lookup ⟨networkNs, .routeSpec, id⟩ =
    before.objects.lookup ⟨networkNs, .routeSpec, id⟩
  kernel : after.kernel.routes = before.kernel.routes

/-- No route is in both configs with different metrics. -/
def KeepsMetrics (first second : NetworkSection) : Prop :=
  ∀ link destination via metric otherMetric,
    first.Routes link destination via metric →
    second.Routes link destination via otherMetric → metric = otherMetric

section Leak

variable {first second : Provider} {kernel : FakeState}

theorem routes_acceptable :
    routeConsumer.Acceptable first second kernel := by
  intro provider _ id route _
  rw [FakeState.accepts_iff]
  exact nofun

theorem Describes.metric_of_ident {one other : RouteReq}
    (isFirst : first.network.Describes one)
    (isSecond : second.network.Describes other)
    (same : one.ident = other.ident) :
    ∃ via, one = ⟨other.destination, some via, other.link, one.metric⟩ ∧
      other = ⟨other.destination, some via, other.link, other.metric⟩ := by
  obtain ⟨via, gateway, _⟩ := isFirst
  obtain ⟨otherVia, otherGateway, _⟩ := isSecond
  rw [RouteReq.ident, RouteReq.ident, gateway, otherGateway] at same
  obtain ⟨sameLink, sameDestination, sameVia⟩ := routeId_injective same
  refine ⟨otherVia, ?_, ?_⟩
  · rw [← sameLink, ← sameDestination, ← sameVia, ← gateway]
  · rw [← otherGateway]

theorem routes_never_replaced (firstDistinct : first.network.RoutesDistinct)
    (secondDistinct : second.network.RoutesDistinct)
    (keeps : KeepsMetrics first.network second.network)
    (id : String) (one other : RouteReq)
    (isFirst : routeConsumer.wanted first id = some one)
    (isSecond : routeConsumer.wanted second id = some other) :
    one = other := by
  obtain ⟨described, rfl⟩ := (routeConsumer_wanted firstDistinct).mp isFirst
  obtain ⟨otherDescribed, same⟩ :=
    (routeConsumer_wanted secondDistinct).mp isSecond
  obtain ⟨via, oneEq, otherEq⟩ :=
    Describes.metric_of_ident described otherDescribed same
  obtain ⟨firstVia, firstGateway, isRoute⟩ := described
  obtain ⟨secondVia, secondGateway, isOther⟩ := otherDescribed
  rw [oneEq] at firstGateway isRoute
  rw [otherEq] at secondGateway
  cases firstGateway
  cases secondGateway
  rw [oneEq, otherEq, keeps _ _ _ _ _ isRoute isOther]

/-- A state that no pass changes although a route of the first config has been
replaced. -/
theorem exists_quiet_leak (firstDistinct : first.network.RoutesDistinct)
    (secondDistinct : second.network.RoutesDistinct)
    (noRoutes : kernel.routes = []) (one other : RouteReq)
    (isFirst : first.network.Describes one)
    (isSecond : second.network.Describes other)
    (same : one.ident = other.ident) :
    ∃ state,
      (networkRuns RouteController.reconcile first second
        kernel).Reachable state ∧
      Quiet SameRoutes RouteController.reconcile second state.world ∧
      one ∈ state.world.kernel.routes := by
  have nothing : ∀ route, ¬ routeConsumer.holds kernel route := by
    intro route held
    have member : route ∈ kernel.routes := held
    rw [noRoutes] at member
    cases member
  obtain ⟨state, reached, fit, slots⟩ := SlotConsumer.exists_rounds
    (@routes_acceptable first second kernel) nothing
  have quiet := SlotConsumer.quiet_of_serves fit
    (NetworkSection.agreeing_routes.mpr secondDistinct) (fun id => by
      rw [slots id]
      exact Slot.serves_rounds)
  refine ⟨state, reached, ⟨?_, ?_⟩, ?_⟩
  · intro result after returns
    obtain ⟨specs, _, sameKernel⟩ := quiet.config result after returns
    exact ⟨specs, by rw [sameKernel]⟩
  · intro result after returns
    obtain ⟨specs, _, sameKernel⟩ := quiet.serve result after returns
    exact ⟨specs, by rw [sameKernel]⟩
  · have applied : one ∈
        (routeConsumer.slotOf state.world one.ident).applied := by
      rw [slots]
      exact Slot.mem_applied_rounds
        ((routeConsumer_wanted firstDistinct).mpr ⟨isFirst, rfl⟩)
        ((routeConsumer_wanted secondDistinct).mpr ⟨isSecond, same⟩)
    exact applied.1

end Leak

/-- The quiet states have exactly the routes of the second config in the kernel
if and only if no metric of a route is changed. -/
theorem routes_converge_iff (first second : Provider) (kernel : FakeState)
    (noRoutes : kernel.routes = [])
    (firstDistinct : first.network.RoutesDistinct)
    (secondDistinct : second.network.RoutesDistinct) :
    (∀ state,
      (networkRuns RouteController.reconcile first second
        kernel).Reachable state →
      Quiet SameRoutes RouteController.reconcile second state.world →
      ∀ route, route ∈ state.world.kernel.routes ↔
        second.network.Describes route) ↔
      KeepsMetrics first.network second.network := by
  constructor
  · intro converges link destination via metric otherMetric isRoute isOther
    obtain ⟨state, reached, quiet, leaked⟩ := exists_quiet_leak
      firstDistinct secondDistinct noRoutes
      ⟨destination, some via, link, metric⟩
      ⟨destination, some via, link, otherMetric⟩
      ⟨via, rfl, isRoute⟩ ⟨via, rfl, isOther⟩ rfl
    obtain ⟨secondVia, gateway, described⟩ :=
      (converges state reached quiet _).mp leaked
    cases gateway
    exact secondDistinct _ _ _ _ _ described isOther
  · intro keeps state reached quiet route
    have nothing : ∀ route, ¬ routeConsumer.holds kernel route := by
      intro route held
      have member : route ∈ kernel.routes := held
      rw [noRoutes] at member
      cases member
    have follows : routeConsumer.Follows first second kernel state :=
      SlotConsumer.follows_of_reachable routes_acceptable nothing
        (routes_never_replaced firstDistinct secondDistinct keeps) reached
    have fulfilled := SlotConsumer.fulfilled_of_quiet routes_acceptable
      (fun _ _ same => same.specs) follows quiet
    have holds := SlotConsumer.holds_iff_wanted fulfilled route
    rw [routeConsumer_wanted secondDistinct] at holds
    exact holds.trans (and_iff_left rfl)

/-- A node with default routes over `eth0`, each a gateway and a metric. -/
def defaultRoutes (routes : List (BitVec 32 × UInt32)) : Provider :=
  { hostname := none
    network :=
      { interfaces := [⟨"eth0", true, none, [],
          routes.map fun (via, metric) => ⟨none, .v4 via, some metric⟩⟩]
        nameservers := []
        search := [] } }

theorem defaultRoutes_routes {routes : List (BitVec 32 × UInt32)}
    {metric : UInt32} {link : String} {destination : Option AddrCidr}
    {via : IpAddr} :
    (defaultRoutes routes).network.Routes link destination via metric ↔
      link = "eth0" ∧ destination = none ∧
        ∃ address, via = .v4 address ∧ (address, metric) ∈ routes := by
  constructor
  · rintro ⟨iface, member, rfl, route, isMember, isDefault, rfl, rfl⟩
    cases List.mem_singleton.mp member
    obtain ⟨⟨address, metric⟩, listed, rfl⟩ := List.mem_map.mp isMember
    cases isDefault
    exact ⟨rfl, rfl, address, rfl, listed⟩
  · rintro ⟨rfl, rfl, address, rfl, member⟩
    exact ⟨_, List.mem_singleton_self _, rfl, _, List.mem_map_of_mem member,
      rfl, rfl, rfl⟩

theorem defaultRoutes_keep {routes others : List (BitVec 32 × UInt32)}
    (agree : ∀ one ∈ routes, ∀ other ∈ others,
      one.1 = other.1 → one.2 = other.2) :
    KeepsMetrics (defaultRoutes routes).network
      (defaultRoutes others).network := by
  intro link destination via metric otherMetric isRoute isOther
  obtain ⟨_, _, address, rfl, member⟩ := defaultRoutes_routes.mp isRoute
  obtain ⟨_, _, _, same, otherMember⟩ := defaultRoutes_routes.mp isOther
  cases same
  exact agree _ member _ otherMember rfl

theorem defaultRoutes_described {routes : List (BitVec 32 × UInt32)}
    {address : BitVec 32} {metric : UInt32}
    (member : (address, metric) ∈ routes) :
    (defaultRoutes routes).network.Describes
      ⟨none, some (.v4 address), "eth0", metric⟩ :=
  ⟨_, rfl, defaultRoutes_routes.mpr ⟨rfl, rfl, address, rfl, member⟩⟩

/-- A gateway is replaced and another one kept, with their metrics. -/
theorem routes_converge_replacing :
    let first := defaultRoutes [(0x0A000001, 100), (0x0A000002, 200)]
    let second := defaultRoutes [(0x0A000001, 100), (0x0A000003, 200)]
    ∃ state, (networkRuns RouteController.reconcile first second
        bareKernel).Reachable state ∧
      Quiet SameRoutes RouteController.reconcile second state.world ∧
      ∀ route, route ∈ state.world.kernel.routes ↔
        second.network.Describes route := by
  intro first second
  have firstDistinct : first.network.RoutesDistinct :=
    defaultRoutes_keep (by simp)
  have secondDistinct : second.network.RoutesDistinct :=
    defaultRoutes_keep (by simp)
  have keeps : KeepsMetrics first.network second.network :=
    defaultRoutes_keep (by simp)
  obtain ⟨state, reached, quiet, _⟩ := exists_quiet_leak firstDistinct
    secondDistinct (show bareKernel.routes = [] from rfl) _ _
    (defaultRoutes_described List.mem_cons_self)
    (defaultRoutes_described List.mem_cons_self) rfl
  exact ⟨state, reached, quiet, (routes_converge_iff first second bareKernel rfl
    firstDistinct secondDistinct).mpr keeps state reached quiet⟩

/-- A node whose default route over `eth0` has this metric. -/
def oneRoute (metric : UInt32) : Provider :=
  defaultRoutes [(0x0A000001, metric)]

theorem oneRoute_distinct (metric : UInt32) :
    (oneRoute metric).network.RoutesDistinct :=
  defaultRoutes_keep (by simp)

theorem oneRoute_described (metric : UInt32) :
    (oneRoute metric).network.Describes
      ⟨none, some (.v4 0x0A000001), "eth0", metric⟩ :=
  defaultRoutes_described List.mem_cons_self

/-- The metric of the default route is changed from 100 to 200: no pass changes
anything any more, and the route with metric 100 is still in the kernel. -/
theorem changed_metric_leaks :
    ∃ state,
      (networkRuns RouteController.reconcile (oneRoute 100) (oneRoute 200)
        bareKernel).Reachable state ∧
      Quiet SameRoutes RouteController.reconcile (oneRoute 200)
        state.world ∧
      ⟨none, some (.v4 0x0A000001), "eth0", 100⟩ ∈
        state.world.kernel.routes ∧
      ¬ (oneRoute 200).network.Describes
        ⟨none, some (.v4 0x0A000001), "eth0", 100⟩ := by
  obtain ⟨state, reached, quiet, leaked⟩ := exists_quiet_leak
    (oneRoute_distinct 100) (oneRoute_distinct 200)
    (show bareKernel.routes = [] from rfl) _ _ (oneRoute_described 100)
    (oneRoute_described 200) rfl
  refine ⟨state, reached, quiet, leaked, ?_⟩
  rintro ⟨via, _, isRoute⟩
  obtain ⟨_, _, address, _, member⟩ := defaultRoutes_routes.mp isRoute
  have changed : (100 : UInt32) = 200 :=
    congrArg Prod.snd (List.mem_singleton.mp member)
  revert changed
  decide

end MachinedRs
