import MachinedRs.Resources.IpText
import MachinedRs.RuntimeCore.Settled

/-!
# From the network config to desired specs

`NetworkConfigController` turns the static `network` config into link, address,
route, hostname and resolver specs that it owns.  Text that does not parse as an
address is skipped.  The ids are built from the names and addresses; this module
shows what an id determines and when two desired objects share one.
-/

namespace MachinedRs

open Foundation

/-- `dest` is the destination CIDR, the config's `to`; nothing means the default
route. -/
structure RouteConfig where
  dest : Option String
  via : IpAddr
  metric : Option UInt32
deriving DecidableEq, Repr

structure InterfaceConfig where
  name : String
  up : Bool
  mtu : Option UInt32
  addresses : List String
  routes : List RouteConfig
deriving DecidableEq, Repr

structure NetworkSection where
  interfaces : List InterfaceConfig
  nameservers : List IpAddr
  search : List String
deriving DecidableEq, Repr

/-- The parts of the machine config this controller asks the provider for. -/
structure Provider where
  hostname : Option String
  network : NetworkSection
deriving DecidableEq, Repr

def networkNs : String :=
  "network"

namespace NetworkConfigController

def owner : String :=
  "network-config"

def obj (id : String) (spec : Resource) : ResourceObject :=
  ResourceObject.new networkNs id spec

def linkObject (iface : InterfaceConfig) : ResourceObject :=
  obj iface.name (.linkSpec ⟨iface.name, iface.up, iface.mtu⟩)

def addressId (link : String) (address : AddrCidr) : String :=
  link ++ "/" ++ String.ofList address.display

def addressObject (link : String) (address : AddrCidr) : ResourceObject :=
  obj (addressId link address) (.addressSpec ⟨link, address⟩)

def destLabel : Option AddrCidr → String
  | some destination => String.ofList destination.display
  | none => "default"

def routeId (link : String) (destination : Option AddrCidr) (via : IpAddr) :
    String :=
  link ++ "/" ++ destLabel destination ++ "/" ++ String.ofList via.display

def routeObject (link : String) (destination : Option AddrCidr)
    (via : IpAddr) (metric : UInt32) : ResourceObject :=
  obj (routeId link destination via)
    (.routeSpec ⟨destination, some via, link, metric⟩)

end NetworkConfigController

open NetworkConfigController

/-- Where a route leads: nowhere if its destination does not parse, and to
everywhere for the two ways of writing a default route. -/
def RouteConfig.destination? (route : RouteConfig) :
    Option (Option AddrCidr) :=
  match route.dest with
  | none => some none
  | some cidr =>
      if cidr = "0.0.0.0/0" ∨ cidr = "::/0" then
        some none
      else
        (AddrCidr.fromStr cidr).map some

def InterfaceConfig.addressObjects (iface : InterfaceConfig) :
    List ResourceObject :=
  iface.addresses.filterMap fun text =>
    (AddrCidr.fromStr text).map (addressObject iface.name)

def InterfaceConfig.routeObjects (iface : InterfaceConfig) :
    List ResourceObject :=
  iface.routes.filterMap fun route =>
    route.destination?.map fun destination =>
      routeObject iface.name destination route.via (route.metric.getD 0)

namespace NetworkSection

/-- The links of the config; the loopback link is always brought up, unless the
config speaks about it. -/
def links (network : NetworkSection) : List ResourceObject :=
  network.interfaces.map linkObject ++
    if network.interfaces.any fun iface => iface.name = "lo" then
      []
    else
      [obj "lo" (.linkSpec ⟨"lo", true, none⟩)]

def addresses (network : NetworkSection) : List ResourceObject :=
  network.interfaces.flatMap InterfaceConfig.addressObjects

def routes (network : NetworkSection) : List ResourceObject :=
  network.interfaces.flatMap InterfaceConfig.routeObjects

def resolvers (network : NetworkSection) : List ResourceObject :=
  if network.nameservers = [] then
    []
  else
    [obj "resolver" (.resolverSpec ⟨network.nameservers, network.search⟩)]

end NetworkSection

def Provider.hostnames (provider : Provider) : List ResourceObject :=
  match provider.hostname with
  | some hostname => [obj "hostname" (.hostnameSpec ⟨hostname⟩)]
  | none => []

/-- The desired objects by type, in the order in which they are reconciled. -/
def Provider.desired (provider : Provider) :
    List (ResourceType × List ResourceObject) :=
  [(.linkSpec, provider.network.links),
    (.addressSpec, provider.network.addresses),
    (.routeSpec, provider.network.routes),
    (.hostnameSpec, provider.hostnames),
    (.resolverSpec, provider.network.resolvers)]

def NetworkConfigController.reconcile (provider : Provider) :
    Program stateSignature (Result Unit) :=
  reconcileEach owner networkNs provider.desired

namespace NetworkSection

variable {network : NetworkSection}

/-- The interface carries this address in the config. -/
def Carries (network : NetworkSection) (link : String) (address : AddrCidr) :
    Prop :=
  ∃ iface ∈ network.interfaces, iface.name = link ∧
    ∃ text ∈ iface.addresses, AddrCidr.fromStr text = some address

/-- The config has this route, and it is valid. -/
def Routes (network : NetworkSection) (link : String)
    (destination : Option AddrCidr) (via : IpAddr) (metric : UInt32) : Prop :=
  ∃ iface ∈ network.interfaces, iface.name = link ∧
    ∃ route ∈ iface.routes, route.destination? = some destination ∧
      route.via = via ∧ route.metric.getD 0 = metric

theorem mem_links {object : ResourceObject} :
    object ∈ network.links ↔
      (∃ iface ∈ network.interfaces, linkObject iface = object) ∨
        (∀ iface ∈ network.interfaces, iface.name ≠ "lo") ∧
          object = obj "lo" (.linkSpec ⟨"lo", true, none⟩) := by
  rw [links, List.mem_append, List.mem_map]
  by_cases named : network.interfaces.any fun iface => iface.name = "lo"
  · rw [if_pos named]
    obtain ⟨iface, member, isLo⟩ := List.any_eq_true.mp named
    constructor
    · rintro (fromConfig | impossible)
      · exact .inl fromConfig
      · cases impossible
    · rintro (fromConfig | ⟨absent, _⟩)
      · exact .inl fromConfig
      · exact absurd (of_decide_eq_true isLo) (absent iface member)
  · rw [if_neg named, List.mem_singleton]
    have absent : ∀ iface ∈ network.interfaces, iface.name ≠ "lo" := by
      intro iface member isLo
      exact named (List.any_eq_true.mpr ⟨iface, member, decide_eq_true isLo⟩)
    constructor
    · rintro (fromConfig | isLo)
      · exact .inl fromConfig
      · exact .inr ⟨absent, isLo⟩
    · rintro (fromConfig | ⟨_, isLo⟩)
      · exact .inl fromConfig
      · exact .inr isLo

theorem mem_addresses {object : ResourceObject} :
    object ∈ network.addresses ↔
      ∃ link address, network.Carries link address ∧
        object = addressObject link address := by
  simp only [addresses, List.mem_flatMap, InterfaceConfig.addressObjects,
    List.mem_filterMap, Option.map_eq_some_iff]
  constructor
  · rintro ⟨iface, member, text, isText, address, parsed, rfl⟩
    exact ⟨iface.name, address, ⟨iface, member, rfl, text, isText, parsed⟩,
      rfl⟩
  · rintro ⟨link, address, ⟨iface, member, rfl, text, isText, parsed⟩, rfl⟩
    exact ⟨iface, member, text, isText, address, parsed, rfl⟩

theorem mem_routes {object : ResourceObject} :
    object ∈ network.routes ↔
      ∃ link destination via metric,
        network.Routes link destination via metric ∧
        object = routeObject link destination via metric := by
  simp only [routes, List.mem_flatMap, InterfaceConfig.routeObjects,
    List.mem_filterMap, Option.map_eq_some_iff]
  constructor
  · rintro ⟨iface, member, route, isRoute, destination, valid, rfl⟩
    exact ⟨iface.name, destination, route.via, route.metric.getD 0,
      ⟨iface, member, rfl, route, isRoute, valid, rfl, rfl⟩, rfl⟩
  · rintro ⟨link, destination, via, metric,
      ⟨iface, member, rfl, route, isRoute, valid, rfl, rfl⟩, rfl⟩
    exact ⟨iface, member, route, isRoute, destination, valid, rfl⟩

end NetworkSection

section Ids

/-- An id that ends in text without a slash is cut there. -/
theorem append_slash_inj {first second : String} {label other : List Char}
    (free : '/' ∉ label) (otherFree : '/' ∉ other)
    (same : first ++ "/" ++ String.ofList label =
      second ++ "/" ++ String.ofList other) :
    first = second ∧ label = other := by
  have lists := congrArg String.toList same
  simp only [String.toList_append, String.toList_ofList,
    List.append_assoc] at lists
  obtain ⟨front, back⟩ := append_separator_inj free otherFree lists
  exact ⟨String.toList_injective front, back⟩

theorem AddrCidr.ofList_display (address : AddrCidr) :
    String.ofList address.display =
      String.ofList address.ip.display ++ "/" ++
        String.ofList (Nat.toDigits 10 address.prefixLength.toNat) := by
  apply String.toList_injective
  simp [AddrCidr.display]

/-- The id of an address determines the link and the address, whatever the name
of the link. -/
theorem NetworkConfigController.addressId_injective {link otherLink : String}
    {address other : AddrCidr}
    (same : addressId link address = addressId otherLink other) :
    link = otherLink ∧ address = other := by
  rw [addressId, addressId, AddrCidr.ofList_display, AddrCidr.ofList_display,
    ← String.append_assoc, ← String.append_assoc, ← String.append_assoc,
    ← String.append_assoc] at same
  obtain ⟨front, length⟩ := append_slash_inj (slash_notMem_toDigits _)
    (slash_notMem_toDigits _) same
  obtain ⟨sameLink, ip⟩ := append_slash_inj address.ip.slash_notMem_display
    other.ip.slash_notMem_display front
  refine ⟨sameLink, AddrCidr.display_injective ?_⟩
  rw [AddrCidr.display, AddrCidr.display, ip, length]

/-- The label of the default route is no prefix length. -/
theorem default_ne_toDigits (number : Nat) :
    "default".toList ≠ Nat.toDigits 10 number := by
  intro same
  have member : 'u' ∈ Nat.toDigits 10 number := by
    rw [← same]
    decide
  exact notMem_toDigits (by decide) (by decide) (by decide) number member

theorem link_label_inj {link otherLink : String}
    {destination other : Option AddrCidr}
    (same : link ++ "/" ++ destLabel destination =
      otherLink ++ "/" ++ destLabel other) :
    link = otherLink ∧ destination = other := by
  have flat : '/' ∉ "default".toList := by decide
  have apart : ∀ (link otherLink : String) (address : AddrCidr),
      link ++ "/" ++ "default" ≠ addressId otherLink address := by
    intro link otherLink address equal
    rw [addressId, AddrCidr.ofList_display, ← String.append_assoc,
      ← String.append_assoc] at equal
    obtain ⟨_, label⟩ :=
      append_slash_inj flat (slash_notMem_toDigits _) equal
    exact default_ne_toDigits _ label
  cases destination with
  | none =>
      cases other with
      | none =>
          obtain ⟨sameLink, _⟩ := append_slash_inj flat flat same
          exact ⟨sameLink, rfl⟩
      | some address => exact absurd same (apart link otherLink address)
  | some address =>
      cases other with
      | none => exact absurd same.symm (apart otherLink link address)
      | some otherAddress =>
          obtain ⟨sameLink, sameAddress⟩ := addressId_injective same
          exact ⟨sameLink, congrArg some sameAddress⟩

/-- The id of a route determines everything but its metric. -/
theorem NetworkConfigController.routeId_injective {link otherLink : String}
    {destination other : Option AddrCidr} {via otherVia : IpAddr}
    (same : routeId link destination via =
      routeId otherLink other otherVia) :
    link = otherLink ∧ destination = other ∧ via = otherVia := by
  obtain ⟨front, back⟩ := append_slash_inj via.slash_notMem_display
    otherVia.slash_notMem_display same
  obtain ⟨sameLink, sameDestination⟩ := link_label_inj front
  exact ⟨sameLink, sameDestination, IpAddr.display_injective back⟩

end Ids

namespace Provider

variable (provider : Provider)

theorem desired_types_nodup : (provider.desired.map Prod.fst).Nodup := by
  change [ResourceType.linkSpec, .addressSpec, .routeSpec, .hostnameSpec,
    .resolverSpec].Nodup
  decide

theorem links_mem_desired :
    (ResourceType.linkSpec, provider.network.links) ∈ provider.desired :=
  List.mem_cons_self

theorem addresses_mem_desired :
    (ResourceType.addressSpec, provider.network.addresses) ∈
      provider.desired :=
  List.mem_cons_of_mem _ List.mem_cons_self

theorem routes_mem_desired :
    (ResourceType.routeSpec, provider.network.routes) ∈ provider.desired :=
  List.mem_cons_of_mem _ (List.mem_cons_of_mem _ List.mem_cons_self)

theorem desired_ofType :
    ∀ group ∈ provider.desired, OfType networkNs group.1 group.2 := by
  intro group member object isDesired
  simp only [desired, List.mem_cons, List.not_mem_nil, or_false] at member
  rcases member with rfl | rfl | rfl | rfl | rfl
  · rcases NetworkSection.mem_links.mp isDesired with
      ⟨iface, _, rfl⟩ | ⟨_, rfl⟩
    · exact ⟨rfl, rfl⟩
    · exact ⟨rfl, rfl⟩
  · obtain ⟨_, _, _, rfl⟩ := NetworkSection.mem_addresses.mp isDesired
    exact ⟨rfl, rfl⟩
  · obtain ⟨_, _, _, _, _, rfl⟩ := NetworkSection.mem_routes.mp isDesired
    exact ⟨rfl, rfl⟩
  · unfold hostnames at isDesired
    split at isDesired
    · rw [List.mem_singleton] at isDesired
      rw [isDesired]
      exact ⟨rfl, rfl⟩
    · cases isDesired
  · unfold NetworkSection.resolvers at isDesired
    split at isDesired
    · cases isDesired
    · rw [List.mem_singleton] at isDesired
      rw [isDesired]
      exact ⟨rfl, rfl⟩

/-- An object that a pass hands to `reconcileOwned`. -/
def Generates (provider : Provider) (object : ResourceObject) : Prop :=
  ∃ group ∈ provider.desired, object ∈ group.2

variable {provider}

/-- What is generated, by the five types. -/
theorem Generates.cases {object : ResourceObject}
    (generated : provider.Generates object) :
    (∃ id spec, object = obj id (.linkSpec spec)) ∨
    (∃ link address, object = addressObject link address) ∨
    (∃ link destination via metric,
      object = routeObject link destination via metric) ∨
    (∃ id spec, object = obj id (.hostnameSpec spec)) ∨
    ∃ id spec, object = obj id (.resolverSpec spec) := by
  obtain ⟨group, member, isDesired⟩ := generated
  simp only [desired, List.mem_cons, List.not_mem_nil, or_false] at member
  rcases member with rfl | rfl | rfl | rfl | rfl
  · left
    rcases NetworkSection.mem_links.mp isDesired with
      ⟨iface, _, rfl⟩ | ⟨_, rfl⟩
    · exact ⟨_, _, rfl⟩
    · exact ⟨_, _, rfl⟩
  · obtain ⟨link, address, _, rfl⟩ :=
      NetworkSection.mem_addresses.mp isDesired
    exact .inr (.inl ⟨link, address, rfl⟩)
  · obtain ⟨link, destination, via, metric, _, rfl⟩ :=
      NetworkSection.mem_routes.mp isDesired
    exact .inr (.inr (.inl ⟨link, destination, via, metric, rfl⟩))
  · unfold hostnames at isDesired
    split at isDesired
    · rw [List.mem_singleton] at isDesired
      exact .inr (.inr (.inr (.inl ⟨_, _, isDesired⟩)))
    · cases isDesired
  · unfold NetworkSection.resolvers at isDesired
    split at isDesired
    · cases isDesired
    · rw [List.mem_singleton] at isDesired
      exact .inr (.inr (.inr (.inr ⟨_, _, isDesired⟩)))

theorem Generates.addressId {object : ResourceObject} {spec : AddressSpec}
    (generated : provider.Generates object)
    (isAddress : object.spec = .addressSpec spec) :
    object.metadata.id = addressId spec.link spec.address := by
  rcases generated.cases with ⟨_, _, rfl⟩ | ⟨link, address, rfl⟩ |
    ⟨_, _, _, _, rfl⟩ | ⟨_, _, rfl⟩ | ⟨_, _, rfl⟩
  case inr.inl =>
    cases isAddress
    rfl
  all_goals cases isAddress

theorem Generates.routeId {object : ResourceObject} {spec : RouteSpec}
    (generated : provider.Generates object)
    (isRoute : object.spec = .routeSpec spec) :
    ∃ via, spec.gateway = some via ∧
      object.metadata.id = routeId spec.link spec.destination via := by
  rcases generated.cases with ⟨_, _, rfl⟩ | ⟨_, _, rfl⟩ |
    ⟨link, destination, via, metric, rfl⟩ | ⟨_, _, rfl⟩ | ⟨_, _, rfl⟩
  case inr.inr.inl =>
    cases isRoute
    exact ⟨via, rfl, rfl⟩
  all_goals cases isRoute

end Provider

/-- Whatever the configs and the names of their interfaces: addresses of one id
have the same link and address, and routes of one id the same link, destination
and gateway. -/
theorem NetworkConfigController.generated_ids_injective
    {provider otherProvider : Provider} {object other : ResourceObject}
    (generated : provider.Generates object)
    (otherGenerated : otherProvider.Generates other)
    (same : object.metadata.id = other.metadata.id) :
    (∀ spec otherSpec, object.spec = .addressSpec spec →
      other.spec = .addressSpec otherSpec →
        spec.link = otherSpec.link ∧ spec.address = otherSpec.address) ∧
    ∀ spec otherSpec, object.spec = .routeSpec spec →
      other.spec = .routeSpec otherSpec →
        spec.link = otherSpec.link ∧
          spec.destination = otherSpec.destination ∧
            spec.gateway = otherSpec.gateway := by
  constructor
  · intro spec otherSpec isAddress otherIsAddress
    rw [generated.addressId isAddress,
      otherGenerated.addressId otherIsAddress] at same
    exact addressId_injective same
  · intro spec otherSpec isRoute otherIsRoute
    obtain ⟨via, gateway, id⟩ := generated.routeId isRoute
    obtain ⟨otherVia, otherGateway, otherId⟩ :=
      otherGenerated.routeId otherIsRoute
    rw [id, otherId] at same
    obtain ⟨link, destination, sameVia⟩ := routeId_injective same
    rw [gateway, otherGateway, sameVia]
    exact ⟨link, destination, rfl⟩

/-- A name that itself looks like the beginning of a route. -/
def slashedConfig : Provider :=
  { hostname := none
    network :=
      { interfaces :=
          [{ name := "eth0/default"
             up := true
             mtu := none
             addresses := []
             routes :=
              [⟨none, .v4 0x0a000001#32, some 1⟩,
                ⟨some "::/0", .v4 0x0a000001#32, some 2⟩] }]
        nameservers := []
        search := [] } }

theorem NetworkConfigController.generated_ids_injective_slashed :
    ∃ object other, slashedConfig.Generates object ∧
      slashedConfig.Generates other ∧ object ≠ other ∧
      object.metadata.id = "eth0/default/default/10.0.0.1" ∧
      other.metadata.id = "eth0/default/default/10.0.0.1" ∧
      ∀ spec otherSpec, object.spec = .routeSpec spec →
        other.spec = .routeSpec otherSpec →
          spec.link = otherSpec.link ∧
            spec.destination = otherSpec.destination ∧
              spec.gateway = otherSpec.gateway := by
  let route (metric : UInt32) : ResourceObject :=
    routeObject "eth0/default" none (.v4 0x0a000001#32) metric
  have generated : ∀ metric ∈ [(1 : UInt32), 2],
      slashedConfig.Generates (route metric) := by
    intro metric member
    refine ⟨_, slashedConfig.routes_mem_desired, ?_⟩
    have routes : slashedConfig.network.routes = [route 1, route 2] := by
      decide +kernel
    rw [routes]
    simp only [List.mem_cons, List.not_mem_nil, or_false] at member
    rcases member with rfl | rfl
    · exact List.mem_cons_self
    · exact List.mem_cons_of_mem _ List.mem_cons_self
  have first := generated 1 List.mem_cons_self
  have second := generated 2 (List.mem_cons_of_mem _ List.mem_cons_self)
  exact ⟨route 1, route 2, first, second, by decide +kernel,
    by decide +kernel, by decide +kernel,
    (generated_ids_injective first second rfl).2⟩

/-- Routes over one interface to one destination by one gateway are the same
route. -/
def NetworkSection.RoutesDistinct (network : NetworkSection) : Prop :=
  ∀ link destination via metric otherMetric,
    network.Routes link destination via metric →
    network.Routes link destination via otherMetric → metric = otherMetric

/-- Interfaces of one name agree on their link settings, and routes of one name,
destination and gateway agree on their metric. -/
structure NetworkSection.Unambiguous (network : NetworkSection) : Prop where
  links : ∀ one ∈ network.interfaces, ∀ other ∈ network.interfaces,
    one.name = other.name → one.up = other.up ∧ one.mtu = other.mtu
  routes : network.RoutesDistinct

namespace NetworkSection

variable {network : NetworkSection}

theorem agreeing_links :
    Agreeing network.links ↔
      ∀ one ∈ network.interfaces, ∀ other ∈ network.interfaces,
        one.name = other.name → one.up = other.up ∧ one.mtu = other.mtu := by
  constructor
  · intro agreeing one oneMember other otherMember sameName
    have specs := agreeing (linkObject one)
      (mem_links.mpr (.inl ⟨one, oneMember, rfl⟩)) (linkObject other)
      (mem_links.mpr (.inl ⟨other, otherMember, rfl⟩))
      (congrArg (Key.mk networkNs .linkSpec) sameName)
    injection specs with spec
    injection spec with _ sameUp sameMtu
    exact ⟨sameUp, sameMtu⟩
  · intro agree object member other otherMember sameKey
    have sameId : object.metadata.id = other.metadata.id :=
      congrArg Key.id sameKey
    rcases mem_links.mp member with ⟨one, oneMember, rfl⟩ | ⟨absent, rfl⟩
    · rcases mem_links.mp otherMember with
        ⟨two, twoMember, rfl⟩ | ⟨otherAbsent, rfl⟩
      · have sameName : one.name = two.name := sameId
        obtain ⟨sameUp, sameMtu⟩ := agree one oneMember two twoMember sameName
        change Resource.linkSpec ⟨one.name, one.up, one.mtu⟩ =
          Resource.linkSpec ⟨two.name, two.up, two.mtu⟩
        rw [sameName, sameUp, sameMtu]
      · exact absurd sameId (otherAbsent one oneMember)
    · rcases mem_links.mp otherMember with ⟨two, twoMember, rfl⟩ | ⟨_, rfl⟩
      · exact absurd sameId.symm (absent two twoMember)
      · rfl

theorem agreeing_addresses : Agreeing network.addresses := by
  intro object member other otherMember sameKey
  obtain ⟨link, address, _, rfl⟩ := mem_addresses.mp member
  obtain ⟨otherLink, otherAddress, _, rfl⟩ := mem_addresses.mp otherMember
  obtain ⟨rfl, rfl⟩ := addressId_injective (congrArg Key.id sameKey)
  rfl

theorem agreeing_routes :
    Agreeing network.routes ↔
      ∀ link destination via metric otherMetric,
        network.Routes link destination via metric →
        network.Routes link destination via otherMetric →
        metric = otherMetric := by
  constructor
  · intro agreeing link destination via metric otherMetric isRoute otherRoute
    have specs := agreeing (routeObject link destination via metric)
      (mem_routes.mpr ⟨_, _, _, _, isRoute, rfl⟩)
      (routeObject link destination via otherMetric)
      (mem_routes.mpr ⟨_, _, _, _, otherRoute, rfl⟩) rfl
    injection specs with spec
    injection spec
  · intro agree object member other otherMember sameKey
    obtain ⟨link, destination, via, metric, isRoute, rfl⟩ :=
      mem_routes.mp member
    obtain ⟨otherLink, otherDestination, otherVia, otherMetric, otherRoute,
      rfl⟩ := mem_routes.mp otherMember
    obtain ⟨rfl, rfl, rfl⟩ := routeId_injective (congrArg Key.id sameKey)
    rw [agree _ _ _ _ _ isRoute otherRoute]

end NetworkSection

theorem agreeing_of_length_le_one {desired : List ResourceObject}
    (short : desired.length ≤ 1) : Agreeing desired := by
  intro one oneMember other otherMember _
  cases desired with
  | nil => cases oneMember
  | cons first rest =>
      have empty : rest = [] := by
        cases rest with
        | nil => rfl
        | cons second rest => simp at short
      rw [empty, List.mem_singleton] at oneMember otherMember
      rw [oneMember, otherMember]

theorem Provider.agreeing_iff (provider : Provider) :
    (∀ group ∈ provider.desired, Agreeing group.2) ↔
      provider.network.Unambiguous := by
  constructor
  · intro agreeing
    exact ⟨NetworkSection.agreeing_links.mp
        (agreeing _ provider.links_mem_desired),
      NetworkSection.agreeing_routes.mp
        (agreeing _ provider.routes_mem_desired)⟩
  · intro unambiguous group member
    simp only [desired, List.mem_cons, List.not_mem_nil, or_false] at member
    rcases member with rfl | rfl | rfl | rfl | rfl
    · exact NetworkSection.agreeing_links.mpr unambiguous.links
    · exact NetworkSection.agreeing_addresses
    · exact NetworkSection.agreeing_routes.mpr unambiguous.routes
    · apply agreeing_of_length_le_one
      unfold hostnames
      split
      · exact Nat.le_refl 1
      · exact Nat.zero_le 1
    · apply agreeing_of_length_le_one
      unfold NetworkSection.resolvers
      split
      · exact Nat.zero_le 1
      · exact Nat.le_refl 1

end MachinedRs
