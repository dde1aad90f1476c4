import MachinedRs.Network.SpecController

/-!
# The route controller over the kernel

The real backend asks the kernel over netlink.  An exclusive add of a route that
is already there is answered with `EEXIST`.  For addresses the backend takes
this for success; for routes it passes the error on.  So a pass of the route
controller succeeds only on a kernel that has none of the routes yet, and the
next pass fails.
-/

namespace MachinedRs

open Foundation Network

inductive AddressFamily where
  | inet
  | inet6
deriving DecidableEq, Repr

/-- A request to add a route, which is also how the kernel keeps it. -/
structure RouteMessage where
  family : AddressFamily
  destination : Option AddrCidr
  gateway : Option IpAddr
  outputInterface : UInt32
  priority : UInt32
deriving DecidableEq, Repr

/-- What the netlink library reports when the kernel refuses a request. -/
inductive RtError where
  | netlinkError (code : Int)
deriving DecidableEq, Repr

def eexist : Int :=
  17

def enodev : Int :=
  19

/-- The links of the kernel with their indices, their addresses, and the route
table. -/
structure RtKernel where
  links : Finmap fun _ : String => UInt32
  addresses : List (UInt32 × AddrCidr)
  routes : List RouteMessage

namespace RtKernel

/-- A link asked for by its name.  The kernel answers an unknown name with an
error, not with an empty list. -/
def getLink (kernel : RtKernel) (name : String) :
    Except RtError (Option UInt32) :=
  match kernel.links.lookup name with
  | some index => .ok (some index)
  | none => .error (.netlinkError (-enodev))

/-- An exclusive add of a route. -/
def addRoute (kernel : RtKernel) (message : RouteMessage) :
    Except RtError RtKernel :=
  if message ∈ kernel.routes then
    .error (.netlinkError (-eexist))
  else
    .ok { kernel with routes := kernel.routes ++ [message] }

/-- An exclusive add of an address. -/
def addAddress (kernel : RtKernel) (index : UInt32) (address : AddrCidr) :
    Except RtError RtKernel :=
  if (index, address) ∈ kernel.addresses then
    .error (.netlinkError (-eexist))
  else
    .ok { kernel with addresses := kernel.addresses ++ [(index, address)] }

end RtKernel

namespace RtNetlink

def isAlreadyExists : RtError → Bool
  | .netlinkError code => code = -eexist

/-- The request for a route over the link with this index. -/
def routeMessage (index : UInt32) (route : RouteReq) :
    Except NetlinkError RouteMessage :=
  match route.destination, route.gateway with
  | some destination, gateway =>
      match destination.ip, gateway with
      | .v4 _, some (.v4 via) =>
          .ok ⟨.inet, some destination, some (.v4 via), index, route.metric⟩
      | .v4 _, none => .ok ⟨.inet, some destination, none, index, route.metric⟩
      | .v6 _, some (.v6 via) =>
          .ok ⟨.inet6, some destination, some (.v6 via), index, route.metric⟩
      | .v6 _, none =>
          .ok ⟨.inet6, some destination, none, index, route.metric⟩
      | _, _ => .error (.netlink "mixed v4/v6 route")
  | none, some (.v4 via) =>
      .ok ⟨.inet, none, some (.v4 via), index, route.metric⟩
  | none, some (.v6 via) =>
      .ok ⟨.inet6, none, some (.v6 via), index, route.metric⟩
  | none, none => .error (.netlink "default route needs a gateway")

variable (wording : RtError → String)

/-- `wording` is how the library displays its errors. -/
def net (error : RtError) : NetlinkError :=
  .netlink (wording error)

def linkIndex (kernel : RtKernel) (name : String) :
    Except NetlinkError UInt32 :=
  match kernel.getLink name with
  | .error error => .error (net wording error)
  | .ok (some index) => .ok index
  | .ok none => .error (.linkNotFound name)

def addRoute (kernel : RtKernel) (route : RouteReq) :
    Except NetlinkError Unit × RtKernel :=
  match linkIndex wording kernel route.link with
  | .error error => (.error error, kernel)
  | .ok index =>
      match routeMessage index route with
      | .error error => (.error error, kernel)
      | .ok message =>
          match kernel.addRoute message with
          | .error error => (.error (net wording error), kernel)
          | .ok after => (.ok (), after)

def delRoute (kernel : RtKernel) (_route : RouteReq) :
    Except NetlinkError Unit × RtKernel :=
  (.ok (), kernel)

def addAddress (kernel : RtKernel) (link : String) (address : AddrCidr) :
    Except NetlinkError Unit × RtKernel :=
  match linkIndex wording kernel link with
  | .error error => (.error error, kernel)
  | .ok index =>
      match kernel.addAddress index address with
      | .error error =>
          if isAlreadyExists error then
            (.ok (), kernel)
          else
            (.error (net wording error), kernel)
      | .ok after => (.ok (), after)

def delAddress (kernel : RtKernel) (link : String) (address : AddrCidr) :
    Except NetlinkError Unit × RtKernel :=
  match linkIndex wording kernel link with
  | .error error => (.error error, kernel)
  | .ok index =>
      (.ok (), { kernel with
        addresses := kernel.addresses.erase (index, address) })

def perform (kernel : RtKernel) :
    NetworkOp → Except NetlinkError Unit × RtKernel
  | .addAddress link address => addAddress wording kernel link address
  | .delAddress link address => delAddress wording kernel link address
  | .addRoute route => addRoute wording kernel route
  | .delRoute route => delRoute kernel route

end RtNetlink

/-- The store and the kernel behind the real backend. -/
structure RtWorld where
  objects : Objects
  kernel : RtKernel

def RtWorld.withObjects (objects : Objects) (world : RtWorld) : RtWorld :=
  { world with objects := objects }

def rtNetlink (wording : RtError → String) :
    Machine networkSignature RtWorld (List ResourceObject) :=
  { perform := fun world operation _ =>
      some ((RtNetlink.perform wording world.kernel operation).1,
        { world with
          kernel := (RtNetlink.perform wording world.kernel operation).2 }) }

def rtMachine (wording : RtError → String) :
    Machine (stateSignature.sum networkSignature) RtWorld
      (List ResourceObject) :=
  storeBeside RtWorld.objects RtWorld.withObjects (rtNetlink wording)

theorem rtMachine_total (wording : RtError → String) :
    (rtMachine wording).Total :=
  storeBeside_total fun _ _ => ⟨[], _, _, rfl⟩

section Rules

variable {α : Type} {wording : RtError → String} {post : α → RtWorld → Prop}
  {world : RtWorld}

theorem rt_kernel {operation : NetworkOp}
    {next : Except NetlinkError Unit →
      Program (stateSignature.sum networkSignature) α}
    (goesOn : (rtMachine wording).Ensures post
      (next (RtNetlink.perform wording world.kernel operation).1)
      { world with
        kernel := (RtNetlink.perform wording world.kernel operation).2 }) :
    (rtMachine wording).Ensures post (.call (.inr operation) next) world := by
  apply beside_other
  rintro _ _ _ ⟨⟩
  exact goesOn

theorem rt_inl {program : Program stateSignature α}
    (ensures : storeMachine.Ensures
      (fun value objects => post value (world.withObjects objects)) program
      world.objects) :
    (rtMachine wording).Ensures post program.inl world :=
  beside_inl (fun _ => rfl) (fun _ _ => rfl) rfl ensures

theorem rt_wellKeyed
    (program : Program (stateSignature.sum networkSignature) α)
    (keyed : State.WellKeyed world.objects) :
    (rtMachine wording).Ensures
      (fun _ after => State.WellKeyed after.objects) program world := by
  refine beside_wellKeyed (fun _ _ => rfl) ?_ program keyed
  rintro _ _ _ _ _ ⟨⟩
  rfl

end Rules

/-- The route a spec asks for. -/
def RouteSpec.req (spec : RouteSpec) : RouteReq :=
  ⟨spec.destination, spec.gateway, spec.link, spec.metric⟩

/-- The kernel route of an object, if its link is there and its addresses
match. -/
def RtKernel.routeOf (kernel : RtKernel) (object : ResourceObject) :
    Option RouteMessage :=
  match object.spec with
  | .routeSpec spec =>
      match kernel.links.lookup spec.link with
      | some index => (RtNetlink.routeMessage index spec.req).toOption
      | none => none
  | _ => none

theorem RtKernel.routeOf_congr {kernel other : RtKernel}
    (same : other.links = kernel.links) (object : ResourceObject) :
    other.routeOf object = kernel.routeOf object := by
  simp only [RtKernel.routeOf, same]

/-- The status that reports the object is stored. -/
def Reported (objects : Objects) (object : ResourceObject) : Prop :=
  ∀ spec, object.spec = .routeSpec spec →
    ∃ status,
      objects.lookup ⟨networkNs, .routeStatus, object.metadata.id⟩ =
        some status ∧
      status.spec =
        .routeStatus ⟨spec.destination, spec.gateway, spec.link⟩

/-- None of the routes is in the kernel, and no two of them are equal. -/
structure RoutesNew (kernel : RtKernel) (listing : List ResourceObject) :
    Prop where
  absent : ∀ object ∈ listing, ∀ message,
    kernel.routeOf object = some message → message ∉ kernel.routes
  distinct : (listing.map kernel.routeOf).Nodup

theorem RtKernel.routeOf_eq_some {kernel : RtKernel} {object : ResourceObject}
    {message : RouteMessage} (found : kernel.routeOf object = some message) :
    ∃ spec index, object.spec = .routeSpec spec ∧
      kernel.links.lookup spec.link = some index ∧
      RtNetlink.routeMessage index spec.req = .ok message := by
  unfold RtKernel.routeOf at found
  split at found
  · rename_i spec isSpec
    split at found
    · rename_i index linked
      cases built : RtNetlink.routeMessage index spec.req with
      | error error =>
          rw [built] at found
          cases found
      | ok other =>
          rw [built] at found
          cases found
          exact ⟨spec, index, isSpec, linked, built⟩
    · cases found
  · cases found

/-- The world after a route has been added and reported. -/
def RtWorld.routed (world : RtWorld) (object : ResourceObject)
    (spec : RouteSpec) (message : RouteMessage) : RtWorld :=
  { objects := published world.objects object.metadata.id
      (.routeStatus ⟨spec.destination, spec.gateway, spec.link⟩)
    kernel := { world.kernel with
      routes := world.kernel.routes ++ [message] } }

theorem apply_route {wording : RtError → String} {world : RtWorld}
    {object : ResourceObject} {spec : RouteSpec} {index : UInt32}
    {message : RouteMessage} (isSpec : object.spec = .routeSpec spec)
    (linked : world.kernel.links.lookup spec.link = some index)
    (built : RtNetlink.routeMessage index spec.req = .ok message) :
    (rtMachine wording).Ensures
      (fun result after =>
        if message ∈ world.kernel.routes then
          result ≠ .ok () ∧ after = world
        else
          result = .ok () ∧ after = world.routed object spec message)
      (routeController.apply object) world := by
  have item : routeController.item? object.spec = some spec.req := by
    rw [isSpec]
    rfl
  unfold SpecController.apply
  rw [item]
  apply rt_kernel
  have performed : RtNetlink.perform wording world.kernel
      (routeController.add spec.req) =
        match world.kernel.addRoute message with
        | .error error => (.error (RtNetlink.net wording error), world.kernel)
        | .ok after => (.ok (), after) := by
    change RtNetlink.addRoute wording world.kernel spec.req = _
    have linkedReq : RtNetlink.linkIndex wording world.kernel spec.req.link =
        .ok index := by
      rw [RtNetlink.linkIndex, RtKernel.getLink]
      simp only [show world.kernel.links.lookup spec.req.link = some index
        from linked]
    simp only [RtNetlink.addRoute, linkedReq, built]
  rw [performed, RtKernel.addRoute]
  by_cases present : message ∈ world.kernel.routes
  · simp only [if_pos present]
    exact Machine.done trivial ⟨nofun, rfl⟩
  · simp only [if_neg present]
    apply Setting.Protected.bind
    apply rt_inl
    apply Setting.Protected.mono _ (publishStatus_ensures _ _ _)
    rintro _ objects rfl
    exact Machine.done trivial ⟨rfl, rfl⟩

/-- What the controllers rely on of an object. -/
def ResourceObject.essence (object : ResourceObject) : Resource × Phase :=
  (object.spec, object.metadata.phase)

theorem heldBy_essence (finalizer : String) (object : ResourceObject) :
    (object.heldBy finalizer).essence = object.essence := by
  unfold ResourceObject.heldBy
  split
  · rfl
  · rfl

/-- What a pass over the listed objects does. -/
structure RoutePass (listing : List ResourceObject) (world : RtWorld)
    (result : Result Unit) (after : RtWorld) : Prop where
  links : after.kernel.links = world.kernel.links
  grows : world.kernel.routes ⊆ after.kernel.routes
  keeps : ∀ key : Key, key.typ ≠ .routeStatus →
    (after.objects.lookup key).map ResourceObject.essence =
      (world.objects.lookup key).map ResourceObject.essence
  others : ∀ id, id ∉ listing.map (fun object => object.metadata.id) →
    after.objects.lookup ⟨networkNs, .routeStatus, id⟩ =
      world.objects.lookup ⟨networkNs, .routeStatus, id⟩
  succeeds : result = .ok () ↔ RoutesNew world.kernel listing
  applied : result = .ok () → ∀ object ∈ listing,
    (∀ message, world.kernel.routeOf object = some message →
      message ∈ after.kernel.routes) ∧ Reported after.objects object

/-- The object is stored and running, and the kernel can have its route. -/
structure Routable (world : RtWorld) (object : ResourceObject) : Prop where
  stored : world.objects.lookup object.key ≠ none
  running : object.metadata.phase = .running
  typed : object.key.typ = .routeSpec
  acceptable : (world.kernel.routeOf object).isSome = true

section Passes

variable {wording : RtError → String} {world : RtWorld}
  {object : ResourceObject} {listing : List ResourceObject}

theorem routePass_nil (world : RtWorld) :
    RoutePass [] world (.ok ()) world := by
  refine ⟨rfl, List.Subset.refl _, fun _ _ => rfl, fun _ _ => rfl, ?_, ?_⟩
  · refine ⟨fun _ => ⟨?_, List.nodup_nil⟩, fun _ => rfl⟩
    intro object member
    cases member
  · intro _ object member
    cases member

/-- The world with the controller's finalizer on the object. -/
def RtWorld.held (world : RtWorld) (object stored : ResourceObject) :
    RtWorld :=
  world.withObjects (world.objects.insert object.key
    (stored.heldBy routeController.finalizer))

theorem held_keeps {stored : ResourceObject}
    (found : world.objects.lookup object.key = some stored) (key : Key) :
    ((world.held object stored).objects.lookup key).map
        ResourceObject.essence =
      (world.objects.lookup key).map ResourceObject.essence := by
  by_cases same : key = object.key
  · subst same
    have inserted : (world.held object stored).objects.lookup object.key =
        some (stored.heldBy routeController.finalizer) :=
      Finmap.lookup_insert _
    rw [inserted, found]
    exact congrArg some (heldBy_essence _ stored)
  · have elsewhere : (world.held object stored).objects.lookup key =
        world.objects.lookup key := Finmap.lookup_insert_of_ne _ same
    rw [elsewhere]

theorem held_status {stored : ResourceObject}
    (typed : object.key.typ = .routeSpec) (id : String) :
    (world.held object stored).objects.lookup ⟨networkNs, .routeStatus, id⟩ =
      world.objects.lookup ⟨networkNs, .routeStatus, id⟩ := by
  apply Finmap.lookup_insert_of_ne
  intro same
  rw [← same] at typed
  cases typed

theorem routePass_present {stored : ResourceObject} {message : RouteMessage}
    {result : Result Unit} (routable : Routable world object)
    (found : world.objects.lookup object.key = some stored)
    (isRoute : world.kernel.routeOf object = some message)
    (present : message ∈ world.kernel.routes) (failed : result ≠ .ok ()) :
    RoutePass (object :: listing) world result (world.held object stored) := by
  refine ⟨rfl, List.Subset.refl _, fun key _ => held_keeps found key,
    fun id _ => held_status routable.typed id, ?_, ?_⟩
  · constructor
    · intro succeeded
      exact absurd succeeded failed
    · intro routesNew
      exact absurd present
        (routesNew.absent object List.mem_cons_self message isRoute)
  · intro succeeded
    exact absurd succeeded failed

/-- The routes are new exactly if the first one is and the others are new to a
kernel that has it. -/
theorem routesNew_cons {kernel : RtKernel} {message : RouteMessage}
    (isRoute : kernel.routeOf object = some message)
    (absent : message ∉ kernel.routes) :
    RoutesNew { kernel with routes := kernel.routes ++ [message] } listing ↔
      RoutesNew kernel (object :: listing) := by
  have same : ({ kernel with
      routes := kernel.routes ++ [message] } : RtKernel).routeOf =
        kernel.routeOf := by
    funext other
    exact RtKernel.routeOf_congr rfl other
  constructor
  · rintro ⟨rest, distinct⟩
    rw [same] at rest distinct
    refine ⟨?_, ?_⟩
    · intro other member otherMessage isOther
      rcases List.mem_cons.mp member with rfl | later
      · rw [isRoute] at isOther
        cases isOther
        exact absent
      · intro present
        exact rest other later otherMessage isOther
          (List.mem_append_left _ present)
    · rw [List.map_cons, List.nodup_cons]
      refine ⟨?_, distinct⟩
      intro repeated
      obtain ⟨other, later, isOther⟩ := List.mem_map.mp repeated
      rw [isRoute] at isOther
      exact rest other later message isOther
        (List.mem_append_right _ (List.mem_singleton_self message))
  · rintro ⟨all, distinct⟩
    rw [List.map_cons, List.nodup_cons] at distinct
    refine ⟨?_, ?_⟩
    · rw [same]
      intro other later otherMessage isOther present
      rcases List.mem_append.mp present with before | isFirst
      · exact all other (List.mem_cons_of_mem object later) otherMessage
          isOther before
      · apply distinct.1
        rw [isRoute, ← List.mem_singleton.mp isFirst, ← isOther]
        exact List.mem_map_of_mem later
    · rw [same]
      exact distinct.2

theorem routed_lookup {spec : RouteSpec} {message : RouteMessage} {key : Key}
    (other : key ≠ ⟨networkNs, .routeStatus, object.metadata.id⟩) :
    (world.routed object spec message).objects.lookup key =
      world.objects.lookup key :=
  lookup_published_of_ne other

theorem routed_status {spec : RouteSpec} {message : RouteMessage} :
    ∃ status, (world.routed object spec message).objects.lookup
        ⟨networkNs, .routeStatus, object.metadata.id⟩ = some status ∧
      status.spec =
        .routeStatus ⟨spec.destination, spec.gateway, spec.link⟩ := by
  refine ⟨_, Finmap.lookup_insert _, ?_⟩
  split
  · rfl
  · rfl

theorem routePass_cons {stored : ResourceObject} {spec : RouteSpec}
    {message : RouteMessage} {result : Result Unit} {after : RtWorld}
    (routable : Routable world object)
    (found : world.objects.lookup object.key = some stored)
    (isSpec : object.spec = .routeSpec spec)
    (isRoute : world.kernel.routeOf object = some message)
    (absent : message ∉ world.kernel.routes)
    (unlisted : object.metadata.id ∉
      listing.map fun object => object.metadata.id)
    (rest : RoutePass listing
      ((world.held object stored).routed object spec message) result after) :
    RoutePass (object :: listing) world result after := by
  have sameRoute : ∀ other,
      ((world.held object stored).routed object spec message).kernel.routeOf
        other = world.kernel.routeOf other :=
    fun other => RtKernel.routeOf_congr rfl other
  refine ⟨rest.links, ?_, ?_, ?_, ?_, ?_⟩
  · exact List.Subset.trans (List.subset_append_left _ _) rest.grows
  · intro key notStatus
    rw [rest.keeps key notStatus, routed_lookup, held_keeps found key]
    intro same
    rw [same] at notStatus
    exact notStatus rfl
  · intro id unmentioned
    rw [List.map_cons, List.mem_cons, not_or] at unmentioned
    rw [rest.others id unmentioned.2, routed_lookup,
      held_status routable.typed]
    intro same
    exact unmentioned.1 (congrArg Key.id same)
  · exact rest.succeeds.trans (routesNew_cons isRoute absent)
  · intro succeeded other member
    rcases List.mem_cons.mp member with rfl | later
    · refine ⟨?_, ?_⟩
      · intro otherMessage isOther
        rw [isRoute] at isOther
        cases isOther
        exact rest.grows
          (List.mem_append_right _ (List.mem_singleton_self message))
      · intro otherSpec isOtherSpec
        rw [isSpec] at isOtherSpec
        cases isOtherSpec
        rw [rest.others other.metadata.id unlisted]
        exact routed_status
    · obtain ⟨installed, reported⟩ := rest.applied succeeded other later
      refine ⟨?_, reported⟩
      intro otherMessage isOther
      exact installed otherMessage ((sameRoute other).trans isOther)

theorem Routable.routed {other stored : ResourceObject} {spec : RouteSpec}
    {message : RouteMessage} (routable : Routable world other) :
    Routable ((world.held object stored).routed object spec message)
      other := by
  refine ⟨?_, routable.running, routable.typed, ?_⟩
  · have notStatus : other.key ≠
        ⟨networkNs, .routeStatus, object.metadata.id⟩ := by
      intro same
      have typed := routable.typed
      rw [same] at typed
      cases typed
    rw [routed_lookup notStatus]
    by_cases same : other.key = object.key
    · rw [same]
      have inserted : (world.held object stored).objects.lookup object.key =
          some (stored.heldBy routeController.finalizer) :=
        Finmap.lookup_insert _
      rw [inserted]
      nofun
    · have elsewhere : (world.held object stored).objects.lookup other.key =
          world.objects.lookup other.key := Finmap.lookup_insert_of_ne _ same
      rw [elsewhere]
      exact routable.stored
  · rw [RtKernel.routeOf_congr rfl]
    exact routable.acceptable

theorem handle_routes
    (routable : ∀ object ∈ listing, Routable world object)
    (distinct : (listing.map fun object => object.metadata.id).Nodup) :
    (rtMachine wording).Ensures (RoutePass listing world)
      ((reconcileFinalized routeController.finalizer listing).handle
        routeController.callback) world := by
  induction listing generalizing world with
  | nil => exact Machine.done trivial (routePass_nil world)
  | cons object listing induction =>
      rw [List.map_cons, List.nodup_cons] at distinct
      have here := routable object List.mem_cons_self
      obtain ⟨stored, found⟩ := Option.ne_none_iff_exists'.mp here.stored
      obtain ⟨message, isRoute⟩ := Option.isSome_iff_exists.mp here.acceptable
      obtain ⟨spec, index, isSpec, linked, built⟩ :=
        RtKernel.routeOf_eq_some isRoute
      obtain ⟨succeeded, inserted⟩ :=
        State.addFinalizer_of_lookup found routeController.finalizer
      unfold reconcileFinalized
      rw [here.running]
      apply beside_op
      intro _ answer answered
      have isOk : answer = .ok () := by
        cases answered
        exact succeeded
      subst isOk
      change (rtMachine wording).Ensures _ _ (world.withObjects
        (State.addFinalizer world.objects object.key
          routeController.finalizer).objects)
      rw [inserted]
      apply Setting.Protected.bind
      apply Setting.Protected.mono _
        (@apply_route wording (world.held object stored) object spec index
          message isSpec linked built)
      intro result after applied
      by_cases present : message ∈ world.kernel.routes
      · rw [if_pos (show message ∈ (world.held object stored).kernel.routes
          from present)] at applied
        obtain ⟨failed, rfl⟩ := applied
        cases result with
        | ok _ => exact absurd rfl failed
        | error error =>
            exact Machine.done trivial
              (routePass_present here found isRoute present (by simp))
      · rw [if_neg (show message ∉ (world.held object stored).kernel.routes
          from present)] at applied
        obtain ⟨rfl, rfl⟩ := applied
        apply Setting.Protected.mono _ (induction
          (fun other member =>
            (routable other (List.mem_cons_of_mem object member)).routed)
          distinct.2)
        intro result after rest
        exact routePass_cons here found isSpec isRoute present distinct.1 rest

end Passes

/-- The route specs of the store are running, and the kernel can have their
routes. -/
structure RouteSet (world : RtWorld) : Prop where
  keyed : State.WellKeyed world.objects
  running : ∀ id object,
    world.objects.lookup ⟨networkNs, .routeSpec, id⟩ = some object →
    object.metadata.phase = .running
  acceptable : ∀ id object,
    world.objects.lookup ⟨networkNs, .routeSpec, id⟩ = some object →
    (world.kernel.routeOf object).isSome = true

/-- Every desired route is installed and reported. -/
def RoutesApplied (world after : RtWorld) : Prop :=
  ∀ id object,
    world.objects.lookup ⟨networkNs, .routeSpec, id⟩ = some object →
    (∀ message, world.kernel.routeOf object = some message →
      message ∈ after.kernel.routes) ∧ Reported after.objects object

/-- No desired route is in the kernel, and no two specs desire equal routes. -/
structure RoutesUnknown (world : RtWorld) : Prop where
  absent : ∀ id object message,
    world.objects.lookup ⟨networkNs, .routeSpec, id⟩ = some object →
    world.kernel.routeOf object = some message →
    message ∉ world.kernel.routes
  distinct : ∀ id other object otherObject,
    world.objects.lookup ⟨networkNs, .routeSpec, id⟩ = some object →
    world.objects.lookup ⟨networkNs, .routeSpec, other⟩ = some otherObject →
    world.kernel.routeOf object = world.kernel.routeOf otherObject →
    id = other

section Reconciling

variable {wording : RtError → String} {world after : RtWorld}
  {listing : List ResourceObject} {result : Result Unit}

/-- The listing has the stored route specs, each once. -/
structure ListsRoutes (world : RtWorld) (listing : List ResourceObject) :
    Prop where
  member : ∀ object, object ∈ listing ↔
    world.objects.lookup ⟨networkNs, .routeSpec, object.metadata.id⟩ =
      some object
  distinct : (listing.map fun object => object.metadata.id).Nodup

theorem listsRoutes_of_list (keyed : State.WellKeyed world.objects)
    (enumerates : (listing : Multiset ResourceObject) =
      State.list world.objects networkNs .routeSpec) :
    ListsRoutes world listing := by
  have member : ∀ object, object ∈ listing ↔
      world.objects.lookup object.key = some object ∧
        object.key.ns = networkNs ∧ object.key.typ = .routeSpec :=
    fun _ => State.mem_enumeration keyed enumerates
  refine ⟨?_, ?_⟩
  · intro object
    rw [member]
    constructor
    · rintro ⟨stored, ofNs, ofTyp⟩
      rw [← ofNs, ← ofTyp]
      exact stored
    · intro stored
      have key := keyed _ object stored
      rw [key]
      exact ⟨stored, rfl, rfl⟩
  · have keysNodup := State.nodup_enumeration keyed enumerates
    apply List.Nodup.map_on _ keysNodup.of_map
    intro one oneMember other otherMember same
    obtain ⟨oneStored, oneNs, oneTyp⟩ := (member one).mp oneMember
    obtain ⟨otherStored, otherNs, otherTyp⟩ := (member other).mp otherMember
    apply List.inj_on_of_nodup_map keysNodup oneMember otherMember
    exact Key.mk.injEq .. ▸ ⟨oneNs.trans otherNs.symm,
      oneTyp.trans otherTyp.symm, same⟩

theorem ListsRoutes.mem (lists : ListsRoutes world listing)
    (keyed : State.WellKeyed world.objects) {id : String}
    {object : ResourceObject}
    (stored : world.objects.lookup ⟨networkNs, .routeSpec, id⟩ =
      some object) : object ∈ listing ∧ object.metadata.id = id := by
  have sameId : object.metadata.id = id :=
    congrArg Key.id (keyed _ object stored)
  refine ⟨?_, sameId⟩
  rw [lists.member, sameId]
  exact stored

theorem reconcile_routes (routes : RouteSet world) :
    (rtMachine wording).Ensures
      (fun result after => ∃ listing, ListsRoutes world listing ∧
        RoutePass listing world result after)
      RouteController.reconcile world := by
  apply beside_op
  intro listing answer answered
  obtain ⟨enumerates, same⟩ := Option.ite_none_right_eq_some.mp answered
  cases same
  have lists := listsRoutes_of_list routes.keyed enumerates
  apply Setting.Protected.mono _ (handle_routes ?_ lists.distinct)
  · intro result after pass
    exact ⟨listing, lists, pass⟩
  · intro object member
    have stored := (lists.member object).mp member
    have key := routes.keyed _ object stored
    refine ⟨?_, routes.running _ object stored, ?_,
      routes.acceptable _ object stored⟩
    · change world.objects.lookup object.key ≠ none
      rw [key, stored]
      nofun
    · rw [key]

theorem pass_of_returns (routes : RouteSet world)
    (returns : (rtMachine wording).Returns RouteController.reconcile world
      result after) :
    ∃ listing, ListsRoutes world listing ∧
      RoutePass listing world result after ∧
      State.WellKeyed after.objects := by
  obtain ⟨listing, lists, pass⟩ :=
    Machine.post_of_returns (reconcile_routes routes) returns
  have keyed := Machine.post_of_returns
    (rt_wellKeyed RouteController.reconcile routes.keyed) returns
  exact ⟨listing, lists, pass, keyed⟩

theorem routesNew_iff (keyed : State.WellKeyed world.objects)
    (lists : ListsRoutes world listing) :
    RoutesNew world.kernel listing ↔ RoutesUnknown world := by
  constructor
  · rintro ⟨absent, distinct⟩
    refine ⟨?_, ?_⟩
    · intro id object message stored isRoute
      exact absent object (lists.mem keyed stored).1 message isRoute
    · intro id other object otherObject stored otherStored same
      obtain ⟨member, isId⟩ := lists.mem keyed stored
      obtain ⟨otherMember, isOther⟩ := lists.mem keyed otherStored
      have equal := List.inj_on_of_nodup_map distinct member otherMember same
      rw [← isId, ← isOther, equal]
  · rintro ⟨absent, distinct⟩
    refine ⟨?_, ?_⟩
    · intro object member message isRoute
      exact absent _ object message ((lists.member object).mp member) isRoute
    · apply List.Nodup.map_on _ lists.distinct.of_map
      intro one oneMember other otherMember same
      have oneStored := (lists.member one).mp oneMember
      have otherStored := (lists.member other).mp otherMember
      have sameId := distinct _ _ one other oneStored otherStored same
      rw [sameId, otherStored] at oneStored
      exact (Option.some.inj oneStored).symm

theorem routesApplied_of_pass (keyed : State.WellKeyed world.objects)
    (lists : ListsRoutes world listing)
    (pass : RoutePass listing world result after)
    (succeeded : result = .ok ()) : RoutesApplied world after := by
  intro id object stored
  exact pass.applied succeeded object (lists.mem keyed stored).1

theorem RtKernel.routeOf_of_spec {kernel : RtKernel}
    {object other : ResourceObject} (same : other.spec = object.spec) :
    kernel.routeOf other = kernel.routeOf object := by
  simp only [RtKernel.routeOf, same]

/-- A spec stored after a pass was stored before with the same spec and
phase. -/
theorem RoutePass.before (pass : RoutePass listing world result after)
    {id : String} {object : ResourceObject}
    (stored : after.objects.lookup ⟨networkNs, .routeSpec, id⟩ =
      some object) :
    ∃ existing,
      world.objects.lookup ⟨networkNs, .routeSpec, id⟩ = some existing ∧
      object.spec = existing.spec ∧
      object.metadata.phase = existing.metadata.phase := by
  have same := pass.keeps ⟨networkNs, .routeSpec, id⟩ nofun
  rw [stored, Option.map_some] at same
  obtain ⟨existing, found, essence⟩ := Option.map_eq_some_iff.mp same.symm
  exact ⟨existing, found, (congrArg Prod.fst essence).symm,
    (congrArg Prod.snd essence).symm⟩

theorem RouteSet.of_pass (routes : RouteSet world)
    (keyed : State.WellKeyed after.objects)
    (pass : RoutePass listing world result after) : RouteSet after := by
  refine ⟨keyed, ?_, ?_⟩
  · intro id object stored
    obtain ⟨existing, found, _, phase⟩ := pass.before stored
    rw [phase]
    exact routes.running id existing found
  · intro id object stored
    obtain ⟨existing, found, spec, _⟩ := pass.before stored
    rw [RtKernel.routeOf_of_spec spec, RtKernel.routeOf_congr pass.links]
    exact routes.acceptable id existing found

theorem next_pass_fails {next : List ResourceObject} {second : Result Unit}
    {final : RtWorld} (routes : RouteSet world)
    (afterKeyed : State.WellKeyed after.objects)
    (lists : ListsRoutes world listing)
    (pass : RoutePass listing world result after)
    (succeeded : result = .ok ()) (nextLists : ListsRoutes after next)
    (nextPass : RoutePass next after second final) {id : String}
    {object : ResourceObject}
    (stored : world.objects.lookup ⟨networkNs, .routeSpec, id⟩ =
      some object) : second ≠ .ok () := by
  intro nextSucceeded
  obtain ⟨message, isRoute⟩ :=
    Option.isSome_iff_exists.mp (routes.acceptable id object stored)
  have installed : message ∈ after.kernel.routes :=
    (routesApplied_of_pass routes.keyed lists pass succeeded id object
      stored).1 message isRoute
  have same := pass.keeps ⟨networkNs, .routeSpec, id⟩ nofun
  rw [stored, Option.map_some] at same
  obtain ⟨remaining, found, essence⟩ := Option.map_eq_some_iff.mp same
  have stillRoute : after.kernel.routeOf remaining = some message := by
    rw [RtKernel.routeOf_of_spec (congrArg Prod.fst essence),
      RtKernel.routeOf_congr pass.links, isRoute]
  have routesNew := nextPass.succeeds.mp nextSucceeded
  exact routesNew.absent remaining (nextLists.mem afterKeyed found).1 message
    stillRoute installed

theorem routesUnknown_of_empty
    (empty : ∀ id,
      world.objects.lookup ⟨networkNs, .routeSpec, id⟩ = none) :
    RoutesUnknown world := by
  refine ⟨?_, ?_⟩
  · intro id object message stored
    rw [empty id] at stored
    cases stored
  · intro id other object otherObject stored
    rw [empty id] at stored
    cases stored

theorem routesApplied_of_empty
    (empty : ∀ id,
      world.objects.lookup ⟨networkNs, .routeSpec, id⟩ = none) :
    RoutesApplied world after := by
  intro id object stored
  rw [empty id] at stored
  cases stored

end Reconciling

/-- Route application over the real backend.  One pass succeeds, installs and
reports every desired route exactly if none of them was in the kernel and no two
specs desire equal routes.  Two passes do so exactly if there is no route spec
at all. -/
theorem routes_idempotent_iff (wording : RtError → String) (world : RtWorld)
    (routes : RouteSet world) :
    ((∀ first middle,
      (rtMachine wording).Returns RouteController.reconcile world first
        middle →
      first = .ok () ∧ RoutesApplied world middle) ↔ RoutesUnknown world) ∧
    ((∀ first middle second final,
      (rtMachine wording).Returns RouteController.reconcile world first
        middle →
      (rtMachine wording).Returns RouteController.reconcile middle second
        final →
      first = .ok () ∧ RoutesApplied world middle ∧ second = .ok () ∧
        RoutesApplied world final) ↔
      ∀ id, world.objects.lookup ⟨networkNs, .routeSpec, id⟩ = none) := by
  constructor
  · constructor
    · intro succeeds
      obtain ⟨first, middle, returns⟩ :=
        (rtMachine_total wording).returns RouteController.reconcile world
      obtain ⟨listing, lists, pass, _⟩ := pass_of_returns routes returns
      exact (routesNew_iff routes.keyed lists).mp
        (pass.succeeds.mp (succeeds first middle returns).1)
    · intro unknown first middle returns
      obtain ⟨listing, lists, pass, _⟩ := pass_of_returns routes returns
      have succeeded := pass.succeeds.mpr
        ((routesNew_iff routes.keyed lists).mpr unknown)
      exact ⟨succeeded,
        routesApplied_of_pass routes.keyed lists pass succeeded⟩
  · constructor
    · intro succeeds id
      by_contra present
      obtain ⟨object, stored⟩ := Option.ne_none_iff_exists'.mp present
      obtain ⟨first, middle, returns⟩ :=
        (rtMachine_total wording).returns RouteController.reconcile world
      obtain ⟨second, final, again⟩ :=
        (rtMachine_total wording).returns RouteController.reconcile middle
      obtain ⟨succeeded, _, secondSucceeded, _⟩ :=
        succeeds first middle second final returns again
      obtain ⟨listing, lists, pass, keyed⟩ := pass_of_returns routes returns
      obtain ⟨next, nextLists, nextPass, _⟩ :=
        pass_of_returns (routes.of_pass keyed pass) again
      exact next_pass_fails routes keyed lists pass succeeded nextLists
        nextPass stored secondSucceeded
    · intro empty first middle second final returns again
      obtain ⟨listing, lists, pass, keyed⟩ := pass_of_returns routes returns
      obtain ⟨next, nextLists, nextPass, _⟩ :=
        pass_of_returns (routes.of_pass keyed pass) again
      have stillEmpty : ∀ id,
          middle.objects.lookup ⟨networkNs, .routeSpec, id⟩ = none := by
        intro id
        cases stored : middle.objects.lookup ⟨networkNs, .routeSpec, id⟩ with
        | none => rfl
        | some object =>
            obtain ⟨existing, found, _⟩ := pass.before stored
            rw [empty id] at found
            cases found
      refine ⟨?_, routesApplied_of_empty empty, ?_,
        routesApplied_of_empty empty⟩
      · exact pass.succeeds.mpr ((routesNew_iff routes.keyed lists).mpr
          (routesUnknown_of_empty empty))
      · exact nextPass.succeeds.mpr ((routesNew_iff keyed nextLists).mpr
          (routesUnknown_of_empty stillEmpty))

/-- A default route over `eth0`. -/
def defaultRoute : ResourceObject :=
  (ResourceObject.new networkNs "eth0/default/10.0.0.1"
    (.routeSpec ⟨none, some (.v4 0x0A000001), "eth0", 100⟩)).fresh

/-- A kernel with the link and without routes. -/
def bootedWorld : RtWorld :=
  { objects := Finmap.singleton defaultRoute.key defaultRoute
    kernel :=
      { links := Finmap.singleton "eth0" 2
        addresses := []
        routes := [] } }

theorem bootedWorld_routes : RouteSet bootedWorld := by
  refine ⟨State.wellKeyed_singleton defaultRoute, ?_, ?_⟩
  · intro id object stored
    rw [(State.lookup_singleton_eq_some stored).2]
    rfl
  · intro id object stored
    rw [(State.lookup_singleton_eq_some stored).2]
    rfl

theorem bootedWorld_unknown : RoutesUnknown bootedWorld := by
  refine ⟨?_, ?_⟩
  · intro id object message stored isRoute
    exact List.not_mem_nil
  · intro id other object otherObject stored otherStored _
    have key := (State.lookup_singleton_eq_some stored).1
    have otherKey := (State.lookup_singleton_eq_some otherStored).1
    exact congrArg Key.id (key.trans otherKey.symm)

def fileExists (_error : RtError) : String :=
  "Received a netlink error message File exists (os error 17)"

/-- The first pass after boot. -/
theorem routes_idempotent_booted :
    ∃ middle,
      (rtMachine fileExists).Returns RouteController.reconcile bootedWorld
        (.ok ()) middle ∧
      RoutesApplied bootedWorld middle := by
  obtain ⟨first, middle, returns⟩ :=
    (rtMachine_total fileExists).returns RouteController.reconcile bootedWorld
  obtain ⟨rfl, applied⟩ :=
    (routes_idempotent_iff fileExists bootedWorld bootedWorld_routes).1.mpr
      bootedWorld_unknown first middle returns
  exact ⟨middle, returns, applied⟩

/-- The pass after it fails. -/
theorem second_route_pass_fails :
    ∃ first middle second final,
      (rtMachine fileExists).Returns RouteController.reconcile bootedWorld
        first middle ∧
      (rtMachine fileExists).Returns RouteController.reconcile middle second
        final ∧
      first = .ok () ∧ second ≠ .ok () := by
  obtain ⟨first, middle, returns⟩ :=
    (rtMachine_total fileExists).returns RouteController.reconcile bootedWorld
  obtain ⟨second, final, again⟩ :=
    (rtMachine_total fileExists).returns RouteController.reconcile middle
  obtain ⟨listing, lists, pass, keyed⟩ :=
    pass_of_returns bootedWorld_routes returns
  obtain ⟨next, nextLists, nextPass, _⟩ :=
    pass_of_returns (bootedWorld_routes.of_pass keyed pass) again
  have succeeded := pass.succeeds.mpr
    ((routesNew_iff bootedWorld_routes.keyed lists).mpr bootedWorld_unknown)
  have stored : bootedWorld.objects.lookup
      ⟨networkNs, .routeSpec, "eth0/default/10.0.0.1"⟩ =
        some defaultRoute := rfl
  exact ⟨first, middle, second, final, returns, again, succeeded,
    next_pass_fails bootedWorld_routes keyed lists pass succeeded nextLists
      nextPass stored⟩

end MachinedRs
