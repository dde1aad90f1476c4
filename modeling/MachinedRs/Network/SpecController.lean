import MachinedRs.Network.Config
import MachinedRs.RuntimeCore.FinalizedPass

/-!
# Controllers that apply specs to the kernel

The address and the route controller list the specs of their type, apply each
running one to the kernel under a finalizer and revert each one that is being
torn down.  The kernel is the in-memory backend.  A pass that runs alone, and
whose kernel calls are accepted, serves the listed objects one after the other.
-/

namespace MachinedRs

open Foundation

structure RouteReq where
  destination : Option AddrCidr
  gateway : Option IpAddr
  link : String
  metric : UInt32
deriving DecidableEq, Repr

inductive NetlinkError where
  | linkNotFound (name : String)
  | netlink (message : String)
deriving DecidableEq, Repr

def NetlinkError.display : NetlinkError → String
  | .linkNotFound name => "link not found: " ++ name
  | .netlink message => "netlink error: " ++ message

/-- A backend error as an error of the controller. -/
def NetlinkError.ctl (error : NetlinkError) : Error :=
  .controller error.display

/-- The backend calls of the two controllers. -/
inductive NetworkOp where
  | addAddress (link : String) (address : AddrCidr)
  | delAddress (link : String) (address : AddrCidr)
  | addRoute (route : RouteReq)
  | delRoute (route : RouteReq)
deriving DecidableEq, Repr

abbrev networkSignature : Signature :=
  { Op := NetworkOp, Answer := fun _ => Except NetlinkError Unit }

/-- The simulated kernel; of a link only its existence matters here. -/
structure FakeState where
  links : Finset String
  addrs : Finmap fun _ : String => List AddrCidr
  routes : List RouteReq

namespace FakeState

def listAddresses (kernel : FakeState) (link : String) : List AddrCidr :=
  (kernel.addrs.lookup link).getD []

def addAddress (kernel : FakeState) (link : String) (address : AddrCidr) :
    Except NetlinkError Unit × FakeState :=
  if link ∈ kernel.links then
    let list := kernel.listAddresses link
    let added := if address ∈ list then list else list ++ [address]
    (.ok (), { kernel with addrs := kernel.addrs.insert link added })
  else
    (.error (.linkNotFound link), kernel)

def delAddress (kernel : FakeState) (link : String) (address : AddrCidr) :
    Except NetlinkError Unit × FakeState :=
  match kernel.addrs.lookup link with
  | some list =>
      (.ok (), { kernel with
        addrs := kernel.addrs.insert link (list.filter (· ≠ address)) })
  | none => (.ok (), kernel)

def addRoute (kernel : FakeState) (route : RouteReq) :
    Except NetlinkError Unit × FakeState :=
  if route ∈ kernel.routes then
    (.ok (), kernel)
  else
    (.ok (), { kernel with routes := kernel.routes ++ [route] })

def delRoute (kernel : FakeState) (route : RouteReq) :
    Except NetlinkError Unit × FakeState :=
  (.ok (), { kernel with routes := kernel.routes.filter (· ≠ route) })

def perform (kernel : FakeState) :
    NetworkOp → Except NetlinkError Unit × FakeState
  | .addAddress link address => kernel.addAddress link address
  | .delAddress link address => kernel.delAddress link address
  | .addRoute route => kernel.addRoute route
  | .delRoute route => kernel.delRoute route

/-- The call succeeds. -/
def Accepts (kernel : FakeState) (operation : NetworkOp) : Prop :=
  (kernel.perform operation).1 = .ok ()

def after (kernel : FakeState) (operation : NetworkOp) : FakeState :=
  (kernel.perform operation).2

theorem after_links (kernel : FakeState) (operation : NetworkOp) :
    (kernel.after operation).links = kernel.links := by
  cases operation with
  | addAddress link address =>
      simp only [after, perform, addAddress]
      split
      · rfl
      · rfl
  | delAddress link address =>
      simp only [after, perform, delAddress]
      split
      · rfl
      · rfl
  | addRoute route =>
      simp only [after, perform, addRoute]
      split
      · rfl
      · rfl
  | delRoute route => rfl

/-- Whether a call succeeds depends on the links alone. -/
theorem accepts_iff (kernel : FakeState) (operation : NetworkOp) :
    kernel.Accepts operation ↔
      ∀ link address, operation = .addAddress link address →
        link ∈ kernel.links := by
  cases operation with
  | addAddress link address =>
      simp only [Accepts, perform, addAddress]
      split
      · rename_i present
        constructor
        · rintro _ _ _ same
          cases same
          exact present
        · intro _
          rfl
      · rename_i absent
        constructor
        · intro impossible
          cases impossible
        · intro found
          exact absurd (found link address rfl) absent
  | delAddress link address =>
      simp only [Accepts, perform, delAddress]
      split
      · exact ⟨fun _ => nofun, fun _ => rfl⟩
      · exact ⟨fun _ => nofun, fun _ => rfl⟩
  | addRoute route =>
      simp only [Accepts, perform, addRoute]
      split
      · exact ⟨fun _ => nofun, fun _ => rfl⟩
      · exact ⟨fun _ => nofun, fun _ => rfl⟩
  | delRoute route => exact ⟨fun _ => nofun, fun _ => rfl⟩

theorem Accepts.of_links {kernel other : FakeState} {operation : NetworkOp}
    (accepted : kernel.Accepts operation)
    (same : other.links = kernel.links) : other.Accepts operation := by
  rw [accepts_iff] at accepted ⊢
  rw [same]
  exact accepted

end FakeState

/-- The store and the kernel. -/
structure NetworkWorld where
  objects : Objects
  kernel : FakeState

def NetworkWorld.withObjects (objects : Objects) (world : NetworkWorld) :
    NetworkWorld :=
  { world with objects := objects }

/-- A backend that answers from the simulated kernel. -/
def fakeNetworkBackend :
    Machine networkSignature NetworkWorld (List ResourceObject) :=
  { perform := fun world operation _ =>
      some ((world.kernel.perform operation).1,
        { world with kernel := world.kernel.after operation }) }

def networkMachine :
    Machine (stateSignature.sum networkSignature) NetworkWorld
      (List ResourceObject) :=
  (storeMachine.zoom NetworkWorld.objects NetworkWorld.withObjects id).sum
    fakeNetworkBackend

theorem networkMachine_total : networkMachine.Total :=
  storeBeside_total fun _ _ => ⟨[], _, _, rfl⟩

section Rules

variable {α : Type} {post : α → NetworkWorld → Prop} {world : NetworkWorld}

/-- What a program does to the store, it does to the world. -/
theorem ensures_inl {program : Program stateSignature α}
    (ensures : storeMachine.Ensures
      (fun value objects => post value (world.withObjects objects)) program
      world.objects) :
    networkMachine.Ensures post program.inl world :=
  beside_inl (fun _ => rfl) (fun _ _ => rfl) rfl ensures

theorem ensures_kernel {operation : NetworkOp}
    {next : Except NetlinkError Unit →
      Program (stateSignature.sum networkSignature) α}
    (goesOn : networkMachine.Ensures post
      (next (world.kernel.perform operation).1)
      { world with kernel := world.kernel.after operation }) :
    networkMachine.Ensures post (.call (.inr operation) next) world := by
  apply beside_other
  rintro _ _ _ ⟨⟩
  exact goesOn

theorem ensures_op {operation : Op}
    {next : operation.Answer →
      Program (stateSignature.sum networkSignature) α}
    (goesOn : ∀ listing answer,
      Op.answer? world.objects listing operation = some answer →
      networkMachine.Ensures post (next answer)
        (world.withObjects (operation.after world.objects))) :
    networkMachine.Ensures post (.call (.inl operation) next) world :=
  beside_op goesOn

end Rules

namespace Network

/-- Create or update a status resource; whether the write succeeds does not
matter. -/
def publishStatus (id : String) (spec : Resource) :
    Program stateSignature Unit :=
  let key : Key := ⟨networkNs, spec.resourceType, id⟩
  .call (.get key) fun found =>
    match found with
    | .ok existing =>
        .call (.update key existing.metadata.version spec) fun _ => .done ()
    | .error _ =>
        .call (.create (ResourceObject.new networkNs id spec))
          fun _ => .done ()

/-- Destroy a status resource if it is there. -/
def destroyStatus (typ : ResourceType) (id : String) :
    Program stateSignature Unit :=
  let key : Key := ⟨networkNs, typ, id⟩
  .call (.get key) fun found =>
    match found with
    | .ok object =>
        .call (.destroy key object.metadata.version) fun _ => .done ()
    | .error _ => .done ()

/-- The store after a status has been published. -/
def published (objects : Objects) (id : String) (spec : Resource) : Objects :=
  let key : Key := ⟨networkNs, spec.resourceType, id⟩
  objects.insert key
    (match objects.lookup key with
    | some existing => (existing.withSpec spec).bump
    | none => (ResourceObject.new networkNs id spec).fresh)

/-- The store after a status has been destroyed, if nobody holds it. -/
def withdrawn (objects : Objects) (typ : ResourceType) (id : String) :
    Objects :=
  let key : Key := ⟨networkNs, typ, id⟩
  match objects.lookup key with
  | some object =>
      if object.metadata.finalizers.isEmpty then objects.erase key
      else objects
  | none => objects

theorem publishStatus_ensures (objects : Objects) (id : String)
    (spec : Resource) :
    storeMachine.Ensures (fun _ after => after = published objects id spec)
      (publishStatus id spec) objects := by
  apply ensures_get
  cases stored : objects.lookup ⟨networkNs, spec.resourceType, id⟩ with
  | some existing =>
      rw [State.get, stored]
      apply ensures_update
      rw [State.update_of_lookup stored]
      refine Machine.done trivial ?_
      simp only [published, stored]
      rfl
  | none =>
      rw [State.get, stored]
      apply ensures_create
      rw [State.create_of_lookup (ResourceObject.new networkNs id spec) stored]
      refine Machine.done trivial ?_
      simp only [published, stored]
      rfl

theorem destroyStatus_ensures (objects : Objects) (typ : ResourceType)
    (id : String) :
    storeMachine.Ensures (fun _ after => after = withdrawn objects typ id)
      (destroyStatus typ id) objects := by
  apply ensures_get
  cases stored : objects.lookup ⟨networkNs, typ, id⟩ with
  | some object =>
      rw [State.get, stored]
      apply ensures_destroy
      by_cases released : object.metadata.finalizers.isEmpty = true
      · rw [State.destroy_of_lookup stored released]
        refine Machine.done trivial ?_
        simp only [withdrawn, stored, if_pos released]
      · have kept : (State.destroy objects ⟨networkNs, typ, id⟩
            object.metadata.version).objects = objects := by
          simp [State.destroy, stored, released, Commit.unchanged]
        rw [kept]
        refine Machine.done trivial ?_
        simp only [withdrawn, stored, if_neg released]
  | none =>
      rw [State.get, stored]
      refine Machine.done trivial ?_
      simp only [withdrawn, stored]

theorem lookup_published_of_ne {objects : Objects} {id : String}
    {spec : Resource} {key : Key}
    (other : key ≠ ⟨networkNs, spec.resourceType, id⟩) :
    (published objects id spec).lookup key = objects.lookup key :=
  Finmap.lookup_insert_of_ne _ other

theorem lookup_withdrawn_of_ne {objects : Objects} {typ : ResourceType}
    {id : String} {key : Key} (other : key ≠ ⟨networkNs, typ, id⟩) :
    (withdrawn objects typ id).lookup key = objects.lookup key := by
  unfold withdrawn
  dsimp only
  split
  · split
    · exact Finmap.lookup_erase_ne other
    · rfl
  · rfl

end Network

open Network

/-- What the two controllers have in common: the specs of one type are applied
to the kernel and reported in statuses of another type. -/
structure SpecController (Item : Type) where
  finalizer : String
  typ : ResourceType
  statusTyp : ResourceType
  item? : Resource → Option Item
  add : Item → NetworkOp
  del : Item → NetworkOp
  status : Item → Resource

namespace SpecController

variable {Item : Type} (controller : SpecController Item)

def apply (object : ResourceObject) :
    Program (stateSignature.sum networkSignature) (Result Unit) :=
  match controller.item? object.spec with
  | none => .done (.ok ())
  | some item =>
      .call (.inr (controller.add item)) fun added =>
        match added with
        | .error error => .done (.error error.ctl)
        | .ok _ =>
            (publishStatus object.metadata.id
              (controller.status item)).inl.bind fun _ => .done (.ok ())

def revert (object : ResourceObject) :
    Program (stateSignature.sum networkSignature) (Result Unit) :=
  match controller.item? object.spec with
  | none => .done (.ok ())
  | some item =>
      .call (.inr (controller.del item)) fun deleted =>
        match deleted with
        | .ok _ | .error (.linkNotFound _) =>
            (destroyStatus controller.statusTyp
              object.metadata.id).inl.bind fun _ => .done (.ok ())
        | .error error => .done (.error error.ctl)

def callback : Callback →
    Program (stateSignature.sum networkSignature) (Result Unit)
  | .apply object => controller.apply object
  | .revert object => controller.revert object

def reconcile : Program (stateSignature.sum networkSignature) (Result Unit) :=
  .call (.inl (.list networkNs controller.typ)) fun specs =>
    (reconcileFinalized controller.finalizer specs).handle controller.callback

end SpecController

def addressController : SpecController AddressSpec :=
  { finalizer := "address-controller"
    typ := .addressSpec
    statusTyp := .addressStatus
    item? := fun resource =>
      match resource with
      | .addressSpec spec => some spec
      | _ => none
    add := fun spec => .addAddress spec.link spec.address
    del := fun spec => .delAddress spec.link spec.address
    status := fun spec => .addressStatus ⟨spec.link, spec.address⟩ }

def routeController : SpecController RouteReq :=
  { finalizer := "route-controller"
    typ := .routeSpec
    statusTyp := .routeStatus
    item? := fun resource =>
      match resource with
      | .routeSpec spec =>
          some ⟨spec.destination, spec.gateway, spec.link, spec.metric⟩
      | _ => none
    add := NetworkOp.addRoute
    del := NetworkOp.delRoute
    status := fun route =>
      .routeStatus ⟨route.destination, route.gateway, route.link⟩ }

def AddressController.reconcile :
    Program (stateSignature.sum networkSignature) (Result Unit) :=
  addressController.reconcile

def RouteController.reconcile :
    Program (stateSignature.sum networkSignature) (Result Unit) :=
  routeController.reconcile

namespace SpecController

variable {Item : Type} (controller : SpecController Item)

/-- The world after the callback has applied an object. -/
def applied (world : NetworkWorld) (object : ResourceObject) : NetworkWorld :=
  match controller.item? object.spec with
  | none => world
  | some item =>
      { objects :=
          published world.objects object.metadata.id (controller.status item)
        kernel := world.kernel.after (controller.add item) }

/-- The world after the callback has reverted an object. -/
def reverted (world : NetworkWorld) (object : ResourceObject) : NetworkWorld :=
  match controller.item? object.spec with
  | none => world
  | some item =>
      { objects :=
          withdrawn world.objects controller.statusTyp object.metadata.id
        kernel := world.kernel.after (controller.del item) }

/-- The object after a pass has dealt with it. -/
def served (object : ResourceObject) : ResourceObject :=
  match object.metadata.phase with
  | .running => object.heldBy controller.finalizer
  | .tearingDown => object.letGoBy controller.finalizer

/-- What a pass does about one listed object. -/
def serve (world : NetworkWorld) (object : ResourceObject) : NetworkWorld :=
  match object.metadata.phase with
  | .running =>
      controller.applied
        (world.withObjects
          (world.objects.insert object.key (controller.served object)))
        object
  | .tearingDown =>
      (controller.reverted world object).withObjects
        ((controller.reverted world object).objects.insert object.key
          (controller.served object))

/-- The types of the specs and of the statuses are different. -/
structure Typed : Prop where
  apart : controller.typ ≠ controller.statusTyp
  status : ∀ item, (controller.status item).resourceType = controller.statusTyp

/-- The object is stored as it was listed, and the kernel accepts what is to be
done about it. -/
structure Ready (world : NetworkWorld) (object : ResourceObject) : Prop where
  stored : world.objects.lookup object.key = some object
  typed : object.key.typ = controller.typ
  accepted : ∀ item, controller.item? object.spec = some item →
    world.kernel.Accepts (controller.add item) ∧
      world.kernel.Accepts (controller.del item)

variable {controller} {world : NetworkWorld} {object : ResourceObject}

theorem applied_links :
    (controller.applied world object).kernel.links = world.kernel.links := by
  unfold applied
  split
  · rfl
  · exact FakeState.after_links _ _

theorem reverted_links :
    (controller.reverted world object).kernel.links = world.kernel.links := by
  unfold reverted
  split
  · rfl
  · exact FakeState.after_links _ _

theorem serve_links :
    (controller.serve world object).kernel.links = world.kernel.links := by
  unfold serve
  split
  · exact applied_links
  · exact reverted_links

section Lookups

variable {key : Key} (typed : controller.Typed)

include typed

theorem lookup_applied (other : key.typ ≠ controller.statusTyp) :
    (controller.applied world object).objects.lookup key =
      world.objects.lookup key := by
  unfold applied
  split
  · rfl
  · apply lookup_published_of_ne
    rintro rfl
    exact other (typed.status _)

omit typed in
theorem lookup_reverted (other : key.typ ≠ controller.statusTyp) :
    (controller.reverted world object).objects.lookup key =
      world.objects.lookup key := by
  unfold reverted
  split
  · rfl
  · apply lookup_withdrawn_of_ne
    rintro rfl
    exact other rfl

theorem lookup_serve_self (ofType : object.key.typ = controller.typ) :
    (controller.serve world object).objects.lookup object.key =
      some (controller.served object) := by
  have other : object.key.typ ≠ controller.statusTyp := by
    rw [ofType]
    exact typed.apart
  unfold serve
  split
  · rw [lookup_applied typed other]
    exact Finmap.lookup_insert _
  · exact Finmap.lookup_insert _

theorem lookup_serve_of_ne (different : key ≠ object.key)
    (other : key.typ ≠ controller.statusTyp) :
    (controller.serve world object).objects.lookup key =
      world.objects.lookup key := by
  unfold serve
  split
  · rw [lookup_applied typed other]
    exact Finmap.lookup_insert_of_ne _ different
  · have inserted := Finmap.lookup_insert_of_ne
      (controller.reverted world object).objects
      (b := controller.served object) different
    exact inserted.trans (lookup_reverted other)

/-- Dealing with one object leaves the others ready. -/
theorem Ready.serve {other : ResourceObject}
    (ready : controller.Ready world object)
    (different : object.key ≠ other.key) :
    controller.Ready (controller.serve world other) object := by
  refine ⟨?_, ready.typed, ?_⟩
  · rw [lookup_serve_of_ne typed different]
    · exact ready.stored
    · rw [ready.typed]
      exact typed.apart
  · intro item found
    obtain ⟨added, deleted⟩ := ready.accepted item found
    exact ⟨added.of_links serve_links, deleted.of_links serve_links⟩

end Lookups

theorem apply_ensures
    (accepted : ∀ item, controller.item? object.spec = some item →
      world.kernel.Accepts (controller.add item)) :
    networkMachine.Ensures
      (fun result after => result = .ok () ∧
        after = controller.applied world object)
      (controller.apply object) world := by
  unfold apply applied
  cases found : controller.item? object.spec with
  | none => exact Machine.done trivial ⟨rfl, rfl⟩
  | some item =>
      apply ensures_kernel
      have accepts : (world.kernel.perform (controller.add item)).1 = .ok () :=
        accepted item found
      rw [accepts]
      apply Setting.Protected.bind
      apply ensures_inl
      apply Setting.Protected.mono _ (publishStatus_ensures _ _ _)
      rintro _ objects rfl
      exact Machine.done trivial ⟨rfl, rfl⟩

theorem revert_ensures
    (accepted : ∀ item, controller.item? object.spec = some item →
      world.kernel.Accepts (controller.del item)) :
    networkMachine.Ensures
      (fun result after => result = .ok () ∧
        after = controller.reverted world object)
      (controller.revert object) world := by
  unfold revert reverted
  cases found : controller.item? object.spec with
  | none => exact Machine.done trivial ⟨rfl, rfl⟩
  | some item =>
      apply ensures_kernel
      have accepts : (world.kernel.perform (controller.del item)).1 = .ok () :=
        accepted item found
      rw [accepts]
      apply Setting.Protected.bind
      apply ensures_inl
      apply Setting.Protected.mono _ (destroyStatus_ensures _ _ _)
      rintro _ objects rfl
      exact Machine.done trivial ⟨rfl, rfl⟩

/-- A pass serves the listed objects one after the other. -/
theorem handle_ensures (typed : controller.Typed)
    {listing : List ResourceObject}
    (distinct : (listing.map ResourceObject.key).Nodup)
    (ready : ∀ object ∈ listing, controller.Ready world object) :
    networkMachine.Ensures
      (fun result after => result = .ok () ∧
        after = listing.foldl controller.serve world)
      ((reconcileFinalized controller.finalizer listing).handle
        controller.callback) world := by
  induction listing generalizing world with
  | nil => exact Machine.done trivial ⟨rfl, rfl⟩
  | cons object listing induction =>
      rw [List.map_cons, List.nodup_cons] at distinct
      have here := ready object List.mem_cons_self
      have rest : ∀ other ∈ listing,
          controller.Ready (controller.serve world object) other := by
        intro other member
        apply (ready other (List.mem_cons_of_mem _ member)).serve typed
        intro same
        apply distinct.1
        rw [← same]
        exact List.mem_map_of_mem member
      have goesOn := induction distinct.2 rest
      have notStatus : object.key.typ ≠ controller.statusTyp := by
        rw [here.typed]
        exact typed.apart
      unfold reconcileFinalized
      cases phase : object.metadata.phase with
      | running =>
          have step : controller.serve world object =
              controller.applied (world.withObjects
                (world.objects.insert object.key
                  (object.heldBy controller.finalizer))) object := by
            simp only [serve, served, phase]
          obtain ⟨succeeded, inserted⟩ := State.addFinalizer_of_lookup
            here.stored controller.finalizer
          apply ensures_op
          intro _ answer answered
          have isOk : answer = .ok () := by
            cases answered
            exact succeeded
          subst isOk
          change networkMachine.Ensures _ _ (world.withObjects
            (State.addFinalizer world.objects object.key
              controller.finalizer).objects)
          rw [inserted]
          apply Setting.Protected.bind
          apply Setting.Protected.mono _ (apply_ensures ?_)
          · rintro result after ⟨rfl, rfl⟩
            rw [← step]
            exact goesOn
          · intro item found
            exact (here.accepted item found).1
      | tearingDown =>
          have step : controller.serve world object =
              (controller.reverted world object).withObjects
                ((controller.reverted world object).objects.insert object.key
                  (object.letGoBy controller.finalizer)) := by
            simp only [serve, served, phase]
          apply Setting.Protected.bind
          apply Setting.Protected.mono _ (revert_ensures ?_)
          · rintro result after ⟨rfl, rfl⟩
            have stored : (controller.reverted world object).objects.lookup
                object.key = some object := by
              rw [lookup_reverted notStatus]
              exact here.stored
            obtain ⟨succeeded, inserted⟩ := State.removeFinalizer_of_lookup
              stored controller.finalizer
            apply ensures_op
            intro _ answer answered
            have isOk : answer = .ok () := by
              cases answered
              exact succeeded
            subst isOk
            change networkMachine.Ensures _ _
              ((controller.reverted world object).withObjects
                (State.removeFinalizer
                  (controller.reverted world object).objects object.key
                  controller.finalizer).objects)
            rw [inserted, ← step]
            exact goesOn
          · intro item found
            exact (here.accepted item found).2

theorem reconcile_ensures (typed : controller.Typed)
    (keyed : State.WellKeyed world.objects)
    (accepted : ∀ object,
      world.objects.lookup object.key = some object →
      object.key.ns = networkNs → object.key.typ = controller.typ →
      ∀ item, controller.item? object.spec = some item →
        world.kernel.Accepts (controller.add item) ∧
          world.kernel.Accepts (controller.del item)) :
    networkMachine.Ensures
      (fun result after => result = .ok () ∧
        ∃ listing : List ResourceObject,
          (listing : Multiset ResourceObject) =
            State.list world.objects networkNs controller.typ ∧
          after = listing.foldl controller.serve world)
      controller.reconcile world := by
  apply ensures_op
  intro listing answer answered
  obtain ⟨enumerates, same⟩ := Option.ite_none_right_eq_some.mp answered
  cases same
  apply Setting.Protected.mono _
    (handle_ensures typed (State.nodup_enumeration keyed enumerates) ?_)
  · rintro result after ⟨succeeded, folded⟩
    exact ⟨succeeded, listing, enumerates, folded⟩
  · intro object listed
    obtain ⟨stored, ofNs, ofType⟩ :=
      (State.mem_enumeration keyed enumerates).mp listed
    exact ⟨stored, ofType, accepted object stored ofNs ofType⟩

end SpecController

end MachinedRs
