import MachinedRs.Foundation.Custody
import MachinedRs.Network.SpecController

/-!
# The network as slots

The specs of one type, the statuses over them and their effects in the kernel
are read as one slot per id: `NetworkConfigController` is the owner of every
slot, the controller of the type is its consumer.  A pass of the config
controller asks in every slot for what the config wants there, and a pass of the
other controller serves every slot.
-/

namespace MachinedRs

open Foundation Network

/-- A controller of specs together with how its effects are read: which items
the kernel has, under which id an item is published, and which objects a config
asks for. -/
structure SlotConsumer (Item : Type) extends SpecController Item where
  holds : FakeState → Item → Prop
  ident : Item → String
  desired : Provider → List ResourceObject
  typed : toSpecController.Typed
  desired_mem : ∀ provider, (typ, desired provider) ∈ provider.desired
  status_foreign : ∀ provider : Provider,
    statusTyp ∉ provider.desired.map Prod.fst
  desired_item : ∀ provider, ∀ object ∈ desired provider,
    object.metadata.finalizers = [] ∧
      ∃ item, item? object.spec = some item ∧
        object.metadata.id = ident item
  item_inj : ∀ {one other : Resource} {item : Item},
    item? one = some item → item? other = some item → one = other
  del_accepted : ∀ (kernel : FakeState) (item : Item),
    kernel.Accepts (del item)
  holds_add : ∀ {kernel : FakeState} {item : Item},
    kernel.Accepts (add item) → ∀ other,
      holds (kernel.after (add item)) other ↔
        other = item ∨ holds kernel other
  holds_del : ∀ (kernel : FakeState) (item other : Item),
    holds (kernel.after (del item)) other ↔
      other ≠ item ∧ holds kernel other
  add_held : ∀ {kernel : FakeState} {item : Item}, holds kernel item →
    kernel.after (add item) = kernel

namespace SlotConsumer

variable {Item : Type} (consumer : SlotConsumer Item)

def specKey (id : String) : Key :=
  ⟨networkNs, consumer.typ, id⟩

def statusKey (id : String) : Key :=
  ⟨networkNs, consumer.statusTyp, id⟩

/-- How far an item has come, by its phase and whether the consumer holds it. -/
def stage (phase : Phase) (held : Bool) (item : Item) : Custody Item :=
  match phase, held with
  | .running, false => .asked item
  | .running, true => .held item
  | .tearingDown, true => .dismissed item
  | .tearingDown, false => .released item

def stageOf : Option ResourceObject → Custody Item
  | none => .absent
  | some object =>
      match consumer.item? object.spec with
      | none => .absent
      | some item =>
          stage object.metadata.phase
            (consumer.finalizer ∈ object.metadata.finalizers) item

/-- The world as seen from one id. -/
def slotOf (world : NetworkWorld) (id : String) :
    Foundation.Slot Item Resource :=
  { stage := consumer.stageOf (world.objects.lookup (consumer.specKey id))
    applied := {item | consumer.holds world.kernel item ∧
      consumer.ident item = id}
    shown := (world.objects.lookup (consumer.statusKey id)).map
      ResourceObject.spec }

/-- What the config wants under an id. -/
def wanted (provider : Provider) (id : String) : Option Item :=
  (lastDesired (consumer.desired provider) (consumer.specKey id)).bind
    fun object => consumer.item? object.spec

/-- A spec that the config controller has published under this id, held by
nobody but the consumer. -/
structure SoundSpec (id : String) (object : ResourceObject) : Prop where
  owned : object.metadata.owner = some NetworkConfigController.owner
  finalizers : object.metadata.finalizers = [] ∨
    object.metadata.finalizers = [consumer.finalizer]
  item : ∃ item, consumer.item? object.spec = some item ∧
    consumer.ident item = id

structure Sound (world : NetworkWorld) : Prop where
  keyed : State.WellKeyed world.objects
  specs : ∀ id object,
    world.objects.lookup (consumer.specKey id) = some object →
    consumer.SoundSpec id object
  statuses : ∀ id object,
    world.objects.lookup (consumer.statusKey id) = some object →
    object.metadata.finalizers = []

variable {consumer} {world : NetworkWorld} {object : ResourceObject}
  {id : String}

theorem stageOf_some {item : Item}
    (found : consumer.item? object.spec = some item) :
    consumer.stageOf (some object) =
      stage object.metadata.phase
        (consumer.finalizer ∈ object.metadata.finalizers) item := by
  simp only [stageOf, found]

theorem Sound.key_of_lookup (sound : consumer.Sound world)
    (stored : world.objects.lookup (consumer.specKey id) = some object) :
    object.key = consumer.specKey id :=
  sound.keyed _ object stored

theorem specKey_injective {other : String}
    (same : consumer.specKey id = consumer.specKey other) : id = other :=
  congrArg Key.id same

theorem statusKey_ne_specKey (other : String) :
    consumer.statusKey id ≠ consumer.specKey other := by
  intro same
  exact consumer.typed.apart (congrArg Key.typ same).symm

section Asking

variable {provider : Provider}

theorem desired_key (member : object ∈ consumer.desired provider) :
    object.key = consumer.specKey object.metadata.id := by
  have ofType : object.key.ns = networkNs ∧ object.key.typ = consumer.typ :=
    provider.desired_ofType _ (consumer.desired_mem provider) object member
  rw [specKey, ← ofType.1, ← ofType.2]
  rfl

theorem desired_released :
    ∀ object ∈ consumer.desired provider,
      object.metadata.finalizers = [] := by
  intro object member
  exact (consumer.desired_item provider object member).1

/-- A wanted item belongs under the id it is wanted at. -/
theorem exists_of_wanted {item : Item}
    (isWanted : consumer.wanted provider id = some item) :
    ∃ object ∈ consumer.desired provider,
      lastDesired (consumer.desired provider) (consumer.specKey id) =
        some object ∧
      object.key = consumer.specKey id ∧
      consumer.item? object.spec = some item ∧ consumer.ident item = id := by
  obtain ⟨last, isLast, found⟩ := Option.bind_eq_some_iff.mp isWanted
  obtain ⟨member, sameKey⟩ := lastDesired_mem isLast
  obtain ⟨_, other, otherFound, sameId⟩ :=
    consumer.desired_item provider last member
  rw [found] at otherFound
  cases otherFound
  have lastId : last.metadata.id = id := congrArg Key.id sameKey
  exact ⟨last, member, isLast, sameKey, found, sameId.symm.trans lastId⟩

theorem wanted_eq_none
    (nothing : consumer.wanted provider id = none) :
    lastDesired (consumer.desired provider) (consumer.specKey id) = none := by
  cases last : lastDesired (consumer.desired provider)
      (consumer.specKey id) with
  | none => rfl
  | some object =>
      obtain ⟨member, _⟩ := lastDesired_mem last
      obtain ⟨_, item, found, _⟩ :=
        consumer.desired_item provider object member
      rw [wanted, last, Option.bind_some, found] at nothing
      cases nothing

/-- If the config does not contradict itself, what it wants under an id is what
it desires there. -/
theorem wanted_iff (agreeing : Agreeing (consumer.desired provider))
    {item : Item} :
    consumer.wanted provider id = some item ↔
      ∃ object ∈ consumer.desired provider, object.metadata.id = id ∧
        consumer.item? object.spec = some item := by
  constructor
  · intro isWanted
    obtain ⟨object, member, _, sameKey, found, _⟩ := exists_of_wanted isWanted
    exact ⟨object, member, congrArg Key.id sameKey, found⟩
  · rintro ⟨object, member, rfl, found⟩
    cases isWanted : consumer.wanted provider object.metadata.id with
    | none =>
        have absent := lastDesired_eq_none (wanted_eq_none isWanted)
        rw [← desired_key member] at absent
        exact absurd (List.mem_map_of_mem member) absent
    | some other =>
        obtain ⟨last, lastMember, _, lastKey, lastFound, _⟩ :=
          exists_of_wanted isWanted
        have sameSpec := agreeing last lastMember object member
          (lastKey.trans (desired_key member).symm)
        rw [sameSpec, found] at lastFound
        exact lastFound.symm

/-- What a pass of the config controller leaves under an id at which it wants
an item. -/
theorem reconciledAt_of_wanted (sound : consumer.Sound world) {item : Item}
    (isWanted : consumer.wanted provider id = some item) :
    ∃ object,
      reconciledAt NetworkConfigController.owner (consumer.desired provider)
        (consumer.specKey id) (world.objects.lookup (consumer.specKey id)) =
        some object ∧
      consumer.item? object.spec = some item ∧
      object.custody =
        ((world.objects.lookup (consumer.specKey id)).map
          ResourceObject.custody).getD
            (some NetworkConfigController.owner, [], .running) := by
  obtain ⟨last, member, isLast, sameKey, found, _⟩ :=
    exists_of_wanted isWanted
  have upserted : reconciledAt NetworkConfigController.owner
      (consumer.desired provider) last.key
        (world.objects.lookup last.key) = _ :=
    reconciledAt_of_mem sound.keyed member
  rw [sameKey] at upserted
  have spec := lookup_upsertAll_spec NetworkConfigController.owner
    world.objects (consumer.desired provider) (consumer.specKey id)
  rw [lookup_upsertAll, isLast] at spec
  obtain ⟨object, left, sameSpec⟩ := Option.map_eq_some_iff.mp spec
  have listed : consumer.specKey id ∈
      (consumer.desired provider).map ResourceObject.key := by
    rw [← sameKey]
    exact List.mem_map_of_mem member
  have custody : (upsertedAt NetworkConfigController.owner
      (consumer.desired provider) (consumer.specKey id)
        (world.objects.lookup (consumer.specKey id))).map
          ResourceObject.custody = _ :=
    upsertedAt_custody desired_released listed _
  rw [left] at custody
  rw [left] at upserted
  refine ⟨object, upserted, ?_, Option.some.inj custody⟩
  rw [sameSpec]
  exact found

/-- What it leaves under an id at which it wants nothing. -/
theorem reconciledAt_of_unwanted (sound : consumer.Sound world)
    (nothing : consumer.wanted provider id = none) :
    reconciledAt NetworkConfigController.owner (consumer.desired provider)
        (consumer.specKey id) (world.objects.lookup (consumer.specKey id)) =
      (world.objects.lookup (consumer.specKey id)).bind fun object =>
        if object.metadata.finalizers.isEmpty then none
        else some object.tornDown := by
  have absent := lastDesired_eq_none (wanted_eq_none nothing)
  rw [reconciledAt, upsertedAt_of_notMem absent]
  cases stored : world.objects.lookup (consumer.specKey id) with
  | none => rfl
  | some object =>
      have owned := (sound.specs id object stored).owned
      have undesired : object.metadata.id ∉
          (consumer.desired provider).map fun object => object.metadata.id := by
        intro member
        obtain ⟨other, isDesired, sameId⟩ := List.mem_map.mp member
        apply absent
        have sameKey : other.key = consumer.specKey id := by
          have objectId : object.metadata.id = id :=
            congrArg Key.id (sound.key_of_lookup stored)
          rw [desired_key isDesired, sameId, objectId]
        rw [← sameKey]
        exact List.mem_map_of_mem isDesired
      rw [Option.bind_some, Option.bind_some, collected,
        if_pos ⟨owned, undesired⟩]

theorem stage_ask (phase : Phase) (held : Bool) (item other : Item) :
    (stage phase held item).ask (some other) = stage phase held other := by
  cases phase <;> cases held <;> rfl

/-- Asking, as seen from one id. -/
theorem stageOf_reconciledAt (sound : consumer.Sound world) :
    consumer.stageOf
        (reconciledAt NetworkConfigController.owner
          (consumer.desired provider) (consumer.specKey id)
          (world.objects.lookup (consumer.specKey id))) =
      (consumer.stageOf (world.objects.lookup (consumer.specKey id))).ask
        (consumer.wanted provider id) := by
  cases isWanted : consumer.wanted provider id with
  | none =>
      rw [reconciledAt_of_unwanted sound isWanted]
      cases stored : world.objects.lookup (consumer.specKey id) with
      | none => rfl
      | some object =>
          obtain ⟨_, finalizers, item, found, _⟩ := sound.specs id object stored
          rw [Option.bind_some, stageOf_some found]
          rcases finalizers with free | held
          · rw [free]
            cases object.metadata.phase <;> simp [stage, stageOf, Custody.ask]
          · have torn : consumer.stageOf (some object.tornDown) =
                .dismissed item := by
              have sameSpec : object.tornDown.spec = object.spec := by
                unfold ResourceObject.tornDown
                split
                · rfl
                · rfl
              rw [← sameSpec] at found
              rw [stageOf_some found, tornDown_phase,
                object.tornDown_finalizers, held]
              simp [stage]
            rw [held, if_neg (by simp), torn]
            cases object.metadata.phase <;> simp [stage, Custody.ask]
  | some item =>
      obtain ⟨object, left, found, custody⟩ :=
        reconciledAt_of_wanted sound isWanted
      rw [left, stageOf_some found]
      cases stored : world.objects.lookup (consumer.specKey id) with
      | none =>
          rw [stored] at custody
          injection custody with _ rest
          injection rest with free running
          rw [free, running]
          simp [stage, stageOf, Custody.ask]
      | some old =>
          rw [stored] at custody
          injection custody with _ rest
          injection rest with sameFinalizers samePhase
          obtain ⟨_, _, oldItem, oldFound, _⟩ := sound.specs id old stored
          rw [stageOf_some oldFound, sameFinalizers, samePhase]
          exact (stage_ask _ _ oldItem item).symm

theorem soundSpec_reconciledAt (sound : consumer.Sound world)
    (left : reconciledAt NetworkConfigController.owner
      (consumer.desired provider) (consumer.specKey id)
        (world.objects.lookup (consumer.specKey id)) = some object) :
    consumer.SoundSpec id object := by
  cases isWanted : consumer.wanted provider id with
  | none =>
      rw [reconciledAt_of_unwanted sound isWanted] at left
      obtain ⟨old, stored, torn⟩ := Option.bind_eq_some_iff.mp left
      obtain ⟨owned, finalizers, item⟩ := sound.specs id old stored
      split at torn
      · cases torn
      · cases torn
        unfold ResourceObject.tornDown
        split
        · exact ⟨owned, finalizers, item⟩
        · exact ⟨owned, finalizers, item⟩
  | some item =>
      obtain ⟨result, same, found, custody⟩ :=
        reconciledAt_of_wanted sound isWanted
      rw [left] at same
      cases same
      obtain ⟨_, _, _, _, _, named⟩ := exists_of_wanted isWanted
      cases stored : world.objects.lookup (consumer.specKey id) with
      | none =>
          rw [stored] at custody
          injection custody with owned rest
          injection rest with free _
          exact ⟨owned, .inl free, item, found, named⟩
      | some old =>
          rw [stored] at custody
          injection custody with sameOwner rest
          injection rest with sameFinalizers _
          obtain ⟨owned, finalizers, _⟩ := sound.specs id old stored
          refine ⟨sameOwner.trans owned, ?_, item, found, named⟩
          rw [sameFinalizers]
          exact finalizers

/-- What a pass of the config controller leaves of the specs and the
statuses. -/
theorem config_lookups (keyed : State.WellKeyed world.objects) :
    networkMachine.Ensures
      (fun _ after => State.WellKeyed after.objects ∧
        after.kernel = world.kernel ∧
        (∀ id, after.objects.lookup (consumer.specKey id) =
          reconciledAt NetworkConfigController.owner
            (consumer.desired provider) (consumer.specKey id)
            (world.objects.lookup (consumer.specKey id))) ∧
        ∀ id, after.objects.lookup (consumer.statusKey id) =
          world.objects.lookup (consumer.statusKey id))
      (NetworkConfigController.reconcile provider).inl world := by
  apply ensures_inl
  apply Setting.Protected.mono _
    (reconcileEach_ensures keyed provider.desired_types_nodup
      provider.desired_ofType)
  rintro result objects ⟨_, afterKeyed, lookup, outside⟩
  refine ⟨afterKeyed, rfl, ?_, ?_⟩
  · intro id
    exact lookup _ (consumer.desired_mem provider) id
  · intro id
    apply outside
    intro inside
    exact consumer.status_foreign provider inside.2

/-- A pass of the config controller asks in every slot for what the config wants
there. -/
theorem config_slots (sound : consumer.Sound world) :
    networkMachine.Ensures
      (fun _ after => consumer.Sound after ∧
        after.kernel = world.kernel ∧
        ∀ id, consumer.slotOf after id =
          (consumer.slotOf world id).ask (consumer.wanted provider id))
      (NetworkConfigController.reconcile provider).inl world := by
  apply Setting.Protected.mono _
    (@config_lookups Item consumer world provider sound.keyed)
  rintro result after ⟨keyed, sameKernel, specs, statuses⟩
  refine ⟨⟨keyed, ?_, ?_⟩, sameKernel, ?_⟩
  · intro id object stored
    rw [specs] at stored
    exact soundSpec_reconciledAt sound stored
  · intro id object stored
    rw [statuses] at stored
    exact sound.statuses id object stored
  · intro id
    rw [slotOf, specs, stageOf_reconciledAt sound, statuses, sameKernel]
    rfl

end Asking

section Serving

theorem heldBy_custody (finalizer : String) (object : ResourceObject)
    (finalizers : object.metadata.finalizers = [] ∨
      object.metadata.finalizers = [finalizer]) :
    (object.heldBy finalizer).custody =
      (object.metadata.owner, [finalizer], object.metadata.phase) := by
  rcases finalizers with free | held
  · simp [ResourceObject.heldBy, ResourceObject.custody, free,
      ResourceObject.withFinalizers, ResourceObject.bump]
  · simp [ResourceObject.heldBy, ResourceObject.custody, held]

theorem letGoBy_custody (finalizer : String) (object : ResourceObject)
    (finalizers : object.metadata.finalizers = [] ∨
      object.metadata.finalizers = [finalizer]) :
    (object.letGoBy finalizer).custody =
      (object.metadata.owner, [], object.metadata.phase) := by
  rcases finalizers with free | held
  · simp [ResourceObject.letGoBy, ResourceObject.custody, free]
  · simp [ResourceObject.letGoBy, ResourceObject.custody, held,
      ResourceObject.withFinalizers, ResourceObject.bump]

/-- Serving an object changes who holds it, and nothing else. -/
theorem served_same (controller : SpecController Item)
    (object : ResourceObject) :
    (controller.served object).spec = object.spec ∧
      (controller.served object).key = object.key := by
  unfold SpecController.served
  split
  · unfold ResourceObject.heldBy
    split
    · exact ⟨rfl, rfl⟩
    · exact ⟨rfl, rfl⟩
  · unfold ResourceObject.letGoBy
    dsimp only
    split
    · exact ⟨rfl, rfl⟩
    · exact ⟨rfl, rfl⟩

theorem served_spec (controller : SpecController Item)
    (object : ResourceObject) :
    (controller.served object).spec = object.spec :=
  (served_same controller object).1

theorem shown_published (objects : Objects) (id : String) (spec : Resource) :
    ((published objects id spec).lookup
      ⟨networkNs, spec.resourceType, id⟩).map ResourceObject.spec =
        some spec := by
  simp only [published, Finmap.lookup_insert, Option.map_some]
  split
  · rfl
  · rfl

theorem lookup_withdrawn {objects : Objects} {typ : ResourceType}
    (free : ∀ object, objects.lookup ⟨networkNs, typ, id⟩ = some object →
      object.metadata.finalizers = []) :
    (withdrawn objects typ id).lookup ⟨networkNs, typ, id⟩ = none := by
  unfold withdrawn
  dsimp only
  split
  · rename_i object stored
    rw [free object stored]
    exact Finmap.lookup_erase _ _
  · assumption

/-- An object that is listed as a spec of the consumer. -/
structure Listed (consumer : SlotConsumer Item) (world : NetworkWorld)
    (object : ResourceObject) : Prop where
  stored : world.objects.lookup object.key = some object
  key : object.key = consumer.specKey object.metadata.id
  accepted : ∀ item, consumer.item? object.spec = some item →
    world.kernel.Accepts (consumer.add item)

theorem Listed.ready (listed : consumer.Listed world object) :
    consumer.Ready world object := by
  refine ⟨listed.stored, ?_, ?_⟩
  · rw [listed.key]
    rfl
  · intro item found
    exact ⟨listed.accepted item found, consumer.del_accepted _ item⟩

/-- What serving one object does to the statuses. -/
theorem lookup_serve_statusKey {item : Item}
    (found : consumer.item? object.spec = some item)
    (key : object.key = consumer.specKey object.metadata.id) (id : String) :
    (consumer.serve world object).objects.lookup (consumer.statusKey id) =
      match object.metadata.phase with
      | .running =>
          (published world.objects object.metadata.id
            (consumer.status item)).lookup (consumer.statusKey id)
      | .tearingDown =>
          (withdrawn world.objects consumer.statusTyp
            object.metadata.id).lookup (consumer.statusKey id) := by
  have other : consumer.statusKey id ≠ object.key := by
    rw [key]
    exact statusKey_ne_specKey _
  unfold SpecController.serve
  cases phase : object.metadata.phase with
  | running =>
      simp only [SpecController.applied, found, published,
        NetworkWorld.withObjects]
      have same : (world.objects.insert object.key
          (consumer.served object)).lookup ⟨networkNs,
            (consumer.status item).resourceType, object.metadata.id⟩ =
          world.objects.lookup ⟨networkNs,
            (consumer.status item).resourceType, object.metadata.id⟩ := by
        apply Finmap.lookup_insert_of_ne
        rw [consumer.typed.status, key]
        exact statusKey_ne_specKey _
      rw [same]
      by_cases here : consumer.statusKey id = ⟨networkNs,
          (consumer.status item).resourceType, object.metadata.id⟩
      · rw [here, Finmap.lookup_insert, Finmap.lookup_insert]
      · rw [Finmap.lookup_insert_of_ne _ here,
          Finmap.lookup_insert_of_ne _ here,
          Finmap.lookup_insert_of_ne _ other]
  | tearingDown =>
      simp only [SpecController.reverted, found, NetworkWorld.withObjects]
      exact Finmap.lookup_insert_of_ne _ other

theorem serve_kernel {item : Item}
    (found : consumer.item? object.spec = some item) :
    (consumer.serve world object).kernel =
      match object.metadata.phase with
      | .running => world.kernel.after (consumer.add item)
      | .tearingDown => world.kernel.after (consumer.del item) := by
  unfold SpecController.serve
  cases object.metadata.phase with
  | running => simp only [SpecController.applied, found,
      NetworkWorld.withObjects]
  | tearingDown => simp only [SpecController.reverted, found,
      NetworkWorld.withObjects]

/-- Serving an object keeps the other specs as they are. -/
theorem lookup_serve_specKey (listed : consumer.Listed world object)
    (other : object.metadata.id ≠ id) :
    (consumer.serve world object).objects.lookup (consumer.specKey id) =
      world.objects.lookup (consumer.specKey id) := by
  apply SpecController.lookup_serve_of_ne consumer.typed
  · rw [listed.key]
    intro same
    exact other (specKey_injective same).symm
  · exact consumer.typed.apart

theorem lookup_serve_listed (listed : consumer.Listed world object) :
    (consumer.serve world object).objects.lookup
        (consumer.specKey object.metadata.id) =
      some (consumer.served object) := by
  rw [← listed.key]
  exact SpecController.lookup_serve_self consumer.typed listed.ready.typed

/-- Seen from another id, serving an object changes nothing. -/
theorem slotOf_serve_of_ne (sound : consumer.Sound world)
    (listed : consumer.Listed world object)
    (other : object.metadata.id ≠ id) :
    consumer.slotOf (consumer.serve world object) id =
      consumer.slotOf world id := by
  have stored := listed.stored
  rw [listed.key] at stored
  obtain ⟨_, _, item, found, named⟩ := sound.specs _ object stored
  have elsewhere : consumer.statusKey id ≠
      consumer.statusKey object.metadata.id := by
    intro same
    exact other (congrArg Key.id same).symm
  have foreign : ∀ entry, consumer.ident entry = id → entry ≠ item := by
    rintro entry isHere rfl
    exact other (named.symm.trans isHere)
  have sameStatus : (consumer.serve world object).objects.lookup
      (consumer.statusKey id) =
      world.objects.lookup (consumer.statusKey id) := by
    rw [lookup_serve_statusKey found listed.key]
    split
    · apply lookup_published_of_ne
      rw [consumer.typed.status]
      exact elsewhere
    · exact lookup_withdrawn_of_ne elsewhere
  have sameApplied : ∀ entry, consumer.ident entry = id →
      (consumer.holds (consumer.serve world object).kernel entry ↔
        consumer.holds world.kernel entry) := by
    intro entry isHere
    have different := foreign entry isHere
    rw [serve_kernel found]
    split
    · rw [consumer.holds_add (listed.accepted item found)]
      simp [different]
    · rw [consumer.holds_del]
      simp [different]
  have applied : {entry | consumer.holds
        (consumer.serve world object).kernel entry ∧
        consumer.ident entry = id} =
      {entry | consumer.holds world.kernel entry ∧
        consumer.ident entry = id} := by
    ext entry
    constructor
    · rintro ⟨holds, isHere⟩
      exact ⟨(sameApplied entry isHere).mp holds, isHere⟩
    · rintro ⟨holds, isHere⟩
      exact ⟨(sameApplied entry isHere).mpr holds, isHere⟩
  rw [slotOf, slotOf, lookup_serve_specKey listed other, sameStatus, applied]

/-- Seen from its own id, serving an object serves the slot. -/
theorem slotOf_serve_self (sound : consumer.Sound world)
    (listed : consumer.Listed world object) :
    consumer.slotOf (consumer.serve world object) object.metadata.id =
      (consumer.slotOf world object.metadata.id).serve consumer.status := by
  have stored := listed.stored
  rw [listed.key] at stored
  obtain ⟨_, finalizers, item, found, named⟩ := sound.specs _ object stored
  have servedFound : consumer.item? (consumer.served object).spec =
      some item := by
    rw [served_spec]
    exact found
  have before : (consumer.slotOf world object.metadata.id).stage =
      stage object.metadata.phase
        (consumer.finalizer ∈ object.metadata.finalizers) item := by
    rw [slotOf, stored]
    exact stageOf_some found
  have after : (consumer.slotOf (consumer.serve world object)
      object.metadata.id).stage =
      stage (consumer.served object).metadata.phase
        (consumer.finalizer ∈
          (consumer.served object).metadata.finalizers) item := by
    rw [slotOf, lookup_serve_listed listed]
    exact stageOf_some servedFound
  cases phase : object.metadata.phase with
  | running =>
      have custody : (consumer.served object).custody =
          (object.metadata.owner, [consumer.finalizer], .running) := by
        rw [← phase, SpecController.served]
        simp only [phase]
        rw [← phase]
        exact heldBy_custody _ object finalizers
      injection custody with _ rest
      injection rest with held running
      have stageAfter : (consumer.slotOf (consumer.serve world object)
          object.metadata.id).stage = .held item := by
        rw [after, held, running]
        simp [stage]
      have shown : (consumer.slotOf (consumer.serve world object)
          object.metadata.id).shown = some (consumer.status item) := by
        rw [slotOf, lookup_serve_statusKey found listed.key, phase]
        have published := shown_published world.objects object.metadata.id
          (consumer.status item)
        rw [consumer.typed.status] at published
        exact published
      have applied : (consumer.slotOf (consumer.serve world object)
          object.metadata.id).applied =
          insert item (consumer.slotOf world object.metadata.id).applied := by
        ext entry
        simp only [slotOf, serve_kernel found, phase, Set.mem_ofPred_eq,
          Set.mem_insert_iff,
          consumer.holds_add (listed.accepted item found)]
        constructor
        · rintro ⟨same | holds, isHere⟩
          · exact .inl same
          · exact .inr ⟨holds, isHere⟩
        · rintro (rfl | ⟨holds, isHere⟩)
          · exact ⟨.inl rfl, named⟩
          · exact ⟨.inr holds, isHere⟩
      have served : (consumer.slotOf world object.metadata.id).serve
          consumer.status =
          { stage := .held item
            applied :=
              insert item (consumer.slotOf world object.metadata.id).applied
            shown := some (consumer.status item) } := by
        rw [Slot.serve, before, phase]
        cases decide (consumer.finalizer ∈ object.metadata.finalizers) <;> rfl
      rw [served, ← stageAfter, ← applied, ← shown]
  | tearingDown =>
      have custody : (consumer.served object).custody =
          (object.metadata.owner, [], .tearingDown) := by
        rw [← phase, SpecController.served]
        simp only [phase]
        rw [← phase]
        exact letGoBy_custody _ object finalizers
      injection custody with _ rest
      injection rest with free tearingDown
      have stageAfter : (consumer.slotOf (consumer.serve world object)
          object.metadata.id).stage = .released item := by
        rw [after, free, tearingDown]
        simp [stage]
      have shown : (consumer.slotOf (consumer.serve world object)
          object.metadata.id).shown = none := by
        rw [slotOf, lookup_serve_statusKey found listed.key, phase]
        have gone := lookup_withdrawn
          (sound.statuses object.metadata.id)
        exact congrArg (Option.map ResourceObject.spec) gone
      have applied : (consumer.slotOf (consumer.serve world object)
          object.metadata.id).applied =
          (consumer.slotOf world object.metadata.id).applied \ {item} := by
        ext entry
        simp only [slotOf, serve_kernel found, phase, Set.mem_ofPred_eq,
          Set.mem_sdiff, Set.mem_singleton_iff, consumer.holds_del]
        constructor
        · rintro ⟨⟨different, holds⟩, isHere⟩
          exact ⟨⟨holds, isHere⟩, different⟩
        · rintro ⟨⟨holds, isHere⟩, different⟩
          exact ⟨⟨different, holds⟩, isHere⟩
      have served : (consumer.slotOf world object.metadata.id).serve
          consumer.status =
          { stage := .released item
            applied :=
              (consumer.slotOf world object.metadata.id).applied \ {item}
            shown := none } := by
        rw [Slot.serve, before, phase]
        cases decide (consumer.finalizer ∈ object.metadata.finalizers) <;> rfl
      rw [served, ← stageAfter, ← applied, ← shown]

theorem soundSpec_served (spec : consumer.SoundSpec id object) :
    consumer.SoundSpec id (consumer.served object) := by
  obtain ⟨owned, finalizers, item, found, named⟩ := spec
  have servedFound : consumer.item? (consumer.served object).spec =
      some item := by
    rw [served_spec]
    exact found
  cases phase : object.metadata.phase with
  | running =>
      have same : consumer.served object =
          object.heldBy consumer.finalizer := by
        simp only [SpecController.served, phase]
      have custody := heldBy_custody _ object finalizers
      rw [← same] at custody
      injection custody with sameOwner rest
      injection rest with held _
      exact ⟨sameOwner.trans owned, .inr held, item, servedFound, named⟩
  | tearingDown =>
      have same : consumer.served object =
          object.letGoBy consumer.finalizer := by
        simp only [SpecController.served, phase]
      have custody := letGoBy_custody _ object finalizers
      rw [← same] at custody
      injection custody with sameOwner rest
      injection rest with free _
      exact ⟨sameOwner.trans owned, .inl free, item, servedFound, named⟩

theorem finalizers_published {objects : Objects} {other : String}
    {spec : Resource} {typ : ResourceType}
    (free : ∀ id object, objects.lookup ⟨networkNs, typ, id⟩ = some object →
      object.metadata.finalizers = [])
    (ofType : spec.resourceType = typ)
    (stored : (published objects other spec).lookup ⟨networkNs, typ, id⟩ =
      some object) :
    object.metadata.finalizers = [] := by
  subst ofType
  by_cases here : id = other
  · subst here
    simp only [published, Finmap.lookup_insert] at stored
    cases stored
    split
    · rename_i existing found
      exact free id existing found
    · rfl
  · rw [lookup_published_of_ne] at stored
    · exact free id object stored
    · intro same
      exact here (congrArg Key.id same)

theorem finalizers_withdrawn {objects : Objects} {other : String}
    {typ : ResourceType}
    (free : ∀ id object, objects.lookup ⟨networkNs, typ, id⟩ = some object →
      object.metadata.finalizers = [])
    (stored : (withdrawn objects typ other).lookup ⟨networkNs, typ, id⟩ =
      some object) :
    object.metadata.finalizers = [] := by
  by_cases here : id = other
  · subst here
    rw [lookup_withdrawn (free id)] at stored
    cases stored
  · rw [lookup_withdrawn_of_ne] at stored
    · exact free id object stored
    · intro same
      exact here (congrArg Key.id same)

theorem wellKeyed_insert {objects : Objects} {key : Key}
    (keyed : State.WellKeyed objects) (same : object.key = key) :
    State.WellKeyed (objects.insert key object) := by
  intro other left stored
  by_cases here : other = key
  · subst here
    rw [Finmap.lookup_insert] at stored
    cases stored
    exact same
  · rw [Finmap.lookup_insert_of_ne _ here] at stored
    exact keyed other left stored

theorem wellKeyed_published {objects : Objects}
    (keyed : State.WellKeyed objects) (id : String) (spec : Resource) :
    State.WellKeyed (published objects id spec) := by
  apply wellKeyed_insert keyed
  split
  · rename_i existing stored
    exact keyed _ existing stored
  · rfl

theorem wellKeyed_withdrawn {objects : Objects}
    (keyed : State.WellKeyed objects) (typ : ResourceType) (id : String) :
    State.WellKeyed (withdrawn objects typ id) := by
  intro key left stored
  by_cases here : key = ⟨networkNs, typ, id⟩
  · subst here
    unfold withdrawn at stored
    dsimp only at stored
    split at stored
    · split at stored
      · rw [Finmap.lookup_erase] at stored
        cases stored
      · exact keyed _ left stored
    · exact keyed _ left stored
  · rw [lookup_withdrawn_of_ne here] at stored
    exact keyed key left stored

theorem served_key (controller : SpecController Item)
    (object : ResourceObject) :
    (controller.served object).key = object.key :=
  (served_same controller object).2

theorem wellKeyed_serve (keyed : State.WellKeyed world.objects)
    (object : ResourceObject) :
    State.WellKeyed (consumer.serve world object).objects := by
  have inserted : ∀ {objects : Objects}, State.WellKeyed objects →
      State.WellKeyed
        (objects.insert object.key (consumer.served object)) :=
    fun keyed => wellKeyed_insert keyed (served_key _ object)
  unfold SpecController.serve
  split
  · unfold SpecController.applied
    split
    · exact inserted keyed
    · exact wellKeyed_published (inserted keyed) _ _
  · apply inserted
    unfold SpecController.reverted
    split
    · exact keyed
    · exact wellKeyed_withdrawn keyed _ _

theorem Sound.serve (sound : consumer.Sound world)
    (listed : consumer.Listed world object) :
    consumer.Sound (consumer.serve world object) := by
  have present := listed.stored
  rw [listed.key] at present
  have spec := sound.specs _ object present
  refine ⟨wellKeyed_serve sound.keyed object, ?_, ?_⟩
  · intro id left stored
    by_cases here : object.metadata.id = id
    · subst here
      rw [lookup_serve_listed listed] at stored
      cases stored
      exact soundSpec_served spec
    · rw [lookup_serve_specKey listed here] at stored
      exact sound.specs id left stored
  · intro id left stored
    obtain ⟨item, found, _⟩ := spec.item
    rw [lookup_serve_statusKey found listed.key] at stored
    split at stored
    · exact finalizers_published sound.statuses (consumer.typed.status item)
        stored
    · exact finalizers_withdrawn sound.statuses stored

theorem Listed.serve {other : ResourceObject}
    (listed : consumer.Listed world object)
    (different : object.key ≠ other.key) :
    consumer.Listed (consumer.serve world other) object := by
  have ready := listed.ready.serve consumer.typed different
  refine ⟨ready.stored, listed.key, ?_⟩
  intro item found
  exact (ready.accepted item found).1

/-- Serving the first object leaves the others listed. -/
theorem listed_tail {listing : List ResourceObject}
    (fresh : object.key ∉ listing.map ResourceObject.key)
    (listed : ∀ other ∈ object :: listing, consumer.Listed world other) :
    ∀ other ∈ listing,
      consumer.Listed (consumer.serve world object) other := by
  intro other member
  apply (listed other (List.mem_cons_of_mem _ member)).serve
  intro same
  apply fresh
  rw [← same]
  exact List.mem_map_of_mem member

/-- Serving all listed objects serves their slots. -/
theorem foldl_serve_slots {listing : List ResourceObject}
    (sound : consumer.Sound world)
    (distinct : (listing.map ResourceObject.key).Nodup)
    (listed : ∀ object ∈ listing, consumer.Listed world object) :
    consumer.Sound (listing.foldl consumer.serve world) ∧
      (listing.foldl consumer.serve world).kernel.links =
        world.kernel.links ∧
      ∀ id, consumer.slotOf (listing.foldl consumer.serve world) id =
        if consumer.specKey id ∈ listing.map ResourceObject.key then
          (consumer.slotOf world id).serve consumer.status
        else
          consumer.slotOf world id := by
  induction listing generalizing world with
  | nil => exact ⟨sound, rfl, fun _ => by simp⟩
  | cons object listing induction =>
      rw [List.map_cons, List.nodup_cons] at distinct
      have here := listed object List.mem_cons_self
      have rest := listed_tail distinct.1 listed
      obtain ⟨soundAfter, sameLinks, slots⟩ :=
        induction (sound.serve here) distinct.2 rest
      refine ⟨soundAfter, sameLinks.trans SpecController.serve_links, ?_⟩
      intro id
      rw [List.foldl_cons, slots id, List.map_cons]
      by_cases same : object.metadata.id = id
      · subst same
        have fresh : consumer.specKey object.metadata.id ∉
            listing.map ResourceObject.key := by
          rw [← here.key]
          exact distinct.1
        have head : consumer.specKey object.metadata.id ∈
            object.key :: listing.map ResourceObject.key := by
          rw [← here.key]
          exact List.mem_cons_self
        rw [if_neg fresh, if_pos head]
        exact slotOf_serve_self sound here
      · have other : consumer.specKey id ≠ object.key := by
          rw [here.key]
          intro equal
          exact same (specKey_injective equal).symm
        rw [slotOf_serve_of_ne sound here same]
        simp only [List.mem_cons, other, false_or]

end Serving

/-- The kernel accepts every item that is published. -/
def Accepting (consumer : SlotConsumer Item) (world : NetworkWorld) : Prop :=
  ∀ id item, (consumer.slotOf world id).stage.item? = some item →
    world.kernel.Accepts (consumer.add item)

theorem stage_item? (phase : Phase) (held : Bool) (item : Item) :
    (stage phase held item).item? = some item := by
  cases phase <;> cases held <;> rfl

theorem item?_slotOf {item : Item}
    (stored : world.objects.lookup (consumer.specKey id) = some object)
    (found : consumer.item? object.spec = some item) :
    (consumer.slotOf world id).stage.item? = some item := by
  rw [slotOf, stored]
  simp only [stageOf_some found, stage_item?]

/-- The objects a pass lists are the published specs. -/
theorem listed_of_mem (sound : consumer.Sound world)
    (accepting : consumer.Accepting world)
    {listing : List ResourceObject}
    (enumerates : (listing : Multiset ResourceObject) =
      State.list world.objects networkNs consumer.typ)
    (member : object ∈ listing) : consumer.Listed world object := by
  obtain ⟨stored, ofNs, ofTyp⟩ :=
    (State.mem_enumeration sound.keyed enumerates).mp member
  have key : object.key = consumer.specKey object.metadata.id := by
    rw [specKey, ← ofNs, ← ofTyp]
    rfl
  refine ⟨stored, key, ?_⟩
  intro item found
  rw [key] at stored
  exact accepting _ item (item?_slotOf stored found)

theorem specKey_mem_iff (sound : consumer.Sound world)
    {listing : List ResourceObject}
    (enumerates : (listing : Multiset ResourceObject) =
      State.list world.objects networkNs consumer.typ) :
    consumer.specKey id ∈ listing.map ResourceObject.key ↔
      ∃ object, world.objects.lookup (consumer.specKey id) = some object := by
  constructor
  · intro isListed
    obtain ⟨object, isMember, same⟩ := List.mem_map.mp isListed
    obtain ⟨stored, _⟩ :=
      (State.mem_enumeration sound.keyed enumerates).mp isMember
    rw [same] at stored
    exact ⟨object, stored⟩
  · rintro ⟨object, stored⟩
    have same := sound.key_of_lookup stored
    rw [← same]
    apply List.mem_map_of_mem
    apply (State.mem_enumeration sound.keyed enumerates).mpr
    rw [same]
    exact ⟨stored, rfl, rfl⟩

theorem reconcile_folds (sound : consumer.Sound world)
    (accepting : consumer.Accepting world) :
    networkMachine.Ensures
      (fun _ after => ∃ listing : List ResourceObject,
        (listing : Multiset ResourceObject) =
          State.list world.objects networkNs consumer.typ ∧
        after = listing.foldl consumer.serve world)
      consumer.reconcile world := by
  apply Setting.Protected.mono _
    (SpecController.reconcile_ensures consumer.typed sound.keyed ?_)
  · rintro result after ⟨_, folded⟩
    exact folded
  · intro object stored ofNs ofTyp item found
    have key : object.key = consumer.specKey object.metadata.id := by
      rw [specKey, ← ofNs, ← ofTyp]
      rfl
    rw [key] at stored
    exact ⟨accepting _ item (item?_slotOf stored found),
      consumer.del_accepted _ item⟩

/-- A pass of the consumer serves every slot. -/
theorem reconcile_slots (sound : consumer.Sound world)
    (accepting : consumer.Accepting world) :
    networkMachine.Ensures
      (fun _ after => consumer.Sound after ∧
        after.kernel.links = world.kernel.links ∧
        ∀ id, consumer.slotOf after id =
          (consumer.slotOf world id).serve consumer.status)
      consumer.reconcile world := by
  apply Setting.Protected.mono _ (reconcile_folds sound accepting)
  rintro result after ⟨listing, enumerates, rfl⟩
  have distinct := State.nodup_enumeration sound.keyed enumerates
  obtain ⟨soundAfter, sameLinks, slots⟩ := foldl_serve_slots sound distinct
    fun object member => listed_of_mem sound accepting enumerates member
  refine ⟨soundAfter, sameLinks, ?_⟩
  intro id
  rw [slots id]
  split
  case isTrue => rfl
  case isFalse unlisted =>
    rw [specKey_mem_iff sound enumerates] at unlisted
    cases stored : world.objects.lookup (consumer.specKey id) with
    | some object => exact absurd ⟨object, stored⟩ unlisted
    | none =>
        have absent : (consumer.slotOf world id).stage = .absent := by
          rw [slotOf, stored]
          rfl
        rw [Slot.serve, absent]

end SlotConsumer

end MachinedRs
