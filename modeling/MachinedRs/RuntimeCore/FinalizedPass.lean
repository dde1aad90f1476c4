import MachinedRs.RuntimeCore.OwnedPass

/-!
# A consumer's pass without interference

`reconcileFinalized` over callbacks whose outcomes are fixed.  An input whose
object is stored and whose callback succeeds is held or let go; the first input
for which something fails ends the pass.
-/

namespace MachinedRs

open Foundation

namespace ResourceObject

/-- The object after `addFinalizer`. -/
def heldBy (finalizer : String) (object : ResourceObject) : ResourceObject :=
  if finalizer ∈ object.metadata.finalizers then
    object
  else
    (object.withFinalizers (object.metadata.finalizers ++ [finalizer])).bump

/-- The object after `removeFinalizer`. -/
def letGoBy (finalizer : String) (object : ResourceObject) : ResourceObject :=
  let kept := object.metadata.finalizers.filter (· ≠ finalizer)
  if kept.length ≠ object.metadata.finalizers.length then
    (object.withFinalizers kept).bump
  else
    object

end ResourceObject

theorem State.addFinalizer_of_lookup {objects : Objects} {key : Key}
    {object : ResourceObject} (stored : objects.lookup key = some object)
    (finalizer : String) :
    (State.addFinalizer objects key finalizer).result = .ok () ∧
      (State.addFinalizer objects key finalizer).objects =
        objects.insert key (object.heldBy finalizer) := by
  unfold ResourceObject.heldBy
  by_cases present : finalizer ∈ object.metadata.finalizers
  · simp [State.addFinalizer, stored, present, Commit.unchanged,
      insert_of_lookup stored]
  · simp [State.addFinalizer, stored, present, State.replace]

theorem State.removeFinalizer_of_lookup {objects : Objects} {key : Key}
    {object : ResourceObject} (stored : objects.lookup key = some object)
    (finalizer : String) :
    (State.removeFinalizer objects key finalizer).result = .ok () ∧
      (State.removeFinalizer objects key finalizer).objects =
        objects.insert key (object.letGoBy finalizer) := by
  unfold ResourceObject.letGoBy
  simp only [State.removeFinalizer, stored]
  split
  · exact ⟨rfl, rfl⟩
  · exact ⟨rfl, (insert_of_lookup stored).symm⟩

/-- The callback a pass invokes for an object. -/
def ResourceObject.callback (object : ResourceObject) : Callback :=
  match object.metadata.phase with
  | .running => .apply object
  | .tearingDown => .revert object

/-- What a pass leaves of the stored object for a listed one. -/
def ResourceObject.servedBy (finalizer : String)
    (object stored : ResourceObject) : ResourceObject :=
  match object.metadata.phase with
  | .running => stored.heldBy finalizer
  | .tearingDown => stored.letGoBy finalizer

def Callback.object : Callback → ResourceObject
  | .apply object => object
  | .revert object => object

/-- The store, and the objects for which a callback was invoked. -/
structure ConsumerWorld where
  objects : Objects
  invoked : List ResourceObject

def ConsumerWorld.withObjects (objects : Objects) (world : ConsumerWorld) :
    ConsumerWorld :=
  { world with objects := objects }

/-- Callbacks that return what `outcome` says. -/
def callbackMachine (outcome : Callback → Result Unit) :
    Machine callbackSignature ConsumerWorld (List ResourceObject) :=
  { perform := fun world callback _ =>
      some (outcome callback,
        { world with invoked := world.invoked ++ [callback.object] }) }

def consumerMachine (outcome : Callback → Result Unit) :
    Machine consumerSignature ConsumerWorld (List ResourceObject) :=
  (storeMachine.zoom ConsumerWorld.objects ConsumerWorld.withObjects id).sum
    (callbackMachine outcome)

section Rules

variable {α : Type} {outcome : Callback → Result Unit}
  {post : α → ConsumerWorld → Prop} {world : ConsumerWorld}

theorem consumerMachine_total (outcome : Callback → Result Unit) :
    (consumerMachine outcome).Total :=
  storeBeside_total fun _ _ => ⟨[], _, _, rfl⟩

theorem consumer_op {operation : Op}
    {next : operation.Answer → Program consumerSignature α}
    (goesOn : ∀ listing answer,
      Op.answer? world.objects listing operation = some answer →
      (consumerMachine outcome).Ensures post (next answer)
        (world.withObjects (operation.after world.objects))) :
    (consumerMachine outcome).Ensures post (.call (.inl operation) next)
      world :=
  beside_op goesOn

theorem consumer_callback {callback : Callback}
    {next : Result Unit → Program consumerSignature α}
    (goesOn : (consumerMachine outcome).Ensures post (next (outcome callback))
      { world with invoked := world.invoked ++ [callback.object] }) :
    (consumerMachine outcome).Ensures post (.call (.inr callback) next)
      world := by
  apply beside_other
  rintro _ _ _ ⟨⟩
  exact goesOn

theorem consumer_wellKeyed (program : Program consumerSignature α)
    (keyed : State.WellKeyed world.objects) :
    (consumerMachine outcome).Ensures
      (fun _ after => State.WellKeyed after.objects) program world := by
  refine beside_wellKeyed (fun _ _ => rfl) ?_ program keyed
  rintro _ _ _ _ _ ⟨⟩
  rfl

end Rules

section Serving

variable (outcome : Callback → Result Unit) (finalizer : String)

/-- What a pass does about one input. -/
def serveInput (world : ConsumerWorld) (object : ResourceObject) :
    Result Unit × ConsumerWorld :=
  match object.metadata.phase with
  | .running =>
      let added := State.addFinalizer world.objects object.key finalizer
      match added.result with
      | .ok _ =>
          (outcome (.apply object),
            ⟨added.objects, world.invoked ++ [object]⟩)
      | .error error => (.error error, world.withObjects added.objects)
  | .tearingDown =>
      match outcome (.revert object) with
      | .ok _ =>
          let removed :=
            State.removeFinalizer world.objects object.key finalizer
          (removed.result, ⟨removed.objects, world.invoked ++ [object]⟩)
      | .error error =>
          (.error error, ⟨world.objects, world.invoked ++ [object]⟩)

/-- The pass ends with the first input that is not served. -/
def serveInputs : ConsumerWorld → List ResourceObject →
    Result Unit × ConsumerWorld
  | world, [] => (.ok (), world)
  | world, object :: inputs =>
      match serveInput outcome finalizer world object with
      | (.ok _, after) => serveInputs after inputs
      | (.error error, after) => (.error error, after)

theorem reconcileFinalized_ensures (inputs : List ResourceObject)
    (world : ConsumerWorld) :
    (consumerMachine outcome).Ensures
      (fun result after =>
        (result, after) = serveInputs outcome finalizer world inputs)
      (reconcileFinalized finalizer inputs) world := by
  induction inputs generalizing world with
  | nil => exact Machine.done trivial rfl
  | cons object inputs induction =>
      simp only [serveInputs, serveInput, reconcileFinalized]
      cases phase : object.metadata.phase with
      | running =>
          apply consumer_op
          intro _ added answered
          cases answered
          dsimp only
          cases (State.addFinalizer world.objects object.key
              finalizer).result with
          | error error => exact Machine.done trivial rfl
          | ok _ =>
              apply consumer_callback
              cases outcome (.apply object) with
              | error error => exact Machine.done trivial rfl
              | ok _ => exact induction _
      | tearingDown =>
          apply consumer_callback
          dsimp only
          cases outcome (.revert object) with
          | error error => exact Machine.done trivial rfl
          | ok _ =>
              apply consumer_op
              intro _ removed answered
              cases answered
              dsimp only
              cases (State.removeFinalizer world.objects object.key
                  finalizer).result with
              | error error => exact Machine.done trivial rfl
              | ok _ => exact induction _

end Serving

/-- The object is stored, and its callback succeeds. -/
def Servable (outcome : Callback → Result Unit) (objects : Objects)
    (object : ResourceObject) : Prop :=
  objects.lookup object.key ≠ none ∧ outcome object.callback = .ok ()

/-- The object was listed as running and is no longer stored: the pass fails
before its callback. -/
def Vanished (objects : Objects) (object : ResourceObject) : Prop :=
  object.metadata.phase = .running ∧ objects.lookup object.key = none

section Outcomes

variable {outcome : Callback → Result Unit} {finalizer : String}
  {world : ConsumerWorld} {object : ResourceObject}

theorem State.addFinalizer_of_absent {objects : Objects} {key : Key}
    (absent : objects.lookup key = none) (finalizer : String) :
    State.addFinalizer objects key finalizer =
      .unchanged objects (.error (.notFound key)) := by
  rw [State.addFinalizer, absent]

theorem State.removeFinalizer_of_absent {objects : Objects} {key : Key}
    (absent : objects.lookup key = none) (finalizer : String) :
    State.removeFinalizer objects key finalizer =
      .unchanged objects (.error (.notFound key)) := by
  rw [State.removeFinalizer, absent]

theorem serveInput_of_servable {stored : ResourceObject}
    (found : world.objects.lookup object.key = some stored)
    (succeeds : outcome object.callback = .ok ()) :
    serveInput outcome finalizer world object =
      (.ok (), ⟨world.objects.insert object.key
        (object.servedBy finalizer stored), world.invoked ++ [object]⟩) := by
  unfold serveInput
  unfold ResourceObject.callback at succeeds
  unfold ResourceObject.servedBy
  cases phase : object.metadata.phase with
  | running =>
      obtain ⟨result, objects⟩ :=
        State.addFinalizer_of_lookup found finalizer
      rw [phase] at succeeds
      simp only [result, objects, succeeds]
  | tearingDown =>
      obtain ⟨result, objects⟩ :=
        State.removeFinalizer_of_lookup found finalizer
      rw [phase] at succeeds
      simp only [result, objects, succeeds]

theorem serveInput_of_vanished (vanished : Vanished world.objects object) :
    serveInput outcome finalizer world object =
      (.error (.notFound object.key), world) := by
  obtain ⟨phase, absent⟩ := vanished
  simp only [serveInput, phase, State.addFinalizer_of_absent absent]
  rfl

theorem serveInput_invoked (present : ¬ Vanished world.objects object) :
    (serveInput outcome finalizer world object).2.invoked =
      world.invoked ++ [object] := by
  unfold serveInput
  cases phase : object.metadata.phase with
  | running =>
      cases found : world.objects.lookup object.key with
      | none => exact absurd ⟨phase, found⟩ present
      | some stored =>
          obtain ⟨result, _⟩ := State.addFinalizer_of_lookup found finalizer
          simp only [result]
  | tearingDown =>
      dsimp only
      split
      · rfl
      · rfl

theorem serveInput_error
    (fails : ¬ Servable outcome world.objects object) :
    ∃ error, (serveInput outcome finalizer world object).1 =
      .error error := by
  unfold serveInput
  unfold Servable ResourceObject.callback at fails
  cases phase : object.metadata.phase with
  | running =>
      cases found : world.objects.lookup object.key with
      | none =>
          simp only [State.addFinalizer_of_absent found]
          exact ⟨_, rfl⟩
      | some stored =>
          obtain ⟨result, _⟩ := State.addFinalizer_of_lookup found finalizer
          simp only [result]
          cases returned : outcome (.apply object) with
          | error error => exact ⟨error, rfl⟩
          | ok _ =>
              rw [phase, found] at fails
              exact absurd ⟨nofun, returned⟩ fails
  | tearingDown =>
      dsimp only
      cases returned : outcome (.revert object) with
      | error error => exact ⟨error, rfl⟩
      | ok _ =>
          cases found : world.objects.lookup object.key with
          | none =>
              simp only [State.removeFinalizer_of_absent found]
              exact ⟨_, rfl⟩
          | some stored =>
              rw [phase, found] at fails
              exact absurd ⟨nofun, returned⟩ fails

theorem serveInputs_of_error {inputs : List ResourceObject}
    (fails : ¬ Servable outcome world.objects object) :
    (serveInputs outcome finalizer world (object :: inputs)).2 =
      (serveInput outcome finalizer world object).2 := by
  obtain ⟨error, failed⟩ := serveInput_error fails
  rw [serveInputs]
  split
  · rename_i after served
    rw [served] at failed
    cases failed
  · rename_i served
    rw [served]

theorem invoked_subset (inputs : List ResourceObject) (world : ConsumerWorld) :
    world.invoked ⊆ (serveInputs outcome finalizer world inputs).2.invoked := by
  induction inputs generalizing world with
  | nil => exact List.Subset.refl _
  | cons object inputs induction =>
      have here : world.invoked ⊆
          (serveInput outcome finalizer world object).2.invoked := by
        by_cases vanished : Vanished world.objects object
        · rw [serveInput_of_vanished vanished]
          exact List.Subset.refl _
        · rw [serveInput_invoked vanished]
          exact List.subset_append_left _ _
      rw [serveInputs]
      split
      · rename_i after served
        rw [served] at here
        exact List.Subset.trans here (induction after)
      · rename_i served
        rw [served] at here
        exact here

theorem serveInputs_of_servable (finalizer : String) (world : ConsumerWorld)
    {inputs : List ResourceObject}
    (servable : ∀ object ∈ inputs, Servable outcome world.objects object)
    (distinct : (inputs.map ResourceObject.key).Nodup) :
    ∃ after, serveInputs outcome finalizer world inputs =
        (.ok (), ⟨after, world.invoked ++ inputs⟩) ∧
      (∀ object ∈ inputs, after.lookup object.key =
        (world.objects.lookup object.key).map
          (object.servedBy finalizer)) ∧
      ∀ key, key ∉ inputs.map ResourceObject.key →
        after.lookup key = world.objects.lookup key := by
  induction inputs generalizing world with
  | nil =>
      refine ⟨world.objects, ?_, ?_, fun _ _ => rfl⟩
      · rw [serveInputs, List.append_nil]
      · intro object member
        cases member
  | cons object inputs induction =>
      rw [List.map_cons, List.nodup_cons] at distinct
      obtain ⟨isStored, succeeds⟩ := servable object List.mem_cons_self
      obtain ⟨stored, found⟩ := Option.ne_none_iff_exists'.mp isStored
      let middle : ConsumerWorld :=
        ⟨world.objects.insert object.key (object.servedBy finalizer stored),
          world.invoked ++ [object]⟩
      have elsewhere : ∀ key, key ≠ object.key →
          middle.objects.lookup key = world.objects.lookup key :=
        fun key different => Finmap.lookup_insert_of_ne _ different
      have apart : ∀ other ∈ inputs, other.key ≠ object.key := by
        intro other member same
        apply distinct.1
        rw [← same]
        exact List.mem_map_of_mem member
      have remaining : ∀ other ∈ inputs,
          Servable outcome middle.objects other := by
        intro other member
        obtain ⟨otherStored, otherSucceeds⟩ :=
          servable other (List.mem_cons_of_mem object member)
        refine ⟨?_, otherSucceeds⟩
        rwa [elsewhere other.key (apart other member)]
      obtain ⟨after, served, here, outside⟩ :=
        induction middle remaining distinct.2
      refine ⟨after, ?_, ?_, ?_⟩
      · rw [serveInputs, serveInput_of_servable found succeeds]
        exact served.trans (by rw [List.append_assoc]; rfl)
      · intro other member
        rcases List.mem_cons.mp member with rfl | later
        · rw [outside other.key distinct.1, found]
          exact Finmap.lookup_insert _
        · rw [here other later, elsewhere other.key (apart other later)]
      · intro key absent
        rw [List.map_cons, List.mem_cons, not_or] at absent
        rw [outside key absent.2, elsewhere key absent.1]

end Outcomes

/-- A consumer lists the objects of a type and serves them. -/
def consumerPass (finalizer ns : String) (typ : ResourceType) :
    Program consumerSignature (Result Unit) :=
  .call (.inl (.list ns typ)) fun inputs => reconcileFinalized finalizer inputs

/-- A pass whose callbacks succeed serves every object of its type and touches
no other. -/
theorem consumerPass_ensures (finalizer ns : String) (typ : ResourceType)
    {world : ConsumerWorld} (keyed : State.WellKeyed world.objects) :
    (consumerMachine fun _ => .ok ()).Ensures
      (fun result after => result = .ok () ∧
        ∀ key, after.objects.lookup key =
          if key.ns = ns ∧ key.typ = typ then
            (world.objects.lookup key).map fun object =>
              object.servedBy finalizer object
          else
            world.objects.lookup key)
      (consumerPass finalizer ns typ) world := by
  apply consumer_op
  intro listing answer answered
  obtain ⟨enumerates, same⟩ := Option.ite_none_right_eq_some.mp answered
  cases same
  have member : ∀ object, object ∈ listing ↔
      world.objects.lookup object.key = some object ∧
        object.key.ns = ns ∧ object.key.typ = typ :=
    fun _ => State.mem_enumeration keyed enumerates
  have distinct := State.nodup_enumeration keyed enumerates
  have servable : ∀ object ∈ listing,
      Servable (fun _ => .ok ()) world.objects object := by
    intro object listed
    refine ⟨?_, rfl⟩
    rw [((member object).mp listed).1]
    nofun
  obtain ⟨after, served, here, outside⟩ :=
    serveInputs_of_servable finalizer world servable distinct
  apply Setting.Protected.mono _
    (reconcileFinalized_ensures (fun _ => .ok ()) finalizer listing world)
  intro result final effect
  rw [served] at effect
  cases effect
  refine ⟨rfl, ?_⟩
  intro key
  cases stored : world.objects.lookup key with
  | none =>
      have absent : key ∉ listing.map ResourceObject.key := by
        intro listed
        obtain ⟨object, objectListed, rfl⟩ := List.mem_map.mp listed
        rw [((member object).mp objectListed).1] at stored
        cases stored
      rw [outside key absent, stored, Option.map_none, ite_self]
  | some object =>
      have same := keyed key object stored
      subst same
      split
      · rename_i ofType
        rw [here object ((member object).mpr ⟨stored, ofType⟩), stored]
        rfl
      · rename_i other
        rw [outside object.key, stored]
        intro listed
        obtain ⟨listedObject, isListed, sameKey⟩ := List.mem_map.mp listed
        rw [← sameKey] at other
        exact other ((member listedObject).mp isListed).2

end MachinedRs
