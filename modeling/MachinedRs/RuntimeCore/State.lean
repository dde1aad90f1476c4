import MachinedRs.Foundation.Program
import MachinedRs.Resources.Resource

/-!
# The resource store

The in-memory store with versioned compare-and-swap updates, finalizers, owner
references and teardown.  Every operation works under one lock and sends its
event, if any, after releasing it.  A `Commit` records both halves: the result
and the map left behind under the lock, and the events still to be sent.
-/

namespace MachinedRs

open Foundation

inductive Error where
  | notFound (key : Key)
  | alreadyExists (key : Key)
  | conflict (key : Key) (expected found : Nat)
  | hasFinalizers (key : Key)
  | controller (message : String)
deriving DecidableEq, Repr

inductive EventKind where
  | created
  | updated
  | destroyed
deriving DecidableEq, Repr

/-- A change notification with the object's state after the change; for
`destroyed`, the object as it was immediately before removal. -/
structure Event where
  kind : EventKind
  object : ResourceObject
deriving DecidableEq, Repr

abbrev Objects :=
  Finmap fun _ : Key => ResourceObject

structure Commit (α : Type) where
  result : Except Error α
  objects : Objects
  emits : List Event

namespace Commit

/-- The operation returns without touching the map and sends nothing. -/
def unchanged (objects : Objects) (result : Except Error α) : Commit α :=
  { result := result, objects := objects, emits := [] }

def failed (commit : Commit α) : Bool :=
  match commit.result with
  | .ok _ => false
  | .error _ => true

end Commit

namespace ResourceObject

/-- `metadata.version += 1`. -/
def bump (object : ResourceObject) : ResourceObject :=
  { object with
    metadata := { object.metadata with
      version := object.metadata.version + 1 } }

/-- The metadata `create` forces regardless of what the caller supplied. -/
def fresh (object : ResourceObject) : ResourceObject :=
  { object with
    metadata := { object.metadata with
      version := 1
      phase := .running } }

def withSpec (object : ResourceObject) (spec : Resource) : ResourceObject :=
  { object with spec := spec }

def withOwner (object : ResourceObject) (owner : String) : ResourceObject :=
  { object with
    metadata := { object.metadata with owner := some owner } }

def withFinalizers (object : ResourceObject) (finalizers : List String) :
    ResourceObject :=
  { object with
    metadata := { object.metadata with finalizers := finalizers } }

def withPhase (object : ResourceObject) (phase : Phase) : ResourceObject :=
  { object with metadata := { object.metadata with phase := phase } }

@[simp] theorem bump_key (object : ResourceObject) :
    object.bump.key = object.key :=
  rfl

@[simp] theorem fresh_key (object : ResourceObject) :
    object.fresh.key = object.key :=
  rfl

@[simp] theorem withSpec_key (object : ResourceObject) (spec : Resource) :
    (object.withSpec spec).key = object.key :=
  rfl

@[simp] theorem withOwner_key (object : ResourceObject) (owner : String) :
    (object.withOwner owner).key = object.key :=
  rfl

@[simp] theorem withFinalizers_key (object : ResourceObject)
    (finalizers : List String) :
    (object.withFinalizers finalizers).key = object.key :=
  rfl

@[simp] theorem withPhase_key (object : ResourceObject) (phase : Phase) :
    (object.withPhase phase).key = object.key :=
  rfl

end ResourceObject

namespace State

def get (objects : Objects) (key : Key) : Except Error ResourceObject :=
  match objects.lookup key with
  | some object => .ok object
  | none => .error (.notFound key)

/-- All resources of a type within a namespace.  The source iterates a hash
map, so the order is left open: a caller sees some enumeration of this
multiset. -/
def list (objects : Objects) (ns : String) (typ : ResourceType) :
    Multiset ResourceObject :=
  (objects.entries.map Sigma.snd).filter fun object =>
    object.metadata.ns = ns ∧ object.metadata.typ = typ

def create (objects : Objects) (object : ResourceObject) : Commit Unit :=
  if object.key ∈ objects then
    .unchanged objects (.error (.alreadyExists object.key))
  else
    { result := .ok ()
      objects := objects.insert object.key object.fresh
      emits := [⟨.created, object.fresh⟩] }

/-- Store a new state of an existing object and announce it. -/
def replace (objects : Objects) (key : Key) (object : ResourceObject)
    (value : α) : Commit α :=
  { result := .ok value
    objects := objects.insert key object
    emits := [⟨.updated, object⟩] }

def update (objects : Objects) (key : Key) (expectedVersion : Nat)
    (spec : Resource) : Commit Unit :=
  match objects.lookup key with
  | none => .unchanged objects (.error (.notFound key))
  | some object =>
      if object.metadata.version ≠ expectedVersion then
        .unchanged objects
          (.error (.conflict key expectedVersion object.metadata.version))
      else
        replace objects key (object.withSpec spec).bump ()

def addFinalizer (objects : Objects) (key : Key) (finalizer : String) :
    Commit Unit :=
  match objects.lookup key with
  | none => .unchanged objects (.error (.notFound key))
  | some object =>
      if finalizer ∈ object.metadata.finalizers then
        .unchanged objects (.ok ())
      else
        replace objects key
          (object.withFinalizers
            (object.metadata.finalizers ++ [finalizer])).bump ()

def removeFinalizer (objects : Objects) (key : Key) (finalizer : String) :
    Commit Unit :=
  match objects.lookup key with
  | none => .unchanged objects (.error (.notFound key))
  | some object =>
      let kept := object.metadata.finalizers.filter (· ≠ finalizer)
      if kept.length ≠ object.metadata.finalizers.length then
        replace objects key (object.withFinalizers kept).bump ()
      else
        .unchanged objects (.ok ())

/-- Mark a resource for deletion; the result tells whether it is ready to be
destroyed, that is, whether no finalizer remains. -/
def teardown (objects : Objects) (key : Key) : Commit Bool :=
  match objects.lookup key with
  | none => .unchanged objects (.error (.notFound key))
  | some object =>
      let ready := object.metadata.finalizers.isEmpty
      if object.metadata.phase ≠ .tearingDown then
        replace objects key (object.withPhase .tearingDown).bump ready
      else
        .unchanged objects (.ok ready)

def destroy (objects : Objects) (key : Key) (expectedVersion : Nat) :
    Commit Unit :=
  match objects.lookup key with
  | none => .unchanged objects (.error (.notFound key))
  | some object =>
      if object.metadata.version ≠ expectedVersion then
        .unchanged objects
          (.error (.conflict key expectedVersion object.metadata.version))
      else if object.metadata.finalizers.isEmpty then
        { result := .ok ()
          objects := objects.erase key
          emits := [⟨.destroyed, object⟩] }
      else
        .unchanged objects (.error (.hasFinalizers key))

end State

/-- The operations of the store. -/
inductive Op where
  | get (key : Key)
  | list (ns : String) (typ : ResourceType)
  | create (object : ResourceObject)
  | update (key : Key) (expectedVersion : Nat) (spec : Resource)
  | addFinalizer (key : Key) (finalizer : String)
  | removeFinalizer (key : Key) (finalizer : String)
  | teardown (key : Key)
  | destroy (key : Key) (expectedVersion : Nat)
deriving DecidableEq, Repr

namespace Op

/-- What an operation computes under the lock. -/
def Value : Op → Type
  | .get _ => ResourceObject
  | .list _ _ => Multiset ResourceObject
  | .teardown _ => Bool
  | _ => Unit

def commit (objects : Objects) : (operation : Op) → Commit operation.Value
  | .get key => .unchanged objects (State.get objects key)
  | .list ns typ => .unchanged objects (.ok (State.list objects ns typ))
  | .create object => State.create objects object
  | .update key expectedVersion spec =>
      State.update objects key expectedVersion spec
  | .addFinalizer key finalizer => State.addFinalizer objects key finalizer
  | .removeFinalizer key finalizer =>
      State.removeFinalizer objects key finalizer
  | .teardown key => State.teardown objects key
  | .destroy key expectedVersion =>
      State.destroy objects key expectedVersion

/-- What the caller of an operation receives: a listing comes in some order,
everything else is a `Result`. -/
def Answer : Op → Type
  | .get _ => Except Error ResourceObject
  | .list _ _ => List ResourceObject
  | .teardown _ => Except Error Bool
  | _ => Except Error Unit

/-- The answer of an operation, `listing` being the order a hash map iteration
happens to take; it is rejected if it does not enumerate the listed objects. -/
def answer? (objects : Objects) (listing : List ResourceObject) :
    (operation : Op) → Option operation.Answer
  | .get key => some (State.get objects key)
  | .list ns typ =>
      if (listing : Multiset ResourceObject) = State.list objects ns typ then
        some listing
      else
        none
  | .create object => some (State.create objects object).result
  | .update key expectedVersion spec =>
      some (State.update objects key expectedVersion spec).result
  | .addFinalizer key finalizer =>
      some (State.addFinalizer objects key finalizer).result
  | .removeFinalizer key finalizer =>
      some (State.removeFinalizer objects key finalizer).result
  | .teardown key => some (State.teardown objects key).result
  | .destroy key expectedVersion =>
      some (State.destroy objects key expectedVersion).result

/-- The answers an operation can give, over all iteration orders. -/
def Answers (objects : Objects) (operation : Op)
    (answer : operation.Answer) : Prop :=
  ∃ listing, operation.answer? objects listing = some answer

/-- The map after an operation. -/
def after (objects : Objects) (operation : Op) : Objects :=
  (operation.commit objects).objects

/-- The events an operation sends. -/
def emits (objects : Objects) (operation : Op) : List Event :=
  (operation.commit objects).emits

def fails (objects : Objects) (operation : Op) : Bool :=
  (operation.commit objects).failed

end Op

abbrev stateSignature : Signature :=
  { Op := Op, Answer := Op.Answer }

/-- The ways in which an operation replaces a stored object by a new state. -/
inductive Revision : Op → Key → ResourceObject → ResourceObject → Prop where
  | update {key : Key} {object : ResourceObject} (spec : Resource) :
      Revision (.update key object.metadata.version spec) key object
        (object.withSpec spec).bump
  | addFinalizer {key : Key} {object : ResourceObject} {finalizer : String}
      (absent : finalizer ∉ object.metadata.finalizers) :
      Revision (.addFinalizer key finalizer) key object
        (object.withFinalizers
          (object.metadata.finalizers ++ [finalizer])).bump
  | removeFinalizer {key : Key} {object : ResourceObject}
      {finalizer : String} (present : finalizer ∈ object.metadata.finalizers) :
      Revision (.removeFinalizer key finalizer) key object
        (object.withFinalizers
          (object.metadata.finalizers.filter (· ≠ finalizer))).bump
  | teardown {key : Key} {object : ResourceObject}
      (running : object.metadata.phase = .running) :
      Revision (.teardown key) key object (object.withPhase .tearingDown).bump

/-- Everything an operation can do to the map and to the event channel.  The
flag says whether the operation returned an error. -/
inductive Effect (objects : Objects) :
    Op → Bool → Objects → List Event → Prop where
  | none {operation : Op} {failed : Bool} :
      Effect objects operation failed objects []
  | created {object : ResourceObject} (absent : object.key ∉ objects) :
      Effect objects (.create object) false
        (objects.insert object.key object.fresh) [⟨.created, object.fresh⟩]
  | revised {operation : Op} {key : Key} {old new : ResourceObject}
      (stored : objects.lookup key = some old)
      (revision : Revision operation key old new) :
      Effect objects operation false
        (objects.insert key new) [⟨.updated, new⟩]
  | removed {key : Key} {object : ResourceObject}
      (stored : objects.lookup key = some object)
      (released : object.metadata.finalizers = []) :
      Effect objects (.destroy key object.metadata.version) false
        (objects.erase key) [⟨.destroyed, object⟩]

/-- A failing operation leaves the map as it was and sends nothing. -/
theorem Effect.of_failed {objects after : Objects} {operation : Op}
    {events : List Event}
    (effect : Effect objects operation true after events) :
    after = objects ∧ events = [] := by
  cases effect with
  | none => exact ⟨rfl, rfl⟩

private theorem filter_length_ne_iff (finalizers : List String)
    (finalizer : String) :
    (finalizers.filter (· ≠ finalizer)).length ≠ finalizers.length ↔
      finalizer ∈ finalizers := by
  constructor
  · intro shorter
    by_contra absent
    apply shorter
    rw [List.filter_eq_self.mpr]
    intro other member
    have different : other ≠ finalizer := by
      intro equality
      exact absent (equality ▸ member)
    simpa using different
  · intro member equality
    have kept := List.length_filter_eq_length_iff.mp equality finalizer member
    simp at kept

namespace Op

theorem effect_create (objects : Objects) (object : ResourceObject) :
    Effect objects (.create object) (State.create objects object).failed
      (State.create objects object).objects
      (State.create objects object).emits := by
  unfold State.create
  split
  · exact .none
  · rename_i absent
    exact .created absent

theorem effect_update (objects : Objects) (key : Key) (expectedVersion : Nat)
    (spec : Resource) :
    Effect objects (.update key expectedVersion spec)
      (State.update objects key expectedVersion spec).failed
      (State.update objects key expectedVersion spec).objects
      (State.update objects key expectedVersion spec).emits := by
  unfold State.update
  split
  · exact .none
  · rename_i object stored
    split
    · exact .none
    · rename_i same
      rw [not_not] at same
      subst same
      exact .revised stored (.update spec)

theorem effect_addFinalizer (objects : Objects) (key : Key)
    (finalizer : String) :
    Effect objects (.addFinalizer key finalizer)
      (State.addFinalizer objects key finalizer).failed
      (State.addFinalizer objects key finalizer).objects
      (State.addFinalizer objects key finalizer).emits := by
  unfold State.addFinalizer
  split
  · exact .none
  · rename_i object stored
    split
    · exact .none
    · rename_i absent
      exact .revised stored (.addFinalizer absent)

theorem effect_removeFinalizer (objects : Objects) (key : Key)
    (finalizer : String) :
    Effect objects (.removeFinalizer key finalizer)
      (State.removeFinalizer objects key finalizer).failed
      (State.removeFinalizer objects key finalizer).objects
      (State.removeFinalizer objects key finalizer).emits := by
  unfold State.removeFinalizer
  split
  · exact .none
  · rename_i object stored
    dsimp only
    split
    · rename_i shorter
      have present := (filter_length_ne_iff _ _).mp shorter
      exact .revised stored (.removeFinalizer present)
    · exact .none

theorem effect_teardown (objects : Objects) (key : Key) :
    Effect objects (.teardown key) (State.teardown objects key).failed
      (State.teardown objects key).objects
      (State.teardown objects key).emits := by
  unfold State.teardown
  split
  · exact .none
  · rename_i object stored
    dsimp only
    split
    · rename_i notYet
      have running : object.metadata.phase = .running := by
        cases phase : object.metadata.phase with
        | running => rfl
        | tearingDown => exact (notYet phase).elim
      exact .revised stored (.teardown running)
    · exact .none

theorem effect_destroy (objects : Objects) (key : Key)
    (expectedVersion : Nat) :
    Effect objects (.destroy key expectedVersion)
      (State.destroy objects key expectedVersion).failed
      (State.destroy objects key expectedVersion).objects
      (State.destroy objects key expectedVersion).emits := by
  unfold State.destroy
  split
  · exact .none
  · rename_i object stored
    split
    · exact .none
    · rename_i same
      rw [not_not] at same
      subst same
      split
      · rename_i released
        exact .removed stored (List.isEmpty_iff.mp released)
      · exact .none

/-- The effect of every operation is one of the four of `Effect`. -/
theorem effect (objects : Objects) (operation : Op) :
    Effect objects operation (operation.fails objects)
      (operation.after objects) (operation.emits objects) := by
  cases operation with
  | get key => exact .none
  | list ns typ => exact .none
  | create object => exact effect_create objects object
  | update key expectedVersion spec =>
      exact effect_update objects key expectedVersion spec
  | addFinalizer key finalizer =>
      exact effect_addFinalizer objects key finalizer
  | removeFinalizer key finalizer =>
      exact effect_removeFinalizer objects key finalizer
  | teardown key => exact effect_teardown objects key
  | destroy key expectedVersion =>
      exact effect_destroy objects key expectedVersion

end Op

end MachinedRs
