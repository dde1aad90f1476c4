import MachinedRs.Foundation.System
import MachinedRs.RuntimeCore.Lifecycle
import MachinedRs.RuntimeCore.Owned

/-!
# The finalizer protocol

An owner runs `reconcileOwned` again and again, a consumer runs
`reconcileFinalized` again and again from listings that may be stale, and the
store operations of the two interleave in any order with those of further
parties that leave the consumer's finalizer alone.  An object whose effect may
be outstanding stays in the store under the finalizer.

The proof is a rely/guarantee argument: everybody but the consumer keeps held
objects held, and the consumer issues `apply` only while it holds the object
and gives the object up only after a successful `revert`.
-/

namespace MachinedRs

open Foundation

/-- The object is in the store and carries the finalizer. -/
def Held (finalizer : String) (objects : Objects) (key : Key) : Prop :=
  ∃ object, objects.lookup key = some object ∧
    finalizer ∈ object.metadata.finalizers

/-- The operation removes this finalizer from some object. -/
def Op.releases (finalizer : String) : Op → Bool
  | .removeFinalizer _ removed => removed = finalizer
  | _ => false

theorem Op.IsOwner.not_releases {operation : Op} (owner : operation.IsOwner)
    (finalizer : String) : operation.releases finalizer = false := by
  cases operation with
  | removeFinalizer key removed => exact owner.elim
  | _ => rfl

theorem Revision.keeps_finalizer {operation : Op} {key : Key}
    {old new : ResourceObject} (revision : Revision operation key old new)
    {finalizer : String} (keeps : operation.releases finalizer = false)
    (member : finalizer ∈ old.metadata.finalizers) :
    finalizer ∈ new.metadata.finalizers := by
  cases revision with
  | update spec => exact member
  | addFinalizer absent => exact List.mem_append_left _ member
  | @removeFinalizer _ _ removed present =>
      have different : removed ≠ finalizer := by
        simpa [Op.releases] using keeps
      apply List.mem_filter.mpr
      exact ⟨member, by simpa using different.symm⟩
  | teardown running => exact member

/-- A held object stays held under every operation that does not release its
finalizer at this very key. -/
theorem Held.after {finalizer : String} {objects : Objects} {key : Key}
    (held : Held finalizer objects key) {operation : Op}
    (keeps : operation.releases finalizer = false ∨
      ∀ removed, operation ≠ .removeFinalizer key removed) :
    Held finalizer (operation.after objects) key := by
  obtain ⟨object, stored, member⟩ := held
  have step := operation.objectStep objects key
  rw [stored] at step
  generalize slotEquality : (operation.after objects).lookup key = slot at step
  cases step with
  | stays => exact ⟨object, slotEquality, member⟩
  | @revised _ new revision =>
      refine ⟨new, slotEquality, ?_⟩
      rcases keeps with keeps | elsewhere
      · exact revision.keeps_finalizer keeps member
      · cases revision with
        | update spec => exact member
        | addFinalizer absent => exact List.mem_append_left _ member
        | removeFinalizer present => exact (elsewhere _ rfl).elim
        | teardown running => exact member
  | ends destruction released =>
      rw [released] at member
      simp at member

theorem held_of_addFinalizer {objects : Objects} {key : Key}
    {finalizer : String}
    (added : (State.addFinalizer objects key finalizer).result = .ok ()) :
    Held finalizer (State.addFinalizer objects key finalizer).objects key := by
  cases stored : objects.lookup key with
  | none => simp [State.addFinalizer, stored, Commit.unchanged] at added
  | some object =>
      by_cases present : finalizer ∈ object.metadata.finalizers
      · refine ⟨object, ?_, present⟩
        simp [State.addFinalizer, stored, present, Commit.unchanged]
      · refine ⟨(object.withFinalizers
          (object.metadata.finalizers ++ [finalizer])).bump, ?_, ?_⟩
        · simp [State.addFinalizer, stored, present, State.replace]
        · simp [ResourceObject.bump, ResourceObject.withFinalizers]

/-- The store, and the keys for which `apply` has been invoked and no `revert`
has returned `Ok` since. -/
structure FinalizerWorld where
  objects : Objects
  outstanding : Finset Key

namespace FinalizerWorld

/-- The consumer's operations and what they do.  `apply` is outstanding from
its invocation on, `revert` settles when it returns `Ok`. -/
def Performs (world : FinalizerWorld) :
    (operation : consumerSignature.Op) →
      consumerSignature.Answer operation → FinalizerWorld → Prop
  | .inl operation, answer, after =>
      operation.Answers world.objects answer ∧
        after = { world with objects := operation.after world.objects }
  | .inr (.apply object), _, after =>
      after =
        { world with outstanding := insert object.key world.outstanding }
  | .inr (.revert object), .ok _, after =>
      after =
        { world with outstanding := world.outstanding.erase object.key }
  | .inr (.revert _), .error _, after => after = world

/-- Every outstanding effect is still guarded by the finalizer. -/
def Guarded (finalizer : String) (world : FinalizerWorld) : Prop :=
  ∀ key ∈ world.outstanding, Held finalizer world.objects key

/-- What the consumer relies on: nobody else releases a held object. -/
def Rely (finalizer : String) (before after : FinalizerWorld) : Prop :=
  after.outstanding = before.outstanding ∧
    ∀ key, Held finalizer before.objects key →
      Held finalizer after.objects key

theorem Guarded.rely {finalizer : String} {before after : FinalizerWorld}
    (guarded : before.Guarded finalizer) (moved : Rely finalizer before after) :
    after.Guarded finalizer := by
  intro key outstanding
  rw [moved.1] at outstanding
  exact moved.2 key (guarded key outstanding)

section Steps

variable {finalizer : String} {world : FinalizerWorld} {key : Key}

theorem Guarded.addFinalizer (guarded : world.Guarded finalizer) (key : Key) :
    Guarded finalizer
      { world with
        objects := (Op.addFinalizer key finalizer).after world.objects } := by
  intro other outstanding
  exact (guarded other outstanding).after (.inl rfl)

theorem Guarded.apply (guarded : world.Guarded finalizer)
    (held : Held finalizer world.objects key) :
    Guarded finalizer
      { world with outstanding := insert key world.outstanding } := by
  intro other outstanding
  rcases Finset.mem_insert.mp outstanding with rfl | before
  · exact held
  · exact guarded other before

theorem Guarded.revert (guarded : world.Guarded finalizer) (key : Key) :
    Guarded finalizer
      { world with outstanding := world.outstanding.erase key } := by
  intro other outstanding
  exact guarded other (Finset.mem_of_mem_erase outstanding)

theorem Guarded.removeFinalizer (guarded : world.Guarded finalizer)
    (settled : key ∉ world.outstanding) :
    Guarded finalizer
      { world with
        objects :=
          (Op.removeFinalizer key finalizer).after world.objects } := by
  intro other outstanding
  apply (guarded other outstanding).after
  right
  intro removed equality
  injection equality with same
  rw [same] at settled
  exact settled outstanding

end Steps

end FinalizerWorld

/-- The consumer's view of the system. -/
def finalizerSetting (finalizer : String) :
    Setting consumerSignature FinalizerWorld :=
  { perform := FinalizerWorld.Performs
    rely := FinalizerWorld.Rely finalizer
    invariant := FinalizerWorld.Guarded finalizer
    rely_refl := fun _ => ⟨rfl, fun _ held => held⟩
    rely_trans := fun first second =>
      ⟨second.1.trans first.1, fun key held =>
        second.2 key (first.2 key held)⟩ }

namespace FinalizerWorld

theorem protected_done {finalizer : String} {world : FinalizerWorld}
    (guarded : world.Guarded finalizer) (result : Result Unit) :
    (finalizerSetting finalizer).Protected (fun _ _ => True)
      (.done result) world := by
  intro later moved
  exact ⟨guarded.rely moved, trivial⟩

/-- The consumer's pass keeps every outstanding effect guarded, from any list
of inputs and whatever the others do in between. -/
theorem protected_reconcileFinalized (finalizer : String)
    (inputs : List ResourceObject) {world : FinalizerWorld}
    (guarded : world.Guarded finalizer) :
    (finalizerSetting finalizer).Protected (fun _ _ => True)
      (reconcileFinalized finalizer inputs) world := by
  induction inputs generalizing world with
  | nil => exact protected_done guarded (.ok ())
  | cons object inputs induction =>
      unfold reconcileFinalized
      cases object.metadata.phase with
      | running =>
          rintro later moved
          have laterGuarded := guarded.rely moved
          refine ⟨laterGuarded, ?_⟩
          rintro added after ⟨⟨listing, answered⟩, rfl⟩
          have addedGuarded := laterGuarded.addFinalizer object.key
          refine Setting.Protected.attempt
            (fun _ => protected_done addedGuarded _) ?_
          intro value succeeded
          subst succeeded
          have held : Held finalizer
              ((Op.addFinalizer object.key finalizer).after later.objects)
              object.key :=
            held_of_addFinalizer (Option.some.inj answered)
          intro invoked movedAgain
          refine ⟨addedGuarded.rely movedAgain, ?_⟩
          rintro applied final rfl
          have finalGuarded :=
            (addedGuarded.rely movedAgain).apply (movedAgain.2 _ held)
          refine Setting.Protected.attempt
            (fun _ => protected_done finalGuarded _) ?_
          intro _ _
          exact induction finalGuarded
      | tearingDown =>
          rintro later moved
          have laterGuarded := guarded.rely moved
          refine ⟨laterGuarded, ?_⟩
          rintro (error | settled) after performed
          · cases performed
            exact protected_done laterGuarded (.error error)
          · cases performed
            have settledGuarded := laterGuarded.revert object.key
            intro invoked movedAgain
            refine ⟨settledGuarded.rely movedAgain, ?_⟩
            rintro removed final ⟨_, rfl⟩
            have settled : object.key ∉ invoked.outstanding := by
              rw [movedAgain.1]
              exact Finset.notMem_erase _ _
            have finalGuarded :=
              (settledGuarded.rely movedAgain).removeFinalizer settled
            refine Setting.Protected.attempt
              (fun _ => protected_done finalGuarded _) ?_
            intro _ _
            exact induction finalGuarded

end FinalizerWorld

/-- The owner, the consumer and the world they share. -/
structure FinalizerState where
  world : FinalizerWorld
  owner : Program stateSignature (Result Unit)
  consumer : Program consumerSignature (Result Unit)

/-- Who moves next, with the choices that are open.  A consumer pass may start
from any inputs, which covers every listing taken at an earlier time. -/
inductive FinalizerMove where
  | ownerBegins (owner ns : String) (typ : ResourceType)
      (desired : List ResourceObject)
  | ownerSteps (listing : List ResourceObject)
  | consumerBegins (inputs : List ResourceObject)
  | consumerSteps (listing : List ResourceObject) (outcome : Result Unit)
  | otherSteps (operation : Op)

namespace FinalizerState

def ownerStep (state : FinalizerState) (listing : List ResourceObject) :
    Option FinalizerState :=
  match state.owner with
  | .done _ => none
  | .call operation next =>
      (Op.answer? state.world.objects listing operation).map fun answer =>
        { state with
          world := { state.world with
            objects := Op.after state.world.objects operation }
          owner := next answer }

def consumerStep (state : FinalizerState) (listing : List ResourceObject)
    (outcome : Result Unit) : Option FinalizerState :=
  match state.consumer with
  | .done _ => none
  | .call (.inl operation) next =>
      (Op.answer? state.world.objects listing operation).map fun answer =>
        { state with
          world := { state.world with
            objects := Op.after state.world.objects operation }
          consumer := next answer }
  | .call (.inr (.apply object)) next =>
      some { state with
        world := { state.world with
          outstanding := insert object.key state.world.outstanding }
        consumer := next outcome }
  | .call (.inr (.revert object)) next =>
      match outcome with
      | .ok value =>
          some { state with
            world := { state.world with
              outstanding := state.world.outstanding.erase object.key }
            consumer := next (.ok value) }
      | .error error => some { state with consumer := next (.error error) }

def step (finalizer : String) (state : FinalizerState) :
    FinalizerMove → Option FinalizerState
  | .ownerBegins owner ns typ desired =>
      if state.owner.isDone then
        some { state with owner := reconcileOwned owner ns typ desired }
      else
        none
  | .ownerSteps listing => state.ownerStep listing
  | .consumerBegins inputs =>
      if state.consumer.isDone then
        some { state with consumer := reconcileFinalized finalizer inputs }
      else
        none
  | .consumerSteps listing outcome => state.consumerStep listing outcome
  | .otherSteps operation =>
      if operation.releases finalizer then
        none
      else
        some { state with
          world := { state.world with
            objects := operation.after state.world.objects } }

end FinalizerState

/-- The protocol starts from any store, with no effect outstanding and no pass
running. -/
def finalizerSystem (finalizer : String) :
    System FinalizerState FinalizerMove :=
  { Initial := fun state =>
      state.world.outstanding = ∅ ∧ state.owner.isDone ∧ state.consumer.isDone
    step := FinalizerState.step finalizer }

/-- The consumer is protected and the owner leaves finalizers alone. -/
structure FinalizerState.Safe (finalizer : String) (state : FinalizerState) :
    Prop where
  consumer : (finalizerSetting finalizer).Protected (fun _ _ => True)
    state.consumer state.world
  owner : state.owner.Only Op.IsOwner

namespace FinalizerState.Safe

variable {finalizer : String} {state next : FinalizerState}

private theorem rely_of_not_releases {operation : Op}
    (keeps : operation.releases finalizer = false) (world : FinalizerWorld) :
    world.Rely finalizer
      { world with objects := operation.after world.objects } := by
  refine ⟨rfl, ?_⟩
  intro key held
  exact held.after (.inl keeps)

theorem ownerStep (safe : state.Safe finalizer)
    {listing : List ResourceObject}
    (stepped : state.ownerStep listing = some next) :
    next.Safe finalizer := by
  obtain ⟨consumer, owner⟩ := safe
  obtain ⟨world, ownerProgram, consumerProgram⟩ := state
  cases ownerProgram with
  | done result => simp [FinalizerState.ownerStep] at stepped
  | call operation rest =>
      obtain ⟨answer, _, rfl⟩ := Option.map_eq_some_iff.mp stepped
      refine ⟨?_, owner.2 answer⟩
      exact consumer.interfere
        (rely_of_not_releases (owner.1.not_releases finalizer) world)

theorem consumerStep (safe : state.Safe finalizer)
    {listing : List ResourceObject} {outcome : Result Unit}
    (stepped : state.consumerStep listing outcome = some next) :
    next.Safe finalizer := by
  obtain ⟨consumer, owner⟩ := safe
  obtain ⟨world, ownerProgram, consumerProgram⟩ := state
  cases consumerProgram with
  | done result => simp [FinalizerState.consumerStep] at stepped
  | call operation rest =>
      match operation with
      | .inl operation =>
          obtain ⟨answer, answered, rfl⟩ := Option.map_eq_some_iff.mp stepped
          refine ⟨?_, owner⟩
          exact consumer.advance ⟨⟨listing, answered⟩, rfl⟩
      | .inr (.apply object) =>
          cases stepped
          exact ⟨consumer.advance rfl, owner⟩
      | .inr (.revert object) =>
          cases outcome with
          | ok value =>
              cases stepped
              exact ⟨consumer.advance rfl, owner⟩
          | error error =>
              cases stepped
              exact ⟨consumer.advance rfl, owner⟩

theorem step (safe : state.Safe finalizer) {move : FinalizerMove}
    (stepped : state.step finalizer move = some next) :
    next.Safe finalizer := by
  cases move with
  | ownerBegins owner ns typ desired =>
      simp only [FinalizerState.step, Option.ite_none_right_eq_some,
        Option.some.injEq] at stepped
      obtain ⟨_, rfl⟩ := stepped
      exact ⟨safe.consumer, reconcileOwned_only owner ns typ desired⟩
  | ownerSteps listing => exact safe.ownerStep stepped
  | consumerBegins inputs =>
      simp only [FinalizerState.step, Option.ite_none_right_eq_some,
        Option.some.injEq] at stepped
      obtain ⟨_, rfl⟩ := stepped
      refine ⟨?_, safe.owner⟩
      exact FinalizerWorld.protected_reconcileFinalized finalizer inputs
        safe.consumer.holds
  | consumerSteps listing outcome => exact safe.consumerStep stepped
  | otherSteps operation =>
      simp only [FinalizerState.step, Option.ite_none_left_eq_some,
        Option.some.injEq] at stepped
      obtain ⟨keeps, rfl⟩ := stepped
      rw [Bool.not_eq_true] at keeps
      exact ⟨safe.consumer.interfere (rely_of_not_releases keeps _),
        safe.owner⟩

end FinalizerState.Safe

theorem FinalizerState.safe_of_initial {finalizer : String}
    {state : FinalizerState}
    (initial : (finalizerSystem finalizer).Initial state) :
    state.Safe finalizer := by
  obtain ⟨world, ownerProgram, consumerProgram⟩ := state
  obtain ⟨empty, ownerDone, consumerDone⟩ := initial
  have guarded : world.Guarded finalizer := by
    intro key outstanding
    rw [show world.outstanding = ∅ from empty] at outstanding
    simp at outstanding
  cases ownerProgram with
  | call operation rest => simp [Program.isDone] at ownerDone
  | done ownerResult =>
      cases consumerProgram with
      | call operation rest => simp [Program.isDone] at consumerDone
      | done consumerResult =>
          exact ⟨FinalizerWorld.protected_done guarded consumerResult, trivial⟩

/-- Finalizer protocol safety.  In every reachable state, an object for which
`apply` has been invoked and no `revert` has returned `Ok` since is still in
the store, under the consumer's finalizer. -/
theorem outstanding_effects_are_held (finalizer : String)
    (state : FinalizerState)
    (reachable : (finalizerSystem finalizer).Reachable state) :
    ∀ key ∈ state.world.outstanding,
      ∃ object, state.world.objects.lookup key = some object ∧
        finalizer ∈ object.metadata.finalizers := by
  have safe : state.Safe finalizer :=
    reachable.invariant (fun _ => FinalizerState.safe_of_initial)
      (fun _ _ _ stepped safe => safe.step stepped)
  exact safe.consumer.holds

/-- The owner publishes an object and the consumer applies it, but `apply`
fails; the owner then drops the object and finds it held. -/
def applyThenDrop : List FinalizerMove :=
  [.ownerBegins "ctl" "runtime" .serviceStatus [etcdService],
    .ownerSteps [], .ownerSteps [],
    .ownerSteps [(etcdService.withOwner "ctl").fresh],
    .consumerBegins [(etcdService.withOwner "ctl").fresh],
    .consumerSteps [] (.ok ()),
    .consumerSteps [] (.error (.controller "boom")),
    .ownerBegins "ctl" "runtime" .serviceStatus [],
    .ownerSteps [((etcdService.withOwner "ctl").fresh.withFinalizers
      ["net"]).bump],
    .ownerSteps []]

theorem outstanding_effects_are_held_after_applyThenDrop :
    ∃ state, (finalizerSystem "net").Reachable state ∧
      etcdService.key ∈ state.world.outstanding ∧
      ∃ object, state.world.objects.lookup etcdService.key = some object ∧
        "net" ∈ object.metadata.finalizers := by
  let start : FinalizerState :=
    { world := { objects := ∅, outstanding := ∅ }
      owner := .done (.ok ())
      consumer := .done (.ok ()) }
  have finishes : ((finalizerSystem "net").run start applyThenDrop).isSome := by
    decide
  obtain ⟨state, result⟩ := Option.isSome_iff_exists.mp finishes
  have reachable : (finalizerSystem "net").Reachable state :=
    ⟨start, applyThenDrop, ⟨rfl, rfl, rfl⟩, result⟩
  have outstanding : etcdService.key ∈ state.world.outstanding := by
    have computed : ((finalizerSystem "net").run start applyThenDrop).map
        (fun final => decide (etcdService.key ∈ final.world.outstanding)) =
          some true := by
      decide
    rw [result] at computed
    simpa using computed
  exact ⟨state, reachable, outstanding,
    outstanding_effects_are_held "net" state reachable etcdService.key
      outstanding⟩

end MachinedRs
