import MachinedRs.RuntimeCore.State

/-!
# Owner-cascade helpers

`reconcileOwned` brings the resources a controller owns to the desired set and
collects those no longer desired.  `reconcileFinalized` applies and reverts a
controller's strong inputs under a finalizer.  Both are programs over the store
operations, so that other parties can run between any two of them.
-/

namespace MachinedRs

open Foundation

abbrev Result (α : Type) :=
  Except Error α

/-- The first loop of `reconcileOwned`: create what is missing, update what
differs. -/
def upsertDesired (owner : String) :
    List ResourceObject → Program stateSignature (Result Unit)
  | [] => .done (.ok ())
  | object :: desired =>
      .call (.get object.key) fun found =>
        match found with
        | .ok existing =>
            if existing.spec ≠ object.spec then
              .call
                (.update object.key existing.metadata.version object.spec)
                fun updated =>
                  Program.attempt updated fun _ => upsertDesired owner desired
            else
              upsertDesired owner desired
        | .error (.notFound _) =>
            .call (.create (object.withOwner owner)) fun created =>
              Program.attempt created fun _ => upsertDesired owner desired
        | .error error => .done (.error error)

/-- The second loop of `reconcileOwned`: tear down what is owned but no longer
desired, and destroy it once no finalizer remains. -/
def collectUndesired (owner : String) (desiredIds : List String) :
    List ResourceObject → Program stateSignature (Result Unit)
  | [] => .done (.ok ())
  | existing :: listing =>
      if existing.metadata.owner = some owner ∧
          existing.metadata.id ∉ desiredIds then
        .call (.teardown existing.key) fun tornDown =>
          Program.attempt tornDown fun ready =>
            if ready then
              .call (.get existing.key) fun found =>
                Program.attempt found fun current =>
                  .call (.destroy existing.key current.metadata.version)
                    fun destroyed =>
                      Program.attempt destroyed fun _ =>
                        collectUndesired owner desiredIds listing
            else
              collectUndesired owner desiredIds listing
      else
        collectUndesired owner desiredIds listing

/-- The source also asserts, in debug builds only, that every desired object
matches the namespace and type arguments. -/
def reconcileOwned (owner ns : String) (typ : ResourceType)
    (desired : List ResourceObject) :
    Program stateSignature (Result Unit) :=
  (upsertDesired owner desired).bind fun upserted =>
    Program.attempt upserted fun _ =>
      .call (.list ns typ) fun listing =>
        collectUndesired owner
          (desired.map fun object => object.metadata.id) listing

/-- Everything that `reconcileOwned` issues for these objects is allowed. -/
structure OwnerMay (allowed : Op → Prop) (owner : String)
    (desired : List ResourceObject) : Prop where
  get : ∀ key, allowed (.get key)
  list : ∀ ns typ, allowed (.list ns typ)
  update : ∀ object ∈ desired, ∀ key version,
    allowed (.update key version object.spec)
  create : ∀ object ∈ desired, allowed (.create (object.withOwner owner))
  teardown : ∀ key, allowed (.teardown key)
  destroy : ∀ key version, allowed (.destroy key version)

section OwnerMay

variable {allowed : Op → Prop} {owner : String}
  {desired : List ResourceObject}

theorem OwnerMay.upsertDesired (may : OwnerMay allowed owner desired) :
    (upsertDesired owner desired).Only allowed := by
  induction desired with
  | nil => trivial
  | cons object desired induction =>
      have rest := induction
        { may with
          update := fun other member =>
            may.update other (List.mem_cons_of_mem object member)
          create := fun other member =>
            may.create other (List.mem_cons_of_mem object member) }
      refine ⟨may.get object.key, ?_⟩
      intro found
      dsimp only
      split
      · split
        · exact ⟨may.update object List.mem_cons_self _ _,
            fun _ => Program.Only.attempt fun _ => rest⟩
        · exact rest
      · exact ⟨may.create object List.mem_cons_self,
          fun _ => Program.Only.attempt fun _ => rest⟩
      · trivial

theorem OwnerMay.collectUndesired (may : OwnerMay allowed owner desired)
    (desiredIds : List String) (listing : List ResourceObject) :
    (collectUndesired owner desiredIds listing).Only allowed := by
  induction listing with
  | nil => trivial
  | cons existing listing induction =>
      unfold MachinedRs.collectUndesired
      split
      · refine ⟨may.teardown existing.key,
          fun _ => Program.Only.attempt fun ready => ?_⟩
        split
        · refine ⟨may.get existing.key,
            fun _ => Program.Only.attempt fun current => ?_⟩
          exact ⟨may.destroy existing.key _,
            fun _ => Program.Only.attempt fun _ => induction⟩
        · exact induction
      · exact induction

theorem OwnerMay.reconcileOwned (may : OwnerMay allowed owner desired)
    (ns : String) (typ : ResourceType) :
    (reconcileOwned owner ns typ desired).Only allowed := by
  apply may.upsertDesired.bind
  intro upserted
  apply Program.Only.attempt
  intro _
  exact ⟨may.list ns typ, fun listing => may.collectUndesired _ listing⟩

end OwnerMay

/-- The operations an owner issues: it reads, creates, updates, tears down and
destroys, but leaves finalizers alone. -/
def Op.IsOwner : Op → Prop
  | .addFinalizer _ _ => False
  | .removeFinalizer _ _ => False
  | _ => True

theorem reconcileOwned_only (owner ns : String) (typ : ResourceType)
    (desired : List ResourceObject) :
    (reconcileOwned owner ns typ desired).Only Op.IsOwner := by
  have may : OwnerMay Op.IsOwner owner desired := by
    constructor
    all_goals
      intros
      trivial
  exact may.reconcileOwned ns typ

/-- Whatever is written has the spec of a desired object. -/
def Op.WritesSpecOf (desired : List ResourceObject) : Op → Prop
  | .create object => ∃ wanted ∈ desired, object.spec = wanted.spec
  | .update _ _ spec => ∃ wanted ∈ desired, spec = wanted.spec
  | _ => True

theorem reconcileOwned_writes (owner ns : String) (typ : ResourceType)
    (desired : List ResourceObject) :
    (reconcileOwned owner ns typ desired).Only (Op.WritesSpecOf desired) := by
  have may : OwnerMay (Op.WritesSpecOf desired) owner desired :=
    { get := fun _ => trivial
      list := fun _ _ => trivial
      update := fun object member _ _ => ⟨object, member, rfl⟩
      create := fun object member => ⟨object, member, rfl⟩
      teardown := fun _ => trivial
      destroy := fun _ _ => trivial }
  exact may.reconcileOwned ns typ

/-- The callbacks of a consumer: each takes effect in the real world and
returns a result. -/
inductive Callback where
  | apply (object : ResourceObject)
  | revert (object : ResourceObject)
deriving DecidableEq, Repr

abbrev callbackSignature : Signature :=
  { Op := Callback, Answer := fun _ => Result Unit }

abbrev consumerSignature : Signature :=
  stateSignature.sum callbackSignature

def reconcileFinalized (finalizer : String) :
    List ResourceObject → Program consumerSignature (Result Unit)
  | [] => .done (.ok ())
  | object :: inputs =>
      match object.metadata.phase with
      | .running =>
          .call (.inl (.addFinalizer object.key finalizer)) fun added =>
            Program.attempt added fun _ =>
              .call (.inr (.apply object)) fun applied =>
                Program.attempt applied fun _ =>
                  reconcileFinalized finalizer inputs
      | .tearingDown =>
          .call (.inr (.revert object)) fun reverted =>
            Program.attempt reverted fun _ =>
              .call (.inl (.removeFinalizer object.key finalizer))
                fun removed =>
                  Program.attempt removed fun _ =>
                    reconcileFinalized finalizer inputs

end MachinedRs
