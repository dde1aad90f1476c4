import MachinedRs.Foundation.System
import MachinedRs.RuntimeCore.FinalizedPass
import MachinedRs.RuntimeCore.OwnedContract

/-!
# Objects that are desired again

An owner withdraws an object by tearing it down, and the object stays until its
consumer lets go of it.  If the owner desires it again meanwhile, its pass
updates the spec and leaves the phase alone; no operation of the store takes a
phase back to running.  The consumer lets go, the owner keeps what it desires,
and the object remains, torn down and applied by nobody.
-/

namespace MachinedRs

open Foundation

/-- The store, and what the owner currently desires. -/
structure Tenancy where
  objects : Objects
  desired : List ResourceObject

/-- Passes run to completion; `listings` are the orders in which they see the
objects. -/
inductive TenancyMove where
  | desires (desired : List ResourceObject)
  | ownerPasses (listings : List (List ResourceObject))
  | consumerPasses (listings : List (List ResourceObject))

/-- An owner and a consumer of the objects of one type; the consumer's callbacks
succeed. -/
structure Tenants where
  owner : String
  finalizer : String
  ns : String
  typ : ResourceType

namespace Tenants

variable (tenants : Tenants)

def ownerPass (desired : List ResourceObject) :
    Program stateSignature (Result Unit) :=
  reconcileOwned tenants.owner tenants.ns tenants.typ desired

def consumerPass : Program consumerSignature (Result Unit) :=
  MachinedRs.consumerPass tenants.finalizer tenants.ns tenants.typ

def step (tenancy : Tenancy) : TenancyMove → Option Tenancy
  | .desires desired => some { tenancy with desired := desired }
  | .ownerPasses listings =>
      (storeMachine.complete (tenants.ownerPass tenancy.desired)
        tenancy.objects listings).map fun (_, after, _) =>
          { tenancy with objects := after }
  | .consumerPasses listings =>
      ((consumerMachine fun _ => .ok ()).complete tenants.consumerPass
        ⟨tenancy.objects, []⟩ listings).map fun (_, after, _) =>
          { tenancy with objects := after.objects }

/-- The store starts empty. -/
def system : System Tenancy TenancyMove :=
  { Initial := fun tenancy => tenancy.objects = ∅ ∧ tenancy.desired = []
    step := tenants.step }

/-- Neither pass would change the store. -/
def Quiet (tenancy : Tenancy) : Prop :=
  ∀ move next, (∀ desired, move ≠ .desires desired) →
    tenants.step tenancy move = some next → next.objects = tenancy.objects

/-- No object is desired while it is being torn down. -/
def DesiresNone (tenancy : Tenancy) : TenancyMove → Prop
  | .desires desired => ∀ wanted ∈ desired, ∀ existing,
      tenancy.objects.lookup wanted.key = some existing →
      existing.metadata.phase = .running
  | _ => True

instance (tenancy : Tenancy) : ∀ move, Decidable (DesiresNone tenancy move)
  | .desires desired => inferInstanceAs (Decidable (∀ wanted ∈ desired,
      ∀ existing ∈ tenancy.objects.lookup wanted.key,
        existing.metadata.phase = .running))
  | .ownerPasses _ => isTrue trivial
  | .consumerPasses _ => isTrue trivial

variable {tenants} {tenancy next : Tenancy}

theorem ownerPasses_spec {listings : List (List ResourceObject)}
    (keyed : State.WellKeyed tenancy.objects)
    (stepped : tenants.step tenancy (.ownerPasses listings) = some next) :
    next.desired = tenancy.desired ∧ State.WellKeyed next.objects ∧
      ∀ key, next.objects.lookup key =
        reconciled tenants.owner tenants.ns tenants.typ tenancy.desired
          tenancy.objects key := by
  obtain ⟨⟨result, after, rest⟩, completed, rfl⟩ :=
    Option.map_eq_some_iff.mp stepped
  obtain ⟨_, afterKeyed, lookup⟩ := Machine.post_of_returns
    (reconcileOwned_ensures tenants.owner tenants.ns tenants.typ
      tenancy.desired keyed) (Machine.returns_of_complete completed)
  exact ⟨rfl, afterKeyed, lookup⟩

theorem consumerPasses_spec {listings : List (List ResourceObject)}
    (keyed : State.WellKeyed tenancy.objects)
    (stepped : tenants.step tenancy (.consumerPasses listings) = some next) :
    next.desired = tenancy.desired ∧ State.WellKeyed next.objects ∧
      ∀ key, next.objects.lookup key =
        if key.ns = tenants.ns ∧ key.typ = tenants.typ then
          (tenancy.objects.lookup key).map fun object =>
            object.servedBy tenants.finalizer object
        else
          tenancy.objects.lookup key := by
  obtain ⟨⟨result, after, rest⟩, completed, rfl⟩ :=
    Option.map_eq_some_iff.mp stepped
  have returns := Machine.returns_of_complete completed
  obtain ⟨_, lookup⟩ := Machine.post_of_returns
    (consumerPass_ensures tenants.finalizer tenants.ns tenants.typ keyed)
    returns
  exact ⟨rfl, Machine.post_of_returns (consumer_wellKeyed _ keyed) returns,
    lookup⟩

theorem exists_ownerPasses (tenants : Tenants) (tenancy : Tenancy) :
    ∃ listings next,
      tenants.step tenancy (.ownerPasses listings) = some next := by
  obtain ⟨result, after, returns⟩ :=
    storeMachine_total.returns (tenants.ownerPass tenancy.desired)
      tenancy.objects
  obtain ⟨listings, completed⟩ := returns.complete
  refine ⟨listings, { tenancy with objects := after }, ?_⟩
  simp only [step, completed, Option.map_some]

theorem exists_consumerPasses (tenants : Tenants) (tenancy : Tenancy) :
    ∃ listings next,
      tenants.step tenancy (.consumerPasses listings) = some next := by
  obtain ⟨result, after, returns⟩ :=
    (consumerMachine_total fun _ => .ok ()).returns tenants.consumerPass
      ⟨tenancy.objects, []⟩
  obtain ⟨listings, completed⟩ := returns.complete
  refine ⟨listings, { tenancy with objects := after.objects }, ?_⟩
  simp only [step, completed, Option.map_some]

end Tenants

theorem servedBy_keeps (finalizer : String) (object : ResourceObject) :
    (object.servedBy finalizer object).spec = object.spec ∧
      (object.servedBy finalizer object).metadata.owner =
        object.metadata.owner ∧
      (object.servedBy finalizer object).metadata.phase =
        object.metadata.phase := by
  unfold ResourceObject.servedBy ResourceObject.heldBy ResourceObject.letGoBy
  split
  · split
    · exact ⟨rfl, rfl, rfl⟩
    · exact ⟨rfl, rfl, rfl⟩
  · dsimp only
    split
    · exact ⟨rfl, rfl, rfl⟩
    · exact ⟨rfl, rfl, rfl⟩

theorem heldBy_heldBy (finalizer : String) (object : ResourceObject) :
    (object.heldBy finalizer).heldBy finalizer = object.heldBy finalizer := by
  have held : finalizer ∈ (object.heldBy finalizer).metadata.finalizers := by
    unfold ResourceObject.heldBy
    split
    · assumption
    · exact List.mem_append_right _ (List.mem_singleton_self finalizer)
  rw [ResourceObject.heldBy, if_pos held]

theorem letGoBy_letGoBy (finalizer : String) (object : ResourceObject) :
    (object.letGoBy finalizer).letGoBy finalizer =
      object.letGoBy finalizer := by
  have gone : (object.letGoBy finalizer).metadata.finalizers.filter
      (· ≠ finalizer) = (object.letGoBy finalizer).metadata.finalizers := by
    unfold ResourceObject.letGoBy
    dsimp only
    split
    · change List.filter _ (List.filter _ _) = List.filter _ _
      rw [List.filter_filter]
      simp only [Bool.and_self]
    · rename_i same
      exact (List.filter_sublist).eq_of_length (not_not.mp same)
  rw [ResourceObject.letGoBy, gone, if_neg (not_not.mpr rfl)]

theorem servedBy_again (finalizer : String) (object : ResourceObject) :
    (object.servedBy finalizer object).servedBy finalizer
        (object.servedBy finalizer object) =
      object.servedBy finalizer object := by
  obtain ⟨_, _, phase⟩ := servedBy_keeps finalizer object
  rw [ResourceObject.servedBy, phase]
  unfold ResourceObject.servedBy
  cases object.metadata.phase with
  | running => exact heldBy_heldBy finalizer object
  | tearingDown => exact letGoBy_letGoBy finalizer object

section Upserted

variable {owner ns : String} {typ : ResourceType}
  {desired : List ResourceObject} {objects : Objects}

theorem reconciled_of_mem (keyed : State.WellKeyed objects)
    {wanted : ResourceObject} (member : wanted ∈ desired) :
    reconciled owner ns typ desired objects wanted.key =
      upsertedAt owner desired wanted.key (objects.lookup wanted.key) := by
  by_cases ofType : wanted.key.ns = ns ∧ wanted.key.typ = typ
  · rw [reconciled_of_type objects ofType, reconciledAt_of_mem keyed member]
  · rw [reconciled, if_neg ofType, lookup_upsertAll]

theorem upsertedAt_phase {key : Key} {stored : ResourceObject} :
    ∃ object, upsertedAt owner desired key (some stored) = some object ∧
      object.metadata.phase = stored.metadata.phase := by
  obtain ⟨object, folded, custody⟩ := foldl_upserted_some
    (desired.filter fun object => object.key = key) stored
  exact ⟨object, folded, congrArg (fun parts => parts.2.2) custody⟩

theorem upsertedAt_running {key : Key} {stored : Option ResourceObject}
    {object : ResourceObject}
    (running : ∀ existing, stored = some existing →
      existing.metadata.phase = .running)
    (left : upsertedAt owner desired key stored = some object) :
    object.metadata.phase = .running := by
  cases stored with
  | some existing =>
      obtain ⟨final, folded, phase⟩ := upsertedAt_phase
      rw [folded] at left
      cases left
      exact phase.trans (running existing rfl)
  | none =>
      unfold upsertedAt at left
      cases listed : desired.filter (fun object => object.key = key) with
      | nil =>
          rw [listed] at left
          cases left
      | cons first rest =>
          rw [listed] at left
          obtain ⟨final, folded, custody⟩ :=
            foldl_upserted_some rest (upserted owner first none)
          rw [List.foldl_cons, folded] at left
          cases left
          exact congrArg (fun parts => parts.2.2) custody

end Upserted

namespace Tenants

variable {tenants : Tenants} {tenancy next : Tenancy}

/-- Nothing that is desired is being torn down. -/
structure Alive (tenancy : Tenancy) : Prop where
  keyed : State.WellKeyed tenancy.objects
  running : ∀ wanted ∈ tenancy.desired, ∀ existing,
    tenancy.objects.lookup wanted.key = some existing →
    existing.metadata.phase = .running

theorem Alive.step {move : TenancyMove} (alive : Alive tenancy)
    (meets : DesiresNone tenancy move)
    (stepped : tenants.step tenancy move = some next) : Alive next := by
  cases move with
  | desires desired =>
      cases stepped
      exact ⟨alive.keyed, meets⟩
  | ownerPasses listings =>
      obtain ⟨same, keyed, lookup⟩ := ownerPasses_spec alive.keyed stepped
      refine ⟨keyed, ?_⟩
      intro wanted member object stored
      rw [same] at member
      rw [lookup, reconciled_of_mem alive.keyed member] at stored
      exact upsertedAt_running (alive.running wanted member) stored
  | consumerPasses listings =>
      obtain ⟨same, keyed, lookup⟩ := consumerPasses_spec alive.keyed stepped
      refine ⟨keyed, ?_⟩
      intro wanted member object stored
      rw [same] at member
      rw [lookup] at stored
      split at stored
      · obtain ⟨existing, found, rfl⟩ := Option.map_eq_some_iff.mp stored
        rw [(servedBy_keeps tenants.finalizer existing).2.2]
        exact alive.running wanted member existing found
      · exact alive.running wanted member object stored

theorem alive_of_initial (initial : tenants.system.Initial tenancy) :
    Alive tenancy := by
  obtain ⟨empty, none⟩ := initial
  refine ⟨?_, ?_⟩
  · rw [empty]
    exact State.wellKeyed_empty
  · intro wanted member
    rw [none] at member
    cases member

/-- When the owner's pass would not change the store, what is desired is
stored. -/
theorem stored_of_quiet (keyed : State.WellKeyed tenancy.objects)
    (quiet : tenants.Quiet tenancy) {wanted : ResourceObject}
    (member : wanted ∈ tenancy.desired) :
    ∃ object, tenancy.objects.lookup wanted.key = some object := by
  obtain ⟨listings, next, stepped⟩ := exists_ownerPasses tenants tenancy
  obtain ⟨_, _, lookup⟩ := ownerPasses_spec keyed stepped
  obtain ⟨_, _, _, object, found, _⟩ :=
    exists_upsertedAt tenancy.objects member
  refine ⟨object, ?_⟩
  rw [← quiet (.ownerPasses listings) next nofun stepped, lookup,
    reconciled_of_mem keyed member]
  exact found

theorem quiet_of_settled (keyed : State.WellKeyed tenancy.objects)
    (typed : OfType tenants.ns tenants.typ tenancy.desired)
    (settled : OwnedSettled tenants.owner tenants.ns tenants.typ
      tenancy.desired tenancy.objects)
    (served : ∀ key object, key.ns = tenants.ns → key.typ = tenants.typ →
      tenancy.objects.lookup key = some object →
      object.servedBy tenants.finalizer object = object) :
    tenants.Quiet tenancy := by
  intro move next different stepped
  apply Finmap.ext_lookup
  intro key
  cases move with
  | desires desired => exact absurd rfl (different desired)
  | ownerPasses listings =>
      obtain ⟨_, _, lookup⟩ := ownerPasses_spec keyed stepped
      rw [lookup]
      by_cases ofType : key.ns = tenants.ns ∧ key.typ = tenants.typ
      · rw [reconciled_of_type tenancy.objects ofType]
        obtain ⟨ns, typ, id⟩ := key
        obtain ⟨rfl, rfl⟩ := ofType
        exact settled.reconciledAt id
      · exact reconciled_of_other typed ofType
  | consumerPasses listings =>
      obtain ⟨_, _, lookup⟩ := consumerPasses_spec keyed stepped
      rw [lookup]
      split
      · rename_i ofType
        cases stored : tenancy.objects.lookup key with
        | none => rfl
        | some object =>
            rw [Option.map_some, served key object ofType.1 ofType.2 stored]
      · rfl

/-- Everything desired is published, what is not desired is being torn down, and
the consumer has served every object. -/
structure Rested (tenants : Tenants) (tenancy : Tenancy) : Prop where
  keyed : State.WellKeyed tenancy.objects
  published : ∀ wanted ∈ tenancy.desired, ∃ existing,
    tenancy.objects.lookup wanted.key = some existing ∧
      existing.spec = wanted.spec
  dismissed : ∀ id object,
    tenancy.objects.lookup ⟨tenants.ns, tenants.typ, id⟩ = some object →
    object.metadata.owner = some tenants.owner →
    object.metadata.id ∉
      tenancy.desired.map (fun object => object.metadata.id) →
    object.metadata.phase = .tearingDown
  served : ∀ id object,
    tenancy.objects.lookup ⟨tenants.ns, tenants.typ, id⟩ = some object →
    object.servedBy tenants.finalizer object = object

theorem settled_of_ownerPasses {listings : List (List ResourceObject)}
    (keyed : State.WellKeyed tenancy.objects)
    (typed : OfType tenants.ns tenants.typ tenancy.desired)
    (agreeing : Agreeing tenancy.desired)
    (stepped : tenants.step tenancy (.ownerPasses listings) = some next) :
    OwnedSettled tenants.owner tenants.ns tenants.typ next.desired
      next.objects := by
  obtain ⟨same, _, lookup⟩ := ownerPasses_spec keyed stepped
  rw [same]
  apply settled_of_reconciledAt keyed typed agreeing
  intro id
  rw [lookup]
  exact reconciled_of_type tenancy.objects ⟨rfl, rfl⟩

theorem rested_of_settled {listings : List (List ResourceObject)}
    (keyed : State.WellKeyed tenancy.objects)
    (typed : OfType tenants.ns tenants.typ tenancy.desired)
    (settled : OwnedSettled tenants.owner tenants.ns tenants.typ
      tenancy.desired tenancy.objects)
    (stepped : tenants.step tenancy (.consumerPasses listings) = some next) :
    tenants.Rested next := by
  obtain ⟨same, nextKeyed, lookup⟩ := consumerPasses_spec keyed stepped
  have before : ∀ id object,
      next.objects.lookup ⟨tenants.ns, tenants.typ, id⟩ = some object →
      ∃ existing,
        tenancy.objects.lookup ⟨tenants.ns, tenants.typ, id⟩ =
          some existing ∧
        object = existing.servedBy tenants.finalizer existing := by
    intro id object stored
    rw [lookup, if_pos ⟨rfl, rfl⟩] at stored
    obtain ⟨existing, found, served⟩ := Option.map_eq_some_iff.mp stored
    exact ⟨existing, found, served.symm⟩
  refine ⟨nextKeyed, ?_, ?_, ?_⟩
  · intro wanted member
    rw [same] at member
    obtain ⟨existing, stored, spec⟩ := settled.published wanted member
    refine ⟨existing.servedBy tenants.finalizer existing, ?_, ?_⟩
    · rw [lookup, if_pos (typed wanted member), stored]
      rfl
    · rw [(servedBy_keeps tenants.finalizer existing).1, spec]
  · intro id object stored owned undesired
    obtain ⟨existing, found, rfl⟩ := before id object stored
    obtain ⟨_, sameOwner, samePhase⟩ :=
      servedBy_keeps tenants.finalizer existing
    have sameId : existing.metadata.id =
        (existing.servedBy tenants.finalizer existing).metadata.id :=
      (congrArg Key.id (keyed _ existing found)).trans
        (congrArg Key.id (nextKeyed _ _ stored)).symm
    rw [sameOwner] at owned
    rw [← sameId, same] at undesired
    rw [samePhase]
    exact (settled.dismissed id existing found owned undesired).1
  · intro id object stored
    obtain ⟨existing, _, rfl⟩ := before id object stored
    exact servedBy_again tenants.finalizer existing

theorem Rested.ownerPasses_removes {listings : List (List ResourceObject)}
    (rested : tenants.Rested tenancy)
    (stepped : tenants.step tenancy (.ownerPasses listings) = some next)
    {id : String} {object : ResourceObject}
    (left : next.objects.lookup ⟨tenants.ns, tenants.typ, id⟩ =
      some object) :
    tenancy.objects.lookup ⟨tenants.ns, tenants.typ, id⟩ = some object := by
  obtain ⟨_, _, lookup⟩ := ownerPasses_spec rested.keyed stepped
  have ofType : reconciled tenants.owner tenants.ns tenants.typ
      tenancy.desired tenancy.objects ⟨tenants.ns, tenants.typ, id⟩ =
        reconciledAt tenants.owner tenancy.desired
          ⟨tenants.ns, tenants.typ, id⟩
          (tenancy.objects.lookup ⟨tenants.ns, tenants.typ, id⟩) :=
    reconciled_of_type tenancy.objects ⟨rfl, rfl⟩
  rw [lookup, ofType, reconciledAt,
    upsertedAt_of_published rested.published] at left
  obtain ⟨existing, stored, remains⟩ := Option.bind_eq_some_iff.mp left
  unfold collected at remains
  split at remains
  · rename_i undesired
    have phase := rested.dismissed id existing stored undesired.1 undesired.2
    split at remains
    · cases remains
    · rw [tornDown_of_tearingDown phase] at remains
      cases remains
      exact stored
  · cases remains
    exact stored

theorem Rested.quiet {listings : List (List ResourceObject)}
    (rested : tenants.Rested tenancy)
    (typed : OfType tenants.ns tenants.typ tenancy.desired)
    (agreeing : Agreeing tenancy.desired)
    (stepped : tenants.step tenancy (.ownerPasses listings) = some next) :
    tenants.Quiet next := by
  obtain ⟨same, nextKeyed, _⟩ := ownerPasses_spec rested.keyed stepped
  refine quiet_of_settled nextKeyed ?_
    (settled_of_ownerPasses rested.keyed typed agreeing stepped) ?_
  · rwa [same]
  · rintro ⟨ns, typ, id⟩ object rfl rfl stored
    exact rested.served id object (rested.ownerPasses_removes stepped stored)

theorem ownerPasses_phase {listings : List (List ResourceObject)}
    (keyed : State.WellKeyed tenancy.objects)
    (stepped : tenants.step tenancy (.ownerPasses listings) = some next)
    {wanted existing : ResourceObject} (member : wanted ∈ tenancy.desired)
    (stored : tenancy.objects.lookup wanted.key = some existing) :
    ∃ object, next.objects.lookup wanted.key = some object ∧
      object.metadata.phase = existing.metadata.phase := by
  obtain ⟨_, _, lookup⟩ := ownerPasses_spec keyed stepped
  rw [lookup, reconciled_of_mem keyed member, stored]
  exact upsertedAt_phase

theorem consumerPasses_phase {listings : List (List ResourceObject)}
    (keyed : State.WellKeyed tenancy.objects)
    (stepped : tenants.step tenancy (.consumerPasses listings) = some next)
    {key : Key} {existing : ResourceObject}
    (stored : tenancy.objects.lookup key = some existing) :
    ∃ object, next.objects.lookup key = some object ∧
      object.metadata.phase = existing.metadata.phase := by
  obtain ⟨_, _, lookup⟩ := consumerPasses_spec keyed stepped
  rw [lookup, stored]
  split
  · exact ⟨_, rfl, (servedBy_keeps tenants.finalizer existing).2.2⟩
  · exact ⟨_, rfl, rfl⟩

/-- The passes come to rest, and the phases of what is desired are then what
they were. -/
theorem comes_to_quiet (keyed : State.WellKeyed tenancy.objects)
    (typed : OfType tenants.ns tenants.typ tenancy.desired)
    (agreeing : Agreeing tenancy.desired) :
    ∃ labels final, tenants.system.run tenancy labels = some final ∧
      tenants.system.MeetsAll DesiresNone tenancy labels ∧
      tenants.Quiet final ∧ final.desired = tenancy.desired ∧
      ∀ wanted ∈ tenancy.desired, ∀ existing,
        tenancy.objects.lookup wanted.key = some existing →
        ∃ object, final.objects.lookup wanted.key = some object ∧
          object.metadata.phase = existing.metadata.phase := by
  obtain ⟨ownerOrder, first, owned⟩ := exists_ownerPasses tenants tenancy
  obtain ⟨consumerOrder, second, consumed⟩ :=
    exists_consumerPasses tenants first
  obtain ⟨againOrder, final, again⟩ := exists_ownerPasses tenants second
  obtain ⟨firstSame, firstKeyed, _⟩ := ownerPasses_spec keyed owned
  obtain ⟨secondSame, secondKeyed, _⟩ := consumerPasses_spec firstKeyed consumed
  obtain ⟨finalSame, _, _⟩ := ownerPasses_spec secondKeyed again
  have firstTyped : OfType tenants.ns tenants.typ first.desired := by
    rwa [firstSame]
  have rested : tenants.Rested second :=
    rested_of_settled firstKeyed firstTyped
      (settled_of_ownerPasses keyed typed agreeing owned) consumed
  refine ⟨[.ownerPasses ownerOrder, .consumerPasses consumerOrder,
    .ownerPasses againOrder], final, ?_, ?_, ?_, ?_, ?_⟩
  · refine System.run_cons_eq_some.mpr ⟨first, owned, ?_⟩
    refine System.run_cons_eq_some.mpr ⟨second, consumed, ?_⟩
    exact System.run_cons_eq_some.mpr ⟨final, again, rfl⟩
  · exact ⟨trivial, fun _ _ => ⟨trivial, fun _ _ => ⟨trivial, fun _ _ =>
      trivial⟩⟩⟩
  · apply rested.quiet _ _ again
    · rwa [secondSame]
    · rwa [secondSame, firstSame]
  · rw [finalSame, secondSame, firstSame]
  · intro wanted member existing stored
    obtain ⟨atFirst, firstStored, firstPhase⟩ :=
      ownerPasses_phase keyed owned member stored
    obtain ⟨atSecond, secondStored, secondPhase⟩ :=
      consumerPasses_phase firstKeyed consumed firstStored
    have stillDesired : wanted ∈ second.desired := by
      rwa [secondSame, firstSame]
    obtain ⟨object, found, phase⟩ :=
      ownerPasses_phase secondKeyed again stillDesired secondStored
    exact ⟨object, found, phase.trans (secondPhase.trans firstPhase)⟩

theorem wellKeyed_of_step {move : TenancyMove}
    (keyed : State.WellKeyed tenancy.objects)
    (stepped : tenants.step tenancy move = some next) :
    State.WellKeyed next.objects := by
  cases move with
  | desires desired =>
      cases stepped
      exact keyed
  | ownerPasses listings => exact (ownerPasses_spec keyed stepped).2.1
  | consumerPasses listings => exact (consumerPasses_spec keyed stepped).2.1

theorem wellKeyed_of_reachable
    (reachable : tenants.system.Reachable tenancy) :
    State.WellKeyed tenancy.objects :=
  reachable.invariant (fun _ initial => (alive_of_initial initial).keyed)
    (fun _ _ _ stepped keyed => wellKeyed_of_step keyed stepped)

end Tenants

open Tenants

/-- When an object that is desired again comes back to life.  If no object is
ever desired while it is being torn down, then in every state that no further
pass changes, everything desired is running.  And wherever the owner does desire
an object that is being torn down, the passes can come to rest with that object
torn down. -/
theorem desired_objects_run (tenants : Tenants) :
    (∀ start labels tenancy, tenants.system.Initial start →
      tenants.system.run start labels = some tenancy →
      tenants.system.MeetsAll DesiresNone start labels →
      tenants.Quiet tenancy →
      ∀ wanted ∈ tenancy.desired, ∃ object,
        tenancy.objects.lookup wanted.key = some object ∧
          object.metadata.phase = .running) ∧
    (∀ tenancy desired, tenants.system.Reachable tenancy →
      OfType tenants.ns tenants.typ desired → Agreeing desired →
      ¬ DesiresNone tenancy (.desires desired) →
      ∃ labels final, tenants.system.run tenancy
          (.desires desired :: labels) = some final ∧
        tenants.Quiet final ∧ final.desired = desired ∧
        ∃ wanted ∈ desired, ∃ object,
          final.objects.lookup wanted.key = some object ∧
            object.metadata.phase = .tearingDown) := by
  constructor
  · intro start labels tenancy initial result meets quiet wanted member
    have alive : Alive tenancy :=
      System.run_invariant_of_meetsAll
        (fun _ _ _ met stepped kept => kept.step met stepped) meets result
        (alive_of_initial initial)
    obtain ⟨object, stored⟩ := stored_of_quiet alive.keyed quiet member
    exact ⟨object, stored, alive.running wanted member object stored⟩
  · intro tenancy desired reachable typed agreeing violated
    have keyed := wellKeyed_of_reachable reachable
    obtain ⟨labels, final, result, _, quiet, same, phases⟩ :=
      @comes_to_quiet tenants { tenancy with desired := desired } keyed typed
        agreeing
    simp only [DesiresNone, not_forall] at violated
    obtain ⟨wanted, member, existing, stored, condemned⟩ := violated
    obtain ⟨object, found, phase⟩ := phases wanted member existing stored
    refine ⟨labels, final, result, quiet, same, wanted, member, object, found,
      ?_⟩
    cases isPhase : existing.metadata.phase with
    | running => exact absurd isPhase condemned
    | tearingDown => rw [phase, isPhase]

/-- A controller that publishes services and one that holds them. -/
def serviceTenants : Tenants :=
  ⟨"ctl", "routes", "runtime", .serviceStatus⟩

theorem etcdService_ofType :
    OfType "runtime" .serviceStatus [etcdService] := by
  intro wanted member
  rw [List.mem_singleton.mp member]
  exact ⟨rfl, rfl⟩

theorem agreeing_singleton (object : ResourceObject) : Agreeing [object] := by
  intro one oneMember other otherMember _
  rw [List.mem_singleton.mp oneMember, List.mem_singleton.mp otherMember]

/-- The service is published, held by its consumer and withdrawn. -/
def withdrawal : List TenancyMove :=
  let published := (etcdService.withOwner "ctl").fresh
  [.desires [etcdService], .ownerPasses [[], [], [published]],
    .consumerPasses [[published], [], []], .desires [],
    .ownerPasses [[published.heldBy "routes"], []]]

/-- Its consumer lets go of it, and its owner collects it. -/
def collection : List TenancyMove :=
  let torn := (((etcdService.withOwner "ctl").fresh.heldBy
    "routes").withPhase .tearingDown).bump
  [.consumerPasses [[torn], [], []],
    .ownerPasses [[(torn.withFinalizers []).bump], [], [], []]]

/-- A service that is desired again when it is gone runs when the passes have
come to rest. -/
theorem desired_objects_run_etcd :
    ∃ labels tenancy,
      serviceTenants.system.run ⟨∅, []⟩ (withdrawal ++ collection ++
        .desires [etcdService] :: labels) = some tenancy ∧
      tenancy.desired = [etcdService] ∧
      ∃ object, tenancy.objects.lookup etcdService.key = some object ∧
        object.metadata.phase = .running := by
  have computed : (serviceTenants.system.run ⟨∅, []⟩
      (withdrawal ++ collection)).map
        (fun tenancy => tenancy.objects.lookup etcdService.key) =
      some none := by
    decide +kernel
  obtain ⟨collected, ran, gone⟩ := Option.map_eq_some_iff.mp computed
  have keyed : State.WellKeyed collected.objects :=
    @wellKeyed_of_reachable serviceTenants collected
      ⟨⟨∅, []⟩, _, ⟨rfl, rfl⟩, ran⟩
  obtain ⟨labels, tenancy, rest, meets, quiet, same, _⟩ :=
    @comes_to_quiet serviceTenants { collected with desired := [etcdService] }
      keyed etcdService_ofType (agreeing_singleton etcdService)
  have unstored : DesiresNone collected (.desires [etcdService]) := by
    intro wanted member existing stored
    rw [List.mem_singleton.mp member, gone] at stored
    cases stored
  have result : serviceTenants.system.run ⟨∅, []⟩ (withdrawal ++ collection ++
      .desires [etcdService] :: labels) = some tenancy := by
    rw [System.run_append, ran]
    exact rest
  have meetsAll : serviceTenants.system.MeetsAll DesiresNone ⟨∅, []⟩
      (withdrawal ++ collection ++ .desires [etcdService] :: labels) := by
    refine System.meetsAll_append (by decide +kernel) ?_
    intro middle reached
    cases ran.symm.trans reached
    refine ⟨unstored, ?_⟩
    rintro _ ⟨⟩
    exact meets
  refine ⟨labels, tenancy, result, same, ?_⟩
  apply (desired_objects_run serviceTenants).1 ⟨∅, []⟩ _ tenancy ⟨rfl, rfl⟩
    result meetsAll quiet
  rw [same]
  exact List.mem_singleton_self etcdService

/-- Desired again while its consumer still holds it, the service stays torn
down: no further pass changes the store. -/
theorem desired_again_stays_down :
    ∃ tenancy, serviceTenants.system.Reachable tenancy ∧
      serviceTenants.Quiet tenancy ∧ tenancy.desired = [etcdService] ∧
      ∃ object, tenancy.objects.lookup etcdService.key = some object ∧
        object.metadata.phase = .tearingDown := by
  have computed : (serviceTenants.system.run ⟨∅, []⟩ withdrawal).map
      (fun tenancy => (tenancy.objects.lookup etcdService.key).map
        fun object => object.metadata.phase) =
      some (some .tearingDown) := by
    decide +kernel
  obtain ⟨withdrawn, result, found⟩ := Option.map_eq_some_iff.mp computed
  obtain ⟨existing, stored, condemned⟩ := Option.map_eq_some_iff.mp found
  have reached : serviceTenants.system.Reachable withdrawn :=
    ⟨⟨∅, []⟩, withdrawal, ⟨rfl, rfl⟩, result⟩
  have keyed := wellKeyed_of_reachable reached
  obtain ⟨labels, tenancy, later, _, quiet, same, phases⟩ :=
    @comes_to_quiet serviceTenants
      { withdrawn with desired := [etcdService] } keyed etcdService_ofType
      (agreeing_singleton etcdService)
  obtain ⟨object, remains, phase⟩ := phases etcdService
    (List.mem_singleton_self etcdService) existing stored
  have desiredAgain : serviceTenants.system.run withdrawn
      (.desires [etcdService] :: labels) = some tenancy := later
  exact ⟨tenancy, reached.run desiredAgain, quiet, same, object, remains,
    phase.trans condemned⟩

end MachinedRs
