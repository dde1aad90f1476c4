import MachinedRs.RuntimeCore.Settled

/-!
# What `reconcile_owned` promises

A pass that runs alone over objects that are the owner's own and running brings
them to the desired set and leaves the rest of the store alone; the next pass
is silent.  The pass does not look at the owner of an object before it updates
it: an object of somebody else, or of nobody, keeps its spec exactly when every
desired object under its key asks for that spec.
-/

namespace MachinedRs

open Foundation

/-- The store after a pass that reached the desired set. -/
structure ReachesDesired (owner ns : String) (typ : ResourceType)
    (desired : List ResourceObject) (objects after : Objects) : Prop where
  running : ∀ wanted ∈ desired, ∃ object,
    after.lookup wanted.key = some object ∧
      object.metadata.phase = .running ∧ object.spec = wanted.spec
  created : ∀ wanted ∈ desired, objects.lookup wanted.key = none →
    after.lookup wanted.key = some (wanted.withOwner owner).fresh
  kept : ∀ wanted ∈ desired, ∀ existing,
    objects.lookup wanted.key = some existing →
    existing.spec = wanted.spec → after.lookup wanted.key = some existing
  updated : ∀ wanted ∈ desired, ∀ existing,
    objects.lookup wanted.key = some existing →
    existing.spec ≠ wanted.spec →
    after.lookup wanted.key = some (existing.withSpec wanted.spec).bump
  gone : ∀ id existing, objects.lookup ⟨ns, typ, id⟩ = some existing →
    existing.metadata.owner = some owner →
    id ∉ desired.map (fun object => object.metadata.id) →
    existing.metadata.finalizers = [] →
    after.lookup ⟨ns, typ, id⟩ = none
  held : ∀ id existing, objects.lookup ⟨ns, typ, id⟩ = some existing →
    existing.metadata.owner = some owner →
    id ∉ desired.map (fun object => object.metadata.id) →
    existing.metadata.finalizers ≠ [] →
    ∃ object, after.lookup ⟨ns, typ, id⟩ = some object ∧
      object.metadata.phase = .tearingDown ∧ object.spec = existing.spec ∧
      object.metadata.finalizers = existing.metadata.finalizers
  untouched : ∀ key, key ∉ desired.map ResourceObject.key →
    (∀ existing, objects.lookup key = some existing →
      ¬ (key.ns = ns ∧ key.typ = typ ∧
        existing.metadata.owner = some owner)) →
    after.lookup key = objects.lookup key

section Reaching

variable {owner ns : String} {typ : ResourceType}
  {desired : List ResourceObject} {objects after : Objects}

theorem OfType.key_eq (typed : OfType ns typ desired)
    {wanted : ResourceObject} (member : wanted ∈ desired) :
    wanted.key = ⟨ns, typ, wanted.metadata.id⟩ := by
  obtain ⟨ofNs, ofTyp⟩ := typed wanted member
  rw [← ofNs, ← ofTyp]
  rfl

theorem OfType.nodup_keys (typed : OfType ns typ desired)
    (distinct : (desired.map fun object => object.metadata.id).Nodup) :
    (desired.map ResourceObject.key).Nodup := by
  have keys : desired.map ResourceObject.key =
      (desired.map fun object => object.metadata.id).map (Key.mk ns typ) := by
    rw [List.map_map]
    exact List.map_congr_left fun object member => typed.key_eq member
  rw [keys]
  exact distinct.map fun one other same => congrArg Key.id same

theorem reconciled_of_desired (keyed : State.WellKeyed objects)
    (typed : OfType ns typ desired)
    (distinct : (desired.map fun object => object.metadata.id).Nodup)
    {wanted : ResourceObject} (member : wanted ∈ desired) :
    reconciled owner ns typ desired objects wanted.key =
      some (upserted owner wanted (objects.lookup wanted.key)) := by
  rw [reconciled_of_type objects (typed wanted member),
    reconciledAt_of_mem keyed member, ← lookup_upsertAll]
  exact lookup_upsertAll_of_mem owner objects member
    (typed.nodup_keys distinct)

theorem reconciled_of_undesired
    {key : Key} (undesired : key ∉ desired.map ResourceObject.key) :
    reconciled owner ns typ desired objects key =
      if key.ns = ns ∧ key.typ = typ then
        (objects.lookup key).bind
          (collected owner (desired.map fun object => object.metadata.id))
      else
        objects.lookup key := by
  rw [reconciled, lookup_upsertAll_of_notMem owner desired objects undesired]

theorem notMem_keys {id : String}
    (undesired : id ∉ desired.map fun object => object.metadata.id) :
    (⟨ns, typ, id⟩ : Key) ∉ desired.map ResourceObject.key := by
  intro member
  obtain ⟨wanted, isDesired, same⟩ := List.mem_map.mp member
  apply undesired
  have sameId : wanted.metadata.id = id := congrArg Key.id same
  rw [← sameId]
  exact List.mem_map_of_mem isDesired

theorem collected_of_undesired {desiredIds : List String}
    {object : ResourceObject} (owned : object.metadata.owner = some owner)
    (undesired : object.metadata.id ∉ desiredIds) :
    collected owner desiredIds object =
      if object.metadata.finalizers.isEmpty then none
      else some object.tornDown :=
  if_pos ⟨owned, undesired⟩

theorem ResourceObject.tornDown_spec (object : ResourceObject) :
    object.tornDown.spec = object.spec := by
  unfold ResourceObject.tornDown
  split
  · rfl
  · rfl

theorem upserted_phase {wanted : ResourceObject}
    {stored : Option ResourceObject}
    (running : ∀ existing, stored = some existing →
      existing.metadata.phase = .running) :
    (upserted owner wanted stored).metadata.phase = .running := by
  cases stored with
  | none => rfl
  | some existing =>
      have before := running existing rfl
      simp only [upserted]
      split
      · exact before
      · exact before

theorem reachesDesired_of_lookup (keyed : State.WellKeyed objects)
    (typed : OfType ns typ desired)
    (distinct : (desired.map fun object => object.metadata.id).Nodup)
    (ready : ∀ wanted ∈ desired, ∀ existing,
      objects.lookup wanted.key = some existing →
      existing.metadata.phase = .running)
    (lookup : ∀ key, after.lookup key =
      reconciled owner ns typ desired objects key) :
    ReachesDesired owner ns typ desired objects after := by
  have desiredAt : ∀ wanted ∈ desired, after.lookup wanted.key =
      some (upserted owner wanted (objects.lookup wanted.key)) := by
    intro wanted member
    rw [lookup]
    exact reconciled_of_desired keyed typed distinct member
  have otherAt : ∀ id existing,
      objects.lookup ⟨ns, typ, id⟩ = some existing →
      existing.metadata.owner = some owner →
      id ∉ desired.map (fun object => object.metadata.id) →
      after.lookup ⟨ns, typ, id⟩ =
        if existing.metadata.finalizers.isEmpty then none
        else some existing.tornDown := by
    intro id existing stored owned undesired
    have sameId : existing.metadata.id = id :=
      congrArg Key.id (keyed _ existing stored)
    rw [lookup, reconciled_of_undesired (notMem_keys undesired),
      if_pos ⟨rfl, rfl⟩, stored, Option.bind_some,
      collected_of_undesired owned (by rwa [sameId])]
  refine ⟨?_, ?_, ?_, ?_, ?_, ?_, ?_⟩
  · intro wanted member
    exact ⟨_, desiredAt wanted member, upserted_phase (ready wanted member),
      upserted_spec owner wanted _⟩
  · intro wanted member absent
    rw [desiredAt wanted member, absent]
    rfl
  · intro wanted member existing stored same
    rw [desiredAt wanted member, stored, upserted, if_neg (not_not.mpr same)]
  · intro wanted member existing stored different
    rw [desiredAt wanted member, stored, upserted, if_pos different]
  · intro id existing stored owned undesired released
    rw [otherAt id existing stored owned undesired, released]
    rfl
  · intro id existing stored owned undesired held
    refine ⟨existing.tornDown, ?_, tornDown_phase existing,
      existing.tornDown_spec, existing.tornDown_finalizers⟩
    rw [otherAt id existing stored owned undesired, if_neg]
    rwa [List.isEmpty_iff]
  · intro key undesired foreign
    rw [lookup, reconciled_of_undesired undesired]
    split
    · rename_i ofType
      cases stored : objects.lookup key with
      | none => rfl
      | some existing =>
          rw [Option.bind_some, collected, if_neg]
          rintro ⟨owned, _⟩
          exact foreign existing stored ⟨ofType.1, ofType.2, owned⟩
    · rfl

theorem agreeing_of_nodup
    (distinct : (desired.map ResourceObject.key).Nodup) :
    Agreeing desired := by
  intro one oneMember other otherMember same
  rw [List.inj_on_of_nodup_map distinct oneMember otherMember same]

end Reaching

/-- `reconcile_owned` reaches the desired set.  Over a store in which every
desired id is absent or belongs to the owner and is running, the pass returns,
succeeds, leaves what is desired running with its spec, collects what the owner
no longer desires and touches nothing else.  A second pass succeeds, changes
nothing and sends nothing. -/
theorem reconcile_owned_reaches_desired (owner ns : String)
    (typ : ResourceType) (desired : List ResourceObject) (objects : Objects)
    (sent : List Event) (keyed : State.WellKeyed objects)
    (typed : OfType ns typ desired)
    (distinct : (desired.map fun object => object.metadata.id).Nodup)
    (ready : ∀ wanted ∈ desired, ∀ existing,
      objects.lookup wanted.key = some existing →
      existing.metadata.phase = .running ∧
        existing.metadata.owner = some owner) :
    (∃ result after events,
      announcing.Returns (reconcileOwned owner ns typ desired)
        (objects, sent) result (after, events)) ∧
    ∀ result after events,
      announcing.Returns (reconcileOwned owner ns typ desired)
        (objects, sent) result (after, events) →
      result = .ok () ∧
        ReachesDesired owner ns typ desired objects after ∧
        (∃ second final,
          announcing.Returns (reconcileOwned owner ns typ desired)
            (after, events) second final) ∧
        ∀ second final,
          announcing.Returns (reconcileOwned owner ns typ desired)
            (after, events) second final →
          second = .ok () ∧ final = (after, events) := by
  constructor
  · obtain ⟨result, ⟨after, events⟩, returns⟩ :=
      announcing_total.returns (reconcileOwned owner ns typ desired)
        (objects, sent)
    exact ⟨result, after, events, returns⟩
  · intro result after events returns
    obtain ⟨succeeded, afterKeyed, lookup⟩ := Machine.post_of_returns
      (ensures_announcing (reconcileOwned_ensures owner ns typ desired keyed))
      returns
    have settled : OwnedSettled owner ns typ desired after := by
      apply settled_of_reconciledAt keyed typed
        (agreeing_of_nodup (typed.nodup_keys distinct))
      intro id
      rw [← reconciled_of_type objects ⟨rfl, rfl⟩]
      exact lookup _
    refine ⟨succeeded, ?_, ?_, ?_⟩
    · exact reachesDesired_of_lookup keyed typed distinct
        (fun wanted member existing stored =>
          (ready wanted member existing stored).1) lookup
    · exact announcing_total.returns _ _
    · intro second final again
      have idle : announcing.Ensures
          (fun result state => result = .ok () ∧ state = (after, events))
          (reconcileOwned owner ns typ desired) (after, events) :=
        reconcileOwned_idle afterKeyed settled
      obtain ⟨secondSucceeded, unchanged⟩ :=
        Machine.post_of_returns idle again
      exact ⟨secondSucceeded, unchanged⟩

/-- An object of the owner that is still held by a finalizer. -/
def heldService : ResourceObject :=
  ((etcdService.withOwner "ctl").withFinalizers ["routes"]).fresh

def heldStore : Objects :=
  Finmap.singleton heldService.key heldService

theorem heldStore_wellKeyed : State.WellKeyed heldStore :=
  State.wellKeyed_singleton heldService

/-- The owner desires another service than the one it has. -/
theorem reconcile_owned_reaches_desired_replacing :
    ∃ after events,
      announcing.Returns
        (reconcileOwned "ctl" "runtime" .serviceStatus [kubeletService])
        (heldStore, []) (.ok ()) (after, events) ∧
      ∃ object, after.lookup heldService.key = some object ∧
        object.metadata.phase = .tearingDown ∧
        object.metadata.finalizers = ["routes"] := by
  have typed : OfType "runtime" .serviceStatus [kubeletService] := by
    intro wanted member
    rw [List.mem_singleton.mp member]
    exact ⟨rfl, rfl⟩
  have ready : ∀ wanted ∈ [kubeletService], ∀ existing,
      heldStore.lookup wanted.key = some existing →
      existing.metadata.phase = .running ∧
        existing.metadata.owner = some "ctl" := by
    intro wanted member existing stored
    rw [List.mem_singleton.mp member] at stored
    cases stored
  obtain ⟨⟨result, after, events, returns⟩, correct⟩ :=
    reconcile_owned_reaches_desired "ctl" "runtime" .serviceStatus
      [kubeletService] heldStore [] heldStore_wellKeyed typed (by decide) ready
  obtain ⟨rfl, reaches, _, _⟩ := correct result after events returns
  obtain ⟨object, found, phase, _, finalizers⟩ :=
    reaches.held "etcd" heldService rfl rfl (by decide) (by decide)
  exact ⟨after, events, returns, object, found, phase, finalizers⟩

/-- Nothing about the object that matters to others has changed. -/
structure Unharmed (object left : ResourceObject) : Prop where
  spec : left.spec = object.spec
  version : left.metadata.version = object.metadata.version
  phase : left.metadata.phase = object.metadata.phase
  finalizers : left.metadata.finalizers = object.metadata.finalizers

/-- Every desired object under the key of an object that is not the owner's asks
for the spec that is stored. -/
def RespectsForeign (owner : String) (desired : List ResourceObject)
    (objects : Objects) : Prop :=
  ∀ wanted ∈ desired, ∀ existing,
    objects.lookup wanted.key = some existing →
    existing.metadata.owner ≠ some owner → existing.spec = wanted.spec

section Foreign

variable {owner ns : String} {typ : ResourceType}
  {desired : List ResourceObject} {objects : Objects}

theorem foldl_upserted_some (list : List ResourceObject)
    (stored : ResourceObject) :
    ∃ final, list.foldl
        (fun stored object => some (upserted owner object stored))
        (some stored) = some final ∧ final.custody = stored.custody := by
  induction list generalizing stored with
  | nil => exact ⟨stored, rfl, rfl⟩
  | cons object list induction =>
      obtain ⟨final, folded, same⟩ :=
        induction (upserted owner object (some stored))
      refine ⟨final, folded, same.trans ?_⟩
      simp only [upserted]
      split
      · rfl
      · rfl

/-- What the pass leaves of an object that is not the owner's is what its first
loop made of it. -/
theorem reconciled_of_foreign {key : Key} {object : ResourceObject}
    (stored : objects.lookup key = some object)
    (foreign : object.metadata.owner ≠ some owner) :
    reconciled owner ns typ desired objects key =
      upsertedAt owner desired key (some object) := by
  obtain ⟨final, folded, custody⟩ := foldl_upserted_some
    (desired.filter fun object => object.key = key) object
  rw [reconciled, lookup_upsertAll, stored, upsertedAt, folded]
  split
  · rw [Option.bind_some, collected, if_neg]
    rintro ⟨owned, _⟩
    have sameOwner : final.metadata.owner = object.metadata.owner :=
      congrArg Prod.fst custody
    rw [sameOwner] at owned
    exact foreign owned
  · rfl

end Foreign

/-- Ownership isolation.  A pass leaves the objects of others and of nobody as
they are if and only if the desired list respects their specs. -/
theorem foreign_unharmed_iff (owner ns : String) (typ : ResourceType)
    (desired : List ResourceObject) (objects : Objects)
    (keyed : State.WellKeyed objects) :
    (∀ result after,
      storeMachine.Returns (reconcileOwned owner ns typ desired) objects
        result after →
      ∀ key object, objects.lookup key = some object →
        object.metadata.owner ≠ some owner →
        ∃ left, after.lookup key = some left ∧ Unharmed object left) ↔
      RespectsForeign owner desired objects := by
  constructor
  · intro unharmed wanted member existing stored foreign
    obtain ⟨result, after, returns⟩ :=
      storeMachine_total.returns (reconcileOwned owner ns typ desired) objects
    obtain ⟨_, _, lookup⟩ := Machine.post_of_returns
      (reconcileOwned_ensures owner ns typ desired keyed) returns
    obtain ⟨left, found, same⟩ :=
      unharmed result after returns wanted.key existing stored foreign
    obtain ⟨final, folded, _, kept⟩ := foldl_upserted_version owner
      (desired.filter fun object => object.key = wanted.key) existing
    rw [lookup, reconciled_of_foreign stored foreign, upsertedAt, folded]
      at found
    cases found
    exact (kept same.version wanted
      (List.mem_filter.mpr ⟨member, decide_eq_true rfl⟩)).symm
  · intro respects result after returns key object stored foreign
    obtain ⟨_, _, lookup⟩ := Machine.post_of_returns
      (reconcileOwned_ensures owner ns typ desired keyed) returns
    refine ⟨object, ?_, rfl, rfl, rfl, rfl⟩
    rw [lookup, reconciled_of_foreign stored foreign]
    apply foldl_upserted_of_spec
    intro wanted filtered
    obtain ⟨member, same⟩ := List.mem_filter.mp filtered
    rw [← of_decide_eq_true same] at stored
    exact (respects wanted member object stored foreign).symm

/-- A store with the service of another controller. -/
theorem foreign_unharmed_otherId :
    ∃ result after,
      storeMachine.Returns
        (reconcileOwned "api" "runtime" .serviceStatus [kubeletService])
        heldStore result after ∧
      ∃ left, after.lookup heldService.key = some left ∧
        Unharmed heldService left := by
  have respects : RespectsForeign "api" [kubeletService] heldStore := by
    intro wanted member existing stored
    rw [List.mem_singleton.mp member] at stored
    cases stored
  obtain ⟨result, after, returns⟩ := storeMachine_total.returns
    (reconcileOwned "api" "runtime" .serviceStatus [kubeletService]) heldStore
  have unharmed := (foreign_unharmed_iff "api" "runtime" .serviceStatus
    [kubeletService] heldStore heldStore_wellKeyed).mpr respects
  exact ⟨result, after, returns, unharmed result after returns heldService.key
    heldService rfl (by decide)⟩

/-- Another controller desires the service with a spec of its own. -/
def claimedService : ResourceObject :=
  etcdService.withSpec (.serviceStatus ⟨"etcd", .running, true, "api"⟩)

/-- The pass overwrites an object that is not its owner's. -/
theorem foreign_overwritten :
    ∃ result after,
      storeMachine.Returns
        (reconcileOwned "api" "runtime" .serviceStatus [claimedService])
        heldStore result after ∧
      ¬ ∃ left, after.lookup heldService.key = some left ∧
        Unharmed heldService left := by
  obtain ⟨result, after, returns⟩ := storeMachine_total.returns
    (reconcileOwned "api" "runtime" .serviceStatus [claimedService]) heldStore
  refine ⟨result, after, returns, ?_⟩
  rintro ⟨left, found, unharmed⟩
  obtain ⟨_, _, lookup⟩ := Machine.post_of_returns
    (reconcileOwned_ensures "api" "runtime" .serviceStatus [claimedService]
      heldStore_wellKeyed) returns
  have overwritten : upsertedAt "api" [claimedService] heldService.key
      (some heldService) =
        some (heldService.withSpec claimedService.spec).bump := by
    decide
  have stored : heldStore.lookup heldService.key = some heldService := rfl
  rw [lookup, reconciled_of_foreign stored (by decide), overwritten] at found
  cases found
  cases unharmed.version

end MachinedRs
