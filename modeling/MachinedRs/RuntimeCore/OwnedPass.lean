import MachinedRs.Foundation.Machine
import MachinedRs.RuntimeCore.Lifecycle
import MachinedRs.RuntimeCore.Owned

/-!
# An owner's pass without interference

What `reconcileOwned` makes of the store when nobody else writes meanwhile: it
succeeds, and the object it leaves under a key depends only on what was stored
there before and on the desired list.
-/

namespace MachinedRs

open Foundation

/-- The store on its own; a choice is the order of a listing. -/
def storeMachine : Machine stateSignature Objects (List ResourceObject) :=
  { perform := fun objects operation listing =>
      (Op.answer? objects listing operation).map fun answer =>
        (answer, Op.after objects operation) }

theorem storeMachine_total : storeMachine.Total := by
  intro objects operation
  cases operation with
  | list ns typ =>
      obtain ⟨listing, enumerates⟩ :=
        Quot.exists_rep (State.list objects ns typ)
      have accepted : Op.answer? objects listing (.list ns typ) =
          some listing :=
        if_pos enumerates
      refine ⟨listing, listing, objects, ?_⟩
      simp only [storeMachine, accepted]
      rfl
  | _ => exact ⟨[], _, _, rfl⟩

theorem storeMachine_call {α : Type} {invariant : Objects → Prop}
    {post : α → Objects → Prop} {operation : Op}
    {next : operation.Answer → Program stateSignature α} {objects : Objects}
    (holds : invariant objects)
    (goesOn : ∀ listing answer,
      Op.answer? objects listing operation = some answer →
      (storeMachine.alone invariant).Protected post (next answer)
        (operation.after objects)) :
    (storeMachine.alone invariant).Protected post (.call operation next)
      objects := by
  apply Machine.call holds
  intro listing answer after performed
  obtain ⟨found, answered, equality⟩ := Option.map_eq_some_iff.mp performed
  cases equality
  exact goesOn listing _ answered

section Rules

variable {α : Type} {post : α → Objects → Prop} {objects : Objects}

theorem ensures_get {key : Key}
    {next : (Op.get key).Answer → Program stateSignature α}
    (goesOn : storeMachine.Ensures post (next (State.get objects key))
      objects) :
    storeMachine.Ensures post (.call (.get key) next) objects := by
  apply storeMachine_call trivial
  intro _ answer answered
  cases answered
  exact goesOn

theorem ensures_list {ns : String} {typ : ResourceType}
    {next : (Op.list ns typ).Answer → Program stateSignature α}
    (goesOn : ∀ listing : List ResourceObject,
      (listing : Multiset ResourceObject) = State.list objects ns typ →
      storeMachine.Ensures post (next listing) objects) :
    storeMachine.Ensures post (.call (.list ns typ) next) objects := by
  apply storeMachine_call trivial
  intro listing answer answered
  obtain ⟨enumerates, same⟩ := Option.ite_none_right_eq_some.mp answered
  cases same
  exact goesOn listing enumerates

theorem ensures_create {object : ResourceObject}
    {next : (Op.create object).Answer → Program stateSignature α}
    (goesOn : storeMachine.Ensures post
      (next (State.create objects object).result)
      (State.create objects object).objects) :
    storeMachine.Ensures post (.call (.create object) next) objects := by
  apply storeMachine_call trivial
  intro _ answer answered
  cases answered
  exact goesOn

theorem ensures_update {key : Key} {version : Nat} {spec : Resource}
    {next : (Op.update key version spec).Answer → Program stateSignature α}
    (goesOn : storeMachine.Ensures post
      (next (State.update objects key version spec).result)
      (State.update objects key version spec).objects) :
    storeMachine.Ensures post (.call (.update key version spec) next)
      objects := by
  apply storeMachine_call trivial
  intro _ answer answered
  cases answered
  exact goesOn

theorem ensures_teardown {key : Key}
    {next : (Op.teardown key).Answer → Program stateSignature α}
    (goesOn : storeMachine.Ensures post
      (next (State.teardown objects key).result)
      (State.teardown objects key).objects) :
    storeMachine.Ensures post (.call (.teardown key) next) objects := by
  apply storeMachine_call trivial
  intro _ answer answered
  cases answered
  exact goesOn

theorem ensures_destroy {key : Key} {version : Nat}
    {next : (Op.destroy key version).Answer → Program stateSignature α}
    (goesOn : storeMachine.Ensures post
      (next (State.destroy objects key version).result)
      (State.destroy objects key version).objects) :
    storeMachine.Ensures post (.call (.destroy key version) next)
      objects := by
  apply storeMachine_call trivial
  intro _ answer answered
  cases answered
  exact goesOn

end Rules

/-- The store as a part of the state that a program acts on; `machine` performs
what the program does to the rest. -/
def storeBeside {other : Signature} {τ : Type} (get : τ → Objects)
    (put : Objects → τ → τ) (machine : Machine other τ (List ResourceObject)) :
    Machine (stateSignature.sum other) τ (List ResourceObject) :=
  (storeMachine.zoom get put id).sum machine

section Beside

variable {other : Signature} {τ α : Type} {get : τ → Objects}
  {put : Objects → τ → τ} {machine : Machine other τ (List ResourceObject)}
  {post : α → τ → Prop} {world : τ}

theorem storeBeside_total (total : machine.Total) :
    (storeBeside get put machine).Total := by
  intro world operation
  cases operation with
  | inl operation =>
      obtain ⟨listing, answer, after, performed⟩ :=
        storeMachine_total (get world) operation
      refine ⟨listing, answer, put after world, ?_⟩
      simp only [storeBeside, Machine.sum, Machine.zoom, id, performed,
        Option.map_some]
  | inr operation => exact total world operation

theorem beside_op {operation : Op}
    {next : operation.Answer → Program (stateSignature.sum other) α}
    (goesOn : ∀ listing answer,
      Op.answer? (get world) listing operation = some answer →
      (storeBeside get put machine).Ensures post (next answer)
        (put (operation.after (get world)) world)) :
    (storeBeside get put machine).Ensures post (.call (.inl operation) next)
      world := by
  apply Machine.call trivial
  intro choice answer after performed
  obtain ⟨⟨found, objects⟩, underneath, equality⟩ :=
    Option.map_eq_some_iff.mp performed
  obtain ⟨given, answered, same⟩ := Option.map_eq_some_iff.mp underneath
  cases same
  cases equality
  exact goesOn choice _ answered

theorem beside_other {operation : other.Op}
    {next : other.Answer operation → Program (stateSignature.sum other) α}
    (goesOn : ∀ choice answer after,
      machine.perform world operation choice = some (answer, after) →
      (storeBeside get put machine).Ensures post (next answer) after) :
    (storeBeside get put machine).Ensures post (.call (.inr operation) next)
      world := by
  apply Machine.call trivial
  intro choice answer after performed
  exact goesOn choice answer after performed

/-- What a program does to the store, it does to the whole. -/
theorem beside_inl
    (getPut : ∀ objects, get (put objects world) = objects)
    (putPut : ∀ objects later,
      put later (put objects world) = put later world)
    (putGet : put (get world) world = world)
    {program : Program stateSignature α}
    (ensures : storeMachine.Ensures
      (fun value objects => post value (put objects world)) program
      (get world)) :
    (storeBeside get put machine).Ensures post program.inl world := by
  apply Machine.protected_sum_inl
  exact Machine.protected_zoom getPut putPut putGet ensures

/-- Every program keeps the objects under their own keys, if what else it acts
on leaves the store alone. -/
theorem beside_wellKeyed
    (getPut : ∀ objects world, get (put objects world) = objects)
    (apart : ∀ world operation choice answer after,
      machine.perform world operation choice = some (answer, after) →
      get after = get world)
    (program : Program (stateSignature.sum other) α)
    (keyed : State.WellKeyed (get world)) :
    (storeBeside get put machine).Ensures
      (fun _ after => State.WellKeyed (get after)) program world := by
  induction program generalizing world with
  | done value => exact Machine.done trivial keyed
  | call operation next induction =>
      cases operation with
      | inl operation =>
          apply beside_op
          intro listing answer _
          apply induction answer
          rw [getPut]
          exact keyed.after operation
      | inr operation =>
          apply beside_other
          intro choice answer after performed
          apply induction answer
          rw [apart world operation choice answer after performed]
          exact keyed

end Beside

/-- Every program keeps the objects under their own keys. -/
theorem wellKeyed_ensures {α : Type} (program : Program stateSignature α)
    {objects : Objects} (keyed : State.WellKeyed objects) :
    storeMachine.Ensures (fun _ after => State.WellKeyed after) program
      objects := by
  induction program generalizing objects with
  | done value => exact Machine.done trivial keyed
  | call operation next induction =>
      apply storeMachine_call trivial
      intro listing answer answered
      exact induction answer (keyed.after operation)

/-- The object that the first loop leaves for a desired one, given what was
stored under its key. -/
def upserted (owner : String) (object : ResourceObject) :
    Option ResourceObject → ResourceObject
  | none => (object.withOwner owner).fresh
  | some existing =>
      if existing.spec ≠ object.spec then
        (existing.withSpec object.spec).bump
      else
        existing

def upsertAll (owner : String) (objects : Objects)
    (desired : List ResourceObject) : Objects :=
  desired.foldl
    (fun objects object =>
      objects.insert object.key
        (upserted owner object (objects.lookup object.key)))
    objects

theorem upsertAll_cons (owner : String) (objects : Objects)
    (object : ResourceObject) (desired : List ResourceObject) :
    upsertAll owner objects (object :: desired) =
      upsertAll owner
        (objects.insert object.key
          (upserted owner object (objects.lookup object.key))) desired :=
  rfl

theorem insert_of_lookup {objects : Objects} {key : Key}
    {object : ResourceObject} (stored : objects.lookup key = some object) :
    objects.insert key object = objects := by
  apply Finmap.ext_lookup
  intro other
  by_cases same : other = key
  · rw [same, Finmap.lookup_insert, stored]
  · exact Finmap.lookup_insert_of_ne _ same

theorem State.update_of_lookup {objects : Objects} {key : Key}
    {object : ResourceObject} (stored : objects.lookup key = some object)
    (spec : Resource) :
    State.update objects key object.metadata.version spec =
      State.replace objects key (object.withSpec spec).bump () := by
  simp [State.update, stored]

theorem State.create_of_lookup {objects : Objects} (object : ResourceObject)
    (absent : objects.lookup object.key = none) :
    State.create objects object =
      { result := .ok ()
        objects := objects.insert object.key object.fresh
        emits := [⟨.created, object.fresh⟩] } := by
  exact if_neg (Finmap.lookup_eq_none.mp absent)

theorem upsertDesired_ensures (owner : String)
    (desired : List ResourceObject) (objects : Objects) :
    storeMachine.Ensures
      (fun result after => result = .ok () ∧
        after = upsertAll owner objects desired)
      (upsertDesired owner desired) objects := by
  induction desired generalizing objects with
  | nil => exact Machine.done trivial ⟨rfl, rfl⟩
  | cons object desired induction =>
      rw [upsertAll_cons]
      have goesOn := induction (objects.insert object.key
        (upserted owner object (objects.lookup object.key)))
      apply ensures_get
      cases stored : objects.lookup object.key with
      | none =>
          rw [stored] at goesOn
          rw [State.get, stored]
          apply ensures_create
          rw [State.create_of_lookup (object.withOwner owner) stored]
          exact goesOn
      | some existing =>
          rw [stored] at goesOn
          rw [State.get, stored]
          dsimp only
          by_cases same : existing.spec = object.spec
          · have kept : upserted owner object (some existing) = existing := by
              simp [upserted, same]
            rw [kept, insert_of_lookup stored] at goesOn ⊢
            rw [if_neg (not_not.mpr same)]
            exact goesOn
          · have updated : upserted owner object (some existing) =
                (existing.withSpec object.spec).bump := by
              simp [upserted, same]
            rw [updated] at goesOn ⊢
            rw [if_pos same]
            apply ensures_update
            rw [State.update_of_lookup stored]
            exact goesOn

theorem lookup_upsertAll_of_notMem (owner : String)
    (desired : List ResourceObject) (objects : Objects) {key : Key}
    (absent : key ∉ desired.map ResourceObject.key) :
    (upsertAll owner objects desired).lookup key = objects.lookup key := by
  induction desired generalizing objects with
  | nil => rfl
  | cons object desired induction =>
      rw [List.map_cons, List.mem_cons, not_or] at absent
      have rest := induction (objects.insert object.key
        (upserted owner object (objects.lookup object.key))) absent.2
      rw [Finmap.lookup_insert_of_ne _ absent.1] at rest
      exact rest

theorem lookup_upsertAll_of_mem (owner : String)
    {desired : List ResourceObject} (objects : Objects)
    {object : ResourceObject} (member : object ∈ desired)
    (distinct : (desired.map ResourceObject.key).Nodup) :
    (upsertAll owner objects desired).lookup object.key =
      some (upserted owner object (objects.lookup object.key)) := by
  induction desired generalizing objects with
  | nil => cases member
  | cons first desired induction =>
      rw [List.map_cons, List.nodup_cons] at distinct
      rcases List.mem_cons.mp member with rfl | later
      · have unchanged := lookup_upsertAll_of_notMem owner desired
          (objects.insert object.key
            (upserted owner object (objects.lookup object.key))) distinct.1
        rw [Finmap.lookup_insert] at unchanged
        exact unchanged
      · have different : object.key ≠ first.key := by
          intro same
          apply distinct.1
          rw [← same]
          exact List.mem_map_of_mem later
        have rest := induction (objects.insert first.key
          (upserted owner first (objects.lookup first.key))) later distinct.2
        rw [Finmap.lookup_insert_of_ne _ different] at rest
        exact rest

/-- The object after `teardown`. -/
def ResourceObject.tornDown (object : ResourceObject) : ResourceObject :=
  match object.metadata.phase with
  | .running => (object.withPhase .tearingDown).bump
  | .tearingDown => object

/-- What the second loop leaves of a listed object. -/
def collected (owner : String) (desiredIds : List String)
    (object : ResourceObject) : Option ResourceObject :=
  if object.metadata.owner = some owner ∧
      object.metadata.id ∉ desiredIds then
    if object.metadata.finalizers.isEmpty then
      none
    else
      some object.tornDown
  else
    some object

theorem ResourceObject.tornDown_finalizers (object : ResourceObject) :
    object.tornDown.metadata.finalizers = object.metadata.finalizers := by
  unfold ResourceObject.tornDown
  split
  · rfl
  · rfl

theorem State.teardown_of_lookup {objects : Objects} {key : Key}
    {object : ResourceObject} (stored : objects.lookup key = some object) :
    (State.teardown objects key).result =
        .ok object.metadata.finalizers.isEmpty ∧
      (State.teardown objects key).objects =
        objects.insert key object.tornDown := by
  unfold ResourceObject.tornDown
  cases phase : object.metadata.phase with
  | running => simp [State.teardown, stored, phase, State.replace]
  | tearingDown =>
      simp [State.teardown, stored, phase, Commit.unchanged,
        insert_of_lookup stored]

theorem State.destroy_of_lookup {objects : Objects} {key : Key}
    {object : ResourceObject} (stored : objects.lookup key = some object)
    (released : object.metadata.finalizers.isEmpty = true) :
    State.destroy objects key object.metadata.version =
      { result := .ok ()
        objects := objects.erase key
        emits := [⟨.destroyed, object⟩] } := by
  simp [State.destroy, stored, released]

/-- The store after the second loop has dealt with the listed objects. -/
def Collects (owner : String) (desiredIds : List String)
    (listing : List ResourceObject) (objects after : Objects) : Prop :=
  ∀ key, after.lookup key =
    if key ∈ listing.map ResourceObject.key then
      (objects.lookup key).bind (collected owner desiredIds)
    else
      objects.lookup key

/-- Dealing with one object first and with the others afterwards. -/
theorem Collects.cons {owner : String} {desiredIds : List String}
    {existing : ResourceObject} {listing : List ResourceObject}
    {objects middle after : Objects}
    (stored : objects.lookup existing.key = some existing)
    (fresh : existing.key ∉ listing.map ResourceObject.key)
    (here : middle.lookup existing.key = collected owner desiredIds existing)
    (elsewhere : ∀ key, key ≠ existing.key →
      middle.lookup key = objects.lookup key)
    (rest : Collects owner desiredIds listing middle after) :
    Collects owner desiredIds (existing :: listing) objects after := by
  intro key
  rw [rest key]
  by_cases same : key = existing.key
  · subst same
    rw [if_neg fresh, here, if_pos (by simp), stored]
    rfl
  · rw [elsewhere key same]
    simp [same]

theorem collectUndesired_ensures (owner : String) (desiredIds : List String)
    (listing : List ResourceObject) (objects : Objects)
    (stored : ∀ existing ∈ listing,
      objects.lookup existing.key = some existing)
    (distinct : (listing.map ResourceObject.key).Nodup) :
    storeMachine.Ensures
      (fun result after => result = .ok () ∧
        Collects owner desiredIds listing objects after)
      (collectUndesired owner desiredIds listing) objects := by
  induction listing generalizing objects with
  | nil =>
      refine Machine.done trivial ⟨rfl, ?_⟩
      intro key
      simp
  | cons existing listing induction =>
      rw [List.map_cons, List.nodup_cons] at distinct
      have present := stored existing List.mem_cons_self
      have goesOn : ∀ middle : Objects,
          middle.lookup existing.key = collected owner desiredIds existing →
          (∀ key, key ≠ existing.key →
            middle.lookup key = objects.lookup key) →
          storeMachine.Ensures
            (fun result after => result = .ok () ∧
              Collects owner desiredIds (existing :: listing) objects after)
            (collectUndesired owner desiredIds listing) middle := by
        intro middle here elsewhere
        have remaining : ∀ other ∈ listing,
            middle.lookup other.key = some other := by
          intro other member
          have different : other.key ≠ existing.key := by
            intro same
            apply distinct.1
            rw [← same]
            exact List.mem_map_of_mem member
          rw [elsewhere other.key different]
          exact stored other (List.mem_cons_of_mem _ member)
        apply Setting.Protected.mono _
          (induction middle remaining distinct.2)
        rintro result after ⟨succeeded, rest⟩
        exact ⟨succeeded,
          rest.cons present distinct.1 here elsewhere⟩
      unfold collectUndesired
      split
      · rename_i undesired
        obtain ⟨ready, tornDown⟩ := State.teardown_of_lookup present
        apply ensures_teardown
        rw [ready, tornDown]
        dsimp only [Program.attempt]
        split
        · rename_i released
          apply ensures_get
          have current : State.get
              (objects.insert existing.key existing.tornDown)
              existing.key = .ok existing.tornDown := by
            rw [State.get, Finmap.lookup_insert]
          rw [current]
          apply ensures_destroy
          rw [State.destroy_of_lookup (Finmap.lookup_insert _)
            (by rw [existing.tornDown_finalizers, released])]
          apply goesOn
          · rw [Finmap.lookup_erase, collected, if_pos undesired,
              if_pos released]
          · intro key different
            rw [Finmap.lookup_erase_ne different,
              Finmap.lookup_insert_of_ne _ different]
        · rename_i held
          apply goesOn
          · rw [Finmap.lookup_insert, collected, if_pos undesired,
              if_neg held]
          · intro key different
            exact Finmap.lookup_insert_of_ne _ different
      · rename_i keeps
        apply goesOn
        · rw [present, collected, if_neg keeps]
        · intro key _
          rfl

theorem State.mem_list_iff {objects : Objects}
    (keyed : State.WellKeyed objects) {ns : String} {typ : ResourceType}
    {object : ResourceObject} :
    object ∈ State.list objects ns typ ↔
      objects.lookup object.key = some object ∧
        object.key.ns = ns ∧ object.key.typ = typ := by
  simp only [State.list, Multiset.mem_filter, Multiset.mem_map]
  constructor
  · rintro ⟨⟨⟨key, stored⟩, member, rfl⟩, ofType⟩
    have found := Finmap.lookup_eq_some_iff.mpr member
    have same := keyed key stored found
    refine ⟨?_, ofType⟩
    dsimp only
    rw [same]
    exact found
  · rintro ⟨stored, ofType⟩
    exact ⟨⟨⟨object.key, object⟩, Finmap.lookup_eq_some_iff.mp stored, rfl⟩,
      ofType⟩

theorem State.nodup_keys_list {objects : Objects}
    (keyed : State.WellKeyed objects) (ns : String) (typ : ResourceType) :
    ((State.list objects ns typ).map ResourceObject.key).Nodup := by
  have keys : (objects.entries.map Sigma.snd).map ResourceObject.key =
      objects.entries.keys := by
    rw [Multiset.map_map]
    apply Multiset.map_congr rfl
    rintro ⟨key, object⟩ member
    exact keyed key object (Finmap.lookup_eq_some_iff.mpr member)
  have distinct : objects.entries.keys.Nodup :=
    Multiset.nodup_keys.mpr objects.nodupKeys
  rw [← keys] at distinct
  apply Multiset.nodup_of_le _ distinct
  exact Multiset.map_le_map (Multiset.filter_le _ _)

section Enumeration

variable {objects : Objects} {ns : String} {typ : ResourceType}
  {listing : List ResourceObject}

/-- What a listing shows, in whatever order. -/
theorem State.mem_enumeration (keyed : State.WellKeyed objects)
    (enumerates : (listing : Multiset ResourceObject) =
      State.list objects ns typ) {object : ResourceObject} :
    object ∈ listing ↔
      objects.lookup object.key = some object ∧
        object.key.ns = ns ∧ object.key.typ = typ := by
  rw [← State.mem_list_iff keyed, ← enumerates]
  rfl

theorem State.nodup_enumeration (keyed : State.WellKeyed objects)
    (enumerates : (listing : Multiset ResourceObject) =
      State.list objects ns typ) :
    (listing.map ResourceObject.key).Nodup := by
  have nodup := State.nodup_keys_list keyed ns typ
  rw [← enumerates] at nodup
  exact nodup

end Enumeration

theorem State.list_congr {objects after : Objects}
    (keyed : State.WellKeyed objects) (afterKeyed : State.WellKeyed after)
    {ns : String} {typ : ResourceType}
    (same : ∀ key : Key, key.ns = ns → key.typ = typ →
      after.lookup key = objects.lookup key) :
    State.list after ns typ = State.list objects ns typ := by
  have distinct := (State.nodup_keys_list keyed ns typ).of_map
  have afterDistinct := (State.nodup_keys_list afterKeyed ns typ).of_map
  apply (Multiset.Nodup.ext afterDistinct distinct).mpr
  intro object
  rw [State.mem_list_iff keyed, State.mem_list_iff afterKeyed]
  constructor
  · rintro ⟨stored, ofNs, ofTyp⟩
    rw [same object.key ofNs ofTyp] at stored
    exact ⟨stored, ofNs, ofTyp⟩
  · rintro ⟨stored, ofNs, ofTyp⟩
    rw [← same object.key ofNs ofTyp] at stored
    exact ⟨stored, ofNs, ofTyp⟩

/-- A listing is known from the objects stored under its type. -/
theorem State.list_eq {objects : Objects} (keyed : State.WellKeyed objects)
    {ns : String} {typ : ResourceType} {listing : List ResourceObject}
    (distinct : listing.Nodup)
    (stored : ∀ object ∈ listing, objects.lookup object.key = some object ∧
      object.key.ns = ns ∧ object.key.typ = typ)
    (complete : ∀ key object, objects.lookup key = some object →
      key.ns = ns → key.typ = typ → object ∈ listing) :
    State.list objects ns typ = listing := by
  have listDistinct := (State.nodup_keys_list keyed ns typ).of_map
  apply (Multiset.Nodup.ext listDistinct
    (Multiset.coe_nodup.mpr distinct)).mpr
  intro object
  rw [State.mem_list_iff keyed, Multiset.mem_coe]
  constructor
  · rintro ⟨found, ofNs, ofTyp⟩
    exact complete object.key object found ofNs ofTyp
  · intro member
    exact stored object member

/-- The object left under each key by a pass over `desired`. -/
def reconciled (owner ns : String) (typ : ResourceType)
    (desired : List ResourceObject) (objects : Objects) (key : Key) :
    Option ResourceObject :=
  let stored := (upsertAll owner objects desired).lookup key
  if key.ns = ns ∧ key.typ = typ then
    stored.bind
      (collected owner (desired.map fun object => object.metadata.id))
  else
    stored

/-- A pass is about its own type only. -/
theorem reconciled_of_other {owner ns : String} {typ : ResourceType}
    {desired : List ResourceObject} {objects : Objects}
    (typed : ∀ object ∈ desired, object.key.ns = ns ∧ object.key.typ = typ)
    {key : Key} (other : ¬ (key.ns = ns ∧ key.typ = typ)) :
    reconciled owner ns typ desired objects key = objects.lookup key := by
  rw [reconciled, if_neg other]
  apply lookup_upsertAll_of_notMem
  intro member
  obtain ⟨object, isDesired, rfl⟩ := List.mem_map.mp member
  exact other (typed object isDesired)

/-- A pass of an owner that runs alone succeeds, and what it leaves under each
key is `reconciled`. -/
theorem reconcileOwned_ensures (owner ns : String) (typ : ResourceType)
    (desired : List ResourceObject) {objects : Objects}
    (keyed : State.WellKeyed objects) :
    storeMachine.Ensures
      (fun result after => result = .ok () ∧ State.WellKeyed after ∧
        ∀ key, after.lookup key =
          reconciled owner ns typ desired objects key)
      (reconcileOwned owner ns typ desired) objects := by
  apply Setting.Protected.bind
  apply Setting.Protected.mono _
    ((upsertDesired_ensures owner desired objects).and
      (wellKeyed_ensures _ keyed))
  rintro result middle ⟨⟨rfl, rfl⟩, middleKeyed⟩
  apply ensures_list
  intro listing enumerates
  have member : ∀ object, object ∈ listing ↔
      (upsertAll owner objects desired).lookup object.key = some object ∧
        object.key.ns = ns ∧ object.key.typ = typ :=
    fun _ => State.mem_enumeration middleKeyed enumerates
  have distinct := State.nodup_enumeration middleKeyed enumerates
  apply Setting.Protected.mono _
    ((collectUndesired_ensures owner
        (desired.map fun object => object.metadata.id) listing _
        (fun object listed => ((member object).mp listed).1) distinct).and
      (wellKeyed_ensures _ middleKeyed))
  rintro result after ⟨⟨rfl, collects⟩, afterKeyed⟩
  refine ⟨rfl, afterKeyed, ?_⟩
  intro key
  rw [collects key, reconciled]
  cases stored : (upsertAll owner objects desired).lookup key with
  | none => simp
  | some object =>
      have same := middleKeyed key object stored
      subst same
      have listed : object.key ∈ listing.map ResourceObject.key ↔
          object.key.ns = ns ∧ object.key.typ = typ := by
        constructor
        · intro keyListed
          obtain ⟨other, otherListed, sameKey⟩ := List.mem_map.mp keyListed
          rw [← sameKey]
          exact ((member other).mp otherListed).2
        · intro ofType
          exact List.mem_map_of_mem ((member object).mpr ⟨stored, ofType⟩)
      simp only [listed]

/-- Publishing objects of a type of which the store holds none: they are there
afterwards, and nothing else has changed. -/
theorem reconcileOwned_fresh (owner : String) {ns : String}
    {typ : ResourceType} {desired : List ResourceObject} {objects : Objects}
    (keyed : State.WellKeyed objects)
    (distinct : (desired.map ResourceObject.key).Nodup)
    (ofType : ∀ object ∈ desired,
      object.key.ns = ns ∧ object.key.typ = typ)
    (absent : ∀ key : Key, key.ns = ns → key.typ = typ →
      objects.lookup key = none) :
    storeMachine.Ensures
      (fun result after => result = .ok () ∧ State.WellKeyed after ∧
        (∀ object ∈ desired, after.lookup object.key =
          some (object.withOwner owner).fresh) ∧
        ∀ key, key ∉ desired.map ResourceObject.key →
          after.lookup key = objects.lookup key)
      (reconcileOwned owner ns typ desired) objects := by
  apply Setting.Protected.mono _
    (reconcileOwned_ensures owner ns typ desired keyed)
  rintro result after ⟨succeeded, afterKeyed, lookup⟩
  refine ⟨succeeded, afterKeyed, ?_, ?_⟩
  · intro object member
    have isOfType := ofType object member
    have isDesired : object.metadata.id ∈
        desired.map fun object => object.metadata.id :=
      List.mem_map_of_mem member
    rw [lookup, reconciled,
      lookup_upsertAll_of_mem owner objects member distinct,
      absent object.key isOfType.1 isOfType.2]
    simp only [isOfType, and_self, if_true, Option.bind_some, upserted]
    rw [collected, if_neg]
    rintro ⟨_, notDesired⟩
    exact notDesired isDesired
  · intro key notDesired
    rw [lookup, reconciled,
      lookup_upsertAll_of_notMem owner desired objects notDesired]
    split
    · rename_i isOfType
      rw [absent key isOfType.1 isOfType.2]
      rfl
    · rfl

/-- The last desired object under a key, which is the one that stays. -/
def lastDesired (desired : List ResourceObject) (key : Key) :
    Option ResourceObject :=
  (desired.filter fun object => object.key = key).getLast?

theorem lastDesired_eq_none {desired : List ResourceObject} {key : Key}
    (absent : lastDesired desired key = none) :
    key ∉ desired.map ResourceObject.key := by
  intro member
  obtain ⟨object, isDesired, rfl⟩ := List.mem_map.mp member
  have filtered : object ∈ desired.filter fun other =>
      other.key = object.key :=
    List.mem_filter.mpr ⟨isDesired, decide_eq_true rfl⟩
  rw [List.getLast?_eq_none_iff.mp absent] at filtered
  cases filtered

theorem lastDesired_mem {desired : List ResourceObject} {key : Key}
    {object : ResourceObject} (last : lastDesired desired key = some object) :
    object ∈ desired ∧ object.key = key := by
  have filtered := List.mem_filter.mp (List.mem_of_getLast? last)
  exact ⟨filtered.1, of_decide_eq_true filtered.2⟩

theorem upserted_spec (owner : String) (object : ResourceObject)
    (stored : Option ResourceObject) :
    (upserted owner object stored).spec = object.spec := by
  cases stored with
  | none => rfl
  | some existing =>
      by_cases same : existing.spec = object.spec
      · simp [upserted, same]
      · simp [upserted, same, ResourceObject.withSpec, ResourceObject.bump]

theorem upserted_owned {owner : String} {object : ResourceObject}
    {stored : Option ResourceObject}
    (released : object.metadata.finalizers = [])
    (owned : ∀ existing, stored = some existing →
      existing.metadata.owner = some owner ∧
        existing.metadata.finalizers = []) :
    (upserted owner object stored).metadata.owner = some owner ∧
      (upserted owner object stored).metadata.finalizers = [] := by
  cases stored with
  | none => exact ⟨rfl, released⟩
  | some existing =>
      have before := owned existing rfl
      simp only [upserted]
      split
      · exact before
      · exact before

theorem upsertAll_concat (owner : String) (objects : Objects)
    (desired : List ResourceObject) (object : ResourceObject) :
    upsertAll owner objects (desired ++ [object]) =
      (upsertAll owner objects desired).insert object.key
        (upserted owner object
          ((upsertAll owner objects desired).lookup object.key)) := by
  rw [upsertAll, List.foldl_append]
  rfl

theorem lastDesired_of_nodup {desired : List ResourceObject}
    {object : ResourceObject} (member : object ∈ desired)
    (distinct : (desired.map ResourceObject.key).Nodup) :
    lastDesired desired object.key = some object := by
  cases last : lastDesired desired object.key with
  | none =>
      exact absurd (List.mem_map_of_mem member) (lastDesired_eq_none last)
  | some other =>
      obtain ⟨otherMember, sameKey⟩ := lastDesired_mem last
      rw [List.inj_on_of_nodup_map distinct otherMember member sameKey]

/-- Under a key that is desired more than once the last spec wins. -/
theorem lookup_upsertAll_spec (owner : String) (objects : Objects)
    (desired : List ResourceObject) (key : Key) :
    ((upsertAll owner objects desired).lookup key).map ResourceObject.spec =
      ((lastDesired desired key).map ResourceObject.spec).or
        ((objects.lookup key).map ResourceObject.spec) := by
  induction desired using List.reverseRecOn with
  | nil => rfl
  | append_singleton desired object induction =>
      rw [upsertAll_concat, lastDesired, List.filter_append,
        List.getLast?_append]
      by_cases same : object.key = key
      · subst same
        simp [upserted_spec]
      · rw [Finmap.lookup_insert_of_ne _ (Ne.symm same), induction]
        simp [lastDesired, same]

/-- The objects of a type belong to this owner, and nobody else holds them. -/
def OwnedReleased (owner ns : String) (typ : ResourceType)
    (objects : Objects) : Prop :=
  ∀ key object, objects.lookup key = some object → key.ns = ns →
    key.typ = typ →
    object.metadata.owner = some owner ∧ object.metadata.finalizers = []

theorem OwnedReleased.upsertAll {owner ns : String} {typ : ResourceType}
    {objects : Objects} (owned : OwnedReleased owner ns typ objects)
    {desired : List ResourceObject}
    (released : ∀ object ∈ desired, object.metadata.finalizers = []) :
    OwnedReleased owner ns typ (upsertAll owner objects desired) := by
  induction desired using List.reverseRecOn with
  | nil => exact owned
  | append_singleton desired object induction =>
      have before := induction fun other member =>
        released other (List.mem_append_left _ member)
      rw [upsertAll_concat]
      intro key stored found ns typ
      by_cases same : key = object.key
      · subst same
        rw [Finmap.lookup_insert] at found
        cases found
        apply upserted_owned (released object (by simp))
        intro existing present
        exact before object.key existing present ns typ
      · rw [Finmap.lookup_insert_of_ne _ same] at found
        exact before key stored found ns typ

theorem upserted_key {owner : String} {object : ResourceObject}
    {stored : Option ResourceObject}
    (keyed : ∀ existing, stored = some existing →
      existing.key = object.key) :
    (upserted owner object stored).key = object.key := by
  cases stored with
  | none => rfl
  | some existing =>
      have before := keyed existing rfl
      simp only [upserted]
      split
      · exact before
      · exact before

theorem State.WellKeyed.upsertAll {objects : Objects}
    (keyed : State.WellKeyed objects) (owner : String)
    (desired : List ResourceObject) :
    State.WellKeyed (upsertAll owner objects desired) := by
  induction desired using List.reverseRecOn with
  | nil => exact keyed
  | append_singleton desired object induction =>
      rw [upsertAll_concat]
      intro key stored found
      by_cases same : key = object.key
      · subst same
        rw [Finmap.lookup_insert] at found
        cases found
        exact upserted_key (induction object.key)
      · rw [Finmap.lookup_insert_of_ne _ same] at found
        exact induction key stored found

theorem collected_of_desired {owner : String} {desiredIds : List String}
    {object : ResourceObject} (isDesired : object.metadata.id ∈ desiredIds) :
    collected owner desiredIds object = some object := by
  rw [collected, if_neg]
  rintro ⟨_, undesired⟩
  exact undesired isDesired

theorem collected_of_released {owner : String} {desiredIds : List String}
    {object left : ResourceObject} (released : object.metadata.finalizers = [])
    (remains : collected owner desiredIds object = some left) :
    left = object := by
  unfold collected at remains
  rw [released] at remains
  split at remains
  · cases remains
  · cases remains
    rfl

/-- A pass of the owner over objects that nobody else holds leaves exactly the
desired specs. -/
theorem reconcileOwned_released {owner ns : String} {typ : ResourceType}
    {desired : List ResourceObject} {objects : Objects}
    (keyed : State.WellKeyed objects)
    (owned : OwnedReleased owner ns typ objects)
    (typed : ∀ object ∈ desired, object.key.ns = ns ∧ object.key.typ = typ)
    (released : ∀ object ∈ desired, object.metadata.finalizers = []) :
    storeMachine.Ensures
      (fun result after => result = .ok () ∧ State.WellKeyed after ∧
        OwnedReleased owner ns typ after ∧
        (∀ key : Key, key.ns = ns → key.typ = typ →
          (after.lookup key).map ResourceObject.spec =
            (lastDesired desired key).map ResourceObject.spec) ∧
        ∀ key : Key, ¬ (key.ns = ns ∧ key.typ = typ) →
          after.lookup key = objects.lookup key)
      (reconcileOwned owner ns typ desired) objects := by
  apply Setting.Protected.mono _
    (reconcileOwned_ensures owner ns typ desired keyed)
  rintro result after ⟨succeeded, afterKeyed, lookup⟩
  have middleOwned := owned.upsertAll released
  have middleKeyed := keyed.upsertAll owner desired
  refine ⟨succeeded, afterKeyed, ?_, ?_, ?_⟩
  · intro key object stored ns typ
    rw [lookup, reconciled, if_pos ⟨ns, typ⟩] at stored
    obtain ⟨existing, present, remains⟩ := Option.bind_eq_some_iff.mp stored
    have held := middleOwned key existing present ns typ
    rw [collected_of_released held.2 remains]
    exact held
  · intro key ns typ
    have spec := lookup_upsertAll_spec owner objects desired key
    rw [lookup, reconciled, if_pos ⟨ns, typ⟩]
    cases last : lastDesired desired key with
    | some wanted =>
        obtain ⟨isDesired, sameKey⟩ := lastDesired_mem last
        rw [last] at spec
        obtain ⟨object, present, sameSpec⟩ := Option.map_eq_some_iff.mp spec
        have sameId : object.metadata.id = wanted.metadata.id :=
          congrArg Key.id
            ((middleKeyed key object present).trans sameKey.symm)
        rw [present, Option.bind_some, collected_of_desired]
        · exact congrArg some sameSpec
        · rw [sameId]
          exact List.mem_map_of_mem isDesired
    | none =>
        have absent := lastDesired_eq_none last
        rw [lookup_upsertAll_of_notMem owner desired objects absent]
        cases stored : objects.lookup key with
        | none => rfl
        | some existing =>
            obtain ⟨isOwned, isReleased⟩ := owned key existing stored ns typ
            have sameKey := keyed key existing stored
            have undesired : existing.metadata.id ∉
                desired.map fun object => object.metadata.id := by
              intro member
              obtain ⟨object, isDesired, sameId⟩ := List.mem_map.mp member
              apply absent
              have equal : object.key = key := by
                obtain ⟨objectNs, objectTyp⟩ := typed object isDesired
                have id : object.key.id = key.id :=
                  sameId.trans (congrArg Key.id sameKey)
                exact Key.mk.injEq .. ▸ ⟨objectNs.trans ns.symm,
                  objectTyp.trans typ.symm, id⟩
              rw [← equal]
              exact List.mem_map_of_mem isDesired
            rw [Option.bind_some, collected, if_pos ⟨isOwned, undesired⟩,
              isReleased]
            rfl
  · intro key other
    rw [lookup]
    exact reconciled_of_other typed other

end MachinedRs
