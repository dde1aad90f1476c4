import MachinedRs.RuntimeCore.OwnedPass

/-!
# Passes over a settled store

What an owner's pass leaves under a key depends on what was stored under this
key alone.  A store is settled for a desired list when every desired spec is
stored and every other object of the owner is already being torn down but still
held.  A pass over a settled store writes nothing and announces nothing; a
desired list that names two specs under one key is never settled.
-/

namespace MachinedRs

open Foundation

section Pointwise

variable {owner : String} {desired : List ResourceObject} {key : Key}

/-- What the first loop leaves under a key. -/
def upsertedAt (owner : String) (desired : List ResourceObject) (key : Key)
    (stored : Option ResourceObject) : Option ResourceObject :=
  (desired.filter fun object => object.key = key).foldl
    (fun stored object => some (upserted owner object stored)) stored

/-- What a pass leaves under a key of the type it is about. -/
def reconciledAt (owner : String) (desired : List ResourceObject) (key : Key)
    (stored : Option ResourceObject) : Option ResourceObject :=
  (upsertedAt owner desired key stored).bind
    (collected owner (desired.map fun object => object.metadata.id))

theorem lookup_upsertAll (owner : String) (objects : Objects)
    (desired : List ResourceObject) (key : Key) :
    (upsertAll owner objects desired).lookup key =
      upsertedAt owner desired key (objects.lookup key) := by
  induction desired using List.reverseRecOn with
  | nil => rfl
  | append_singleton desired object induction =>
      rw [upsertAll_concat, upsertedAt, List.filter_append, List.foldl_append]
      by_cases same : object.key = key
      · subst same
        rw [Finmap.lookup_insert, induction]
        simp [upsertedAt]
      · rw [Finmap.lookup_insert_of_ne _ (Ne.symm same), induction]
        simp [upsertedAt, same]

theorem upsertedAt_of_notMem (absent : key ∉ desired.map ResourceObject.key)
    (stored : Option ResourceObject) :
    upsertedAt owner desired key stored = stored := by
  have none : desired.filter (fun object => object.key = key) = [] := by
    apply List.filter_eq_nil_iff.mpr
    intro object member same
    apply absent
    rw [← of_decide_eq_true same]
    exact List.mem_map_of_mem member
  rw [upsertedAt, none]
  rfl

theorem reconciled_of_type {ns : String} {typ : ResourceType}
    (objects : Objects) (ofType : key.ns = ns ∧ key.typ = typ) :
    reconciled owner ns typ desired objects key =
      reconciledAt owner desired key (objects.lookup key) := by
  rw [reconciled, if_pos ofType, lookup_upsertAll]
  rfl

/-- Upserting never takes a version back, and it keeps the version only where
every spec was stored already. -/
theorem foldl_upserted_version (owner : String)
    (desired : List ResourceObject) (stored : ResourceObject) :
    ∃ final,
      desired.foldl (fun stored object => some (upserted owner object stored))
        (some stored) = some final ∧
      stored.metadata.version ≤ final.metadata.version ∧
      (final.metadata.version = stored.metadata.version →
        ∀ object ∈ desired, object.spec = stored.spec) := by
  induction desired generalizing stored with
  | nil => exact ⟨stored, rfl, Nat.le_refl _, fun _ _ member => nomatch member⟩
  | cons object desired induction =>
      obtain ⟨final, folded, grown, kept⟩ :=
        induction (upserted owner object (some stored))
      refine ⟨final, folded, ?_⟩
      by_cases same : stored.spec = object.spec
      · have unchanged : upserted owner object (some stored) = stored := by
          simp [upserted, same]
        rw [unchanged] at grown kept
        refine ⟨grown, ?_⟩
        intro version other member
        rcases List.mem_cons.mp member with rfl | later
        · exact same.symm
        · exact kept version other later
      · have bumped : (upserted owner object (some stored)).metadata.version =
            stored.metadata.version + 1 := by
          simp [upserted, same, ResourceObject.bump, ResourceObject.withSpec]
        rw [bumped] at grown
        refine ⟨by omega, ?_⟩
        intro version
        omega

/-- Who answers for an object. -/
def ResourceObject.custody (object : ResourceObject) :
    Option String × List String × Phase :=
  (object.metadata.owner, object.metadata.finalizers, object.metadata.phase)

theorem upserted_custody {object : ResourceObject}
    (released : object.metadata.finalizers = [])
    (stored : Option ResourceObject) :
    (upserted owner object stored).custody =
      (stored.map ResourceObject.custody).getD
        (some owner, [], .running) := by
  cases stored with
  | none =>
      change (some owner, object.metadata.finalizers, Phase.running) = _
      rw [released]
      rfl
  | some existing =>
      simp only [upserted]
      split
      · rfl
      · rfl

theorem foldl_upserted_custody {objects : List ResourceObject}
    (released : ∀ object ∈ objects, object.metadata.finalizers = [])
    (nonempty : objects ≠ []) (stored : Option ResourceObject) :
    (objects.foldl (fun stored object => some (upserted owner object stored))
        stored).map ResourceObject.custody =
      some ((stored.map ResourceObject.custody).getD
        (some owner, [], .running)) := by
  induction objects generalizing stored with
  | nil => exact absurd rfl nonempty
  | cons object objects induction =>
      have here : (upserted owner object stored).custody =
          (stored.map ResourceObject.custody).getD
            (some owner, [], .running) :=
        upserted_custody (released object List.mem_cons_self) stored
      rw [List.foldl_cons]
      by_cases last : objects = []
      · rw [last]
        exact congrArg some here
      · rw [induction (fun other member =>
            released other (List.mem_cons_of_mem object member)) last]
        exact congrArg some here

theorem upsertedAt_custody
    (released : ∀ object ∈ desired, object.metadata.finalizers = [])
    (member : key ∈ desired.map ResourceObject.key)
    (stored : Option ResourceObject) :
    (upsertedAt owner desired key stored).map ResourceObject.custody =
      some ((stored.map ResourceObject.custody).getD
        (some owner, [], .running)) := by
  apply foldl_upserted_custody
  · intro object filtered
    exact released object (List.mem_filter.mp filtered).1
  · obtain ⟨object, isDesired, same⟩ := List.mem_map.mp member
    intro empty
    have filtered : object ∈ desired.filter fun object => object.key = key :=
      List.mem_filter.mpr ⟨isDesired, decide_eq_true same⟩
    rw [empty] at filtered
    cases filtered

end Pointwise

/-- Objects under one key are desired with one spec. -/
def Agreeing (desired : List ResourceObject) : Prop :=
  ∀ one ∈ desired, ∀ other ∈ desired, one.key = other.key →
    one.spec = other.spec

/-- There is nothing left to do for the owner. -/
structure OwnedSettled (owner ns : String) (typ : ResourceType)
    (desired : List ResourceObject) (objects : Objects) : Prop where
  published : ∀ object ∈ desired, ∃ existing,
    objects.lookup object.key = some existing ∧ existing.spec = object.spec
  dismissed : ∀ id existing, objects.lookup ⟨ns, typ, id⟩ = some existing →
    existing.metadata.owner = some owner →
    existing.metadata.id ∉ desired.map (fun object => object.metadata.id) →
    existing.metadata.phase = .tearingDown ∧
      existing.metadata.finalizers ≠ []

/-- The desired objects are of the type the pass is about. -/
def OfType (ns : String) (typ : ResourceType)
    (desired : List ResourceObject) : Prop :=
  ∀ object ∈ desired, object.key.ns = ns ∧ object.key.typ = typ

section Settling

variable {owner ns : String} {typ : ResourceType}
  {desired : List ResourceObject} {objects after : Objects}

theorem tornDown_phase (object : ResourceObject) :
    object.tornDown.metadata.phase = .tearingDown := by
  unfold ResourceObject.tornDown
  split
  · rfl
  · assumption

theorem tornDown_of_tearingDown {object : ResourceObject}
    (phase : object.metadata.phase = .tearingDown) :
    object.tornDown = object := by
  simp [ResourceObject.tornDown, phase]

theorem key_of_upsertedAt (keyed : State.WellKeyed objects) {key : Key}
    {object : ResourceObject}
    (left : upsertedAt owner desired key (objects.lookup key) =
      some object) : object.key = key := by
  rw [← lookup_upsertAll] at left
  exact keyed.upsertAll owner desired key object left

theorem reconciledAt_of_mem (keyed : State.WellKeyed objects)
    {wanted : ResourceObject} (member : wanted ∈ desired) :
    reconciledAt owner desired wanted.key (objects.lookup wanted.key) =
      upsertedAt owner desired wanted.key (objects.lookup wanted.key) := by
  rw [reconciledAt]
  cases left : upsertedAt owner desired wanted.key
      (objects.lookup wanted.key) with
  | none => rfl
  | some object =>
      have sameId : object.metadata.id = wanted.metadata.id :=
        congrArg Key.id (key_of_upsertedAt keyed left)
      rw [Option.bind_some, collected_of_desired]
      rw [sameId]
      exact List.mem_map_of_mem member

theorem exists_upsertedAt (objects : Objects) {wanted : ResourceObject}
    (member : wanted ∈ desired) :
    ∃ last ∈ desired, last.key = wanted.key ∧ ∃ object,
      upsertedAt owner desired wanted.key (objects.lookup wanted.key) =
        some object ∧ object.spec = last.spec := by
  have spec := lookup_upsertAll_spec owner objects desired wanted.key
  cases last : lastDesired desired wanted.key with
  | none =>
      exact absurd (List.mem_map_of_mem member) (lastDesired_eq_none last)
  | some object =>
      obtain ⟨isDesired, sameKey⟩ := lastDesired_mem last
      rw [last, lookup_upsertAll] at spec
      obtain ⟨left, found, same⟩ := Option.map_eq_some_iff.mp spec
      exact ⟨object, isDesired, sameKey, left, found, same⟩

theorem settled_of_reconciledAt (keyed : State.WellKeyed objects)
    (typed : OfType ns typ desired) (agreeing : Agreeing desired)
    (lookup : ∀ id, after.lookup ⟨ns, typ, id⟩ =
      reconciledAt owner desired ⟨ns, typ, id⟩
        (objects.lookup ⟨ns, typ, id⟩)) :
    OwnedSettled owner ns typ desired after := by
  refine ⟨?_, ?_⟩
  · intro wanted member
    obtain ⟨last, lastMember, sameKey, object, found, spec⟩ :=
      exists_upsertedAt objects member
    have key : wanted.key = ⟨ns, typ, wanted.metadata.id⟩ := by
      obtain ⟨ofNs, ofTyp⟩ := typed wanted member
      rw [← ofNs, ← ofTyp]
      rfl
    refine ⟨object, ?_, spec.trans (agreeing last lastMember wanted member
      sameKey)⟩
    rw [key, lookup, ← key, reconciledAt_of_mem keyed member]
    exact found
  · intro id existing stored owned undesired
    rw [lookup] at stored
    obtain ⟨object, _, left⟩ := Option.bind_eq_some_iff.mp stored
    unfold collected at left
    split at left
    · split at left
      · cases left
      · rename_i held
        cases left
        refine ⟨tornDown_phase object, ?_⟩
        rw [object.tornDown_finalizers]
        intro empty
        rw [empty] at held
        exact held rfl
    · rename_i keeps
      cases left
      exact absurd ⟨owned, undesired⟩ keeps

theorem foldl_upserted_of_spec {stored : ResourceObject}
    (same : ∀ object ∈ desired, object.spec = stored.spec) :
    desired.foldl (fun stored object => some (upserted owner object stored))
      (some stored) = some stored := by
  induction desired with
  | nil => rfl
  | cons object desired induction =>
      have unchanged : upserted owner object (some stored) = stored := by
        simp [upserted, same object List.mem_cons_self]
      rw [List.foldl_cons, unchanged]
      exact induction fun other member =>
        same other (List.mem_cons_of_mem object member)

theorem upsertedAt_of_published
    (published : ∀ object ∈ desired, ∃ existing,
      objects.lookup object.key = some existing ∧
        existing.spec = object.spec) (key : Key) :
    upsertedAt owner desired key (objects.lookup key) =
      objects.lookup key := by
  by_cases member : key ∈ desired.map ResourceObject.key
  · obtain ⟨wanted, isDesired, wantedKey⟩ := List.mem_map.mp member
    obtain ⟨existing, stored, _⟩ := published wanted isDesired
    rw [wantedKey] at stored
    rw [stored]
    apply foldl_upserted_of_spec
    intro object filtered
    obtain ⟨objectMember, objectKey⟩ := List.mem_filter.mp filtered
    obtain ⟨other, otherStored, spec⟩ := published object objectMember
    rw [of_decide_eq_true objectKey, stored] at otherStored
    cases otherStored
    exact spec.symm
  · exact upsertedAt_of_notMem member _

theorem OwnedSettled.reconciledAt
    (settled : OwnedSettled owner ns typ desired objects) (id : String) :
    reconciledAt owner desired ⟨ns, typ, id⟩ (objects.lookup ⟨ns, typ, id⟩) =
      objects.lookup ⟨ns, typ, id⟩ := by
  rw [MachinedRs.reconciledAt,
    upsertedAt_of_published settled.published]
  cases stored : objects.lookup ⟨ns, typ, id⟩ with
  | none => rfl
  | some existing =>
      rw [Option.bind_some, collected]
      split
      · rename_i undesired
        obtain ⟨phase, held⟩ :=
          settled.dismissed id existing stored undesired.1 undesired.2
        rw [if_neg, tornDown_of_tearingDown phase]
        rwa [List.isEmpty_iff]
      · rfl

end Settling

/-- The store together with the events it has sent. -/
def announcing :
    Machine stateSignature (Objects × List Event) (List ResourceObject) :=
  { perform := fun state operation listing =>
      (Op.answer? state.1 listing operation).map fun answer =>
        (answer, Op.after state.1 operation,
          state.2 ++ Op.emits state.1 operation) }

theorem announcing_total : announcing.Total := by
  intro state operation
  obtain ⟨listing, answer, after, performed⟩ :=
    storeMachine_total state.1 operation
  obtain ⟨found, answered, _⟩ := Option.map_eq_some_iff.mp performed
  refine ⟨listing, found, (Op.after state.1 operation,
    state.2 ++ Op.emits state.1 operation), ?_⟩
  simp only [announcing, answered, Option.map_some]

section Announcing

variable {α : Type} {objects : Objects} {sent : List Event}

theorem announcing_call {post : α → Objects × List Event → Prop}
    {operation : Op} {next : operation.Answer → Program stateSignature α}
    (goesOn : ∀ listing answer,
      Op.answer? objects listing operation = some answer →
      announcing.Ensures post (next answer)
        (Op.after objects operation, sent ++ Op.emits objects operation)) :
    announcing.Ensures post (.call operation next) (objects, sent) := by
  apply Machine.call trivial
  intro listing answer after performed
  obtain ⟨found, answered, equality⟩ := Option.map_eq_some_iff.mp performed
  cases equality
  exact goesOn listing _ answered

theorem ensures_announcing {post : α → Objects → Prop}
    {program : Program stateSignature α}
    (ensures : storeMachine.Ensures post program objects) :
    announcing.Ensures (fun value state => post value state.1) program
      (objects, sent) := by
  induction program generalizing objects sent with
  | done value => exact Machine.done trivial ensures.finished
  | call operation next induction =>
      apply announcing_call
      intro listing answer answered
      apply induction answer
      apply ensures.advance
      refine ⟨listing, ?_⟩
      simp only [storeMachine, answered, Option.map_some]

theorem announcing_idle {post : α → Objects × List Event → Prop}
    {operation : Op} {next : operation.Answer → Program stateSignature α}
    (unchanged : Op.after objects operation = objects)
    (silent : Op.emits objects operation = [])
    (goesOn : ∀ listing answer,
      Op.answer? objects listing operation = some answer →
      announcing.Ensures post (next answer) (objects, sent)) :
    announcing.Ensures post (.call operation next) (objects, sent) := by
  apply announcing_call
  intro listing answer answered
  rw [unchanged, silent, List.append_nil]
  exact goesOn listing answer answered

variable {owner ns : String} {typ : ResourceType}
  {desired : List ResourceObject}

theorem upsertDesired_idle
    (published : ∀ object ∈ desired, ∃ existing,
      objects.lookup object.key = some existing ∧
        existing.spec = object.spec) :
    announcing.Ensures
      (fun result state => result = .ok () ∧ state = (objects, sent))
      (upsertDesired owner desired) (objects, sent) := by
  induction desired with
  | nil => exact Machine.done trivial ⟨rfl, rfl⟩
  | cons object desired induction =>
      obtain ⟨existing, stored, same⟩ := published object List.mem_cons_self
      refine announcing_idle rfl rfl ?_
      intro _ answer answered
      have found : answer = .ok existing := by
        cases answered
        rw [State.get, stored]
      subst found
      dsimp only
      rw [if_neg (not_not.mpr same)]
      exact induction fun other member =>
        published other (List.mem_cons_of_mem object member)

theorem collectUndesired_idle {desiredIds : List String}
    {listing : List ResourceObject}
    (stored : ∀ existing ∈ listing,
      objects.lookup existing.key = some existing)
    (dismissed : ∀ existing ∈ listing,
      existing.metadata.owner = some owner →
      existing.metadata.id ∉ desiredIds →
      existing.metadata.phase = .tearingDown ∧
        existing.metadata.finalizers ≠ []) :
    announcing.Ensures
      (fun result state => result = .ok () ∧ state = (objects, sent))
      (collectUndesired owner desiredIds listing) (objects, sent) := by
  induction listing with
  | nil => exact Machine.done trivial ⟨rfl, rfl⟩
  | cons existing listing induction =>
      have goesOn := induction
        (fun other member => stored other (List.mem_cons_of_mem _ member))
        (fun other member => dismissed other (List.mem_cons_of_mem _ member))
      unfold collectUndesired
      split
      · rename_i undesired
        obtain ⟨phase, held⟩ := dismissed existing List.mem_cons_self
          undesired.1 undesired.2
        have commit : State.teardown objects existing.key =
            .unchanged objects (.ok false) := by
          have present := stored existing List.mem_cons_self
          have full : existing.metadata.finalizers.isEmpty = false := by
            simpa using held
          simp [State.teardown, present, phase, full]
        refine announcing_idle (congrArg Commit.objects commit)
          (congrArg Commit.emits commit) ?_
        intro _ answer answered
        have answeredFalse : answer = .ok false := by
          cases answered
          exact congrArg Commit.result commit
        subst answeredFalse
        exact goesOn
      · exact goesOn

theorem reconcileOwned_idle (keyed : State.WellKeyed objects)
    (settled : OwnedSettled owner ns typ desired objects) :
    announcing.Ensures
      (fun result state => result = .ok () ∧ state = (objects, sent))
      (reconcileOwned owner ns typ desired) (objects, sent) := by
  apply Setting.Protected.bind
  apply Setting.Protected.mono _ (upsertDesired_idle settled.published)
  rintro result state ⟨rfl, rfl⟩
  refine announcing_idle rfl rfl ?_
  intro listing answer answered
  obtain ⟨enumerates, same⟩ := Option.ite_none_right_eq_some.mp answered
  cases same
  have member : ∀ object ∈ listing,
      objects.lookup object.key = some object ∧
        object.key.ns = ns ∧ object.key.typ = typ :=
    fun _ => (State.mem_enumeration keyed enumerates).mp
  apply collectUndesired_idle
  · intro existing listed
    exact (member existing listed).1
  · intro existing listed
    obtain ⟨stored, ofNs, ofTyp⟩ := member existing listed
    have key : existing.key = ⟨ns, typ, existing.metadata.id⟩ := by
      rw [← ofNs, ← ofTyp]
      rfl
    rw [key] at stored
    exact settled.dismissed _ existing stored

end Announcing

/-- Passes over several types, one after the other. -/
def reconcileEach (owner ns : String) :
    List (ResourceType × List ResourceObject) →
      Program stateSignature (Result Unit)
  | [] => .done (.ok ())
  | (typ, desired) :: groups =>
      (reconcileOwned owner ns typ desired).bind fun result =>
        Program.attempt result fun _ => reconcileEach owner ns groups

section Each

variable {owner ns : String} {objects : Objects}
  {groups : List (ResourceType × List ResourceObject)}

theorem reconcileEach_ensures (keyed : State.WellKeyed objects)
    (distinct : (groups.map Prod.fst).Nodup)
    (typed : ∀ group ∈ groups, OfType ns group.1 group.2) :
    storeMachine.Ensures
      (fun result after => result = .ok () ∧ State.WellKeyed after ∧
        (∀ group ∈ groups, ∀ id, after.lookup ⟨ns, group.1, id⟩ =
          reconciledAt owner group.2 ⟨ns, group.1, id⟩
            (objects.lookup ⟨ns, group.1, id⟩)) ∧
        ∀ key : Key, ¬ (key.ns = ns ∧ key.typ ∈ groups.map Prod.fst) →
          after.lookup key = objects.lookup key)
      (reconcileEach owner ns groups) objects := by
  induction groups generalizing objects with
  | nil =>
      refine Machine.done trivial ⟨rfl, keyed, ?_, fun _ _ => rfl⟩
      intro group member
      cases member
  | cons group groups induction =>
      obtain ⟨typ, desired⟩ := group
      rw [List.map_cons, List.nodup_cons] at distinct
      have fresh : typ ∉ groups.map Prod.fst := distinct.1
      have here := typed (typ, desired) List.mem_cons_self
      apply Setting.Protected.bind
      apply Setting.Protected.mono _
        (reconcileOwned_ensures owner ns typ desired keyed)
      rintro result middle ⟨rfl, middleKeyed, lookup⟩
      have elsewhere : ∀ key : Key, ¬ (key.ns = ns ∧ key.typ = typ) →
          middle.lookup key = objects.lookup key := by
        intro key other
        rw [lookup]
        exact reconciled_of_other here other
      apply Setting.Protected.mono _ (induction middleKeyed distinct.2
        fun other member => typed other (List.mem_cons_of_mem _ member))
      rintro result after ⟨succeeded, afterKeyed, later, outside⟩
      refine ⟨succeeded, afterKeyed, ?_, ?_⟩
      · intro other member id
        rcases List.mem_cons.mp member with rfl | isLater
        · have untouched : after.lookup ⟨ns, typ, id⟩ =
              middle.lookup ⟨ns, typ, id⟩ :=
            outside _ fun inside => fresh inside.2
          rw [untouched, lookup]
          exact reconciled_of_type objects ⟨rfl, rfl⟩
        · have different : other.1 ≠ typ := by
            intro same
            apply fresh
            rw [← same]
            exact List.mem_map_of_mem isLater
          rw [later other isLater, elsewhere]
          exact fun inside => different inside.2
      · intro key other
        rw [outside key, elsewhere key]
        · rintro ⟨ofNs, ofTyp⟩
          apply other
          rw [List.map_cons, ofTyp]
          exact ⟨ofNs, List.mem_cons_self⟩
        · rintro ⟨ofNs, ofTyp⟩
          apply other
          rw [List.map_cons]
          exact ⟨ofNs, List.mem_cons_of_mem _ ofTyp⟩

theorem reconcileEach_idle (keyed : State.WellKeyed objects)
    (settled : ∀ group ∈ groups,
      OwnedSettled owner ns group.1 group.2 objects) (sent : List Event) :
    announcing.Ensures
      (fun result state => result = .ok () ∧ state = (objects, sent))
      (reconcileEach owner ns groups) (objects, sent) := by
  induction groups with
  | nil => exact Machine.done trivial ⟨rfl, rfl⟩
  | cons group groups induction =>
      apply Setting.Protected.bind
      apply Setting.Protected.mono _
        (reconcileOwned_idle keyed (settled group List.mem_cons_self))
      rintro result state ⟨rfl, rfl⟩
      exact induction fun other member =>
        settled other (List.mem_cons_of_mem group member)

theorem reconcileEach_again (keyed : State.WellKeyed objects)
    (distinct : (groups.map Prod.fst).Nodup)
    (typed : ∀ group ∈ groups, OfType ns group.1 group.2)
    (agreeing : ∀ group ∈ groups, Agreeing group.2) :
    storeMachine.Ensures
      (fun _ middle => ∀ sent, announcing.Ensures
        (fun _ state => state = (middle, sent))
        (reconcileEach owner ns groups) (middle, sent))
      (reconcileEach owner ns groups) objects := by
  apply Setting.Protected.mono _ (reconcileEach_ensures keyed distinct typed)
  rintro result middle ⟨_, middleKeyed, lookup, _⟩ sent
  have settled : ∀ group ∈ groups,
      OwnedSettled owner ns group.1 group.2 middle := by
    intro group member
    exact settled_of_reconciledAt keyed (typed group member)
      (agreeing group member) (lookup group member)
  apply Setting.Protected.mono _ (reconcileEach_idle middleKeyed settled sent)
  rintro result state ⟨_, same⟩
  exact same

/-- A second round that leaves the store as it is was not asked for two specs
under one key. -/
theorem agreeing_of_again (keyed : State.WellKeyed objects)
    (distinct : (groups.map Prod.fst).Nodup)
    (typed : ∀ group ∈ groups, OfType ns group.1 group.2)
    {group : ResourceType × List ResourceObject} (member : group ∈ groups)
    {result other : Result Unit} {middle : Objects}
    (first : storeMachine.Returns (reconcileEach owner ns groups) objects
      result middle)
    (second : storeMachine.Returns (reconcileEach owner ns groups) middle
      other middle) :
    Agreeing group.2 := by
  obtain ⟨_, middleKeyed, lookup, _⟩ :=
    Machine.post_of_returns (reconcileEach_ensures keyed distinct typed) first
  obtain ⟨_, _, again, _⟩ := Machine.post_of_returns
    (reconcileEach_ensures middleKeyed distinct typed) second
  have stored : ∀ wanted ∈ group.2, ∃ existing : ResourceObject,
      middle.lookup wanted.key = some existing ∧
        ∀ object ∈ group.2, object.key = wanted.key →
          object.spec = existing.spec := by
    intro wanted isDesired
    have key : wanted.key = ⟨ns, group.1, wanted.metadata.id⟩ := by
      obtain ⟨ofNs, ofTyp⟩ := typed group member wanted isDesired
      rw [← ofNs, ← ofTyp]
      rfl
    have present : ∃ existing, middle.lookup wanted.key = some existing := by
      obtain ⟨_, _, _, existing, found, _⟩ :=
        exists_upsertedAt objects isDesired
      refine ⟨existing, ?_⟩
      rw [key, lookup group member, ← key,
        reconciledAt_of_mem keyed isDesired]
      exact found
    obtain ⟨existing, found⟩ := present
    refine ⟨existing, found, ?_⟩
    have same := again group member wanted.metadata.id
    rw [← key, reconciledAt_of_mem middleKeyed isDesired, found] at same
    obtain ⟨final, folded, _, kept⟩ := foldl_upserted_version owner
      (group.2.filter fun object => object.key = wanted.key) existing
    rw [upsertedAt, folded] at same
    cases same
    intro object objectDesired sameKey
    exact kept rfl object
      (List.mem_filter.mpr ⟨objectDesired, decide_eq_true sameKey⟩)
  intro one oneDesired two twoDesired sameKey
  obtain ⟨existing, _, specs⟩ := stored one oneDesired
  rw [specs one oneDesired rfl, specs two twoDesired sameKey.symm]

end Each

end MachinedRs
