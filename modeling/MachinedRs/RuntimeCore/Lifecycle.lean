import MachinedRs.RuntimeCore.State

/-!
# Object life cycles

Seen through one key, a run of store operations is a sequence of incarnations:
an object is created, revised any number of times and destroyed.  `ObjectStep`
states this life cycle on its own; every store operation refines it at every
key, and the properties of whole runs are read off it.
-/

namespace MachinedRs

namespace State

/-- The map after a sequence of operations. -/
def run (objects : Objects) (operations : List Op) : Objects :=
  operations.foldl Op.after objects

@[simp] theorem run_nil (objects : Objects) : run objects [] = objects :=
  rfl

@[simp] theorem run_cons (objects : Objects) (operation : Op)
    (operations : List Op) :
    run objects (operation :: operations) =
      run (operation.after objects) operations :=
  rfl

theorem run_append (objects : Objects) (first second : List Op) :
    run objects (first ++ second) = run (run objects first) second :=
  List.foldl_append

/-- Every object is stored under its own key. -/
def WellKeyed (objects : Objects) : Prop :=
  ∀ key object, objects.lookup key = some object → object.key = key

theorem wellKeyed_empty : WellKeyed ∅ := by
  intro key object stored
  simp at stored

theorem lookup_singleton_eq_some {object stored : ResourceObject} {key : Key}
    (found : (Finmap.singleton object.key object : Objects).lookup key =
      some stored) : key = object.key ∧ stored = object := by
  by_cases same : key = object.key
  · subst same
    rw [Finmap.lookup_singleton_eq] at found
    exact ⟨rfl, (Option.some.inj found).symm⟩
  · rw [Finmap.lookup_eq_none.mpr] at found
    · cases found
    · rwa [Finmap.mem_singleton]

theorem wellKeyed_singleton (object : ResourceObject) :
    WellKeyed (Finmap.singleton object.key object) := by
  intro key stored found
  obtain ⟨rfl, rfl⟩ := lookup_singleton_eq_some found
  rfl

end State

/-- What a revision keeps and what it changes. -/
structure Revises (old new : ResourceObject) : Prop where
  key : new.key = old.key
  owner : new.metadata.owner = old.metadata.owner
  version : new.metadata.version = old.metadata.version + 1
  phase : old.metadata.phase = .tearingDown →
    new.metadata.phase = .tearingDown
  finalizers : old.metadata.finalizers.Nodup → new.metadata.finalizers.Nodup

theorem Revises.ne {old new : ResourceObject} (revises : Revises old new) :
    new ≠ old := by
  intro equality
  have version := revises.version
  rw [equality] at version
  omega

theorem Revision.revises {operation : Op} {key : Key}
    {old new : ResourceObject} (revision : Revision operation key old new) :
    Revises old new := by
  cases revision with
  | update spec => exact ⟨rfl, rfl, rfl, id, id⟩
  | addFinalizer absent =>
      refine ⟨rfl, rfl, rfl, id, ?_⟩
      intro distinct
      apply List.nodup_append.mpr
      refine ⟨distinct, List.nodup_singleton _, ?_⟩
      intro present member added addedMember equality
      rw [List.mem_singleton] at addedMember
      subst addedMember
      exact absent (equality ▸ member)
  | removeFinalizer present =>
      refine ⟨rfl, rfl, rfl, id, ?_⟩
      intro distinct
      exact distinct.filter _
  | teardown running => exact ⟨rfl, rfl, rfl, fun _ => rfl, id⟩

/-- One step in the life of the object stored under `key`. -/
inductive ObjectStep (key : Key) (operation : Op) :
    Option ResourceObject → Option ResourceObject → Prop where
  | stays (slot : Option ResourceObject) :
      ObjectStep key operation slot slot
  | begins {object : ResourceObject}
      (creation : operation = .create object) (own : object.key = key) :
      ObjectStep key operation none (some object.fresh)
  | revised {old new : ResourceObject}
      (revision : Revision operation key old new) :
      ObjectStep key operation (some old) (some new)
  | ends {object : ResourceObject}
      (destruction : operation = .destroy key object.metadata.version)
      (released : object.metadata.finalizers = []) :
      ObjectStep key operation (some object) none

theorem Effect.objectStep {objects after : Objects} {operation : Op}
    {failed : Bool} {events : List Event}
    (effect : Effect objects operation failed after events) (key : Key) :
    ObjectStep key operation (objects.lookup key) (after.lookup key) := by
  cases effect with
  | none => exact .stays _
  | @created object absent =>
      by_cases same : key = object.key
      · subst same
        rw [Finmap.lookup_insert, Finmap.lookup_eq_none.mpr absent]
        exact .begins rfl rfl
      · rw [Finmap.lookup_insert_of_ne _ same]
        exact .stays _
  | @revised _ changed old new stored revision =>
      by_cases same : key = changed
      · subst same
        rw [Finmap.lookup_insert, stored]
        exact .revised revision
      · rw [Finmap.lookup_insert_of_ne _ same]
        exact .stays _
  | @removed changed object stored released =>
      by_cases same : key = changed
      · subst same
        rw [Finmap.lookup_erase, stored]
        exact .ends rfl released
      · rw [Finmap.lookup_erase_ne same]
        exact .stays _

/-- The store refines the object life cycle at every key. -/
theorem Op.objectStep (objects : Objects) (operation : Op) (key : Key) :
    ObjectStep key operation (objects.lookup key)
      ((operation.after objects).lookup key) :=
  (operation.effect objects).objectStep key

theorem State.WellKeyed.after {objects : Objects}
    (keyed : State.WellKeyed objects) (operation : Op) :
    State.WellKeyed (operation.after objects) := by
  intro key object stored
  have step := operation.objectStep objects key
  rw [stored] at step
  generalize slotEquality : objects.lookup key = slot at step
  cases step with
  | stays => exact keyed key object slotEquality
  | begins creation own => exact own
  | revised revision =>
      rw [revision.revises.key]
      exact keyed key _ slotEquality

theorem State.WellKeyed.run {objects : Objects}
    (keyed : State.WellKeyed objects) (operations : List Op) :
    State.WellKeyed (State.run objects operations) := by
  induction operations generalizing objects with
  | nil => exact keyed
  | cons operation operations induction =>
      exact induction (keyed.after operation)

/-- The number of operations of a run that change the object under `key`. -/
def changeCount (key : Key) : Objects → List Op → Nat
  | _, [] => 0
  | objects, operation :: operations =>
      (if (operation.after objects).lookup key = objects.lookup key then 0
        else 1) + changeCount key (operation.after objects) operations

/-- The object under `key` is present throughout a run. -/
def LivesThrough (key : Key) (objects : Objects) (operations : List Op) :
    Prop :=
  ∀ earlier, earlier <+: operations → key ∈ State.run objects earlier

instance (key : Key) (objects : Objects) (operations : List Op) :
    Decidable (LivesThrough key objects operations) :=
  decidable_of_iff
    (∀ earlier ∈ operations.inits, key ∈ State.run objects earlier)
    (by simp [LivesThrough])

theorem LivesThrough.head {key : Key} {objects : Objects}
    {operations : List Op} (lives : LivesThrough key objects operations) :
    key ∈ objects :=
  lives [] List.nil_prefix

theorem LivesThrough.tail {key : Key} {objects : Objects} {operation : Op}
    {operations : List Op}
    (lives : LivesThrough key objects (operation :: operations)) :
    LivesThrough key (operation.after objects) operations := by
  intro earlier isPrefix
  exact lives (operation :: earlier) (List.cons_prefix_cons.mpr ⟨rfl, isPrefix⟩)

/-- Two states of one object in the same incarnation, the second `changes`
revisions after the first. -/
structure Descends (changes : Nat) (old new : ResourceObject) : Prop where
  key : new.key = old.key
  owner : new.metadata.owner = old.metadata.owner
  version : new.metadata.version = old.metadata.version + changes
  phase : old.metadata.phase = .tearingDown →
    new.metadata.phase = .tearingDown
  finalizers : old.metadata.finalizers.Nodup → new.metadata.finalizers.Nodup

theorem Descends.refl (object : ResourceObject) : Descends 0 object object :=
  ⟨rfl, rfl, rfl, id, id⟩

theorem Revises.descends_trans {changes : Nat}
    {old middle new : ResourceObject} (revises : Revises old middle)
    (descends : Descends changes middle new) :
    Descends (1 + changes) old new := by
  refine ⟨?_, ?_, ?_, ?_, ?_⟩
  · rw [descends.key, revises.key]
  · rw [descends.owner, revises.owner]
  · rw [descends.version, revises.version]
    omega
  · intro tearing
    exact descends.phase (revises.phase tearing)
  · intro distinct
    exact descends.finalizers (revises.finalizers distinct)

/-- While an object stays in the store, a run revises it as often as it
changes it. -/
theorem LivesThrough.descends {key : Key} {objects : Objects}
    {operations : List Op} (lives : LivesThrough key objects operations)
    {old : ResourceObject} (stored : objects.lookup key = some old) :
    ∃ new, (State.run objects operations).lookup key = some new ∧
      Descends (changeCount key objects operations) old new := by
  induction operations generalizing objects old with
  | nil => exact ⟨old, stored, .refl old⟩
  | cons operation operations induction =>
      have present := lives.tail.head
      have step := operation.objectStep objects key
      rw [stored] at step
      generalize slotEquality : (operation.after objects).lookup key = slot
        at step
      cases step with
      | stays =>
          obtain ⟨new, newStored, descends⟩ :=
            induction lives.tail slotEquality
          refine ⟨new, newStored, ?_⟩
          simpa [changeCount, slotEquality, stored] using descends
      | @revised _ middle revision =>
          obtain ⟨new, newStored, descends⟩ :=
            induction lives.tail slotEquality
          refine ⟨new, newStored, ?_⟩
          have changed : middle ≠ old := revision.revises.ne
          simpa [changeCount, slotEquality, stored, changed] using
            revision.revises.descends_trans descends
      | ends destruction released =>
          exact (Finmap.lookup_eq_none.mp slotEquality present).elim

/-- An object leaves the store only by a `destroy` that names its current
version, after all finalizers are gone. -/
theorem Op.removes_only_by_destroy {objects : Objects} {operation : Op}
    {key : Key} {object : ResourceObject}
    (stored : objects.lookup key = some object)
    (gone : (operation.after objects).lookup key = none) :
    operation = .destroy key object.metadata.version ∧
      object.metadata.finalizers = [] := by
  have step := operation.objectStep objects key
  rw [stored, gone] at step
  cases step with
  | ends destruction released => exact ⟨destruction, released⟩

/-- Versions count operations: a run of `n` operations from the empty store
produces no version above `n`. -/
theorem State.version_le_length (operations : List Op) :
    ∀ key object, (State.run ∅ operations).lookup key = some object →
      object.metadata.version ≤ operations.length := by
  induction operations using List.reverseRecOn with
  | nil =>
      intro key object stored
      simp at stored
  | append_singleton operations operation induction =>
      intro key object stored
      rw [State.run_append, State.run_cons, State.run_nil] at stored
      have step := operation.objectStep (State.run ∅ operations) key
      rw [stored] at step
      generalize slotEquality : (State.run ∅ operations).lookup key = slot
        at step
      rw [List.length_append, List.length_singleton]
      cases step with
      | stays =>
          have bound := induction key object slotEquality
          omega
      | begins creation own =>
          exact Nat.le_add_left 1 operations.length
      | revised revision =>
          have bound := induction key _ slotEquality
          rw [revision.revises.version]
          omega

theorem State.addFinalizer_idempotent (objects : Objects) (key : Key)
    (finalizer : String) :
    let once := (State.addFinalizer objects key finalizer).objects
    (State.addFinalizer once key finalizer).objects = once ∧
      (State.addFinalizer once key finalizer).emits = [] := by
  cases stored : objects.lookup key with
  | none => simp [State.addFinalizer, stored, Commit.unchanged]
  | some object =>
      by_cases present : finalizer ∈ object.metadata.finalizers
      · simp [State.addFinalizer, stored, present, Commit.unchanged]
      · simp [State.addFinalizer, stored, present, State.replace,
          Commit.unchanged, ResourceObject.bump,
          ResourceObject.withFinalizers]

theorem State.removeFinalizer_idempotent (objects : Objects) (key : Key)
    (finalizer : String) :
    let once := (State.removeFinalizer objects key finalizer).objects
    (State.removeFinalizer once key finalizer).objects = once ∧
      (State.removeFinalizer once key finalizer).emits = [] := by
  cases stored : objects.lookup key with
  | none => simp [State.removeFinalizer, stored, Commit.unchanged]
  | some object =>
      by_cases shorter :
          (object.metadata.finalizers.filter (· ≠ finalizer)).length ≠
            object.metadata.finalizers.length
      · simp only [ne_eq, decide_not] at shorter
        simp [State.removeFinalizer, stored, shorter, State.replace,
          Commit.unchanged, ResourceObject.bump,
          ResourceObject.withFinalizers, List.filter_filter]
      · simp only [ne_eq, decide_not] at shorter
        simp [State.removeFinalizer, stored, shorter, Commit.unchanged]

/-- The state of an incarnation at any point of its life.  `object` is what
`create` was given, `history` what happened before and `operations` what
happened since. -/
structure IncarnationAt (history : List Op) (object : ResourceObject)
    (operations : List Op) (current : ResourceObject) : Prop where
  /-- The version starts at 1 and counts the operations that changed the
  object. -/
  version : current.metadata.version = 1 + changeCount object.key
    ((Op.create object).after (State.run ∅ history)) operations
  ns : current.metadata.ns = object.metadata.ns
  typ : current.metadata.typ = object.metadata.typ
  id : current.metadata.id = object.metadata.id
  owner : current.metadata.owner = object.metadata.owner
  startsRunning : operations = [] → current.metadata.phase = .running
  /-- Once tearing down, always tearing down. -/
  phase : ∀ earlier, earlier <+: operations → ∀ previous,
    (State.run ∅ (history ++ .create object :: earlier)).lookup object.key =
      some previous →
    previous.metadata.phase = .tearingDown →
    current.metadata.phase = .tearingDown
  finalizers : object.metadata.finalizers.Nodup →
    current.metadata.finalizers.Nodup
  /-- The next operation either leaves the object as it is or raises the
  version by exactly one; the object disappears only by the matching `destroy`
  and without finalizers. -/
  next : ∀ operation : Op,
    match (operation.after (State.run ∅
      (history ++ .create object :: operations))).lookup object.key with
    | some revised => revised = current ∨
        revised.metadata.version = current.metadata.version + 1
    | none => operation = .destroy object.key current.metadata.version ∧
        current.metadata.finalizers = []

private theorem run_incarnation (history : List Op) (object : ResourceObject)
    (operations : List Op) :
    State.run ∅ (history ++ .create object :: operations) =
      State.run ((Op.create object).after (State.run ∅ history))
        operations := by
  rw [State.run_append, State.run_cons]

private theorem create_stores {objects : Objects} {object : ResourceObject}
    (absent : object.key ∉ objects) :
    ((Op.create object).after objects).lookup object.key =
      some object.fresh := by
  simp [Op.after, Op.commit, State.create, absent]

/-- The life cycle of an object.  Whatever happened before its creation and
whatever operations followed while it stayed in the store, the incarnation is
as `IncarnationAt` says, and repeating a finalizer operation has no effect. -/
theorem incarnation_lifecycle (history : List Op) (object : ResourceObject)
    (operations : List Op)
    (absent : object.key ∉ State.run ∅ history)
    (lives : LivesThrough object.key
      ((Op.create object).after (State.run ∅ history)) operations) :
    (∃ current,
      (State.run ∅ (history ++ .create object :: operations)).lookup
        object.key = some current ∧
      IncarnationAt history object operations current) ∧
    ∀ objects key finalizer,
      (Op.addFinalizer key finalizer).after
          ((Op.addFinalizer key finalizer).after objects) =
        (Op.addFinalizer key finalizer).after objects ∧
      (Op.removeFinalizer key finalizer).after
          ((Op.removeFinalizer key finalizer).after objects) =
        (Op.removeFinalizer key finalizer).after objects := by
  have started := create_stores absent
  obtain ⟨current, stored, descends⟩ := lives.descends started
  have keyEquality : current.key = object.key := by
    rw [descends.key, ResourceObject.fresh_key]
  rw [← run_incarnation] at stored
  refine ⟨⟨current, stored, ?_⟩, ?_⟩
  · refine
      { version := descends.version
        ns := congrArg Key.ns keyEquality
        typ := congrArg Key.typ keyEquality
        id := congrArg Key.id keyEquality
        owner := descends.owner
        startsRunning := ?_
        phase := ?_
        finalizers := descends.finalizers
        next := ?_ }
    · rintro rfl
      rw [run_incarnation, State.run_nil, started] at stored
      cases stored
      rfl
    · rintro earlier ⟨later, rfl⟩ previous previousStored tearing
      have livesLater : LivesThrough object.key
          (State.run ∅ (history ++ .create object :: earlier)) later := by
        rintro middle ⟨rest, rfl⟩
        rw [run_incarnation, ← State.run_append]
        exact lives (earlier ++ middle)
          ⟨rest, by rw [List.append_assoc]⟩
      obtain ⟨final, finalStored, finalDescends⟩ :=
        livesLater.descends previousStored
      rw [← State.run_append, List.append_assoc, List.cons_append,
        stored] at finalStored
      cases finalStored
      exact finalDescends.phase tearing
    · intro operation
      split
      · rename_i revised revisedStored
        have step := operation.objectStep
          (State.run ∅ (history ++ .create object :: operations)) object.key
        rw [stored, revisedStored] at step
        cases step with
        | stays => exact .inl rfl
        | revised revision => exact .inr revision.revises.version
      · rename_i gone
        exact Op.removes_only_by_destroy stored gone
  · intro objects key finalizer
    exact ⟨(State.addFinalizer_idempotent objects key finalizer).1,
      (State.removeFinalizer_idempotent objects key finalizer).1⟩

/-- A service status, as the tests of the store build them. -/
def etcdService : ResourceObject :=
  .new "runtime" "etcd" (.serviceStatus
    { serviceId := "etcd"
      state := .preparing
      healthy := true
      lastMessage := "" })

def kubeletService : ResourceObject :=
  { etcdService with
    metadata := { etcdService.metadata with id := "kubelet" } }

theorem incarnation_lifecycle_etcd :
    ∃ current,
      (State.run ∅ [.create etcdService,
        .addFinalizer etcdService.key "net",
        .teardown etcdService.key]).lookup etcdService.key =
          some current ∧
      IncarnationAt [] etcdService
        [.addFinalizer etcdService.key "net",
          .teardown etcdService.key] current :=
  (incarnation_lifecycle [] etcdService
    [.addFinalizer etcdService.key "net", .teardown etcdService.key]
    (by decide) (by decide)).1

end MachinedRs
