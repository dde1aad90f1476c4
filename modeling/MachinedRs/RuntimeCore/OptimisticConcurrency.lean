import MachinedRs.RuntimeCore.Lifecycle

/-!
# Optimistic concurrency

Clients read an object, compute, and write back naming the version they read.
Every operation is atomic, so any interleaving of clients is one sequence of
operations.  Within one incarnation versions identify object states, and a
successful write replaces exactly the object that was read.  Versions restart
at 1 when a destroyed key is created again, and there the guarantee ends.
-/

namespace MachinedRs

/-- A write that is conditional on the version of the object under `key`. -/
inductive Conditional (key : Key) (version : Nat) : Op → Prop where
  | update (spec : Resource) : Conditional key version (.update key version spec)
  | destroy : Conditional key version (.destroy key version)

theorem Conditional.version_of_succeeds {key : Key} {version : Nat}
    {write : Op} (conditional : Conditional key version write)
    {objects : Objects} (succeeds : write.fails objects = false) :
    ∃ object, objects.lookup key = some object ∧
      object.metadata.version = version := by
  cases stored : objects.lookup key with
  | none =>
      cases conditional <;>
        simp [Op.fails, Op.commit, State.update, State.destroy, stored,
          Commit.unchanged, Commit.failed] at succeeds
  | some object =>
      refine ⟨object, rfl, ?_⟩
      by_contra different
      cases conditional <;>
        simp [Op.fails, Op.commit, State.update, State.destroy, stored,
          different, Commit.unchanged, Commit.failed] at succeeds

theorem lookup_of_changeCount_eq_zero {key : Key} {objects : Objects}
    {operations : List Op} (quiet : changeCount key objects operations = 0)
    {earlier : List Op} (isPrefix : earlier <+: operations) :
    (State.run objects earlier).lookup key = objects.lookup key := by
  induction operations generalizing objects earlier with
  | nil =>
      rw [List.prefix_nil.mp isPrefix]
      rfl
  | cons operation operations induction =>
      obtain ⟨headQuiet, tailQuiet⟩ := Nat.add_eq_zero_iff.mp quiet
      have same :
          (operation.after objects).lookup key = objects.lookup key := by
        by_contra different
        simp [different] at headQuiet
      cases earlier with
      | nil => rfl
      | cons head earlier =>
          obtain ⟨rfl, tailPrefix⟩ := List.cons_prefix_cons.mp isPrefix
          rw [State.run_cons, induction tailQuiet tailPrefix, same]

theorem destroyed_of_not_livesThrough {key : Key} {objects : Objects}
    {operations : List Op} (present : key ∈ objects)
    (dies : ¬ LivesThrough key objects operations) :
    ∃ earlier version, earlier ++ [.destroy key version] <+: operations ∧
      (Op.destroy key version).fails (State.run objects earlier) = false := by
  induction operations generalizing objects with
  | nil =>
      exfalso
      apply dies
      intro earlier isPrefix
      rw [List.prefix_nil.mp isPrefix]
      exact present
  | cons operation operations induction =>
      by_cases stillPresent : key ∈ operation.after objects
      · have diesLater :
            ¬ LivesThrough key (operation.after objects) operations := by
          intro lives
          apply dies
          intro earlier isPrefix
          cases earlier with
          | nil => exact present
          | cons head earlier =>
              obtain ⟨rfl, tailPrefix⟩ := List.cons_prefix_cons.mp isPrefix
              exact lives earlier tailPrefix
        obtain ⟨earlier, version, isPrefix, succeeds⟩ :=
          induction stillPresent diesLater
        exact ⟨operation :: earlier, version,
          List.cons_prefix_cons.mpr ⟨rfl, isPrefix⟩, succeeds⟩
      · obtain ⟨object, stored⟩ := Finmap.mem_iff.mp present
        have gone := Finmap.lookup_eq_none.mpr stillPresent
        obtain ⟨rfl, released⟩ := Op.removes_only_by_destroy stored gone
        refine ⟨[], object.metadata.version,
          List.cons_prefix_cons.mpr ⟨rfl, List.nil_prefix⟩, ?_⟩
        rw [State.run_nil, ← Bool.not_eq_true]
        intro fails
        have effect := (Op.destroy key object.metadata.version).effect objects
        rw [fails] at effect
        rw [effect.of_failed.1] at stillPresent
        exact stillPresent present

/-- Compare-and-swap.  A client reads `object`, other operations follow, and a
write that names the version read succeeds.  Then the object under the key was
the one read in every state in between, unless the key was destroyed in
between. -/
theorem conditional_write_sees_read {objects : Objects}
    {operations : List Op} {key : Key} {object : ResourceObject} {write : Op}
    (read : State.get objects key = .ok object)
    (conditional : Conditional key object.metadata.version write)
    (succeeds : write.fails (State.run objects operations) = false) :
    (∀ earlier, earlier <+: operations →
      (State.run objects earlier).lookup key = some object) ∨
    ∃ earlier version, earlier ++ [.destroy key version] <+: operations ∧
      (Op.destroy key version).fails (State.run objects earlier) = false := by
  have stored : objects.lookup key = some object := by
    cases slot : objects.lookup key with
    | none => simp [State.get, slot] at read
    | some found => simpa [State.get, slot] using read
  by_cases lives : LivesThrough key objects operations
  · left
    obtain ⟨final, finalStored, descends⟩ := lives.descends stored
    obtain ⟨written, writtenStored, version⟩ :=
      conditional.version_of_succeeds succeeds
    rw [finalStored] at writtenStored
    cases writtenStored
    have quiet : changeCount key objects operations = 0 := by
      have counted := descends.version
      omega
    intro earlier isPrefix
    rw [lookup_of_changeCount_eq_zero quiet isPrefix, stored]
  · right
    exact destroyed_of_not_livesThrough
      (Finmap.mem_iff.mpr ⟨object, stored⟩) lives

/-- Other clients try a stale update and work on another service. -/
def otherClients : List Op :=
  [.update etcdService.key 0 etcdService.spec, .create kubeletService,
    .update kubeletService.key 1 etcdService.spec,
    .destroy kubeletService.key 2]

theorem conditional_write_sees_read_etcd :
    let objects := State.run ∅ [.create etcdService]
    (Op.update etcdService.key 1 etcdService.spec).fails
        (State.run objects otherClients) = false ∧
      ∀ earlier, earlier <+: otherClients →
        (State.run objects earlier).lookup etcdService.key =
          some etcdService.fresh := by
  intro objects
  have succeeds : (Op.update etcdService.key 1 etcdService.spec).fails
      (State.run objects otherClients) = false := by
    decide
  have read : State.get objects etcdService.key = .ok etcdService.fresh := by
    decide
  refine ⟨succeeds, (conditional_write_sees_read read
    (.update etcdService.spec) succeeds).resolve_right ?_⟩
  rintro ⟨earlier, version, isPrefix, _⟩
  have member : .destroy etcdService.key version ∈ otherClients :=
    isPrefix.subset (by simp)
  have different : etcdService.key ≠ kubeletService.key := by decide
  simp [otherClients, different] at member

/-- Versions do not identify object states across incarnations: the key is
destroyed and created again, and the stale update goes through. -/
theorem lost_update_after_recreation :
    ¬ ∀ (history operations : List Op) (key : Key) (object : ResourceObject)
      (write : Op),
      State.get (State.run ∅ history) key = .ok object →
      Conditional key object.metadata.version write →
      write.fails (State.run ∅ (history ++ operations)) = false →
      ∀ earlier, earlier <+: operations →
        (State.run ∅ (history ++ earlier)).lookup key = some object := by
  intro claimed
  let other : ResourceObject := etcdService.withOwner "ctl"
  have unchanged := claimed [.create etcdService]
    [.destroy etcdService.key 1, .create other] etcdService.key
    etcdService.fresh (.update etcdService.key 1 etcdService.spec)
    (by decide) (.update _) (by decide)
    [.destroy etcdService.key 1, .create other] List.prefix_rfl
  revert unchanged
  decide

end MachinedRs
