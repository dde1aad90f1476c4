import MachinedRs.RuntimeCore.Lifecycle

/-!
# The event stream as a log of the store

A watcher that folds the events it receives over an empty map is to end up
with the store's own map.  Each operation is handled once, through `Effect`:
what it does to the map is what replaying its events does.
-/

namespace MachinedRs

/-- A watcher's view of the map after one more event. -/
def Event.replay (objects : Objects) (event : Event) : Objects :=
  match event.kind with
  | .created => objects.insert event.object.key event.object
  | .updated => objects.insert event.object.key event.object
  | .destroyed => objects.erase event.object.key

def replayAll (objects : Objects) (events : List Event) : Objects :=
  events.foldl Event.replay objects

/-- All events sent during a run, in order. -/
def eventLog : Objects → List Op → List Event
  | _, [] => []
  | objects, operation :: operations =>
      operation.emits objects ++ eventLog (operation.after objects) operations

namespace Effect

variable {objects after : Objects} {operation : Op} {failed : Bool}
  {events : List Event}

theorem replayAll_eq
    (effect : Effect objects operation failed after events)
    (keyed : State.WellKeyed objects) :
    replayAll objects events = after := by
  cases effect with
  | none => rfl
  | created absent => rfl
  | @revised _ key old new stored revision =>
      have keyEquality : new.key = key := by
        rw [revision.revises.key]
        exact keyed key old stored
      simp [replayAll, Event.replay, keyEquality]
  | @removed key object stored released =>
      have keyEquality : object.key = key := keyed key object stored
      simp [replayAll, Event.replay, keyEquality]

theorem length_le_one
    (effect : Effect objects operation failed after events) :
    events.length ≤ 1 := by
  cases effect with
  | none => exact Nat.zero_le 1
  | created absent => exact Nat.le_refl 1
  | revised stored revision => exact Nat.le_refl 1
  | removed stored released => exact Nat.le_refl 1

theorem lookup_ne_of_mem
    (effect : Effect objects operation failed after events)
    (keyed : State.WellKeyed objects) {event : Event}
    (sent : event ∈ events) :
    after.lookup event.object.key ≠ objects.lookup event.object.key := by
  cases effect with
  | none => simp at sent
  | @created object absent =>
      rw [List.mem_singleton] at sent
      subst sent
      rw [ResourceObject.fresh_key, Finmap.lookup_insert,
        Finmap.lookup_eq_none.mpr absent]
      simp
  | @revised _ key old new stored revision =>
      rw [List.mem_singleton] at sent
      subst sent
      have keyEquality : new.key = key := by
        rw [revision.revises.key]
        exact keyed key old stored
      rw [keyEquality, Finmap.lookup_insert, stored]
      simpa using revision.revises.ne
  | @removed key object stored released =>
      rw [List.mem_singleton] at sent
      subst sent
      rw [keyed key object stored, Finmap.lookup_erase, stored]
      simp

theorem nil_of_unchanged
    (effect : Effect objects operation failed objects events)
    (keyed : State.WellKeyed objects) : events = [] := by
  apply List.eq_nil_iff_forall_not_mem.mpr
  intro event sent
  exact effect.lookup_ne_of_mem keyed sent rfl

end Effect

theorem replayAll_eventLog {objects : Objects}
    (keyed : State.WellKeyed objects) (operations : List Op) :
    replayAll objects (eventLog objects operations) =
      State.run objects operations := by
  induction operations generalizing objects with
  | nil => rfl
  | cons operation operations induction =>
      rw [State.run_cons, ← induction (keyed.after operation)]
      unfold replayAll
      rw [eventLog, List.foldl_append]
      have step := (operation.effect objects).replayAll_eq keyed
      unfold replayAll at step
      rw [step]

/-- The event stream is a faithful log of the store.  After any sequence of
operations from the empty store the replayed events give the store's map and
every object sits under its own key; and whatever operation comes next sends
at most one event, none when it fails or changes nothing, and changes nothing
when it fails. -/
theorem eventLog_faithful (operations : List Op) :
    replayAll ∅ (eventLog ∅ operations) = State.run ∅ operations ∧
    (∀ key object, (State.run ∅ operations).lookup key = some object →
      object.key = key) ∧
    ∀ operation : Op,
      let objects := State.run ∅ operations
      (operation.emits objects).length ≤ 1 ∧
      (operation.fails objects = true →
        operation.after objects = objects ∧ operation.emits objects = []) ∧
      (operation.after objects = objects → operation.emits objects = []) := by
  have keyed := State.wellKeyed_empty.run operations
  refine ⟨replayAll_eventLog State.wellKeyed_empty operations, keyed, ?_⟩
  intro operation
  have effect := operation.effect (State.run ∅ operations)
  refine ⟨effect.length_le_one, ?_, ?_⟩
  · intro fails
    rw [fails] at effect
    exact effect.of_failed
  · intro unchanged
    rw [unchanged] at effect
    exact effect.nil_of_unchanged keyed

example :
    eventLog ∅ [.create etcdService, .teardown etcdService.key,
      .teardown etcdService.key, .destroy etcdService.key 1] =
    [⟨.created, etcdService.fresh⟩,
      ⟨.updated, (etcdService.fresh.withPhase .tearingDown).bump⟩] := by
  decide

end MachinedRs
