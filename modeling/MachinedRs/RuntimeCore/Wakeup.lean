import MachinedRs.RuntimeCore.ControllerLoop

/-!
# No lost wakeup

Writers commit under the lock and send their event later; the loop may skip,
drain or lag past events.  Every change to a watched object that was committed
after the latest reconcile began is announced by an event that is still in a
writer's hands or ahead of the loop's receiver, as long as the loop is not
already on its way to the next reconcile.
-/

namespace MachinedRs

open Foundation

/-- A change of the object under `key` is announced by the one event the
operation sends. -/
theorem Effect.announces {objects after : Objects} {operation : Op}
    {failed : Bool} {events : List Event}
    (effect : Effect objects operation failed after events)
    (keyed : State.WellKeyed objects) {key : Key}
    (changed : objects.lookup key ≠ after.lookup key) :
    ∃ event ∈ events, event.object.key = key := by
  cases effect with
  | none => exact (changed rfl).elim
  | @created object absent =>
      by_cases same : key = object.key
      · exact ⟨_, List.mem_singleton_self _, same.symm⟩
      · rw [Finmap.lookup_insert_of_ne _ same] at changed
        exact (changed rfl).elim
  | @revised _ target old new stored revision =>
      by_cases same : key = target
      · refine ⟨_, List.mem_singleton_self _, ?_⟩
        rw [revision.revises.key, same]
        exact keyed target old stored
      · rw [Finmap.lookup_insert_of_ne _ same] at changed
        exact (changed rfl).elim
  | @removed target object stored released =>
      by_cases same : key = target
      · refine ⟨_, List.mem_singleton_self _, ?_⟩
        rw [same]
        exact keyed target object stored
      · rw [Finmap.lookup_erase_ne same] at changed
        exact (changed rfl).elim

/-- The store with its writers, its event channel and one controller loop.
`inFlight` holds the events of operations that have committed and not yet sent
them.  `commits` and `started` only record history: the map before and after
each commit, and how many commits preceded the latest reconcile. -/
structure Bus where
  objects : Objects
  inFlight : List Event
  sent : List Event
  loop : Loop Unit
  commits : List (Objects × Objects)
  started : Nat

inductive BusMove where
  | commit (operation : Op)
  | emit (index : Nat)
  | loop (move : LoopMove)
deriving DecidableEq, Repr

namespace Bus

/-- A controller whose reconcile may take any time and write anything: its
writes are among those of the writers. -/
def config (inputs : List Input) (resync : Bool) (capacity : Nat) :
    LoopConfig Unit :=
  { inputs := inputs
    resync := resync
    capacity := capacity
    reconcile := ()
    finished := fun _ => true }

def step (loopConfig : LoopConfig Unit) (bus : Bus) : BusMove → Option Bus
  | .commit operation =>
      some { bus with
        objects := operation.after bus.objects
        inFlight := bus.inFlight ++ operation.emits bus.objects
        commits := bus.commits ++
          [(bus.objects, operation.after bus.objects)] }
  | .emit index =>
      match bus.inFlight[index]? with
      | some event =>
          some { bus with
            inFlight := bus.inFlight.eraseIdx index
            sent := bus.sent ++ [event] }
      | none => none
  | .loop move =>
      (bus.loop.step loopConfig bus.sent move).map fun loop =>
        { bus with
          loop := loop
          started := if move.begins then bus.commits.length else bus.started }

end Bus

/-- The store starts empty and the loop has not subscribed yet. -/
def busSystem (loopConfig : LoopConfig Unit) : System Bus BusMove :=
  { Initial := fun bus =>
      bus.objects = ∅ ∧ bus.inFlight = [] ∧ bus.sent = [] ∧
        bus.commits = [] ∧ bus.loop.phase = .starting ∧
        bus.loop.position = 0
    step := Bus.step loopConfig }

namespace Bus

/-- The loop is not already bound to reconcile again. -/
def Settled (bus : Bus) : Prop :=
  bus.loop.phase = .selecting ∨ bus.loop.phase = .reconciling ()

/-- Some event about `key` has not reached the loop yet. -/
def Pending (bus : Bus) (key : Key) : Prop :=
  (∃ event ∈ bus.inFlight, event.object.key = key) ∨
    ∃ position event, bus.loop.position ≤ position ∧
      bus.sent[position]? = some event ∧ event.object.key = key

structure Tracked (inputs : List Input) (bus : Bus) : Prop where
  keyed : State.WellKeyed bus.objects
  within : bus.loop.position ≤ bus.sent.length
  /-- What was committed since the latest reconcile began is pending. -/
  covered : bus.Settled → ∀ index before after key,
    bus.commits[index]? = some (before, after) →
    before.lookup key ≠ after.lookup key → Watches inputs key →
    bus.started ≤ index → bus.Pending key

namespace Tracked

variable {loopConfig : LoopConfig Unit} {bus next : Bus}

theorem commit (tracked : bus.Tracked loopConfig.inputs) (operation : Op)
    (stepped : bus.step loopConfig (.commit operation) = some next) :
    next.Tracked loopConfig.inputs := by
  cases stepped
  refine ⟨tracked.keyed.after operation, tracked.within, ?_⟩
  intro settled index before after key committed changed watched recent
  by_cases old : index < bus.commits.length
  · have oldCommitted : bus.commits[index]? = some (before, after) := by
      rwa [List.getElem?_append_left old] at committed
    rcases tracked.covered settled index before after key oldCommitted
      changed watched recent with held | ahead
    · obtain ⟨event, member, same⟩ := held
      exact .inl ⟨event, List.mem_append_left _ member, same⟩
    · exact .inr ahead
  · have last : (bus.objects, operation.after bus.objects) =
        (before, after) := by
      rw [List.getElem?_append_right (Nat.le_of_not_gt old)] at committed
      obtain ⟨_, found⟩ := List.getElem?_eq_some_iff.mp committed
      simpa using found
    cases last
    obtain ⟨event, member, same⟩ :=
      (operation.effect bus.objects).announces tracked.keyed changed
    exact .inl ⟨event, List.mem_append_right _ member, same⟩

theorem emit (tracked : bus.Tracked loopConfig.inputs) (index : Nat)
    (stepped : bus.step loopConfig (.emit index) = some next) :
    next.Tracked loopConfig.inputs := by
  simp only [step] at stepped
  split at stepped
  · rename_i event found
    cases stepped
    refine ⟨tracked.keyed, ?_, ?_⟩
    · have within := tracked.within
      simp only [List.length_append, List.length_singleton]
      omega
    · intro settled commitIndex before after key committed changed watched
        recent
      rcases tracked.covered settled commitIndex before after key committed
        changed watched recent with held | ahead
      · obtain ⟨announced, member, same⟩ := held
        obtain ⟨position, within, located⟩ := List.mem_iff_getElem.mp member
        by_cases sentNow : position = index
        · right
          have isEvent : announced = event := by
            subst sentNow
            rw [List.getElem?_eq_getElem within] at found
            exact located.symm.trans (Option.some.inj found)
          refine ⟨bus.sent.length, event, tracked.within, ?_, ?_⟩
          · simp
          · rw [← isEvent, same]
        · left
          refine ⟨announced, ?_, same⟩
          apply List.mem_eraseIdx_iff_getElem.mpr
          exact ⟨position, within, sentNow, located⟩
      · obtain ⟨position, announced, following, located, same⟩ := ahead
        right
        refine ⟨position, announced, following, ?_, same⟩
        obtain ⟨within, _⟩ := List.getElem?_eq_some_iff.mp located
        rw [List.getElem?_append_left within, located]
  · cases stepped

theorem loop (tracked : bus.Tracked loopConfig.inputs) (move : LoopMove)
    (stepped : bus.step loopConfig (.loop move) = some next) :
    next.Tracked loopConfig.inputs := by
  obtain ⟨following, moved, rfl⟩ := Option.map_eq_some_iff.mp stepped
  obtain ⟨objects, inFlight, sent, previous, commits, started⟩ := bus
  cases Loop.step_spec moved with
  | subscribes =>
      refine ⟨tracked.keyed, Nat.le_refl _, ?_⟩
      rintro (settled | settled) <;> cases settled
  | begins beginning due =>
      refine ⟨tracked.keyed, tracked.within, ?_⟩
      intro settled index before after key committed changed watched recent
      simp only [beginning, if_true] at recent
      obtain ⟨within, _⟩ := List.getElem?_eq_some_iff.mp committed
      exact (Nat.not_le_of_gt within recent).elim
  | ends finished =>
      refine ⟨tracked.keyed, tracked.within, ?_⟩
      intro settled
      exact tracked.covered (.inr rfl)
  | @skips position event found ignored =>
      refine ⟨tracked.keyed, ?_, ?_⟩
      · obtain ⟨within, _⟩ := List.getElem?_eq_some_iff.mp found
        exact within
      · intro settled index before after key committed changed watched recent
        rcases tracked.covered (.inl rfl) index before after key committed
          changed watched recent with held | ahead
        · exact .inl held
        · obtain ⟨location, announced, following, located, same⟩ := ahead
          right
          refine ⟨location, announced, ?_, located, same⟩
          have different : location ≠ position := by
            intro equality
            rw [equality] at located
            have isEvent : event = announced :=
              Option.some.inj (found.symm.trans located)
            have matching : matchesInputs loopConfig.inputs event = true := by
              apply (matchesInputs_iff _ _).mpr
              rw [isEvent, same]
              exact watched
            rw [ignored] at matching
            cases matching
          exact Nat.lt_of_le_of_ne following different.symm
  | wakes within cause =>
      refine ⟨tracked.keyed, within, ?_⟩
      rintro (settled | settled) <;> cases settled
  | @drains _ phase nextPhase position following quiet before after within =>
      refine ⟨tracked.keyed, ?_, ?_⟩
      · rcases within with rfl | within
        · exact tracked.within
        · exact within
      · rintro (settled | settled) <;> rcases after with rfl | rfl <;>
          cases settled
  | stops =>
      refine ⟨tracked.keyed, tracked.within, ?_⟩
      rintro (settled | settled) <;> cases settled

theorem step (tracked : bus.Tracked loopConfig.inputs) {move : BusMove}
    (stepped : bus.step loopConfig move = some next) :
    next.Tracked loopConfig.inputs := by
  cases move with
  | commit operation => exact tracked.commit operation stepped
  | emit index => exact tracked.emit index stepped
  | loop move => exact tracked.loop move stepped

end Tracked

theorem tracked_of_initial {loopConfig : LoopConfig Unit} {bus : Bus}
    (initial : (busSystem loopConfig).Initial bus) :
    bus.Tracked loopConfig.inputs := by
  obtain ⟨empty, _, _, noCommits, phase, position⟩ := initial
  refine ⟨?_, ?_, ?_⟩
  · rw [empty]
    exact State.wellKeyed_empty
  · rw [position]
    exact Nat.zero_le _
  · intro _ index before after key committed
    rw [noCommits] at committed
    simp at committed

end Bus

/-- No lost wakeup.  When the loop waits in `select` with an empty receiver and
no writer is between commit and emit, every committed change to a watched
object was committed before the latest reconcile began. -/
theorem no_lost_wakeup (inputs : List Input) (resync : Bool) (capacity : Nat)
    (bus : Bus)
    (reachable :
      (busSystem (Bus.config inputs resync capacity)).Reachable bus)
    (waiting : bus.loop.phase = .selecting)
    (empty : receive capacity bus.sent bus.loop.position = .empty)
    (quiet : bus.inFlight = []) :
    ∀ index before after key, bus.commits[index]? = some (before, after) →
      before.lookup key ≠ after.lookup key → Watches inputs key →
      index < bus.started := by
  have tracked : bus.Tracked inputs :=
    reachable.invariant (fun _ => Bus.tracked_of_initial)
      (fun _ _ _ stepped tracked => tracked.step stepped)
  intro index before after key committed changed watched
  by_contra recent
  rcases tracked.covered (.inl waiting) index before after key committed
    changed watched (Nat.le_of_not_gt recent) with held | ahead
  · obtain ⟨event, member, _⟩ := held
    rw [quiet] at member
    simp at member
  · obtain ⟨position, event, following, located, _⟩ := ahead
    have read := length_le_of_receive_empty empty
    obtain ⟨within, _⟩ := List.getElem?_eq_some_iff.mp located
    omega

/-- A change committed before the subscription and announced after it, while
the initial reconcile is running, leads to a second reconcile. -/
def changeAroundSubscription : List BusMove :=
  [.commit (.create etcdService), .loop .watch, .loop .reconcileBegins,
    .emit 0, .loop .reconcileEnds, .loop .recv, .loop .debounced,
    .loop .tryRecv, .loop .reconcileBegins, .loop .reconcileEnds]

theorem no_lost_wakeup_changeAroundSubscription :
    ∃ bus, (busSystem (Bus.config [⟨"runtime", .serviceStatus, .weak⟩] false
        channelCapacity)).Reachable bus ∧
      bus.commits.length = 1 ∧
      ∀ index before after key, bus.commits[index]? = some (before, after) →
        before.lookup key ≠ after.lookup key →
        Watches [⟨"runtime", .serviceStatus, .weak⟩] key →
        index < bus.started := by
  let system := busSystem (Bus.config [⟨"runtime", .serviceStatus, .weak⟩]
    false channelCapacity)
  let start : Bus :=
    { objects := ∅
      inFlight := []
      sent := []
      loop := { phase := .starting, position := 0 }
      commits := []
      started := 0 }
  have finishes : (system.run start changeAroundSubscription).isSome := by
    decide
  obtain ⟨bus, result⟩ := Option.isSome_iff_exists.mp finishes
  have computed : (system.run start changeAroundSubscription).map
      (fun final => (final.loop, final.sent.length, final.inFlight.length,
        final.commits.length)) =
        some (({ phase := .selecting, position := 1 } : Loop Unit), 1, 0,
          1) := by
    decide
  rw [result] at computed
  simp only [Option.map_some, Option.some.injEq, Prod.mk.injEq,
    List.length_eq_zero_iff] at computed
  obtain ⟨loop, sentLength, quiet, commitCount⟩ := computed
  have reachable : system.Reachable bus :=
    ⟨start, changeAroundSubscription, ⟨rfl, rfl, rfl, rfl, rfl, rfl⟩, result⟩
  have empty : receive channelCapacity bus.sent bus.loop.position =
      .empty := by
    rw [loop]
    simp [receive, sentLength, channelCapacity]
  exact ⟨bus, reachable, commitCount,
    no_lost_wakeup _ false channelCapacity bus reachable (by rw [loop]) empty
      quiet⟩

end MachinedRs
