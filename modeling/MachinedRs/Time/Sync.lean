import MachinedRs.Foundation.History
import MachinedRs.Foundation.System
import MachinedRs.RuntimeCore.Scope
import MachinedRs.Time.Sntp

/-!
# The published state of the clock

`TimeSyncController` asks one server after the other for the offset of the
clock, steps the clock when the offset is large and publishes a `TimeStatus`.
A pass whose step fails ends before anything is published.  The status that is
then in the store is the one of an earlier pass; this module says over all
sequences of passes when it is still true.
-/

namespace MachinedRs

open Foundation

def TimeError.display : TimeError → String
  | .io message => "time io: " ++ message
  | .timeout => "time query timed out"
  | .badResponse message => "bad ntp response: " ++ message
  | .clockSet message => "clock set: " ++ message

/-- Nanoseconds in a signed 128-bit word. -/
structure TimeOffset where
  ns : Int
  fits : FitsSigned 128 ns
deriving DecidableEq

namespace TimeOffset

/-- The one word that has no absolute value. -/
def least : Int :=
  -2 ^ 127

/-- `i128::abs`; a release build wraps around. -/
def abs (offset : TimeOffset) : Int :=
  if offset.ns = least then least else |offset.ns|

/-- The cast to `i64` keeps the lower half. -/
def asI64 (offset : TimeOffset) : Int :=
  offset.ns.bmod (2 ^ 64)

end TimeOffset

inductive TimeCall where
  | queryOffset (addr : String)
  | stepClock (offset : TimeOffset)
deriving DecidableEq

def TimeCall.Value : TimeCall → Type
  | .queryOffset _ => TimeOffset
  | .stepClock _ => Unit

abbrev timeSignature : Signature :=
  { Op := TimeCall, Answer := fun call => Except TimeError call.Value }

abbrev timeControllerSignature : Signature :=
  stateSignature.sum timeSignature

/-- The part of the machine configuration the controller reads. -/
structure TimeSection where
  servers : List String
  disabled : Bool
deriving DecidableEq, Repr

namespace TimeSync

def ns : String :=
  "runtime"

def owner : String :=
  "time-sync"

def ctl (error : TimeError) : Error :=
  .controller error.display

/-- The clock is stepped only for more than 128 ms. -/
def stepThresholdNs : Int :=
  128000000

def defaultServers : List String :=
  ["0.pool.ntp.org", "1.pool.ntp.org"]

def statusObj (synced : Bool) (server : String) (offsetNs : Int)
    (syncCount : Nat) : ResourceObject :=
  ResourceObject.new ns "time"
    (.timeStatus
      { synced := synced
        server := server
        offsetNs := offsetNs
        syncCount := syncCount })

/-- The object that carries a status. -/
def statusOf (status : TimeStatus) : ResourceObject :=
  statusObj status.synced status.server status.offsetNs status.syncCount

/-- Publish a status; the pass ends with the count that is in it. -/
def publish (status : TimeStatus) :
    Program timeControllerSignature (Result Unit × Nat) :=
  (reconcileOwned owner ns .timeStatus [statusOf status]).inl.bind
    fun published => .done (published, status.syncCount)

def notSynced (syncCount : Nat) : TimeStatus :=
  { synced := false
    server := ""
    offsetNs := 0
    syncCount := syncCount }

/-- The clock is right: count the pass, in an unsigned 64-bit word, and
publish. -/
def accept (server : String) (offset : TimeOffset) (syncCount : Nat) :
    Program timeControllerSignature (Result Unit × Nat) :=
  publish
    { synced := true
      server := server
      offsetNs := offset.asI64
      syncCount := (syncCount + 1) % 2 ^ 64 }

/-- What follows the answer of a server. -/
def setClock (server : String) (offset : TimeOffset) (syncCount : Nat) :
    Program timeControllerSignature (Result Unit × Nat) :=
  if stepThresholdNs < offset.abs then
    .call (.inr (.stepClock offset)) fun stepped =>
      match stepped with
      | .error error => .done (.error (ctl error), syncCount)
      | .ok _ => accept server offset syncCount
  else
    accept server offset syncCount

def tryServers (syncCount : Nat) :
    List String → Program timeControllerSignature (Result Unit × Nat)
  | [] => publish (notSynced syncCount)
  | server :: servers =>
      .call (.inr (.queryOffset (server ++ ":123"))) fun answer =>
        match answer with
        | .error _ => tryServers syncCount servers
        | .ok offset => setClock server offset syncCount

/-- A pass returns its result and the count of the controller. -/
def reconcile (config : TimeSection) (syncCount : Nat) :
    Program timeControllerSignature (Result Unit × Nat) :=
  if config.disabled then
    publish (notSynced syncCount)
  else
    tryServers syncCount
      (if config.servers = [] then defaultServers else config.servers)

/-- What a pass exchanges with the servers and the clock. -/
inductive TimeEvent where
  | queried (addr : String) (answer : Except TimeError TimeOffset)
  | stepped (offset : TimeOffset) (answer : Except TimeError Unit)
deriving DecidableEq

structure TimeWorld where
  objects : Objects
  events : List TimeEvent

def TimeWorld.withObjects (objects : Objects) (world : TimeWorld) :
    TimeWorld :=
  { world with objects := objects }

/-- The servers and the clock answer anything. -/
structure TimeChoice where
  listing : List ResourceObject
  query : Except TimeError TimeOffset
  step : Except TimeError Unit

def clock : Machine timeSignature TimeWorld TimeChoice :=
  { perform := fun world call choice =>
      match call with
      | .queryOffset addr =>
          some (choice.query,
            { world with
              events := world.events ++ [.queried addr choice.query] })
      | .stepClock offset =>
          some (choice.step,
            { world with
              events := world.events ++ [.stepped offset choice.step] }) }

def timeMachine : Machine timeControllerSignature TimeWorld TimeChoice :=
  (storeMachine.zoom TimeWorld.objects TimeWorld.withObjects
    TimeChoice.listing).sum clock

/-- The offsets that servers answered. -/
def answered (events : List TimeEvent) : List TimeOffset :=
  events.filterMap fun event =>
    match event with
    | .queried _ (.ok offset) => some offset
    | _ => none

/-- The offsets the clock was stepped by. -/
def steps (events : List TimeEvent) : List TimeOffset :=
  events.filterMap fun event =>
    match event with
    | .stepped offset (.ok _) => some offset
    | _ => none

/-- Some server answered, and the clock was right or was stepped. -/
def Synced (events : List TimeEvent) : Prop :=
  ∃ offset ∈ answered events,
    |offset.ns| ≤ stepThresholdNs ∨ offset ∈ steps events

instance (events : List TimeEvent) : Decidable (Synced events) :=
  inferInstanceAs (Decidable (∃ offset ∈ answered events, _))

/-- Every answered offset has an absolute value. -/
def Regular (events : List TimeEvent) : Prop :=
  ∀ offset ∈ answered events, offset.ns ≠ TimeOffset.least

instance (events : List TimeEvent) : Decidable (Regular events) :=
  inferInstanceAs (Decidable (∀ offset ∈ answered events, _))

/-- Setting the clock was refused. -/
def refused (events : List TimeEvent) : Bool :=
  events.any fun event =>
    match event with
    | .stepped _ (.error _) => true
    | _ => false

def timeKey : Key :=
  ⟨ns, .timeStatus, "time"⟩

/-- The controller's own status is the only one in the store. -/
structure Exclusive (objects : Objects) : Prop where
  keyed : State.WellKeyed objects
  only : ∀ key object, objects.lookup key = some object →
    key.typ = .timeStatus → key = timeKey ∧
      object.metadata.owner = some owner ∧ object.metadata.finalizers = []

/-- This status is in the store. -/
def Shows (objects : Objects) (status : TimeStatus) : Prop :=
  ∃ object, objects.lookup timeKey = some object ∧
    object.spec = .timeStatus status

section Passes

variable {objects : Objects} {events : List TimeEvent} {syncCount : Nat}

theorem publish_store (exclusive : Exclusive objects) (status : TimeStatus) :
    storeMachine.Ensures
      (fun result after => result = .ok () ∧ Exclusive after ∧
        Shows after status)
      (reconcileOwned owner ns .timeStatus [statusOf status]) objects := by
  have owned : OwnedReleased owner ns .timeStatus objects := by
    intro key object stored _ typ
    exact (exclusive.only key object stored typ).2
  have typed : ∀ object ∈ [statusOf status],
      object.key.ns = ns ∧ object.key.typ = .timeStatus := by
    intro object member
    rw [List.mem_singleton.mp member]
    exact ⟨rfl, rfl⟩
  have released : ∀ object ∈ [statusOf status],
      object.metadata.finalizers = [] := by
    intro object member
    rw [List.mem_singleton.mp member]
    rfl
  apply Setting.Protected.mono _
    (reconcileOwned_released exclusive.keyed owned typed released)
  rintro result after ⟨succeeded, keyed, afterOwned, specs, other⟩
  refine ⟨succeeded, ⟨keyed, ?_⟩, ?_⟩
  · intro key object stored typ
    by_cases inNs : key.ns = ns
    · have spec := specs key inNs typ
      rw [stored] at spec
      obtain ⟨wanted, last, _⟩ := Option.map_eq_some_iff.mp spec.symm
      obtain ⟨member, sameKey⟩ := lastDesired_mem last
      rw [List.mem_singleton.mp member] at sameKey
      exact ⟨sameKey.symm, afterOwned key object stored inNs typ⟩
    · rw [other key fun both => inNs both.1] at stored
      exact exclusive.only key object stored typ
  · have spec := specs timeKey rfl rfl
    have last : lastDesired [statusOf status] timeKey =
        some (statusOf status) := rfl
    rw [last] at spec
    exact Option.map_eq_some_iff.mp spec

theorem publish_ensures (exclusive : Exclusive objects)
    (status : TimeStatus) :
    timeMachine.Ensures
      (fun value after => value = (.ok (), status.syncCount) ∧
        after.events = events ∧ Exclusive after.objects ∧
        Shows after.objects status)
      (publish status) ⟨objects, events⟩ := by
  apply Setting.Protected.bind
  apply Machine.protected_sum_inl
  apply Machine.protected_zoom (fun _ => rfl) (fun _ _ => rfl) rfl
  apply Setting.Protected.mono _ (publish_store exclusive status)
  rintro result after ⟨rfl, afterExclusive, shows⟩
  exact Machine.done trivial ⟨rfl, rfl, afterExclusive, shows⟩

/-- How a pass can end, by the answers it got: with a status that says whether
a server answered, or, if setting the clock was refused, with the store as it
was. -/
structure PassEnds (objects : Objects) (syncCount : Nat)
    (value : Result Unit × Nat) (after : TimeWorld) : Prop where
  synced : Synced after.events ↔ (answered after.events ≠ [] ∧
    refused after.events = false) ∧ Regular after.events
  irregular : ¬ Regular after.events → refused after.events = false
  counts : value.2 =
    if answered after.events ≠ [] ∧ refused after.events = false then
      (syncCount + 1) % 2 ^ 64
    else syncCount
  ends : (refused after.events = false ∧ Exclusive after.objects ∧
      ∃ status, Shows after.objects status ∧
        (status.synced = true ↔ answered after.events ≠ []) ∧
        status.syncCount = value.2) ∨
    (refused after.events = true ∧ after.objects = objects)

theorem answered_concat (events : List TimeEvent) (event : TimeEvent) :
    answered (events ++ [event]) = answered events ++ answered [event] :=
  List.filterMap_append

theorem steps_concat (events : List TimeEvent) (event : TimeEvent) :
    steps (events ++ [event]) = steps events ++ steps [event] :=
  List.filterMap_append

theorem refused_concat (events : List TimeEvent) (event : TimeEvent) :
    refused (events ++ [event]) = (refused events || refused [event]) :=
  List.any_append

theorem regular_of_answered {offset : TimeOffset}
    (offsets : answered events = [offset])
    (least : offset.ns ≠ TimeOffset.least) : Regular events := by
  intro other member
  rw [offsets] at member
  rw [List.mem_singleton.mp member]
  exact least

theorem passEnds_notSynced (exclusive : Exclusive objects)
    (silent : answered events = []) (unrefused : refused events = false) :
    timeMachine.Ensures (PassEnds objects syncCount)
      (publish (notSynced syncCount)) ⟨objects, events⟩ := by
  apply Setting.Protected.mono _ (publish_ensures exclusive _)
  rintro value after ⟨rfl, rfl, afterExclusive, shows⟩
  refine ⟨⟨?_, fun accepted => absurd silent accepted.1.1⟩,
    fun _ => unrefused, ?_,
    .inl ⟨unrefused, afterExclusive, _, shows, ?_, rfl⟩⟩
  · rintro ⟨offset, member, _⟩
    rw [silent] at member
    cases member
  · simp [silent, notSynced]
  · simp [silent, notSynced]

theorem passEnds_accept (exclusive : Exclusive objects)
    (heard : answered events ≠ []) (unrefused : refused events = false)
    (synced : Synced events ↔ Regular events) (server : String)
    (offset : TimeOffset) :
    timeMachine.Ensures (PassEnds objects syncCount)
      (accept server offset syncCount) ⟨objects, events⟩ := by
  apply Setting.Protected.mono _ (publish_ensures exclusive _)
  rintro value after ⟨rfl, rfl, afterExclusive, shows⟩
  have accepted := And.intro heard unrefused
  exact ⟨synced.trans (and_iff_right accepted).symm, fun _ => unrefused,
    (if_pos accepted).symm,
    .inl ⟨unrefused, afterExclusive, _, shows, by simp [heard], rfl⟩⟩

theorem passEnds_least (exclusive : Exclusive objects)
    {offset : TimeOffset} (offsets : answered events = [offset])
    (idle : steps events = []) (unrefused : refused events = false)
    (least : offset.ns = TimeOffset.least) (server : String) :
    timeMachine.Ensures (PassEnds objects syncCount)
      (setClock server offset syncCount) ⟨objects, events⟩ := by
  have small : ¬ stepThresholdNs < offset.abs := by
    rw [TimeOffset.abs, if_pos least]
    decide
  rw [setClock, if_neg small]
  apply passEnds_accept exclusive (by simp [offsets]) unrefused
  apply iff_of_false
  · rintro ⟨other, member, inStep | stepped⟩
    · rw [offsets] at member
      rw [List.mem_singleton.mp member, least] at inStep
      revert inStep
      decide
    · rw [idle] at stepped
      cases stepped
  · intro regular
    exact regular offset (by simp [offsets]) least

theorem passEnds_setClock (exclusive : Exclusive objects)
    {offset : TimeOffset} (offsets : answered events = [offset])
    (idle : steps events = []) (unrefused : refused events = false)
    (server : String) :
    timeMachine.Ensures (PassEnds objects syncCount)
      (setClock server offset syncCount) ⟨objects, events⟩ := by
  by_cases least : offset.ns = TimeOffset.least
  · exact passEnds_least exclusive offsets idle unrefused least server
  · have absolute : offset.abs = |offset.ns| := if_neg least
    by_cases large : stepThresholdNs < offset.abs
    · rw [setClock, if_pos large]
      apply Machine.call trivial
      rintro ⟨listing, query, step⟩ answer after performed
      cases performed
      have stillOffsets :
          answered (events ++ [.stepped offset step]) = [offset] := by
        rw [answered_concat, offsets]
        rfl
      have regular := regular_of_answered stillOffsets least
      cases step with
      | error error =>
          have isRefused :
              refused (events ++ [.stepped offset (.error error)]) = true := by
            rw [refused_concat, unrefused]
            rfl
          have unsynced : ¬ Synced (events ++
              [.stepped offset (.error error)]) := by
            rintro ⟨other, member, small | stepped⟩
            · rw [stillOffsets] at member
              rw [List.mem_singleton.mp member, ← absolute] at small
              exact absurd small (Int.not_le.mpr large)
            · rw [steps_concat, idle] at stepped
              cases stepped
          refine Machine.done trivial ⟨?_, fun irregular =>
            absurd regular irregular, ?_, .inr ⟨isRefused, rfl⟩⟩
          · exact iff_of_false unsynced (by simp [isRefused])
          · simp [isRefused]
      | ok value =>
          apply passEnds_accept exclusive (by simp [stillOffsets])
          · rw [refused_concat, unrefused]
            rfl
          · refine iff_of_true ⟨offset, by simp [stillOffsets], .inr ?_⟩
              regular
            rw [steps_concat]
            exact List.mem_append_right _ (List.mem_singleton_self offset)
    · rw [setClock, if_neg large]
      rw [absolute] at large
      apply passEnds_accept exclusive (by simp [offsets]) unrefused
      exact iff_of_true
        ⟨offset, by simp [offsets], .inl (Int.not_lt.mp large)⟩
        (regular_of_answered offsets least)

theorem passEnds_tryServers (exclusive : Exclusive objects)
    (servers : List String) (silent : answered events = [])
    (idle : steps events = []) (unrefused : refused events = false) :
    timeMachine.Ensures (PassEnds objects syncCount)
      (tryServers syncCount servers) ⟨objects, events⟩ := by
  induction servers generalizing events with
  | nil => exact passEnds_notSynced exclusive silent unrefused
  | cons server servers induction =>
      apply Machine.call trivial
      rintro ⟨listing, query, step⟩ answer after performed
      cases performed
      have stillIdle : steps (events ++
          [.queried (server ++ ":123") query]) = [] := by
        rw [steps_concat, idle]
        rfl
      have stillUnrefused : refused (events ++
          [.queried (server ++ ":123") query]) = false := by
        rw [refused_concat, unrefused]
        rfl
      cases query with
      | error error =>
          apply induction _ stillIdle stillUnrefused
          rw [answered_concat, silent]
          rfl
      | ok offset =>
          apply passEnds_setClock exclusive _ stillIdle stillUnrefused server
          rw [answered_concat, silent]
          rfl

theorem passEnds_reconcile (exclusive : Exclusive objects)
    (config : TimeSection) :
    timeMachine.Ensures (PassEnds objects syncCount)
      (reconcile config syncCount) ⟨objects, []⟩ := by
  unfold reconcile
  split
  · exact passEnds_notSynced exclusive rfl rfl
  · exact passEnds_tryServers exclusive _ rfl rfl rfl

end Passes

/-- A pass that is over. -/
structure TimePass where
  events : List TimeEvent
  result : Result Unit
deriving DecidableEq

/-- Setting the clock was not refused. -/
def TimePass.Unrefused (pass : TimePass) : Prop :=
  refused pass.events = false

/-- The store, the count of the controller and the passes so far. -/
structure TimeNode where
  objects : Objects
  syncCount : Nat
  passes : List TimePass

/-- A pass, or an operation of another controller; those write no
`TimeStatus`. -/
inductive TimeMove where
  | pass (choices : List TimeChoice)
  | other (operation : Op)

def TimeNode.step (config : TimeSection) (node : TimeNode) :
    TimeMove → Option TimeNode
  | .pass choices =>
      (timeMachine.complete (reconcile config node.syncCount)
        ⟨node.objects, []⟩ choices).map fun (value, world, _) =>
          { objects := world.objects
            syncCount := value.2
            passes := node.passes ++ [⟨world.events, value.1⟩] }
  | .other operation =>
      if operation.spares .timeStatus then
        some { node with objects := operation.after node.objects }
      else
        none

def timeSystem (config : TimeSection) : System TimeNode TimeMove :=
  { Initial := fun node => State.WellKeyed node.objects ∧
      (∀ key ∈ node.objects, key.typ ≠ .timeStatus) ∧
      node.syncCount = 0 ∧ node.passes = []
    step := TimeNode.step config }

/-- A status that claims a sync is in the store only if the most recent pass
synced. -/
def TimeNode.Honest (node : TimeNode) : Prop :=
  ∀ key object status, node.objects.lookup key = some object →
    key.typ = .timeStatus → object.spec = .timeStatus status →
    status.synced = true →
      ∃ pass, node.passes.getLast? = some pass ∧ Synced pass.events

/-- The passes that synced. -/
def TimeNode.syncs (node : TimeNode) : Nat :=
  node.passes.countP fun pass => Synced pass.events

/-- The passes in which a server answered the offset without an absolute
value. -/
def TimeNode.misread (node : TimeNode) : Nat :=
  node.passes.countP fun pass => ¬ Regular pass.events

/-- What the store says about the passes: nothing until setting the clock is
not refused in one, then whether a server answered in the latest such pass. -/
structure TimeNode.Sound (node : TimeNode) : Prop where
  exclusive : Exclusive node.objects
  counted : node.syncCount = (node.syncs + node.misread) % 2 ^ 64
  shown : ∀ pass, Latest TimePass.Unrefused node.passes pass →
    ∃ status, Shows node.objects status ∧
      (status.synced = true ↔ answered pass.events ≠ []) ∧
      status.syncCount = node.syncCount
  absent : (∀ pass ∈ node.passes, ¬ pass.Unrefused) →
    node.objects.lookup timeKey = none
  synced : ∀ pass ∈ node.passes, Synced pass.events ↔
    (answered pass.events ≠ [] ∧ pass.Unrefused) ∧ Regular pass.events

section Runs

variable {config : TimeSection} {node next : TimeNode}

theorem sound_initial (initial : (timeSystem config).Initial node) :
    node.Sound := by
  obtain ⟨keyed, fresh, noCount, noPasses⟩ := initial
  have absent : node.objects.lookup timeKey = none := by
    apply Finmap.lookup_eq_none.mpr
    intro member
    exact fresh timeKey member rfl
  refine ⟨⟨keyed, ?_⟩, ?_, ?_, fun _ => absent, ?_⟩
  · intro key object stored typ
    have member : key ∈ node.objects := by
      rw [← Finmap.lookup_isSome, stored]
      rfl
    exact absurd typ (fresh key member)
  · rw [noCount, TimeNode.syncs, TimeNode.misread, noPasses]
    rfl
  · intro pass latest
    rw [noPasses] at latest
    exact absurd latest not_latest_nil
  · intro pass member
    rw [noPasses] at member
    cases member

theorem TimeNode.Sound.other (sound : node.Sound) {operation : Op}
    (spared : operation.spares .timeStatus = true) :
    TimeNode.Sound
      { node with objects := operation.after node.objects } := by
  have same : ∀ key : Key, key.typ = .timeStatus →
      node.objects.lookup key = (operation.after node.objects).lookup key := by
    intro key typ
    exact Op.lookup_of_spares spared node.objects typ
  refine ⟨⟨sound.exclusive.keyed.after operation, ?_⟩, sound.counted, ?_, ?_,
    sound.synced⟩
  · intro key object stored typ
    rw [← same key typ] at stored
    exact sound.exclusive.only key object stored typ
  · intro pass latest
    obtain ⟨status, ⟨object, stored, spec⟩, agrees⟩ := sound.shown pass latest
    rw [same timeKey rfl] at stored
    exact ⟨status, ⟨object, stored, spec⟩, agrees⟩
  · intro none
    exact (same timeKey rfl).symm.trans (sound.absent none)

theorem PassEnds.counted {objects : Objects} {syncCount syncs misread : Nat}
    {value : Result Unit × Nat} {world : TimeWorld}
    (passed : PassEnds objects syncCount value world)
    (before : syncCount = (syncs + misread) % 2 ^ 64) :
    value.2 = (syncs + (if Synced world.events then 1 else 0) +
      (misread + if ¬ Regular world.events then 1 else 0)) % 2 ^ 64 := by
  have counts := passed.counts
  by_cases regular : Regular world.events
  · by_cases synced : Synced world.events
    · rw [if_pos (passed.synced.mp synced).1] at counts
      simp only [synced, regular, not_true_eq_false, if_true, if_false]
      omega
    · have uncounted := fun accepted =>
        synced (passed.synced.mpr ⟨accepted, regular⟩)
      rw [if_neg uncounted] at counts
      simp only [synced, regular, not_true_eq_false, if_false]
      omega
  · have unsynced : ¬ Synced world.events := fun synced =>
      regular (passed.synced.mp synced).2
    have heard : answered world.events ≠ [] := by
      intro silent
      apply regular
      rw [Regular, silent]
      exact List.forall_mem_nil _
    rw [if_pos ⟨heard, passed.irregular regular⟩] at counts
    simp only [unsynced, regular, not_false_eq_true, if_true, if_false]
    omega

theorem TimeNode.Sound.pass (sound : node.Sound) {value : Result Unit × Nat}
    {world : TimeWorld}
    (passed : PassEnds node.objects node.syncCount value world) :
    TimeNode.Sound
      { objects := world.objects
        syncCount := value.2
        passes := node.passes ++ [⟨world.events, value.1⟩] } := by
  have counted := passed.counted sound.counted
  have synced : ∀ pass ∈ node.passes ++ [⟨world.events, value.1⟩],
      Synced pass.events ↔ (answered pass.events ≠ [] ∧ pass.Unrefused) ∧
        Regular pass.events := by
    intro pass member
    rcases List.mem_append.mp member with earlier | last
    · exact sound.synced pass earlier
    · rw [List.mem_singleton.mp last]
      exact passed.synced
  have allCounted : value.2 =
      (TimeNode.syncs ⟨world.objects, value.2,
          node.passes ++ [⟨world.events, value.1⟩]⟩ +
        TimeNode.misread ⟨world.objects, value.2,
          node.passes ++ [⟨world.events, value.1⟩]⟩) % 2 ^ 64 := by
    rw [counted]
    simp [TimeNode.syncs, TimeNode.misread, List.countP_append,
      List.countP_singleton]
  rcases passed.ends with ⟨unrefused, exclusive, status, shows, agrees, count⟩ |
    ⟨isRefused, unchanged⟩
  · have chosen : TimePass.Unrefused ⟨world.events, value.1⟩ := unrefused
    refine ⟨exclusive, allCounted, ?_, ?_, synced⟩
    · intro pass latest
      rw [(latest_concat_of_chosen _ chosen).mp latest]
      exact ⟨status, shows, agrees, count⟩
    · intro none
      exact absurd chosen (none _ (by simp))
  · have notChosen : ¬ TimePass.Unrefused ⟨world.events, value.1⟩ := by
      intro unrefused
      have conflict : refused world.events = false := unrefused
      rw [isRefused] at conflict
      cases conflict
    have sameCount : value.2 = node.syncCount := by
      rw [passed.counts, if_neg (by simp [isRefused])]
    refine ⟨?_, allCounted, ?_, ?_, synced⟩
    · rw [unchanged]
      exact sound.exclusive
    · intro pass latest
      rw [unchanged, sameCount]
      exact sound.shown pass ((latest_concat_of_not _ notChosen).mp latest)
    · intro none
      rw [unchanged]
      exact sound.absent fun pass member =>
        none pass (List.mem_append_left _ member)

theorem sound_step {move : TimeMove}
    (stepped : (timeSystem config).step node move = some next)
    (sound : node.Sound) : next.Sound := by
  cases move with
  | pass choices =>
      obtain ⟨⟨value, world, rest⟩, completed, same⟩ :=
        Option.map_eq_some_iff.mp stepped
      cases same
      exact sound.pass (Machine.post_of_returns
        (passEnds_reconcile sound.exclusive config)
        (Machine.returns_of_complete completed))
  | other operation =>
      obtain ⟨spared, same⟩ := Option.ite_none_right_eq_some.mp stepped
      cases same
      exact sound.other spared

theorem sound_of_reachable (reachable : (timeSystem config).Reachable node) :
    node.Sound := by
  apply reachable.invariant
  · intro start initial
    exact sound_initial initial
  · intro state move later stepped sound
    exact sound_step stepped sound

/-- A status in the store is the one of the latest pass that was not refused
the clock. -/
theorem TimeNode.Sound.latest (sound : node.Sound) {object : ResourceObject}
    {status : TimeStatus} (stored : node.objects.lookup timeKey = some object)
    (spec : object.spec = .timeStatus status) :
    ∃ pass, Latest TimePass.Unrefused node.passes pass ∧
      (status.synced = true ↔ answered pass.events ≠ []) ∧
      status.syncCount = node.syncCount := by
  by_cases some : ∃ pass ∈ node.passes, TimePass.Unrefused pass
  · obtain ⟨unrefused, member, chosen⟩ := some
    obtain ⟨pass, latest⟩ := exists_latest _ member chosen
    obtain ⟨shown, ⟨found, lookup, shownSpec⟩, agrees⟩ :=
      sound.shown pass latest
    rw [stored] at lookup
    cases lookup
    rw [spec] at shownSpec
    cases shownSpec
    exact ⟨pass, latest, agrees⟩
  · have absent := sound.absent fun pass member chosen =>
      some ⟨pass, member, chosen⟩
    rw [stored] at absent
    cases absent

/-- The store is honest exactly if, in the most recent pass, setting the clock
was not refused and no answer was the offset without an absolute value, or if
no server answered in the latest pass that was not refused the clock.  The
count is that of the passes that synced and of those that misread an answer. -/
theorem honest_iff_answers
    (reachable : (timeSystem config).Reachable node) :
    (node.Honest ↔
      (∀ pass, node.passes.getLast? = some pass →
        pass.Unrefused ∧ Regular pass.events) ∨
      ∀ pass, Latest TimePass.Unrefused node.passes pass →
        answered pass.events = []) ∧
    node.syncCount = (node.syncs + node.misread) % 2 ^ 64 ∧
    ∀ key object status, node.objects.lookup key = some object →
      key.typ = .timeStatus → object.spec = .timeStatus status →
        status.syncCount = (node.syncs + node.misread) % 2 ^ 64 := by
  have sound := sound_of_reachable reachable
  refine ⟨⟨?_, ?_⟩, sound.counted, ?_⟩
  · intro honest
    by_cases silent : ∀ pass, Latest TimePass.Unrefused node.passes pass →
        answered pass.events = []
    · exact .inr silent
    · left
      push Not at silent
      obtain ⟨pass, latest, heard⟩ := silent
      obtain ⟨status, ⟨object, stored, spec⟩, agrees, _⟩ :=
        sound.shown pass latest
      obtain ⟨last, isLast, synced⟩ := honest timeKey object status stored
        rfl spec (agrees.mpr heard)
      intro other isOther
      rw [isLast] at isOther
      cases isOther
      obtain ⟨⟨_, unrefused⟩, regular⟩ :=
        (sound.synced last (List.mem_of_getLast? isLast)).mp synced
      exact ⟨unrefused, regular⟩
  · intro condition key object status stored typ spec claimed
    obtain ⟨rfl, _⟩ := sound.exclusive.only key object stored typ
    obtain ⟨pass, latest, agrees, _⟩ := sound.latest stored spec
    have heard := agrees.mp claimed
    rcases condition with right | silent
    · rcases List.eq_nil_or_concat node.passes with empty | ⟨earlier, last, all⟩
      · rw [empty] at latest
        exact absurd latest not_latest_nil
      · rw [List.concat_eq_append] at all
        have isLast : node.passes.getLast? = some last := by
          rw [all, List.getLast?_concat]
        obtain ⟨unrefused, regular⟩ := right last isLast
        rw [all] at latest
        rw [(latest_concat_of_chosen _ unrefused).mp latest] at heard
        exact ⟨last, isLast, (sound.synced last
          (List.mem_of_getLast? isLast)).mpr ⟨⟨heard, unrefused⟩, regular⟩⟩
    · exact absurd (silent pass latest) heard
  · intro key object status stored typ spec
    obtain ⟨rfl, _⟩ := sound.exclusive.only key object stored typ
    obtain ⟨_, _, _, count⟩ := sound.latest stored spec
    rw [count, sound.counted]

end Runs

/-- The default config. -/
def defaultTime : TimeSection :=
  { servers := []
    disabled := false }

def halfSecond : TimeOffset :=
  ⟨500000000, by decide⟩

def inStep : TimeOffset :=
  ⟨0, by decide⟩

def syncedStatus : TimeStatus :=
  { synced := true
    server := "0.pool.ntp.org"
    offsetNs := 0
    syncCount := 1 }

/-- The first server answers, and the status is created. -/
def syncingPass : TimeMove :=
  .pass (List.replicate 4
    { listing := [((statusOf syncedStatus).withOwner owner).fresh]
      query := .ok inStep
      step := .ok () })

/-- The clock has drifted, and setting it is refused. -/
def refusedPass : TimeMove :=
  .pass (List.replicate 2
    { listing := []
      query := .ok halfSecond
      step := .error (.clockSet "EPERM") })

def freshNode : TimeNode :=
  { objects := ∅
    syncCount := 0
    passes := [] }

/-- What the store shows, and the passes. -/
def TimeNode.view (node : TimeNode) : Option Resource × List TimePass :=
  ((node.objects.lookup timeKey).map ResourceObject.spec, node.passes)

theorem freshNode_initial (config : TimeSection) :
    (timeSystem config).Initial freshNode := by
  refine ⟨State.wellKeyed_empty, ?_, rfl, rfl⟩
  intro key member
  exact absurd member Finmap.notMem_empty

def syncedPass : TimePass :=
  { events := [.queried "0.pool.ntp.org:123" (.ok inStep)]
    result := .ok () }

def failedPass : TimePass :=
  { events :=
      [.queried "0.pool.ntp.org:123" (.ok halfSecond),
        .stepped halfSecond (.error (.clockSet "EPERM"))]
    result := .error (.controller "clock set: EPERM") }

/-- After a pass that synced and one whose step is refused, the store still
claims the sync. -/
theorem refused_step_leaves_synced :
    ∃ node, (timeSystem defaultTime).Reachable node ∧
      Shows node.objects syncedStatus ∧
      node.passes = [syncedPass, failedPass] ∧
      ¬ Synced failedPass.events ∧ ¬ node.Honest := by
  have ran : ((timeSystem defaultTime).run freshNode
      [syncingPass, refusedPass]).map TimeNode.view =
        some (some (.timeStatus syncedStatus),
          [syncedPass, failedPass]) := by
    decide +kernel
  obtain ⟨node, reached, view⟩ := Option.map_eq_some_iff.mp ran
  obtain ⟨shown, passes⟩ := Prod.mk.inj view
  obtain ⟨object, stored, spec⟩ := Option.map_eq_some_iff.mp shown
  have unsynced : ¬ Synced failedPass.events := by decide
  refine ⟨node, ⟨freshNode, _, freshNode_initial _, reached⟩,
    ⟨object, stored, spec⟩, passes, unsynced, ?_⟩
  intro honest
  obtain ⟨pass, isLast, synced⟩ :=
    honest timeKey object syncedStatus stored rfl spec rfl
  rw [passes] at isLast
  cases isLast
  exact unsynced synced

def steppedStatus : TimeStatus :=
  { synced := true
    server := "0.pool.ntp.org"
    offsetNs := 500000000
    syncCount := 2 }

/-- The clock is stepped in the end, and the status is updated. -/
def recoveringPass : TimeMove :=
  .pass (List.replicate 5
    { listing :=
        [(((statusOf syncedStatus).withOwner owner).fresh.withSpec
          (.timeStatus steppedStatus)).bump]
      query := .ok halfSecond
      step := .ok () })

def recoveredPass : TimePass :=
  { events :=
      [.queried "0.pool.ntp.org:123" (.ok halfSecond),
        .stepped halfSecond (.ok ())]
    result := .ok () }

theorem honest_iff_answers_recovered :
    ∃ node, (timeSystem defaultTime).Reachable node ∧
      Shows node.objects steppedStatus ∧
      node.passes = [syncedPass, failedPass, recoveredPass] ∧
      node.Honest ∧ node.syncCount = 2 := by
  have ran : ((timeSystem defaultTime).run freshNode
      [syncingPass, refusedPass, recoveringPass]).map TimeNode.view =
        some (some (.timeStatus steppedStatus),
          [syncedPass, failedPass, recoveredPass]) := by
    decide +kernel
  obtain ⟨node, reached, view⟩ := Option.map_eq_some_iff.mp ran
  obtain ⟨shown, passes⟩ := Prod.mk.inj view
  obtain ⟨object, stored, spec⟩ := Option.map_eq_some_iff.mp shown
  have reachable : (timeSystem defaultTime).Reachable node :=
    ⟨freshNode, _, freshNode_initial _, reached⟩
  obtain ⟨honest, counted, _⟩ := honest_iff_answers reachable
  have right : ∀ pass, node.passes.getLast? = some pass →
      pass.Unrefused ∧ Regular pass.events := by
    intro pass isLast
    rw [passes] at isLast
    cases isLast
    exact ⟨rfl, by decide⟩
  have count : node.syncs + node.misread = 2 := by
    rw [TimeNode.syncs, TimeNode.misread, passes]
    decide
  refine ⟨node, reachable, ⟨object, stored, spec⟩, passes,
    honest.mpr (.inl right), ?_⟩
  rw [counted, count]
  exact Nat.mod_eq_of_lt (by decide)

end TimeSync

end MachinedRs
