import MachinedRs.RuntimeCore.Wakeup

/-!
# Retrying a failed reconcile

`reconcile_once` logs an error and forgets it.  After a failed reconcile the
loop goes back to `select`, and without a resync interval only an event can
lead to another attempt.  An event can still do so if it concerns one of the
inputs and is in a writer's hands or ahead of the receiver when the reconcile
returns; so can a receiver that has fallen behind the channel.
-/

namespace MachinedRs

open Foundation

/-- What a reconcile returned. -/
inductive ReconcileOutcome where
  | ok
  | err
deriving DecidableEq, Repr

/-- The bus, and what the latest reconcile of the loop returned. -/
structure LoggedBus where
  bus : Bus
  latest : Option ReconcileOutcome

/-- A move of the bus; `outcome` is what the reconcile returns if the move ends
one. -/
structure LoggedMove where
  move : BusMove
  outcome : ReconcileOutcome
deriving DecidableEq, Repr

namespace LoggedBus

def step (loopConfig : LoopConfig Unit) (logged : LoggedBus)
    (label : LoggedMove) : Option LoggedBus :=
  (logged.bus.step loopConfig label.move).map fun bus =>
    { bus := bus
      latest :=
        if label.move = .loop .reconcileEnds then
          some label.outcome
        else
          logged.latest }

end LoggedBus

/-- A controller without a resync interval, its store and the other writers. -/
def retrySystem (inputs : List Input) : System LoggedBus LoggedMove :=
  { Initial := fun logged =>
      (busSystem (Bus.config inputs false channelCapacity)).Initial
        logged.bus ∧ logged.latest = none
    step := LoggedBus.step (Bus.config inputs false channelCapacity) }

namespace Bus

/-- Some event will still take the loop out of `select`. -/
def Rouses (inputs : List Input) (bus : Bus) : Prop :=
  (∃ event ∈ bus.inFlight, matchesInputs inputs event = true) ∨
    (∃ event ∈ bus.sent.drop bus.loop.position,
      matchesInputs inputs event = true) ∨
    bus.loop.position + channelCapacity < bus.sent.length

instance (inputs : List Input) (bus : Bus) : Decidable (bus.Rouses inputs) :=
  inferInstanceAs (Decidable (_ ∨ _ ∨ _))

/-- The loop waits in `select`, has nothing to receive, and no writer is between
commit and emit. -/
def Idle (bus : Bus) : Prop :=
  bus.loop.phase = .selecting ∧
    receive channelCapacity bus.sent bus.loop.position = .empty ∧
    bus.inFlight = []

theorem Idle.not_rouses {bus : Bus} (idle : bus.Idle) (inputs : List Input) :
    ¬ bus.Rouses inputs := by
  obtain ⟨_, empty, quiet⟩ := idle
  have read := length_le_of_receive_empty empty
  rintro (⟨event, member, _⟩ | ⟨event, member, _⟩ | lagging)
  · rw [quiet] at member
    cases member
  · rw [List.drop_eq_nil_of_le read] at member
    cases member
  · omega

end Bus

/-- The loop stays in `select` only by skipping an event that does not concern
its inputs. -/
theorem Loop.skipped_of_step {ρ : Type} {config : LoopConfig ρ}
    {sent : List Event} {loop next : Loop ρ} {move : LoopMove}
    (stepped : loop.step config sent move = some next)
    (waiting : loop.phase = .selecting) (waits : next.phase = .selecting) :
    ∃ event, receive config.capacity sent loop.position =
        .message event (loop.position + 1) ∧
      matchesInputs config.inputs event = false ∧
      next = ⟨.selecting, loop.position + 1⟩ := by
  obtain ⟨phase, position⟩ := loop
  cases waiting
  cases move with
  | recv =>
      simp only [Loop.step] at stepped
      split at stepped
      · cases stepped
      · rename_i event following received
        obtain ⟨_, rfl⟩ := getElem?_of_receive_message received
        split at stepped
        · cases stepped
          cases waits
        · rename_i different
          cases stepped
          exact ⟨event, received, Bool.not_eq_true _ ▸ different, rfl⟩
      · cases stepped
        cases waits
  | tick =>
      simp only [Loop.step, Option.ite_none_right_eq_some,
        Option.some.injEq] at stepped
      obtain ⟨_, rfl⟩ := stepped
      cases waits
  | cancelled =>
      cases stepped
      cases waits
  | _ => cases stepped

namespace Bus

variable {inputs : List Input} {bus next : Bus}

theorem Rouses.commit (rouses : bus.Rouses inputs) {operation : Op}
    (stepped : bus.step (Bus.config inputs false channelCapacity)
      (.commit operation) = some next) :
    next.Rouses inputs := by
  cases stepped
  rcases rouses with ⟨event, member, matching⟩ | ahead
  · exact .inl ⟨event, List.mem_append_left _ member, matching⟩
  · exact .inr ahead

theorem Rouses.emit (rouses : bus.Rouses inputs)
    (within : bus.loop.position ≤ bus.sent.length) {index : Nat}
    (stepped : bus.step (Bus.config inputs false channelCapacity)
      (.emit index) = some next) :
    next.Rouses inputs := by
  simp only [step] at stepped
  split at stepped
  · rename_i announced found
    cases stepped
    rcases rouses with ⟨event, member, matching⟩ |
      ⟨event, member, matching⟩ | lagging
    · rcases List.mem_iff_getElem?.mp member with ⟨position, located⟩
      by_cases sentNow : position = index
      · have same : announced = event := by
          rw [sentNow, found] at located
          exact Option.some.inj located
        refine .inr (.inl ⟨event, ?_, matching⟩)
        rw [List.drop_append_of_le_length within, same]
        exact List.mem_append_right _ (List.mem_singleton_self _)
      · exact .inl ⟨event,
          List.mem_eraseIdx_iff_getElem?.mpr ⟨position, sentNow, located⟩,
          matching⟩
    · refine .inr (.inl ⟨event, ?_, matching⟩)
      rw [List.drop_append_of_le_length within]
      exact List.mem_append_left _ member
    · refine .inr (.inr ?_)
      simp only [List.length_append, List.length_singleton]
      omega
  · cases stepped

theorem Rouses.loop (rouses : bus.Rouses inputs)
    (waiting : bus.loop.phase = .selecting) {move : LoopMove}
    (stepped : bus.step (Bus.config inputs false channelCapacity)
      (.loop move) = some next)
    (waits : next.loop.phase = .selecting) :
    next.Rouses inputs := by
  obtain ⟨following, moved, rfl⟩ := Option.map_eq_some_iff.mp stepped
  obtain ⟨skipped, received, ignored, rfl⟩ :=
    Loop.skipped_of_step moved waiting waits
  obtain ⟨found, _⟩ := getElem?_of_receive_message received
  rcases rouses with held | ⟨event, member, matching⟩ | lagging
  · exact .inl held
  · refine .inr (.inl ⟨event, ?_, matching⟩)
    rw [List.drop_eq_getElem?_toList_append, found] at member
    rcases List.mem_cons.mp member with rfl | later
    · cases ignored.symm.trans matching
    · exact later
  · exact absurd lagging (not_lagged_of_receive_message received)

theorem asleep_skip (asleep : ¬ bus.Rouses inputs) :
    ¬ ({ bus with
        loop := ⟨.selecting, bus.loop.position + 1⟩ } : Bus).Rouses inputs := by
  rintro (held | ⟨event, member, matching⟩ | lagging)
  · exact asleep (.inl held)
  · refine asleep (.inr (.inl ⟨event, ?_, matching⟩))
    rw [List.drop_eq_getElem?_toList_append]
    exact List.mem_append_right _ member
  · refine asleep (.inr (.inr ?_))
    have further : bus.loop.position + 1 + channelCapacity <
        bus.sent.length := lagging
    omega

theorem asleep_emit (asleep : ¬ bus.Rouses inputs) {event : Event}
    {rest : List Event} (holding : bus.inFlight = event :: rest)
    (read : bus.sent.length = bus.loop.position) :
    ¬ ({ bus with
        inFlight := rest
        sent := bus.sent ++ [event] } : Bus).Rouses inputs := by
  rintro (⟨other, member, matching⟩ | ⟨other, member, matching⟩ | lagging)
  · refine asleep (.inl ⟨other, ?_, matching⟩)
    rw [holding]
    exact List.mem_cons_of_mem event member
  · refine asleep (.inl ⟨other, ?_, matching⟩)
    have isEvent : other ∈ (bus.sent ++ [event]).drop bus.loop.position :=
      member
    rw [← read, List.drop_left] at isEvent
    rw [holding, List.mem_singleton.mp isEvent]
    exact List.mem_cons_self
  · have behind : bus.loop.position + channelCapacity <
        (bus.sent ++ [event]).length := lagging
    rw [List.length_append, read] at behind
    have room : 1 ≤ channelCapacity := by decide
    exact Nat.not_lt_of_le (Nat.add_le_add_left room _) behind

/-- Sending an event costs one in flight and adds one to receive. -/
def backlog (bus : Bus) : Nat :=
  2 * bus.inFlight.length + (bus.sent.length - bus.loop.position)

/-- The loop waits and nothing will take it out of `select`. -/
structure Asleep (inputs : List Input) (bus : Bus) : Prop where
  waiting : bus.loop.phase = .selecting
  within : bus.loop.position ≤ bus.sent.length
  asleep : ¬ bus.Rouses inputs

theorem Asleep.receives (still : bus.Asleep inputs)
    (unread : bus.loop.position < bus.sent.length) :
    bus.step (Bus.config inputs false channelCapacity) (.loop .recv) =
      some { bus with loop := ⟨.selecting, bus.loop.position + 1⟩ } := by
  have current : ¬ bus.loop.position + channelCapacity < bus.sent.length :=
    fun lagging => still.asleep (.inr (.inr lagging))
  have found : bus.sent[bus.loop.position]? =
      some bus.sent[bus.loop.position] := List.getElem?_eq_getElem unread
  have ignored : matchesInputs inputs bus.sent[bus.loop.position] = false := by
    rw [← Bool.not_eq_true]
    intro matching
    refine still.asleep (.inr (.inl ⟨_, ?_, matching⟩))
    rw [List.drop_eq_getElem?_toList_append, found]
    exact List.mem_append_left _ (List.mem_singleton_self _)
  have waiting := still.waiting
  obtain ⟨objects, inFlight, sent, ⟨phase, position⟩, commits, started⟩ := bus
  cases waiting
  change (Loop.step _ _ _ _).map _ = _
  simp only [Loop.step, Bus.config,
    receive_message_of_getElem? current found, ignored]
  rfl

theorem Asleep.advances (still : bus.Asleep inputs) :
    bus.Idle ∨ ∃ move next, move ≠ .loop .reconcileEnds ∧
      bus.step (Bus.config inputs false channelCapacity) move = some next ∧
      next.Asleep inputs ∧ next.backlog < bus.backlog := by
  rcases Nat.lt_or_eq_of_le still.within with unread | read
  · refine .inr ⟨.loop .recv, _, by decide, still.receives unread,
      ⟨rfl, unread, asleep_skip still.asleep⟩, ?_⟩
    simp only [backlog]
    omega
  · cases holding : bus.inFlight with
    | nil =>
        exact .inl ⟨still.waiting,
          receive_empty_of_length_le (Nat.le_of_eq read.symm), holding⟩
    | cons event rest =>
        have emitted : bus.step (Bus.config inputs false channelCapacity)
            (.emit 0) = some { bus with
              inFlight := rest
              sent := bus.sent ++ [event] } := by
          simp [Bus.step, holding]
        refine .inr ⟨.emit 0, _, by decide, emitted, ⟨still.waiting, ?_,
          asleep_emit still.asleep holding read.symm⟩, ?_⟩
        · simp only [List.length_append]
          omega
        · simp only [backlog, holding, List.length_append, List.length_cons,
            List.length_nil]
          omega

end Bus

namespace LoggedBus

variable {inputs : List Input} {logged next : LoggedBus} {label : LoggedMove}

theorem step_other {bus : Bus} {move : BusMove} (outcome : ReconcileOutcome)
    (different : move ≠ .loop .reconcileEnds)
    (stepped : logged.bus.step (Bus.config inputs false channelCapacity) move =
      some bus) :
    (retrySystem inputs).step logged ⟨move, outcome⟩ =
      some ⟨bus, logged.latest⟩ := by
  change (logged.bus.step _ move).map _ = _
  rw [stepped, Option.map_some, if_neg different]

theorem comes_to_rest (still : logged.bus.Asleep inputs) :
    ∃ labels final, (retrySystem inputs).run logged labels = some final ∧
      final.bus.Idle ∧ final.latest = logged.latest := by
  induction size : logged.bus.backlog using Nat.strong_induction_on
    generalizing logged with
  | h size induction =>
  rcases still.advances with idle | ⟨move, bus, different, stepped, rests, less⟩
  · exact ⟨[], logged, rfl, idle, rfl⟩
  · rw [size] at less
    obtain ⟨labels, final, result, idle, same⟩ :=
      induction bus.backlog less
        (show (LoggedBus.mk bus logged.latest).bus.Asleep inputs from rests)
        rfl
    refine ⟨⟨move, .ok⟩ :: labels, final, ?_, idle, same⟩
    rw [System.run, step_other .ok different stepped]
    exact result

/-- While the loop waits some reconcile has returned, and if the latest one
failed, something will rouse the loop. -/
structure Retries (inputs : List Input) (logged : LoggedBus) : Prop where
  tracked : logged.bus.Tracked inputs
  returned : logged.bus.loop.phase = .selecting → logged.latest ≠ none
  rouses : logged.bus.loop.phase = .selecting → logged.latest = some .err →
    logged.bus.Rouses inputs

/-- When a reconcile returns an error, something will still rouse the loop. -/
def ErrorRouses (inputs : List Input) (logged : LoggedBus)
    (label : LoggedMove) : Prop :=
  label = ⟨.loop .reconcileEnds, .err⟩ → logged.bus.Rouses inputs

instance (inputs : List Input) (logged : LoggedBus) (label : LoggedMove) :
    Decidable (ErrorRouses inputs logged label) :=
  inferInstanceAs (Decidable (_ → _))

/-- The loop is in `select` after a step because it was there before or because
a reconcile has just returned. -/
theorem selecting_of_step {bus following : Bus} {move : BusMove}
    {loopConfig : LoopConfig Unit}
    (stepped : bus.step loopConfig move = some following)
    (waits : following.loop.phase = .selecting) :
    bus.loop.phase = .selecting ∨ move = .loop .reconcileEnds := by
  cases move with
  | commit operation =>
      cases stepped
      exact .inl waits
  | emit index =>
      simp only [Bus.step] at stepped
      split at stepped
      · cases stepped
        exact .inl waits
      · cases stepped
  | loop move =>
      obtain ⟨loop, moved, rfl⟩ := Option.map_eq_some_iff.mp stepped
      obtain ⟨objects, inFlight, sent, previous, commits, started⟩ := bus
      cases Loop.step_spec moved with
      | ends finished => exact .inr rfl
      | skips found ignored => exact .inl rfl
      | drains quiet before after within =>
          rcases after with rfl | rfl <;> cases waits
      | _ => cases waits

theorem Retries.step (retries : logged.Retries inputs)
    (meets : ErrorRouses inputs logged label)
    (stepped : (retrySystem inputs).step logged label = some next) :
    next.Retries inputs := by
  obtain ⟨move, outcome⟩ := label
  obtain ⟨bus, moved, rfl⟩ := Option.map_eq_some_iff.mp stepped
  have tracked : bus.Tracked inputs := retries.tracked.step moved
  by_cases ends : move = .loop .reconcileEnds
  · subst ends
    simp only [if_true]
    refine ⟨tracked, fun _ => nofun, ?_⟩
    rintro waits ⟨⟩
    have rouses := meets rfl
    obtain ⟨loop, ended, rfl⟩ := Option.map_eq_some_iff.mp moved
    obtain ⟨bus, latest⟩ := logged
    obtain ⟨objects, inFlight, sent, previous, commits, started⟩ := bus
    cases Loop.step_spec ended with
    | ends finished => exact rouses
    | begins beginning due => cases beginning
    | drains quiet before after within =>
        rcases after with rfl | rfl <;> cases waits
  · simp only [if_neg ends]
    refine ⟨tracked, ?_, ?_⟩
    · intro waits
      rcases selecting_of_step moved waits with waiting | returned
      · exact retries.returned waiting
      · exact absurd returned ends
    · intro waits failed
      rcases selecting_of_step moved waits with waiting | returned
      · have rouses := retries.rouses waiting failed
        cases move with
        | commit operation => exact rouses.commit moved
        | emit index => exact rouses.emit retries.tracked.within moved
        | loop move => exact rouses.loop waiting moved waits
      · exact absurd returned ends

theorem retries_of_initial (initial : (retrySystem inputs).Initial logged) :
    logged.Retries inputs := by
  obtain ⟨started, _⟩ := initial
  obtain ⟨_, _, _, _, phase, _⟩ := id started
  refine ⟨Bus.tracked_of_initial started, ?_, ?_⟩ <;> rw [phase] <;> nofun

end LoggedBus

/-- When a failed reconcile is retried.  If whenever a reconcile returns an error
an event about one of its inputs is in flight or unread, or the receiver lags,
then the loop never rests after a failed reconcile.  And wherever a reconcile in
progress finds none of this, its failure can be the last thing that happens. -/
theorem failed_reconcile_retried (inputs : List Input) :
    (∀ start labels logged, (retrySystem inputs).Initial start →
      (retrySystem inputs).run start labels = some logged →
      (retrySystem inputs).MeetsAll (LoggedBus.ErrorRouses inputs) start
        labels →
      logged.bus.Idle → logged.latest = some .ok) ∧
    (∀ logged, (retrySystem inputs).Reachable logged →
      logged.bus.loop.phase = .reconciling () →
      ¬ logged.bus.Rouses inputs →
      ∃ labels final, (retrySystem inputs).run logged
          (⟨.loop .reconcileEnds, .err⟩ :: labels) = some final ∧
        final.bus.Idle ∧ final.latest = some .err) := by
  constructor
  · intro start labels logged initial result meets idle
    have retries : logged.Retries inputs :=
      System.run_invariant_of_meetsAll
        (fun _ _ _ met stepped kept => kept.step met stepped) meets result
        (LoggedBus.retries_of_initial initial)
    match latest : logged.latest with
    | some .ok => rfl
    | some .err =>
        exact absurd (retries.rouses idle.1 latest) (idle.not_rouses inputs)
    | none => exact absurd latest (retries.returned idle.1)
  · intro logged reachable busy asleep
    have tracked : logged.bus.Tracked inputs := by
      refine reachable.invariant (fun start initial =>
        Bus.tracked_of_initial initial.1) ?_
      intro state label next stepped tracked
      obtain ⟨bus, moved, rfl⟩ := Option.map_eq_some_iff.mp stepped
      exact tracked.step moved
    obtain ⟨⟨objects, inFlight, sent, ⟨phase, position⟩, commits, started⟩,
      latest⟩ := logged
    cases busy
    let returned : LoggedBus :=
      ⟨⟨objects, inFlight, sent, ⟨.selecting, position⟩, commits, started⟩,
        some .err⟩
    obtain ⟨labels, final, result, idle, same⟩ :=
      LoggedBus.comes_to_rest
        (show returned.bus.Asleep inputs from ⟨rfl, tracked.within, asleep⟩)
    exact ⟨labels, final, result, idle, same⟩

/-- A reconcile that fails while one of its inputs has just been created. -/
def failureWhileInputArrives : List LoggedMove :=
  [⟨.loop .watch, .ok⟩, ⟨.loop .reconcileBegins, .ok⟩,
    ⟨.commit (.create etcdService), .ok⟩, ⟨.emit 0, .ok⟩,
    ⟨.loop .reconcileEnds, .err⟩, ⟨.loop .recv, .ok⟩,
    ⟨.loop .debounced, .ok⟩, ⟨.loop .tryRecv, .ok⟩,
    ⟨.loop .reconcileBegins, .ok⟩, ⟨.loop .reconcileEnds, .ok⟩]

/-- A store nobody has written to, and a loop that has not started. -/
def freshBus : LoggedBus :=
  { bus :=
      { objects := ∅
        inFlight := []
        sent := []
        loop := { phase := .starting, position := 0 }
        commits := []
        started := 0 }
    latest := none }

theorem failed_reconcile_retried_inputArrives :
    (retrySystem [⟨"runtime", .serviceStatus, .weak⟩]).MeetsAll
      (LoggedBus.ErrorRouses [⟨"runtime", .serviceStatus, .weak⟩]) freshBus
      failureWhileInputArrives ∧
    ∃ logged, (retrySystem [⟨"runtime", .serviceStatus, .weak⟩]).run freshBus
        failureWhileInputArrives = some logged ∧ logged.bus.Idle ∧
      logged.latest = some .ok := by
  let system := retrySystem [⟨"runtime", .serviceStatus, .weak⟩]
  have meets : system.MeetsAll
      (LoggedBus.ErrorRouses [⟨"runtime", .serviceStatus, .weak⟩]) freshBus
      failureWhileInputArrives := by
    decide +kernel
  have finishes : (system.run freshBus failureWhileInputArrives).isSome := by
    decide +kernel
  obtain ⟨logged, result⟩ := Option.isSome_iff_exists.mp finishes
  have computed : (system.run freshBus failureWhileInputArrives).map
      (fun final => (final.bus.loop, final.bus.sent.length,
        final.bus.inFlight.length)) =
        some (({ phase := .selecting, position := 1 } : Loop Unit), 1, 0) := by
    decide +kernel
  rw [result] at computed
  simp only [Option.map_some, Option.some.injEq, Prod.mk.injEq,
    List.length_eq_zero_iff] at computed
  obtain ⟨loop, sentLength, quiet⟩ := computed
  have idle : logged.bus.Idle := by
    refine ⟨by rw [loop], ?_, quiet⟩
    exact receive_empty_of_length_le (by rw [loop, sentLength])
  exact ⟨meets, logged, result, idle,
    (failed_reconcile_retried _).1 freshBus _ logged
      ⟨⟨rfl, rfl, rfl, rfl, rfl, rfl⟩, rfl⟩ result meets idle⟩

/-- The initial reconcile fails, and nothing ever happens again. -/
theorem failed_reconcile_forgotten :
    ∃ logged, (retrySystem [⟨"runtime", .serviceStatus, .weak⟩]).run freshBus
        [⟨.loop .watch, .ok⟩, ⟨.loop .reconcileBegins, .ok⟩,
          ⟨.loop .reconcileEnds, .err⟩] = some logged ∧
      logged.bus.Idle ∧ logged.latest = some .err := by
  refine ⟨_, rfl, ⟨rfl, ?_, rfl⟩, rfl⟩
  exact receive_empty_of_length_le (Nat.zero_le _)

end MachinedRs
