import MachinedRs.Foundation.System
import MachinedRs.Network.Slots

/-!
# Passes in any order

The config controller runs with one config for a while and with another one from
some point on; another controller runs in between.  Every pass runs to
completion.  In terms of slots, a run asks for the first wish, then for the
second one, and serves in between.  A state that no further pass changes holds
what the second config wants, unless an item was replaced under its id; if one
was, there is a run whose last state no pass changes and in which the effect of
the replaced item is still there.
-/

namespace MachinedRs

open Foundation

structure NetworkRun where
  world : NetworkWorld
  switched : Bool

inductive NetworkMove where
  | switch
  | config (listings : List (List ResourceObject))
  | serve (listings : List (List ResourceObject))

/-- The config in force. -/
def NetworkRun.config (first second : Provider) (state : NetworkRun) :
    Provider :=
  if state.switched then second else first

/-- Runs of the config controller and of another controller's `pass` from the
empty store. -/
def networkRuns
    (pass : Program (stateSignature.sum networkSignature) (Result Unit))
    (first second : Provider) (kernel : FakeState) :
    System NetworkRun NetworkMove :=
  { Initial := fun state => state = ⟨⟨∅, kernel⟩, false⟩
    step := fun state move =>
      match move with
      | .switch => some { state with switched := true }
      | .config listings =>
          (networkMachine.complete
            (NetworkConfigController.reconcile
              (state.config first second)).inl state.world listings).map
                fun (_, world, _) => { state with world := world }
      | .serve listings =>
          (networkMachine.complete pass state.world listings).map
            fun (_, world, _) => { state with world := world } }

/-- Neither the config controller nor the other pass would change what is to be
the `same`. -/
structure Quiet (same : NetworkWorld → NetworkWorld → Prop)
    (pass : Program (stateSignature.sum networkSignature) (Result Unit))
    (provider : Provider) (world : NetworkWorld) : Prop where
  config : ∀ result after,
    networkMachine.Returns
      (NetworkConfigController.reconcile provider).inl world result after →
    same world after
  serve : ∀ result after,
    networkMachine.Returns pass world result after → same world after

/-- A kernel with one link and nothing configured. -/
def bareKernel : FakeState :=
  { links := {"eth0"}, addrs := ∅, routes := [] }

namespace SlotConsumer

variable {Item : Type} {consumer : SlotConsumer Item}
  {first second : Provider} {kernel : FakeState}

/-- The kernel accepts whatever the two configs want. -/
def Acceptable (consumer : SlotConsumer Item) (first second : Provider)
    (kernel : FakeState) : Prop :=
  ∀ provider, provider = first ∨ provider = second → ∀ id item,
    consumer.wanted provider id = some item →
    kernel.Accepts (consumer.add item)

/-- What every state of a run has in common. -/
structure Fit (consumer : SlotConsumer Item) (kernel : FakeState)
    (world : NetworkWorld) : Prop where
  sound : consumer.Sound world
  links : world.kernel.links = kernel.links
  accepting : consumer.Accepting world

theorem fit_empty (kernel : FakeState) :
    consumer.Fit kernel ⟨∅, kernel⟩ := by
  have absent : ∀ key : Key, (∅ : Objects).lookup key = none :=
    Finmap.lookup_empty
  refine ⟨⟨State.wellKeyed_empty, ?_, ?_⟩, rfl, ?_⟩
  · intro id object stored
    rw [absent] at stored
    cases stored
  · intro id object stored
    rw [absent] at stored
    cases stored
  · intro id item found
    rw [slotOf, absent] at found
    cases found

theorem slotOf_empty (nothing : ∀ item, ¬ consumer.holds kernel item)
    (id : String) : consumer.slotOf ⟨∅, kernel⟩ id = Slot.empty := by
  have none : {item | consumer.holds kernel item ∧
      consumer.ident item = id} = ∅ := by
    ext item
    simp [nothing item]
  rw [slotOf, none]
  rfl

section Passes

variable {world : NetworkWorld} {provider : Provider}

theorem Fit.config (fit : consumer.Fit kernel world)
    (acceptable : ∀ id item, consumer.wanted provider id = some item →
      kernel.Accepts (consumer.add item)) :
    networkMachine.Ensures
      (fun _ after => consumer.Fit kernel after ∧
        ∀ id, consumer.slotOf after id =
          (consumer.slotOf world id).ask (consumer.wanted provider id))
      (NetworkConfigController.reconcile provider).inl world := by
  apply Setting.Protected.mono _ (config_slots fit.sound)
  rintro result after ⟨sound, sameKernel, slots⟩
  refine ⟨⟨sound, ?_, ?_⟩, slots⟩
  · rw [sameKernel]
    exact fit.links
  · intro id item found
    rw [slots id] at found
    rw [sameKernel]
    rcases Custody.item?_ask found with isWanted | already
    · exact (acceptable id item isWanted).of_links fit.links
    · exact fit.accepting id item already

theorem Fit.serve (fit : consumer.Fit kernel world) :
    networkMachine.Ensures
      (fun _ after => consumer.Fit kernel after ∧
        ∀ id, consumer.slotOf after id =
          (consumer.slotOf world id).serve consumer.status)
      consumer.reconcile world := by
  apply Setting.Protected.mono _ (reconcile_slots fit.sound fit.accepting)
  rintro result after ⟨sound, sameLinks, slots⟩
  refine ⟨⟨sound, sameLinks.trans fit.links, ?_⟩, slots⟩
  intro id item found
  rw [slots id, Slot.item?_serve] at found
  exact (fit.accepting id item found).of_links sameLinks

end Passes

/-- The slots of a state of a run follow the two configs. -/
structure Follows (consumer : SlotConsumer Item) (first second : Provider)
    (kernel : FakeState) (state : NetworkRun) : Prop where
  fit : consumer.Fit kernel state.world
  tracks : ∀ id, (consumer.slotOf state.world id).Tracks consumer.status
    (consumer.wanted first id) (consumer.wanted second id)
    (state.switched = true)

theorem acceptable_config (acceptable : consumer.Acceptable first second kernel)
    (state : NetworkRun) :
    ∀ id item,
      consumer.wanted (state.config first second) id = some item →
      kernel.Accepts (consumer.add item) := by
  apply acceptable
  unfold NetworkRun.config
  split
  · exact .inr rfl
  · exact .inl rfl

theorem follows_of_reachable
    (acceptable : consumer.Acceptable first second kernel)
    (nothing : ∀ item, ¬ consumer.holds kernel item)
    (same : ∀ id one other, consumer.wanted first id = some one →
      consumer.wanted second id = some other → one = other)
    {state : NetworkRun}
    (reached :
      (networkRuns consumer.reconcile first second kernel).Reachable state) :
    consumer.Follows first second kernel state := by
  refine reached.invariant ?_ ?_
  · rintro _ rfl
    refine ⟨fit_empty kernel, ?_⟩
    intro id
    rw [slotOf_empty nothing id]
    exact Slot.tracks_empty _
  · intro before move after moved follows
    cases move with
    | switch =>
        cases moved
        refine ⟨follows.fit, ?_⟩
        intro id
        exact (follows.tracks id).switch fun _ => rfl
    | config listings =>
        obtain ⟨⟨result, world, rest⟩, completed, rfl⟩ :=
          Option.map_eq_some_iff.mp moved
        obtain ⟨fit, slots⟩ := Machine.post_of_returns
          (follows.fit.config (acceptable_config acceptable before))
          (Machine.returns_of_complete completed)
        refine ⟨fit, ?_⟩
        intro id
        have tracks := follows.tracks id
        rw [slots id, NetworkRun.config]
        by_cases switched : before.switched = true
        · rw [if_pos switched]
          exact tracks.askSecond switched (same id)
        · rw [if_neg switched]
          exact tracks.askFirst switched
    | serve listings =>
        obtain ⟨⟨result, world, rest⟩, completed, rfl⟩ :=
          Option.map_eq_some_iff.mp moved
        obtain ⟨fit, slots⟩ := Machine.post_of_returns follows.fit.serve
          (Machine.returns_of_complete completed)
        refine ⟨fit, ?_⟩
        intro id
        rw [slots id]
        exact (follows.tracks id).serve

theorem fulfilled_of_quiet
    (acceptable : consumer.Acceptable first second kernel)
    {same : NetworkWorld → NetworkWorld → Prop}
    (sameSpecs : ∀ before after, same before after → ∀ id,
      after.objects.lookup (consumer.specKey id) =
        before.objects.lookup (consumer.specKey id))
    {state : NetworkRun}
    (follows : consumer.Follows first second kernel state)
    (quiet : Quiet same consumer.reconcile second state.world)
    (id : String) :
    consumer.slotOf state.world id =
      Slot.fulfilled consumer.status (consumer.wanted second id) := by
  have sameStage : ∀ {after}, same state.world after →
      (consumer.slotOf after id).stage =
        (consumer.slotOf state.world id).stage := by
    intro after unchanged
    rw [slotOf, slotOf, sameSpecs _ _ unchanged id]
  obtain ⟨asked, afterAsked, askedRun⟩ := networkMachine_total.returns
    (NetworkConfigController.reconcile second).inl state.world
  obtain ⟨served, afterServed, servedRun⟩ := networkMachine_total.returns
    consumer.reconcile state.world
  obtain ⟨_, askedSlots⟩ := Machine.post_of_returns
    (follows.fit.config (acceptable second (.inr rfl))) askedRun
  obtain ⟨_, servedSlots⟩ :=
    Machine.post_of_returns follows.fit.serve servedRun
  apply (follows.tracks id).eq_fulfilled
  · rw [← askedSlots id]
    exact sameStage (quiet.config _ _ askedRun)
  · rw [← servedSlots id]
    exact sameStage (quiet.serve _ _ servedRun)

section Fulfilled

variable {world : NetworkWorld}

theorem holds_iff_wanted
    (fulfilled : ∀ id, consumer.slotOf world id =
      Slot.fulfilled consumer.status (consumer.wanted second id))
    (item : Item) :
    consumer.holds world.kernel item ↔
      consumer.wanted second (consumer.ident item) = some item := by
  have applied : consumer.holds world.kernel item ↔
      item ∈ (consumer.slotOf world (consumer.ident item)).applied :=
    ⟨fun holds => ⟨holds, rfl⟩, fun member => member.1⟩
  rw [applied, fulfilled]
  cases consumer.wanted second (consumer.ident item) with
  | none => simp [Slot.fulfilled, Slot.empty]
  | some other => simp [Slot.fulfilled, eq_comm]

theorem status_iff_wanted
    (fulfilled : ∀ id, consumer.slotOf world id =
      Slot.fulfilled consumer.status (consumer.wanted second id))
    (id : String) (spec : Resource) :
    (∃ object, world.objects.lookup (consumer.statusKey id) = some object ∧
        object.spec = spec) ↔
      ∃ item, consumer.wanted second id = some item ∧
        spec = consumer.status item := by
  have shown : (world.objects.lookup (consumer.statusKey id)).map
      ResourceObject.spec =
      (Slot.fulfilled consumer.status (consumer.wanted second id)).shown :=
    congrArg Slot.shown (fulfilled id)
  rw [← Option.map_eq_some_iff, shown]
  cases consumer.wanted second id with
  | none => simp [Slot.fulfilled, Slot.empty]
  | some item => simp [Slot.fulfilled, eq_comm]

end Fulfilled

section Rounds

theorem exists_config (acceptable : consumer.Acceptable first second kernel)
    (state : NetworkRun) (fit : consumer.Fit kernel state.world) :
    ∃ listings world,
      (networkRuns consumer.reconcile first second kernel).step state
        (.config listings) = some { state with world := world } ∧
      consumer.Fit kernel world ∧
      ∀ id, consumer.slotOf world id =
        (consumer.slotOf state.world id).ask
          (consumer.wanted (state.config first second) id) := by
  obtain ⟨result, world, returns⟩ := networkMachine_total.returns
    (NetworkConfigController.reconcile (state.config first second)).inl
    state.world
  obtain ⟨listings, completed⟩ := returns.complete
  have ended := Machine.post_of_returns
    (fit.config (acceptable_config acceptable state)) returns
  refine ⟨listings, world, ?_, ended⟩
  simp only [networkRuns, completed, Option.map_some]

theorem exists_serve (first second : Provider) (state : NetworkRun)
    (fit : consumer.Fit kernel state.world) :
    ∃ listings world,
      (networkRuns consumer.reconcile first second kernel).step state
        (.serve listings) = some { state with world := world } ∧
      consumer.Fit kernel world ∧
      ∀ id, consumer.slotOf world id =
        (consumer.slotOf state.world id).serve consumer.status := by
  obtain ⟨result, world, returns⟩ := networkMachine_total.returns
    consumer.reconcile state.world
  obtain ⟨listings, completed⟩ := returns.complete
  have ended := Machine.post_of_returns fit.serve returns
  refine ⟨listings, world, ?_, ended⟩
  simp only [networkRuns, completed, Option.map_some]

theorem exists_rounds (acceptable : consumer.Acceptable first second kernel)
    (nothing : ∀ item, ¬ consumer.holds kernel item) :
    ∃ state,
      (networkRuns consumer.reconcile first second kernel).Reachable state ∧
      consumer.Fit kernel state.world ∧
      ∀ id, consumer.slotOf state.world id =
        Slot.rounds consumer.status (consumer.wanted first id)
          (consumer.wanted second id) := by
  let start : NetworkRun := ⟨⟨∅, kernel⟩, false⟩
  have startFit : consumer.Fit kernel start.world := fit_empty kernel
  obtain ⟨one, asked, oneStep, askedFit, askedSlots⟩ :=
    exists_config acceptable start startFit
  obtain ⟨two, served, twoStep, servedFit, servedSlots⟩ :=
    exists_serve first second ⟨asked, false⟩ askedFit
  obtain ⟨three, again, threeStep, againFit, againSlots⟩ :=
    exists_config acceptable ⟨served, true⟩ servedFit
  obtain ⟨four, final, fourStep, finalFit, finalSlots⟩ :=
    exists_serve first second ⟨again, true⟩ againFit
  obtain ⟨five, last, fiveStep, lastFit, lastSlots⟩ :=
    exists_config acceptable ⟨final, true⟩ finalFit
  refine ⟨⟨last, true⟩, ⟨start, [.config one, .serve two, .switch,
    .config three, .serve four, .config five], rfl, ?_⟩, lastFit, ?_⟩
  · refine System.run_cons_eq_some.mpr ⟨_, oneStep, ?_⟩
    refine System.run_cons_eq_some.mpr ⟨_, twoStep, ?_⟩
    refine System.run_cons_eq_some.mpr ⟨⟨served, true⟩, rfl, ?_⟩
    refine System.run_cons_eq_some.mpr ⟨_, threeStep, ?_⟩
    refine System.run_cons_eq_some.mpr ⟨_, fourStep, ?_⟩
    exact System.run_cons_eq_some.mpr ⟨_, fiveStep, rfl⟩
  · intro id
    have empty : consumer.slotOf start.world id = Slot.empty :=
      slotOf_empty nothing id
    rw [lastSlots id, finalSlots id, againSlots id, servedSlots id,
      askedSlots id, empty]
    rfl

end Rounds

/-- Nothing has changed but the versions of the statuses. -/
structure SlotsSame (consumer : SlotConsumer Item)
    (before after : NetworkWorld) : Prop where
  specs : ∀ id, after.objects.lookup (consumer.specKey id) =
    before.objects.lookup (consumer.specKey id)
  statuses : ∀ id,
    (after.objects.lookup (consumer.statusKey id)).map ResourceObject.spec =
      (before.objects.lookup (consumer.statusKey id)).map ResourceObject.spec
  kernel : after.kernel = before.kernel

section Serves

variable {world : NetworkWorld} {id : String}

theorem stored_of_held {item : Item}
    (held : (consumer.slotOf world id).stage = .held item) :
    ∃ object, world.objects.lookup (consumer.specKey id) = some object ∧
      consumer.item? object.spec = some item ∧
      object.metadata.phase = .running ∧
      consumer.finalizer ∈ object.metadata.finalizers := by
  rw [slotOf] at held
  cases stored : world.objects.lookup (consumer.specKey id) with
  | none =>
      rw [stored] at held
      cases held
  | some object =>
      rw [stored] at held
      cases found : consumer.item? object.spec with
      | none =>
          simp only [stageOf, found] at held
          cases held
      | some other =>
          simp only [stageOf_some found] at held
          cases phase : object.metadata.phase with
          | running =>
              rw [phase] at held
              by_cases present :
                  consumer.finalizer ∈ object.metadata.finalizers
              · simp only [present, decide_true, stage] at held
                cases held
                exact ⟨object, rfl, found, phase, present⟩
              · simp only [present, decide_false, stage] at held
                cases held
          | tearingDown =>
              rw [phase] at held
              by_cases present :
                  consumer.finalizer ∈ object.metadata.finalizers
              · simp only [present, decide_true, stage] at held
                cases held
              · simp only [present, decide_false, stage] at held
                cases held

theorem held_of_serves (sound : consumer.Sound world)
    (serves : ∀ id, (consumer.slotOf world id).Serves consumer.status
      (consumer.wanted second id))
    {object : ResourceObject}
    (stored : world.objects.lookup (consumer.specKey id) = some object) :
    ∃ item, consumer.wanted second id = some item ∧
      consumer.item? object.spec = some item ∧
      object.metadata.phase = .running ∧
      consumer.finalizer ∈ object.metadata.finalizers ∧
      consumer.holds world.kernel item := by
  obtain ⟨stage, applied, _⟩ := serves id
  cases isWanted : consumer.wanted second id with
  | none =>
      obtain ⟨_, _, item, found, _⟩ := sound.specs id object stored
      have present := item?_slotOf stored found
      rw [stage, isWanted] at present
      cases present
  | some item =>
      rw [isWanted] at stage applied
      obtain ⟨same, found, itemFound, running, held⟩ := stored_of_held stage
      rw [stored] at found
      cases found
      have inEffect : item ∈ (consumer.slotOf world id).applied :=
        applied rfl
      exact ⟨item, rfl, itemFound, running, held, inEffect.1⟩

theorem spec_iff_wanted (sound : consumer.Sound world)
    (serves : ∀ id, (consumer.slotOf world id).Serves consumer.status
      (consumer.wanted second id))
    (id : String) (spec : Resource) (phase : Phase) :
    (∃ object, world.objects.lookup (consumer.specKey id) = some object ∧
        object.spec = spec ∧ object.metadata.phase = phase) ↔
      ∃ item, consumer.wanted second id = some item ∧
        consumer.item? spec = some item ∧ phase = .running := by
  constructor
  · rintro ⟨object, stored, rfl, rfl⟩
    obtain ⟨item, isWanted, found, running, _⟩ :=
      held_of_serves sound serves stored
    exact ⟨item, isWanted, found, running⟩
  · rintro ⟨item, isWanted, found, rfl⟩
    obtain ⟨stage, _, _⟩ := serves id
    rw [isWanted] at stage
    obtain ⟨object, stored, itemFound, running, _⟩ := stored_of_held stage
    exact ⟨object, stored, consumer.item_inj itemFound found, running⟩

theorem ownedSettled_of_serves (sound : consumer.Sound world)
    (agreeing : Agreeing (consumer.desired second))
    (serves : ∀ id, (consumer.slotOf world id).Serves consumer.status
      (consumer.wanted second id)) :
    OwnedSettled NetworkConfigController.owner networkNs consumer.typ
      (consumer.desired second) world.objects := by
  refine ⟨?_, ?_⟩
  · intro object member
    have key := desired_key member
    cases isWanted : consumer.wanted second object.metadata.id with
    | none =>
        have absent := lastDesired_eq_none (wanted_eq_none isWanted)
        rw [← key] at absent
        exact absurd (List.mem_map_of_mem member) absent
    | some item =>
        obtain ⟨last, lastMember, _, lastKey, lastFound, _⟩ :=
          exists_of_wanted isWanted
        obtain ⟨stage, _, _⟩ := serves object.metadata.id
        rw [isWanted] at stage
        obtain ⟨existing, stored, found, _, _⟩ := stored_of_held stage
        refine ⟨existing, ?_, ?_⟩
        · rw [key]
          exact stored
        · rw [consumer.item_inj found lastFound]
          exact agreeing last lastMember object member
            (lastKey.trans key.symm)
  · intro id existing stored _ undesired
    obtain ⟨item, isWanted, _⟩ := held_of_serves sound serves stored
    obtain ⟨object, member, _, objectKey, _, _⟩ := exists_of_wanted isWanted
    apply absurd _ undesired
    have sameId : existing.metadata.id = object.metadata.id :=
      congrArg Key.id
        ((sound.key_of_lookup stored).trans objectKey.symm)
    rw [sameId]
    exact List.mem_map_of_mem member

/-- The object is held and in effect already. -/
def Idle (consumer : SlotConsumer Item) (kernel : FakeState)
    (object : ResourceObject) : Prop :=
  ∃ item, consumer.item? object.spec = some item ∧
    object.metadata.phase = .running ∧
    consumer.finalizer ∈ object.metadata.finalizers ∧
    consumer.holds kernel item

theorem serve_idle {object : ResourceObject}
    (listed : consumer.Listed world object)
    (idle : consumer.Idle world.kernel object) :
    (consumer.serve world object).kernel = world.kernel ∧
      ∀ id, (consumer.serve world object).objects.lookup
          (consumer.specKey id) =
        world.objects.lookup (consumer.specKey id) := by
  obtain ⟨item, found, running, held, inEffect⟩ := idle
  refine ⟨?_, ?_⟩
  · rw [serve_kernel found, running]
    exact consumer.add_held inEffect
  · intro id
    by_cases here : object.metadata.id = id
    · subst here
      have unchanged : consumer.served object = object := by
        simp only [SpecController.served, running, ResourceObject.heldBy,
          if_pos held]
      rw [lookup_serve_listed listed, unchanged, ← listed.key]
      exact listed.stored.symm
    · exact lookup_serve_specKey listed here

theorem foldl_serve_idle {listing : List ResourceObject}
    (distinct : (listing.map ResourceObject.key).Nodup)
    (listed : ∀ object ∈ listing, consumer.Listed world object)
    (idle : ∀ object ∈ listing, consumer.Idle world.kernel object) :
    (listing.foldl consumer.serve world).kernel = world.kernel ∧
      ∀ id, (listing.foldl consumer.serve world).objects.lookup
          (consumer.specKey id) =
        world.objects.lookup (consumer.specKey id) := by
  induction listing generalizing world with
  | nil => exact ⟨rfl, fun _ => rfl⟩
  | cons object listing induction =>
      rw [List.map_cons, List.nodup_cons] at distinct
      obtain ⟨sameKernel, sameSpecs⟩ := serve_idle
        (listed object List.mem_cons_self) (idle object List.mem_cons_self)
      have rest := listed_tail distinct.1 listed
      have restIdle : ∀ other ∈ listing,
          consumer.Idle (consumer.serve world object).kernel other := by
        intro other member
        rw [sameKernel]
        exact idle other (List.mem_cons_of_mem _ member)
      obtain ⟨kernelAfter, specsAfter⟩ := induction distinct.2 rest restIdle
      exact ⟨kernelAfter.trans sameKernel,
        fun id => (specsAfter id).trans (sameSpecs id)⟩

/-- When everything that is wanted is in effect, no pass changes anything but
the versions of the statuses. -/
theorem quiet_of_serves (fit : consumer.Fit kernel world)
    (agreeing : Agreeing (consumer.desired second))
    (serves : ∀ id, (consumer.slotOf world id).Serves consumer.status
      (consumer.wanted second id)) :
    Quiet consumer.SlotsSame consumer.reconcile second world := by
  refine ⟨?_, ?_⟩
  · intro result after returns
    obtain ⟨_, sameKernel, specs, statuses⟩ := Machine.post_of_returns
      (@config_lookups Item consumer world second fit.sound.keyed) returns
    have settled := ownedSettled_of_serves fit.sound agreeing serves
    refine ⟨?_, ?_, sameKernel⟩
    · intro id
      rw [specs id]
      exact settled.reconciledAt id
    · intro id
      rw [statuses id]
  · intro result after returns
    obtain ⟨_, slots⟩ := Machine.post_of_returns fit.serve returns
    obtain ⟨listing, enumerates, rfl⟩ := Machine.post_of_returns
      (reconcile_folds fit.sound fit.accepting) returns
    have distinct := State.nodup_enumeration fit.sound.keyed enumerates
    have listed : ∀ object ∈ listing, consumer.Listed world object :=
      fun object member =>
        listed_of_mem fit.sound fit.accepting enumerates member
    have idle : ∀ object ∈ listing, consumer.Idle world.kernel object := by
      intro object member
      have stored := (listed object member).stored
      rw [(listed object member).key] at stored
      obtain ⟨item, _, rest⟩ := held_of_serves fit.sound serves stored
      exact ⟨item, rest⟩
    obtain ⟨sameKernel, sameSpecs⟩ := foldl_serve_idle distinct listed idle
    refine ⟨sameSpecs, ?_, sameKernel⟩
    intro id
    have shown := congrArg Slot.shown (slots id)
    obtain ⟨stage, _, shownBefore⟩ := serves id
    have kept : ((consumer.slotOf world id).serve consumer.status).shown =
        (consumer.slotOf world id).shown := by
      cases isWanted : consumer.wanted second id with
      | none =>
          rw [isWanted] at stage
          have absent : (consumer.slotOf world id).stage = .absent := stage
          rw [Slot.serve, absent]
      | some item =>
          rw [isWanted] at stage shownBefore
          have held : (consumer.slotOf world id).stage = .held item := stage
          rw [shownBefore, Slot.serve, held]
          rfl
    exact shown.trans kept

end Serves

end SlotConsumer

end MachinedRs
