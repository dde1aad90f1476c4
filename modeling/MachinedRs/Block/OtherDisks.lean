import MachinedRs.Block.LayoutGuard
import MachinedRs.RuntimeCore.Settled

/-!
# What other disks mean to the provisioner

Two passes of the provisioner, with the same configuration and the same
backend, over stores that agree about the install disk and differ in anything
else.
-/

namespace MachinedRs

open Foundation

/-- The order in which a store lists its objects. -/
structure ListOrder where
  listing : Objects → String → ResourceType → List ResourceObject
  enumerates : ∀ objects ns typ,
    (listing objects ns typ : Multiset ResourceObject) =
      State.list objects ns typ

/-- The listing that an operation gets to see, if it asks for one. -/
def ListOrder.listingFor (order : ListOrder) (objects : Objects) :
    Op → List ResourceObject
  | .list ns typ => order.listing objects ns typ
  | _ => []

/-- The discovered volumes, in the order in which a pass reads them. -/
def ListOrder.volumes (order : ListOrder) (objects : Objects) :
    List DiscoveredVolume :=
  VolumeProvisioner.discoveredSpecs
    (order.listing objects blockNs .discoveredVolume)

/-- A backend answers a call as it pleases, given what has happened so far. -/
abbrev Backend :=
  List blockSignature.Exchange → (call : BlockCall) →
    Except BlockError call.Value

structure PassWorld where
  objects : Objects
  calls : List blockSignature.Exchange

/-- A pass that runs alone, with everything settled that a store or a backend
could do in several ways. -/
def orderedMachine (order : ListOrder) (backend : Backend) :
    Machine blockControllerSignature PassWorld Unit :=
  { perform := fun world operation _ =>
      match operation with
      | .inl operation =>
          (operation.answer? world.objects
            (order.listingFor world.objects operation)).map fun answer =>
              (answer, { world with
                objects := operation.after world.objects })
      | .inr call =>
          let answer := backend world.calls call
          some (answer, { world with
            calls := world.calls ++ [⟨call, answer⟩] }) }

/-- What a pass has published: nothing, or the desired statuses of an owner. -/
def PublishedStatuses (before after : Objects) :
    Option (List ResourceObject) → Prop
  | none => after = before
  | some statuses => ∀ key, after.lookup key =
      reconciled VolumeProvisioner.owner blockNs .volumeStatus statuses before
        key

section Ordered

variable {order : ListOrder} {backend : Backend} {α : Type}
  {world : PassWorld}

theorem orderedMachine_total (order : ListOrder) (backend : Backend) :
    (orderedMachine order backend).Total := by
  intro world operation
  cases operation with
  | inr call => exact ⟨(), _, _, rfl⟩
  | inl operation =>
      cases operation with
      | list ns typ =>
          have accepted : Op.answer? world.objects
              (order.listing world.objects ns typ) (.list ns typ) =
                some (order.listing world.objects ns typ) :=
            if_pos (order.enumerates world.objects ns typ)
          refine ⟨(), order.listing world.objects ns typ, world, ?_⟩
          simp only [orderedMachine, ListOrder.listingFor, accepted]
          rfl
      | _ => exact ⟨(), _, _, rfl⟩

theorem ordered_op {operation : Op}
    {next : operation.Answer → Program blockControllerSignature α}
    {post : α → PassWorld → Prop}
    (goesOn : ∀ answer, operation.answer? world.objects
      (order.listingFor world.objects operation) = some answer →
      (orderedMachine order backend).Ensures post (next answer)
        { world with objects := operation.after world.objects }) :
    (orderedMachine order backend).Ensures post
      (.call (.inl operation) next) world := by
  apply Machine.call trivial
  intro choice answer after performed
  obtain ⟨given, answered, equality⟩ := Option.map_eq_some_iff.mp performed
  cases equality
  exact goesOn _ answered

theorem ordered_call {call : BlockCall}
    {next : Except BlockError call.Value →
      Program blockControllerSignature α}
    {post : α → PassWorld → Prop}
    (goesOn : (orderedMachine order backend).Ensures post
      (next (backend world.calls call))
      { world with
        calls := world.calls ++ [⟨call, backend world.calls call⟩] }) :
    (orderedMachine order backend).Ensures post (.call (.inr call) next)
      world := by
  apply Machine.call trivial
  intro choice answer after performed
  cases performed
  exact goesOn

/-- What a program does to a store in any order, it does in this one, and
without a call. -/
theorem ordered_inl {program : Program stateSignature α}
    {post : α → Objects → Prop} {objects : Objects}
    (ensures : storeMachine.Ensures post program objects)
    (calls : List blockSignature.Exchange) :
    (orderedMachine order backend).Ensures
      (fun value after => after.calls = calls ∧ post value after.objects)
      program.inl ⟨objects, calls⟩ := by
  induction program generalizing objects with
  | done value => exact Machine.done trivial ⟨rfl, ensures.finished⟩
  | call operation next induction =>
      apply ordered_op
      intro answer answered
      apply induction answer
      apply ensures.advance
      refine ⟨order.listingFor objects operation, ?_⟩
      simp only [storeMachine]
      rw [answered, Option.map_some]

end Ordered

/-- The program calls the backend and publishes at most once, at its end. -/
inductive PublishesLast :
    Program blockControllerSignature (Result Unit) → Prop where
  | done (result : Result Unit) : PublishesLast (.done result)
  | publish (statuses : List ResourceObject) :
      PublishesLast (VolumeProvisioner.publish statuses)
  | call (call : BlockCall)
      (next : Except BlockError call.Value →
        Program blockControllerSignature (Result Unit)) :
      (∀ answer, PublishesLast (next answer)) →
      PublishesLast (.call (.inr call) next)

namespace PublishesLast

theorem propagateBlock {α : Type} {answer : Except BlockError α}
    {next : α → Program blockControllerSignature (Result Unit)}
    (rest : ∀ value, PublishesLast (next value)) :
    PublishesLast (propagateBlock answer next) := by
  cases answer with
  | error error => exact .done _
  | ok value => exact rest value

theorem formatAndPublish (layout : List PartitionPlan)
    (devices : List String) (statuses : List ResourceObject) :
    PublishesLast
      (VolumeProvisioner.formatAndPublish layout devices statuses) := by
  rw [VolumeProvisioner.formatAndPublish]
  generalize layout.zip devices = pairs
  induction pairs generalizing statuses with
  | nil => exact .publish statuses
  | cons pair pairs induction =>
      obtain ⟨plan, device⟩ := pair
      apply PublishesLast.call
      intro formatted
      cases formatted with
      | error error => exact .done _
      | ok _ => exact induction _

theorem layOut (disk : String) :
    PublishesLast (VolumeProvisioner.layOut disk) := by
  apply PublishesLast.call
  intro created
  apply propagateBlock
  intro devices
  exact formatAndPublish fixedLayout devices []

theorem carryOut (install : InstallSection)
    (discovered : List DiscoveredVolume) :
    PublishesLast (VolumeProvisioner.carryOut install discovered) := by
  rw [VolumeProvisioner.carryOut]
  cases planProvisioning install.disk install.wipe discovered with
  | refuseForeign => exact .done _
  | skip => exact .publish _
  | provision =>
      change PublishesLast (VolumeProvisioner.provision install discovered)
      rw [VolumeProvisioner.provision]
      split
      · apply PublishesLast.call
        intro wiped
        apply propagateBlock
        intro _
        exact layOut install.disk
      · exact layOut install.disk
  | completeLayout =>
      apply PublishesLast.call
      intro added
      apply propagateBlock
      intro devices
      exact formatAndPublish appendedLayout devices _

/-- The backend alone decides which calls are made, how the program ends and
what it publishes. -/
theorem outcome
    {program : Program blockControllerSignature (Result Unit)}
    (last : PublishesLast program) (backend : Backend)
    (calls : List blockSignature.Exchange) :
    ∃ result made published, calls <+: made ∧
      ∀ order objects, State.WellKeyed objects →
        (orderedMachine order backend).Ensures
          (fun value after => value = result ∧ after.calls = made ∧
            PublishedStatuses objects after.objects published)
          program ⟨objects, calls⟩ := by
  induction last generalizing calls with
  | done result =>
      refine ⟨result, calls, none, List.prefix_rfl, ?_⟩
      intro order objects _
      exact Machine.done trivial ⟨rfl, rfl, rfl⟩
  | publish statuses =>
      refine ⟨.ok (), calls, some statuses, List.prefix_rfl, ?_⟩
      intro order objects keyed
      apply Setting.Protected.mono _ (ordered_inl
        (reconcileOwned_ensures VolumeProvisioner.owner blockNs .volumeStatus
          statuses keyed) calls)
      rintro value after ⟨made, succeeded, _, lookup⟩
      exact ⟨succeeded, made, lookup⟩
  | call call next _ induction =>
      obtain ⟨result, made, published, grows, ensures⟩ :=
        induction (backend calls call)
          (calls ++ [⟨call, backend calls call⟩])
      refine ⟨result, made, published,
        (List.prefix_append calls _).trans grows, ?_⟩
      intro order objects keyed
      apply ordered_call
      exact ensures order objects keyed

end PublishesLast

/-- The stores agree about the install disk. -/
structure SameForDisk (disk : String) (first second : ListOrder)
    (objects others : Objects) : Prop where
  status : objects.lookup ⟨blockNs, .diskStatus, leaf disk⟩ =
    others.lookup ⟨blockNs, .diskStatus, leaf disk⟩
  volumes : matching disk (first.volumes objects) =
    matching disk (second.volumes others)

/-- One pass did what the other did. -/
structure ActsAlike (objects others : Objects) (result other : Result Unit)
    (after otherAfter : PassWorld) : Prop where
  calls : after.calls = otherAfter.calls
  result : result = other
  published : ∃ statuses, PublishedStatuses objects after.objects statuses ∧
    PublishedStatuses others otherAfter.objects statuses
  statuses : ∀ id,
    objects.lookup ⟨blockNs, .volumeStatus, id⟩ =
      others.lookup ⟨blockNs, .volumeStatus, id⟩ →
    after.objects.lookup ⟨blockNs, .volumeStatus, id⟩ =
      otherAfter.objects.lookup ⟨blockNs, .volumeStatus, id⟩

/-- Whether a disk without volumes is wiped first does not depend on whether
there are volumes on other disks. -/
def WipesAlike (install : InstallSection) (objects : Objects)
    (volumes others : List DiscoveredVolume) : Prop :=
  install.wipe = true →
    objects.lookup ⟨blockNs, .diskStatus, leaf install.disk⟩ ≠ none →
    matching install.disk volumes = [] → (volumes = [] ↔ others = [])

section Alike

variable {install : InstallSection} {volumes others : List DiscoveredVolume}

theorem planProvisioning_congr
    (same : matching install.disk volumes = matching install.disk others) :
    planProvisioning install.disk install.wipe volumes =
      planProvisioning install.disk install.wipe others := by
  rw [matching, matching] at same
  simp only [planProvisioning, same]

theorem provisionedStatus_congr
    (same : matching install.disk volumes = matching install.disk others) :
    provisionedStatusFromDiscovered install.disk volumes =
      provisionedStatusFromDiscovered install.disk others := by
  have named : ∀ discovered : List DiscoveredVolume,
      (discovered.filter fun volume => volume.disk = leaf install.disk) =
        (matching install.disk discovered).filter fun volume =>
          volume.disk = leaf install.disk := by
    intro discovered
    rw [matching, List.filter_filter]
    apply List.filter_congr
    intro volume _
    by_cases onDisk : volume.disk = leaf install.disk
    · simp [onInstallDisk, onDisk]
    · simp [onDisk]
  rw [provisionedStatusFromDiscovered, provisionedStatusFromDiscovered,
    named volumes, named others, same]

theorem isEmpty_congr
    (same : matching install.disk volumes = matching install.disk others)
    (alike : matching install.disk volumes = [] →
      (volumes = [] ↔ others = [])) :
    volumes.isEmpty = others.isEmpty := by
  by_cases none : matching install.disk volumes = []
  · rw [Bool.eq_iff_iff, List.isEmpty_iff, List.isEmpty_iff]
    exact alike none
  · have first : volumes ≠ [] := by
      rintro rfl
      exact none rfl
    have second : others ≠ [] := by
      rintro rfl
      exact none same
    rw [List.isEmpty_eq_false_iff.mpr first,
      List.isEmpty_eq_false_iff.mpr second]

theorem carryOut_congr
    (same : matching install.disk volumes = matching install.disk others)
    (alike : install.wipe = true → matching install.disk volumes = [] →
      (volumes = [] ↔ others = [])) :
    VolumeProvisioner.carryOut install volumes =
      VolumeProvisioner.carryOut install others := by
  have wipes : (!volumes.isEmpty && install.wipe) =
      (!others.isEmpty && install.wipe) := by
    cases wiping : install.wipe with
    | false => simp
    | true => rw [isEmpty_congr same (alike wiping)]
  simp only [VolumeProvisioner.carryOut, VolumeProvisioner.carryOutPlan,
    planProvisioning_congr same,
    provisionedStatus_congr same, VolumeProvisioner.provision,
    VolumeProvisioner.completeLayout, wipes]

end Alike

section Reading

variable {order : ListOrder} {backend : Backend} {install : InstallSection}
  {objects : Objects} {post : Result Unit → PassWorld → Prop}

theorem reconcile_reads
    (waits : objects.lookup ⟨blockNs, .diskStatus, leaf install.disk⟩ = none →
      post (.ok ()) ⟨objects, []⟩)
    (goesOn : objects.lookup ⟨blockNs, .diskStatus, leaf install.disk⟩ ≠ none →
      (orderedMachine order backend).Ensures post
        (VolumeProvisioner.carryOut install (order.volumes objects))
        ⟨objects, []⟩) :
    (orderedMachine order backend).Ensures post
      (VolumeProvisioner.reconcile (some install)) ⟨objects, []⟩ := by
  apply ordered_op
  intro found answered
  cases answered
  cases stored : objects.lookup ⟨blockNs, .diskStatus, leaf install.disk⟩ with
  | none =>
      simp only [State.get, stored]
      exact Machine.done trivial (waits stored)
  | some status =>
      simp only [State.get, stored]
      apply ordered_op
      intro listing answered
      have accepted : Op.answer? objects
          (order.listing objects blockNs .discoveredVolume)
          (.list blockNs .discoveredVolume) =
            some (order.listing objects blockNs .discoveredVolume) :=
        if_pos (order.enumerates objects blockNs .discoveredVolume)
      rw [show listing = order.listing objects blockNs .discoveredVolume from
        Option.some.inj (answered.symm.trans accepted)]
      apply goesOn
      rw [stored]
      exact Option.some_ne_none status

theorem first_call {call : BlockCall}
    {next : Except BlockError call.Value →
      Program blockControllerSignature (Result Unit)}
    (last : ∀ answer, PublishesLast (next answer))
    (keyed : State.WellKeyed objects) :
    (orderedMachine order backend).Ensures
      (fun _ after => after.calls.head?.map Sigma.fst = some call)
      (.call (.inr call) next) ⟨objects, []⟩ := by
  apply ordered_call
  obtain ⟨result, made, published, ⟨later, grows⟩, ensures⟩ :=
    (last (backend [] call)).outcome backend [⟨call, backend [] call⟩]
  apply Setting.Protected.mono _ (ensures order objects keyed)
  rintro value after ⟨_, made, _⟩
  rw [made, ← grows]
  rfl

/-- A disk that is to be wiped and has no volumes is wiped if there are volumes
anywhere. -/
theorem first_of_blank {volumes : List DiscoveredVolume}
    (wiping : install.wipe = true)
    (blank : matching install.disk volumes = [])
    (keyed : State.WellKeyed objects) :
    (orderedMachine order backend).Ensures
      (fun _ after => after.calls.head?.map Sigma.fst =
        some (if volumes = [] then .createPartitions install.disk fixedLayout
          else .wipe install.disk))
      (VolumeProvisioner.carryOut install volumes) ⟨objects, []⟩ := by
  have provisions : planProvisioning install.disk install.wipe volumes =
      .provision := by
    rw [matching] at blank
    simp [planProvisioning, blank, wiping]
  have program : VolumeProvisioner.carryOut install volumes =
      VolumeProvisioner.provision install volumes := by
    rw [VolumeProvisioner.carryOut, provisions, VolumeProvisioner.carryOutPlan]
  rw [program, VolumeProvisioner.provision, wiping]
  by_cases none : volumes = []
  · rw [if_pos none, none]
    apply first_call _ keyed
    intro created
    apply PublishesLast.propagateBlock
    intro devices
    exact PublishesLast.formatAndPublish fixedLayout devices []
  · rw [if_neg none, if_pos (by simp [none])]
    apply first_call _ keyed
    intro wiped
    apply PublishesLast.propagateBlock
    intro _
    exact PublishesLast.layOut install.disk

end Reading

theorem publishedStatuses_congr {objects others after otherAfter : Objects}
    {statuses : Option (List ResourceObject)} {id : String}
    (published : PublishedStatuses objects after statuses)
    (otherPublished : PublishedStatuses others otherAfter statuses)
    (same : objects.lookup ⟨blockNs, .volumeStatus, id⟩ =
      others.lookup ⟨blockNs, .volumeStatus, id⟩) :
    after.lookup ⟨blockNs, .volumeStatus, id⟩ =
      otherAfter.lookup ⟨blockNs, .volumeStatus, id⟩ := by
  cases statuses with
  | none =>
      rw [show after = objects from published,
        show otherAfter = others from otherPublished]
      exact same
  | some statuses =>
      have ofType : (⟨blockNs, .volumeStatus, id⟩ : Key).ns = blockNs ∧
          (⟨blockNs, .volumeStatus, id⟩ : Key).typ = .volumeStatus :=
        ⟨rfl, rfl⟩
      rw [published, otherPublished, reconciled_of_type objects ofType,
        reconciled_of_type others ofType, same]

section Comparing

variable {install : Option InstallSection} {backend : Backend}
  {first second : ListOrder} {objects others : Objects}

theorem same_outcome (keyed : State.WellKeyed objects)
    (otherKeyed : State.WellKeyed others)
    (same : ∀ target, install = some target →
      SameForDisk target.disk first second objects others)
    (condition : ∀ target, install = some target →
      WipesAlike target objects (first.volumes objects)
        (second.volumes others)) :
    ∃ final made statuses,
      (orderedMachine first backend).Ensures
        (fun value world => value = final ∧ world.calls = made ∧
          PublishedStatuses objects world.objects statuses)
        (VolumeProvisioner.reconcile install) ⟨objects, []⟩ ∧
      (orderedMachine second backend).Ensures
        (fun value world => value = final ∧ world.calls = made ∧
          PublishedStatuses others world.objects statuses)
        (VolumeProvisioner.reconcile install) ⟨others, []⟩ := by
  cases install with
  | none =>
      exact ⟨.ok (), [], none, Machine.done trivial ⟨rfl, rfl, rfl⟩,
        Machine.done trivial ⟨rfl, rfl, rfl⟩⟩
  | some target =>
      have sameDisk := same target rfl
      by_cases missing : objects.lookup
          ⟨blockNs, .diskStatus, leaf target.disk⟩ = none
      · have otherMissing := sameDisk.status.symm.trans missing
        refine ⟨.ok (), [], none, ?_, ?_⟩
        · exact reconcile_reads (fun _ => ⟨rfl, rfl, rfl⟩)
            fun stored => (stored missing).elim
        · exact reconcile_reads (fun _ => ⟨rfl, rfl, rfl⟩)
            fun stored => (stored otherMissing).elim
      · have programs := carryOut_congr sameDisk.volumes
          fun wiping => condition target rfl wiping missing
        obtain ⟨final, made, statuses, _, ensures⟩ :=
          (PublishesLast.carryOut target (first.volumes objects)).outcome
            backend []
        refine ⟨final, made, statuses, ?_, ?_⟩
        · exact reconcile_reads (fun none => (missing none).elim)
            fun _ => ensures first objects keyed
        · apply reconcile_reads
          · intro none
            exact (missing (sameDisk.status.trans none)).elim
          · intro _
            rw [← programs]
            exact ensures second others otherKeyed

/-- On a blank disk that is to be wiped, the first call tells whether there are
volumes anywhere. -/
theorem blank_first_calls {target : InstallSection}
    (keyed : State.WellKeyed objects) (otherKeyed : State.WellKeyed others)
    (same : SameForDisk target.disk first second objects others)
    (wiping : target.wipe = true)
    (stored : objects.lookup ⟨blockNs, .diskStatus, leaf target.disk⟩ ≠ none)
    (blank : matching target.disk (first.volumes objects) = [])
    {result other : Result Unit} {after otherAfter : PassWorld}
    (returns : (orderedMachine first backend).Returns
      (VolumeProvisioner.reconcile (some target)) ⟨objects, []⟩ result after)
    (otherReturns : (orderedMachine second backend).Returns
      (VolumeProvisioner.reconcile (some target)) ⟨others, []⟩ other
      otherAfter) :
    after.calls.head?.map Sigma.fst =
        some (if first.volumes objects = [] then
          .createPartitions target.disk fixedLayout
        else .wipe target.disk) ∧
      otherAfter.calls.head?.map Sigma.fst =
        some (if second.volumes others = [] then
          .createPartitions target.disk fixedLayout
        else .wipe target.disk) := by
  have here := Machine.post_of_returns (reconcile_reads
    (fun missing => (stored missing).elim)
    fun _ => first_of_blank wiping blank keyed) returns
  have there := Machine.post_of_returns (reconcile_reads
    (fun missing => (stored (same.status.trans missing)).elim)
    fun _ => first_of_blank wiping (same.volumes.symm.trans blank)
      otherKeyed) otherReturns
  exact ⟨here, there⟩

end Comparing

/-- Passes over stores that agree about the install disk act alike, if and only
if the existence of volumes on other disks does not decide about a wipe. -/
theorem other_disks_irrelevant_iff (install : Option InstallSection)
    (backend : Backend) (first second : ListOrder) (objects others : Objects)
    (keyed : State.WellKeyed objects) (otherKeyed : State.WellKeyed others)
    (same : ∀ target, install = some target →
      SameForDisk target.disk first second objects others) :
    (∃ result after, (orderedMachine first backend).Returns
      (VolumeProvisioner.reconcile install) ⟨objects, []⟩ result after) ∧
    (∃ result after, (orderedMachine second backend).Returns
      (VolumeProvisioner.reconcile install) ⟨others, []⟩ result after) ∧
    ∀ result after other otherAfter,
      (orderedMachine first backend).Returns
        (VolumeProvisioner.reconcile install) ⟨objects, []⟩ result after →
      (orderedMachine second backend).Returns
        (VolumeProvisioner.reconcile install) ⟨others, []⟩ other otherAfter →
      (ActsAlike objects others result other after otherAfter ↔
        ∀ target, install = some target →
          WipesAlike target objects (first.volumes objects)
            (second.volumes others)) := by
  refine ⟨(orderedMachine_total first backend).returns _ _,
    (orderedMachine_total second backend).returns _ _, ?_⟩
  intro result after other otherAfter returns otherReturns
  constructor
  · rintro alike target rfl wiping stored blank
    obtain ⟨here, there⟩ := blank_first_calls keyed otherKeyed
      (same target rfl) wiping stored blank returns otherReturns
    rw [alike.calls, there, Option.some.injEq] at here
    by_cases none : first.volumes objects = []
    · by_cases otherNone : second.volumes others = []
      · exact ⟨fun _ => otherNone, fun _ => none⟩
      · rw [if_pos none, if_neg otherNone] at here
        cases here
    · by_cases otherNone : second.volumes others = []
      · rw [if_neg none, if_pos otherNone] at here
        cases here
      · exact ⟨fun empty => (none empty).elim,
          fun empty => (otherNone empty).elim⟩
  · intro condition
    obtain ⟨final, made, statuses, ensures, otherEnsures⟩ :=
      @same_outcome install backend first second objects others keyed
        otherKeyed same condition
    obtain ⟨sameResult, calls, published⟩ :=
      Machine.post_of_returns ensures returns
    obtain ⟨otherResult, otherCalls, otherPublished⟩ :=
      Machine.post_of_returns otherEnsures otherReturns
    exact ⟨calls.trans otherCalls.symm, sameResult.trans otherResult.symm,
      ⟨statuses, published, otherPublished⟩,
      fun _ => publishedStatuses_congr published otherPublished⟩

/-- Some order of each listing. -/
noncomputable def someOrder : ListOrder :=
  { listing := fun objects ns typ => (State.list objects ns typ).toList
    enumerates := fun objects ns typ =>
      (State.list objects ns typ).coe_toList }

def sdaStatus : ResourceObject :=
  (DiskDiscovery.diskObject sda).fresh

/-- A partition of another disk. -/
def sdbData : VolumeInfo :=
  { flashedEfi with device := "/dev/sdb1", disk := "sdb" }

/-- Discovery found the disk `sda`, without partitions. -/
def blankStore : Objects :=
  Finmap.singleton sdaStatus.key sdaStatus

/-- Discovery also found the partition of the other disk. -/
def besideStore : Objects :=
  Op.after blankStore (.create (DiskDiscovery.volumeObject sdbData))

theorem blankStore_wellKeyed : State.WellKeyed blankStore :=
  State.wellKeyed_singleton sdaStatus

theorem besideStore_wellKeyed : State.WellKeyed besideStore :=
  blankStore_wellKeyed.after _

theorem volumes_blankStore (order : ListOrder) :
    order.volumes blankStore = [] := by
  have listed := order.enumerates blankStore blockNs .discoveredVolume
  rw [show State.list blankStore blockNs .discoveredVolume = 0 by
    decide +kernel, Multiset.coe_eq_zero] at listed
  rw [ListOrder.volumes, listed]
  rfl

theorem volumes_besideStore (order : ListOrder) :
    order.volumes besideStore = [DiskDiscovery.discoveredVolume sdbData] := by
  have listed := order.enumerates besideStore blockNs .discoveredVolume
  rw [show State.list besideStore blockNs .discoveredVolume =
      {(DiskDiscovery.volumeObject sdbData).fresh} by decide +kernel,
    Multiset.coe_eq_singleton] at listed
  rw [ListOrder.volumes, listed]
  rfl

theorem sameForDisk_beside (order : ListOrder) :
    SameForDisk "/dev/sda" order order blankStore besideStore := by
  refine ⟨by decide +kernel, ?_⟩
  rw [volumes_blankStore, volumes_besideStore]
  decide +kernel

/-- A backend on which every call fails. -/
def deadBackend : Backend :=
  fun _ _ => .error (.io "/dev/sda" "Input/output error (os error 5)")

def keepSda : InstallSection :=
  ⟨"/dev/sda", false⟩

def wipeSda : InstallSection :=
  ⟨"/dev/sda", true⟩

/-- Without a wipe both passes refuse the disk. -/
theorem other_disks_irrelevant_refusing :
    ∃ result after other otherAfter,
      (orderedMachine someOrder deadBackend).Returns
        (VolumeProvisioner.reconcile (some keepSda)) ⟨blankStore, []⟩ result
        after ∧
      (orderedMachine someOrder deadBackend).Returns
        (VolumeProvisioner.reconcile (some keepSda)) ⟨besideStore, []⟩ other
        otherAfter ∧
      ActsAlike blankStore besideStore result other after otherAfter := by
  have same : ∀ target, some keepSda = some target →
      SameForDisk target.disk someOrder someOrder blankStore besideStore := by
    rintro target ⟨⟩
    exact sameForDisk_beside someOrder
  obtain ⟨⟨result, after, returns⟩, ⟨other, otherAfter, otherReturns⟩,
    alike⟩ := other_disks_irrelevant_iff (some keepSda) deadBackend someOrder
      someOrder blankStore besideStore blankStore_wellKeyed
      besideStore_wellKeyed same
  refine ⟨result, after, other, otherAfter, returns, otherReturns,
    (alike _ _ _ _ returns otherReturns).mpr ?_⟩
  rintro target ⟨⟩ wiping
  cases wiping

/-- With a wipe the partition of the other disk decides whether the blank disk
is wiped. -/
theorem wiped_for_other_disk :
    ∃ result after other otherAfter,
      (orderedMachine someOrder deadBackend).Returns
        (VolumeProvisioner.reconcile (some wipeSda)) ⟨blankStore, []⟩ result
        after ∧
      (orderedMachine someOrder deadBackend).Returns
        (VolumeProvisioner.reconcile (some wipeSda)) ⟨besideStore, []⟩ other
        otherAfter ∧
      SameForDisk wipeSda.disk someOrder someOrder blankStore besideStore ∧
      after.calls.head?.map Sigma.fst =
        some (.createPartitions wipeSda.disk fixedLayout) ∧
      otherAfter.calls.head?.map Sigma.fst = some (.wipe wipeSda.disk) := by
  obtain ⟨result, after, returns⟩ :=
    (orderedMachine_total someOrder deadBackend).returns
      (VolumeProvisioner.reconcile (some wipeSda)) ⟨blankStore, []⟩
  obtain ⟨other, otherAfter, otherReturns⟩ :=
    (orderedMachine_total someOrder deadBackend).returns
      (VolumeProvisioner.reconcile (some wipeSda)) ⟨besideStore, []⟩
  have same : SameForDisk wipeSda.disk someOrder someOrder blankStore
      besideStore := sameForDisk_beside someOrder
  have stored : blankStore.lookup
      ⟨blockNs, .diskStatus, leaf wipeSda.disk⟩ ≠ none := by
    decide +kernel
  have blank : matching wipeSda.disk (someOrder.volumes blankStore) = [] := by
    rw [volumes_blankStore]
    rfl
  obtain ⟨here, there⟩ := blank_first_calls blankStore_wellKeyed
    besideStore_wellKeyed same rfl stored blank returns otherReturns
  rw [if_pos (volumes_blankStore someOrder)] at here
  rw [volumes_besideStore, if_neg (List.cons_ne_nil _ _)] at there
  exact ⟨result, after, other, otherAfter, returns, otherReturns, same, here,
    there⟩

end MachinedRs
