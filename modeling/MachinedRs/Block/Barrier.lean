import MachinedRs.Block.LayoutOnce
import MachinedRs.Block.Scanned
import MachinedRs.RuntimeCore.Scope

/-!
# The discovery barrier

Discovery publishes the volumes of its scan one by one, and only then the
disks.  The provisioner reads the status of the install disk first and the
volumes afterwards, its operations falling anywhere between those of discovery.
What it hands to `planProvisioning` is never a part of the scan.
-/

namespace MachinedRs

open Foundation

/-- The volumes that the backend returned to discovery. -/
def returnedVolumes :
    blockControllerSignature.Exchange → Option (List VolumeInfo)
  | ⟨.inr .listVolumes, .ok volumes⟩ => some volumes
  | _ => none

/-- The volumes of the scan, once it has got them. -/
def scannedVolumes (log : PassLog) : Option (List VolumeInfo) :=
  log.findSome? returnedVolumes

/-- What a pass has done last. -/
def lastOperation (log : PassLog) : Option (Op ⊕ BlockCall) :=
  log.getLast?.map Sigma.fst

/-- The keys that discovery publishes. -/
def discoveryScope (key : Key) : Prop :=
  ofType blockNs .discoveredVolume key ∨ ofType blockNs .diskStatus key

/-- No disk is in the store yet. -/
def NoDisks (objects : Objects) : Prop :=
  ∀ key, ofType blockNs .diskStatus key → objects.lookup key = none

/-- The volumes in the store are those of the scan. -/
def Complete (volumes : List VolumeInfo) (objects : Objects) : Prop :=
  (volumes.map fun volume => leaf volume.device).Nodup →
    State.list objects blockNs .discoveredVolume =
      (volumes.map DiskDiscovery.stored : Multiset ResourceObject)

theorem local_noDisks : Local discoveryScope NoDisks := by
  intro objects other _ _ agree none key ofDisk
  rw [← agree key (.inr ofDisk)]
  exact none key ofDisk

theorem local_complete (volumes : List VolumeInfo) :
    Local (ofType blockNs .discoveredVolume) (Complete volumes) := by
  intro objects other keyed otherKeyed agree complete distinct
  rw [← complete distinct]
  exact agree.symm.list otherKeyed keyed fun _ inside => inside

theorem Local.mono {scope wider : Key → Prop} {property : Objects → Prop}
    (isLocal : Local scope property)
    (included : ∀ key, scope key → wider key) : Local wider property := by
  intro objects other keyed otherKeyed agree
  exact isLocal objects other keyed otherKeyed (agree.mono included)

theorem local_complete_discovery (volumes : List VolumeInfo) :
    Local discoveryScope (Complete volumes) :=
  (local_complete volumes).mono fun _ => .inl

namespace DiskDiscovery

/-- The second half of a publication. -/
def publishDisks (disks : List DiskInfo) (published : Result Unit) :
    Program stateSignature (Result Unit) :=
  Program.attempt published fun _ =>
    reconcileOwned owner blockNs .diskStatus (disks.map diskObject)

theorem nodup_keys {volumes : List VolumeInfo}
    (distinct : (volumes.map fun volume => leaf volume.device).Nodup) :
    ((volumes.map volumeObject).map ResourceObject.key).Nodup := by
  have ids : (volumes.map fun volume => leaf volume.device) =
      ((volumes.map volumeObject).map ResourceObject.key).map Key.id := by
    rw [List.map_map, List.map_map]
    rfl
  rw [ids] at distinct
  exact distinct.of_map

theorem volumeObject_ofType (volumes : List VolumeInfo) :
    ∀ object ∈ volumes.map volumeObject,
      ofType blockNs .discoveredVolume object.key := by
  intro object member
  obtain ⟨volume, _, rfl⟩ := List.mem_map.mp member
  exact ⟨rfl, rfl⟩

theorem diskObject_ofType (disks : List DiskInfo) :
    ∀ object ∈ disks.map diskObject,
      ofType blockNs .diskStatus object.key := by
  intro object member
  obtain ⟨disk, _, rfl⟩ := List.mem_map.mp member
  exact ⟨rfl, rfl⟩

theorem complete_of_publication {volumes : List VolumeInfo}
    {objects after : Objects} (afterKeyed : State.WellKeyed after)
    (unpublished : ∀ key, discoveryScope key → objects.lookup key = none)
    (distinct : (volumes.map fun volume => leaf volume.device).Nodup)
    (published : ∀ object ∈ volumes.map volumeObject,
      after.lookup object.key = some (object.withOwner owner).fresh)
    (others : ∀ key, key ∉ (volumes.map volumeObject).map
      ResourceObject.key → after.lookup key = objects.lookup key) :
    State.list after blockNs .discoveredVolume =
      (volumes.map stored : Multiset ResourceObject) := by
  apply State.list_eq afterKeyed
  · have keys : (volumes.map stored).map ResourceObject.key =
        (volumes.map volumeObject).map ResourceObject.key := by
      rw [List.map_map, List.map_map]
      rfl
    have nodup := nodup_keys distinct
    rw [← keys] at nodup
    exact nodup.of_map
  · intro object member
    obtain ⟨volume, found, rfl⟩ := List.mem_map.mp member
    exact ⟨published (volumeObject volume) (List.mem_map_of_mem found),
      rfl, rfl⟩
  · intro key object found ofNs ofTyp
    by_cases member : key ∈ (volumes.map volumeObject).map ResourceObject.key
    · obtain ⟨desired, isDesired, rfl⟩ := List.mem_map.mp member
      rw [published desired isDesired] at found
      cases found
      obtain ⟨volume, scanned, rfl⟩ := List.mem_map.mp isDesired
      exact List.mem_map_of_mem scanned
    · rw [others key member, unpublished key (.inl ⟨ofNs, ofTyp⟩)] at found
      cases found

/-- While discovery publishes its volumes, no disk is in the store; when it has
published them, they are all there. -/
theorem content_protected (volumes : List VolumeInfo) {objects : Objects}
    (keyed : State.WellKeyed objects)
    (unpublished : ∀ key, discoveryScope key → objects.lookup key = none) :
    (scopedSetting discoveryScope NoDisks).Protected
      (fun result after => result = .ok () ∧ Complete volumes after)
      (reconcileOwned owner blockNs .discoveredVolume
        (volumes.map volumeObject)) objects := by
  have within := reconcileOwned_within owner (volumeObject_ofType volumes)
  have quiet : (storeMachine.alone NoDisks).Protected (fun _ _ => True)
      (reconcileOwned owner blockNs .discoveredVolume
        (volumes.map volumeObject)) objects := by
    apply Machine.weaken _
      (protected_outside within keyed (Agree.refl _ objects))
    rintro after ⟨_, agree⟩ key ofDisk
    rw [← agree key, unpublished key (.inr ofDisk)]
    intro ofVolume
    have impossible := ofVolume.2.symm.trans ofDisk.2
    cases impossible
  apply protected_scoped local_noDisks
  · intro result objects other keyed otherKeyed agree finished
    exact ⟨finished.1, local_complete_discovery volumes objects other keyed
      otherKeyed agree finished.2⟩
  · exact within.mono fun _ inside => inside.mono fun _ => .inl
  · exact keyed
  · by_cases distinct :
        (volumes.map fun volume => leaf volume.device).Nodup
    · have fresh := reconcileOwned_fresh owner keyed (nodup_keys distinct)
        (volumeObject_ofType volumes) fun key ofNs ofTyp =>
          unpublished key (.inl ⟨ofNs, ofTyp⟩)
      apply Setting.Protected.mono _ (fresh.with quiet)
      rintro result after ⟨⟨succeeded, afterKeyed, published, others⟩, _⟩
      refine ⟨succeeded, ?_⟩
      intro _
      exact complete_of_publication afterKeyed unpublished distinct
        published others
    · have succeeds := reconcileOwned_ensures owner blockNs .discoveredVolume
        (volumes.map volumeObject) keyed
      apply Setting.Protected.mono _ (succeeds.with quiet)
      rintro result after ⟨⟨succeeded, _⟩, _⟩
      exact ⟨succeeded, fun isDistinct => (distinct isDistinct).elim⟩

theorem status_protected (disks : List DiskInfo)
    {volumes : List VolumeInfo} {objects : Objects}
    (keyed : State.WellKeyed objects) (complete : Complete volumes objects) :
    (scopedSetting discoveryScope (Complete volumes)).Protected
      (fun _ _ => True)
      (reconcileOwned owner blockNs .diskStatus (disks.map diskObject))
      objects := by
  have within := reconcileOwned_within owner (diskObject_ofType disks)
  apply protected_scoped (local_complete_discovery volumes)
  · intro _ _ _ _ _ _ _
    exact trivial
  · exact within.mono fun _ inside => inside.mono fun _ => .inr
  · exact keyed
  · apply Machine.weaken _
      (protected_outside within keyed (Agree.refl _ objects))
    rintro after ⟨afterKeyed, agree⟩
    apply local_complete volumes objects after keyed afterKeyed _ complete
    apply agree.mono
    intro key ofVolume ofDisk
    have impossible := ofVolume.2.symm.trans ofDisk.2
    cases impossible

end DiskDiscovery

/-- Discovery has published its volumes and leaves them alone from now on. -/
def Published (objects : Objects)
    (program : Program blockControllerSignature (Result Unit))
    (volumes : List VolumeInfo) : Prop :=
  ∃ rest : Program stateSignature (Result Unit), program = rest.inl ∧
    (scopedSetting discoveryScope (Complete volumes)).Protected
      (fun _ _ => True) rest objects

/-- How far discovery has come, seen from its program, the volumes it has got
and the store. -/
inductive Stage (objects : Objects) :
    Program blockControllerSignature (Result Unit) →
      Option (List VolumeInfo) → Prop where
  | starts (unpublished : ∀ key, discoveryScope key →
        objects.lookup key = none) :
      Stage objects DiskDiscovery.reconcile none
  | scans (disks : List DiskInfo)
      (unpublished : ∀ key, discoveryScope key →
        objects.lookup key = none) :
      Stage objects
        (.call (.inr .listVolumes) fun volumes =>
          propagateBlock volumes fun volumes =>
            (DiskDiscovery.publish disks volumes).inl) none
  | fails (error : Error)
      (unpublished : ∀ key, discoveryScope key →
        objects.lookup key = none) :
      Stage objects (.done (.error error)) none
  | content {rest : Program stateSignature (Result Unit)}
      {volumes : List VolumeInfo} (disks : List DiskInfo)
      (safe : (scopedSetting discoveryScope NoDisks).Protected
        (fun result after => result = .ok () ∧ Complete volumes after)
        rest objects) :
      Stage objects (rest.bind (DiskDiscovery.publishDisks disks)).inl
        (some volumes)
  | published {program : Program blockControllerSignature (Result Unit)}
      {volumes : List VolumeInfo}
      (done : Published objects program volumes) :
      Stage objects program (some volumes)

theorem scannedVolumes_append (log : PassLog)
    (exchange : blockControllerSignature.Exchange) :
    scannedVolumes (log ++ [exchange]) =
      (scannedVolumes log).or (returnedVolumes exchange) := by
  rw [scannedVolumes, List.findSome?_append, List.findSome?_singleton]
  rfl

theorem Pass.step_cases {objects after : Objects} {pass next : Pass}
    {choice : Choice}
    (stepped : pass.step objects choice = some (next, after)) :
    (∃ operation rest answer, pass.program = .call (.inl operation) rest ∧
      operation.answer? objects choice.listing = some answer ∧
      after = operation.after objects ∧ next.program = rest answer ∧
      next.log = pass.log ++ [⟨.inl operation, answer⟩]) ∨
    ∃ call rest answer, pass.program = .call (.inr call) rest ∧
      after = objects ∧ next.program = rest answer ∧
      next.log = pass.log ++ [⟨.inr call, answer⟩] := by
  obtain ⟨program, outbox, log⟩ := pass
  cases outbox with
  | cons event events => cases stepped
  | nil =>
      cases program with
      | done value => cases stepped
      | call operation rest =>
          cases operation with
          | inl operation =>
              obtain ⟨answer, answered, equality⟩ :=
                Option.map_eq_some_iff.mp stepped
              cases equality
              exact .inl ⟨operation, rest, answer, rfl, answered, rfl, rfl,
                rfl⟩
          | inr call =>
              cases stepped
              exact .inr ⟨call, rest, _, rfl, rfl, rfl, rfl⟩

theorem Pass.step_of_call {objects after : Objects} {pass next : Pass}
    {choice : Choice} {call : BlockCall}
    {rest : Except BlockError call.Value →
      Program blockControllerSignature (Result Unit)}
    (shape : pass.program = .call (.inr call) rest)
    (stepped : pass.step objects choice = some (next, after)) :
    ∃ answer, after = objects ∧ next.program = rest answer ∧
      next.log = pass.log ++ [⟨.inr call, answer⟩] := by
  rcases pass.step_cases stepped with
    ⟨operation, goesOn, answer, other, _⟩ |
    ⟨called, goesOn, answer, same, kept, nextProgram, log⟩
  · rw [shape] at other
    cases other
  · rw [shape] at same
    cases same
    exact ⟨answer, kept, nextProgram, log⟩

section Discovery

variable {objects after : Objects} {volumes : List VolumeInfo}

theorem Published.interfere
    {program : Program blockControllerSignature (Result Unit)}
    (published : Published objects program volumes)
    (agree : Agree discoveryScope objects after)
    (keyed : State.WellKeyed after) : Published after program volumes := by
  obtain ⟨rest, shape, safe⟩ := published
  exact ⟨rest, shape, safe.interfere ⟨agree, fun _ => keyed⟩⟩

theorem Published.complete
    {program : Program blockControllerSignature (Result Unit)}
    (published : Published objects program volumes) :
    Complete volumes objects := by
  obtain ⟨rest, _, safe⟩ := published
  exact safe.holds

theorem Published.step {pass next : Pass} {choice : Choice}
    (published : Published objects pass.program volumes)
    (stepped : pass.step objects choice = some (next, after)) :
    Published after next.program volumes := by
  obtain ⟨rest, shape, safe⟩ := published
  rcases pass.step_cases stepped with
    ⟨operation, goesOn, answer, program, answered, rfl, nextProgram, _⟩ |
    ⟨call, goesOn, answer, program, _⟩
  · rw [shape] at program
    cases rest with
    | done value => cases program
    | call first later =>
        cases program
        refine ⟨later answer, nextProgram, ?_⟩
        exact safe.advance ⟨⟨choice.listing, answered⟩, rfl⟩
  · rw [shape] at program
    cases rest with
    | done value => cases program
    | call first later => cases program

theorem Stage.interfere
    {program : Program blockControllerSignature (Result Unit)}
    {scan : Option (List VolumeInfo)} (stage : Stage objects program scan)
    (agree : Agree discoveryScope objects after)
    (keyed : State.WellKeyed after) : Stage after program scan := by
  have stillUnpublished :
      (∀ key, discoveryScope key → objects.lookup key = none) →
      ∀ key, discoveryScope key → after.lookup key = none := by
    intro unpublished key inside
    rw [← agree key inside]
    exact unpublished key inside
  cases stage with
  | starts unpublished => exact .starts (stillUnpublished unpublished)
  | scans disks unpublished =>
      exact .scans disks (stillUnpublished unpublished)
  | fails error unpublished =>
      exact .fails error (stillUnpublished unpublished)
  | content disks safe =>
      exact .content disks (safe.interfere ⟨agree, fun _ => keyed⟩)
  | published done => exact .published (done.interfere agree keyed)

theorem scannedVolumes_of_published {pass next : Pass} {choice : Choice}
    (published : scannedVolumes pass.log = some volumes)
    (stepped : pass.step objects choice = some (next, after)) :
    scannedVolumes next.log = some volumes := by
  obtain ⟨operation, rest, answer, _, _, log⟩ := Pass.step_spec stepped
  rw [log, scannedVolumes_append, published]
  rfl

theorem Stage.step {pass next : Pass} {choice : Choice}
    (keyed : State.WellKeyed objects)
    (stage : Stage objects pass.program (scannedVolumes pass.log))
    (stepped : pass.step objects choice = some (next, after)) :
    Stage after next.program (scannedVolumes next.log) := by
  generalize programEquality : pass.program = program at stage
  generalize scanEquality : scannedVolumes pass.log = scan at stage
  cases stage with
  | starts unpublished =>
      obtain ⟨answer, rfl, nextProgram, log⟩ :=
        pass.step_of_call programEquality stepped
      rw [log, scannedVolumes_append, scanEquality, nextProgram]
      cases answer with
      | error error => exact .fails _ unpublished
      | ok disks => exact .scans disks unpublished
  | scans disks unpublished =>
      obtain ⟨answer, rfl, nextProgram, log⟩ :=
        pass.step_of_call programEquality stepped
      rw [log, scannedVolumes_append, scanEquality, nextProgram]
      cases answer with
      | error error => exact .fails _ unpublished
      | ok volumes =>
          exact .content disks
            (DiskDiscovery.content_protected volumes keyed unpublished)
  | fails error unpublished =>
      obtain ⟨operation, rest, answer, shape, _⟩ := Pass.step_spec stepped
      rw [programEquality] at shape
      cases shape
  | @content rest volumes disks safe =>
      rw [scannedVolumes_of_published scanEquality stepped]
      cases rest with
      | done value =>
          obtain ⟨succeeded, complete⟩ := safe.finished
          subst succeeded
          refine .published (Published.step ?_ stepped)
          exact ⟨_, programEquality,
            DiskDiscovery.status_protected disks keyed complete⟩
      | call first later =>
          rcases pass.step_cases stepped with
            ⟨operation, goesOn, answer, shape, answered, rfl, nextProgram,
              _⟩ |
            ⟨call, goesOn, answer, shape, _⟩
          · rw [programEquality] at shape
            cases shape
            rw [nextProgram]
            exact .content disks
              (safe.advance ⟨⟨choice.listing, answered⟩, rfl⟩)
          · rw [programEquality] at shape
            cases shape
  | published done =>
      rw [scannedVolumes_of_published scanEquality stepped]
      rw [← programEquality] at done
      exact .published (done.step stepped)

theorem Stage.published_of_disk
    {program : Program blockControllerSignature (Result Unit)}
    {scan : Option (List VolumeInfo)}
    (stage : Stage objects program scan) {key : Key}
    (ofDisk : ofType blockNs .diskStatus key) {status : ResourceObject}
    (found : objects.lookup key = some status) :
    ∃ volumes, scan = some volumes ∧ Published objects program volumes := by
  have missing : objects.lookup key ≠ none := by
    rw [found]
    exact Option.some_ne_none status
  cases stage with
  | starts unpublished => exact (missing (unpublished key (.inr ofDisk))).elim
  | scans disks unpublished =>
      exact (missing (unpublished key (.inr ofDisk))).elim
  | fails error unpublished =>
      exact (missing (unpublished key (.inr ofDisk))).elim
  | content disks safe => exact (missing (safe.holds key ofDisk)).elim
  | published done => exact ⟨_, rfl, done⟩

end Discovery

theorem Complete.listed {objects : Objects} {volumes : List VolumeInfo}
    (complete : Complete volumes objects) {listing : List ResourceObject}
    (enumerates : (listing : Multiset ResourceObject) =
      State.list objects blockNs .discoveredVolume)
    (distinct : (volumes.map fun volume => leaf volume.device).Nodup) :
    (VolumeProvisioner.discoveredSpecs listing).Perm
      (volumes.map DiskDiscovery.discoveredVolume) := by
  rw [complete distinct] at enumerates
  have perm := Multiset.coe_eq_coe.mp enumerates
  rw [← DiskDiscovery.discoveredSpecs_stored volumes]
  exact perm.filterMap _

/-- Among the answers of a block controller only listings matter. -/
def blockFits : (operation : blockControllerSignature.Op) →
    blockControllerSignature.Answer operation → Prop
  | .inl operation, answer => operation.Fits answer
  | .inr _, _ => True

/-- After reading the volumes the provisioner works on the volume statuses and
on the backend. -/
def PlanOp : blockControllerSignature.Op → Prop
  | .inl operation => operation.Within (ofType blockNs .volumeStatus)
  | .inr _ => True

namespace VolumeProvisioner

theorem onlyGiven_inl {α : Type} {program : Program stateSignature α}
    (within : program.OnlyGiven Op.Fits
      (Op.Within (ofType blockNs .volumeStatus))) :
    (program.inl : Program blockControllerSignature α).OnlyGiven blockFits
      PlanOp := by
  induction program with
  | done value => exact trivial
  | call operation next induction =>
      refine ⟨within.1, ?_⟩
      intro answer fits
      exact induction answer (within.2 answer fits)

theorem planOp_attempt {α β : Type} {answer : Result α}
    {next : α → Program blockControllerSignature (Result β)}
    (goesOn : ∀ value, (next value).OnlyGiven blockFits PlanOp) :
    (Program.attempt answer next).OnlyGiven blockFits PlanOp := by
  cases answer with
  | ok value => exact goesOn value
  | error error => exact trivial

theorem planOp_publish {statuses : List ResourceObject}
    (typed : ∀ status ∈ statuses,
      ofType blockNs .volumeStatus status.key) :
    (publish statuses).OnlyGiven blockFits PlanOp :=
  onlyGiven_inl (reconcileOwned_within owner typed)

theorem ofType_provisionedStatus (disk : String)
    (discovered : List DiscoveredVolume) :
    ∀ status ∈ provisionedStatusFromDiscovered disk discovered,
      ofType blockNs .volumeStatus status.key := by
  intro status member
  obtain ⟨volume, _, rfl⟩ := List.mem_map.mp member
  exact ⟨rfl, rfl⟩

theorem planOp_formatAndPublish (pairs : List (PartitionPlan × String))
    {statuses : List ResourceObject}
    (typed : ∀ status ∈ statuses,
      ofType blockNs .volumeStatus status.key) :
    ((formatAll pairs statuses).bind fun formatted =>
      Program.attempt formatted publish).OnlyGiven blockFits PlanOp := by
  induction pairs generalizing statuses with
  | nil => exact planOp_publish typed
  | cons pair pairs induction =>
      refine ⟨trivial, ?_⟩
      intro formatted _
      cases formatted with
      | error error => exact trivial
      | ok value =>
          apply induction
          intro status member
          rcases List.mem_append.mp member with earlier | last
          · exact typed status earlier
          · rw [List.mem_singleton.mp last]
            exact ⟨rfl, rfl⟩

theorem planOp_carryOut (install : InstallSection)
    (discovered : List DiscoveredVolume) :
    (carryOut install discovered).OnlyGiven blockFits PlanOp := by
  have layOut : (layOut install.disk).OnlyGiven blockFits PlanOp := by
    refine ⟨trivial, ?_⟩
    intro created _
    apply planOp_attempt
    intro devices
    apply planOp_formatAndPublish
    intro status member
    cases member
  unfold carryOut carryOutPlan
  split
  · exact trivial
  · exact planOp_publish (ofType_provisionedStatus _ _)
  · unfold provision
    split
    · refine ⟨trivial, ?_⟩
      intro wiped _
      apply planOp_attempt
      intro _
      exact layOut
    · exact layOut
  · refine ⟨trivial, ?_⟩
    intro added _
    apply planOp_attempt
    intro devices
    exact planOp_formatAndPublish _ (ofType_provisionedStatus _ _)

end VolumeProvisioner

namespace Boot

/-- Where a pass of the provisioner is: before the barrier, between the barrier
and the volumes, or past both. -/
inductive Gate (install : InstallSection) (objects : Objects)
    (discovery pass : Pass) : Prop where
  | before (shape : pass.program = VolumeProvisioner.reconcile (some install))
  | between {volumes : List VolumeInfo}
      (shape : pass.program =
        .call (.inl (.list blockNs .discoveredVolume)) fun listing =>
          VolumeProvisioner.carryOut install
            (VolumeProvisioner.discoveredSpecs listing))
      (scanned : scannedVolumes discovery.log = some volumes)
      (published : Published objects discovery.program volumes)
  | after (only : pass.program.OnlyGiven blockFits PlanOp)

/-- What every step keeps. -/
structure Gated (install : InstallSection) (boot : Boot) : Prop where
  keyed : State.WellKeyed boot.objects
  stage : Stage boot.objects boot.discovery.program
    (scannedVolumes boot.discovery.log)
  present : ∀ pass, boot.loop.phase = .reconciling pass →
    Gate install boot.objects boot.discovery pass

variable {install : InstallSection} {boot next : Boot}

theorem Gated.discovery (gated : boot.Gated install) {choice : Choice}
    (stepped : boot.step install (.discovery choice) = some next) :
    next.Gated install := by
  obtain ⟨⟨pass, objects⟩, passed, rfl⟩ := Option.map_eq_some_iff.mp stepped
  have keyed : State.WellKeyed objects := by
    rcases boot.discovery.step_cases passed with
      ⟨operation, _, _, _, _, rfl, _⟩ | ⟨_, _, _, _, rfl, _⟩
    · exact gated.keyed.after operation
    · exact gated.keyed
  refine ⟨keyed, gated.stage.step gated.keyed passed, ?_⟩
  intro provisioner phase
  cases gated.present provisioner phase with
  | before shape => exact .before shape
  | between shape scanned published =>
      exact .between shape (scannedVolumes_of_published scanned passed)
        (published.step passed)
  | after only => exact .after only

theorem Gated.before (gated : boot.Gated install) {pass nextPass : Pass}
    {objects : Objects} {choice : Choice}
    (shape : pass.program = VolumeProvisioner.reconcile (some install))
    (passed : pass.step boot.objects choice = some (nextPass, objects)) :
    objects = boot.objects ∧
      Gate install boot.objects boot.discovery nextPass := by
  rcases pass.step_cases passed with
    ⟨operation, goesOn, answer, program, answered, rfl, nextProgram, _⟩ |
    ⟨call, goesOn, answer, program, _⟩
  · rw [shape] at program
    cases program
    cases answered
    refine ⟨rfl, ?_⟩
    generalize keyEquality :
      (⟨blockNs, .diskStatus, leaf install.disk⟩ : Key) = key at nextProgram
    have ofDisk : ofType blockNs .diskStatus key := by
      rw [← keyEquality]
      exact ⟨rfl, rfl⟩
    cases found : boot.objects.lookup key with
    | none =>
        rw [State.get, found] at nextProgram
        refine .after ?_
        rw [nextProgram]
        exact trivial
    | some status =>
        rw [State.get, found] at nextProgram
        obtain ⟨volumes, scanned, published⟩ :=
          gated.stage.published_of_disk ofDisk found
        exact .between nextProgram scanned published
  · rw [shape] at program
    cases program

/-- A pass past the barrier reads the volumes of the scan and plans with
them. -/
theorem between_step {pass nextPass : Pass} {objects after : Objects}
    {choice : Choice} {volumes : List VolumeInfo}
    (shape : pass.program =
      .call (.inl (.list blockNs .discoveredVolume)) fun listing =>
        VolumeProvisioner.carryOut install
          (VolumeProvisioner.discoveredSpecs listing))
    (complete : Complete volumes objects)
    (passed : pass.step objects choice = some (nextPass, after)) :
    after = objects ∧ ∃ listing,
      nextPass.program = VolumeProvisioner.carryOut install
        (VolumeProvisioner.discoveredSpecs listing) ∧
      ((volumes.map fun volume => leaf volume.device).Nodup →
        (VolumeProvisioner.discoveredSpecs listing).Perm
          (volumes.map DiskDiscovery.discoveredVolume)) := by
  rcases pass.step_cases passed with
    ⟨operation, goesOn, answer, program, answered, rfl, nextProgram, _⟩ |
    ⟨call, goesOn, answer, program, _⟩
  · rw [shape] at program
    cases program
    obtain ⟨enumerates, same⟩ := Option.ite_none_right_eq_some.mp answered
    cases same
    exact ⟨rfl, _, nextProgram, complete.listed enumerates⟩
  · rw [shape] at program
    cases program

theorem Gated.after (gated : boot.Gated install) {pass nextPass : Pass}
    {objects : Objects} {choice : Choice}
    (only : pass.program.OnlyGiven blockFits PlanOp)
    (passed : pass.step boot.objects choice = some (nextPass, objects)) :
    State.WellKeyed objects ∧ Agree discoveryScope boot.objects objects ∧
      nextPass.program.OnlyGiven blockFits PlanOp := by
  rcases pass.step_cases passed with
    ⟨operation, goesOn, answer, program, answered, rfl, nextProgram, _⟩ |
    ⟨call, goesOn, answer, program, rfl, nextProgram, _⟩
  · rw [program] at only
    have within : operation.Within (ofType blockNs .volumeStatus) := only.1
    refine ⟨gated.keyed.after operation, ?_, ?_⟩
    · apply (within.writes.outside boot.objects).mono
      rintro key (ofVolume | ofDisk) ofStatus
      · cases ofVolume.2.symm.trans ofStatus.2
      · cases ofDisk.2.symm.trans ofStatus.2
    · rw [nextProgram]
      exact only.2 answer (Op.fits_of_answer? answered)
  · rw [program] at only
    refine ⟨gated.keyed, Agree.refl _ _, ?_⟩
    rw [nextProgram]
    exact only.2 answer trivial

theorem Gated.pass (gated : boot.Gated install) {choice : Choice}
    (stepped : boot.step install (.pass choice) = some next) :
    next.Gated install := by
  simp only [step] at stepped
  split at stepped
  · rename_i pass phase
    obtain ⟨⟨nextPass, objects⟩, passed, rfl⟩ :=
      Option.map_eq_some_iff.mp stepped
    have onlyPass : ∀ other,
        (LoopPhase.reconciling nextPass : LoopPhase Pass) =
          .reconciling other → other = nextPass := by
      intro other same
      cases same
      rfl
    cases gated.present pass phase with
    | before shape =>
        obtain ⟨rfl, gate⟩ := gated.before shape passed
        refine ⟨gated.keyed, gated.stage, ?_⟩
        intro other inPhase
        rw [onlyPass other inPhase]
        exact gate
    | between shape scanned published =>
        obtain ⟨rfl, listing, program, _⟩ :=
          between_step shape published.complete passed
        refine ⟨gated.keyed, gated.stage, ?_⟩
        intro other inPhase
        rw [onlyPass other inPhase]
        refine .after ?_
        rw [program]
        exact VolumeProvisioner.planOp_carryOut install _
    | after only =>
        obtain ⟨keyed, agree, nextOnly⟩ := gated.after only passed
        refine ⟨keyed, gated.stage.interfere agree keyed, ?_⟩
        intro other inPhase
        rw [onlyPass other inPhase]
        exact .after nextOnly
  · cases stepped

theorem Gated.emits (gated : boot.Gated install) {loop : Loop Pass}
    {discovery : Pass} {sent : List Event}
    (discoveryProgram : discovery.program = boot.discovery.program)
    (discoveryLog : discovery.log = boot.discovery.log)
    (present : ∀ pass, loop.phase = .reconciling pass →
      ∃ before, boot.loop.phase = .reconciling before ∧
        pass.program = before.program) :
    Gated install { boot with
      discovery := discovery, loop := loop, sent := sent } := by
  refine ⟨gated.keyed, ?_, ?_⟩
  · rw [discoveryProgram, discoveryLog]
    exact gated.stage
  · intro pass phase
    obtain ⟨before, beforePhase, program⟩ := present pass phase
    cases gated.present before beforePhase with
    | before shape =>
        rw [← program] at shape
        exact .before shape
    | between shape scanned published =>
        rw [← program] at shape
        rw [← discoveryLog] at scanned
        rw [← discoveryProgram] at published
        exact .between shape scanned published
    | after only =>
        rw [← program] at only
        exact .after only

theorem Gated.discoveryEmit (gated : boot.Gated install)
    (stepped : boot.step install .discoveryEmit = some next) :
    next.Gated install := by
  obtain ⟨⟨pass, event⟩, emitted, rfl⟩ := Option.map_eq_some_iff.mp stepped
  obtain ⟨program, log⟩ := Pass.emit_spec emitted
  exact gated.emits program log fun before phase => ⟨before, phase, rfl⟩

theorem Gated.passEmit (gated : boot.Gated install)
    (stepped : boot.step install .passEmit = some next) :
    next.Gated install := by
  simp only [step] at stepped
  split at stepped
  · rename_i pass phase
    obtain ⟨⟨nextPass, event⟩, emitted, rfl⟩ :=
      Option.map_eq_some_iff.mp stepped
    obtain ⟨program, _⟩ := Pass.emit_spec emitted
    apply gated.emits rfl rfl
    intro other same
    cases same
    exact ⟨pass, phase, program⟩
  · cases stepped

theorem Gated.loop (gated : boot.Gated install) {move : LoopMove}
    (stepped : boot.step install (.loop move) = some next) :
    next.Gated install := by
  obtain ⟨following, moved, rfl⟩ := Option.map_eq_some_iff.mp stepped
  refine ⟨gated.keyed, gated.stage, ?_⟩
  intro pass phase
  obtain ⟨objects, sent, discovery, previous, passes⟩ := boot
  cases Loop.step_spec moved with
  | begins beginning due =>
      cases phase
      exact .before rfl
  | drains quiet before after within =>
      rcases after with rfl | rfl
      · cases phase
      · cases phase
  | _ => cases phase

theorem Gated.step (gated : boot.Gated install) {move : BootMove}
    (stepped : boot.step install move = some next) :
    next.Gated install := by
  cases move with
  | discovery choice => exact gated.discovery stepped
  | discoveryEmit => exact gated.discoveryEmit stepped
  | loop move => exact gated.loop stepped
  | pass choice => exact gated.pass stepped
  | passEmit => exact gated.passEmit stepped

theorem gated_start (install : InstallSection) : start.Gated install := by
  refine ⟨State.wellKeyed_empty, ?_, ?_⟩
  · apply Stage.starts
    intro key _
    exact Finmap.lookup_empty key
  · intro pass phase
    cases phase

theorem gated_of_reachable (reachable : (bootSystem install).Reachable boot) :
    boot.Gated install := by
  apply reachable.invariant
  · intro start initial
    rw [show start = _ from initial]
    exact gated_start install
  · intro state move next stepped gated
    exact gated.step stepped

theorem Gated.between_of_listed (gated : boot.Gated install)
    {pass nextPass : Pass} (phase : boot.loop.phase = .reconciling pass)
    {choice : Choice} {objects : Objects}
    (passed : pass.step boot.objects choice = some (nextPass, objects))
    (listed : lastOperation nextPass.log =
      some (.inl (.list blockNs .discoveredVolume))) :
    ∃ volumes, scannedVolumes boot.discovery.log = some volumes ∧
      Complete volumes boot.objects ∧ pass.program =
        .call (.inl (.list blockNs .discoveredVolume)) fun listing =>
          VolumeProvisioner.carryOut install
            (VolumeProvisioner.discoveredSpecs listing) := by
  obtain ⟨operation, rest, answer, program, _, log⟩ := Pass.step_spec passed
  rw [lastOperation, log, List.getLast?_concat] at listed
  cases show operation = _ from Option.some.inj listed
  cases gated.present pass phase with
  | before shape =>
      rw [shape] at program
      cases program
  | between shape scanned published =>
      exact ⟨_, scanned, published.complete, shape⟩
  | after only =>
      rw [program] at only
      have within : (Op.list blockNs .discoveredVolume).Within
          (ofType blockNs .volumeStatus) := only.1
      have impossible := (within ⟨blockNs, .discoveredVolume, ""⟩
        ⟨rfl, rfl⟩).2
      cases impossible

end Boot

/-- In every boot, whatever the order in which discovery and the provisioner
take their steps: when a pass lists the volumes, what is left of it is to carry
out the plan for exactly the volumes of the scan. -/
theorem planned_volumes_are_scanned (install : InstallSection)
    {boot next : Boot} (reachable : (bootSystem install).Reachable boot)
    {choice : Choice}
    (stepped : (bootSystem install).step boot (.pass choice) = some next)
    {pass nextPass : Pass} (before : boot.loop.phase = .reconciling pass)
    (after : next.loop.phase = .reconciling nextPass)
    (listed : lastOperation nextPass.log =
      some (.inl (.list blockNs .discoveredVolume))) :
    ∃ planned volumes,
      nextPass.program = VolumeProvisioner.carryOutPlan install planned
        (planProvisioning install.disk install.wipe planned) ∧
      scannedVolumes boot.discovery.log = some volumes ∧
      ((volumes.map fun volume => leaf volume.device).Nodup →
        planned.Perm (volumes.map DiskDiscovery.discoveredVolume)) := by
  have gated := Boot.gated_of_reachable reachable
  change boot.step install (.pass choice) = some next at stepped
  simp only [Boot.step, before] at stepped
  obtain ⟨⟨stepped, objects⟩, passed, rfl⟩ := Option.map_eq_some_iff.mp stepped
  cases after
  obtain ⟨volumes, scanned, complete, shape⟩ :=
    gated.between_of_listed before passed listed
  obtain ⟨_, listing, program, perm⟩ :=
    Boot.between_step shape complete passed
  exact ⟨_, volumes, program, scanned, perm⟩

/-- A data partition next to the image's. -/
def flashedData : VolumeInfo :=
  { flashedEfi with device := "/dev/sda2", partitionLabel := "DATA" }

/-- The backend's answers, and the volumes in the order they are listed. -/
def flashedReply : Reply :=
  ⟨none, [sda], [flashedEfi, flashedData], []⟩

def flashedListing : List ResourceObject :=
  [flashedData, flashedEfi].map DiskDiscovery.stored

/-- The first pass reads while discovery has published one of two volumes; the
second passes the barrier while discovery is about to collect old disks. -/
def readDuringPublication : List BootMove :=
  let step : BootMove := .discovery ⟨[], flashedReply⟩
  [.loop .watch, .loop .reconcileBegins, step, step, step, step,
    .discoveryEmit, .pass ⟨[], flashedReply⟩, .loop .reconcileEnds, step,
    step, .discoveryEmit, .discovery ⟨flashedListing, flashedReply⟩, step,
    step, .discoveryEmit, .loop .recv, .loop .debounced, .loop .tryRecv,
    .loop .tryRecv, .loop .tryRecv, .loop .reconcileBegins,
    .pass ⟨[], flashedReply⟩]

theorem Boot.reconciling_of_present {boot : Boot} {α : Type}
    {read : PassLog → α} {value : α}
    (present : boot.present.map read = [value]) :
    ∃ pass, boot.loop.phase = .reconciling pass ∧ read pass.log = value := by
  unfold Boot.present at present
  split at present
  · rename_i pass phase
    exact ⟨pass, phase, List.singleton_inj.mp present⟩
  · cases present

theorem planned_volumes_are_scanned_duringPublication :
    ∃ boot next nextPass planned,
      (bootSystem ⟨"/dev/sda", false⟩).run Boot.start
        readDuringPublication = some boot ∧
      (bootSystem ⟨"/dev/sda", false⟩).step boot
        (.pass ⟨flashedListing, flashedReply⟩) = some next ∧
      next.loop.phase = .reconciling nextPass ∧
      nextPass.program = VolumeProvisioner.carryOutPlan ⟨"/dev/sda", false⟩
        planned (planProvisioning "/dev/sda" false planned) ∧
      planned.Perm ([flashedEfi, flashedData].map
        DiskDiscovery.discoveredVolume) := by
  have computed : ((bootSystem ⟨"/dev/sda", false⟩).run Boot.start
      readDuringPublication).bind (fun boot =>
        ((bootSystem ⟨"/dev/sda", false⟩).step boot
          (.pass ⟨flashedListing, flashedReply⟩)).map fun next =>
            decide (boot.present.map List.length = [1] ∧
              next.present.map lastOperation =
                [some (.inl (.list blockNs .discoveredVolume))] ∧
              scannedVolumes boot.discovery.log =
                some [flashedEfi, flashedData])) = some true := by
    decide +kernel
  obtain ⟨boot, ran, computed⟩ := Option.bind_eq_some_iff.mp computed
  obtain ⟨next, stepped, found⟩ := Option.map_eq_some_iff.mp computed
  obtain ⟨present, following, scan⟩ := of_decide_eq_true found
  obtain ⟨pass, before, _⟩ := Boot.reconciling_of_present present
  obtain ⟨nextPass, after, listed⟩ := Boot.reconciling_of_present following
  obtain ⟨planned, volumes, program, scanned, perm⟩ :=
    planned_volumes_are_scanned _ ⟨Boot.start, readDuringPublication, rfl, ran⟩
      stepped before after listed
  refine ⟨boot, next, nextPass, planned, ran, stepped, after, program, ?_⟩
  have same : volumes = [flashedEfi, flashedData] :=
    Option.some.inj (scanned.symm.trans scan)
  subst same
  exact perm (by decide)

end MachinedRs
