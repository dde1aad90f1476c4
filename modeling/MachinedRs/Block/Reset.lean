import MachinedRs.Block.Barrier
import MachinedRs.Block.NodePass

/-!
# Reset

`performReset` formats whatever devices the store names as STATE and EPHEMERAL,
and nothing checks them again.  What the store names is the provisioner's latest
publication, over any sequence of passes and with a backend that fails anywhere.
-/

namespace MachinedRs

open Foundation

def FsType.fromStrName : String → Option FsType
  | "ext4" => some .ext4
  | "vfat" => some .vfat
  | "xfs" => some .xfs
  | "swap" => some .swap
  | _ => none

/-- The filesystem for a label whose recorded one is empty or unknown. -/
def fallbackFs (label : String) : Option FsType :=
  if label = "STATE" ∨ label = "EPHEMERAL" then some .ext4 else none

def statusKey (label : String) : Key :=
  ⟨blockNs, .volumeStatus, label⟩

/-- The volume of a status that was read. -/
def volumeOf : Result ResourceObject → Option VolumeStatus
  | .ok object =>
      match object.spec with
      | .volumeStatus volume => some volume
      | _ => none
  | .error _ => none

/-- The loop of `perform_reset` over the labels that are left. -/
def resetLabels : List String → Program blockControllerSignature Unit
  | [] => .done ()
  | label :: labels =>
      .call (.inl (.get (statusKey label))) fun found =>
        match volumeOf found with
        | none => resetLabels labels
        | some volume =>
            match (FsType.fromStrName volume.fs).or (fallbackFs label) with
            | none => resetLabels labels
            | some fs =>
                .call (.inr (.format volume.device fs label)) fun _ =>
                  resetLabels labels

def performReset : Program blockControllerSignature Unit :=
  resetLabels ["STATE", "EPHEMERAL"]

/-- The store and a backend that answers anything, with a record of what a
program exchanged with them. -/
def passMachine : Machine blockControllerSignature (Objects × PassLog) Choice :=
  ((storeMachine.zoom id (fun part _ => part) Choice.listing).sum
    { perform := fun objects call choice =>
        some (BlockCall.answer choice.reply call, objects) }).recorded

namespace VolumeProvisioner

/-- What a pass does before it publishes. -/
def prepareStatuses (install : InstallSection)
    (discovered : List DiscoveredVolume) :
    Program blockControllerSignature (Result (List ResourceObject)) :=
  let layOut : Program blockControllerSignature
      (Result (List ResourceObject)) :=
    .call (.inr (.createPartitions install.disk fixedLayout)) fun created =>
      propagateBlock created fun devices =>
        formatAll (fixedLayout.zip devices) []
  match planProvisioning install.disk install.wipe discovered with
  | .refuseForeign =>
      .done (.error (.controller ("install disk " ++ install.disk ++
        " has foreign data; set install.wipe to overwrite")))
  | .skip =>
      .done (.ok (provisionedStatusFromDiscovered install.disk discovered))
  | .provision =>
      if !discovered.isEmpty && install.wipe then
        .call (.inr (.wipe install.disk)) fun wiped =>
          propagateBlock wiped fun _ => layOut
      else
        layOut
  | .completeLayout =>
      .call (.inr (.addPartitions install.disk appendedLayout)) fun added =>
        propagateBlock added fun devices =>
          formatAll (appendedLayout.zip devices)
            (provisionedStatusFromDiscovered install.disk discovered)

/-- A pass up to its publication; `none` when it has nothing to publish. -/
def prepare : Option InstallSection →
    Program blockControllerSignature (Result (Option (List ResourceObject)))
  | none => .done (.ok none)
  | some install =>
      .call (.inl (.get ⟨blockNs, .diskStatus, leaf install.disk⟩))
        fun found =>
          match found with
          | .error _ => .done (.ok none)
          | .ok _ =>
              .call (.inl (.list blockNs .discoveredVolume)) fun listing =>
                (prepareStatuses install (discoveredSpecs listing)).bind
                  fun prepared => .done (prepared.map some)

/-- The rest of a pass. -/
def publishPrepared :
    Option (List ResourceObject) →
      Program blockControllerSignature (Result Unit)
  | none => .done (.ok ())
  | some statuses => publish statuses

theorem propagateBlock_bind {α β γ : Type} (answer : Except BlockError α)
    (next : α → Program blockControllerSignature (Result β))
    (rest : β → Program blockControllerSignature (Result γ)) :
    (propagateBlock answer next).bind (Program.attempt · rest) =
      propagateBlock answer fun value =>
        (next value).bind (Program.attempt · rest) := by
  cases answer with
  | error error => rfl
  | ok value => rfl

theorem carryOut_eq (install : InstallSection)
    (discovered : List DiscoveredVolume) :
    carryOut install discovered =
      (prepareStatuses install discovered).bind
        (Program.attempt · publish) := by
  unfold carryOut carryOutPlan prepareStatuses
  cases planProvisioning install.disk install.wipe discovered with
  | refuseForeign => rfl
  | skip => rfl
  | provision =>
      dsimp only [provision]
      split
      · simp only [Program.call_bind, propagateBlock_bind]
        rfl
      · simp only [Program.call_bind, propagateBlock_bind]
        rfl
  | completeLayout =>
      simp only [completeLayout, Program.call_bind, propagateBlock_bind]
      rfl

theorem bind_map_some (program : Program blockControllerSignature
      (Result (List ResourceObject))) :
    ((program.bind fun prepared => .done (prepared.map some)).bind
      (Program.attempt · publishPrepared)) =
        program.bind (Program.attempt · publish) := by
  induction program with
  | done prepared =>
      cases prepared with
      | error error => rfl
      | ok statuses => rfl
  | call operation next induction =>
      rw [Program.call_bind, Program.call_bind, Program.call_bind]
      congr 1
      funext answer
      exact induction answer

theorem reconcile_eq (install : Option InstallSection) :
    reconcile install =
      (prepare install).bind (Program.attempt · publishPrepared) := by
  cases install with
  | none => rfl
  | some install =>
      rw [prepare, Program.call_bind, reconcile]
      congr 1
      funext found
      cases found with
      | error error => rfl
      | ok object =>
          dsimp only
          rw [Program.call_bind]
          congr 1
          funext listing
          rw [bind_map_some, carryOut_eq]

end VolumeProvisioner

/-- The volumes that a listing returns. -/
def readVolumes :
    blockControllerSignature.Exchange → Option (List DiscoveredVolume)
  | ⟨.inl (.list _ .discoveredVolume), listing⟩ =>
      some (VolumeProvisioner.discoveredSpecs listing)
  | _ => none

/-- The volumes that a pass has listed. -/
def listedVolumes (log : PassLog) : List (List DiscoveredVolume) :=
  log.filterMap readVolumes

theorem listedVolumes_append (log : PassLog)
    (exchange : blockControllerSignature.Exchange) :
    listedVolumes (log ++ [exchange]) =
      listedVolumes log ++ (readVolumes exchange).toList := by
  rw [listedVolumes, List.filterMap_append]
  cases found : readVolumes exchange with
  | none => simp [listedVolumes, found]
  | some volumes => simp [listedVolumes, found]

/-- The devices that a call has just made. -/
def newDevices :
    blockControllerSignature.Exchange → Option (List String)
  | ⟨.inr (.createPartitions _ _), .ok devices⟩ => some devices
  | ⟨.inr (.addPartitions _ _), .ok devices⟩ => some devices
  | _ => none

/-- The volume is still on the disk after the call. -/
def remains :
    blockControllerSignature.Exchange → DiscoveredVolume → Bool
  | ⟨.inr (.addPartitions disk _), _⟩, volume => volume.disk = leaf disk
  | _, _ => false

/-- Discovery and the backend do not name one device twice. -/
def Honest (log : PassLog) : Prop :=
  (∀ volumes ∈ listedVolumes log,
    (volumes.map DiscoveredVolume.device).Nodup) ∧
  ∀ exchange ∈ log, ∀ devices ∈ newDevices exchange, devices.Nodup ∧
    ∀ volumes ∈ listedVolumes log, ∀ volume ∈ volumes,
      remains exchange volume = true → volume.device ∉ devices

instance (log : PassLog) : Decidable (Honest log) :=
  inferInstanceAs (Decidable (_ ∧ _))

/-- A node between passes, with the latest successful publication. -/
structure VolumeNode where
  objects : Objects
  published : List ResourceObject

inductive VolumeMove where
  /-- Another party writes to the store. -/
  | write (operation : Op)
  /-- The provisioner's pass, run to its end. -/
  | pass (install : Option InstallSection) (choices : List Choice)

namespace VolumeNode

/-- What the pass published, if it succeeded and had anything to publish. -/
def publication (node : VolumeNode) (install : Option InstallSection)
    (choices : List Choice) : Result Unit → Option (List ResourceObject)
  | .error _ => none
  | .ok () =>
      match passMachine.complete (VolumeProvisioner.prepare install)
          (node.objects, []) choices with
      | some (.ok statuses, _) => statuses
      | _ => none

def step (node : VolumeNode) : VolumeMove → Option VolumeNode
  | .write operation =>
      if operation.key?.all fun key =>
          key.ns ≠ blockNs ∨ key.typ ≠ .volumeStatus then
        some { node with objects := operation.after node.objects }
      else
        none
  | .pass install choices =>
      (passMachine.complete (VolumeProvisioner.reconcile install)
        (node.objects, []) choices).bind fun (result, final, rest) =>
          if rest = [] ∧ Honest final.2 then
            some
              { objects := final.1
                published := (node.publication install choices result).getD
                  node.published }
          else
            none

end VolumeNode

def volumeSystem : System VolumeNode VolumeMove :=
  { Initial := fun node => node = ⟨∅, []⟩
    step := VolumeNode.step }

/-- The device named by a published status. -/
def statusDevice (status : ResourceObject) : String :=
  match status.spec with
  | .volumeStatus volume => volume.device
  | _ => ""

/-- The devices of a publication under one name, in the order in which they
were written to the store. -/
def devicesUnder (statuses : List ResourceObject) (label : String) :
    List String :=
  (statuses.filter fun status => status.metadata.id = label).map statusDevice

def backendCalls (log : PassLog) : List BlockCall :=
  log.filterMap fun exchange => exchange.1.getRight?

def formattedLabel : BlockCall → Option String
  | .format _ _ label => some label
  | _ => none

def formattedLabels (log : PassLog) : List String :=
  (backendCalls log).filterMap formattedLabel

/-- What the provisioner publishes: statuses of volumes on different devices. -/
structure DistinctStatuses (statuses : List ResourceObject) : Prop where
  plain : ∀ status ∈ statuses, PlainStatus status
  volumes : ∀ status ∈ statuses, ∃ volume,
    status.spec = .volumeStatus volume
  distinct : (statuses.map statusDevice).Nodup

section Publications

theorem Honest.mono {log later : PassLog} (honest : Honest later)
    (grown : log ⊆ later) : Honest log := by
  have planned : listedVolumes log ⊆ listedVolumes later :=
    List.filterMap_subset readVolumes grown
  refine ⟨fun volumes member => honest.1 volumes (planned member), ?_⟩
  intro exchange member devices made
  obtain ⟨nodup, separate⟩ := honest.2 exchange (grown member) devices made
  exact ⟨nodup, fun volumes isPlanned =>
    separate volumes (planned isPlanned)⟩

theorem pass_store {α : Type} {post : α → Objects → Prop}
    {program : Program stateSignature α} {objects : Objects}
    (ensures : storeMachine.Ensures post program objects) (log : PassLog) :
    passMachine.Ensures (fun value final => post value final.1) program.inl
      (objects, log) := by
  apply Machine.Ensures.recorded
  apply Machine.protected_sum_inl
  exact Machine.protected_zoom (fun _ => rfl) (fun _ _ => rfl) rfl ensures

theorem pass_call {α : Type} {invariant : Objects × PassLog → Prop}
    {post : α → Objects × PassLog → Prop} {objects : Objects} {log : PassLog}
    {call : BlockCall}
    {next : Except BlockError call.Value → Program blockControllerSignature α}
    (holds : invariant (objects, log))
    (goesOn : ∀ answer, (passMachine.alone invariant).Protected post
      (next answer) (objects, log ++ [⟨.inr call, answer⟩])) :
    (passMachine.alone invariant).Protected post (.call (.inr call) next)
      (objects, log) := by
  apply Machine.recorded_call holds
  intro choice answer after performed
  cases performed
  exact goesOn _

theorem pass_get {α : Type} {invariant : Objects × PassLog → Prop}
    {post : α → Objects × PassLog → Prop} {objects : Objects} {log : PassLog}
    {key : Key}
    {next : Result ResourceObject → Program blockControllerSignature α}
    (holds : invariant (objects, log))
    (goesOn : (passMachine.alone invariant).Protected post
      (next (State.get objects key))
      (objects, log ++ [⟨.inl (.get key), State.get objects key⟩])) :
    (passMachine.alone invariant).Protected post (.call (.inl (.get key)) next)
      (objects, log) := by
  apply Machine.recorded_call holds
  intro choice answer after performed
  cases performed
  exact goesOn

theorem pass_list {α : Type} {invariant : Objects × PassLog → Prop}
    {post : α → Objects × PassLog → Prop} {objects : Objects} {log : PassLog}
    {ns : String} {typ : ResourceType}
    {next : List ResourceObject → Program blockControllerSignature α}
    (holds : invariant (objects, log))
    (goesOn : ∀ listing, (passMachine.alone invariant).Protected post
      (next listing) (objects, log ++ [⟨.inl (.list ns typ), listing⟩])) :
    (passMachine.alone invariant).Protected post
      (.call (.inl (.list ns typ)) next) (objects, log) := by
  apply Machine.recorded_call holds
  intro choice answer after performed
  obtain ⟨⟨listing, same⟩, listed, equality⟩ :=
    Option.map_eq_some_iff.mp performed
  cases equality
  obtain ⟨found, answered, equality⟩ := Option.map_eq_some_iff.mp listed
  cases equality
  exact goesOn _

theorem formatAll_ensures (pairs : List (PartitionPlan × String))
    (statuses : List ResourceObject) (objects : Objects) (log : PassLog) :
    passMachine.Ensures
      (fun result final => final.1 = objects ∧
        ∀ prepared, result = .ok prepared →
          prepared = statuses ++ plannedStatuses pairs)
      (VolumeProvisioner.formatAll pairs statuses) (objects, log) := by
  induction pairs generalizing statuses log with
  | nil =>
      refine Machine.done trivial ⟨rfl, ?_⟩
      rintro prepared ⟨⟩
      simp [plannedStatuses]
  | cons pair pairs induction =>
      obtain ⟨plan, device⟩ := pair
      apply pass_call trivial
      intro answer
      cases answer with
      | error error =>
          refine Machine.done trivial ⟨rfl, ?_⟩
          rintro prepared ⟨⟩
      | ok value =>
          apply Setting.Protected.mono _ (induction _ _)
          rintro result final ⟨same, succeeds⟩
          refine ⟨same, ?_⟩
          intro prepared succeeded
          rw [succeeds prepared succeeded]
          simp [plannedStatuses]

theorem sound_discovered (disk : String) {discovered : List DiscoveredVolume}
    (distinct : (discovered.map DiscoveredVolume.device).Nodup) :
    DistinctStatuses (provisionedStatusFromDiscovered disk discovered) := by
  refine ⟨?_, ?_, ?_⟩
  · intro status member
    obtain ⟨volume, _, rfl⟩ := List.mem_map.mp member
    exact plainStatus_volumeStatusObj _ _ _ _ _
  · intro status member
    obtain ⟨volume, _, rfl⟩ := List.mem_map.mp member
    exact ⟨_, rfl⟩
  · rw [provisionedStatusFromDiscovered, List.map_map]
    exact List.Sublist.nodup
      ((List.filter_sublist.trans List.filter_sublist).map _) distinct

theorem plannedStatuses_devices (layout : List PartitionPlan)
    (devices : List String) :
    ((plannedStatuses (layout.zip devices)).map statusDevice).Sublist
      devices := by
  induction layout generalizing devices with
  | nil => exact List.nil_sublist _
  | cons plan layout induction =>
      cases devices with
      | nil => exact List.Sublist.refl _
      | cons device devices => exact (induction devices).cons_cons device

theorem sound_nil : DistinctStatuses [] := by
  refine ⟨?_, ?_, List.nodup_nil⟩
  · intro status member
    cases member
  · intro status member
    cases member

theorem sound_append {statuses : List ResourceObject}
    (sound : DistinctStatuses statuses)
    (layout : List PartitionPlan) {devices : List String}
    (distinct : devices.Nodup)
    (apart : ∀ status ∈ statuses, statusDevice status ∉ devices) :
    DistinctStatuses (statuses ++ plannedStatuses (layout.zip devices)) := by
  have sublist := plannedStatuses_devices layout devices
  refine ⟨?_, ?_, ?_⟩
  · intro status member
    rcases List.mem_append.mp member with found | planned
    · exact sound.plain status found
    · exact plain_plannedStatuses _ status planned
  · intro status member
    rcases List.mem_append.mp member with found | planned
    · exact sound.volumes status found
    · obtain ⟨pair, _, rfl⟩ := List.mem_map.mp planned
      exact ⟨_, rfl⟩
  · rw [List.map_append]
    apply sound.distinct.append (sublist.nodup distinct)
    intro device found planned
    obtain ⟨status, isStatus, rfl⟩ := List.mem_map.mp found
    exact apart status isStatus (sublist.subset planned)

/-- A pass up to its publication leaves the store alone, and what it is about
to publish is sound. -/
def Prepares (objects : Objects) (result : Result (List ResourceObject))
    (final : Objects × PassLog) : Prop :=
  final.1 = objects ∧
    ∀ prepared, result = .ok prepared → Honest final.2 →
      DistinctStatuses prepared

theorem prepares_error (objects : Objects) (error : Error) (log : PassLog) :
    Prepares objects (.error error) (objects, log) := by
  refine ⟨rfl, ?_⟩
  rintro prepared ⟨⟩

theorem formatAll_prepares {layout : List PartitionPlan}
    {devices : List String} {statuses : List ResourceObject}
    (objects : Objects) {log : PassLog}
    (sound : Honest log →
      DistinctStatuses (statuses ++ plannedStatuses (layout.zip devices))) :
    passMachine.Ensures (Prepares objects)
      (VolumeProvisioner.formatAll (layout.zip devices) statuses)
      (objects, log) := by
  apply Setting.Protected.mono _
    ((formatAll_ensures _ statuses objects log).and
      (Machine.recorded_grows _ _ objects log))
  rintro result final ⟨⟨same, succeeds⟩, grown⟩
  refine ⟨same, ?_⟩
  intro prepared succeeded honest
  rw [succeeds prepared succeeded]
  exact sound (honest.mono grown)

theorem layOut_prepares (disk : String) (objects : Objects) (log : PassLog) :
    passMachine.Ensures (Prepares objects)
      (.call (.inr (.createPartitions disk fixedLayout)) fun created =>
        propagateBlock created fun devices =>
          VolumeProvisioner.formatAll (fixedLayout.zip devices) [])
      (objects, log) := by
  apply pass_call trivial
  intro answer
  cases answer with
  | error error => exact Machine.done trivial (prepares_error _ _ _)
  | ok devices =>
      apply formatAll_prepares
      intro honest
      have made := honest.2 _ (List.mem_append_right _
        (List.mem_singleton_self _)) devices rfl
      apply sound_append sound_nil _ made.1
      intro status member
      cases member

theorem completeLayout_prepares (disk : String)
    {discovered : List DiscoveredVolume} (objects : Objects) {log : PassLog}
    (planned : discovered ∈ listedVolumes log) :
    passMachine.Ensures (Prepares objects)
      (.call (.inr (.addPartitions disk appendedLayout)) fun added =>
        propagateBlock added fun devices =>
          VolumeProvisioner.formatAll (appendedLayout.zip devices)
            (provisionedStatusFromDiscovered disk discovered))
      (objects, log) := by
  apply pass_call trivial
  intro answer
  cases answer with
  | error error => exact Machine.done trivial (prepares_error _ _ _)
  | ok devices =>
      apply formatAll_prepares
      intro honest
      have stillPlanned : discovered ∈ listedVolumes (log ++
          [⟨.inr (.addPartitions disk appendedLayout), .ok devices⟩]) := by
        rw [listedVolumes_append]
        exact List.mem_append_left _ planned
      have made := honest.2 _ (List.mem_append_right _
        (List.mem_singleton_self _)) devices rfl
      apply sound_append (sound_discovered _
        (honest.1 discovered stillPlanned)) _ made.1
      intro status member
      obtain ⟨volume, isFound, rfl⟩ := List.mem_map.mp member
      have onDisk := List.mem_filter.mp (List.mem_filter.mp isFound).1
      exact made.2 discovered stillPlanned volume onDisk.1 onDisk.2

theorem prepareStatuses_prepares (install : InstallSection)
    {discovered : List DiscoveredVolume} (objects : Objects) {log : PassLog}
    (planned : discovered ∈ listedVolumes log) :
    passMachine.Ensures (Prepares objects)
      (VolumeProvisioner.prepareStatuses install discovered)
      (objects, log) := by
  unfold VolumeProvisioner.prepareStatuses
  cases planProvisioning install.disk install.wipe discovered with
  | refuseForeign => exact Machine.done trivial (prepares_error _ _ _)
  | skip =>
      refine Machine.done trivial ⟨rfl, ?_⟩
      rintro prepared ⟨⟩ honest
      exact sound_discovered _ (honest.1 discovered planned)
  | provision =>
      dsimp only
      split
      · apply pass_call trivial
        intro answer
        cases answer with
        | error error => exact Machine.done trivial (prepares_error _ _ _)
        | ok value => exact layOut_prepares _ _ _
      · exact layOut_prepares _ _ _
  | completeLayout => exact completeLayout_prepares _ _ planned

theorem prepare_ensures (install : Option InstallSection)
    (objects : Objects) :
    passMachine.Ensures
      (fun result final => final.1 = objects ∧
        ∀ prepared, result = .ok (some prepared) →
          Honest final.2 → DistinctStatuses prepared)
      (VolumeProvisioner.prepare install) (objects, []) := by
  cases install with
  | none =>
      refine Machine.done trivial ⟨rfl, ?_⟩
      rintro prepared ⟨⟩
  | some install =>
      apply pass_get trivial
      cases State.get objects
          ⟨blockNs, .diskStatus, leaf install.disk⟩ with
      | error error =>
          refine Machine.done trivial ⟨rfl, ?_⟩
          rintro prepared ⟨⟩
      | ok object =>
          apply pass_list trivial
          intro listing
          apply Setting.Protected.bind
          apply Setting.Protected.mono _ (prepareStatuses_prepares _ _ _)
          · rintro result final ⟨same, sound⟩
            refine Machine.done trivial ⟨same, ?_⟩
            intro prepared succeeded honest
            cases result with
            | error error => cases succeeded
            | ok statuses =>
                cases succeeded
                exact sound _ rfl honest
          · rw [listedVolumes_append]
            exact List.mem_append_right _ (List.mem_singleton_self _)

end Publications

/-- The store names what the latest publication named. -/
structure VolumeNode.Current (node : VolumeNode) : Prop where
  keyed : State.WellKeyed node.objects
  owned : OwnedReleased VolumeProvisioner.owner blockNs .volumeStatus
    node.objects
  sound : DistinctStatuses node.published
  specs : ∀ key : Key, key.ns = blockNs → key.typ = .volumeStatus →
    (node.objects.lookup key).map ResourceObject.spec =
      (lastDesired node.published key).map ResourceObject.spec

namespace VolumeNode

theorem Current.write {node next : VolumeNode} (current : node.Current)
    {operation : Op}
    (stepped : node.step (.write operation) = some next) :
    next.Current := by
  obtain ⟨foreign, equality⟩ := Option.ite_none_right_eq_some.mp stepped
  cases equality
  have writes : operation.Writes
      (fun key => ¬ ofType blockNs .volumeStatus key) := by
    apply Op.writes_of_key?
    rintro key isKey ⟨ns, typ⟩
    rw [isKey] at foreign
    simp [ns, typ] at foreign
  have unchanged : ∀ key : Key, key.ns = blockNs →
      key.typ = .volumeStatus →
      (operation.after node.objects).lookup key =
        node.objects.lookup key := by
    intro key ns typ
    exact (writes.outside node.objects key
      (not_not.mpr ⟨ns, typ⟩)).symm
  refine ⟨current.keyed.after operation, ?_, current.sound, ?_⟩
  · intro key object stored ns typ
    rw [unchanged key ns typ] at stored
    exact current.owned key object stored ns typ
  · intro key ns typ
    rw [unchanged key ns typ]
    exact current.specs key ns typ

theorem publish_ensures {objects : Objects} (keyed : State.WellKeyed objects)
    (owned : OwnedReleased VolumeProvisioner.owner blockNs .volumeStatus
      objects) {statuses : List ResourceObject}
    (plain : ∀ status ∈ statuses, PlainStatus status) (log : PassLog) :
    passMachine.Ensures
      (fun result final => result = .ok () ∧ State.WellKeyed final.1 ∧
        OwnedReleased VolumeProvisioner.owner blockNs .volumeStatus final.1 ∧
        ∀ key : Key, key.ns = blockNs → key.typ = .volumeStatus →
          (final.1.lookup key).map ResourceObject.spec =
            (lastDesired statuses key).map ResourceObject.spec)
      (VolumeProvisioner.publish statuses) (objects, log) := by
  apply Setting.Protected.mono _
    (pass_store (reconcileOwned_released keyed owned
      (fun status member => ⟨(plain status member).ns,
        (plain status member).typ⟩)
      fun status member => (plain status member).released) log)
  rintro result final ⟨succeeded, afterKeyed, afterOwned, specs, _⟩
  exact ⟨succeeded, afterKeyed, afterOwned, specs⟩

theorem Current.pass {node next : VolumeNode} (current : node.Current)
    {install : Option InstallSection} {choices : List Choice}
    (stepped : node.step (.pass install choices) = some next) :
    next.Current := by
  obtain ⟨⟨result, final, rest⟩, completed, accepted⟩ :=
    Option.bind_eq_some_iff.mp stepped
  obtain ⟨⟨_, honest⟩, equality⟩ :=
    Option.ite_none_right_eq_some.mp accepted
  cases equality
  rw [VolumeProvisioner.reconcile_eq, Machine.complete_bind] at completed
  obtain ⟨⟨prepared, middle, later⟩, preparing, publishing⟩ :=
    Option.bind_eq_some_iff.mp completed
  obtain ⟨same, sound⟩ := Machine.post_of_returns
    (prepare_ensures install node.objects)
    (Machine.returns_of_complete preparing)
  have unpublished : final.1 = node.objects →
      node.publication install choices result = none →
      VolumeNode.Current ⟨final.1,
        (node.publication install choices result).getD node.published⟩ := by
    intro unchanged nothing
    rw [unchanged, nothing]
    exact current
  cases prepared with
  | error error =>
      cases publishing
      exact unpublished same rfl
  | ok statuses =>
      cases statuses with
      | none =>
          cases publishing
          apply unpublished same
          simp [publication, preparing]
      | some statuses =>
          obtain ⟨objects, log⟩ := middle
          cases same
          have returned := Machine.returns_of_complete publishing
          have grown := Machine.post_of_returns
            (Machine.recorded_grows _ _ _ _) returned
          have isSound := sound statuses rfl (honest.mono grown)
          obtain ⟨rfl, keyed, owned, specs⟩ := Machine.post_of_returns
            (publish_ensures current.keyed current.owned isSound.plain log)
            returned
          have published : node.publication install choices (.ok ()) =
              some statuses := by
            simp [publication, preparing]
          rw [published]
          exact ⟨keyed, owned, isSound, specs⟩

theorem Current.step {node next : VolumeNode} (current : node.Current)
    {move : VolumeMove} (stepped : node.step move = some next) :
    next.Current := by
  cases move with
  | write operation => exact current.write stepped
  | pass install choices => exact current.pass stepped

theorem current_initial : VolumeNode.Current ⟨∅, []⟩ := by
  refine ⟨State.wellKeyed_empty, ?_, sound_nil, ?_⟩
  · intro key object stored
    simp at stored
  · intro key _ _
    rfl

theorem current_of_reachable {node : VolumeNode}
    (reachable : volumeSystem.Reachable node) : node.Current := by
  apply reachable.invariant
  · rintro start rfl
    exact current_initial
  · intro before move after stepped current
    exact current.step stepped

end VolumeNode

theorem backendCalls_store (log : PassLog) (operation : Op)
    (answer : operation.Answer) :
    backendCalls (log ++ [⟨.inl operation, answer⟩]) = backendCalls log := by
  simp [backendCalls]

theorem backendCalls_call (log : PassLog) (call : BlockCall)
    (answer : Except BlockError call.Value) :
    backendCalls (log ++ [⟨.inr call, answer⟩]) =
      backendCalls log ++ [call] := by
  simp [backendCalls]

section Reset

variable {node : VolumeNode}

theorem VolumeNode.Current.device (current : node.Current) {label : String}
    {volume : VolumeStatus}
    (found : volumeOf (State.get node.objects (statusKey label)) =
      some volume) :
    (devicesUnder node.published label).getLast? = some volume.device := by
  have stored : (node.objects.lookup (statusKey label)).map
      ResourceObject.spec = some (.volumeStatus volume) := by
    unfold State.get at found
    cases lookup : node.objects.lookup (statusKey label) with
    | none =>
        rw [lookup] at found
        cases found
    | some object =>
        rw [lookup] at found
        simp only [volumeOf] at found
        split at found
        · rename_i spec
          cases found
          exact congrArg some spec
        · cases found
  rw [current.specs _ rfl rfl] at stored
  obtain ⟨status, last, spec⟩ := Option.map_eq_some_iff.mp stored
  have named : node.published.filter
        (fun status => status.metadata.id = label) =
      node.published.filter
        (fun status => status.key = statusKey label) := by
    apply List.filter_congr
    intro status member
    have isPlain := current.sound.plain status member
    rw [decide_eq_decide]
    constructor
    · intro sameId
      exact Key.mk.injEq .. ▸ ⟨isPlain.ns, isPlain.typ, sameId⟩
    · intro sameKey
      exact congrArg Key.id sameKey
  rw [devicesUnder, named, List.getLast?_map]
  rw [lastDesired] at last
  rw [last, Option.map_some, statusDevice, spec]

theorem DistinctStatuses.apart {statuses : List ResourceObject}
    (sound : DistinctStatuses statuses)
    {first second device : String}
    (isFirst : device ∈ devicesUnder statuses first)
    (isSecond : device ∈ devicesUnder statuses second) : first = second := by
  obtain ⟨status, isStatus, named⟩ := List.mem_map.mp isFirst
  obtain ⟨other, isOther, otherNamed⟩ := List.mem_map.mp isSecond
  rw [List.mem_filter, decide_eq_true_eq] at isStatus isOther
  have same := List.inj_on_of_nodup_map sound.distinct isStatus.1 isOther.1
    (named.trans otherNamed.symm)
  rw [← isStatus.2, same, isOther.2]

/-- A format of the volume that was published under the label, which is not the
one published as EFI. -/
def FormatsPublished (published : List ResourceObject) (call : BlockCall) :
    Prop :=
  ∃ device fs label, call = .format device fs label ∧
    (label = "STATE" ∨ label = "EPHEMERAL") ∧
    (devicesUnder published label).getLast? = some device ∧
    device ∉ devicesUnder published "EFI"

/-- What holds of a reset wherever it is cut off. -/
def ResetSafe (published : List ResourceObject)
    (state : Objects × PassLog) : Prop :=
  (∀ call ∈ backendCalls state.2, FormatsPublished published call) ∧
    (formattedLabels state.2).Nodup

theorem VolumeNode.Current.formats (current : node.Current) {label : String}
    (isReset : label = "STATE" ∨ label = "EPHEMERAL") {volume : VolumeStatus}
    (found : volumeOf (State.get node.objects (statusKey label)) =
      some volume) (fs : FsType) :
    FormatsPublished node.published (.format volume.device fs label) := by
  have last := current.device found
  refine ⟨volume.device, fs, label, rfl, isReset, last, ?_⟩
  intro isEfi
  have same := current.sound.apart (List.mem_of_getLast? last) isEfi
  rcases isReset with rfl | rfl
  · exact absurd same (by decide)
  · exact absurd same (by decide)

theorem resetLabels_protected (current : node.Current)
    (labels : List String) (log : PassLog)
    (formatted : ∀ call ∈ backendCalls log,
      FormatsPublished node.published call)
    (distinct : (formattedLabels log ++ labels).Nodup)
    (known : ∀ label ∈ labels, label = "STATE" ∨ label = "EPHEMERAL") :
    (passMachine.alone (ResetSafe node.published)).Protected
      (fun _ _ => True) (resetLabels labels) (node.objects, log) := by
  induction labels generalizing log with
  | nil =>
      rw [List.append_nil] at distinct
      exact Machine.done ⟨formatted, distinct⟩ trivial
  | cons label labels induction =>
      have safe : ResetSafe node.published (node.objects, log) :=
        ⟨formatted, distinct.of_append_left⟩
      have fewer : (formattedLabels log ++ labels).Nodup :=
        List.Sublist.nodup
          ((List.sublist_cons_self label labels).append_left _) distinct
      have others : ∀ other ∈ labels,
          other = "STATE" ∨ other = "EPHEMERAL" :=
        fun other member => known other (List.mem_cons_of_mem _ member)
      apply pass_get safe
      generalize readLog : log ++ [⟨.inl (.get (statusKey label)),
        State.get node.objects (statusKey label)⟩] = logged
      have calls : backendCalls logged = backendCalls log := by
        rw [← readLog]
        exact backendCalls_store log _ _
      have sameLabels : formattedLabels logged = formattedLabels log := by
        rw [formattedLabels, formattedLabels, calls]
      rw [← calls] at formatted
      rw [← sameLabels] at distinct fewer
      cases found : volumeOf (State.get node.objects (statusKey label)) with
      | none => exact induction _ formatted fewer others
      | some volume =>
          dsimp only
          cases (FsType.fromStrName volume.fs).or (fallbackFs label) with
          | none => exact induction _ formatted fewer others
          | some fs =>
              apply pass_call ⟨formatted, distinct.of_append_left⟩
              intro answer
              apply induction
              · intro call member
                rw [backendCalls_call, List.mem_append,
                  List.mem_singleton] at member
                rcases member with earlier | rfl
                · exact formatted call earlier
                · exact current.formats (known label List.mem_cons_self)
                    found fs
              · rw [formattedLabels, backendCalls_call,
                  List.filterMap_append, List.append_assoc]
                exact distinct
              · exact others

end Reset

/-- Reset formats what the provisioner last published as STATE or EPHEMERAL,
each at most once and never the EFI volume, and makes no other call. -/
theorem reset_formats_published {node : VolumeNode}
    (reachable : volumeSystem.Reachable node) {choices : List Choice}
    {rest : Program blockControllerSignature Unit} {objects : Objects}
    {log : PassLog}
    (ran : passMachine.exec performReset (node.objects, []) choices =
      some (rest, objects, log)) :
    (∀ call ∈ backendCalls log, ∃ device fs label,
      call = .format device fs label ∧
      (label = "STATE" ∨ label = "EPHEMERAL") ∧
      (devicesUnder node.published label).getLast? = some device ∧
      device ∉ devicesUnder node.published "EFI") ∧
    (formattedLabels log).Nodup := by
  have current := VolumeNode.current_of_reachable reachable
  have safe := resetLabels_protected current ["STATE", "EPHEMERAL"] []
    (by simp [backendCalls]) (by decide) (by simp)
  exact (Machine.protected_of_exec safe ran).holds

/-- Discovery finds the image's partition, and a pass completes the layout. -/
def completeFlashedDisk : List VolumeMove :=
  let quiet : Choice := ⟨[], ⟨none, [], [], []⟩⟩
  let statuses := [("EFI", "/dev/sda1", "vfat"),
    ("STATE", "/dev/sda2", "ext4"), ("EPHEMERAL", "/dev/sda3", "ext4")].map
      fun (label, device, fs) =>
        ((volumeStatusObj label device fs label .provisioned).withOwner
          VolumeProvisioner.owner).fresh
  [.write (.create (DiskDiscovery.diskObject sda)),
    .write (.create (DiskDiscovery.volumeObject flashedEfi)),
    .pass (some ⟨"/dev/sda", false⟩)
      ([quiet, ⟨[(DiskDiscovery.volumeObject flashedEfi).fresh], quiet.reply⟩,
        ⟨[], ⟨none, [], [], ["/dev/sda2", "/dev/sda3"]⟩⟩] ++
        List.replicate 8 quiet ++ [⟨statuses, quiet.reply⟩])]

/-- A reset whose first format fails. -/
theorem reset_formats_published_flashedDisk :
    ∃ node rest objects log, volumeSystem.run ⟨∅, []⟩ completeFlashedDisk =
        some node ∧
      passMachine.exec performReset (node.objects, [])
        [⟨[], ⟨none, [], [], []⟩⟩,
          ⟨[], ⟨some (.mkfs "/dev/sda2" "busy"), [], [], []⟩⟩,
          ⟨[], ⟨none, [], [], []⟩⟩, ⟨[], ⟨none, [], [], []⟩⟩] =
        some (rest, objects, log) ∧
      backendCalls log = [.format "/dev/sda2" .ext4 "STATE",
        .format "/dev/sda3" .ext4 "EPHEMERAL"] ∧
      devicesUnder node.published "EFI" = ["/dev/sda1"] ∧
      (∀ call ∈ backendCalls log, ∃ device fs label,
        call = .format device fs label ∧
        (label = "STATE" ∨ label = "EPHEMERAL") ∧
        (devicesUnder node.published label).getLast? = some device ∧
        device ∉ devicesUnder node.published "EFI") ∧
      (formattedLabels log).Nodup := by
  have computed : (volumeSystem.run ⟨∅, []⟩ completeFlashedDisk).bind
      (fun node => (passMachine.exec performReset (node.objects, [])
        [⟨[], ⟨none, [], [], []⟩⟩,
          ⟨[], ⟨some (.mkfs "/dev/sda2" "busy"), [], [], []⟩⟩,
          ⟨[], ⟨none, [], [], []⟩⟩, ⟨[], ⟨none, [], [], []⟩⟩]).map
        fun final => (backendCalls final.2.2,
          devicesUnder node.published "EFI")) =
      some ([.format "/dev/sda2" .ext4 "STATE",
        .format "/dev/sda3" .ext4 "EPHEMERAL"], ["/dev/sda1"]) := by
    decide +kernel
  obtain ⟨node, result, reset⟩ := Option.bind_eq_some_iff.mp computed
  obtain ⟨⟨rest, objects, log⟩, ran, found⟩ :=
    Option.map_eq_some_iff.mp reset
  exact ⟨node, rest, objects, log, result, ran, congrArg Prod.fst found,
    congrArg Prod.snd found, reset_formats_published
      ⟨⟨∅, []⟩, completeFlashedDisk, rfl, result⟩ ran⟩

end MachinedRs
