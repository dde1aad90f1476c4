import MachinedRs.Block.NodePass

/-!
# What the guard takes for our layout

The guard compares the labels of the install disk with ours as sets.  What it
then publishes is taken from the volumes whose parent disk has the install
disk's name.
-/

namespace MachinedRs

open Foundation

section Guard

variable (disk : String) (discovered : List DiscoveredVolume)

def matching : List DiscoveredVolume :=
  discovered.filter (onInstallDisk disk)

def matchingLabels : List String :=
  (matching disk discovered).map DiscoveredVolume.partitionLabel

/-- The volumes of the install disk are exactly three, one for each label. -/
def ExactLayout : Prop :=
  (matchingLabels disk discovered).Perm layoutLabels

instance : Decidable (ExactLayout disk discovered) :=
  inferInstanceAs (Decidable (List.Perm _ _))

/-- The labels of the install disk are ours, as a set. -/
def LabelsOurs : Prop :=
  ∀ label, label ∈ matchingLabels disk discovered ↔ label ∈ layoutLabels

theorem planProvisioning_eq_skip_iff (wipe : Bool) :
    planProvisioning disk wipe discovered = .skip ↔
      LabelsOurs disk discovered := by
  have isOurs : planProvisioning disk wipe discovered = .skip ↔
      ours (matchingLabels disk discovered) = true := by
    have nonempty : (matchingLabels disk discovered).isEmpty =
        (discovered.filter (onInstallDisk disk)).isEmpty :=
      List.isEmpty_map
    rw [planProvisioning, ours, nonempty]
    change (if _ then _ else if _ then _ else if _ then _ else _) = _ ↔ _
    split
    case isTrue accepted => exact ⟨fun _ => accepted, fun _ => rfl⟩
    case isFalse rejected =>
      constructor
      · intro skipped
        split at skipped
        · cases skipped
        · split at skipped
          · cases skipped
          · cases skipped
      · intro accepted
        exact (rejected accepted).elim
  rw [isOurs, ours_iff, LabelsOurs]

/-- Each label is published from one volume of the install disk, however the
volumes are ordered. -/
def PublishesEach : Prop :=
  ∀ label ∈ layoutLabels, ∃ volume ∈ matching disk discovered,
    volume.partitionLabel = label ∧
    ∀ reordered : List DiscoveredVolume, reordered.Perm discovered →
      (provisionedStatusFromDiscovered disk reordered).filter
        (fun object => object.metadata.id = label) = [statusOfVolume volume]

end Guard

section Publishing

variable {disk : String} {discovered : List DiscoveredVolume}

theorem mem_matching {volume : DiscoveredVolume} :
    volume ∈ matching disk discovered ↔
      volume ∈ discovered ∧
        (volume.disk = leaf disk ∨ volume.device = disk) := by
  simp [matching, onInstallDisk]

theorem published_of_label (label : String) (ours : label ∈ layoutLabels)
    (volumes : List DiscoveredVolume) :
    (provisionedStatusFromDiscovered disk volumes).filter
        (fun object => object.metadata.id = label) =
      (volumes.filter fun volume =>
        volume.disk = leaf disk ∧ volume.partitionLabel = label).map
          statusOfVolume := by
  rw [provisionedStatusFromDiscovered, List.filter_map, List.filter_filter,
    List.filter_filter]
  apply congrArg (List.map statusOfVolume)
  apply List.filter_congr
  intro volume _
  have named : (statusOfVolume volume).metadata.id = volume.partitionLabel :=
    rfl
  by_cases same : volume.partitionLabel = label
  · simp [named, same, ours]
  · simp [named, same]

theorem filter_label_eq_singleton
    (distinct : (matchingLabels disk discovered).Nodup)
    {volume : DiscoveredVolume} (member : volume ∈ matching disk discovered) :
    (matching disk discovered).filter
        (fun other => other.partitionLabel = volume.partitionLabel) =
      [volume] := by
  rw [matchingLabels] at distinct
  generalize matching disk discovered = volumes at distinct member
  induction volumes with
  | nil => cases member
  | cons first volumes induction =>
      rw [List.map_cons, List.nodup_cons] at distinct
      rcases List.mem_cons.mp member with rfl | later
      · have others : volumes.filter (fun other =>
            other.partitionLabel = volume.partitionLabel) = [] := by
          apply List.filter_eq_nil_iff.mpr
          intro other inside
          rw [decide_eq_true_eq]
          intro same
          apply distinct.1
          rw [← same]
          exact List.mem_map_of_mem inside
        rw [List.filter_cons_of_pos (by simp), others]
      · have different : first.partitionLabel ≠ volume.partitionLabel := by
          intro same
          apply distinct.1
          rw [same]
          exact List.mem_map_of_mem later
        rw [List.filter_cons_of_neg (by simp [different])]
        exact induction distinct.2 later

/-- Where every volume of the install disk bears the disk's name, what is
published for a label is decided among the matching volumes. -/
theorem filter_named {volumes : List DiscoveredVolume} (label : String)
    (named : ∀ volume ∈ matching disk volumes, volume.disk = leaf disk) :
    (volumes.filter fun volume =>
        volume.disk = leaf disk ∧ volume.partitionLabel = label) =
      (matching disk volumes).filter fun volume =>
        volume.partitionLabel = label := by
  rw [matching, List.filter_filter]
  apply List.filter_congr
  intro volume member
  by_cases inside : volume ∈ matching disk volumes
  · have onDisk := (mem_matching.mp inside).2
    simp [named volume inside, onInstallDisk]
  · have foreign : ¬ (volume.disk = leaf disk ∨ volume.device = disk) :=
      fun onDisk => inside (mem_matching.mpr ⟨member, onDisk⟩)
    rw [not_or] at foreign
    simp [foreign, onInstallDisk]

theorem publishesEach (ours : LabelsOurs disk discovered)
    (distinct : (matchingLabels disk discovered).Nodup)
    (named : ∀ volume ∈ matching disk discovered, volume.disk = leaf disk) :
    PublishesEach disk discovered := by
  intro label isOurs
  obtain ⟨volume, member, rfl⟩ := List.mem_map.mp ((ours label).mpr isOurs)
  refine ⟨volume, member, rfl, ?_⟩
  intro reordered perm
  rw [published_of_label volume.partitionLabel isOurs]
  have single := perm.filter fun other => decide
    (other.disk = leaf disk ∧ other.partitionLabel = volume.partitionLabel)
  rw [filter_named volume.partitionLabel named,
    filter_label_eq_singleton distinct member] at single
  rw [List.perm_singleton.mp single]
  rfl

end Publishing

/-- The guard recognises exactly our layout and publishes each label from one
volume, if and only if labels that are ours as a set occur once each, on volumes
that bear the name of the install disk. -/
theorem guard_exact_iff (disk : String) (wipe : Bool)
    (discovered : List DiscoveredVolume) :
    ((planProvisioning disk wipe discovered = .skip ↔
        ExactLayout disk discovered) ∧
      (planProvisioning disk wipe discovered = .skip →
        PublishesEach disk discovered)) ↔
    (LabelsOurs disk discovered →
      (matchingLabels disk discovered).Nodup ∧
        ∀ volume ∈ matching disk discovered, volume.disk = leaf disk) := by
  rw [planProvisioning_eq_skip_iff]
  constructor
  · rintro ⟨recognises, publishes⟩ ours
    have exact := recognises.mp ours
    have distinct : (matchingLabels disk discovered).Nodup :=
      exact.nodup_iff.mpr (by decide)
    refine ⟨distinct, ?_⟩
    intro volume member
    have isOurs : volume.partitionLabel ∈ layoutLabels :=
      (ours _).mp (List.mem_map_of_mem member)
    obtain ⟨source, _, _, published⟩ := publishes ours _ isOurs
    have here := published discovered (List.Perm.refl discovered)
    rw [published_of_label _ isOurs] at here
    have inside : statusOfVolume source ∈ [statusOfVolume source] :=
      List.mem_singleton_self _
    rw [← here] at inside
    obtain ⟨named, filtered, _⟩ := List.mem_map.mp inside
    obtain ⟨found, accepted⟩ := List.mem_filter.mp filtered
    obtain ⟨sameDisk, sameLabel⟩ := of_decide_eq_true accepted
    have isMatching := mem_matching.mpr ⟨found, .inl sameDisk⟩
    rw [List.inj_on_of_nodup_map distinct member isMatching sameLabel.symm]
    exact sameDisk
  · intro condition
    refine ⟨⟨?_, ?_⟩, ?_⟩
    · intro ours
      exact (List.perm_ext_iff_of_nodup (condition ours).1 (by decide)).mpr
        ours
    · intro exact label
      exact exact.mem_iff
    · intro ours
      exact publishesEach ours (condition ours).1 (condition ours).2

/-- A volume of the disk `sda`. -/
def sdaVolume (device label : String) : DiscoveredVolume :=
  { DiskDiscovery.discoveredVolume flashedEfi with
    device := device
    partitionLabel := label }

def laidOutVolumes : List DiscoveredVolume :=
  [sdaVolume "/dev/sda3" "EPHEMERAL", sdaVolume "/dev/sda1" "EFI",
    sdaVolume "/dev/sda2" "STATE"]

theorem guard_exact_laidOut :
    planProvisioning "/dev/sda" false laidOutVolumes = .skip ∧
      ExactLayout "/dev/sda" laidOutVolumes ∧
      PublishesEach "/dev/sda" laidOutVolumes := by
  obtain ⟨recognises, publishes⟩ :=
    (guard_exact_iff "/dev/sda" false laidOutVolumes).mpr fun _ => by decide
  have skipped : planProvisioning "/dev/sda" false laidOutVolumes = .skip := by
    decide
  exact ⟨skipped, recognises.mp skipped, publishes skipped⟩

/-- A second EFI partition goes unnoticed: the guard takes four partitions for
our layout and publishes two statuses under the label. -/
theorem second_efi_accepted :
    planProvisioning "/dev/sda" false
        (sdaVolume "/dev/sda4" "EFI" :: laidOutVolumes) = .skip ∧
      ¬ ExactLayout "/dev/sda"
        (sdaVolume "/dev/sda4" "EFI" :: laidOutVolumes) ∧
      ((provisionedStatusFromDiscovered "/dev/sda"
        (sdaVolume "/dev/sda4" "EFI" :: laidOutVolumes)).filter
          fun object => object.metadata.id = "EFI") =
        [statusOfVolume (sdaVolume "/dev/sda4" "EFI"),
          statusOfVolume (sdaVolume "/dev/sda1" "EFI")] := by
  decide

end MachinedRs
