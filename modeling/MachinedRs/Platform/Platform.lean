import MachinedRs.Boot.BootMount
import MachinedRs.Foundation.Machine
import MachinedRs.Foundation.System

/-!
# The platform

A kernel that carries out the calls of the platform on a table of mounts.  Any
call can be refused.  The list of mounts can be read once `/proc` is mounted,
and reading it can fail as well.

The essential filesystems are mounted by `mount_essential`, which runs more
than once: at the start of pid 1, before `/proc` can be read, and again in the
boot sequence.
-/

namespace MachinedRs

open Foundation

/-- The calls that `mount_essential` makes. -/
inductive PlatformCall where
  | mount (spec : MountSpec)
  | isMounted (target : String)
deriving DecidableEq, Repr

@[reducible] def PlatformCall.Answer : PlatformCall → Type
  | .mount _ => Except String Unit
  | .isMounted _ => Except String Bool

abbrev platformSignature : Signature :=
  { Op := PlatformCall, Answer := PlatformCall.Answer }

/-- Something is mounted at the target. -/
def MountedAt (target : String) (mounts : List Mount) : Prop :=
  ∃ mount ∈ mounts, mount.target = target

instance (target : String) (mounts : List Mount) :
    Decidable (MountedAt target mounts) :=
  inferInstanceAs (Decidable (∃ mount ∈ mounts, mount.target = target))

/-- How often the target is mounted over. -/
def mountCount (target : String) (mounts : List Mount) : Nat :=
  mounts.countP fun mount => mount.target = target

theorem mountedAt_iff {target : String} {mounts : List Mount} :
    MountedAt target mounts ↔ 0 < mountCount target mounts := by
  simp [MountedAt, mountCount, List.countP_pos_iff]

/-- Take off the mount on top at the target. -/
def umountCall (refused : Option String) (target : String)
    (mounts : List Mount) : Except String (List Mount) :=
  match refused with
  | some errno => .error errno
  | none =>
      if MountedAt target mounts then
        .ok (mounts.eraseP fun mount => mount.target = target)
      else
        .error "EINVAL: Invalid argument"

theorem mountCount_umountCall {refused : Option String} {target : String}
    {mounts after : List Mount}
    (taken : umountCall refused target mounts = .ok after) (other : String) :
    mountCount other after =
      mountCount other mounts - if other = target then 1 else 0 := by
  unfold umountCall at taken
  split at taken
  · cases taken
  · split at taken
    · rename_i mounted
      cases taken
      obtain ⟨found, member, same⟩ := mounted
      obtain ⟨mount, first, second, _, here, split, erased⟩ :=
        List.exists_of_eraseP member (p := fun mount =>
          decide (mount.target = target)) (decide_eq_true same)
      rw [erased, split]
      have isTarget := of_decide_eq_true here
      by_cases equal : other = target
      · simp [mountCount, equal, isTarget]
      · simp [mountCount, equal, isTarget, Ne.symm equal]
    · cases taken

/-- What the outside decides about a call. -/
structure PlatformChoice where
  refused : Option String
  /-- An error other than a missing file when mountinfo is read. -/
  unreadable : Option String
deriving DecidableEq, Repr

/-- Mountinfo lies under `/proc`. -/
def mountinfoOf (unreadable : Option String) (mounts : List Mount) :
    Mountinfo :=
  if MountedAt "/proc" mounts then
    match unreadable with
    | some message => .fails message
    | none => .readable
  else
    .notFound

namespace LinuxPlatform

def unmount (refused : Option String) (target : String)
    (mounts : List Mount) : Except String (List Mount) :=
  (umountCall refused target mounts).mapError
    fun errno => mountError target ("umount: " ++ errno)

def unmountLazy (refused : Option String) (target : String)
    (mounts : List Mount) : Except String (List Mount) :=
  (umountCall refused target mounts).mapError
    fun errno => mountError target ("umount2(MNT_DETACH): " ++ errno)

end LinuxPlatform

/-- The answer to a call that changes the mounts, and the mounts after it. -/
def answered (mounts : List Mount) :
    Except String (List Mount) → Except String Unit × List Mount
  | .ok after => (.ok (), after)
  | .error error => (.error error, mounts)

def PlatformCall.perform (mounts : List Mount) (choice : PlatformChoice) :
    (call : PlatformCall) → call.Answer × List Mount
  | .mount spec =>
      answered mounts (LinuxPlatform.mount choice.refused spec mounts)
  | .isMounted target =>
      (LinuxPlatform.isMounted (mountinfoOf choice.unreadable mounts) target
        mounts, mounts)

/-- The mount that a specification asks for. -/
def MountSpec.mounted (spec : MountSpec) : Mount :=
  { source := spec.source
    target := spec.target
    fstype := spec.fstype
    flags := spec.flags }

/-- The specification does not ask for a remount. -/
def MountSpec.Fresh (spec : MountSpec) : Prop :=
  spec.flags &&& msRemount = 0

instance (spec : MountSpec) : Decidable spec.Fresh :=
  inferInstanceAs (Decidable (_ = _))

theorem LinuxPlatform.mount_of_fresh {refused : Option String}
    {spec : MountSpec} (fresh : spec.Fresh) (mounts : List Mount) :
    LinuxPlatform.mount refused spec mounts =
      match refused with
      | some errno => .error (LinuxPlatform.mountError spec.target errno)
      | none => .ok (spec.mounted :: mounts) := by
  cases refused with
  | some errno => rfl
  | none =>
      have plain : ¬ (spec.flags &&& msRemount ≠ 0) := not_not.mpr fresh
      rw [LinuxPlatform.mount, mountCall, if_neg plain]
      rfl

theorem PlatformCall.perform_mount {spec : MountSpec} (fresh : spec.Fresh)
    {mounts after : List Mount} {choice : PlatformChoice}
    {answer : Except String Unit}
    (performed : PlatformCall.perform mounts choice (.mount spec) =
      (answer, after)) :
    (answer = .ok () ∧ after = spec.mounted :: mounts) ∨
      ∃ error, answer = .error error ∧ after = mounts := by
  rw [PlatformCall.perform, LinuxPlatform.mount_of_fresh fresh] at performed
  cases refused : choice.refused with
  | some errno =>
      rw [refused] at performed
      cases performed
      exact .inr ⟨_, rfl, rfl⟩
  | none =>
      rw [refused] at performed
      cases performed
      exact .inl ⟨rfl, rfl⟩

/-- Without `/proc` nothing is seen; with it the answer is the truth or an
error. -/
theorem isMounted_spec {unreadable : Option String} {target : String}
    {mounts : List Mount} {mounted : Bool}
    (read : LinuxPlatform.isMounted (mountinfoOf unreadable mounts) target
      mounts = .ok mounted) :
    (¬ MountedAt "/proc" mounts ∧ mounted = false) ∨
      (MountedAt "/proc" mounts ∧
        (mounted = true ↔ MountedAt target mounts)) := by
  by_cases proc : MountedAt "/proc" mounts
  · simp only [mountinfoOf, if_pos proc] at read
    cases unreadable with
    | some message => cases read
    | none =>
        cases read
        refine .inr ⟨proc, ?_⟩
        simp [MountedAt]
  · simp only [mountinfoOf, if_neg proc] at read
    cases read
    exact .inl ⟨proc, rfl⟩

def essentialMount (source target fstype : String) : MountSpec :=
  { source := source
    target := target
    fstype := fstype
    flags := 0
    data := none }

/-- The pseudo-filesystems that are mounted before anything else. -/
def essentialMounts : List MountSpec :=
  [ essentialMount "proc" "/proc" "proc",
    essentialMount "sysfs" "/sys" "sysfs",
    essentialMount "devtmpfs" "/dev" "devtmpfs",
    essentialMount "tmpfs" "/run" "tmpfs",
    essentialMount "tmpfs" "/tmp" "tmpfs",
    essentialMount "cgroup2" "/sys/fs/cgroup" "cgroup2" ]

/-- Mount every filesystem that is not seen to be mounted.  An error when
looking counts as not mounted. -/
def mountEach : List MountSpec → Program platformSignature (Except String Unit)
  | [] => .done (.ok ())
  | spec :: specs =>
      .call (.isMounted spec.target) fun (seen : Except String Bool) =>
        if seen.toOption.getD false then
          mountEach specs
        else
          .call (.mount spec) fun (mounted : Except String Unit) =>
            Program.attempt mounted fun _ => mountEach specs

def mountEssential : Program platformSignature (Except String Unit) :=
  mountEach essentialMounts

/-- A kernel that refuses what it likes, but whose list of mounts can be read
as soon as `/proc` is there. -/
def readableKernel : Machine platformSignature (List Mount) (Option String) :=
  { perform := fun mounts call refused =>
      some (call.perform mounts ⟨refused, none⟩) }

/-- The mounts, and how the last run of `mount_essential` ended. -/
structure EssentialState where
  mounts : List Mount
  last : Option (Except String Unit)

/-- Any number of runs of `mount_essential` on a kernel that has just been
started. -/
def essentialSystem : System EssentialState (List (Option String)) :=
  { Initial := fun state => state = ⟨[], none⟩
    step := fun state refusals =>
      match readableKernel.complete mountEssential state.mounts refusals with
      | some (result, after, []) => some ⟨after, some result⟩
      | _ => none }

/-- The first filesystems of the list are mounted, the latest on top. -/
def mountedFirst (specs : List MountSpec) (count : Nat) : List Mount :=
  ((specs.take count).map MountSpec.mounted).reverse

section Mounting

variable {specs : List MountSpec} {count : Nat}

theorem mountedAt_mountedFirst_iff
    (distinct : (specs.map MountSpec.target).Nodup) {index : Nat}
    (inside : index < specs.length) :
    MountedAt specs[index].target (mountedFirst specs count) ↔
      index < count := by
  constructor
  · rintro ⟨mount, member, same⟩
    rw [mountedFirst, List.mem_reverse, List.mem_map] at member
    obtain ⟨spec, taken, rfl⟩ := member
    obtain ⟨place, bound, rfl⟩ := List.mem_take_iff_getElem.mp taken
    have placed : place < (specs.map MountSpec.target).length := by
      rw [List.length_map]
      omega
    have indexed : index < (specs.map MountSpec.target).length := by
      rw [List.length_map]
      exact inside
    have targets : (specs.map MountSpec.target)[place] =
        (specs.map MountSpec.target)[index] := by
      rw [List.getElem_map, List.getElem_map]
      exact same
    have equal := distinct.getElem_inj_iff.mp targets
    omega
  · intro below
    refine ⟨specs[index].mounted, ?_, rfl⟩
    rw [mountedFirst, List.mem_reverse]
    apply List.mem_map_of_mem
    exact List.mem_take_iff_getElem.mpr ⟨index, by omega, rfl⟩

theorem mountedFirst_succ (inside : count < specs.length) :
    mountedFirst specs (count + 1) =
      specs[count].mounted :: mountedFirst specs count := by
  rw [mountedFirst, List.take_succ_eq_append_getElem inside, List.map_append,
    List.reverse_append]
  rfl

/-- What is seen of the filesystem at a place in the list: it is there as soon
as it has been mounted, `/proc` being the first of all. -/
theorem isMounted_mountedFirst
    (distinct : (specs.map MountSpec.target).Nodup)
    (nonempty : 0 < specs.length) (proc : specs[0].target = "/proc")
    {index : Nat} (inside : index < specs.length) :
    LinuxPlatform.isMounted (mountinfoOf none (mountedFirst specs count))
      specs[index].target (mountedFirst specs count) =
        .ok (decide (index < count)) := by
  have procMounted : MountedAt "/proc" (mountedFirst specs count) ↔
      0 < count := by
    rw [← proc]
    exact mountedAt_mountedFirst_iff distinct nonempty
  have mounted : MountedAt specs[index].target (mountedFirst specs count) ↔
      index < count :=
    mountedAt_mountedFirst_iff distinct inside
  by_cases started : 0 < count
  · rw [show mountinfoOf none (mountedFirst specs count) = .readable by
      simp [mountinfoOf, procMounted.mpr started]]
    have found : (mountedFirst specs count).any
        (fun mount => mount.target = specs[index].target) =
          decide (index < count) := by
      rw [Bool.eq_iff_iff, List.any_eq_true, decide_eq_true_eq, ← mounted]
      simp [MountedAt]
    rw [← found]
    rfl
  · rw [show mountinfoOf none (mountedFirst specs count) = .notFound by
      simp [mountinfoOf, mt procMounted.mp started]]
    have early : ¬ index < count := by omega
    simp [LinuxPlatform.isMounted, early]

/-- What a run that starts with the first `count` filesystems leaves. -/
def MountsMore (specs : List MountSpec) (count : Nat)
    (result : Except String Unit) (after : List Mount) : Prop :=
  ∃ more, count ≤ more ∧ more ≤ specs.length ∧
    after = mountedFirst specs more ∧
    (result = .ok () ↔ more = specs.length)

theorem mountEach_ensures (distinct : (specs.map MountSpec.target).Nodup)
    (nonempty : 0 < specs.length) (proc : specs[0].target = "/proc")
    (fresh : ∀ spec ∈ specs, spec.Fresh) {index : Nat}
    (reached : index ≤ count) (bounded : count ≤ specs.length) :
    readableKernel.Ensures (MountsMore specs count)
      (mountEach (specs.drop index)) (mountedFirst specs count) := by
  induction gap : specs.length - index generalizing index count with
  | zero =>
      rw [List.drop_eq_nil_of_le (by omega)]
      refine Machine.done trivial ⟨count, le_rfl, bounded, rfl, ?_⟩
      have complete : count = specs.length := by omega
      simp [complete]
  | succ gap induction =>
      have inside : index < specs.length := by omega
      rw [List.drop_eq_getElem_cons inside, mountEach]
      apply Machine.call trivial
      intro refused answer after performed
      simp only [readableKernel, PlatformCall.perform,
        isMounted_mountedFirst distinct nonempty proc inside, Option.some.injEq,
        Prod.mk.injEq] at performed
      obtain ⟨rfl, rfl⟩ := performed
      by_cases present : index < count
      · simp only [present, decide_true, Except.toOption, Option.getD_some,
          if_true]
        exact induction (by omega) bounded (by omega)
      · have same : index = count := by omega
        subst same
        simp only [present, decide_false, Except.toOption, Option.getD_some,
          Bool.false_eq_true, if_false]
        apply Machine.call trivial
        intro refused answer after performed
        have isFresh := fresh specs[index] (List.getElem_mem inside)
        rcases PlatformCall.perform_mount isFresh
            (Option.some.inj performed) with
          ⟨rfl, rfl⟩ | ⟨error, rfl, rfl⟩
        · rw [← mountedFirst_succ inside]
          have rest : readableKernel.Ensures (MountsMore specs (index + 1))
              (mountEach (specs.drop (index + 1)))
              (mountedFirst specs (index + 1)) :=
            induction le_rfl inside (by omega)
          apply Setting.Protected.mono _ rest
          rintro result after ⟨more, grown, within, rfl, ended⟩
          exact ⟨more, by omega, within, rfl, ended⟩
        · refine Machine.done trivial
            ⟨index, le_rfl, bounded, rfl, ?_⟩
          constructor
          · intro impossible
            cases impossible
          · intro full
            omega

end Mounting

theorem mountEssential_ensures {count : Nat}
    (bounded : count ≤ essentialMounts.length) :
    readableKernel.Ensures (MountsMore essentialMounts count) mountEssential
      (mountedFirst essentialMounts count) :=
  mountEach_ensures (by decide) (by decide) (by decide) (by decide)
    (Nat.zero_le count) bounded

theorem essentialSystem_step {state next : EssentialState}
    {refusals : List (Option String)} {count : Nat}
    (bounded : count ≤ essentialMounts.length)
    (mounted : state.mounts = mountedFirst essentialMounts count)
    (stepped : essentialSystem.step state refusals = some next) :
    ∃ result, next.last = some result ∧
      MountsMore essentialMounts count result next.mounts := by
  simp only [essentialSystem] at stepped
  split at stepped
  · rename_i result after completed
    cases stepped
    rw [mounted] at completed
    exact ⟨result, rfl, Machine.post_of_returns
      (mountEssential_ensures bounded)
      (Machine.returns_of_complete completed)⟩
  · cases stepped

/-- The first filesystems of the list are mounted, and the last run says
whether these are all. -/
def EssentialState.InOrder (state : EssentialState) : Prop :=
  ∃ count ≤ essentialMounts.length,
    state.mounts = mountedFirst essentialMounts count ∧
    ∀ result, state.last = some result →
      (result = .ok () ↔ count = essentialMounts.length)

/-- However many runs there are and whatever is refused, the mounts are the
first ones of the list in order, each mounted once; a run succeeds exactly if
all of them are mounted in the end. -/
theorem essential_mounts_in_order {state : EssentialState}
    (reachable : essentialSystem.Reachable state) :
    ∃ count ≤ essentialMounts.length,
      state.mounts = mountedFirst essentialMounts count ∧
      (∀ result, state.last = some result →
        (result = .ok () ↔ count = essentialMounts.length)) ∧
      ∀ refusals next, essentialSystem.step state refusals = some next →
        ∃ more, count ≤ more ∧ more ≤ essentialMounts.length ∧
          next.mounts = mountedFirst essentialMounts more := by
  have inOrder : state.InOrder := by
    apply reachable.invariant
    · rintro start rfl
      refine ⟨0, Nat.zero_le _, rfl, ?_⟩
      intro result impossible
      cases impossible
    · rintro state refusals next stepped ⟨count, bounded, mounted, _⟩
      obtain ⟨result, last, more, _, within, after, ended⟩ :=
        essentialSystem_step bounded mounted stepped
      refine ⟨more, within, after, ?_⟩
      intro other same
      rw [last] at same
      cases same
      exact ended
  obtain ⟨count, bounded, mounted, ended⟩ := inOrder
  refine ⟨count, bounded, mounted, ended, ?_⟩
  intro refusals next stepped
  obtain ⟨_, _, more, grown, within, after, _⟩ :=
    essentialSystem_step bounded mounted stepped
  exact ⟨more, grown, within, after⟩

/-- `/dev` was refused. -/
def interruptedBoot : EssentialState :=
  { mounts := mountedFirst essentialMounts 2
    last := some (.error "mount /dev: EBUSY: Device or resource busy") }

theorem interruptedBoot_reachable :
    essentialSystem.Reachable interruptedBoot :=
  ⟨⟨[], none⟩, [[none, none, none, none, none,
    some "EBUSY: Device or resource busy"]], rfl, rfl⟩

theorem essential_mounts_in_order_interrupted :
    ∃ count ≤ essentialMounts.length,
      interruptedBoot.mounts = mountedFirst essentialMounts count ∧
        count ≠ essentialMounts.length := by
  obtain ⟨count, bounded, mounted, ended, _⟩ :=
    essential_mounts_in_order interruptedBoot_reachable
  refine ⟨count, bounded, mounted, ?_⟩
  intro full
  have impossible := (ended _ rfl).mpr full
  cases impossible

end MachinedRs
