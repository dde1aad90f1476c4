import MachinedRs.Block.Reset
import MachinedRs.Platform.Platform
import MachinedRs.RuntimeCore.ControllerLoop

/-!
# The daemon comes to rest before it lets go of its disks

The main task serves until a signal or a request ends it; then it stops the
controllers and the services, syncs, takes the volumes off and carries out the
request.  The controller loops look at the cancellation token only between two
passes, so a pass that is under way goes on for as long as it likes.  What a
pass does is left open: it may mount what it wants.
-/

namespace MachinedRs

open Foundation

inductive NodeAction where
  | reboot
  | shutdown
  | reset
  | upgrade (url sha256 : String)
deriving DecidableEq, Repr

inductive FinalAction where
  | stop
  | reboot
  | poweroff
  | reset
deriving DecidableEq, Repr

/-- What an action that is received leads to; a failed upgrade leads to
nothing.  `none` is a closed channel. -/
def finalAction (upgraded : Bool) : Option NodeAction → Option FinalAction
  | some .reboot => some .reboot
  | some .shutdown => some .poweroff
  | some .reset => some .reset
  | some (.upgrade _ _) => if upgraded then some .reboot else none
  | none => some .stop

def unmountOrder : List String :=
  ["/var", "/system/state", "/boot"]

inductive MainStage where
  | serving
  | cancelling
  | joiningRuntime
  /-- The API server is given five seconds and is then aborted. -/
  | joiningApi
  | stoppingServices
  | syncing
  /-- Look whether the first of the targets is mounted. -/
  | asking (targets : List String)
  | unmounting (target : String) (targets : List String)
  | detaching (target : String) (targets : List String)
  /-- Carry out what is left of `performReset`. -/
  | wiping (rest : Program blockControllerSignature Unit)
  | rebooting
  | poweringOff
  /-- The task has returned, or it is parked after a call that failed. -/
  | ended

def finalStage : FinalAction → MainStage
  | .stop => .ended
  | .reboot => .rebooting
  | .poweroff => .poweringOff
  | .reset => .wiping performReset

/-- The daemon; a pass of a controller is in some state `ρ`.  The last five
fields record what the main task has done: the mounts it found when all
controllers had returned, the targets it could not take off and the requests
it has received. -/
structure Daemon (ρ : Type) (count : Nat) where
  objects : Objects
  mounts : List Mount
  loops : Fin count → Loop ρ
  cancelled : Bool
  action : FinalAction
  stage : MainStage
  joined : List Mount
  servicesStopped : Bool
  synced : Bool
  failed : List String
  received : List NodeAction

structure MainChoice where
  listing : List ResourceObject
  platform : PlatformChoice
  reply : Reply

inductive DaemonMove (ρ : Type) (count : Nat) where
  /-- A controller loop moves; `sent` is what the store has sent so far. -/
  | loop (index : Fin count) (move : LoopMove) (sent : List Event)
  /-- A pass performs an operation, whatever it is. -/
  | controller (index : Fin count) (activity : ρ) (objects : Objects)
      (mounts : List Mount)
  | main (choice : MainChoice)
  /-- The main loop receives an action. -/
  | action (action : Option NodeAction) (upgraded : Bool)
  | signal
  /-- Someone else does something that does not concern the volumes. -/
  | outside (objects : Objects) (mounts : List Mount)

section Daemon

variable {ρ : Type} {count : Nat}

namespace Daemon

def Stopped (daemon : Daemon ρ count) : Prop :=
  ∀ index, (daemon.loops index).phase = .stopped

instance (daemon : Daemon ρ count) : Decidable daemon.Stopped :=
  decidable_of_iff (∀ index, (match (daemon.loops index).phase with
      | .stopped => true
      | _ => false) = true) (by
    apply forall_congr'
    intro index
    cases (daemon.loops index).phase <;> simp)

def leave (daemon : Daemon ρ count) (action : FinalAction) :
    Daemon ρ count :=
  { daemon with action := action, stage := .cancelling }

/-- The next operation of the main task.  A failure to unmount is logged
only. -/
def moveMain (daemon : Daemon ρ count) (choice : MainChoice) :
    Option (Daemon ρ count) :=
  match daemon.stage with
  | .serving => none
  | .cancelling =>
      some { daemon with cancelled := true, stage := .joiningRuntime }
  | .joiningRuntime =>
      if daemon.Stopped then
        some { daemon with joined := daemon.mounts, stage := .joiningApi }
      else
        none
  | .joiningApi => some { daemon with stage := .stoppingServices }
  | .stoppingServices =>
      some { daemon with servicesStopped := true, stage := .syncing }
  | .syncing =>
      some { daemon with synced := true, stage := .asking unmountOrder }
  | .asking [] => some { daemon with stage := finalStage daemon.action }
  | .asking (target :: targets) =>
      match LinuxPlatform.isMounted
          (mountinfoOf choice.platform.unreadable daemon.mounts) target
          daemon.mounts with
      | .ok true => some { daemon with stage := .unmounting target targets }
      | .ok false => some { daemon with stage := .asking targets }
      | .error _ => some { daemon with
          failed := target :: daemon.failed, stage := .asking targets }
  | .unmounting target targets =>
      match LinuxPlatform.unmount choice.platform.refused target
          daemon.mounts with
      | .ok mounts =>
          some { daemon with mounts := mounts, stage := .asking targets }
      | .error _ => some { daemon with stage := .detaching target targets }
  | .detaching target targets =>
      match LinuxPlatform.unmountLazy choice.platform.refused target
          daemon.mounts with
      | .ok mounts =>
          some { daemon with mounts := mounts, stage := .asking targets }
      | .error _ => some { daemon with
          failed := target :: daemon.failed, stage := .asking targets }
  | .wiping (.done _) => some { daemon with stage := .rebooting }
  | .wiping (.call (.inl operation) next) =>
      (Op.answer? daemon.objects choice.listing operation).map fun answer =>
        { daemon with
          objects := operation.after daemon.objects
          stage := .wiping (next answer) }
  | .wiping (.call (.inr call) next) =>
      some { daemon with stage := .wiping (next (call.answer choice.reply)) }
  | .rebooting => some { daemon with stage := .ended }
  | .poweringOff => some { daemon with stage := .ended }
  | .ended => none

def move (configs : Fin count → LoopConfig ρ) (daemon : Daemon ρ count) :
    DaemonMove ρ count → Option (Daemon ρ count)
  | .loop index move sent =>
      if move = .cancelled ∧ ¬ daemon.cancelled then
        none
      else
        ((daemon.loops index).step (configs index) sent move).map fun loop =>
          { daemon with loops := Function.update daemon.loops index loop }
  | .controller index activity objects mounts =>
      match daemon.loops index with
      | ⟨.reconciling _, position⟩ =>
          if MountedAt "/proc" mounts then
            some { daemon with
              objects := objects
              mounts := mounts
              loops := Function.update daemon.loops index
                ⟨.reconciling activity, position⟩ }
          else
            none
      | _ => none
  | .main choice => daemon.moveMain choice
  | .action action upgraded =>
      match daemon.stage with
      | .serving =>
          let heard :=
            { daemon with received := action.toList ++ daemon.received }
          some ((finalAction upgraded action).elim heard heard.leave)
      | _ => none
  | .signal =>
      match daemon.stage with
      | .serving => some (daemon.leave .stop)
      | _ => none
  | .outside objects mounts =>
      if MountedAt "/proc" mounts ∧ ∀ target ∈ unmountOrder,
          mountCount target mounts = mountCount target daemon.mounts then
        some { daemon with objects := objects, mounts := mounts }
      else
        none

end Daemon

def daemonSystem (configs : Fin count → LoopConfig ρ) :
    System (Daemon ρ count) (DaemonMove ρ count) :=
  { Initial := fun daemon =>
      daemon.stage = .serving ∧ daemon.received = [] ∧
        MountedAt "/proc" daemon.mounts
    step := Daemon.move configs }

end Daemon

namespace MainStage

def AfterJoin : MainStage → Prop
  | .serving => False
  | .cancelling => False
  | .joiningRuntime => False
  | _ => True

def pending : MainStage → List String
  | .asking targets => targets
  | .unmounting target targets => target :: targets
  | .detaching target targets => target :: targets
  | .wiping _ => []
  | .rebooting => []
  | .poweringOff => []
  | .ended => []
  | _ => unmountOrder

end MainStage

/-- The targets that are pending are mounted as often as in `joined`.  At the
others one mount is off, except where that failed. -/
def Unmounting (pending failed : List String) (joined mounts : List Mount) :
    Prop :=
  ∀ target ∈ unmountOrder,
    (target ∈ pending → mountCount target mounts = mountCount target joined) ∧
    (target ∉ pending → target ∈ failed ∨
      mountCount target mounts = mountCount target joined - 1)

theorem Unmounting.next {target : String} {targets failed later : List String}
    {joined mounts after : List Mount}
    (unmounting : Unmounting (target :: targets) failed joined mounts)
    (fresh : target ∉ targets)
    (elsewhere : ∀ other, other ≠ target →
      mountCount other after = mountCount other mounts)
    (more : ∀ other ∈ failed, other ∈ later)
    (here : target ∈ later ∨
      mountCount target after = mountCount target mounts - 1) :
    Unmounting targets later joined after := by
  intro other isOther
  obtain ⟨ahead, done⟩ := unmounting other isOther
  by_cases same : other = target
  · subst same
    rw [← ahead List.mem_cons_self]
    exact ⟨fun member => absurd member fresh, fun _ => here⟩
  · rw [elsewhere other same]
    refine ⟨fun member => ahead (List.mem_cons_of_mem target member), ?_⟩
    intro out
    have both : other ∉ target :: targets := by
      rw [List.mem_cons]
      exact fun either => either.elim same out
    exact (done both).imp (more other) id

section Daemon

variable {ρ : Type} {count : Nat} {daemon next : Daemon ρ count}

/-- What the main task has done before a stage, and what was asked for. -/
def Daemon.Prepared (daemon : Daemon ρ count) : Prop :=
  let rested := daemon.servicesStopped = true ∧ daemon.synced = true
  match daemon.stage with
  | .syncing => daemon.servicesStopped = true
  | .asking _ => rested
  | .unmounting _ _ => rested
  | .detaching _ _ => rested
  | .wiping _ => rested ∧ daemon.action = .reset
  | .rebooting => rested ∧ (daemon.action = .reboot ∨ daemon.action = .reset)
  | .poweringOff => rested ∧ daemon.action = .poweroff
  | .ended => rested
  | _ => True

/-- The main task does what a request that it has received leads to. -/
def Daemon.Asked (daemon : Daemon ρ count) : Prop :=
  daemon.stage = .serving ∨ daemon.action = .stop ∨
    ∃ request ∈ daemon.received, ∃ upgraded,
      finalAction upgraded (some request) = some daemon.action

theorem Daemon.moveMain_asked {choice : MainChoice}
    (moved : daemon.moveMain choice = some next) :
    daemon.stage ≠ .serving ∧ next.action = daemon.action ∧
      next.received = daemon.received := by
  grind [Daemon.moveMain, Option.map_eq_some_iff]

theorem Daemon.Asked.move {configs : Fin count → LoopConfig ρ}
    (asked : daemon.Asked) {move : DaemonMove ρ count}
    (moved : daemon.move configs move = some next) : next.Asked := by
  cases move with
  | loop index move sent =>
      obtain ⟨_, stepped⟩ := Option.ite_none_left_eq_some.mp moved
      obtain ⟨loop, _, rfl⟩ := Option.map_eq_some_iff.mp stepped
      exact asked
  | controller index activity objects mounts =>
      simp only [Daemon.move] at moved
      split at moved
      · obtain ⟨_, equality⟩ := Option.ite_none_right_eq_some.mp moved
        cases equality
        exact asked
      · cases moved
  | main choice =>
      obtain ⟨left, sameAction, sameReceived⟩ := Daemon.moveMain_asked moved
      unfold Daemon.Asked
      rw [sameAction, sameReceived]
      exact .inr (asked.resolve_left left)
  | action action upgraded =>
      simp only [Daemon.move] at moved
      split at moved
      · rename_i serving
        cases moved
        cases leads : finalAction upgraded action with
        | none => exact .inl serving
        | some final =>
            cases action with
            | none =>
                cases leads
                exact .inr (.inl rfl)
            | some request =>
                exact .inr (.inr ⟨request, List.mem_cons_self, upgraded,
                  leads⟩)
      · cases moved
  | signal =>
      simp only [Daemon.move] at moved
      split at moved
      · cases moved
        exact .inr (.inl rfl)
      · cases moved
  | outside objects mounts =>
      obtain ⟨_, equality⟩ := Option.ite_none_right_eq_some.mp moved
      cases equality
      exact asked

structure Daemon.Safe (daemon : Daemon ρ count) : Prop where
  proc : MountedAt "/proc" daemon.mounts
  prepared : daemon.Prepared
  distinct : ("/proc" :: daemon.stage.pending).Nodup
  stopped : daemon.stage.AfterJoin → daemon.Stopped
  unmounting : daemon.stage.AfterJoin →
    Unmounting daemon.stage.pending daemon.failed daemon.joined daemon.mounts

theorem Daemon.Safe.dealt {target : String} {targets failed : List String}
    {mounts : List Mount} (safe : daemon.Safe)
    (rested : daemon.servicesStopped = true ∧ daemon.synced = true)
    (joined : daemon.stage.AfterJoin)
    (pending : daemon.stage.pending = target :: targets)
    (more : ∀ other ∈ daemon.failed, other ∈ failed)
    (here : (mounts = daemon.mounts ∧
        (target ∈ failed ∨ mountCount target mounts = 0)) ∨
      ∃ refused, umountCall refused target daemon.mounts = .ok mounts) :
    { daemon with
      mounts := mounts, failed := failed, stage := .asking targets }.Safe := by
  have distinct := safe.distinct
  have unmounting := safe.unmounting joined
  rw [pending] at distinct unmounting
  obtain ⟨notProc, fresh, others⟩ :
      "/proc" ≠ target ∧ target ∉ targets ∧ ("/proc" :: targets).Nodup := by
    simp only [List.nodup_cons, List.mem_cons, not_or] at distinct ⊢
    tauto
  rcases here with ⟨rfl, without⟩ | ⟨refused, taken⟩
  · refine ⟨safe.proc, rested, others, fun _ => safe.stopped joined, fun _ =>
      unmounting.next fresh (fun _ _ => rfl) more (without.imp id ?_)⟩
    intro none
    rw [none]
  · have counts := mountCount_umountCall taken
    refine ⟨?_, rested, others, fun _ => safe.stopped joined, fun _ =>
      unmounting.next fresh ?_ more (.inr ?_)⟩
    · rw [mountedAt_iff, counts, if_neg notProc]
      exact mountedAt_iff.mp safe.proc
    · intro other different
      rw [counts, if_neg different, Nat.sub_zero]
    · rw [counts, if_pos rfl]

theorem Daemon.Safe.goOn (safe : daemon.Safe) (objects : Objects)
    {stage : MainStage}
    (prepared : { daemon with objects := objects, stage := stage }.Prepared)
    (joined : daemon.stage.AfterJoin)
    (pending : stage.pending = daemon.stage.pending) :
    { daemon with objects := objects, stage := stage }.Safe := by
  refine ⟨safe.proc, prepared, ?_, fun _ => safe.stopped joined, fun _ => ?_⟩
  · rw [pending]
    exact safe.distinct
  · rw [pending]
    exact safe.unmounting joined

theorem Daemon.Safe.moveMain (safe : daemon.Safe) {choice : MainChoice}
    (moved : daemon.moveMain choice = some next) : next.Safe := by
  have prepared := safe.prepared
  obtain ⟨objects, mounts, loops, cancelled, action, stage, joined,
    servicesStopped, synced, failed, received⟩ := daemon
  cases stage with
  | serving => cases moved
  | cancelling =>
      cases moved
      exact ⟨safe.proc, trivial, safe.distinct, False.elim, False.elim⟩
  | joiningRuntime =>
      obtain ⟨stopped, equality⟩ := Option.ite_none_right_eq_some.mp moved
      cases equality
      exact ⟨safe.proc, trivial, safe.distinct, fun _ => stopped, fun _ =>
        fun target isTarget =>
          ⟨fun _ => rfl, fun out => absurd isTarget out⟩⟩
  | joiningApi =>
      cases moved
      exact safe.goOn objects trivial trivial rfl
  | stoppingServices =>
      cases moved
      exact ⟨safe.proc, rfl, safe.distinct, safe.stopped, safe.unmounting⟩
  | syncing =>
      cases moved
      exact ⟨safe.proc, ⟨prepared, rfl⟩, safe.distinct, safe.stopped,
        safe.unmounting⟩
  | asking targets =>
      cases targets with
      | nil =>
          cases moved
          refine safe.goOn objects ?_ trivial ?_
          · cases action with
            | stop => exact prepared
            | reboot => exact ⟨prepared, .inl rfl⟩
            | poweroff => exact ⟨prepared, rfl⟩
            | reset => exact ⟨prepared, rfl⟩
          · cases action <;> rfl
      | cons target targets =>
          simp only [Daemon.moveMain] at moved
          split at moved
          · cases moved
            exact safe.goOn objects prepared trivial rfl
          · rename_i seen
            cases moved
            refine safe.dealt prepared trivial rfl (fun _ => id)
              (.inl ⟨rfl, .inr ?_⟩)
            rcases isMounted_spec seen with ⟨missing, _⟩ | ⟨_, exactly⟩
            · exact absurd safe.proc missing
            · by_contra mounted
              cases exactly.mpr
                (mountedAt_iff.mpr (Nat.pos_of_ne_zero mounted))
          · cases moved
            exact safe.dealt prepared trivial rfl
              (fun _ => List.mem_cons_of_mem target)
              (.inl ⟨rfl, .inl List.mem_cons_self⟩)
  | unmounting target targets =>
      simp only [Daemon.moveMain] at moved
      split at moved
      · rename_i taken
        cases moved
        exact safe.dealt prepared trivial rfl (fun _ => id)
          (.inr ⟨_, mapError_eq_ok_iff.mp taken⟩)
      · cases moved
        exact safe.goOn objects prepared trivial rfl
  | detaching target targets =>
      simp only [Daemon.moveMain] at moved
      split at moved
      · rename_i taken
        cases moved
        exact safe.dealt prepared trivial rfl (fun _ => id)
          (.inr ⟨_, mapError_eq_ok_iff.mp taken⟩)
      · cases moved
        exact safe.dealt prepared trivial rfl
          (fun _ => List.mem_cons_of_mem target)
          (.inl ⟨rfl, .inl List.mem_cons_self⟩)
  | wiping rest =>
      rcases rest with _ | ⟨operation | call, next⟩
      · cases moved
        exact safe.goOn objects ⟨prepared.1, .inr prepared.2⟩ trivial rfl
      · obtain ⟨answer, _, equality⟩ := Option.map_eq_some_iff.mp moved
        cases equality
        exact safe.goOn _ prepared trivial rfl
      · cases moved
        exact safe.goOn objects prepared trivial rfl
  | rebooting =>
      cases moved
      exact safe.goOn objects prepared.1 trivial rfl
  | poweringOff =>
      cases moved
      exact safe.goOn objects prepared.1 trivial rfl
  | ended => cases moved

theorem not_loopStep_of_stopped {config : LoopConfig ρ} {sent : List Event}
    {move : LoopMove} {loop after : Loop ρ} (stopped : loop.phase = .stopped) :
    ¬ LoopStep config sent move loop after := by
  intro step
  cases step with
  | begins beginning due =>
      cases stopped
      rcases due with due | due | ⟨due, _⟩ <;> cases due
  | drains quiet before after within =>
      cases stopped
      rcases before with before | before <;> cases before
  | _ => cases stopped

theorem Daemon.Safe.running (safe : daemon.Safe) (index : Fin count)
    (running : (daemon.loops index).phase ≠ .stopped) (objects : Objects)
    {mounts : List Mount} (proc : MountedAt "/proc" mounts)
    (loops : Fin count → Loop ρ) :
    { daemon with
      objects := objects, mounts := mounts, loops := loops }.Safe := by
  have early : ¬ daemon.stage.AfterJoin := fun joined =>
    running (safe.stopped joined index)
  exact ⟨proc, safe.prepared, safe.distinct, fun joined => absurd joined early,
    fun joined => absurd joined early⟩

theorem Daemon.Safe.leave (safe : daemon.Safe)
    (serving : daemon.stage = .serving) (action : FinalAction) :
    (daemon.leave action).Safe := by
  refine ⟨safe.proc, trivial, ?_, False.elim, False.elim⟩
  have distinct := safe.distinct
  rw [serving] at distinct
  exact distinct

theorem Daemon.Safe.move {configs : Fin count → LoopConfig ρ}
    (safe : daemon.Safe) {move : DaemonMove ρ count}
    (moved : daemon.move configs move = some next) : next.Safe := by
  cases move with
  | loop index move sent =>
      simp only [Daemon.move] at moved
      split at moved
      · cases moved
      · obtain ⟨loop, stepped, equality⟩ := Option.map_eq_some_iff.mp moved
        cases equality
        refine safe.running index ?_ daemon.objects safe.proc _
        exact fun stopped =>
          not_loopStep_of_stopped stopped (Loop.step_spec stepped)
  | controller index activity objects mounts =>
      simp only [Daemon.move] at moved
      split at moved
      · rename_i reconciling
        obtain ⟨proc, equality⟩ := Option.ite_none_right_eq_some.mp moved
        cases equality
        refine safe.running index ?_ objects proc _
        intro stopped
        rw [reconciling] at stopped
        cases stopped
      · cases moved
  | main choice => exact safe.moveMain moved
  | action action upgraded =>
      simp only [Daemon.move] at moved
      split at moved
      · rename_i serving
        cases moved
        cases finalAction upgraded action with
        | none =>
            exact ⟨safe.proc, safe.prepared, safe.distinct, safe.stopped,
              safe.unmounting⟩
        | some final =>
            have left := safe.leave serving final
            exact ⟨left.proc, left.prepared, left.distinct, left.stopped,
              left.unmounting⟩
      · cases moved
  | signal =>
      simp only [Daemon.move] at moved
      split at moved
      · rename_i serving
        cases moved
        exact safe.leave serving .stop
      · cases moved
  | outside objects mounts =>
      obtain ⟨⟨proc, counts⟩, equality⟩ :=
        Option.ite_none_right_eq_some.mp moved
      cases equality
      refine ⟨proc, safe.prepared, safe.distinct, safe.stopped, ?_⟩
      intro joined target isTarget
      rw [counts target isTarget]
      exact safe.unmounting joined target isTarget

/-- In every interleaving and whatever fails: once the main task has waited for
the runtime, every controller loop has returned and none acts again.  Services
are stopped and the disks synced before a volume is unmounted.  When volumes
are wiped, which only a reset that was received leads to, and when the node
reboots or powers off, one mount is off at each mountpoint since the last
controller returned, except where the unmount failed. -/
theorem shutdown_quiesces {configs : Fin count → LoopConfig ρ}
    (reachable : (daemonSystem configs).Reachable daemon) :
    (daemon.stage.AfterJoin → daemon.Stopped ∧
      ∀ index activity objects mounts, daemon.move configs
        (.controller index activity objects mounts) = none) ∧
    daemon.Prepared ∧ daemon.Asked ∧
    (daemon.stage.AfterJoin → daemon.stage.pending = [] →
      ∀ target ∈ unmountOrder, target ∈ daemon.failed ∨
        mountCount target daemon.mounts =
          mountCount target daemon.joined - 1) := by
  have safe : daemon.Safe := by
    apply reachable.invariant
    · rintro ⟨objects, mounts, loops, cancelled, action, stage, joined,
        servicesStopped, synced, failed, received⟩ ⟨serving, _, proc⟩
      cases serving
      have distinct : ("/proc" :: unmountOrder).Nodup := by decide
      exact ⟨proc, trivial, distinct, False.elim, False.elim⟩
    · intro _ _ _ moved safe
      exact safe.move moved
  have asked : daemon.Asked := by
    apply reachable.invariant
    · exact fun _ initial => .inl initial.1
    · exact fun _ _ _ moved asked => asked.move moved
  refine ⟨?_, safe.prepared, asked, ?_⟩
  · intro joined
    refine ⟨safe.stopped joined, ?_⟩
    intro index activity objects mounts
    have stopped := safe.stopped joined index
    simp only [Daemon.move]
    split
    · rename_i reconciling
      rw [reconciling] at stopped
      cases stopped
    · rfl
  · intro joined done target isTarget
    refine (safe.unmounting joined target isTarget).2 ?_
    rw [done]
    exact List.not_mem_nil

end Daemon

/-- One controller whose passes are not looked into. -/
def soleController (_ : Fin 1) : LoopConfig Unit :=
  { inputs := []
    resync := false
    capacity := channelCapacity
    reconcile := ()
    finished := fun _ => true }

def servingDaemon : Daemon Unit 1 :=
  { objects := ∅
    mounts := [(essentialMount "proc" "/proc" "proc").mounted]
    loops := fun _ => ⟨.starting, 0⟩
    cancelled := false
    action := .stop
    stage := .serving
    joined := []
    servicesStopped := false
    synced := false
    failed := []
    received := [] }

/-- A reset is asked for during a pass, which still mounts STATE. -/
def resetMoves : List (DaemonMove Unit 1) :=
  let main : DaemonMove Unit 1 :=
    .main ⟨[], ⟨none, none⟩, ⟨none, [], [], []⟩⟩
  [.loop 0 .watch [], .loop 0 .reconcileBegins [],
      .action (some .reset) false, main,
      .controller 0 () ∅ [⟨"/dev/vda2", "/system/state", "ext4", 0⟩,
        (essentialMount "proc" "/proc" "proc").mounted],
      .loop 0 .reconcileEnds [], .loop 0 .cancelled []] ++
    List.replicate 9 main

theorem shutdown_quiesces_reset :
    ∃ daemon : Daemon Unit 1, (daemonSystem soleController).Reachable daemon ∧
      daemon.Prepared ∧ daemon.received = [.reset] ∧
      mountCount "/system/state" daemon.joined = 1 ∧
      mountCount "/system/state" daemon.mounts = 0 := by
  have computed : ((daemonSystem soleController).run servingDaemon
      resetMoves).map (fun daemon => decide (daemon.failed = [] ∧
        daemon.received = [.reset] ∧
        mountCount "/system/state" daemon.joined = 1 ∧
        (match daemon.stage with
          | .wiping _ => true
          | _ => false) = true)) = some true := by
    decide +kernel
  obtain ⟨daemon, ran, holds⟩ := Option.map_eq_some_iff.mp computed
  obtain ⟨noneFailed, received, joined, wiping⟩ := of_decide_eq_true holds
  have reachable : (daemonSystem soleController).Reachable daemon :=
    ⟨servingDaemon, resetMoves, ⟨rfl, rfl, by decide⟩, ran⟩
  obtain ⟨_, prepared, _, off⟩ := shutdown_quiesces reachable
  have stage : daemon.stage.AfterJoin ∧ daemon.stage.pending = [] := by
    cases stage : daemon.stage with
    | wiping rest => exact ⟨trivial, rfl⟩
    | _ =>
        rw [stage] at wiping
        cases wiping
  have one := off stage.1 stage.2 "/system/state" (by decide)
  rw [noneFailed, joined] at one
  exact ⟨daemon, reachable, prepared, received, joined,
    one.resolve_left List.not_mem_nil⟩

end MachinedRs
