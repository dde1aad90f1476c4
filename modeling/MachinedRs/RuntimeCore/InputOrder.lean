import MachinedRs.RuntimeCore.FinalizedPass
import MachinedRs.RuntimeCore.OwnedContract

/-!
# The order of a consumer's inputs

The inputs of a pass come from a listing, whose order is that of a hash map.
The pass ends with the first input that cannot be served, so the order decides
which of the others are served, unless there are no others or nothing is ever
served.
-/

namespace MachinedRs

open Foundation

/-- Passes over the two lists invoke callbacks for the same objects and leave
the same store. -/
def SameEffect (outcome : Callback → Result Unit) (finalizer : String)
    (objects : Objects) (one other : List ResourceObject) : Prop :=
  ∀ result after otherResult otherAfter,
    (consumerMachine outcome).Returns (reconcileFinalized finalizer one)
      ⟨objects, []⟩ result after →
    (consumerMachine outcome).Returns (reconcileFinalized finalizer other)
      ⟨objects, []⟩ otherResult otherAfter →
    (∀ object, object ∈ after.invoked ↔ object ∈ otherAfter.invoked) ∧
      after.objects = otherAfter.objects

section Effects

variable {outcome : Callback → Result Unit} {finalizer : String}
  {objects : Objects} {one other : List ResourceObject}

theorem sameEffect_iff :
    SameEffect outcome finalizer objects one other ↔
      (∀ object,
        object ∈ (serveInputs outcome finalizer ⟨objects, []⟩ one).2.invoked ↔
          object ∈
            (serveInputs outcome finalizer ⟨objects, []⟩ other).2.invoked) ∧
      (serveInputs outcome finalizer ⟨objects, []⟩ one).2.objects =
        (serveInputs outcome finalizer ⟨objects, []⟩ other).2.objects := by
  have returned : ∀ (inputs : List ResourceObject) result after,
      (consumerMachine outcome).Returns (reconcileFinalized finalizer inputs)
        ⟨objects, []⟩ result after →
      after = (serveInputs outcome finalizer ⟨objects, []⟩ inputs).2 := by
    intro inputs result after returns
    have effect := Machine.post_of_returns
      (reconcileFinalized_ensures outcome finalizer inputs _) returns
    exact congrArg Prod.snd effect
  constructor
  · intro same
    obtain ⟨result, after, returns⟩ := (consumerMachine_total outcome).returns
      (reconcileFinalized finalizer one) ⟨objects, []⟩
    obtain ⟨otherResult, otherAfter, otherReturns⟩ :=
      (consumerMachine_total outcome).returns
        (reconcileFinalized finalizer other) ⟨objects, []⟩
    have effects := same result after otherResult otherAfter returns
      otherReturns
    rwa [returned one result after returns,
      returned other otherResult otherAfter otherReturns] at effects
  · intro same result after otherResult otherAfter returns otherReturns
    rwa [returned one result after returns,
      returned other otherResult otherAfter otherReturns]

theorem sameEffect_of_servable (perm : one.Perm other)
    (servable : ∀ object ∈ one, Servable outcome objects object)
    (distinct : (one.map ResourceObject.key).Nodup) :
    SameEffect outcome finalizer objects one other := by
  obtain ⟨after, served, here, outside⟩ :=
    serveInputs_of_servable finalizer ⟨objects, []⟩ servable distinct
  obtain ⟨otherAfter, otherServed, otherHere, otherOutside⟩ :=
    serveInputs_of_servable finalizer ⟨objects, []⟩
      (fun object member => servable object (perm.mem_iff.mpr member))
      ((perm.map ResourceObject.key).nodup_iff.mp distinct)
  rw [sameEffect_iff, served, otherServed]
  refine ⟨fun object => perm.mem_iff, ?_⟩
  apply Finmap.ext_lookup
  intro key
  by_cases listed : key ∈ one.map ResourceObject.key
  · obtain ⟨object, member, rfl⟩ := List.mem_map.mp listed
    rw [here object member, otherHere object (perm.mem_iff.mp member)]
  · rw [outside key listed, otherOutside key]
    rwa [← (perm.map ResourceObject.key).mem_iff]

theorem serveInputs_of_vanished {inputs : List ResourceObject}
    (vanished : ∀ object ∈ inputs, Vanished objects object) :
    (serveInputs outcome finalizer ⟨objects, []⟩ inputs).2 = ⟨objects, []⟩ := by
  cases inputs with
  | nil => rfl
  | cons object inputs =>
      rw [serveInputs,
        serveInput_of_vanished (vanished object List.mem_cons_self)]

theorem mem_invoked_of_head {object : ResourceObject}
    {inputs : List ResourceObject} (present : ¬ Vanished objects object) :
    object ∈ (serveInputs outcome finalizer ⟨objects, []⟩
      (object :: inputs)).2.invoked := by
  have invoked : object ∈
      (serveInput outcome finalizer ⟨objects, []⟩ object).2.invoked := by
    rw [serveInput_invoked present]
    exact List.mem_append_right _ (List.mem_singleton_self object)
  rw [serveInputs]
  split
  · rename_i after served
    rw [served] at invoked
    exact invoked_subset inputs after invoked
  · rename_i served
    rw [served] at invoked
    exact invoked

theorem invoked_of_failing_head {object : ResourceObject}
    {inputs : List ResourceObject}
    (fails : ¬ Servable outcome objects object) :
    ∀ other ∈ (serveInputs outcome finalizer ⟨objects, []⟩
      (object :: inputs)).2.invoked,
      other = object ∧ ¬ Vanished objects object := by
  intro other member
  rw [serveInputs_of_error fails] at member
  by_cases vanished : Vanished objects object
  · rw [serveInput_of_vanished vanished] at member
    cases member
  · rw [serveInput_invoked vanished, List.nil_append] at member
    exact ⟨List.mem_singleton.mp member, vanished⟩

end Effects

/-- Two inputs, one of which fails, and not all of which have vanished: which of
them comes first makes a difference. -/
theorem order_matters {outcome : Callback → Result Unit} {finalizer : String}
    {objects : Objects} {inputs : List ResourceObject}
    {failing second : ResourceObject} (member : failing ∈ inputs)
    (fails : ¬ Servable outcome objects failing)
    (secondMember : second ∈ inputs) (different : second ≠ failing)
    (traced : ¬ Vanished objects failing ∨ ¬ Vanished objects second) :
    ∃ one other, one.Perm inputs ∧ other.Perm inputs ∧
      ¬ SameEffect outcome finalizer objects one other := by
  refine ⟨failing :: inputs.erase failing, second :: inputs.erase second,
    (List.perm_cons_erase member).symm,
    (List.perm_cons_erase secondMember).symm, ?_⟩
  intro same
  obtain ⟨invoked, _⟩ := sameEffect_iff.mp same
  by_cases vanished : Vanished objects second
  · have present : ¬ Vanished objects failing :=
      traced.resolve_right (not_not.mpr vanished)
    have untried : ¬ Servable outcome objects second := by
      rintro ⟨stored, _⟩
      exact stored vanished.2
    obtain ⟨_, notVanished⟩ := invoked_of_failing_head untried failing
      ((invoked failing).mp (mem_invoked_of_head present))
    exact notVanished vanished
  · obtain ⟨isFailing, _⟩ := invoked_of_failing_head fails second
      ((invoked second).mpr (mem_invoked_of_head vanished))
    exact different isFailing

theorem exists_other {inputs : List ResourceObject}
    (distinct : inputs.Nodup) (several : 1 < inputs.length)
    (object : ResourceObject) : ∃ other ∈ inputs, other ≠ object := by
  by_contra none
  have within : inputs ⊆ [object] := by
    intro other member
    apply List.mem_singleton.mpr
    by_contra different
    exact none ⟨other, member, different⟩
  have short := (List.subperm_of_subset distinct within).length_le
  exact Nat.not_le_of_gt several short

/-- When the order of the inputs makes no difference: there is at most one
input, or all of them are stored and their callbacks succeed, or all of them
have vanished while running. -/
theorem input_order_irrelevant_iff (outcome : Callback → Result Unit)
    (finalizer : String) (objects : Objects) (inputs : List ResourceObject)
    (distinct : (inputs.map ResourceObject.key).Nodup) :
    (∀ one other, one.Perm inputs → other.Perm inputs →
      SameEffect outcome finalizer objects one other) ↔
      inputs.length ≤ 1 ∨
        (∀ object ∈ inputs, Servable outcome objects object) ∨
        ∀ object ∈ inputs, Vanished objects object := by
  constructor
  · intro irrelevant
    by_contra condition
    simp only [not_or, not_forall, Nat.not_le] at condition
    obtain ⟨several, ⟨failing, member, fails⟩,
      ⟨traced, tracedMember, present⟩⟩ := condition
    have second : ∃ second ∈ inputs, second ≠ failing ∧
        (¬ Vanished objects failing ∨ ¬ Vanished objects second) := by
      by_cases isFailing : traced = failing
      · subst isFailing
        obtain ⟨other, otherMember, different⟩ :=
          exists_other distinct.of_map several traced
        exact ⟨other, otherMember, different, .inl present⟩
      · exact ⟨traced, tracedMember, isFailing, .inr present⟩
    obtain ⟨second, secondMember, different, visible⟩ := second
    obtain ⟨one, other, onePerm, otherPerm, differs⟩ :=
      order_matters member fails secondMember different visible
    exact differs (irrelevant one other onePerm otherPerm)
  · intro condition one other onePerm otherPerm
    rcases condition with single | servable | vanished
    · have same : one = other := by
        match inputs with
        | [] => rw [onePerm.eq_nil, otherPerm.eq_nil]
        | [object] =>
            rw [List.perm_singleton.mp onePerm, List.perm_singleton.mp otherPerm]
        | _ :: _ :: _ =>
            simp at single
      rw [same, sameEffect_iff]
      exact ⟨fun _ => Iff.rfl, rfl⟩
    · exact sameEffect_of_servable (onePerm.trans otherPerm.symm)
        (fun object member =>
          servable object (onePerm.mem_iff.mp member))
        ((onePerm.map ResourceObject.key).nodup_iff.mpr distinct)
    · rw [sameEffect_iff,
        serveInputs_of_vanished fun object member =>
          vanished object (onePerm.mem_iff.mp member),
        serveInputs_of_vanished fun object member =>
          vanished object (otherPerm.mem_iff.mp member)]
      exact ⟨fun _ => Iff.rfl, rfl⟩

/-- A store with two running services. -/
def bothServices : Objects :=
  (Finmap.singleton etcdService.key etcdService.fresh).insert
    kubeletService.key kubeletService.fresh

def bothInputs : List ResourceObject :=
  [etcdService.fresh, kubeletService.fresh]

/-- Both callbacks succeed, in either order. -/
theorem input_order_irrelevant_succeeding :
    SameEffect (fun _ => .ok ()) "routes" bothServices bothInputs
      bothInputs.reverse := by
  have servable : ∀ object ∈ bothInputs,
      Servable (fun _ => .ok ()) bothServices object := by
    intro object member
    refine ⟨?_, rfl⟩
    rcases List.mem_cons.mp member with rfl | later
    · decide
    · rw [List.mem_singleton.mp later]
      decide
  exact (input_order_irrelevant_iff (fun _ => .ok ()) "routes" bothServices
    bothInputs (by decide)).mpr (.inr (.inl servable)) _ _ (.refl _)
      bothInputs.reverse_perm

/-- The callback for the second service fails. -/
def kubeletFails (callback : Callback) : Result Unit :=
  if callback = .apply kubeletService.fresh then
    .error (.controller "netlink error: timed out")
  else
    .ok ()

/-- Whether the first service is applied depends on the order of the listing. -/
theorem input_order_decides :
    ¬ SameEffect kubeletFails "routes" bothServices
      [etcdService.fresh, kubeletService.fresh]
      [kubeletService.fresh, etcdService.fresh] := by
  intro same
  obtain ⟨invoked, _⟩ := sameEffect_iff.mp same
  have first : etcdService.fresh ∈ (serveInputs kubeletFails "routes"
      ⟨bothServices, []⟩
      [etcdService.fresh, kubeletService.fresh]).2.invoked := by
    decide +kernel
  have second : etcdService.fresh ∉ (serveInputs kubeletFails "routes"
      ⟨bothServices, []⟩
      [kubeletService.fresh, etcdService.fresh]).2.invoked := by
    decide +kernel
  exact second ((invoked _).mp first)

end MachinedRs
