import MachinedRs.Foundation.System
import MachinedRs.Network.Config

/-!
# The config controller does not wake itself

The controller watches the specs it publishes.  A second pass with the same
config writes nothing and sends no event, so it does not start the next one,
exactly when the config does not ask for two different specs under one id: two
interfaces of one name with different link settings, or two routes over one
interface that differ in nothing but their metric.
-/

namespace MachinedRs

open Foundation

/-- A pass of the controller with some config, or an operation of any other
party. -/
inductive StoreMove where
  | pass (provider : Provider) (listings : List (List ResourceObject))
  | other (operation : Op)

/-- The stores that earlier passes of the controller leave behind, whatever
other parties do in between. -/
def networkStore : System Objects StoreMove :=
  { Initial := fun objects => objects = ∅
    step := fun objects move =>
      match move with
      | .pass provider listings =>
          (storeMachine.complete (NetworkConfigController.reconcile provider)
            objects listings).map fun (_, after, _) => after
      | .other operation => some (operation.after objects) }

theorem networkStore_wellKeyed {objects : Objects}
    (reached : networkStore.Reachable objects) :
    State.WellKeyed objects := by
  refine reached.invariant ?_ ?_
  · rintro _ rfl key object stored
    cases stored
  · intro before move after moved keyed
    cases move with
    | pass provider listings =>
        obtain ⟨⟨result, final, rest⟩, completed, rfl⟩ :=
          Option.map_eq_some_iff.mp moved
        exact Machine.post_of_returns (wellKeyed_ensures _ keyed)
          (Machine.returns_of_complete completed)
    | other operation =>
        cases moved
        exact keyed.after operation

theorem returns_of_announcing {α : Type}
    {program : Program stateSignature α} {objects final : Objects}
    {sent events : List Event} {value : α}
    (returns : announcing.Returns program (objects, sent) value
      (final, events)) :
    storeMachine.Returns program objects value final := by
  obtain ⟨listings, result⟩ := returns
  induction listings generalizing program objects sent with
  | nil =>
      rw [Machine.exec_nil] at result
      cases result
      exact ⟨[], rfl⟩
  | cons listing listings induction =>
      cases program with
      | done value => cases result
      | call operation next =>
          obtain ⟨⟨answer, after⟩, performed, continued⟩ :=
            Option.bind_eq_some_iff.mp result
          obtain ⟨found, answered, equality⟩ :=
            Option.map_eq_some_iff.mp performed
          cases equality
          obtain ⟨rest, later⟩ := induction continued
          refine ⟨listing :: rest, ?_⟩
          simp only [Machine.exec, storeMachine, answered, Option.map_some,
            Option.bind_some]
          exact later

section Again

variable {provider : Provider} {objects : Objects}

theorem Provider.silent_of_unambiguous (keyed : State.WellKeyed objects)
    (unambiguous : provider.network.Unambiguous)
    {middle final : Objects} {sent events : List Event}
    {first second : Result Unit}
    (ran : announcing.Returns (NetworkConfigController.reconcile provider)
      (objects, []) first (middle, sent))
    (again : announcing.Returns (NetworkConfigController.reconcile provider)
      (middle, []) second (final, events)) :
    final = middle ∧ events = [] := by
  have settles : storeMachine.Ensures _
      (NetworkConfigController.reconcile provider) objects :=
    reconcileEach_again keyed provider.desired_types_nodup
      provider.desired_ofType (provider.agreeing_iff.mpr unambiguous)
  have silent := Machine.post_of_returns (ensures_announcing settles) ran []
  have same := Machine.post_of_returns silent again
  cases same
  exact ⟨rfl, rfl⟩

theorem Provider.unambiguous_of_unchanged (keyed : State.WellKeyed objects)
    {middle : Objects} {sent events : List Event}
    {first second : Result Unit}
    (ran : announcing.Returns (NetworkConfigController.reconcile provider)
      (objects, []) first (middle, sent))
    (again : announcing.Returns (NetworkConfigController.reconcile provider)
      (middle, []) second (middle, events)) :
    provider.network.Unambiguous := by
  apply provider.agreeing_iff.mp
  intro group member
  exact agreeing_of_again keyed provider.desired_types_nodup
    provider.desired_ofType member (returns_of_announcing ran)
    (returns_of_announcing again)

end Again

/-- Running the controller twice in a row: the second pass changes nothing and
sends nothing if and only if the config is not ambiguous. -/
theorem second_pass_silent_iff (provider : Provider) {objects : Objects}
    (reached : networkStore.Reachable objects) :
    (∀ middle sent second final events,
      announcing.Returns (NetworkConfigController.reconcile provider)
        (objects, []) (.ok ()) (middle, sent) →
      announcing.Returns (NetworkConfigController.reconcile provider)
        (middle, []) second (final, events) →
      final = middle ∧ events = []) ↔
      provider.network.Unambiguous := by
  have keyed := networkStore_wellKeyed reached
  constructor
  · intro silent
    obtain ⟨first, ⟨middle, sent⟩, ran⟩ := announcing_total.returns
      (NetworkConfigController.reconcile provider) (objects, [])
    obtain ⟨second, ⟨final, events⟩, again⟩ := announcing_total.returns
      (NetworkConfigController.reconcile provider) (middle, [])
    have succeeded : first = .ok () :=
      (Machine.post_of_returns
        (reconcileEach_ensures keyed provider.desired_types_nodup
          provider.desired_ofType) (returns_of_announcing ran)).1
    subst succeeded
    obtain ⟨rfl, _⟩ := silent middle sent second final events ran again
    exact Provider.unambiguous_of_unchanged keyed ran again
  · intro unambiguous middle sent second final events ran again
    exact Provider.silent_of_unambiguous keyed unambiguous ran again

/-- A node with one interface that has an address and a default route. -/
def singleHomed : Provider :=
  { hostname := some "node-1"
    network :=
      { interfaces := [⟨"eth0", true, none, ["10.0.0.2/24"],
          [⟨none, .v4 0x0A000001, none⟩]⟩]
        nameservers := [.v4 0x01010101]
        search := [] } }

theorem singleHomed_unambiguous : singleHomed.network.Unambiguous := by
  refine ⟨?_, ?_⟩
  · intro one oneMember other otherMember _
    rw [List.mem_singleton.mp oneMember, List.mem_singleton.mp otherMember]
    exact ⟨rfl, rfl⟩
  · rintro link destination via metric otherMetric
      ⟨iface, member, _, route, isRoute, _, _, rfl⟩
      ⟨other, otherMember, _, otherRoute, isOther, _, _, rfl⟩
    cases List.mem_singleton.mp member
    cases List.mem_singleton.mp otherMember
    rw [List.mem_singleton.mp isRoute, List.mem_singleton.mp isOther]

theorem second_pass_silent_singleHomed :
    networkStore.Reachable ∅ ∧ singleHomed.network.Unambiguous ∧
      ∀ middle sent second final events,
        announcing.Returns (NetworkConfigController.reconcile singleHomed)
          (∅, []) (.ok ()) (middle, sent) →
        announcing.Returns (NetworkConfigController.reconcile singleHomed)
          (middle, []) second (final, events) →
        final = middle ∧ events = [] := by
  have reached : networkStore.Reachable ∅ := ⟨∅, [], rfl, rfl⟩
  exact ⟨reached, singleHomed_unambiguous,
    (second_pass_silent_iff singleHomed reached).mpr singleHomed_unambiguous⟩

/-- The same default route with two metrics. -/
def twoMetrics : Provider :=
  { hostname := none
    network :=
      { interfaces := [⟨"eth0", true, none, [],
          [⟨none, .v4 0x0A000001, some 100⟩,
            ⟨some "0.0.0.0/0", .v4 0x0A000001, some 200⟩]⟩]
        nameservers := []
        search := [] } }

/-- The objects of the links and of the route as the passes leave them. -/
def linkUp (name : String) : ResourceObject :=
  ((NetworkConfigController.obj name
    (.linkSpec ⟨name, true, none⟩)).withOwner
      NetworkConfigController.owner).fresh

def gatewayRoute (version : Nat) (metric : UInt32) : ResourceObject :=
  { metadata :=
      { Metadata.new networkNs .routeSpec "eth0/default/10.0.0.1" with
        version := version
        owner := some NetworkConfigController.owner }
    spec := .routeSpec ⟨none, some (.v4 0x0A000001), "eth0", metric⟩ }

/-- What the operations of the two passes list; an operation that lists nothing
has an empty entry. -/
def twoMetricsFirst : List (List ResourceObject) :=
  [[], [], [], [], [linkUp "eth0", linkUp "lo"], [], [], [], [], [],
    [gatewayRoute 2 200], [], []]

def twoMetricsSecond : List (List ResourceObject) :=
  [[], [], [linkUp "eth0", linkUp "lo"], [], [], [], [], [],
    [gatewayRoute 4 200], [], []]

/-- The second pass writes the first metric and then the second one again. -/
theorem second_pass_storms :
    networkStore.Reachable ∅ ∧
      ∃ middle sent second final events,
        announcing.Returns (NetworkConfigController.reconcile twoMetrics)
          (∅, []) (.ok ()) (middle, sent) ∧
        announcing.Returns (NetworkConfigController.reconcile twoMetrics)
          (middle, []) second (final, events) ∧
        events = [⟨.updated, gatewayRoute 3 100⟩,
          ⟨.updated, gatewayRoute 4 200⟩] := by
  have computed :
      ((announcing.complete (NetworkConfigController.reconcile twoMetrics)
        (∅, []) twoMetricsFirst).bind fun (first, state, _) =>
          (announcing.complete (NetworkConfigController.reconcile twoMetrics)
            (state.1, []) twoMetricsSecond).map fun (_, final, _) =>
              (first.isOk, final.2)) =
        some (true, [⟨.updated, gatewayRoute 3 100⟩,
          ⟨.updated, gatewayRoute 4 200⟩]) := by
    decide +kernel
  obtain ⟨⟨first, ⟨middle, sent⟩, rest⟩, ran, computed⟩ :=
    Option.bind_eq_some_iff.mp computed
  obtain ⟨⟨second, ⟨final, events⟩, left⟩, again, same⟩ :=
    Option.map_eq_some_iff.mp computed
  injection same with succeeded announced
  cases first with
  | error error => cases succeeded
  | ok value =>
      exact ⟨⟨∅, [], rfl, rfl⟩, middle, sent, second, final, events,
        Machine.returns_of_complete ran, Machine.returns_of_complete again,
        announced⟩

end MachinedRs
