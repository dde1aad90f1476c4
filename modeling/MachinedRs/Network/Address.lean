import MachinedRs.Network.Convergence

/-!
# Addresses converge

The address controller as the consumer of address specs.  The id of an address
spec determines the address, so no item is ever replaced in its slot.  In every
state that no further pass changes, the kernel, the specs and the statuses are
those of the second config.
-/

namespace MachinedRs

open Foundation NetworkConfigController

namespace FakeState

theorem lookup_of_mem_listAddresses {kernel : FakeState} {link : String}
    {address : AddrCidr} (member : address ∈ kernel.listAddresses link) :
    kernel.addrs.lookup link = some (kernel.listAddresses link) := by
  rw [listAddresses] at member ⊢
  cases found : kernel.addrs.lookup link with
  | none =>
      rw [found] at member
      cases member
  | some list => rfl

theorem mem_listAddresses_addAddress {kernel : FakeState} {link : String}
    {address : AddrCidr} (present : link ∈ kernel.links) (there : String)
    (other : AddrCidr) :
    other ∈ (kernel.addAddress link address).2.listAddresses there ↔
      (there = link ∧ other = address) ∨
        other ∈ kernel.listAddresses there := by
  rw [addAddress, if_pos present]
  by_cases here : there = link
  · subst here
    by_cases already : address ∈ kernel.listAddresses there
    · have same : (⟨kernel.links, kernel.addrs.insert there
          (kernel.listAddresses there), kernel.routes⟩ :
            FakeState).listAddresses there = kernel.listAddresses there := by
        rw [listAddresses, Finmap.lookup_insert]
        rfl
      simp only [if_pos already, same]
      constructor
      · intro member
        exact .inr member
      · rintro (⟨_, rfl⟩ | member)
        · exact already
        · exact member
    · have same : (⟨kernel.links, kernel.addrs.insert there
          (kernel.listAddresses there ++ [address]), kernel.routes⟩ :
            FakeState).listAddresses there =
          kernel.listAddresses there ++ [address] := by
        rw [listAddresses, Finmap.lookup_insert]
        rfl
      simp only [if_neg already, same, List.mem_append, List.mem_singleton,
        true_and]
      exact or_comm
  · simp [listAddresses, Finmap.lookup_insert_of_ne _ here, here]

theorem mem_listAddresses_delAddress (kernel : FakeState) (link : String)
    (address : AddrCidr) (there : String) (other : AddrCidr) :
    other ∈ (kernel.delAddress link address).2.listAddresses there ↔
      ¬ (there = link ∧ other = address) ∧
        other ∈ kernel.listAddresses there := by
  unfold delAddress
  by_cases here : there = link
  · subst here
    cases found : kernel.addrs.lookup there with
    | none => simp [listAddresses, found]
    | some list =>
        simp [listAddresses, found, Finmap.lookup_insert, and_comm]
  · have unchanged : (kernel.delAddress link address).2.listAddresses there =
        kernel.listAddresses there := by
      unfold delAddress
      split
      · simp [listAddresses, Finmap.lookup_insert_of_ne _ here]
      · rfl
    unfold delAddress at unchanged
    rw [unchanged]
    simp [here]

/-- Adding an address that is there changes nothing. -/
theorem addAddress_of_mem {kernel : FakeState} {link : String}
    {address : AddrCidr} (member : address ∈ kernel.listAddresses link) :
    (kernel.addAddress link address).2 = kernel := by
  unfold addAddress
  split
  · have same : kernel.addrs.insert link (kernel.listAddresses link) =
        kernel.addrs := by
      apply Finmap.ext_lookup
      intro other
      by_cases here : other = link
      · rw [here, Finmap.lookup_insert, lookup_of_mem_listAddresses member]
      · exact Finmap.lookup_insert_of_ne _ here
    simp only [if_pos member, same]
  · rfl

end FakeState

theorem AddressSpec.eq_iff {one other : AddressSpec} :
    one = other ↔ one.link = other.link ∧ one.address = other.address := by
  cases one
  cases other
  simp

theorem addressController_item? {resource : Resource} {spec : AddressSpec} :
    addressController.item? resource = some spec ↔
      resource = .addressSpec spec := by
  cases resource with
  | addressSpec other => simp [addressController]
  | _ => exact ⟨nofun, nofun⟩

def addressConsumer : SlotConsumer AddressSpec :=
  { addressController with
    holds := fun kernel spec => spec.address ∈ kernel.listAddresses spec.link
    ident := fun spec => addressId spec.link spec.address
    desired := fun provider => provider.network.addresses
    typed := ⟨nofun, fun _ => rfl⟩
    desired_mem := Provider.addresses_mem_desired
    status_foreign := by
      intro provider member
      change ResourceType.addressStatus ∈ [ResourceType.linkSpec, .addressSpec,
        .routeSpec, .hostnameSpec, .resolverSpec] at member
      revert member
      decide
    desired_item := by
      intro provider object member
      obtain ⟨link, address, _, rfl⟩ := NetworkSection.mem_addresses.mp member
      exact ⟨rfl, ⟨link, address⟩, rfl, rfl⟩
    item_inj := by
      intro one other spec oneFound otherFound
      rw [addressController_item?.mp oneFound,
        addressController_item?.mp otherFound]
    del_accepted := by
      intro kernel spec
      rw [FakeState.accepts_iff]
      exact nofun
    holds_add := by
      intro kernel spec accepted other
      have present : spec.link ∈ kernel.links :=
        (FakeState.accepts_iff _ _).mp accepted _ _ rfl
      rw [AddressSpec.eq_iff]
      exact FakeState.mem_listAddresses_addAddress present _ _
    holds_del := by
      intro kernel spec other
      rw [Ne, AddressSpec.eq_iff]
      exact FakeState.mem_listAddresses_delAddress _ _ _ _ _
    add_held := by
      intro kernel spec held
      exact FakeState.addAddress_of_mem held }

theorem addressConsumer_wanted {provider : Provider} {id : String}
    {spec : AddressSpec} :
    addressConsumer.wanted provider id = some spec ↔
      provider.network.Carries spec.link spec.address ∧
        id = addressId spec.link spec.address := by
  rw [SlotConsumer.wanted_iff NetworkSection.agreeing_addresses]
  constructor
  · rintro ⟨object, member, rfl, found⟩
    obtain ⟨link, address, carries, rfl⟩ :=
      NetworkSection.mem_addresses.mp member
    cases found
    exact ⟨carries, rfl⟩
  · rintro ⟨carries, rfl⟩
    exact ⟨addressObject spec.link spec.address,
      NetworkSection.mem_addresses.mpr ⟨_, _, carries, rfl⟩, rfl, rfl⟩

/-- The kernel, the address specs and the address statuses are exactly those of
the config. -/
structure NetworkWorld.MatchesAddresses (network : NetworkSection)
    (world : NetworkWorld) : Prop where
  kernel : ∀ link address, address ∈ world.kernel.listAddresses link ↔
    network.Carries link address
  specs : ∀ id spec phase,
    (∃ object, world.objects.lookup ⟨networkNs, .addressSpec, id⟩ =
        some object ∧ object.spec = spec ∧ object.metadata.phase = phase) ↔
      ∃ link address, network.Carries link address ∧
        id = addressId link address ∧
        spec = .addressSpec ⟨link, address⟩ ∧ phase = .running
  statuses : ∀ id spec,
    (∃ object, world.objects.lookup ⟨networkNs, .addressStatus, id⟩ =
        some object ∧ object.spec = spec) ↔
      ∃ link address, network.Carries link address ∧
        id = addressId link address ∧
        spec = .addressStatus ⟨link, address⟩

/-- The address specs, what the address statuses report and the addresses of
the kernel have not changed. -/
structure SameAddresses (before after : NetworkWorld) : Prop where
  specs : ∀ id, after.objects.lookup ⟨networkNs, .addressSpec, id⟩ =
    before.objects.lookup ⟨networkNs, .addressSpec, id⟩
  statuses : ∀ id,
    (after.objects.lookup ⟨networkNs, .addressStatus, id⟩).map
        ResourceObject.spec =
      (before.objects.lookup ⟨networkNs, .addressStatus, id⟩).map
        ResourceObject.spec
  kernel : ∀ link,
    after.kernel.listAddresses link = before.kernel.listAddresses link

section Converges

variable {first second : Provider} {kernel : FakeState}

theorem addresses_acceptable
    (present : ∀ provider, provider = first ∨ provider = second →
      ∀ link address, provider.network.Carries link address →
        link ∈ kernel.links) :
    addressConsumer.Acceptable first second kernel := by
  intro provider isConfig id spec isWanted
  obtain ⟨carries, _⟩ := addressConsumer_wanted.mp isWanted
  rw [FakeState.accepts_iff]
  intro link address same
  cases same
  exact present provider isConfig _ _ carries

theorem addresses_never_replaced (id : String) (one other : AddressSpec)
    (isFirst : addressConsumer.wanted first id = some one)
    (isSecond : addressConsumer.wanted second id = some other) :
    one = other := by
  obtain ⟨_, rfl⟩ := addressConsumer_wanted.mp isFirst
  obtain ⟨_, same⟩ := addressConsumer_wanted.mp isSecond
  exact AddressSpec.eq_iff.mpr (addressId_injective same)

/-- Fulfilled slots are the addresses of the config. -/
theorem matchesAddresses_of_fulfilled {world : NetworkWorld}
    (sound : addressConsumer.Sound world)
    (fulfilled : ∀ id, addressConsumer.slotOf world id =
      Slot.fulfilled addressConsumer.status
        (addressConsumer.wanted second id)) :
    world.MatchesAddresses second.network := by
  have serves : ∀ id, (addressConsumer.slotOf world id).Serves
      addressConsumer.status (addressConsumer.wanted second id) := by
    intro id
    rw [fulfilled id]
    exact Slot.serves_fulfilled _
  refine ⟨?_, ?_, ?_⟩
  · intro link address
    have holds := SlotConsumer.holds_iff_wanted fulfilled ⟨link, address⟩
    rw [addressConsumer_wanted] at holds
    exact holds.trans (and_iff_left rfl)
  · intro id spec phase
    have specs := SlotConsumer.spec_iff_wanted sound serves id spec phase
    refine specs.trans ?_
    constructor
    · rintro ⟨item, isWanted, found, running⟩
      obtain ⟨carries, sameId⟩ := addressConsumer_wanted.mp isWanted
      exact ⟨item.link, item.address, carries, sameId,
        addressController_item?.mp found, running⟩
    · rintro ⟨link, address, carries, sameId, sameSpec, running⟩
      exact ⟨⟨link, address⟩, addressConsumer_wanted.mpr ⟨carries, sameId⟩,
        addressController_item?.mpr sameSpec, running⟩
  · intro id spec
    refine (SlotConsumer.status_iff_wanted fulfilled id spec).trans ?_
    constructor
    · rintro ⟨item, isWanted, same⟩
      obtain ⟨carries, sameId⟩ := addressConsumer_wanted.mp isWanted
      exact ⟨item.link, item.address, carries, sameId, same⟩
    · rintro ⟨link, address, carries, sameId, same⟩
      exact ⟨⟨link, address⟩, addressConsumer_wanted.mpr ⟨carries, sameId⟩,
        same⟩

end Converges

/-- Whatever the order and number of passes, a state that neither controller
changes any more has exactly the addresses of the second config. -/
theorem addresses_converge (first second : Provider) (kernel : FakeState)
    (noAddresses : ∀ link, kernel.listAddresses link = [])
    (present : ∀ provider, provider = first ∨ provider = second →
      ∀ link address, provider.network.Carries link address →
        link ∈ kernel.links)
    {state : NetworkRun}
    (reached : (networkRuns AddressController.reconcile first second
      kernel).Reachable state)
    (quiet : Quiet SameAddresses AddressController.reconcile second
      state.world) :
    state.world.MatchesAddresses second.network := by
  have acceptable := addresses_acceptable present
  have nothing : ∀ spec, ¬ addressConsumer.holds kernel spec := by
    intro spec held
    have member : spec.address ∈ kernel.listAddresses spec.link := held
    rw [noAddresses] at member
    cases member
  have follows : addressConsumer.Follows first second kernel state :=
    SlotConsumer.follows_of_reachable acceptable nothing
      addresses_never_replaced reached
  apply matchesAddresses_of_fulfilled follows.fit.sound
  exact SlotConsumer.fulfilled_of_quiet acceptable
    (fun _ _ same => same.specs) follows quiet

/-- A node whose interface `eth0` has this one address. -/
def oneAddress (address : String) : Provider :=
  { hostname := none
    network :=
      { interfaces := [⟨"eth0", true, none, [address], []⟩]
        nameservers := []
        search := [] } }

theorem oneAddress_link {text link : String} {address : AddrCidr}
    (carries : (oneAddress text).network.Carries link address) :
    link ∈ bareKernel.links := by
  obtain ⟨iface, member, rfl, _⟩ := carries
  rw [List.mem_singleton.mp member]
  exact Finset.mem_singleton_self _

/-- The address of a node is changed: there is such a state, and it has the new
address alone. -/
theorem addresses_converge_changed :
    ∃ state : NetworkRun,
      (networkRuns AddressController.reconcile (oneAddress "10.0.0.2/24")
        (oneAddress "10.0.0.3/24") bareKernel).Reachable state ∧
      Quiet SameAddresses AddressController.reconcile
        (oneAddress "10.0.0.3/24") state.world ∧
      state.world.MatchesAddresses (oneAddress "10.0.0.3/24").network := by
  have noAddresses : ∀ link, bareKernel.listAddresses link = [] :=
    fun _ => rfl
  have present : ∀ provider, provider = oneAddress "10.0.0.2/24" ∨
      provider = oneAddress "10.0.0.3/24" → ∀ link address,
        provider.network.Carries link address → link ∈ bareKernel.links := by
    rintro provider (rfl | rfl) link address carries
    · exact oneAddress_link carries
    · exact oneAddress_link carries
  obtain ⟨state, reached, fit, slots⟩ := SlotConsumer.exists_rounds
    (addresses_acceptable present) (fun _ => nofun)
  have quiet := SlotConsumer.quiet_of_serves fit
    NetworkSection.agreeing_addresses (fun id => by
      rw [slots id]
      exact Slot.serves_rounds)
  have unchanged : Quiet SameAddresses AddressController.reconcile
      (oneAddress "10.0.0.3/24") state.world := by
    refine ⟨?_, ?_⟩
    · intro result after returns
      obtain ⟨specs, statuses, sameKernel⟩ := quiet.config result after returns
      exact ⟨specs, statuses, fun link => by rw [sameKernel]⟩
    · intro result after returns
      obtain ⟨specs, statuses, sameKernel⟩ := quiet.serve result after returns
      exact ⟨specs, statuses, fun link => by rw [sameKernel]⟩
  exact ⟨state, reached, unchanged, addresses_converge _ _ bareKernel
    noAddresses present reached unchanged⟩

end MachinedRs
