import MachinedRs.Resources.Metadata

/-!
# Typed resource specs

The closed `Resource` type and the stored objects, metadata plus spec.  Specs
are pure data; only their equality and their resource type matter to the store.
-/

namespace MachinedRs

structure MachineConfigSpec where
  rawYaml : String
deriving DecidableEq, Repr

inductive ServiceState where
  | preparing
  | waiting
  | stopped
  | running
  | finished
  | skipped
  | failed
deriving DecidableEq, Repr

structure ServiceStatusSpec where
  serviceId : String
  state : ServiceState
  healthy : Bool
  lastMessage : String
deriving DecidableEq, Repr

inductive IpAddr where
  | v4 (bits : BitVec 32)
  | v6 (bits : BitVec 128)
deriving DecidableEq, Repr

/-- An address with its prefix length. -/
structure AddrCidr where
  ip : IpAddr
  prefixLength : UInt8
deriving DecidableEq, Repr

structure LinkSpec where
  name : String
  up : Bool
  mtu : Option UInt32
deriving DecidableEq, Repr

structure AddressSpec where
  link : String
  address : AddrCidr
deriving DecidableEq, Repr

/-- Desired route; no destination means the default route. -/
structure RouteSpec where
  destination : Option AddrCidr
  gateway : Option IpAddr
  link : String
  metric : UInt32
deriving DecidableEq, Repr

structure HostnameSpec where
  hostname : String
deriving DecidableEq, Repr

structure ResolverSpec where
  nameservers : List IpAddr
  search : List String
deriving DecidableEq, Repr

structure LinkStatus where
  name : String
  up : Bool
  mtu : UInt32
  mac : String
deriving DecidableEq, Repr

structure AddressStatus where
  link : String
  address : AddrCidr
deriving DecidableEq, Repr

structure RouteStatus where
  destination : Option AddrCidr
  gateway : Option IpAddr
  link : String
deriving DecidableEq, Repr

/-- An enumerated block device. -/
structure DiskStatus where
  name : String
  path : String
  sizeBytes : Nat
  model : String
  serial : String
  rotational : Bool
  readOnly : Bool
deriving DecidableEq, Repr

/-- A discovered partition and its probed filesystem. -/
structure DiscoveredVolume where
  device : String
  disk : String
  partitionUuid : String
  partitionLabel : String
  partitionTypeGuid : String
  fsType : Option String
  fsLabel : Option String
  fsUuid : Option String
  sizeBytes : Nat
deriving DecidableEq, Repr

inductive VolumePhase where
  | provisioned
  | failed
deriving DecidableEq, Repr

/-- A managed volume the provisioner owns. -/
structure VolumeStatus where
  name : String
  device : String
  fs : String
  label : String
  phase : VolumePhase
deriving DecidableEq, Repr

structure MountStatus where
  volume : String
  source : String
  target : String
  fstype : String
  mounted : Bool
deriving DecidableEq, Repr

structure TimeStatus where
  synced : Bool
  server : String
  offsetNs : Int
  syncCount : Nat
deriving DecidableEq, Repr

structure RuntimeStatus where
  ready : Bool
  name : String
  version : String
deriving DecidableEq, Repr

inductive PodPhase where
  | pending
  | running
  | failed
deriving DecidableEq, Repr

structure PodStatus where
  name : String
  phase : PodPhase
  containerId : String
  podIp : String
  message : String
deriving DecidableEq, Repr

inductive UpgradePhase where
  | downloading
  | verifying
  | loaded
  | staged
  | failed
deriving DecidableEq, Repr

structure UpgradeStatus where
  phase : UpgradePhase
  message : String
deriving DecidableEq, Repr

/-- The closed set of resource specs. -/
inductive Resource where
  | machineConfig (spec : MachineConfigSpec)
  | serviceStatus (spec : ServiceStatusSpec)
  | linkSpec (spec : LinkSpec)
  | addressSpec (spec : AddressSpec)
  | routeSpec (spec : RouteSpec)
  | hostnameSpec (spec : HostnameSpec)
  | resolverSpec (spec : ResolverSpec)
  | linkStatus (spec : LinkStatus)
  | addressStatus (spec : AddressStatus)
  | routeStatus (spec : RouteStatus)
  | diskStatus (spec : DiskStatus)
  | discoveredVolume (spec : DiscoveredVolume)
  | volumeStatus (spec : VolumeStatus)
  | mountStatus (spec : MountStatus)
  | timeStatus (spec : TimeStatus)
  | runtimeStatus (spec : RuntimeStatus)
  | podStatus (spec : PodStatus)
  | upgradeStatus (spec : UpgradeStatus)
deriving DecidableEq, Repr

def Resource.resourceType : Resource → ResourceType
  | .machineConfig _ => .machineConfig
  | .serviceStatus _ => .serviceStatus
  | .linkSpec _ => .linkSpec
  | .addressSpec _ => .addressSpec
  | .routeSpec _ => .routeSpec
  | .hostnameSpec _ => .hostnameSpec
  | .resolverSpec _ => .resolverSpec
  | .linkStatus _ => .linkStatus
  | .addressStatus _ => .addressStatus
  | .routeStatus _ => .routeStatus
  | .diskStatus _ => .diskStatus
  | .discoveredVolume _ => .discoveredVolume
  | .volumeStatus _ => .volumeStatus
  | .mountStatus _ => .mountStatus
  | .timeStatus _ => .timeStatus
  | .runtimeStatus _ => .runtimeStatus
  | .podStatus _ => .podStatus
  | .upgradeStatus _ => .upgradeStatus

/-- A stored object: identity and life-cycle metadata plus its typed spec. -/
structure ResourceObject where
  metadata : Metadata
  spec : Resource
deriving DecidableEq, Repr

namespace ResourceObject

/-- A fresh object; the metadata's type is taken from the spec. -/
def new (ns : String) (id : String) (spec : Resource) :
    ResourceObject :=
  { metadata := Metadata.new ns spec.resourceType id
    spec := spec }

def key (object : ResourceObject) : Key :=
  object.metadata.key

@[simp] theorem new_key (ns id : String) (spec : Resource) :
    (new ns id spec).key = ⟨ns, spec.resourceType, id⟩ :=
  rfl

end ResourceObject

end MachinedRs
