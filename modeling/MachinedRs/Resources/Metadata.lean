import Mathlib.Data.Finmap

/-!
# Resource metadata

The identity and life-cycle fields that every resource carries, independent of
its typed spec.  The version is a `u64` counter in the source and a natural
number here; `RuntimeCore.Lifecycle` bounds it by the length of the run, so a
run has to perform `2 ^ 64` operations before the two could differ.
-/

namespace MachinedRs

/-- The closed set of resource types. -/
inductive ResourceType where
  | machineConfig
  | serviceStatus
  | linkSpec
  | addressSpec
  | routeSpec
  | hostnameSpec
  | resolverSpec
  | linkStatus
  | addressStatus
  | routeStatus
  | diskStatus
  | discoveredVolume
  | volumeStatus
  | mountStatus
  | timeStatus
  | runtimeStatus
  | podStatus
  | upgradeStatus
deriving DecidableEq, Repr

/-- Life-cycle phase of a resource. -/
inductive Phase where
  | running
  | tearingDown
deriving DecidableEq, Repr

/-- Fully qualifying identity of a resource within the store. -/
structure Key where
  ns : String
  typ : ResourceType
  id : String
deriving DecidableEq, Repr

structure Metadata where
  ns : String
  typ : ResourceType
  id : String
  version : Nat
  owner : Option String
  finalizers : List String
  phase : Phase
deriving DecidableEq, Repr

namespace Metadata

/-- Metadata of a freshly built resource: version 0, running, unowned. -/
def new (ns : String) (typ : ResourceType) (id : String) : Metadata :=
  { ns := ns
    typ := typ
    id := id
    version := 0
    owner := none
    finalizers := []
    phase := .running }

def key (metadata : Metadata) : Key :=
  ⟨metadata.ns, metadata.typ, metadata.id⟩

end Metadata

end MachinedRs
