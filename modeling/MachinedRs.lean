import MachinedRs.RuntimeCore.State
import MachinedRs.Resources.Resource
import MachinedRs.Foundation.System
import MachinedRs.RuntimeCore.Lifecycle
import MachinedRs.RuntimeCore.OptimisticConcurrency
import MachinedRs.RuntimeCore.EventLog
import MachinedRs.RuntimeCore.Owned
import MachinedRs.RuntimeCore.FinalizerProtocol
import MachinedRs.Foundation.Broadcast
import MachinedRs.RuntimeCore.ControllerLoop
import MachinedRs.Block.Backend
import MachinedRs.Block.Discovery
import MachinedRs.Block.Provision
import MachinedRs.RuntimeCore.Wakeup
import MachinedRs.Block.NonDestructive
import MachinedRs.Block.LayoutOnce
import MachinedRs.Foundation.Machine
import MachinedRs.RuntimeCore.OwnedPass
import MachinedRs.Block.Disk
import MachinedRs.Block.Scanned
import MachinedRs.Block.NodePass
import MachinedRs.Block.Reconvergence
import MachinedRs.Foundation.FileSystem
import MachinedRs.Boot.Bootloader
import MachinedRs.Boot.Pointer
import MachinedRs.Boot.PointerFlip
import MachinedRs.Boot.Imager
import MachinedRs.Boot.Upgrade
import MachinedRs.Boot.CommandLine
import MachinedRs.Boot.SlotSafety
import MachinedRs.RuntimeCore.Scope
import MachinedRs.Block.Barrier
import MachinedRs.Block.Reset
import MachinedRs.Foundation.FileTree
import MachinedRs.Pki.NodePki
import MachinedRs.Pki.Generation
import MachinedRs.Pki.Seed
import MachinedRs.Pki.Boots
import MachinedRs.Foundation.Kahn
import MachinedRs.Supervisor.StartOrder
import MachinedRs.Supervisor.Service
import MachinedRs.Supervisor.Gating
import MachinedRs.Supervisor.SpawnFailure
import MachinedRs.Supervisor.Reaper
import MachinedRs.Foundation.Numeral
import MachinedRs.Resources.IpText
import MachinedRs.Network.Config
import MachinedRs.Network.SelfStorm
import MachinedRs.Foundation.Custody
import MachinedRs.Network.SpecController
import MachinedRs.Network.Slots
import MachinedRs.Network.Convergence
import MachinedRs.Network.Address
import MachinedRs.Network.RouteLeak
import MachinedRs.RuntimeCore.Retry
import MachinedRs.RuntimeCore.InputOrder
import MachinedRs.RuntimeCore.Revival
import MachinedRs.Network.RtNetlink
import MachinedRs.Foundation.Topological
import MachinedRs.Supervisor.OrderContract
import MachinedRs.Foundation.Bytes
import MachinedRs.Foundation.LinkCalls
import MachinedRs.Foundation.Unpack
import MachinedRs.Imager.Apk
import MachinedRs.Imager.Cpio
import MachinedRs.Imager.Initramfs
import MachinedRs.Imager.InitramfsTree
import MachinedRs.Block.LayoutGuard
import MachinedRs.Block.OtherDisks
import MachinedRs.Boot.ImageBoot
import MachinedRs.Foundation.Directory
import MachinedRs.Foundation.FixedWidth
import MachinedRs.Imager.Fetch
import MachinedRs.Imager.Prune
import MachinedRs.Runtime.Pod
import MachinedRs.Supervisor.StopIntent
import MachinedRs.Time.Sntp
import MachinedRs.Block.Sysfs
import MachinedRs.Boot.BootMount
import MachinedRs.Time.Sync
import MachinedRs.Daemon.Shutdown
import MachinedRs.Platform.Mountinfo
import MachinedRs.Resources.IpRoundTrip
import MachinedRs.Supervisor.Backoff
