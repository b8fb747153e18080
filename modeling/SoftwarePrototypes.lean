import SoftwarePrototypes.Interaction.Runs
import SoftwarePrototypes.Interaction.Programs
import SoftwarePrototypes.Interaction.Loops
import SoftwarePrototypes.Interaction.Rings
import SoftwarePrototypes.Interaction.Reachability
import SoftwarePrototypes.Interaction.Threads
import SoftwarePrototypes.Interaction.Traces
import SoftwarePrototypes.Interaction.Memory
import SoftwarePrototypes.Interaction.Arithmetic
import SoftwarePrototypes.Interaction.Caches
import SoftwarePrototypes.Interaction.Handshakes
import SoftwarePrototypes.DmaProxy.Interface
import SoftwarePrototypes.DmaProxy.Layout
import SoftwarePrototypes.DmaProxy.Driver
import SoftwarePrototypes.DmaProxy.Session
import SoftwarePrototypes.DmaProxy.SuccessSoundness
import SoftwarePrototypes.DmaProxy.Attribution
import SoftwarePrototypes.DmaProxy.SharedIndex
import SoftwarePrototypes.DmaProxy.Confinement
import SoftwarePrototypes.DmaProxy.Probe
import SoftwarePrototypes.DmaProxy.ResourceBalance
import SoftwarePrototypes.DmaProxy.EarlyUse
import SoftwarePrototypes.DmaProxy.Pipeline
import SoftwarePrototypes.DmaProxyTest.Threads
import SoftwarePrototypes.DmaProxyTest.Discipline
import SoftwarePrototypes.DmaProxyTest.Rounds
import SoftwarePrototypes.DmaProxyTest.Alone
import SoftwarePrototypes.DmaProxyTest.Bench
import SoftwarePrototypes.DmaProxyTest.Sizes
import SoftwarePrototypes.DmaProxyTest.Interleaving
import SoftwarePrototypes.DmaProxyTest.Verification
import SoftwarePrototypes.DmaProxyTest.GracefulStop
import SoftwarePrototypes.DmaProxyTest.OverDriver
import SoftwarePrototypes.DmaProxyTest.Lanes
import SoftwarePrototypes.DmaProxyTest.Refinement
import SoftwarePrototypes.Fsbl.Interface
import SoftwarePrototypes.Fsbl.Ranges
import SoftwarePrototypes.Fsbl.PartitionHeaders
import SoftwarePrototypes.Fsbl.ImageMover
import SoftwarePrototypes.Fsbl.Walks
import SoftwarePrototypes.Fsbl.Bench
import SoftwarePrototypes.Fsbl.VerifiedUse
import SoftwarePrototypes.Fsbl.EncryptionOnly
import SoftwarePrototypes.Fsbl.Visits
import SoftwarePrototypes.Fsbl.Transfers
import SoftwarePrototypes.Fsbl.HeaderArithmetic
import SoftwarePrototypes.Fsbl.TypeFlags
import SoftwarePrototypes.Fsbl.WalkOrder
import SoftwarePrototypes.Fsbl.HeaderBinding
import SoftwarePrototypes.Fsbl.Corruption
import SoftwarePrototypes.Fsbl.Independence
import SoftwarePrototypes.Fsbl.WarmRestart
import SoftwarePrototypes.Fsbl.BitstreamFlag
import SoftwarePrototypes.Fsbl.HandoffAddress
import SoftwarePrototypes.Fsbl.PointerWords
import SoftwarePrototypes.Fsbl.DdrBuilds
import SoftwarePrototypes.Fsbl.BootDevices
import SoftwarePrototypes.Fsbl.LoadRanges
import SoftwarePrototypes.Ssbl.Main
import SoftwarePrototypes.Ssbl.Agreement
import SoftwarePrototypes.IpiMessaging.Handlers
import SoftwarePrototypes.IpiMessaging.Acknowledgement
import SoftwarePrototypes.IpiMessaging.Pmu
import SoftwarePrototypes.IpiMessaging.EveryRound
import SoftwarePrototypes.IpiMessaging.StaleResponses
import SoftwarePrototypes.TripCounter.Programs
import SoftwarePrototypes.TripCounter.ExactlyOnce
import SoftwarePrototypes.TripCounter.LinuxPrograms
import SoftwarePrototypes.TripCounter.Commands
import SoftwarePrototypes.TripCounter.Resends
import SoftwarePrototypes.TripCounter.Devices
import SoftwarePrototypes.Si5381.Driver
import SoftwarePrototypes.Si5381.PageCache
import SoftwarePrototypes.Si5381.Programming
import SoftwarePrototypes.Si5381.Programmed
import SoftwarePrototypes.CacheCoherency.Programs
import SoftwarePrototypes.CacheCoherency.Configuration
import SoftwarePrototypes.CacheCoherency.Movements
import SoftwarePrototypes.CacheCoherency.Requests
import SoftwarePrototypes.CacheCoherency.Readbacks
import SoftwarePrototypes.CacheCoherency.Coherence
import SoftwarePrototypes.DmaProxyTest.Completion
