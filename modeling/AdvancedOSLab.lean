import AdvancedOSLab.Framework.System
import AdvancedOSLab.Framework.Response
import AdvancedOSLab.Framework.Durability
import AdvancedOSLab.Framework.Text
import AdvancedOSLab.Framework.Bytes
import AdvancedOSLab.Framework.Overlay
import AdvancedOSLab.Framework.BitMask
import AdvancedOSLab.Framework.LinkedList
import AdvancedOSLab.Framework.ForLoop
import AdvancedOSLab.Framework.RoundRobin
import AdvancedOSLab.Framework.CriticalSection
import AdvancedOSLab.Framework.TailQueue
import AdvancedOSLab.Framework.Refinement
import AdvancedOSLab.Framework.Linearizability
import AdvancedOSLab.GTStore.Storage
import AdvancedOSLab.GTStore.Manager
import AdvancedOSLab.GTStore.Client
import AdvancedOSLab.GTStore.Table
import AdvancedOSLab.GTStore.Membership
import AdvancedOSLab.GTStore.Placement
import AdvancedOSLab.GTStore.MessageSizes
import AdvancedOSLab.GTStore.NodeMap
import AdvancedOSLab.GTStore.ReadOnly
import AdvancedOSLab.GTStore.Cluster
import AdvancedOSLab.GTStore.Routing
import AdvancedOSLab.GTStore.Convergence
import AdvancedOSLab.GTStore.Backwards
import AdvancedOSLab.GTStore.Failover
import AdvancedOSLab.GTStore.Linearizable
import AdvancedOSLab.GTStore.Integrity
import AdvancedOSLab.GTFS.Log
import AdvancedOSLab.GTFS.RoundTrip
import AdvancedOSLab.GTFS.Recovery
import AdvancedOSLab.GTFS.Read
import AdvancedOSLab.GTFS.LogOrder
import AdvancedOSLab.GTFS.Process
import AdvancedOSLab.GTFS.Calls
import AdvancedOSLab.GTFS.FileTable
import AdvancedOSLab.GTFS.FileLimit
import AdvancedOSLab.GTFS.Reopen
import AdvancedOSLab.GTFS.Abort
import AdvancedOSLab.GTFS.ReadCalls
import AdvancedOSLab.GTFS.NoTrace
import AdvancedOSLab.GTFS.Separation
import AdvancedOSLab.GTFS.OpenFiles
import AdvancedOSLab.GTFS.Lengths
import AdvancedOSLab.GTFS.Clean
import AdvancedOSLab.GTFS.Settled
import AdvancedOSLab.GTFS.Durability
import AdvancedOSLab.GTThreads.Runqueue
import AdvancedOSLab.GTThreads.Schedule
import AdvancedOSLab.GTThreads.BestPick
import AdvancedOSLab.GTThreads.GroupMask
import AdvancedOSLab.GTThreads.Conservation
import AdvancedOSLab.GTThreads.LinkedSchedule
import AdvancedOSLab.GTThreads.Linked
import AdvancedOSLab.GTThreads.Spinlock
import AdvancedOSLab.GTThreads.LockedQueues
import AdvancedOSLab.GTThreads.Starvation
import AdvancedOSLab.GTThreads.AppExit
import AdvancedOSLab.GTThreads.Balance
import AdvancedOSLab.GTThreads.Sections
import AdvancedOSLab.GTThreads.Context
import AdvancedOSLab.GTThreads.Quit
import AdvancedOSLab.GTThreads.Credits
import AdvancedOSLab.GTThreads.CpuTime
import AdvancedOSLab.GTThreads.Idle
import AdvancedOSLab.GTThreads.MulMat
import AdvancedOSLab.TinyFile.Entry
import AdvancedOSLab.TinyFile.Search
import AdvancedOSLab.TinyFile.Slots
import AdvancedOSLab.TinyFile.Progress
import AdvancedOSLab.TinyFile.ClientMain
import AdvancedOSLab.TinyFile.Compress
import AdvancedOSLab.TinyFile.Registration
import AdvancedOSLab.TinyFile.Registry
