import KuiperCache.Library.Alignment
import KuiperCache.Library.BoundedFifo
import KuiperCache.Library.Avoids
import KuiperCache.Library.Cells
import KuiperCache.Library.Checked
import KuiperCache.Library.StableOrder
import KuiperCache.Library.LastMark
import KuiperCache.Library.Transition
import KuiperCache.Library.Tally
import KuiperCache.Library.Places
import KuiperCache.Library.RingBuffer
import KuiperCache.Packet.Command
import KuiperCache.Packet.Packet
import KuiperCache.Mshr.Target
import KuiperCache.Mshr.Mshr
import KuiperCache.Mshr.Waiting
import KuiperCache.Mshr.ServiceOrder
import KuiperCache.Mshr.Failures
import KuiperCache.Mshr.Flags
import KuiperCache.Mshr.Maintenance
import KuiperCache.Mshr.Isolation
import KuiperCache.Mshr.Handshake
import KuiperCache.Mshr.Pairing
import KuiperCache.Mshr.WriteMerge
import KuiperCache.Mshr.Coverage
import KuiperCache.Mshr.Prompt
import KuiperCache.Mshr.Drain
import KuiperCache.Mshr.Extraction
import KuiperCache.Library.SlotPool
import KuiperCache.Queue.Queue
import KuiperCache.Queue.Spec
import KuiperCache.Queue.Representation
import KuiperCache.Queue.ReadyOrder
import KuiperCache.Queue.Delay
import KuiperCache.Queue.WriteQueue
import KuiperCache.Queue.WriteContract
import KuiperCache.Cache.WriteAllocator
import KuiperCache.Tags.Tags
import KuiperCache.Cache.State
import KuiperCache.Cache.Response
import KuiperCache.Cache.Request
import KuiperCache.Cache.Arbitration
import KuiperCache.Cache.Frame
import KuiperCache.Cache.Answer
import KuiperCache.Cache.Miss
import KuiperCache.Cache.System
import KuiperCache.Cache.Entries
import KuiperCache.Cache.Eviction
import KuiperCache.Cache.PlainAccess
import KuiperCache.Cache.LockedPair
import KuiperCache.Cache.Sound
import KuiperCache.Cache.Uncacheable
import KuiperCache.Cache.Still
import KuiperCache.Cache.TempBlock
import KuiperCache.Cache.BlockedCauses
import KuiperCache.Tags.Address
import KuiperCache.Tags.Store
import KuiperCache.Tags.LoadLock
import KuiperCache.Tags.Lookup
import KuiperCache.Tags.BlockArray
import KuiperCache.Tags.Regenerate
import KuiperCache.Tags.FreeWays
import KuiperCache.Cache.MissTracking
import KuiperCache.Cache.LineFill
import KuiperCache.Cache.Moves
import KuiperCache.Cache.Permanent
import KuiperCache.Cache.Conservation
import KuiperCache.Cache.Transparency
import KuiperCache.Cache.FreeList
import KuiperCache.Cache.FlowControl
import KuiperCache.Cache.Shortage
import KuiperCache.Cache.RequestQueue
import KuiperCache.Cache.Draining
import KuiperCache.Cache.Lines
import KuiperCache.Cache.Turns
import KuiperCache.Cache.Reserve
import KuiperCache.Cache.PrefetchMark
import KuiperCache.Cache.Unasked
import KuiperCache.Cache.WakeUp
import KuiperCache.Memory.Memory
import KuiperCache.Memory.Transport
import KuiperCache.Memory.Downstream
import KuiperCache.Top.Fifo
import KuiperCache.Top.Ports
import KuiperCache.Top.OneLine
import KuiperCache.Cache.Writebacks
import KuiperCache.Prefetch.Queued
import KuiperCache.Prefetch.PriorityOrder
import KuiperCache.Prefetch.AlreadyQueued
import KuiperCache.Memory.Construct
import KuiperCache.Packet.RequestObject
import KuiperCache.Packet.Data
import KuiperCache.Cache.WriteStream
import KuiperCache.Cache.HoldBack
import KuiperCache.Queue.PacketQueue
import KuiperCache.Prefetch.Notify
import KuiperCache.Prefetch.Distinct
import KuiperCache.Prefetch.Tagged
import KuiperCache.Prefetch.SamePage
