import NatBox.Lib.Runs
import NatBox.Lib.OnesComplement
import NatBox.Lib.BubbleSort
import NatBox.Lib.ByteMemory
import NatBox.Packet
import NatBox.Checksum
import NatBox.Forward.Table
import NatBox.Box
import NatBox.Forward.LongestPrefix
import NatBox.Nat.Rewrite
import NatBox.Nat.Flows
import NatBox.Forward.Datagram
import NatBox.Input
import NatBox.Nat.Answers
import NatBox.Nat.EchoChecksum
import NatBox.Nat.ReplyPath
import NatBox.Fragment.Table
import NatBox.Fragment.TableRuns
import NatBox.Lib.RingBuffer
import NatBox.Net.InputQueue
import NatBox.Fragment.Send
import NatBox.Lib.TailInsert
import NatBox.Fragment.Collect
import NatBox.Fragment.Partition
import NatBox.Fragment.Arrivals
import NatBox.Forward.TableRuns
import NatBox.Nat.Duplicates
import NatBox.Fragment.Sendto
import NatBox.Neighbour.Validate
import NatBox.Neighbour.Receive
import NatBox.Output.Fill
import NatBox.Neighbour.Messages
import NatBox.Neighbour.CacheRuns
import NatBox.Neighbour.Learning
import NatBox.Neighbour.Router
import NatBox.Output.SendIpv6Pkt
import NatBox.Output.Interfaces
import NatBox.Lib.BufferPool
import NatBox.Output.Buffers
import NatBox.Lib.BufferTrace
import NatBox.Net.Release
import NatBox.Lib.Spans
import NatBox.Memory.Heap
import NatBox.Memory.HeapRuns
import NatBox.Kernel.Queue
import NatBox.Kernel.Process
import NatBox.Kernel.Calls
import NatBox.Kernel.Moves
import NatBox.Kernel.Refine
import NatBox.Kernel.Steps
import NatBox.Kernel.Runs
import NatBox.Kernel.Agreement
import NatBox.Kernel.Priority
import NatBox.Lib.Deltas
import NatBox.Kernel.Sleepers
import NatBox.Kernel.Changes
import NatBox.Kernel.Lifetimes
import NatBox.ChecksumEnds
import NatBox.InternetChecksum
import NatBox.ChecksumVerdicts
import NatBox.Neighbour.RouterAdvert
import NatBox.Fragment.Bounds
import NatBox.Lib.FlagRing
import NatBox.Lib.Semaphore
import NatBox.Device.Ethernet
import NatBox.Kernel.Ports
import NatBox.Kernel.PortInvariant
import NatBox.Kernel.PortClear
import NatBox.Kernel.PortSteps
import NatBox.Kernel.PortRuns
import NatBox.Memory.BufferPools
import NatBox.Memory.BufferPoolRuns
import NatBox.Kernel.Messages
import NatBox.LocalFiles.Disk
import NatBox.LocalFiles.Operations
import NatBox.Fragment.Genuine
import NatBox.Fragment.Mtu
import NatBox.Neighbour.Reads
import NatBox.Neighbour.Scratch
import NatBox.Neighbour.Solicitation
import NatBox.Output.EchoReply
import NatBox.Forward.Resolve
import NatBox.Neighbour.OptionRoundTrip
import NatBox.Output.OptionFill
import NatBox.Fragment.Memory
import NatBox.Startup
import NatBox.LocalFiles.Layout
import NatBox.LocalFiles.Copies
import NatBox.LocalFiles.Setup
import NatBox.Lib.CString
import NatBox.Shell.Dot2ip
import NatBox.Shell.Lexan
import NatBox.Shell.CharToHex
import NatBox.Shell.AddNdEntry
import NatBox.Device.NameTable
import NatBox.Device.Multicast
import NatBox.Net.RawIn
import NatBox.Nat.Payload
import NatBox.Device.TtyInput
import NatBox.Fragment.TimeOut
import NatBox.Fragment.Nodes
import NatBox.LocalFiles.Create
import NatBox.LocalFiles.Refines
import NatBox.LocalFiles.Bytes
import NatBox.LocalFiles.Truncate
import NatBox.LocalFiles.Opening
import NatBox.LocalFiles.Calls
import NatBox.LocalFiles.FileRuns
import NatBox.LocalFiles.Ownership
import NatBox.LocalFiles.Durable
import NatBox.Stdlib.Qsort
import NatBox.Shell.Commands
import NatBox.Shell.Outcomes
import NatBox.Shell.Accepted
import NatBox.Lib.Words
import NatBox.Shell.Spawn
import NatBox.Device.TtyOutput
import NatBox.Neighbour.Link
import NatBox.Neighbour.LinkRuns
import NatBox.Stdlib.Renders
import NatBox.Stdlib.Atoi
import NatBox.Shell.AddFwdEntry
import NatBox.Shell.Printouts
import NatBox.Shell.Restore
