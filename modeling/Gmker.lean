import Gmker.Foundation.Runs
import Gmker.Foundation.Ring
import Gmker.Abi
import Gmker.Programs.Slots
import Gmker.Programs.Launch
import Gmker.Programs.Services
import Gmker.Foundation.WaitingLines
import Gmker.Programs.Kernel
import Gmker.Programs.OwnershipTracking
import Gmker.Programs.ResourceEffects
import Gmker.Programs.StepEffects
import Gmker.Programs.KernelEffects
import Gmker.Programs.Ownership
import Gmker.Programs.Handoff
import Gmker.Foundation.JobLedger
import Gmker.Programs.PeriodicTracking
import Gmker.Programs.PeriodicContract
import Gmker.Net.Tcp
import Gmker.Net.Store
import Gmker.Net.RxRing
import Gmker.Net.Conversation
import Gmker.Net.Refinement
import Gmker.Net.Receive
import Gmker.Net.Session
import Gmker.Net.Delivery
import Gmker.Net.Greeting
import Gmker.Net.Correlation
import Gmker.Foundation.FileCalls
import Gmker.Server.Files
import Gmker.Server.Commands
import Gmker.Server.Loop
import Gmker.Foundation.FileEffects
import Gmker.Server.Replies
import Gmker.Server.Walk
import Gmker.Server.Confinement
import Gmker.Server.Phases
import Gmker.Server.Framing
import Gmker.Foundation.StackMachine
import Gmker.Machine.ContextSwitch
import Gmker.Foundation.History
import Gmker.Virtio.Queues
import Gmker.Virtio.Transmit
import Gmker.Virtio.ReceiveWindow
import Gmker.Virtio.ReceiveQueue
import Gmker.Virtio.Reception
import Gmker.Programs.ControlFlow
import Gmker.Programs.SlotChanges
import Gmker.Programs.Lifecycle
import Gmker.Machine.KernelTicks
import Gmker.Foundation.FileContents
import Gmker.Server.Contents
import Gmker.Server.StoreMap
import Gmker.Server.StoreRuns
import Gmker.Server.Interleavings
import Gmker.Foundation.TreeListing
import Gmker.Server.Listing
import Gmker.Foundation.Feeding
import Gmker.Server.Stream
import Gmker.Server.Chunking
import Gmker.Foundation.ByteAreas
import Gmker.Image.Format
import Gmker.Image.Pack
import Gmker.Image.Load
import Gmker.Image.Agreement
import Gmker.Foundation.Outcomes
import Gmker.Foundation.TableForest
import Gmker.Memory.Paging
import Gmker.Memory.Translation
import Gmker.Memory.AddressSpaces
import Gmker.Memory.Entries
import Gmker.Memory.Building
import Gmker.Memory.Spaces
import Gmker.Memory.Arenas
import Gmker.Memory.Clearing
import Gmker.Memory.KernelTables
import Gmker.Memory.Isolation
import Gmker.Programs.UserMemory
import Gmker.Foundation.UsageRing
import Gmker.Programs.Accounting
import Gmker.Programs.Usage
import Gmker.Programs.UsageFigures
import Gmker.Programs.UsageIndependence
import Gmker.Net.Answers
import Gmker.Net.Handshake
import Gmker.Net.Numbering
import Gmker.Net.SenderStream
import Gmker.Server.ClientRequests
import Gmker.Foundation.HostCalls
import Gmker.Server.Storing
import Gmker.Foundation.InternetChecksum
import Gmker.Net.Checksum
import Gmker.Link.Ethernet
import Gmker.Link.Station
import Gmker.Link.Decoding
import Gmker.Link.Arrivals
import Gmker.Link.RoundTrip
import Gmker.Foundation.SlotTable
import Gmker.Link.ArpCache
import Gmker.Foundation.Loops
import Gmker.Link.Checksums
import Gmker.Link.Ping
import Gmker.Link.Exchange
import Gmker.Foundation.Windows
import Gmker.Link.Bounds
import Gmker.Memory.Regions
import Gmker.Foundation.DomainNames
import Gmker.Dns.Names
import Gmker.Programs.RoundRobin
import Gmker.Net.RxQueue
import Gmker.Programs.ExitStatus
import Gmker.Dns.Queries
