import LibreCuda.Queue.Commence
import LibreCuda.Queue.Launch
import LibreCuda.Queue.Rejection
import LibreCuda.Module.ArgumentAreas
import LibreCuda.Module.ParameterPlaces
import LibreCuda.Runtime.Streams
import LibreCuda.Queue.Targets
import LibreCuda.Queue.Batches
import LibreCuda.Queue.Updates
import LibreCuda.Fifo.Bounds
import LibreCuda.Fifo.Entries
import LibreCuda.Queue.Framing
import LibreCuda.Fifo.Retry
import LibreCuda.Stream.Barrier
import LibreCuda.Stream.Await
import LibreCuda.Runtime.Devices
import LibreCuda.Fifo.Page
import LibreCuda.Event.Signals
import LibreCuda.Event.Tracking
import LibreCuda.Module.Layout
import LibreCuda.Module.SharedMemory
import LibreCuda.Runtime.CopyCache
import LibreCuda.Runtime.CopyCoverage
import LibreCuda.Runtime.CopyDispatch
import LibreCuda.Runtime.Memory
import LibreCuda.Queue.ArgumentPage
import LibreCuda.Module.ConstantBanks
import LibreCuda.Queue.Limits
import LibreCuda.Module.SharedConfig
import LibreCuda.Module.StackSizes
import LibreCuda.Module.Records
import LibreCuda.Module.Failures
import LibreCuda.Module.Relocations
import LibreCuda.Module.Storage
import LibreCuda.Module.Metadata
import LibreCuda.Module.StackRecords
import LibreCuda.Module.SectionOrder
import LibreCuda.Module.Constants
import LibreCuda.Runtime.Ordinals
import LibreCuda.Runtime.Retries
import LibreCuda.Runtime.Heap
import LibreCuda.Runtime.HostMapped
import LibreCuda.Runtime.ChannelMemory
import LibreCuda.Foundation.Interleavings
import LibreCuda.Stream.Progress
import LibreCuda.Stream.Conservation
import LibreCuda.Stream.Intact
import LibreCuda.Stream.Sequential
import LibreCuda.Stream.Contention
import LibreCuda.Stream.Copies
