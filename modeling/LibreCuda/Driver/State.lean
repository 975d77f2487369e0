import LibreCuda.Driver.Method

/-! # State of the driver

The records of `cmdqueue.h` and `librecuda_internal.h` that the command queue reads and writes, and
the state `Host` of one stream together with the parts of the process it works on. Fields marked
*bookkeeping* are not in the source: they record what happened, and no modelled function reads
them. -/

namespace LibreCuda

/-! ## Command queue -/

/-- The engine a command is for (`QueueType`). -/
inductive QueueType
  | compute
  | dma
  deriving DecidableEq, Repr

/-- A command buffer set aside for its engine (`CommandBufSplit`). -/
structure CommandBufSplit where
  commandBuffer : List MethodCall
  queueType : QueueType
  timelineCtr : NvU32
  timelineNotifyPending : Bool
  deriving DecidableEq, Repr

/-- The fields of `NvCommandQueue` that build and order commands. -/
structure CommandTimeline where
  computeCommandBuffer : List MethodCall := []
  dmaCommandBuffer : List MethodCall := []
  /-- Address of the timeline signal; zero is the null pointer. -/
  timelineSignal : NvU64 := 0
  timelineCtr : NvU32 := 0
  timelineNotifyPending : Bool := false
  /-- The source leaves this field uninitialised; `none` is a value that names no engine. -/
  currentQueueType : Option QueueType
  commandBufBacklog : List CommandBufSplit := []
  /-- Bookkeeping: how often `timelineCtr` was incremented. -/
  timelineSteps : ℕ := 0
  /-- Bookkeeping: every `enqueue`, in order, with its engine. -/
  emitted : List (QueueType × MethodCall) := []

/-- The command buffer of an engine. -/
def CommandTimeline.commandBuffer (t : CommandTimeline) : QueueType → List MethodCall
  | .compute => t.computeCommandBuffer
  | .dma => t.dmaCommandBuffer

/-- Replace the command buffer of an engine. -/
def CommandTimeline.setCommandBuffer (t : CommandTimeline) (buffer : List MethodCall) :
    QueueType → CommandTimeline
  | .compute => { t with computeCommandBuffer := buffer }
  | .dma => { t with dmaCommandBuffer := buffer }

/-- A page commands are copied to for submission (`CommandQueuePage`), with its contents. -/
structure CommandQueuePage where
  commandQueueSpace : NvU64 := 0
  commandWriteIdx : ℕ := 0
  words : ℕ → NvU32 := fun _ => 0

/-- The command queue of a stream (`NvCommandQueue`). -/
structure NvCommandQueue extends CommandTimeline where
  computeQueuePage : CommandQueuePage := {}
  dmaQueuePage : CommandQueuePage := {}
  signalPool : NvU64 := 0
  freeSignals : List NvU32 := []
  currentSlmPerThread : NvU64 := 0
  kernArgsPageVa : NvU64
  kernArgsWriteIdx : NvU64 := 0
  initialized : Bool := false

/-- `local_mem_window`, which no function changes. -/
def localMemWindow : NvU64 := 0xff000000

/-- `shared_mem_window`, which no function changes. -/
def sharedMemWindow : NvU64 := 0xfe000000

/-- Words in a command page (`MAX_CMD_QUEUE_PAGE_SIZE`). -/
def maxCmdQueuePageSize : ℕ := 0x200000

/-- Signals in the pool (`MAX_SIGNAL_POOL_SIZE`). -/
def maxSignalPoolSize : ℕ := 65536

/-- Bytes in the kernel-argument page (`KERNARGS_PAGE_SIZE`). -/
def kernargsPageSize : NvU64 := 16 <<< 20

/-! ## Context, events and memory -/

/-- A channel ring (`GPFifo`) with its control words `GPGet` and `GPPut`. The GPU advances
`gpGet`; the driver only reads it. -/
structure GPFifo where
  ring : NvU32 → NvU64 := fun _ => 0
  entriesCount : NvU32 := 0x10000
  token : NvU32 := 0
  putValue : NvU32 := 0
  gpGet : NvU32 := 0
  gpPut : NvU32 := 0

/-- The fields of `LibreCUcontext_` that a stream uses. -/
structure LibreCUcontext where
  flags : NvU32
  computeClass : NvU32
  computeGpfifo : GPFifo := {}
  dmaGpfifo : GPFifo := {}
  /-- The doorbell word `gpu_mmio[0x90 / 4]` of the device. -/
  doorbell : NvU32 := 0

/-- `CU_CTX_SCHED_SPIN`. -/
def cuCtxSchedSpin : NvU32 := 0x01

/-- `CU_CTX_SCHED_YIELD`. -/
def cuCtxSchedYield : NvU32 := 0x02

/-- `CU_CTX_SCHED_BLOCKING_SYNC`. -/
def cuCtxSchedBlockingSync : NvU32 := 0x04

/-- A semaphore in memory (`NvSignal`). -/
structure NvSignal where
  value : NvU64 := 0
  timeStamp : NvU64 := 0
  deriving DecidableEq, Repr

/-- Bytes of one `NvSignal`. -/
def nvSignalBytes : NvU64 := 16

/-- An event (`LibreCUEvent_`); a signal address of zero is the null pointer. -/
structure LibreCUEvent where
  stream : Option ℕ := none
  computeSignal : NvU64 := 0
  dmaSignal : NvU64 := 0

/-- What one system call answered: whether the call itself succeeded, and the status and handle
fields it filled in. -/
structure SysReply where
  ret : Bool := true
  status : NvU32 := 0
  handle : NvU32 := 0

/-- The memory bookkeeping of `librecuda.cpp` for one context, and the system calls it makes: the
`n`-th call from now on is answered by `sysReply n`. -/
structure Vm where
  uvmVaddr : NvU64
  hostMappedPtrs : List (NvU64 × NvU64) := []
  vaToMemHandle : NvU64 → Option NvU32 := fun _ => none
  sysReply : ℕ → SysReply := fun _ => {}
  sysCalls : ℕ := 0
  /-- Bookkeeping: handles obtained by `RM_ALLOC` and not released. -/
  liveHandles : List NvU32 := []

/-- A loaded module (`LibreCUmodule_`). The source leaves the order of the functions to a hash. -/
structure LibreCUmodule where
  functions : List LibreCUFunction
  moduleVaAddr : NvU64
  deriving DecidableEq

/-! ## The stream -/

/-- Bookkeeping: an operation on the stream. Its number is the target its timeline release would
carry if the counter were unbounded. -/
structure Operation where
  number : ℕ
  engine : QueueType
  async : Bool
  /-- The region `allocKernArgs` returned, as start and size; empty for a copy. -/
  args : NvU64 × NvU64
  deriving DecidableEq, Repr

/-- Bookkeeping: what a call does that the GPU or the clock decides: commands handed to a channel,
and waits of the CPU for the timeline signal. -/
inductive HostEffect
  | submit (queueType : QueueType) (commands : List MethodCall)
  | waitCpu (pSignal : NvU64) (signalTarget : NvU32)
  deriving DecidableEq, Repr

/-- A stream and what it works on. -/
structure Host where
  queue : NvCommandQueue
  ctx : LibreCUcontext
  vm : Vm
  functions : ℕ → LibreCUFunction
  events : ℕ → LibreCUEvent := fun _ => {}
  signals : NvU64 → NvSignal := fun _ => {}
  mem : NvU64 → NvU8 := fun _ => 0
  /-- What the caller's `*pModule` holds. -/
  pModule : Option LibreCUmodule := none
  /-- The values of `GPGet` (compute, DMA) that the driver sees after its next CPU waits. -/
  progress : List (NvU32 × NvU32) := []
  /-- Bookkeeping: the operations enqueued so far. -/
  operations : List Operation := []
  /-- Bookkeeping: every region `allocKernArgs` handed out. -/
  argRegions : List (NvU64 × NvU64) := []
  /-- Bookkeeping: the effects of the calls so far, in program order. -/
  trace : List HostEffect := []

/-- Programs of the driver on a stream. -/
abbrev Driver (α : Type) : Type := Exec Host Failure α

/-- Fail with an error status unless the condition holds (`LIBRECUDA_VALIDATE`). -/
def validate {σ : Type} (c : Bool) (s : Status) : Exec σ Failure Unit :=
  Exec.require c (.status s)

@[simp] theorem wp_validate {σ : Type} (ok : Unit → σ → Prop) (err : Failure → σ → Prop) (s : σ)
    (c : Bool) (e : Status) :
    Exec.wp (validate c e) ok err s ↔ if c then ok () s else err (.status e) s :=
  Exec.wp_require ..

/-- Run a program on the command timeline of the stream. -/
def onTimeline {α : Type} (x : Exec CommandTimeline Failure α) : Driver α :=
  Exec.zoom (fun h => h.queue.toCommandTimeline)
    (fun t h => { h with queue := { h.queue with toCommandTimeline := t } }) x

/-- Run a program on the memory bookkeeping. -/
def onVm {α : Type} (x : Exec Vm Failure α) : Driver α :=
  Exec.zoom Host.vm (fun v h => { h with vm := v }) x

end LibreCuda
