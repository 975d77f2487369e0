import LibreCuda.Driver.Qmd
import LibreCuda.Foundation.Bytes
import LibreCuda.Queue.Commands

/-! # Launches, copies and events

`allocKernArgs`, `ensureEnoughLocalMem`, `launchFunction`, `gpuMemcpy` and `recordEvent`. -/

namespace LibreCuda

open Bytes

/-- `allocKernArgs`: take bytes from the kernel-argument page. The sum wraps. -/
def allocKernArgs (size : NvU64) : Driver NvU64 := do
  let h ← get
  if kernargsPageSize < h.queue.kernArgsWriteIdx + size then
    throw (.status .launchOutOfResources)
  else
    let ptr := h.queue.kernArgsPageVa + h.queue.kernArgsWriteIdx
    set { h with
      queue := { h.queue with kernArgsWriteIdx := h.queue.kernArgsWriteIdx + size }
      argRegions := h.argRegions ++ [(ptr, size)] }
    pure ptr

/-! ## Local memory -/

/-- The per-thread local memory reserved for a requirement; computed in 32 bits. -/
def slmPerThread (localMemReq : NvU32) : NvU64 := (ceilDiv localMemReq 32 * 32).setWidth 64

/-- `bytes_per_warp`; the quotient is computed in 32 bits. -/
def bytesPerWarp (currentSlmPerThread : NvU64) : NvU64 :=
  (ceilDiv ((currentSlmPerThread * 32).setWidth 32) (0x200 : NvU32) * 0x200).setWidth 64

/-- `bytes_per_tpc`. -/
def bytesPerTpc (currentSlmPerThread : NvU64) : NvU64 :=
  ceilDiv (bytesPerWarp currentSlmPerThread * 48 * 2) 0x8000 * 0x8000

/-- The part of `ensureEnoughLocalMem` that gives back what the function had. -/
def freeLocalMem (shaderLocalMemoryVa : NvU64) : Driver Unit :=
  Exec.onlyIf (shaderLocalMemoryVa != 0) <| onVm (gpuFree shaderLocalMemoryVa)

/-- The part of `ensureEnoughLocalMem` that reserves and announces the new local memory. -/
def growLocalMem (function : ℕ) (slm : NvU64) : Driver Unit := do
  modify fun h => { h with queue := { h.queue with currentSlmPerThread := slm } }
  let (va, _) ← onVm (gpuAlloc (ceilDiv (bytesPerTpc slm * 64) 0x20000 * 0x20000) true false)
  modify fun h => { h with
    functions := Function.update h.functions function
      { h.functions function with shaderLocalMemoryVa := va } }
  onTimeline (enqueue (makeNvMethod 1 nvc6c0SetShaderLocalMemoryA 2) [hi32 va, lo32 va] .compute)
  onTimeline (enqueue (makeNvMethod 1 nvc6c0SetShaderLocalMemoryNonThrottledA 3)
    [hi32 (bytesPerTpc slm), lo32 (bytesPerTpc slm), 0x40] .compute)

/-- `ensureEnoughLocalMem`: grow the local memory of the function when it needs more than the queue
has reserved so far. -/
def ensureEnoughLocalMem (function : ℕ) : Driver Unit := do
  let h ← get
  let f := h.functions function
  Exec.onlyIf (h.queue.currentSlmPerThread < f.localMemReq.setWidth 64) do
    freeLocalMem f.shaderLocalMemoryVa
    growLocalMem function (slmPerThread f.localMemReq)

/-! ## Kernel arguments -/

/-- `constbuf0_data`: the header in front of the kernel parameters. -/
def constbuf0Data (grid block : Dim3) : List NvU32 :=
  [block.x, block.y, block.z, grid.x, grid.y, grid.z,
    lo32 sharedMemWindow, hi32 sharedMemWindow, lo32 localMemWindow, hi32 localMemWindow,
    0xfffdc0, 0] ++ List.replicate 76 0

/-- `sizeof(constbuf0_data)`. -/
def constbuf0Bytes : NvU64 := 352

/-- The words written for one parameter of the given size, read from the caller's argument. Sizes
that are no multiple of a word are refused, except one and two bytes, which fill a word. -/
def paramWords (paramSize : ℕ) (arg : ℕ → NvU8) : Option (List NvU32) :=
  if paramSize = 8 then some [wordAt arg 0, wordAt arg 4]
  else if paramSize = 4 then some [wordAt arg 0]
  else if paramSize = 2 then some [(arg 1 ++ arg 0).setWidth 32]
  else if paramSize = 1 then some [(arg 0).setWidth 32]
  else if paramSize % 4 ≠ 0 then none
  else some ((List.range (paramSize / 4)).map fun k => wordAt arg (4 * k))

/-- The loop over the parameters: `i` counts arguments and `j` the words written so far. -/
def writeParams (kernargsBuf : NvU64) (params : ℕ → ℕ → NvU8) :
    List KernelParamInfo → ℕ → ℕ → Driver Unit
  | [], _, _ => pure ()
  | p :: rest, i, j =>
    match paramWords p.paramSize.toNat (params i) with
    | none => throw (.status .invalidValue)
    | some ws => do
      modify fun h => { h with
        mem := store h.mem (kernargsBuf + 4 * BitVec.ofNat 64 j) (ofWords ws) }
      writeParams kernargsBuf params rest (i + 1) (j + ws.length)

/-- `kernargs_size` for a constant bank of the given size. -/
def kernargsSize (constantSize : NvU64) : NvU64 :=
  roundUp constantSize (1 <<< 8 : NvU64) + (8 <<< 8 : NvU64)

/-- Fill an argument region of the given size with header and parameters. -/
def fillKernArgs (f : LibreCUFunction) (grid block : Dim3) (params : ℕ → ℕ → NvU8)
    (numParams kernargsPointer size : NvU64) : Driver Unit := do
  validate (constbuf0Bytes < size) .invalidImage
  modify fun h => { h with
    mem := store h.mem kernargsPointer (ofWords (constbuf0Data grid block)) }
  validate (constbuf0Bytes + numParams * 2 * 4 < size) .invalidImage
  writeParams (kernargsPointer + constbuf0Bytes) params f.paramInfo 0 0

/-- Allocate the argument region and fill it. -/
def writeKernArgs (f : LibreCUFunction) (grid block : Dim3) (params : ℕ → ℕ → NvU8)
    (numParams : NvU64) : Driver NvU64 := do
  match f.constants with
  | [] => throw (.status .invalidImage)
  | constant :: _ =>
    let kernargsPointer ← allocKernArgs (kernargsSize constant.size)
    fillKernArgs f grid block params numParams kernargsPointer (kernargsSize constant.size)
    pure kernargsPointer

/-! ## Launch limits -/

/-- `max_threads`: threads that fit in the register file; none if the rounding wraps to zero. -/
def maxThreads (numRegisters : NvU32) : Option NvU32 :=
  let d := roundUp (maxOf 1 numRegisters * 32) (256 : NvU32)
  if d = 0 then none else some (65536 / d / 4 * 4 * 32)

/-- The checks on the launch dimensions. -/
def checkLaunchDimensions (f : LibreCUFunction) (grid block : Dim3) (sharedMemBytes : NvU32) :
    Driver Unit := do
  match maxThreads f.numRegisters with
  | none => throw .crash
  | some maxThreads =>
    let blockProd := block.x * block.y * block.z
    Exec.onlyIf (sharedMemBytes < shmemUsage f sharedMemBytes &&
      (1024 < blockProd || maxThreads < blockProd)) <| throw (.status .launchOutOfResources)
    validate (block.x < 1024) .launchOutOfResources
    validate (block.y < 1024) .launchOutOfResources
    validate (block.z < 64) .launchOutOfResources
    validate (grid.x < 2147483647) .launchOutOfResources
    validate (grid.y < 65535) .launchOutOfResources
    validate (grid.z < 65535) .launchOutOfResources

/-- The loop over the constant banks writes within the descriptor. -/
def checkConstantBanks (f : LibreCUFunction) : Driver Unit :=
  Exec.require (f.constants.all KernelConstantInfo.inQmd) .crash

/-! ## Launching -/

/-- What a synchronous launch puts before itself: the release an asynchronous predecessor left out,
and an acquire of the last target, unless the CPU already sees it in `value`. -/
def synchronizeLaunch (value : NvU64) (async : Bool) : Exec CommandTimeline Failure Unit := do
  let t ← get
  Exec.onlyIf (!async && t.timelineNotifyPending) do
    signalNotify t.timelineSignal t.timelineCtr .compute
    modify fun t => { t with timelineNotifyPending := false }
  Exec.onlyIf (!async) <| signalWaitGpu value t.timelineSignal t.timelineCtr

/-- The commands of the launch itself, with the descriptor copied behind the arguments. -/
def enqueueLaunch (f : LibreCUFunction) (grid block : Dim3) (sharedMemBytes : NvU32)
    (kernargsPointer : NvU64) (async : Bool) : Driver Unit := do
  let h ← get
  let qmd := qmdData f grid block sharedMemBytes h.queue.currentSlmPerThread kernargsPointer
  let number := h.queue.timelineSteps + 1
  onTimeline (enqueue (makeNvMethod 1 nvc6c0InvalidateShaderCachesNoWfi 1) [0x1011] .compute)
  let qmdAddr := kernargsPointer + roundUp (f.constants.headD ⟨0, 0, 0⟩).size (1 <<< 8 : NvU64)
  modify fun h => { h with
    mem := store h.mem qmdAddr (ofWords ((List.range qmdWords).map qmd)) }
  onTimeline (enqueue (makeNvMethod 1 nvc6c0SendPcasA 1) [(qmdAddr >>> 8).setWidth 32] .compute)
  onTimeline (enqueue (makeNvMethod 1 nvc6c0SendSignalingPcas2B 1) [0x9] .compute
    (some ⟨number, async⟩))

/-- Record the operation that is about to get the next target. -/
def Host.addOperation (h : Host) (engine : QueueType) (async : Bool) (args : NvU64 × NvU64) :
    Host :=
  { h with operations := h.operations ++ [⟨h.queue.timelineSteps + 1, engine, async, args⟩] }

/-- The first part of `launchFunction`: select the compute mode, look after local memory, and
synchronise with what came before. -/
def prepareLaunch (function : ℕ) (async : Bool) : Driver Unit := do
  onTimeline (selectQueueType .compute)
  ensureEnoughLocalMem function
  let h ← get
  onTimeline (synchronizeLaunch (h.signals h.queue.timelineSignal).value async)

/-- The second part of `launchFunction`: the arguments, the limits and the launch itself. -/
def performLaunch (f : LibreCUFunction) (grid block : Dim3) (sharedMemBytes : NvU32)
    (params : ℕ → ℕ → NvU8) (numParams : NvU64) (async : Bool) : Driver Unit := do
  let kernargsPointer ← writeKernArgs f grid block params numParams
  checkLaunchDimensions f grid block sharedMemBytes
  checkConstantBanks f
  enqueueLaunch f grid block sharedMemBytes kernargsPointer async
  modify fun h => h.addOperation .compute async
    (kernargsPointer, kernargsSize (f.constants.headD ⟨0, 0, 0⟩).size)
  onTimeline (finishOperation .compute async)

/-- `launchFunction`; a missing function is the null pointer. The `i`-th argument points at the
bytes `params i`. -/
def launchFunction (function : Option ℕ) (grid block : Dim3) (sharedMemBytes : NvU32)
    (params : ℕ → ℕ → NvU8) (numParams : NvU64) (async : Bool) : Driver Unit := do
  match function with
  | none => throw (.status .invalidValue)
  | some function =>
    let h ← get
    let f := h.functions function
    validate (numParams.toNat == f.paramInfo.length) .invalidValue
    prepareLaunch function async
    performLaunch f grid block sharedMemBytes params numParams async

/-! ## Copies -/

/-- The part of `gpuMemcpy` that follows the change of mode. -/
def performCopy (dst src numBytes : NvU64) (async : Bool) : Driver Unit := do
  let h ← get
  onTimeline (enqueue (makeNvMethod 4 nvc6b5OffsetInUpper 4)
    [hi32 src, lo32 src, hi32 dst, lo32 dst] .dma)
  onTimeline (enqueue (makeNvMethod 4 nvc6b5LineLengthIn 1) [numBytes.setWidth 32] .dma)
  -- non-pipelined transfer between two pitch-linear buffers
  onTimeline (enqueue (makeNvMethod 4 nvc6b5LaunchDma 1) [0x182] .dma
    (some ⟨h.queue.timelineSteps + 1, async⟩))
  modify fun h => h.addOperation .dma async (0, 0)
  onTimeline (finishOperation .dma async)

/-- `gpuMemcpy`: a transfer on the copy engine. -/
def gpuMemcpy (dst src numBytes : NvU64) (async : Bool) : Driver Unit := do
  validate (dst != 0) .invalidValue
  validate (src != 0) .invalidValue
  validate (numBytes < 0xFFFFFFFF) .invalidValue
  onTimeline (selectQueueType .dma)
  performCopy dst src numBytes async

/-! ## Events -/

/-- The signal an event uses on an engine. -/
def LibreCUEvent.signal (e : LibreCUEvent) : QueueType → NvU64
  | .compute => e.computeSignal
  | .dma => e.dmaSignal

/-- Replace the signal an event uses on an engine. -/
def LibreCUEvent.setSignal (e : LibreCUEvent) (signal : NvU64) : QueueType → LibreCUEvent
  | .compute => { e with computeSignal := signal }
  | .dma => { e with dmaSignal := signal }

/-- Take a signal from the pool if the event has none for an engine. -/
def provideSignal (event : ℕ) (type : QueueType) : Driver Unit := do
  let h ← get
  Exec.onlyIf ((h.events event).signal type == 0) do
    let signal ← obtainSignal
    modify fun h => { h with
      events := Function.update h.events event ((h.events event).setSignal signal type) }

/-- Release the event's signal for an engine. -/
def notifyEvent (event : ℕ) (type : QueueType) : Driver Unit := do
  provideSignal event type
  let h ← get
  onTimeline (signalNotify ((h.events event).signal type) 1 type)

/-- `event->stream = pStream`. -/
def Host.setStream (h : Host) (event pStream : ℕ) : Host :=
  { h with
    events := Function.update h.events event { h.events event with stream := some pStream } }

/-- `recordEvent`: release the event's signal on the engine the queue is in the mode of. A queue
that is in no mode yet is put in compute mode. -/
def recordEvent (event : Option ℕ) (pStream : ℕ) : Driver Unit := do
  match event with
  | none => throw (.status .invalidValue)
  | some event =>
    modify fun h => h.setStream event pStream
    let h ← get
    match h.queue.currentQueueType with
    | some type => notifyEvent event type
    | none =>
      notifyEvent event .compute
      onTimeline <| modify fun t => { t with currentQueueType := some .compute }

end LibreCuda
