import LibreCuda.Driver.Alloc

/-! # Building commands

The functions of `NvCommandQueue` that append to the command buffers: `enqueue`, the signal pool,
`signalNotify`, `signalWaitGpu`, `backlogCurrentCmdBuffer`, and the change of queue mode that
`launchFunction` and `gpuMemcpy` start with. -/

namespace LibreCuda

/-- The engine that is not this one. -/
def QueueType.other : QueueType → QueueType
  | .compute => .dma
  | .dma => .compute

/-- Push what one `enqueue` pushes. -/
def CommandTimeline.push (t : CommandTimeline) (type : QueueType) (m : MethodCall) :
    CommandTimeline :=
  { t.setCommandBuffer (t.commandBuffer type ++ [m]) type with emitted := t.emitted ++ [(type, m)] }

/-- `enqueue`: the header is pushed before the number of arguments is checked against it. -/
def enqueue (method : NvMethod) (arguments : List NvU32) (type : QueueType)
    (op : Option OpTag := none) : Exec CommandTimeline Failure Unit := do
  let header : NvU32 := method.setWidth 32
  let nArguments := ((method >>> 16) &&& 0xFFF).toNat
  if nArguments = arguments.length then
    modify fun t => t.push type ⟨header, arguments, op⟩
  else
    modify fun t => t.push type ⟨header, [], none⟩
    throw (.status .invalidValue)

/-! ## Signals -/

/-- `obtainSignal`: take the first free signal of the pool. -/
def obtainSignal : Driver NvU64 := do
  let h ← get
  validate (h.queue.signalPool != 0) .notInitialized
  match h.queue.freeSignals with
  | [] => throw (.status .unknown)
  | signalIdx :: rest =>
    set { h with queue := { h.queue with freeSignals := rest } }
    pure (h.queue.signalPool + signalIdx.setWidth 64 * nvSignalBytes)

/-- `signalNotify`: release the signal with the target, on the engine's own semaphore methods. -/
def signalNotify (pSignal : NvU64) (signalTarget : NvU32) (type : QueueType) :
    Exec CommandTimeline Failure Unit := do
  validate (pSignal != 0) .invalidValue
  match type with
  | .compute =>
    -- release, wait for idle, 64-bit payload, with time stamp
    enqueue (makeNvMethod 0 nvc56fSemAddrLo 5)
      [lo32 pSignal, hi32 pSignal, signalTarget, 0, 0x03100001] .compute
    enqueue (makeNvMethod 4 nvc56fNonStallInterrupt 1) [0] .compute
  | .dma =>
    enqueue (makeNvMethod 4 nvc6b5SetSemaphoreA 3) [hi32 pSignal, lo32 pSignal, signalTarget] .dma
    enqueue (makeNvMethod 4 nvc6b5LaunchDma 1) [0x14] .dma

/-- `signalWaitGpu`: acquire on the compute engine, unless the CPU already sees the target. -/
def signalWaitGpu (value : NvU64) (pSignal : NvU64) (signalTarget : NvU32) :
    Exec CommandTimeline Failure Unit :=
  if value = signalTarget.setWidth 64 then pure ()
  else
    enqueue (makeNvMethod 0 nvc56fSemAddrLo 5)
      [lo32 pSignal, hi32 pSignal, signalTarget, 0, 0x01000000] .compute

/-! ## Queue modes -/

/-- Set the engine's buffer aside. -/
def CommandTimeline.backlog (t : CommandTimeline) (queueType : QueueType) : CommandTimeline :=
  { t.setCommandBuffer [] queueType with
    commandBufBacklog := t.commandBufBacklog ++
      [⟨t.commandBuffer queueType, queueType, t.timelineCtr, t.timelineNotifyPending⟩]
    timelineNotifyPending := false }

/-- `backlogCurrentCmdBuffer`: set the engine's buffer aside; an empty one is left alone. -/
def backlogCurrentCmdBuffer (queueType : QueueType) : Exec CommandTimeline Failure Unit :=
  modify fun t => if (t.commandBuffer queueType).isEmpty then t else t.backlog queueType

/-- How `launchFunction` (compute) and `gpuMemcpy` (DMA) switch the queue to their engine: at once
when the other engine's buffer is empty, and by setting that buffer aside when it is current. -/
def selectQueueType (type : QueueType) : Exec CommandTimeline Failure Unit := do
  let t ← get
  Exec.onlyIf (t.commandBuffer type.other).isEmpty <|
    modify fun t => { t with currentQueueType := some type }
  let t ← get
  Exec.onlyIf (t.currentQueueType == some type.other) do
    backlogCurrentCmdBuffer type.other
    modify fun t => { t with currentQueueType := some type }

/-- How both end: the operation gets the next target, which it releases itself unless it is
asynchronous. -/
def finishOperation (type : QueueType) (async : Bool) : Exec CommandTimeline Failure Unit := do
  modify fun t => { t with
    timelineCtr := t.timelineCtr + 1
    timelineSteps := t.timelineSteps + 1 }
  let t ← get
  if !async then
    signalNotify t.timelineSignal t.timelineCtr type
    modify fun t => { t with timelineNotifyPending := false }
  else
    modify fun t => { t with timelineNotifyPending := true }

end LibreCuda
