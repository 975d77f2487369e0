import LibreCuda.Queue.Commands

/-! # Submitting and waiting

`submitToFifo`, `signalWaitCpu`, `startExecution`, `awaitExecution` and `initializeQueue`. A wait of
the CPU is recorded as an effect and taken to return; what the GPU does meanwhile is the subject of
the system model. -/

namespace LibreCuda

/-- The page of an engine. -/
def NvCommandQueue.page (q : NvCommandQueue) : QueueType → CommandQueuePage
  | .compute => q.computeQueuePage
  | .dma => q.dmaQueuePage

/-- Replace the page of an engine. -/
def NvCommandQueue.setPage (q : NvCommandQueue) (page : CommandQueuePage) :
    QueueType → NvCommandQueue
  | .compute => { q with computeQueuePage := page }
  | .dma => { q with dmaQueuePage := page }

/-- The ring of an engine. -/
def LibreCUcontext.gpfifo (c : LibreCUcontext) : QueueType → GPFifo
  | .compute => c.computeGpfifo
  | .dma => c.dmaGpfifo

/-- Replace the ring of an engine. -/
def LibreCUcontext.setGpfifo (c : LibreCUcontext) (fifo : GPFifo) : QueueType → LibreCUcontext
  | .compute => { c with computeGpfifo := fifo }
  | .dma => { c with dmaGpfifo := fifo }

/-- `memcpy` of a command buffer into a page at a word index. -/
def CommandQueuePage.copyIn (page : CommandQueuePage) (idx : ℕ) (words : List NvU32) :
    CommandQueuePage :=
  { page with
    commandWriteIdx := idx + words.length
    words := fun i => if idx ≤ i then (words[i - idx]?).getD (page.words i) else page.words i }

/-- Address of the word at an index of a page. -/
def CommandQueuePage.wordAddress (page : CommandQueuePage) (idx : ℕ) : NvU64 :=
  page.commandQueueSpace + 4 * BitVec.ofNat 64 idx

/-- The ring entry of `n` words at an address. -/
def gpEntry (address : NvU64) (n : ℕ) : NvU64 :=
  ((address / 4) <<< 2) ||| (BitVec.ofNat 64 n <<< 42) ||| (1 <<< 41)

/-- The check made when the commands do not fit behind the write index: the oldest entry of the ring
starts behind the words about to be overwritten, or the ring is empty. -/
def GPFifo.mayWrap (fifo : GPFifo) (page : CommandQueuePage) (n : ℕ) : Bool :=
  page.wordAddress n ≤ (fifo.ring fifo.gpGet &&& 0xFFFFFFFFFC) || fifo.gpGet == fifo.gpPut

/-- `n` words fit in the engine's page behind its write index. -/
def Host.fitsPage (h : Host) (queueType : QueueType) (n : ℕ) : Bool :=
  (h.queue.page queueType).commandWriteIdx + n ≤ maxCmdQueuePageSize

/-- The words can be copied: they fit, or the page may be reused from its start. -/
def Host.maySubmit (h : Host) (queueType : QueueType) (n : ℕ) : Bool :=
  h.fitsPage queueType n || (h.ctx.gpfifo queueType).mayWrap (h.queue.page queueType) n

/-- Copy the engine's buffer to its page and put an entry on its ring. -/
def Host.submitted (h : Host) (queueType : QueueType) : Host :=
  let buffer := h.queue.commandBuffer queueType
  let words := commandWords buffer
  let page := h.queue.page queueType
  let fifo := h.ctx.gpfifo queueType
  let idx := if h.fitsPage queueType words.length then page.commandWriteIdx else 0
  let fifo' := { fifo with
    ring := Function.update fifo.ring (fifo.putValue % fifo.entriesCount)
      (gpEntry (page.wordAddress idx) words.length)
    gpPut := (fifo.putValue + 1) % fifo.entriesCount
    putValue := fifo.putValue + 1 }
  { h with
    queue := { h.queue.setPage (page.copyIn idx words) queueType with
      toCommandTimeline := h.queue.toCommandTimeline.setCommandBuffer [] queueType }
    ctx := { h.ctx.setGpfifo fifo' queueType with doorbell := fifo.token }
    trace := h.trace ++ [HostEffect.submit queueType buffer] }

/-- `submitToFifo`: hand the engine's buffer over, if there is one. -/
def submitToFifo (queueType : QueueType) : Driver Unit := do
  let h ← get
  Exec.onlyIf (!(h.queue.commandBuffer queueType).isEmpty) do
    validate (h.maySubmit queueType (commandWords (h.queue.commandBuffer queueType)).length)
      .unknown
    set (h.submitted queueType)

/-- The scheduling flags after `signalWaitCpu` filled in the default. -/
def schedFlags (flags : NvU32) : NvU32 :=
  if flags &&& cuCtxSchedSpin = 0 ∧ flags &&& cuCtxSchedYield = 0 ∧
      flags &&& cuCtxSchedBlockingSync = 0 then
    flags ||| cuCtxSchedSpin
  else flags

/-- The state after a wait: while the CPU waited, the GPU advanced on both rings. -/
def Host.waited (h : Host) (pSignal : NvU64) (signalTarget : NvU32) : Host :=
  let (c, d) := h.progress.headD (h.ctx.computeGpfifo.gpGet, h.ctx.dmaGpfifo.gpGet)
  { h with
    ctx := { h.ctx with
      computeGpfifo := { h.ctx.computeGpfifo with gpGet := c }
      dmaGpfifo := { h.ctx.dmaGpfifo with gpGet := d } }
    progress := h.progress.tail
    trace := h.trace ++ [HostEffect.waitCpu pSignal signalTarget] }

/-- `signalWaitCpu`: wait until the signal has reached the target, by spinning or yielding. -/
def signalWaitCpu (pSignal : NvU64) (signalTarget : NvU32) : Driver Unit := do
  validate (pSignal != 0) .invalidValue
  modify fun h => { h with ctx := { h.ctx with flags := schedFlags h.ctx.flags } }
  let h ← get
  if h.ctx.flags &&& cuCtxSchedSpin ≠ 0 ∨ h.ctx.flags &&& cuCtxSchedYield ≠ 0 then
    set (h.waited pSignal signalTarget)
  else if h.ctx.flags &&& cuCtxSchedBlockingSync ≠ 0 then
    throw .exception

/-! ## Commencing -/

/-- One round of the loop over the backlog. -/
def commenceEntry (entry : CommandBufSplit) : Driver Unit := do
  onTimeline <| modify fun t => t.setCommandBuffer entry.commandBuffer entry.queueType
  let h ← get
  Exec.onlyIf entry.timelineNotifyPending <|
    onTimeline (signalNotify h.queue.timelineSignal entry.timelineCtr entry.queueType)
  submitToFifo entry.queueType
  signalWaitCpu h.queue.timelineSignal entry.timelineCtr

/-- The loop over the backlog. -/
def commenceBacklog : List CommandBufSplit → Driver Unit
  | [] => pure ()
  | entry :: rest => do
    commenceEntry entry
    commenceBacklog rest

/-- The branch of `startExecution` for a queue that is in the mode of this engine. -/
def commenceCurrent (type : QueueType) : Driver Unit := do
  let h ← get
  Exec.onlyIf (h.queue.currentQueueType == some type) do
    validate (h.queue.commandBuffer type.other).isEmpty .unknown
    Exec.onlyIf h.queue.timelineNotifyPending <|
      onTimeline (signalNotify h.queue.timelineSignal h.queue.timelineCtr type)
    submitToFifo type

/-- `startExecution()`: hand everything enqueued to the engines. A backlog goes segment by segment,
with a wait of the CPU after each. -/
def startExecution : Driver Unit := do
  let h ← get
  if h.queue.commandBufBacklog.isEmpty then
    commenceCurrent .compute
    commenceCurrent .dma
    onTimeline <| modify fun t => { t with timelineNotifyPending := false }
  else
    onTimeline (backlogCurrentCmdBuffer .compute)
    onTimeline (backlogCurrentCmdBuffer .dma)
    let h ← get
    commenceBacklog h.queue.commandBufBacklog
    onTimeline <| modify fun t => { t with commandBufBacklog := [] }

/-- `awaitExecution`: wait for the timeline and reuse the kernel-argument page. -/
def awaitExecution : Driver Unit := do
  let h ← get
  validate (h.queue.timelineSignal != 0) .notInitialized
  signalWaitCpu h.queue.timelineSignal h.queue.timelineCtr
  modify fun h => { h with queue := { h.queue with kernArgsWriteIdx := 0 } }

/-! ## Initialisation -/

/-- Count up the timeline and release it on an engine. -/
def notifySetup (type : QueueType) : Exec CommandTimeline Failure Unit := do
  modify fun t => { t with
    timelineCtr := t.timelineCtr + 1
    timelineSteps := t.timelineSteps + 1 }
  let t ← get
  signalNotify t.timelineSignal t.timelineCtr type

/-- How both set-ups end: count up, release, submit and await. -/
def finishSetup (type : QueueType) : Driver Unit := do
  onTimeline (notifySetup type)
  submitToFifo type
  awaitExecution

/-- The part of `initializeQueue` that allocates the command pages. -/
def allocatePages : Driver Unit := do
  let pageBytes := BitVec.ofNat 64 (maxCmdQueuePageSize * 4)
  let (computeVa, _) ← onVm (gpuAlloc pageBytes false true)
  modify fun h => { h with queue := { h.queue with
    computeQueuePage := { h.queue.computeQueuePage with commandQueueSpace := computeVa } } }
  let (dmaVa, _) ← onVm (gpuAlloc pageBytes false true)
  modify fun h => { h with queue := { h.queue with
    dmaQueuePage := { h.queue.dmaQueuePage with commandQueueSpace := dmaVa } } }

/-- The part of `initializeQueue` that allocates the signal pool and takes the timeline signal from
it. -/
def allocateSignals : Driver Unit := do
  let (poolVa, _) ← onVm
    (gpuSystemAlloc (nvSignalBytes * BitVec.ofNat 64 maxSignalPoolSize) true)
  modify fun h => { h with queue := { h.queue with
    signalPool := poolVa
    freeSignals := h.queue.freeSignals ++
      (List.range' 0 maxSignalPoolSize).map (BitVec.ofNat 32) } }
  let timelineSignal ← obtainSignal
  onTimeline <| modify fun t => { t with timelineSignal := timelineSignal }

/-- The part of `initializeQueue` that sets up the compute engine. -/
def setupCompute : Driver Unit := do
  let h ← get
  onTimeline (enqueue (makeNvMethod 1 nvc6c0SetObject 1) [h.ctx.computeClass] .compute)
  onTimeline (enqueue (makeNvMethod 1 nvc6c0SetShaderLocalMemoryWindowA 2)
    [hi32 localMemWindow, lo32 localMemWindow] .compute)
  onTimeline (enqueue (makeNvMethod 1 nvc6c0SetShaderSharedMemoryWindowA 2)
    [hi32 sharedMemWindow, lo32 sharedMemWindow] .compute)
  finishSetup .compute

/-- The part of `initializeQueue` that sets up the copy engine. -/
def setupDma : Driver Unit := do
  onTimeline (enqueue (makeNvMethod 4 nvc6c0SetObject 1) [ampereDmaCopyB] .dma)
  finishSetup .dma

/-- `initializeQueue`: pages, signal pool, timeline signal, engine set-up, argument page. -/
def initializeQueue : Driver Unit := do
  allocatePages
  allocateSignals
  setupCompute
  setupDma
  let (kernArgsVa, _) ← onVm (gpuAlloc kernargsPageSize true true)
  modify fun h => { h with queue := { h.queue with kernArgsPageVa := kernArgsVa, initialized := true } }

end LibreCuda
