import LibreCuda.Queue.Commencing

/-! # The initialised queue

What a successful `initializeQueue` leaves of a queue as its constructor left it: the timeline
stands at two, one release of each engine's set-up, nothing is waiting to be commenced, the flags
let the CPU wait, and the timeline signal is none the pool will hand out again.

**`Host.Initialized`** is where the runs of the later files start. -/

namespace LibreCuda

open Channels Exec

/-- A stream whose queue is as the constructor left it. The constructor does not initialise
`currentQueueType`. -/
structure Host.Fresh (h : Host) : Prop where
  idle : h.timeline.Idle
  backlog : h.timeline.commandBufBacklog = []
  timelineCtr : h.timeline.timelineCtr = 0
  timelineSteps : h.timeline.timelineSteps = 0
  pending : h.timeline.timelineNotifyPending = false
  freeSignals : h.queue.freeSignals = []
  trace : h.trace = []
  operations : h.operations = []
  argRegions : h.argRegions = []

/-- The methods of the compute engine's set-up. -/
def objectAndWindows (computeClass : NvU32) : List MethodCall :=
  [⟨methodHeader 1 nvc6c0SetObject 1, [computeClass], none⟩,
    ⟨methodHeader 1 nvc6c0SetShaderLocalMemoryWindowA 2,
      [hi32 localMemWindow, lo32 localMemWindow], none⟩,
    ⟨methodHeader 1 nvc6c0SetShaderSharedMemoryWindowA 2,
      [hi32 sharedMemWindow, lo32 sharedMemWindow], none⟩]

/-- What `initializeQueue` submitted to the compute engine. -/
def setupComputeCalls (computeClass : NvU32) (timelineSignal : NvU64) : List MethodCall :=
  objectAndWindows computeClass ++ releaseCalls .compute timelineSignal 1

/-- What `initializeQueue` submitted to the copy engine. -/
def setupDmaCalls (timelineSignal : NvU64) : List MethodCall :=
  [⟨methodHeader 4 nvc6c0SetObject 1, [ampereDmaCopyB], none⟩] ++ releaseCalls .dma timelineSignal 2

/-- What holds of a stream whose queue was initialised. -/
structure Host.Ready (h : Host) : Prop where
  timelineSignal : h.timeline.timelineSignal ≠ 0
  idle : h.timeline.Idle
  backlog : h.timeline.commandBufBacklog = []
  timelineCtr : h.timeline.timelineCtr = 2
  timelineSteps : h.timeline.timelineSteps = 2
  pending : h.timeline.timelineNotifyPending = false
  waits : Waits h.ctx.flags
  freeSignals : ∀ idx ∈ h.queue.freeSignals,
    h.queue.signalPool + idx.setWidth 64 * nvSignalBytes ≠ h.timeline.timelineSignal
  operations : h.operations = []
  argRegions : h.argRegions = []
  kernArgsWriteIdx : h.queue.kernArgsWriteIdx = 0
  trace : ∃ computeClass, h.trace =
    [.submit .compute (setupComputeCalls computeClass h.timeline.timelineSignal),
      .waitCpu h.timeline.timelineSignal 1,
      .submit .dma (setupDmaCalls h.timeline.timelineSignal),
      .waitCpu h.timeline.timelineSignal 2]

/-- A stream whose queue was initialised from the state the constructor left. No event holds the
timeline signal: it comes from a pool allocated just now. -/
def Host.Initialized (h : Host) : Prop :=
  (∃ h₀ : Host, h₀.Fresh ∧ call initializeQueue h₀ = (.ok (), h)) ∧
    ∀ e type, (h.events e).signal type ≠ h.timeline.timelineSignal

/-- Counting up and releasing. -/
theorem wp_notifySetup {t : CommandTimeline} (hsig : t.timelineSignal ≠ 0) (type : QueueType)
    (ok : Unit → CommandTimeline → Prop) (err : Failure → CommandTimeline → Prop) :
    wp (notifySetup type) ok err t ↔
      ok () (({ t with timelineCtr := t.timelineCtr + 1, timelineSteps := t.timelineSteps + 1 } :
        CommandTimeline).pushAll type
          (releaseCalls type t.timelineSignal (t.timelineCtr + 1))) := by
  rw [notifySetup, wp_bind, wp_modify, wp_bind, wp_get, wp_signalNotify _ _ _ _ hsig]

/-- Distinct signals of the pool have distinct addresses. -/
theorem signal_address_ne {pool : NvU64} {idx : NvU32} (h : idx ≠ 0) :
    pool + idx.setWidth 64 * nvSignalBytes ≠ pool + (0 : NvU32).setWidth 64 * nvSignalBytes := by
  intro heq
  have hmul : (idx.setWidth 64 * nvSignalBytes : NvU64) = 0 := by
    simpa using heq
  have hlt := idx.isLt
  have hnat := congrArg BitVec.toNat hmul
  rw [BitVec.toNat_mul, BitVec.toNat_setWidth, nvSignalBytes] at hnat
  have hzero : idx.toNat = 0 := by
    simp at hnat
    omega
  exact h (BitVec.eq_of_toNat_eq (by simpa using hzero))

/-- The signals left in the pool once the first has been taken. -/
def remainingSignals : List NvU32 := (List.range' 1 (maxSignalPoolSize - 1)).map (BitVec.ofNat 32)

theorem ne_zero_of_mem_remainingSignals {idx : NvU32} (h : idx ∈ remainingSignals) : idx ≠ 0 := by
  obtain ⟨n, hn, rfl⟩ := List.mem_map.mp h
  rw [List.mem_range'_1, maxSignalPoolSize] at hn
  intro hzero
  have := congrArg BitVec.toNat hzero
  rw [BitVec.toNat_ofNat, Nat.mod_eq_of_lt (by omega)] at this
  have hz : (0 : NvU32).toNat = 0 := rfl
  omega

theorem wp_allocatePages (h : Host) :
    wp allocatePages (fun _ h' => h.Adds [] h' ∧ h'.timeline = h.timeline) (fun _ _ => True) h := by
  have hvm : ∀ (h : Host) (v : Vm) (q : NvCommandQueue), q.toCommandTimeline = h.timeline →
      q.freeSignals = h.queue.freeSignals → q.signalPool = h.queue.signalPool →
      q.kernArgsPageVa = h.queue.kernArgsPageVa →
      q.kernArgsWriteIdx = h.queue.kernArgsWriteIdx →
      h.Adds [] { h with vm := v, queue := q } := by
    intro h v q _ hfree hpool hva hidx
    exact ⟨⟨⟨rfl, hfree⟩, rfl, hpool, hva, rfl⟩, ⟨rfl, hidx⟩, rfl, (List.append_nil _).symm⟩
  rw [allocatePages, wp_bind, wp_onVm]
  refine wp_trivial _ (fun va v => ?_) (fun _ _ => trivial)
  rw [wp_bind, wp_modify, wp_bind, wp_onVm]
  refine wp_trivial _ (fun va' v' => ?_) (fun _ _ => trivial)
  rw [wp_modify]
  exact ⟨hvm h v' _ rfl rfl rfl rfl rfl, rfl⟩

/-- The timeline signal is the first of the pool, and the pool hands out the others. -/
theorem wp_allocateSignals {h : Host} (hfree : h.queue.freeSignals = []) :
    wp allocateSignals
      (fun _ h' => (h'.timeline = { h.timeline with
          timelineSignal := h'.queue.signalPool + (0 : NvU32).setWidth 64 * nvSignalBytes } ∧
          h'.queue.freeSignals = remainingSignals ∧ h'.trace = h.trace) ∧
        h'.operations = h.operations ∧ h'.argRegions = h.argRegions)
      (fun _ _ => True) h := by
  rw [allocateSignals, wp_bind, wp_onVm]
  refine wp_trivial _ (fun va v => ?_) (fun _ _ => trivial)
  rw [wp_bind, wp_modify, wp_bind]
  refine wp_mono (wp_obtainSignal _) (fun signal h₁ hobtain => ?_) (fun _ _ _ => trivial)
  obtain ⟨idx, rest, hsignals, hsignal, rfl⟩ := hobtain
  have hsplit : h.queue.freeSignals ++ (List.range' 0 maxSignalPoolSize).map (BitVec.ofNat 32) =
      0 :: remainingSignals := by
    rw [hfree, List.nil_append, show maxSignalPoolSize = (maxSignalPoolSize - 1) + 1 from rfl,
      List.range'_succ]
    rfl
  obtain ⟨rfl, rfl⟩ := List.cons.inj (hsplit.symm.trans hsignals)
  rw [wp_onTimeline, wp_modify]
  exact ⟨⟨by rw [hsignal]; rfl, rfl, rfl⟩, rfl, rfl⟩

/-- An await under any flags returns only under flags that let the CPU wait. -/
theorem wp_awaitExecution_of_any {h : Host} (hsig : h.timeline.timelineSignal ≠ 0) :
    wp awaitExecution
      (fun _ h' => h.Kept h' ∧ h'.argRegions = h.argRegions ∧ h'.queue.kernArgsWriteIdx = 0 ∧
        h'.timeline = h.timeline ∧ Waits h'.ctx.flags ∧ h'.trace = h.trace ++
          [.waitCpu h.timeline.timelineSignal h.timeline.timelineCtr])
      (fun _ _ => True) h := by
  rw [awaitExecution, wp_bind, wp_get, wp_bind, wp_validate, if_pos (by simpa using hsig), wp_bind]
  refine wp_mono (wp_signalWaitCpu hsig _ h) (fun _ h₁ hwait => ?_) (fun _ _ _ => trivial)
  obtain ⟨hkept, hargs, ht, -, hw, htrace⟩ := hwait
  rw [wp_modify]
  exact ⟨⟨⟨hkept.events, hkept.freeSignals⟩, hkept.signals, hkept.signalPool, hkept.kernArgsPageVa,
    hkept.operations⟩, hargs.argRegions, rfl, ht, hw, htrace⟩

/-- What the set-up of an engine did behind the methods it pushed: their release of the next target
was submitted with them and awaited. -/
structure Host.SetUp (type : QueueType) (h h' : Host) : Prop extends Host.Kept h h' where
  argRegions : h'.argRegions = h.argRegions
  kernArgsWriteIdx : h'.queue.kernArgsWriteIdx = 0
  waits : Waits h'.ctx.flags
  idle : h'.timeline.Idle
  timelineSignal : h'.timeline.timelineSignal = h.timeline.timelineSignal
  timelineCtr : h'.timeline.timelineCtr = h.timeline.timelineCtr + 1
  timelineSteps : h'.timeline.timelineSteps = h.timeline.timelineSteps + 1
  pending : h'.timeline.timelineNotifyPending = h.timeline.timelineNotifyPending
  backlog : h'.timeline.commandBufBacklog = h.timeline.commandBufBacklog
  trace : h'.trace = h.trace ++
    [.submit type (h.timeline.commandBuffer type ++
      releaseCalls type h.timeline.timelineSignal (h.timeline.timelineCtr + 1)),
      .waitCpu h.timeline.timelineSignal (h.timeline.timelineCtr + 1)]

/-- A signal at the null address is refused. -/
theorem wp_notifySetup_zero {t : CommandTimeline} (hsig : t.timelineSignal = 0) (type : QueueType)
    (ok : Unit → CommandTimeline → Prop) :
    wp (notifySetup type) ok (fun _ _ => True) t := by
  rw [notifySetup, wp_bind, wp_modify, wp_bind, wp_get, hsig,
    wp_of_call_error (call_signalNotify_zero _ _ _)]
  trivial

theorem wp_finishSetup {h : Host} {type : QueueType}
    (hother : h.timeline.commandBuffer type.other = []) :
    wp (finishSetup type) (fun _ h' => h.timeline.timelineSignal ≠ 0 ∧ h.SetUp type h')
      (fun _ _ => True) h := by
  by_cases hsig : h.timeline.timelineSignal = 0
  · rw [finishSetup, wp_bind, wp_onTimeline]
    exact wp_notifySetup_zero hsig type _
  rw [finishSetup, wp_bind, wp_onTimeline, wp_notifySetup hsig, wp_bind]
  generalize ht : (({ h.timeline with
    timelineCtr := h.timeline.timelineCtr + 1
    timelineSteps := h.timeline.timelineSteps + 1 } : CommandTimeline).pushAll type
      (releaseCalls type h.timeline.timelineSignal (h.timeline.timelineCtr + 1))) = t
  refine wp_mono (wp_submitToFifo type _) (fun _ h₁ hsub => ?_) (fun _ _ _ => trivial)
  obtain ⟨hadds, ht₁⟩ := hsub
  rw [setTimeline_timeline] at hadds ht₁
  have hsig₁ : h₁.timeline.timelineSignal = h.timeline.timelineSignal := by
    rw [ht₁, ← ht]
    simp
  have hbuf : t.commandBuffer type = h.timeline.commandBuffer type ++
      releaseCalls type h.timeline.timelineSignal (h.timeline.timelineCtr + 1) := by
    rw [← ht, pushAll_commandBuffer]
    cases type <;> rfl
  have hne : t.commandBuffer type ≠ [] := by
    rw [hbuf]
    cases type <;> simp [releaseCalls]
  have hctr₁ : h₁.timeline.timelineCtr = h.timeline.timelineCtr + 1 := by
    rw [ht₁, ← ht]
    simp
  -- the wait is for the value that was released just now
  refine wp_mono (wp_awaitExecution_of_any (h := h₁) (by rw [hsig₁]; exact hsig))
    (fun _ h₂ hwait => ?_) (fun _ _ _ => trivial)
  obtain ⟨hkept, hargs, hidx, ht₂, hw, htrace⟩ := hwait
  rw [hsig₁, hctr₁, hadds.trace, submitEffect, if_neg hne, hbuf, List.append_assoc] at htrace
  refine ⟨hsig, ((kept_setTimeline h t).trans hadds.toKept).trans hkept,
    hargs.trans hadds.argRegions, hidx, hw, ?_, ?_, ?_, ?_, ?_, ?_, htrace⟩
  · rw [ht₂, ht₁]
    refine forall_queueType type (commandBuffer_setCommandBuffer ..) ?_
    rw [commandBuffer_other_setCommandBuffer, ← ht, pushAll_commandBuffer_other]
    cases type <;> exact hother
  · rw [ht₂, hsig₁]
  · rw [ht₂, hctr₁]
  · rw [ht₂, ht₁, ← ht]
    simp
  · rw [ht₂, ht₁, ← ht]
    simp
  · rw [ht₂, ht₁, ← ht]
    simp

/-- The methods pushed before the set-up of an engine ends change nothing but its buffer. -/
theorem setUp_of_pushAll {h h' : Host} {type : QueueType} {ms : List MethodCall}
    (hs : (h.setTimeline (h.timeline.pushAll type ms)).SetUp type h') :
    h.Kept h' ∧ h'.argRegions = h.argRegions ∧
      h'.timeline.timelineSignal = h.timeline.timelineSignal ∧
      h'.timeline.timelineCtr = h.timeline.timelineCtr + 1 ∧
      h'.timeline.timelineSteps = h.timeline.timelineSteps + 1 ∧
      h'.timeline.timelineNotifyPending = h.timeline.timelineNotifyPending ∧
      h'.timeline.commandBufBacklog = h.timeline.commandBufBacklog ∧
      h'.trace = h.trace ++ [.submit type (h.timeline.commandBuffer type ++ ms ++
        releaseCalls type h.timeline.timelineSignal (h.timeline.timelineCtr + 1)),
        .waitCpu h.timeline.timelineSignal (h.timeline.timelineCtr + 1)] := by
  refine ⟨(kept_setTimeline h _).trans hs.toKept, hs.argRegions, ?_, ?_, ?_, ?_, ?_, ?_⟩
  · simpa using hs.timelineSignal
  · simpa using hs.timelineCtr
  · simpa using hs.timelineSteps
  · simpa using hs.pending
  · simpa using hs.backlog
  · have htrace := hs.trace
    rw [setTimeline_timeline, pushAll_commandBuffer, pushAll_timelineSignal,
      pushAll_timelineCtr] at htrace
    exact htrace

theorem wp_setupCompute {h : Host} (hidle : h.timeline.Idle) :
    wp setupCompute
      (fun _ h' => h.timeline.timelineSignal ≠ 0 ∧ (h.setTimeline (h.timeline.pushAll .compute
        (objectAndWindows h.ctx.computeClass))).SetUp .compute h')
      (fun _ _ => True) h := by
  rw [setupCompute, wp_bind, wp_get, wp_bind, wp_onTimeline,
    wp_enqueue _ _ _ _ 1 _ (by decide) rfl, wp_bind, wp_onTimeline,
    wp_enqueue _ _ _ _ 2 _ (by decide) rfl, wp_bind, wp_onTimeline,
    wp_enqueue _ _ _ _ 2 _ (by decide) rfl]
  simp only [setTimeline_timeline, setTimeline_setTimeline, pushAll_pushAll]
  have hother : (h.setTimeline (h.timeline.pushAll .compute
      (objectAndWindows h.ctx.computeClass))).timeline.commandBuffer QueueType.compute.other = [] := by
    rw [setTimeline_timeline, pushAll_commandBuffer_other]
    exact hidle _
  refine wp_mono (wp_finishSetup hother) (fun _ _ hok => ⟨?_, hok.2⟩) (fun _ _ _ => trivial)
  simpa using hok.1

theorem wp_setupDma {h : Host} (hidle : h.timeline.Idle) :
    wp setupDma
      (fun _ h' => (h.setTimeline (h.timeline.pushAll .dma
        [⟨methodHeader 4 nvc6c0SetObject 1, [ampereDmaCopyB], none⟩])).SetUp .dma h')
      (fun _ _ => True) h := by
  rw [setupDma, wp_bind, wp_onTimeline, wp_enqueue _ _ _ _ 1 _ (by decide) rfl]
  have hother : (h.setTimeline (h.timeline.pushAll .dma
      [⟨methodHeader 4 nvc6c0SetObject 1, [ampereDmaCopyB], none⟩])).timeline.commandBuffer
      QueueType.dma.other = [] := by
    rw [setTimeline_timeline, pushAll_commandBuffer_other]
    exact hidle _
  exact wp_mono (wp_finishSetup hother) (fun _ _ hok => hok.2) (fun _ _ _ => trivial)

/-- **A queue that was initialised is ready.** -/
theorem wp_initializeQueue {h : Host} (hfresh : h.Fresh) :
    wp initializeQueue (fun _ h' => h'.Ready) (fun _ _ => True) h := by
  rw [initializeQueue, wp_bind]
  refine wp_mono (wp_allocatePages h) (fun _ h₁ hpages => ?_) (fun _ _ _ => trivial)
  obtain ⟨hadds, ht₁⟩ := hpages
  rw [wp_bind]
  refine wp_mono (wp_allocateSignals (hadds.freeSignals.trans hfresh.freeSignals))
    (fun _ h₂ hsignals => ?_) (fun _ _ _ => trivial)
  obtain ⟨⟨ht₂, hfree, htrace₂⟩, hops₂, hregions₂⟩ := hsignals
  rw [ht₁] at ht₂
  have hidle₂ : h₂.timeline.Idle := by
    intro type
    have := hfresh.idle type
    rw [ht₂]
    cases type <;> exact this
  rw [wp_bind]
  refine wp_mono (wp_setupCompute hidle₂) (fun _ h₃ hcompute => ?_) (fun _ _ _ => trivial)
  obtain ⟨hsig, hcompute⟩ := hcompute
  rw [wp_bind]
  refine wp_mono (wp_setupDma hcompute.idle) (fun _ h₄ hdma => ?_) (fun _ _ _ => trivial)
  -- each setup is one submission, whose release takes the next value of the counter
  obtain ⟨hkept₃, hargs₃, hsig₃, hctr₃, hsteps₃, hpend₃, hback₃, htrace₃⟩ :=
    setUp_of_pushAll hcompute
  obtain ⟨hkept₄, hargs₄, hsig₄, hctr₄, hsteps₄, hpend₄, hback₄, htrace₄⟩ := setUp_of_pushAll hdma
  rw [wp_bind, wp_onVm]
  refine wp_trivial _ (fun va v => ?_) (fun _ _ => trivial)
  rw [wp_modify]
  have hctr₂ : h₂.timeline.timelineCtr = 0 := by
    rw [ht₂]
    exact hfresh.timelineCtr
  have hsteps₂ : h₂.timeline.timelineSteps = 0 := by
    rw [ht₂]
    exact hfresh.timelineSteps
  have hsignal : h₄.timeline.timelineSignal = h₂.timeline.timelineSignal := hsig₄.trans hsig₃
  rw [hctr₂] at hctr₃ htrace₃
  rw [hctr₃, hsig₃] at htrace₄
  rw [hctr₃] at hctr₄
  have hpool : h₄.queue.signalPool = h₂.queue.signalPool :=
    hkept₄.signalPool.trans hkept₃.signalPool
  constructor
  · show h₄.timeline.timelineSignal ≠ 0
    rw [hsignal]
    exact hsig
  · exact hdma.idle
  · show h₄.timeline.commandBufBacklog = []
    rw [hback₄, hback₃, ht₂]
    exact hfresh.backlog
  · exact hctr₄
  · show h₄.timeline.timelineSteps = 2
    rw [hsteps₄, hsteps₃, hsteps₂]
  · show h₄.timeline.timelineNotifyPending = false
    rw [hpend₄, hpend₃, ht₂]
    exact hfresh.pending
  · exact hdma.waits
  · intro idx hidx
    show h₄.queue.signalPool + _ ≠ h₄.timeline.timelineSignal
    rw [hpool, hsignal, ht₂]
    -- the timeline took the first signal of the pool, which is not free any more
    refine signal_address_ne (ne_zero_of_mem_remainingSignals ?_)
    rw [← hfree, ← hkept₃.freeSignals, ← hkept₄.freeSignals]
    exact hidx
  · show h₄.operations = []
    rw [hkept₄.operations, hkept₃.operations, hops₂, hadds.operations]
    exact hfresh.operations
  · show h₄.argRegions = []
    rw [hargs₄, hargs₃, hregions₂, hadds.argRegions]
    exact hfresh.argRegions
  · exact hdma.kernArgsWriteIdx
  · refine ⟨h₂.ctx.computeClass, ?_⟩
    show h₄.trace = _
    have htrace : h.trace = [] := hfresh.trace
    rw [htrace₄, htrace₃, htrace₂, hadds.trace, htrace, hidle₂ .compute, hcompute.idle .dma]
    show _ = [HostEffect.submit .compute (setupComputeCalls _ h₄.timeline.timelineSignal), _, _, _]
    rw [hsignal]
    rfl

/-- The pool of an initialised queue is short of the timeline signal alone. -/
structure Host.PoolReady (h : Host) : Prop where
  freeSignals : h.queue.freeSignals = remainingSignals
  timelineSignal : h.timeline.timelineSignal = h.queue.signalPool

theorem wp_initializeQueue_pool {h : Host} (hfresh : h.Fresh) :
    wp initializeQueue (fun _ h' => h'.PoolReady) (fun _ _ => True) h := by
  rw [initializeQueue, wp_bind]
  refine wp_mono (wp_allocatePages h) (fun _ h₁ hpages => ?_) (fun _ _ _ => trivial)
  obtain ⟨hadds, ht₁⟩ := hpages
  rw [wp_bind]
  refine wp_mono (wp_allocateSignals (hadds.freeSignals.trans hfresh.freeSignals))
    (fun _ h₂ hsignals => ?_) (fun _ _ _ => trivial)
  obtain ⟨⟨ht₂, hfree, -⟩, -⟩ := hsignals
  have hidle₂ : h₂.timeline.Idle := by
    intro type
    have := hfresh.idle type
    rw [ht₂, ht₁]
    cases type <;> exact this
  rw [wp_bind]
  refine wp_mono (wp_setupCompute hidle₂) (fun _ h₃ hcompute => ?_) (fun _ _ _ => trivial)
  rw [wp_bind]
  refine wp_mono (wp_setupDma hcompute.2.idle) (fun _ h₄ hdma => ?_) (fun _ _ _ => trivial)
  rw [wp_bind, wp_onVm]
  refine wp_trivial _ (fun va v => ?_) (fun _ _ => trivial)
  rw [wp_modify]
  obtain ⟨hkept₃, -, hsig₃, -⟩ := setUp_of_pushAll hcompute.2
  obtain ⟨hkept₄, -, hsig₄, -⟩ := setUp_of_pushAll hdma
  constructor
  · show h₄.queue.freeSignals = _
    rw [hkept₄.freeSignals, hkept₃.freeSignals, hfree]
  · show h₄.timeline.timelineSignal = h₄.queue.signalPool
    rw [hsig₄, hsig₃, hkept₄.signalPool, hkept₃.signalPool, ht₂]
    simp

theorem Host.Initialized.poolReady {h : Host} (hi : h.Initialized) : h.PoolReady := by
  obtain ⟨⟨h₀, hfresh, hcall⟩, -⟩ := hi
  rcases wp_call hcall (wp_initializeQueue_pool hfresh) with ⟨_, -, hpool⟩ | ⟨_, hr, -⟩
  · exact hpool
  · cases hr

/-- An initialised stream is ready. -/
theorem Host.Initialized.ready {h : Host} (hi : h.Initialized) : h.Ready := by
  obtain ⟨⟨h₀, hfresh, hcall⟩, -⟩ := hi
  rcases wp_call hcall (wp_initializeQueue hfresh) with ⟨_, -, hready⟩ | ⟨_, hr, -⟩
  · exact hready
  · cases hr

end LibreCuda
