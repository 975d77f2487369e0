import LibreCuda.Queue.Timeline

/-! # What the calls do to a stream

For every call of the stream, what it leaves behind when it succeeds and when it fails. The parts a
call cannot touch are gathered in `Host.Frame`; its effect on the command timeline is a function of
`Queue.Timeline`, its effect on the argument page is `ArgsAllocated`.

* **`wp_launchFunction`**: a launch that fails leaves the timeline as it was, or selected the
  compute mode and announced local memory, or also synchronised; one that succeeds did all of this,
  and launched.
* **`wp_gpuMemcpy`**, **`wp_recordEvent`**. -/

namespace LibreCuda

open Channels Exec

/-- The command timeline of a stream. -/
abbrev Host.timeline (h : Host) : CommandTimeline := h.queue.toCommandTimeline

/-- Replace the command timeline of a stream. -/
def Host.setTimeline (h : Host) (t : CommandTimeline) : Host :=
  { h with queue := { h.queue with toCommandTimeline := t } }

@[simp] theorem setTimeline_timeline (h : Host) (t : CommandTimeline) :
    (h.setTimeline t).timeline = t := rfl

@[simp] theorem setTimeline_setTimeline (h : Host) (t u : CommandTimeline) :
    (h.setTimeline t).setTimeline u = h.setTimeline u := rfl

@[simp] theorem addOperation_timeline (h : Host) (engine : QueueType) (async : Bool)
    (args : NvU64 × NvU64) : (h.addOperation engine async args).timeline = h.timeline := rfl

/-- The number of an operation is read from the count of increments only. -/
theorem addOperation_setTimeline {h : Host} {t : CommandTimeline}
    (ht : t.timelineSteps = h.timeline.timelineSteps) (engine : QueueType) (async : Bool)
    (args : NvU64 × NvU64) :
    (h.setTimeline t).addOperation engine async args =
      (h.addOperation engine async args).setTimeline t := by
  unfold Host.addOperation Host.setTimeline
  rw [ht]

/-- What building commands leaves alone. -/
structure Host.Frame (h h' : Host) : Prop where
  ctx : h'.ctx = h.ctx
  signals : h'.signals = h.signals
  progress : h'.progress = h.progress
  trace : h'.trace = h.trace
  signalPool : h'.queue.signalPool = h.queue.signalPool
  kernArgsPageVa : h'.queue.kernArgsPageVa = h.queue.kernArgsPageVa

/-- What no call but `recordEvent` changes. -/
structure Host.SameEvents (h h' : Host) : Prop where
  events : h'.events = h.events
  freeSignals : h'.queue.freeSignals = h.queue.freeSignals

/-- The argument page is as it was. -/
structure Host.SameArgs (h h' : Host) : Prop where
  argRegions : h'.argRegions = h.argRegions
  kernArgsWriteIdx : h'.queue.kernArgsWriteIdx = h.queue.kernArgsWriteIdx

/-- `allocKernArgs` handed out `size` bytes at `ptr`. -/
structure Host.Allocated (h h' : Host) (ptr size : NvU64) : Prop where
  fits : ¬ kernargsPageSize < h.queue.kernArgsWriteIdx + size
  ptr_eq : ptr = h.queue.kernArgsPageVa + h.queue.kernArgsWriteIdx
  argRegions : h'.argRegions = h.argRegions ++ [(ptr, size)]
  kernArgsWriteIdx : h'.queue.kernArgsWriteIdx = h.queue.kernArgsWriteIdx + size

/-- Nothing but timeline, functions and device memory changed. -/
structure Host.Quiet (h h' : Host) : Prop extends Host.Frame h h', Host.SameEvents h h',
    Host.SameArgs h h' where
  operations : h'.operations = h.operations

theorem Host.Frame.trans {h h' h'' : Host} (a : h.Frame h') (b : h'.Frame h'') : h.Frame h'' :=
  ⟨b.ctx.trans a.ctx, b.signals.trans a.signals, b.progress.trans a.progress,
    b.trace.trans a.trace, b.signalPool.trans a.signalPool,
    b.kernArgsPageVa.trans a.kernArgsPageVa⟩

theorem Host.SameEvents.trans {h h' h'' : Host} (a : h.SameEvents h') (b : h'.SameEvents h'') :
    h.SameEvents h'' :=
  ⟨b.events.trans a.events, b.freeSignals.trans a.freeSignals⟩

theorem Host.SameArgs.trans {h h' h'' : Host} (a : h.SameArgs h') (b : h'.SameArgs h'') :
    h.SameArgs h'' :=
  ⟨b.argRegions.trans a.argRegions, b.kernArgsWriteIdx.trans a.kernArgsWriteIdx⟩

theorem Host.Quiet.trans {h h' h'' : Host} (a : h.Quiet h') (b : h'.Quiet h'') : h.Quiet h'' :=
  ⟨a.toFrame.trans b.toFrame, a.toSameEvents.trans b.toSameEvents,
    a.toSameArgs.trans b.toSameArgs, b.operations.trans a.operations⟩

theorem Host.Quiet.refl (h : Host) : h.Quiet h :=
  ⟨⟨rfl, rfl, rfl, rfl, rfl, rfl⟩, ⟨rfl, rfl⟩, ⟨rfl, rfl⟩, rfl⟩

theorem quiet_setTimeline (h : Host) (t : CommandTimeline) : h.Quiet (h.setTimeline t) :=
  ⟨⟨rfl, rfl, rfl, rfl, rfl, rfl⟩, ⟨rfl, rfl⟩, ⟨rfl, rfl⟩, rfl⟩

theorem quiet_vm (h : Host) (v : Vm) : h.Quiet { h with vm := v } :=
  ⟨⟨rfl, rfl, rfl, rfl, rfl, rfl⟩, ⟨rfl, rfl⟩, ⟨rfl, rfl⟩, rfl⟩

theorem quiet_mem (h : Host) (mem : NvU64 → NvU8) : h.Quiet { h with mem := mem } :=
  ⟨⟨rfl, rfl, rfl, rfl, rfl, rfl⟩, ⟨rfl, rfl⟩, ⟨rfl, rfl⟩, rfl⟩

/-! ## Programs on parts of the stream -/

section Parts

variable {α : Type} (ok : α → Host → Prop) (err : Failure → Host → Prop) (h : Host)

@[simp] theorem wp_onTimeline (x : Exec CommandTimeline Failure α) :
    wp (onTimeline x) ok err h ↔
      wp x (fun a t => ok a (h.setTimeline t)) (fun e t => err e (h.setTimeline t)) h.timeline :=
  wp_zoom ..

@[simp] theorem wp_onVm (x : Exec Vm Failure α) :
    wp (onVm x) ok err h ↔
      wp x (fun a v => ok a { h with vm := v }) (fun e v => err e { h with vm := v }) h.vm :=
  wp_zoom ..

end Parts

section TimelineParts

variable (ok : Unit → CommandTimeline → Prop) (err : Failure → CommandTimeline → Prop)
  (t : CommandTimeline) (type : QueueType)

theorem wp_enqueue {method : NvMethod} {args : List NvU32} (n : ℕ) (op : Option OpTag)
    (hn : ((method >>> 16) &&& 0xFFF).toNat = n) (hargs : args.length = n) :
    wp (enqueue method args type op) ok err t ↔
      ok () (t.pushAll type [⟨method.setWidth 32, args, op⟩]) :=
  wp_of_call (call_enqueue type op t hn hargs)

theorem wp_signalNotify {pSignal : NvU64} (h : pSignal ≠ 0) (signalTarget : NvU32) :
    wp (signalNotify pSignal signalTarget type) ok err t ↔
      ok () (t.pushAll type (releaseCalls type pSignal signalTarget)) :=
  wp_of_call (call_signalNotify h signalTarget type t)

@[simp] theorem wp_signalWaitGpu (value pSignal : NvU64) (signalTarget : NvU32) :
    wp (signalWaitGpu value pSignal signalTarget) ok err t ↔
      ok () (t.pushAll .compute (waitCalls value pSignal signalTarget)) :=
  wp_of_call (call_signalWaitGpu value pSignal signalTarget t)

@[simp] theorem wp_selectQueueType :
    wp (selectQueueType type) ok err t ↔ ok () (t.select type) :=
  wp_of_call (call_selectQueueType type t)

@[simp] theorem wp_backlogCurrentCmdBuffer :
    wp (backlogCurrentCmdBuffer type) ok err t ↔ ok () (t.setAside type) :=
  wp_of_call (call_backlogCurrentCmdBuffer type t)

theorem wp_synchronizeLaunch (h : t.timelineSignal ≠ 0) (value : NvU64) (async : Bool) :
    wp (synchronizeLaunch value async) ok err t ↔ ok () (t.synchronize value async) :=
  wp_of_call (call_synchronizeLaunch h value async)

theorem wp_finishOperation (h : t.timelineSignal ≠ 0) (async : Bool) :
    wp (finishOperation type async) ok err t ↔ ok () (t.finish type async) :=
  wp_of_call (call_finishOperation h type async)

end TimelineParts

/-! ## Launches -/

/-- The methods pushed when local memory is looked at: none, or those that announce more. -/
inductive LocalMemCalls : List MethodCall → Prop
  | none : LocalMemCalls []
  | grown (va bytesPerTpc : NvU64) : LocalMemCalls (localMemCalls va bytesPerTpc)

theorem wp_freeLocalMem (shaderLocalMemoryVa : NvU64) (h : Host) :
    wp (freeLocalMem shaderLocalMemoryVa) (fun _ h' => h.Quiet h' ∧ h'.timeline = h.timeline)
      (fun _ h' => h.Quiet h' ∧ h'.timeline = h.timeline) h := by
  rw [freeLocalMem, wp_onlyIf]
  split
  · rw [wp_onVm]
    exact wp_trivial _ (fun _ v => ⟨quiet_vm h v, rfl⟩) (fun _ v => ⟨quiet_vm h v, rfl⟩)
  · exact ⟨Host.Quiet.refl h, rfl⟩

theorem wp_growLocalMem (function : ℕ) (slm : NvU64) (h : Host) :
    wp (growLocalMem function slm)
      (fun _ h' => h.Quiet h' ∧ ∃ calls, LocalMemCalls calls ∧
        h'.timeline = h.timeline.pushAll .compute calls)
      (fun _ h' => h.Quiet h' ∧ h'.timeline = h.timeline) h := by
  rw [growLocalMem, wp_bind, wp_modify, wp_bind, wp_onVm]
  refine wp_trivial _ (fun va v => ?_) (fun e v => ⟨?_, rfl⟩)
  · rw [wp_bind, wp_modify, wp_bind, wp_onTimeline,
      wp_enqueue _ _ _ _ 2 _ (by decide) rfl, wp_onTimeline, wp_enqueue _ _ _ _ 3 _ (by decide) rfl]
    refine ⟨?_, _, .grown va.1 (bytesPerTpc slm), ?_⟩
    · exact ⟨⟨rfl, rfl, rfl, rfl, rfl, rfl⟩, ⟨rfl, rfl⟩, ⟨rfl, rfl⟩, rfl⟩
    · exact pushAll_pushAll ..
  · exact ⟨⟨rfl, rfl, rfl, rfl, rfl, rfl⟩, ⟨rfl, rfl⟩, ⟨rfl, rfl⟩, rfl⟩

/-- Local memory is large enough, or grows, or fails to. -/
theorem wp_ensureEnoughLocalMem (function : ℕ) (h : Host) :
    wp (ensureEnoughLocalMem function)
      (fun _ h' => h.Quiet h' ∧ ∃ calls, LocalMemCalls calls ∧
        h'.timeline = h.timeline.pushAll .compute calls)
      (fun _ h' => h.Quiet h' ∧ h'.timeline = h.timeline) h := by
  rw [ensureEnoughLocalMem, wp_bind, wp_get, wp_onlyIf]
  split
  · rw [wp_bind]
    refine wp_mono (wp_freeLocalMem _ h) (fun _ h₁ hq => ?_) (fun _ _ hq => hq)
    obtain ⟨hq, ht⟩ := hq
    refine wp_mono (wp_growLocalMem function _ h₁) (fun _ h₂ hg => ?_) (fun _ h₂ hg => ?_)
    · rw [← ht]
      exact ⟨hq.trans hg.1, hg.2⟩
    · exact ⟨hq.trans hg.1, hg.2.trans ht⟩
  · exact ⟨Host.Quiet.refl h, [], .none, (pushAll_nil ..).symm⟩

/-- What a launch that fails may do to the argument page. -/
def Host.ArgsKept (f : LibreCUFunction) (h h' : Host) : Prop :=
  h.SameArgs h' ∨
    ∃ c rest ptr, f.constants = c :: rest ∧ h.Allocated h' ptr (kernargsSize c.size)

/-- Nothing but the argument page and device memory changed. -/
structure Host.Still (h h' : Host) : Prop extends Host.Frame h h', Host.SameEvents h h' where
  operations : h'.operations = h.operations
  timeline : h'.timeline = h.timeline

theorem Host.Quiet.still {h h' : Host} (hq : h.Quiet h') (ht : h'.timeline = h.timeline) :
    h.Still h' :=
  ⟨hq.toFrame, hq.toSameEvents, hq.operations, ht⟩

theorem Host.Still.trans {h h' h'' : Host} (a : h.Still h') (b : h'.Still h'') : h.Still h'' :=
  ⟨a.toFrame.trans b.toFrame, a.toSameEvents.trans b.toSameEvents,
    b.operations.trans a.operations, b.timeline.trans a.timeline⟩

theorem Host.Allocated.of_sameArgs {h h' h'' : Host} {ptr size : NvU64}
    (a : h.Allocated h' ptr size) (b : h'.SameArgs h'') : h.Allocated h'' ptr size :=
  ⟨a.fits, a.ptr_eq, b.argRegions.trans a.argRegions, b.kernArgsWriteIdx.trans a.kernArgsWriteIdx⟩

theorem Host.Allocated.of_quiet {h h' h'' : Host} {ptr size : NvU64} (a : h'.Allocated h'' ptr size)
    (b : h.Quiet h') : h.Allocated h'' ptr size := by
  obtain ⟨fits, ptr_eq, regions, idx⟩ := a
  rw [b.kernArgsWriteIdx] at fits ptr_eq idx
  rw [b.kernArgsPageVa] at ptr_eq
  rw [b.argRegions] at regions
  exact ⟨fits, ptr_eq, regions, idx⟩

theorem wp_allocKernArgs (size : NvU64) (h : Host) :
    wp (allocKernArgs size) (fun ptr h' => h.Still h' ∧ h.Allocated h' ptr size)
      (fun _ h' => h' = h) h := by
  rw [allocKernArgs, wp_bind, wp_get]
  split
  · rw [wp_throw]
  · rename_i hfits
    show wp (do set _; pure _) _ _ h
    rw [wp_bind, wp_set, wp_pure]
    exact ⟨⟨⟨rfl, rfl, rfl, rfl, rfl, rfl⟩, ⟨rfl, rfl⟩, rfl, rfl⟩, hfits, rfl, rfl, rfl⟩

theorem wp_writeParams (kernargsBuf : NvU64) (params : ℕ → ℕ → NvU8)
    (infos : List KernelParamInfo) (i j : ℕ) (h : Host) :
    wp (writeParams kernargsBuf params infos i j)
      (fun _ h' => h.Quiet h' ∧ h'.timeline = h.timeline)
      (fun _ h' => h.Quiet h' ∧ h'.timeline = h.timeline) h := by
  induction infos generalizing i j h with
  | nil =>
    rw [writeParams, wp_pure]
    exact ⟨Host.Quiet.refl h, rfl⟩
  | cons p rest ih =>
    rw [writeParams]
    split
    · rw [wp_throw]
      exact ⟨Host.Quiet.refl h, rfl⟩
    · rename_i ws hws
      rw [wp_bind, wp_modify]
      have hstore := quiet_mem h
        (Bytes.store h.mem (kernargsBuf + 4 * BitVec.ofNat 64 j) (Bytes.ofWords ws))
      exact wp_mono (ih (i + 1) (j + ws.length) _) (fun _ _ hq => ⟨hstore.trans hq.1, hq.2⟩)
        (fun _ _ hq => ⟨hstore.trans hq.1, hq.2⟩)

theorem wp_fillKernArgs (f : LibreCUFunction) (grid block : Dim3) (params : ℕ → ℕ → NvU8)
    (numParams kernargsPointer size : NvU64) (h : Host) :
    wp (fillKernArgs f grid block params numParams kernargsPointer size)
      (fun _ h' => h.Quiet h' ∧ h'.timeline = h.timeline)
      (fun _ h' => h.Quiet h' ∧ h'.timeline = h.timeline) h := by
  have hheader := quiet_mem h
    (Bytes.store h.mem kernargsPointer (Bytes.ofWords (constbuf0Data grid block)))
  rw [fillKernArgs, wp_bind, wp_validate]
  split
  · rw [wp_bind, wp_modify, wp_bind, wp_validate]
    split
    · exact wp_mono (wp_writeParams _ params f.paramInfo 0 0 _)
        (fun _ _ hq => ⟨hheader.trans hq.1, hq.2⟩) (fun _ _ hq => ⟨hheader.trans hq.1, hq.2⟩)
    · exact ⟨hheader, rfl⟩
  · exact ⟨Host.Quiet.refl h, rfl⟩

/-- Writing the arguments takes their bytes from the argument page, whether it succeeds or not. -/
theorem wp_writeKernArgs (f : LibreCUFunction) (grid block : Dim3) (params : ℕ → ℕ → NvU8)
    (numParams : NvU64) (h : Host) :
    wp (writeKernArgs f grid block params numParams)
      (fun ptr h' => h.Still h' ∧
        ∃ c rest, f.constants = c :: rest ∧ h.Allocated h' ptr (kernargsSize c.size))
      (fun _ h' => h.Still h' ∧ h.ArgsKept f h') h := by
  unfold writeKernArgs
  split
  · rw [wp_throw]
    exact ⟨(Host.Quiet.refl h).still rfl, Or.inl ⟨rfl, rfl⟩⟩
  · rename_i c rest hc
    rw [wp_bind]
    refine wp_mono (wp_allocKernArgs (kernargsSize c.size) h) (fun ptr h₁ halloc => ?_)
      (fun _ h₁ hfail => ?_)
    · obtain ⟨hstill, halloc⟩ := halloc
      rw [wp_bind]
      refine wp_mono (wp_fillKernArgs f grid block params numParams ptr _ h₁)
        (fun _ h₂ hq => ?_) (fun _ h₂ hq => ?_)
      · rw [wp_pure]
        exact ⟨hstill.trans (hq.1.still hq.2), c, rest, hc, halloc.of_sameArgs hq.1.toSameArgs⟩
      · exact ⟨hstill.trans (hq.1.still hq.2),
          Or.inr ⟨c, rest, ptr, hc, halloc.of_sameArgs hq.1.toSameArgs⟩⟩
    · subst hfail
      exact ⟨(Host.Quiet.refl h₁).still rfl, Or.inl ⟨rfl, rfl⟩⟩

theorem wp_checkLaunchDimensions (f : LibreCUFunction) (grid block : Dim3)
    (sharedMemBytes : NvU32) (h : Host) :
    wp (checkLaunchDimensions f grid block sharedMemBytes) (fun _ h' => h' = h)
      (fun _ h' => h' = h) h := by
  unfold checkLaunchDimensions
  split
  · rw [wp_throw]
  · simp only [wp_bind, wp_onlyIf, wp_throw, wp_validate]
    split_ifs

/-- The commands of a launch. -/
theorem wp_enqueueLaunch (f : LibreCUFunction) (grid block : Dim3) (sharedMemBytes : NvU32)
    (kernargsPointer : NvU64) (async : Bool) (h : Host) :
    wp (enqueueLaunch f grid block sharedMemBytes kernargsPointer async)
      (fun _ h' => h.Quiet h' ∧ ∃ qmdAddr, h'.timeline = h.timeline.pushAll .compute
        (launchCalls qmdAddr ⟨h.timeline.timelineSteps + 1, async⟩))
      (fun _ _ => False) h := by
  rw [enqueueLaunch, wp_bind, wp_get, wp_bind, wp_onTimeline,
    wp_enqueue _ _ _ _ 1 _ (by decide) rfl, wp_bind, wp_modify, wp_bind,
    wp_onTimeline, wp_enqueue _ _ _ _ 1 _ (by decide) rfl,
    wp_onTimeline, wp_enqueue _ _ _ _ 1 _ (by decide) rfl]
  refine ⟨⟨⟨rfl, rfl, rfl, rfl, rfl, rfl⟩, ⟨rfl, rfl⟩, ⟨rfl, rfl⟩, rfl⟩,
    kernargsPointer + roundUp (f.constants.headD ⟨0, 0, 0⟩).size (1 <<< 8), ?_⟩
  show ((h.timeline.pushAll .compute _).pushAll .compute _).pushAll .compute _ = _
  rw [pushAll_pushAll, pushAll_pushAll]
  rfl

/-- The descriptor is copied behind the arguments. -/
theorem wp_enqueueLaunch_mem (f : LibreCUFunction) (grid block : Dim3) (sharedMemBytes : NvU32)
    (kernargsPointer : NvU64) (async : Bool) (h : Host) :
    wp (enqueueLaunch f grid block sharedMemBytes kernargsPointer async)
      (fun _ h' => h'.mem = Bytes.store h.mem
        (kernargsPointer + roundUp (f.constants.headD ⟨0, 0, 0⟩).size (1 <<< 8 : NvU64))
        (Bytes.ofWords ((List.range qmdWords).map (qmdData f grid block sharedMemBytes
          h.queue.currentSlmPerThread kernargsPointer))))
      (fun _ _ => True) h := by
  rw [enqueueLaunch, wp_bind, wp_get, wp_bind, wp_onTimeline,
    wp_enqueue _ _ _ _ 1 _ (by decide) rfl, wp_bind, wp_modify, wp_bind,
    wp_onTimeline, wp_enqueue _ _ _ _ 1 _ (by decide) rfl,
    wp_onTimeline, wp_enqueue _ _ _ _ 1 _ (by decide) rfl]
  rfl

/-- The timeline behind which a launch puts itself: compute mode selected, local memory announced,
and synchronised. -/
def Host.launchBase (h : Host) (calls : List MethodCall) (async : Bool) : CommandTimeline :=
  ((h.timeline.select .compute).pushAll .compute calls).synchronize
    (h.signals h.timeline.timelineSignal).value async

/-- What a successful launch did. -/
structure Host.Launched (function : ℕ) (async : Bool) (h h' : Host) : Prop
    extends Host.Frame h h', Host.SameEvents h h' where
  timeline : ∃ calls qmdAddr, LocalMemCalls calls ∧
    h'.timeline = ((h.launchBase calls async).pushAll .compute
      (launchCalls qmdAddr ⟨h.timeline.timelineSteps + 1, async⟩)).finish .compute async
  operation : ∃ c rest ptr, (h.functions function).constants = c :: rest ∧
    h.Allocated h' ptr (kernargsSize c.size) ∧
    h'.operations = h.operations ++
      [⟨h.timeline.timelineSteps + 1, .compute, async, (ptr, kernargsSize c.size)⟩]

/-- What a launch that failed may have done. -/
structure Host.LaunchFailed (function : Option ℕ) (async : Bool) (h h' : Host) : Prop
    extends Host.Frame h h', Host.SameEvents h h' where
  operations : h'.operations = h.operations
  args : h.SameArgs h' ∨ ∃ f, function = some f ∧ h.ArgsKept (h.functions f) h'
  timeline : h'.timeline = h.timeline ∨ ∃ calls, LocalMemCalls calls ∧
    (h'.timeline = (h.timeline.select .compute).pushAll .compute calls ∨
      h'.timeline = h.launchBase calls async)

theorem Host.LaunchFailed.of_quiet {function : Option ℕ} {async : Bool} {h h' : Host}
    (hq : h.Quiet h') (ht : h'.timeline = h.timeline ∨ ∃ calls, LocalMemCalls calls ∧
      (h'.timeline = (h.timeline.select .compute).pushAll .compute calls ∨
        h'.timeline = h.launchBase calls async)) : h.LaunchFailed function async h' :=
  ⟨hq.toFrame, hq.toSameEvents, hq.operations, Or.inl hq.toSameArgs, ht⟩

/-- Preparing a launch ends on its base, or fails before it synchronises. -/
theorem wp_prepareLaunch {h : Host} (hsig : h.timeline.timelineSignal ≠ 0) (function : ℕ)
    (async : Bool) :
    wp (prepareLaunch function async)
      (fun _ h' => h.Quiet h' ∧ ∃ calls, LocalMemCalls calls ∧
        h'.timeline = h.launchBase calls async)
      (fun _ h' => h.Quiet h' ∧ h'.timeline = h.timeline.select .compute) h := by
  have hselect := quiet_setTimeline h (h.timeline.select .compute)
  rw [prepareLaunch, wp_bind, wp_onTimeline, wp_selectQueueType, wp_bind]
  refine wp_mono (wp_ensureEnoughLocalMem function _) (fun _ h₁ hlocal => ?_)
    (fun _ h₁ hlocal => ⟨hselect.trans hlocal.1, hlocal.2⟩)
  obtain ⟨hq, calls, hcalls, ht⟩ := hlocal
  rw [setTimeline_timeline] at ht
  have hsig₁ : h₁.timeline.timelineSignal ≠ 0 := by
    rw [ht]
    simpa using hsig
  rw [wp_bind, wp_get, wp_onTimeline, wp_synchronizeLaunch _ _ _ hsig₁]
  have hq₁ := hselect.trans hq
  refine ⟨hq₁.trans (quiet_setTimeline h₁ _), calls, hcalls, ?_⟩
  rw [setTimeline_timeline, ht, hq₁.signals]
  show CommandTimeline.synchronize _ (h.signals h₁.timeline.timelineSignal).value _ = _
  rw [ht, pushAll_timelineSignal, select_timelineSignal]
  rfl

/-- Performing a launch pushes it and counts it, or leaves the timeline alone. -/
theorem wp_performLaunch {h : Host} (hsig : h.timeline.timelineSignal ≠ 0) (f : LibreCUFunction)
    (grid block : Dim3) (sharedMemBytes : NvU32) (params : ℕ → ℕ → NvU8) (numParams : NvU64)
    (async : Bool) :
    wp (performLaunch f grid block sharedMemBytes params numParams async)
      (fun _ h' => h.Frame h' ∧ h.SameEvents h' ∧
        (∃ qmdAddr, h'.timeline = (h.timeline.pushAll .compute
          (launchCalls qmdAddr ⟨h.timeline.timelineSteps + 1, async⟩)).finish .compute async) ∧
        ∃ c rest ptr, f.constants = c :: rest ∧ h.Allocated h' ptr (kernargsSize c.size) ∧
          h'.operations = h.operations ++
            [⟨h.timeline.timelineSteps + 1, .compute, async, (ptr, kernargsSize c.size)⟩])
      (fun _ h' => h.Still h' ∧ h.ArgsKept f h') h := by
  rw [performLaunch, wp_bind]
  refine wp_mono (wp_writeKernArgs f grid block params numParams h) (fun ptr h₁ hargs => ?_)
    (fun _ _ hargs => hargs)
  obtain ⟨hstill, c, rest, hc, halloc⟩ := hargs
  rw [wp_bind]
  refine wp_mono (wp_checkLaunchDimensions f grid block sharedMemBytes h₁) (fun _ _ hsame => ?_)
    (fun _ _ hsame => hsame ▸ ⟨hstill, Or.inr ⟨c, rest, ptr, hc, halloc⟩⟩)
  subst hsame
  rw [wp_bind, checkConstantBanks, wp_require]
  split
  swap
  · exact ⟨hstill, Or.inr ⟨c, rest, ptr, hc, halloc⟩⟩
  rw [wp_bind]
  refine wp_mono (wp_enqueueLaunch f grid block sharedMemBytes ptr async _) (fun _ h₂ hlaunch => ?_)
    (fun _ _ hfalse => hfalse.elim)
  obtain ⟨hq, qmdAddr, ht⟩ := hlaunch
  rw [hstill.timeline] at ht
  have hsig₂ : h₂.timeline.timelineSignal ≠ 0 := by
    rw [ht, pushAll_timelineSignal]
    exact hsig
  rw [wp_bind, wp_modify, wp_onTimeline, addOperation_timeline,
    wp_finishOperation _ _ _ _ hsig₂]
  have hframe : h.Frame h₂ := hstill.toFrame.trans hq.toFrame
  have hevents : h.SameEvents h₂ := hstill.toSameEvents.trans hq.toSameEvents
  have halloc₂ := halloc.of_sameArgs hq.toSameArgs
  refine ⟨⟨hframe.ctx, hframe.signals, hframe.progress, hframe.trace, hframe.signalPool,
    hframe.kernArgsPageVa⟩, ⟨hevents.events, hevents.freeSignals⟩, ⟨qmdAddr, ?_⟩,
    c, rest, ptr, hc, ⟨halloc₂.fits, halloc₂.ptr_eq, halloc₂.argRegions, halloc₂.kernArgsWriteIdx⟩,
    ?_⟩
  · rw [setTimeline_timeline]
    show h₂.timeline.finish .compute async = _
    rw [ht]
  · show h₂.operations ++ [⟨h₂.timeline.timelineSteps + 1, _, _, _⟩] = _
    rw [hq.operations, hstill.operations, ht, pushAll_timelineSteps, hc]
    rfl

/-- **What a launch does.** -/
theorem wp_launchFunction {h : Host} (hsig : h.timeline.timelineSignal ≠ 0)
    (function : Option ℕ) (grid block : Dim3) (sharedMemBytes : NvU32)
    (params : ℕ → ℕ → NvU8) (numParams : NvU64) (async : Bool) :
    wp (launchFunction function grid block sharedMemBytes params numParams async)
      (fun _ h' => ∃ f, function = some f ∧ h.Launched f async h')
      (fun _ h' => h.LaunchFailed function async h') h := by
  unfold launchFunction
  split
  · rw [wp_throw]
    exact .of_quiet (Host.Quiet.refl h) (Or.inl rfl)
  rename_i f
  rw [wp_bind, wp_get, wp_bind, wp_validate]
  split
  swap
  · exact .of_quiet (Host.Quiet.refl h) (Or.inl rfl)
  rw [wp_bind]
  refine wp_mono (wp_prepareLaunch hsig f async) (fun _ h₁ hbase => ?_) (fun _ h₁ hfail => ?_)
  · obtain ⟨hq, calls, hcalls, ht⟩ := hbase
    have hsteps : h₁.timeline.timelineSteps = h.timeline.timelineSteps := by
      rw [ht]
      simp [Host.launchBase]
    have hsig₁ : h₁.timeline.timelineSignal ≠ 0 := by
      rw [ht]
      simpa [Host.launchBase] using hsig
    refine wp_mono (wp_performLaunch hsig₁ (h.functions f) grid block sharedMemBytes params
      numParams async) (fun _ h₂ hdone => ?_) (fun _ h₂ hfail => ?_)
    · obtain ⟨hframe, hevents, ⟨qmdAddr, ht₂⟩, c, rest, ptr, hc, halloc, hops⟩ := hdone
      rw [hsteps] at ht₂ hops
      rw [ht] at ht₂
      rw [hq.operations] at hops
      exact ⟨f, rfl, ⟨hq.toFrame.trans hframe, hq.toSameEvents.trans hevents,
        ⟨calls, qmdAddr, hcalls, ht₂⟩, ⟨c, rest, ptr, hc, halloc.of_quiet hq, hops⟩⟩⟩
    · obtain ⟨hstill, hargs⟩ := hfail
      refine ⟨hq.toFrame.trans hstill.toFrame, hq.toSameEvents.trans hstill.toSameEvents,
        hstill.operations.trans hq.operations, ?_,
        Or.inr ⟨calls, hcalls, Or.inr (hstill.timeline.trans ht)⟩⟩
      rcases hargs with hsame | ⟨c, rest, ptr, hc, halloc⟩
      · exact Or.inl (hq.toSameArgs.trans hsame)
      · exact Or.inr ⟨f, rfl, Or.inr ⟨c, rest, ptr, hc, halloc.of_quiet hq⟩⟩
  · -- local memory could not grow
    refine .of_quiet hfail.1 (Or.inr ⟨[], .none, Or.inl ?_⟩)
    rw [pushAll_nil]
    exact hfail.2

/-! ## Copies -/

/-- What a successful copy did. -/
structure Host.Copied (async : Bool) (h h' : Host) : Prop
    extends Host.Frame h h', Host.SameEvents h h', Host.SameArgs h h' where
  timeline : ∃ dst src numBytes, h'.timeline = ((h.timeline.select .dma).pushAll .dma
    (copyCalls dst src numBytes ⟨h.timeline.timelineSteps + 1, async⟩)).finish .dma async
  operation : h'.operations = h.operations ++
    [⟨h.timeline.timelineSteps + 1, .dma, async, (0, 0)⟩]

theorem wp_performCopy {h : Host} (hsig : h.timeline.timelineSignal ≠ 0)
    (dst src numBytes : NvU64) (async : Bool) (ok : Unit → Host → Prop)
    (err : Failure → Host → Prop) :
    wp (performCopy dst src numBytes async) ok err h ↔
      ok () ((h.addOperation .dma async (0, 0)).setTimeline ((h.timeline.pushAll .dma
        (copyCalls dst src numBytes ⟨h.timeline.timelineSteps + 1, async⟩)).finish .dma async)) := by
  rw [performCopy, wp_bind, wp_get, wp_bind, wp_onTimeline,
    wp_enqueue _ _ _ _ 4 _ (by decide) rfl, wp_bind, wp_onTimeline,
    wp_enqueue _ _ _ _ 1 _ (by decide) rfl, wp_bind, wp_onTimeline,
    wp_enqueue _ _ _ _ 1 _ (by decide) rfl, wp_bind, wp_modify, wp_onTimeline]
  simp only [setTimeline_timeline, setTimeline_setTimeline, addOperation_timeline,
    pushAll_pushAll]
  rw [wp_finishOperation (h := by simpa using hsig)]
  rw [addOperation_setTimeline (pushAll_timelineSteps ..), setTimeline_setTimeline]
  rfl

/-- **What a copy does**: it fails before it has done anything, or is enqueued. -/
theorem wp_gpuMemcpy {h : Host} (hsig : h.timeline.timelineSignal ≠ 0)
    (dst src numBytes : NvU64) (async : Bool) :
    wp (gpuMemcpy dst src numBytes async) (fun _ h' => h.Copied async h') (fun _ h' => h' = h)
      h := by
  rw [gpuMemcpy, wp_bind, wp_validate]
  split
  swap
  · rfl
  rw [wp_bind, wp_validate]
  split
  swap
  · rfl
  rw [wp_bind, wp_validate]
  split
  swap
  · rfl
  rw [wp_bind, wp_onTimeline, wp_selectQueueType, wp_performCopy (by simpa using hsig)]
  have hsteps : (h.timeline.select .dma).timelineSteps = h.timeline.timelineSteps :=
    select_timelineSteps ..
  rw [setTimeline_timeline, hsteps, addOperation_setTimeline hsteps]
  exact ⟨⟨rfl, rfl, rfl, rfl, rfl, rfl⟩, ⟨rfl, rfl⟩, ⟨rfl, rfl⟩, ⟨dst, src, numBytes, rfl⟩, rfl⟩

/-! ## Events -/

/-- Signals of events come from where they were, or from the pool. -/
structure Host.EventsTouched (h h' : Host) : Prop where
  signal : ∀ e type, (h'.events e).signal type = (h.events e).signal type ∨
    ∃ idx ∈ h.queue.freeSignals,
      (h'.events e).signal type = h.queue.signalPool + idx.setWidth 64 * nvSignalBytes
  freeSignals : h'.queue.freeSignals ⊆ h.queue.freeSignals

theorem Host.SameEvents.touched {h h' : Host} (hs : h.SameEvents h') : h.EventsTouched h' :=
  ⟨fun e type => Or.inl (by rw [hs.events]), by rw [hs.freeSignals]; exact List.Subset.refl _⟩

/-- What `recordEvent` may change besides the timeline. -/
structure Host.Recording (h h' : Host) : Prop
    extends Host.Frame h h', Host.EventsTouched h h', Host.SameArgs h h' where
  operations : h'.operations = h.operations

theorem Host.Quiet.recording {h h' : Host} (hq : h.Quiet h') : h.Recording h' :=
  ⟨hq.toFrame, hq.toSameEvents.touched, hq.toSameArgs, hq.operations⟩

/-- Taking a signal from the pool. -/
theorem wp_obtainSignal (h : Host) :
    wp obtainSignal
      (fun signal h' => ∃ idx rest, h.queue.freeSignals = idx :: rest ∧
        signal = h.queue.signalPool + idx.setWidth 64 * nvSignalBytes ∧
        h' = { h with queue := { h.queue with freeSignals := rest } })
      (fun _ h' => h' = h) h := by
  rw [obtainSignal, wp_bind, wp_get, wp_bind, wp_validate]
  split
  · split
    · rw [wp_throw]
    · rename_i idx rest hfree
      rw [wp_bind, wp_set, wp_pure]
      exact ⟨idx, rest, hfree, rfl, rfl⟩
  · rfl

/-- Replacing one signal of one event. -/
theorem signal_setSignal (events : ℕ → LibreCUEvent) (event : ℕ) (signal : NvU64)
    (type : QueueType) (e : ℕ) (type' : QueueType) :
    ((Function.update events event ((events event).setSignal signal type)) e).signal type' =
      if e = event ∧ type' = type then signal else (events e).signal type' := by
  by_cases he : e = event
  · subst he
    rw [Function.update_self]
    cases type <;> cases type' <;> simp [LibreCUEvent.setSignal, LibreCUEvent.signal]
  · rw [Function.update_of_ne he]
    simp [he]

/-- An event without a signal for an engine gets one from the pool. -/
theorem wp_provideSignal (event : ℕ) (type : QueueType) (h : Host) :
    wp (provideSignal event type) (fun _ h' => h.Recording h' ∧ h'.timeline = h.timeline)
      (fun _ h' => h.Recording h' ∧ h'.timeline = h.timeline) h := by
  rw [provideSignal, wp_bind, wp_get, wp_onlyIf]
  split
  · rw [wp_bind]
    refine wp_mono (wp_obtainSignal h) (fun signal h₁ hobtain => ?_) (fun _ h₁ hsame => ?_)
    · obtain ⟨idx, rest, hfree, hsignal, rfl⟩ := hobtain
      rw [wp_modify]
      refine ⟨⟨⟨rfl, rfl, rfl, rfl, rfl, rfl⟩, ⟨fun e type' => ?_, ?_⟩, ⟨rfl, rfl⟩, rfl⟩, rfl⟩
      · show (Function.update h.events event _ e).signal type' = _ ∨ _
        rw [signal_setSignal]
        split
        · exact Or.inr ⟨idx, by rw [hfree]; exact List.mem_cons_self, hsignal⟩
        · exact Or.inl rfl
      · rw [hfree]
        exact List.subset_cons_self idx rest
    · subst hsame
      exact ⟨(Host.Quiet.refl h₁).recording, rfl⟩
  · exact ⟨(Host.Quiet.refl h).recording, rfl⟩

theorem Host.Recording.trans {h h' h'' : Host} (a : h.Recording h') (b : h'.Recording h'') :
    h.Recording h'' := by
  refine ⟨a.toFrame.trans b.toFrame, ⟨fun e type => ?_, fun idx hidx => a.freeSignals (b.freeSignals hidx)⟩,
    a.toSameArgs.trans b.toSameArgs, b.operations.trans a.operations⟩
  rcases b.signal e type with hb | ⟨idx, hidx, hb⟩
  · rw [hb]
    exact a.signal e type
  · exact Or.inr ⟨idx, a.freeSignals hidx, by rw [hb, a.signalPool]⟩

theorem Host.Recording.setTimeline {h h' : Host} (a : h.Recording h') (t : CommandTimeline) :
    h.Recording (h'.setTimeline t) :=
  a.trans (quiet_setTimeline h' t).recording

/-- Recording on an engine releases a signal of the event there. -/
theorem wp_notifyEvent (event : ℕ) (type : QueueType) (h : Host) :
    wp (notifyEvent event type)
      (fun _ h' => h.Recording h' ∧ ∃ signal, signal ≠ 0 ∧
        signal = (h'.events event).signal type ∧
        h'.timeline = h.timeline.pushAll type (releaseCalls type signal 1))
      (fun _ h' => h.Recording h' ∧ h'.timeline = h.timeline) h := by
  rw [notifyEvent, wp_bind]
  refine wp_mono (wp_provideSignal event type h) (fun _ h₁ hp => ?_) (fun _ _ hp => hp)
  obtain ⟨hrec, ht⟩ := hp
  rw [wp_bind, wp_get, wp_onTimeline]
  by_cases hzero : (h₁.events event).signal type = 0
  · rw [hzero, wp_of_call_error (call_signalNotify_zero 1 type h₁.timeline)]
    exact ⟨hrec.setTimeline _, ht⟩
  · rw [wp_signalNotify _ _ _ _ hzero]
    exact ⟨hrec.setTimeline _, _, hzero, rfl, by rw [setTimeline_timeline, ht]⟩

theorem recording_setStream (h : Host) (event pStream : ℕ) :
    h.Recording (h.setStream event pStream) := by
  refine ⟨⟨rfl, rfl, rfl, rfl, rfl, rfl⟩, ⟨fun e type => Or.inl ?_, List.Subset.refl _⟩,
    ⟨rfl, rfl⟩, rfl⟩
  show (Function.update h.events event _ e).signal type = _
  by_cases he : e = event
  · subst he
    rw [Function.update_self]
    cases type <;> rfl
  · rw [Function.update_of_ne he]

/-- **What `recordEvent` does**: it releases a signal of the event on the engine the queue is in the
mode of. -/
theorem wp_recordEvent_some (event pStream : ℕ) (h : Host) :
    wp (recordEvent (some event) pStream)
      (fun _ h' => h.Recording h' ∧ ∃ signal, signal ≠ 0 ∧
        signal = (h'.events event).signal h.timeline.recordType ∧
        h'.timeline = h.timeline.record signal)
      (fun _ h' => h.Recording h' ∧ h'.timeline = h.timeline) h := by
  unfold recordEvent
  rw [wp_bind, wp_modify]
  have hstream := recording_setStream h event pStream
  have ht₀ : (h.setStream event pStream).timeline = h.timeline := rfl
  generalize h.setStream event pStream = h₀ at hstream ht₀ ⊢
  rw [wp_bind, wp_get]
  have hnotify : ∀ type, wp (notifyEvent event type)
      (fun _ h' => h.Recording h' ∧ ∃ signal, signal ≠ 0 ∧
        signal = (h'.events event).signal type ∧
        h'.timeline = h.timeline.pushAll type (releaseCalls type signal 1))
      (fun _ h' => h.Recording h' ∧ h'.timeline = h.timeline) h₀ := by
    intro type
    refine wp_mono (wp_notifyEvent event type h₀) (fun _ _ hn => ?_) (fun _ _ hn => ?_)
    · rw [← ht₀]
      exact ⟨hstream.trans hn.1, hn.2⟩
    · exact ⟨hstream.trans hn.1, hn.2.trans ht₀⟩
  split
  · rename_i type hmode
    have hmode' : h.timeline.currentQueueType = some type := by
      rw [← ht₀]
      exact hmode
    refine wp_mono (hnotify type) (fun _ h₁ hn => ?_) (fun _ _ hn => hn)
    obtain ⟨hrec, signal, hne, hsignal, ht⟩ := hn
    have htype : h.timeline.recordType = type := by simp [CommandTimeline.recordType, hmode']
    refine ⟨hrec, signal, hne, by rw [htype]; exact hsignal, ?_⟩
    rw [ht, CommandTimeline.record, htype, ← hmode', ← pushAll_currentQueueType]
  · rename_i hmode
    have hmode' : h.timeline.currentQueueType = none := by
      rw [← ht₀]
      exact hmode
    rw [wp_bind]
    refine wp_mono (hnotify .compute) (fun _ h₁ hn => ?_) (fun _ _ hn => hn)
    obtain ⟨hrec, signal, hne, hsignal, ht⟩ := hn
    have htype : h.timeline.recordType = .compute := by simp [CommandTimeline.recordType, hmode']
    rw [wp_onTimeline, wp_modify]
    refine ⟨hrec.setTimeline _, signal, hne, by rw [htype]; exact hsignal, ?_⟩
    rw [setTimeline_timeline, ht, CommandTimeline.record, htype]

/-- The same for any argument. -/
theorem wp_recordEvent (event : Option ℕ) (pStream : ℕ) (h : Host) :
    wp (recordEvent event pStream)
      (fun _ h' => h.Recording h' ∧ ∃ e signal, signal ≠ 0 ∧
        signal = (h'.events e).signal h.timeline.recordType ∧
        h'.timeline = h.timeline.record signal)
      (fun _ h' => h.Recording h' ∧ h'.timeline = h.timeline) h := by
  cases event with
  | none =>
    rw [recordEvent, wp_throw]
    exact ⟨(Host.Quiet.refl h).recording, rfl⟩
  | some event =>
    refine wp_mono (wp_recordEvent_some event pStream h) (fun _ _ hok => ?_) (fun _ _ => id)
    obtain ⟨hrec, signal, hok⟩ := hok
    exact ⟨hrec, event, signal, hok⟩

end LibreCuda
