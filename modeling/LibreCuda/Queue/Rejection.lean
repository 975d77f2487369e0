import LibreCuda.Queue.Acceptance
import LibreCuda.Queue.Session

/-! # What a rejected launch leaves behind

`launchFunction` checks some of its arguments only behind the effects that prepare a launch: the
change of mode, the growth of local memory, the synchronisation and the allocation of the arguments.

* **`Host.Untouched`**: the queue and the live allocations are as they were.
* **`rejected_launch_untouched_iff`** says which of the launches that fail leave the stream untouched. -/

namespace LibreCuda

open Exec

/-! ## Commands -/

/-- No command, target or left out release differs. -/
structure CommandTimeline.SameCommands (t t' : CommandTimeline) : Prop where
  computeCommandBuffer : t'.computeCommandBuffer = t.computeCommandBuffer
  dmaCommandBuffer : t'.dmaCommandBuffer = t.dmaCommandBuffer
  commandBufBacklog : t'.commandBufBacklog = t.commandBufBacklog
  timelineCtr : t'.timelineCtr = t.timelineCtr
  timelineNotifyPending : t'.timelineNotifyPending = t.timelineNotifyPending

/-- Selecting the compute mode sets nothing aside. -/
def CommandTimeline.KeepsMode (t : CommandTimeline) : Prop :=
  t.dmaCommandBuffer = [] ∨ t.currentQueueType ≠ some .dma

/-- A synchronous launch has nothing to put before itself. -/
def CommandTimeline.InStep (t : CommandTimeline) (value : NvU64) (async : Bool) : Prop :=
  async = true ∨ t.timelineNotifyPending = false ∧ value = t.timelineCtr.setWidth 64

section Commands

variable {t : CommandTimeline}

/-- Without commands of the other engine to set aside, the mode is all that changes. -/
theorem CommandTimeline.KeepsMode.select (hmode : t.KeepsMode) : ∃ type,
    t.select .compute = { t with currentQueueType := type } := by
  unfold CommandTimeline.select
  split_ifs with hempty hdma
  · exact ⟨_, rfl⟩
  · exact absurd hdma (hmode.resolve_left hempty)
  · exact ⟨_, rfl⟩

/-- And if nothing was set aside, there was nothing to set aside. -/
theorem keepsMode_of_backlog
    (hback : (t.select .compute).commandBufBacklog = t.commandBufBacklog) : t.KeepsMode := by
  unfold CommandTimeline.select at hback
  split_ifs at hback with hempty hdma
  · exact Or.inl hempty
  · exact absurd hback (by simp)
  · exact Or.inr hdma

/-- **Selecting the compute mode** keeps the commands exactly when it sets nothing aside. -/
theorem sameCommands_select_iff : t.SameCommands (t.select .compute) ↔ t.KeepsMode := by
  refine ⟨fun hsame => keepsMode_of_backlog hsame.commandBufBacklog, fun hmode => ?_⟩
  obtain ⟨type, heq⟩ := hmode.select
  rw [heq]
  exact ⟨rfl, rfl, rfl, rfl, rfl⟩

theorem synchronizeCalls_eq_nil_iff (value : NvU64) (async : Bool) :
    t.synchronizeCalls value async = [] ↔ t.InStep value async := by
  unfold CommandTimeline.synchronizeCalls CommandTimeline.InStep waitCalls
  cases async with
  | true => simp
  | false => cases t.timelineNotifyPending <;> simp [releaseCalls]

theorem synchronize_of_inStep {value : NvU64} {async : Bool} (hstep : t.InStep value async) :
    t.synchronize value async = t := by
  unfold CommandTimeline.synchronize CommandTimeline.notifyPending waitCalls
  rcases hstep with rfl | ⟨hpending, hvalue⟩
  · rfl
  · rw [hpending, if_neg Bool.false_ne_true, if_pos hvalue, pushAll_nil, ite_self]

/-- **A launch that needs no more local memory** puts nothing before itself exactly when it selects
its mode quietly and is in step. -/
theorem sameCommands_synchronize_iff (value : NvU64) (async : Bool) :
    t.SameCommands ((t.select .compute).synchronize value async) ↔
      t.KeepsMode ∧ t.InStep value async := by
  have happends := appends_synchronize (t.select .compute) value async
  constructor
  · intro hsame
    have hmode := keepsMode_of_backlog (happends.commandBufBacklog.symm.trans hsame.commandBufBacklog)
    obtain ⟨type, heq⟩ := hmode.select
    refine ⟨hmode, (synchronizeCalls_eq_nil_iff value async).mp ?_⟩
    have hbuffer := happends.commandBuffer
    rw [heq] at hbuffer hsame
    have hcompute : t.computeCommandBuffer = t.computeCommandBuffer ++
        t.synchronizeCalls value async := hsame.computeCommandBuffer.symm.trans hbuffer
    exact List.self_eq_append_right.mp hcompute
  · rintro ⟨hmode, hstep⟩
    obtain ⟨type, heq⟩ := hmode.select
    have hstep' : CommandTimeline.InStep { t with currentQueueType := type } value async := hstep
    rw [heq, synchronize_of_inStep hstep']
    exact ⟨rfl, rfl, rfl, rfl, rfl⟩

/-- Announcing local memory is a command. -/
theorem not_sameCommands_grown (h : Host) (va bytesPerTpc : NvU64) (async : Bool) :
    ¬ h.timeline.SameCommands (h.launchBase (localMemCalls va bytesPerTpc) async) := by
  intro hsame
  have happends := appends_synchronize ((h.timeline.select .compute).pushAll .compute
    (localMemCalls va bytesPerTpc)) (h.signals h.timeline.timelineSignal).value async
  have hmode : h.timeline.KeepsMode := by
    refine keepsMode_of_backlog ?_
    rw [← pushAll_commandBufBacklog (h.timeline.select .compute) .compute
      (localMemCalls va bytesPerTpc)]
    exact happends.commandBufBacklog.symm.trans hsame.commandBufBacklog
  have hselect : (h.timeline.select .compute).commandBuffer .compute =
      h.timeline.computeCommandBuffer := by
    obtain ⟨type, heq⟩ := hmode.select
    rw [heq]
    rfl
  have hbuffer := happends.commandBuffer
  rw [pushAll_commandBuffer, hselect, List.append_assoc] at hbuffer
  have hcompute := hsame.computeCommandBuffer.symm.trans hbuffer
  have hnil := List.self_eq_append_right.mp hcompute
  cases hnil

end Commands

/-! ## Arguments -/

/-- Nothing is taken from the argument page: there is no constant bank, the page has no room, or the
size to take wraps to zero. -/
def Host.TakesNoArgs (h : Host) (f : LibreCUFunction) : Prop :=
  ∀ c ∈ f.constants.head?, kernargsPageSize < h.queue.kernArgsWriteIdx + kernargsSize c.size ∨
    kernargsSize c.size = 0

theorem takesNoArgs_iff_of_allocated {h h' : Host} {f : LibreCUFunction} {c : KernelConstantInfo}
    {rest : List KernelConstantInfo} {ptr : NvU64} (hc : f.constants = c :: rest)
    (halloc : h.Allocated h' ptr (kernargsSize c.size)) :
    h'.queue.kernArgsWriteIdx = h.queue.kernArgsWriteIdx ↔ h.TakesNoArgs f := by
  rw [halloc.kernArgsWriteIdx, Host.TakesNoArgs, hc]
  constructor
  · intro hsame c' hc'
    obtain rfl := Option.some.inj hc'
    exact Or.inr (BitVec.add_right_eq_self.mp hsame)
  · intro hnone
    rcases hnone c rfl with hfull | hzero
    · exact absurd hfull halloc.fits
    · rw [hzero]
      exact BitVec.add_zero _

/-- Writing the arguments takes bytes from the page, unless nothing is to be taken. -/
theorem wp_writeKernArgs_idx (f : LibreCUFunction) (grid block : Dim3) (params : ℕ → ℕ → NvU8)
    (numParams : NvU64) (h : Host) :
    wp (writeKernArgs f grid block params numParams)
      (fun _ h' => h'.queue.kernArgsWriteIdx = h.queue.kernArgsWriteIdx ↔ h.TakesNoArgs f)
      (fun _ h' => h'.queue.kernArgsWriteIdx = h.queue.kernArgsWriteIdx ↔ h.TakesNoArgs f) h := by
  unfold writeKernArgs
  split
  · rename_i hnil
    rw [wp_throw]
    refine ⟨fun _ c hc => ?_, fun _ => rfl⟩
    rw [hnil] at hc
    cases hc
  rename_i c rest hc
  rw [wp_bind]
  refine wp_mono (wp_and (wp_allocKernArgs (kernargsSize c.size) h) (wp_allocKernArgs_fits _ h))
    (fun ptr h₁ h₁' => ?_) (fun _ h₁ h₁' => ?_)
  · obtain ⟨⟨-, halloc⟩, -⟩ := h₁'
    rw [wp_bind]
    refine wp_mono (wp_fillKernArgs f grid block params numParams ptr _ h₁) (fun _ h₂ hq => ?_)
      (fun _ h₂ hq => takesNoArgs_iff_of_allocated hc (halloc.of_sameArgs hq.1.toSameArgs))
    rw [wp_pure]
    exact takesNoArgs_iff_of_allocated hc (halloc.of_sameArgs hq.1.toSameArgs)
  · obtain ⟨rfl, hfull⟩ := h₁'
    refine ⟨fun _ c' hc' => ?_, fun _ => rfl⟩
    rw [hc] at hc'
    obtain rfl := Option.some.inj hc'
    exact Or.inl hfull

/-- A launch that fails behind its preparation may have taken its arguments. -/
theorem wp_performLaunch_rejected {h : Host} (hsig : h.timeline.timelineSignal ≠ 0)
    (f : LibreCUFunction) (grid block : Dim3) (sharedMemBytes : NvU32) (params : ℕ → ℕ → NvU8)
    (numParams : NvU64) (async : Bool) :
    wp (performLaunch f grid block sharedMemBytes params numParams async) (fun _ _ => True)
      (fun _ h' => h'.timeline = h.timeline ∧ h.SameLocalMem h' ∧
        (h'.queue.kernArgsWriteIdx = h.queue.kernArgsWriteIdx ↔ h.TakesNoArgs f)) h := by
  have hfailed : wp (performLaunch f grid block sharedMemBytes params numParams async)
      (fun _ _ => True) (fun _ h' => h.SameLocalMem h' ∧
        (h'.queue.kernArgsWriteIdx = h.queue.kernArgsWriteIdx ↔ h.TakesNoArgs f)) h := by
    refine wp_performLaunch_of_checks hsig f grid block sharedMemBytes params numParams async
      (wp_mono (wp_and (keeps_writeKernArgs f grid block params numParams h)
        (wp_writeKernArgs_idx f grid block params numParams h)) (fun _ h₁ hidx => ?_) fun _ _ => id)
    refine wp_mono (wp_checkLaunch_fits f grid block sharedMemBytes h₁) (fun _ _ _ => trivial)
      (fun _ h₂ hsame => ?_)
    rw [hsame.2]
    exact hidx
  exact wp_mono (wp_and (wp_performLaunch hsig f grid block sharedMemBytes params numParams async)
    hfailed) (fun _ _ _ => trivial) (fun _ _ hboth => ⟨hboth.1.1.timeline, hboth.2⟩)

/-! ## Launches that are rejected -/

/-- Queue and live allocations are as they were. -/
structure Host.Untouched (h h' : Host) : Prop extends
    CommandTimeline.SameCommands h.timeline h'.timeline where
  kernArgsWriteIdx : h'.queue.kernArgsWriteIdx = h.queue.kernArgsWriteIdx
  currentSlmPerThread : h'.queue.currentSlmPerThread = h.queue.currentSlmPerThread
  liveHandles : ∀ x, x ∈ h'.vm.liveHandles ↔ x ∈ h.vm.liveHandles

/-- Local memory has to grow, and that is refused before anything changed: what the function had
cannot be given back; or the new one is not handed out, where the reservation stays what it was and
the live handles are the same without the old and with what was handed out in vain. -/
def Host.RefusesGrowth (h : Host) (function : ℕ) : Prop :=
  let f := h.functions function
  let v := h.vm.released f.shaderLocalMemoryVa
  h.NeedsLocalMem function ∧ (¬ h.vm.Releases f.shaderLocalMemoryVa ∨
    ¬ v.Allocates true ∧ slmPerThread f.localMemReq = h.queue.currentSlmPerThread ∧
      ∀ x, ((v.Grants ∧ x = (v.reply 0).handle) ∨ x ∈ v.liveHandles) ↔ x ∈ h.vm.liveHandles)

/-- Local memory is large enough, there is nothing to synchronise with, and no arguments are taken.
-/
def Host.RefusesArgs (h : Host) (function : ℕ) (async : Bool) : Prop :=
  ¬ h.NeedsLocalMem function ∧
    h.timeline.InStep (h.signals h.timeline.timelineSignal).value async ∧
    h.TakesNoArgs (h.functions function)

/-- **A launch that fails does so before its first effect**: there is no function, the number of
arguments is wrong, or no commands are set aside and neither local memory, nor a synchronisation,
nor an argument region comes before the check that fails. -/
def Host.RejectsEarly (h : Host) (function : Option ℕ) (numParams : NvU64) (async : Bool) : Prop :=
  ∀ f, function = some f → numParams.toNat ≠ (h.functions f).paramInfo.length ∨
    h.timeline.KeepsMode ∧ (h.RefusesGrowth f ∨ h.RefusesArgs f async)

section Rejected

variable {h : Host}

/-- A preparation that is refused. -/
theorem untouched_of_growthRefused {function : ℕ} {h' : Host}
    (hrefused : (h.setTimeline (h.timeline.select .compute)).GrowthRefused function h') :
    h.Untouched h' ↔ h.timeline.KeepsMode ∧ h.RefusesGrowth function := by
  obtain ⟨hneeds, ht, hidx, hleft⟩ := hrefused
  rw [setTimeline_timeline] at ht
  have hcommands : h.timeline.SameCommands h'.timeline ↔ h.timeline.KeepsMode := by
    rw [ht]
    exact sameCommands_select_iff
  constructor
  · intro hsame
    refine ⟨hcommands.mp hsame.toSameCommands, hneeds, ?_⟩
    rcases hleft with ⟨hreleases, -, -⟩ | ⟨-, hallocates, hslm, hlive⟩
    · exact Or.inl hreleases
    · refine Or.inr ⟨hallocates, hslm.symm.trans hsame.currentSlmPerThread, fun x => ?_⟩
      exact (hlive x).symm.trans (hsame.liveHandles x)
  · rintro ⟨hmode, -, hwhy⟩
    rcases hleft with ⟨-, hslm, hlive⟩ | ⟨hreleases, -, hslm, hlive⟩
    · refine ⟨hcommands.mpr hmode, hidx, hslm, fun x => ?_⟩
      rw [hlive]
      exact Iff.rfl
    · rcases hwhy with hnot | ⟨-, hstay, hsame⟩
      · exact absurd hreleases hnot
      · exact ⟨hcommands.mpr hmode, hidx, hslm.trans hstay, fun x => (hlive x).trans (hsame x)⟩

/-- **Which launches that fail leave the stream untouched**: exactly those that fail before their
first effect. -/
theorem wp_launchFunction_untouched (hsig : h.timeline.timelineSignal ≠ 0) (function : Option ℕ)
    (grid block : Dim3) (sharedMemBytes : NvU32) (params : ℕ → ℕ → NvU8) (numParams : NvU64)
    (async : Bool) :
    wp (launchFunction function grid block sharedMemBytes params numParams async) (fun _ _ => True)
      (fun _ h' => h.Untouched h' ↔ h.RejectsEarly function numParams async) h := by
  have hself : h.Untouched h := ⟨⟨rfl, rfl, rfl, rfl, rfl⟩, rfl, rfl, fun _ => Iff.rfl⟩
  unfold launchFunction
  split
  · rw [wp_throw]
    exact ⟨fun _ f hf => (by cases hf), fun _ => hself⟩
  rename_i f
  have hearly : numParams.toNat = (h.functions f).paramInfo.length →
      (h.RejectsEarly (some f) numParams async ↔
        h.timeline.KeepsMode ∧ (h.RefusesGrowth f ∨ h.RefusesArgs f async)) := by
    intro hcount
    constructor
    · intro hall
      exact (hall f rfl).resolve_left fun hne => hne hcount
    · intro hall f' hf
      obtain rfl := Option.some.inj hf
      exact Or.inr hall
  rw [wp_bind, wp_get, wp_bind, wp_validate]
  split
  swap
  · rename_i hcount
    refine ⟨fun _ f' hf => ?_, fun _ => hself⟩
    obtain rfl := Option.some.inj hf
    exact Or.inl fun heq => hcount (beq_iff_eq.mpr heq)
  rename_i hcount
  rw [hearly (beq_iff_eq.mp hcount), wp_bind]
  refine wp_mono (wp_and (wp_prepareLaunch hsig f async) (wp_prepareLaunch_grows hsig f async))
    (fun _ h₁ h₁' => ?_) (fun _ h₁ h₁' => ?_)
  · obtain ⟨⟨hq, calls, -, hbase⟩, hgrows, -, hstay, hgrow⟩ := h₁'
    have hsig₁ : h₁.timeline.timelineSignal ≠ 0 := by
      rw [hbase, launchBase_timelineSignal]
      exact hsig
    refine wp_mono (wp_performLaunch_rejected hsig₁ (h.functions f) grid block sharedMemBytes params
      numParams async) (fun _ _ _ => trivial) (fun _ h₂ h₂' => ?_)
    obtain ⟨ht, hlocal, hidx⟩ := h₂'
    by_cases hneeds : h.NeedsLocalMem f
    · -- local memory has grown, which is a command
      obtain ⟨va, bytesPerTpc, hgrown⟩ := hgrow hneeds
      refine ⟨fun hsame => ?_, ?_⟩
      · have hcommands := hsame.toSameCommands
        rw [ht, hgrown] at hcommands
        exact absurd hcommands (not_sameCommands_grown h va bytesPerTpc async)
      · rintro ⟨-, ⟨-, hnot | ⟨hnot, -⟩⟩ | ⟨hnot, -⟩⟩
        · exact absurd (hgrows hneeds).1 hnot
        · exact absurd (hgrows hneeds).2 hnot
        · exact absurd hneeds hnot
    -- what is left are the waits of the launch and the region of its arguments
    · have heq := hstay hneeds
      have hcommands : h.timeline.SameCommands h₂.timeline ↔ h.timeline.KeepsMode ∧
          h.timeline.InStep (h.signals h.timeline.timelineSignal).value async := by
        rw [ht, heq, setTimeline_timeline, Host.launchBase, pushAll_nil]
        exact sameCommands_synchronize_iff _ async
      rw [heq] at hidx hlocal
      replace hidx : h₂.queue.kernArgsWriteIdx = h.queue.kernArgsWriteIdx ↔
        h.TakesNoArgs (h.functions f) := hidx
      constructor
      · intro hsame
        obtain ⟨hmode, hstep⟩ := hcommands.mp hsame.toSameCommands
        exact ⟨hmode, Or.inr ⟨hneeds, hstep, hidx.mp hsame.kernArgsWriteIdx⟩⟩
      · rintro ⟨hmode, ⟨hgrowth, -⟩ | ⟨-, hstep, hnone⟩⟩
        · exact absurd hgrowth hneeds
        · refine ⟨hcommands.mpr ⟨hmode, hstep⟩, hidx.mpr hnone, hlocal.currentSlmPerThread,
            fun x => ?_⟩
          rw [hlocal.vm]
          exact Iff.rfl
  -- the growth of local memory was refused, in front of every command
  · obtain ⟨-, hnot, hrefused⟩ := h₁'
    rw [untouched_of_growthRefused hrefused]
    refine and_congr_right fun _ => ⟨Or.inl, fun hwhy => hwhy.resolve_right fun hargs => ?_⟩
    exact hargs.1 hrefused.needs

/-- **A launch that is rejected leaves no trace if and only if it is rejected early.** -/
theorem rejected_launch_untouched_iff {h' : Host} (hsig : h.timeline.timelineSignal ≠ 0)
    {function : Option ℕ} {grid block : Dim3} {sharedMemBytes : NvU32} {params : ℕ → ℕ → NvU8}
    {numParams : NvU64} {async : Bool} {s : Status}
    (hc : call (launchFunction function grid block sharedMemBytes params numParams async) h =
      (.error (.status s), h')) :
    h.Untouched h' ↔ h.RejectsEarly function numParams async := by
  rcases wp_call hc (wp_launchFunction_untouched hsig function grid block sharedMemBytes params
    numParams async) with ⟨_, hok, -⟩ | ⟨_, -, herr⟩
  · cases hok
  · exact herr

end Rejected

/-- A launch of the sample function with an argument too many. -/
theorem rejected_launch_untouched_iff_sample : sampleStream.Untouched
    (call (launchFunction (some 0) ⟨1, 1, 1⟩ ⟨1, 1, 1⟩ 0 (fun _ _ => 0) 1 false)
      sampleStream).2 := by
  have hearly : sampleStream.RejectsEarly (some 0) 1 false := by
    intro f hf
    cases hf
    exact Or.inl (by decide +kernel)
  have hsig : sampleStream.timeline.timelineSignal ≠ 0 := by decide +kernel
  have hfails : (call (launchFunction (some 0) ⟨1, 1, 1⟩ ⟨1, 1, 1⟩ 0 (fun _ _ => 0) 1 false)
      sampleStream).1 = .error (.status .invalidValue) := by decide +kernel
  generalize hrun : call (launchFunction (some 0) ⟨1, 1, 1⟩ ⟨1, 1, 1⟩ 0 (fun _ _ => 0) 1 false)
    sampleStream = r at hfails ⊢
  exact (rejected_launch_untouched_iff hsig (hrun.trans (Prod.ext hfails rfl))).mpr hearly

/-- **A launch of blocks that are too large keeps its argument region.** -/
theorem rejected_launch_keeps_args :
    (call (launchFunction (some 0) ⟨1, 1, 1⟩ ⟨1024, 1, 1⟩ 0 (fun _ _ => 0) 0 true)
      sampleStream).1 = .error (.status .launchOutOfResources) ∧
    ¬ sampleStream.Untouched (call (launchFunction (some 0) ⟨1, 1, 1⟩ ⟨1024, 1, 1⟩ 0
      (fun _ _ => 0) 0 true) sampleStream).2 := by
  refine ⟨by decide +kernel, fun hsame => ?_⟩
  exact absurd hsame.kernArgsWriteIdx (by decide +kernel)

end LibreCuda
