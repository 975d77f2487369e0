import LibreCuda.Driver.Replies
import LibreCuda.Queue.Updates

/-! # When a launch is accepted

`launchFunction` fails for about a dozen reasons, some of which the kernel driver decides. This file
states them as conditions on the launch and on the state in front of it.

* **`Host.GrowsLocalMem`**, **`Host.TakesArgs`**, **`FitsDevice`**: what the parts of a launch ask
for.
* **`wp_launchFunction_accepts`**: a launch succeeds exactly when all of them hold. -/

namespace LibreCuda

open Exec

/-! ## Local memory -/

/-- The function needs more local memory per thread than the queue has reserved. -/
def Host.NeedsLocalMem (h : Host) (function : ℕ) : Prop :=
  h.queue.currentSlmPerThread < (h.functions function).localMemReq.setWidth 64

/-- Local memory is large enough, or the kernel lets it grow: it takes back what the function had,
and hands out the new one. -/
def Host.GrowsLocalMem (h : Host) (function : ℕ) : Prop :=
  h.NeedsLocalMem function → h.vm.Releases (h.functions function).shaderLocalMemoryVa ∧
    (h.vm.released (h.functions function).shaderLocalMemoryVa).Allocates true

/-- What decides about a launch is the same. -/
structure Host.SameResources (h h' : Host) : Prop where
  functions : h'.functions = h.functions
  vm : h'.vm = h.vm
  currentSlmPerThread : h'.queue.currentSlmPerThread = h.queue.currentSlmPerThread
  kernArgsWriteIdx : h'.queue.kernArgsWriteIdx = h.queue.kernArgsWriteIdx

/-- The local memory the queue reserves for a size per thread. -/
def localMemSize (slm : NvU64) : NvU64 := ceilDiv (bytesPerTpc slm * 64) 0x20000 * 0x20000

/-- What decides about a launch once the function has new local memory. -/
def Host.grown (h : Host) (function : ℕ) (slm : NvU64) : Host :=
  { h with
    queue := { h.queue with currentSlmPerThread := slm }
    vm := h.vm.allocated (localMemSize slm) true
    functions := Function.update h.functions function
      { h.functions function with
        shaderLocalMemoryVa := h.vm.nextVa (gpuAllocAlignment true) } }

/-- What decides about a launch once local memory was looked after. -/
def Host.afterGrowth (h : Host) (function : ℕ) : Host :=
  if h.queue.currentSlmPerThread < (h.functions function).localMemReq.setWidth 64 then
    ({ h with vm := h.vm.released (h.functions function).shaderLocalMemoryVa } : Host).grown function
      (slmPerThread (h.functions function).localMemReq)
  else h

theorem Host.SameResources.trans {h h' h'' : Host} (a : h.SameResources h')
    (b : h'.SameResources h'') : h.SameResources h'' :=
  ⟨b.functions.trans a.functions, b.vm.trans a.vm,
    b.currentSlmPerThread.trans a.currentSlmPerThread,
    b.kernArgsWriteIdx.trans a.kernArgsWriteIdx⟩

/-- The growth of local memory depends on what decides about it only. -/
theorem Host.SameResources.afterGrowth {h h' : Host} (hsame : h.SameResources h') (function : ℕ) :
    (h.afterGrowth function).SameResources (h'.afterGrowth function) := by
  obtain ⟨hfunctions, hvm, hslm, hidx⟩ := hsame
  unfold Host.afterGrowth Host.grown
  rw [hfunctions, hvm, hslm]
  split_ifs
  · exact ⟨rfl, rfl, rfl, hidx⟩
  · exact ⟨hfunctions, hvm, hslm, hidx⟩

section LocalMem

variable (h : Host) (function : ℕ)

theorem wp_freeLocalMem_releases (va : NvU64) :
    wp (freeLocalMem va) (fun _ h' => h.vm.Releases va ∧ h' = { h with vm := h.vm.released va })
      (fun _ h' => ¬ h.vm.Releases va ∧
        ∃ v, v.liveHandles = h.vm.liveHandles ∧ h' = { h with vm := v }) h := by
  rw [freeLocalMem, wp_onlyIf]
  split
  · rename_i hne
    have hva := bne_iff_ne.mp hne
    rw [wp_onVm]
    refine wp_mono (wp_gpuFree_frees h.vm va) (fun _ v hv => ?_) (fun _ v hv => ?_)
    · obtain ⟨hfrees, rfl⟩ := hv
      refine ⟨fun _ => hfrees, ?_⟩
      rw [Vm.released, if_neg hva]
    · exact ⟨fun hreleases => hv.1 (hreleases hva), v, hv.2, rfl⟩
  · rename_i hzero
    have hva : va = 0 := by simpa using hzero
    refine ⟨fun hne => absurd hva hne, ?_⟩
    rw [Vm.released, if_pos hva]

/-- Growing local memory announces it, or leaves the mark for the queue and perhaps a handle. -/
theorem wp_growLocalMem_allocates (slm : NvU64) :
    wp (growLocalMem function slm)
      (fun _ h' => h.vm.Allocates true ∧ (h.grown function slm).SameResources h' ∧ ∃ va bytesPerTpc,
        h'.timeline = h.timeline.pushAll .compute (localMemCalls va bytesPerTpc))
      (fun _ h' => ¬ h.vm.Allocates true ∧ h'.timeline = h.timeline ∧
        h'.queue.kernArgsWriteIdx = h.queue.kernArgsWriteIdx ∧ h'.queue.currentSlmPerThread = slm ∧
        ∀ x, x ∈ h'.vm.liveHandles ↔
          (h.vm.Grants ∧ x = (h.vm.reply 0).handle) ∨ x ∈ h.vm.liveHandles) h := by
  rw [growLocalMem, wp_bind, wp_modify, wp_bind, wp_onVm]
  refine wp_mono (wp_gpuAlloc_allocates h.vm _ true) (fun r v hv => ?_)
    (fun _ v hv => ⟨hv.1, rfl, rfl, rfl, hv.2⟩)
  rw [wp_bind, wp_modify, wp_bind, wp_onTimeline, wp_enqueue _ _ _ _ 2 _ (by decide) rfl,
    wp_onTimeline, wp_enqueue _ _ _ _ 3 _ (by decide) rfl]
  obtain ⟨hallocates, hva, rfl⟩ := hv
  refine ⟨hallocates, ⟨?_, rfl, rfl, rfl⟩, r.1, bytesPerTpc slm, pushAll_pushAll ..⟩
  show Function.update h.functions function _ = Function.update h.functions function _
  rw [hva]

/-- What looking after local memory leaves behind when it fails. -/
structure Host.GrowthRefused (h : Host) (function : ℕ) (h' : Host) : Prop where
  needs : h.NeedsLocalMem function
  timeline : h'.timeline = h.timeline
  kernArgsWriteIdx : h'.queue.kernArgsWriteIdx = h.queue.kernArgsWriteIdx
  left : (¬ h.vm.Releases (h.functions function).shaderLocalMemoryVa ∧
      h'.queue.currentSlmPerThread = h.queue.currentSlmPerThread ∧
      h'.vm.liveHandles = h.vm.liveHandles) ∨
    h.vm.Releases (h.functions function).shaderLocalMemoryVa ∧
      ¬ (h.vm.released (h.functions function).shaderLocalMemoryVa).Allocates true ∧
      h'.queue.currentSlmPerThread = slmPerThread (h.functions function).localMemReq ∧
      ∀ x, x ∈ h'.vm.liveHandles ↔
        ((h.vm.released (h.functions function).shaderLocalMemoryVa).Grants ∧
          x = ((h.vm.released (h.functions function).shaderLocalMemoryVa).reply 0).handle) ∨
        x ∈ (h.vm.released (h.functions function).shaderLocalMemoryVa).liveHandles

/-- **`ensureEnoughLocalMem`** succeeds exactly where local memory is large enough or can grow. -/
theorem wp_ensureEnoughLocalMem_grows :
    wp (ensureEnoughLocalMem function)
      (fun _ h' => h.GrowsLocalMem function ∧ (h.afterGrowth function).SameResources h' ∧
        (¬ h.NeedsLocalMem function → h' = h) ∧
        (h.NeedsLocalMem function → ∃ va bytesPerTpc,
          h'.timeline = h.timeline.pushAll .compute (localMemCalls va bytesPerTpc)))
      (fun _ h' => ¬ h.GrowsLocalMem function ∧ h.GrowthRefused function h') h := by
  rw [ensureEnoughLocalMem, wp_bind, wp_get, wp_onlyIf]
  simp only [decide_eq_true_eq]
  split
  · rename_i hneeds
    rw [wp_bind]
    refine wp_mono (wp_freeLocalMem_releases h _) (fun _ h₁ h₁' => ?_) (fun _ h₁ h₁' => ?_)
    · obtain ⟨hreleases, rfl⟩ := h₁'
      refine wp_mono (wp_growLocalMem_allocates _ function _) (fun _ h₂ h₂' => ?_)
        (fun _ h₂ h₂' => ?_)
      · obtain ⟨hallocates, hsame, hgrown⟩ := h₂'
        refine ⟨fun _ => ⟨hreleases, hallocates⟩, ?_, fun hnot => absurd hneeds hnot, fun _ => hgrown⟩
        rw [Host.afterGrowth, if_pos hneeds]
        exact hsame
      · obtain ⟨hrefused, ht, hidx, hslm, hlive⟩ := h₂'
        exact ⟨fun hgrows => hrefused (hgrows hneeds).2,
          hneeds, ht, hidx, Or.inr ⟨hreleases, hrefused, hslm, hlive⟩⟩
    · obtain ⟨hrefused, v, hlive, rfl⟩ := h₁'
      exact ⟨fun hgrows => hrefused (hgrows hneeds).1, hneeds, rfl, rfl,
        Or.inl ⟨hrefused, rfl, hlive⟩⟩
  · rename_i hneeds
    refine ⟨fun hneeds' => absurd hneeds' hneeds, ?_, fun _ => trivial,
      fun hneeds' => absurd hneeds' hneeds⟩
    rw [Host.afterGrowth, if_neg hneeds]
    exact ⟨rfl, rfl, rfl, rfl⟩

end LocalMem

/-! ## Arguments and limits -/

/-- A parameter of the size is written. -/
def Readable (paramSize : ℕ) : Prop := paramSize = 1 ∨ paramSize = 2 ∨ paramSize % 4 = 0

theorem paramWords_eq_none_iff (paramSize : ℕ) (arg : ℕ → NvU8) :
    paramWords paramSize arg = none ↔ ¬ Readable paramSize := by
  unfold paramWords Readable
  split_ifs <;> simp only [false_iff, true_iff, not_not] <;> omega

/-- The argument page and the parameters allow for the arguments of a launch. -/
structure Host.TakesArgs (h : Host) (f : LibreCUFunction) (numParams : NvU64) : Prop where
  constants : f.constants ≠ []
  fits : ¬ kernargsPageSize <
    h.queue.kernArgsWriteIdx + kernargsSize (f.constants.headD ⟨0, 0, 0⟩).size
  header : constbuf0Bytes < kernargsSize (f.constants.headD ⟨0, 0, 0⟩).size
  params : constbuf0Bytes + numParams * 2 * 4 < kernargsSize (f.constants.headD ⟨0, 0, 0⟩).size
  readable : ∀ p ∈ f.paramInfo, Readable p.paramSize.toNat

theorem wp_writeParams_readable (kernargsBuf : NvU64) (params : ℕ → ℕ → NvU8)
    (infos : List KernelParamInfo) (i j : ℕ) (h : Host) :
    wp (writeParams kernargsBuf params infos i j)
      (fun _ _ => ∀ p ∈ infos, Readable p.paramSize.toNat)
      (fun _ _ => ¬ ∀ p ∈ infos, Readable p.paramSize.toNat) h := by
  induction infos generalizing i j h with
  | nil =>
    rw [writeParams, wp_pure]
    exact fun p hp => absurd hp List.not_mem_nil
  | cons p rest ih =>
    rw [writeParams]
    split
    · rename_i hnone
      rw [wp_throw]
      exact fun hall => (paramWords_eq_none_iff _ _).mp hnone (hall p List.mem_cons_self)
    · rename_i ws hws
      have hp : Readable p.paramSize.toNat := by
        by_contra hnot
        rw [(paramWords_eq_none_iff _ _).mpr hnot] at hws
        cases hws
      rw [wp_bind, wp_modify]
      refine wp_mono (ih (i + 1) (j + ws.length) _) (fun _ _ hrest => ?_) (fun _ _ hrest hall => ?_)
      · exact List.forall_mem_cons.mpr ⟨hp, hrest⟩
      · exact hrest (List.forall_mem_cons.mp hall).2

theorem wp_allocKernArgs_fits (size : NvU64) (h : Host) :
    wp (allocKernArgs size)
      (fun _ _ => ¬ kernargsPageSize < h.queue.kernArgsWriteIdx + size)
      (fun _ _ => kernargsPageSize < h.queue.kernArgsWriteIdx + size) h := by
  rw [allocKernArgs, wp_bind, wp_get]
  split
  · rename_i hfull
    rw [wp_throw]
    exact hfull
  · rename_i hfits
    show wp (do set _; pure _) _ _ h
    rw [wp_bind, wp_set, wp_pure]
    exact hfits

theorem wp_fillKernArgs_fits (f : LibreCUFunction) (grid block : Dim3) (params : ℕ → ℕ → NvU8)
    (numParams kernargsPointer size : NvU64) (h : Host) :
    wp (fillKernArgs f grid block params numParams kernargsPointer size)
      (fun _ _ => constbuf0Bytes < size ∧ constbuf0Bytes + numParams * 2 * 4 < size ∧
        ∀ p ∈ f.paramInfo, Readable p.paramSize.toNat)
      (fun _ _ => ¬ (constbuf0Bytes < size ∧ constbuf0Bytes + numParams * 2 * 4 < size ∧
        ∀ p ∈ f.paramInfo, Readable p.paramSize.toNat)) h := by
  rw [fillKernArgs, wp_bind, wp_validate]
  split
  · rename_i hheader
    rw [wp_bind, wp_modify, wp_bind, wp_validate]
    split
    · rename_i hparams
      exact wp_mono (wp_writeParams_readable _ params f.paramInfo 0 0 _)
        (fun _ _ hreadable => ⟨of_decide_eq_true hheader, of_decide_eq_true hparams, hreadable⟩)
        (fun _ _ hnot hall => hnot hall.2.2)
    · rename_i hsmall
      exact fun hall => hsmall (decide_eq_true hall.2.1)
  · rename_i hsmall
    exact fun hall => hsmall (decide_eq_true hall.1)

/-- **`writeKernArgs`** succeeds exactly where the arguments can be taken. -/
theorem wp_writeKernArgs_takes (f : LibreCUFunction) (grid block : Dim3) (params : ℕ → ℕ → NvU8)
    (numParams : NvU64) (h : Host) :
    wp (writeKernArgs f grid block params numParams) (fun _ _ => h.TakesArgs f numParams)
      (fun _ _ => ¬ h.TakesArgs f numParams) h := by
  unfold writeKernArgs
  split
  · rename_i hnil
    rw [wp_throw]
    exact fun htakes => htakes.constants hnil
  rename_i c rest hc
  have htakes : h.TakesArgs f numParams ↔
      ¬ kernargsPageSize < h.queue.kernArgsWriteIdx + kernargsSize c.size ∧
      constbuf0Bytes < kernargsSize c.size ∧
      constbuf0Bytes + numParams * 2 * 4 < kernargsSize c.size ∧
      ∀ p ∈ f.paramInfo, Readable p.paramSize.toNat := by
    have hhead : (f.constants.headD ⟨0, 0, 0⟩).size = c.size := by
      rw [hc]
      rfl
    have hne : f.constants ≠ [] := by
      rw [hc]
      exact List.cons_ne_nil c rest
    constructor
    · rintro ⟨-, hfits, hheader, hparams, hreadable⟩
      rw [hhead] at hfits hheader hparams
      exact ⟨hfits, hheader, hparams, hreadable⟩
    · rintro ⟨hfits, hheader, hparams, hreadable⟩
      refine ⟨hne, ?_, ?_, ?_, hreadable⟩
      · rw [hhead]
        exact hfits
      · rw [hhead]
        exact hheader
      · rw [hhead]
        exact hparams
  rw [htakes, wp_bind]
  refine wp_mono (wp_allocKernArgs_fits _ h) (fun ptr h₁ hfits => ?_)
    (fun _ _ hfull hall => hall.1 hfull)
  rw [wp_bind]
  refine wp_mono (wp_fillKernArgs_fits f grid block params numParams ptr _ h₁) (fun _ h₂ hall => ?_)
    (fun _ _ hnot hall => hnot hall.2)
  rw [wp_pure]
  exact ⟨hfits, hall⟩

/-- The launch dimensions are within the limits of the driver. -/
structure FitsDevice (f : LibreCUFunction) (grid block : Dim3) (sharedMemBytes : NvU32) : Prop where
  threads : ∃ maxThreads, LibreCuda.maxThreads f.numRegisters = some maxThreads ∧
    ¬ (sharedMemBytes < shmemUsage f sharedMemBytes ∧
      (1024 < block.x * block.y * block.z ∨ maxThreads < block.x * block.y * block.z))
  block : block.x < 1024 ∧ block.y < 1024 ∧ block.z < 64
  grid : grid.x < 2147483647 ∧ grid.y < 65535 ∧ grid.z < 65535
  banks : ∀ c ∈ f.constants, c.inQmd = true

theorem fitsDevice_iff {f : LibreCUFunction} {m : NvU32} (hm : maxThreads f.numRegisters = some m)
    (grid block : Dim3) (sharedMemBytes : NvU32) : FitsDevice f grid block sharedMemBytes ↔
      ¬ (sharedMemBytes < shmemUsage f sharedMemBytes ∧
        (1024 < block.x * block.y * block.z ∨ m < block.x * block.y * block.z)) ∧
      block.x < 1024 ∧ block.y < 1024 ∧ block.z < 64 ∧ grid.x < 2147483647 ∧ grid.y < 65535 ∧
      grid.z < 65535 ∧ ∀ c ∈ f.constants, c.inQmd = true := by
  constructor
  · rintro ⟨⟨m', hm', hthreads⟩, ⟨hx, hy, hz⟩, ⟨hgx, hgy, hgz⟩, hbanks⟩
    obtain rfl := Option.some.inj (hm.symm.trans hm')
    exact ⟨hthreads, hx, hy, hz, hgx, hgy, hgz, hbanks⟩
  · rintro ⟨hthreads, hx, hy, hz, hgx, hgy, hgz, hbanks⟩
    exact ⟨⟨m, hm, hthreads⟩, ⟨hx, hy, hz⟩, ⟨hgx, hgy, hgz⟩, hbanks⟩

/-- **The checks behind the arguments** pass exactly for launches that fit the device. -/
theorem wp_checkLaunch_fits (f : LibreCUFunction) (grid block : Dim3) (sharedMemBytes : NvU32)
    (h : Host) :
    wp (checkLaunchDimensions f grid block sharedMemBytes >>= fun _ => checkConstantBanks f)
      (fun _ h' => FitsDevice f grid block sharedMemBytes ∧ h' = h)
      (fun _ h' => ¬ FitsDevice f grid block sharedMemBytes ∧ h' = h) h := by
  rw [wp_bind, checkLaunchDimensions]
  split
  · rename_i hnone
    rw [wp_throw]
    refine ⟨?_, rfl⟩
    rintro ⟨⟨m, hm, -⟩, -⟩
    rw [hnone] at hm
    cases hm
  rename_i m hm
  rw [fitsDevice_iff hm]
  simp only [wp_bind, wp_onlyIf, wp_throw, wp_validate, checkConstantBanks, wp_require,
    Bool.and_eq_true, Bool.or_eq_true, decide_eq_true_eq, List.all_eq_true]
  split_ifs with hbad hx hy hz hgx hgy hgz hbanks
  · exact ⟨fun hall => hall.1 hbad, trivial⟩
  · exact ⟨⟨hbad, hx, hy, hz, hgx, hgy, hgz, hbanks⟩, trivial⟩
  · exact ⟨fun hall => hbanks hall.2.2.2.2.2.2.2, trivial⟩
  · exact ⟨fun hall => hgz hall.2.2.2.2.2.2.1, trivial⟩
  · exact ⟨fun hall => hgy hall.2.2.2.2.2.1, trivial⟩
  · exact ⟨fun hall => hgx hall.2.2.2.2.1, trivial⟩
  · exact ⟨fun hall => hz hall.2.2.2.1, trivial⟩
  · exact ⟨fun hall => hy hall.2.2.1, trivial⟩
  · exact ⟨fun hall => hx hall.2.1, trivial⟩

/-! ## What a launch leaves alone -/

/-- Neither the memory nor the local memory of the stream changed. -/
structure Host.SameLocalMem (h h' : Host) : Prop where
  functions : h'.functions = h.functions
  vm : h'.vm = h.vm
  currentSlmPerThread : h'.queue.currentSlmPerThread = h.queue.currentSlmPerThread

instance : IsPreorder Host Host.SameLocalMem where
  refl _ := ⟨rfl, rfl, rfl⟩
  trans _ _ _ h h' := ⟨h'.functions.trans h.functions, h'.vm.trans h.vm,
    h'.currentSlmPerThread.trans h.currentSlmPerThread⟩

instance : KeptByUpdates anyTimeline Host.SameLocalMem where
  setTimeline _ _ _ := ⟨rfl, rfl, rfl⟩
  submitted type _ := by cases type <;> exact ⟨rfl, rfl, rfl⟩
  setFlags _ _ := ⟨rfl, rfl, rfl⟩
  waited _ _ _ := ⟨rfl, rfl, rfl⟩
  setArguments _ _ _ := ⟨rfl, rfl, rfl⟩
  store _ _ := ⟨rfl, rfl, rfl⟩
  setFreeSignals _ _ := ⟨rfl, rfl, rfl⟩
  setEvents _ _ := ⟨rfl, rfl, rfl⟩
  setOperations _ _ := ⟨rfl, rfl, rfl⟩

/-! ## Launches -/

section Launches

variable {h : Host}

/-- Preparing a launch succeeds exactly where local memory is large enough or can grow. -/
theorem wp_prepareLaunch_grows (hsig : h.timeline.timelineSignal ≠ 0) (function : ℕ) (async : Bool) :
    wp (prepareLaunch function async)
      (fun _ h' => h.GrowsLocalMem function ∧ (h.afterGrowth function).SameResources h' ∧
        (¬ h.NeedsLocalMem function → h' = h.setTimeline (h.launchBase [] async)) ∧
        (h.NeedsLocalMem function → ∃ va bytesPerTpc,
          h'.timeline = h.launchBase (localMemCalls va bytesPerTpc) async))
      (fun _ h' => ¬ h.GrowsLocalMem function ∧
        (h.setTimeline (h.timeline.select .compute)).GrowthRefused function h') h := by
  rw [prepareLaunch, wp_bind, wp_onTimeline, wp_selectQueueType, wp_bind]
  refine wp_mono (wp_and (wp_ensureEnoughLocalMem function _)
    (wp_ensureEnoughLocalMem_grows _ function)) (fun _ h₁ h₁' => ?_) (fun _ h₁ h₁' => h₁'.2)
  obtain ⟨⟨hq, calls, -, ht⟩, hgrows, hsame, hstay, hgrow⟩ := h₁'
  rw [setTimeline_timeline] at ht
  have hsig₁ : h₁.timeline.timelineSignal ≠ 0 := by
    rw [ht, pushAll_timelineSignal, select_timelineSignal]
    exact hsig
  have hvalue : (h₁.signals h₁.queue.timelineSignal).value =
      (h.signals h.timeline.timelineSignal).value := by
    have heq : h₁.timeline.timelineSignal = h.timeline.timelineSignal := by
      rw [ht, pushAll_timelineSignal, select_timelineSignal]
    rw [hq.signals]
    exact congrArg (fun a => (h.signals a).value) heq
  rw [wp_bind, wp_get, wp_onTimeline, wp_synchronizeLaunch _ _ _ hsig₁, hvalue]
  refine ⟨hgrows, ?_, fun hneeds => ?_, fun hneeds => ?_⟩
  · have hselect : h.SameResources (h.setTimeline (h.timeline.select .compute)) :=
      ⟨rfl, rfl, rfl, rfl⟩
    have hafter := (hselect.afterGrowth function).trans hsame
    exact ⟨hafter.functions, hafter.vm, hafter.currentSlmPerThread, hafter.kernArgsWriteIdx⟩
  · rw [hstay hneeds]
    rw [Host.launchBase, pushAll_nil]
    rfl
  · obtain ⟨va, bytesPerTpc, ht₁⟩ := hgrow hneeds
    rw [setTimeline_timeline] at ht₁
    refine ⟨va, bytesPerTpc, ?_⟩
    rw [setTimeline_timeline, ht₁]
    rfl

/-- **A launch fails in front of its commands only**: writing its arguments, or in the checks behind
them. -/
theorem wp_performLaunch_of_checks (hsig : h.timeline.timelineSignal ≠ 0) (f : LibreCUFunction)
    (grid block : Dim3) (sharedMemBytes : NvU32) (params : ℕ → ℕ → NvU8) (numParams : NvU64)
    (async : Bool) {p : Prop} {err : Failure → Host → Prop}
    (hchecks : wp (writeKernArgs f grid block params numParams)
      (fun _ h₁ => wp (checkLaunchDimensions f grid block sharedMemBytes >>= fun _ =>
        checkConstantBanks f) (fun _ _ => p) err h₁) err h) :
    wp (performLaunch f grid block sharedMemBytes params numParams async) (fun _ _ => p) err h := by
  rw [performLaunch, wp_bind]
  refine wp_mono (wp_and (wp_writeKernArgs f grid block params numParams h) hchecks)
    (fun ptr h₁ h₁' => ?_) (fun _ _ herr => herr.2)
  obtain ⟨⟨hstill, -⟩, hchecks⟩ := h₁'
  have hboth := wp_and (wp_checkLaunch_fits f grid block sharedMemBytes h₁) hchecks
  rw [wp_bind] at hboth ⊢
  refine wp_mono hboth (fun _ h₂ hbanks => ?_) (fun _ _ herr => herr.2)
  rw [wp_bind]
  refine wp_mono hbanks (fun _ h₃ hfits => ?_) (fun _ _ herr => herr.2)
  obtain ⟨⟨-, rfl⟩, hp⟩ := hfits
  rw [wp_bind]
  refine wp_mono (wp_enqueueLaunch f grid block sharedMemBytes ptr async h₃)
    (fun _ h₄ h₄' => ?_) (fun _ _ => False.elim)
  obtain ⟨-, qmdAddr, ht⟩ := h₄'
  have hsig₄ : h₄.timeline.timelineSignal ≠ 0 := by
    rw [ht, pushAll_timelineSignal, hstill.timeline]
    exact hsig
  rw [wp_bind, wp_modify, wp_onTimeline, addOperation_timeline, wp_finishOperation _ _ _ _ hsig₄]
  exact hp

/-- Performing a launch succeeds exactly where its arguments can be taken and it fits the device. -/
theorem wp_performLaunch_accepts (hsig : h.timeline.timelineSignal ≠ 0) (f : LibreCUFunction)
    (grid block : Dim3) (sharedMemBytes : NvU32) (params : ℕ → ℕ → NvU8) (numParams : NvU64)
    (async : Bool) :
    wp (performLaunch f grid block sharedMemBytes params numParams async)
      (fun _ _ => h.TakesArgs f numParams ∧ FitsDevice f grid block sharedMemBytes)
      (fun _ _ => ¬ (h.TakesArgs f numParams ∧ FitsDevice f grid block sharedMemBytes)) h := by
  refine wp_performLaunch_of_checks hsig f grid block sharedMemBytes params numParams async
    (wp_mono (wp_writeKernArgs_takes f grid block params numParams h) (fun _ h₁ htakes => ?_)
      (fun _ _ hnot hall => hnot hall.1))
  exact wp_mono (wp_checkLaunch_fits f grid block sharedMemBytes h₁)
    (fun _ _ hfits => ⟨htakes, hfits.1⟩) (fun _ _ hnot hall => hnot.1 hall.2)

/-- **What a launch needs to be accepted**: a function, as many arguments as it has parameters,
local memory, room for the arguments, and dimensions that fit. -/
structure Host.AcceptsFunction (h : Host) (function : ℕ) (grid block : Dim3)
    (sharedMemBytes : NvU32) (numParams : NvU64) : Prop where
  count : numParams.toNat = (h.functions function).paramInfo.length
  localMem : h.GrowsLocalMem function
  args : h.TakesArgs (h.functions function) numParams
  device : FitsDevice (h.functions function) grid block sharedMemBytes

/-- A launch of a function that may be missing is accepted. -/
def Host.Accepts (h : Host) (function : Option ℕ) (grid block : Dim3) (sharedMemBytes : NvU32)
    (numParams : NvU64) : Prop :=
  ∃ f, function = some f ∧ h.AcceptsFunction f grid block sharedMemBytes numParams

/-- **A launch succeeds exactly when it is accepted.** -/
theorem wp_launchFunction_accepts (hsig : h.timeline.timelineSignal ≠ 0) (function : Option ℕ)
    (grid block : Dim3) (sharedMemBytes : NvU32) (params : ℕ → ℕ → NvU8) (numParams : NvU64)
    (async : Bool) :
    wp (launchFunction function grid block sharedMemBytes params numParams async)
      (fun _ _ => h.Accepts function grid block sharedMemBytes numParams)
      (fun _ _ => ¬ h.Accepts function grid block sharedMemBytes numParams) h := by
  unfold launchFunction
  split
  · rw [wp_throw]
    rintro ⟨f, hf, -⟩
    cases hf
  rename_i f
  rw [wp_bind, wp_get, wp_bind, wp_validate]
  split
  swap
  · rename_i hcount
    rintro ⟨f', hf, haccepts⟩
    obtain rfl := Option.some.inj hf
    exact hcount (beq_iff_eq.mpr haccepts.count)
  rename_i hcount
  rw [wp_bind]
  refine wp_mono (wp_and (wp_prepareLaunch hsig f async) (wp_prepareLaunch_grows hsig f async))
    (fun _ h₁ h₁' => ?_) (fun _ _ hnot => ?_)
  · obtain ⟨⟨hq, calls, -, ht⟩, hgrows, -⟩ := h₁'
    have hsig₁ : h₁.timeline.timelineSignal ≠ 0 := by
      rw [ht]
      simpa [Host.launchBase] using hsig
    have htakes : h₁.TakesArgs (h.functions f) numParams ↔ h.TakesArgs (h.functions f) numParams := by
      have hidx := hq.kernArgsWriteIdx
      constructor
      · rintro ⟨hc, hfits, hheader, hparams, hreadable⟩
        exact ⟨hc, by rwa [hidx] at hfits, hheader, hparams, hreadable⟩
      · rintro ⟨hc, hfits, hheader, hparams, hreadable⟩
        exact ⟨hc, by rwa [hidx], hheader, hparams, hreadable⟩
    refine wp_mono (wp_performLaunch_accepts hsig₁ (h.functions f) grid block sharedMemBytes params
      numParams async) (fun _ _ hall => ?_) (fun _ _ hnot haccepts => ?_)
    · exact ⟨f, rfl, beq_iff_eq.mp hcount, hgrows, htakes.mp hall.1, hall.2⟩
    · obtain ⟨f', hf, haccepts⟩ := haccepts
      obtain rfl := Option.some.inj hf
      exact hnot ⟨htakes.mpr haccepts.args, haccepts.device⟩
  · rintro ⟨f', hf, haccepts⟩
    obtain rfl := Option.some.inj hf
    exact hnot.2.1 haccepts.localMem

/-- Take some bytes from the argument page. -/
def Host.takeArgs (h : Host) (size : NvU64) : Host :=
  { h with queue := { h.queue with kernArgsWriteIdx := h.queue.kernArgsWriteIdx + size } }

theorem Host.SameResources.takeArgs {h h' : Host} (hsame : h.SameResources h') (size : NvU64) :
    (h.takeArgs size).SameResources (h'.takeArgs size) :=
  ⟨hsame.functions, hsame.vm, hsame.currentSlmPerThread, by
    show h'.queue.kernArgsWriteIdx + size = h.queue.kernArgsWriteIdx + size
    rw [hsame.kernArgsWriteIdx]⟩

theorem Host.SameLocalMem.takeArgs {h h' : Host} (hlocal : h.SameLocalMem h') {size : NvU64}
    (hidx : h'.queue.kernArgsWriteIdx = h.queue.kernArgsWriteIdx + size) :
    (h.takeArgs size).SameResources h' :=
  ⟨hlocal.functions, hlocal.vm, hlocal.currentSlmPerThread, hidx⟩

/-- What decides about the next launch behind one that succeeded. -/
def Host.afterLaunch (h : Host) (function : ℕ) : Host :=
  (h.afterGrowth function).takeArgs
    (kernargsSize ((h.functions function).constants.headD ⟨0, 0, 0⟩).size)

/-- It depends on what decides about a launch only. -/
theorem Host.SameResources.afterLaunch {h h' : Host} (hsame : h.SameResources h') (function : ℕ) :
    (h.afterLaunch function).SameResources (h'.afterLaunch function) := by
  rw [Host.afterLaunch, Host.afterLaunch, hsame.functions]
  exact (hsame.afterGrowth function).takeArgs _

/-- And so does whether a launch is accepted. -/
theorem Host.SameResources.acceptsFunction_iff {h h' : Host} (hsame : h.SameResources h')
    (function : ℕ) (grid block : Dim3) (sharedMemBytes : NvU32) (numParams : NvU64) :
    h'.AcceptsFunction function grid block sharedMemBytes numParams ↔
      h.AcceptsFunction function grid block sharedMemBytes numParams := by
  obtain ⟨hfunctions, hvm, hslm, hidx⟩ := hsame
  have hgrows : h'.GrowsLocalMem function ↔ h.GrowsLocalMem function := by
    rw [Host.GrowsLocalMem, Host.GrowsLocalMem, Host.NeedsLocalMem, Host.NeedsLocalMem, hfunctions,
      hvm, hslm]
  have htakes : ∀ f, h'.TakesArgs f numParams ↔ h.TakesArgs f numParams := by
    intro f
    constructor
    · rintro ⟨hc, hfits, hheader, hparams, hreadable⟩
      rw [hidx] at hfits
      exact ⟨hc, hfits, hheader, hparams, hreadable⟩
    · rintro ⟨hc, hfits, hheader, hparams, hreadable⟩
      rw [← hidx] at hfits
      exact ⟨hc, hfits, hheader, hparams, hreadable⟩
  constructor
  · rintro ⟨hcount, hlocal, hargs, hdevice⟩
    rw [hfunctions] at hcount hargs hdevice
    exact ⟨hcount, hgrows.mp hlocal, (htakes _).mp hargs, hdevice⟩
  · rintro ⟨hcount, hlocal, hargs, hdevice⟩
    rw [← hfunctions] at hcount hargs hdevice
    exact ⟨hcount, hgrows.mpr hlocal, (htakes _).mpr hargs, hdevice⟩

/-- **A launch that succeeds** leaves behind what decides about the next one. -/
theorem wp_launchFunction_resources (hsig : h.timeline.timelineSignal ≠ 0) (f : ℕ)
    (grid block : Dim3) (sharedMemBytes : NvU32) (params : ℕ → ℕ → NvU8) (numParams : NvU64)
    (async : Bool) :
    wp (launchFunction (some f) grid block sharedMemBytes params numParams async)
      (fun _ h' => (h.afterLaunch f).SameResources h') (fun _ _ => True) h := by
  have hparts : wp (launchFunction (some f) grid block sharedMemBytes params numParams async)
      (fun _ h' => ∃ h₁, (h.afterGrowth f).SameResources h₁ ∧ h₁.SameLocalMem h' ∧
        h₁.queue.kernArgsWriteIdx = h.queue.kernArgsWriteIdx) (fun _ _ => True) h := by
    rw [launchFunction, wp_bind, wp_get, wp_bind, wp_validate]
    split_ifs
    · rw [wp_bind]
      refine wp_mono (wp_and (wp_prepareLaunch hsig f async) (wp_prepareLaunch_grows hsig f async))
        (fun _ h₁ h₁' => ?_) (fun _ _ _ => trivial)
      obtain ⟨⟨hq, -⟩, -, hsame, -⟩ := h₁'
      exact wp_mono (keeps_performLaunch (h.functions f) grid block sharedMemBytes params numParams
        async h₁) (fun _ h₂ hlocal => ⟨h₁, hsame, hlocal, hq.kernArgsWriteIdx⟩) (fun _ _ _ => trivial)
  refine wp_mono (wp_and (wp_launchFunction hsig (some f) grid block sharedMemBytes params numParams
    async) hparts) (fun _ h' hboth => ?_) (fun _ _ _ => trivial)
  obtain ⟨⟨f', hf, hlaunched⟩, h₁, hsame, hlocal, hidx⟩ := hboth
  obtain rfl := Option.some.inj hf
  obtain ⟨c, rest, ptr, hc, halloc, -⟩ := hlaunched.operation
  have htaken : h'.queue.kernArgsWriteIdx = h₁.queue.kernArgsWriteIdx + kernargsSize c.size := by
    rw [hidx, halloc.kernArgsWriteIdx]
  have hsize : (h.functions f).constants.headD ⟨0, 0, 0⟩ = c := by
    rw [hc, List.headD_cons]
  rw [Host.afterLaunch, hsize]
  exact (hsame.takeArgs (kernargsSize c.size)).trans (hlocal.takeArgs htaken)

end Launches

end LibreCuda
