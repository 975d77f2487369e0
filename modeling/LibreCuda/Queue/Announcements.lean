import LibreCuda.Foundation.Registers
import LibreCuda.Module.SharedConfig
import LibreCuda.Queue.LocalMemory
import LibreCuda.Queue.Order

/-! # The local memory a launch announces

A launch that raises the mark announces new local memory with a method of the compute channel, and
every launch has the mark in its descriptor. Read as accesses of a register of the channel, the
former sets it and the latter uses it.

* **`accesses`** is that reading of a list of methods.
* **`announced_of_launch`**: what a successful launch adds to the queue sets the register to the new
  local memory, if there is any, and then makes one use of it.
* **`accesses_of_commence`**: a successful commence hands over the accesses that wait, in order.
* **`toNat_slmInQmd`**: the size in the descriptor is the mark, cut to the width of its field,
  unless constant bank 9 lies over it. -/

namespace LibreCuda

open Exec Registers QmdField

/-! ## New local memory -/

/-- Where the next local memory is. -/
def Vm.nextLocalMem (v : Vm) : NvU64 := v.nextVa (gpuAllocAlignment true)

/-- The methods with which a launch announces new local memory. -/
def Host.growthCalls (h : Host) (function : ℕ) : List MethodCall :=
  if h.queue.currentSlmPerThread < (h.functions function).localMemReq.setWidth 64 then
    localMemCalls h.vm.nextLocalMem
      (bytesPerTpc (slmPerThread (h.functions function).localMemReq))
  else []

/-- The mark behind a launch. -/
def Host.markBehind (h : Host) (function : ℕ) : NvU64 :=
  if h.queue.currentSlmPerThread < (h.functions function).localMemReq.setWidth 64 then
    slmPerThread (h.functions function).localMemReq
  else h.queue.currentSlmPerThread

/-- Giving memory back does not move the heap pointer. -/
theorem Vm.released_uvmVaddr (v : Vm) (va : NvU64) : (v.released va).uvmVaddr = v.uvmVaddr := by
  unfold Vm.released
  split_ifs
  · rfl
  · unfold Vm.freed
    split <;> rfl

theorem Vm.released_nextLocalMem (v : Vm) (va : NvU64) :
    (v.released va).nextLocalMem = v.nextLocalMem := by
  rw [Vm.nextLocalMem, Vm.nextVa, Vm.released_uvmVaddr]
  rfl

/-- Giving memory back takes its entry out of the map. -/
theorem Vm.released_entry (v : Vm) {va : NvU64} (hva : va ≠ 0) :
    (v.released va).vaToMemHandle va = none := by
  rw [Vm.released, if_neg hva, Vm.freed]
  split
  · assumption
  · exact Function.update_self ..

/-- And leaves the others. -/
theorem Vm.released_entry_of_ne (v : Vm) {va other : NvU64} (hne : va ≠ 0 → other ≠ va) :
    (v.released va).vaToMemHandle other = v.vaToMemHandle other := by
  unfold Vm.released
  split_ifs with hva
  · rfl
  · unfold Vm.freed
    split
    · rfl
    · exact Function.update_of_ne (hne hva) ..

section Growth

variable {h : Host} {function : ℕ}

theorem afterGrowth_currentSlmPerThread :
    (h.afterGrowth function).queue.currentSlmPerThread = h.markBehind function := by
  unfold Host.afterGrowth Host.markBehind
  split_ifs <;> rfl

/-- Growing local memory announces where it is. -/
theorem wp_growLocalMem_grown (slm : NvU64) : wp (growLocalMem function slm)
    (fun _ h' => h' = (h.grown function slm).setTimeline (h.timeline.pushAll .compute
      (localMemCalls h.vm.nextLocalMem (bytesPerTpc slm)))) (fun _ _ => True) h := by
  rw [growLocalMem, wp_bind, wp_modify, wp_bind, wp_onVm]
  refine wp_mono (wp_gpuAlloc_allocates h.vm _ true) (fun r v hv => ?_) (fun _ _ _ => trivial)
  obtain ⟨-, hva, rfl⟩ := hv
  rw [wp_bind, wp_modify, wp_bind, wp_onTimeline, wp_enqueue _ _ _ _ 2 _ (by decide) rfl,
    wp_onTimeline, wp_enqueue _ _ _ _ 3 _ (by decide) rfl, setTimeline_timeline, pushAll_pushAll,
    hva]
  rfl

/-- Looking after local memory leaves what decides about the next launch, and the methods. -/
theorem wp_ensureEnoughLocalMem_grown : wp (ensureEnoughLocalMem function)
    (fun _ h' => h' = (h.afterGrowth function).setTimeline
      (h.timeline.pushAll .compute (h.growthCalls function))) (fun _ _ => True) h := by
  rw [ensureEnoughLocalMem, wp_bind, wp_get, wp_onlyIf]
  simp only [decide_eq_true_eq]
  unfold Host.afterGrowth Host.growthCalls
  split_ifs
  · rw [wp_bind]
    refine wp_mono (wp_freeLocalMem_releases h _) (fun _ h₁ h₁' => ?_) (fun _ _ _ => trivial)
    obtain ⟨-, rfl⟩ := h₁'
    refine wp_mono (wp_growLocalMem_grown _) (fun _ h₂ hgrown => ?_) (fun _ _ _ => trivial)
    rw [hgrown]
    simp only [Vm.released_nextLocalMem]
  · rw [pushAll_nil]
    rfl

theorem wp_prepareLaunch_grown (hsig : h.timeline.timelineSignal ≠ 0) (async : Bool) :
    wp (prepareLaunch function async)
      (fun _ h' => h'.timeline = h.launchBase (h.growthCalls function) async)
      (fun _ _ => True) h := by
  rw [prepareLaunch, wp_bind, wp_onTimeline, wp_selectQueueType, wp_bind]
  refine wp_mono (wp_and (wp_ensureEnoughLocalMem function _) wp_ensureEnoughLocalMem_grown)
    (fun _ h₁ h₁' => ?_) (fun _ _ _ => trivial)
  obtain ⟨⟨hq, -⟩, hgrown⟩ := h₁'
  have ht : h₁.timeline =
      (h.timeline.select .compute).pushAll .compute (h.growthCalls function) := by
    rw [hgrown]
    rfl
  have hsame : h₁.timeline.timelineSignal = h.timeline.timelineSignal := by
    rw [ht, pushAll_timelineSignal, select_timelineSignal]
  have hsig₁ : h₁.timeline.timelineSignal ≠ 0 := by
    rw [hsame]
    exact hsig
  rw [wp_bind, wp_get, wp_onTimeline, wp_synchronizeLaunch _ _ _ hsig₁, setTimeline_timeline,
    hq.signals, ht]
  show CommandTimeline.synchronize _ (h.signals h₁.timeline.timelineSignal).value _ = _
  rw [hsame]
  rfl

/-- **The timeline behind a launch**, with the methods that announce local memory. -/
theorem wp_launchFunction_grown (hsig : h.timeline.timelineSignal ≠ 0) (grid block : Dim3)
    (sharedMemBytes : NvU32) (params : ℕ → ℕ → NvU8) (numParams : NvU64) (async : Bool) :
    wp (launchFunction (some function) grid block sharedMemBytes params numParams async)
      (fun _ h' => ∃ qmdAddr, h'.timeline =
        ((h.launchBase (h.growthCalls function) async).pushAll .compute
          (launchCalls qmdAddr ⟨h.timeline.timelineSteps + 1, async⟩)).finish .compute async)
      (fun _ _ => True) h := by
  rw [launchFunction, wp_bind, wp_get, wp_bind, wp_validate]
  split
  swap
  · trivial
  rw [wp_bind]
  refine wp_mono (wp_prepareLaunch_grown hsig async) (fun _ h₁ ht => ?_) (fun _ _ _ => trivial)
  have hsig₁ : h₁.timeline.timelineSignal ≠ 0 := by
    rw [ht, launchBase_timelineSignal]
    exact hsig
  refine wp_mono (wp_performLaunch hsig₁ (h.functions function) grid block sharedMemBytes params
    numParams async) (fun _ h₂ hdone => ?_) (fun _ _ _ => trivial)
  obtain ⟨-, -, ⟨qmdAddr, ht₂⟩, -⟩ := hdone
  rw [ht, launchBase_timelineSteps] at ht₂
  exact ⟨qmdAddr, ht₂⟩

end Growth

/-! ## Methods as accesses -/

/-- A method as an access of the local memory of its channel. The size of a launch is in its
descriptor; here it is given by the number of the operation. -/
def MethodCall.access (sizes : ℕ → NvU32) (m : MethodCall) : Option (Access NvU64 NvU32) :=
  if m.header = methodHeader 1 nvc6c0SetShaderLocalMemoryA 2 then
    match m.args with
    | [addrHi, addrLo] => some (.set (addrHi ++ addrLo))
    | _ => none
  else if m.header = methodHeader 1 nvc6c0SendSignalingPcas2B 1 then
    m.op.map fun tag => .use (sizes tag.number)
  else none

/-- The accesses of the local memory, in order. -/
def accesses (sizes : ℕ → NvU32) (ms : List MethodCall) : List (Access NvU64 NvU32) :=
  ms.filterMap (MethodCall.access sizes)

/-- The methods for the compute channel. -/
def computeMethods (q : List (QueueType × MethodCall)) : List MethodCall :=
  q.filterMap fun m => if m.1 = .compute then some m.2 else none

/-- The methods handed over to the compute channel. -/
def handedOver (fx : List HostEffect) : List MethodCall :=
  fx.flatMap fun
    | .submit .compute commands => commands
    | _ => []

section Accesses

variable (sizes : ℕ → NvU32)

@[simp] theorem accesses_nil : accesses sizes [] = [] := rfl

@[simp] theorem accesses_append (a b : List MethodCall) :
    accesses sizes (a ++ b) = accesses sizes a ++ accesses sizes b := List.filterMap_append

@[simp] theorem computeMethods_append (a b : List (QueueType × MethodCall)) :
    computeMethods (a ++ b) = computeMethods a ++ computeMethods b := List.filterMap_append

@[simp] theorem computeMethods_compute (ms : List MethodCall) :
    computeMethods (tagged .compute ms) = ms := by
  rw [computeMethods, tagged, List.filterMap_map]
  exact List.filterMap_some

@[simp] theorem computeMethods_dma (ms : List MethodCall) :
    computeMethods (tagged .dma ms) = [] := by
  rw [computeMethods, tagged, List.filterMap_map]
  exact List.filterMap_eq_nil_iff.mpr fun _ _ => rfl

theorem handedOver_append (fx gx : List HostEffect) :
    handedOver (fx ++ gx) = handedOver fx ++ handedOver gx := List.flatMap_append

@[simp] theorem accesses_releaseCalls (type : QueueType) (pSignal : NvU64) (signalTarget : NvU32) :
    accesses sizes (releaseCalls type pSignal signalTarget) = [] := by cases type <;> rfl

@[simp] theorem accesses_synchronizeCalls (t : CommandTimeline) (value : NvU64) (async : Bool) :
    accesses sizes (t.synchronizeCalls value async) = [] := by
  unfold CommandTimeline.synchronizeCalls waitCalls
  split_ifs
  · rfl
  · rw [List.append_nil, accesses_releaseCalls]
  · rw [accesses_append, accesses_releaseCalls]
    rfl
  · rfl
  · rfl

@[simp] theorem accesses_finishCalls (t : CommandTimeline) (type : QueueType) (async : Bool) :
    accesses sizes (t.finishCalls type async) = [] := by
  unfold CommandTimeline.finishCalls
  split_ifs
  · rfl
  · exact accesses_releaseCalls ..

/-- An announcement sets the register. -/
@[simp] theorem accesses_localMemCalls (va bytesPerTpc : NvU64) :
    accesses sizes (localMemCalls va bytesPerTpc) = [.set va] := by
  have hset : accesses sizes (localMemCalls va bytesPerTpc) = [.set (hi32 va ++ lo32 va)] := rfl
  rw [hset, hi32_append_lo32]

/-- A launch uses it. -/
@[simp] theorem accesses_launchCalls (qmdAddr : NvU64) (tag : OpTag) :
    accesses sizes (launchCalls qmdAddr tag) = [.use (sizes tag.number)] := rfl

end Accesses

/-- What a launch does to the register: it sets it where it raises the mark. -/
def Host.announced (h : Host) (function : ℕ) : List (Access NvU64 NvU32) :=
  if h.queue.currentSlmPerThread < (h.functions function).localMemReq.setWidth 64 then
    [.set h.vm.nextLocalMem]
  else []

theorem accesses_growthCalls (sizes : ℕ → NvU32) (h : Host) (function : ℕ) :
    accesses sizes (h.growthCalls function) = h.announced function := by
  unfold Host.growthCalls Host.announced
  split_ifs
  · exact accesses_localMemCalls ..
  · rfl

/-! ## Launching and commencing -/

/-- **What a launch adds to the queue**: the announcement, and a use of the size in its descriptor.
-/
theorem announced_of_launch {h h' : Host} {function : ℕ} {grid block : Dim3}
    {sharedMemBytes : NvU32} {params : ℕ → ℕ → NvU8} {numParams : NvU64} {async : Bool} (hu : h.Usable)
    (hs : h.timeline.Settled)
    (hlaunch : call (launchFunction (some function) grid block sharedMemBytes params numParams
      async) h = (.ok (), h')) :
    h'.timeline.Settled ∧ h'.timeline.timelineSteps = h.timeline.timelineSteps + 1 ∧
      ∀ sizes, accesses sizes (computeMethods h'.timeline.queued) =
        accesses sizes (computeMethods h.timeline.queued) ++
          (h.announced function ++ [.use (sizes (h.timeline.timelineSteps + 1))]) := by
  have hdone := wp_and (wp_launchFunction hu.timelineSignal (some function) grid block
    sharedMemBytes params numParams async) (wp_launchFunction_grown hu.timelineSignal grid block
      sharedMemBytes params numParams async)
  rw [wp_of_call hlaunch] at hdone
  obtain ⟨⟨_, -, hlaunched⟩, qmdAddr, ht⟩ := hdone
  have happends := (((appends_pushAll (h.timeline.select .compute) .compute
    (h.growthCalls function)).trans (appends_synchronize _
      (h.signals h.timeline.timelineSignal).value async)).trans
        (appends_pushAll (h.launchBase (h.growthCalls function) async) .compute
          (launchCalls qmdAddr ⟨h.timeline.timelineSteps + 1, async⟩))).trans
            (appends_finish _ .compute async)
  rw [← ht] at happends
  have hemits := emits_of_select hs happends hlaunched.trace
  refine ⟨hemits.settled, ?_, fun sizes => ?_⟩
  · rw [ht, finish_timelineSteps, pushAll_timelineSteps, launchBase_timelineSteps]
  · rw [hemits.queued, computeMethods_append, computeMethods_compute, accesses_append,
      accesses_append, accesses_append, accesses_append, accesses_growthCalls,
      accesses_synchronizeCalls, accesses_launchCalls, accesses_finishCalls, List.append_nil,
      List.append_nil]

/-- **The memory behind a launch**: as it was, or with the old local memory of the function given
back and the new one in its place. -/
structure Host.GrownTo (h : Host) (function : ℕ) (h' : Host) : Prop where
  mark : h'.queue.currentSlmPerThread = h.markBehind function
  kept : ¬ h.NeedsLocalMem function → h'.vm = h.vm
  va : h.NeedsLocalMem function → (h'.functions function).shaderLocalMemoryVa = h.vm.nextLocalMem
  entries : h.NeedsLocalMem function → ∃ handle, h'.vm.vaToMemHandle =
    Function.update (h.vm.released (h.functions function).shaderLocalMemoryVa).vaToMemHandle
      h.vm.nextLocalMem (some handle)

/-- Arguments are taken from a page of their own. -/
theorem sameLocalMem_takeArgs (h : Host) (size : NvU64) : h.SameLocalMem (h.takeArgs size) :=
  ⟨rfl, rfl, rfl⟩

theorem grownTo_of_launch {h h' : Host} {function : ℕ} {grid block : Dim3} {sharedMemBytes : NvU32}
    {params : ℕ → ℕ → NvU8} {numParams : NvU64} {async : Bool}
    (hsig : h.timeline.timelineSignal ≠ 0)
    (hlaunch : call (launchFunction (some function) grid block sharedMemBytes params numParams
      async) h = (.ok (), h')) : h.GrownTo function h' := by
  have hsame := wp_launchFunction_resources hsig function grid block sharedMemBytes params numParams
    async
  rw [wp_of_call hlaunch, Host.afterLaunch] at hsame
  have htaken := sameLocalMem_takeArgs (h.afterGrowth function)
    (kernargsSize ((h.functions function).constants.headD ⟨0, 0, 0⟩).size)
  obtain ⟨hfunctions, hvm, hmark⟩ : (h.afterGrowth function).SameLocalMem h' :=
    IsTrans.trans _ _ _ htaken ⟨hsame.functions, hsame.vm, hsame.currentSlmPerThread⟩
  have hgrown : h.NeedsLocalMem function → h.afterGrowth function =
      ({ h with vm := h.vm.released (h.functions function).shaderLocalMemoryVa } : Host).grown
        function (slmPerThread (h.functions function).localMemReq) := fun hneeds => if_pos hneeds
  refine ⟨hmark.trans afterGrowth_currentSlmPerThread, fun hneeds => ?_,
    fun hneeds => ?_, fun hneeds => ?_⟩
  · have hstays : h.afterGrowth function = h := if_neg hneeds
    rw [hvm, hstays]
  · rw [hfunctions, hgrown hneeds, Host.grown]
    simp only [Function.update_self]
    exact Vm.released_nextLocalMem h.vm _
  · have hnext := Vm.released_nextLocalMem h.vm (h.functions function).shaderLocalMemoryVa
    rw [hvm, hgrown hneeds, ← hnext]
    exact ⟨_, Vm.allocated_vaToMemHandle ..⟩

/-- A buffer that is submitted with a release of the timeline added, or without. -/
theorem accesses_submitEffect (sizes : ℕ → NvU32) (type : QueueType) (buffer : List MethodCall)
    (notify : Bool) (timelineSignal : NvU64) (target : NvU32) :
    accesses sizes (handedOver (submitEffect type (buffer ++
      if notify then releaseCalls type timelineSignal target else []))) =
      accesses sizes (computeMethods (tagged type buffer)) := by
  have hsubmitted : ∀ commands : List MethodCall, accesses sizes (handedOver
      (submitEffect type commands)) = accesses sizes (computeMethods (tagged type commands)) := by
    intro commands
    unfold submitEffect
    split_ifs with hnil
    · rw [hnil]
      rfl
    · cases type with
      | compute => rw [handedOver, List.flatMap_singleton, computeMethods_compute]
      | dma => rw [handedOver, List.flatMap_singleton, computeMethods_dma]
  rw [hsubmitted, tagged_append, computeMethods_append, accesses_append]
  -- the release is no access of the local memory
  split_ifs
  · cases type with
    | compute => rw [computeMethods_compute, computeMethods_compute, accesses_releaseCalls,
        List.append_nil]
    | dma => rw [computeMethods_dma, computeMethods_dma, accesses_nil, List.append_nil]
  · rw [tagged_nil]
    exact List.append_nil _

theorem accesses_backlogEffects (sizes : ℕ → NvU32) (timelineSignal : NvU64)
    (entries : List CommandBufSplit) :
    accesses sizes (handedOver (backlogEffects timelineSignal entries)) =
      accesses sizes (computeMethods (backlogged entries)) := by
  induction entries with
  | nil => rfl
  | cons e rest ih =>
    have hentry := accesses_submitEffect sizes e.queueType e.commandBuffer e.timelineNotifyPending
      timelineSignal e.timelineCtr
    have hwait : handedOver (entryEffects timelineSignal e) =
        handedOver (submitEffect e.queueType (e.commands timelineSignal)) := by
      rw [entryEffects, handedOver_append]
      exact List.append_nil _
    have hrest : backlogEffects timelineSignal (e :: rest) =
      entryEffects timelineSignal e ++ backlogEffects timelineSignal rest := rfl
    have htail : backlogged (e :: rest) =
      tagged e.queueType e.commandBuffer ++ backlogged rest := rfl
    rw [hrest, htail, handedOver_append, computeMethods_append, accesses_append, accesses_append,
      ih, hwait, CommandBufSplit.commands, hentry]

/-- **A commence hands over the accesses that wait**, in order, and nothing waits behind it. -/
theorem accesses_of_commence {h h' : Host} (hu : h.Usable) (hs : h.timeline.Settled)
    (hstart : call startExecution h = (.ok (), h')) (sizes : ℕ → NvU32) :
    accesses sizes (handedOver (h'.trace.drop h.trace.length)) =
      accesses sizes (computeMethods h.timeline.queued) := by
  have hsig := hu.timelineSignal
  by_cases hnil : h.timeline.commandBufBacklog = []
  · have hcurrent := wp_startExecution_of_nil hsig hnil
    rw [wp_of_call hstart] at hcurrent
    rcases hcurrent.submitted with ⟨type, -, hother, hadds, -⟩ | ⟨hmode, hadds, -⟩
    · rw [hadds.trace, List.drop_left, queued_of_other hother, hnil, CommandTimeline.current,
        accesses_submitEffect]
      rfl
    · have hidle := hs.idle_of_none hmode
      rw [hadds.trace, List.drop_left, CommandTimeline.queued, hnil, hidle, hidle]
      rfl
  · have hbacklog := wp_startExecution_of_ne_nil hsig hu.waits hnil
    rw [wp_of_call hstart] at hbacklog
    rw [hbacklog.adds.trace, List.drop_left, accesses_backlogEffects, queued_setAsideBoth]

/-- A commence adds effects to the trace, and changes nothing else but the timeline. -/
theorem adds_of_commence {h h' : Host} (hu : h.Usable)
    (hstart : call startExecution h = (.ok (), h')) : ∃ fx, h.Adds fx h' := by
  have hsig := hu.timelineSignal
  by_cases hnil : h.timeline.commandBufBacklog = []
  · have hcurrent := wp_startExecution_of_nil hsig hnil
    rw [wp_of_call hstart] at hcurrent
    rcases hcurrent.submitted with ⟨_, -, -, hadds, -⟩ | ⟨-, hadds, -⟩
    · exact ⟨_, hadds⟩
    · exact ⟨_, hadds⟩
  · have hbacklog := wp_startExecution_of_ne_nil hsig hu.waits hnil
    rw [wp_of_call hstart] at hbacklog
    exact ⟨_, hbacklog.adds⟩

theorem queued_of_commence {h h' : Host} (hu : h.Usable) (hs : h.timeline.Settled)
    (hstart : call startExecution h = (.ok (), h')) :
    h'.timeline.Idle ∧ h'.timeline.queued = [] := by
  obtain ⟨-, hidle, hback⟩ := carries_of_commence hu hs hstart
  refine ⟨hidle, ?_⟩
  rw [CommandTimeline.queued, hback, hidle, hidle]
  rfl

/-! ## The size in the descriptor -/

/-- The size in the descriptor of a launch with the mark: cut to its 24 bits, unless constant bank 9
lies over it. -/
def LibreCUFunction.slmInQmd (f : LibreCUFunction) (mark : NvU64) : ℕ :=
  ((f.lastBank 9).map fun c => (lo32 c.address).toNat % 2 ^ 24).getD (mark.toNat % 2 ^ 24)

theorem toNat_shaderLocalMemoryHighSize_set (q : QmdData) {c : KernelConstantInfo}
    (hc : c.constNr = 9) : (shaderLocalMemoryHighSize.get (setConstantBuffer q c)).toNat =
      (lo32 c.address).toNat % 2 ^ 24 := by
  have hfield : shaderLocalMemoryHighSize.InWord := by decide
  unfold setConstantBuffer fldSetDrfNum32
  rw [hc, get_fldSetDrfNum_of_apart (by decide), get_fldSetDrfNum_of_apart (by decide),
    toNat_get_set _ hfield (by decide) (by decide), toNat_setWidth_64]
  simp only [show shaderLocalMemoryHighSize.shift = 0 by decide,
    show shaderLocalMemoryHighSize.width = 24 by decide,
    show (constantBufferAddrLower 9).shift = 0 by decide,
    show (constantBufferAddrLower 9).width = 32 by decide]
  omega

/-- **The size in the descriptor of a launch that succeeded.** -/
theorem toNat_slmInQmd {h h' : Host} {function : ℕ} {grid block : Dim3} {sharedMemBytes : NvU32}
    {params : ℕ → ℕ → NvU8} {numParams : NvU64} {async : Bool}
    (hlaunch : call (launchFunction (some function) grid block sharedMemBytes params numParams
      async) h = (.ok (), h')) :
    (shaderLocalMemoryHighSize.val h'.lastQmd).toNat =
      (h.functions function).slmInQmd h'.queue.currentSlmPerThread := by
  have hqmd := wp_launchFunction_lastQmd function grid block sharedMemBytes params numParams async h
  rw [wp_of_call hlaunch] at hqmd
  obtain ⟨hbanks, ptr, hwords⟩ := hqmd
  have hfield : shaderLocalMemoryHighSize.InWord := by decide
  have honly : OnlyUnder shaderLocalMemoryHighSize 9 := by decide +kernel
  have hget := @toNat_get_qmdData 9 (fun _ c => (lo32 c.address).toNat % 2 ^ 24)
    (h.functions function) grid block sharedMemBytes h'.queue.currentSlmPerThread ptr
    (shaderLocalMemoryHighSize, h'.queue.currentSlmPerThread) (by simp [launchWrites])
    honly (by decide) (fun c hc q => toNat_shaderLocalMemoryHighSize_set q hc)
    (fun _ _ _ => rfl) hbanks
  rw [hfield.get_eq, ← hfield.val_eq, ← hfield.val_congr (hwords _ (by decide)),
    show shaderLocalMemoryHighSize.width = 24 by decide] at hget
  exact hget

end LibreCuda
