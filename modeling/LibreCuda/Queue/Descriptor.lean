import LibreCuda.Queue.Acceptance

/-! # The descriptor of a launch

A launch leaves its descriptor behind its arguments and hands the address of it to the engine, in a
method argument of 32 bits.

* **`qmdAt`** reads the words of a descriptor in memory; **`Host.lastQmd`** is the one of the
  operation that was enqueued last.
* **`wp_launchFunction_described`**: the descriptor of a launch that succeeded is `qmdData`, and one
  method of the launch carries its address. -/

namespace LibreCuda

open Bytes Exec

/-- The descriptor in memory at an address. -/
def qmdAt (mem : Memory) (addr : NvU64) : QmdData := fun k => wordAt (load mem addr) (4 * k)

/-- The descriptor of the operation that was enqueued last: it is behind the parameters, in the
argument region of the launch. -/
def Host.lastQmd (h : Host) : QmdData :=
  match h.operations.getLast? with
  | some o => qmdAt h.mem (o.args.1 + (o.args.2 - (8 <<< 8)))
  | none => fun _ => 0

/-- **A descriptor that was copied to memory reads back.** -/
theorem qmdAt_store (mem : Memory) (addr : NvU64) (q : QmdData) {k : ℕ} (hk : k < qmdWords) :
    qmdAt (store mem addr (ofWords ((List.range qmdWords).map q))) addr k = q k := by
  have hlength : ((List.range qmdWords).map q).length = 0x40 := by
    rw [List.length_map, List.length_range]
    rfl
  have hget : k < ((List.range qmdWords).map q).length := by
    rw [hlength]
    exact hk
  rw [qmdAt, wordAt_load_store hget (by rw [hlength]; decide), List.getElem_map, List.getElem_range]

/-- The address of the descriptor: behind the arguments at `ptr`. -/
def qmdAddress (f : LibreCUFunction) (ptr : NvU64) : NvU64 :=
  ptr + roundUp (f.constants.headD ⟨0, 0, 0⟩).size (1 <<< 8 : NvU64)

/-- The method that hands over the address of a descriptor. -/
def MethodCall.isSendPcas (m : MethodCall) : Bool := m.header == methodHeader 1 nvc6c0SendPcasA 1

/-- The methods a call enqueued that hand over a descriptor. -/
def Host.sentPcas (h h' : Host) : List MethodCall :=
  ((h'.timeline.emitted.drop h.timeline.emitted.length).map Prod.snd).filter MethodCall.isSendPcas

/-- What a launch that succeeded left behind: its descriptor, and the method that hands it over. -/
structure Host.Describes (h h' : Host) (f : LibreCUFunction) (grid block : Dim3)
    (sharedMemBytes : NvU32) (ptr : NvU64) : Prop where
  pointer : ptr = h.queue.kernArgsPageVa + h.queue.kernArgsWriteIdx
  words : ∀ k < qmdWords, qmdAt h'.mem (qmdAddress f ptr) k =
    qmdData f grid block sharedMemBytes h'.queue.currentSlmPerThread ptr k
  method : (h.sentPcas h').map MethodCall.args = [[(qmdAddress f ptr >>> 8).setWidth 32]]

/-! ## The methods of a launch -/

theorem not_isSendPcas_releaseCalls (type : QueueType) (pSignal : NvU64) (signalTarget : NvU32) :
    (releaseCalls type pSignal signalTarget).filter MethodCall.isSendPcas = [] := by
  cases type <;> rfl

theorem not_isSendPcas_synchronizeCalls (t : CommandTimeline) (value : NvU64) (async : Bool) :
    (t.synchronizeCalls value async).filter MethodCall.isSendPcas = [] := by
  unfold CommandTimeline.synchronizeCalls waitCalls
  split_ifs
  · rfl
  · rw [List.append_nil, not_isSendPcas_releaseCalls]
  · rw [List.filter_append, not_isSendPcas_releaseCalls]
    rfl
  · rfl
  · rfl

theorem not_isSendPcas_finishCalls (t : CommandTimeline) (type : QueueType) (async : Bool) :
    (t.finishCalls type async).filter MethodCall.isSendPcas = [] := by
  unfold CommandTimeline.finishCalls
  split_ifs
  · rfl
  · exact not_isSendPcas_releaseCalls _ _ _

theorem not_isSendPcas_localMemCalls {calls : List MethodCall} (hc : LocalMemCalls calls) :
    calls.filter MethodCall.isSendPcas = [] := by
  cases hc with
  | none => rfl
  | grown va bytesPerTpc => rfl

/-- A launch hands over one descriptor. -/
theorem isSendPcas_launchCalls (qmdAddr : NvU64) (tag : OpTag) :
    ((launchCalls qmdAddr tag).filter MethodCall.isSendPcas).map MethodCall.args =
      [[(qmdAddr >>> 8).setWidth 32]] := rfl

/-! ## Launching -/

section Launching

variable {h : Host}

/-- The commands of a launch, with the address of the descriptor. -/
theorem wp_enqueueLaunch_described (f : LibreCUFunction) (grid block : Dim3)
    (sharedMemBytes : NvU32) (ptr : NvU64) (async : Bool) :
    wp (enqueueLaunch f grid block sharedMemBytes ptr async)
      (fun _ h' => h'.queue.currentSlmPerThread = h.queue.currentSlmPerThread ∧
        (∀ k < qmdWords, qmdAt h'.mem (qmdAddress f ptr) k =
          qmdData f grid block sharedMemBytes h.queue.currentSlmPerThread ptr k) ∧
        h'.timeline = h.timeline.pushAll .compute
          (launchCalls (qmdAddress f ptr) ⟨h.timeline.timelineSteps + 1, async⟩))
      (fun _ _ => False) h := by
  rw [enqueueLaunch, wp_bind, wp_get, wp_bind, wp_onTimeline,
    wp_enqueue _ _ _ _ 1 _ (by decide) rfl, wp_bind, wp_modify, wp_bind,
    wp_onTimeline, wp_enqueue _ _ _ _ 1 _ (by decide) rfl,
    wp_onTimeline, wp_enqueue _ _ _ _ 1 _ (by decide) rfl]
  refine ⟨rfl, fun k hk => qmdAt_store _ _ _ hk, ?_⟩
  show ((h.timeline.pushAll .compute _).pushAll .compute _).pushAll .compute _ = _
  rw [pushAll_pushAll, pushAll_pushAll]
  rfl

/-- **Performing a launch** leaves its descriptor behind, and emits one method with its address. -/
theorem wp_performLaunch_described (hsig : h.timeline.timelineSignal ≠ 0) (f : LibreCUFunction)
    (grid block : Dim3) (sharedMemBytes : NvU32) (params : ℕ → ℕ → NvU8) (numParams : NvU64)
    (async : Bool) :
    wp (performLaunch f grid block sharedMemBytes params numParams async)
      (fun _ h' => ∃ ptr, ptr = h.queue.kernArgsPageVa + h.queue.kernArgsWriteIdx ∧
        h'.queue.currentSlmPerThread = h.queue.currentSlmPerThread ∧
        (∀ k < qmdWords, qmdAt h'.mem (qmdAddress f ptr) k =
          qmdData f grid block sharedMemBytes h.queue.currentSlmPerThread ptr k) ∧
        ∃ tag t, h'.timeline = t.finish .compute async ∧
          t = h.timeline.pushAll .compute (launchCalls (qmdAddress f ptr) tag))
      (fun _ _ => True) h := by
  have hkept : Keeps Host.SameLocalMem (writeKernArgs f grid block params numParams) :=
    keeps_writeKernArgs f grid block params numParams
  rw [performLaunch, wp_bind]
  refine wp_mono (wp_and (wp_writeKernArgs f grid block params numParams h) (hkept h))
    (fun ptr h₁ hargs => ?_) (fun _ _ _ => trivial)
  obtain ⟨⟨hstill, c, rest, hc, halloc⟩, hlocal⟩ := hargs
  rw [wp_bind]
  refine wp_mono (wp_checkLaunchDimensions f grid block sharedMemBytes h₁) (fun _ _ hsame => ?_)
    (fun _ _ _ => trivial)
  subst hsame
  rw [wp_bind, checkConstantBanks, wp_require]
  split
  swap
  · trivial
  rw [wp_bind]
  refine wp_mono (wp_enqueueLaunch_described f grid block sharedMemBytes ptr async)
    (fun _ h₂ hlaunch => ?_) (fun _ _ hfalse => hfalse.elim)
  obtain ⟨hslm, hwords, ht⟩ := hlaunch
  have hsig₂ : h₂.timeline.timelineSignal ≠ 0 := by
    rw [ht, pushAll_timelineSignal, hstill.timeline]
    exact hsig
  rw [wp_bind, wp_modify, wp_onTimeline, addOperation_timeline, wp_finishOperation _ _ _ _ hsig₂]
  rw [hlocal.currentSlmPerThread] at hslm hwords
  exact ⟨ptr, halloc.ptr_eq, hslm, hwords, _, h₂.timeline, rfl, by rw [ht, hstill.timeline]⟩

/-- **The descriptor of a launch that succeeded**, and the one method that carries its address. -/
theorem wp_launchFunction_described (hsig : h.timeline.timelineSignal ≠ 0) (function : ℕ)
    (grid block : Dim3) (sharedMemBytes : NvU32) (params : ℕ → ℕ → NvU8) (numParams : NvU64)
    (async : Bool) :
    wp (launchFunction (some function) grid block sharedMemBytes params numParams async)
      (fun _ h' => ∃ ptr, h.Describes h' (h.functions function) grid block sharedMemBytes ptr)
      (fun _ _ => True) h := by
  rw [launchFunction, wp_bind, wp_get, wp_bind, wp_validate]
  split_ifs
  rw [wp_bind]
  refine wp_mono (wp_prepareLaunch hsig function async) (fun _ h₁ hprepared => ?_)
    (fun _ _ _ => trivial)
  obtain ⟨hq, calls, hcalls, ht⟩ := hprepared
  have hsig₁ : h₁.timeline.timelineSignal ≠ 0 := by
    rw [ht]
    simpa [Host.launchBase] using hsig
  refine wp_mono (wp_performLaunch_described hsig₁ (h.functions function) grid block sharedMemBytes
    params numParams async) (fun _ h₂ hdone => ?_) (fun _ _ _ => trivial)
  obtain ⟨ptr, hptr, hslm, hwords, tag, t, ht₂, hpush⟩ := hdone
  rw [hq.kernArgsPageVa, hq.kernArgsWriteIdx] at hptr
  rw [← hslm] at hwords
  refine ⟨ptr, hptr, hwords, ?_⟩
  -- everything the launch pushed, in order
  have hbase := (appends_pushAll (h.timeline.select .compute) .compute calls).trans
    (appends_synchronize _ (h.signals h.timeline.timelineSignal).value async)
  have hlaunch := (hbase.trans (appends_pushAll (h.launchBase calls async) .compute
    (launchCalls (qmdAddress (h.functions function) ptr) tag))).trans
      (appends_finish _ .compute async)
  rw [← ht, ← hpush, ← ht₂] at hlaunch
  have hemitted := hlaunch.emitted
  rw [select_emitted] at hemitted
  rw [Host.sentPcas, hemitted, List.drop_left, List.map_map]
  show ((List.map id _).filter _).map _ = _
  rw [List.map_id, List.filter_append, List.filter_append, List.filter_append,
    not_isSendPcas_localMemCalls hcalls, not_isSendPcas_synchronizeCalls,
    not_isSendPcas_finishCalls, List.append_nil, List.nil_append, List.nil_append,
    isSendPcas_launchCalls]

/-- The same of a launch that was made. -/
theorem described_of_launch {h' : Host} {function : ℕ} {grid block : Dim3} {sharedMemBytes : NvU32}
    {params : ℕ → ℕ → NvU8} {numParams : NvU64} {async : Bool}
    (hsig : h.timeline.timelineSignal ≠ 0)
    (hlaunch : call (launchFunction (some function) grid block sharedMemBytes params numParams
      async) h = (.ok (), h')) :
    ∃ ptr, h.Describes h' (h.functions function) grid block sharedMemBytes ptr := by
  rcases wp_call hlaunch (wp_launchFunction_described hsig function grid block sharedMemBytes params
    numParams async) with ⟨_, -, hdescribed⟩ | ⟨_, herr, -⟩
  · exact hdescribed
  · cases herr

end Launching

/-- **A launch writes its descriptor** where the operation says it is, with the mark of the queue.
-/
theorem wp_performLaunch_qmd (f : LibreCUFunction) (grid block : Dim3) (sharedMemBytes : NvU32)
    (params : ℕ → ℕ → NvU8) (numParams : NvU64) (async : Bool) (h : Host) :
    wp (performLaunch f grid block sharedMemBytes params numParams async)
      (fun _ h' => f.constants.all KernelConstantInfo.inQmd = true ∧ ∃ kernargsPointer,
        ∀ k < qmdWords, h'.lastQmd k = qmdData f grid block sharedMemBytes
          h'.queue.currentSlmPerThread kernargsPointer k)
      (fun _ _ => True) h := by
  rw [performLaunch, wp_bind]
  refine wp_trivial _ (fun ptr h₁ => ?_) (fun _ _ => trivial)
  rw [wp_bind]
  refine wp_trivial _ (fun _ h₂ => ?_) (fun _ _ => trivial)
  rw [wp_bind, checkConstantBanks, wp_require]
  split
  swap
  · trivial
  rename_i hbanks
  rw [wp_bind]
  refine wp_mono (wp_and (wp_enqueueLaunch_mem f grid block sharedMemBytes ptr async h₂)
    (wp_enqueueLaunch_described f grid block sharedMemBytes ptr async))
    (fun _ h₃ h₃' => ?_) (fun _ _ _ => trivial)
  obtain ⟨hmem, hslm, -⟩ := h₃'
  rw [wp_bind, wp_modify, wp_onTimeline]
  refine wp_trivial _ (fun _ t => ⟨hbanks, ptr, fun k hk => ?_⟩) (fun _ _ => trivial)
  have hlast : (((h₃.addOperation .compute async (ptr,
      kernargsSize (f.constants.headD ⟨0, 0, 0⟩).size)).setTimeline t).lastQmd) = qmdAt h₃.mem
        (ptr + (kernargsSize (f.constants.headD ⟨0, 0, 0⟩).size - (8 <<< 8))) := by
    unfold Host.lastQmd Host.addOperation Host.setTimeline
    rw [List.getLast?_concat]
  have hsize : kernargsSize (f.constants.headD ⟨0, 0, 0⟩).size - (8 <<< 8) =
      roundUp (f.constants.headD ⟨0, 0, 0⟩).size (1 <<< 8) := BitVec.add_sub_cancel ..
  rw [hlast, hsize, hmem, qmdAt_store _ _ _ hk, ← hslm]
  rfl

/-- The descriptor of a launch that succeeded is that of the function it was called with, and has
the mark the launch left. -/
theorem wp_launchFunction_lastQmd (function : ℕ) (grid block : Dim3) (sharedMemBytes : NvU32)
    (params : ℕ → ℕ → NvU8) (numParams : NvU64) (async : Bool) (h : Host) :
    wp (launchFunction (some function) grid block sharedMemBytes params numParams async)
      (fun _ h' => (h.functions function).constants.all KernelConstantInfo.inQmd = true ∧
        ∃ kernargsPointer, ∀ k < qmdWords, h'.lastQmd k = qmdData (h.functions function) grid block
          sharedMemBytes h'.queue.currentSlmPerThread kernargsPointer k)
      (fun _ _ => True) h := by
  rw [launchFunction, wp_bind, wp_get, wp_bind, wp_validate]
  split
  · rw [wp_bind]
    exact wp_trivial _ (fun _ h₁ => wp_performLaunch_qmd ..) (fun _ _ => trivial)
  · trivial

/-- The descriptor of a launch that succeeded is that of the function it was called with. -/
theorem wp_launchFunction_qmd (function : ℕ) (grid block : Dim3) (sharedMemBytes : NvU32)
    (params : ℕ → ℕ → NvU8) (numParams : NvU64) (async : Bool) (h : Host) :
    wp (launchFunction (some function) grid block sharedMemBytes params numParams async)
      (fun _ h' => (h.functions function).constants.all KernelConstantInfo.inQmd = true ∧
        ∃ slm kernargsPointer, ∀ k < qmdWords, h'.lastQmd k =
          qmdData (h.functions function) grid block sharedMemBytes slm kernargsPointer k)
      (fun _ _ => True) h :=
  wp_mono (wp_launchFunction_lastQmd function grid block sharedMemBytes params numParams async h)
    (fun _ h' hqmd => ⟨hqmd.1, h'.queue.currentSlmPerThread, hqmd.2⟩) fun _ _ _ => trivial

end LibreCuda
