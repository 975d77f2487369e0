import LibreCuda.Queue.ArgumentBytes
import LibreCuda.Queue.ArgumentPage

/-! # Where calls write

A launch writes to its argument region only, whether it succeeds or fails half-way through its
parameters, and the other calls write to no argument region at all.

* **`Host.WritesIn`**: nothing changed outside an area of the memory.
* **`mem_of_call`**: what every call leaves as it was.
* **`LibreCUFunction.Fits`**: constant bank 0 of a kernel has room for the header and the parameters;
  then what a launch writes lies in its region, and the parts of it do not overlap.
* **`left_of_launch`**: what a launch that succeeds leaves in its region. -/

namespace LibreCuda

open Bytes Exec Packing

/-! ## Areas -/

/-- Nothing changed outside an area. -/
structure Host.WritesIn (area : Set NvU64) (h h' : Host) : Prop where
  mem : ∀ x, x ∉ area → h'.mem x = h.mem x

instance (area : Set NvU64) : IsPreorder Host (Host.WritesIn area) where
  refl _ := ⟨fun _ _ => rfl⟩
  trans _ _ _ h h' := ⟨fun x hx => (h'.mem x hx).trans (h.mem x hx)⟩

theorem Host.WritesIn.mono {area area' : Set NvU64} {h h' : Host} (hw : h.WritesIn area h')
    (hsub : area ⊆ area') : h.WritesIn area' h' :=
  ⟨fun x hx => hw.mem x fun hin => hx (hsub hin)⟩

theorem Host.SameMem.writesIn {h h' : Host} (hsame : h.SameMem h') (area : Set NvU64) :
    h.WritesIn area h' := ⟨fun x _ => congrFun hsame.mem x⟩

/-- A store changes its block. -/
theorem writesIn_store (h : Host) (addr : NvU64) (block : List NvU8) :
    h.WritesIn (span addr block.length) { h with mem := store h.mem addr block } :=
  ⟨fun _ hx => store_of_not_mem_span hx⟩

/-- What is written for the arguments at an address. -/
def LibreCUFunction.argumentArea (f : LibreCUFunction) (ptr : NvU64) : Set NvU64 :=
  span ptr 352 ∪ span (ptr + constbuf0Bytes) (4 * f.numWords)

/-- What is written for the descriptor. -/
def LibreCUFunction.qmdArea (f : LibreCUFunction) (ptr : NvU64) : Set NvU64 :=
  span (qmdAddress f ptr) 256

/-- What a launch writes. -/
def LibreCUFunction.launchArea (f : LibreCUFunction) (ptr : NvU64) : Set NvU64 :=
  f.argumentArea ptr ∪ f.qmdArea ptr

/-! ## Launches -/

/-- The loop over the parameters writes to their words, also if it stops at one of them. -/
theorem writesIn_writeParams (kernargsBuf : NvU64) (params : ℕ → ℕ → NvU8)
    (infos : List KernelParamInfo) (i j : ℕ) :
    Keeps (Host.WritesIn (span kernargsBuf
      (4 * (j + (infos.map fun p => (p.paramSize.toNat + 3) / 4).sum))))
      (writeParams kernargsBuf params infos i j) := by
  induction infos generalizing i j with
  | nil => exact keeps_pure ()
  | cons p rest ih =>
    rw [writeParams]
    split
    · exact keeps_throw _
    · rename_i ws hws
      have hp : Readable p.paramSize.toNat := by
        by_contra hnot
        rw [(paramWords_eq_none_iff _ _).mpr hnot] at hws
        cases hws
      obtain ⟨-, hlength⟩ := paramWords_of_readable hp hws
      have hoffset : 4 * BitVec.ofNat 64 j = BitVec.ofNat 64 (4 * j) := by
        rw [BitVec.ofNat_mul]
        rfl
      have htotal : j + ((p :: rest).map fun q => (q.paramSize.toNat + 3) / 4).sum =
          j + ws.length + (rest.map fun q => (q.paramSize.toNat + 3) / 4).sum := by
        rw [List.map_cons, List.sum_cons, hlength, Nat.add_assoc]
      rw [htotal]
      refine Keeps.bind (keeps_modify fun h => ?_) fun _ => ih (i + 1) (j + ws.length)
      refine (writesIn_store h _ _).mono fun x hx => ?_
      rw [length_ofWords, hoffset] at hx
      exact mem_span_of_add (by omega) hx

theorem writesIn_fillKernArgs (f : LibreCUFunction) (grid block : Dim3) (params : ℕ → ℕ → NvU8)
    (numParams kernargsPointer size : NvU64) :
    Keeps (Host.WritesIn (f.argumentArea kernargsPointer))
      (fillKernArgs f grid block params numParams kernargsPointer size) := by
  have hheader : ∀ h : Host, h.WritesIn (f.argumentArea kernargsPointer) { h with
      mem := store h.mem kernargsPointer (ofWords (constbuf0Data grid block)) } := fun h => by
    refine (writesIn_store h _ _).mono fun x hx => Or.inl ?_
    rwa [length_ofWords] at hx
  refine (keeps_require _ _).bind fun _ => (keeps_modify hheader).bind fun _ =>
    (keeps_require _ _).bind fun _ => ?_
  refine (writesIn_writeParams (kernargsPointer + constbuf0Bytes) params f.paramInfo 0 0).mono
    fun _ _ hw => hw.mono fun x hx => Or.inr ?_
  rwa [Nat.zero_add] at hx

/-- The arguments are written where the region begins. -/
theorem wp_writeKernArgs_writesIn (f : LibreCUFunction) (grid block : Dim3)
    (params : ℕ → ℕ → NvU8) (numParams : NvU64) (h : Host) :
    wp (writeKernArgs f grid block params numParams)
      (fun ptr h' => ptr = h.kernargsPointer ∧ h.WritesIn (f.argumentArea h.kernargsPointer) h')
      (fun _ => h.WritesIn (f.argumentArea h.kernargsPointer)) h := by
  have hrefl : h.WritesIn (f.argumentArea h.kernargsPointer) h := Std.Refl.refl h
  unfold writeKernArgs
  split
  · rw [wp_throw]
    exact hrefl
  rename_i c rest hc
  rw [wp_bind, allocKernArgs, wp_bind, wp_get]
  split
  · rw [wp_throw]
    exact hrefl
  · show wp (do set _; pure _) _ _ h
    rw [wp_bind, wp_set, wp_pure, wp_bind]
    refine wp_mono (writesIn_fillKernArgs f grid block params numParams h.kernargsPointer _ _)
      (fun _ h' hw => ?_) (fun _ _ hw => ⟨hw.mem⟩)
    rw [wp_pure]
    exact ⟨rfl, ⟨hw.mem⟩⟩

theorem writesIn_enqueueLaunch (f : LibreCUFunction) (grid block : Dim3) (sharedMemBytes : NvU32)
    (ptr : NvU64) (async : Bool) :
    Keeps (Host.WritesIn (f.qmdArea ptr)) (enqueueLaunch f grid block sharedMemBytes ptr async) := by
  have htimeline : ∀ x : Exec CommandTimeline Failure Unit,
      Keeps (Host.WritesIn (f.qmdArea ptr)) (onTimeline x) := fun x =>
    (keepsMem_onTimeline x).mono fun _ _ hsame => hsame.writesIn _
  have hqmd : ∀ (h : Host) (qmd : QmdData), h.WritesIn (f.qmdArea ptr) { h with
      mem := store h.mem (qmdAddress f ptr) (ofWords ((List.range qmdWords).map qmd)) } :=
    fun h qmd => by
      refine (writesIn_store h _ _).mono fun x hx => ?_
      rwa [length_ofWords, List.length_map, List.length_range] at hx
  exact keeps_get.bind fun _ => (htimeline _).bind fun _ => (keeps_modify fun h => hqmd h _).bind
    fun _ => (htimeline _).bind fun _ => htimeline _

theorem wp_performLaunch_writesIn (f : LibreCUFunction) (grid block : Dim3)
    (sharedMemBytes : NvU32) (params : ℕ → ℕ → NvU8) (numParams : NvU64) (async : Bool) (h : Host) :
    wp (performLaunch f grid block sharedMemBytes params numParams async)
      (fun _ => h.WritesIn (f.launchArea h.kernargsPointer))
      (fun _ => h.WritesIn (f.launchArea h.kernargsPointer)) h := by
  rw [performLaunch, wp_bind]
  refine wp_mono (wp_writeKernArgs_writesIn f grid block params numParams h)
    (fun ptr h₁ hargs => ?_) (fun _ _ hw => hw.mono Set.subset_union_left)
  obtain ⟨rfl, hw⟩ := hargs
  have hw := hw.mono (Set.subset_union_left (t := f.qmdArea h.kernargsPointer))
  have hrest : Keeps (Host.WritesIn (f.launchArea h.kernargsPointer)) (do
      checkLaunchDimensions f grid block sharedMemBytes
      checkConstantBanks f
      enqueueLaunch f grid block sharedMemBytes h.kernargsPointer async
      modify fun s => s.addOperation .compute async
        (h.kernargsPointer, kernargsSize (f.constants.headD ⟨0, 0, 0⟩).size)
      onTimeline (finishOperation .compute async) : Driver Unit) := by
    refine Keeps.bind (fun s => ?_) fun _ => (keeps_require _ _).bind fun _ =>
      ((writesIn_enqueueLaunch f grid block sharedMemBytes _ async).mono fun _ _ hq =>
        hq.mono Set.subset_union_right).bind fun _ =>
          (keeps_modify fun s => ⟨fun _ _ => rfl⟩).bind fun _ =>
            (keepsMem_onTimeline _).mono fun _ _ hsame => hsame.writesIn _
    refine wp_mono (wp_checkLaunchDimensions f grid block sharedMemBytes s)
      (fun _ _ hsame => ?_) (fun _ _ hsame => ?_)
    · subst hsame
      exact Std.Refl.refl _
    · subst hsame
      exact Std.Refl.refl _
  exact wp_mono (hrest h₁) (fun _ _ h' => IsTrans.trans _ _ _ hw h')
    fun _ _ h' => IsTrans.trans _ _ _ hw h'

/-- **A launch writes to its arguments and its descriptor**, whether it succeeds or fails. -/
theorem wp_launchFunction_writesIn {h : Host} (hsig : h.timeline.timelineSignal ≠ 0) (function : ℕ)
    (grid block : Dim3) (sharedMemBytes : NvU32) (params : ℕ → ℕ → NvU8) (numParams : NvU64)
    (async : Bool) :
    wp (launchFunction (some function) grid block sharedMemBytes params numParams async)
      (fun _ => h.WritesIn ((h.functions function).launchArea h.kernargsPointer))
      (fun _ => h.WritesIn ((h.functions function).launchArea h.kernargsPointer)) h := by
  rw [launchFunction, wp_bind, wp_get, wp_bind, wp_validate]
  split_ifs
  swap
  · exact Std.Refl.refl h
  rw [wp_bind]
  refine wp_mono (wp_and (wp_prepareLaunch hsig function async)
    (keepsMem_prepareLaunch function async h)) (fun _ h₁ hprepared => ?_)
    (fun _ _ hfailed => hfailed.2.writesIn _)
  obtain ⟨⟨hq, -⟩, hmem⟩ := hprepared
  have hptr : h₁.kernargsPointer = h.kernargsPointer := by
    rw [Host.kernargsPointer, hq.kernArgsPageVa, hq.kernArgsWriteIdx]
    rfl
  have hperform := wp_performLaunch_writesIn (h.functions function) grid block sharedMemBytes params
    numParams async h₁
  rw [hptr] at hperform
  exact wp_mono hperform (fun _ _ h' => IsTrans.trans _ _ _ (hmem.writesIn _) h')
    fun _ _ h' => IsTrans.trans _ _ _ (hmem.writesIn _) h'

/-! ## Other calls -/

theorem keepsMem_submitToFifo (type : QueueType) : Keeps Host.SameMem (submitToFifo type) := by
  intro h
  rw [submitToFifo, wp_bind, wp_get, wp_onlyIf]
  split
  · rw [wp_bind, wp_validate]
    split
    · rw [wp_set]
      cases type <;> exact ⟨rfl⟩
    · exact Std.Refl.refl h
  · exact Std.Refl.refl h

theorem keepsMem_signalWaitCpu (pSignal : NvU64) (signalTarget : NvU32) :
    Keeps Host.SameMem (signalWaitCpu pSignal signalTarget) := by
  refine (keeps_require _ _).bind fun _ => (keeps_modify fun _ => ⟨rfl⟩).bind fun _ h => ?_
  rw [wp_bind, wp_get]
  split
  · rw [wp_set]
    exact ⟨rfl⟩
  · split
    · exact keeps_throw _ h
    · exact keeps_pure _ h

theorem keepsMem_commenceBacklog (entries : List CommandBufSplit) :
    Keeps Host.SameMem (commenceBacklog entries) := by
  induction entries with
  | nil => exact keeps_pure ()
  | cons e rest ih =>
    have hentry : Keeps Host.SameMem (commenceEntry e) :=
      (keepsMem_onTimeline _).bind fun _ => keeps_get.bind fun _ =>
        ((keepsMem_onTimeline _).onlyIf _).bind fun _ =>
          (keepsMem_submitToFifo _).bind fun _ => keepsMem_signalWaitCpu _ _
    exact hentry.bind fun _ => ih

theorem keepsMem_startExecution : Keeps Host.SameMem startExecution := by
  have hcurrent : ∀ type, Keeps Host.SameMem (commenceCurrent type) := fun type =>
    keeps_get.bind fun _ => Keeps.onlyIf ((keeps_require _ _).bind fun _ =>
      ((keepsMem_onTimeline _).onlyIf _).bind fun _ => keepsMem_submitToFifo type) _
  refine keeps_get.bind fun h => ?_
  split
  · exact (hcurrent .compute).bind fun _ => (hcurrent .dma).bind fun _ => keepsMem_onTimeline _
  · exact (keepsMem_onTimeline _).bind fun _ => (keepsMem_onTimeline _).bind fun _ =>
      keeps_get.bind fun _ => (keepsMem_commenceBacklog _).bind fun _ => keepsMem_onTimeline _

theorem keepsMem_awaitExecution : Keeps Host.SameMem awaitExecution :=
  keeps_get.bind fun _ => (keeps_require _ _).bind fun _ =>
    (keepsMem_signalWaitCpu _ _).bind fun _ => keeps_modify fun _ => ⟨rfl⟩

theorem keepsMem_gpuMemcpy (dst src numBytes : NvU64) (async : Bool) :
    Keeps Host.SameMem (gpuMemcpy dst src numBytes async) :=
  (keeps_require _ _).bind fun _ => (keeps_require _ _).bind fun _ =>
    (keeps_require _ _).bind fun _ => (keepsMem_onTimeline _).bind fun _ => keeps_get.bind fun _ =>
      (keepsMem_onTimeline _).bind fun _ => (keepsMem_onTimeline _).bind fun _ =>
        (keepsMem_onTimeline _).bind fun _ => (keeps_modify fun _ => ⟨rfl⟩).bind fun _ =>
          keepsMem_onTimeline _

theorem keepsMem_obtainSignal : Keeps Host.SameMem obtainSignal := by
  intro h
  rw [obtainSignal, wp_bind, wp_get, wp_bind, wp_validate]
  split
  · split
    · exact keeps_throw _ h
    · rw [wp_bind, wp_set, wp_pure]
      exact ⟨rfl⟩
  · exact Std.Refl.refl h

theorem keepsMem_recordEvent (event : Option ℕ) (pStream : ℕ) :
    Keeps Host.SameMem (recordEvent event pStream) := by
  have hnotify : ∀ event type, Keeps Host.SameMem (notifyEvent event type) := fun event type => by
    have hprovide : Keeps Host.SameMem (provideSignal event type) := by
      refine keeps_get.bind fun _ => Keeps.onlyIf ?_ _
      exact keepsMem_obtainSignal.bind fun _ => keeps_modify fun _ => ⟨rfl⟩
    exact hprovide.bind fun _ => keeps_get.bind fun _ => keepsMem_onTimeline _
  cases event with
  | none => exact keeps_throw _
  | some event =>
    refine (keeps_modify fun _ => ⟨rfl⟩).bind fun _ => keeps_get.bind fun h => ?_
    split
    · exact hnotify event _
    · exact (hnotify event _).bind fun _ => keepsMem_onTimeline _

/-! ## All calls -/

/-- The function that a call launches. -/
def ApiCall.function : ApiCall → Option ℕ
  | .launchFunction function .. => function
  | _ => none

/-- **What every call leaves as it was.** -/
theorem mem_of_call {h h' : Host} {c : ApiCall} {r : Except Failure Unit}
    (hsig : h.timeline.timelineSignal ≠ 0) (hc : call c.run h = (r, h')) {x : NvU64}
    (hx : ∀ function, c.function = some function →
      x ∉ (h.functions function).launchArea h.kernargsPointer) : h'.mem x = h.mem x := by
  have hsame : Keeps Host.SameMem c.run → h'.mem x = h.mem x := fun hkeeps =>
    congrFun (hkeeps.of_call hc).mem x
  cases c with
  | launchFunction function grid block sharedMemBytes params numParams async =>
    cases function with
    | none => exact hsame (keeps_throw _)
    | some function =>
      rcases wp_call hc (wp_launchFunction_writesIn hsig function grid block sharedMemBytes params
        numParams async) with ⟨_, -, hw⟩ | ⟨_, -, hw⟩
      · exact hw.mem x (hx function rfl)
      · exact hw.mem x (hx function rfl)
  | gpuMemcpy => exact hsame (keepsMem_gpuMemcpy _ _ _ _)
  | recordEvent => exact hsame (keepsMem_recordEvent _ _)
  | startExecution => exact hsame keepsMem_startExecution
  | awaitExecution => exact hsame keepsMem_awaitExecution

/-! ## Kernels that fit -/

/-- Constant bank 0 of a kernel, its first bank, has room for the header and the parameters. -/
structure LibreCUFunction.Fits (f : LibreCUFunction) : Prop where
  sizes : ∀ c ∈ f.constants, c.size.toNat < 2 ^ 32
  numbers : ∀ c ∈ f.constants, c.constNr < 8
  params : 352 + 4 * f.numWords ≤ (f.constants.headD ⟨0, 0, 0⟩).size.toNat

/-- The size of the argument region of a launch. -/
def LibreCUFunction.regionSize (f : LibreCUFunction) : NvU64 :=
  kernargsSize (f.constants.headD ⟨0, 0, 0⟩).size

/-- The bytes a launch writes in front of the descriptor. -/
def LibreCUFunction.argumentBytes (f : LibreCUFunction) (grid block : Dim3)
    (params : ℕ → ℕ → NvU8) : List NvU8 :=
  ofWords (constbuf0Data grid block) ++ f.paramBlock params

/-- What a launch leaves in its region: the descriptor, and the arguments in front of it. -/
structure LaunchStored (mem : Memory) (f : LibreCUFunction) (qmd : QmdData) (arguments : List NvU8)
    (ptr : NvU64) : Prop where
  words : ∀ k < qmdWords, qmdAt mem (qmdAddress f ptr) k = qmd k
  bytes : ∀ y < arguments.length, arguments[y]? = some (load mem ptr y)

theorem inRegion_iff {region : NvU64 × NvU64} {x : NvU64} :
    InRegion region x ↔ x ∈ span region.1 region.2.toNat := mem_span_iff_exists.symm

section Fits

variable {f : LibreCUFunction}

theorem LibreCUFunction.Fits.head_mem (hf : f.Fits) :
    f.constants.headD ⟨0, 0, 0⟩ ∈ f.constants := by
  have hparams := hf.params
  cases hc : f.constants with
  | nil =>
    rw [hc] at hparams
    exact absurd hparams (Nat.not_le.mpr (Nat.add_pos_left (by decide) _))
  | cons c rest => exact List.mem_cons_self

/-- The descriptor begins behind the arguments, at the end of the bank. -/
theorem LibreCUFunction.Fits.qmdOffset_eq (hf : f.Fits) :
    f.qmdOffset = ((f.constants.headD ⟨0, 0, 0⟩).size.toNat + 255) / 256 * 256 :=
  toNat_roundUp_bank (hf.sizes _ hf.head_mem)

theorem LibreCUFunction.Fits.toNat_regionSize (hf : f.Fits) :
    f.regionSize.toNat = f.qmdOffset + 2048 := by
  rw [hf.qmdOffset_eq]
  exact toNat_kernargsSize (hf.sizes _ hf.head_mem)

theorem LibreCUFunction.Fits.qmdOffset_lt (hf : f.Fits) : f.qmdOffset < 2 ^ 33 := by
  have hsize := hf.sizes _ hf.head_mem
  rw [hf.qmdOffset_eq]
  omega

theorem LibreCUFunction.Fits.params_le (hf : f.Fits) : 352 + 4 * f.numWords ≤ f.qmdOffset := by
  have hparams := hf.params
  rw [hf.qmdOffset_eq]
  omega

theorem qmdAddress_eq (f : LibreCUFunction) (ptr : NvU64) :
    qmdAddress f ptr = ptr + BitVec.ofNat 64 f.qmdOffset := by
  rw [LibreCUFunction.qmdOffset, BitVec.ofNat_toNat, BitVec.setWidth_eq]
  rfl

/-- **A launch writes into its region.** -/
theorem LibreCUFunction.Fits.inRegion (hf : f.Fits) {ptr x : NvU64} (hx : x ∈ f.launchArea ptr) :
    InRegion (ptr, f.regionSize) x := by
  have hparams := hf.params_le
  have hspan : ∀ o size, o + size ≤ f.regionSize.toNat → x ∈ span (ptr + BitVec.ofNat 64 o) size →
      InRegion (ptr, f.regionSize) x := fun o size hle hin =>
    inRegion_iff.mpr (mem_span_of_add hle hin)
  rw [hf.toNat_regionSize] at hspan
  rcases hx with (hheader | hwords) | hqmd
  · refine hspan 0 352 (by omega) ?_
    rwa [show BitVec.ofNat 64 0 = 0#64 from rfl, BitVec.add_zero]
  · exact hspan 352 _ (by omega) hwords
  · rw [LibreCUFunction.qmdArea, qmdAddress_eq] at hqmd
    exact hspan _ 256 (by omega) hqmd

theorem sum_padded_sizes (f : LibreCUFunction) : (f.sizes.map (padded 4)).sum = 4 * f.numWords := by
  rw [LibreCUFunction.numWords, LibreCUFunction.sizes, List.map_map, ← List.sum_map_mul_left]
  rfl

theorem length_argumentBytes (f : LibreCUFunction) (grid block : Dim3) (params : ℕ → ℕ → NvU8) :
    (f.argumentBytes grid block params).length = 352 + 4 * f.numWords := by
  rw [LibreCUFunction.argumentBytes, List.length_append, length_ofWords,
    LibreCUFunction.paramBlock, length_pack, sum_padded_sizes]
  rfl

/-- The arguments read back, since the descriptor is behind them. -/
theorem LibreCUFunction.Fits.load_launchMem (hf : f.Fits) (mem : Memory) (ptr : NvU64)
    (grid block : Dim3) {qmd : List NvU8} (params : ℕ → ℕ → NvU8) (hqmd : qmd.length = 256) {y : ℕ}
    (hy : y < (f.argumentBytes grid block params).length) :
    (f.argumentBytes grid block params)[y]? = some
      (load (f.launchMem mem ptr (ofWords (constbuf0Data grid block)) qmd params) ptr y) := by
  have hlength := length_argumentBytes f grid block params
  have hparams := hf.params_le
  have hlt := hf.qmdOffset_lt
  have hheader : (ofWords (constbuf0Data grid block)).length = 352 := by
    rw [length_ofWords]
    rfl
  have hblock : (f.paramBlock params).length = 4 * f.numWords := by
    rw [LibreCUFunction.paramBlock, length_pack, sum_padded_sizes]
  -- header and parameters are one block
  have hmem : f.launchMem mem ptr (ofWords (constbuf0Data grid block)) qmd params =
      store (store mem ptr (f.argumentBytes grid block params)) (qmdAddress f ptr) qmd := by
    have hroom : (ofWords (constbuf0Data grid block)).length + (f.paramBlock params).length ≤
        2 ^ 64 := by omega
    have happend := @store_append mem ptr _ _ hroom
    rw [hheader] at happend
    rw [LibreCUFunction.launchMem, LibreCUFunction.argumentBytes, ← happend]
    rfl
  have hdistance := toNat_add_sub_self ptr (o := y) (by omega)
  have hbehind : ptr + BitVec.ofNat 64 y ∉ span (qmdAddress f ptr) qmd.length := by
    rw [qmdAddress_eq, hqmd, mem_span_add_iff (by omega), hdistance]
    omega
  rw [load, hmem, store_of_not_mem_span hbehind, store_of_lt (by rw [hdistance]; exact hy),
    List.getElem?_eq_getElem hy]
  simp only [hdistance]

/-- **What a launch that succeeds leaves** in its region. -/
theorem stored_of_launch {h h' : Host} {function : ℕ} {grid block : Dim3} {sharedMemBytes : NvU32}
    {params : ℕ → ℕ → NvU8} {numParams : NvU64} {async : Bool}
    (hsig : h.timeline.timelineSignal ≠ 0) (hf : (h.functions function).Fits)
    (hc : call (launchFunction (some function) grid block sharedMemBytes params numParams async) h =
      (.ok (), h')) :
    LaunchStored h'.mem (h.functions function) (qmdData (h.functions function) grid block
      sharedMemBytes h'.queue.currentSlmPerThread h.kernargsPointer)
        ((h.functions function).argumentBytes grid block params) h.kernargsPointer := by
  have hlt := hf.qmdOffset_lt
  have hparams := hf.params_le
  have hsize : ((h.functions function).sizes.map (padded 4)).sum ≤ 2 ^ 64 := by
    rw [sum_padded_sizes]
    omega
  obtain ⟨ptr, hdescribed⟩ := described_of_launch hsig hc
  obtain rfl : ptr = h.kernargsPointer := hdescribed.pointer
  refine ⟨hdescribed.words, fun y hy => ?_⟩
  have hdone := wp_and (wp_launchFunction hsig (some function) grid block sharedMemBytes params
    numParams async) (wp_launchFunction_constbuf0 hsig function hsize grid block sharedMemBytes params
      numParams async)
  rcases wp_call hc hdone with ⟨_, -, ⟨_, -, hok⟩, hbuf⟩ | ⟨_, herr, -⟩
  swap
  · cases herr
  obtain ⟨_, _, _, -, halloc, hops⟩ := hok.operation
  have hlast : h'.constbuf0 = load h'.mem h.kernargsPointer := by
    rw [Host.constbuf0, hops, List.getLast?_concat, halloc.ptr_eq]
    rfl
  rw [← hlast, hbuf]
  exact hf.load_launchMem h.mem h.kernargsPointer grid block params (length_launchQmd ..) hy

/-- What is stored stays, as long as nothing is written to the region. -/
theorem LaunchStored.of_region {mem mem' : Memory} {qmd : QmdData} {arguments : List NvU8}
    {ptr : NvU64} (hf : f.Fits) (hs : LaunchStored mem f qmd arguments ptr)
    (hlength : arguments.length ≤ f.qmdOffset)
    (hsame : ∀ x, InRegion (ptr, f.regionSize) x → mem' x = mem x) :
    LaunchStored mem' f qmd arguments ptr := by
  have hsize := hf.toNat_regionSize
  have hoffset : ∀ o, o < f.qmdOffset + 2048 →
      mem' (ptr + BitVec.ofNat 64 o) = mem (ptr + BitVec.ofNat 64 o) := fun o ho =>
    hsame _ ⟨o, by rw [hsize]; exact ho, rfl⟩
  refine ⟨fun k hk => ?_, fun y hy => ?_⟩
  · have hk : k < 64 := hk
    have hbyte : ∀ j < 256, load mem' (qmdAddress f ptr) j = load mem (qmdAddress f ptr) j :=
      fun j hj => by
        rw [load, load, qmdAddress_eq, BitVec.add_assoc, ← BitVec.ofNat_add]
        exact hoffset _ (by omega)
    rw [← hs.words k hk, qmdAt, qmdAt, wordAt, wordAt, hbyte _ (by omega), hbyte _ (by omega),
      hbyte _ (by omega), hbyte _ (by omega)]
  · rw [hs.bytes y hy, load, load, hoffset y (by omega)]

end Fits

end LibreCuda
