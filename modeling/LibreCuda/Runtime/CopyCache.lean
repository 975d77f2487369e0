import LibreCuda.Foundation.Runs
import LibreCuda.Runtime.Contexts

/-! # The cached copy kernels

The copy kernels are loaded once for each device, into the address space of the context that is
being created then, and kept for all later contexts of the device.

* **`Cached`** is what the tables hold after any calls that succeed.
* **`copy_kernels_belong_iff`**: a copy runs kernels of the current context if and only if that is
  alive and the first one of its device. -/

namespace LibreCuda

open Exec Runs

/-! ## One call -/

/-- The module is loaded in the current context. -/
theorem loadCurrent_eq_ok {image : ElfImage} {s s' : Contexts} {ctx : ℕ} {m : LibreCUmodule}
    (h : call (loadCurrent image) s = (.ok (ctx, m), s')) :
    s.currentCtx = some ctx ∧ s.SameRecords s' := by
  obtain ⟨_, _, hget, h⟩ := bind_eq_ok h
  cases hget
  cases hcur : s.currentCtx with
  | none => simp [hcur] at h
  | some c =>
    rw [hcur] at h
    obtain ⟨p, t, hrebuild, hplaced⟩ := bind_eq_ok h
    obtain ⟨q, u, halloc, hallocated⟩ := bind_eq_ok hplaced
    obtain ⟨tables, v, hscan, hscanned⟩ := bind_eq_ok hallocated
    obtain ⟨bytes, w, hpatch, hpatched⟩ := bind_eq_ok hscanned
    cases hpatched
    obtain ⟨-, rfl⟩ := ofExcept_eq_ok hrebuild
    obtain ⟨-, rfl⟩ := ofExcept_eq_ok hscan
    obtain ⟨-, rfl⟩ := ofExcept_eq_ok hpatch
    exact ⟨rfl, (keeps_allocIn _ _ _ _).of_call halloc⟩

/-- A copy kernel that was found is remembered with its context. -/
theorem cacheKernel_eq_ok {ordinal ctx : ℕ} {m : LibreCUmodule} {kernel : CopyKernel}
    {s s' : Contexts} (h : call (cacheKernel ordinal ctx m kernel) s = (.ok (), s')) :
    ∃ f, s' = { s with
      kernels := Function.update s.kernels ordinal
        (Function.update (s.kernels ordinal) kernel (some ⟨f, ctx⟩)) } := by
  obtain ⟨f, t, hget, hset⟩ := bind_eq_ok h
  obtain ⟨-, rfl⟩ := ofExcept_eq_ok hget
  exact ⟨f, (Prod.ext_iff.mp hset).2.symm⟩

/-- What loading the copy kernels leaves behind: the kernels of the device that were there, or, for
a device without, kernels of the current context. -/
structure Contexts.KernelsLoaded (s s' : Contexts) (ordinal : ℕ) : Prop where
  created : s'.created = s.created
  currentCtx : s'.currentCtx = s.currentCtx
  devices : s'.devices = s.devices
  device : ∀ c, (s'.context c).device = (s.context c).device
  alive : ∀ c, (s'.context c).alive = (s.context c).alive
  initialized : ∀ o, s'.initialized o = (s.initialized o || decide (o = ordinal))
  others : ∀ o, s.initialized o = true ∨ o ≠ ordinal → s'.kernels o = s.kernels o
  own : s.initialized ordinal = false →
    ∃ ctx, s.currentCtx = some ctx ∧ ∀ k, ∃ f, s'.kernels ordinal k = some ⟨f, ctx⟩

theorem kernelsLoaded_of_ok {copyImage : ℕ → Option ElfImage} {ordinal : ℕ} {s s' : Contexts}
    (h : call (loadMemcpyKernelsIfNeeded copyImage ordinal) s = (.ok (), s')) :
    s.KernelsLoaded s' ordinal := by
  obtain ⟨_, _, hget, h⟩ := bind_eq_ok h
  cases hget
  cases hinit : s.initialized ordinal with
  | true =>
    rw [hinit] at h
    cases h
    refine ⟨rfl, rfl, rfl, fun _ => rfl, fun _ => rfl, fun o => ?_, fun _ _ => rfl, by simp [hinit]⟩
    by_cases ho : o = ordinal
    · rw [ho, hinit]
      rfl
    · simp [ho]
  | false =>
    rw [hinit] at h
    simp only [Bool.not_false, call_onlyIf, if_true] at h
    cases himage : copyImage ordinal with
    | none => simp [himage] at h
    | some image =>
      simp only [himage] at h
      -- the module is loaded into the current context, and its kernels are cached in turn
      obtain ⟨⟨ctx, m⟩, s₁, hload, hloaded⟩ := bind_eq_ok h
      obtain ⟨_, s₂, hfirst, hmore⟩ := bind_eq_ok hloaded
      obtain ⟨_, s₃, hsecond, hmost⟩ := bind_eq_ok hmore
      obtain ⟨_, s₄, hthird, hlast⟩ := bind_eq_ok hmost
      cases hlast
      obtain ⟨hcur, hsame⟩ := loadCurrent_eq_ok hload
      obtain ⟨f₁, rfl⟩ := cacheKernel_eq_ok hfirst
      obtain ⟨f₂, rfl⟩ := cacheKernel_eq_ok hsecond
      obtain ⟨f₃, rfl⟩ := cacheKernel_eq_ok hthird
      refine ⟨hsame.created, hsame.currentCtx, hsame.devices, hsame.device, hsame.alive,
        fun o => ?_, fun o ho => ?_, fun _ => ⟨ctx, hcur, fun k => ?_⟩⟩
      · show Function.update s₁.initialized ordinal true o = _
        rw [hsame.initialized]
        by_cases ho : o = ordinal
        · rw [ho, Function.update_self]
          simp
        · rw [Function.update_of_ne ho]
          simp [ho]
      · have hne : o ≠ ordinal := by
          rintro rfl
          rcases ho with ho | ho
          · rw [hinit] at ho
            cases ho
          · exact ho rfl
        simp [hne, hsame.kernels]
      · cases k with
        | highBW => exact ⟨f₁, by simp⟩
        | lowLatency => exact ⟨f₂, by simp⟩
        | trailing => exact ⟨f₃, by simp⟩

/-- What creating a context leaves behind. -/
structure Contexts.ContextCreated (s s' : Contexts) (ordinal : ℕ) : Prop where
  created : s'.created = s.created + 1
  currentCtx : s'.currentCtx = some s.created
  devices : s'.devices = s.devices
  device : ∀ c, (s'.context c).device = if c = s.created then ordinal else (s.context c).device
  alive : ∀ c, (s'.context c).alive = (decide (c = s.created) || (s.context c).alive)
  initialized : ∀ o, s'.initialized o = (s.initialized o || decide (o = ordinal))
  others : ∀ o, s.initialized o = true ∨ o ≠ ordinal → s'.kernels o = s.kernels o
  own : s.initialized ordinal = false → ∀ k, ∃ f, s'.kernels ordinal k = some ⟨f, s.created⟩

/-- The handle at an ordinal has that ordinal, as `libreCuInit` leaves the handles. -/
def Devices.Numbered (d : Devices) : Prop :=
  ∀ (k : ℕ) (handle : LibreCUdevice), d.publicDeviceHandles[k]? = some handle → handle.ordinal = k

theorem checkDevice_eq_ok {device handle : LibreCUdevice} {s s' : Contexts}
    (h : call (checkDevice device) s = (.ok handle, s')) :
    s' = s ∧ s.devices.publicDeviceHandles[device.ordinal]? = some handle := by
  obtain ⟨_, _, hget, hinitialized⟩ := bind_eq_ok h
  cases hget
  obtain ⟨-, hordinal⟩ := require_bind_eq_ok hinitialized
  obtain ⟨-, hinstance⟩ := require_bind_eq_ok hordinal
  obtain ⟨-, hhandle⟩ := require_bind_eq_ok hinstance
  cases hlookup : s.devices.publicDeviceHandles[device.ordinal]? with
  | none => simp [hlookup] at hhandle
  | some _ =>
    rw [hlookup] at hhandle
    cases hhandle
    exact ⟨rfl, rfl⟩

/-- **Creating a context** loads the copy kernels in it when its device has none yet. -/
theorem contextCreated_of_ok {copyImage : ℕ → Option ElfImage} {device : LibreCUdevice}
    {s s' : Contexts} {ctx : ℕ} (hn : s.devices.Numbered)
    (h : call (libreCuCtxCreate copyImage device) s = (.ok ctx, s')) :
    s.ContextCreated s' device.ordinal := by
  obtain ⟨handle, t, hcheck, hchecked⟩ := bind_eq_ok h
  obtain ⟨rfl, hhandle⟩ := checkDevice_eq_ok hcheck
  obtain ⟨c, u, hnew, hmade⟩ := bind_eq_ok hchecked
  cases hnew
  obtain ⟨_, v, hsetup, hready⟩ := bind_eq_ok hmade
  obtain ⟨_, w, hset, hcurrent⟩ := bind_eq_ok hready
  cases hset
  obtain ⟨_, x, hload, hend⟩ := bind_eq_ok hcurrent
  cases hend
  have hordinal : handle.ordinal = device.ordinal := hn _ _ hhandle
  have hsame := (keeps_setupContext _).of_call hsetup
  have hloaded := kernelsLoaded_of_ok hload
  refine ⟨hloaded.created.trans hsame.created, hloaded.currentCtx, hloaded.devices.trans hsame.devices,
    fun c => ?_, fun c => ?_, fun o => ?_, fun o ho => ?_, fun hinit k => ?_⟩
  · rw [hloaded.device, hsame.device, ← hordinal]
    show (Function.update t.context t.created _ c).device = _
    rw [Function.update_apply]
    split_ifs
    · rfl
    · rfl
  · rw [hloaded.alive, hsame.alive]
    show (Function.update t.context t.created _ c).alive = _
    rw [Function.update_apply]
    by_cases hc : c = t.created
    · rw [if_pos hc, decide_eq_true hc, Bool.true_or]
    · rw [if_neg hc, decide_eq_false hc, Bool.false_or]
  · rw [hloaded.initialized, hsame.initialized]
    rfl
  · rw [hloaded.others o (by rwa [hsame.initialized]), hsame.kernels]
    rfl
  · obtain ⟨c, hc, hkernels⟩ := hloaded.own (by rwa [hsame.initialized])
    cases hc
    exact hkernels k

/-! ## Runs -/

/-- A call succeeds. -/
def ContextCall.Succeeds (copyImage : ℕ → Option ElfImage) (s : Contexts)
    (e : ContextCall × (ℕ → NvU32)) : Prop :=
  (call (e.1.run copyImage) (s.answered e.2)).1 = .ok ()

/-- What the tables hold: the copy kernels of a device with contexts are there, and belong to the
first one of these. -/
structure Cached (s : Contexts) : Prop where
  devices : s.devices.Numbered
  alive : ∀ c, (s.context c).alive = true → c < s.created
  loaded : ∀ c < s.created, s.initialized (s.context c).device = true
  first : ∀ o, s.initialized o = true → ∃ c < s.created, (s.context c).device = o ∧
    (∀ c' < c, (s.context c').device ≠ o) ∧ ∀ k, ∃ f, s.kernels o k = some ⟨f, c⟩

theorem Cached.sameRecords {s s' : Contexts} (h : Cached s) (hsame : s.SameRecords s') :
    Cached s' := by
  refine ⟨hsame.devices ▸ h.devices, fun c hc => ?_, fun c hc => ?_, fun o ho => ?_⟩
  · rw [hsame.alive] at hc
    rw [hsame.created]
    exact h.alive c hc
  · rw [hsame.created] at hc
    rw [hsame.initialized, hsame.device]
    exact h.loaded c hc
  · rw [hsame.initialized] at ho
    simp only [hsame.created, hsame.device, hsame.kernels]
    exact h.first o ho

/-- A new context leaves the tables in order. -/
theorem Cached.contextCreated {s s' : Contexts} (h : Cached s) {ordinal : ℕ}
    (hnew : s.ContextCreated s' ordinal) : Cached s' := by
  have hold : ∀ c < s.created, (s'.context c).device = (s.context c).device := by
    intro c hc
    rw [hnew.device, if_neg (by omega)]
  have hself : (s'.context s.created).device = ordinal := by rw [hnew.device, if_pos rfl]
  refine ⟨hnew.devices ▸ h.devices, fun c hc => ?_, fun c hc => ?_, fun o ho => ?_⟩
  · rw [hnew.alive, Bool.or_eq_true, decide_eq_true_eq] at hc
    rw [hnew.created]
    rcases hc with rfl | hc
    · omega
    · have := h.alive c hc
      omega
  · rw [hnew.created] at hc
    rw [hnew.initialized]
    by_cases hlast : c = s.created
    · rw [hlast, hself]
      simp
    · have hlt : c < s.created := by omega
      rw [hold c hlt, h.loaded c hlt, Bool.true_or]
  · by_cases hinit : s.initialized o = true
    · obtain ⟨c, hc, hdevice, hfirst, hkernels⟩ := h.first o hinit
      refine ⟨c, by rw [hnew.created]; omega, by rw [hold c hc]; exact hdevice, fun c' hc' => ?_,
        fun k => ?_⟩
      · rw [hold c' (by omega)]
        exact hfirst c' hc'
      · rw [hnew.others o (Or.inl hinit)]
        exact hkernels k
    · -- the device had no copy kernels, so it had no context either
      have hordinal : o = ordinal := by
        rw [hnew.initialized] at ho
        simpa [hinit] using ho
      subst hordinal
      refine ⟨s.created, by rw [hnew.created]; omega, hself, fun c' hc' => ?_, fun k => ?_⟩
      · rw [hold c' hc']
        intro heq
        exact hinit (heq ▸ h.loaded c' hc')
      · exact hnew.own (Bool.eq_false_iff.mpr hinit) k

/-- **Every call that succeeds leaves the tables in order.** -/
theorem Cached.step {copyImage : ℕ → Option ElfImage} {s s' : Contexts}
    {e : ContextCall × (ℕ → NvU32)} (h : Cached s) (hok : ContextCall.Succeeds copyImage s e)
    (hs : s.step copyImage e = some s') : Cached s' := by
  have hrun : call (e.1.run copyImage) (s.answered e.2) = (.ok (), s') :=
    Prod.ext hok (Contexts.step_eq_some hs).1
  have hanswered : Cached (s.answered e.2) := ⟨h.devices, h.alive, h.loaded, h.first⟩
  obtain ⟨c, handles⟩ := e
  cases c with
  | create device =>
    obtain ⟨ctx, t, hcreate, hend⟩ := bind_eq_ok hrun
    cases hend
    exact hanswered.contextCreated (contextCreated_of_ok hanswered.devices hcreate)
  | destroy ctx =>
    obtain ⟨_, _, hget, halive⟩ := bind_eq_ok hrun
    cases hget
    obtain ⟨-, hset⟩ := require_bind_eq_ok halive
    cases hset
    have hdevice : ∀ c, (Function.update s.context ctx
        { s.context ctx with alive := false } c).device = (s.context c).device := by
      intro c
      by_cases hc : c = ctx
      · rw [hc, Function.update_self]
      · rw [Function.update_of_ne hc]
    refine ⟨h.devices, fun c hc => ?_, fun c hc => ?_, fun o ho => ?_⟩
    · refine h.alive c ?_
      show ((s.answered handles).context c).alive = true
      by_cases hctx : c = ctx
      · simp [hctx] at hc
      · simpa [hctx] using hc
    · exact (congrArg s.initialized (hdevice c)).trans (h.loaded c hc)
    · obtain ⟨c, hc, hown, hfirst, hkernels⟩ := h.first o ho
      exact ⟨c, hc, (hdevice c).trans hown, fun c' hc' => (hdevice c') ▸ hfirst c' hc', hkernels⟩
  | setCurrent ctx =>
    cases hrun
    exact ⟨h.devices, h.alive, h.loaded, h.first⟩
  | alloc ctx size hugePages mapToCpu =>
    obtain ⟨_, t, halloc, hend⟩ := bind_eq_ok hrun
    cases hend
    exact hanswered.sameRecords ((keeps_allocIn _ _ _ _).of_call halloc)
  | systemAlloc ctx size mapToCpu =>
    obtain ⟨_, t, halloc, hend⟩ := bind_eq_ok hrun
    cases hend
    exact hanswered.sameRecords ((keeps_systemAllocIn _ _ _).of_call halloc)
  | free ctx va => exact hanswered.sameRecords ((keeps_freeIn _ _).of_call hrun)

/-- A process in front of its first context: the devices are initialised. -/
structure Contexts.Start (s : Contexts) : Prop where
  devices : s.devices.Numbered
  created : s.created = 0
  alive : ∀ c, (s.context c).alive = false
  initialized : ∀ o, s.initialized o = false

theorem Contexts.Start.cached {s : Contexts} (h : s.Start) : Cached s :=
  ⟨h.devices, fun c hc => by simp [h.alive] at hc, fun c hc => by simp [h.created] at hc,
    fun o ho => by simp [h.initialized] at ho⟩

/-- The kernels of a copy, as `memcpyD2D` looks them up. Reading a destroyed context is undefined.
-/
def Contexts.memcpyKernels (s : Contexts) (size : NvU64) : Except Failure (List CachedKernel) :=
  match s.currentCtx with
  | none => .error (.status .invalidContext)
  | some ctx =>
    if (s.context ctx).alive then
      (LibreCuda.memcpyKernels size).mapM fun k =>
        match s.kernels (s.context ctx).device k with
        | none => .error (.status .invalidValue)
        | some kernel => .ok kernel
    else .error .crash

/-- The kernels of a copy belong to the first context of the device. -/
theorem memcpyKernels_of_cached {s : Contexts} (h : Cached s) {ctx : ℕ}
    (hcur : s.currentCtx = some ctx) (halive : (s.context ctx).alive = true) (size : NvU64) :
    ∃ c < s.created, (s.context c).device = (s.context ctx).device ∧
      (∀ c' < c, (s.context c').device ≠ (s.context ctx).device) ∧
      ∃ kernels ≠ [], s.memcpyKernels size = .ok kernels ∧ ∀ k ∈ kernels, k.context = c := by
  obtain ⟨c, hc, hdevice, hfirst, hkernels⟩ :=
    h.first _ (h.loaded ctx (h.alive ctx halive))
  choose f hf using hkernels
  refine ⟨c, hc, hdevice, hfirst, (LibreCuda.memcpyKernels size).map fun k => ⟨f k, c⟩, ?_, ?_, ?_⟩
  · rw [Ne, List.map_eq_nil_iff]
    exact memcpyKernels_ne_nil size
  · simp only [Contexts.memcpyKernels, hcur, halive, if_true, hf]
    exact List.mapM_pure
  · intro k hk
    obtain ⟨_, -, rfl⟩ := List.mem_map.mp hk
    rfl

/-- **A copy runs kernels of the current context, if and only if** that context is alive and the
first one created on its device: behind any calls on contexts that succeed, and for every size. -/
theorem copy_kernels_belong_iff {copyImage : ℕ → Option ElfImage} {s t : Contexts} (hs : s.Start)
    {calls : List (ContextCall × (ℕ → NvU32))}
    (hok : Meets (Contexts.step copyImage) (ContextCall.Succeeds copyImage) s calls)
    (ht : exec (Contexts.step copyImage) s calls = some t) {ctx : ℕ}
    (hcur : t.currentCtx = some ctx) (size : NvU64) :
    (∃ kernels, t.memcpyKernels size = .ok kernels ∧ ∀ k ∈ kernels, k.context = ctx) ↔
      (t.context ctx).alive = true ∧ ∀ c < ctx, (t.context c).device ≠ (t.context ctx).device := by
  have hcached : Cached t := (always_of_meets (fun _ _ _ h hok hstep => h.step hok hstep)
    hs.cached hok).exec ht
  by_cases halive : (t.context ctx).alive = true
  · obtain ⟨c, -, hdevice, hfirst, kernels, hne, hrun, hcontext⟩ :=
      memcpyKernels_of_cached hcached hcur halive size
    constructor
    · rintro ⟨kernels', hrun', hcontext'⟩
      obtain rfl : kernels = kernels' := Except.ok.inj (hrun.symm.trans hrun')
      obtain ⟨k, hk⟩ := List.exists_mem_of_ne_nil kernels hne
      have hself : c = ctx := (hcontext k hk).symm.trans (hcontext' k hk)
      exact ⟨halive, hself ▸ hfirst⟩
    · rintro ⟨-, hfirst'⟩
      have hself : c = ctx := by
        rcases Nat.lt_trichotomy c ctx with hlt | heq | hgt
        · exact absurd hdevice (hfirst' c hlt)
        · exact heq
        · exact absurd rfl (hfirst ctx hgt)
      exact ⟨kernels, hrun, hself ▸ hcontext⟩
  · have hcrash : t.memcpyKernels size = .error .crash := by
      simp [Contexts.memcpyKernels, hcur, halive]
    exact iff_of_false (by simp [hcrash]) fun h => halive h.1

/-! ## The sample process -/

theorem start_sampleProcess : sampleProcess.Start := by
  refine ⟨fun k handle hk => ?_, rfl, fun _ => rfl, fun _ => rfl⟩
  cases k with
  | zero =>
    obtain rfl := Option.some.inj hk
    rfl
  | succ k => cases hk

theorem succeeds_oneContext : ContextCall.Succeeds sampleCopyImages sampleProcess (createFrom 1) := by
  unfold ContextCall.Succeeds
  decide +kernel

theorem succeeds_twoContexts : ContextCall.Succeeds sampleCopyImages oneContext (createFrom 100) := by
  unfold ContextCall.Succeeds
  decide +kernel

/-- A copy in the only context of a device. -/
theorem copy_kernels_belong_iff_sample :
    (∃ kernels, oneContext.memcpyKernels 16 = .ok kernels ∧ ∀ k ∈ kernels, k.context = 0) ↔
      (oneContext.context 0).alive = true ∧
        ∀ c < 0, (oneContext.context c).device ≠ (oneContext.context 0).device := by
  have hok : Meets (Contexts.step sampleCopyImages) (ContextCall.Succeeds sampleCopyImages)
      sampleProcess [createFrom 1] := fun _ _ => ⟨succeeds_oneContext, trivial⟩
  have hexec : exec (Contexts.step sampleCopyImages) sampleProcess [createFrom 1] =
      some oneContext := exec_cons step_oneContext []
  exact copy_kernels_belong_iff start_sampleProcess hok hexec (by decide +kernel) 16

/-- **A copy in the second context of a device runs kernels of the first one.** -/
theorem second_context_copies_with_first :
    sampleProcess.Start ∧
      Meets (Contexts.step sampleCopyImages) (ContextCall.Succeeds sampleCopyImages) sampleProcess
        [createFrom 1, createFrom 100] ∧
      exec (Contexts.step sampleCopyImages) sampleProcess [createFrom 1, createFrom 100] =
        some twoContexts ∧
      twoContexts.currentCtx = some 1 ∧ (twoContexts.context 1).alive = true ∧
      ¬ ∃ kernels, twoContexts.memcpyKernels 16 = .ok kernels ∧ ∀ k ∈ kernels, k.context = 1 := by
  refine ⟨start_sampleProcess, fun s₁ hs₁ => ⟨succeeds_oneContext, fun s₂ _ => ⟨?_, trivial⟩⟩, ?_,
    by decide +kernel, by decide +kernel, ?_⟩
  · obtain rfl := Option.some.inj (step_oneContext.symm.trans hs₁)
    exact succeeds_twoContexts
  · rw [exec_cons step_oneContext, exec_cons step_twoContexts]
    rfl
  · rintro ⟨kernels, hrun, hcontext⟩
    have hfirst : (twoContexts.memcpyKernels 16).map (List.map CachedKernel.context) = .ok [0] := by
      decide +kernel
    rw [hrun] at hfirst
    have hlist : kernels.map CachedKernel.context = [0] := Except.ok.inj hfirst
    obtain ⟨k, hk, hzero⟩ := List.mem_map.mp (hlist ▸ List.mem_singleton.mpr rfl :
      0 ∈ kernels.map CachedKernel.context)
    exact absurd ((hcontext k hk).symm.trans hzero) one_ne_zero

end LibreCuda
