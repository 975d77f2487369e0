import LibreCuda.Queue.ArgumentPage

/-! # Local memory

`ensureEnoughLocalMem` gives back the local memory of a function, raises the mark of the queue and
reserves more, in this order: a call of the kernel that fails leaves it at one of three points.

* **`failed_growth_undone_iff`**: when a failed call has changed nothing.
* **`slmAligned_of_run`**: the mark is a multiple of 32 throughout.
* **`toNat_bytesPerTpc`**: the sizes that follow from the mark, and where they are cut off. -/

namespace LibreCuda

open Exec Runs

/-! ## Failed growth -/

/-- There is a live allocation at the address. -/
def Vm.Live (v : Vm) (va : NvU64) : Prop :=
  ∃ handle, v.vaToMemHandle va = some handle ∧ handle ∈ v.liveHandles

/-- A failed growth stopped in front of giving back, or behind it: then the mark is raised already.
-/
structure Host.GrowthStopped (h : Host) (function : ℕ) (h' : Host) : Prop where
  needs : h.NeedsLocalMem function
  functions : h'.functions = h.functions
  timeline : h'.timeline = h.timeline
  left : (¬ h.vm.Releases (h.functions function).shaderLocalMemoryVa ∧
      h'.queue.currentSlmPerThread = h.queue.currentSlmPerThread ∧ h.vm.SameMemory h'.vm) ∨
    h.vm.Releases (h.functions function).shaderLocalMemoryVa ∧
      h'.queue.currentSlmPerThread = slmPerThread (h.functions function).localMemReq ∧
      h'.vm.vaToMemHandle =
        (h.vm.released (h.functions function).shaderLocalMemoryVa).vaToMemHandle

theorem wp_ensureEnoughLocalMem_stops (function : ℕ) (h : Host) :
    wp (ensureEnoughLocalMem function) (fun _ _ => True)
      (fun _ h' => h.GrowthStopped function h') h := by
  rw [ensureEnoughLocalMem, wp_bind, wp_get, wp_onlyIf]
  simp only [decide_eq_true_eq]
  split
  swap
  · trivial
  rename_i hneeds
  have hfree : wp (freeLocalMem (h.functions function).shaderLocalMemoryVa) (fun _ _ => True)
      (fun _ h' => ∃ v, h.vm.SameMemory v ∧ h' = { h with vm := v }) h := by
    rw [freeLocalMem, wp_onlyIf]
    split
    · rw [wp_onVm]
      exact wp_mono (wp_gpuFree_refused h.vm _) (fun _ _ _ => trivial) (fun _ v hv => ⟨v, hv, rfl⟩)
    · trivial
  rw [wp_bind]
  refine wp_mono (wp_and (wp_freeLocalMem_releases h _) hfree) (fun _ h₁ h₁' => ?_)
    (fun _ h₁ h₁' => ?_)
  · obtain ⟨⟨hreleases, rfl⟩, -⟩ := h₁'
    rw [growLocalMem, wp_bind, wp_modify, wp_bind, wp_onVm]
    refine wp_mono (wp_gpuAlloc _ _ _ _) (fun r v _ => ?_) (fun _ v hv => ?_)
    · -- behind the allocation, nothing fails
      rw [wp_bind, wp_modify, wp_bind, wp_onTimeline, wp_enqueue _ _ _ _ 2 _ (by decide) rfl,
        wp_onTimeline, wp_enqueue _ _ _ _ 3 _ (by decide) rfl]
      trivial
    · exact ⟨hneeds, rfl, rfl, Or.inr ⟨hreleases, rfl, hv.vaToMemHandle⟩⟩
  · obtain ⟨⟨hrefused, -⟩, v, hv, rfl⟩ := h₁'
    exact ⟨hneeds, rfl, rfl, Or.inl ⟨hrefused, rfl, hv⟩⟩

/-- **A failed growth leaves the queue usable**: mark, commands and local memory are as they were,
the local memory is none or alive, and the next launch tries again. -/
structure Host.GrowthUndone (h : Host) (function : ℕ) (h' : Host) : Prop where
  currentSlmPerThread : h'.queue.currentSlmPerThread = h.queue.currentSlmPerThread
  timeline : h'.timeline = h.timeline
  shaderLocalMemoryVa : (h'.functions function).shaderLocalMemoryVa =
    (h.functions function).shaderLocalMemoryVa
  live : (h'.functions function).shaderLocalMemoryVa = 0 ∨
    h'.vm.Live (h'.functions function).shaderLocalMemoryVa
  retries : h'.NeedsLocalMem function

/-- **When it does**: the function has live local memory that the kernel refuses to take back; or it
has none, and rounding up its requirement wraps to the mark as it is. -/
def Host.FailsSafely (h : Host) (function : ℕ) : Prop :=
  if (h.functions function).shaderLocalMemoryVa = 0 then
    slmPerThread (h.functions function).localMemReq = h.queue.currentSlmPerThread
  else h.vm.Live (h.functions function).shaderLocalMemoryVa ∧ (h.vm.reply 0).ret = false

/-- **A failed growth leaves the queue usable, if and only if** it fails safely. -/
theorem failed_growth_undone_iff {h h' : Host} {function : ℕ} {e : Failure}
    (hfail : call (ensureEnoughLocalMem function) h = (.error e, h')) :
    h.GrowthUndone function h' ↔ h.FailsSafely function := by
  have hstops := wp_ensureEnoughLocalMem_stops function h
  rw [wp_of_call_error hfail] at hstops
  obtain ⟨hneeds, hfunctions, htimeline, hleft⟩ := hstops
  have hretries : h'.queue.currentSlmPerThread = h.queue.currentSlmPerThread →
      h'.NeedsLocalMem function := by
    intro hslm
    rw [Host.NeedsLocalMem, hslm, hfunctions]
    exact hneeds
  unfold Host.FailsSafely
  split_ifs with hzero
  · -- there is nothing to give back, so that it was the allocation that failed
    have hreleases : h.vm.Releases (h.functions function).shaderLocalMemoryVa :=
      fun hne => absurd hzero hne
    obtain ⟨-, hslm, -⟩ := hleft.resolve_left fun h => h.1 hreleases
    constructor
    · intro hundone
      rw [← hslm, hundone.currentSlmPerThread]
    · intro hwraps
      refine ⟨hslm.trans hwraps, htimeline, by rw [hfunctions], Or.inl ?_,
        hretries (hslm.trans hwraps)⟩
      rw [hfunctions, hzero]
  · rcases hleft with ⟨hrefused, hslm, hsame⟩ | ⟨hreleases, -, hmap⟩
    · have hlive : h'.vm.Live (h.functions function).shaderLocalMemoryVa ↔
          h.vm.Live (h.functions function).shaderLocalMemoryVa := by
        rw [Vm.Live, Vm.Live, hsame.vaToMemHandle, hsame.liveHandles]
      constructor
      · intro hundone
        have halive := hundone.live
        rw [hfunctions] at halive
        have halive := hlive.mp (halive.resolve_left hzero)
        refine ⟨halive, ?_⟩
        obtain ⟨handle, hhandle, -⟩ := halive
        rw [← Bool.not_eq_true]
        exact fun hret => hrefused fun _ => ⟨⟨handle, hhandle⟩, hret⟩
      · rintro ⟨halive, -⟩
        refine ⟨hslm, htimeline, by rw [hfunctions], Or.inr ?_, hretries hslm⟩
        rw [hfunctions]
        exact hlive.mpr halive
    · -- what was given back is still recorded in the function
      obtain ⟨⟨handle, hhandle⟩, hret⟩ := hreleases hzero
      constructor
      · intro hundone
        have halive := hundone.live
        rw [hfunctions] at halive
        obtain ⟨handle', hhandle', -⟩ := halive.resolve_left hzero
        rw [hmap, Vm.released, if_neg hzero, Vm.freed, hhandle] at hhandle'
        simp at hhandle'
      · rintro ⟨-, hrefuses⟩
        rw [hret] at hrefuses
        cases hrefuses

/-- The sample stream, where a kernel needs local memory and the kernel driver refuses all calls. -/
def refusingStream (shaderLocalMemoryVa : NvU64) : Host :=
  { sampleStream with
    vm := { uvmVaddr := uvmHeapStart, sysReply := fun _ => { ret := false },
            vaToMemHandle := fun _ => some 1, liveHandles := [1] }
    functions := fun _ => { sampleFunction with
      localMemReq := 0x240, shaderLocalMemoryVa := shaderLocalMemoryVa } }

/-- Local memory that cannot be given back is kept. -/
theorem failed_growth_undone_iff_sample :
    (refusingStream 0x1200000000).GrowthUndone 0
        (call (ensureEnoughLocalMem 0) (refusingStream 0x1200000000)).2 ↔
      (refusingStream 0x1200000000).FailsSafely 0 := by
  have hfail : (call (ensureEnoughLocalMem 0) (refusingStream 0x1200000000)).1 =
      .error (.status .unknown) := by decide +kernel
  exact failed_growth_undone_iff (Prod.ext hfail rfl)

/-- **A failed allocation raises the mark**: the next launch of the kernel, which the kernel driver
would grant all it asks for, succeeds without any local memory. -/
theorem failed_allocation_raises_mark :
    (call (ensureEnoughLocalMem 0) (refusingStream 0)).1 = .error (.status .unknown) ∧
      ¬ (refusingStream 0).GrowthUndone 0 (call (ensureEnoughLocalMem 0) (refusingStream 0)).2 ∧
      (call (sampleLaunch true).run
        { (call (ensureEnoughLocalMem 0) (refusingStream 0)).2 with vm := sampleFresh.vm }).1 =
          .ok () ∧
      ((call (sampleLaunch true).run
        { (call (ensureEnoughLocalMem 0) (refusingStream 0)).2 with
          vm := sampleFresh.vm }).2.functions 0).shaderLocalMemoryVa = 0 := by
  refine ⟨by decide +kernel, fun hundone => ?_, by decide +kernel, by decide +kernel⟩
  exact absurd hundone.currentSlmPerThread (by decide +kernel)

/-! ## The mark -/

/-- Rounding up wraps for the 31 largest requirements only. -/
theorem toNat_slmPerThread (localMemReq : NvU32) :
    (slmPerThread localMemReq).toNat = (localMemReq.toNat + 31) % 2 ^ 32 / 32 * 32 := by
  have h32 : (32 : NvU32).toNat = 32 := rfl
  have hsum : (localMemReq + 32 - 1).toNat = (localMemReq.toNat + 31) % 2 ^ 32 := by bv_omega
  have hquotient : (ceilDiv localMemReq 32).toNat = (localMemReq.toNat + 31) % 2 ^ 32 / 32 := by
    rw [ceilDiv, BitVec.toNat_udiv, hsum, h32]
  rw [slmPerThread, toNat_setWidth_64, BitVec.toNat_mul, hquotient, h32, Nat.mod_eq_of_lt]
  omega

/-- A multiple of 32 as the mark is kept by a call. -/
structure Host.KeepsAligned (h h' : Host) : Prop where
  aligned : 32 ∣ h.queue.currentSlmPerThread.toNat → 32 ∣ h'.queue.currentSlmPerThread.toNat

instance : IsPreorder Host Host.KeepsAligned where
  refl _ := ⟨id⟩
  trans _ _ _ h h' := ⟨h'.aligned ∘ h.aligned⟩

instance : KeptByGrowth anyTimeline Host.KeepsAligned where
  setTimeline _ _ _ := ⟨id⟩
  submitted type _ := by cases type <;> exact ⟨id⟩
  setFlags _ _ := ⟨id⟩
  waited _ _ _ := ⟨id⟩
  setArguments _ _ _ := ⟨id⟩
  store _ _ := ⟨id⟩
  setFreeSignals _ _ := ⟨id⟩
  setEvents _ _ := ⟨id⟩
  setOperations _ _ := ⟨id⟩
  setVm _ _ := ⟨id⟩
  setSlm h localMemReq := by
    refine ⟨fun _ => ?_⟩
    show 32 ∣ (slmPerThread localMemReq).toNat
    rw [toNat_slmPerThread]
    exact Nat.dvd_mul_left _ _
  setLocalMem _ _ _ := ⟨id⟩

/-- **The mark is a multiple of 32** behind every sequence of calls, whether they succeed or fail.
-/
theorem slmAligned_of_run {h h' : Host} {calls : List ObservedCall}
    (hstart : h.queue.currentSlmPerThread = 0) (hrun : Runs.exec Host.next h calls = some h') :
    32 ∣ h'.queue.currentSlmPerThread.toNat := by
  have halways : Always Host.next (fun h => 32 ∣ h.queue.currentSlmPerThread.toNat) h calls := by
    refine always_of_step (fun s c s' haligned hs => ?_) (by rw [hstart]; decide)
    obtain rfl := Option.some.inj hs
    have hkept : (s.observe c.2.1 c.2.2).KeepsAligned (s.made c).2 :=
      (keeps_call c.1).of_call rfl
    exact hkept.aligned haligned
  exact halways.exec hrun

/-! ## Sizes -/

section Sizes

variable {slm : NvU64}

/-- The bytes for a warp, cut to 32 bits. -/
theorem toNat_bytesPerWarp (haligned : 32 ∣ slm.toNat) :
    (bytesPerWarp slm).toNat = slm.toNat * 32 % 2 ^ 32 := by
  obtain ⟨k, hk⟩ := haligned
  have hcut : ((slm * 32).setWidth 32 : NvU32).toNat = slm.toNat * 32 % 2 ^ 32 := by
    have h32 : (32 : NvU64).toNat = 32 := rfl
    rw [BitVec.toNat_setWidth, BitVec.toNat_mul, h32]
    omega
  have h512 : (0x200 : NvU32).toNat = 512 := rfl
  -- a multiple of 1024 is rounded to itself
  have hround := toNat_roundUp ((slm * 32).setWidth 32) (0x200 : NvU32) (by decide)
    (by rw [hcut, h512]; omega)
  rw [bytesPerWarp, toNat_setWidth_64]
  refine hround.trans ?_
  rw [hcut, h512]
  omega

theorem toNat_bytesPerTpc (haligned : 32 ∣ slm.toNat) :
    (bytesPerTpc slm).toNat = (slm.toNat * 32 % 2 ^ 32 * 96 + 0x7FFF) / 0x8000 * 0x8000 := by
  have hwarp := toNat_bytesPerWarp haligned
  have hproduct : (bytesPerWarp slm * 48 * 2).toNat = slm.toNat * 32 % 2 ^ 32 * 96 := by
    have h48 : (48 : NvU64).toNat = 48 := rfl
    have h2 : (2 : NvU64).toNat = 2 := rfl
    rw [BitVec.toNat_mul, BitVec.toNat_mul, hwarp, h48, h2]
    omega
  have hbytes : (0x8000 : NvU64).toNat = 0x8000 := rfl
  have hround := toNat_roundUp (bytesPerWarp slm * 48 * 2) (0x8000 : NvU64) (by decide)
    (by rw [hproduct, hbytes]; omega)
  rw [bytesPerTpc]
  refine hround.trans ?_
  rw [hproduct, hbytes]
  omega

/-- **The size for a processor cluster** is not rounded down exactly for marks below `2 ^ 27`. -/
theorem bytesPerTpc_covers_iff (haligned : 32 ∣ slm.toNat) :
    slm.toNat * 32 * 48 * 2 ≤ (bytesPerTpc slm).toNat ↔ slm.toNat < 2 ^ 27 := by
  obtain ⟨k, hk⟩ := id haligned
  rw [toNat_bytesPerTpc haligned]
  constructor
  · intro hcovers
    omega
  · intro hlt
    rw [Nat.mod_eq_of_lt (by omega)]
    omega

/-- What is reserved is never rounded down. -/
theorem le_localMemSize (haligned : 32 ∣ slm.toNat) :
    64 * (bytesPerTpc slm).toNat ≤ (localMemSize slm).toNat := by
  have htpc := toNat_bytesPerTpc haligned
  have hlt : (bytesPerTpc slm).toNat < 2 ^ 40 := by
    rw [htpc]
    omega
  have hproduct : (bytesPerTpc slm * 64).toNat = (bytesPerTpc slm).toNat * 64 := by
    have h64 : (64 : NvU64).toNat = 64 := rfl
    rw [BitVec.toNat_mul, h64]
    omega
  have hbytes : (0x20000 : NvU64).toNat = 0x20000 := rfl
  have hround := toNat_roundUp (bytesPerTpc slm * 64) (0x20000 : NvU64) (by decide)
    (by rw [hproduct, hbytes]; omega)
  have hsize : (localMemSize slm).toNat =
      ((bytesPerTpc slm).toNat * 64 + 0x20000 - 1) / 0x20000 * 0x20000 := by
    rw [← hproduct, ← hbytes]
    exact hround
  rw [hsize]
  omega

end Sizes

/-! ## Growth that succeeds -/

/-- **Enough local memory**: the mark covers what the function needs, and the sizes that follow from
it are not rounded down. Where the mark was raised, these are the sizes announced and asked for. -/
structure Host.LocalMemSized (h : Host) (function : ℕ) (h' : Host) : Prop where
  enough : (h.functions function).localMemReq.toNat ≤ h'.queue.currentSlmPerThread.toNat
  aligned : 32 ∣ h'.queue.currentSlmPerThread.toNat
  tpc : h'.queue.currentSlmPerThread.toNat * 32 * 48 * 2 ≤
    (bytesPerTpc h'.queue.currentSlmPerThread).toNat
  total : 64 * (bytesPerTpc h'.queue.currentSlmPerThread).toNat ≤
    (localMemSize h'.queue.currentSlmPerThread).toNat
  announced : h.NeedsLocalMem function → ∃ va, h'.timeline = h.timeline.pushAll .compute
    (localMemCalls va (bytesPerTpc h'.queue.currentSlmPerThread))
  allocated : h.NeedsLocalMem function →
    h'.vm = (h.vm.released (h.functions function).shaderLocalMemoryVa).allocated
      (localMemSize h'.queue.currentSlmPerThread) true

/-- What a growth announces and asks for. -/
structure Host.Announced (h : Host) (function : ℕ) (h' : Host) : Prop where
  currentSlmPerThread : h'.queue.currentSlmPerThread = slmPerThread (h.functions function).localMemReq
  timeline : ∃ va, h'.timeline = h.timeline.pushAll .compute
    (localMemCalls va (bytesPerTpc h'.queue.currentSlmPerThread))
  vm : h'.vm = (h.vm.released (h.functions function).shaderLocalMemoryVa).allocated
    (localMemSize h'.queue.currentSlmPerThread) true

/-- **A success** leaves the mark alone, or raises it and announces the sizes that follow. -/
theorem wp_ensureEnoughLocalMem_announces (function : ℕ) (h : Host) :
    wp (ensureEnoughLocalMem function)
      (fun _ h' => (h.NeedsLocalMem function → h.Announced function h') ∧
        (¬ h.NeedsLocalMem function → h' = h)) (fun _ _ => True) h := by
  rw [ensureEnoughLocalMem, wp_bind, wp_get, wp_onlyIf]
  simp only [decide_eq_true_eq]
  split
  swap
  · rename_i hnot
    exact ⟨fun hneeds => absurd hneeds hnot, fun _ => trivial⟩
  rename_i hneeds
  rw [wp_bind]
  refine wp_mono (wp_freeLocalMem_releases h _) (fun _ h₁ h₁' => ?_) (fun _ _ _ => trivial)
  obtain ⟨-, rfl⟩ := h₁'
  rw [growLocalMem, wp_bind, wp_modify, wp_bind, wp_onVm]
  refine wp_mono (wp_gpuAlloc_allocates _ _ true) (fun r v hv => ?_) (fun _ _ _ => trivial)
  obtain ⟨-, -, rfl⟩ := hv
  rw [wp_bind, wp_modify, wp_bind, wp_onTimeline, wp_enqueue _ _ _ _ 2 _ (by decide) rfl,
    wp_onTimeline, wp_enqueue _ _ _ _ 3 _ (by decide) rfl]
  exact ⟨fun _ => ⟨rfl, ⟨r.1, pushAll_pushAll ..⟩, rfl⟩, fun hnot => absurd hneeds hnot⟩

/-- **Local memory is sized without rounding down, if and only if** neither the mark nor the
requirement is above the largest mark whose bytes for a warp are not cut off. -/
theorem localMemSized_iff {h h' : Host} {function : ℕ}
    (haligned : 32 ∣ h.queue.currentSlmPerThread.toNat)
    (hcall : call (ensureEnoughLocalMem function) h = (.ok (), h')) :
    h.LocalMemSized function h' ↔ h.queue.currentSlmPerThread.toNat ≤ 2 ^ 27 - 32 ∧
      (h.functions function).localMemReq.toNat ≤ 2 ^ 27 - 32 := by
  have hsuccess := wp_ensureEnoughLocalMem_announces function h
  rw [wp_of_call hcall] at hsuccess
  obtain ⟨hgrows, hstays⟩ := hsuccess
  have hneeds : h.NeedsLocalMem function ↔ h.queue.currentSlmPerThread.toNat <
      (h.functions function).localMemReq.toNat := by
    rw [Host.NeedsLocalMem, BitVec.lt_def, toNat_setWidth_64]
  by_cases hgrow : h.NeedsLocalMem function
  · obtain ⟨hslm, htimeline, hvm⟩ := hgrows hgrow
    have hmark : h'.queue.currentSlmPerThread.toNat =
        ((h.functions function).localMemReq.toNat + 31) % 2 ^ 32 / 32 * 32 := by
      rw [hslm, toNat_slmPerThread]
    have haligned' : 32 ∣ h'.queue.currentSlmPerThread.toNat := by
      rw [hmark]
      exact Nat.dvd_mul_left _ _
    have hlt := hneeds.mp hgrow
    have hreq := (h.functions function).localMemReq.isLt
    constructor
    · intro hsized
      have hbelow := (bytesPerTpc_covers_iff haligned').mp hsized.tpc
      have henough := hsized.enough
      omega
    · rintro ⟨-, hle⟩
      exact ⟨by omega, haligned', (bytesPerTpc_covers_iff haligned').mpr (by omega),
        le_localMemSize haligned', fun _ => htimeline, fun _ => hvm⟩
  · obtain rfl := hstays hgrow
    have hle := fun hlt => hgrow (hneeds.mpr hlt)
    constructor
    · intro hsized
      have hbelow := (bytesPerTpc_covers_iff haligned).mp hsized.tpc
      have henough := hsized.enough
      omega
    · rintro ⟨hmark, -⟩
      exact ⟨Nat.not_lt.mp hle, haligned, (bytesPerTpc_covers_iff haligned).mpr (by omega),
        le_localMemSize haligned, fun hneed => absurd hneed hgrow, fun hneed => absurd hneed hgrow⟩

end LibreCuda
