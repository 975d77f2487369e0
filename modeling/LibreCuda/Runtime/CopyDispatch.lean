import LibreCuda.Queue.Acceptance
import LibreCuda.Runtime.CopySync

/-! # Copies that are reported successful

`libreCuMemCpy` does not look at the status of the copy it dispatches to, neither of the kernels of
`memcpyD2D` nor of the transfer of `gpuMemcpy`.

* **`wp_launchAll`**: the launches of a copy are all performed exactly where all are accepted; the
  first one that is not ends the copy.
* **`memcpy_enqueued_iff`**: a copy that is reported successful was enqueued exactly where its
  launches are accepted or, for a transfer, its size is in the limit of the copy engine. -/

namespace LibreCuda

open Exec

/-! ## The launches of a copy -/

/-- The launches were performed, one after the other. -/
def Host.LaunchedAll (kernels : CopyKernel → Option ℕ) : List CopyLaunch → Host → Host → Prop
  | [], h, h' => h' = h
  | l :: launches, h, h' => ∃ f h₁, kernels l.kernel = some f ∧ h.Launched f l.async h₁ ∧
      Host.LaunchedAll kernels launches h₁ h'

/-- The launches are accepted, each with what the ones in front of it leave. -/
def Host.AcceptsAll (kernels : CopyKernel → Option ℕ) : List CopyLaunch → Host → Prop
  | [], _ => True
  | l :: launches, h => ∃ f, kernels l.kernel = some f ∧
      h.AcceptsFunction f l.grid ⟨256, 1, 1⟩ 0 (BitVec.ofNat 64 l.args.length) ∧
      Host.AcceptsAll kernels launches (h.afterLaunch f)

section Launches

variable {kernels : CopyKernel → Option ℕ} {h h' : Host}

/-- It depends on what decides about a launch only. -/
theorem Host.SameResources.acceptsAll_iff (hsame : h.SameResources h') (launches : List CopyLaunch) :
    h'.AcceptsAll kernels launches ↔ h.AcceptsAll kernels launches := by
  induction launches generalizing h h' with
  | nil => exact Iff.rfl
  | cons l launches ih =>
    constructor
    · rintro ⟨f, hf, haccepts, hrest⟩
      exact ⟨f, hf, (hsame.acceptsFunction_iff f _ _ _ _).mp haccepts,
        (ih (hsame.afterLaunch f)).mp hrest⟩
    · rintro ⟨f, hf, haccepts, hrest⟩
      exact ⟨f, hf, (hsame.acceptsFunction_iff f _ _ _ _).mpr haccepts,
        (ih (hsame.afterLaunch f)).mpr hrest⟩

/-- Each launch is one operation of the stream. -/
theorem Host.LaunchedAll.length_operations {launches : List CopyLaunch}
    (hall : h.LaunchedAll kernels launches h') :
    h'.operations.length = h.operations.length + launches.length := by
  induction launches generalizing h with
  | nil =>
    obtain rfl := hall
    rfl
  | cons l launches ih =>
    obtain ⟨f, h₁, -, hlaunched, hrest⟩ := hall
    obtain ⟨c, rest, ptr, -, -, hops⟩ := hlaunched.operation
    rw [ih hrest, hops, List.length_append, List.length_singleton, List.length_cons]
    omega

/-- **The launches of a copy are performed exactly where they are accepted.** If one is not, those
behind it are missing. -/
theorem wp_launchAll (hsig : h.timeline.timelineSignal ≠ 0) (launches : List CopyLaunch) :
    wp (launches.forM fun l => launchFunction (kernels l.kernel) l.grid ⟨256, 1, 1⟩ 0
        (argBytes l.args) (BitVec.ofNat 64 l.args.length) l.async)
      (fun _ h' => h.LaunchedAll kernels launches h' ∧ h.AcceptsAll kernels launches)
      (fun _ h' => h'.operations.length < h.operations.length + launches.length ∧
        ¬ h.AcceptsAll kernels launches) h := by
  induction launches generalizing h with
  | nil => exact (wp_pure ..).mpr ⟨rfl, trivial⟩
  | cons l launches ih =>
    show wp (launchFunction (kernels l.kernel) l.grid ⟨256, 1, 1⟩ 0 (argBytes l.args)
      (BitVec.ofNat 64 l.args.length) l.async >>= fun _ => launches.forM _) _ _ h
    rw [wp_bind]
    cases hf : kernels l.kernel with
    | none =>
      -- a kernel that is missing is the null pointer
      rw [launchFunction, wp_throw]
      refine ⟨by rw [List.length_cons]; omega, ?_⟩
      rintro ⟨f, hf', -⟩
      rw [hf] at hf'
      cases hf'
    | some f =>
      refine wp_mono (wp_and (wp_and (wp_launchFunction hsig (some f) l.grid ⟨256, 1, 1⟩ 0
        (argBytes l.args) (BitVec.ofNat 64 l.args.length) l.async)
        (wp_launchFunction_accepts hsig (some f) l.grid ⟨256, 1, 1⟩ 0 (argBytes l.args)
          (BitVec.ofNat 64 l.args.length) l.async)) (wp_launchFunction_resources hsig f l.grid
            ⟨256, 1, 1⟩ 0 (argBytes l.args) (BitVec.ofNat 64 l.args.length) l.async))
        (fun _ h₁ hok => ?_) (fun _ h₁ herr => ?_)
      · obtain ⟨⟨⟨f', hf', hlaunched⟩, f'', hf'', haccepts⟩, hsame⟩ := hok
        obtain rfl := Option.some.inj hf'
        obtain rfl := Option.some.inj hf''
        have hsig₁ : h₁.timeline.timelineSignal ≠ 0 := by
          rw [hlaunched.timelineSignal]
          exact hsig
        obtain ⟨c, rest, ptr, -, -, hops⟩ := hlaunched.operation
        have hlength : h₁.operations.length = h.operations.length + 1 := by
          rw [hops, List.length_append, List.length_singleton]
        refine wp_mono (ih hsig₁) (fun _ h₂ hall => ?_) (fun _ h₂ hnot => ?_)
        · exact ⟨⟨f, h₁, hf, hlaunched, hall.1⟩, f, hf, haccepts,
            (hsame.acceptsAll_iff launches).mp hall.2⟩
        · refine ⟨by rw [List.length_cons]; omega, ?_⟩
          rintro ⟨f', hf', -, hrest⟩
          obtain rfl := Option.some.inj (hf.symm.trans hf')
          exact hnot.2 ((hsame.acceptsAll_iff launches).mpr hrest)
      · obtain ⟨⟨hfailed, hnot⟩, -⟩ := herr
        refine ⟨by rw [hfailed.operations, List.length_cons]; omega, ?_⟩
        rintro ⟨f', hf', haccepts, -⟩
        obtain rfl := Option.some.inj (hf.symm.trans hf')
        exact hnot ⟨f, rfl, haccepts⟩

end Launches

/-! ## Dispatched copies -/

/-- A call whose status is not looked at succeeds with whatever the call left. -/
theorem wp_ignoreStatus {x : Driver Unit} {ok : Unit → Host → Prop} {err : Failure → Host → Prop}
    {h : Host} (hx : wp x ok (fun _ h' => ok () h') h) (herr : ∀ e h', ok () h' → err e h') :
    wp (ignoreStatus x) ok err h := by
  rw [ignoreStatus, wp_tryCatch]
  refine wp_mono hx (fun _ _ => id) (fun e h' hok => ?_)
  cases e with
  | status s => exact (wp_pure ..).mpr hok
  | exception => exact (wp_throw ..).mpr (herr _ _ hok)
  | crash => exact (wp_throw ..).mpr (herr _ _ hok)

/-- **The commands of the complete copy were appended to the stream**: those of all launches of a
copy on the device, or those of one transfer of all bytes. -/
def Host.CopyEnqueued (kernels : CopyKernel → Option ℕ) (dst src byteCount : NvU64) (async : Bool)
    (h h' : Host) : Prop :=
  if h.copiesOnDevice dst src then
    h.LaunchedAll kernels (memcpyLaunches dst src byteCount async) h'
  else
    h'.timeline = ((h.timeline.select .dma).pushAll .dma
      (copyCalls dst src byteCount ⟨h.timeline.timelineSteps + 1, async⟩)).finish .dma async ∧
    h'.operations = h.operations ++ [⟨h.timeline.timelineSteps + 1, .dma, async, (0, 0)⟩]

/-- **The copy is accepted**: all launches of a copy on the device are, or the size of a transfer is
in the limit of the copy engine. -/
def Host.AcceptsCopy (kernels : CopyKernel → Option ℕ) (dst src byteCount : NvU64) (async : Bool)
    (h : Host) : Prop :=
  if h.copiesOnDevice dst src then
    h.AcceptsAll kernels (memcpyLaunches dst src byteCount async)
  else byteCount.toNat < 2 ^ 32 - 1

section Dispatch

variable {kernels : CopyKernel → Option ℕ} {dst src byteCount : NvU64} {async : Bool} {h h' : Host}

/-- What a copy on the device leaves behind, whatever its status. -/
theorem wp_memcpyD2D_enqueued (hsig : h.timeline.timelineSignal ≠ 0)
    (hdevice : h.copiesOnDevice dst src = true) :
    wp (memcpyD2D kernels dst src byteCount async)
      (fun _ h' => h.CopyEnqueued kernels dst src byteCount async h' ↔
        h.AcceptsCopy kernels dst src byteCount async)
      (fun _ h' => h.CopyEnqueued kernels dst src byteCount async h' ↔
        h.AcceptsCopy kernels dst src byteCount async) h := by
  have hiff : ∀ h', h.CopyEnqueued kernels dst src byteCount async h' ↔
      h.LaunchedAll kernels (memcpyLaunches dst src byteCount async) h' := by
    intro h'
    rw [Host.CopyEnqueued, if_pos hdevice]
  simp only [hiff]
  rw [Host.AcceptsCopy, if_pos hdevice]
  refine wp_mono (wp_launchAll hsig (memcpyLaunches dst src byteCount async))
    (fun _ h' hok => ⟨fun _ => hok.2, fun _ => hok.1⟩) (fun _ h' herr => ?_)
  constructor
  · intro hall
    have hlength := hall.length_operations
    omega
  · intro haccepts
    exact absurd haccepts herr.2

/-- What a transfer leaves behind, whatever its status. -/
theorem wp_gpuMemcpy_enqueued (hsig : h.timeline.timelineSignal ≠ 0)
    (hdevice : ¬ h.copiesOnDevice dst src = true) (hdst : (dst != 0) = true)
    (hsrc : (src != 0) = true) :
    wp (gpuMemcpy dst src byteCount async)
      (fun _ h' => h.CopyEnqueued kernels dst src byteCount async h' ↔
        h.AcceptsCopy kernels dst src byteCount async)
      (fun _ h' => h.CopyEnqueued kernels dst src byteCount async h' ↔
        h.AcceptsCopy kernels dst src byteCount async) h := by
  have hlimit : decide (byteCount < 0xFFFFFFFF) = true ↔ byteCount.toNat < 2 ^ 32 - 1 := by
    rw [decide_eq_true_iff, BitVec.lt_def]
    rfl
  rw [gpuMemcpy, wp_bind, wp_validate, if_pos hdst, wp_bind, wp_validate, if_pos hsrc, wp_bind,
    wp_validate]
  split
  · rename_i hfits
    rw [wp_bind, wp_onTimeline, wp_selectQueueType, wp_performCopy (by simpa using hsig)]
    constructor
    · intro _
      rw [Host.AcceptsCopy, if_neg hdevice]
      exact hlimit.mp hfits
    · intro _
      rw [Host.CopyEnqueued, if_neg hdevice]
      refine ⟨by simp, ?_⟩
      show h.operations ++ [⟨(h.timeline.select .dma).timelineSteps + 1, _, _, _⟩] = _
      rw [select_timelineSteps]
  · rename_i hlarge
    constructor
    · intro henqueued
      rw [Host.CopyEnqueued, if_neg hdevice] at henqueued
      exact absurd henqueued.2 (by simp)
    · intro haccepts
      rw [Host.AcceptsCopy, if_neg hdevice] at haccepts
      exact absurd (hlimit.mpr haccepts) hlarge

/-- **A copy that is reported successful was enqueued exactly where it is accepted.** -/
theorem memcpy_enqueued_iff (hsig : h.timeline.timelineSignal ≠ 0)
    (hc : call (libreCuMemCpy kernels dst src byteCount async) h = (.ok (), h')) :
    h.CopyEnqueued kernels dst src byteCount async h' ↔
      h.AcceptsCopy kernels dst src byteCount async := by
  have hdone : wp (libreCuMemCpy kernels dst src byteCount async)
      (fun _ h' => h.CopyEnqueued kernels dst src byteCount async h' ↔
        h.AcceptsCopy kernels dst src byteCount async) (fun _ _ => True) h := by
    rw [libreCuMemCpy, wp_bind, wp_validate]
    split_ifs with hdst
    · rw [wp_bind, wp_validate]
      split_ifs with hsrc
      · rw [wp_bind, wp_get]
        split_ifs with hdevice
        · exact wp_ignoreStatus (wp_memcpyD2D_enqueued hsig hdevice) fun _ _ _ => trivial
        · exact wp_ignoreStatus (wp_gpuMemcpy_enqueued hsig hdevice hdst hsrc) fun _ _ _ => trivial
  rcases wp_call hc hdone with ⟨_, -, hiff⟩ | ⟨_, herr, -⟩
  · exact hiff
  · cases herr

end Dispatch

/-- A transfer of sixteen bytes is enqueued. -/
theorem memcpy_enqueued_iff_sample :
    sampleCopyStream.CopyEnqueued sampleKernels 0x2000 0x1000 16 false
      (call (libreCuMemCpy sampleKernels 0x2000 0x1000 16 false) sampleCopyStream).2 := by
  refine (memcpy_enqueued_iff (by decide +kernel) (Prod.ext (by decide +kernel) rfl)).mpr ?_
  rw [Host.AcceptsCopy, if_neg (by decide +kernel)]
  decide

/-- **A transfer of 4 GiB - 1 is reported successful, and nothing is enqueued.** -/
theorem memcpy_reported_only :
    (call (libreCuMemCpy sampleKernels 0x2000 0x1000 0xFFFFFFFF false) sampleCopyStream).1 =
        .ok () ∧
      ¬ sampleCopyStream.CopyEnqueued sampleKernels 0x2000 0x1000 0xFFFFFFFF false
        (call (libreCuMemCpy sampleKernels 0x2000 0x1000 0xFFFFFFFF false) sampleCopyStream).2 := by
  refine ⟨by decide +kernel, fun henqueued => ?_⟩
  rw [Host.CopyEnqueued, if_neg (by decide +kernel)] at henqueued
  have hlength := congrArg List.length henqueued.2
  exact absurd hlength (by decide +kernel)

end LibreCuda
