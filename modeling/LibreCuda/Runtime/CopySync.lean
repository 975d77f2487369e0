import LibreCuda.Runtime.CopyFootprint

/-! # Synchronous copies on the device

`memcpyD2D` lets only the first launch of a synchronous copy synchronise, although it says that the
last one should.

* **`synchronised_iff`**: a synchronous copy ends with a release of its target exactly when it runs
  a single kernel. -/

namespace LibreCuda

open Exec

/-- The stream is synchronised: no release is left out, and the compute buffer ends with the release
of the current target. -/
structure Host.Synchronised (h : Host) : Prop where
  notified : h.timeline.timelineNotifyPending = false
  release : ∃ before, h.timeline.computeCommandBuffer = before ++
    releaseCalls .compute h.timeline.timelineSignal h.timeline.timelineCtr

variable {function : ℕ} {async : Bool} {h h' : Host}

/-- A launch keeps the timeline signal. -/
theorem Host.Launched.timelineSignal (hl : h.Launched function async h') :
    h'.timeline.timelineSignal = h.timeline.timelineSignal := by
  obtain ⟨calls, qmdAddr, -, ht⟩ := hl.timeline
  rw [ht, finish_timelineSignal, pushAll_timelineSignal]
  exact launchBase_timelineSignal h calls async

/-- **A launch synchronises the stream unless it is asynchronous.** -/
theorem Host.Launched.synchronised_iff (hl : h.Launched function async h') :
    h'.Synchronised ↔ async = false := by
  obtain ⟨calls, qmdAddr, -, ht⟩ := hl.timeline
  cases async with
  | true =>
    refine ⟨fun hs => ?_, fun hfalse => by cases hfalse⟩
    have hnotified := hs.notified
    rw [ht] at hnotified
    cases hnotified
  | false =>
    refine ⟨fun _ => rfl, fun _ => ?_⟩
    obtain ⟨t, heq⟩ : ∃ t, t = (h.launchBase calls false).pushAll .compute
      (launchCalls qmdAddr ⟨h.timeline.timelineSteps + 1, false⟩) := ⟨_, rfl⟩
    rw [← heq] at ht
    refine ⟨by rw [ht]; rfl, t.computeCommandBuffer, ?_⟩
    rw [ht]
    rfl

/-- How many kernels a copy runs. -/
theorem length_memcpyKernels (size : NvU64) : (memcpyKernels size).length = 1 ↔
    size.toNat ≤ 2 ^ 20 ∧ size.toNat % 4 = 0 ∨ 2 ^ 20 < size.toNat ∧ size.toNat % 4096 = 0 := by
  have hlow := mem_memcpyKernels size .lowLatency
  have hhigh := mem_memcpyKernels size .highBW
  have htrailing := mem_memcpyKernels size .trailing
  dsimp only at hlow hhigh htrailing
  unfold memcpyKernels at hlow hhigh htrailing ⊢
  split_ifs at hlow hhigh htrailing ⊢ <;> simp at hlow hhigh htrailing ⊢ <;> omega

section Copies

variable {kernels : CopyKernel → Option ℕ} {dst src size : NvU64}

/-- A launch of a copy that succeeds was performed. -/
theorem launched_of_copy {l : CopyLaunch} (hsig : h.timeline.timelineSignal ≠ 0)
    (hc : call (launchFunction (kernels l.kernel) l.grid ⟨256, 1, 1⟩ 0 (argBytes l.args)
      (BitVec.ofNat 64 l.args.length) l.async) h = (.ok (), h')) :
    ∃ f, kernels l.kernel = some f ∧ h.Launched f l.async h' := by
  rcases wp_call hc (wp_launchFunction hsig (kernels l.kernel) l.grid ⟨256, 1, 1⟩ 0
    (argBytes l.args) (BitVec.ofNat 64 l.args.length) l.async) with ⟨_, -, hok⟩ | ⟨_, herr, -⟩
  · exact hok
  · cases herr

/-- The last launch of a copy is asynchronous if it is not the only one. -/
theorem exists_last_launch (dst src size : NvU64) : ∃ before last,
    memcpyLaunches dst src size false = before ++ [last] ∧
      (last.async = false ↔ (memcpyKernels size).length = 1) := by
  obtain hnil | ⟨init, kernel, heq⟩ := List.eq_nil_or_concat (memcpyKernels size)
  · exact absurd hnil (memcpyKernels_ne_nil size)
  · refine ⟨init.mapIdx fun i kernel => copyLaunch dst src size (false || 0 < i) kernel,
      copyLaunch dst src size (false || 0 < init.length) kernel, ?_, ?_⟩
    · rw [memcpyLaunches, heq, List.concat_eq_append, List.mapIdx_concat]
    · have hasync : (copyLaunch dst src size (false || 0 < init.length) kernel).async =
          decide (0 < init.length) := by
        rw [Bool.false_or]
        cases kernel <;> rfl
      rw [hasync, heq, List.length_concat, decide_eq_false_iff_not]
      omega

/-- **A synchronous copy on the device ends synchronised exactly when it runs a single kernel**: up
to 1 MiB for multiples of four, and above for multiples of 4096. -/
theorem memcpyD2D_synchronised_iff (hsig : h.timeline.timelineSignal ≠ 0)
    (hc : call (memcpyD2D kernels dst src size false) h = (.ok (), h')) :
    h'.Synchronised ↔ size.toNat ≤ 2 ^ 20 ∧ size.toNat % 4 = 0 ∨
      2 ^ 20 < size.toNat ∧ size.toNat % 4096 = 0 := by
  obtain ⟨before, last, hlaunches, hlast⟩ := exists_last_launch dst src size
  rw [memcpyD2D, hlaunches, call_forM_concat] at hc
  obtain ⟨⟨⟩, h₁, hbefore, hc⟩ := bind_eq_ok hc
  have hsig₁ : h₁.timeline.timelineSignal ≠ 0 := by
    refine forM_eq_ok (p := fun h => h.timeline.timelineSignal ≠ 0) (fun l _ s t hs hl => ?_) hsig
      hbefore
    obtain ⟨f, -, hlaunched⟩ := launched_of_copy hs hl
    rw [hlaunched.timelineSignal]
    exact hs
  obtain ⟨f, -, hlaunched⟩ := launched_of_copy hsig₁ hc
  rw [hlaunched.synchronised_iff, hlast, length_memcpyKernels]

end Copies

/-- The sample copy of sixteen bytes runs one kernel. -/
theorem memcpyD2D_synchronised_iff_sample :
    (call (memcpyD2D sampleKernels 0x1010000000 0x1020000000 16 false)
      sampleCopyStream).2.Synchronised :=
  (memcpyD2D_synchronised_iff (h := sampleCopyStream) (by decide +kernel)
    (Prod.ext (by decide +kernel) rfl)).mpr (Or.inl (by decide))

/-- **A synchronous copy of seventeen bytes succeeds, and leaves its release out.** -/
theorem copy_leaves_release_out :
    sampleCopyStream.copiesOnDevice 0x1010000000 0x1020000000 = true ∧
      (call (memcpyD2D sampleKernels 0x1010000000 0x1020000000 17 false) sampleCopyStream).1 =
        .ok () ∧
      ¬ (call (memcpyD2D sampleKernels 0x1010000000 0x1020000000 17 false)
        sampleCopyStream).2.Synchronised := by
  refine ⟨by decide +kernel, by decide +kernel, fun hs => ?_⟩
  exact absurd hs.notified (by decide +kernel)

end LibreCuda
