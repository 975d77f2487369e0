import LibreCuda.Queue.Acceptance
import LibreCuda.Queue.Session

/-! # Launch limits

What the checks on the launch dimensions refuse, compared with the limits they name: dimensions of a
block and of a grid, and the threads of a block.

* **`ExceedsLimits`**: a dimension, or the number of threads, is above its limit.
* **`wp_checkLaunchDimensions_refuses`**: what the checks refuse.
* **`launch_limits_exact_iff`**: when the two are the same. -/

namespace LibreCuda

open Exec

/-! ## The limits -/

/-- The threads of a block. -/
def Dim3.threads (block : Dim3) : ℕ := block.x.toNat * block.y.toNat * block.z.toNat

/-- A dimension is above its limit. -/
def OverLimit (grid block : Dim3) : Prop :=
  1024 < block.x ∨ 1024 < block.y ∨ 64 < block.z ∨ 2147483647 < grid.x ∨ 65535 < grid.y ∨
    65535 < grid.z

/-- A dimension is equal to its limit. -/
def AtLimit (grid block : Dim3) : Prop :=
  block.x = 1024 ∨ block.y = 1024 ∨ block.z = 64 ∨ grid.x = 2147483647 ∨ grid.y = 65535 ∨
    grid.z = 65535

/-- A block has more than 1024 threads, or more than fit in the register file. -/
def TooManyThreads (f : LibreCUFunction) (block : Dim3) : Prop :=
  1024 < block.threads ∨ ∃ m ∈ maxThreads f.numRegisters, m.toNat < block.threads

/-- **One of the limits is exceeded.** -/
def ExceedsLimits (f : LibreCUFunction) (grid block : Dim3) : Prop :=
  OverLimit grid block ∨ TooManyThreads f block

instance (grid block : Dim3) : Decidable (OverLimit grid block) :=
  inferInstanceAs (Decidable (_ ∨ _))

instance (grid block : Dim3) : Decidable (AtLimit grid block) :=
  inferInstanceAs (Decidable (_ ∨ _))

instance (f : LibreCUFunction) (block : Dim3) : Decidable (TooManyThreads f block) :=
  inferInstanceAs (Decidable (_ ∨ _))

/-- Functions with at most 255 registers per thread have a limit. -/
theorem exists_maxThreads {numRegisters : NvU32} (h : numRegisters ≤ 255) :
    ∃ m, maxThreads numRegisters = some m := by
  have hall : ∀ k < 256, (maxThreads (BitVec.ofNat 32 k)).isSome = true := by decide +kernel
  have hsome := hall numRegisters.toNat (Nat.lt_succ_of_le h)
  rw [BitVec.ofNat_toNat, BitVec.setWidth_eq] at hsome
  exact Option.isSome_iff_exists.mp hsome

/-! ## The checks -/

section Checks

variable {f : LibreCUFunction} {grid block : Dim3} {sharedMemBytes m : NvU32}

/-- What the checks refuse: too many threads, as a product of words, where the function has more
shared memory of its own than is asked for; or a dimension that reaches its limit. -/
def Refused (f : LibreCUFunction) (grid block : Dim3) (sharedMemBytes m : NvU32) : Prop :=
  (sharedMemBytes < shmemUsage f sharedMemBytes ∧
    (1024 < block.x * block.y * block.z ∨ m < block.x * block.y * block.z)) ∨
  ¬ (block.x < 1024 ∧ block.y < 1024 ∧ block.z < 64 ∧ grid.x < 2147483647 ∧ grid.y < 65535 ∧
    grid.z < 65535)

/-- **The checks on the dimensions** fail exactly for what they refuse. -/
theorem wp_checkLaunchDimensions_refuses (hm : maxThreads f.numRegisters = some m)
    (grid block : Dim3) (sharedMemBytes : NvU32) (h : Host) :
    wp (checkLaunchDimensions f grid block sharedMemBytes)
      (fun _ h' => ¬ Refused f grid block sharedMemBytes m ∧ h' = h)
      (fun e h' => e = .status .launchOutOfResources ∧ Refused f grid block sharedMemBytes m ∧
        h' = h) h := by
  unfold checkLaunchDimensions Refused
  rw [hm]
  simp only [wp_bind, wp_onlyIf, wp_throw, wp_validate, Bool.and_eq_true, Bool.or_eq_true,
    decide_eq_true_eq]
  split_ifs with hbad hx hy hz hgx hgy hgz
  · exact ⟨trivial, Or.inl hbad, trivial⟩
  · exact ⟨fun hrefused => hrefused.elim hbad fun hnot => hnot ⟨hx, hy, hz, hgx, hgy, hgz⟩, trivial⟩
  · exact ⟨trivial, Or.inr fun hall => hgz hall.2.2.2.2.2, trivial⟩
  · exact ⟨trivial, Or.inr fun hall => hgy hall.2.2.2.2.1, trivial⟩
  · exact ⟨trivial, Or.inr fun hall => hgx hall.2.2.2.1, trivial⟩
  · exact ⟨trivial, Or.inr fun hall => hz hall.2.2.1, trivial⟩
  · exact ⟨trivial, Or.inr fun hall => hy hall.2.1, trivial⟩
  · exact ⟨trivial, Or.inr fun hall => hx hall.1, trivial⟩

/-- A dimension reaches its limit if it is at it or above it. -/
theorem reaches_iff (grid block : Dim3) :
    ¬ (block.x < 1024 ∧ block.y < 1024 ∧ block.z < 64 ∧ grid.x < 2147483647 ∧ grid.y < 65535 ∧
      grid.z < 65535) ↔ OverLimit grid block ∨ AtLimit grid block := by
  unfold OverLimit AtLimit
  bv_omega

/-- Below the limits of the dimensions the product does not wrap. -/
theorem toNat_threads (h : ¬ (OverLimit grid block ∨ AtLimit grid block)) :
    (block.x * block.y * block.z).toNat = block.threads := by
  rw [← reaches_iff, not_not] at h
  obtain ⟨hx, hy, hz, -⟩ := h
  have hx : block.x.toNat < 1024 := hx
  have hy : block.y.toNat < 1024 := hy
  have hz : block.z.toNat < 64 := hz
  have hxy : block.x.toNat * block.y.toNat ≤ 1024 * 1024 := Nat.mul_le_mul hx.le hy.le
  have hxyz : block.x.toNat * block.y.toNat * block.z.toNat ≤ 1024 * 1024 * 64 :=
    Nat.mul_le_mul hxy hz.le
  rw [BitVec.toNat_mul, BitVec.toNat_mul, Dim3.threads,
    Nat.mod_eq_of_lt (Nat.lt_of_le_of_lt hxy (by decide)),
    Nat.mod_eq_of_lt (Nat.lt_of_le_of_lt hxyz (by decide))]

theorem shmemUsage_gt_iff (f : LibreCUFunction) (sharedMemBytes : NvU32) :
    sharedMemBytes < shmemUsage f sharedMemBytes ↔ sharedMemBytes < f.sharedMem := by
  unfold shmemUsage maxOf
  split_ifs with hlt
  · exact Iff.rfl
  · exact ⟨fun h => absurd h (BitVec.lt_irrefl _), fun h => absurd h hlt⟩

/-- **What the checks refuse**, over the numbers. -/
theorem refused_iff (hm : maxThreads f.numRegisters = some m) :
    Refused f grid block sharedMemBytes m ↔ OverLimit grid block ∨ AtLimit grid block ∨
      sharedMemBytes < f.sharedMem ∧ TooManyThreads f block := by
  rw [Refused, reaches_iff, shmemUsage_gt_iff, ← or_assoc (a := OverLimit grid block)]
  by_cases hreaches : OverLimit grid block ∨ AtLimit grid block
  · exact ⟨fun _ => Or.inl hreaches, fun _ => Or.inr hreaches⟩
  · have hproduct := toNat_threads hreaches
    have hmany : TooManyThreads f block ↔
        1024 < block.x * block.y * block.z ∨ m < block.x * block.y * block.z := by
      have h1024 : (1024 : NvU32).toNat = 1024 := rfl
      rw [TooManyThreads, BitVec.lt_def, BitVec.lt_def, hproduct, hm, h1024]
      simp
    rw [hmany, or_iff_left hreaches, or_iff_right hreaches]

end Checks

/-! ## Launches -/

/-- The part of `performLaunch` behind the checks on the dimensions. -/
def finishLaunch (f : LibreCUFunction) (grid block : Dim3) (sharedMemBytes : NvU32) (ptr : NvU64)
    (async : Bool) : Driver Unit := do
  checkConstantBanks f
  enqueueLaunch f grid block sharedMemBytes ptr async
  modify fun h => h.addOperation .compute async
    (ptr, kernargsSize (f.constants.headD ⟨0, 0, 0⟩).size)
  onTimeline (finishOperation .compute async)

theorem performLaunch_eq (f : LibreCUFunction) (grid block : Dim3) (sharedMemBytes : NvU32)
    (params : ℕ → ℕ → NvU8) (numParams : NvU64) (async : Bool) :
    performLaunch f grid block sharedMemBytes params numParams async =
      writeKernArgs f grid block params numParams >>= fun ptr =>
        checkLaunchDimensions f grid block sharedMemBytes >>= fun _ =>
          finishLaunch f grid block sharedMemBytes ptr async := rfl

/-- Behind the checks, a launch does not fail for want of resources. -/
theorem wp_finishLaunch (f : LibreCUFunction) (grid block : Dim3) (sharedMemBytes : NvU32)
    (ptr : NvU64) (async : Bool) (h : Host) :
    wp (finishLaunch f grid block sharedMemBytes ptr async)
      (fun _ _ => True) (fun e _ => e ≠ .status .launchOutOfResources) h := by
  rw [finishLaunch, wp_bind, checkConstantBanks, wp_require]
  split
  swap
  · intro heq
    cases heq
  rw [wp_bind]
  refine wp_mono (wp_enqueueLaunch f grid block sharedMemBytes ptr async h) (fun _ h₁ _ => ?_)
    (fun _ _ => False.elim)
  rw [wp_bind, wp_modify, wp_onTimeline]
  by_cases hsig : (h₁.addOperation .compute async
      (ptr, kernargsSize (f.constants.headD ⟨0, 0, 0⟩).size)).timeline.timelineSignal = 0
  · -- without a signal, a synchronous launch fails at its release
    rw [finishOperation, wp_bind, wp_modify, wp_bind, wp_get]
    split
    · rw [wp_bind, signalNotify, wp_bind, wp_validate, if_neg (by simpa using hsig)]
      intro heq
      cases heq
    · rw [wp_modify]
      trivial
  · rw [wp_finishOperation _ _ _ _ hsig]
    trivial

/-- **The checks agree with the limits** where a dimension is above its limit; where one is at its
limit, and the block has too many threads anyway; and elsewhere, if such a block comes with less
dynamic shared memory than the function has of its own. -/
def LimitsAgree (f : LibreCUFunction) (grid block : Dim3) (sharedMemBytes : NvU32) : Prop :=
  OverLimit grid block ∨ AtLimit grid block ∧ TooManyThreads f block ∨
    ¬ AtLimit grid block ∧ (TooManyThreads f block → sharedMemBytes < f.sharedMem)

instance (f : LibreCUFunction) (grid block : Dim3) (sharedMemBytes : NvU32) :
    Decidable (LimitsAgree f grid block sharedMemBytes) := inferInstanceAs (Decidable (_ ∨ _))

/-- **The limits are enforced exactly, if and only if** the checks agree with them: a launch that
passes all that is validated before is refused for want of resources exactly when it exceeds a
limit. -/
theorem launch_limits_exact_iff {h h₁ h₂ : Host} {function : ℕ} {grid block : Dim3}
    {sharedMemBytes : NvU32} {params : ℕ → ℕ → NvU8} {numParams ptr : NvU64} {async : Bool}
    (hcount : numParams.toNat = (h.functions function).paramInfo.length)
    (hprepare : call (prepareLaunch function async) h = (.ok (), h₁))
    (hargs : call (writeKernArgs (h.functions function) grid block params numParams) h₁ =
      (.ok ptr, h₂))
    (hregisters : (h.functions function).numRegisters ≤ 255) :
    ((call (launchFunction (some function) grid block sharedMemBytes params numParams async) h).1 =
        .error (.status .launchOutOfResources) ↔
      ExceedsLimits (h.functions function) grid block) ↔
    LimitsAgree (h.functions function) grid block sharedMemBytes := by
  obtain ⟨m, hm⟩ := exists_maxThreads hregisters
  have hcall : call (launchFunction (some function) grid block sharedMemBytes params numParams async)
      h = call (checkLaunchDimensions (h.functions function) grid block sharedMemBytes >>= fun _ =>
        finishLaunch (h.functions function) grid block sharedMemBytes ptr async) h₂ := by
    have hvalid : call (validate (numParams.toNat == (h.functions function).paramInfo.length)
        .invalidValue : Driver Unit) h = (.ok (), h) := by
      rw [hcount, beq_self_eq_true]
      rfl
    rw [launchFunction, call_bind_ok (call_get h), call_bind_ok hvalid, call_bind_ok hprepare,
      performLaunch_eq, call_bind_ok hargs]
  have hrefused : (call (launchFunction (some function) grid block sharedMemBytes params numParams
      async) h).1 = .error (.status .launchOutOfResources) ↔
        Refused (h.functions function) grid block sharedMemBytes m := by
    rw [hcall]
    rcases hcheck : call (checkLaunchDimensions (h.functions function) grid block sharedMemBytes)
      h₂ with ⟨r, h₃⟩
    rcases wp_call hcheck (wp_checkLaunchDimensions_refuses hm grid block sharedMemBytes h₂) with
      ⟨_, rfl, hnot, rfl⟩ | ⟨_, rfl, rfl, hrefused, -⟩
    · rw [call_bind_ok hcheck]
      refine ⟨fun herr => ?_, fun hrefused => absurd hrefused hnot⟩
      rcases hfinish : call (finishLaunch (h.functions function) grid block sharedMemBytes ptr async)
        h₃ with ⟨r, h₄⟩
      rw [hfinish] at herr
      obtain rfl : r = .error (.status .launchOutOfResources) := herr
      rcases wp_call hfinish (wp_finishLaunch (h.functions function) grid block sharedMemBytes ptr
        async h₃) with ⟨_, hok, -⟩ | ⟨_, hfailed, hne⟩
      · cases hok
      · exact absurd (Except.error.inj hfailed).symm hne
    · rw [call_bind_error hcheck]
      exact ⟨fun _ => hrefused, fun _ => rfl⟩
  rw [hrefused, refused_iff hm, ExceedsLimits, LimitsAgree]
  tauto

/-- Launch the kernel of the sample session in one block of the given shape. -/
def launchBlock (block : Dim3) : Except Failure Unit × Host :=
  call (launchFunction (some 0) ⟨1, 1, 1⟩ block 0 (fun _ _ => 0) 0 true) sampleStream

/-- A block of 512 threads does not exceed the limits, and is launched. -/
theorem launch_limits_exact_iff_sample :
    ((launchBlock ⟨512, 1, 1⟩).1 = .error (.status .launchOutOfResources) ↔
        ExceedsLimits sampleFunction ⟨1, 1, 1⟩ ⟨512, 1, 1⟩) ↔
      LimitsAgree sampleFunction ⟨1, 1, 1⟩ ⟨512, 1, 1⟩ 0 := by
  have hfunction : sampleStream.functions 0 = sampleFunction := by rfl
  have hprepare : (call (prepareLaunch 0 true) sampleStream).1 = .ok () := by decide +kernel
  have hargs : (call (writeKernArgs (sampleStream.functions 0) ⟨1, 1, 1⟩ ⟨512, 1, 1⟩ (fun _ _ => 0)
      0) (call (prepareLaunch 0 true) sampleStream).2).1 =
        .ok sampleStream.queue.kernArgsPageVa := by decide +kernel
  rw [← hfunction]
  exact @launch_limits_exact_iff sampleStream _ _ 0 ⟨1, 1, 1⟩ ⟨512, 1, 1⟩ 0 (fun _ _ => 0) 0 _ true
    (by decide +kernel) (Prod.ext hprepare rfl) (Prod.ext hargs rfl) (by decide +kernel)

/-- **A block of 1024 threads in a row is refused**, although no limit is exceeded; one of 64 by 32
threads is launched, although it has too many. -/
theorem largest_block_refused :
    (launchBlock ⟨1024, 1, 1⟩).1 = .error (.status .launchOutOfResources) ∧
      ¬ ExceedsLimits sampleFunction ⟨1, 1, 1⟩ ⟨1024, 1, 1⟩ ∧
      (launchBlock ⟨64, 32, 1⟩).1 = .ok () ∧
      ExceedsLimits sampleFunction ⟨1, 1, 1⟩ ⟨64, 32, 1⟩ := by
  refine ⟨by decide +kernel, ?_, by decide +kernel, Or.inr (Or.inl (by decide))⟩
  rintro (hover | hmany | ⟨m, hm, hfewer⟩)
  · revert hover
    decide
  · revert hmany
    decide
  · have hlimit : maxThreads sampleFunction.numRegisters = some 4096 := by decide +kernel
    rw [hlimit, Option.mem_some_iff] at hm
    subst hm
    exact absurd hfewer (by decide)

end LibreCuda
