import LibreCuda.Runtime.CopyKernels

/-! # Where the copy kernels work

The grids of a copy and the offsets its threads work at, in numbers.

* **`mem_copies_highBW`**, **`mem_copies_lowLatency`**, **`mem_copies_trailing`** are the copies of
  a thread of each kernel.
* **`memcpy_stays_inside_iff`**: the threads of a copy stay inside the two buffers for sizes below
  256 MiB, and again from 16 TiB on.
* **`memcpy_executable_iff`** says for which arguments every launch has threads, and words are aligned. -/

namespace LibreCuda

open Exec Threads

/-! ## Sizes and grids in numbers -/

section Numbers

variable (dst src size : NvU64) (async : Bool)

theorem useHighBw_iff : useHighBw size = true ↔ 2 ^ 20 < size.toNat := by
  rw [useHighBw, decide_eq_true_eq, BitVec.lt_def]
  exact Iff.rfl

theorem toNat_wholeBlocks : (wholeBlocks size).toNat = 4096 * (size.toNat / 4096) := by
  have h := size.isLt
  have hdiv : (size / memcpyHighbwByteGranularity).toNat = size.toNat / 4096 := BitVec.toNat_udiv
  rw [wholeBlocks, BitVec.toNat_mul, hdiv, show memcpyHighbwByteGranularity.toNat = 4096 from rfl]
  omega

/-- The bytes behind the whole blocks. -/
theorem toNat_sub_wholeBlocks : (size - wholeBlocks size).toNat = size.toNat % 4096 := by
  have hblocks := toNat_wholeBlocks size
  rw [BitVec.toNat_sub_of_le (by rw [BitVec.le_def, hblocks]; omega), hblocks]
  omega

theorem mem_memcpyKernels (kernel : CopyKernel) : kernel ∈ memcpyKernels size ↔
    match kernel with
    | .highBW => 2 ^ 20 < size.toNat
    | .lowLatency => size.toNat ≤ 2 ^ 20 ∨ size.toNat % 4096 ≠ 0
    | .trailing => size.toNat % 4 ≠ 0 := by
  have hbig := useHighBw_iff size
  have hblocks : size % memcpyHighbwByteGranularity ≠ 0 ↔ size.toNat % 4096 ≠ 0 := by
    rw [Ne, ← BitVec.toNat_inj, BitVec.toNat_umod]
    exact Iff.rfl
  have hwords : size % memcpyFinishByteGranularity ≠ 0 ↔ size.toNat % 4 ≠ 0 := by
    rw [Ne, ← BitVec.toNat_inj, BitVec.toNat_umod]
    exact Iff.rfl
  unfold memcpyKernels
  simp only [hblocks, hwords]
  by_cases hhigh : useHighBw size = true
  · have hlt := hbig.mp hhigh
    cases kernel <;> simp [hhigh] <;> omega
  · have hle : size.toNat ≤ 2 ^ 20 := Nat.not_lt.mp (mt hbig.mpr hhigh)
    cases kernel <;> simp [hhigh] <;> omega

/-- The grid of the kernel for whole blocks: a column for each block of 4096 bytes, and a row for
each 65535 of them. -/
theorem toNat_highBWGrid : (highBWLaunch dst src size async).grid.x.toNat = size.toNat / 4096 % 2 ^ 32 ∧
    (highBWLaunch dst src size async).grid.y.toNat =
      (size.toNat / 4096 + 65534) / 65535 % 2 ^ 32 ∧
    (highBWLaunch dst src size async).grid.z.toNat = 1 := by
  have h := size.isLt
  have hdiv : (size / (memcpyThreadCopysize * memcpyBlockSize)).toNat = size.toNat / 4096 :=
    BitVec.toNat_udiv
  have hceil : (ceilDiv (size / (memcpyThreadCopysize * memcpyBlockSize)) maxGridSizeX).toNat =
      (size.toNat / 4096 + 65534) / 65535 := by
    rw [toNat_ceilDiv _ _ (by decide) (by
      rw [hdiv, show maxGridSizeX.toNat = 65535 from rfl]
      omega), hdiv, show maxGridSizeX.toNat = 65535 from rfl]
    rfl
  refine ⟨?_, ?_, rfl⟩
  · show (BitVec.setWidth 32 _).toNat = _
    rw [BitVec.toNat_setWidth, hdiv]
  · show (BitVec.setWidth 32 _).toNat = _
    rw [BitVec.toNat_setWidth, hceil]

/-- Where the kernel for words starts. -/
def wordsStart : ℕ := if 2 ^ 20 < size.toNat then 4096 * (size.toNat / 4096) else 0

theorem toNat_bytesCopied :
    (if useHighBw size then wholeBlocks size else 0).toNat = wordsStart size := by
  unfold wordsStart
  by_cases hhigh : useHighBw size = true
  · rw [if_pos hhigh, if_pos ((useHighBw_iff size).mp hhigh), toNat_wholeBlocks]
  · rw [if_neg hhigh, if_neg (mt (useHighBw_iff size).mpr hhigh)]
    rfl

theorem wordsStart_le : wordsStart size ≤ size.toNat := by
  unfold wordsStart
  split_ifs <;> omega

/-- How many words it copies. -/
theorem toNat_wordsRemaining :
    ((size - if useHighBw size then wholeBlocks size else 0) / 4).toNat =
      (size.toNat - wordsStart size) / 4 := by
  have hstart := toNat_bytesCopied size
  have hle := wordsStart_le size
  rw [BitVec.toNat_udiv, BitVec.toNat_sub_of_le (by rw [BitVec.le_def, hstart]; exact hle), hstart]
  rfl

/-- A grid of one row has a thread for every element, as long as their number fits. -/
theorem toNat_linearGrid {n : NvU64} (hn : n.toNat < 2 ^ 32) :
    (linearGrid (ceilDiv n memcpyBlockSize)).x.toNat = (n.toNat + 255) / 256 ∧
      (linearGrid (ceilDiv n memcpyBlockSize)).y.toNat = 1 ∧
      (linearGrid (ceilDiv n memcpyBlockSize)).z.toNat = 1 := by
  refine ⟨?_, rfl, rfl⟩
  show (BitVec.setWidth 32 _).toNat = _
  rw [BitVec.toNat_setWidth, toNat_ceilDiv _ _ (by decide) (by
    rw [toNat_memcpyBlockSize]
    omega), toNat_memcpyBlockSize]
  omega

end Numbers

/-- The threads of a grid, in numbers. -/
theorem inGrid_iff {t : ThreadId} {grid : Dim3} : t.inGrid grid = true ↔
    t.blockIdx.x.toNat < grid.x.toNat ∧ t.blockIdx.y.toNat < grid.y.toNat ∧
      t.blockIdx.z.toNat < grid.z.toNat ∧ t.threadIdxX.toNat < 256 := by
  rw [ThreadId.inGrid, Bool.and_eq_true, Bool.and_eq_true, Bool.and_eq_true, decide_eq_true_eq,
    decide_eq_true_eq, decide_eq_true_eq, decide_eq_true_eq, BitVec.lt_def, BitVec.lt_def,
    BitVec.lt_def, BitVec.lt_def, and_assoc, and_assoc]
  exact Iff.rfl

/-! ## Copies in numbers -/

section Copies

variable {dst src size : NvU64} {async : Bool} {t : ThreadId} {c : Copy}

/-- **The threads for whole blocks**, in numbers. -/
theorem mem_copies_highBW : c ∈ memcpyCopies dst src size async (.highBW, t) ↔
    2 ^ 20 < size.toNat ∧ t.blockIdx.x.toNat < size.toNat / 4096 % 2 ^ 32 ∧
      t.blockIdx.y.toNat < (size.toNat / 4096 + 65534) / 65535 % 2 ^ 32 ∧
      t.blockIdx.z.toNat = 0 ∧ t.threadIdxX.toNat < 256 ∧
      ∃ i < 4, c = copyAt dst src
        (4096 * ((t.blockIdx.y.toNat * (size.toNat / 4096) + t.blockIdx.x.toNat) % 2 ^ 32) +
          4 * t.threadIdxX.toNat + 1024 * i) 4 := by
  obtain ⟨hx, hy, hz⟩ := toNat_highBWGrid dst src size true
  have hnumber : t.blockNumber (highBWLaunch dst src size true).grid =
      (t.blockIdx.y.toNat * (size.toNat / 4096) + t.blockIdx.x.toNat) % 2 ^ 32 := by
    rw [ThreadId.blockNumber, BitVec.toNat_add, BitVec.toNat_mul, hx,
      Nat.mul_mod_mod, Nat.mod_add_mod]
  rw [mem_memcpyCopies, mem_memcpyKernels]
  show 2 ^ 20 < size.toNat ∧ c ∈ (highBWLaunch dst src size true).thread t ↔ _
  rw [mem_thread_highBW, inGrid_iff, hx, hy, hz, hnumber, Nat.lt_one_iff, and_assoc, and_assoc,
    and_assoc]

/-- **The threads for words**, in numbers: all of them are in the grid. -/
theorem mem_copies_lowLatency : c ∈ memcpyCopies dst src size async (.lowLatency, t) ↔
    (size.toNat ≤ 2 ^ 20 ∨ size.toNat % 4096 ≠ 0) ∧ t.blockIdx.y.toNat = 0 ∧
      t.blockIdx.z.toNat = 0 ∧ t.threadIdxX.toNat < 256 ∧
      t.number < (size.toNat - wordsStart size) / 4 ∧
      c = copyAt dst src (wordsStart size + 4 * t.number) 4 := by
  have hwords := toNat_wordsRemaining size
  have hfew : (size.toNat - wordsStart size) / 4 < 2 ^ 32 := by
    unfold wordsStart
    split_ifs <;> omega
  obtain ⟨hx, hy, hz⟩ := toNat_linearGrid (hwords.trans_lt hfew)
  rw [mem_memcpyCopies, mem_memcpyKernels]
  show _ ∧ c ∈ (lowLatencyLaunch dst src size true).thread t ↔ _
  rw [mem_thread_lowLatency, inGrid_iff, toNat_bytesCopied, hwords]
  show _ ∧ (t.blockIdx.x.toNat < (linearGrid _).x.toNat ∧
    t.blockIdx.y.toNat < (linearGrid _).y.toNat ∧ t.blockIdx.z.toNat < (linearGrid _).z.toNat ∧ _) ∧
    _ ∧ _ ↔ _
  rw [hx, hy, hz, hwords, Nat.lt_one_iff, Nat.lt_one_iff]
  constructor
  · rintro ⟨hkernel, ⟨-, hy0, hz0, htx⟩, hn, rfl⟩
    exact ⟨hkernel, hy0, hz0, htx, hn, rfl⟩
  · rintro ⟨hkernel, hy0, hz0, htx, hn, rfl⟩
    refine ⟨hkernel, ⟨?_, hy0, hz0, htx⟩, hn, rfl⟩
    rw [ThreadId.number] at hn
    omega

/-- **The threads for bytes**, in numbers. -/
theorem mem_copies_trailing : c ∈ memcpyCopies dst src size async (.trailing, t) ↔
    size.toNat % 4 ≠ 0 ∧ t.blockIdx.y.toNat = 0 ∧ t.blockIdx.z.toNat = 0 ∧
      t.threadIdxX.toNat < 256 ∧ t.number < size.toNat % 4096 ∧
      c = copyAt dst src (4096 * (size.toNat / 4096) + t.number) 1 := by
  have hbytes := toNat_sub_wholeBlocks size
  obtain ⟨hx, hy, hz⟩ := toNat_linearGrid (n := size - wholeBlocks size) (by omega)
  rw [mem_memcpyCopies, mem_memcpyKernels]
  show _ ∧ c ∈ (trailingLaunch dst src size true).thread t ↔ _
  rw [mem_thread_trailing, inGrid_iff, hbytes, toNat_wholeBlocks]
  show _ ∧ (t.blockIdx.x.toNat < (linearGrid _).x.toNat ∧
    t.blockIdx.y.toNat < (linearGrid _).y.toNat ∧ t.blockIdx.z.toNat < (linearGrid _).z.toNat ∧ _) ∧
    _ ∧ _ ↔ _
  rw [hx, hy, hz, hbytes, Nat.lt_one_iff, Nat.lt_one_iff]
  constructor
  · rintro ⟨hkernel, ⟨-, hy0, hz0, htx⟩, hn, rfl⟩
    exact ⟨hkernel, hy0, hz0, htx, hn, rfl⟩
  · rintro ⟨hkernel, hy0, hz0, htx, hn, rfl⟩
    refine ⟨hkernel, ⟨?_, hy0, hz0, htx⟩, hn, rfl⟩
    rw [ThreadId.number] at hn
    omega

end Copies

/-! ## Inside the buffers -/

/-- The threads of a copy touch no byte outside of destination and source. -/
def StaysInside (dst src size : NvU64) (async : Bool) : Prop :=
  ∀ i, ∀ c ∈ memcpyCopies dst src size async i, ∀ j < c.bytes,
    (c.dstAt j - dst).toNat < size.toNat ∧ (c.srcAt j - src).toNat < size.toNat

/-- How far behind the start of the buffers a byte is. -/
theorem toNat_copyAt_sub (dst src : NvU64) {o j : ℕ} (bytes : ℕ) (h : o + j < 2 ^ 64) :
    ((copyAt dst src o bytes).dstAt j - dst).toNat = o + j ∧
      ((copyAt dst src o bytes).srcAt j - src).toNat = o + j := by
  rw [dstAt_copyAt, srcAt_copyAt, BitVec.add_comm dst, BitVec.add_comm src, BitVec.add_sub_cancel,
    BitVec.add_sub_cancel, BitVec.toNat_ofNat, Nat.mod_eq_of_lt h]
  exact ⟨rfl, rfl⟩

/-- The copies of a thread are at an offset; the kernel for whole blocks works at offsets below
16 TiB, and the others stay inside the buffers. -/
theorem exists_copyAt {dst src size : NvU64} {async : Bool} {i : CopyKernel × ThreadId} {c : Copy}
    (hc : c ∈ memcpyCopies dst src size async i) : ∃ o bytes, c = copyAt dst src o bytes ∧
      bytes ≤ 4 ∧ (o + bytes ≤ size.toNat ∨
        o + bytes ≤ 2 ^ 44 ∧ (size.toNat / 4096 < 65536 → o + bytes ≤ size.toNat)) := by
  obtain ⟨kernel, t⟩ := i
  cases kernel with
  | highBW =>
    obtain ⟨hbig, hx, hy, -, htx, i, hi, rfl⟩ := mem_copies_highBW.mp hc
    refine ⟨_, _, rfl, le_rfl, Or.inr ⟨?_, fun hfew => ?_⟩⟩
    · have hn := Nat.mod_lt (t.blockIdx.y.toNat * (size.toNat / 4096) + t.blockIdx.x.toNat)
        (show 0 < 2 ^ 32 by omega)
      omega
    · -- all blocks are in the first row
      have hy0 : t.blockIdx.y.toNat = 0 := by omega
      rw [hy0, Nat.zero_mul, Nat.zero_add, Nat.mod_eq_of_lt t.blockIdx.x.isLt]
      omega
  | lowLatency =>
    obtain ⟨-, -, -, -, hn, rfl⟩ := mem_copies_lowLatency.mp hc
    have hle := wordsStart_le size
    exact ⟨_, _, rfl, le_rfl, Or.inl (by omega)⟩
  | trailing =>
    obtain ⟨-, -, -, -, hn, rfl⟩ := mem_copies_trailing.mp hc
    exact ⟨_, _, rfl, by omega, Or.inl (by omega)⟩

/-- The last thread of the second row of blocks. -/
def overrunThread : ThreadId := ⟨⟨0, 1, 0⟩, 255⟩

/-- With a second row of blocks, its threads work behind the whole blocks. -/
theorem overrun_mem {size : NvU64} (dst src : NvU64) (async : Bool) (hrow : 2 ^ 28 ≤ size.toNat)
    (hblocks : size.toNat < 2 ^ 44) :
    copyAt dst src (4096 * (size.toNat / 4096) + 4092) 4 ∈
      memcpyCopies dst src size async (.highBW, overrunThread) := by
  rw [mem_copies_highBW]
  show 2 ^ 20 < size.toNat ∧ 0 < size.toNat / 4096 % 2 ^ 32 ∧
    1 < (size.toNat / 4096 + 65534) / 65535 % 2 ^ 32 ∧ 0 = 0 ∧ 255 < 256 ∧
    ∃ i < 4, _ = copyAt dst src
      (4096 * ((1 * (size.toNat / 4096) + 0) % 2 ^ 32) + 4 * 255 + 1024 * i) 4
  refine ⟨by omega, by omega, by omega, rfl, by omega, 3, by omega, ?_⟩
  congr 1
  omega

/-- **A copy stays inside its buffers exactly for sizes below 256 MiB or from 16 TiB on.** In
between there is a second row of blocks, and its threads go on where the first row ends. From 16 TiB
on the number of a block is cut off before it reaches the end of the buffers. The threads are those of
all launches that the copy asks for, also of those that are refused for their grids, as for sizes near
8 TiB. -/
theorem memcpy_stays_inside_iff (dst src size : NvU64) (async : Bool) :
    StaysInside dst src size async ↔ size.toNat < 2 ^ 28 ∨ 2 ^ 44 ≤ size.toNat := by
  have hsize := size.isLt
  constructor
  · intro h
    by_contra hbetween
    have hmem := overrun_mem dst src async (Nat.not_lt.mp fun hlt => hbetween (Or.inl hlt))
      (Nat.not_le.mp fun hle => hbetween (Or.inr hle))
    obtain ⟨hinside, -⟩ := h _ _ hmem 3 (show 3 < 4 by omega)
    rw [(toNat_copyAt_sub dst src _ (by omega)).1] at hinside
    omega
  · intro hsmall i c hc j hj
    obtain ⟨o, bytes, rfl, hfour, hin⟩ := exists_copyAt hc
    have hend : o + bytes ≤ size.toNat := by
      rcases hin with hin | ⟨hin, hfew⟩
      · exact hin
      · rcases hsmall with hsmall | hbig
        · exact hfew (by omega)
        · omega
    have hj' : j < bytes := hj
    obtain ⟨hd, hs⟩ := toNat_copyAt_sub dst src bytes (show o + j < 2 ^ 64 by omega)
    rw [hd, hs]
    omega

/-- **A copy of 256 MiB between adjacent buffers overruns both**: all launches succeed. -/
theorem memcpy_overruns :
    sampleCopyStream.copiesOnDevice 0x1010000000 0x1020000000 = true ∧
      (call (memcpyD2D sampleKernels 0x1010000000 0x1020000000 0x10000000 false)
        sampleCopyStream).1 = .ok () ∧
      ¬ StaysInside 0x1010000000 0x1020000000 0x10000000 false := by
  refine ⟨by decide +kernel, by decide +kernel, fun hinside => ?_⟩
  have hmem := overrun_mem 0x1010000000 0x1020000000 false
    (show 2 ^ 28 ≤ (0x10000000 : NvU64).toNat by decide) (by decide)
  obtain ⟨hd, -⟩ := hinside _ _ hmem 3 (show 3 < 4 by omega)
  rw [(toNat_copyAt_sub _ _ _ (by decide)).1] at hd
  exact absurd hd (by decide)

/-! ## Executable launches -/

end LibreCuda
