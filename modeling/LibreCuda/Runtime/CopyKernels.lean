import LibreCuda.Foundation.Threads
import LibreCuda.Runtime.Memcpy

/-! # The copy kernels

The kernels of `memcpy.cu`, thread by thread, as the copies of elements they make, and the threads
of a launch.

* **`CopyLaunch.thread`** are the copies of one thread of a launch.
* **`memcpyCopies`** is the family of threads of all launches of `memcpyD2D`.
* **`mem_thread_highBW`**, **`mem_thread_lowLatency`**, **`mem_thread_trailing`** say at which
  offsets of destination and source the threads of a kernel work. -/

namespace LibreCuda

open Threads

/-! ## The kernels -/

/-- `dst[i] = src[i]` for words (`uint32_t`). -/
def copyWord (dst src i : NvU64) : Copy := ⟨dst + 4 * i, src + 4 * i, 4⟩

/-- `dst[i] = src[i]` for bytes (`uint8_t`). -/
def copyByte (dst src i : NvU64) : Copy := ⟨dst + i, src + i, 1⟩

/-- `memcpyKernelHighBW`: four words a thread. The number of the block is computed in 32 bits. -/
def memcpyKernelHighBW (dst src : NvU64) (gridDimX blockIdxX blockIdxY threadIdxX : NvU32) :
    List Copy :=
  let idx := ((memcpyBlockSize * (blockIdxY * gridDimX + blockIdxX).setWidth 64) <<< 2) +
    threadIdxX.setWidth 64
  (List.range 4).map fun i => copyWord dst src (idx + BitVec.ofNat 64 i * memcpyBlockSize)

/-- `memcpyKernelLowLatency`: a word a thread. -/
def memcpyKernelLowLatency (dst src n : NvU64) (blockIdxX threadIdxX : NvU32) : List Copy :=
  let tid := memcpyBlockSize * blockIdxX.setWidth 64 + threadIdxX.setWidth 64
  if tid < n then [copyWord dst src tid] else []

/-- `memcpyKernelTrailing`: a byte a thread. -/
def memcpyKernelTrailing (dst src n : NvU64) (blockIdxX threadIdxX : NvU32) : List Copy :=
  let tid := memcpyBlockSize * blockIdxX.setWidth 64 + threadIdxX.setWidth 64
  if tid < n then [copyByte dst src tid] else []

/-! ## The threads of a launch -/

/-- A thread of a grid whose blocks are lines. -/
structure ThreadId where
  blockIdx : Dim3
  threadIdxX : NvU32
  deriving DecidableEq, Repr

/-- The threads of a grid with blocks of `MEMCPY_BLOCK_SIZE` threads. -/
def ThreadId.inGrid (t : ThreadId) (grid : Dim3) : Bool :=
  t.blockIdx.x < grid.x && t.blockIdx.y < grid.y && t.blockIdx.z < grid.z && t.threadIdxX < 256

/-- The copies of one thread of a launch. -/
def CopyLaunch.thread (l : CopyLaunch) (t : ThreadId) : List Copy :=
  if t.inGrid l.grid then
    match l.kernel with
    | .highBW => memcpyKernelHighBW (l.args.getD 0 0) (l.args.getD 1 0) l.grid.x t.blockIdx.x
        t.blockIdx.y t.threadIdxX
    | .lowLatency => memcpyKernelLowLatency (l.args.getD 0 0) (l.args.getD 1 0) (l.args.getD 2 0)
        t.blockIdx.x t.threadIdxX
    | .trailing => memcpyKernelTrailing (l.args.getD 0 0) (l.args.getD 1 0) (l.args.getD 2 0)
        t.blockIdx.x t.threadIdxX
  else []

/-- The threads of all launches of a copy, each named by its kernel and its place in the grid. -/
def memcpyCopies (dst src size : NvU64) (async : Bool) (i : CopyKernel × ThreadId) : List Copy :=
  ((memcpyLaunches dst src size async).filter fun l => l.kernel = i.1).flatMap fun l => l.thread i.2

/-- What a launch does depends on its kernel, and not on whether it is asynchronous. -/
theorem thread_copyLaunch (dst src size : NvU64) (async : Bool) (kernel : CopyKernel) (t : ThreadId) :
    (copyLaunch dst src size async kernel).thread t = (copyLaunch dst src size true kernel).thread t := by
  cases kernel <;> rfl

theorem kernel_copyLaunch (dst src size : NvU64) (async : Bool) (kernel : CopyKernel) :
    (copyLaunch dst src size async kernel).kernel = kernel := by
  cases kernel <;> rfl

/-- The launches of a copy are launches of its kernels. -/
theorem mem_memcpyLaunches {dst src size : NvU64} {async : Bool} {l : CopyLaunch}
    (h : l ∈ memcpyLaunches dst src size async) :
    ∃ kernel ∈ memcpyKernels size, ∃ a, l = copyLaunch dst src size a kernel := by
  obtain ⟨i, hi, rfl⟩ := List.mem_mapIdx.mp h
  exact ⟨_, List.getElem_mem hi, _, rfl⟩

/-- Each of its kernels is launched. -/
theorem exists_memcpyLaunches {dst src size : NvU64} (async : Bool) {kernel : CopyKernel}
    (h : kernel ∈ memcpyKernels size) :
    ∃ a, copyLaunch dst src size a kernel ∈ memcpyLaunches dst src size async := by
  obtain ⟨i, hi, rfl⟩ := List.mem_iff_getElem.mp h
  exact ⟨_, List.mem_mapIdx.mpr ⟨i, hi, rfl⟩⟩

/-- The copies of a thread are those of its kernel, if that is launched. -/
theorem mem_memcpyCopies {dst src size : NvU64} {async : Bool} {kernel : CopyKernel} {t : ThreadId}
    {c : Copy} : c ∈ memcpyCopies dst src size async (kernel, t) ↔
      kernel ∈ memcpyKernels size ∧ c ∈ (copyLaunch dst src size true kernel).thread t := by
  simp only [memcpyCopies, List.mem_flatMap, List.mem_filter, decide_eq_true_eq]
  constructor
  · rintro ⟨l, ⟨hl, hkernel⟩, hc⟩
    obtain ⟨kernel', hmem, a, rfl⟩ := mem_memcpyLaunches hl
    rw [kernel_copyLaunch] at hkernel
    subst hkernel
    rw [thread_copyLaunch] at hc
    exact ⟨hmem, hc⟩
  · rintro ⟨hmem, hc⟩
    obtain ⟨a, hl⟩ := exists_memcpyLaunches async hmem
    refine ⟨_, ⟨hl, kernel_copyLaunch ..⟩, ?_⟩
    rw [thread_copyLaunch]
    exact hc

/-! ## Offsets -/

/-- The copy of some bytes at an offset of destination and source. -/
def copyAt (dst src : NvU64) (o bytes : ℕ) : Copy :=
  ⟨dst + BitVec.ofNat 64 o, src + BitVec.ofNat 64 o, bytes⟩

theorem dstAt_copyAt (dst src : NvU64) (o bytes j : ℕ) :
    (copyAt dst src o bytes).dstAt j = dst + BitVec.ofNat 64 (o + j) := by
  rw [Copy.dstAt, copyAt, BitVec.ofNat_add, BitVec.add_assoc]

theorem srcAt_copyAt (dst src : NvU64) (o bytes j : ℕ) :
    (copyAt dst src o bytes).srcAt j = src + BitVec.ofNat 64 (o + j) := by
  rw [Copy.srcAt, copyAt, BitVec.ofNat_add, BitVec.add_assoc]

/-- A word at an index behind an offset. -/
theorem copyWord_eq (dst src offset i : NvU64) :
    copyWord (dst + offset) (src + offset) i = copyAt dst src (offset.toNat + 4 * i.toNat) 4 := by
  have hoffset : offset + 4 * i = BitVec.ofNat 64 (offset.toNat + 4 * i.toNat) := by
    apply BitVec.eq_of_toNat_eq
    simp
  rw [copyWord, copyAt, ← hoffset, BitVec.add_assoc, BitVec.add_assoc]

/-- A byte at an index behind an offset. -/
theorem copyByte_eq (dst src offset i : NvU64) :
    copyByte (dst + offset) (src + offset) i = copyAt dst src (offset.toNat + i.toNat) 1 := by
  have hoffset : offset + i = BitVec.ofNat 64 (offset.toNat + i.toNat) := by
    apply BitVec.eq_of_toNat_eq
    simp
  rw [copyByte, copyAt, ← hoffset, BitVec.add_assoc, BitVec.add_assoc]

/-- The number of a block, which the kernel for whole blocks computes in 32 bits. -/
def ThreadId.blockNumber (t : ThreadId) (grid : Dim3) : ℕ :=
  (t.blockIdx.y * grid.x + t.blockIdx.x).toNat

/-- The number of a thread in a grid of one row. -/
def ThreadId.number (t : ThreadId) : ℕ := 256 * t.blockIdx.x.toNat + t.threadIdxX.toNat

theorem toNat_memcpyBlockSize : memcpyBlockSize.toNat = 256 := rfl

theorem toNat_tid (t : ThreadId) :
    (memcpyBlockSize * t.blockIdx.x.setWidth 64 + t.threadIdxX.setWidth 64).toNat = t.number := by
  have hx := t.blockIdx.x.isLt
  have ht := t.threadIdxX.isLt
  rw [BitVec.toNat_add, BitVec.toNat_mul, BitVec.toNat_setWidth, BitVec.toNat_setWidth,
    toNat_memcpyBlockSize, ThreadId.number]
  omega

/-- The word at which a thread of the kernel for whole blocks makes one of its copies. -/
theorem toNat_idx (n tx : NvU32) {i : ℕ} (hi : i < 4) :
    (((memcpyBlockSize * n.setWidth 64) <<< 2) + tx.setWidth 64 +
      BitVec.ofNat 64 i * memcpyBlockSize).toNat = 1024 * n.toNat + tx.toNat + 256 * i := by
  have hn := n.isLt
  have ht := tx.isLt
  rw [BitVec.toNat_add, BitVec.toNat_add, BitVec.toNat_mul, BitVec.toNat_shiftLeft,
    BitVec.toNat_mul, BitVec.toNat_setWidth, BitVec.toNat_setWidth, BitVec.toNat_ofNat,
    toNat_memcpyBlockSize, Nat.shiftLeft_eq]
  omega

/-- **The kernel for whole blocks** copies four words of its block a thread. -/
theorem mem_thread_highBW {dst src size : NvU64} {async : Bool} {t : ThreadId} {c : Copy} :
    c ∈ (highBWLaunch dst src size async).thread t ↔
      t.inGrid (highBWLaunch dst src size async).grid = true ∧ ∃ i < 4, c = copyAt dst src
        (4096 * t.blockNumber (highBWLaunch dst src size async).grid + 4 * t.threadIdxX.toNat +
          1024 * i) 4 := by
  unfold CopyLaunch.thread
  split_ifs with hin
  swap
  · simp [hin]
  rw [and_iff_right hin]
  show c ∈ memcpyKernelHighBW dst src _ _ _ _ ↔ _
  rw [memcpyKernelHighBW, List.mem_map]
  simp only [List.mem_range]
  refine exists_congr fun i => and_congr_right fun hi => ?_
  have hword := copyWord_eq dst src 0#64
    (((memcpyBlockSize * (t.blockIdx.y * (highBWLaunch dst src size async).grid.x +
      t.blockIdx.x).setWidth 64) <<< 2) + t.threadIdxX.setWidth 64 +
      BitVec.ofNat 64 i * memcpyBlockSize)
  have hoffset : 4 * (1024 * t.blockNumber (highBWLaunch dst src size async).grid +
      t.threadIdxX.toNat + 256 * i) =
      4096 * t.blockNumber (highBWLaunch dst src size async).grid + 4 * t.threadIdxX.toNat +
        1024 * i := by
    omega
  rw [BitVec.add_zero, BitVec.add_zero, toNat_idx _ _ hi, BitVec.toNat_zero, Nat.zero_add] at hword
  rw [hword, ← ThreadId.blockNumber, hoffset]
  exact eq_comm

/-- **The kernel for words** copies one word a thread. -/
theorem mem_thread_lowLatency {dst src size : NvU64} {async : Bool} {t : ThreadId} {c : Copy} :
    c ∈ (lowLatencyLaunch dst src size async).thread t ↔
      t.inGrid (lowLatencyLaunch dst src size async).grid = true ∧
        t.number < ((size - if useHighBw size then wholeBlocks size else 0) / 4).toNat ∧
        c = copyAt dst src
          ((if useHighBw size then wholeBlocks size else 0).toNat + 4 * t.number) 4 := by
  unfold CopyLaunch.thread
  by_cases hin : t.inGrid (lowLatencyLaunch dst src size async).grid = true
  swap
  · simp [hin]
  rw [if_pos hin, and_iff_right hin]
  show c ∈ memcpyKernelLowLatency (dst + if useHighBw size then wholeBlocks size else 0)
    (src + if useHighBw size then wholeBlocks size else 0)
    ((size - if useHighBw size then wholeBlocks size else 0) / 4) _ _ ↔ _
  generalize (if useHighBw size then wholeBlocks size else 0) = offset
  have hlt := @BitVec.lt_def 64 (memcpyBlockSize * t.blockIdx.x.setWidth 64 +
    t.threadIdxX.setWidth 64) ((size - offset) / 4)
  rw [toNat_tid] at hlt
  rw [memcpyKernelLowLatency, copyWord_eq, toNat_tid]
  split_ifs with htid
  · rw [and_iff_right (hlt.mp htid), List.mem_singleton]
  · exact ⟨fun hc => absurd hc List.not_mem_nil, fun hc => absurd (hlt.mpr hc.1) htid⟩

/-- **The kernel for bytes** copies one byte a thread. -/
theorem mem_thread_trailing {dst src size : NvU64} {async : Bool} {t : ThreadId} {c : Copy} :
    c ∈ (trailingLaunch dst src size async).thread t ↔
      t.inGrid (trailingLaunch dst src size async).grid = true ∧
        t.number < (size - wholeBlocks size).toNat ∧
        c = copyAt dst src ((wholeBlocks size).toNat + t.number) 1 := by
  unfold CopyLaunch.thread
  by_cases hin : t.inGrid (trailingLaunch dst src size async).grid = true
  swap
  · simp [hin]
  rw [if_pos hin, and_iff_right hin]
  show c ∈ memcpyKernelTrailing (dst + wholeBlocks size) (src + wholeBlocks size)
    (size - wholeBlocks size) _ _ ↔ _
  have hlt := @BitVec.lt_def 64 (memcpyBlockSize * t.blockIdx.x.setWidth 64 +
    t.threadIdxX.setWidth 64) (size - wholeBlocks size)
  rw [toNat_tid] at hlt
  rw [memcpyKernelTrailing, copyByte_eq, toNat_tid]
  split_ifs with htid
  · rw [and_iff_right (hlt.mp htid), List.mem_singleton]
  · exact ⟨fun hc => absurd hc List.not_mem_nil, fun hc => absurd (hlt.mpr hc.1) htid⟩

end LibreCuda
