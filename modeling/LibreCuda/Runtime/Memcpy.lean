import LibreCuda.Queue.Session

/-! # Copies

`libreCuMemCpy` copies within device memory with `memcpyD2D`, and everything else on the copy
engine. `memcpyD2D` copies with up to three kernels: one that moves whole blocks of 4096 bytes, one
that moves words and one that moves bytes. Which of them run, and over which grids, depends on the
size alone.

* **`memcpyLaunches`** are the launches of a copy, in order.
* **`memcpyD2D`** performs them until one fails.
* **`libreCuMemCpy`** looks at the status of neither path. -/

namespace LibreCuda

/-- The kernels of the copy module. -/
inductive CopyKernel
  | highBW
  | lowLatency
  | trailing
  deriving DecidableEq, Repr

/-- The name of a kernel in the copy module. -/
def CopyKernel.name : CopyKernel → String
  | .highBW => "memcpyKernelHighBW"
  | .lowLatency => "memcpyKernelLowLatency"
  | .trailing => "memcpyKernelTrailing"

/-- One launch of a copy; the arguments are 64-bit words. -/
structure CopyLaunch where
  kernel : CopyKernel
  grid : Dim3
  args : List NvU64
  async : Bool
  deriving DecidableEq, Repr

/-- `MEMCPY_BLOCK_SIZE`. -/
def memcpyBlockSize : NvU64 := 256

/-- `MEMCPY_THREAD_COPYSIZE`. -/
def memcpyThreadCopysize : NvU64 := 16

/-- `MAX_GRID_SIZE_X`. -/
def maxGridSizeX : NvU64 := 65535

/-- `MEMCPY_HIGHBW_BYTE_GRANULARITY`. -/
def memcpyHighbwByteGranularity : NvU64 := 4096

/-- `MEMCPY_FINISH_BYTE_GRANULARITY`. -/
def memcpyFinishByteGranularity : NvU64 := 4

/-- `use_high_bw`: more than a mebibyte. -/
def useHighBw (size : NvU64) : Bool := 1024 * 1024 < size

/-- The bytes that whole blocks cover. -/
def wholeBlocks (size : NvU64) : NvU64 :=
  size / memcpyHighbwByteGranularity * memcpyHighbwByteGranularity

/-- A grid of the given number of blocks; the launch takes it as a 32-bit number. -/
def linearGrid (gridSizeX : NvU64) : Dim3 := ⟨gridSizeX.setWidth 32, 1, 1⟩

/-- The launch of the kernel for whole blocks. -/
def highBWLaunch (dst src size : NvU64) (async : Bool) : CopyLaunch :=
  let gridSizeX := size / (memcpyThreadCopysize * memcpyBlockSize)
  let gridSizeY := ceilDiv gridSizeX maxGridSizeX
  ⟨.highBW, ⟨gridSizeX.setWidth 32, gridSizeY.setWidth 32, 1⟩, [dst, src], async⟩

/-- The launch of the kernel for words. -/
def lowLatencyLaunch (dst src size : NvU64) (async : Bool) : CopyLaunch :=
  let bytesCopied := if useHighBw size then wholeBlocks size else 0
  let wordsRemaining := (size - bytesCopied) / 4
  ⟨.lowLatency, linearGrid (ceilDiv wordsRemaining memcpyBlockSize),
    [dst + bytesCopied, src + bytesCopied, wordsRemaining], async⟩

/-- The launch of the kernel for bytes. -/
def trailingLaunch (dst src size : NvU64) (async : Bool) : CopyLaunch :=
  let bytesCopied := wholeBlocks size
  let bytesRemaining := size - bytesCopied
  ⟨.trailing, linearGrid (ceilDiv bytesRemaining memcpyBlockSize),
    [dst + bytesCopied, src + bytesCopied, bytesRemaining], async⟩

/-- The kernels of a copy (`launch_kernel_1` to `launch_kernel_3`). -/
def memcpyKernels (size : NvU64) : List CopyKernel :=
  (if useHighBw size then [.highBW] else []) ++
    (if !useHighBw size || size % memcpyHighbwByteGranularity ≠ 0 then [.lowLatency] else []) ++
    (if size % memcpyFinishByteGranularity ≠ 0 then [.trailing] else [])

/-- The launch of one kernel of a copy. -/
def copyLaunch (dst src size : NvU64) (async : Bool) : CopyKernel → CopyLaunch
  | .highBW => highBWLaunch dst src size async
  | .lowLatency => lowLatencyLaunch dst src size async
  | .trailing => trailingLaunch dst src size async

/-- The launches of a copy. Only the first one waits for what came before (`has_synced`). -/
def memcpyLaunches (dst src size : NvU64) (async : Bool) : List CopyLaunch :=
  (memcpyKernels size).mapIdx fun i kernel => copyLaunch dst src size (async || 0 < i) kernel

/-- The bytes of 64-bit arguments. -/
def argBytes (args : List NvU64) : ℕ → ℕ → NvU8 :=
  fun i j => (args.getD i 0 >>> (8 * j)).setWidth 8

/-- `memcpyD2D` with the copy kernels of the current device; a missing one is the null pointer. -/
def memcpyD2D (kernels : CopyKernel → Option ℕ) (dst src size : NvU64) (async : Bool) :
    Driver Unit :=
  (memcpyLaunches dst src size async).forM fun l =>
    launchFunction (kernels l.kernel) l.grid ⟨256, 1, 1⟩ 0 (argBytes l.args)
      (BitVec.ofNat 64 l.args.length) l.async

/-! ## Dispatch -/

/-- `isDevicePtr`: addresses are never reused, so all below the heap pointer were handed out. -/
def isDevicePtr (v : Vm) (va : NvU64) : Bool :=
  if va < uvmHeapStart then false else va < v.uvmVaddr

/-- A call whose status is not looked at. -/
def ignoreStatus (x : Driver Unit) : Driver Unit :=
  tryCatch x fun e => match e with
    | .status _ => pure ()
    | e => throw e

/-- Both pointers are device pointers: the copy goes to `memcpyD2D`. -/
def Host.copiesOnDevice (h : Host) (dst src : NvU64) : Bool :=
  isDevicePtr h.vm dst && isDevicePtr h.vm src

/-- `libreCuMemCpy` on a stream of the current context. -/
def libreCuMemCpy (kernels : CopyKernel → Option ℕ) (dst src byteCount : NvU64) (async : Bool) :
    Driver Unit := do
  validate (dst != 0) .invalidValue
  validate (src != 0) .invalidValue
  let h ← get
  if h.copiesOnDevice dst src then ignoreStatus (memcpyD2D kernels dst src byteCount async)
  else ignoreStatus (gpuMemcpy dst src byteCount async)

/-- Every copy runs at least one kernel. -/
theorem memcpyKernels_ne_nil (size : NvU64) : memcpyKernels size ≠ [] := by
  unfold memcpyKernels
  cases useHighBw size <;> simp

/-! ## Sample copies -/

/-- A copy kernel with 64-bit parameters. -/
def sampleCopyFunction (name : String) (params : ℕ) : LibreCUFunction :=
  { sampleFunction with
    name := name
    paramInfo := (List.range params).map fun i => ⟨BitVec.ofNat 16 i, BitVec.ofNat 16 (8 * i), 8⟩ }

/-- The copy kernels of the sample stream. -/
def sampleKernels : CopyKernel → Option ℕ
  | .highBW => some 1
  | .lowLatency => some 2
  | .trailing => some 3

/-- The sample stream, with the copy kernels and a gibibyte of device memory. -/
def sampleCopyStream : Host :=
  { sampleStream with
    functions := fun
      | 1 => sampleCopyFunction "memcpyKernelHighBW" 2
      | 2 => sampleCopyFunction "memcpyKernelLowLatency" 3
      | 3 => sampleCopyFunction "memcpyKernelTrailing" 3
      | _ => sampleFunction
    vm := { sampleStream.vm with uvmVaddr := uvmHeapStart + 0x40000000 } }

end LibreCuda
