import LibreCuda.Foundation.Workspaces
import LibreCuda.Queue.Tasks
import LibreCuda.Runtime.CopyCoverage

/-! # Copies as tasks

What an engine finds in memory for the launch of a copy kernel says which kernel it is, over which
grid it runs and what its arguments are. The engine for transfers copies byte by byte.

* **`Task.copyLaunch`** reads a launch of a copy kernel out of a descriptor and the bytes of its
  arguments; **`Task.work`** are the copies that each thread makes for a task.
* **`memcpyCalls`** are the calls of a copy.
* **`copyLaunch_of_taskOf`**: the engine reads what the call passed. -/

namespace LibreCuda

open Bytes Interleavings Packing QmdField Threads

/-! ## Reading a launch -/

/-- How many arguments a kernel has. -/
def CopyKernel.numArgs : CopyKernel → ℕ
  | .highBW => 2
  | .lowLatency => 3
  | .trailing => 3

/-- The words of a descriptor, by their numbers. -/
def qmdOfWords (words : List NvU32) : QmdData := fun k => words.getD k 0

/-- The address of the program in a descriptor. -/
def QmdData.programAddr (q : QmdData) : NvU64 :=
  programAddressUpper.val q ++ programAddressLower.val q

/-- The grid of a descriptor. -/
def QmdData.grid (q : QmdData) : Dim3 :=
  ⟨ctaRasterWidth.val q, ctaRasterHeight.val q, ctaRasterDepth.val q⟩

/-- The blocks of a descriptor. -/
def QmdData.block (q : QmdData) : Dim3 :=
  ⟨ctaThreadDimension0.val q, ctaThreadDimension1.val q, ctaThreadDimension2.val q⟩

/-- A 64-bit argument of a kernel, behind the header of its constant bank. -/
def argumentAt (arguments : List NvU8) (i : ℕ) : NvU64 :=
  let bytes := fun y => arguments.getD y 0
  wordAt bytes (352 + 8 * i + 4) ++ wordAt bytes (352 + 8 * i)

/-- The launch of a copy kernel that a task is, if it is one: its program is a copy kernel, and its
blocks are lines of `MEMCPY_BLOCK_SIZE` threads. -/
def Task.copyLaunch (programs : NvU64 → Option CopyKernel) : Task → Option CopyLaunch
  | .launch words arguments =>
    let q := qmdOfWords words
    (programs q.programAddr).bind fun kernel =>
      if q.block = ⟨256, 1, 1⟩ then
        some ⟨kernel, q.grid, (List.range kernel.numArgs).map (argumentAt arguments), true⟩
      else none
  | .copy .. => none

/-- What works on a task: the threads of a launch, or an engine that copies byte by byte. -/
inductive Worker
  | thread (t : ThreadId)
  | engine (o : ℕ)
  deriving DecidableEq, Repr

/-- The copies that are made for a task. -/
def Task.work (programs : NvU64 → Option CopyKernel) (task : Task) : Worker → List Copy
  | .thread t => ((task.copyLaunch programs).map fun l => l.thread t).getD []
  | .engine o =>
    match task with
    | .launch .. => []
    | .copy dst src numBytes =>
      if o < numBytes.toNat then [copyByte dst src (BitVec.ofNat 64 o)] else []

/-- A task copies: it is a transfer, or the launch of a copy kernel. -/
def Task.copies (programs : NvU64 → Option CopyKernel) : Task → Bool
  | .launch words arguments => (Task.copyLaunch programs (.launch words arguments)).isSome
  | .copy .. => true

/-! ## What a launch passes -/

section Decode

variable {f : LibreCUFunction} {q : QmdData}

theorem qmdOfWords_words (q : QmdData) {k : ℕ} (hk : k < qmdWords) : qmdOfWords q.words k = q k := by
  rw [qmdOfWords, List.getD_eq_getElem?_getD, QmdData.words, List.getElem?_map,
    List.getElem?_range hk]
  rfl

/-- A field of a descriptor, read from its words. -/
theorem val_qmdOfWords (q : QmdData) {g : QmdField} (hg : g.InWord) (hk : g.word < qmdWords) :
    g.val (qmdOfWords q.words) = g.val q := hg.val_congr (qmdOfWords_words q hk)

/-- A field that has the width for its value gives it back. -/
theorem QmdDecodes.val_eq {grid block : Dim3} {sharedMemBytes : NvU32} {slm ptr : NvU64}
    (hq : QmdDecodes q f grid block sharedMemBytes slm ptr) {g : QmdField} {value : NvU32}
    (hmem : (g, value.setWidth 64) ∈ launchWrites f grid block sharedMemBytes slm)
    (hfits : value.toNat < 2 ^ g.width) : g.val q = value := by
  have hval := hq.launch _ hmem
  rw [toNat_setWidth_64, Nat.mod_eq_of_lt hfits] at hval
  exact BitVec.eq_of_toNat_eq hval

/-- The fields of a launch are in the words of the descriptor. -/
theorem word_launchFields : ∀ g ∈ launchFields, g.word < qmdWords := by decide +kernel

/-- **A descriptor gives back the launch**, if its numbers have the widths of their fields. -/
theorem decoded_of_qmdData (hbanks : ∀ c ∈ f.constants, c.constNr < 8) (grid block : Dim3)
    (sharedMemBytes : NvU32) (slm ptr : NvU64) (haddr : f.funcVaAddr.toNat < 2 ^ 49)
    (hy : grid.y.toNat < 2 ^ 16) (hz : grid.z.toNat < 2 ^ 16) (hbx : block.x.toNat < 2 ^ 16)
    (hby : block.y.toNat < 2 ^ 16) (hbz : block.z.toNat < 2 ^ 16) :
    (qmdOfWords (QmdData.words (qmdData f grid block sharedMemBytes slm ptr))).programAddr =
        f.funcVaAddr ∧
      (qmdOfWords (QmdData.words (qmdData f grid block sharedMemBytes slm ptr))).grid = grid ∧
      (qmdOfWords (QmdData.words (qmdData f grid block sharedMemBytes slm ptr))).block = block := by
  have hq := qmd_decodes hbanks grid block sharedMemBytes slm ptr
  obtain ⟨q, heq⟩ : ∃ q, q = qmdData f grid block sharedMemBytes slm ptr := ⟨_, rfl⟩
  rw [← heq] at hq ⊢
  -- the upper half of the address has a field of 17 bits
  have hhi : (hi32 f.funcVaAddr).toNat < 2 ^ 17 := by
    have hshift : (hi32 f.funcVaAddr).toNat = f.funcVaAddr.toNat / 2 ^ 32 % 2 ^ 32 := by
      rw [hi32, BitVec.toNat_setWidth, BitVec.toNat_ushiftRight, Nat.shiftRight_eq_div_pow]
    omega
  have hread : ∀ (g : QmdField) (value : NvU32),
      (g, value.setWidth 64) ∈ launchWrites f grid block sharedMemBytes slm →
        value.toNat < 2 ^ g.width → g.val (qmdOfWords q.words) = value := fun g value hmem hfits => by
    have hg : g ∈ launchFields := List.mem_map_of_mem (f := Prod.fst) hmem
    rw [val_qmdOfWords q (inWord_launchFields g hg) (word_launchFields g hg), hq.val_eq hmem hfits]
  refine ⟨?_, ?_, ?_⟩
  · rw [QmdData.programAddr,
      hread programAddressUpper (hi32 f.funcVaAddr) (by simp [launchWrites]) hhi,
      hread programAddressLower (lo32 f.funcVaAddr) (by simp [launchWrites])
        (lo32 f.funcVaAddr).isLt, hi32_append_lo32]
  · rw [QmdData.grid, hread ctaRasterWidth grid.x (by simp [launchWrites]) grid.x.isLt,
      hread ctaRasterHeight grid.y (by simp [launchWrites]) hy,
      hread ctaRasterDepth grid.z (by simp [launchWrites]) hz]
  · rw [QmdData.block, hread ctaThreadDimension0 block.x (by simp [launchWrites]) hbx,
      hread ctaThreadDimension1 block.y (by simp [launchWrites]) hby,
      hread ctaThreadDimension2 block.z (by simp [launchWrites]) hbz]

/-- Parameters of eight bytes are one behind the other. -/
theorem start_replicate {n i : ℕ} (hi : i ≤ n) : start 4 (List.replicate n 8) i = 8 * i := by
  rw [start, List.take_replicate, List.map_replicate, List.sum_replicate, Nat.min_eq_left hi]
  exact Nat.mul_comm i 8

/-- A byte of an argument, in what a launch writes. -/
theorem getElem?_argumentBytes {n : ℕ} (hsizes : f.sizes = List.replicate n 8) (grid block : Dim3)
    (params : ℕ → ℕ → NvU8) {i j : ℕ} (hi : i < n) (hj : j < 8) :
    (f.argumentBytes grid block params)[352 + 8 * i + j]? = some (params i j) := by
  have hheader : (ofWords (constbuf0Data grid block)).length = 352 := by
    rw [length_ofWords]
    rfl
  have hsource : source 4 f.sizes (8 * i + j) = some (i, j) := by
    refine (source_eq_some_iff (by decide)).mpr ⟨8, ?_, hj, ?_⟩
    · rw [hsizes, List.getElem?_replicate, if_pos hi]
    · rw [hsizes, start_replicate hi.le]
  rw [LibreCUFunction.argumentBytes, List.getElem?_append_right (by omega), hheader,
    show 352 + 8 * i + j - 352 = 8 * i + j by omega, LibreCUFunction.paramBlock,
    getElem?_pack _ _ _ (by rw [length_pack]; exact lt_of_source hsource), hsource]
  rfl

/-- A word is its bytes, one behind the other. -/
theorem append_bytes (x : NvU64) :
    (((x >>> 56).setWidth 8 ++ (x >>> 48).setWidth 8 ++ (x >>> 40).setWidth 8 ++
      (x >>> 32).setWidth 8 : NvU32) ++ ((x >>> 24).setWidth 8 ++ (x >>> 16).setWidth 8 ++
        (x >>> 8).setWidth 8 ++ (x >>> 0).setWidth 8 : NvU32) : NvU64) = x := by
  apply BitVec.eq_of_getLsbD_eq
  intro i hi
  simp only [BitVec.getLsbD_append, BitVec.getLsbD_setWidth, BitVec.getLsbD_ushiftRight]
  grind

/-- **An argument is read as it was passed.** -/
theorem argumentAt_argumentBytes {n r : ℕ} (hsizes : f.sizes = List.replicate n 8)
    (grid block : Dim3) (args : List NvU64) (hr : 352 + 8 * n ≤ r) {i : ℕ} (hi : i < n) :
    argumentAt ((f.argumentBytes grid block (argBytes args)).take r) i = args.getD i 0 := by
  have hbyte : ∀ j < 8, ((f.argumentBytes grid block (argBytes args)).take r).getD
      (352 + 8 * i + j) 0 = (args.getD i 0 >>> (8 * j)).setWidth 8 := fun j hj => by
    rw [List.getD_eq_getElem?_getD, List.getElem?_take_of_lt (by omega),
      getElem?_argumentBytes hsizes grid block _ hi hj]
    rfl
  have hlow : wordAt (fun y => ((f.argumentBytes grid block (argBytes args)).take r).getD y 0)
      (352 + 8 * i) = (args.getD i 0 >>> 24).setWidth 8 ++ (args.getD i 0 >>> 16).setWidth 8 ++
        (args.getD i 0 >>> 8).setWidth 8 ++ (args.getD i 0 >>> 0).setWidth 8 := by
    rw [wordAt, hbyte 3 (by decide), hbyte 2 (by decide), hbyte 1 (by decide)]
    exact congrArg _ (hbyte 0 (by decide))
  have hhigh : wordAt (fun y => ((f.argumentBytes grid block (argBytes args)).take r).getD y 0)
      (352 + 8 * i + 4) = (args.getD i 0 >>> 56).setWidth 8 ++ (args.getD i 0 >>> 48).setWidth 8 ++
        (args.getD i 0 >>> 40).setWidth 8 ++ (args.getD i 0 >>> 32).setWidth 8 := by
    rw [wordAt, show 352 + 8 * i + 4 + 3 = 352 + 8 * i + 7 from rfl,
      show 352 + 8 * i + 4 + 2 = 352 + 8 * i + 6 from rfl,
      show 352 + 8 * i + 4 + 1 = 352 + 8 * i + 5 from rfl, hbyte 7 (by decide),
      hbyte 6 (by decide), hbyte 5 (by decide), hbyte 4 (by decide)]
  rw [argumentAt, hlow, hhigh]
  exact append_bytes _

/-- **A launch of a copy kernel is read as it was made.** -/
theorem copyLaunch_of_launch {programs : NvU64 → Option CopyKernel} {kernel : CopyKernel}
    (hbanks : ∀ c ∈ f.constants, c.constNr < 8) (hprogram : programs f.funcVaAddr = some kernel)
    (haddr : f.funcVaAddr.toNat < 2 ^ 49) (hsizes : f.sizes = List.replicate kernel.numArgs 8)
    {grid : Dim3} (hy : grid.y.toNat < 2 ^ 16) (hz : grid.z.toNat < 2 ^ 16) {args : List NvU64}
    (hargs : args.length = kernel.numArgs) {r : ℕ} (hr : 352 + 8 * kernel.numArgs ≤ r)
    (slm ptr : NvU64) :
    (Task.launch (QmdData.words (qmdData f grid ⟨256, 1, 1⟩ 0 slm ptr))
      ((f.argumentBytes grid ⟨256, 1, 1⟩ (argBytes args)).take r)).copyLaunch programs =
        some ⟨kernel, grid, args, true⟩ := by
  obtain ⟨hprogramAddr, hgrid, hblock⟩ := decoded_of_qmdData hbanks grid ⟨256, 1, 1⟩
    0 slm ptr haddr hy hz (by decide) (by decide) (by decide)
  have hwords : (List.range kernel.numArgs).map (argumentAt ((f.argumentBytes grid ⟨256, 1, 1⟩
      (argBytes args)).take r)) = args := by
    refine List.ext_getElem (by simp [hargs]) fun i hi hi' => ?_
    rw [List.getElem_map, List.getElem_range,
      argumentAt_argumentBytes hsizes grid _ args hr (hargs ▸ hi'),
      List.getD_eq_getElem?_getD, List.getElem?_eq_getElem hi', Option.getD_some]
  simp only [Task.copyLaunch, hprogramAddr, hprogram, Option.bind_some, hblock, if_true, hgrid,
    hwords]

end Decode

/-! ## The launches of a copy -/

section Launches

variable {M : Type} {p : Processor M} {programs : NvU64 → Option CopyKernel}
  {kernels : CopyKernel → Option ℕ}

/-- The call that makes a launch of a copy. -/
def CopyLaunch.call (kernels : CopyKernel → Option ℕ) (l : CopyLaunch) : ApiCall :=
  .launchFunction (kernels l.kernel) l.grid ⟨256, 1, 1⟩ 0 (argBytes l.args)
    (BitVec.ofNat 64 l.args.length) l.async

/-- The calls of a copy, on the device or by the engine for transfers. -/
def memcpyCalls (kernels : CopyKernel → Option ℕ) (dst src byteCount : NvU64)
    (onDevice async : Bool) : List ApiCall :=
  if onDevice then (memcpyLaunches dst src byteCount async).map (CopyLaunch.call kernels)
  else [.gpuMemcpy dst src byteCount async]

/-- The copy kernels are among the functions of the stream: they take 64-bit words, and the program
at the address of one is that kernel. -/
structure HoldsKernels (programs : NvU64 → Option CopyKernel) (kernels : CopyKernel → Option ℕ)
    (functions : ℕ → LibreCUFunction) : Prop where
  program : ∀ kernel f, kernels kernel = some f → programs (functions f).funcVaAddr = some kernel
  below : ∀ kernel f, kernels kernel = some f → (functions f).funcVaAddr.toNat < 2 ^ 49
  sizes : ∀ kernel f, kernels kernel = some f →
    (functions f).sizes = List.replicate kernel.numArgs 8

/-- Every kernel reads its arguments. -/
def Processor.ReadsArguments (p : Processor M) (programs : NvU64 → Option CopyKernel) : Prop :=
  ∀ words arguments l, (Task.launch words arguments).copyLaunch programs = some l →
    352 + 8 * l.kernel.numArgs ≤ p.reads words

/-- Below 256 MiB the grids of a copy have the widths of their fields. -/
theorem grid_copyLaunch (dst src : NvU64) {size : NvU64} (async : Bool) (kernel : CopyKernel)
    (hsmall : size.toNat < 2 ^ 28) :
    (copyLaunch dst src size async kernel).grid.y.toNat < 2 ^ 16 ∧
      (copyLaunch dst src size async kernel).grid.z.toNat < 2 ^ 16 := by
  have hone : (1 : NvU32).toNat < 2 ^ 16 := by decide
  cases kernel with
  | highBW =>
    obtain ⟨-, hy, hz⟩ := toNat_highBWGrid dst src size async
    exact ⟨by show (highBWLaunch dst src size async).grid.y.toNat < _; omega,
      by show (highBWLaunch dst src size async).grid.z.toNat < _; omega⟩
  | lowLatency => exact ⟨hone, hone⟩
  | trailing => exact ⟨hone, hone⟩

theorem length_args_copyLaunch (dst src size : NvU64) (async : Bool) (kernel : CopyKernel) :
    (copyLaunch dst src size async kernel).args.length = kernel.numArgs := by
  cases kernel <;> rfl

/-- The launch itself does not depend on whether it is asynchronous. -/
theorem copyLaunch_async (dst src size : NvU64) (async : Bool) (kernel : CopyKernel) :
    copyLaunch dst src size true kernel =
      ⟨kernel, (copyLaunch dst src size async kernel).grid,
        (copyLaunch dst src size async kernel).args, true⟩ := by
  cases kernel <;> rfl

/-- **The engine finds the launch of a copy kernel**, as the copy made it. -/
theorem copyLaunch_of_taskOf {h h' : Host} (hreads : p.ReadsArguments programs)
    (hfits : ∀ f, (h.functions f).Fits) (hholds : HoldsKernels programs kernels h.functions)
    {dst src size : NvU64} {async : Bool} {kernel : CopyKernel} (hsmall : size.toNat < 2 ^ 28)
    {task : Task}
    (htask : h.taskOf p h' ((copyLaunch dst src size async kernel).call kernels) = some task) :
    task.copyLaunch programs = some (copyLaunch dst src size true kernel) := by
  rw [CopyLaunch.call, kernel_copyLaunch] at htask
  cases hf : kernels kernel with
  | none =>
    rw [hf] at htask
    cases htask
  | some f =>
    rw [hf] at htask
    obtain rfl := Option.some.inj htask
    obtain ⟨hy, hz⟩ := grid_copyLaunch dst src async kernel hsmall
    have hread : ∀ r, 352 + 8 * kernel.numArgs ≤ r → _ := fun r hr =>
      copyLaunch_of_launch (hfits f).numbers (hholds.program kernel f hf) (hholds.below kernel f hf)
        (hholds.sizes kernel f hf) hy hz (length_args_copyLaunch dst src size async kernel) hr
        h'.queue.currentSlmPerThread h.kernargsPointer
    -- with just its arguments it is a copy kernel, which reads no less
    rw [hread _ (hreads _ _ _ (hread _ le_rfl))]
    exact congrArg some (copyLaunch_async dst src size async kernel).symm

end Launches

end LibreCuda
