import LibreCuda.Module.Load
import LibreCuda.Queue.Descriptor

/-! # Shared memory of a launch

The shared memory a kernel gets is what the field `SHARED_MEMORY_SIZE` of its launch descriptor
says. The loader records a size for every section `.nv.shared.<f>`, and a launch asks for the larger
of that and of the dynamic size.

* **`get_sharedMemorySize_qmdData`** is the field as a launch fills it in.
* **`functionSharedMem_of_scan`** is the size the loader records: that of an entry of the section
  header table.
* **`shared_memory_covers_iff`**: when that is enough for both the static and the dynamic size. -/

namespace LibreCuda

open Bytes Exec QmdField

/-! ## The field of the descriptor -/

/-- The numbers of the constant banks whose fields are within the descriptor. -/
theorem constNr_of_inQmd {c : KernelConstantInfo} (h : c.inQmd = true) :
    ∃ k < 32, c.constNr = BitVec.ofNat 32 k - 16 := by
  have hlower : (1024 + c.constNr.toNat * 64) % 2 ^ 32 / 32 < 64 := by
    have := (Bool.and_eq_true_iff.mp (Bool.and_eq_true_iff.mp h).2).1
    simpa [QmdField.word, constantBufferAddrLower, qmdWords] using this
  have hvalid : (640 + c.constNr.toNat) % 2 ^ 32 / 32 < 64 := by
    have := (Bool.and_eq_true_iff.mp (Bool.and_eq_true_iff.mp (Bool.and_eq_true_iff.mp
      (Bool.and_eq_true_iff.mp h).2).2).2).1
    simpa [QmdField.word, constantBufferValid, qmdWords] using this
  refine ⟨(c.constNr + 16).toNat, ?_, by bv_omega⟩
  rw [BitVec.toNat_add]
  simp only [BitVec.reduceToNat]
  omega

/-- The fields of the constant banks share no bit with the size of the shared memory, except for
bank −8. -/
theorem constantBuffer_apart {c : KernelConstantInfo} (h : c.inQmd = true) :
    sharedMemorySize.Apart (constantBufferValid c.constNr) ∧
    sharedMemorySize.Apart (constantBufferSizeShifted4 c.constNr) ∧
    sharedMemorySize.Apart (constantBufferAddrLower c.constNr) ∧
    (c.constNr ≠ -8 → sharedMemorySize.Apart (constantBufferAddrUpper c.constNr)) := by
  obtain ⟨k, hk, hnr⟩ := constNr_of_inQmd h
  rw [hnr]
  clear hnr
  revert k
  decide

/-- What a constant bank leaves of the size of the shared memory. -/
def KernelConstantInfo.overlay (c : KernelConstantInfo) (size : NvU32) : NvU32 :=
  if c.constNr = -8 then (size &&& 0x20000) ||| (hi32 c.address &&& 0x1FFFF) else size

theorem get_sharedMemorySize_setConstantBuffer {c : KernelConstantInfo} (h : c.inQmd = true)
    (q : QmdData) :
    sharedMemorySize.get (setConstantBuffer q c) = c.overlay (sharedMemorySize.get q) := by
  obtain ⟨hvalid, hsize, hlower, hupper⟩ := constantBuffer_apart h
  unfold setConstantBuffer KernelConstantInfo.overlay fldSetDrfNum32
  rw [get_fldSetDrfNum_of_apart hvalid, get_fldSetDrfNum_of_apart hsize,
    get_fldSetDrfNum_of_apart hlower]
  split_ifs with hnr
  · rw [hnr]
    unfold QmdField.get fldSetDrfNum
    rw [show (constantBufferAddrUpper (-8)).word = sharedMemorySize.word by decide, Function.update_self]
    rw [show (constantBufferAddrUpper (-8)).mask = 0x1FFFF by decide,
      show (constantBufferAddrUpper (-8)).shift = 0 by decide,
      show sharedMemorySize.mask = 0x3FFFF by decide, show sharedMemorySize.shift = 0 by decide,
      BitVec.setWidth_setWidth_of_le _ (by decide), BitVec.setWidth_eq, BitVec.shiftLeft_zero,
      BitVec.shiftLeft_zero, BitVec.ushiftRight_zero, BitVec.ushiftRight_zero, BitVec.and_or_distrib_right,
      BitVec.and_assoc, BitVec.and_assoc, BitVec.and_assoc]
    rfl
  · exact get_fldSetDrfNum_of_apart (hupper hnr) _ _

theorem get_sharedMemorySize_foldl {constants : List KernelConstantInfo}
    (h : constants.all KernelConstantInfo.inQmd = true) (q : QmdData) :
    sharedMemorySize.get (constants.foldl setConstantBuffer q) =
      constants.foldl (fun size c => c.overlay size) (sharedMemorySize.get q) := by
  induction constants generalizing q with
  | nil => rfl
  | cons c rest ih =>
    rw [List.all_cons, Bool.and_eq_true] at h
    obtain ⟨hc, hrest⟩ := h
    rw [List.foldl_cons, List.foldl_cons, ih hrest, get_sharedMemorySize_setConstantBuffer hc]

/-- The size of the shared memory that a descriptor asks for. -/
theorem get_sharedMemorySize_qmdData {f : LibreCUFunction}
    (h : f.constants.all KernelConstantInfo.inQmd = true) (grid block : Dim3)
    (sharedMemBytes : NvU32) (currentSlmPerThread kernargsPointer : NvU64) :
    sharedMemorySize.get
        (qmdData f grid block sharedMemBytes currentSlmPerThread kernargsPointer) =
      f.constants.foldl (fun size c => c.overlay size)
        (maxOf 0x400 (roundUp (shmemUsage f sharedMemBytes) 0x100) &&& 0x3FFFF) := by
  unfold qmdData fldSetDrfNum32
  simp (disch := decide) only [get_fldSetDrfNum_of_apart, get_sharedMemorySize_foldl h,
    get_fldSetDrfNum_self]
  rw [BitVec.setWidth_setWidth_of_le _ (by decide), BitVec.setWidth_eq]
  rfl

/-- `KernelConstantInfo.overlay` on numbers. -/
def KernelConstantInfo.overlayNat (size : ℕ) (c : KernelConstantInfo) : ℕ :=
  if c.constNr = -8 then size / 2 ^ 17 * 2 ^ 17 + (hi32 c.address).toNat % 2 ^ 17 else size

theorem overlayNat_lt {size k : ℕ} (hk : 17 ≤ k) (h : size < 2 ^ k) (c : KernelConstantInfo) :
    c.overlayNat size < 2 ^ k := by
  unfold KernelConstantInfo.overlayNat
  split_ifs
  · obtain ⟨j, rfl⟩ := Nat.exists_eq_add_of_le hk
    rw [Nat.pow_add] at h ⊢
    have hdiv : size / 2 ^ 17 < 2 ^ j := Nat.div_lt_of_lt_mul h
    have hmod : (hi32 c.address).toNat % 2 ^ 17 < 2 ^ 17 := Nat.mod_lt _ (by decide)
    have hmul : (size / 2 ^ 17 + 1) * 2 ^ 17 ≤ 2 ^ j * 2 ^ 17 := Nat.mul_le_mul_right _ hdiv
    rw [Nat.mul_comm (2 ^ 17) (2 ^ j)]
    omega
  · exact h

theorem foldl_overlayNat_lt {size k : ℕ} (hk : 17 ≤ k) (h : size < 2 ^ k)
    (constants : List KernelConstantInfo) :
    constants.foldl KernelConstantInfo.overlayNat size < 2 ^ k := by
  induction constants generalizing size with
  | nil => exact h
  | cons c rest ih => exact ih (overlayNat_lt hk h c)

theorem and_two_pow_of_lt {k n : ℕ} (h : n < 2 ^ (k + 1)) : n &&& 2 ^ k = 2 ^ k * (n / 2 ^ k) := by
  have hlt : n / 2 ^ k < 2 := Nat.div_lt_of_lt_mul (by rwa [Nat.pow_succ] at h)
  apply Nat.eq_of_testBit_eq
  intro i
  rw [Nat.testBit_and, Nat.testBit_two_pow, Nat.testBit_two_pow_mul]
  by_cases hi : k = i
  · subst hi
    simp [Nat.testBit_eq_decide_div_mod_eq]
  · have hbit : k ≤ i → (n / 2 ^ k).testBit (i - k) = false := fun hle =>
      Nat.testBit_lt_two_pow (Nat.lt_of_lt_of_le hlt
        (Nat.le_self_pow (by omega) 2))
    by_cases hle : k ≤ i
    · simp [hi, hbit hle]
    · simp [hi, hle]

theorem toNat_overlay {size : NvU32} (h : size.toNat < 2 ^ 18) (c : KernelConstantInfo) :
    (c.overlay size).toNat = c.overlayNat size.toNat := by
  unfold KernelConstantInfo.overlay KernelConstantInfo.overlayNat
  split_ifs
  · have hhigh : (size &&& 0x20000).toNat = 2 ^ 17 * (size.toNat / 2 ^ 17) := by
      rw [BitVec.toNat_and]
      exact and_two_pow_of_lt h
    have hlow : (hi32 c.address &&& 0x1FFFF).toNat = (hi32 c.address).toNat % 2 ^ 17 := by
      rw [BitVec.toNat_and]
      exact Nat.and_two_pow_sub_one_eq_mod _ 17
    rw [BitVec.toNat_or, hhigh, hlow, Nat.mul_comm,
      Nat.mul_comm (size.toNat / 2 ^ 17) (2 ^ 17), ← Nat.two_pow_add_eq_or_of_lt]
    exact Nat.mod_lt _ (by decide)
  · rfl

theorem toNat_foldl_overlay {size : NvU32} (h : size.toNat < 2 ^ 18)
    (constants : List KernelConstantInfo) :
    (constants.foldl (fun size c => c.overlay size) size).toNat =
      constants.foldl KernelConstantInfo.overlayNat size.toNat := by
  induction constants generalizing size with
  | nil => rfl
  | cons c rest ih =>
    rw [List.foldl_cons, List.foldl_cons, ← toNat_overlay h]
    exact ih (by rw [toNat_overlay h]; exact overlayNat_lt (by decide) h c)

/-! ## What the loader records -/

/-- The shared memory the loader records for a function: it takes the size of an entry of the
section header table for that of the section. -/
def ElfImage.recordedSharedMem (image : ElfImage) (f : Name) : NvU32 :=
  if image.sections.any (·.name == nvShared ++ f) then image.sectionEntrySize.setWidth 32 else 0

/-- The static shared memory of a function: the size of its section, if there is one. -/
def ElfImage.staticSharedMem (image : ElfImage) (f : Name) : ℕ :=
  ((image.sections.find? (·.name == nvShared ++ f)).map (·.size.toNat)).getD 0

/-- A section enters at most the shared memory of the function it names. -/
theorem functionSharedMem_of_sectionAdded {image : ElfImage} {moduleGpuVa : NvU64}
    {t t' : FunctionTables} {s : Section} (h : SectionAdded image moduleGpuVa s t t') {f : Name}
    (hf : f ≠ []) :
    t'.functionSharedMem f = if s.name = nvShared ++ f then image.sectionEntrySize.setWidth 32
      else t.functionSharedMem f := by
  have hname : s.name = nvShared ++ f ↔ sectionKind s.name = .shared f :=
    ⟨fun hname => hname ▸ sectionKind_shared hf, name_of_shared⟩
  rw [if_congr hname rfl rfl]
  cases h with
  | shared g kind =>
    show Function.update t.functionSharedMem g _ f = _
    rw [kind, Function.update_apply]
    simp only [SectionKind.shared.injEq, eq_comm]
  | text g kind => simp [kind, FunctionTables.addText]
  | constant rest nr used kind number => simp [kind, FunctionTables.addConstant]
  | info kind => simp [kind]
  | functionInfo g a kind parse => simp [kind]
  | other kind => simp [kind]

/-- **The size the loader records** is the same for every function with a section. -/
theorem functionSharedMem_of_scan {image : ElfImage} {moduleGpuVa : NvU64}
    {tables : FunctionTables} (h : scanSections image moduleGpuVa = .ok tables) {f : Name}
    (hf : f ≠ []) : tables.functionSharedMem f = image.recordedSharedMem f := by
  refine scanSections_induction (fun seen t => t.functionSharedMem f =
    if seen.any (·.name == nvShared ++ f) then image.sectionEntrySize.setWidth 32 else 0)
    rfl (fun seen s t t' _ ht hs => ?_) h
  obtain ⟨relocs, -, hadd⟩ := scanSection_eq_ok hs
  rw [functionSharedMem_of_sectionAdded hadd hf]
  by_cases hname : s.name = nvShared ++ f
  · simp [hname]
  · rw [if_neg hname]
    show t.functionSharedMem f = _
    rw [ht]
    simp [hname]

/-- The functions of a module have names. -/
theorem ne_nil_of_scan {image : ElfImage} {moduleGpuVa : NvU64} {tables : FunctionTables}
    (h : scanSections image moduleGpuVa = .ok tables) : ∀ f ∈ tables.functionNames, f ≠ [] := by
  refine scanSections_induction (fun _ t => ∀ f ∈ t.functionNames, f ≠ []) (by simp)
    (fun seen s t t' _ ht hs => ?_) h
  obtain ⟨relocs, -, hadd⟩ := scanSection_eq_ok hs
  cases hadd with
  | text f kind =>
    intro g hg
    simp only [FunctionTables.addText] at hg
    split_ifs at hg
    · exact ht g hg
    · rcases List.mem_append.mp hg with hg | hg
      · exact ht g hg
      · rw [List.mem_singleton.mp hg]
        exact ne_nil_of_text kind
  | _ => exact ht

/-! ## When the reservation is enough -/

/-- **When enough shared memory is reserved**: the dynamic size fits in the field, and static and
dynamic size together fit in the larger of the recorded and the dynamic size, rounded up. A constant
bank −8 lies over the lower bits of the field. -/
def SharedMemCovers (recorded static dynamic : ℕ) (constants : List KernelConstantInfo) : Prop :=
  dynamic ≤ 0x3FF00 ∧ static + dynamic ≤ constants.foldl KernelConstantInfo.overlayNat
    (max 1024 ((max recorded dynamic + 255) / 256 * 256))

instance (recorded static dynamic : ℕ) (constants : List KernelConstantInfo) :
    Decidable (SharedMemCovers recorded static dynamic constants) :=
  inferInstanceAs (Decidable (_ ∧ _))

/-- The size in the field, as long as the dynamic size fits. -/
theorem toNat_reserved {recorded dynamic : NvU32} (hrecorded : recorded.toNat < 2 ^ 16)
    (h : dynamic.toNat ≤ 0x3FF00) :
    (maxOf 0x400 (roundUp (maxOf recorded dynamic) 0x100) &&& 0x3FFFF).toNat =
      max 1024 ((max recorded.toNat dynamic.toNat + 255) / 256 * 256) := by
  have hround := toNat_roundUp (maxOf recorded dynamic) 0x100 (by decide)
    (by rw [toNat_maxOf]; simp only [BitVec.reduceToNat]; omega)
  rw [toNat_maxOf recorded] at hround
  rw [BitVec.toNat_and, toNat_maxOf, hround]
  simp only [BitVec.reduceToNat]
  rw [Nat.and_two_pow_sub_one_eq_mod _ 18]
  omega

/-- A dynamic size that does not fit leaves less than itself in the field. -/
theorem reserved_lt {recorded dynamic : NvU32} (hrecorded : recorded.toNat < 2 ^ 16)
    (h : 0x3FF00 < dynamic.toNat) (constants : List KernelConstantInfo) :
    constants.foldl KernelConstantInfo.overlayNat
      (maxOf 0x400 (roundUp (maxOf recorded dynamic) 0x100) &&& 0x3FFFF).toNat < dynamic.toNat := by
  have hmask : (maxOf 0x400 (roundUp (maxOf recorded dynamic) 0x100) &&& 0x3FFFF).toNat =
      (maxOf 0x400 (roundUp (maxOf recorded dynamic) 0x100)).toNat % 2 ^ 18 := by
    rw [BitVec.toNat_and]
    exact Nat.and_two_pow_sub_one_eq_mod _ 18
  by_cases hlarge : 2 ^ 18 ≤ dynamic.toNat
  · refine Nat.lt_of_lt_of_le (foldl_overlayNat_lt (by decide) ?_ constants) hlarge
    rw [hmask]
    exact Nat.mod_lt _ (by decide)
  · -- rounding up leaves the field, and its top bit is not set either
    refine Nat.lt_trans (foldl_overlayNat_lt (Nat.le_refl 17) ?_ constants) (by omega)
    have hround := toNat_roundUp (maxOf recorded dynamic) 0x100 (by decide)
      (by rw [toNat_maxOf]; simp only [BitVec.reduceToNat]; omega)
    rw [toNat_maxOf recorded] at hround
    rw [hmask, toNat_maxOf, hround]
    simp only [BitVec.reduceToNat]
    omega

/-- The layout keeps the names. -/
theorem any_name_of_sameBut {sections sections' : List Section}
    (h : List.Forall₂ Section.SameBut sections sections') (name : Name) :
    sections'.any (·.name == name) = sections.any (·.name == name) := by
  have hnames := congrArg (fun names : List Name => names.any (· == name)) (names_of_sameBut h)
  rw [List.any_map, List.any_map] at hnames
  exact hnames

/-- The loader records less than 64 kilobytes. -/
theorem toNat_recordedSharedMem_lt (image : ElfImage) (f : Name) :
    (image.recordedSharedMem f).toNat < 2 ^ 16 := by
  unfold ElfImage.recordedSharedMem
  split_ifs
  · rw [BitVec.toNat_setWidth_of_le (by decide)]
    exact BitVec.isLt _
  · decide

/-- The layout keeps what the loader records for a function. -/
theorem recordedSharedMem_of_sameBut {image : ElfImage} {sections : List Section}
    (h : List.Forall₂ Section.SameBut image.sections sections) (f : Name) :
    ElfImage.recordedSharedMem { image with sections := sections } f =
      image.recordedSharedMem f := by
  unfold ElfImage.recordedSharedMem
  rw [any_name_of_sameBut h]

/-- The record of a function of a loaded module. -/
theorem sharedMem_of_loaded {image : ElfImage} {m : LibreCUmodule} (h : image.Loaded m)
    {f : LibreCUFunction} (hf : f ∈ m.functions) :
    f.sharedMem = image.recordedSharedMem f.name.toList := by
  rw [h.functions] at hf
  obtain ⟨name, hname, rfl⟩ := List.mem_map.mp hf
  have hsame := sameBut_of_rebuildImage h.rebuild
  have hrecorded := functionSharedMem_of_scan h.scan (ne_nil_of_scan h.scan name hname)
  rw [recordedSharedMem_of_sameBut hsame] at hrecorded
  rw [FunctionTables.function, String.toList_ofList]
  exact hrecorded

/-- **Shared memory is reserved for every kernel, if and only if** the condition holds: for a
function of a loaded module and a launch of it that succeeded, the field `SHARED_MEMORY_SIZE` of the
descriptor the launch wrote covers the static and the dynamic shared memory. -/
theorem shared_memory_covers_iff {image : ElfImage} {m : LibreCUmodule} {h₀ h₁ h h' : Host}
    {f : LibreCUFunction} {function : ℕ} {shaderLocalMemoryVa : NvU64} {grid block : Dim3}
    {sharedMemBytes : NvU32} {params : ℕ → ℕ → NvU8} {numParams : NvU64} {async : Bool}
    (hload : call (libreCuModuleLoadData (some image)) h₀ = (.ok m, h₁)) (hf : f ∈ m.functions)
    (hfunction : h.functions function = { f with shaderLocalMemoryVa := shaderLocalMemoryVa })
    (hlaunch : call (launchFunction (some function) grid block sharedMemBytes params numParams
      async) h = (.ok (), h')) :
    image.staticSharedMem f.name.toList + sharedMemBytes.toNat ≤
        (sharedMemorySize.get h'.lastQmd).toNat ↔
      SharedMemCovers (image.recordedSharedMem f.name.toList).toNat
        (image.staticSharedMem f.name.toList) sharedMemBytes.toNat f.constants := by
  obtain ⟨loaded⟩ := loaded_of_ok hload
  have hqmd := wp_launchFunction_qmd function grid block sharedMemBytes params numParams async h
  rw [wp_of_call hlaunch, hfunction] at hqmd
  obtain ⟨hbanks, slm, kernargsPointer, hwords⟩ := hqmd
  have hget : sharedMemorySize.get h'.lastQmd = f.constants.foldl (fun size c => c.overlay size)
      (maxOf 0x400 (roundUp (maxOf (image.recordedSharedMem f.name.toList) sharedMemBytes) 0x100)
        &&& 0x3FFFF) := by
    have hqmd := get_sharedMemorySize_qmdData hbanks grid block sharedMemBytes slm kernargsPointer
    rw [← sharedMem_of_loaded loaded hf]
    refine Eq.trans ?_ hqmd
    rw [QmdField.get, QmdField.get, hwords _ (by decide)]
  have hrecorded := toNat_recordedSharedMem_lt image f.name.toList
  have hfield : (maxOf 0x400 (roundUp (maxOf (image.recordedSharedMem f.name.toList)
      sharedMemBytes) 0x100) &&& 0x3FFFF : NvU32).toNat < 2 ^ 18 := by
    rw [BitVec.toNat_and]
    exact Nat.lt_of_le_of_lt Nat.and_le_right (by decide)
  rw [hget, toNat_foldl_overlay hfield]
  by_cases hfits : sharedMemBytes.toNat ≤ 0x3FF00
  · rw [toNat_reserved hrecorded hfits]
    exact (and_iff_right hfits).symm
  · have hlt := reserved_lt hrecorded (Nat.not_le.mp hfits) f.constants
    exact ⟨fun hle => absurd hle (by omega), fun hcovers => absurd hcovers.1 hfits⟩

/-! ## A kernel at work -/

/-- An image with one kernel, its empty constant bank and its static shared memory. -/
def sharedImage (size : NvU64) : ElfImage where
  sectionEntrySize := 64
  sections := [{ name := ".text.k".toList, type := shtProgbits },
    { name := ".nv.constant0.k".toList, type := shtProgbits },
    { name := ".nv.shared.k".toList, type := shtNobits, size := size }]

/-- The record of that kernel, loaded to the start of the heap. -/
def sharedKernel : LibreCUFunction where
  name := "k"
  funcVaAddr := uvmHeapStart
  sharedMem := 64
  numRegisters := 0
  localMemReq := 0
  functionSize := 0
  constants := [⟨0, uvmHeapStart, 0⟩]
  paramInfo := []

/-- A stream in front of its first command, where all memory calls succeed. -/
def loadHost : Host where
  queue := { kernArgsPageVa := 0x2000000000, currentQueueType := none, timelineSignal := 0x3000000000 }
  ctx := { flags := 0, computeClass := 0 }
  vm := { uvmVaddr := uvmHeapStart, sysReply := fun _ => { handle := 1 } }
  functions := fun _ => sharedKernel

/-- Load the image. -/
def loadShared (size : NvU64) : Except Failure LibreCUmodule × Host :=
  call (libreCuModuleLoadData (some (sharedImage size))) loadHost

/-- Launch the kernel. -/
def launchShared (size : NvU64) (sharedMemBytes : NvU32) : Except Failure Unit × Host :=
  call (launchFunction (some 0) ⟨1, 1, 1⟩ ⟨1, 1, 1⟩ sharedMemBytes (fun _ _ => 0) 0 true)
    (loadShared size).2

/-- A kernel with little shared memory of both kinds gets enough. -/
theorem shared_memory_covers_iff_sample :
    (sharedImage 512).staticSharedMem sharedKernel.name.toList + (512 : NvU32).toNat ≤
        (sharedMemorySize.get (launchShared 512 512).2.lastQmd).toNat ↔
      SharedMemCovers ((sharedImage 512).recordedSharedMem sharedKernel.name.toList).toNat
        ((sharedImage 512).staticSharedMem sharedKernel.name.toList) (512 : NvU32).toNat
        sharedKernel.constants := by
  have hload : loadShared 512 = (.ok ⟨[sharedKernel], uvmHeapStart⟩, (loadShared 512).2) :=
    Prod.ext (by decide +kernel) rfl
  have hlaunch : launchShared 512 512 = (.ok (), (launchShared 512 512).2) :=
    Prod.ext (by decide +kernel) rfl
  have hfunction : (loadShared 512).2.functions 0 =
      { sharedKernel with shaderLocalMemoryVa := 0 } := by decide +kernel
  exact @shared_memory_covers_iff (sharedImage 512) _ loadHost _ _ _ sharedKernel 0 0 ⟨1, 1, 1⟩
    ⟨1, 1, 1⟩ 512 (fun _ _ => 0) 0 true hload (List.mem_singleton.mpr rfl) hfunction hlaunch

/-- **Static shared memory is not reserved**: a kernel with two kilobytes of it is launched with
one. -/
theorem static_shared_memory_not_reserved :
    (loadShared 2048).1 = .ok ⟨[sharedKernel], uvmHeapStart⟩ ∧
      (loadShared 2048).2.functions 0 = sharedKernel ∧
      (launchShared 2048 0).1 = .ok () ∧
      ¬ (sharedImage 2048).staticSharedMem "k".toList + (0 : NvU32).toNat ≤
        (sharedMemorySize.get (launchShared 2048 0).2.lastQmd).toNat := by
  refine ⟨by decide +kernel, by decide +kernel, by decide +kernel, by decide +kernel⟩

end LibreCuda
