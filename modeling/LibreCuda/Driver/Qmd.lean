import LibreCuda.Driver.State

/-! # Queue meta data

The launch descriptor `qmd_data` that `launchFunction` fills with `FLD_SET_DRF_NUM_MW`, field by
field, at the bit positions of `clc6c0qmd.h`. -/

namespace LibreCuda

/-- The words of `qmd_data`; the array of the source has the first 64. -/
abbrev QmdData : Type := ℕ → NvU32

/-- Words of `qmd_data` (`qmd_cmd_t`). -/
def qmdWords : ℕ := 0x40

/-- A field `MW(hi:lo)` of the descriptor. -/
structure QmdField where
  hi : NvU32
  lo : NvU32
  deriving DecidableEq, Repr

/-- `DRF_WORD_MW`: the word a field is in. -/
def QmdField.word (f : QmdField) : ℕ := (f.lo / 32).toNat

/-- `DRF_SHIFT_MW`: the bit of that word a field starts at. -/
def QmdField.shift (f : QmdField) : ℕ := (f.lo % 32).toNat

/-- `DRF_MASK_MW`: a mask of the width of the field. -/
def QmdField.mask (f : QmdField) : NvU32 :=
  0xFFFFFFFF >>> ((31 - f.hi % 32 + f.lo % 32) % 32).toNat

/-- `FLD_SET_DRF_NUM_MW`: overwrite a field of the descriptor. -/
def fldSetDrfNum (f : QmdField) (n : NvU64) (q : QmdData) : QmdData :=
  Function.update q f.word
    ((q f.word &&& ~~~(f.mask <<< f.shift)) ||| ((n.setWidth 32 &&& f.mask) <<< f.shift))

/-- `DRF_VAL_MW`: read a field of the descriptor. -/
def QmdField.get (f : QmdField) (q : QmdData) : NvU32 := (q f.word >>> f.shift) &&& f.mask

/-- The bits of its word a field has. -/
def QmdField.bits (f : QmdField) : NvU32 := f.mask <<< f.shift

/-- Two fields share no bit. -/
def QmdField.Apart (f g : QmdField) : Prop := f.word ≠ g.word ∨ f.bits &&& g.bits = 0

instance (f g : QmdField) : Decidable (f.Apart g) := inferInstanceAs (Decidable (_ ∨ _))

/-- A field whose value fits in 32 bits. -/
def fldSetDrfNum32 (f : QmdField) (n : NvU32) (q : QmdData) : QmdData :=
  fldSetDrfNum f (n.setWidth 64) q

/-- Setting a field leaves the fields that share no bit with it alone. -/
theorem get_fldSetDrfNum_of_apart {f g : QmdField} (h : f.Apart g) (n : NvU64) (q : QmdData) :
    f.get (fldSetDrfNum g n q) = f.get q := by
  unfold QmdField.get fldSetDrfNum
  by_cases hword : f.word = g.word
  · have hbits : f.bits &&& g.bits = 0 := h.resolve_left (not_not_intro hword)
    rw [hword, Function.update_self]
    ext i hi
    have hbit : (f.bits &&& g.bits).getLsbD (f.shift + i) = false := by rw [hbits]; simp
    simp only [QmdField.bits, BitVec.getLsbD_and, BitVec.getLsbD_shiftLeft] at hbit
    simp at hbit ⊢
    grind
  · rw [Function.update_of_ne hword]

/-- A field within its word reads back what it was set to. -/
theorem get_fldSetDrfNum_self {f : QmdField} (h : f.bits >>> f.shift = f.mask) (n : NvU64)
    (q : QmdData) : f.get (fldSetDrfNum f n q) = n.setWidth 32 &&& f.mask := by
  unfold QmdField.get fldSetDrfNum
  rw [Function.update_self]
  ext i hi
  have hbit : (f.bits >>> f.shift).getLsbD i = f.mask.getLsbD i := by rw [h]
  simp only [QmdField.bits, BitVec.getLsbD_ushiftRight, BitVec.getLsbD_shiftLeft] at hbit
  simp at hbit ⊢
  grind

/-! ## Fields of `C6C0_QMDV03_00` -/

namespace QmdField

def qmdGroupId : QmdField := ⟨133, 128⟩
def smGlobalCachingEnable : QmdField := ⟨134, 134⟩
def invalidateTextureHeaderCache : QmdField := ⟨186, 186⟩
def invalidateTextureSamplerCache : QmdField := ⟨187, 187⟩
def invalidateTextureDataCache : QmdField := ⟨188, 188⟩
def invalidateShaderDataCache : QmdField := ⟨189, 189⟩
def programPrefetchAddrLowerShifted : QmdField := ⟨287, 256⟩
def cwdMembarType : QmdField := ⟨369, 368⟩
def apiVisibleCallLimit : QmdField := ⟨378, 378⟩
def samplerIndex : QmdField := ⟨382, 382⟩
def ctaRasterWidth : QmdField := ⟨415, 384⟩
def ctaRasterHeight : QmdField := ⟨431, 416⟩
def ctaRasterDepth : QmdField := ⟨463, 448⟩
def sharedMemorySize : QmdField := ⟨561, 544⟩
def minSmConfigSharedMemSize : QmdField := ⟨567, 562⟩
def maxSmConfigSharedMemSize : QmdField := ⟨574, 569⟩
def qmdMajorVersion : QmdField := ⟨583, 580⟩
def ctaThreadDimension0 : QmdField := ⟨607, 592⟩
def ctaThreadDimension1 : QmdField := ⟨623, 608⟩
def ctaThreadDimension2 : QmdField := ⟨639, 624⟩
def registerCountV : QmdField := ⟨656, 648⟩
def targetSmConfigSharedMemSize : QmdField := ⟨662, 657⟩
def barrierCount : QmdField := ⟨767, 763⟩
def programAddressLower : QmdField := ⟨1567, 1536⟩
def programAddressUpper : QmdField := ⟨1584, 1568⟩
def shaderLocalMemoryHighSize : QmdField := ⟨1623, 1600⟩
def programPrefetchAddrUpperShifted : QmdField := ⟨1640, 1632⟩
def programPrefetchSize : QmdField := ⟨1649, 1641⟩
def sassVersion : QmdField := ⟨1663, 1656⟩

/-- The fields of constant bank `i`, whose positions the header computes from `i`. -/
def constantBufferValid (i : NvU32) : QmdField := ⟨640 + i * 1, 640 + i * 1⟩
def constantBufferAddrLower (i : NvU32) : QmdField := ⟨1055 + i * 64, 1024 + i * 64⟩
def constantBufferAddrUpper (i : NvU32) : QmdField := ⟨1072 + i * 64, 1056 + i * 64⟩
def constantBufferInvalidate (i : NvU32) : QmdField := ⟨1074 + i * 64, 1074 + i * 64⟩
def constantBufferSizeShifted4 (i : NvU32) : QmdField := ⟨1087 + i * 64, 1075 + i * 64⟩

end QmdField

open QmdField

/-! ## Filling the descriptor -/

/-- Grid or block dimensions of a launch. -/
structure Dim3 where
  x : NvU32
  y : NvU32
  z : NvU32
  deriving DecidableEq, Repr

/-- `shmem_usage`: the larger of the function's own and the requested shared memory. -/
def shmemUsage (function : LibreCUFunction) (sharedMemBytes : NvU32) : NvU32 :=
  maxOf function.sharedMem sharedMemBytes

/-- `smem_config`: the smallest of the three configurations that is large enough. -/
def smemConfig (usage : NvU32) : NvU32 :=
  let step (min : NvU32) (shmemConf : NvU32) : NvU32 :=
    if usage ≤ shmemConf * 1024 then minOf (shmemConf * 1024) min else min
  [32, 64, 100].foldl step 0xFFFFFFFF / 4096 + 1

/-- The fields of one constant bank. -/
def setConstantBuffer (q : QmdData) (c : KernelConstantInfo) : QmdData :=
  fldSetDrfNum32 (constantBufferValid c.constNr) 1 <|
  fldSetDrfNum (constantBufferSizeShifted4 c.constNr) c.size <|
  fldSetDrfNum32 (constantBufferAddrLower c.constNr) (lo32 c.address) <|
  fldSetDrfNum32 (constantBufferAddrUpper c.constNr) (hi32 c.address) q

/-- The fields of a constant bank are within `qmd_data`; writing past it is undefined. -/
def KernelConstantInfo.inQmd (c : KernelConstantInfo) : Bool :=
  [constantBufferAddrUpper c.constNr, constantBufferAddrLower c.constNr,
    constantBufferSizeShifted4 c.constNr, constantBufferValid c.constNr].all (·.word < qmdWords)

/-- The fields that do not depend on the launch. -/
def qmdDefaults : QmdData :=
  fldSetDrfNum32 (constantBufferInvalidate 0) 1 <|
  fldSetDrfNum32 qmdMajorVersion 3 <|
  fldSetDrfNum32 cwdMembarType 1 <|
  fldSetDrfNum32 samplerIndex 1 <|
  fldSetDrfNum32 apiVisibleCallLimit 1 <|
  fldSetDrfNum32 invalidateShaderDataCache 1 <|
  fldSetDrfNum32 invalidateTextureDataCache 1 <|
  fldSetDrfNum32 invalidateTextureSamplerCache 1 <|
  fldSetDrfNum32 invalidateTextureHeaderCache 1 <|
  fldSetDrfNum32 smGlobalCachingEnable 1 <|
  fldSetDrfNum32 qmdGroupId 0x3F fun _ => 0

/-- The descriptor of a launch, in the order `launchFunction` sets its fields. -/
def qmdData (function : LibreCUFunction) (grid block : Dim3) (sharedMemBytes : NvU32)
    (currentSlmPerThread kernargsPointer : NvU64) : QmdData :=
  let usage := shmemUsage function sharedMemBytes
  let program :=
    fldSetDrfNum (programPrefetchAddrUpperShifted) (function.funcVaAddr >>> 40) <|
    fldSetDrfNum (programPrefetchAddrLowerShifted) (function.funcVaAddr >>> 8) <|
    fldSetDrfNum32 sassVersion 0x89 <|
    fldSetDrfNum32 programAddressUpper (hi32 function.funcVaAddr) <|
    fldSetDrfNum32 programAddressLower (lo32 function.funcVaAddr) <|
    fldSetDrfNum programPrefetchSize (function.functionSize >>> 8) <|
    fldSetDrfNum shaderLocalMemoryHighSize currentSlmPerThread <|
    fldSetDrfNum32 barrierCount 1 <|
    fldSetDrfNum32 targetSmConfigSharedMemSize (smemConfig usage) <|
    fldSetDrfNum32 registerCountV function.numRegisters <|
    fldSetDrfNum32 maxSmConfigSharedMemSize 0x1A <|
    fldSetDrfNum32 minSmConfigSharedMemSize (smemConfig usage) <|
    fldSetDrfNum32 sharedMemorySize (maxOf 0x400 (roundUp usage 0x100)) qmdDefaults
  let dimensions :=
    fldSetDrfNum32 ctaThreadDimension2 block.z <|
    fldSetDrfNum32 ctaThreadDimension1 block.y <|
    fldSetDrfNum32 ctaThreadDimension0 block.x <|
    fldSetDrfNum32 ctaRasterDepth grid.z <|
    fldSetDrfNum32 ctaRasterHeight grid.y <|
    fldSetDrfNum32 ctaRasterWidth grid.x program
  let constants := function.constants.foldl setConstantBuffer dimensions
  fldSetDrfNum32 (constantBufferAddrLower 0) (lo32 kernargsPointer) <|
  fldSetDrfNum32 (constantBufferAddrUpper 0) (hi32 kernargsPointer) constants

end LibreCuda
