import LibreCuda.Driver.Qmd
import LibreCuda.Foundation.Fields

/-! # The encoding of a descriptor

The read-modify-write updates of `qmd_data` as writes of bit fields, and what the finished
descriptor says.

* **`qmdData_eq_writeAll`**: the descriptor is a sequence of field writes on zero words.
* **`qmd_decodes`**: every field reads back the value that was written to it last, and every bit of
  no field is zero, as long as the numbers of the constant banks are below eight. -/

namespace LibreCuda

open Fields QmdField

/-! ## Fields -/

/-- `DRF_SPANS`: the field is in two words. -/
def QmdField.spans (f : QmdField) : Bool := f.lo / 32 != f.hi / 32

/-- `DRF_VAL_MW`: read a field, also one in two words. -/
def QmdField.val (f : QmdField) (q : QmdData) : NvU32 :=
  if f.spans then
    ((q f.word >>> f.shift) &&& (0xFFFFFFFF : NvU32)) |||
      (((q (f.hi / 32).toNat >>> 0) &&& ((0xFFFFFFFF : NvU32) >>> (31 - f.hi % 32).toNat)) <<<
        ((32 - f.lo % 32) % 32).toNat)
  else f.get q

/-- `DRF_SIZE_MW`: the bits of a field. -/
def QmdField.width (f : QmdField) : ℕ := (f.hi % 32 - f.lo % 32 + 1).toNat

/-- The field is in one word. -/
structure QmdField.InWord (f : QmdField) : Prop where
  word : f.lo / 32 = f.hi / 32
  ordered : f.lo % 32 ≤ f.hi % 32

instance (f : QmdField) : Decidable f.InWord :=
  decidable_of_iff (f.lo / 32 = f.hi / 32 ∧ f.lo % 32 ≤ f.hi % 32)
    ⟨fun h => ⟨h.1, h.2⟩, fun h => ⟨h.word, h.ordered⟩⟩

/-- The field has the bit of that number. -/
def QmdField.Holds (f : QmdField) (bit : ℕ) : Prop := f.lo.toNat ≤ bit ∧ bit ≤ f.hi.toNat

instance (f : QmdField) (bit : ℕ) : Decidable (f.Holds bit) := inferInstanceAs (Decidable (_ ∧ _))

/-- The bits of a field. -/
def QmdField.field (f : QmdField) : Field := ⟨f.word, f.shift, f.width⟩

section InWord

variable {f : QmdField} (h : f.InWord)

include h

theorem QmdField.InWord.bounds : f.shift ≤ (f.hi % 32).toNat ∧ (f.hi % 32).toNat < 32 ∧
    f.width = (f.hi % 32).toNat - f.shift + 1 := by
  have hle : (f.lo % 32).toNat ≤ (f.hi % 32).toNat := h.ordered
  have hlt : (f.hi % 32).toNat < 32 := by
    rw [BitVec.toNat_umod]
    exact Nat.mod_lt _ (by decide)
  refine ⟨hle, hlt, ?_⟩
  unfold QmdField.width QmdField.shift
  bv_omega

theorem QmdField.InWord.fits : f.field.Fits 32 := by
  obtain ⟨hle, hlt, hwidth⟩ := h.bounds
  unfold Field.Fits QmdField.field
  simp only [hwidth]
  omega

/-- The mask of the header is as many ones as the field has bits. -/
theorem QmdField.InWord.mask_eq : f.mask = f.field.mask 32 := by
  obtain ⟨hle, hlt, hwidth⟩ := h.bounds
  have hshift : ((31 - f.hi % 32 + f.lo % 32) % 32).toNat = 32 - f.width := by
    unfold QmdField.shift at hle hwidth
    rw [hwidth]
    generalize f.hi % 32 = hi at hle hlt ⊢
    generalize f.lo % 32 = lo at hle ⊢
    have hsum : (31 - hi + lo).toNat = 31 - hi.toNat + lo.toNat := by bv_omega
    have h32 : (32 : NvU32).toNat = 32 := rfl
    rw [BitVec.toNat_umod, hsum, h32]
    omega
  apply BitVec.eq_of_getLsbD_eq
  intro i hi
  have hones : (4294967295 : ℕ) = 2 ^ 32 - 1 := rfl
  rw [Field.getLsbD_mask, QmdField.mask, hshift, BitVec.natCast_eq_ofNat, BitVec.getLsbD_ofNat,
    hones, Nat.testBit_shiftRight, Nat.testBit_two_pow_sub_one]
  have hlt : 32 - f.width + i < 32 ↔ i < f.width := by omega
  rw [decide_eq_true hi, Bool.true_and, Bool.true_and]
  exact decide_eq_decide.mpr hlt

theorem QmdField.InWord.get_eq (q : QmdData) : f.get q = f.field.get q := by
  rw [QmdField.get, h.mask_eq]
  rfl

theorem QmdField.InWord.val_eq (q : QmdData) : f.val q = f.field.get q := by
  have hspans : f.spans = false := by
    rw [QmdField.spans, h.word, bne_self_eq_false]
  rw [QmdField.val, hspans, if_neg Bool.false_ne_true, h.get_eq]

/-- The field depends on its word only. -/
theorem QmdField.InWord.val_congr {q q' : QmdData} (hq : q f.word = q' f.word) :
    f.val q = f.val q' := by
  rw [h.val_eq, h.val_eq, Field.get, Field.get, QmdField.field, hq]

/-- The bits of the field are those from `lo` to `hi`. -/
theorem QmdField.InWord.covers_iff (bit : ℕ) :
    f.field.Covers (bit / 32) (bit % 32) ↔ f.Holds bit := by
  obtain ⟨hle, hlt, hwidth⟩ := h.bounds
  have hword := congrArg BitVec.toNat h.word
  have h32 : (32 : NvU32).toNat = 32 := rfl
  simp only [BitVec.toNat_udiv, BitVec.toNat_umod, h32, QmdField.shift] at hword hle hlt hwidth
  simp only [Field.Covers, QmdField.Holds, QmdField.field, QmdField.word, QmdField.shift, hwidth,
    BitVec.toNat_udiv, BitVec.toNat_umod, h32]
  omega

/-- **`FLD_SET_DRF_NUM_MW` writes the bits of the field.** -/
theorem QmdField.InWord.set_eq (n : NvU64) (q : QmdData) :
    fldSetDrfNum f n q = f.field.set (n.setWidth 32) q := by
  rw [fldSetDrfNum, h.mask_eq]
  rfl

end InWord

/-! ## The writes of a launch -/

/-- The fields that do not belong to a constant bank, and their values, in the order
`launchFunction` writes them. -/
def launchWrites (f : LibreCUFunction) (grid block : Dim3) (sharedMemBytes : NvU32)
    (currentSlmPerThread : NvU64) : List (QmdField × NvU64) :=
  let usage := shmemUsage f sharedMemBytes
  [(qmdGroupId, 0x3F), (smGlobalCachingEnable, 1), (invalidateTextureHeaderCache, 1),
    (invalidateTextureSamplerCache, 1), (invalidateTextureDataCache, 1),
    (invalidateShaderDataCache, 1), (apiVisibleCallLimit, 1), (samplerIndex, 1),
    (cwdMembarType, 1), (qmdMajorVersion, 3), (constantBufferInvalidate 0, 1),
    (sharedMemorySize, (maxOf 0x400 (roundUp usage 0x100)).setWidth 64),
    (minSmConfigSharedMemSize, (smemConfig usage).setWidth 64),
    (maxSmConfigSharedMemSize, 0x1A),
    (registerCountV, f.numRegisters.setWidth 64),
    (targetSmConfigSharedMemSize, (smemConfig usage).setWidth 64),
    (barrierCount, 1), (shaderLocalMemoryHighSize, currentSlmPerThread),
    (programPrefetchSize, f.functionSize >>> 8),
    (programAddressLower, (lo32 f.funcVaAddr).setWidth 64),
    (programAddressUpper, (hi32 f.funcVaAddr).setWidth 64),
    (sassVersion, 0x89), (programPrefetchAddrLowerShifted, f.funcVaAddr >>> 8),
    (programPrefetchAddrUpperShifted, f.funcVaAddr >>> 40),
    (ctaRasterWidth, grid.x.setWidth 64), (ctaRasterHeight, grid.y.setWidth 64),
    (ctaRasterDepth, grid.z.setWidth 64), (ctaThreadDimension0, block.x.setWidth 64),
    (ctaThreadDimension1, block.y.setWidth 64), (ctaThreadDimension2, block.z.setWidth 64)]

/-- The fields of a constant bank that the loop over the constants writes. -/
def bankFields (i : NvU32) : List QmdField :=
  [constantBufferAddrUpper i, constantBufferAddrLower i, constantBufferSizeShifted4 i,
    constantBufferValid i]

/-- One round of the loop over the constants. -/
def bankWrites (c : KernelConstantInfo) : List (QmdField × NvU64) :=
  [(constantBufferAddrUpper c.constNr, (hi32 c.address).setWidth 64),
    (constantBufferAddrLower c.constNr, (lo32 c.address).setWidth 64),
    (constantBufferSizeShifted4 c.constNr, c.size), (constantBufferValid c.constNr, 1)]

/-- The address of the arguments is written last. -/
def argumentWrites (ptr : NvU64) : List (QmdField × NvU64) :=
  [(constantBufferAddrUpper 0, (hi32 ptr).setWidth 64),
    (constantBufferAddrLower 0, (lo32 ptr).setWidth 64)]

/-- All writes of a launch. -/
def qmdWrites (f : LibreCUFunction) (grid block : Dim3) (sharedMemBytes : NvU32)
    (currentSlmPerThread ptr : NvU64) : List (QmdField × NvU64) :=
  launchWrites f grid block sharedMemBytes currentSlmPerThread ++
    f.constants.flatMap bankWrites ++ argumentWrites ptr

/-- A write of a field of the header as one of a bit field. -/
def fieldWrite (x : QmdField × NvU64) : Field × BitVec 32 := (x.1.field, x.2.setWidth 32)

/-- The descriptor is filled by the writes, one after another. -/
theorem qmdData_eq_foldl (f : LibreCUFunction) (grid block : Dim3) (sharedMemBytes : NvU32)
    (currentSlmPerThread ptr : NvU64) :
    qmdData f grid block sharedMemBytes currentSlmPerThread ptr =
      (qmdWrites f grid block sharedMemBytes currentSlmPerThread ptr).foldl
        (fun q x => fldSetDrfNum x.1 x.2 q) fun _ => 0 := by
  rw [qmdWrites, List.foldl_append, List.foldl_append, List.foldl_flatMap]
  rfl

theorem foldl_fldSetDrfNum {writes : List (QmdField × NvU64)} (h : ∀ x ∈ writes, x.1.InWord)
    (q : QmdData) :
    writes.foldl (fun q x => fldSetDrfNum x.1 x.2 q) q = writeAll (writes.map fieldWrite) q := by
  induction writes generalizing q with
  | nil => rfl
  | cons x writes ih =>
    obtain ⟨hx, h⟩ := List.forall_mem_cons.mp h
    rw [List.foldl_cons, ih h, hx.set_eq]
    rfl

/-! ## Fields apart -/

/-- The fields of a launch that do not belong to a constant bank. -/
def launchFields : List QmdField :=
  [qmdGroupId, smGlobalCachingEnable, invalidateTextureHeaderCache, invalidateTextureSamplerCache,
    invalidateTextureDataCache, invalidateShaderDataCache, apiVisibleCallLimit, samplerIndex,
    cwdMembarType, qmdMajorVersion, constantBufferInvalidate 0, sharedMemorySize,
    minSmConfigSharedMemSize, maxSmConfigSharedMemSize, registerCountV,
    targetSmConfigSharedMemSize, barrierCount, shaderLocalMemoryHighSize, programPrefetchSize,
    programAddressLower, programAddressUpper, sassVersion, programPrefetchAddrLowerShifted,
    programPrefetchAddrUpperShifted, ctaRasterWidth, ctaRasterHeight, ctaRasterDepth,
    ctaThreadDimension0, ctaThreadDimension1, ctaThreadDimension2]

theorem map_fst_launchWrites (f : LibreCUFunction) (grid block : Dim3) (sharedMemBytes : NvU32)
    (currentSlmPerThread : NvU64) :
    (launchWrites f grid block sharedMemBytes currentSlmPerThread).map Prod.fst = launchFields :=
  rfl

theorem inWord_launchFields : ∀ x ∈ launchFields, x.InWord := by decide +kernel

theorem apart_launchFields : launchFields.Pairwise fun x y => x.field.Apart y.field := by
  decide +kernel

/-- The numbers of the constant banks. -/
theorem exists_lt_of_constNr {i : NvU32} (h : i < 8) : ∃ k < 8, i = BitVec.ofNat 32 k :=
  ⟨i.toNat, h, by rw [BitVec.ofNat_toNat, BitVec.setWidth_eq]⟩

theorem inWord_bankFields {i : NvU32} (h : i < 8) : ∀ x ∈ bankFields i, x.InWord := by
  obtain ⟨k, hk, rfl⟩ := exists_lt_of_constNr h
  clear h
  revert k
  decide +kernel

theorem apart_bankFields {i : NvU32} (h : i < 8) :
    (bankFields i).Pairwise fun x y => x.field.Apart y.field := by
  obtain ⟨k, hk, rfl⟩ := exists_lt_of_constNr h
  clear h
  revert k
  decide +kernel

/-- No field of a constant bank shares a bit with one of the others. -/
theorem apart_launchFields_bankFields {i : NvU32} (h : i < 8) :
    ∀ x ∈ launchFields, ∀ y ∈ bankFields i, x.field.Apart y.field := by
  obtain ⟨k, hk, rfl⟩ := exists_lt_of_constNr h
  clear h
  revert k
  decide +kernel

/-- The fields of two constant banks share no bit. -/
theorem apart_bankFields_bankFields {i j : NvU32} (hi : i < 8) (hj : j < 8) (hne : i ≠ j) :
    ∀ x ∈ bankFields i, ∀ y ∈ bankFields j, x.field.Apart y.field := by
  obtain ⟨k, hk, rfl⟩ := exists_lt_of_constNr hi
  obtain ⟨l, hl, rfl⟩ := exists_lt_of_constNr hj
  clear hi hj
  revert k l
  decide +kernel

/-! ## Reading the descriptor -/

section Reading

variable {f : LibreCUFunction} {grid block : Dim3} {sharedMemBytes : NvU32}
  {currentSlmPerThread ptr : NvU64}

/-- The entry of a constant bank that is written last. -/
def LibreCUFunction.lastBank (f : LibreCUFunction) (i : NvU32) : Option KernelConstantInfo :=
  f.constants.reverse.find? fun c => c.constNr == i

/-- Behind the last entry of a constant bank, no entry has its number. -/
theorem split_of_lastBank {i : NvU32} {c : KernelConstantInfo} (h : f.lastBank i = some c) :
    c.constNr = i ∧ ∃ before after, f.constants = before ++ c :: after ∧
      ∀ d ∈ after, d.constNr ≠ i := by
  obtain ⟨hnr, after, before, hsplit, hafter⟩ := List.find?_eq_some_iff_append.mp h
  refine ⟨beq_iff_eq.mp hnr, before.reverse, after.reverse, ?_, fun d hd => ?_⟩
  · have hrev := congrArg List.reverse hsplit
    rw [List.reverse_reverse, List.reverse_append, List.reverse_cons, List.append_assoc,
      List.singleton_append] at hrev
    exact hrev
  · have hne := hafter d (List.mem_reverse.mp hd)
    simpa using hne

/-- Every field of a launch is one of the fields of no bank, or of a bank below eight. -/
theorem field_of_mem_qmdWrites (hbanks : ∀ c ∈ f.constants, c.constNr < 8) {x : QmdField × NvU64}
    (hx : x ∈ qmdWrites f grid block sharedMemBytes currentSlmPerThread ptr) :
    x.1 ∈ launchFields ∨ ∃ i < 8, x.1 ∈ bankFields i := by
  rw [qmdWrites, List.mem_append, List.mem_append] at hx
  rcases hx with (hx | hx) | hx
  · exact Or.inl (List.mem_map_of_mem (f := Prod.fst) hx)
  · obtain ⟨c, hc, hx⟩ := List.mem_flatMap.mp hx
    exact Or.inr ⟨c.constNr, hbanks c hc, List.mem_map_of_mem (f := Prod.fst) hx⟩
  · refine Or.inr ⟨0, by decide, ?_⟩
    simp only [argumentWrites, List.mem_cons, List.not_mem_nil, or_false] at hx
    rcases hx with rfl | rfl
    · exact List.mem_cons_self
    · exact List.mem_cons_of_mem _ List.mem_cons_self

theorem inWord_qmdWrites (hbanks : ∀ c ∈ f.constants, c.constNr < 8) :
    ∀ x ∈ qmdWrites f grid block sharedMemBytes currentSlmPerThread ptr, x.1.InWord := by
  intro x hx
  rcases field_of_mem_qmdWrites hbanks hx with hlaunch | ⟨i, hi, hbank⟩
  · exact inWord_launchFields _ hlaunch
  · exact inWord_bankFields hi _ hbank

/-- **The descriptor is a sequence of field writes.** -/
theorem qmdData_eq_writeAll (hbanks : ∀ c ∈ f.constants, c.constNr < 8) :
    qmdData f grid block sharedMemBytes currentSlmPerThread ptr =
      writeAll ((qmdWrites f grid block sharedMemBytes currentSlmPerThread ptr).map fieldWrite)
        fun _ => 0 := by
  rw [qmdData_eq_foldl, foldl_fldSetDrfNum (inWord_qmdWrites hbanks)]

/-- **A field reads back its value** if what is written behind it is apart from it. -/
theorem val_qmdData (hbanks : ∀ c ∈ f.constants, c.constNr < 8) {x : QmdField × NvU64}
    {before after : List (QmdField × NvU64)}
    (hwrites : qmdWrites f grid block sharedMemBytes currentSlmPerThread ptr = before ++ x :: after)
    (hapart : ∀ y ∈ after, x.1.field.Apart y.1.field) :
    (x.1.val (qmdData f grid block sharedMemBytes currentSlmPerThread ptr)).toNat =
      x.2.toNat % 2 ^ x.1.width := by
  have hinWord := @inWord_qmdWrites f grid block sharedMemBytes currentSlmPerThread ptr hbanks
  have hx : x.1.InWord := hinWord x (by rw [hwrites]; simp)
  have hmap : (qmdWrites f grid block sharedMemBytes currentSlmPerThread ptr).map fieldWrite =
      before.map fieldWrite ++ (x.1.field, x.2.setWidth 32) :: after.map fieldWrite := by
    rw [hwrites, List.map_append, List.map_cons]
    rfl
  have hafter : ∀ y ∈ after.map fieldWrite, y.1.Fits 32 ∧ x.1.field.Apart y.1 := by
    intro y hy
    obtain ⟨z, hz, rfl⟩ := List.mem_map.mp hy
    exact ⟨(hinWord z (by rw [hwrites]; simp [hz])).fits, hapart z hz⟩
  have hwidth : x.1.width ≤ 32 := Nat.le_trans (Nat.le_add_left _ _) hx.fits
  rw [hx.val_eq, qmdData_eq_writeAll hbanks, get_writeAll hx.fits hmap (fun y hy => (hafter y hy).1)
    (fun y hy => (hafter y hy).2), Field.toNat_and_mask hx.fits, BitVec.toNat_setWidth]
  exact Nat.mod_mod_of_dvd _ (Nat.pow_dvd_pow 2 hwidth)

/-- **What a descriptor says**: the values of its fields, cut to their widths, and nothing else. -/
structure QmdDecodes (q : QmdData) (f : LibreCUFunction) (grid block : Dim3)
    (sharedMemBytes : NvU32) (currentSlmPerThread ptr : NvU64) : Prop where
  launch : ∀ x ∈ launchWrites f grid block sharedMemBytes currentSlmPerThread,
    (x.1.val q).toNat = x.2.toNat % 2 ^ x.1.width
  bankSize : ∀ i < 8, ∀ c, f.lastBank i = some c →
    ((constantBufferSizeShifted4 i).val q).toNat = c.size.toNat % 2 ^ 13
  bankValid : ∀ i < 8, ∀ c, f.lastBank i = some c → (constantBufferValid i).val q = 1
  bankAddress : ∀ i < 8, i ≠ 0 → ∀ c, f.lastBank i = some c →
    (constantBufferAddrLower i).val q = lo32 c.address ∧
      ((constantBufferAddrUpper i).val q).toNat = (hi32 c.address).toNat % 2 ^ 17
  arguments : (constantBufferAddrLower 0).val q = lo32 ptr ∧
    ((constantBufferAddrUpper 0).val q).toNat = (hi32 ptr).toNat % 2 ^ 17
  zero : ∀ bit, (∀ x ∈ qmdWrites f grid block sharedMemBytes currentSlmPerThread ptr,
    ¬ x.1.Holds bit) → (q (bit / 32)).getLsbD (bit % 32) = false

/-- The fields that belong to no bank are written once. -/
theorem val_launchWrites (hbanks : ∀ c ∈ f.constants, c.constNr < 8) {x : QmdField × NvU64}
    (hx : x ∈ launchWrites f grid block sharedMemBytes currentSlmPerThread) :
    (x.1.val (qmdData f grid block sharedMemBytes currentSlmPerThread ptr)).toNat =
      x.2.toNat % 2 ^ x.1.width := by
  obtain ⟨before, after, hsplit⟩ := List.append_of_mem hx
  have hwrites : qmdWrites f grid block sharedMemBytes currentSlmPerThread ptr =
      before ++ x :: (after ++ f.constants.flatMap bankWrites ++ argumentWrites ptr) := by
    rw [qmdWrites, hsplit]
    simp
  have hfields := map_fst_launchWrites f grid block sharedMemBytes currentSlmPerThread
  have hmem : x.1 ∈ launchFields := hfields ▸ List.mem_map_of_mem hx
  have hpairs := apart_launchFields
  rw [← hfields, hsplit, List.map_append, List.map_cons] at hpairs
  have hbehind := (List.pairwise_cons.mp (List.pairwise_append.mp hpairs).2.1).1
  refine val_qmdData hbanks hwrites fun y hy => ?_
  rw [List.mem_append, List.mem_append] at hy
  rcases hy with (hy | hy) | hy
  · exact hbehind y.1 (List.mem_map_of_mem hy)
  · obtain ⟨c, hc, hy⟩ := List.mem_flatMap.mp hy
    exact apart_launchFields_bankFields (hbanks c hc) _ hmem _
      (List.mem_map_of_mem (f := Prod.fst) hy)
  · refine apart_launchFields_bankFields (by decide : (0 : NvU32) < 8) _ hmem _ ?_
    simp only [argumentWrites, List.mem_cons, List.not_mem_nil, or_false] at hy
    rcases hy with rfl | rfl
    · exact List.mem_cons_self
    · exact List.mem_cons_of_mem _ List.mem_cons_self

/-- The last entry of a bank gives the fields of the bank; what is written behind it, the address of
the arguments, may overwrite some of them. -/
theorem val_bankWrites (hbanks : ∀ c ∈ f.constants, c.constNr < 8) {c : KernelConstantInfo}
    (hc : f.lastBank c.constNr = some c) {x : QmdField × NvU64}
    {front back : List (QmdField × NvU64)} (hx : bankWrites c = front ++ x :: back)
    (harguments : ∀ y ∈ argumentWrites ptr, x.1.field.Apart y.1.field) :
    (x.1.val (qmdData f grid block sharedMemBytes currentSlmPerThread ptr)).toNat =
      x.2.toNat % 2 ^ x.1.width := by
  obtain ⟨-, before, after, hsplit, hafter⟩ := split_of_lastBank hc
  have hlt : c.constNr < 8 := hbanks c (by rw [hsplit]; simp)
  have hwrites : qmdWrites f grid block sharedMemBytes currentSlmPerThread ptr =
      (launchWrites f grid block sharedMemBytes currentSlmPerThread ++ before.flatMap bankWrites ++
        front) ++ x :: (back ++ after.flatMap bankWrites ++ argumentWrites ptr) := by
    rw [qmdWrites, hsplit, List.flatMap_append, List.flatMap_cons, hx]
    simp
  have hfields : (bankWrites c).map Prod.fst = bankFields c.constNr := rfl
  have hmem : x.1 ∈ bankFields c.constNr := by
    rw [← hfields, hx]
    simp
  have hpairs := apart_bankFields hlt
  rw [← hfields, hx, List.map_append, List.map_cons] at hpairs
  have hbehind := (List.pairwise_cons.mp (List.pairwise_append.mp hpairs).2.1).1
  refine val_qmdData hbanks hwrites fun y hy => ?_
  rw [List.mem_append, List.mem_append] at hy
  rcases hy with (hy | hy) | hy
  · exact hbehind y.1 (List.mem_map_of_mem hy)
  · obtain ⟨d, hd, hy⟩ := List.mem_flatMap.mp hy
    exact apart_bankFields_bankFields hlt (hbanks d (by rw [hsplit]; simp [hd]))
      (Ne.symm (hafter d hd)) _ hmem _ (List.mem_map_of_mem (f := Prod.fst) hy)
  · exact harguments y hy

/-- Size and valid bit of a bank share no bit with the address of bank 0. -/
theorem apart_arguments {i : NvU32} (h : i < 8) :
    (constantBufferSizeShifted4 i).field.Apart (constantBufferAddrUpper 0).field ∧
    (constantBufferSizeShifted4 i).field.Apart (constantBufferAddrLower 0).field ∧
    (constantBufferValid i).field.Apart (constantBufferAddrUpper 0).field ∧
    (constantBufferValid i).field.Apart (constantBufferAddrLower 0).field := by
  obtain ⟨k, hk, rfl⟩ := exists_lt_of_constNr h
  clear h
  revert k
  decide +kernel

theorem toNat_setWidth_mod (value : NvU32) :
    (value.setWidth 64 : NvU64).toNat % 2 ^ 32 = value.toNat := by
  rw [toNat_setWidth_64, Nat.mod_eq_of_lt value.isLt]

/-- The widths of the fields of a bank. -/
theorem width_bankFields {i : NvU32} (h : i < 8) :
    (constantBufferAddrUpper i).width = 17 ∧ (constantBufferAddrLower i).width = 32 ∧
      (constantBufferSizeShifted4 i).width = 13 ∧ (constantBufferValid i).width = 1 := by
  obtain ⟨k, hk, rfl⟩ := exists_lt_of_constNr h
  clear h
  revert k
  decide +kernel

/-- What is apart from the address of bank 0 is apart from the address of the arguments. -/
theorem apart_argumentWrites {g : QmdField}
    (hupper : g.field.Apart (constantBufferAddrUpper 0).field)
    (hlower : g.field.Apart (constantBufferAddrLower 0).field) :
    ∀ y ∈ argumentWrites ptr, g.field.Apart y.1.field := by
  intro y hy
  simp only [argumentWrites, List.mem_cons, List.not_mem_nil, or_false] at hy
  rcases hy with rfl | rfl
  · exact hupper
  · exact hlower

/-- The size of a bank is that of its last entry. -/
theorem val_bankSize (hbanks : ∀ c ∈ f.constants, c.constNr < 8) {i : NvU32} (hi : i < 8)
    {c : KernelConstantInfo} (hc : f.lastBank i = some c) :
    ((constantBufferSizeShifted4 i).val
      (qmdData f grid block sharedMemBytes currentSlmPerThread ptr)).toNat =
        c.size.toNat % 2 ^ 13 := by
  obtain ⟨rfl, -⟩ := split_of_lastBank hc
  obtain ⟨hupper, hlower, -⟩ := apart_arguments hi
  have hval := @val_bankWrites f grid block sharedMemBytes currentSlmPerThread ptr hbanks c hc
    (constantBufferSizeShifted4 c.constNr, c.size)
    [(constantBufferAddrUpper c.constNr, (hi32 c.address).setWidth 64),
      (constantBufferAddrLower c.constNr, (lo32 c.address).setWidth 64)]
    [(constantBufferValid c.constNr, 1)] rfl (apart_argumentWrites hupper hlower)
  rw [hval, (width_bankFields hi).2.2.1]

/-- A bank with an entry is valid. -/
theorem val_bankValid (hbanks : ∀ c ∈ f.constants, c.constNr < 8) {i : NvU32} (hi : i < 8)
    {c : KernelConstantInfo} (hc : f.lastBank i = some c) :
    (constantBufferValid i).val
      (qmdData f grid block sharedMemBytes currentSlmPerThread ptr) = 1 := by
  obtain ⟨rfl, -⟩ := split_of_lastBank hc
  obtain ⟨-, -, hupper, hlower⟩ := apart_arguments hi
  have hval := @val_bankWrites f grid block sharedMemBytes currentSlmPerThread ptr hbanks c hc
    (constantBufferValid c.constNr, 1)
    [(constantBufferAddrUpper c.constNr, (hi32 c.address).setWidth 64),
      (constantBufferAddrLower c.constNr, (lo32 c.address).setWidth 64),
      (constantBufferSizeShifted4 c.constNr, c.size)] [] rfl (apart_argumentWrites hupper hlower)
  rw [(width_bankFields hi).2.2.2] at hval
  exact BitVec.eq_of_toNat_eq hval

/-- The address of a bank other than bank 0 is that of its last entry. -/
theorem val_bankAddress (hbanks : ∀ c ∈ f.constants, c.constNr < 8) {i : NvU32} (hi : i < 8)
    (hne : i ≠ 0) {c : KernelConstantInfo} (hc : f.lastBank i = some c) :
    (constantBufferAddrLower i).val
        (qmdData f grid block sharedMemBytes currentSlmPerThread ptr) = lo32 c.address ∧
      ((constantBufferAddrUpper i).val
        (qmdData f grid block sharedMemBytes currentSlmPerThread ptr)).toNat =
          (hi32 c.address).toNat % 2 ^ 17 := by
  obtain ⟨rfl, -⟩ := split_of_lastBank hc
  obtain ⟨hupperWidth, hlowerWidth, -⟩ := width_bankFields hi
  have hapart := apart_bankFields_bankFields hi (by decide) hne
  have hzero : constantBufferAddrUpper 0 ∈ bankFields 0 ∧ constantBufferAddrLower 0 ∈ bankFields 0 :=
    ⟨List.mem_cons_self, List.mem_cons_of_mem _ List.mem_cons_self⟩
  have hupper := @val_bankWrites f grid block sharedMemBytes currentSlmPerThread ptr hbanks c hc
    (constantBufferAddrUpper c.constNr, (hi32 c.address).setWidth 64) []
    [(constantBufferAddrLower c.constNr, (lo32 c.address).setWidth 64),
      (constantBufferSizeShifted4 c.constNr, c.size), (constantBufferValid c.constNr, 1)] rfl
    (apart_argumentWrites (hapart _ List.mem_cons_self _ hzero.1)
      (hapart _ List.mem_cons_self _ hzero.2))
  have hlower := @val_bankWrites f grid block sharedMemBytes currentSlmPerThread ptr hbanks c hc
    (constantBufferAddrLower c.constNr, (lo32 c.address).setWidth 64)
    [(constantBufferAddrUpper c.constNr, (hi32 c.address).setWidth 64)]
    [(constantBufferSizeShifted4 c.constNr, c.size), (constantBufferValid c.constNr, 1)] rfl
    (apart_argumentWrites (hapart _ (List.mem_cons_of_mem _ List.mem_cons_self) _ hzero.1)
      (hapart _ (List.mem_cons_of_mem _ List.mem_cons_self) _ hzero.2))
  rw [hlowerWidth, toNat_setWidth_mod] at hlower
  rw [hupperWidth, toNat_setWidth_64] at hupper
  exact ⟨BitVec.eq_of_toNat_eq hlower, hupper⟩

/-- The address of bank 0 is that of the arguments. -/
theorem val_arguments (hbanks : ∀ c ∈ f.constants, c.constNr < 8) :
    (constantBufferAddrLower 0).val
        (qmdData f grid block sharedMemBytes currentSlmPerThread ptr) = lo32 ptr ∧
      ((constantBufferAddrUpper 0).val
        (qmdData f grid block sharedMemBytes currentSlmPerThread ptr)).toNat =
          (hi32 ptr).toNat % 2 ^ 17 := by
  obtain ⟨hupperWidth, hlowerWidth, -⟩ := width_bankFields (i := 0) (by decide)
  have hapart : (constantBufferAddrUpper 0).field.Apart (constantBufferAddrLower 0).field := by
    decide
  have hlower := @val_qmdData f grid block sharedMemBytes currentSlmPerThread ptr hbanks
    (constantBufferAddrLower 0, (lo32 ptr).setWidth 64)
    (launchWrites f grid block sharedMemBytes currentSlmPerThread ++
      f.constants.flatMap bankWrites ++ [(constantBufferAddrUpper 0, (hi32 ptr).setWidth 64)]) []
    (by simp [qmdWrites, argumentWrites]) nofun
  have hupper := @val_qmdData f grid block sharedMemBytes currentSlmPerThread ptr hbanks
    (constantBufferAddrUpper 0, (hi32 ptr).setWidth 64)
    (launchWrites f grid block sharedMemBytes currentSlmPerThread ++
      f.constants.flatMap bankWrites) [(constantBufferAddrLower 0, (lo32 ptr).setWidth 64)]
    (by simp [qmdWrites, argumentWrites]) fun y hy => List.mem_singleton.mp hy ▸ hapart
  rw [hlowerWidth, toNat_setWidth_mod] at hlower
  rw [hupperWidth, toNat_setWidth_64] at hupper
  exact ⟨BitVec.eq_of_toNat_eq hlower, hupper⟩

/-- What no write covers is zero. -/
theorem qmdData_eq_zero (hbanks : ∀ c ∈ f.constants, c.constNr < 8) {bit : ℕ}
    (hbit : ∀ x ∈ qmdWrites f grid block sharedMemBytes currentSlmPerThread ptr,
      ¬ x.1.Holds bit) :
    (qmdData f grid block sharedMemBytes currentSlmPerThread ptr (bit / 32)).getLsbD (bit % 32) =
      false := by
  have hinWord := @inWord_qmdWrites f grid block sharedMemBytes currentSlmPerThread ptr hbanks
  rw [qmdData_eq_writeAll hbanks, getLsbD_writeAll]
  · exact BitVec.getLsbD_zero
  · intro x hx
    obtain ⟨y, hy, rfl⟩ := List.mem_map.mp hx
    exact (hinWord y hy).fits
  · intro x hx hcovers
    obtain ⟨y, hy, rfl⟩ := List.mem_map.mp hx
    exact hbit y hy (((hinWord y hy).covers_iff bit).mp hcovers)

/-- **The encoding of a descriptor decodes back**, if the numbers of its constant banks are below
eight: every field gives the value written to it last, cut to its width, and every bit of no field
that was written is zero. -/
theorem qmd_decodes (hbanks : ∀ c ∈ f.constants, c.constNr < 8) (grid block : Dim3)
    (sharedMemBytes : NvU32) (currentSlmPerThread ptr : NvU64) :
    QmdDecodes (qmdData f grid block sharedMemBytes currentSlmPerThread ptr) f grid block
      sharedMemBytes currentSlmPerThread ptr where
  launch _ hx := val_launchWrites hbanks hx
  bankSize _ hi _ hc := val_bankSize hbanks hi hc
  bankValid _ hi _ hc := val_bankValid hbanks hi hc
  bankAddress _ hi hne _ hc := val_bankAddress hbanks hi hne hc
  arguments := val_arguments hbanks
  zero _ hbit := qmdData_eq_zero hbanks hbit

/-- A kernel with two entries of bank 3. -/
def bankedFunction : LibreCUFunction :=
  { name := "kernel", funcVaAddr := 0x1200000000, sharedMem := 0, numRegisters := 40,
    localMemReq := 0, functionSize := 0x300,
    constants := [⟨0, 0x1000, 0x170⟩, ⟨3, 0x2000, 64⟩, ⟨3, 0x3000000040, 0x2010⟩],
    paramInfo := [] }

/-- Its descriptor has the last entry of bank 3. -/
theorem qmd_decodes_sample :
    (∀ c ∈ bankedFunction.constants, c.constNr < 8) ∧
    QmdDecodes (qmdData bankedFunction ⟨70000, 65534, 2⟩ ⟨32, 4, 1⟩ 0 0 0x1000000000)
      bankedFunction ⟨70000, 65534, 2⟩ ⟨32, 4, 1⟩ 0 0 0x1000000000 := by
  have hbanks : ∀ c ∈ bankedFunction.constants, c.constNr < 8 := by decide
  exact ⟨hbanks, qmd_decodes hbanks _ _ _ _ _⟩

end Reading

end LibreCuda
