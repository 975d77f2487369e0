import LibreCuda.Module.Parameters
import LibreCuda.Queue.ArgumentBytes
import Mathlib.Algebra.Order.BigOperators.Group.List
import Mathlib.Algebra.Order.Ring.Nat
import Mathlib.Data.List.Sort

/-! # Places of parameters

A kernel reads a parameter at the offset that its record gives, in the buffer of constant bank 0. A
launch packs the arguments into words in the order of the parameters, and does not use the offsets.

* **`params_in_place_iff`**: when every parameter is where the kernel reads it.
* **`packed_iff_aligned`**: for parameters that have a byte, that the loop gets to an offset means
  that all offsets are whole words. -/

namespace LibreCuda

open Bytes Exec Packing

/-! ## Total size -/

theorem paramTotalSize_lt_of_parse {data : ℕ → NvU8} {size rounds off : ℕ}
    {a a' : FunctionAttributes} (ha : a.paramTotalSize.toNat < 2 ^ 16)
    (h : parseAttributes data size rounds off a = .ok a') : a'.paramTotalSize.toNat < 2 ^ 16 := by
  induction rounds generalizing off a with
  | zero =>
    cases h
    exact ha
  | succ rounds ih =>
    rw [parseAttributes] at h
    split_ifs at h
    · cases h
      exact ha
    · cases hstep : attributeStep (wordAt data off) with
      | stop =>
        simp only [hstep] at h
        cases h
        exact ha
      | fail =>
        simp only [hstep] at h
        cases h
      | advance bytes =>
        simp only [hstep] at h
        refine ih ?_ h
        unfold FunctionAttributes.add
        split_ifs
        · -- the upper half of a header
          have hlt := (wordAt data off).isLt
          rw [attributeOther, BitVec.toNat_setWidth, BitVec.toNat_ushiftRight,
            Nat.shiftRight_eq_div_pow]
          omega
        · exact ha
        · exact ha

/-- **The total size of the parameters has 16 bits.** -/
theorem paramTotalSize_lt {image : ElfImage} {f : Name} {a : FunctionAttributes}
    (h : image.functionAttributes f = .ok a) : a.paramTotalSize.toNat < 2 ^ 16 := by
  unfold ElfImage.functionAttributes at h
  have hzero : (FunctionAttributes.paramTotalSize {}).toNat < 2 ^ 16 := by decide
  revert h hzero
  generalize ({} : FunctionAttributes) = a₀
  generalize (image.sections.filter fun s => s.name == nvInfoOf ++ f) = sections
  intro h ha
  induction sections generalizing a₀ with
  | nil =>
    cases h
    exact ha
  | cons s sections ih =>
    rw [List.foldlM_cons] at h
    cases hparse : s.functionAttributes a₀ with
    | error e =>
      rw [hparse] at h
      cases h
    | ok a₁ =>
      rw [hparse] at h
      exact ih a₁ h (paramTotalSize_lt_of_parse ha hparse)

/-! ## Described parameters -/

/-- **The records describe parameters of the declared sizes**: their indices are the numbers from
zero on, and each parameter ends where the next one begins, or before, and within the total size. -/
structure FunctionAttributes.Describes (a : FunctionAttributes) (declared : ℕ → ℕ) : Prop where
  indices : (a.paramInfos.map fun p => p.paramIndex.toNat).Perm (List.range a.paramInfos.length)
  apart : ∀ p ∈ a.paramInfos, ∀ q ∈ a.paramInfos, p.paramIndex.toNat + 1 = q.paramIndex.toNat →
    p.paramOffset.toNat + declared p.paramIndex.toNat ≤ q.paramOffset.toNat
  inside : ∀ p ∈ a.paramInfos,
    p.paramOffset.toNat + declared p.paramIndex.toNat ≤ a.paramTotalSize.toNat

/-- The distances between the offsets, which the loader takes for the sizes. -/
def FunctionAttributes.distances (a : FunctionAttributes) : List ℕ :=
  (List.range a.paramInfos.length).map a.derivedSize

namespace FunctionAttributes

@[simp] theorem length_distances (a : FunctionAttributes) :
    a.distances.length = a.paramInfos.length := by
  rw [distances, List.length_map, List.length_range]

theorem getElem?_distances {a : FunctionAttributes} {i : ℕ} (h : i < a.paramInfos.length) :
    a.distances[i]? = some (a.derivedSize i) := by
  rw [distances, List.getElem?_map, List.getElem?_range h, Option.map_some]

/-- **The sizes of a loaded function** are the distances. -/
theorem sizes_finalize (a : FunctionAttributes) :
    (a.finalize.map fun p => p.paramSize.toNat) = a.distances := by
  apply List.ext_getElem?
  intro i
  rw [List.getElem?_map]
  by_cases hi : i < a.paramInfos.length
  · obtain ⟨p, hp⟩ := exists_finalize hi
    rw [hp, getElem?_distances hi, Option.map_some, toNat_paramSize hp]
  · have hnone : a.finalize[i]? = none := by
      by_contra hne
      obtain ⟨p, hp⟩ := Option.ne_none_iff_exists'.mp hne
      exact hi (lt_of_finalize hp)
    rw [hnone, List.getElem?_eq_none (by rw [length_distances]; exact Nat.not_lt.mp hi)]
    rfl

section Described

variable {a : FunctionAttributes} {declared : ℕ → ℕ}

/-- The indices of the records in the order of the parameters. -/
theorem Describes.map_sortedParams (h : a.Describes declared) :
    (a.sortedParams.map fun p => p.paramIndex.toNat) = List.range a.paramInfos.length := by
  have hperm : (a.sortedParams.map fun p => p.paramIndex.toNat).Perm
      (List.range a.paramInfos.length) :=
    ((List.mergeSort_perm _ _).map _).trans h.indices
  have hsorted : a.sortedParams.Pairwise fun p q =>
      decide (p.paramIndex.toNat ≤ q.paramIndex.toNat) = true := by
    refine List.pairwise_mergeSort (fun p q r hpq hqr => ?_) (fun p q => ?_) _
    · rw [decide_eq_true_eq] at hpq hqr ⊢
      exact hpq.trans hqr
    · rw [Bool.or_eq_true, decide_eq_true_eq, decide_eq_true_eq]
      exact Nat.le_total _ _
  refine hperm.eq_of_pairwise' ?_ (List.pairwise_le_range)
  rw [List.pairwise_map]
  exact hsorted.imp fun hle => of_decide_eq_true hle

/-- In the order of the parameters, a record is at its index. -/
theorem Describes.getElem?_sortedParams (h : a.Describes declared) {p : KernelParamInfo}
    (hp : p ∈ a.paramInfos) : a.sortedParams[p.paramIndex.toNat]? = some p := by
  have hmem : p ∈ a.sortedParams := (List.mergeSort_perm _ _).mem_iff.mpr hp
  obtain ⟨k, hk⟩ := List.mem_iff_getElem?.mp hmem
  have hindex := congrArg (fun l => l[k]?) h.map_sortedParams
  rw [List.getElem?_map, hk, Option.map_some] at hindex
  obtain ⟨hlt, hrange⟩ := List.getElem?_eq_some_iff.mp hindex.symm
  rw [List.getElem_range] at hrange
  rwa [← hrange]

/-- Every number below that of the parameters is the index of a record. -/
theorem Describes.exists_of_lt (h : a.Describes declared) {i : ℕ} (hi : i < a.paramInfos.length) :
    ∃ p ∈ a.paramInfos, p.paramIndex.toNat = i := by
  obtain ⟨p, hp, hindex⟩ := List.mem_map.mp (h.indices.mem_iff.mpr (List.mem_range.mpr hi))
  exact ⟨p, hp, hindex⟩

theorem Describes.index_lt (h : a.Describes declared) {p : KernelParamInfo}
    (hp : p ∈ a.paramInfos) : p.paramIndex.toNat < a.paramInfos.length :=
  List.mem_range.mp (h.indices.mem_iff.mp (List.mem_map_of_mem hp))

/-- A parameter begins at the offset of its record. -/
theorem Describes.offsetOf_index (h : a.Describes declared) {p : KernelParamInfo}
    (hp : p ∈ a.paramInfos) : a.offsetOf p.paramIndex.toNat = p.paramOffset := by
  rw [offsetOf, h.getElem?_sortedParams hp]
  rfl

/-- There are no more parameters than indices. -/
theorem Describes.length_le (h : a.Describes declared) : a.paramInfos.length ≤ 2 ^ 16 := by
  by_contra hlt
  obtain ⟨p, -, hindex⟩ := h.exists_of_lt (i := 2 ^ 16) (by omega)
  exact absurd p.paramIndex.isLt (by omega)

/-- **A parameter ends where the next one begins, or before**, and the last one within the total
size. -/
theorem Describes.end_le (h : a.Describes declared) (htotal : a.paramTotalSize.toNat < 2 ^ 16)
    {p : KernelParamInfo} (hp : p ∈ a.paramInfos) :
    p.paramOffset.toNat + declared p.paramIndex.toNat ≤
      (a.offsetOf (p.paramIndex.toNat + 1)).toNat := by
  by_cases hlast : p.paramIndex.toNat + 1 < a.paramInfos.length
  · obtain ⟨q, hq, hindex⟩ := h.exists_of_lt hlast
    rw [← hindex, h.offsetOf_index hq]
    exact h.apart p hp q hq hindex.symm
  · have hnone : a.sortedParams[p.paramIndex.toNat + 1]? = none :=
      List.getElem?_eq_none (by rw [length_sortedParams]; exact Nat.not_lt.mp hlast)
    have hinside := h.inside p hp
    rw [offsetOf, hnone]
    show _ ≤ (a.paramTotalSize.setWidth 16).toNat
    rw [BitVec.toNat_setWidth, Nat.mod_eq_of_lt htotal]
    exact hinside

/-- The distance to the next offset, over the integers. -/
theorem Describes.add_derivedSize (h : a.Describes declared)
    (htotal : a.paramTotalSize.toNat < 2 ^ 16) {p : KernelParamInfo} (hp : p ∈ a.paramInfos) :
    p.paramOffset.toNat + a.derivedSize p.paramIndex.toNat =
      (a.offsetOf (p.paramIndex.toNat + 1)).toNat := by
  have hend := h.end_le htotal hp
  rw [derivedSize, h.offsetOf_index hp, BitVec.toNat_sub_of_le (by rw [BitVec.le_def]; omega)]
  omega

/-- The words of all parameters are far from wrapping. -/
theorem Describes.sum_padded_le (h : a.Describes declared) :
    (a.distances.map (padded 4)).sum ≤ 2 ^ 32 := by
  have hlength := h.length_le
  have hsum := List.sum_le_card_nsmul (a.distances.map (padded 4)) (2 ^ 16) ?_
  · rw [List.length_map, length_distances, nsmul_eq_mul, Nat.cast_id] at hsum
    omega
  · intro n hn
    obtain ⟨size, hsize, rfl⟩ := List.mem_map.mp hn
    obtain ⟨i, -, rfl⟩ := List.mem_map.mp hsize
    have hlt : a.derivedSize i < 2 ^ 16 := BitVec.isLt _
    rw [padded]
    omega

/-- **A parameter is in its place**: the loop gets to its offset when it is at it, and the descriptor
leaves its bytes alone. -/
structure InPlace (a : FunctionAttributes) (declared : ℕ → ℕ) (qmdOffset : ℕ) (p : KernelParamInfo) :
    Prop where
  packed : p.paramOffset.toNat = start 4 a.distances p.paramIndex.toNat
  clear : 0x160 + p.paramOffset.toNat + declared p.paramIndex.toNat ≤ qmdOffset ∨
    qmdOffset + 256 ≤ 0x160 + p.paramOffset.toNat

/-- That is, the packing puts all of its bytes where the kernel reads them. -/
theorem Describes.inPlace_iff (h : a.Describes declared) (htotal : a.paramTotalSize.toNat < 2 ^ 16)
    {p : KernelParamInfo} (hp : p ∈ a.paramInfos) (qmdOffset : ℕ) :
    (0 < declared p.paramIndex.toNat → a.InPlace declared qmdOffset p) ↔
      ∀ b < declared p.paramIndex.toNat,
        ¬ (qmdOffset ≤ 352 + (p.paramOffset.toNat + b) ∧
          352 + (p.paramOffset.toNat + b) < qmdOffset + 256) ∧
        source 4 a.distances (p.paramOffset.toNat + b) = some (p.paramIndex.toNat, b) := by
  have hend := h.end_le htotal hp
  have hdistance := h.add_derivedSize htotal hp
  have hsize := getElem?_distances (h.index_lt hp)
  constructor
  · intro hplace b hb
    obtain ⟨hpacked, hclear⟩ := hplace (by omega)
    refine ⟨by omega, ?_⟩
    exact (source_eq_some_iff (by decide)).mpr ⟨_, hsize, by omega, by omega⟩
  · intro hbytes hpos
    obtain ⟨-, hsource⟩ := hbytes 0 hpos
    obtain ⟨_, -, -, hstart⟩ := (source_eq_some_iff (by decide)).mp hsource
    refine ⟨by omega, ?_⟩
    -- a byte of the parameter that would be the first one under the descriptor, or its own first
    have hfirst := (hbytes 0 hpos).1
    by_cases hfits : 0x160 + p.paramOffset.toNat + declared p.paramIndex.toNat ≤ qmdOffset
    · exact .inl hfits
    · by_cases hbefore : 0x160 + p.paramOffset.toNat < qmdOffset
      · have hunder := (hbytes (qmdOffset - (0x160 + p.paramOffset.toNat)) (by omega)).1
        omega
      · exact .inr (by omega)

/-- **The loop gets to every offset, if and only if** the offsets are whole words, the first of them
zero. -/
theorem Describes.packed_iff_aligned (h : a.Describes declared)
    (htotal : a.paramTotalSize.toNat < 2 ^ 16) :
    (∀ p ∈ a.paramInfos, p.paramOffset.toNat = start 4 a.distances p.paramIndex.toNat) ↔
      (∀ p ∈ a.paramInfos, p.paramIndex.toNat = 0 → p.paramOffset.toNat = 0) ∧
        ∀ p ∈ a.paramInfos, 4 ∣ p.paramOffset.toNat := by
  have hall : ∀ q : ℕ → ℕ → Prop,
      (∀ p ∈ a.paramInfos, q p.paramIndex.toNat p.paramOffset.toNat) ↔
        ∀ i < a.distances.length, q i (a.offsetOf i).toNat := by
    intro q
    rw [length_distances]
    constructor
    · intro hq i hi
      obtain ⟨p, hp, rfl⟩ := h.exists_of_lt hi
      rw [h.offsetOf_index hp]
      exact hq p hp
    · intro hq p hp
      rw [← h.offsetOf_index hp]
      exact hq _ (h.index_lt hp)
  rw [hall fun i o => o = start 4 a.distances i, hall fun i o => i = 0 → o = 0,
    hall fun _ o => 4 ∣ o]
  have hstart := @start_eq_iff 4 (by decide) a.distances (fun i => (a.offsetOf i).toNat)
    fun i size hi hsize => ?_
  · constructor
    · intro hpacked
      obtain ⟨hzero, hdvd⟩ := hstart.mp fun i hi => (hpacked i hi).symm
      exact ⟨fun i hi hfirst => hfirst ▸ hzero (by omega), hdvd⟩
    · rintro ⟨hzero, hdvd⟩ i hi
      exact (hstart.mpr ⟨fun hpos => hzero 0 hpos rfl, hdvd⟩ i hi).symm
  · rw [length_distances] at hi
    obtain ⟨p, hp, rfl⟩ := h.exists_of_lt (show i < a.paramInfos.length by omega)
    rw [getElem?_distances (h.index_lt hp)] at hsize
    obtain rfl := Option.some.inj hsize
    show (a.offsetOf _).toNat + _ = _
    rw [h.offsetOf_index hp, h.add_derivedSize htotal hp]

end Described

end FunctionAttributes

/-! ## Launches -/

/-- **Every parameter is where the kernel reads it, if and only if** the words of the parameters in
front of it end at its offset, and it is not under the descriptor: for a function of a loaded module,
any described parameters and all arguments of a launch. -/
theorem params_in_place_iff {image : ElfImage} {m : LibreCUmodule} {h₀ h₁ h : Host}
    {f : LibreCUFunction} {function : ℕ} {shaderLocalMemoryVa : NvU64} {sharedMem : NvU32}
    {a : FunctionAttributes} {declared : ℕ → ℕ}
    (hload : call (libreCuModuleLoadData (some image)) h₀ = (.ok m, h₁)) (hf : f ∈ m.functions)
    (hfunction : h.functions function =
      { f with shaderLocalMemoryVa := shaderLocalMemoryVa, sharedMem := sharedMem })
    (ha : image.functionAttributes f.name.toList = .ok a) (hdescribed : a.Describes declared)
    (hsig : h.timeline.timelineSignal ≠ 0) (grid block : Dim3) (sharedMemBytes : NvU32)
    (numParams : NvU64) (async : Bool) :
    (∀ params h', call (launchFunction (some function) grid block sharedMemBytes params numParams
        async) h = (.ok (), h') →
      ∀ p ∈ a.paramInfos, ∀ b < declared p.paramIndex.toNat,
        h'.constbuf0 (0x160 + p.paramOffset.toNat + b) = params p.paramIndex.toNat b) ↔
    (h.AcceptsFunction function grid block sharedMemBytes numParams → ∀ p ∈ a.paramInfos,
      0 < declared p.paramIndex.toNat → a.InPlace declared f.qmdOffset p) := by
  obtain ⟨loaded⟩ := loaded_of_ok hload
  obtain ⟨a', ha', hinfo⟩ := paramInfo_of_loaded loaded hf
  obtain rfl := Except.ok.inj (ha'.symm.trans ha)
  have htotal := paramTotalSize_lt ha
  have hsizes : (h.functions function).sizes = a'.distances := by
    rw [hfunction, LibreCUFunction.sizes, ← a'.sizes_finalize, ← hinfo]
  have hoffset : (h.functions function).qmdOffset = f.qmdOffset := by
    rw [hfunction]
    rfl
  have hsum : ((h.functions function).sizes.map (padded 4)).sum ≤ 2 ^ 64 := by
    rw [hsizes]
    exact hdescribed.sum_padded_le.trans (by decide)
  -- what the buffer holds behind any launch that succeeds
  have hbuf : ∀ params h', call (launchFunction (some function) grid block sharedMemBytes params
      numParams async) h = (.ok (), h') → h'.constbuf0 = load ((h.functions function).launchMem h.mem
        h.kernargsPointer (ofWords (constbuf0Data grid block))
          (h.launchQmd function grid block sharedMemBytes) params) h.kernargsPointer := by
    intro params h' hlaunch
    rcases wp_call hlaunch (wp_launchFunction_constbuf0 hsig function hsum grid block sharedMemBytes
      params numParams async) with ⟨_, -, hbuf⟩ | ⟨_, herr, -⟩
    · exact hbuf
    · cases herr
  have hbyte : ∀ p ∈ a'.paramInfos, ∀ b < declared p.paramIndex.toNat,
      ((∀ params, load ((h.functions function).launchMem h.mem h.kernargsPointer
        (ofWords (constbuf0Data grid block)) (h.launchQmd function grid block sharedMemBytes) params)
          h.kernargsPointer (352 + (p.paramOffset.toNat + b)) = params p.paramIndex.toNat b) ↔
        ¬ (f.qmdOffset ≤ 352 + (p.paramOffset.toNat + b) ∧
          352 + (p.paramOffset.toNat + b) < f.qmdOffset + 256) ∧
        source 4 a'.distances (p.paramOffset.toNat + b) = some (p.paramIndex.toNat, b)) := by
    intro p hp b hb
    have hend := hdescribed.inside p hp
    rw [constbuf0_byte_iff _ _ _ _ (length_launchQmd function grid block sharedMemBytes) (by omega),
      hsizes, hoffset]
  constructor
  · intro hall haccepts p hp
    refine (hdescribed.inPlace_iff htotal hp f.qmdOffset).mpr fun b hb => ?_
    refine (hbyte p hp b hb).mp fun params => ?_
    rcases hlaunch : call (launchFunction (some function) grid block sharedMemBytes params numParams
      async) h with ⟨e | u, h'⟩
    · rcases wp_call hlaunch (wp_launchFunction_accepts hsig (some function) grid block sharedMemBytes
        params numParams async) with ⟨_, herr, -⟩ | ⟨_, -, hnot⟩
      · cases herr
      · exact absurd ⟨function, rfl, haccepts⟩ hnot
    · rw [← hbuf params h' hlaunch, ← Nat.add_assoc]
      exact hall params h' hlaunch p hp b hb
  · intro hplaces params h' hlaunch p hp b hb
    have haccepts : h.AcceptsFunction function grid block sharedMemBytes numParams := by
      rcases wp_call hlaunch (wp_launchFunction_accepts hsig (some function) grid block
        sharedMemBytes params numParams async) with ⟨_, -, function', heq, haccepts⟩ | ⟨_, herr, -⟩
      · obtain rfl := Option.some.inj heq
        exact haccepts
      · cases herr
    have hplace := (hdescribed.inPlace_iff htotal hp f.qmdOffset).mp (hplaces haccepts p hp) b hb
    rw [hbuf params h' hlaunch, Nat.add_assoc]
    exact (hbyte p hp b hb).mpr hplace params

/-- The records of a kernel with a pointer, a `short` and a `float` describe these. -/
theorem describes_sumAttributes : sumAttributes.Describes sumDeclared :=
  ⟨by decide, by decide, by decide⟩

/-- **All arguments of a kernel with a pointer, a `short` and a `float` arrive.** -/
theorem params_in_place_iff_sample :
    (call (launchFunction (some 0) ⟨1, 1, 1⟩ ⟨1, 1, 1⟩ 0 (fun _ _ => 0) 3 true) sumHost).1 = .ok () ∧
      ∀ params h',
        call (launchFunction (some 0) ⟨1, 1, 1⟩ ⟨1, 1, 1⟩ 0 params 3 true) sumHost = (.ok (), h') →
          ∀ p ∈ sumAttributes.paramInfos, ∀ b < sumDeclared p.paramIndex.toNat,
            h'.constbuf0 (0x160 + p.paramOffset.toNat + b) = params p.paramIndex.toNat b := by
  have hload : call (libreCuModuleLoadData (some sumImage)) loadHost =
      (.ok ⟨[sumKernel], uvmHeapStart⟩,
        (call (libreCuModuleLoadData (some sumImage)) loadHost).2) := by
    rw [← load_sumImage]
  have hfunction : sumHost.functions 0 =
      { sumKernel with shaderLocalMemoryVa := 0, sharedMem := 0 } := rfl
  refine ⟨by decide +kernel, (params_in_place_iff hload List.mem_cons_self hfunction
    functionAttributes_sumImage describes_sumAttributes (by decide) ⟨1, 1, 1⟩ ⟨1, 1, 1⟩ 0 3 true).mpr
      fun _ p hp _ => ?_⟩
  have hdistances : sumAttributes.distances = [8, 4, 4] := by
    rw [← FunctionAttributes.sizes_finalize, finalize_sumAttributes]
    rfl
  have hplaces : ∀ p ∈ sumAttributes.paramInfos,
      p.paramOffset.toNat = start 4 [8, 4, 4] p.paramIndex.toNat ∧
        0x160 + p.paramOffset.toNat + sumDeclared p.paramIndex.toNat ≤ sumKernel.qmdOffset := by
    decide +kernel
  obtain ⟨hpacked, hclear⟩ := hplaces p hp
  exact ⟨by rw [hdistances]; exact hpacked, .inl hclear⟩

/-! ## Two parameters of one byte -/

/-- The section `.nv.info` of a kernel with two parameters of type `char`, at the offsets 0 and 1. -/
def pairInfo : List NvU32 :=
  [0x21903, 0xc1704, 0, 0x10001, 0x4f000, 0xc1704, 0, 0, 0x4f000]

/-- An image with that kernel. -/
def pairImage : ElfImage where
  sectionEntrySize := 64
  sections := [{ name := ".text.pair".toList, type := shtProgbits, size := 256 },
    { name := ".nv.constant0.pair".toList, type := shtProgbits, size := 352 + 2 },
    { name := ".nv.info.pair".toList, type := 0x70000000, size := 36,
      data := fun i => (ofWords pairInfo).getD i 0 }]

/-- What the loader collects from its records. -/
def pairAttributes : FunctionAttributes where
  paramInfos := [⟨1, 1, 0⟩, ⟨0, 0, 0⟩]
  paramTotalSize := 2

/-- The record of that kernel. -/
def pairKernel : LibreCUFunction where
  name := "pair"
  funcVaAddr := uvmHeapStart
  sharedMem := 0
  numRegisters := 0
  localMemReq := 0
  functionSize := 256
  constants := [⟨0, uvmHeapStart + 0x100, 352 + 2⟩]
  paramInfo := [⟨0, 0, 1⟩, ⟨1, 1, 1⟩]

theorem functionAttributes_pairImage :
    pairImage.functionAttributes "pair".toList = .ok pairAttributes := by
  decide +kernel

theorem finalize_pairAttributes : pairAttributes.finalize = pairKernel.paramInfo := by
  simp [FunctionAttributes.finalize, pairAttributes, pairKernel, List.mergeSort,
    List.MergeSort.Internal.splitInTwo, paramSizes]

/-- The image is loaded. -/
theorem load_pairImage : (call (libreCuModuleLoadData (some pairImage)) loadHost).1 =
    .ok ⟨[pairKernel], uvmHeapStart⟩ :=
  load_eq_of_erased (by decide +kernel) functionAttributes_pairImage finalize_pairAttributes

/-- A stream that knows the kernel. -/
def pairHost : Host := { loadHost with functions := fun _ => pairKernel }

/-- **The second `char` does not arrive**: the first one takes a whole word, and the kernel reads the
second byte of that. -/
theorem second_char_lost :
    (call (libreCuModuleLoadData (some pairImage)) loadHost).1 =
        .ok ⟨[pairKernel], uvmHeapStart⟩ ∧
      pairImage.functionAttributes "pair".toList = .ok pairAttributes ∧
      pairAttributes.Describes (fun _ => 1) ∧
      pairHost.functions 0 = pairKernel ∧
      ¬ ∀ params h',
        call (launchFunction (some 0) ⟨1, 1, 1⟩ ⟨1, 1, 1⟩ 0 params 2 true) pairHost = (.ok (), h') →
          ∀ p ∈ pairAttributes.paramInfos, ∀ b < 1,
            h'.constbuf0 (0x160 + p.paramOffset.toNat + b) = params p.paramIndex.toNat b := by
  refine ⟨load_pairImage, functionAttributes_pairImage, ⟨by decide, by decide, by decide⟩, rfl,
    fun hall => ?_⟩
  have hlaunch : call (launchFunction (some 0) ⟨1, 1, 1⟩ ⟨1, 1, 1⟩ 0 (fun _ _ => 1) 2 true) pairHost =
      (.ok (), (call (launchFunction (some 0) ⟨1, 1, 1⟩ ⟨1, 1, 1⟩ 0 (fun _ _ => 1) 2 true)
        pairHost).2) := Prod.ext (by decide +kernel) rfl
  have hbyte := hall _ _ hlaunch ⟨1, 1, 0⟩ List.mem_cons_self 0 (by decide)
  exact absurd hbyte (by decide +kernel)

end LibreCuda
