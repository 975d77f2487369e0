import LibreCuda.Module.Parameters
import Mathlib.Data.Set.Lattice
import Mathlib.Order.CompletePartialOrder

/-! # Areas of the argument region

A launch writes three areas of the region that it allocates: the constant header, the words of the
parameters, and the descriptor. The size of the region comes from the constant bank, that of the
parameters from the records, and the check on the latter counts eight bytes for each parameter.

* **`areasApart_iff`**: when the areas are disjoint and inside the region.
* **`argument_areas_apart_iff`**: the same of every launch that succeeds. -/

namespace LibreCuda

open Bytes Exec

/-- **The three areas are pairwise disjoint and inside the region**, for a region of a size at an
address, some words of parameters, and the offset of the descriptor. -/
structure AreasApart (ptr size : NvU64) (words : ℕ) (offset : NvU64) : Prop where
  header_params : Disjoint (span ptr 352) (span (ptr + constbuf0Bytes) (4 * words))
  header_qmd : Disjoint (span ptr 352) (span (ptr + offset) 256)
  params_qmd : Disjoint (span (ptr + constbuf0Bytes) (4 * words)) (span (ptr + offset) 256)
  header_inside : span ptr 352 ⊆ span ptr size.toNat
  params_inside : span (ptr + constbuf0Bytes) (4 * words) ⊆ span ptr size.toNat
  qmd_inside : span (ptr + offset) 256 ⊆ span ptr size.toNat

/-- **When the areas are apart**: the descriptor begins behind the words of the parameters, and the
region does not wrap. -/
theorem areasApart_iff (ptr : NvU64) (words : ℕ) (offset : NvU64) :
    AreasApart ptr (offset + (8 <<< 8 : NvU64)) words offset ↔
      352 + 4 * words ≤ offset.toNat ∧ offset.toNat + 2048 < 2 ^ 64 := by
  have hsize : (offset + (8 <<< 8 : NvU64)).toNat = (offset.toNat + 2048) % 2 ^ 64 := by
    rw [BitVec.toNat_add]
    rfl
  have hlt := offset.isLt
  constructor
  · intro hapart
    -- the first byte of the descriptor
    have hfirst : ptr + offset ∈ span (ptr + offset) 256 := by
      rw [mem_span, BitVec.sub_self]
      decide
    have hdistance : (ptr + offset - ptr).toNat = offset.toNat := by
      rw [BitVec.add_comm, BitVec.add_sub_cancel]
    have hinside := hapart.qmd_inside hfirst
    rw [mem_span, hdistance, hsize] at hinside
    have hheader : 352 ≤ offset.toNat := by
      by_contra hnot
      refine Set.disjoint_left.mp hapart.header_qmd ?_ hfirst
      rw [mem_span, hdistance]
      omega
    refine ⟨?_, by omega⟩
    by_contra hnot
    refine Set.disjoint_left.mp hapart.params_qmd ?_ hfirst
    show (ptr + offset - (ptr + BitVec.ofNat 64 352)).toNat < 4 * words
    rw [toNat_sub_add, hdistance]
    omega
  · rintro ⟨hwords, hwrap⟩
    have hparams : ∀ x, x ∈ span (ptr + constbuf0Bytes) (4 * words) ↔
        352 ≤ (x - ptr).toNat ∧ (x - ptr).toNat < 352 + 4 * words :=
      fun x => @mem_span_add_iff ptr x 352 (4 * words) (by omega)
    have hqmd : ∀ x, x ∈ span (ptr + offset) 256 ↔
        offset.toNat ≤ (x - ptr).toNat ∧ (x - ptr).toNat < offset.toNat + 256 := by
      intro x
      have hspan := @mem_span_add_iff ptr x offset.toNat 256 (by omega)
      rwa [BitVec.ofNat_toNat, BitVec.setWidth_eq] at hspan
    refine ⟨?_, ?_, ?_, ?_, ?_, ?_⟩
    · rw [Set.disjoint_left]
      intro x hx hx'
      rw [hparams] at hx'
      rw [mem_span] at hx
      omega
    · rw [Set.disjoint_left]
      intro x hx hx'
      rw [hqmd] at hx'
      rw [mem_span] at hx
      omega
    · rw [Set.disjoint_left]
      intro x hx hx'
      rw [hparams] at hx
      rw [hqmd] at hx'
      omega
    · intro x hx
      rw [mem_span] at hx ⊢
      omega
    · intro x hx
      rw [hparams] at hx
      rw [mem_span]
      omega
    · intro x hx
      rw [hqmd] at hx
      rw [mem_span]
      omega

/-- **The areas of a launch never overlap, if and only if** the words of the parameters fit in front
of the descriptor: for every launch that succeeds, which writes to its areas only, in the region
that it took for them. -/
theorem argument_areas_apart_iff {h h' : Host} {function : ℕ} {grid block : Dim3}
    {sharedMemBytes : NvU32} {params : ℕ → ℕ → NvU8} {numParams : NvU64} {async : Bool}
    (hsig : h.timeline.timelineSignal ≠ 0)
    (hlaunch : call (launchFunction (some function) grid block sharedMemBytes params numParams
      async) h = (.ok (), h')) :
    ∃ ptr, h.WritesAreas h' (h.functions function) async ptr ∧
      (AreasApart ptr (kernargsSize ((h.functions function).constants.headD ⟨0, 0, 0⟩).size)
          (h.functions function).numWords
          (roundUp ((h.functions function).constants.headD ⟨0, 0, 0⟩).size (1 <<< 8 : NvU64)) ↔
        352 + 4 * (h.functions function).numWords ≤
            (roundUp ((h.functions function).constants.headD ⟨0, 0, 0⟩).size
              (1 <<< 8 : NvU64)).toNat ∧
          (roundUp ((h.functions function).constants.headD ⟨0, 0, 0⟩).size
            (1 <<< 8 : NvU64)).toNat + 2048 < 2 ^ 64) := by
  rcases wp_call hlaunch (wp_launchFunction_areas function grid block sharedMemBytes params
    numParams async hsig) with ⟨_, -, ptr, hareas⟩ | ⟨_, herr, -⟩
  · exact ⟨ptr, hareas, areasApart_iff ptr _ _⟩
  · cases herr

/-- The areas of a kernel with three parameters are apart. -/
theorem argument_areas_apart_iff_sample :
    ∃ ptr, sumHost.WritesAreas (call (launchFunction (some 0) ⟨1, 1, 1⟩ ⟨1, 1, 1⟩ 0 (fun _ _ => 0) 3
      true) sumHost).2 sumKernel true ptr ∧
      AreasApart ptr (kernargsSize 0x170) 4 (roundUp 0x170 (1 <<< 8 : NvU64)) := by
  have hlaunch : call (launchFunction (some 0) ⟨1, 1, 1⟩ ⟨1, 1, 1⟩ 0 (fun _ _ => 0) 3 true) sumHost =
      (.ok (), (call (launchFunction (some 0) ⟨1, 1, 1⟩ ⟨1, 1, 1⟩ 0 (fun _ _ => 0) 3 true)
        sumHost).2) := Prod.ext (by decide +kernel) rfl
  have hsig : sumHost.timeline.timelineSignal ≠ 0 := by decide
  obtain ⟨ptr, hareas, hiff⟩ := argument_areas_apart_iff hsig hlaunch
  exact ⟨ptr, hareas, hiff.mpr (by decide +kernel)⟩

/-! ## A kernel with many small parameters -/

/-- The words of the section `.nv.info` of a kernel with 41 parameters of one byte: the total size,
and a record of four words for each. -/
def charsInfo (k : ℕ) : NvU32 :=
  if k = 0 then 0x291903
  else match (k - 1) % 4 with
    | 0 => 0xc1704
    | 1 => 0
    | 2 => BitVec.ofNat 16 ((k - 1) / 4) ++ BitVec.ofNat 16 ((k - 1) / 4)
    | _ => 0x4f000

/-- An image with that kernel: its constant bank has room for the header and 41 bytes. -/
def charsImage : ElfImage where
  sectionEntrySize := 64
  sections := [{ name := ".text.chars".toList, type := shtProgbits, size := 256 },
    { name := ".nv.constant0.chars".toList, type := shtProgbits, size := 352 + 41 },
    { name := ".nv.info.chars".toList, type := 0x70000000, size := 4 + 41 * 16,
      data := fun i => (ofWord (charsInfo (i / 4))).getD (i % 4) 0 }]

/-- What the loader collects from its records. -/
def charsAttributes : FunctionAttributes where
  paramInfos := (List.range 41).map fun i => ⟨BitVec.ofNat 16 i, BitVec.ofNat 16 i, 0⟩
  paramTotalSize := 41

/-- The record of that kernel. -/
def charsKernel : LibreCUFunction where
  name := "chars"
  funcVaAddr := uvmHeapStart
  sharedMem := 0
  numRegisters := 0
  localMemReq := 0
  functionSize := 256
  constants := [⟨0, uvmHeapStart + 0x100, 352 + 41⟩]
  paramInfo := (List.range 41).map fun i => ⟨BitVec.ofNat 16 i, BitVec.ofNat 16 i, 1⟩

theorem functionAttributes_charsImage :
    charsImage.functionAttributes "chars".toList = .ok charsAttributes := by
  decide +kernel

theorem finalize_charsAttributes : charsAttributes.finalize = charsKernel.paramInfo := by
  rw [FunctionAttributes.finalize, List.mergeSort_of_pairwise (by decide +kernel)]
  decide +kernel

/-- The image is loaded. -/
theorem load_charsImage : (call (libreCuModuleLoadData (some charsImage)) loadHost).1 =
    .ok ⟨[charsKernel], uvmHeapStart⟩ :=
  load_eq_of_erased (by decide +kernel) functionAttributes_charsImage finalize_charsAttributes
/-- A stream that knows the kernel. -/
def charsHost : Host := { loadHost with functions := fun _ => charsKernel }

/-- **The last parameters of a kernel with 41 bytes are overwritten by the descriptor**: each takes
a word, and only their bytes are counted for the constant bank. -/
theorem argument_areas_overlap :
    (call (libreCuModuleLoadData (some charsImage)) loadHost).1 =
        .ok ⟨[charsKernel], uvmHeapStart⟩ ∧
      charsHost.functions 0 = charsKernel ∧
      (call (launchFunction (some 0) ⟨1, 1, 1⟩ ⟨1, 1, 1⟩ 0 (fun _ _ => 0) 41 true) charsHost).1 =
        .ok () ∧
      ∀ ptr, ¬ AreasApart ptr (kernargsSize 393) charsKernel.numWords
        (roundUp 393 (1 <<< 8 : NvU64)) := by
  refine ⟨load_charsImage, rfl, by decide +kernel, fun ptr hapart => ?_⟩
  have hfits := ((areasApart_iff ptr _ _).mp hapart).1
  exact absurd hfits (by decide +kernel)

end LibreCuda
