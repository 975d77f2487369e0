import LibreCuda.Module.SharedMemory
import LibreCuda.Queue.Arguments

/-! # Parameters of a loaded kernel

The loader does not use the sizes that the attribute records declare. It takes the distance from the
offset of a parameter to that of the next one, or to the total size, and a launch reads that many
bytes.

* **`paramInfo_of_loaded`**: the parameters of a loaded function are those of its records.
* **`launch_reads_declared_iff`**: when a launch stays within the declared sizes. -/

namespace LibreCuda

open Bytes Exec

/-! ## Records of a function -/

/-- The records that the loader collects for a function from its sections. -/
def ElfImage.functionAttributes (image : ElfImage) (f : Name) : Except Failure FunctionAttributes :=
  (image.sections.filter fun s => s.name == nvInfoOf ++ f).foldlM
    (fun a s => s.functionAttributes a) {}

/-- A section has the records of a function only under the name of that. -/
theorem name_of_functionInfo {name f : Name} (h : sectionKind name = .functionInfo f) :
    name = nvInfoOf ++ f := by
  unfold sectionKind at h
  split_ifs at h with _ _ _ _ hstart
  cases h
  exact (append_drop_of_startsWith hstart).symm

theorem sectionKind_functionInfo {f : Name} (h : f ≠ []) :
    sectionKind (nvInfoOf ++ f) = .functionInfo f := by
  have hshared : startsWith nvShared (nvInfoOf ++ f) = false :=
    startsWith_append_of_ne f 4 (by decide) (by decide) (by decide)
  have htext : startsWith text (nvInfoOf ++ f) = false :=
    startsWith_append_of_ne f 1 (by decide) (by decide) (by decide)
  have hconstant : startsWith nvConstant (nvInfoOf ++ f) = false :=
    startsWith_append_of_ne f 4 (by decide) (by decide) (by decide)
  have hinfo : nvInfoOf ++ f ≠ nvInfo := by
    intro heq
    have hlength := congrArg List.length heq
    rw [List.length_append] at hlength
    exact absurd hlength (by show 9 + f.length ≠ 8; omega)
  rw [sectionKind, hshared, htext, hconstant, if_neg (by decide), if_neg (by decide),
    if_neg (by decide), if_neg hinfo, if_pos (startsWith_append nvInfoOf h), List.drop_left]

/-- **The tables have the records of every function.** -/
theorem attributes_of_scan {image : ElfImage} {moduleGpuVa : NvU64} {tables : FunctionTables}
    (h : scanSections image moduleGpuVa = .ok tables) {f : Name} (hf : f ≠ []) :
    image.functionAttributes f = .ok (tables.attributes f) := by
  refine scanSections_induction (fun seen t => (seen.filter fun s => s.name == nvInfoOf ++ f).foldlM
    (fun a s => s.functionAttributes a) {} = .ok (t.attributes f)) rfl
    (fun seen s t t' _ ht hs => ?_) h
  obtain ⟨relocs, -, hadd⟩ := scanSection_eq_ok hs
  rw [List.filter_append, List.foldlM_append, ht]
  have hname : s.name = nvInfoOf ++ f ↔ sectionKind s.name = .functionInfo f :=
    ⟨fun hname => hname ▸ sectionKind_functionInfo hf, name_of_functionInfo⟩
  by_cases hkind : sectionKind s.name = .functionInfo f
  · have hfilter : [s].filter (fun s => s.name == nvInfoOf ++ f) = [s] := by
      simp [hname, hkind]
    rw [hfilter]
    cases hadd with
    | functionInfo g a hg hparse =>
      obtain rfl : f = g := SectionKind.functionInfo.inj (hkind.symm.trans hg)
      simp only [List.foldlM_cons, List.foldlM_nil, bind, Except.bind, hparse, Function.update_self]
      rfl
    | shared g hg => cases hkind.symm.trans hg
    | text g hg => cases hkind.symm.trans hg
    | constant rest nr used hg => cases hkind.symm.trans hg
    | info hg => cases hkind.symm.trans hg
    | other hg => cases hkind.symm.trans hg
  · have hfilter : [s].filter (fun s => s.name == nvInfoOf ++ f) = [] := by
      simp [hname, hkind]
    rw [hfilter]
    cases hadd with
    | functionInfo g a hg hparse =>
      have hne : f ≠ g := by
        rintro rfl
        exact hkind hg
      simp only [List.foldlM_nil, bind, Except.bind, Function.update_of_ne hne]
      rfl
    | _ => rfl

/-- A section has the same records at any address. -/
theorem Section.SameBut.functionAttributes {s s' : Section} (h : s.SameBut s')
    (a : FunctionAttributes) : s'.functionAttributes a = s.functionAttributes a := by
  rw [Section.functionAttributes, Section.functionAttributes, h.data, h.size]

/-- The layout keeps the records. -/
theorem functionAttributes_of_sameBut {image : ElfImage} {placed : List Section}
    (h : List.Forall₂ Section.SameBut image.sections placed) (f : Name) :
    ElfImage.functionAttributes { image with sections := placed } f = image.functionAttributes f := by
  unfold ElfImage.functionAttributes
  show (placed.filter _).foldlM _ _ = (image.sections.filter _).foldlM _ _
  generalize ({} : FunctionAttributes) = a
  revert h
  generalize image.sections = sections
  intro h
  induction h generalizing a with
  | nil => rfl
  | cons hs _ ih =>
    rw [List.filter_cons, List.filter_cons, hs.name]
    split_ifs
    · have hparse := hs.functionAttributes a
      rw [List.foldlM_cons, List.foldlM_cons, hparse]
      rcases Section.functionAttributes _ a with e | a'
      · rfl
      · exact ih a'
    · exact ih a

/-- **The parameters of a loaded function** are those of its records. -/
theorem paramInfo_of_loaded {image : ElfImage} {m : LibreCUmodule} (h : image.Loaded m)
    {f : LibreCUFunction} (hf : f ∈ m.functions) :
    ∃ a, image.functionAttributes f.name.toList = .ok a ∧ f.paramInfo = a.finalize := by
  rw [h.functions] at hf
  obtain ⟨name, hname, rfl⟩ := List.mem_map.mp hf
  refine ⟨h.tables.attributes name, ?_, rfl⟩
  have hattributes := attributes_of_scan h.scan (ne_nil_of_scan h.scan name hname)
  rw [functionAttributes_of_sameBut (sameBut_of_rebuildImage h.rebuild)] at hattributes
  rw [FunctionTables.function, String.toList_ofList]
  exact hattributes

/-! ## Sizes of parameters -/

namespace FunctionAttributes

/-- The records in the order of the parameters. -/
def sortedParams (a : FunctionAttributes) : List KernelParamInfo :=
  a.paramInfos.mergeSort fun p q => decide (p.paramIndex.toNat ≤ q.paramIndex.toNat)

/-- Where the parameter with a number begins; behind the last one, the total size. -/
def offsetOf (a : FunctionAttributes) (i : ℕ) : NvU16 :=
  ((a.sortedParams[i]?).map KernelParamInfo.paramOffset).getD (a.paramTotalSize.setWidth 16)

/-- The size that the loader derives for a parameter: up to where the next one begins. -/
def derivedSize (a : FunctionAttributes) (i : ℕ) : ℕ := (a.offsetOf (i + 1) - a.offsetOf i).toNat

theorem getElem?_paramSizes (total : NvU64) (infos : List KernelParamInfo) (i : ℕ) :
    (paramSizes total infos)[i]? = (infos[i]?).map fun p => { p with
      paramSize := ((infos[i + 1]?).map KernelParamInfo.paramOffset).getD (total.setWidth 16) -
        p.paramOffset } := by
  induction infos generalizing i with
  | nil => rfl
  | cons p rest ih =>
    cases rest with
    | nil => cases i <;> rfl
    | cons next rest =>
      rw [paramSizes]
      cases i with
      | zero => rfl
      | succ i => exact ih i

/-- **The sizes of the parameters** of a function are the derived ones. -/
theorem getElem?_finalize (a : FunctionAttributes) (i : ℕ) :
    a.finalize[i]? = (a.sortedParams[i]?).map fun p => { p with
      paramSize := a.offsetOf (i + 1) - p.paramOffset } :=
  getElem?_paramSizes a.paramTotalSize a.sortedParams i

theorem length_sortedParams (a : FunctionAttributes) :
    a.sortedParams.length = a.paramInfos.length := List.length_mergeSort _

theorem toNat_paramSize {a : FunctionAttributes} {i : ℕ} {p : KernelParamInfo}
    (h : a.finalize[i]? = some p) : p.paramSize.toNat = a.derivedSize i := by
  rw [getElem?_finalize] at h
  obtain ⟨q, hq, rfl⟩ := Option.map_eq_some_iff.mp h
  rw [derivedSize, offsetOf.eq_1 a i, hq]
  rfl

theorem exists_finalize {a : FunctionAttributes} {i : ℕ} (hi : i < a.paramInfos.length) :
    ∃ p, a.finalize[i]? = some p := by
  rw [getElem?_finalize, List.getElem?_eq_getElem (by rw [length_sortedParams]; exact hi)]
  exact ⟨_, rfl⟩

theorem lt_of_finalize {a : FunctionAttributes} {i : ℕ} {p : KernelParamInfo}
    (h : a.finalize[i]? = some p) : i < a.paramInfos.length := by
  rw [getElem?_finalize] at h
  obtain ⟨q, hq, -⟩ := Option.map_eq_some_iff.mp h
  rw [← length_sortedParams]
  exact (List.getElem?_eq_some_iff.mp hq).1

/-- The sizes of the parameters up to one are not refused. -/
def ReadableUpTo (a : FunctionAttributes) (i : ℕ) : Prop := ∀ k ≤ i, Readable (a.derivedSize k)

/-- **The loop over the parameters reads** the bytes within the derived sizes, up to the first size
that is refused. -/
theorem loopReads_finalize_iff (a : FunctionAttributes) (i j : ℕ) :
    LoopReads a.finalize i j ↔
      i < a.paramInfos.length ∧ a.ReadableUpTo i ∧ j < a.derivedSize i := by
  constructor
  · rintro ⟨p, hp, hbefore, hbyte⟩
    obtain ⟨hreadable, hj⟩ := (readsByte_iff _ j).mp hbyte
    rw [toNat_paramSize hp] at hreadable hj
    refine ⟨lt_of_finalize hp, fun k hk => ?_, hj⟩
    rcases Nat.lt_or_eq_of_le hk with hlt | rfl
    · obtain ⟨q, hq⟩ := exists_finalize (a := a) (i := k) (hlt.trans (lt_of_finalize hp))
      rw [← toNat_paramSize hq]
      refine hbefore q (List.mem_iff_getElem?.mpr ⟨k, ?_⟩)
      rw [List.getElem?_take_of_lt hlt, hq]
    · exact hreadable
  · rintro ⟨hi, hreadable, hj⟩
    obtain ⟨p, hp⟩ := exists_finalize hi
    refine ⟨p, hp, fun q hq => ?_, (readsByte_iff _ j).mpr ?_⟩
    · obtain ⟨k, hk⟩ := List.mem_iff_getElem?.mp hq
      have hlt : k < i := by
        have hlength := (List.getElem?_eq_some_iff.mp hk).1
        rw [List.length_take] at hlength
        omega
      rw [List.getElem?_take_of_lt hlt] at hk
      rw [toNat_paramSize hk]
      exact hreadable k hlt.le
    · rw [toNat_paramSize hp]
      exact ⟨hreadable i le_rfl, hj⟩

end FunctionAttributes

/-! ## Reads of a launch -/

/-- **A launch reads the caller's arguments only, if and only if** no parameter it gets to has
padding behind it: for a function of a loaded module and any declared sizes, the bytes that a launch
reads are within these exactly when the launch does not get to its parameters, or the distances
between the offsets are within them up to the first one that is refused. -/
theorem launch_reads_declared_iff {image : ElfImage} {m : LibreCUmodule} {h₀ h₁ h : Host}
    {f : LibreCUFunction} {function : ℕ} {shaderLocalMemoryVa : NvU64} {sharedMem : NvU32}
    {a : FunctionAttributes}
    (hload : call (libreCuModuleLoadData (some image)) h₀ = (.ok m, h₁)) (hf : f ∈ m.functions)
    (hfunction : h.functions function =
      { f with shaderLocalMemoryVa := shaderLocalMemoryVa, sharedMem := sharedMem })
    (ha : image.functionAttributes f.name.toList = .ok a) (numParams : NvU64) (declared : ℕ → ℕ) :
    (∀ i j, h.LaunchReads function numParams i j → j < declared i) ↔
      (h.ReachesParams function numParams → ∀ i < a.paramInfos.length, a.ReadableUpTo i →
        a.derivedSize i ≤ declared i) := by
  obtain ⟨loaded⟩ := loaded_of_ok hload
  obtain ⟨a', ha', hinfo⟩ := paramInfo_of_loaded loaded hf
  obtain rfl := Except.ok.inj (ha'.symm.trans ha)
  have hparams : (h.functions function).paramInfo = a'.finalize := by
    rw [hfunction]
    exact hinfo
  unfold Host.LaunchReads
  simp only [hparams, FunctionAttributes.loopReads_finalize_iff]
  constructor
  · intro hreads hreaches i hi hreadable
    by_contra hlt
    exact Nat.lt_irrefl _ (hreads i (declared i) ⟨hreaches, hi, hreadable, Nat.not_le.mp hlt⟩)
  · rintro hsizes i j ⟨hreaches, hi, hreadable, hj⟩
    exact Nat.lt_of_lt_of_le hj (hsizes hreaches i hi hreadable)

/-- A module with one function is known from its parts; the parameters are sorted elsewhere. -/
theorem load_eq_of_erased {image : ElfImage} {h₀ : Host} {f : LibreCUFunction} {moduleVaAddr : NvU64}
    {a : FunctionAttributes}
    (hload : (call (libreCuModuleLoadData (some image)) h₀).1.map (fun m =>
      (m.functions.map fun g => { g with paramInfo := [] }, m.moduleVaAddr)) =
        .ok ([{ f with paramInfo := [] }], moduleVaAddr))
    (ha : image.functionAttributes f.name.toList = .ok a) (hinfo : a.finalize = f.paramInfo) :
    (call (libreCuModuleLoadData (some image)) h₀).1 = .ok ⟨[f], moduleVaAddr⟩ := by
  rcases hcall : call (libreCuModuleLoadData (some image)) h₀ with ⟨e | m, h₁⟩
  · rw [hcall] at hload
    cases hload
  · rw [hcall] at hload
    obtain ⟨hfunctions, hva⟩ := Prod.mk.inj (Except.ok.inj hload)
    obtain ⟨g, hg, hsame⟩ := List.map_eq_singleton_iff.mp hfunctions
    obtain ⟨loaded⟩ := loaded_of_ok hcall
    have hmem : g ∈ m.functions := by
      rw [hg]
      exact List.mem_singleton_self g
    obtain ⟨a', ha', hinfo'⟩ := paramInfo_of_loaded loaded hmem
    have hname : g.name = f.name := (congrArg LibreCUFunction.name hsame :)
    rw [hname] at ha'
    obtain rfl := Except.ok.inj (ha'.symm.trans ha)
    have hf : g = f := by
      calc g = { ({ g with paramInfo := [] } : LibreCUFunction) with paramInfo := g.paramInfo } := rfl
        _ = { ({ f with paramInfo := [] } : LibreCUFunction) with paramInfo := f.paramInfo } := by
          rw [hsame, hinfo', hinfo]
        _ = f := rfl
    rw [← hf, ← hg, ← hva]

/-! ## A parameter with padding behind it -/

/-- The section `.nv.info` of a kernel with a pointer, a `short` and a `float`: their records
declare 8, 2 and 4 bytes at the offsets 0, 8 and 12, and the total size is 16. -/
def sumInfo : List NvU32 :=
  [0x43704, 0x7c, 0x3501, 0x80a04, 0, 0x100160, 0x101903, 0xc1704, 0, 0xc0002, 0x11f000,
    0xc1704, 0, 0x80001, 0x9f000, 0xc1704, 0, 0, 0x21f000, 0xff1b03, 0x41c04, 0xd0]

/-- The sizes the records declare. -/
def sumDeclared (i : ℕ) : ℕ := [8, 2, 4].getD i 0

/-- An image with that kernel. -/
def sumImage : ElfImage where
  sectionEntrySize := 64
  sections := [{ name := ".text.write_float_sum".toList, type := shtProgbits, size := 256 },
    { name := ".nv.constant0.write_float_sum".toList, type := shtProgbits, size := 0x170 },
    { name := ".nv.info.write_float_sum".toList, type := 0x70000000, size := 88,
      data := fun i => (ofWords sumInfo).getD i 0 }]

/-- What the loader collects from its records. -/
def sumAttributes : FunctionAttributes where
  paramInfos := [⟨2, 12, 0⟩, ⟨1, 8, 0⟩, ⟨0, 0, 0⟩]
  paramTotalSize := 16

/-- The record of that kernel. The loader takes the `short` for four bytes. -/
def sumKernel : LibreCUFunction where
  name := "write_float_sum"
  funcVaAddr := uvmHeapStart
  sharedMem := 0
  numRegisters := 0
  localMemReq := 0
  functionSize := 256
  constants := [⟨0, uvmHeapStart + 0x100, 0x170⟩]
  paramInfo := [⟨0, 0, 8⟩, ⟨1, 8, 4⟩, ⟨2, 12, 4⟩]

theorem functionAttributes_sumImage :
    sumImage.functionAttributes "write_float_sum".toList = .ok sumAttributes := by
  decide +kernel

theorem finalize_sumAttributes : sumAttributes.finalize = sumKernel.paramInfo := by
  simp [FunctionAttributes.finalize, sumAttributes, sumKernel, List.mergeSort,
    List.MergeSort.Internal.splitInTwo, paramSizes]

/-- The image is loaded. -/
theorem load_sumImage : (call (libreCuModuleLoadData (some sumImage)) loadHost).1 =
    .ok ⟨[sumKernel], uvmHeapStart⟩ :=
  load_eq_of_erased (by decide +kernel) functionAttributes_sumImage finalize_sumAttributes

/-- A stream that knows the kernel. -/
def sumHost : Host := { loadHost with functions := fun _ => sumKernel }

/-- A launch of the kernel gets to its parameters. -/
theorem reachesParams_sumHost : sumHost.ReachesParams 0 3 := by
  refine ⟨by decide +kernel, fun hneeds => ?_, by decide, by decide +kernel, by decide +kernel,
    by decide +kernel⟩
  exact absurd hneeds (by unfold Host.NeedsLocalMem; decide +kernel)

/-- With two more bytes behind the `short`, the launch stays within the arguments. -/
theorem launch_reads_declared_iff_sample : sumHost.ReachesParams 0 3 ∧
    ∀ i j, sumHost.LaunchReads 0 3 i j → j < [8, 4, 4].getD i 0 := by
  have hload : call (libreCuModuleLoadData (some sumImage)) loadHost =
      (.ok ⟨[sumKernel], uvmHeapStart⟩,
        (call (libreCuModuleLoadData (some sumImage)) loadHost).2) := by
    rw [← load_sumImage]
  have hfunction : sumHost.functions 0 =
      { sumKernel with shaderLocalMemoryVa := 0, sharedMem := 0 } := rfl
  refine ⟨reachesParams_sumHost, ?_⟩
  refine (launch_reads_declared_iff hload List.mem_cons_self hfunction functionAttributes_sumImage 3
    (fun i => [8, 4, 4].getD i 0)).mpr fun _ i hi _ => ?_
  obtain ⟨p, hp⟩ := FunctionAttributes.exists_finalize hi
  rw [← FunctionAttributes.toNat_paramSize hp]
  rw [finalize_sumAttributes] at hp
  rcases i with _ | _ | _ | i
  · obtain rfl := Option.some.inj hp
    decide
  · obtain rfl := Option.some.inj hp
    decide
  · obtain rfl := Option.some.inj hp
    decide
  · cases hp

/-- **A launch reads two bytes behind a `short`** that the caller passes. -/
theorem launch_reads_behind_short :
    (call (libreCuModuleLoadData (some sumImage)) loadHost).1 = .ok ⟨[sumKernel], uvmHeapStart⟩ ∧
      sumHost.functions 0 = sumKernel ∧
      (call (launchFunction (some 0) ⟨1, 1, 1⟩ ⟨1, 1, 1⟩ 0 (fun _ _ => 0) 3 true) sumHost).1 =
        .ok () ∧
      sumHost.LaunchReads 0 3 1 3 ∧ ¬ 3 < sumDeclared 1 := by
  refine ⟨load_sumImage, rfl, by decide +kernel, ⟨reachesParams_sumHost, ?_⟩, by decide⟩
  refine ⟨⟨1, 8, 4⟩, rfl, fun p hp => ?_, (readsByte_iff _ _).mpr ⟨by decide, by decide⟩⟩
  obtain rfl := List.mem_singleton.mp hp
  decide

end LibreCuda
