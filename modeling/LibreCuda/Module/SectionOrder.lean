import LibreCuda.Foundation.Reorderings
import LibreCuda.Module.Constants
import LibreCuda.Module.Layout
import LibreCuda.Module.Metadata
import LibreCuda.Module.Parameters
import LibreCuda.Module.StackSizes

/-! # The order of sections

What the loader knows of a function comes from up to six kinds of sections, which it visits in the
order of the section table and merges by the names in them. The order of the sections, and that of
the records of a function, makes no difference to what it finds.

* **`RecordsReordered`**: contents of `.nv.info.<f>` that differ in the order of the records.
* **`Section.SameUpToOrder`**: what two images with the same sections have in common.
* **`functions_of_reordered`**: the records of the functions are the same. -/

namespace LibreCuda

open Bytes Exec Reorderings

/-! ## Records in another order -/

/-- The third word of a block, where the record of a parameter has its index and offset. -/
def thirdWord (block : List NvU8) : NvU32 := wordAt (fun i => (block[i]?).getD 0) 8

/-- The parameter that a record is for. -/
def recordParam (block : List NvU8) : Option KernelParamInfo :=
  if attributeType (headerOf block) = eiattrKparamInfo then some {
    paramIndex := (thirdWord block).setWidth 16
    paramOffset := (thirdWord block >>> 16).setWidth 16 }
  else none

/-- The total size that a record gives. -/
def recordTotalSize (block : List NvU8) : Option NvU64 :=
  if attributeType (headerOf block) = eiattrCbankParamSize then
    some ((attributeOther (headerOf block)).setWidth 64)
  else none

/-- Contents of `.nv.info.<f>` with the same records in another order, up to where the loop ends:
one total size at most, and every parameter once. -/
inductive RecordsReordered (block block' : List NvU8) : Prop
  | mk (records records' : List (List NvU8)) (last : List NvU8)
    (front : block = records.flatten ++ last) (back : block' = records'.flatten ++ last)
    (perm : records.Perm records') (whole : ∀ r ∈ records, LoopRecord r) (ends : EndsLoop last)
    (totalSize : ((records ++ [last]).filterMap recordTotalSize).length ≤ 1)
    (distinct : (((records ++ [last]).filterMap recordParam).map
      fun p => p.paramIndex.toNat).Nodup)

/-- What a record adds. -/
def FunctionAttributes.addBlock (a : FunctionAttributes) (block : List NvU8) : FunctionAttributes :=
  a.add (headerOf block) (thirdWord block)

theorem FunctionAttributes.addBlock_eq (a : FunctionAttributes) (block : List NvU8) :
    a.addBlock block = {
      paramInfos := a.paramInfos ++ (recordParam block).toList
      paramTotalSize := (recordTotalSize block).getD a.paramTotalSize } := by
  unfold FunctionAttributes.addBlock FunctionAttributes.add recordParam recordTotalSize
  split_ifs with hsize hparam hparam
  · rw [hsize] at hparam
    exact absurd hparam (by decide)
  · simp
  · rfl
  · simp

/-- Records add their parameters, in their order, and the last of their total sizes. -/
theorem foldl_addBlock (a : FunctionAttributes) (blocks : List (List NvU8)) :
    blocks.foldl FunctionAttributes.addBlock a = {
      paramInfos := a.paramInfos ++ blocks.filterMap recordParam
      paramTotalSize := (blocks.filterMap recordTotalSize).foldl (fun _ size => size)
        a.paramTotalSize } := by
  induction blocks generalizing a with
  | nil => simp
  | cons block blocks ih =>
    rw [List.foldl_cons, ih, a.addBlock_eq, List.filterMap_cons, List.filterMap_cons]
    cases recordParam block with
    | none => cases recordTotalSize block <;> simp
    | some p => cases recordTotalSize block <;> simp

/-- A header at which the loop stops adds nothing. -/
theorem FunctionAttributes.add_of_stop {key : NvU32} (h : attributeStep key = .stop)
    (a : FunctionAttributes) (line2 : NvU32) : a.add key line2 = a := by
  have hne : attributeType key ≠ eiattrCbankParamSize ∧ attributeType key ≠ eiattrKparamInfo := by
    by_cases hend : key = 0xffffffff
    · rw [hend]
      decide
    by_cases hexit : attributeType key = eiattrExitInstrOffsets
    · rw [hexit]
      decide
    rw [attributeStep, if_neg hend, if_neg hexit] at h
    split at h <;> cases h
  rw [FunctionAttributes.add, if_neg hne.1, if_neg hne.2]

/-- The third word matters for parameters only. -/
theorem FunctionAttributes.add_congr {key line2 line2' : NvU32}
    (h : attributeType key = eiattrKparamInfo → line2 = line2') (a : FunctionAttributes) :
    a.add key line2 = a.add key line2' := by
  unfold FunctionAttributes.add
  split_ifs with hsize hparam
  · rfl
  · rw [h hparam]
  · rfl

/-- What the loop adds for a block that holds what it reads. -/
theorem add_of_holdsAt {data : ℕ → NvU8} {off : ℕ} {block : List NvU8} (a : FunctionAttributes)
    (hdata : HoldsAt data off block) (hheader : 4 ≤ block.length)
    (hparam : attributeType (headerOf block) = eiattrKparamInfo → 12 ≤ block.length) :
    a.add (wordAt data off) (wordAt data (off + 8)) = a.addBlock block := by
  rw [wordAt_of_block hdata hheader, FunctionAttributes.addBlock]
  exact a.add_congr fun htype => wordAt_of_holdsAt_block hdata (hparam htype)

theorem LoopRecord.param {block : List NvU8} (h : LoopRecord block)
    (htype : attributeType (headerOf block) = eiattrKparamInfo) : 12 ≤ block.length := by
  have hadvance := h.2.symm.trans (attributeStep_kparam htype)
  rw [AttributeStep.advance.inj hadvance]
  decide

/-- **What the loop collects** from a block of records, by induction on these. -/
theorem parseAttributes_of_blocks {data : ℕ → NvU8} {size off : ℕ} {records : List (List NvU8)}
    {last : List NvU8} {a a' : FunctionAttributes} (hwhole : ∀ r ∈ records, LoopRecord r)
    (hends : EndsLoop last) (hdata : HoldsAt data off (records.flatten ++ last))
    (hsize : size = off + (records.flatten ++ last).length)
    (h : parseAttributes data size size off a = .ok a') :
    a' = (records ++ [last]).foldl FunctionAttributes.addBlock a := by
  induction records generalizing off a with
  | nil =>
    rw [List.flatten_nil, List.nil_append] at hdata hsize
    rw [List.nil_append, List.foldl_cons, List.foldl_nil]
    -- the loop ends in the last block, which adds what it holds of a parameter
    cases hends with
    | none nil =>
      subst nil
      rw [parseAttributes_end (by rw [hsize]; exact Nat.le_refl _)] at h
      rw [← Except.ok.inj h, FunctionAttributes.addBlock, FunctionAttributes.add,
        if_neg (by decide), if_neg (by decide)]
    | stop header step =>
      have hword := wordAt_of_block hdata header
      rw [parseAttributes_stop (by omega) (hword ▸ step)] at h
      rw [← Except.ok.inj h, FunctionAttributes.addBlock, FunctionAttributes.add_of_stop step]
    | fail header step =>
      have hword := wordAt_of_block hdata header
      rw [parseAttributes_fail (by omega) (hword ▸ step)] at h
      cases h
    | cut n header step long param =>
      have hword := wordAt_of_block hdata header
      rw [parseAttributes_advance (by omega) (hword ▸ step), parseAttributes_end (by omega),
        add_of_holdsAt a hdata header param] at h
      exact (Except.ok.inj h).symm
  | cons r records ih =>
    have hr : LoopRecord r := hwhole r List.mem_cons_self
    rw [List.flatten_cons, List.append_assoc] at hdata hsize
    rw [List.length_append] at hsize
    obtain ⟨hhead, hrest⟩ := holdsAt_append.mp hdata
    have hheader := hr.1
    have hword := wordAt_of_block hhead hheader
    rw [parseAttributes_advance (by omega) (hword ▸ hr.2), add_of_holdsAt a hhead hheader hr.param]
      at h
    rw [List.cons_append, List.foldl_cons]
    exact ih (fun r' hr' => hwhole r' (List.mem_cons_of_mem r hr')) hrest (by omega) h

/-- **The parameters of a function** do not depend on the order of its records. -/
theorem finalize_of_reordered {blocks blocks' : List (List NvU8)} (hperm : blocks.Perm blocks')
    (htotal : (blocks.filterMap recordTotalSize).length ≤ 1)
    (hdistinct : ((blocks.filterMap recordParam).map fun p => p.paramIndex.toNat).Nodup) :
    (blocks.foldl FunctionAttributes.addBlock {}).finalize =
      (blocks'.foldl FunctionAttributes.addBlock {}).finalize := by
  -- one total size at most has one order, and sorting forgets that of the parameters
  have hsizes := eq_of_perm_of_length_le_one (hperm.filterMap recordTotalSize) htotal
  rw [foldl_addBlock, foldl_addBlock, FunctionAttributes.finalize, FunctionAttributes.finalize]
  simp only [List.nil_append, hsizes]
  rw [mergeSort_eq_of_perm (fun p : KernelParamInfo => p.paramIndex.toNat)
    (hperm.filterMap recordParam) hdistinct]

/-! ## Sections in another order -/

/-- A section as it is in another image with the same sections: all of it but what depends on the
order of these, which are the numbers of sections in symbols, in the info of relocation sections
and in relocations, and the addresses. The records of a function can be in another order. -/
structure Section.SameUpToOrder (s s' : Section) : Prop where
  name : s'.name = s.name
  type : s'.type = s.type
  size : s'.size = s.size
  info : ∀ f, sectionKind s.name = .text f → s'.info = s.info
  symbols : s'.symbols.map ElfSymbol.name = s.symbols.map ElfSymbol.name
  contents : s'.data = s.data ∨
    (∃ f, sectionKind s.name = .functionInfo f) ∧ RecordsReordered s.bytes s'.bytes

/-- The layouts of the images do not come between the sections. -/
theorem Section.SameUpToOrder.placed {p s s' p' : Section} (hs : s.SameBut p)
    (h : s.SameUpToOrder s') (hs' : s'.SameBut p') : p.SameUpToOrder p' := by
  have hbytes : p.bytes = s.bytes := by rw [Section.bytes, Section.bytes, hs.size, hs.data]
  have hbytes' : p'.bytes = s'.bytes := by rw [Section.bytes, Section.bytes, hs'.size, hs'.data]
  refine ⟨?_, ?_, ?_, fun f hf => ?_, ?_, ?_⟩
  · rw [hs'.name, h.name, hs.name]
  · rw [hs'.type, h.type, hs.type]
  · rw [hs'.size, h.size, hs.size]
  · rw [hs'.info, h.info f (hs.name ▸ hf), hs.info]
  · rw [hs'.symbols, h.symbols, hs.symbols]
  · rw [hs'.data, hs.data, hs.name, hbytes, hbytes']
    exact h.contents

/-- **A section gives a function the same parameters**, in whatever order its records are. -/
theorem Section.SameUpToOrder.finalize {s s' : Section} (h : s.SameUpToOrder s')
    {a a' : FunctionAttributes} (ha : s.functionAttributes {} = .ok a)
    (ha' : s'.functionAttributes {} = .ok a') : a.finalize = a'.finalize := by
  rcases h.contents with hdata | ⟨-, hrecords⟩
  · rw [Section.functionAttributes, h.size, hdata] at ha'
    rw [Except.ok.inj (ha.symm.trans ha')]
  · obtain ⟨records, records', last, front, back, perm, whole, ends, totalSize, distinct⟩ := hrecords
    obtain ⟨hdata, hsize⟩ := Section.holdsAt_of_bytes front
    obtain ⟨hdata', hsize'⟩ := Section.holdsAt_of_bytes back
    rw [parseAttributes_of_blocks whole ends hdata (by omega) ha,
      parseAttributes_of_blocks (fun r hr => whole r (perm.mem_iff.mpr hr)) ends hdata' (by omega)
        ha']
    exact finalize_of_reordered (perm.append_right [last]) totalSize distinct

section Tables

variable {image image' : ElfImage}

/-- **The same image up to the order** of its sections. -/
structure ElfImage.SameUpToOrder (image image' : ElfImage) : Prop where
  entrySize : image'.sectionEntrySize = image.sectionEntrySize
  sections : Reordered Section.SameUpToOrder image.sections image'.sections

theorem ElfImage.SameUpToOrder.names (h : image.SameUpToOrder image') :
    (image.sections.map Section.name).Perm (image'.sections.map Section.name) :=
  h.sections.map_perm fun _ _ hs => hs.name.symm

/-- There is one symbol table. -/
def ElfImage.OneSymbolTable (image : ElfImage) : Prop :=
  (image.sections.filter fun s => s.type == shtSymtab).length = 1

/-- The one symbol table is found wherever it stands. -/
theorem symbolsOf_eq_of_filter {sections : List Section} {s : Section}
    (h : sections.filter (fun s => s.type == shtSymtab) = [s]) : symbolsOf sections = s.symbols := by
  have hfind : sections.find? (fun s => s.type == shtSymtab) = some s := by
    rw [← List.head?_filter, h, List.head?_cons]
  rw [List.find?_eq_getElem?_findIdx] at hfind
  obtain ⟨hlt, -⟩ := List.getElem?_eq_some_iff.mp hfind
  rw [symbolsOf, symtabIdx, if_pos hlt, hfind]
  rfl

theorem ElfImage.SameUpToOrder.symbols (h : image.SameUpToOrder image')
    (hsymtab : image.OneSymbolTable) :
    (symbolsOf image'.sections).map ElfSymbol.name =
      (symbolsOf image.sections).map ElfSymbol.name := by
  obtain ⟨s, hs⟩ := List.length_eq_one_iff.mp hsymtab
  have hfilter := h.sections.filter (p := fun s => s.type == shtSymtab)
    (q := fun s => s.type == shtSymtab) fun s s' hsame => by rw [hsame.type]
  rw [hs] at hfilter
  obtain ⟨s', hs', hsame⟩ := hfilter.of_singleton
  rw [symbolsOf_eq_of_filter hs, symbolsOf_eq_of_filter hs', hsame.symbols]

/-- The largest of the requirements does not depend on the order in which they are found. -/
theorem raiseReq_right_comm (req x y : NvU32) :
    raiseReq (raiseReq req x) y = raiseReq (raiseReq req y) x := by
  apply BitVec.eq_of_toNat_eq
  simp only [raiseReq, toNat_maxOf]
  omega

instance : RightCommutative raiseReq := ⟨raiseReq_right_comm⟩

/-- A section has the same stack sizes in any order, with the names of the symbols the same. -/
theorem Section.SameUpToOrder.readStacks {s s' : Section} (h : s.SameUpToOrder s')
    {symbols symbols' : List ElfSymbol}
    (hnames : symbols'.map ElfSymbol.name = symbols.map ElfSymbol.name) (f : Name) :
    s.readStacks symbols f = s'.readStacks symbols' f := by
  unfold Section.readStacks
  rw [h.name]
  split_ifs with hkind
  · -- the table of the image is not one whose records were moved
    have hdata : s'.data = s.data := h.contents.resolve_right fun ⟨⟨g, hg⟩, _⟩ => by
      cases hkind.symm.trans hg
    have htarget : infoTarget symbols' = infoTarget symbols := by
      funext func
      unfold infoTarget
      rw [← List.getElem?_map, ← List.getElem?_map, hnames]
    simp only [Section.lineStacks, Section.stacksIn, htarget, hdata, h.size]
  · rfl

theorem ElfImage.SameUpToOrder.readStacks (h : image.SameUpToOrder image')
    (hsymtab : image.OneSymbolTable) (f : Name) :
    (image.readStacks f).Perm (image'.readStacks f) :=
  h.sections.flatMap_perm fun _ _ hs => hs.readStacks (h.symbols hsymtab) f

theorem ElfImage.SameUpToOrder.recordedSharedMem (h : image.SameUpToOrder image') (f : Name) :
    image.recordedSharedMem f = image'.recordedSharedMem f := by
  have hany : image.sections.any (·.name == nvShared ++ f) =
      image'.sections.any (·.name == nvShared ++ f) := by
    have hnames := h.names.any_eq (f := (· == nvShared ++ f))
    rw [List.any_map, List.any_map] at hnames
    exact hnames
  rw [ElfImage.recordedSharedMem, ElfImage.recordedSharedMem, hany, h.entrySize]

/-- With distinct names, at most one section has a name. -/
theorem length_filter_name_le_one {sections : List Section}
    (hnames : (sections.map Section.name).Nodup) (name : Name) :
    (sections.filter fun s => s.name == name).length ≤ 1 := by
  have hcount := List.nodup_iff_count_le_one.mp hnames name
  rwa [List.count, List.countP_map, List.countP_eq_length_filter] at hcount

/-- **A function has the same parameters** in both images. -/
theorem ElfImage.SameUpToOrder.finalize (h : image.SameUpToOrder image')
    (hnames : (image.sections.map Section.name).Nodup) {f : Name} {a a' : FunctionAttributes}
    (ha : image.functionAttributes f = .ok a) (ha' : image'.functionAttributes f = .ok a') :
    a.finalize = a'.finalize := by
  have hfilter := h.sections.filter (p := fun s => s.name == nvInfoOf ++ f)
    (q := fun s => s.name == nvInfoOf ++ f) fun s s' hsame => by rw [hsame.name]
  have hone := length_filter_name_le_one hnames (nvInfoOf ++ f)
  rw [ElfImage.functionAttributes] at ha ha'
  cases hsections : image.sections.filter fun s => s.name == nvInfoOf ++ f with
  | nil =>
    rw [hsections] at hfilter ha
    rw [hfilter.of_nil] at ha'
    rw [← Except.ok.inj ha, ← Except.ok.inj ha']
  | cons s rest =>
    have hrest : rest = [] := by
      rw [hsections, List.length_cons] at hone
      exact List.length_eq_zero_iff.mp (by omega)
    rw [hsections, hrest] at hfilter ha
    obtain ⟨s', hs', hsame⟩ := hfilter.of_singleton
    rw [hs'] at ha'
    have hround : ∀ t : Section, [t].foldlM (fun a s => s.functionAttributes a) {} =
        t.functionAttributes {} := by
      intro t
      rw [List.foldlM_cons]
      cases t.functionAttributes {} with
      | ok a => rfl
      | error e => rfl
    rw [hround] at ha ha'
    exact hsame.finalize ha ha'

/-- The number and the size of a bank, which do not depend on where it is. -/
def KernelConstantInfo.numberAndSize (c : KernelConstantInfo) : NvU32 × NvU64 := (c.constNr, c.size)

theorem banksOf_eq_flatMap (moduleGpuVa : NvU64) (sections : List Section) (f : Name) :
    banksOf moduleGpuVa sections f = sections.flatMap fun s => banksOf moduleGpuVa [s] f := by
  induction sections with
  | nil => rfl
  | cons s rest ih =>
    rw [List.flatMap_cons, ← ih]
    simp only [banksOf, ← List.map_append, ← List.filter_append, ← List.filterMap_append,
      List.singleton_append]

/-- The images have the same banks, at other addresses. -/
theorem ElfImage.SameUpToOrder.banks (h : image.SameUpToOrder image') (va va' : NvU64) (f : Name) :
    ((banksOf va image.sections f).map KernelConstantInfo.numberAndSize).Perm
      ((banksOf va' image'.sections f).map KernelConstantInfo.numberAndSize) := by
  rw [banksOf_eq_flatMap, banksOf_eq_flatMap va', List.map_flatMap, List.map_flatMap]
  refine h.sections.flatMap_perm fun s s' hsame => ?_
  simp only [banksOf, Section.bank, List.filterMap_cons, List.filterMap_nil, hsame.name, hsame.size]
  cases sectionKind s.name with
  | constant rest =>
    cases hnumber : stoi rest with
    | none => simp only [hnumber, Option.map_none, List.filter_nil, List.map_nil]
    | some number =>
      simp only [hnumber, Option.map_some, List.filter_cons, List.filter_nil]
      split_ifs <;> rfl
  | _ => rfl

/-- **A function has the same constants** in the tables of both images. -/
theorem ElfImage.SameUpToOrder.allConstants (h : image.SameUpToOrder image') {va va' : NvU64}
    {t t' : FunctionTables} (hscan : scanSections image va = .ok t)
    (hscan' : scanSections image' va' = .ok t') (f : Name) :
    ((t.allConstants f).map KernelConstantInfo.numberAndSize).Perm
      ((t'.allConstants f).map KernelConstantInfo.numberAndSize) := by
  -- the collected banks are those of the sections, in one order or the other
  have hcollected : ∀ g, ((t.constants g).map KernelConstantInfo.numberAndSize).Perm
      ((t'.constants g).map KernelConstantInfo.numberAndSize) := fun g =>
    ((perm_constants_of_scan hscan g).map _).trans
      ((h.banks va va' g).trans ((perm_constants_of_scan hscan' g).map _).symm)
  have hnil : t.constants f = [] ↔ t'.constants f = [] := by
    have hlength := (hcollected f).length_eq
    rw [List.length_map, List.length_map] at hlength
    rw [← List.length_eq_zero_iff, hlength, List.length_eq_zero_iff]
  rw [FunctionTables.allConstants, FunctionTables.allConstants]
  by_cases hempty : t.constants f = []
  · rw [if_pos hempty, if_pos (hnil.mp hempty)]
  · rw [if_neg hempty, if_neg (mt hnil.mpr hempty), List.map_append, List.map_append]
    exact (hcollected f).append (hcollected [])

end Tables

/-! ## Modules -/

/-- Two records of a function that differ in addresses, and in the order of the constants, only. -/
structure LibreCUFunction.SameRecord (g g' : LibreCUFunction) : Prop where
  name : g'.name = g.name
  sharedMem : g'.sharedMem = g.sharedMem
  numRegisters : g'.numRegisters = g.numRegisters
  localMemReq : g'.localMemReq = g.localMemReq
  functionSize : g'.functionSize = g.functionSize
  paramInfo : g'.paramInfo = g.paramInfo
  constants : (g.constants.map KernelConstantInfo.numberAndSize).Perm
    (g'.constants.map KernelConstantInfo.numberAndSize)

section Modules

variable {image image' : ElfImage}

theorem nodup_functionNames_of_scan {moduleGpuVa : NvU64} {tables : FunctionTables}
    (h : scanSections image moduleGpuVa = .ok tables) : tables.functionNames.Nodup := by
  refine scanSections_induction (fun _ t => t.functionNames.Nodup) List.nodup_nil
    (fun seen s t t' _ ht hs => ?_) h
  obtain ⟨relocs, -, hadd⟩ := scanSection_eq_ok hs
  cases hadd with
  | text f kind =>
    simp only [FunctionTables.addText]
    split_ifs with hmem
    · exact ht
    · exact List.nodup_append.mpr ⟨ht, List.nodup_singleton f, fun g hg f' hf' heq =>
        hmem (List.mem_singleton.mp hf' ▸ heq ▸ hg)⟩
  | _ => exact ht

/-- The images have the same functions. -/
theorem ElfImage.SameUpToOrder.functionNames (h : image.SameUpToOrder image') {va va' : NvU64}
    {t t' : FunctionTables} (hscan : scanSections image va = .ok t)
    (hscan' : scanSections image' va' = .ok t') : t.functionNames.Perm t'.functionNames := by
  refine (List.perm_ext_iff_of_nodup (nodup_functionNames_of_scan hscan)
    (nodup_functionNames_of_scan hscan')).mpr fun f => ?_
  have hmap : ∀ l : List Section, (∃ s ∈ l, NamesText s.name f) ↔
      ∃ name ∈ l.map Section.name, NamesText name f := by simp
  rw [mem_functionNames_of_scan hscan, mem_functionNames_of_scan hscan', hmap, hmap]
  simp only [h.names.mem_iff]

/-- **The tables of both images have the same record of a function.** -/
theorem ElfImage.SameUpToOrder.function (h : image.SameUpToOrder image')
    (hnames : (image.sections.map Section.name).Nodup)
    (hsymtab : image.OneSymbolTable) {va va' : NvU64}
    {t t' : FunctionTables} (hscan : scanSections image va = .ok t)
    (hscan' : scanSections image' va' = .ok t') {f : Name} (hf : f ∈ t'.functionNames) :
    (t.function f).SameRecord (t'.function f) := by
  have hne : f ≠ [] := ne_nil_of_scan hscan' f hf
  have hmem := (h.functionNames hscan hscan').mem_iff.mpr hf
  obtain ⟨s, hs, htext⟩ := (mem_functionNames_of_scan hscan f).mp hmem
  obtain ⟨s', hs', hsame⟩ := h.sections.exists_of_mem hs
  -- the section with the code tells registers and size, and it is the same in both
  have hknows := knows_of_scan hnames hscan hs htext
  have hknows' := knows_of_scan (h.names.nodup_iff.mp hnames) hscan' hs' (hsame.name ▸ htext)
  refine ⟨rfl, ?_, ?_, ?_, ?_, ?_, h.allConstants hscan hscan' f⟩
  · show t'.functionSharedMem f = t.functionSharedMem f
    rw [functionSharedMem_of_scan hscan' hne, functionSharedMem_of_scan hscan hne,
      h.recordedSharedMem f]
  · show t'.functionRegs f = t.functionRegs f
    rw [hknows'.regs, hknows.regs, hsame.info f htext]
  · show t'.functionLocalMemReqs f = t.functionLocalMemReqs f
    rw [functionLocalMemReqs_of_scan hscan', functionLocalMemReqs_of_scan hscan,
      (h.readStacks hsymtab f).foldl_eq]
  · show t'.functionSizes f = t.functionSizes f
    rw [hknows'.size, hknows.size, hsame.size]
  · exact (h.finalize hnames (attributes_of_scan hscan hne) (attributes_of_scan hscan' hne)).symm

/-- The layout keeps the sections the same up to their order. -/
theorem ElfImage.SameUpToOrder.placed (h : image.SameUpToOrder image') {sections sections' : List Section}
    (hplaced : List.Forall₂ Section.SameBut image.sections sections)
    (hplaced' : List.Forall₂ Section.SameBut image'.sections sections') :
    ElfImage.SameUpToOrder { image with sections := sections }
      { image' with sections := sections' } :=
  ⟨h.entrySize, .of_forall₂ hplaced.flip h.sections hplaced'
    fun _ _ _ _ hs hsame hs' => hsame.placed hs hs'⟩

/-- **Loading does not depend on the order of the sections**, nor on that of the records of the
parameters: the functions of two modules that are loaded from the same image up to the order
correspond, and have the same records. -/
theorem functions_of_reordered {m m' : LibreCUmodule} {h₀ h₁ h₀' h₁' : Host}
    (hsame : image.SameUpToOrder image') (hnames : (image.sections.map Section.name).Nodup)
    (hsymtab : image.OneSymbolTable)
    (hload : call (libreCuModuleLoadData (some image)) h₀ = (.ok m, h₁))
    (hload' : call (libreCuModuleLoadData (some image')) h₀' = (.ok m', h₁')) :
    Reordered LibreCUFunction.SameRecord m.functions m'.functions := by
  obtain ⟨loaded⟩ := loaded_of_ok hload
  obtain ⟨loaded'⟩ := loaded_of_ok hload'
  have hbut := sameBut_of_rebuildImage loaded.rebuild
  have hplaced := hsame.placed hbut (sameBut_of_rebuildImage loaded'.rebuild)
  have hnamesPlaced : (loaded.sections.map Section.name).Nodup := names_of_sameBut hbut ▸ hnames
  have hsymtabPlaced : (loaded.sections.filter fun s => s.type == shtSymtab).length = 1 := by
    have htypes := congrArg (List.countP (· == shtSymtab)) (map_of_sameBut (fun hs => hs.type) hbut)
    rw [List.countP_map, List.countP_map, List.countP_eq_length_filter,
      List.countP_eq_length_filter] at htypes
    exact htypes.trans hsymtab
  rw [loaded.functions, loaded'.functions]
  exact .map (hplaced.functionNames loaded.scan loaded'.scan) fun f hf =>
    hplaced.function hnamesPlaced hsymtabPlaced loaded.scan loaded'.scan hf

end Modules

/-! ## An image in two orders -/

/-- The sections of a kernel, with the given attributes. -/
def kernelSections (records : List (List NvU8)) : List Section :=
  [{ name := ".text.k".toList, type := shtProgbits, info := 16 <<< 24, size := 8 },
    { name := ".nv.constant0.k".toList, type := shtProgbits, size := 16 },
    { name := ".nv.constant3".toList, type := shtProgbits, size := 16 },
    infoSection ".nv.info.k".toList records.flatten,
    { name := ".symtab".toList, type := shtSymtab, symbols := [⟨"k".toList, 0, 0⟩] }]

/-- The attributes of two parameters, and of their total size. -/
def twoParams : List (List NvU8) :=
  [ofWord 0x101903, ofWords [0xc1704, 0, 0x80001, 0x21f000], ofWords [0xc1704, 0, 0, 0x21f000]]

/-- The kernel with these attributes, and the same in the opposite order. -/
def forwardImage : ElfImage := ⟨64, kernelSections twoParams⟩

def backwardImage : ElfImage := ⟨64, (kernelSections twoParams.reverse).reverse⟩

theorem Section.SameUpToOrder.refl (s : Section) : s.SameUpToOrder s :=
  ⟨rfl, rfl, rfl, fun _ _ => rfl, rfl, Or.inl rfl⟩

theorem recordsReordered_twoParams :
    RecordsReordered twoParams.flatten twoParams.reverse.flatten :=
  .mk twoParams twoParams.reverse [] (List.append_nil _).symm (List.append_nil _).symm
    (List.reverse_perm _).symm (by decide +kernel) (.none rfl) (by decide +kernel)
    (by decide +kernel)

theorem sameUpToOrder_forwardImage : forwardImage.SameUpToOrder backwardImage := by
  refine ⟨rfl, (kernelSections twoParams).reverse, (List.reverse_perm _).symm, ?_⟩
  have hinfo : (infoSection ".nv.info.k".toList twoParams.flatten).SameUpToOrder
      (infoSection ".nv.info.k".toList twoParams.reverse.flatten) := by
    refine ⟨rfl, rfl, rfl, fun _ _ => rfl, rfl, Or.inr ⟨⟨"k".toList, by decide⟩, ?_⟩⟩
    rw [bytes_infoSection (by decide), bytes_infoSection (by decide)]
    exact recordsReordered_twoParams
  exact .cons (.refl _) (.cons hinfo (.cons (.refl _) (.cons (.refl _) (.cons (.refl _) .nil))))

/-- Both images are loaded, with the same records of their kernels. -/
theorem functions_of_reordered_sample : ∃ m m' h₁ h₁',
    call (libreCuModuleLoadData (some forwardImage)) loadHost = (.ok m, h₁) ∧
      call (libreCuModuleLoadData (some backwardImage)) loadHost = (.ok m', h₁') ∧
      Reordered LibreCUFunction.SameRecord m.functions m'.functions := by
  have hok : ∀ r : Except Failure LibreCUmodule × Host, r.1.isOk = true → ∃ m h, r = (.ok m, h) := by
    rintro ⟨e | m, h⟩ hr
    · cases hr
    · exact ⟨m, h, rfl⟩
  obtain ⟨m, h₁, hload⟩ := hok (call (libreCuModuleLoadData (some forwardImage)) loadHost)
    (by decide +kernel)
  obtain ⟨m', h₁', hload'⟩ := hok (call (libreCuModuleLoadData (some backwardImage)) loadHost)
    (by decide +kernel)
  exact ⟨m, m', h₁, h₁', hload, hload', functions_of_reordered sameUpToOrder_forwardImage
    (by decide) rfl hload hload'⟩

end LibreCuda
