import LibreCuda.Driver.Alloc
import LibreCuda.Module.Attributes
import Mathlib.Data.List.Sort

/-! # Loading a module

`libreCuModuleLoadData`: lay out the image, scan its sections into tables keyed by function names,
build the functions, apply the relocations and copy the image to the device.

* **`sectionKind`** is the chain of tests on the names of sections.
* **`FunctionTables`** are the local maps of the source. -/

namespace LibreCuda

open Bytes

/-! ## Names of sections -/

/-- What the name of a section says. -/
inductive SectionKind
  | shared (function : Name)
  | text (function : Name)
  | constant (rest : Name)
  | info
  | functionInfo (function : Name)
  | other
  deriving DecidableEq

def nvShared : Name := ".nv.shared.".toList
def text : Name := ".text.".toList
def nvConstant : Name := ".nv.constant".toList
def nvInfo : Name := ".nv.info".toList
def nvInfoOf : Name := ".nv.info.".toList

/-- `name.size() > n && name.substr(0, n) == start`, for a `start` of length `n`. -/
def startsWith (start name : Name) : Bool :=
  start.length < name.length && name.take start.length == start

/-- The chain of tests on the name of a section. -/
def sectionKind (name : Name) : SectionKind :=
  if startsWith nvShared name then .shared (name.drop nvShared.length)
  else if startsWith text name then .text (name.drop text.length)
  else if startsWith nvConstant name then .constant (name.drop nvConstant.length)
  else if name = nvInfo then .info
  else if startsWith nvInfoOf name then .functionInfo (name.drop nvInfoOf.length)
  else .other

/-! ## Relocations -/

/-- A relocation to apply to the image (`RelocInfo`). -/
structure RelocInfo where
  applyImageOffset : NvU64
  relSymOffset : NvU64
  typ : NvU32
  deriving DecidableEq

/-- `symtab_idx`: the first symbol table, or section zero when there is none. -/
def symtabIdx (sections : List Section) : ℕ :=
  let idx := sections.findIdx fun s => s.type == shtSymtab
  if idx < sections.length then idx else 0

/-- The symbols at `symtab_idx`. -/
def symbolsOf (sections : List Section) : List ElfSymbol :=
  ((sections[symtabIdx sections]?).map Section.symbols).getD []

/-- `target_image_off`: the address of the first section with a name, or zero. -/
def sectionAddress (sections : List Section) (name : Name) : NvU64 :=
  ((sections.find? fun s => s.name == name).map Section.address).getD 0

/-- One entry of a relocation section. A symbol of a section that does not exist is a null
dereference. -/
def relocInfo (sections : List Section) (targetImageOff : NvU64) :
    Option RelocEntry → Except Failure RelocInfo
  | none => .error (.status .invalidImage)
  | some e =>
    match (symbolsOf sections)[e.symbol.toNat]? with
    | none => .error (.status .invalidImage)
    | some sym =>
      match sections[sym.sectionIndex.toNat]? with
      | none => .error .crash
      | some s => .ok ⟨targetImageOff + e.offset, s.address + sym.value, e.type⟩

/-- The name of the section a relocation section is for. -/
def relocTarget (s : Section) : Except Failure Name :=
  let start := if s.type = shtRel then ".rel".toList else ".rela".toList
  if s.name.take start.length = start then .ok (s.name.drop start.length)
  else .error (.status .invalidImage)

/-- The relocations a section asks for. -/
def sectionRelocs (sections : List Section) (s : Section) : Except Failure (List RelocInfo) :=
  if s.type = shtRel ∨ s.type = shtRela then do
    let target ← relocTarget s
    s.relocs.mapM (relocInfo sections (sectionAddress sections target))
  else .ok []

/-! ## Scanning the sections -/

/-- The local maps of the loader. A function without an entry has the default value, which is what
looking the function up creates. -/
structure FunctionTables where
  functionNames : List Name := []
  functionSharedMem : Name → NvU32 := fun _ => 0
  functionAddrs : Name → NvU64 := fun _ => 0
  functionRegs : Name → NvU32 := fun _ => 0
  functionLocalMemReqs : Name → NvU32 := fun _ => 0
  functionSizes : Name → NvU64 := fun _ => 0
  constants : Name → List KernelConstantInfo := fun _ => []
  /-- `param_infos` and `param_total_sizes`. -/
  attributes : Name → FunctionAttributes := fun _ => {}
  relocs : List RelocInfo := []

/-- Enter a section `.text.<f>`. -/
def FunctionTables.addText (t : FunctionTables) (moduleGpuVa : NvU64) (s : Section) (f : Name) :
    FunctionTables :=
  { t with
    functionNames := if f ∈ t.functionNames then t.functionNames else t.functionNames ++ [f]
    functionAddrs := Function.update t.functionAddrs f (moduleGpuVa + s.address)
    functionRegs := Function.update t.functionRegs f (s.info >>> 24)
    functionSizes := Function.update t.functionSizes f s.size }

/-- Enter a constant bank; bank 0 goes to the front of the list. -/
def FunctionTables.addConstant (t : FunctionTables) (f : Name) (c : KernelConstantInfo) :
    FunctionTables :=
  { t with
    constants := Function.update t.constants f
      (if c.constNr = 0 then c :: t.constants f else t.constants f ++ [c]) }

/-- Enter a section under its name. -/
def FunctionTables.addSection (t : FunctionTables) (image : ElfImage) (moduleGpuVa : NvU64)
    (s : Section) : Except Failure FunctionTables :=
  match sectionKind s.name with
  | .shared f => .ok { t with
      -- the size of an entry of the section header table, whatever the size of the section
      functionSharedMem :=
        Function.update t.functionSharedMem f (image.sectionEntrySize.setWidth 32) }
  | .text f => .ok (t.addText moduleGpuVa s f)
  | .constant rest =>
    match stoi rest with
    | none => .error .exception
    | some (constantNr, used) => .ok <| t.addConstant (rest.drop (used + 1))
      ⟨BitVec.ofInt 32 constantNr, moduleGpuVa + s.address, s.size⟩
  | .info => .ok { t with
      functionLocalMemReqs := s.localMemReqs (symbolsOf image.sections) t.functionLocalMemReqs }
  | .functionInfo f => do
    let a ← s.functionAttributes (t.attributes f)
    .ok { t with attributes := Function.update t.attributes f a }
  | .other => .ok t

/-- One round of the loop over the sections. -/
def FunctionTables.scanSection (image : ElfImage) (moduleGpuVa : NvU64) (t : FunctionTables)
    (s : Section) : Except Failure FunctionTables := do
  let relocs ← sectionRelocs image.sections s
  { t with relocs := t.relocs ++ relocs }.addSection image moduleGpuVa s

/-- The loop over the sections. -/
def scanSections (image : ElfImage) (moduleGpuVa : NvU64) : Except Failure FunctionTables :=
  image.sections.foldlM (FunctionTables.scanSection image moduleGpuVa) {}

/-! ## Building the functions -/

/-- The sizes of parameters: up to the next offset, or to the total; computed in 16 bits. -/
def paramSizes (totalParamSize : NvU64) : List KernelParamInfo → List KernelParamInfo
  | [] => []
  | [p] => [{ p with paramSize := totalParamSize.setWidth 16 - p.paramOffset }]
  | p :: next :: rest =>
    { p with paramSize := next.paramOffset - p.paramOffset } ::
      paramSizes totalParamSize (next :: rest)

/-- The parameters of a function, sorted by index. The order among equal indices is unspecified. -/
def FunctionAttributes.finalize (a : FunctionAttributes) : List KernelParamInfo :=
  paramSizes a.paramTotalSize
    (a.paramInfos.mergeSort fun p q => decide (p.paramIndex.toNat ≤ q.paramIndex.toNat))

/-- The constant banks of a function: its own, and behind them those of all functions, which a
function without a bank of its own does not get. -/
def FunctionTables.allConstants (t : FunctionTables) (f : Name) : List KernelConstantInfo :=
  if t.constants f = [] then [] else t.constants f ++ t.constants []

/-- The record of a function. -/
def FunctionTables.function (t : FunctionTables) (f : Name) : LibreCUFunction where
  name := String.ofList f
  funcVaAddr := t.functionAddrs f
  sharedMem := t.functionSharedMem f
  numRegisters := t.functionRegs f
  localMemReq := t.functionLocalMemReqs f
  functionSize := t.functionSizes f
  constants := t.allConstants f
  paramInfo := (t.attributes f).finalize

/-- The module that is built from the tables. -/
def FunctionTables.module (t : FunctionTables) (moduleGpuVa : NvU64) : LibreCUmodule :=
  ⟨t.functionNames.map t.function, moduleGpuVa⟩

/-- Bytes of a 64-bit word. -/
def bytesOf64 (value : NvU64) : List NvU8 := ofWords [lo32 value, hi32 value]

/-- Apply one relocation to the image. -/
def applyReloc (moduleGpuVa : NvU64) (image : List NvU8) (r : RelocInfo) :
    Except Failure (List NvU8) :=
  let address := moduleGpuVa + r.relSymOffset
  if image.length ≤ r.applyImageOffset.toNat then .error (.status .invalidImage)
  else if r.typ = 0x2 then overwrite image r.applyImageOffset.toNat (bytesOf64 address)
  else if r.typ = 0x38 then overwrite image (r.applyImageOffset.toNat + 4) (ofWord (lo32 address))
  else if r.typ = 0x39 then overwrite image (r.applyImageOffset.toNat + 4) (ofWord (hi32 address))
  else .ok image

/-- The loop over the relocations. -/
def applyRelocs (moduleGpuVa : NvU64) (rebuiltImage : List NvU8) (relocs : List RelocInfo) :
    Except Failure (List NvU8) :=
  relocs.foldlM (applyReloc moduleGpuVa) rebuiltImage

/-- `libreCuModuleLoadData`; a missing image is the null pointer. The module is handed out before
the relocations are applied. -/
def libreCuModuleLoadData (image : Option ElfImage) : Driver LibreCUmodule := do
  match image with
  | none => throw (.status .invalidValue)
  | some image =>
    let (rebuiltImage, sections) ← Exec.ofExcept (rebuildImage image.sections)
    let (moduleGpuVa, _) ← onVm (gpuAlloc (allocatedSize rebuiltImage.length) false true)
    let tables ← Exec.ofExcept (scanSections { image with sections := sections } moduleGpuVa)
    modify fun h => { h with pModule := some (tables.module moduleGpuVa) }
    let bytes ← Exec.ofExcept (applyRelocs moduleGpuVa rebuiltImage tables.relocs)
    modify fun h => { h with mem := store h.mem moduleGpuVa bytes }
    pure (tables.module moduleGpuVa)

/-! ## Inversion -/

/-- What a load that succeeded did: the layout, the scan of the sections at their addresses, and
the relocations all went through. -/
structure ElfImage.Loaded (image : ElfImage) (m : LibreCUmodule) where
  rebuilt : List NvU8
  sections : List Section
  tables : FunctionTables
  patched : List NvU8
  rebuild : rebuildImage image.sections = .ok (rebuilt, sections)
  scan : scanSections { image with sections := sections } m.moduleVaAddr = .ok tables
  patch : applyRelocs m.moduleVaAddr rebuilt tables.relocs = .ok patched
  functions : m.functions = tables.functionNames.map tables.function

/-- What a load that succeeded did, and that it left the patched image at the address of the module.
-/
theorem uploaded_of_ok {image : ElfImage} {m : LibreCUmodule} {h h' : Host}
    (hload : Exec.call (libreCuModuleLoadData (some image)) h = (.ok m, h')) :
    ∃ (loaded : image.Loaded m) (mem : Memory), h'.mem = store mem m.moduleVaAddr loaded.patched := by
  obtain ⟨⟨rebuilt, sections⟩, h₁, hrebuild, hload⟩ := Exec.bind_eq_ok hload
  obtain ⟨⟨va, handle⟩, h₂, -, hload⟩ := Exec.bind_eq_ok hload
  obtain ⟨tables, h₃, hscan, hload⟩ := Exec.bind_eq_ok hload
  obtain ⟨_, h₄, -, hload⟩ := Exec.bind_eq_ok hload
  obtain ⟨bytes, h₅, hpatch, hload⟩ := Exec.bind_eq_ok hload
  obtain ⟨_, h₆, hmodify, hload⟩ := Exec.bind_eq_ok hload
  obtain rfl : tables.module va = m := Except.ok.inj (Prod.ext_iff.mp hload).1
  obtain rfl : h₆ = h' := (Prod.ext_iff.mp hload).2
  refine ⟨⟨rebuilt, sections, tables, bytes, (Exec.ofExcept_eq_ok hrebuild).1,
    (Exec.ofExcept_eq_ok hscan).1, (Exec.ofExcept_eq_ok hpatch).1, rfl⟩, h₅.mem, ?_⟩
  rw [Exec.call_modify] at hmodify
  exact (congrArg Host.mem (Prod.ext_iff.mp hmodify).2).symm

theorem loaded_of_ok {image : ElfImage} {m : LibreCUmodule} {h h' : Host}
    (hload : Exec.call (libreCuModuleLoadData (some image)) h = (.ok m, h')) :
    Nonempty (image.Loaded m) :=
  let ⟨loaded, _⟩ := uploaded_of_ok hload
  ⟨loaded⟩

/-- **Induction over the scan**: what holds of the empty tables and is kept by every section holds
of the tables of the image. -/
theorem scanSections_induction {image : ElfImage} {moduleGpuVa : NvU64} {tables : FunctionTables}
    (P : List Section → FunctionTables → Prop) (hempty : P [] {})
    (hscan : ∀ seen s t t', s ∈ image.sections → P seen t →
      t.scanSection image moduleGpuVa s = .ok t' → P (seen ++ [s]) t')
    (h : scanSections image moduleGpuVa = .ok tables) : P image.sections tables := by
  suffices hrun : ∀ rest seen t, (∀ s ∈ rest, s ∈ image.sections) → P seen t →
      rest.foldlM (FunctionTables.scanSection image moduleGpuVa) t = .ok tables →
      P (seen ++ rest) tables from hrun image.sections [] {} (fun _ hs => hs) hempty h
  intro rest
  induction rest with
  | nil =>
    intro seen t _ ht hrest
    cases hrest
    rwa [List.append_nil]
  | cons s rest ih =>
    intro seen t hmem ht hrest
    rw [List.foldlM_cons] at hrest
    cases hs : t.scanSection image moduleGpuVa s with
    | error e => simp [hs, bind, Except.bind] at hrest
    | ok t' =>
      simp only [hs, bind, Except.bind] at hrest
      have hnext := hscan seen s t t' (hmem s List.mem_cons_self) ht hs
      have := ih (seen ++ [s]) t' (fun s' hs' => hmem s' (List.mem_cons_of_mem s hs')) hnext hrest
      rwa [List.append_assoc, List.singleton_append] at this

/-- What entering a section can do to the tables: one case for each kind of name. -/
inductive SectionAdded (image : ElfImage) (moduleGpuVa : NvU64) (s : Section) (t : FunctionTables) :
    FunctionTables → Prop
  | shared (f : Name) (kind : sectionKind s.name = .shared f) :
    SectionAdded image moduleGpuVa s t { t with
      functionSharedMem :=
        Function.update t.functionSharedMem f (image.sectionEntrySize.setWidth 32) }
  | text (f : Name) (kind : sectionKind s.name = .text f) :
    SectionAdded image moduleGpuVa s t (t.addText moduleGpuVa s f)
  | constant (rest : Name) (nr : ℤ) (used : ℕ) (kind : sectionKind s.name = .constant rest)
    (number : stoi rest = some (nr, used)) :
    SectionAdded image moduleGpuVa s t (t.addConstant (rest.drop (used + 1))
      ⟨BitVec.ofInt 32 nr, moduleGpuVa + s.address, s.size⟩)
  | info (kind : sectionKind s.name = .info) :
    SectionAdded image moduleGpuVa s t { t with
      functionLocalMemReqs := s.localMemReqs (symbolsOf image.sections) t.functionLocalMemReqs }
  | functionInfo (f : Name) (a : FunctionAttributes) (kind : sectionKind s.name = .functionInfo f)
    (parse : s.functionAttributes (t.attributes f) = .ok a) :
    SectionAdded image moduleGpuVa s t { t with attributes := Function.update t.attributes f a }
  | other (kind : sectionKind s.name = .other) : SectionAdded image moduleGpuVa s t t

theorem sectionAdded_of_ok {image : ElfImage} {moduleGpuVa : NvU64} {t t' : FunctionTables}
    {s : Section} (h : t.addSection image moduleGpuVa s = .ok t') :
    SectionAdded image moduleGpuVa s t t' := by
  unfold FunctionTables.addSection at h
  cases hs : sectionKind s.name with
  | shared f =>
    rw [hs] at h
    cases h
    exact .shared f hs
  | text f =>
    rw [hs] at h
    cases h
    exact .text f hs
  | constant rest =>
    simp only [hs] at h
    cases hnr : stoi rest with
    | none => simp [hnr] at h
    | some p =>
      simp only [hnr] at h
      cases h
      exact .constant rest p.1 p.2 hs hnr
  | info =>
    rw [hs] at h
    cases h
    exact .info hs
  | functionInfo f =>
    simp only [hs] at h
    cases ha : s.functionAttributes (t.attributes f) with
    | error e => simp [ha, bind, Except.bind] at h
    | ok a =>
      simp only [ha, bind, Except.bind] at h
      cases h
      exact .functionInfo f a hs ha
  | other =>
    rw [hs] at h
    cases h
    exact .other hs

/-- One round of the loop enters the section in the tables behind its relocations. -/
theorem scanSection_eq_ok {image : ElfImage} {moduleGpuVa : NvU64} {t t' : FunctionTables}
    {s : Section} (h : t.scanSection image moduleGpuVa s = .ok t') :
    ∃ relocs, sectionRelocs image.sections s = .ok relocs ∧
      SectionAdded image moduleGpuVa s { t with relocs := t.relocs ++ relocs } t' := by
  unfold FunctionTables.scanSection at h
  cases hrelocs : sectionRelocs image.sections s with
  | error e => simp [hrelocs, bind, Except.bind] at h
  | ok relocs =>
    rw [hrelocs] at h
    exact ⟨relocs, rfl, sectionAdded_of_ok h⟩

/-! ## Names -/

/-- A name that starts so is that start and the rest. -/
theorem append_drop_of_startsWith {start name : Name} (h : startsWith start name = true) :
    start ++ name.drop start.length = name := by
  have htake : name.take start.length = start := by
    simpa using (Bool.and_eq_true_iff.mp h).2
  conv_rhs => rw [← List.take_append_drop start.length name, htake]

theorem startsWith_append (start : Name) {f : Name} (h : f ≠ []) :
    startsWith start (start ++ f) = true := by
  have hlen : 0 < f.length := List.length_pos_iff.mpr h
  rw [startsWith, List.take_left, List.length_append]
  simp
  omega

/-- A name does not start like another one if they differ in a letter. -/
theorem startsWith_append_of_ne {start start' : Name} (f : Name) (k : ℕ) (hk : k < start.length)
    (hk' : k < start'.length) (h : start'[k]? ≠ start[k]?) : startsWith start (start' ++ f) = false := by
  have htake : (start' ++ f).take start.length ≠ start := by
    intro heq
    apply h
    conv_rhs => rw [← heq]
    rw [List.getElem?_take_of_lt hk, List.getElem?_append_left hk']
  rw [startsWith, beq_eq_false_iff_ne.mpr htake, Bool.and_false]

/-- A section is entered as the shared memory of a function only under the name of that. -/
theorem name_of_shared {name f : Name} (h : sectionKind name = .shared f) :
    name = nvShared ++ f := by
  unfold sectionKind at h
  split_ifs at h with hstart
  cases h
  exact (append_drop_of_startsWith hstart).symm

theorem sectionKind_shared {f : Name} (h : f ≠ []) : sectionKind (nvShared ++ f) = .shared f := by
  rw [sectionKind, if_pos (startsWith_append nvShared h), List.drop_left]

/-- A section is entered as the code of a function only under the name of that. -/
theorem name_of_text {name f : Name} (h : sectionKind name = .text f) : name = text ++ f := by
  unfold sectionKind at h
  split_ifs at h with _ hstart
  cases h
  exact (append_drop_of_startsWith hstart).symm

theorem sectionKind_text {f : Name} (h : f ≠ []) : sectionKind (text ++ f) = .text f := by
  have hshared : startsWith nvShared (text ++ f) = false :=
    startsWith_append_of_ne f 1 (by decide) (by decide) (by decide)
  rw [sectionKind, hshared, if_neg (by decide), if_pos (startsWith_append text h), List.drop_left]

/-- No function has the empty name. -/
theorem ne_nil_of_text {name f : Name} (h : sectionKind name = .text f) : f ≠ [] := by
  unfold sectionKind at h
  split_ifs at h with _ hstart
  cases h
  have hlen : text.length < name.length := by
    simpa using (Bool.and_eq_true_iff.mp hstart).1
  intro hnil
  have := congrArg List.length hnil
  rw [List.length_drop, List.length_nil] at this
  omega

end LibreCuda
