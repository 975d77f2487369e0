import LibreCuda.Module.SharedMemory
import LibreCuda.Queue.LocalMemory

/-! # Stack sizes

The loader takes the local memory a function needs from the minimal stack sizes in `.nv.info`: to
each of them it adds a constant, in 32 bits, and keeps the largest.

* **`ElfImage.minStacks`** are the stack sizes of a function, and **`ElfImage.readStacks`** those of
  them that the loader reads.
* **`localMemReq_of_loaded`** is what the loader makes of them.
* **`local_memory_sized_iff`**: when the local memory that follows is never rounded down. -/

namespace LibreCuda

open Bytes Exec

/-! ## The loop over `.nv.info` -/

/-- A line of `.nv.info` with a minimal stack size: the symbol it is for, and the size. -/
def minStackLine (data : ℕ → NvU8) (line : ℕ) : Option (NvU32 × NvU32) :=
  if wordAt data (12 * line) &&& 0xffff = eiattrMinStackSize then
    some (wordAt data (12 * line + 4), wordAt data (12 * line + 8))
  else none

/-- The minimal stack size that a line has for a function, where the symbols have these names. -/
def lineStack (data : ℕ → NvU8) (names : NvU32 → Name) (f : Name) (line : ℕ) : Option NvU32 :=
  (minStackLine data line).bind fun p => if names p.1 = f then some p.2 else none

/-- The minimal stack sizes that the first lines of a section have for a function. -/
def Section.stacksIn (s : Section) (names : NvU32 → Name) (lines : ℕ) (f : Name) : List NvU32 :=
  (List.range lines).filterMap (lineStack s.data names f)

/-- The name of a symbol, if there is one. -/
def symbolName (symbols : List ElfSymbol) (func : NvU32) : Name :=
  ((symbols[func.toNat]?).map ElfSymbol.name).getD []

/-- The minimal stack sizes of a function in a section. -/
def Section.minStacks (s : Section) (symbols : List ElfSymbol) (f : Name) : List NvU32 :=
  if sectionKind s.name = .info then
    s.stacksIn (symbolName symbols) ((s.size.toNat + 11) / 12) f
  else []

/-- **The minimal stack sizes of a function** in an image. -/
def ElfImage.minStacks (image : ElfImage) (f : Name) : List NvU32 :=
  image.sections.flatMap fun s => s.minStacks (symbolsOf image.sections) f

/-- The stack sizes for a function that the loader finds in the lines of a section. -/
def Section.lineStacks (s : Section) (symbols : List ElfSymbol) (f : Name) : List NvU32 :=
  s.stacksIn (infoTarget symbols) (infoLines s.size) f

/-- Those that it finds in a section under its name. -/
def Section.readStacks (s : Section) (symbols : List ElfSymbol) (f : Name) : List NvU32 :=
  if sectionKind s.name = .info then s.lineStacks symbols f else []

/-- **The stack sizes of a function that are read**: those in the lines that the loop comes to, for
the symbols that it finds. -/
def ElfImage.readStacks (image : ElfImage) (f : Name) : List NvU32 :=
  image.sections.flatMap fun s => s.readStacks (symbolsOf image.sections) f

/-- What a minimal stack size raises the requirement to. -/
def raiseReq (req minStack : NvU32) : NvU32 := maxOf req (minStack + 0x240)

/-- A line raises the requirement of the function it is for. -/
theorem infoLine_apply (symbols : List ElfSymbol) (data : ℕ → NvU8) (reqs : Name → NvU32) (line : ℕ)
    (f : Name) : infoLine symbols data reqs (12 * line) f =
      ((lineStack data (infoTarget symbols) f line).map (raiseReq (reqs f))).getD (reqs f) := by
  unfold infoLine lineStack minStackLine
  simp only
  split_ifs with htype
  · rw [Option.bind_some, Function.update_apply]
    by_cases hf : f = infoTarget symbols (wordAt data (12 * line + 4))
    · rw [if_pos hf, if_pos hf.symm, ← hf]
      rfl
    · rw [if_neg hf, if_neg (Ne.symm hf)]
      rfl
  · rfl

/-- The loop over lines raises the requirement to what the stack sizes of the function ask for. -/
theorem foldl_infoLine (symbols : List ElfSymbol) (data : ℕ → NvU8) (lines : List ℕ)
    (reqs : Name → NvU32) (f : Name) : (lines.map (12 * ·)).foldl (infoLine symbols data) reqs f =
      (lines.filterMap (lineStack data (infoTarget symbols) f)).foldl raiseReq (reqs f) := by
  induction lines generalizing reqs with
  | nil => rfl
  | cons line lines ih =>
    rw [List.map_cons, List.foldl_cons, ih, infoLine_apply, List.filterMap_cons]
    cases lineStack data (infoTarget symbols) f line with
    | none => rfl
    | some minStack => rfl

/-- **The loop over a section** raises the requirement to what the stack sizes in its lines ask for.
-/
theorem localMemReqs_apply (s : Section) (symbols : List ElfSymbol) (reqs : Name → NvU32) (f : Name) :
    s.localMemReqs symbols reqs f = (s.lineStacks symbols f).foldl raiseReq (reqs f) := by
  rw [Section.localMemReqs, infoOffsets_eq]
  exact foldl_infoLine ..

/-- **The requirement the loader finds.** -/
theorem functionLocalMemReqs_of_scan {image : ElfImage} {moduleGpuVa : NvU64}
    {tables : FunctionTables} (h : scanSections image moduleGpuVa = .ok tables) (f : Name) :
    tables.functionLocalMemReqs f = (image.readStacks f).foldl raiseReq 0 := by
  refine scanSections_induction (fun seen t => t.functionLocalMemReqs f =
    (seen.flatMap fun s => s.readStacks (symbolsOf image.sections) f).foldl raiseReq 0) rfl
    (fun seen s t t' _ ht hs => ?_) h
  obtain ⟨relocs, -, hadd⟩ := scanSection_eq_ok hs
  rw [List.flatMap_append, List.foldl_append, ← ht, List.flatMap_singleton]
  -- a section of another kind has no stack sizes
  have hother : sectionKind s.name ≠ .info → (s.readStacks (symbolsOf image.sections) f).foldl
      raiseReq (t.functionLocalMemReqs f) = t.functionLocalMemReqs f := by
    intro hne
    rw [Section.readStacks, if_neg hne]
    rfl
  cases hadd with
  | info kind =>
    rw [Section.readStacks, if_pos kind]
    exact localMemReqs_apply ..
  | shared g kind => exact (hother (by rw [kind]; nofun)).symm
  | text g kind => exact (hother (by rw [kind]; nofun)).symm
  | constant rest nr used kind number => exact (hother (by rw [kind]; nofun)).symm
  | functionInfo g a kind parse => exact (hother (by rw [kind]; nofun)).symm
  | other kind => exact (hother (by rw [kind]; nofun)).symm

/-! ## Loaded functions -/

/-- The layout keeps the symbols. -/
theorem symbolsOf_of_sameBut {sections placed : List Section}
    (h : List.Forall₂ Section.SameBut sections placed) : symbolsOf placed = symbolsOf sections := by
  have hfind : placed.findIdx (fun s => s.type == shtSymtab) =
      sections.findIdx fun s => s.type == shtSymtab := by
    have htypes := map_of_sameBut (fun hs => hs.type) h
    have hmap : ∀ l : List Section, (l.findIdx fun s => s.type == shtSymtab) =
        (l.map Section.type).findIdx (· == shtSymtab) := by
      intro l
      rw [List.findIdx_map]
      rfl
    rw [hmap, hmap, htypes]
  have hidx : symtabIdx placed = symtabIdx sections := by
    rw [symtabIdx, symtabIdx, hfind, h.length_eq]
  have hsymbols := map_of_sameBut (fun hs => hs.symbols) h
  rw [symbolsOf, symbolsOf, hidx, ← List.getElem?_map, ← List.getElem?_map, hsymbols]

/-- The layout keeps the stack sizes. -/
theorem readStacks_of_sameBut {image : ElfImage} {sections : List Section}
    (h : List.Forall₂ Section.SameBut image.sections sections) (f : Name) :
    ElfImage.readStacks { image with sections := sections } f = image.readStacks f := by
  rw [ElfImage.readStacks, ElfImage.readStacks, symbolsOf_of_sameBut h, List.flatMap_def,
    List.flatMap_def]
  refine congrArg List.flatten (map_of_sameBut (fun hs => ?_) h)
  rw [Section.readStacks, Section.readStacks, Section.lineStacks, Section.lineStacks,
    Section.stacksIn, Section.stacksIn, hs.name, hs.size, hs.data]

theorem name_ne_nil_of_loaded {image : ElfImage} {m : LibreCUmodule} (h : image.Loaded m)
    {f : LibreCUFunction} (hf : f ∈ m.functions) : f.name.toList ≠ [] := by
  rw [h.functions] at hf
  obtain ⟨name, hname, rfl⟩ := List.mem_map.mp hf
  rw [FunctionTables.function, String.toList_ofList]
  exact ne_nil_of_scan h.scan name hname

/-- **The requirement of a loaded function** is the largest of the stack sizes that are read, each
with the constant added in 32 bits. -/
theorem localMemReq_of_loaded {image : ElfImage} {m : LibreCUmodule} (h : image.Loaded m)
    {f : LibreCUFunction} (hf : f ∈ m.functions) :
    f.localMemReq = (image.readStacks f.name.toList).foldl raiseReq 0 := by
  rw [h.functions] at hf
  obtain ⟨name, -, rfl⟩ := List.mem_map.mp hf
  rw [FunctionTables.function, String.toList_ofList]
  show h.tables.functionLocalMemReqs name = _
  rw [functionLocalMemReqs_of_scan h.scan name,
    readStacks_of_sameBut (sameBut_of_rebuildImage h.rebuild)]

/-- The largest stack size for which no size of the local memory is cut off. -/
def maxMinStack : ℕ := 2 ^ 27 - 32 - 0x240

/-- A requirement is below a bound if what any of the sizes asks for is. -/
theorem toNat_requirement_le {sizes : List NvU32} {bound : ℕ} :
    (sizes.foldl raiseReq 0).toNat ≤ bound ↔ ∀ size ∈ sizes, (size + 0x240).toNat ≤ bound := by
  have hfold : sizes.foldl raiseReq 0 = (sizes.map (· + 0x240)).foldl maxOf 0 := by
    rw [List.foldl_map]
    rfl
  rw [hfold, toNat_foldl_maxOf_le (Nat.zero_le _), List.forall_mem_map]

/-- The constant is added in 32 bits. -/
theorem toNat_add_constant (size : NvU32) :
    (size + 0x240).toNat = (size.toNat + 0x240) % 2 ^ 32 :=
  BitVec.toNat_add ..

/-- A requirement covers those stack sizes that one of the sizes that are read covers. -/
theorem le_requirement_iff {sizes : List NvU32} (h : ∀ read ∈ sizes, read.toNat ≤ maxMinStack)
    (minStack : NvU32) : minStack.toNat ≤ (sizes.foldl raiseReq 0).toNat ↔
      minStack = 0 ∨ ∃ read ∈ sizes, minStack.toNat ≤ read.toNat + 0x240 := by
  have hsum : ∀ read ∈ sizes, (read + 0x240).toNat = read.toNat + 0x240 := by
    intro read hread
    have hsmall := h read hread
    unfold maxMinStack at hsmall
    rw [toNat_add_constant]
    omega
  by_cases hzero : minStack = 0
  · rw [hzero]
    exact ⟨fun _ => Or.inl rfl, fun _ => Nat.zero_le _⟩
  have hpos : minStack.toNat ≠ 0 := fun h0 => hzero (BitVec.eq_of_toNat_eq h0)
  rw [or_iff_right hzero, ← not_iff_not]
  -- a requirement that does not cover the size is below it
  have hbelow : ¬ minStack.toNat ≤ (sizes.foldl raiseReq 0).toNat ↔
      (sizes.foldl raiseReq 0).toNat ≤ minStack.toNat - 1 := by omega
  rw [hbelow, toNat_requirement_le]
  constructor
  · rintro hle ⟨read, hread, hcovers⟩
    have hlt := hle read hread
    rw [hsum read hread] at hlt
    omega
  · intro hnone read hread
    have hlt : ¬ minStack.toNat ≤ read.toNat + 0x240 := fun hcovers => hnone ⟨read, hread, hcovers⟩
    rw [hsum read hread]
    omega

/-- What is read are stack sizes of the function. -/
theorem minStacks_of_read {image : ElfImage} {f : Name} (hf : f ≠ []) {read : NvU32}
    (h : read ∈ image.readStacks f) : read ∈ image.minStacks f := by
  obtain ⟨s, hs, hread⟩ := List.mem_flatMap.mp h
  refine List.mem_flatMap.mpr ⟨s, hs, ?_⟩
  unfold Section.readStacks at hread
  split_ifs at hread with hkind
  · rw [Section.minStacks, if_pos hkind]
    obtain ⟨line, hline, hread⟩ := List.mem_filterMap.mp hread
    have hlt : line < infoLines s.size := List.mem_range.mp hline
    refine List.mem_filterMap.mpr ⟨line, List.mem_range.mpr (hlt.trans_le (Nat.min_le_left _ _)), ?_⟩
    obtain ⟨p, hp, hread⟩ := Option.bind_eq_some_iff.mp hread
    refine Option.bind_eq_some_iff.mpr ⟨p, hp, ?_⟩
    split_ifs at hread with htarget
    -- the symbol has a name, so that the loop over the symbols came to it
    have hname : symbolName (symbolsOf image.sections) p.1 = f := by
      unfold infoTarget at htarget
      split_ifs at htarget
      · exact absurd htarget.symm hf
      · exact htarget
    rw [if_pos hname]
    exact hread
  · cases hread

/-- **Local memory is never rounded down, if and only if** no stack size of the function that is
read and no mark is too large, and those that are not read need no more than those that are: for a
function of a loaded module, behind any sequence of calls on a new queue. -/
theorem local_memory_sized_iff {image : ElfImage} {m : LibreCUmodule} {h₀ h₁ start h h' : Host}
    {f : LibreCUFunction} {function : ℕ} {shaderLocalMemoryVa : NvU64} {calls : List ObservedCall}
    (hload : call (libreCuModuleLoadData (some image)) h₀ = (.ok m, h₁)) (hf : f ∈ m.functions)
    (hstart : start.queue.currentSlmPerThread = 0)
    (hrun : Runs.exec Host.next start calls = some h)
    (hfunction : h.functions function = { f with shaderLocalMemoryVa := shaderLocalMemoryVa })
    (hgrow : call (ensureEnoughLocalMem function) h = (.ok (), h')) :
    ((∀ minStack ∈ image.minStacks f.name.toList, minStack.toNat ≤ f.localMemReq.toNat) ∧
        h.LocalMemSized function h') ↔
      (∀ read ∈ image.readStacks f.name.toList, read.toNat ≤ maxMinStack) ∧
        (∀ minStack ∈ image.minStacks f.name.toList, minStack = 0 ∨
          ∃ read ∈ image.readStacks f.name.toList, minStack.toNat ≤ read.toNat + 0x240) ∧
        h.queue.currentSlmPerThread.toNat ≤ 2 ^ 27 - 32 := by
  obtain ⟨loaded⟩ := loaded_of_ok hload
  have hreq := localMemReq_of_loaded loaded hf
  have hne : f.name.toList ≠ [] := name_ne_nil_of_loaded loaded hf
  have hsized := localMemSized_iff (slmAligned_of_run hstart hrun) hgrow
  rw [hfunction] at hsized
  rw [hsized]
  have hbound : f.localMemReq.toNat ≤ 2 ^ 27 - 32 ↔
      ∀ read ∈ image.readStacks f.name.toList, (read + 0x240).toNat ≤ 2 ^ 27 - 32 := by
    rw [hreq, toNat_requirement_le]
  constructor
  · rintro ⟨hcovers, hmark, hreqle⟩
    have hsmall : ∀ read ∈ image.readStacks f.name.toList, read.toNat ≤ maxMinStack := by
      intro read hread
      have hstack := hcovers read (minStacks_of_read hne hread)
      have hraised := hbound.mp hreqle read hread
      have hreqle : f.localMemReq.toNat ≤ 2 ^ 27 - 32 := hreqle
      rw [toNat_add_constant] at hraised
      unfold maxMinStack
      omega
    refine ⟨hsmall, fun minStack hmem => (le_requirement_iff hsmall minStack).mp ?_, hmark⟩
    rw [← hreq]
    exact hcovers minStack hmem
  · rintro ⟨hsmall, hothers, hmark⟩
    refine ⟨fun minStack hmem => ?_, hmark, hbound.mpr fun read hread => ?_⟩
    · rw [hreq]
      exact (le_requirement_iff hsmall minStack).mpr (hothers minStack hmem)
    · have hstack := hsmall read hread
      unfold maxMinStack at hstack
      rw [toNat_add_constant]
      omega

/-- An image with one kernel and its minimal stack size. -/
def stackImage (minStack : NvU32) : ElfImage where
  sectionEntrySize := 64
  sections := [{ name := ".text.k".toList, type := shtProgbits },
    { name := ".symtab".toList, type := shtSymtab, symbols := [⟨"k".toList, 0, 0⟩] },
    { name := ".nv.info".toList, type := shtProgbits, size := 12,
      data := fun i => (ofWords [eiattrMinStackSize, 0, minStack]).getD i 0 }]

/-- The record of that kernel, loaded to the start of the heap. -/
def stackKernel (minStack : NvU32) : LibreCUFunction where
  name := "k"
  funcVaAddr := uvmHeapStart
  sharedMem := 0
  numRegisters := 0
  localMemReq := minStack + 0x240
  functionSize := 0
  constants := []
  paramInfo := []

/-- A new queue for that kernel. -/
def stackHost (minStack : NvU32) : Host :=
  { sampleFresh with functions := fun _ => stackKernel minStack }

/-- Load the image. -/
def loadStack (minStack : NvU32) : Except Failure LibreCUmodule × Host :=
  call (libreCuModuleLoadData (some (stackImage minStack))) (stackHost minStack)

/-- Look after the local memory of the kernel. -/
def growStack (minStack : NvU32) : Except Failure Unit × Host :=
  call (ensureEnoughLocalMem 0) (stackHost minStack)

/-- A stack size of 100 bytes is not rounded down. -/
theorem local_memory_sized_iff_sample :
    ((∀ minStack ∈ (stackImage 100).minStacks (stackKernel 100).name.toList,
        minStack.toNat ≤ (stackKernel 100).localMemReq.toNat) ∧
        (stackHost 100).LocalMemSized 0 (growStack 100).2) ↔
      (∀ read ∈ (stackImage 100).readStacks (stackKernel 100).name.toList,
        read.toNat ≤ maxMinStack) ∧
        (∀ minStack ∈ (stackImage 100).minStacks (stackKernel 100).name.toList, minStack = 0 ∨
          ∃ read ∈ (stackImage 100).readStacks (stackKernel 100).name.toList,
            minStack.toNat ≤ read.toNat + 0x240) ∧
        (stackHost 100).queue.currentSlmPerThread.toNat ≤ 2 ^ 27 - 32 := by
  have hload : loadStack 100 = (.ok ⟨[stackKernel 100], uvmHeapStart⟩, (loadStack 100).2) :=
    Prod.ext (by decide +kernel) rfl
  have hgrow : growStack 100 = (.ok (), (growStack 100).2) := Prod.ext (by decide +kernel) rfl
  exact @local_memory_sized_iff (stackImage 100) ⟨[stackKernel 100], uvmHeapStart⟩ _ _
    (stackHost 100) (stackHost 100) _ (stackKernel 100) 0 0 [] hload (List.mem_singleton.mpr rfl) rfl
    rfl rfl hgrow

/-- **Large stack sizes are rounded down**: one of 128 megabytes gets less than two megabytes for a
cluster, and the largest gets a requirement of 575 bytes. -/
theorem large_stack_rounded_down :
    (loadStack 0x8000000).1 = .ok ⟨[stackKernel 0x8000000], uvmHeapStart⟩ ∧
      (growStack 0x8000000).1 = .ok () ∧
      (bytesPerTpc (growStack 0x8000000).2.queue.currentSlmPerThread).toNat = 0x1B0000 ∧
      ¬ (stackHost 0x8000000).LocalMemSized 0 (growStack 0x8000000).2 ∧
      (loadStack 0xFFFFFFFF).1 = .ok ⟨[stackKernel 0xFFFFFFFF], uvmHeapStart⟩ ∧
      (stackImage 0xFFFFFFFF).minStacks (stackKernel 0xFFFFFFFF).name.toList = [0xFFFFFFFF] ∧
      (stackKernel 0xFFFFFFFF).localMemReq = 575 := by
  refine ⟨by decide +kernel, by decide +kernel, by decide +kernel, fun hsized => ?_,
    by decide +kernel, by decide +kernel, by decide +kernel⟩
  exact absurd hsized.tpc (by decide +kernel)

end LibreCuda
