import LibreCuda.Module.Layout
import LibreCuda.Module.Metadata
import LibreCuda.Module.StackSizes

/-! # Records of stack sizes

`.nv.info` is a sequence of records like those of a function, and the loader goes through it in
lines of three words, which it counts in an `int`.

* **`stackRequirement`** is what the records ask for.
* **`lineStacks_of_inLine`**: where every record is a line, the loader finds it, up to the last line
  that it comes to.
* **`findsStacks_of_found`**: then every function of a loaded module gets what the records of all
  sections ask for.
* **`stacks_found_iff`**: only there. -/

namespace LibreCuda

open Bytes Exec

/-! ## What the records ask for -/

namespace AttributeRecord

/-- A word of the payload. -/
def payloadWord (r : AttributeRecord) (o : ℕ) : NvU32 := wordAt (fun i => (r.payload[i]?).getD 0) o

/-- The symbol and the size of an `EIATTR_MIN_STACK_SIZE`, which has a payload of two words. -/
def minStack (r : AttributeRecord) : Option (NvU32 × NvU32) :=
  if r.type = eiattrMinStackSize ∧ r.payload.length = 8 then some (r.payloadWord 0, r.payloadWord 4)
  else none

/-- The record is as long as a line. -/
def InLine (r : AttributeRecord) : Prop := r.bytes.length = 12

/-- The number of the symbol is more than an `int` holds, or the size and the constant are more than
32 bits hold. -/
def Overflows (r : AttributeRecord) : Prop :=
  ∃ p, r.minStack = some p ∧ (2 ^ 31 ≤ p.1.toNat ∨ 2 ^ 32 ≤ p.2.toNat + 0x240)

/-- The loader can do with the record: it is a line, and nothing in it overflows. -/
def Found (r : AttributeRecord) : Prop := r.InLine ∧ ¬r.Overflows

/-- Two records of one kind, of which both overflow, or neither. -/
def SameStackKind (r r' : AttributeRecord) : Prop :=
  r.SameKind r' ∧ (r.Overflows ↔ r'.Overflows)

theorem inLine_iff (r : AttributeRecord) : r.InLine ↔ r.payload.length = 8 := by
  rw [InLine, length_bytes]
  omega

theorem minStack_of_not_inLine {r : AttributeRecord} (h : ¬r.InLine) : r.minStack = none := by
  rw [inLine_iff] at h
  rw [minStack, if_neg fun hmin => h hmin.2]

theorem not_overflows_of_not_inLine {r : AttributeRecord} (h : ¬r.InLine) : ¬r.Overflows := by
  rintro ⟨p, hp, -⟩
  rw [minStack_of_not_inLine h] at hp
  cases hp

/-- Records of one kind that are no lines differ in nothing that matters. -/
theorem sameStackKind_of_not_inLine {r r' : AttributeRecord} (h : ¬r.InLine) (hkind : r'.SameKind r) :
    r'.SameStackKind r := by
  have h' : ¬r'.InLine := by
    rw [inLine_iff] at h ⊢
    rwa [hkind.2]
  exact ⟨hkind, fun hover => absurd hover (not_overflows_of_not_inLine h'),
    fun hover => absurd hover (not_overflows_of_not_inLine h)⟩

end AttributeRecord

/-- The stack sizes that records have for the symbol of a function. -/
def stacksOf (symbols : List ElfSymbol) (records : List AttributeRecord) (f : Name) : List NvU32 :=
  records.filterMap fun r => r.minStack.bind fun p =>
    if (symbols[p.1.toNat]?).map ElfSymbol.name = some f then some p.2 else none

theorem stacksOf_append (symbols : List ElfSymbol) (records records' : List AttributeRecord)
    (f : Name) : stacksOf symbols (records ++ records') f =
      stacksOf symbols records f ++ stacksOf symbols records' f :=
  List.filterMap_append

/-- **What stack sizes ask for**: the largest of them and a constant, or nothing. -/
def stackRequirement (sizes : List ℕ) : ℕ := if sizes = [] then 0 else 0x240 + sizes.foldl max 0

/-- The section of the records of an image. -/
structure Section.IsImageInfo (s : Section) (records : List AttributeRecord) : Prop where
  name : s.name = nvInfo
  bytes : s.bytes = records.flatMap AttributeRecord.bytes

/-- The sections of such records in an image: one list of records for each of them. -/
def ElfImage.HasInfo (image : ElfImage) (infos : List (List AttributeRecord)) : Prop :=
  List.Forall₂ Section.IsImageInfo (image.sections.filter fun s => s.name == nvInfo) infos

/-- **The stack sizes that the records of an image have** for a function. -/
def ElfImage.askedStacks (image : ElfImage) (infos : List (List AttributeRecord)) (f : Name) :
    List NvU32 :=
  infos.flatMap fun records => stacksOf (symbolsOf image.sections) records f

/-- The loader finds what the records of an image ask for: every function of a module that is loaded
from it requires as much. -/
def ElfImage.FindsStacks (image : ElfImage) (infos : List (List AttributeRecord)) : Prop :=
  ∀ (h h' : Host) (m : LibreCUmodule), call (libreCuModuleLoadData (some image)) h = (.ok m, h') →
    ∀ f ∈ m.functions, f.localMemReq.toNat =
      stackRequirement ((image.askedStacks infos f.name.toList).map BitVec.toNat)

/-! ## Requirements -/

/-- A requirement is at least what any of the sizes asks for. -/
theorem le_foldl_raiseReq {sizes : List NvU32} {size : NvU32} (h : size ∈ sizes) :
    (size + 0x240).toNat ≤ (sizes.foldl raiseReq 0).toNat :=
  toNat_requirement_le.mp (Nat.le_refl _) size h

theorem toNat_foldl_raiseReq {sizes : List NvU32} (start : NvU32)
    (h : ∀ size ∈ sizes, size.toNat + 0x240 < 2 ^ 32) :
    (sizes.foldl raiseReq start).toNat =
      (sizes.map BitVec.toNat).foldl (fun req size => max req (size + 0x240)) start.toNat := by
  induction sizes generalizing start with
  | nil => rfl
  | cons size sizes ih =>
    have hsize : (raiseReq start size).toNat = max start.toNat (size.toNat + 0x240) := by
      have hsum : (size + 0x240).toNat = size.toNat + 0x240 :=
        (toNat_add_constant size).trans (Nat.mod_eq_of_lt (h size List.mem_cons_self))
      rw [raiseReq, toNat_maxOf, hsum]
    rw [List.foldl_cons, List.map_cons, List.foldl_cons, ← hsize]
    exact ih _ fun s hs => h s (List.mem_cons_of_mem size hs)

/-- The constant can be added to the largest size. -/
theorem foldl_max_add (sizes : List ℕ) (start c : ℕ) :
    sizes.foldl (fun req size => max req (size + c)) (c + start) = c + sizes.foldl max start := by
  induction sizes generalizing start with
  | nil => rfl
  | cons size sizes ih =>
    have hmax : max (c + start) (size + c) = c + max start size := by omega
    rw [List.foldl_cons, List.foldl_cons, hmax, ih]

/-- **The requirement that the loader keeps** is the one asked for, if no size overflows. -/
theorem toNat_requirement {sizes : List NvU32} (h : ∀ size ∈ sizes, size.toNat + 0x240 < 2 ^ 32) :
    (sizes.foldl raiseReq 0).toNat = stackRequirement (sizes.map BitVec.toNat) := by
  rw [toNat_foldl_raiseReq 0 h]
  cases sizes with
  | nil => rfl
  | cons size sizes =>
    rw [List.map_cons, stackRequirement, if_neg (List.cons_ne_nil _ _), List.foldl_cons,
      List.foldl_cons, ← foldl_max_add]
    congr 1
    show max 0 (size.toNat + 0x240) = 0x240 + max 0 size.toNat
    omega

/-! ## Records that are lines -/

theorem filterMap_range_getElem? {α β : Type} (l : List α) (g : α → Option β) :
    ((List.range l.length).filterMap fun k => (l[k]?).bind g) = l.filterMap g := by
  induction l using List.reverseRecOn with
  | nil => rfl
  | append_singleton l a ih =>
    have hfront : ((List.range l.length).filterMap fun k => ((l ++ [a])[k]?).bind g) =
        (List.range l.length).filterMap fun k => (l[k]?).bind g := by
      refine List.filterMap_congr fun k hk => ?_
      rw [List.getElem?_append_left (List.mem_range.mp hk)]
    rw [List.length_append, List.length_singleton, List.range_succ, List.filterMap_append,
      List.filterMap_append, hfront, ih]
    have hlast : (l ++ [a])[l.length]? = some a := by simp
    simp only [List.filterMap_cons, List.filterMap_nil, hlast, Option.bind_some]

/-- A section of lines has each record at its line. -/
theorem holdsAt_line {data : ℕ → NvU8} {off : ℕ} {records : List AttributeRecord}
    (hdata : HoldsAt data off (records.flatMap AttributeRecord.bytes))
    (hline : ∀ r ∈ records, r.InLine) {k : ℕ} (hk : k < records.length) :
    HoldsAt data (off + 12 * k) records[k].bytes := by
  induction records generalizing off k with
  | nil => exact absurd hk (Nat.not_lt_zero k)
  | cons r records ih =>
    rw [List.flatMap_cons] at hdata
    obtain ⟨hhead, hrest⟩ := holdsAt_append.mp hdata
    cases k with
    | zero => exact hhead
    | succ k =>
      have hlength : r.bytes.length = 12 := hline r List.mem_cons_self
      rw [hlength] at hrest
      have hnext := ih hrest (fun r' hr' => hline r' (List.mem_cons_of_mem r hr'))
        (Nat.lt_of_succ_lt_succ hk)
      rw [show off + 12 * (k + 1) = off + 12 + 12 * k by omega]
      exact hnext

theorem length_flatMap_inLine {records : List AttributeRecord} (hline : ∀ r ∈ records, r.InLine) :
    (records.flatMap AttributeRecord.bytes).length = 12 * records.length := by
  induction records with
  | nil => rfl
  | cons r records ih =>
    have hlength : r.bytes.length = 12 := hline r List.mem_cons_self
    rw [List.flatMap_cons, List.length_append, hlength, List.length_cons,
      ih fun r' hr' => hline r' (List.mem_cons_of_mem r hr')]
    omega

/-- The loader reads a record that is a line. -/
theorem minStackLine_of_inLine {data : ℕ → NvU8} {line : ℕ} {r : AttributeRecord}
    (hdata : HoldsAt data (12 * line) r.bytes) (hline : r.InLine) :
    minStackLine data line = r.minStack := by
  obtain ⟨hheader, hpayload⟩ := holdsAt_append.mp hdata
  have hlength := r.inLine_iff.mp hline
  rw [length_ofWord] at hpayload
  have hword : ∀ o, o + 4 ≤ r.payload.length → wordAt data (12 * line + 4 + o) = r.payloadWord o :=
    fun o ho => wordAt_of_holdsAt_block hpayload ho
  have hsymbol := hword 0 (by omega)
  have hvalue := hword 4 (by omega)
  rw [Nat.add_zero] at hsymbol
  rw [Nat.add_assoc] at hvalue
  have htype : wordAt data (12 * line) &&& 0xffff = r.type := by
    rw [wordAt_of_holdsAt hheader]
    rfl
  unfold minStackLine AttributeRecord.minStack
  rw [htype]
  by_cases hmin : r.type = eiattrMinStackSize
  · rw [if_pos hmin, if_pos ⟨hmin, hlength⟩, hsymbol, hvalue]
  · rw [if_neg hmin, if_neg fun h => hmin h.1]

theorem lineStack_of_inLine {data : ℕ → NvU8} {line : ℕ} {r : AttributeRecord}
    (hdata : HoldsAt data (12 * line) r.bytes) (hline : r.InLine) (names : NvU32 → Name) (f : Name) :
    lineStack data names f line =
      r.minStack.bind fun p => if names p.1 = f then some p.2 else none := by
  rw [lineStack, minStackLine_of_inLine hdata hline]

/-- The loop over the symbols finds the name of a symbol whose number is an `int`. -/
theorem infoTarget_eq_iff (symbols : List ElfSymbol) {func : NvU32} (h : func.toNat < 2 ^ 31)
    {f : Name} (hf : f ≠ []) :
    infoTarget symbols func = f ↔ (symbols[func.toNat]?).map ElfSymbol.name = some f := by
  have hint : func.msb = false := by
    rw [BitVec.msb_eq_decide]
    exact decide_eq_false (Nat.not_le.mpr h)
  rw [infoTarget, hint, if_neg Bool.false_ne_true]
  cases (symbols[func.toNat]?).map ElfSymbol.name with
  | none => exact ⟨fun hnil => absurd hnil.symm hf, fun hsome => by cases hsome⟩
  | some name => rw [Option.getD_some, Option.some.injEq]

/-- **Where every record is a line that does not overflow**, the loader finds the stack sizes of all
functions, up to the last line that it comes to. -/
theorem lineStacks_of_inLine {s : Section} {records : List AttributeRecord}
    (hbytes : s.bytes = records.flatMap AttributeRecord.bytes) (hfound : ∀ r ∈ records, r.Found)
    (symbols : List ElfSymbol) {f : Name} (hf : f ≠ []) :
    s.lineStacks symbols f = stacksOf symbols (records.take maxInfoLines) f := by
  have hline : ∀ r ∈ records, r.InLine := fun r hr => (hfound r hr).1
  obtain ⟨hdata, hsize⟩ := Section.holdsAt_of_bytes hbytes
  rw [length_flatMap_inLine hline] at hsize
  -- the contents are as many whole lines as there are records
  have hlines : infoLines s.size = (records.take maxInfoLines).length := by
    rw [infoLines, List.length_take, hsize, Nat.min_comm]
    congr 1
    omega
  rw [Section.lineStacks, Section.stacksIn, hlines, stacksOf]
  refine Eq.trans (List.filterMap_congr fun k hk => ?_) (filterMap_range_getElem? _ _)
  have hk' := List.mem_range.mp hk
  have hrecord : k < records.length := hk'.trans_le (List.length_take_le' _ _)
  have hholds := holdsAt_line hdata hline hrecord
  rw [Nat.zero_add] at hholds
  rw [lineStack_of_inLine hholds (hline _ (List.getElem_mem hrecord)),
    List.getElem?_eq_getElem hk', List.getElem_take, Option.bind_some]
  cases hmin : records[k].minStack with
  | none => rfl
  | some p =>
    have hsymbol : p.1.toNat < 2 ^ 31 := by
      by_contra hover
      exact (hfound _ (List.getElem_mem hrecord)).2 ⟨p, hmin, Or.inl (Nat.not_lt.mp hover)⟩
    simp only [Option.bind_some, infoTarget_eq_iff symbols hsymbol hf]

/-! ## Images that are read -/

theorem sectionKind_info_iff (name : Name) : sectionKind name = .info ↔ name = nvInfo := by
  constructor
  · intro h
    unfold sectionKind at h
    split_ifs at h with _ _ _ hname
    exact hname
  · rintro rfl
    rfl

/-- What the loader reads of an image is what it finds in its sections of records. -/
theorem readStacks_eq_flatMap (image : ElfImage) (f : Name) : image.readStacks f =
    (image.sections.filter fun s => s.name == nvInfo).flatMap fun s =>
      s.lineStacks (symbolsOf image.sections) f := by
  rw [ElfImage.readStacks]
  generalize symbolsOf image.sections = symbols
  induction image.sections with
  | nil => rfl
  | cons s rest ih =>
    rw [List.flatMap_cons, ih, List.filter_cons, Section.readStacks]
    by_cases hname : s.name = nvInfo
    · rw [if_pos ((sectionKind_info_iff _).mpr hname), if_pos (beq_iff_eq.mpr hname),
        List.flatMap_cons]
    · rw [if_neg (mt (sectionKind_info_iff _).mp hname), if_neg (mt beq_iff_eq.mp hname),
        List.nil_append]

/-- **Where every record is a line that does not overflow**, and no section has more lines than the
loader comes to, it reads the stack sizes that the records have. -/
theorem readStacks_of_found {image : ElfImage} {infos : List (List AttributeRecord)}
    (hinfo : image.HasInfo infos) (hfound : ∀ records ∈ infos, ∀ r ∈ records, r.Found)
    (hlines : ∀ records ∈ infos, records.length ≤ maxInfoLines) {f : Name} (hf : f ≠ []) :
    image.readStacks f = image.askedStacks infos f := by
  rw [readStacks_eq_flatMap, ElfImage.askedStacks]
  unfold ElfImage.HasInfo at hinfo
  generalize image.sections.filter (fun s => s.name == nvInfo) = sections at hinfo
  induction hinfo with
  | nil => rfl
  | @cons s records sections infos hs hrest ih =>
    rw [List.flatMap_cons, List.flatMap_cons,
      lineStacks_of_inLine hs.bytes (hfound records List.mem_cons_self) _ hf,
      List.take_of_length_le (hlines records List.mem_cons_self),
      ih (fun records' h => hfound records' (List.mem_cons_of_mem records h))
        fun records' h => hlines records' (List.mem_cons_of_mem records h)]

/-- Records that the loader can do with ask for what 32 bits hold. -/
theorem askedStacks_lt {image : ElfImage} {infos : List (List AttributeRecord)}
    (hfound : ∀ records ∈ infos, ∀ r ∈ records, r.Found) {f : Name} {size : NvU32}
    (h : size ∈ image.askedStacks infos f) : size.toNat + 0x240 < 2 ^ 32 := by
  obtain ⟨records, hrecords, hsize⟩ := List.mem_flatMap.mp h
  obtain ⟨r, hr, hsize⟩ := List.mem_filterMap.mp hsize
  obtain ⟨p, hp, hsize⟩ := Option.bind_eq_some_iff.mp hsize
  split_ifs at hsize
  cases hsize
  by_contra hover
  exact (hfound records hrecords r hr).2 ⟨p, hp, Or.inr (Nat.not_lt.mp hover)⟩

/-- **The loader finds what the records of an image ask for** where it can do with all of them and
comes to all lines. -/
theorem findsStacks_of_found {image : ElfImage} {infos : List (List AttributeRecord)}
    (hinfo : image.HasInfo infos) (hfound : ∀ records ∈ infos, ∀ r ∈ records, r.Found)
    (hlines : ∀ records ∈ infos, records.length ≤ maxInfoLines) : image.FindsStacks infos := by
  intro h h' m hload f hf
  obtain ⟨loaded⟩ := loaded_of_ok hload
  rw [localMemReq_of_loaded loaded hf,
    readStacks_of_found hinfo hfound hlines (name_ne_nil_of_loaded loaded hf)]
  exact toNat_requirement fun size hsize => askedStacks_lt hfound hsize

/-! ## Images that are misread -/

/-- The section of a function `f`. -/
def stackedText : Section := { name := ".text.f".toList, type := shtProgbits }

/-- An image of that function, of symbols, and of a section with records. -/
def stackedImage (symbols : List ElfSymbol) (records : List AttributeRecord) : ElfImage where
  sectionEntrySize := 64
  sections := [stackedText, { name := ".symtab".toList, type := shtSymtab, symbols := symbols },
    infoSection nvInfo (records.flatMap AttributeRecord.bytes)]

/-- A stack size in a line, for a symbol and of a size that do not overflow. -/
theorem found_of_minStack {r : AttributeRecord} {p : NvU32 × NvU32} (hline : r.InLine)
    (hp : r.minStack = some p) (hsymbol : p.1.toNat < 2 ^ 31) (hsize : p.2.toNat + 0x240 < 2 ^ 32) :
    r.Found := by
  refine ⟨hline, ?_⟩
  rintro ⟨p', hp', hover⟩
  obtain rfl := Option.some.inj (hp.symm.trans hp')
  omega

/-- The symbols of two functions. -/
def twoSymbols : List ElfSymbol := [⟨['g'], 0, 0⟩, ⟨['f'], 0, 0⟩]

/-- The stack size 0 of the second of them. -/
def secondStack : AttributeRecord := ⟨0x81204, ofWords [1, 0], by decide⟩

theorem found_secondStack : secondStack.Found :=
  found_of_minStack (p := (1, 0)) (by unfold AttributeRecord.InLine; decide) (by decide +kernel)
    (by decide) (by decide)

/-- The header of a stack size does not occur inside a record of one. -/
theorem byte_secondStack {d : ℕ} (h : d ≠ 0) : (secondStack.bytes[d]?).getD 0 ≠ 4 := by
  have hbytes : ∀ d < 12, d ≠ 0 → (secondStack.bytes[d]?).getD 0 ≠ 4 := by decide
  by_cases hd : d < 12
  · exact hbytes d hd h
  · have hlength : secondStack.bytes.length = 12 := found_secondStack.1
    rw [List.getElem?_eq_none (by omega)]
    decide

section Stacked

variable (symbols : List ElfSymbol) (records : List AttributeRecord)

theorem hasInfo_stackedImage (h : (records.flatMap AttributeRecord.bytes).length < 2 ^ 64) :
    (stackedImage symbols records).HasInfo [records] :=
  .cons ⟨rfl, bytes_infoSection h⟩ .nil

/-- The layout leaves the image as it is: there is nothing to upload. -/
theorem rebuildImage_stackedImage : rebuildImage (stackedImage symbols records).sections =
    .ok ([], (stackedImage symbols records).sections) := by
  have htext : placeSection [] stackedText = .ok ([], stackedText) := by
    have hpad : (numPaddingBytes stackedText.addrAlign ([] : List NvU8).length).toNat = 0 := by
      decide
    have huploaded : stackedText.isUploaded = true := by decide
    have hbytes : stackedText.bytes = [] := rfl
    simp only [placeSection, huploaded, hpad, hbytes, resize, pushBack, bind, Except.bind]
    rfl
  have hfixed : numBytesFixed (stackedImage symbols records).sections = 0 := by
    have htext : stackedText.isFixed = false := by decide
    have hinfo : ∀ block, (infoSection nvInfo block).isFixed = false := fun _ => rfl
    simp only [numBytesFixed, stackedImage, List.foldl_cons, htext, hinfo, List.foldl_nil]
    rfl
  rw [rebuildImage, hfixed]
  show placeSections [] _ = _
  simp only [stackedImage, placeSections, htext, bind, Except.bind]
  rfl

theorem forall_mem_stackedImage {p : Section → Prop} (htext : p stackedText)
    (hsymtab : p { name := ".symtab".toList, type := shtSymtab, symbols := symbols })
    (hinfo : p (infoSection nvInfo (records.flatMap AttributeRecord.bytes))) :
    ∀ s ∈ (stackedImage symbols records).sections, p s := by
  intro s hs
  simp only [stackedImage, List.mem_cons, List.not_mem_nil, or_false] at hs
  rcases hs with rfl | rfl | rfl
  · exact htext
  · exact hsymtab
  · exact hinfo

/-- **The image loads**, whatever the records, and the module has the function. -/
theorem load_stackedImage : ∃ (h' : Host) (m : LibreCUmodule),
    call (libreCuModuleLoadData (some (stackedImage symbols records))) loadHost = (.ok m, h') ∧
      ∃ f ∈ m.functions, f.name.toList = ['f'] := by
  have halloc : call (onVm (gpuAlloc (allocatedSize 0) false true)) loadHost =
      (.ok (uvmHeapStart, 1), (call (onVm (gpuAlloc (allocatedSize 0) false true)) loadHost).2) :=
    Prod.ext (by decide +kernel) rfl
  obtain ⟨tables, hscan⟩ : ∃ tables, scanSections (stackedImage symbols records) uvmHeapStart =
      .ok tables :=
    foldlM_scanSection_iff.mpr (forall_mem_stackedImage symbols records rfl rfl rfl)
  have hnone : (stackedImage symbols records).NoRelocations :=
    forall_mem_stackedImage symbols records (fun _ => rfl) (fun _ => rfl) fun _ => rfl
  have hnames : ((stackedImage symbols records).sections.map Section.name).Nodup := by
    show [".text.f".toList, ".symtab".toList, nvInfo].Nodup
    decide
  have hknows : tables.Knows uvmHeapStart stackedText ['f'] :=
    knows_of_scan hnames hscan List.mem_cons_self rfl
  have hpatch : applyRelocs uvmHeapStart [] tables.relocs = .ok [] := by
    rw [relocs_of_scan hnone hscan]
    rfl
  -- the steps of the loader one after another
  exact ⟨_, tables.module uvmHeapStart,
    (call_bind_ok (call_ofExcept_ok (rebuildImage_stackedImage symbols records) _) _).trans <|
    (call_bind_ok halloc _).trans <| (call_bind_ok (call_ofExcept_ok hscan _) _).trans <|
    (call_bind_ok rfl _).trans <| (call_bind_ok (call_ofExcept_ok hpatch _) _).trans rfl,
    tables.function ['f'], List.mem_map_of_mem hknows.name, String.toList_ofList⟩

/-- What the loader is to find in the section, for the function. -/
theorem requirement_of_findsStacks (h : (stackedImage symbols records).FindsStacks [records]) :
    (((infoSection nvInfo (records.flatMap AttributeRecord.bytes)).lineStacks symbols
        ['f']).foldl raiseReq 0).toNat =
      stackRequirement ((stacksOf symbols records ['f']).map BitVec.toNat) := by
  obtain ⟨h', m, hload, f, hf, hname⟩ := load_stackedImage symbols records
  obtain ⟨loaded⟩ := loaded_of_ok hload
  have hreq := h loadHost h' m hload f hf
  have hread : (stackedImage symbols records).readStacks ['f'] =
      (infoSection nvInfo (records.flatMap AttributeRecord.bytes)).lineStacks symbols ['f'] :=
    (readStacks_eq_flatMap _ _).trans (List.append_nil _)
  have hasked : (stackedImage symbols records).askedStacks [records] ['f'] =
      stacksOf symbols records ['f'] := List.append_nil _
  rwa [localMemReq_of_loaded loaded hf, hname, hread, hasked] at hreq

end Stacked

/-- Bytes behind the header of a record of zeros, and of what follows it. -/
theorem byte_zeroed (r : AttributeRecord) {n : ℕ} (h : 4 ≤ n) :
    (((r.zeroed.bytes ++ secondStack.bytes)[n]?).getD 0) =
      if n < r.bytes.length then 0 else (secondStack.bytes[n - r.bytes.length]?).getD 0 := by
  have hlength : r.zeroed.bytes.length = r.bytes.length := by
    rw [AttributeRecord.length_bytes, AttributeRecord.length_bytes]
    exact congrArg (4 + ·) List.length_replicate
  split_ifs with hlt
  · have hheader : (ofWord r.zeroed.header).length ≤ n := h
    have hpayload : n - 4 < r.payload.length := by
      rw [AttributeRecord.length_bytes] at hlt
      omega
    rw [List.getElem?_append_left (by omega), AttributeRecord.bytes,
      List.getElem?_append_right hheader]
    show ((List.replicate r.payload.length (0 : NvU8))[n - 4]?).getD 0 = 0
    rw [List.getElem?_replicate, if_pos hpayload]
    rfl
  · rw [List.getElem?_append_right (by omega), hlength]

/-- Where a record shifts the lines, none of them is one with the stack size behind it. -/
theorem lineStacks_shifted {r : AttributeRecord} (hshift : ¬ 12 ∣ r.bytes.length) :
    (infoSection nvInfo (r.zeroed.bytes ++ secondStack.bytes)).lineStacks twoSymbols ['f'] = [] := by
  obtain ⟨s, hs⟩ : ∃ s, s = infoSection nvInfo (r.zeroed.bytes ++ secondStack.bytes) := ⟨_, rfl⟩
  have hdata : ∀ n, s.data n = ((r.zeroed.bytes ++ secondStack.bytes)[n]?).getD 0 := by
    intro n
    rw [hs]
    rfl
  rw [← hs]
  refine List.filterMap_eq_nil_iff.mpr fun line _ => ?_
  unfold lineStack minStackLine
  split_ifs with htype
  swap
  · rfl
  -- the only line with the header of a stack size is the first one, which is not for this function
  have hlow : s.data (12 * line) = 4 := by
    rw [← setWidth_wordAt s.data, ← setWidth_attributeType]
    show ((wordAt s.data (12 * line) &&& 0xffff).setWidth 8 : NvU8) = 4
    rw [htype]
    rfl
  have hfirst : line = 0 := by
    by_contra hne
    rw [hdata, byte_zeroed r (by omega)] at hlow
    split_ifs at hlow with hlt
    · cases hlow
    · exact byte_secondStack (by omega) hlow
  subst hfirst
  have hsymbol : wordAt s.data (12 * 0 + 4) ≠ 1 := by
    intro heq
    have hbyte := setWidth_wordAt s.data (12 * 0 + 4)
    rw [heq, hdata, byte_zeroed r (by omega)] at hbyte
    split_ifs at hbyte with hlt
    · cases hbyte
    · have hlength := r.length_bytes
      rw [show 12 * 0 + 4 - r.bytes.length = 0 by omega] at hbyte
      exact absurd hbyte (by decide)
  have hother : infoTarget twoSymbols (wordAt s.data (12 * 0 + 4)) ≠ ['f'] := by
    have hnat : (wordAt s.data (12 * 0 + 4)).toNat ≠ 1 := fun h1 =>
      hsymbol (BitVec.eq_of_toNat_eq h1)
    unfold infoTarget
    split_ifs
    · exact (List.cons_ne_nil _ _).symm
    · match (wordAt s.data (12 * 0 + 4)).toNat, hnat with
      | 0, _ => decide
      | n + 2, _ => simp [twoSymbols]
  rw [Option.bind_some, if_neg hother]

/-- **A record that shifts the lines** hides the stack size behind it. -/
theorem not_findsStacks_shifted {r : AttributeRecord} (hline : ¬r.InLine)
    (hshift : ¬ 12 ∣ r.bytes.length) :
    let image := stackedImage twoSymbols [r.zeroed, secondStack]
    image.HasInfo [[r.zeroed, secondStack]] ∧ ¬ image.FindsStacks [[r.zeroed, secondStack]] := by
  have hzeroed : ¬r.zeroed.InLine := by
    rw [AttributeRecord.inLine_iff] at hline ⊢
    show ¬(List.replicate r.payload.length (0 : NvU8)).length = 8
    rwa [List.length_replicate]
  have hflat : [r.zeroed, secondStack].flatMap AttributeRecord.bytes =
      r.zeroed.bytes ++ secondStack.bytes := by
    rw [List.flatMap_cons, List.flatMap_singleton]
  have hsmall : ([r.zeroed, secondStack].flatMap AttributeRecord.bytes).length < 2 ^ 64 := by
    have hpayload := r.zeroed.length_payload_lt
    have hlast : secondStack.bytes.length = 12 := found_secondStack.1
    rw [hflat, List.length_append, AttributeRecord.length_bytes, hlast]
    omega
  refine ⟨hasInfo_stackedImage _ _ hsmall, fun hfinds => ?_⟩
  have hasked : stacksOf twoSymbols [r.zeroed, secondStack] ['f'] = [0] := by
    have hlast : stacksOf twoSymbols [secondStack] ['f'] = [0] := by decide +kernel
    rw [stacksOf, List.filterMap_cons, AttributeRecord.minStack_of_not_inLine hzeroed]
    exact hlast
  -- the stack size asks for the constant, and the loader finds nothing
  have hrequirement := requirement_of_findsStacks _ _ hfinds
  rw [hflat, lineStacks_shifted hshift, hasked] at hrequirement
  exact absurd hrequirement (by decide)

/-- A record with a stack size in its payload, where the loader takes a line from. -/
def AttributeRecord.planted (r : AttributeRecord) (h : 20 ≤ r.payload.length) : AttributeRecord where
  header := r.header
  payload := List.replicate 8 0 ++ (secondStack.bytes ++ List.replicate (r.payload.length - 20) 0)
  length_payload := by
    have hlast : secondStack.bytes.length = 12 := found_secondStack.1
    rw [← r.length_payload, List.length_append, List.length_append, List.length_replicate,
      List.length_replicate, hlast]
    omega

/-- **A record of several lines** is searched for stack sizes. -/
theorem not_findsStacks_planted {r : AttributeRecord} (hline : ¬r.InLine)
    (h : 20 ≤ r.payload.length) :
    let image := stackedImage twoSymbols [r.planted h]
    image.HasInfo [[r.planted h]] ∧ ¬ image.FindsStacks [[r.planted h]] := by
  have hplanted : ¬(r.planted h).InLine := by
    rw [AttributeRecord.inLine_iff] at hline ⊢
    rw [(r.planted h).length_payload]
    show ¬(if attributeFormat r.header = 4 then (attributeOther r.header).toNat else 0) = 8
    rwa [← r.length_payload]
  have hsmall : ([r.planted h].flatMap AttributeRecord.bytes).length < 2 ^ 64 := by
    have hpayload := (r.planted h).length_payload_lt
    rw [List.flatMap_singleton, AttributeRecord.length_bytes]
    omega
  refine ⟨hasInfo_stackedImage _ _ hsmall, fun hfinds => ?_⟩
  obtain ⟨s, hs⟩ : ∃ s, s = infoSection nvInfo ([r.planted h].flatMap AttributeRecord.bytes) :=
    ⟨_, rfl⟩
  have hrequirement := requirement_of_findsStacks _ _ hfinds
  rw [← hs] at hrequirement
  obtain ⟨hdata, hsize⟩ := Section.holdsAt_of_bytes (hs ▸ bytes_infoSection hsmall)
  rw [List.flatMap_singleton] at hdata hsize
  -- the second line starts at the ninth byte of the payload
  have hsecond : HoldsAt s.data (12 * 1) secondStack.bytes := by
    have hpayload := (holdsAt_append.mp hdata).2
    exact (holdsAt_append.mp (holdsAt_append.mp hpayload).2).1
  have hlines : 1 < infoLines s.size := by
    have hlength := (r.planted h).length_bytes
    have hpayload : (r.planted h).payload.length = r.payload.length := by
      rw [(r.planted h).length_payload, r.length_payload]
      rfl
    rw [infoLines, maxInfoLines]
    omega
  have hmem : (0 : NvU32) ∈ s.lineStacks twoSymbols ['f'] := by
    refine List.mem_filterMap.mpr ⟨1, List.mem_range.mpr hlines, ?_⟩
    rw [lineStack_of_inLine hsecond found_secondStack.1]
    decide +kernel
  have hasked : stacksOf twoSymbols [r.planted h] ['f'] = [] := by
    rw [stacksOf, List.filterMap_cons, AttributeRecord.minStack_of_not_inLine hplanted]
    rfl
  have hle : ((0 : NvU32) + 0x240).toNat ≤
      ((s.lineStacks twoSymbols ['f']).foldl raiseReq 0).toNat := le_foldl_raiseReq hmem
  rw [hrequirement, hasked] at hle
  exact absurd hle (by decide)

/-- The loader finds no name for a symbol whose number is no `int`. -/
theorem infoTarget_of_large (symbols : List ElfSymbol) {func : NvU32} (h : 2 ^ 31 ≤ func.toNat) :
    infoTarget symbols func = [] := by
  have hnone : func.msb = true := by
    rw [BitVec.msb_eq_decide]
    exact decide_eq_true h
  rw [infoTarget, hnone, if_pos rfl]

/-- The loader reads a record that is a line and alone. -/
theorem lineStacks_singleton {s : Section} {r : AttributeRecord} (hbytes : s.bytes = r.bytes)
    (hline : r.InLine) (symbols : List ElfSymbol) {f : Name} {p : NvU32 × NvU32}
    (hp : r.minStack = some p) :
    s.lineStacks symbols f = if infoTarget symbols p.1 = f then [p.2] else [] := by
  obtain ⟨hdata, hsize⟩ := Section.holdsAt_of_bytes hbytes
  have hlength : r.bytes.length = 12 := hline
  have hlines : infoLines s.size = 1 := by
    rw [infoLines, hsize, hlength]
    rfl
  have hread := @lineStack_of_inLine s.data 0 r hdata hline (infoTarget symbols) f
  rw [Section.lineStacks, Section.stacksIn, hlines, List.range_one, List.filterMap_cons, hread, hp,
    Option.bind_some]
  split_ifs
  · rfl
  · rfl

/-- **A symbol or a size that overflows** is cut off. -/
theorem not_findsStacks_overflow {r : AttributeRecord} (hline : r.InLine) (hover : r.Overflows) :
    ∃ image : ElfImage, image.HasInfo [[r]] ∧ ¬ image.FindsStacks [[r]] := by
  have hsmall : ([r].flatMap AttributeRecord.bytes).length < 2 ^ 64 := by
    have hpayload := r.length_payload_lt
    rw [List.flatMap_singleton, AttributeRecord.length_bytes]
    omega
  obtain ⟨p, hp, hover⟩ := hover
  refine ⟨stackedImage (List.replicate (p.1.toNat + 1) ⟨['f'], 0, 0⟩) [r],
    hasInfo_stackedImage _ _ hsmall, fun hfinds => ?_⟩
  have hasked : stacksOf (List.replicate (p.1.toNat + 1) ⟨['f'], 0, 0⟩) [r] ['f'] = [p.2] := by
    rw [stacksOf, List.filterMap_cons, hp, Option.bind_some, List.getElem?_replicate,
      if_pos (Nat.lt_succ_self _)]
    rfl
  have hbytes : (infoSection nvInfo ([r].flatMap AttributeRecord.bytes)).bytes = r.bytes :=
    (bytes_infoSection hsmall).trans (List.flatMap_singleton ..)
  have hrequirement := requirement_of_findsStacks _ _ hfinds
  have hvalue : stackRequirement ([p.2].map BitVec.toNat) = 0x240 + p.2.toNat := by
    show 0x240 + max 0 p.2.toNat = _
    rw [Nat.zero_max]
  rw [hasked, hvalue, lineStacks_singleton hbytes hline _ hp] at hrequirement
  rcases hover with hsymbol | hsize
  · -- the loader does not find the symbol
    rw [infoTarget_of_large _ hsymbol, if_neg (List.cons_ne_nil _ _).symm] at hrequirement
    have hnothing : ([].foldl raiseReq (0 : NvU32)).toNat = 0 := rfl
    omega
  · -- what the loader finds has 32 bits, and what is asked for has not
    have hlt := ((if infoTarget (List.replicate (p.1.toNat + 1) ⟨['f'], 0, 0⟩) p.1 = ['f'] then
      [p.2] else []).foldl raiseReq 0).isLt
    omega

/-- The stack size 0 of the first function. -/
def firstStack : AttributeRecord := ⟨0x81204, ofWords [0, 0], by decide⟩

/-- As many records of the first function as the loader comes to, and one of the second. -/
def manyStacks : List AttributeRecord := List.replicate maxInfoLines firstStack ++ [secondStack]

theorem found_manyStacks : ∀ r ∈ manyStacks, r.Found := by
  have hfirst : firstStack.Found :=
    found_of_minStack (p := (0, 0)) (by unfold AttributeRecord.InLine; decide) (by decide +kernel)
      (by decide) (by decide)
  intro r hr
  rcases List.mem_append.mp hr with hr | hr
  · rwa [List.eq_of_mem_replicate hr]
  · rw [List.mem_singleton.mp hr]
    exact found_secondStack

theorem length_manyStacks : manyStacks.length = maxInfoLines + 1 := by
  rw [manyStacks, List.length_append, List.length_replicate, List.length_singleton]

/-- **A record behind the last line that the loader comes to** is missed. -/
theorem not_findsStacks_behind :
    let image := stackedImage twoSymbols manyStacks
    image.HasInfo [manyStacks] ∧ ¬ image.FindsStacks [manyStacks] := by
  have hsmall : (manyStacks.flatMap AttributeRecord.bytes).length < 2 ^ 64 := by
    rw [length_flatMap_inLine fun r hr => (found_manyStacks r hr).1, length_manyStacks, maxInfoLines]
    decide
  refine ⟨hasInfo_stackedImage _ _ hsmall, fun hfinds => ?_⟩
  have hrequirement := requirement_of_findsStacks _ _ hfinds
  -- the loader comes to the records of the first function only
  have hfirst : stacksOf twoSymbols (List.replicate maxInfoLines firstStack) ['f'] = [] := by
    refine List.filterMap_eq_nil_iff.mpr fun r hr => ?_
    rw [List.eq_of_mem_replicate hr]
    decide +kernel
  have htake : manyStacks.take maxInfoLines = List.replicate maxInfoLines firstStack :=
    List.take_left' List.length_replicate
  have hasked : stacksOf twoSymbols manyStacks ['f'] = [0] := by
    have hlast : stacksOf twoSymbols [secondStack] ['f'] = [0] := by decide +kernel
    rw [manyStacks, stacksOf_append, hfirst, hlast, List.nil_append]
  rw [lineStacks_of_inLine (bytes_infoSection hsmall) found_manyStacks twoSymbols
    (List.cons_ne_nil _ _), htake, hfirst, hasked] at hrequirement
  exact absurd hrequirement (by decide)

/-! ## When stack sizes are found -/

theorem AttributeRecord.found_of_kind {r r' : AttributeRecord} (h : r'.SameStackKind r)
    (hfound : r.Found) : r'.Found := by
  obtain ⟨⟨-, hlength⟩, hover⟩ := h
  refine ⟨?_, fun hover' => hfound.2 (hover.mp hover')⟩
  rw [inLine_iff, hlength, ← inLine_iff]
  exact hfound.1

/-- **Stack sizes are found if and only if** every record is a line, nothing in it overflows, and no
section has more records than the loader comes to: the images whose sections are made up of records
of given kinds, and of records that the loader can do with, up to a number of them in each, all give
their functions what the records ask for, whatever the payloads and the symbols, exactly when it can
do with all of these kinds and with that number. -/
theorem stacks_found_iff (records : List AttributeRecord) (n : ℕ) :
    (∀ (image : ElfImage) (infos : List (List AttributeRecord)), image.HasInfo infos →
      (∀ records' ∈ infos, records'.length ≤ n + 2 ∧
        ∀ r' ∈ records', r'.Found ∨ ∃ r ∈ records, r'.SameStackKind r) →
      image.FindsStacks infos) ↔
      (∀ r ∈ records, r.Found) ∧ n + 2 ≤ maxInfoLines := by
  constructor
  · intro hfinds
    -- one section is enough to go wrong
    have hone : ∀ (image : ElfImage) (records' : List AttributeRecord), image.HasInfo [records'] →
        records'.length ≤ n + 2 →
        (∀ r' ∈ records', r'.Found ∨ ∃ r ∈ records, r'.SameStackKind r) →
        image.FindsStacks [records'] := by
      intro image records' hinfo hlength hkinds
      refine hfinds image [records'] hinfo fun records'' hmem => ?_
      rw [List.mem_singleton.mp hmem]
      exact ⟨hlength, hkinds⟩
    refine ⟨fun r hr => ?_, ?_⟩
    · by_cases hline : r.InLine
      · refine ⟨hline, fun hover => ?_⟩
        obtain ⟨image, hinfo, hnot⟩ := not_findsStacks_overflow hline hover
        refine hnot (hone image [r] hinfo (Nat.le_add_left 1 (n + 1)) fun r' hr' =>
          Or.inr ⟨r, hr, ?_⟩)
        rw [List.mem_singleton.mp hr']
        exact ⟨⟨rfl, rfl⟩, Iff.rfl⟩
      · exfalso
        -- a record of several whole lines keeps the others in place, and is itself taken for lines
        by_cases hshift : 12 ∣ r.bytes.length
        · have hlength : 20 ≤ r.payload.length := by
            rw [AttributeRecord.inLine_iff] at hline
            rw [r.length_bytes] at hshift
            omega
          obtain ⟨hinfo, hnot⟩ := not_findsStacks_planted hline hlength
          refine hnot (hone _ _ hinfo (Nat.le_add_left 1 (n + 1)) fun r' hr' =>
            Or.inr ⟨r, hr, ?_⟩)
          rw [List.mem_singleton.mp hr']
          refine AttributeRecord.sameStackKind_of_not_inLine hline ⟨rfl, ?_⟩
          rw [(r.planted hlength).length_payload, r.length_payload]
          rfl
        · obtain ⟨hinfo, hnot⟩ := not_findsStacks_shifted hline hshift
          refine hnot (hone _ _ hinfo (Nat.le_add_left 2 n) fun r' hr' => ?_)
          rcases List.mem_pair.mp hr' with rfl | rfl
          · exact Or.inr ⟨r, hr, AttributeRecord.sameStackKind_of_not_inLine hline
              ⟨rfl, List.length_replicate⟩⟩
          · exact Or.inl found_secondStack
    · by_contra hlong
      obtain ⟨hinfo, hnot⟩ := not_findsStacks_behind
      refine hnot (hone _ _ hinfo ?_ fun r' hr' => Or.inl (found_manyStacks r' hr'))
      rw [length_manyStacks]
      omega
  · rintro ⟨hfound, hlong⟩ image infos hinfo hkinds
    refine findsStacks_of_found hinfo (fun records' hrecords r' hr' => ?_)
      fun records' hrecords => (hkinds records' hrecords).1.trans hlong
    rcases (hkinds records' hrecords).2 r' hr' with hfound' | ⟨r, hr, hkind⟩
    · exact hfound'
    · exact AttributeRecord.found_of_kind hkind (hfound r hr)

/-- The records of an image with a note of one word in front of a stack size. -/
def noteAndStack : List AttributeRecord :=
  [⟨0x2a01, [], by decide⟩, ⟨0x81204, ofWords [1, 0x1000], by decide⟩]

/-- **A stack size behind a note is missed**: the function is given no local memory. -/
theorem stack_behind_note_missed : ∃ (image : ElfImage) (infos : List (List AttributeRecord)),
    image.HasInfo infos ∧ ¬ image.FindsStacks infos := by
  refine ⟨stackedImage twoSymbols noteAndStack, [noteAndStack],
    hasInfo_stackedImage _ _ (by decide), fun hfinds => ?_⟩
  have hrequirement := requirement_of_findsStacks _ _ hfinds
  exact absurd hrequirement (by decide +kernel)

end LibreCuda
