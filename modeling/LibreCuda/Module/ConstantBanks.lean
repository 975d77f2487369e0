import LibreCuda.Driver.Encoding
import LibreCuda.Module.SharedMemory

/-! # Constant banks

The loader takes the number of a constant bank from the name of its section, and a launch computes
the positions of the fields of the bank from it. The header has room for eight banks; the fields of
a ninth one are those of the program address and the register count.

* **`banksOf`** are the banks that the sections have for a function.
* **`perm_constants_of_scan`**: the constants the loader collects for a function are these.
* **`bankWrites_confined_iff`**: the writes for a bank stay in the fields of constant banks exactly
  when its number is below eight.
* **`constant_writes_confined_iff`**: the same of an image, in terms of the names of its sections.
* **`bank_sizes_cover_iff`**: when a launch makes all of a bank visible to the kernel. -/

namespace LibreCuda

open Bytes Exec QmdField

/-! ## The fields of constant banks -/

/-- The field `CONSTANT_BUFFER_PREFETCH_POST`, which no launch writes. -/
def QmdField.constantBufferPrefetchPost (i : NvU32) : QmdField := ⟨1073 + i * 64, 1073 + i * 64⟩

/-- The bit is one of a field of the header for one of the eight constant banks. -/
def ConstantBankBit (bit : ℕ) : Prop :=
  ∃ i < 8, ∃ g ∈ constantBufferInvalidate (BitVec.ofNat 32 i) ::
    constantBufferPrefetchPost (BitVec.ofNat 32 i) :: bankFields (BitVec.ofNat 32 i), g.Holds bit

instance (bit : ℕ) : Decidable (ConstantBankBit bit) :=
  inferInstanceAs (Decidable (∃ i < 8, ∃ g ∈ _, QmdField.Holds g bit))

/-- **The write stays in the fields of constant banks**: it indexes inside `qmd_data`, and changes
no bit of another field, whatever the descriptor holds. -/
def Confined (x : QmdField × NvU64) : Prop :=
  x.1.word < qmdWords ∧ ∀ (q : QmdData) (bit : ℕ), ¬ ConstantBankBit bit →
    (fldSetDrfNum x.1 x.2 q (bit / 32)).getLsbD (bit % 32) = (q (bit / 32)).getLsbD (bit % 32)

theorem word_lt_of_mem_bankFields {i : NvU32} (h : i < 8) : ∀ g ∈ bankFields i, g.word < qmdWords := by
  obtain ⟨k, hk, rfl⟩ := exists_lt_of_constNr h
  clear h
  revert k
  decide +kernel

/-- The fields of a bank below eight are confined. -/
theorem confined_of_mem_bankFields {i : NvU32} (h : i < 8) {x : QmdField × NvU64}
    (hx : x.1 ∈ bankFields i) : Confined x := by
  have hinWord := inWord_bankFields h _ hx
  refine ⟨word_lt_of_mem_bankFields h _ hx, fun q bit hbit => ?_⟩
  rw [hinWord.set_eq, Fields.Field.getLsbD_set hinWord.fits, if_neg]
  intro hcovers
  obtain ⟨k, hk, rfl⟩ := exists_lt_of_constNr h
  exact hbit ⟨k, hk, x.1, List.mem_cons_of_mem _ (List.mem_cons_of_mem _ hx),
    (hinWord.covers_iff bit).mp hcovers⟩

/-- The valid bit of any other bank within the descriptor is one of another field. -/
theorem valid_not_confined {i : NvU32} (hk : ∃ k < 32, i = BitVec.ofNat 32 k - 16) (h : ¬ i < 8) :
    ¬ ConstantBankBit (640 + i).toNat ∧
      (fldSetDrfNum (constantBufferValid i) 1 (fun _ => 0) ((640 + i).toNat / 32)).getLsbD
        ((640 + i).toNat % 32) = true := by
  obtain ⟨k, hk, rfl⟩ := hk
  revert h
  revert k
  decide +kernel

/-- **The writes for a constant bank are confined** exactly when its number is below eight. -/
theorem bankWrites_confined_iff (c : KernelConstantInfo) :
    (∀ x ∈ bankWrites c, Confined x) ↔ c.constNr < 8 := by
  constructor
  · intro hconfined
    have hin : c.inQmd = true := by
      rw [KernelConstantInfo.inQmd, List.all_eq_true]
      intro g hg
      have hfields : (bankWrites c).map Prod.fst = [constantBufferAddrUpper c.constNr,
        constantBufferAddrLower c.constNr, constantBufferSizeShifted4 c.constNr,
        constantBufferValid c.constNr] := rfl
      rw [← hfields] at hg
      obtain ⟨x, hx, rfl⟩ := List.mem_map.mp hg
      exact decide_eq_true (hconfined x hx).1
    by_contra hnot
    obtain ⟨hbit, hset⟩ := valid_not_confined (constNr_of_inQmd hin) hnot
    have hvalid := hconfined (constantBufferValid c.constNr, 1) (by simp [bankWrites])
    have hsame := hvalid.2 (fun _ => 0) _ hbit
    rw [hset] at hsame
    simp at hsame
  · intro h x hx
    exact confined_of_mem_bankFields h (List.mem_map_of_mem (f := Prod.fst) hx)

/-! ## The sections of constant banks -/

/-- The name of a section is that of bank `n` of a function, or, with the empty name, of all
functions. -/
def NamesBank (name f : Name) (n : ℤ) : Prop :=
  ∃ rest used, sectionKind name = .constant rest ∧ stoi rest = some (n, used) ∧
    rest.drop (used + 1) = f

/-- The name of a section is that of the code of a function. -/
def NamesText (name f : Name) : Prop := sectionKind name = .text f

/-- **The banks that belong to a function have numbers below eight**: those named after it and,
where there is one of these, those that are named after none. -/
def BanksInRange (names : List Name) (f : Name) : Prop :=
  (∃ name ∈ names, ∃ n, NamesBank name f n) →
    ∀ name ∈ names, ∀ n, NamesBank name f n ∨ NamesBank name [] n → 0 ≤ n ∧ n < 8

/-- The same of all functions of an image. -/
def ElfImage.BanksInRange (image : ElfImage) : Prop :=
  ∀ f, (∃ s ∈ image.sections, NamesText s.name f) →
    LibreCuda.BanksInRange (image.sections.map Section.name) f

/-- What `std::stoi` returns is an `int`. -/
theorem bounds_of_stoi {s : List Char} {n : ℤ} {used : ℕ} (h : stoi s = some (n, used)) :
    -2 ^ 31 ≤ n ∧ n < 2 ^ 31 := by
  unfold stoi at h
  simp only [Option.ite_none_left_eq_some, Option.some.injEq, Prod.mk.injEq, not_or, not_lt,
    not_le] at h
  obtain ⟨⟨-, hbounds⟩, rfl, -⟩ := h
  exact hbounds

theorem NamesBank.bounds {name f : Name} {n : ℤ} (h : NamesBank name f n) :
    -2 ^ 31 ≤ n ∧ n < 2 ^ 31 := by
  obtain ⟨rest, used, -, hnumber, -⟩ := h
  exact bounds_of_stoi hnumber

/-- The number as it is stored is below eight exactly when it is from zero to seven. -/
theorem ofInt_lt_iff {n : ℤ} (h : -2 ^ 31 ≤ n ∧ n < 2 ^ 31) :
    BitVec.ofInt 32 n < 8 ↔ 0 ≤ n ∧ n < 8 := by
  have height : (8 : NvU32).toNat = 8 := rfl
  rw [BitVec.lt_def, BitVec.toNat_ofInt, height]
  omega

/-- The bank that a section is entered as, and the function it is for. -/
def Section.bank (moduleGpuVa : NvU64) (s : Section) : Option (Name × KernelConstantInfo) :=
  match sectionKind s.name with
  | .constant rest => (stoi rest).map fun (constantNr, used) =>
      (rest.drop (used + 1), ⟨BitVec.ofInt 32 constantNr, moduleGpuVa + s.address, s.size⟩)
  | _ => none

/-- The banks that the sections have for a function, or, with the empty name, for all functions. -/
def banksOf (moduleGpuVa : NvU64) (sections : List Section) (f : Name) : List KernelConstantInfo :=
  ((sections.filterMap (Section.bank moduleGpuVa)).filter (·.1 == f)).map Prod.snd

theorem bank_eq_some_iff {s : Section} {moduleGpuVa : NvU64} {f : Name} {c : KernelConstantInfo} :
    s.bank moduleGpuVa = some (f, c) ↔
      ∃ n, NamesBank s.name f n ∧ c = ⟨BitVec.ofInt 32 n, moduleGpuVa + s.address, s.size⟩ := by
  unfold Section.bank
  constructor
  · intro h
    cases hkind : sectionKind s.name with
    | constant rest =>
      rw [hkind] at h
      obtain ⟨⟨n, used⟩, hnumber, heq⟩ := Option.map_eq_some_iff.mp h
      obtain ⟨rfl, rfl⟩ := Prod.mk.inj heq
      exact ⟨n, ⟨rest, used, hkind, hnumber, rfl⟩, rfl⟩
    | _ => simp [hkind] at h
  · rintro ⟨n, ⟨rest, used, hkind, hnumber, rfl⟩, rfl⟩
    rw [hkind]
    simp [hnumber]

theorem mem_banksOf {moduleGpuVa : NvU64} {sections : List Section} {f : Name}
    {c : KernelConstantInfo} : c ∈ banksOf moduleGpuVa sections f ↔
      ∃ s ∈ sections, ∃ n, NamesBank s.name f n ∧
        c = ⟨BitVec.ofInt 32 n, moduleGpuVa + s.address, s.size⟩ := by
  simp only [banksOf, List.mem_map, List.mem_filter, List.mem_filterMap, beq_iff_eq]
  constructor
  · rintro ⟨⟨g, c⟩, ⟨⟨s, hs, hbank⟩, rfl⟩, rfl⟩
    exact ⟨s, hs, bank_eq_some_iff.mp hbank⟩
  · rintro ⟨s, hs, hbank⟩
    exact ⟨(f, c), ⟨⟨s, hs, bank_eq_some_iff.mpr hbank⟩, rfl⟩, rfl⟩

/-- There are no banks for a function where no section is named so. -/
theorem banksOf_eq_nil_iff {moduleGpuVa : NvU64} {sections : List Section} {f : Name} :
    banksOf moduleGpuVa sections f = [] ↔
      ∀ name ∈ sections.map Section.name, ∀ n, ¬ NamesBank name f n := by
  rw [List.eq_nil_iff_forall_not_mem]
  constructor
  · intro hnone name hname n hbank
    obtain ⟨s, hs, rfl⟩ := List.mem_map.mp hname
    exact hnone _ (mem_banksOf.mpr ⟨s, hs, n, hbank, rfl⟩)
  · intro hnone c hc
    obtain ⟨s, hs, n, hbank, -⟩ := mem_banksOf.mp hc
    exact hnone s.name (List.mem_map_of_mem hs) n hbank

theorem banksOf_append (moduleGpuVa : NvU64) (seen : List Section) (s : Section) (f : Name) :
    banksOf moduleGpuVa (seen ++ [s]) f =
      banksOf moduleGpuVa seen f ++ banksOf moduleGpuVa [s] f := by
  simp only [banksOf, List.filterMap_append, List.filter_append, List.map_append]

/-- What a section adds to the constants of a function, wherever it is put. -/
theorem perm_constants_of_sectionAdded {image : ElfImage} {moduleGpuVa : NvU64}
    {t t' : FunctionTables} {s : Section} (h : SectionAdded image moduleGpuVa s t t') (f : Name) :
    (t'.constants f).Perm (t.constants f ++ banksOf moduleGpuVa [s] f) := by
  have hother : (∀ rest, sectionKind s.name ≠ .constant rest) →
      banksOf moduleGpuVa [s] f = [] := by
    intro hne
    refine List.eq_nil_iff_forall_not_mem.mpr fun c hc => ?_
    obtain ⟨s', hs', n, ⟨rest, used, hkind, -⟩, -⟩ := mem_banksOf.mp hc
    rw [List.mem_singleton.mp hs'] at hkind
    exact hne rest hkind
  cases h with
  | constant rest nr used kind number =>
    have hbank : banksOf moduleGpuVa [s] f = if rest.drop (used + 1) = f then
        [⟨BitVec.ofInt 32 nr, moduleGpuVa + s.address, s.size⟩] else [] := by
      simp only [banksOf, Section.bank, kind, number, Option.map_some, List.filterMap_cons,
        List.filterMap_nil, List.filter_cons, List.filter_nil, beq_iff_eq]
      split_ifs <;> rfl
    rw [hbank, FunctionTables.addConstant]
    simp only [Function.update_apply]
    by_cases hname : rest.drop (used + 1) = f
    · subst hname
      rw [if_pos rfl, if_pos rfl]
      split_ifs
      · exact (List.perm_append_singleton _ _).symm
      · exact List.Perm.refl _
    · rw [if_neg (Ne.symm hname), if_neg hname, List.append_nil]
  | shared g kind => rw [hother (by simp [kind]), List.append_nil]
  | text g kind =>
    rw [hother (by simp [kind]), List.append_nil]
    exact List.Perm.refl _
  | info kind => rw [hother (by simp [kind]), List.append_nil]
  | functionInfo g a kind => rw [hother (by simp [kind]), List.append_nil]
  | other kind => rw [hother (by simp [kind]), List.append_nil]

/-- **The constants the loader collects** for a name are the banks that the sections have for it. -/
theorem perm_constants_of_scan {image : ElfImage} {moduleGpuVa : NvU64} {tables : FunctionTables}
    (h : scanSections image moduleGpuVa = .ok tables) (f : Name) :
    (tables.constants f).Perm (banksOf moduleGpuVa image.sections f) := by
  refine scanSections_induction (fun seen t => (t.constants f).Perm (banksOf moduleGpuVa seen f))
    (List.Perm.refl []) (fun seen s t t' _ ht hs => ?_) h
  obtain ⟨relocs, -, hadd⟩ := scanSection_eq_ok hs
  rw [banksOf_append]
  exact (perm_constants_of_sectionAdded hadd f).trans (ht.append_right _)

section Scan

variable {image : ElfImage} {moduleGpuVa : NvU64} {tables : FunctionTables}

/-- **The constants of a function** are the sections named after it. -/
theorem mem_constants_of_scan (h : scanSections image moduleGpuVa = .ok tables) (f : Name)
    (c : KernelConstantInfo) : c ∈ tables.constants f ↔ ∃ s ∈ image.sections, ∃ n,
      NamesBank s.name f n ∧ c = ⟨BitVec.ofInt 32 n, moduleGpuVa + s.address, s.size⟩ :=
  (perm_constants_of_scan h f).mem_iff.trans mem_banksOf

/-- The loader collects no constants for a function where no section is named so. -/
theorem constants_eq_nil_iff_of_scan (h : scanSections image moduleGpuVa = .ok tables) (f : Name) :
    tables.constants f = [] ↔
      ∀ name ∈ image.sections.map Section.name, ∀ n, ¬ NamesBank name f n := by
  have hperm := perm_constants_of_scan h f
  rw [← banksOf_eq_nil_iff]
  constructor
  · intro hnil
    rw [hnil] at hperm
    exact List.nil_perm.mp hperm
  · intro hnil
    rw [hnil] at hperm
    exact List.perm_nil.mp hperm

/-- **The functions of a module** are those with code. -/
theorem mem_functionNames_of_scan (h : scanSections image moduleGpuVa = .ok tables) (f : Name) :
    f ∈ tables.functionNames ↔ ∃ s ∈ image.sections, NamesText s.name f := by
  refine scanSections_induction (fun seen t => f ∈ t.functionNames ↔ ∃ s ∈ seen, NamesText s.name f)
    (by simp) (fun seen s t t' _ ht hs => ?_) h
  obtain ⟨relocs, -, hadd⟩ := scanSection_eq_ok hs
  have hseen : (∃ s' ∈ seen ++ [s], NamesText s'.name f) ↔ f ∈ t.functionNames ∨ NamesText s.name f := by
    rw [ht]
    simp [or_and_right, exists_or]
  rw [hseen]
  have hother : (∀ g, sectionKind s.name ≠ .text g) →
      (f ∈ t.functionNames ↔ f ∈ t.functionNames ∨ NamesText s.name f) :=
    fun hne => ⟨Or.inl, fun hf => hf.resolve_right (hne f)⟩
  cases hadd with
  | text g hkind =>
    have htext : NamesText s.name f ↔ f = g := by
      rw [NamesText, hkind, SectionKind.text.injEq, eq_comm]
    rw [htext]
    simp only [FunctionTables.addText]
    split_ifs with hmem
    · exact ⟨Or.inl, fun hf => hf.elim id fun heq => heq ▸ hmem⟩
    · rw [List.mem_append, List.mem_singleton]
  | constant rest nr used hkind => exact hother fun g h => by cases hkind.symm.trans h
  | shared g hkind => exact hother fun g h => by cases hkind.symm.trans h
  | info hkind => exact hother fun g h => by cases hkind.symm.trans h
  | functionInfo g a hkind => exact hother fun g h => by cases hkind.symm.trans h
  | other hkind => exact hother fun g h => by cases hkind.symm.trans h

/-- **The numbers of the constant banks of a function** are below eight exactly when the names of
the sections say so. -/
theorem constNr_lt_iff_of_scan (h : scanSections image moduleGpuVa = .ok tables) (f : Name) :
    (∀ c ∈ tables.allConstants f, c.constNr < 8) ↔
      LibreCuda.BanksInRange (image.sections.map Section.name) f := by
  have hnone : tables.constants f = [] ↔ ¬ ∃ name ∈ image.sections.map Section.name,
      ∃ n, NamesBank name f n := by
    rw [constants_eq_nil_iff_of_scan h]
    push Not
    rfl
  rw [FunctionTables.allConstants, LibreCuda.BanksInRange]
  by_cases hempty : tables.constants f = []
  · rw [if_pos hempty]
    exact ⟨fun _ hsome => absurd hsome (hnone.mp hempty), fun _ c hc => absurd hc List.not_mem_nil⟩
  rw [if_neg hempty]
  have hsome := not_not.mp (mt hnone.mpr hempty)
  constructor
  · intro hlt _ name hname n hbank
    obtain ⟨s, hs, rfl⟩ := List.mem_map.mp hname
    rcases hbank with hbank | hbank
    · exact (ofInt_lt_iff hbank.bounds).mp (hlt _ (List.mem_append_left _
        ((mem_constants_of_scan h f _).mpr ⟨s, hs, n, hbank, rfl⟩)))
    · exact (ofInt_lt_iff hbank.bounds).mp (hlt _ (List.mem_append_right _
        ((mem_constants_of_scan h [] _).mpr ⟨s, hs, n, hbank, rfl⟩)))
  · intro hrange c hc
    rcases List.mem_append.mp hc with hc | hc
    · obtain ⟨s, hs, n, hbank, rfl⟩ := (mem_constants_of_scan h f c).mp hc
      exact (ofInt_lt_iff hbank.bounds).mpr
        (hrange hsome _ (List.mem_map_of_mem hs) n (Or.inl hbank))
    · obtain ⟨s, hs, n, hbank, rfl⟩ := (mem_constants_of_scan h [] c).mp hc
      exact (ofInt_lt_iff hbank.bounds).mpr
        (hrange hsome _ (List.mem_map_of_mem hs) n (Or.inr hbank))

end Scan

/-! ## Modules -/

/-- **The constants of a function are confined**: so is all that a launch of it writes to its
descriptor for them. This is the footprint of the function, and of the launches that get to the
descriptor; one that is refused before writes none of it. -/
def LibreCUFunction.ConfinesConstants (f : LibreCUFunction) : Prop :=
  ∀ x ∈ f.constants.flatMap bankWrites, Confined x

theorem confinesConstants_iff (f : LibreCUFunction) :
    f.ConfinesConstants ↔ ∀ c ∈ f.constants, c.constNr < 8 := by
  constructor
  · intro hconfines c hc
    exact (bankWrites_confined_iff c).mp fun x hx =>
      hconfines x (List.mem_flatMap.mpr ⟨c, hc, hx⟩)
  · intro hlt x hx
    obtain ⟨c, hc, hx⟩ := List.mem_flatMap.mp hx
    exact (bankWrites_confined_iff c).mpr (hlt c hc) x hx

/-- The layout keeps the names of the sections, and so the numbers of the banks. -/
theorem banksInRange_of_sameBut {image : ElfImage} {sections : List Section}
    (h : List.Forall₂ Section.SameBut image.sections sections) :
    ElfImage.BanksInRange { image with sections := sections } ↔ image.BanksInRange := by
  have hnames := names_of_sameBut h
  have htext : ∀ f, (∃ s ∈ sections, NamesText s.name f) ↔
      ∃ s ∈ image.sections, NamesText s.name f := by
    intro f
    have hmap : ∀ l : List Section, (∃ s ∈ l, NamesText s.name f) ↔
        ∃ name ∈ l.map Section.name, NamesText name f := by simp
    rw [hmap, hmap, hnames]
  unfold ElfImage.BanksInRange
  simp only [htext, hnames]

/-- **Constant banks stay in their fields, if and only if** the sections number them from zero to
seven: the writes that the launches of the functions of a module make for their constants. -/
theorem constant_writes_confined_iff {image : ElfImage} {m : LibreCUmodule} {h h' : Host}
    (hload : call (libreCuModuleLoadData (some image)) h = (.ok m, h')) :
    (∀ f ∈ m.functions, f.ConfinesConstants) ↔ image.BanksInRange := by
  obtain ⟨loaded⟩ := loaded_of_ok hload
  rw [← banksInRange_of_sameBut (sameBut_of_rebuildImage loaded.rebuild), loaded.functions,
    List.forall_mem_map]
  refine forall_congr' fun f => ?_
  rw [mem_functionNames_of_scan loaded.scan, confinesConstants_iff]
  exact imp_congr_right fun _ => constNr_lt_iff_of_scan loaded.scan f

/-- An image with one kernel, its empty bank 0 and another section. -/
def bankImage (name : Name) : ElfImage where
  sectionEntrySize := 64
  sections := [{ name := ".text.k".toList, type := shtProgbits, info := 16 <<< 24 },
    { name := ".nv.constant0.k".toList, type := shtProgbits },
    { name := name, type := shtProgbits }]

/-- The record of that kernel where the section is a bank with the number, loaded to the start of
the heap. -/
def bankKernel (constNr : NvU32) : LibreCUFunction where
  name := "k"
  funcVaAddr := uvmHeapStart
  sharedMem := 0
  numRegisters := 16
  localMemReq := 0
  functionSize := 0
  constants := [⟨0, uvmHeapStart, 0⟩, ⟨constNr, uvmHeapStart, 0⟩]
  paramInfo := []

/-- Load the image. -/
def loadBank (name : Name) (constNr : NvU32) : Except Failure LibreCUmodule × Host :=
  call (libreCuModuleLoadData (some (bankImage name)))
    { loadHost with functions := fun _ => bankKernel constNr }

/-- Launch the kernel. -/
def launchBank (name : Name) (constNr : NvU32) : Except Failure Unit × Host :=
  call (launchFunction (some 0) ⟨1, 1, 1⟩ ⟨1, 1, 1⟩ 0 (fun _ _ => 0) 0 true) (loadBank name constNr).2

/-- A bank 3 stays in its fields. -/
theorem constant_writes_confined_iff_sample :
    (∀ f ∈ [bankKernel 3], f.ConfinesConstants) ↔
      (bankImage ".nv.constant3.k".toList).BanksInRange := by
  have hload : loadBank ".nv.constant3.k".toList 3 =
      (.ok ⟨[bankKernel 3], uvmHeapStart⟩, (loadBank ".nv.constant3.k".toList 3).2) :=
    Prod.ext (by decide +kernel) rfl
  exact @constant_writes_confined_iff (bankImage ".nv.constant3.k".toList)
    ⟨[bankKernel 3], uvmHeapStart⟩ _ _ hload

/-- **A bank 8 corrupts the descriptor**: its valid bit is the lowest bit of the register count, so
that a kernel with 16 registers is launched with 17. -/
theorem ninth_bank_corrupts :
    (loadBank ".nv.constant8.k".toList 8).1 = .ok ⟨[bankKernel 8], uvmHeapStart⟩ ∧
      (loadBank ".nv.constant8.k".toList 8).2.functions 0 = bankKernel 8 ∧
      (launchBank ".nv.constant8.k".toList 8).1 = .ok () ∧
      (bankKernel 8).numRegisters = 16 ∧
      registerCountV.val (launchBank ".nv.constant8.k".toList 8).2.lastQmd = 17 ∧
      ¬ (bankKernel 8).ConfinesConstants := by
  refine ⟨by decide +kernel, by decide +kernel, by decide +kernel, rfl, by decide +kernel, ?_⟩
  rw [confinesConstants_iff]
  decide

/-! ## Sizes of banks -/

/-- The field of the size counts units of 16 bytes, but gets the number of bytes, cut to 13 bits.
This says when that is not less than the size. -/
def SizeCovered (size : ℕ) : Prop := 8192 * (size / 8192) ≤ 15 * (size % 8192)

instance (size : ℕ) : Decidable (SizeCovered size) := inferInstanceAs (Decidable (_ ≤ _))

/-- **A constant bank is visible to the kernel, if and only if** its size is covered: in the
descriptor of a launch that succeeded, for the last entry of every bank. -/
theorem bank_sizes_cover_iff {h h' : Host} {function : ℕ} {grid block : Dim3}
    {sharedMemBytes : NvU32} {params : ℕ → ℕ → NvU8} {numParams : NvU64} {async : Bool}
    (hbanks : ∀ c ∈ (h.functions function).constants, c.constNr < 8)
    (hlaunch : call (launchFunction (some function) grid block sharedMemBytes params numParams
      async) h = (.ok (), h')) :
    (∀ i < 8, ∀ c, (h.functions function).lastBank i = some c →
        c.size.toNat ≤ 16 * ((constantBufferSizeShifted4 i).val h'.lastQmd).toNat) ↔
      ∀ i < 8, ∀ c, (h.functions function).lastBank i = some c → SizeCovered c.size.toNat := by
  have hqmd := wp_launchFunction_qmd function grid block sharedMemBytes params numParams async h
  rw [wp_of_call hlaunch] at hqmd
  obtain ⟨-, slm, ptr, hwords⟩ := hqmd
  have hfield : ∀ i < 8, ∀ c, (h.functions function).lastBank i = some c →
      ((constantBufferSizeShifted4 i).val h'.lastQmd).toNat = c.size.toNat % 8192 := by
    intro i hi c hc
    have hmem : constantBufferSizeShifted4 i ∈ bankFields i := by simp [bankFields]
    rw [(inWord_bankFields hi _ hmem).val_congr (hwords _ (word_lt_of_mem_bankFields hi _ hmem))]
    exact val_bankSize hbanks hi hc
  refine forall₂_congr fun i hi => forall₂_congr fun c hc => ?_
  rw [hfield i hi c hc, SizeCovered]
  omega

/-- A kernel with an empty bank 0 and a bank 3 of the given size. -/
def sizedFunction (size : NvU64) : LibreCUFunction :=
  { bankKernel 3 with constants := [⟨0, uvmHeapStart, 0⟩, ⟨3, uvmHeapStart, size⟩] }

/-- Launch it. -/
def launchSized (size : NvU64) : Except Failure Unit × Host :=
  call (launchFunction (some 0) ⟨1, 1, 1⟩ ⟨1, 1, 1⟩ 0 (fun _ _ => 0) 0 true)
    { loadHost with functions := fun _ => sizedFunction size }

/-- A bank of 352 bytes is visible. -/
theorem bank_sizes_cover_iff_sample :
    (∀ i < 8, ∀ c, (sizedFunction 352).lastBank i = some c →
        c.size.toNat ≤ 16 * ((constantBufferSizeShifted4 i).val (launchSized 352).2.lastQmd).toNat) ↔
      ∀ i < 8, ∀ c, (sizedFunction 352).lastBank i = some c → SizeCovered c.size.toNat := by
  have hlaunch : launchSized 352 = (.ok (), (launchSized 352).2) := Prod.ext (by decide +kernel) rfl
  exact @bank_sizes_cover_iff { loadHost with functions := fun _ => sizedFunction 352 } _ 0
    ⟨1, 1, 1⟩ ⟨1, 1, 1⟩ 0 (fun _ _ => 0) 0 true (by decide +kernel) hlaunch

/-- **The largest bank is not visible at all**: a bank of 65536 bytes is launched with none. -/
theorem largest_bank_not_visible :
    (launchSized 65536).1 = .ok () ∧
      (sizedFunction 65536).lastBank 3 = some ⟨3, uvmHeapStart, 65536⟩ ∧
      (constantBufferSizeShifted4 3).val (launchSized 65536).2.lastQmd = 0 ∧
      ¬ ∀ i < 8, ∀ c, (sizedFunction 65536).lastBank i = some c → c.size.toNat ≤
        16 * ((constantBufferSizeShifted4 i).val (launchSized 65536).2.lastQmd).toNat := by
  have hlast : (sizedFunction 65536).lastBank 3 = some ⟨3, uvmHeapStart, 65536⟩ := by
    decide +kernel
  have hfield : (constantBufferSizeShifted4 3).val (launchSized 65536).2.lastQmd = 0 := by
    decide +kernel
  refine ⟨by decide +kernel, hlast, hfield, fun hcover => ?_⟩
  have hle := hcover 3 (by decide) _ hlast
  rw [hfield] at hle
  exact absurd hle (by decide)

end LibreCuda
