import LibreCuda.Module.ConstantBanks

/-! # The constants of a function

The loader collects the constant banks of every function in the order of the sections, with bank 0
in front, and puts the banks of all functions behind them.

* **`zeroFirst_of_scan`**: the loader puts bank 0 in front.
* **`constants_right_iff`**: when a function gets its constants, and a launch a bank 0. -/

namespace LibreCuda

open Exec

/-! ## The names of banks -/

/-- A decimal numeral without leading zeros. -/
structure Numeral (digits : List Char) : Prop where
  ne : digits ≠ []
  isDigit : ∀ c ∈ digits, c.isDigit = true
  zero : digits.head? = some '0' → digits = ['0']

/-- What stands behind the number of a bank: the name of a function, or nothing. -/
def bankSuffix (f : Name) : Name := if f = [] then [] else '.' :: f

/-- What stands behind a number starts with no digit, and is the dot and the name of the function.
-/
theorem bankSuffix_spec (f : Name) :
    (∀ c, (bankSuffix f).head? = some c → c.isDigit = false) ∧ (bankSuffix f).drop 1 = f := by
  unfold bankSuffix
  split_ifs with hnil
  · exact ⟨fun c hc => by simp at hc, hnil.symm⟩
  · refine ⟨fun c hc => ?_, rfl⟩
    cases hc
    rfl

/-- A section that is entered as a bank is called `.nv.constant<N>` or `.nv.constant<N>.<f>`. -/
def WellNamedBank (name : Name) : Prop :=
  ∀ rest, sectionKind name = .constant rest →
    ∃ digits f, Numeral digits ∧ rest = digits ++ bankSuffix f

theorem name_of_constant {name rest : Name} (h : sectionKind name = .constant rest) :
    name = nvConstant ++ rest := by
  unfold sectionKind at h
  split_ifs at h with _ _ hstart
  cases h
  exact (append_drop_of_startsWith hstart).symm

theorem sectionKind_constant {rest : Name} (h : rest ≠ []) :
    sectionKind (nvConstant ++ rest) = .constant rest := by
  have hshared : startsWith nvShared (nvConstant ++ rest) = false :=
    startsWith_append_of_ne rest 4 (by decide) (by decide) (by decide)
  have htext : startsWith text (nvConstant ++ rest) = false :=
    startsWith_append_of_ne rest 1 (by decide) (by decide) (by decide)
  rw [sectionKind, hshared, htext, if_neg (by decide), if_neg (by decide),
    if_pos (startsWith_append nvConstant h), List.drop_left]

/-- `stoi` reads a numeral up to what is no digit. -/
theorem stoi_numeral {digits tail : List Char} (h : Numeral digits)
    (htail : ∀ c, tail.head? = some c → c.isDigit = false) :
    stoi (digits ++ tail) =
      if (2 : ℤ) ^ 31 ≤ digitsValue digits then none
      else some ((digitsValue digits : ℤ), digits.length) := by
  obtain ⟨c, rest, rfl⟩ := List.exists_cons_of_ne_nil h.ne
  have hdigit : c.isDigit = true := h.isDigit c List.mem_cons_self
  have hspace : isSpace c = false := by
    by_contra hspace
    simp only [isSpace, Bool.not_eq_false, Bool.or_eq_true, decide_eq_true_eq, or_assoc] at hspace
    rcases hspace with rfl | rfl | rfl | rfl | rfl | rfl <;> exact absurd hdigit (by decide)
  have hminus : c ≠ '-' := by
    rintro rfl
    exact absurd hdigit (by decide)
  have hplus : c ≠ '+' := by
    rintro rfl
    exact absurd hdigit (by decide)
  have htake : (c :: rest ++ tail).takeWhile Char.isDigit = c :: rest := by
    rw [List.takeWhile_append_of_pos h.isDigit]
    cases tail with
    | nil => simp
    | cons d tail => rw [List.takeWhile_cons_of_neg (by simp [htail d rfl]), List.append_nil]
  have hblank : (c :: rest ++ tail).takeWhile isSpace = [] := by
    rw [List.cons_append, List.takeWhile_cons_of_neg (by simp [hspace])]
  have hhead : ¬(c :: rest ++ tail).head? = some '-' := by simp [hminus]
  have hhead' : ¬(c :: rest ++ tail).head? = some '+' := by simp [hplus]
  have hlow : ¬((digitsValue (c :: rest) : ℤ) < -2 ^ 31) := by omega
  unfold stoi
  simp only [hblank, List.length_nil, List.drop_zero, hhead, hhead', or_self, if_false, htake,
    Nat.zero_add, List.cons_ne_nil, hlow, false_or]

/-- A numeral other than zero has a value. -/
theorem eq_zero_of_digitsValue {digits : List Char} (h : Numeral digits)
    (hvalue : digitsValue digits = 0) : digits = ['0'] := by
  obtain ⟨c, rest, rfl⟩ := List.exists_cons_of_ne_nil h.ne
  -- a further digit makes no value smaller, so that the first digit is zero
  have hgrows : ∀ (l : List Char) (n : ℕ),
      n ≤ l.foldl (fun n c => 10 * n + (c.toNat - '0'.toNat)) n := by
    intro l
    induction l with
    | nil => exact fun n => Nat.le_refl n
    | cons d l ih => exact fun n => Nat.le_trans (by simp only; omega) (ih _)
  have hfirst := hgrows rest (10 * 0 + (c.toNat - '0'.toNat))
  have hsum : digitsValue (c :: rest) =
      rest.foldl (fun n c => 10 * n + (c.toNat - '0'.toNat)) (10 * 0 + (c.toNat - '0'.toNat)) := rfl
  rw [← hsum, hvalue] at hfirst
  have hdigit : c.isDigit = true := h.isDigit c List.mem_cons_self
  have hc : c = '0' := by
    have hle : 48 ≤ c.toNat := by
      simp only [Char.isDigit, Bool.and_eq_true, decide_eq_true_eq] at hdigit
      exact hdigit.1
    have hzero : ('0' : Char).toNat = 48 := rfl
    rw [hzero] at hfirst
    exact Char.toNat_inj.mp (by omega)
  have hone := h.zero (by rw [hc, List.head?_cons])
  rwa [hc] at hone ⊢

/-- **A well-named bank 0 of a function** has one name only. -/
theorem name_of_bank_zero {name f : Name} (hwell : WellNamedBank name) (h : NamesBank name f 0) :
    name = nvConstant ++ ('0' :: bankSuffix f) := by
  obtain ⟨rest, used, hkind, hnumber, hdrop⟩ := h
  obtain ⟨digits, g, hnumeral, rfl⟩ := hwell rest hkind
  rw [stoi_numeral hnumeral (bankSuffix_spec g).1] at hnumber
  split_ifs at hnumber
  obtain ⟨hvalue, rfl⟩ := Prod.mk.inj (Option.some.inj hnumber)
  -- zero is written in one way, and what is behind it is the name
  obtain rfl := eq_zero_of_digitsValue hnumeral (by omega)
  have hg : g = f := by
    rw [← (bankSuffix_spec g).2, ← hdrop]
    rfl
  rw [name_of_constant hkind, hg]
  rfl

/-! ## The banks of a function -/

/-- Bank 0 is in front, if there is one. -/
def ZeroFirst (constants : List KernelConstantInfo) : Prop :=
  (∃ c ∈ constants, c.constNr = 0) → ∃ c, constants.head? = some c ∧ c.constNr = 0

/-- **The loader puts bank 0 in front**, wherever its section stands. -/
theorem zeroFirst_of_scan {image : ElfImage} {moduleGpuVa : NvU64} {tables : FunctionTables}
    (h : scanSections image moduleGpuVa = .ok tables) (f : Name) : ZeroFirst (tables.constants f) := by
  refine scanSections_induction (fun _ t => ZeroFirst (t.constants f)) ?_
    (fun seen s t t' _ ht hs => ?_) h
  · rintro ⟨c, hc, -⟩
    exact absurd hc List.not_mem_nil
  obtain ⟨relocs, -, hadd⟩ := scanSection_eq_ok hs
  cases hadd with
  | constant rest nr used kind number =>
    simp only [FunctionTables.addConstant, Function.update_apply]
    by_cases hname : f = rest.drop (used + 1)
    · rw [if_pos hname, ← hname]
      split_ifs with hzero
      · exact fun _ => ⟨_, rfl, hzero⟩
      · -- another bank goes to the end, and a bank 0 that was in front stays there
        rintro ⟨c, hc, hnr⟩
        rcases List.mem_append.mp hc with hc | hc
        · obtain ⟨first, hfirst, hnr⟩ := ht ⟨c, hc, hnr⟩
          refine ⟨first, ?_, hnr⟩
          rw [List.head?_append, hfirst, Option.some_or]
        · rw [List.mem_singleton.mp hc] at hnr
          exact absurd hnr hzero
    · rwa [if_neg hname]
  | _ => exact ht

/-- The number of a bank is stored as zero only if it is zero. -/
theorem NamesBank.eq_zero {name f : Name} {n : ℤ} (h : NamesBank name f n)
    (hzero : BitVec.ofInt 32 n = 0) : n = 0 := by
  -- a number is an `int`, and only zero is a multiple of 2 ^ 32
  have hbounds := h.bounds
  have htoNat := congrArg BitVec.toNat hzero
  simp only [BitVec.toNat_ofInt, BitVec.reduceToNat] at htoNat
  omega

/-- **A function has one bank 0** where the sections are well named, each by a name of its own. -/
theorem eq_of_bank_zero {moduleGpuVa : NvU64} {sections : List Section} {f : Name}
    (hnames : (sections.map Section.name).Nodup) (hwell : ∀ s ∈ sections, WellNamedBank s.name)
    {c c' : KernelConstantInfo} (hc : c ∈ banksOf moduleGpuVa sections f)
    (hc' : c' ∈ banksOf moduleGpuVa sections f) (hzero : c.constNr = 0) (hzero' : c'.constNr = 0) :
    c = c' := by
  obtain ⟨s, hs, n, hbank, rfl⟩ := mem_banksOf.mp hc
  obtain ⟨s', hs', n', hbank', rfl⟩ := mem_banksOf.mp hc'
  obtain rfl := hbank.eq_zero hzero
  obtain rfl := hbank'.eq_zero hzero'
  have hname : s.name = s'.name := by
    rw [name_of_bank_zero (hwell s hs) hbank, name_of_bank_zero (hwell s' hs') hbank']
  rw [List.inj_on_of_nodup_map hnames hs hs' hname]

/-! ## The check of a launch -/

/-- The check of a launch that const0 exists. -/
def LibreCUFunction.const0Exists (f : LibreCUFunction) : Bool := !f.constants.isEmpty

/-! ## Modules -/

/-- **A function has its constants**: the banks that the sections have for it and for all functions,
its own bank 0 in front; and the check of a launch finds a bank 0 in front. -/
structure ConstantsRight (moduleGpuVa : NvU64) (sections : List Section) (g : LibreCUFunction) :
    Prop where
  banks : g.constants.Perm (banksOf moduleGpuVa sections g.name.toList ++
    banksOf moduleGpuVa sections [])
  first : ∀ c ∈ banksOf moduleGpuVa sections g.name.toList, c.constNr = 0 →
    g.constants.head? = some c
  check : g.const0Exists = true → ∃ c, g.constants.head? = some c ∧ c.constNr = 0

/-- The function has a bank 0 of its own, or there are no banks for it at all. -/
def HasBankZero (names : List Name) (f : Name) : Prop :=
  (∃ name ∈ names, NamesBank name f 0) ∨
    ∀ name ∈ names, ∀ n, ¬ NamesBank name f n ∧ ¬ NamesBank name [] n

section Scan

variable {image : ElfImage} {moduleGpuVa : NvU64} {tables : FunctionTables} {f : Name}

@[simp] theorem FunctionTables.toList_function_name (t : FunctionTables) (f : Name) :
    (t.function f).name.toList = f := String.toList_ofList

/-- Where a function has banks of its own, those of all functions are behind them. -/
theorem constants_of_ne_nil (h : tables.constants f ≠ []) :
    (tables.function f).constants = tables.constants f ++ tables.constants [] := by
  show tables.allConstants f = _
  rw [FunctionTables.allConstants, if_neg h]

theorem constants_of_eq_nil (h : tables.constants f = []) : (tables.function f).constants = [] := by
  show tables.allConstants f = _
  rw [FunctionTables.allConstants, if_pos h]

/-- The first bank of a function passes for bank 0, so that it has to be that. -/
theorem exists_bankZero_of_right (h : scanSections image moduleGpuVa = .ok tables)
    (hright : ConstantsRight moduleGpuVa image.sections (tables.function f))
    (hne : tables.constants f ≠ []) : ∃ name ∈ image.sections.map Section.name, NamesBank name f 0 := by
  obtain ⟨c, rest, hcons⟩ := List.exists_cons_of_ne_nil hne
  have hall := constants_of_ne_nil hne
  rw [hcons, List.cons_append] at hall
  obtain ⟨first, hfirst, hnr⟩ := hright.check (by rw [LibreCUFunction.const0Exists, hall]; rfl)
  rw [hall, List.head?_cons, Option.some.injEq] at hfirst
  have hc : c ∈ tables.constants f := hcons ▸ List.mem_cons_self
  obtain ⟨s, hs, n, hbank, rfl⟩ := (mem_constants_of_scan h f c).mp hc
  rw [← hfirst] at hnr
  obtain rfl := hbank.eq_zero hnr
  exact ⟨s.name, List.mem_map_of_mem hs, hbank⟩

/-- A function without banks of its own has no constants, so that there are none for all functions
either. -/
theorem no_banks_of_right (h : scanSections image moduleGpuVa = .ok tables)
    (hright : ConstantsRight moduleGpuVa image.sections (tables.function f))
    (hnil : tables.constants f = []) :
    ∀ name ∈ image.sections.map Section.name, ∀ n, ¬ NamesBank name f n ∧ ¬ NamesBank name [] n := by
  have hbanks := hright.banks
  rw [constants_of_eq_nil hnil] at hbanks
  have hall := (List.append_eq_nil_iff.mp (List.nil_perm.mp hbanks)).2
  intro name hname n
  exact ⟨(constants_eq_nil_iff_of_scan h f).mp hnil name hname n,
    banksOf_eq_nil_iff.mp hall name hname n⟩

/-- With a bank 0 of its own, a function has all of its constants, and that in front. -/
theorem right_of_bankZero (h : scanSections image moduleGpuVa = .ok tables)
    (hnames : (image.sections.map Section.name).Nodup)
    (hwell : ∀ s ∈ image.sections, WellNamedBank s.name)
    (hzero : ∃ name ∈ image.sections.map Section.name, NamesBank name f 0) :
    ConstantsRight moduleGpuVa image.sections (tables.function f) := by
  obtain ⟨name, hname, hbank⟩ := hzero
  obtain ⟨s, hs, rfl⟩ := List.mem_map.mp hname
  have hmem : ⟨0, moduleGpuVa + s.address, s.size⟩ ∈ tables.constants f :=
    (mem_constants_of_scan h f _).mpr ⟨s, hs, 0, hbank, rfl⟩
  obtain ⟨first, hfirst, hnr⟩ := zeroFirst_of_scan h f ⟨_, hmem, rfl⟩
  have hall := constants_of_ne_nil (List.ne_nil_of_mem hmem)
  have hhead : (tables.function f).constants.head? = some first := by
    rw [hall, List.head?_append, hfirst, Option.some_or]
  refine ⟨?_, fun c hc hcNr => ?_, fun _ => ⟨first, hhead, hnr⟩⟩
  · rw [hall, tables.toList_function_name]
    exact (perm_constants_of_scan h f).append (perm_constants_of_scan h [])
  · rw [tables.toList_function_name] at hc
    have hfirstMem : first ∈ banksOf moduleGpuVa image.sections f :=
      (perm_constants_of_scan h f).mem_iff.mp (List.mem_of_mem_head? (by rw [hfirst]; rfl))
    rw [hhead, eq_of_bank_zero hnames hwell hc hfirstMem hcNr hnr]

/-- Without any banks, a function has no constants, and a launch of it does not pass the check. -/
theorem right_of_no_banks (h : scanSections image moduleGpuVa = .ok tables)
    (hnone : ∀ name ∈ image.sections.map Section.name, ∀ n,
      ¬ NamesBank name f n ∧ ¬ NamesBank name [] n) :
    ConstantsRight moduleGpuVa image.sections (tables.function f) := by
  have hown : banksOf moduleGpuVa image.sections f = [] :=
    banksOf_eq_nil_iff.mpr fun name hname n => (hnone name hname n).1
  have hall : banksOf moduleGpuVa image.sections [] = [] :=
    banksOf_eq_nil_iff.mpr fun name hname n => (hnone name hname n).2
  have hnil := constants_of_eq_nil ((constants_eq_nil_iff_of_scan h f).mpr fun name hname n =>
    (hnone name hname n).1)
  refine ⟨?_, fun c hc => ?_, fun hexists => ?_⟩
  · rw [hnil, tables.toList_function_name, hown, hall, List.append_nil]
  · rw [tables.toList_function_name, hown] at hc
    exact absurd hc List.not_mem_nil
  · rw [LibreCUFunction.const0Exists, hnil] at hexists
    cases hexists

/-- **What the tables of the loader say** of the constants of a function. -/
theorem constantsRight_iff_of_scan (h : scanSections image moduleGpuVa = .ok tables)
    (hnames : (image.sections.map Section.name).Nodup)
    (hwell : ∀ s ∈ image.sections, WellNamedBank s.name) (f : Name) :
    ConstantsRight moduleGpuVa image.sections (tables.function f) ↔
      HasBankZero (image.sections.map Section.name) f := by
  constructor
  · intro hright
    by_cases hnil : tables.constants f = []
    · exact Or.inr (no_banks_of_right h hright hnil)
    · exact Or.inl (exists_bankZero_of_right h hright hnil)
  · rintro (hzero | hnone)
    · exact right_of_bankZero h hnames hwell hzero
    · exact right_of_no_banks h hnone

end Scan

/-- **Every function gets its constants, if and only if** it has a bank 0 of its own, or no banks.
-/
theorem constants_right_iff {image : ElfImage} {m : LibreCUmodule} {h h' : Host}
    {g : LibreCUFunction} (hload : call (libreCuModuleLoadData (some image)) h = (.ok m, h'))
    (hnames : (image.sections.map Section.name).Nodup)
    (hwell : ∀ s ∈ image.sections, WellNamedBank s.name) (hg : g ∈ m.functions) :
    ConstantsRight m.moduleVaAddr image.placed g ↔
      HasBankZero (image.sections.map Section.name) g.name.toList := by
  obtain ⟨loaded⟩ := loaded_of_ok hload
  have hsame := names_of_sameBut (sameBut_of_rebuildImage loaded.rebuild)
  have hwell' : ∀ s ∈ loaded.sections, WellNamedBank s.name := by
    intro s hs
    have hmem : s.name ∈ image.sections.map Section.name := hsame ▸ List.mem_map_of_mem hs
    obtain ⟨s', hs', heq⟩ := List.mem_map.mp hmem
    exact heq ▸ hwell s' hs'
  rw [loaded.functions] at hg
  obtain ⟨f, -, rfl⟩ := List.mem_map.mp hg
  rw [placed_of_rebuildImage loaded.rebuild, loaded.tables.toList_function_name, ← hsame]
  exact constantsRight_iff_of_scan loaded.scan (hsame ▸ hnames) hwell' f

/-- An image with the code of one kernel and another section. -/
def constantImage (name : Name) : ElfImage where
  sectionEntrySize := 64
  sections := [{ name := ".text.k".toList, type := shtProgbits },
    { name := name, type := shtProgbits }]

/-- The record of that kernel with the given constants, loaded to the start of the heap. -/
def constantKernel (constants : List KernelConstantInfo) : LibreCUFunction where
  name := "k"
  funcVaAddr := uvmHeapStart
  sharedMem := 0
  numRegisters := 0
  localMemReq := 0
  functionSize := 0
  constants := constants
  paramInfo := []

/-- Load the image. -/
def loadConstant (name : Name) : Except Failure LibreCUmodule × Host :=
  call (libreCuModuleLoadData (some (constantImage name))) loadHost

theorem wellNamed_constantImage {name : Name} (h : WellNamedBank name) :
    ∀ s ∈ (constantImage name).sections, WellNamedBank s.name := by
  intro s hs
  rcases List.mem_cons.mp hs with rfl | hs
  · intro rest hrest
    cases (by decide : sectionKind ".text.k".toList = .text "k".toList).symm.trans hrest
  · rwa [List.mem_singleton.mp hs]

theorem wellNamed_bank (digits f : Name) (hnumeral : Numeral digits) :
    WellNamedBank (nvConstant ++ (digits ++ bankSuffix f)) := by
  intro rest hrest
  have hne : digits ++ bankSuffix f ≠ [] := by simp [hnumeral.ne]
  rw [sectionKind_constant hne, SectionKind.constant.injEq] at hrest
  exact ⟨digits, f, hnumeral, hrest.symm⟩

/-- A digit is a numeral. -/
theorem numeral_singleton {c : Char} (h : c.isDigit = true) : Numeral [c] := by
  refine ⟨List.cons_ne_nil c [], fun d hd => ?_, fun hzero => ?_⟩
  · rwa [List.mem_singleton.mp hd]
  · rw [Option.some.inj hzero]

/-- A kernel with a bank 0 of its own. -/
theorem constants_right_iff_sample :
    ConstantsRight uvmHeapStart (constantImage ".nv.constant0.k".toList).placed
        (constantKernel [⟨0, uvmHeapStart, 0⟩]) ↔
      HasBankZero ((constantImage ".nv.constant0.k".toList).sections.map Section.name)
        (constantKernel [⟨0, uvmHeapStart, 0⟩]).name.toList := by
  have hload : loadConstant ".nv.constant0.k".toList =
      (.ok ⟨[constantKernel [⟨0, uvmHeapStart, 0⟩]], uvmHeapStart⟩,
        (loadConstant ".nv.constant0.k".toList).2) := Prod.ext (by decide +kernel) rfl
  have hwell := wellNamed_bank ['0'] "k".toList (numeral_singleton rfl)
  exact constants_right_iff hload (by decide) (wellNamed_constantImage hwell)
    (List.mem_singleton.mpr rfl)

/-- **The constants of all functions are missed, and any bank passes for bank 0**: a kernel without
banks of its own does not get a bank 3 of all functions, and one with a bank 3 only is not refused.
-/
theorem shared_constants_missed :
    (loadConstant ".nv.constant3".toList).1 = .ok ⟨[constantKernel []], uvmHeapStart⟩ ∧
      ((constantImage ".nv.constant3".toList).sections.map Section.name).Nodup ∧
      (∀ s ∈ (constantImage ".nv.constant3".toList).sections, WellNamedBank s.name) ∧
      banksOf uvmHeapStart (constantImage ".nv.constant3".toList).placed [] =
        [⟨3, uvmHeapStart, 0⟩] ∧
      ¬ ConstantsRight uvmHeapStart (constantImage ".nv.constant3".toList).placed
        (constantKernel []) ∧
      (loadConstant ".nv.constant3.k".toList).1 =
        .ok ⟨[constantKernel [⟨3, uvmHeapStart, 0⟩]], uvmHeapStart⟩ ∧
      (constantKernel [⟨3, uvmHeapStart, 0⟩]).const0Exists = true ∧
      ¬ ConstantsRight uvmHeapStart (constantImage ".nv.constant3.k".toList).placed
        (constantKernel [⟨3, uvmHeapStart, 0⟩]) := by
  have hall : banksOf uvmHeapStart (constantImage ".nv.constant3".toList).placed [] =
      [⟨3, uvmHeapStart, 0⟩] := by decide +kernel
  have hwell := wellNamed_bank ['3'] [] (numeral_singleton rfl)
  refine ⟨by decide +kernel, by decide, wellNamed_constantImage hwell, hall, fun hright => ?_,
    by decide +kernel, rfl, fun hright => ?_⟩
  · have hperm := hright.banks
    rw [hall] at hperm
    have hnil := List.append_eq_nil_iff.mp (List.nil_perm.mp hperm)
    exact absurd hnil.2 (List.cons_ne_nil _ _)
  · obtain ⟨c, hc, hzero⟩ := hright.check rfl
    obtain rfl := Option.some.inj hc
    exact absurd hzero (by decide)

end LibreCuda
