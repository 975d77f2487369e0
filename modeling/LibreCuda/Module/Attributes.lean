import LibreCuda.Module.Image

/-! # Attributes of kernels

The two attribute formats the loader reads: `.nv.info`, a table of words for the whole image, and
`.nv.info.<f>`, the records of one function. The loop over the latter steps by a number of words
that is fixed for each kind of record. -/

namespace LibreCuda

open Bytes

/-- `EIATTR_MIN_STACK_SIZE`. -/
def eiattrMinStackSize : NvU32 := 0x1204

/-- What the loop over `.nv.info.<f>` collects. -/
structure FunctionAttributes where
  paramInfos : List KernelParamInfo := []
  paramTotalSize : NvU64 := 0
  deriving DecidableEq

/-- What one record asks of the loop. -/
inductive AttributeStep
  | stop
  | fail
  | advance (bytes : ℕ)
  deriving DecidableEq

/-- The kinds of records the switch has a case for, with their lengths in words
(`EIATTR_*_ATTR_WORD_LEN`). -/
def attributeWordLens : List (NvU32 × ℕ) :=
  [(0x3704, 2), -- `EIATTR_CUDA_API_VERSION`
    (0x1e04, 2), -- `EIATTR_CRS_STACK_SIZE`
    (0x0a04, 3), -- `EIATTR_PARAM_CBANK`
    (0x1903, 1), -- `EIATTR_CBANK_PARAM_SIZE`
    (0x1704, 4), -- `EIATTR_KPARAM_INFO`
    (0x1b03, 1), -- `EIATTR_MAXREG_COUNT`
    (0x2904, 1), -- `EIATTR_COOP_GROUP_MASK_REGIDS`
    (0x0f04, 2), -- `EIATTR_EXTERNS`
    (0x4604, 2), -- `EIATTR_SYSCALL_OFFSETS`
    (0x3501, 1), -- `EIATTR_SW2861232_WAR`
    (0x3001, 1), -- `EIATTR_SW2393858_WAR`
    (0x2a01, 1), -- `EIATTR_SW1850030_WAR`
    (0x1d04, 1), -- `EIATTR_S2RCTAID_INSTR_OFFSETS`, the base length
    (0x3604, 2)] -- `EIATTR_SW_WAR`

/-- `EIATTR_CBANK_PARAM_SIZE`. -/
def eiattrCbankParamSize : NvU32 := 0x1903

/-- `EIATTR_KPARAM_INFO`. -/
def eiattrKparamInfo : NvU32 := 0x1704

/-- `EIATTR_EXIT_INSTR_OFFSETS`. -/
def eiattrExitInstrOffsets : NvU32 := 0x1c04

/-- `EIATTR_S2RCTAID_INSTR_OFFSETS`. -/
def eiattrS2rctaidInstrOffsets : NvU32 := 0x1d04

/-- The lower half of a header: format and attribute. -/
def attributeType (key : NvU32) : NvU32 := key &&& 0xffff

/-- The upper half of a header: inline data, or the length of the payload in bytes. -/
def attributeOther (key : NvU32) : NvU32 := key >>> 16

/-- How far the loop advances over a record with this header. -/
def attributeStep (key : NvU32) : AttributeStep :=
  if key = 0xffffffff then .stop
  else if attributeType key = eiattrExitInstrOffsets then .stop
  else
    match attributeWordLens.lookup (attributeType key) with
    | none => .fail
    | some words => .advance (words * 4 +
        if attributeType key = eiattrS2rctaidInstrOffsets then (attributeOther key).toNat else 0)

/-- What a record with this header adds; `line2` is the second word behind the header. -/
def FunctionAttributes.add (a : FunctionAttributes) (key line2 : NvU32) : FunctionAttributes :=
  if attributeType key = eiattrCbankParamSize then
    { a with paramTotalSize := (attributeOther key).setWidth 64 }
  else if attributeType key = eiattrKparamInfo then
    { a with paramInfos := a.paramInfos ++ [{
        paramIndex := line2.setWidth 16
        paramOffset := (line2 >>> 16).setWidth 16 }] }
  else a

/-- The loop over `.nv.info.<f>` from an offset on. Every record is at least a word long, so as many
rounds as the section has bytes are enough. -/
def parseAttributes (data : ℕ → NvU8) (size : ℕ) :
    ℕ → ℕ → FunctionAttributes → Except Failure FunctionAttributes
  | 0, _, a => .ok a
  | rounds + 1, off, a =>
    if size ≤ off then .ok a
    else
      let key := wordAt data off
      match attributeStep key with
      | .stop => .ok a
      | .fail => .error (.status .invalidImage)
      | .advance bytes =>
        parseAttributes data size rounds (off + bytes) (a.add key (wordAt data (off + 8)))

/-- The records of a section `.nv.info.<f>`, added to what is known of the function. -/
def Section.functionAttributes (s : Section) (a : FunctionAttributes) :
    Except Failure FunctionAttributes :=
  parseAttributes s.data s.size.toNat s.size.toNat 0 a

/-- `target_name`: the name of the symbol that a line is for, or none. The loop over the symbols
counts in an `int`, and comes to no more than 2^31 of them. -/
def infoTarget (symbols : List ElfSymbol) (func : NvU32) : Name :=
  if func.msb then [] else ((symbols[func.toNat]?).map ElfSymbol.name).getD []

/-- The line of `.nv.info` at an offset: a stack size raises the local-memory requirement of the
function that the symbol names. -/
def infoLine (symbols : List ElfSymbol) (data : ℕ → NvU8) (reqs : Name → NvU32) (off : ℕ) :
    Name → NvU32 :=
  if wordAt data off &&& 0xffff = eiattrMinStackSize then
    let target := infoTarget symbols (wordAt data (off + 4))
    Function.update reqs target (maxOf (reqs target) (wordAt data (off + 8) + 0x240))
  else reqs

/-- The offsets of the lines that the loop over `.nv.info` comes to, from one on. `off` is an `int`
and compared with the size as a number of 64 bits: a negative one is behind the end of any section.
-/
def infoOffsetsFrom (size : NvU64) : ℕ → BitVec 32 → List ℕ
  | 0, _ => []
  | rounds + 1, off =>
    if off.msb ∨ size.toNat ≤ off.toNat then []
    else off.toNat :: infoOffsetsFrom size rounds (off + 12)

/-- The offsets of all lines that the loop over `.nv.info` comes to. As many rounds as the section
has bytes are enough. -/
def infoOffsets (size : NvU64) : List ℕ := infoOffsetsFrom size size.toNat 0

/-- The loop over `.nv.info`. -/
def Section.localMemReqs (s : Section) (symbols : List ElfSymbol) (reqs : Name → NvU32) :
    Name → NvU32 :=
  (infoOffsets s.size).foldl (infoLine symbols s.data) reqs

/-! ## The lines of `.nv.info` -/

/-- How many lines start at an offset that an `int` holds. -/
def maxInfoLines : ℕ := 178956971

/-- How many lines the loop over `.nv.info` comes to: those that start inside the section, and at an
offset that an `int` holds. -/
def infoLines (size : NvU64) : ℕ := min ((size.toNat + 11) / 12) maxInfoLines

/-- From the start of a line on, the loop comes to all lines behind it. -/
theorem infoOffsetsFrom_line (size : NvU64) {rounds line : ℕ} (h : infoLines size ≤ line + rounds)
    (hline : line ≤ infoLines size) : infoOffsetsFrom size rounds (BitVec.ofNat 32 (12 * line)) =
      (List.range' line (infoLines size - line)).map (12 * ·) := by
  have hlines : infoLines size = min ((size.toNat + 11) / 12) 178956971 := rfl
  induction rounds generalizing line with
  | zero =>
    rw [infoOffsetsFrom, show infoLines size - line = 0 by omega]
    rfl
  | succ rounds ih =>
    have hoff : (BitVec.ofNat 32 (12 * line)).toNat = 12 * line := by
      rw [BitVec.toNat_ofNat]
      exact Nat.mod_eq_of_lt (by omega)
    rw [infoOffsetsFrom, BitVec.msb_eq_decide, hoff]
    by_cases hend : line = infoLines size
    · -- the next line would start behind the end, or at an offset that is no `int`
      rw [if_pos (by simp only [decide_eq_true_eq]; omega), hend, Nat.sub_self]
      rfl
    · have hnext : BitVec.ofNat 32 (12 * line) + 12 = BitVec.ofNat 32 (12 * (line + 1)) := by
        rw [Nat.mul_succ, BitVec.ofNat_add]
        rfl
      have hcount : infoLines size - line = infoLines size - (line + 1) + 1 := by omega
      rw [if_neg (by simp only [decide_eq_true_eq]; omega), hnext, ih (by omega) (by omega), hcount,
        List.range'_succ, List.map_cons]

/-- **The lines the loop over `.nv.info` comes to** are the first ones of the section. -/
theorem infoOffsets_eq (size : NvU64) :
    infoOffsets size = (List.range (infoLines size)).map (12 * ·) := by
  have hlines : infoLines size = min ((size.toNat + 11) / 12) 178956971 := rfl
  rw [List.range_eq_range']
  exact infoOffsetsFrom_line size (by omega) (Nat.zero_le _)

/-! ## The records of `.nv.info.<f>` -/

/-- Every record the loop passes is at least one word long. -/
theorem four_le_of_advance {key : NvU32} {bytes : ℕ} (h : attributeStep key = .advance bytes) :
    4 ≤ bytes := by
  have hlens : ∀ p ∈ attributeWordLens, 1 ≤ p.2 := by decide
  unfold attributeStep at h
  split at h
  · cases h
  · split at h
    · cases h
    · split at h
      · cases h
      · rename_i words hwords
        obtain ⟨front, rest, hsplit, -⟩ := List.lookup_eq_some_iff.mp hwords
        have hword := hlens (attributeType key, words) (by rw [hsplit]; simp)
        injection h with h
        omega

/-- **More rounds make no difference** once the rounds cover the bytes that are left. -/
theorem parseAttributes_rounds (data : ℕ → NvU8) (size : ℕ) {rounds rounds' off : ℕ}
    (a : FunctionAttributes) (h : size ≤ off + rounds) (hle : rounds ≤ rounds') :
    parseAttributes data size rounds' off a = parseAttributes data size rounds off a := by
  induction rounds generalizing rounds' off a with
  | zero =>
    cases rounds' with
    | zero => rfl
    | succ rounds' =>
      rw [parseAttributes, parseAttributes, if_pos (by omega)]
  | succ rounds ih =>
    obtain ⟨rounds', rfl⟩ : ∃ k, rounds' = k + 1 := ⟨rounds' - 1, by omega⟩
    rw [parseAttributes, parseAttributes]
    by_cases hend : size ≤ off
    · rw [if_pos hend, if_pos hend]
    · rw [if_neg hend, if_neg hend]
      cases hstep : attributeStep (wordAt data off) with
      | stop => simp only [hstep]
      | fail => simp only [hstep]
      | advance bytes =>
        have hword := four_le_of_advance hstep
        simp only [hstep]
        exact ih _ (by omega) (by omega)

end LibreCuda
