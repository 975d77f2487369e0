import LibreCuda.Foundation.Exec
import Mathlib.Data.BitVec

/-! # Machine words, statuses and records of the driver

The fixed-width types of `nvtypes.h`, the error statuses of `librecuda_all_statuses.h`, the integer
helpers of `cmdqueue.cpp` in the width their overload resolution selects, and the records of
`librecuda_internal.h` that describe a loaded kernel. -/

namespace LibreCuda

abbrev NvU8 : Type := BitVec 8
abbrev NvU16 : Type := BitVec 16
abbrev NvU32 : Type := BitVec 32
abbrev NvU64 : Type := BitVec 64

/-- The error statuses (`LIBRECUDA_ERROR_*`); success is the absence of a failure. -/
inductive Status
  | invalidValue
  | outOfMemory
  | notInitialized
  | invalidDevice
  | invalidImage
  | invalidContext
  | notFound
  | notReady
  | launchOutOfResources
  | compatNotSupportedOnDevice
  | unknown
  deriving DecidableEq, Repr

/-- How a call of the driver ends without success: it returns an error status, or a C++ exception
escapes it, or it runs into undefined behaviour (a null dereference, a division by zero). -/
inductive Failure
  | status (s : Status)
  | exception
  | crash
  deriving DecidableEq, Repr

/-! ## Integer helpers -/

/-- High half of a 64-bit value (`U64_HI_32_BITS`). -/
def hi32 (value : NvU64) : NvU32 := (value >>> 32).setWidth 32

/-- Low half of a 64-bit value (`U64_LO_32_BITS`). -/
def lo32 (value : NvU64) : NvU32 := value.setWidth 32

/-- `ceilDiv` in the width `w` of its arguments; the sum wraps. -/
def ceilDiv {w : ℕ} (a b : BitVec w) : BitVec w := (a + b - 1) / b

/-- `roundUp` in the width `w` of its arguments; sum and product wrap. -/
def roundUp {w : ℕ} (a b : BitVec w) : BitVec w := ceilDiv a b * b

/-- `maxOf` on unsigned values. -/
def maxOf {w : ℕ} (a b : BitVec w) : BitVec w := if b < a then a else b

/-- `minOf` on unsigned values. -/
def minOf {w : ℕ} (a b : BitVec w) : BitVec w := if a < b then a else b

/-- The two halves of a 64-bit value give it back. -/
theorem hi32_append_lo32 (value : NvU64) : hi32 value ++ lo32 value = value := by
  ext i hi
  simp only [hi32, lo32, BitVec.getElem_append, BitVec.getElem_setWidth,
    BitVec.getLsbD_ushiftRight]
  split
  · exact BitVec.getLsbD_eq_getElem hi
  · rw [← BitVec.getLsbD_eq_getElem]
    congr 1
    omega

/-- Where the sum does not wrap, `ceilDiv` is the ceiling of the quotient. -/
theorem toNat_ceilDiv {w : ℕ} (a b : BitVec w) (hb : 0 < b.toNat)
    (h : a.toNat + b.toNat < 2 ^ w) : (ceilDiv a b).toNat = (a.toNat + b.toNat - 1) / b.toNat := by
  have hw : 0 < w := by
    rcases Nat.eq_zero_or_pos w with rfl | hw
    · have := b.isLt
      omega
    · exact hw
  have h1 : (1 : BitVec w).toNat = 1 := by
    simp [Nat.mod_eq_of_lt (Nat.one_lt_two_pow hw.ne')]
  have hsub : (a + b - 1).toNat = a.toNat + b.toNat - 1 := by
    have hadd : (a + b).toNat = a.toNat + b.toNat := by
      rw [BitVec.toNat_add, Nat.mod_eq_of_lt h]
    rw [BitVec.toNat_sub_of_le (by rw [BitVec.le_def, h1, hadd]; omega), hadd, h1]
  rw [ceilDiv, BitVec.toNat_udiv, hsub]

/-- `maxOf` is the maximum. -/
theorem toNat_maxOf {w : ℕ} (a b : BitVec w) : (maxOf a b).toNat = max a.toNat b.toNat := by
  unfold maxOf
  split_ifs with h
  · exact (Nat.max_eq_left (Nat.le_of_lt h)).symm
  · exact (Nat.max_eq_right (Nat.not_lt.mp h)).symm

/-- A maximum is not below what it starts from. -/
theorem toNat_le_foldl_maxOf {w : ℕ} (values : List (BitVec w)) (start : BitVec w) :
    start.toNat ≤ (values.foldl maxOf start).toNat := by
  induction values generalizing start with
  | nil => exact Nat.le_refl _
  | cons value values ih =>
    have hstep := ih (maxOf start value)
    rw [toNat_maxOf] at hstep
    exact Nat.le_trans (Nat.le_max_left _ _) hstep

/-- The largest of some words is below a bound if all of them are. -/
theorem toNat_foldl_maxOf_le {w : ℕ} {values : List (BitVec w)} {start : BitVec w} {bound : ℕ}
    (hstart : start.toNat ≤ bound) :
    (values.foldl maxOf start).toNat ≤ bound ↔ ∀ value ∈ values, value.toNat ≤ bound := by
  induction values generalizing start with
  | nil => exact ⟨fun _ value hvalue => absurd hvalue List.not_mem_nil, fun _ => hstart⟩
  | cons value values ih =>
    rw [List.foldl_cons, List.forall_mem_cons]
    by_cases hvalue : value.toNat ≤ bound
    · have hmax : (maxOf start value).toNat ≤ bound := by
        rw [toNat_maxOf]
        exact Nat.max_le.mpr ⟨hstart, hvalue⟩
      rw [ih hmax, and_iff_right hvalue]
    · have hgrows := toNat_le_foldl_maxOf values (maxOf start value)
      rw [toNat_maxOf] at hgrows
      exact ⟨fun hle => by omega, fun hall => absurd hall.1 hvalue⟩

/-- Where nothing wraps, `roundUp` is the next multiple. -/
theorem toNat_roundUp {w : ℕ} (a b : BitVec w) (hb : 0 < b.toNat)
    (h : a.toNat + b.toNat < 2 ^ w) :
    (roundUp a b).toNat = (a.toNat + b.toNat - 1) / b.toNat * b.toNat := by
  have hle : (a.toNat + b.toNat - 1) / b.toNat * b.toNat ≤ a.toNat + b.toNat - 1 :=
    Nat.div_mul_le_self _ _
  rw [roundUp, BitVec.toNat_mul, toNat_ceilDiv a b hb h, Nat.mod_eq_of_lt (by omega)]

/-- A word in 64 bits is the word. -/
theorem toNat_setWidth_64 (value : NvU32) : (value.setWidth 64 : NvU64).toNat = value.toNat := by
  rw [BitVec.toNat_setWidth, Nat.mod_eq_of_lt (value.isLt.trans (by decide))]

/-! ## Numbers in text -/

/-- The characters `isspace` accepts. -/
def isSpace (c : Char) : Bool :=
  c = ' ' || c = '\t' || c = '\n' || c = '\x0b' || c = '\x0c' || c = '\r'

/-- The value of a run of decimal digits. -/
def digitsValue (digits : List Char) : ℕ :=
  digits.foldl (fun n c => 10 * n + (c.toNat - '0'.toNat)) 0

/-- `std::stoi`: white space, a sign and digits; the value and how many characters were used. `none`
is an exception: no digits, or a value that is no `int`. -/
def stoi (s : List Char) : Option (ℤ × ℕ) :=
  let space := s.takeWhile isSpace
  let body := s.drop space.length
  let signed := body.head? = some '-' ∨ body.head? = some '+'
  let digits := (if signed then body.tail else body).takeWhile Char.isDigit
  let value : ℤ := if body.head? = some '-' then -digitsValue digits else digitsValue digits
  if digits = [] ∨ value < -2 ^ 31 ∨ 2 ^ 31 ≤ value then none
  else some (value, space.length + (if signed then 1 else 0) + digits.length)

/-! ## Kernel records -/

/-- A constant bank of a kernel (`KernelConstantInfo`). -/
structure KernelConstantInfo where
  constNr : NvU32
  address : NvU64
  size : NvU64
  deriving DecidableEq, Repr

/-- A parameter of a kernel (`KernelParamInfo`). -/
structure KernelParamInfo where
  paramIndex : NvU16
  paramOffset : NvU16
  paramSize : NvU16 := 0
  deriving DecidableEq, Repr

/-- A loaded kernel (`LibreCUFunction_`). -/
structure LibreCUFunction where
  name : String
  funcVaAddr : NvU64
  sharedMem : NvU32
  numRegisters : NvU32
  localMemReq : NvU32
  functionSize : NvU64
  constants : List KernelConstantInfo
  paramInfo : List KernelParamInfo
  shaderLocalMemoryVa : NvU64 := 0
  deriving DecidableEq, Repr

end LibreCuda
