import LibreCuda.Foundation.Fields
import LibreCuda.Foundation.Frames
import LibreCuda.Gpu.Decode

/-! # The format of the push buffer

The host reads the words handed to a channel as methods: a header with opcode, number of arguments,
subchannel and address, and the arguments behind it (`NVC56F_DMA_INCR`).

* **`parseMethods`** reads a word list so.
* **`MethodCall.Pushes`**: what was pushed is one `enqueue` of a method of `makeNvMethod`.
* **`parseMethods_commandWords`**: the words of such methods parse to them. -/

namespace LibreCuda

open Fields

/-! ## Incrementing methods -/

/-- `NVC56F_DMA_INCR_ADDRESS`, in words. -/
def dmaIncrAddress : Field := ⟨0, 0, 12⟩

/-- `NVC56F_DMA_INCR_SUBCHANNEL`. -/
def dmaIncrSubchannel : Field := ⟨0, 13, 3⟩

/-- `NVC56F_DMA_INCR_COUNT`. -/
def dmaIncrCount : Field := ⟨0, 16, 13⟩

/-- `NVC56F_DMA_INCR_OPCODE`. -/
def dmaIncrOpcode : Field := ⟨0, 29, 3⟩

/-- One incrementing method, as the host reads it. -/
structure DmaMethod where
  subchannel : NvU32
  address : NvU32
  arguments : List NvU32
  deriving DecidableEq

/-- The number of arguments that a header announces. -/
def headerCount (header : NvU32) : ℕ := (dmaIncrCount.get fun _ => header).toNat

/-- A header and the words behind it; the opcode is `NVC56F_DMA_INCR_OPCODE_VALUE`. -/
def readMethod (frame : NvU32 × List NvU32) : Option DmaMethod :=
  if dmaIncrOpcode.get (fun _ => frame.1) = 1 then
    some {
      subchannel := dmaIncrSubchannel.get fun _ => frame.1
      address := dmaIncrAddress.get (fun _ => frame.1) <<< 2
      arguments := frame.2 }
  else none

/-- The methods of a word list. -/
def parseMethods (words : List NvU32) : Option (List DmaMethod) :=
  (Frames.parse headerCount words).bind fun frames => frames.mapM readMethod

/-! ## Methods that were pushed -/

/-- What was pushed is what one `enqueue` of `makeNvMethod` pushes for a method with an address of
its field's width, on one of the subchannels. -/
structure MethodCall.Pushes (m : MethodCall) (d : DmaMethod) : Prop where
  subchannel : d.subchannel.toNat < 8
  address : d.address.toNat < 0x4000
  aligned : d.address.toNat % 4 = 0
  count : d.arguments.length < 0x1000
  header : m.header = methodHeader d.subchannel d.address (BitVec.ofNat 32 d.arguments.length)
  args : m.args = d.arguments

/-- The bits of a header. -/
theorem getLsbD_methodHeader {subcommand method size : NvU32} (hmethod : method.toNat < 0x4000)
    {j : ℕ} (hj : j < 32) :
    (methodHeader subcommand method size).getLsbD j = (decide (j = 29) ||
      (decide (16 ≤ j) && size.getLsbD (j - 16) ||
        (decide (13 ≤ j) && subcommand.getLsbD (j - 13) || method.getLsbD (2 + j)))) := by
  have hmsb : method.msb = false := by
    rw [BitVec.msb_eq_decide, decide_eq_false_iff_not]
    omega
  -- the type of the header is one bit; the shift of the method is one of a positive `int`
  have htyp : (2 : NvU32) <<< 28 = BitVec.twoPow 32 29 := by decide
  rw [methodHeader, makeNvMethod, BitVec.sshiftRight_eq_of_msb_false hmsb]
  simp only [BitVec.getLsbD_setWidth, BitVec.getLsbD_signExtend, htyp]
  simp only [BitVec.getLsbD_or, BitVec.getLsbD_shiftLeft, BitVec.getLsbD_ushiftRight,
    BitVec.getLsbD_twoPow, hj, show j < 64 by omega, decide_true, Bool.true_and, if_true,
    Bool.or_assoc]
  congr 1
  · simp [eq_comm]
  · congr 1
    · by_cases h16 : 16 ≤ j
      · simp [h16, Nat.not_lt.mpr h16]
      · simp [h16, Nat.not_le.mp h16]
    · congr 1
      by_cases h13 : 13 ≤ j
      · simp [h13, Nat.not_lt.mpr h13]
      · simp [h13, Nat.not_le.mp h13]

section Header

variable {subcommand method size : NvU32}

theorem dmaIncrOpcode_methodHeader (hsub : subcommand.toNat < 8) (hmethod : method.toNat < 0x4000)
    (hsize : size.toNat < 0x1000) :
    dmaIncrOpcode.get (fun _ => methodHeader subcommand method size) = 1 := by
  apply BitVec.eq_of_getLsbD_eq
  intro i hi
  rw [Field.getLsbD_get, show (1 : NvU32) = BitVec.twoPow 32 0 from rfl, BitVec.getLsbD_twoPow]
  simp only [dmaIncrOpcode]
  by_cases hlt : i < 3
  · -- above its own field, none of the parts has a bit
    have h16 : size.getLsbD (29 + i - 16) = false := getLsbD_eq_false (k := 12) hsize (by omega)
    have h13 : subcommand.getLsbD (29 + i - 13) = false := getLsbD_eq_false (k := 3) hsub (by omega)
    have h2 : method.getLsbD (2 + (29 + i)) = false := getLsbD_eq_false (k := 14) hmethod (by omega)
    rw [getLsbD_methodHeader hmethod (by omega), h16, h13, h2]
    simp [hi, hlt, eq_comm]
  · have h0 : 0 ≠ i := by omega
    simp [hlt, h0]

theorem headerCount_methodHeader (hsub : subcommand.toNat < 8) (hmethod : method.toNat < 0x4000)
    (hsize : size.toNat < 0x1000) : headerCount (methodHeader subcommand method size) = size.toNat := by
  apply Nat.eq_of_testBit_eq
  intro i
  rw [headerCount, BitVec.testBit_toNat, BitVec.testBit_toNat, Field.getLsbD_get]
  simp only [dmaIncrCount]
  by_cases hlt : i < 13
  · have h13 : subcommand.getLsbD (16 + i - 13) = false := getLsbD_eq_false (k := 3) hsub (by omega)
    have h2 : method.getLsbD (2 + (16 + i)) = false := getLsbD_eq_false (k := 14) hmethod (by omega)
    have hi : i < 32 := by omega
    have hne : 16 + i ≠ 29 := by omega
    rw [getLsbD_methodHeader hmethod (by omega), h13, h2]
    simp [hi, hlt, hne]
  · simp [hlt, getLsbD_eq_false (k := 12) hsize (by omega : 12 ≤ i)]

theorem dmaIncrSubchannel_methodHeader (hsub : subcommand.toNat < 8)
    (hmethod : method.toNat < 0x4000) :
    dmaIncrSubchannel.get (fun _ => methodHeader subcommand method size) = subcommand := by
  apply BitVec.eq_of_getLsbD_eq
  intro i hi
  rw [Field.getLsbD_get]
  simp only [dmaIncrSubchannel]
  by_cases hlt : i < 3
  · have h2 : method.getLsbD (2 + (13 + i)) = false := getLsbD_eq_false (k := 14) hmethod (by omega)
    have hne : 13 + i ≠ 29 := by omega
    have h16 : ¬16 ≤ 13 + i := by omega
    rw [getLsbD_methodHeader hmethod (by omega), h2]
    simp [hi, hlt, hne, h16]
  · simp [hlt, getLsbD_eq_false (k := 3) hsub (Nat.not_lt.mp hlt)]

theorem dmaIncrAddress_methodHeader (hmethod : method.toNat < 0x4000)
    (haligned : method.toNat % 4 = 0) :
    dmaIncrAddress.get (fun _ => methodHeader subcommand method size) <<< 2 = method := by
  apply BitVec.eq_of_getLsbD_eq
  intro i hi
  rw [BitVec.getLsbD_shiftLeft, Field.getLsbD_get]
  simp only [dmaIncrAddress]
  by_cases hlow : i < 2
  · have hmod : (method.toNat % 2 ^ 2).testBit i = false := by
      rw [show method.toNat % 2 ^ 2 = 0 from haligned, Nat.zero_testBit]
    rw [Nat.testBit_mod_two_pow, decide_eq_true hlow, Bool.true_and, BitVec.testBit_toNat] at hmod
    simp [hlow, hmod]
  · by_cases hlt : i < 14
    · have hsum : 2 + (i - 2) = i := by omega
      have h12 : i - 2 < 12 := by omega
      have h32 : i - 2 < 32 := by omega
      have hne : i - 2 ≠ 29 := by omega
      have h16 : ¬16 ≤ i - 2 := by omega
      have h13 : ¬13 ≤ i - 2 := by omega
      rw [Nat.zero_add, getLsbD_methodHeader hmethod h32, hsum]
      simp [hi, hlow, h12, h32, hne, h16, h13]
    · have h12 : ¬i - 2 < 12 := by omega
      simp [h12, getLsbD_eq_false (k := 14) hmethod (Nat.not_lt.mp hlt)]

end Header

/-- A pushed method reads back. -/
theorem MethodCall.Pushes.read {m : MethodCall} {d : DmaMethod} (h : m.Pushes d) :
    headerCount m.header = m.args.length ∧ readMethod (m.header, m.args) = some d := by
  have hsize : (BitVec.ofNat 32 d.arguments.length).toNat = d.arguments.length := by
    have hcount := h.count
    rw [BitVec.toNat_ofNat, Nat.mod_eq_of_lt (by omega)]
  have hlt : (BitVec.ofNat 32 d.arguments.length).toNat < 0x1000 := by
    rw [hsize]
    exact h.count
  constructor
  · rw [h.header, headerCount_methodHeader h.subchannel h.address hlt, hsize, h.args]
  · rw [readMethod, h.header, if_pos (dmaIncrOpcode_methodHeader h.subchannel h.address hlt),
      dmaIncrSubchannel_methodHeader h.subchannel h.address,
      dmaIncrAddress_methodHeader h.address h.aligned, h.args]

/-- **The words of pushed methods parse to them**, in order and with none left over. -/
theorem parseMethods_commandWords {commands : List MethodCall} {methods : List DmaMethod}
    (h : List.Forall₂ MethodCall.Pushes commands methods) :
    parseMethods (commandWords commands) = some methods := by
  have hframes : commandWords commands = Frames.flatten (commands.map fun m => (m.header, m.args)) := by
    rw [Frames.flatten, List.flatMap_map]
    rfl
  have hcounts : ∀ m ∈ commands, headerCount m.header = m.args.length := by
    intro m hm
    obtain ⟨k, hk, rfl⟩ := List.mem_iff_getElem.mp hm
    exact (h.get hk (h.length_eq ▸ hk)).read.1
  have hparse : Frames.parse headerCount (commandWords commands) =
      some (commands.map fun m => (m.header, m.args)) := by
    rw [hframes]
    refine Frames.parse_flatten fun f hf => ?_
    obtain ⟨m, hm, rfl⟩ := List.mem_map.mp hf
    exact hcounts m hm
  rw [parseMethods, hparse, Option.bind_some]
  -- only the readings of the frames are left, one method at a time
  clear hframes hcounts hparse
  induction h with
  | nil => rfl
  | cons hpushes _ ih =>
    rw [List.map_cons, List.mapM_cons, hpushes.read.2, ih]
    rfl

end LibreCuda
