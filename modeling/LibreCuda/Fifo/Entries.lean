import LibreCuda.Foundation.Fields
import LibreCuda.Fifo.Submission
import LibreCuda.Gpu.Decode

/-! # Ring entries

`submitToFifo` packs the address of the words and their number into one 64-bit entry, by shifts that
nothing masks. The GPU reads it by the layout of `NVC56F_GP_ENTRY`.

* **`GpEntryDecodes`** is that layout.
* **`ring_entry_decodes_iff`**: an entry decodes to what was submitted exactly when the buffer is
  shorter than a page, and the address of its words has 40 bits. -/

namespace LibreCuda

open Exec Fields

/-! ## Layout -/

/-- `NVC56F_GP_ENTRY0_GET` and `NVC56F_GP_ENTRY1_GET_HI`: the address, in words. -/
def gpEntryGet : Field := ⟨0, 2, 38⟩

/-- `NVC56F_GP_ENTRY1_LEVEL`. -/
def gpEntryLevel : Field := ⟨0, 41, 1⟩

/-- `NVC56F_GP_ENTRY1_LENGTH`. -/
def gpEntryLength : Field := ⟨0, 42, 21⟩

/-- `NVC56F_GP_ENTRY1_SYNC`. -/
def gpEntrySync : Field := ⟨0, 63, 1⟩

/-- The entry is for `n` words at an address, as a subroutine, without waiting. -/
structure GpEntryDecodes (entry address : NvU64) (n : ℕ) : Prop where
  address : gpEntryGet.get (fun _ => entry) <<< 2 = address
  /-- `NVC56F_GP_ENTRY1_LEVEL_SUBROUTINE`. -/
  level : gpEntryLevel.get (fun _ => entry) = 1
  length : (gpEntryLength.get fun _ => entry).toNat = n
  /-- `NVC56F_GP_ENTRY1_SYNC_PROCEED`. -/
  sync : gpEntrySync.get (fun _ => entry) = 0

/-! ## Bits of an entry -/

/-- The bits of an entry: the address from bit 2 on, the number from bit 42 on, and bit 41. -/
theorem getLsbD_gpEntry (address : NvU64) (n : ℕ) {j : ℕ} (hj : j < 64) :
    (gpEntry address n).getLsbD j = (decide (2 ≤ j) && address.getLsbD j ||
      (decide (42 ≤ j) && n.testBit (j - 42) || decide (j = 41))) := by
  -- dividing by the size of a word drops the two lowest bits, and shifting back leaves them clear
  have hdiv : address / 4#64 = address >>> 2 := by
    apply BitVec.eq_of_toNat_eq
    rw [BitVec.toNat_udiv, BitVec.toNat_ushiftRight, Nat.shiftRight_eq_div_pow]
    rfl
  have hentry : gpEntry address n =
      (address >>> 2) <<< 2 ||| BitVec.ofNat 64 n <<< 42 ||| BitVec.twoPow 64 41 := by
    rw [← hdiv]
    rfl
  rw [hentry]
  simp only [BitVec.getLsbD_or, BitVec.getLsbD_shiftLeft, BitVec.getLsbD_ushiftRight,
    BitVec.getLsbD_twoPow, BitVec.getLsbD_ofNat, hj, decide_true, Bool.true_and, Bool.or_assoc]
  congr 1
  · by_cases h2 : 2 ≤ j
    · have hsum : 2 + (j - 2) = j := by omega
      rw [hsum, decide_eq_true h2, decide_eq_false (Nat.not_lt.mpr h2), Bool.not_false]
    · simp [h2, Nat.not_le.mp h2]
  · congr 1
    · by_cases h42 : 42 ≤ j
      · have hlt : j - 42 < 64 := by omega
        simp [h42, hlt]
      · simp [h42, Nat.not_le.mp h42]
    · simp [eq_comm]

/-- The address that is read from an entry. -/
theorem getLsbD_gpEntryGet (address : NvU64) (n : ℕ) {i : ℕ} (hi : i < 64) :
    (gpEntryGet.get (fun _ => gpEntry address n) <<< 2).getLsbD i =
      (decide (2 ≤ i) && (decide (i < 40) && address.getLsbD i)) := by
  rw [BitVec.getLsbD_shiftLeft, Field.getLsbD_get]
  simp only [gpEntryGet]
  by_cases h2 : 2 ≤ i
  · by_cases h40 : i < 40
    · have hsum : 2 + (i - 2) = i := by omega
      have h38 : i - 2 < 38 := by omega
      have h64 : i - 2 < 64 := by omega
      have h42 : ¬42 ≤ i := by omega
      have h41 : i ≠ 41 := by omega
      rw [hsum, getLsbD_gpEntry address n hi]
      simp [hi, h2, h40, h38, h64, h42, h41, Nat.not_lt.mpr h2]
    · have h38 : ¬i - 2 < 38 := by omega
      simp [h40, h38]
  · simp [h2, Nat.not_le.mp h2]

section Decoded

variable {address : NvU64} {n : ℕ}

/-- The address is read back, if it has 40 bits and is that of a word. -/
theorem gpEntryGet_gpEntry (n : ℕ) (haddress : address.toNat < 2 ^ 40)
    (haligned : address.toNat % 4 = 0) :
    gpEntryGet.get (fun _ => gpEntry address n) <<< 2 = address := by
  have hhigh : ∀ j, 40 ≤ j → address.getLsbD j = false := fun j hj => getLsbD_eq_false haddress hj
  have hlow : ∀ j, j < 2 → address.getLsbD j = false := by
    intro j hj
    have hmod : (address.toNat % 2 ^ 2).testBit j = false := by
      rw [show address.toNat % 2 ^ 2 = 0 from haligned, Nat.zero_testBit]
    rw [Nat.testBit_mod_two_pow, decide_eq_true hj, Bool.true_and] at hmod
    rwa [BitVec.testBit_toNat] at hmod
  apply BitVec.eq_of_getLsbD_eq
  intro i hi
  rw [getLsbD_gpEntryGet address n hi]
  by_cases h2 : 2 ≤ i
  · by_cases h40 : i < 40
    · simp [h2, h40]
    · simp [h40, hhigh i (Nat.not_lt.mp h40)]
  · simp [h2, hlow i (Nat.not_le.mp h2)]

/-- The level is that of a subroutine, whatever the address and the number. -/
theorem gpEntryLevel_gpEntry (address : NvU64) (n : ℕ) :
    gpEntryLevel.get (fun _ => gpEntry address n) = 1 := by
  apply BitVec.eq_of_getLsbD_eq
  intro i hi
  rw [Field.getLsbD_get, show (1 : NvU64) = BitVec.twoPow 64 0 from rfl, BitVec.getLsbD_twoPow]
  simp only [gpEntryLevel]
  by_cases h0 : i = 0
  · subst h0
    rw [getLsbD_gpEntry address n (by decide)]
    simp
  · have h1 : ¬i < 1 := by omega
    simp [h1, Ne.symm h0]

/-- The number is read back, if it has 21 bits and the address does not reach into its field. -/
theorem gpEntryLength_gpEntry (haddress : address.toNat < 2 ^ 40) (hn : n < 2 ^ 21) :
    (gpEntryLength.get fun _ => gpEntry address n).toNat = n := by
  have hhigh : ∀ j, 40 ≤ j → address.getLsbD j = false := fun j hj => getLsbD_eq_false haddress hj
  apply Nat.eq_of_testBit_eq
  intro i
  rw [BitVec.testBit_toNat, Field.getLsbD_get]
  simp only [gpEntryLength]
  by_cases h21 : i < 21
  · have h64 : i < 64 := by omega
    have h42 : 42 + i < 64 := by omega
    have hne : 42 + i ≠ 41 := by omega
    rw [getLsbD_gpEntry address n h42, hhigh (42 + i) (by omega)]
    simp [h21, h64, hne]
  · have hbit : n.testBit i = false :=
      Nat.testBit_lt_two_pow (hn.trans_le (Nat.pow_le_pow_right (by decide) (Nat.not_lt.mp h21)))
    simp [h21, hbit]

/-- The fetch does not wait, if the number does not reach into that field. -/
theorem gpEntrySync_gpEntry (haddress : address.toNat < 2 ^ 40) (hn : n < 2 ^ 21) :
    gpEntrySync.get (fun _ => gpEntry address n) = 0 := by
  have hhigh : ∀ j, 40 ≤ j → address.getLsbD j = false := fun j hj => getLsbD_eq_false haddress hj
  apply BitVec.eq_of_getLsbD_eq
  intro i hi
  rw [Field.getLsbD_get]
  simp only [gpEntrySync]
  by_cases h0 : i = 0
  · subst h0
    have hbit : n.testBit 21 = false := Nat.testBit_lt_two_pow hn
    rw [getLsbD_gpEntry address n (by decide), hhigh (63 + 0) (by decide)]
    simp [hbit]
  · have h1 : ¬i < 1 := by omega
    simp [h1]

end Decoded

/-- **An entry decodes to what it was made of, if and only if** the address has 40 bits and the
number 21. -/
theorem gpEntryDecodes_iff {address : NvU64} (n : ℕ) (haligned : address.toNat % 4 = 0) :
    GpEntryDecodes (gpEntry address n) address n ↔ address.toNat < 2 ^ 40 ∧ n < 2 ^ 21 := by
  constructor
  · rintro ⟨haddress, -, hlength, -⟩
    constructor
    · have hget : (gpEntryGet.get fun _ => gpEntry address n).toNat < 2 ^ 38 := by
        rw [Field.toNat_get (by unfold gpEntryGet Field.Fits; decide)]
        exact Nat.mod_lt _ (by decide)
      rw [← haddress, BitVec.toNat_shiftLeft, Nat.shiftLeft_eq]
      omega
    · rw [← hlength, Field.toNat_get (by unfold gpEntryLength Field.Fits; decide)]
      exact Nat.mod_lt _ (by decide)
  · rintro ⟨haddress, hn⟩
    exact ⟨gpEntryGet_gpEntry n haddress haligned, gpEntryLevel_gpEntry address n,
      gpEntryLength_gpEntry haddress hn, gpEntrySync_gpEntry haddress hn⟩

/-! ## Submissions -/

/-- Addresses from the heap are whole pages. -/
theorem nextVa_mod (v : Vm) : (v.nextVa (4 <<< 10)).toNat % 4096 = 0 := by
  unfold Vm.nextVa
  have halign : ((4 <<< 10 : NvU64)).toNat = 4096 := rfl
  have hslack : (v.uvmVaddr % (4 <<< 10)).toNat = v.uvmVaddr.toNat % 4096 := BitVec.toNat_umod
  have hlt := Nat.mod_lt v.uvmVaddr.toNat (show 0 < 4096 by decide)
  split_ifs with hzero
  · have hsub : ((4 <<< 10 : NvU64) - v.uvmVaddr % (4 <<< 10)).toNat =
        4096 - v.uvmVaddr.toNat % 4096 := by
      rw [BitVec.toNat_sub_of_le (by rw [BitVec.le_def, hslack, halign]; omega), hslack, halign]
    rw [BitVec.toNat_add, hsub]
    omega
  · rw [not_not.mp hzero] at hslack
    exact hslack.symm

/-- Where a submission puts its words. -/
def Host.submitIdx (h : Host) (type : QueueType) : ℕ :=
  if h.fitsPage type (commandWords (h.queue.commandBuffer type)).length then
    (h.queue.page type).commandWriteIdx
  else 0

/-- **The ring entry of a submission decodes to it, if and only if** the buffer is shorter than a
page and the address of its words has 40 bits, for any page that the heap has handed out. -/
theorem ring_entry_decodes_iff {h h' : Host} {type : QueueType} {v : Vm}
    (hpage : (h.queue.page type).commandQueueSpace = v.nextVa (4 <<< 10))
    (hne : h.queue.commandBuffer type ≠ [])
    (hsubmit : call (submitToFifo type) h = (.ok (), h')) :
    GpEntryDecodes ((h'.ctx.gpfifo type).ring
        ((h.ctx.gpfifo type).putValue % (h.ctx.gpfifo type).entriesCount))
      ((h.queue.page type).wordAddress (h.submitIdx type))
      (commandWords (h.queue.commandBuffer type)).length ↔
    ((h.queue.page type).wordAddress (h.submitIdx type)).toNat < 2 ^ 40 ∧
      (commandWords (h.queue.commandBuffer type)).length < maxCmdQueuePageSize := by
  have hsubmitted : h' = h.submitted type := by
    cases hmay : h.maySubmit type (commandWords (h.queue.commandBuffer type)).length with
    | true =>
      have hok : wp (submitToFifo type) (fun _ t => t = h.submitted type) (fun _ _ => True) h :=
        (wp_submitToFifo_of_maySubmit hne hmay).mpr rfl
      exact (wp_of_call hsubmit).mp hok
    | false =>
      have hfull : wp (submitToFifo type) (fun _ _ => False) (fun _ _ => True) h :=
        (wp_submitToFifo_of_full hne hmay).mpr trivial
      exact ((wp_of_call hsubmit).mp hfull).elim
  have haligned : ((h.queue.page type).wordAddress (h.submitIdx type)).toNat % 4 = 0 := by
    have hmod := nextVa_mod v
    rw [CommandQueuePage.wordAddress, hpage, BitVec.toNat_add, BitVec.toNat_mul]
    have h4 : (4 : NvU64).toNat = 4 := rfl
    rw [h4]
    omega
  rw [hsubmitted, submitted_ring]
  exact gpEntryDecodes_iff _ haligned

/-- A stream whose DMA buffer is `n` methods of two words, for a new page. -/
def twoWordMethods (n : ℕ) : Host :=
  { sampleStream with queue := { sampleStream.queue with
      dmaQueuePage := { commandQueueSpace := uvmHeapStart }
      dmaCommandBuffer := List.replicate n ⟨methodHeader 4 nvc6b5LaunchDma 1, [0x14], none⟩ } }

theorem length_twoWordMethods (n : ℕ) :
    (commandWords ((twoWordMethods n).queue.commandBuffer .dma)).length = 2 * n := by
  show (commandWords (List.replicate n _)).length = 2 * n
  induction n with
  | zero => rfl
  | succ n ih =>
    rw [List.replicate_succ, commandWords, List.flatMap_cons, List.length_append]
    rw [commandWords] at ih
    rw [ih, MethodCall.words, List.length_cons, List.length_singleton]
    omega

theorem call_twoWordMethods {n : ℕ} (hn : n ≠ 0) (hle : 2 * n ≤ maxCmdQueuePageSize) :
    call (submitToFifo .dma) (twoWordMethods n) = (.ok (), (twoWordMethods n).submitted .dma) := by
  have hne : (twoWordMethods n).queue.commandBuffer .dma ≠ [] := by
    show List.replicate n _ ≠ []
    simpa using hn
  have hmay : (twoWordMethods n).maySubmit .dma
      (commandWords ((twoWordMethods n).queue.commandBuffer .dma)).length = true := by
    have hfits : (twoWordMethods n).fitsPage .dma (2 * n) = true := by
      show decide (0 + 2 * n ≤ maxCmdQueuePageSize) = true
      simpa using hle
    rw [length_twoWordMethods, Host.maySubmit, hfits, Bool.true_or]
  have hok : wp (submitToFifo .dma) (fun _ h' => h' = (twoWordMethods n).submitted .dma)
      (fun _ _ => False) (twoWordMethods n) :=
    (wp_submitToFifo_of_maySubmit hne hmay).mpr rfl
  obtain ⟨_, h', hcall, rfl⟩ := exists_ok_of_wp hok
  exact hcall

theorem page_twoWordMethods (n : ℕ) : ((twoWordMethods n).queue.page .dma).commandQueueSpace =
    ({ uvmVaddr := uvmHeapStart } : Vm).nextVa (4 <<< 10) := by
  show uvmHeapStart = _
  decide +kernel

theorem ring_entry_decodes_iff_sample :
    GpEntryDecodes ((((twoWordMethods 1).submitted .dma).ctx.gpfifo .dma).ring
        (((twoWordMethods 1).ctx.gpfifo .dma).putValue %
          ((twoWordMethods 1).ctx.gpfifo .dma).entriesCount))
      (((twoWordMethods 1).queue.page .dma).wordAddress ((twoWordMethods 1).submitIdx .dma))
      (commandWords ((twoWordMethods 1).queue.commandBuffer .dma)).length ↔
    (((twoWordMethods 1).queue.page .dma).wordAddress
        ((twoWordMethods 1).submitIdx .dma)).toNat < 2 ^ 40 ∧
      (commandWords ((twoWordMethods 1).queue.commandBuffer .dma)).length < maxCmdQueuePageSize :=
  ring_entry_decodes_iff (page_twoWordMethods 1) (List.cons_ne_nil _ _)
    (call_twoWordMethods (by decide) (by decide))

/-- **A buffer of a whole page** has no length in its entry. -/
theorem full_page_misread : ∃ (h h' : Host) (v : Vm),
    (h.queue.page .dma).commandQueueSpace = v.nextVa (4 <<< 10) ∧
    h.queue.commandBuffer .dma ≠ [] ∧
    (commandWords (h.queue.commandBuffer .dma)).length ≤ maxCmdQueuePageSize ∧
    call (submitToFifo .dma) h = (.ok (), h') ∧
    ¬GpEntryDecodes ((h'.ctx.gpfifo .dma).ring
        ((h.ctx.gpfifo .dma).putValue % (h.ctx.gpfifo .dma).entriesCount))
      ((h.queue.page .dma).wordAddress (h.submitIdx .dma))
      (commandWords (h.queue.commandBuffer .dma)).length := by
  have hlength := length_twoWordMethods (2 ^ 20)
  refine ⟨twoWordMethods (2 ^ 20), (twoWordMethods (2 ^ 20)).submitted .dma, _,
    page_twoWordMethods _, ?_, by rw [hlength]; decide,
    call_twoWordMethods (by decide) (by decide), fun hdecodes => ?_⟩
  · intro hnil
    rw [hnil] at hlength
    exact absurd hlength (by decide)
  · rw [submitted_ring] at hdecodes
    have haddress : ((twoWordMethods (2 ^ 20)).queue.page .dma).wordAddress
        ((twoWordMethods (2 ^ 20)).submitIdx .dma) = uvmHeapStart := by
      have hidx : (twoWordMethods (2 ^ 20)).submitIdx .dma = 0 := ite_self _
      rw [hidx]
      decide +kernel
    change GpEntryDecodes (gpEntry (((twoWordMethods (2 ^ 20)).queue.page .dma).wordAddress
      ((twoWordMethods (2 ^ 20)).submitIdx .dma)) _) _ _ at hdecodes
    rw [haddress, hlength] at hdecodes
    exact absurd ((gpEntryDecodes_iff _ (by decide)).mp hdecodes).2 (by decide)

end LibreCuda
