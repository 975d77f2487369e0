import LibreCuda.Runtime.CopyFootprint
import Mathlib.Data.Finite.Prod

/-! # What a copy leaves in memory

The threads of all kernels of a copy run in any interleaving, also with each other.

* **`memcpy_copies_iff`**: every byte is stored, only from its own offset, and ends up with what was
  at the source, exactly for sizes below 256 MiB.

From 256 MiB on threads store behind the destination. Where the source is there, they spoil it
before it has been copied. From 16 TiB on the last blocks are not copied at all. -/

namespace LibreCuda

open Exec Runs Threads

/-- No byte belongs to both buffers. -/
def DisjointBuffers (dst src size : NvU64) : Prop :=
  ∀ a < size.toNat, ∀ b < size.toNat, dst + BitVec.ofNat 64 a ≠ src + BitVec.ofNat 64 b

/-- A copy of the size covers every byte, each from its own offset; between disjoint buffers it
leaves the source in the destination, whatever the schedule. -/
structure CopiesAll (size : NvU64) : Prop where
  covered : ∀ dst src async, ∀ o < size.toNat, ∃ i, ∃ c ∈ memcpyCopies dst src size async i,
    ∃ j < c.bytes, c.dstAt j = dst + BitVec.ofNat 64 o
  matched : ∀ dst src async i, ∀ c ∈ memcpyCopies dst src size async i, ∀ j < c.bytes,
    c.srcAt j - src = c.dstAt j - dst
  copied : ∀ dst src async, DisjointBuffers dst src size → ∀ mem schedule m,
    exec Machine.step (Machine.start mem (memcpyCopies dst src size async)) schedule = some m →
    m.Finished → ∀ o < size.toNat, m.mem (dst + BitVec.ofNat 64 o) = mem (src + BitVec.ofNat 64 o)

section Matched

variable {dst src size : NvU64} {async : Bool} {i : CopyKernel × ThreadId} {c : Copy}

/-- A copy at an offset takes every byte from its own offset. -/
theorem srcAt_sub (hc : c ∈ memcpyCopies dst src size async i) (j : ℕ) :
    c.srcAt j - src = c.dstAt j - dst := by
  obtain ⟨o, bytes, rfl, -⟩ := exists_copyAt hc
  rw [dstAt_copyAt, srcAt_copyAt, BitVec.add_comm dst, BitVec.add_comm src, BitVec.add_sub_cancel,
    BitVec.add_sub_cancel]

end Matched

/-! ## Coverage -/

/-- The thread with a number in a grid of one row. -/
def lineThread (n : ℕ) : ThreadId :=
  ⟨⟨BitVec.ofNat 32 (n / 256), 0, 0⟩, BitVec.ofNat 32 (n % 256)⟩

theorem number_lineThread {n : ℕ} (hn : n < 2 ^ 32) : (lineThread n).number = n := by
  show 256 * (BitVec.ofNat 32 (n / 256)).toNat + (BitVec.ofNat 32 (n % 256)).toNat = n
  rw [BitVec.toNat_ofNat, BitVec.toNat_ofNat]
  omega

theorem threadIdxX_lineThread (n : ℕ) : (lineThread n).threadIdxX.toNat < 256 := by
  show (BitVec.ofNat 32 (n % 256)).toNat < 256
  rw [BitVec.toNat_ofNat]
  omega

section Covered

variable {size : NvU64} (dst src : NvU64) (async : Bool) {o : ℕ}

/-- Some copy stores the byte at an offset. -/
def Covered (dst src size : NvU64) (async : Bool) (o : ℕ) : Prop :=
  ∃ i, ∃ c ∈ memcpyCopies dst src size async i, ∃ j < c.bytes, c.dstAt j = dst + BitVec.ofNat 64 o

/-- Copying some bytes at an offset covers each of them. -/
theorem covered_of_copyAt (i : CopyKernel × ThreadId) (o' bytes : ℕ)
    (hc : copyAt dst src o' bytes ∈ memcpyCopies dst src size async i) (hle : o' ≤ o)
    (hlt : o < o' + bytes) : Covered dst src size async o := by
  refine ⟨i, _, hc, o - o', show o - o' < bytes by omega, ?_⟩
  rw [dstAt_copyAt, Nat.add_sub_cancel' hle]

/-- The first row of blocks covers the whole blocks. -/
theorem covered_highBW (hbig : 2 ^ 20 < size.toNat) (hfew : size.toNat < 2 ^ 44)
    (ho : o < 4096 * (size.toNat / 4096)) : Covered dst src size async o := by
  refine covered_of_copyAt dst src async
    (.highBW, ⟨⟨BitVec.ofNat 32 (o / 4096), 0, 0⟩, BitVec.ofNat 32 (o % 1024 / 4)⟩)
    (4 * (o / 4)) 4 (mem_copies_highBW.mpr ?_) (by omega) (by omega)
  show 2 ^ 20 < size.toNat ∧ (BitVec.ofNat 32 (o / 4096)).toNat < _ ∧ 0 < _ ∧ 0 = 0 ∧
    (BitVec.ofNat 32 (o % 1024 / 4)).toNat < 256 ∧ ∃ i < 4, _ = copyAt dst src
      (4096 * ((0 * (size.toNat / 4096) + (BitVec.ofNat 32 (o / 4096)).toNat) % 2 ^ 32) +
        4 * (BitVec.ofNat 32 (o % 1024 / 4)).toNat + 1024 * i) 4
  rw [BitVec.toNat_ofNat, BitVec.toNat_ofNat]
  refine ⟨hbig, by omega, by omega, rfl, by omega, o % 4096 / 1024, by omega, ?_⟩
  congr 1
  omega

/-- The words behind the whole blocks are covered. -/
theorem covered_lowLatency (hlaunch : size.toNat ≤ 2 ^ 20 ∨ size.toNat % 4096 ≠ 0)
    (hle : wordsStart size ≤ o) (ho : o < wordsStart size + 4 * ((size.toNat - wordsStart size) / 4)) :
    Covered dst src size async o := by
  have hfew : size.toNat - wordsStart size ≤ 2 ^ 20 := by
    unfold wordsStart
    split_ifs <;> omega
  have hnumber : (lineThread ((o - wordsStart size) / 4)).number = (o - wordsStart size) / 4 :=
    number_lineThread (by omega)
  refine covered_of_copyAt dst src async
    (.lowLatency, lineThread ((o - wordsStart size) / 4))
    (wordsStart size + 4 * ((o - wordsStart size) / 4)) 4
    (mem_copies_lowLatency.mpr ⟨hlaunch, rfl, rfl, threadIdxX_lineThread _, ?_, ?_⟩) (by omega)
    (by omega)
  · rw [hnumber]
    omega
  · rw [hnumber]

/-- And so are the bytes. -/
theorem covered_trailing (hlaunch : size.toNat % 4 ≠ 0) (hle : 4096 * (size.toNat / 4096) ≤ o)
    (ho : o < size.toNat) : Covered dst src size async o := by
  have hnumber : (lineThread (o - 4096 * (size.toNat / 4096))).number =
      o - 4096 * (size.toNat / 4096) := number_lineThread (by omega)
  refine covered_of_copyAt dst src async
    (.trailing, lineThread (o - 4096 * (size.toNat / 4096))) o 1
    (mem_copies_trailing.mpr ⟨hlaunch, rfl, rfl, threadIdxX_lineThread _, ?_, ?_⟩) le_rfl (by omega)
  · rw [hnumber]
    omega
  · rw [hnumber, Nat.add_sub_cancel' hle]

/-- **Below 16 TiB** every byte is covered. -/
theorem covered_of_lt (hfew : size.toNat < 2 ^ 44) (ho : o < size.toNat) :
    Covered dst src size async o := by
  by_cases hbig : 2 ^ 20 < size.toNat
  · have hstart : wordsStart size = 4096 * (size.toNat / 4096) := by
      rw [wordsStart, if_pos hbig]
    by_cases hblocks : o < 4096 * (size.toNat / 4096)
    · exact covered_highBW dst src async hbig hfew hblocks
    · by_cases hwords : o < wordsStart size + 4 * ((size.toNat - wordsStart size) / 4)
      · exact covered_lowLatency dst src async (Or.inr (by omega)) (by omega) hwords
      · exact covered_trailing dst src async (by omega) (by omega) ho
  · have hstart : wordsStart size = 0 := by
      rw [wordsStart, if_neg hbig]
    by_cases hwords : o < wordsStart size + 4 * ((size.toNat - wordsStart size) / 4)
    · exact covered_lowLatency dst src async (Or.inl (Nat.not_lt.mp hbig)) (by omega) hwords
    · exact covered_trailing dst src async (by omega) (by omega) ho

/-- From 16 TiB on some byte is not covered. -/
theorem exists_not_covered (hmany : 2 ^ 44 ≤ size.toNat) :
    ∃ o < size.toNat, ¬ Covered dst src size async o := by
  have hsize := size.isLt
  have hstart : wordsStart size = 4096 * (size.toNat / 4096) := by
    rw [wordsStart, if_pos (by omega)]
  -- an offset among the whole blocks, where no block with a number of 32 bits works
  obtain ⟨o, ho, hfree⟩ : ∃ o < 4096 * (size.toNat / 4096),
      size.toNat / 4096 % 2 ^ 32 = 0 ∨ 2 ^ 44 ≤ o := by
    by_cases hone : size.toNat / 4096 = 2 ^ 32
    · exact ⟨0, by omega, Or.inl (by omega)⟩
    · exact ⟨2 ^ 44, by omega, Or.inr le_rfl⟩
  refine ⟨o, by omega, ?_⟩
  rintro ⟨⟨kernel, t⟩, c, hc, j, hj, heq⟩
  have hoff : ∀ a, a < 2 ^ 64 → dst + BitVec.ofNat 64 a = dst + BitVec.ofNat 64 o → a = o := by
    intro a ha heq
    have hnat := congrArg BitVec.toNat ((BitVec.add_right_inj dst).mp heq)
    rw [BitVec.toNat_ofNat, BitVec.toNat_ofNat, Nat.mod_eq_of_lt ha, Nat.mod_eq_of_lt (by omega)]
      at hnat
    exact hnat
  cases kernel with
  | highBW =>
    obtain ⟨-, hx, -, -, htx, i, hi, rfl⟩ := mem_copies_highBW.mp hc
    have hj' : j < 4 := hj
    have hn := Nat.mod_lt (t.blockIdx.y.toNat * (size.toNat / 4096) + t.blockIdx.x.toNat)
      (show 0 < 2 ^ 32 by omega)
    rw [dstAt_copyAt] at heq
    have hsame := hoff _ (by omega) heq
    omega
  | lowLatency =>
    obtain ⟨-, -, -, -, hn, rfl⟩ := mem_copies_lowLatency.mp hc
    have hj' : j < 4 := hj
    rw [dstAt_copyAt] at heq
    have hsame := hoff _ (by omega) heq
    omega
  | trailing =>
    obtain ⟨-, -, -, -, hn, rfl⟩ := mem_copies_trailing.mp hc
    have hj' : j < 1 := hj
    rw [dstAt_copyAt] at heq
    have hsame := hoff _ (by omega) heq
    omega

end Covered

/-! ## Copies that stay inside their buffers -/

/-- Threads that stay inside disjoint buffers do not meet. -/
theorem apart_memcpyCopies {dst src size : NvU64} {async : Bool}
    (hinside : StaysInside dst src size async) (hdisjoint : DisjointBuffers dst src size) :
    Apart (memcpyCopies dst src size async) (fun x => x - dst + src) := by
  refine ⟨fun i c hc j hj => ?_, fun i c hc j hj => ?_, fun i c hc => ?_⟩
  · have hsub := srcAt_sub hc j
    show c.srcAt j = c.dstAt j - dst + src
    rw [← hsub, BitVec.sub_add_cancel]
  · rintro ⟨i', c', hc', j', hj', heq⟩
    obtain ⟨-, hs⟩ := hinside i c hc j hj
    obtain ⟨hd, -⟩ := hinside i' c' hc' j' hj'
    refine hdisjoint _ hd _ hs ?_
    rw [BitVec.ofNat_toNat, BitVec.ofNat_toNat, BitVec.setWidth_eq, BitVec.setWidth_eq,
      BitVec.add_comm, BitVec.sub_add_cancel, BitVec.add_comm, BitVec.sub_add_cancel, heq]
  · obtain ⟨o, bytes, rfl, hfour, -⟩ := exists_copyAt hc
    show bytes ≤ 2 ^ 64
    omega

/-- A copy below 256 MiB stays inside its buffers. -/
theorem staysInside_of_lt {size : NvU64} (dst src : NvU64) (async : Bool)
    (hsmall : size.toNat < 2 ^ 28) : StaysInside dst src size async := by
  intro i c hc j hj
  obtain ⟨o, bytes, rfl, hfour, hin⟩ := exists_copyAt hc
  have hj' : j < bytes := hj
  have hend : o + bytes ≤ size.toNat := hin.elim id fun hin => hin.2 (by omega)
  obtain ⟨hd, hs⟩ := toNat_copyAt_sub dst src bytes (show o + j < 2 ^ 64 by omega)
  rw [hd, hs]
  omega

/-- **Below 256 MiB** a copy does what it should. -/
theorem copiesAll_of_lt {size : NvU64} (hsmall : size.toNat < 2 ^ 28) : CopiesAll size := by
  refine ⟨fun dst src async o ho => covered_of_lt dst src async (by omega) ho,
    fun dst src async i c hc j _ => srcAt_sub hc j, fun dst src async hdisjoint => ?_⟩
  intro mem schedule m hrun hm o ho
  obtain ⟨i, c, hc, j, hj, heq⟩ := covered_of_lt dst src async (by omega) ho
  have happart := apart_memcpyCopies (staysInside_of_lt dst src async hsmall) hdisjoint
  rw [copied_of_finished happart hrun hm ⟨i, c, hc, j, hj, heq.symm⟩, BitVec.add_comm dst,
    BitVec.add_sub_cancel, BitVec.add_comm]

/-! ## An overrun that spoils the source -/

section Overrun

variable {size : NvU64} (dst : NvU64)

/-- How a value spreads when the source is right behind the destination: an offset gets it from the
one a size further up. -/
theorem feeds_adjacent (hfew : size.toNat < 2 ^ 44) (async : Bool) (i : CopyKernel × ThreadId)
    {p q : ℕ → Prop} (h : ∀ a, p a ∨ q a → p (size.toNat + a)) :
    Feeds (memcpyCopies dst (dst + size) size async i) (fun x => p (x - dst).toNat)
      (fun x => q (x - dst).toNat) := by
  intro c hc j hj hx
  obtain ⟨o, bytes, rfl, hfour, hin⟩ := exists_copyAt hc
  have hj' : j < bytes := hj
  obtain ⟨hd, -⟩ := toNat_copyAt_sub dst (dst + size) bytes
    (show o + j < 2 ^ 64 by omega)
  have hs : ((copyAt dst (dst + size) o bytes).srcAt j - dst).toNat = size.toNat + (o + j) := by
    rw [srcAt_copyAt, BitVec.add_assoc, BitVec.add_comm dst, BitVec.add_sub_cancel,
      BitVec.toNat_add, BitVec.toNat_ofNat]
    omega
  show p ((copyAt dst (dst + size) o bytes).srcAt j - dst).toNat
  replace hx : p ((copyAt dst (dst + size) o bytes).dstAt j - dst).toNat ∨
    q ((copyAt dst (dst + size) o bytes).dstAt j - dst).toNat := hx
  rw [hd] at hx
  rw [hs]
  exact h _ hx

/-- All copies are small. -/
theorem bytes_le {src : NvU64} {async : Bool} (i : CopyKernel × ThreadId) :
    ∀ c ∈ memcpyCopies dst src size async i, c.bytes ≤ 2 ^ 64 := by
  intro c hc
  obtain ⟨o, bytes, rfl, hfour, -⟩ := exists_copyAt hc
  show bytes ≤ 2 ^ 64
  omega

/-- An address at an offset. -/
theorem eq_add_of_toNat_sub {x : NvU64} {o : ℕ} (h : (x - dst).toNat = o) :
    x = dst + BitVec.ofNat 64 o := by
  rw [← h, BitVec.ofNat_toNat, BitVec.setWidth_eq, BitVec.add_comm, BitVec.sub_add_cancel]

/-- The overrun works behind the whole blocks. -/
theorem not_covered_by_overrun (async : Bool) (hrow : 2 ^ 28 ≤ size.toNat)
    (hfew : size.toNat < 2 ^ 44) {src : NvU64} {c : Copy}
    (hc : c ∈ memcpyCopies dst src size async (.highBW, overrunThread)) {j : ℕ} (hj : j < c.bytes) :
    4096 * (size.toNat / 4096) ≤ (c.dstAt j - dst).toNat := by
  obtain ⟨-, -, -, -, -, k, hk, rfl⟩ := mem_copies_highBW.mp hc
  have hj' : j < 4 := hj
  show _ ≤ ((copyAt dst src (4096 * ((1 * (size.toNat / 4096) + 0) % 2 ^ 32) + 4 * 255 + 1024 * k)
    4).dstAt j - dst).toNat
  rw [(toNat_copyAt_sub dst src _ (by omega)).1]
  omega

instance : Finite ThreadId := by
  refine @Finite.of_injective ThreadId (Fin (2 ^ 32) × Fin (2 ^ 32) × Fin (2 ^ 32) × Fin (2 ^ 32)) _
    (fun t => (t.blockIdx.x.toFin, t.blockIdx.y.toFin, t.blockIdx.z.toFin, t.threadIdxX.toFin)) ?_
  rintro ⟨⟨x, y, z⟩, tx⟩ ⟨⟨x', y', z'⟩, tx'⟩ h
  simp only [Prod.mk.injEq, BitVec.toFin_inj] at h
  obtain ⟨rfl, rfl, rfl, rfl⟩ := h
  rfl

instance : Finite CopyKernel := by
  refine @Finite.of_injective CopyKernel (Fin 3) _
    (fun | .highBW => 0 | .lowLatency => 1 | .trailing => 2) ?_
  intro a b h
  cases a <;> cases b <;> first | rfl | cases h

/-- **From 256 MiB to 16 TiB** a schedule that starts with the overrun brings a byte from behind the
source into the destination. -/
theorem overrun_spoils (hrow : 2 ^ 28 ≤ size.toNat) (hfew : size.toNat < 2 ^ 44) (async : Bool) :
    ∃ mem schedule m, exec Machine.step
        (Machine.start mem (memcpyCopies dst (dst + size) size async)) schedule = some m ∧
      m.Finished ∧ ∃ o < size.toNat,
        m.mem (dst + BitVec.ofNat 64 o) ≠ mem (dst + size + BitVec.ofNat 64 o) := by
  obtain ⟨copies, hcopies⟩ : ∃ copies, copies = memcpyCopies dst (dst + size) size async := ⟨_, rfl⟩
  -- the byte that the overrun stores last, and where it is in the source
  obtain ⟨e, he⟩ : ∃ e, e = 4096 * (size.toNat / 4096) + 4095 := ⟨_, rfl⟩
  obtain ⟨mem, hmem⟩ : ∃ mem : Bytes.Memory, mem = fun x =>
    if size.toNat ≤ (x - dst).toNat ∧ (x - dst).toNat < 2 * size.toNat then 0 else 1 := ⟨_, rfl⟩
  have hfeeds : ∀ i {p q : ℕ → Prop}, (∀ a, p a ∨ q a → p (size.toNat + a)) →
      Feeds (copies i) (fun x => p (x - dst).toNat) (fun x => q (x - dst).toNat) := by
    intro i p q h
    rw [hcopies]
    exact feeds_adjacent dst hfew async i h
  have hsmall : ∀ i, ∀ c ∈ copies i, c.bytes ≤ 2 ^ 64 := by
    rw [hcopies]
    exact bytes_le dst
  have hbehind : Holds 1 (fun x => 2 * size.toNat ≤ (x - dst).toNat) mem := by
    intro x hx
    rw [hmem]
    exact if_neg fun hin => absurd hin.2 (Nat.not_lt.mpr hx)
  -- the overrun: what is behind the source reaches its first block
  obtain ⟨schedule₁, m₁, hrun₁, hrest₁, hspread₁⟩ := exec_thread (m := Machine.start mem copies)
    (fun i => rfl) (CopyKernel.highBW, overrunThread) (hsmall _)
  obtain ⟨hkeep₁, hnew₁⟩ := hspread₁ 1 _ _ (hfeeds (.highBW, overrunThread)
    (p := fun a => 2 * size.toNat ≤ a) (q := fun a => a = e) fun a ha => by omega) hbehind
  have hsource : Holds 1 (fun x => 2 * size.toNat ≤ (x - dst).toNat ∨ (x - dst).toNat = e)
      m₁.mem := by
    rintro x (hx | hx)
    · exact hkeep₁ x hx
    · have hmem := overrun_mem dst (dst + size) async hrow hfew
      refine hnew₁ x hx (Or.inr ⟨_, hcopies ▸ hmem, 3, show 3 < 4 by omega, ?_⟩)
      rw [dstAt_copyAt, ← he]
      exact eq_add_of_toNat_sub dst hx
  -- the thread for that byte: it reaches the destination
  obtain ⟨i, c, hc, j, hj, hat⟩ := covered_of_lt dst (dst + size) async hfew
    (show e - size.toNat < size.toNat by omega)
  have hlow : (c.dstAt j - dst).toNat = e - size.toNat := by
    rw [hat, BitVec.add_comm dst, BitVec.add_sub_cancel, BitVec.toNat_ofNat]
    omega
  have hother : i ≠ (.highBW, overrunThread) := by
    rintro rfl
    have hhigh := not_covered_by_overrun dst async hrow hfew hc hj
    omega
  have hstill : Function.update copies (.highBW, overrunThread) [] i = copies i :=
    Function.update_of_ne hother ..
  obtain ⟨schedule₂, m₂, hrun₂, hrest₂, hspread₂⟩ := exec_thread hrest₁ i (by
    rw [hstill]
    exact hsmall i)
  rw [hstill] at hspread₂
  obtain ⟨hkeep₂, hnew₂⟩ := hspread₂ 1 _ _ (hfeeds i
    (p := fun a => 2 * size.toNat ≤ a ∨ a = e) (q := fun a => a = e - size.toNat)
    fun a ha => by omega) hsource
  have hdest : Holds 1 (fun x => (2 * size.toNat ≤ (x - dst).toNat ∨ (x - dst).toNat = e) ∨
      (x - dst).toNat = e - size.toNat) m₂.mem := by
    rintro x (hx | hx)
    · exact hkeep₂ x hx
    · refine hnew₂ x hx (Or.inr ⟨c, hcopies ▸ hc, j, hj, ?_⟩)
      rw [hat]
      exact eq_add_of_toNat_sub dst hx
  -- all the others: the byte stays there
  have hless : ∀ k, Function.update (Function.update copies (.highBW, overrunThread) []) i [] k = [] ∨
      Function.update (Function.update copies (.highBW, overrunThread) []) i [] k = copies k := by
    intro k
    rw [Function.update_apply, Function.update_apply]
    split_ifs
    · exact Or.inl rfl
    · exact Or.inl rfl
    · exact Or.inr rfl
  obtain ⟨schedule₃, m₃, hrun₃, hfinished, hspread₃⟩ := exists_finished hrest₂ (by
    intro k c hc
    rcases hless k with hnil | hsame
    · rw [hnil] at hc
      cases hc
    · exact hsmall k c (hsame ▸ hc))
  refine ⟨mem, schedule₁ ++ (schedule₂ ++ schedule₃), m₃, hcopies ▸
    (exec_append hrun₁ _).trans ((exec_append hrun₂ _).trans hrun₃), hfinished, e - size.toNat,
    by omega, ?_⟩
  have hone : m₃.mem (dst + BitVec.ofNat 64 (e - size.toNat)) = 1 := by
    refine hspread₃ 1 _ (fun k => ?_) hdest _ (Or.inr ?_)
    · rcases hless k with hnil | hsame
      · rw [hnil]
        exact fun c hc => by cases hc
      · rw [hsame]
        exact hfeeds k (p := fun a => (2 * size.toNat ≤ a ∨ a = e) ∨ a = e - size.toNat)
          (q := fun a => (2 * size.toNat ≤ a ∨ a = e) ∨ a = e - size.toNat) fun a ha => by omega
    · rw [← hat]
      exact hlow
  have hzero : mem (dst + size + BitVec.ofNat 64 (e - size.toNat)) = 0 := by
    rw [hmem]
    refine if_pos ?_
    rw [BitVec.add_assoc, BitVec.add_comm dst, BitVec.add_sub_cancel, BitVec.toNat_add,
      BitVec.toNat_ofNat]
    omega
  rw [hone, hzero]
  decide

/-- A source right behind the destination. -/
theorem disjointBuffers_adjacent (hfew : size.toNat < 2 ^ 44) :
    DisjointBuffers dst (dst + size) size := by
  intro a ha b hb heq
  rw [BitVec.add_assoc] at heq
  have hnat := congrArg BitVec.toNat ((BitVec.add_right_inj dst).mp heq)
  rw [BitVec.toNat_add, BitVec.toNat_ofNat, BitVec.toNat_ofNat] at hnat
  omega

end Overrun

/-- **A copy covers every byte and leaves the source in the destination exactly for sizes below
256 MiB.** The threads are those of all launches that the copy asks for, also of those that are
refused for their grids, as for sizes near 8 TiB. -/
theorem memcpy_copies_iff (size : NvU64) : CopiesAll size ↔ size.toNat < 2 ^ 28 := by
  refine ⟨fun h => Nat.not_le.mp fun hrow => ?_, copiesAll_of_lt⟩
  by_cases hfew : size.toNat < 2 ^ 44
  · obtain ⟨mem, schedule, m, hrun, hm, o, ho, hne⟩ := overrun_spoils 0 hrow hfew false
    exact hne (h.copied _ _ false (disjointBuffers_adjacent 0 hfew) mem schedule m hrun hm o ho)
  · obtain ⟨o, ho, hnot⟩ := exists_not_covered 0 0 false (Nat.not_lt.mp hfew)
    exact hnot (h.covered 0 0 false o ho)

/-- **A copy of 256 MiB to the buffer in front of its source** can leave something else there: all
launches succeed. -/
theorem memcpy_spoils_source :
    sampleCopyStream.copiesOnDevice 0x1010000000 0x1020000000 = true ∧
      (call (memcpyD2D sampleKernels 0x1010000000 0x1020000000 0x10000000 false)
        sampleCopyStream).1 = .ok () ∧
      DisjointBuffers 0x1010000000 0x1020000000 0x10000000 ∧
      (∃ mem schedule m, exec Machine.step
          (Machine.start mem (memcpyCopies 0x1010000000 0x1020000000 0x10000000 false)) schedule =
          some m ∧ m.Finished ∧ ∃ o < 0x10000000,
            m.mem (0x1010000000 + BitVec.ofNat 64 o) ≠ mem (0x1020000000 + BitVec.ofNat 64 o)) ∧
      ¬ CopiesAll 0x10000000 := by
  have hdisjoint : DisjointBuffers 0x1010000000 0x1020000000 0x10000000 :=
    disjointBuffers_adjacent 0x1010000000 (by decide)
  have hspoils := overrun_spoils 0x1010000000 (show 2 ^ 28 ≤ (0x10000000 : NvU64).toNat by decide)
    (by decide) false
  refine ⟨by decide +kernel, by decide +kernel, hdisjoint, hspoils, fun h => ?_⟩
  obtain ⟨mem, schedule, m, hrun, hm, o, ho, hne⟩ := hspoils
  exact hne (h.copied _ _ false hdisjoint mem schedule m hrun hm o ho)

end LibreCuda
