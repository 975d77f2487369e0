import LibreCuda.Driver.Replies
import LibreCuda.Runtime.Memcpy
import LibreCuda.Runtime.Memory
import Mathlib.Algebra.BigOperators.Group.List.Basic

/-! # The heap of one context

Device allocations, system allocations and channels take their addresses from the heap pointer of
the context, which only moves up. `isDevicePtr` compares addresses with it, and so is right about
the ranges as long as the pointer does not wrap.

* **`HeapCall`** is a call that takes addresses or gives memory back; **`HeapCall.Does`** is what it
  can do to the heap, whether it succeeds or fails.
* **`Heap.WellFormed`**: the ranges are aligned, ascend, are large enough and are recognised.
* **`heap_well_formed`**: they are, in every run that does not exhaust the address space;
  **`exhausted_heap`** is one that does, with requests of one byte. -/

namespace LibreCuda

open Exec Runs

/-! ## Calls -/

/-- A call that takes addresses from the heap of a context, or gives memory back. -/
inductive HeapCall
  | gpuAlloc (size : NvU64) (hugePages mapToCpu : Bool)
  | gpuSystemAlloc (size : NvU64) (mapToCpu : Bool)
  | registerChannel
  | gpuFree (va : NvU64)

/-- The bytes the caller asks for. -/
def HeapCall.requested : HeapCall → NvU64
  | .gpuAlloc size _ _ => size
  | .gpuSystemAlloc size _ => size
  | .registerChannel => 0x4000000
  | .gpuFree _ => 0

/-- A range of addresses of the heap, and what was asked for. -/
structure HeapRange where
  start : NvU64
  size : NvU64
  requested : NvU64
  alignment : NvU64
  deriving DecidableEq, Repr

/-- The end of the range. -/
def HeapRange.stop (r : HeapRange) : NvU64 := r.start + r.size

/-- The addresses of the range. -/
def HeapRange.Contains (r : HeapRange) (p : NvU64) : Prop := (p - r.start).toNat < r.size.toNat

/-- Make the call: the range it returns, if it returns one. A channel is registered at the addresses
in front of the heap pointer it leaves. -/
def HeapCall.run (c : HeapCall) : Exec Vm Failure (Option HeapRange) :=
  match c with
  | .gpuAlloc size hugePages mapToCpu => do
    let (va, _) ← LibreCuda.gpuAlloc size hugePages mapToCpu
    pure (some ⟨va, gpuAllocSize size hugePages, size, gpuAllocAlignment hugePages⟩)
  | .gpuSystemAlloc size mapToCpu => do
    let (va, _) ← LibreCuda.gpuSystemAlloc size mapToCpu
    pure (some ⟨va, size, size, (4 <<< 10 : NvU64)⟩)
  | .registerChannel => do
    createChannel
    let v ← get
    pure (some ⟨v.uvmVaddr - (0x4000000 : NvU64), 0x4000000, 0x4000000, (4 <<< 10 : NvU64)⟩)
  | .gpuFree va => do
    LibreCuda.gpuFree va
    pure none

/-- A context with its heap. -/
structure Heap where
  vm : Vm
  /-- Bookkeeping: the ranges that the calls returned, the newest first. -/
  ranges : List HeapRange := []

/-- The kernel answers the next system calls. -/
def Vm.answering (v : Vm) (replies : ℕ → SysReply) : Vm :=
  { v with sysCalls := 0, sysReply := replies }

/-- Make a call, which the kernel answers as it likes. -/
def Heap.step (h : Heap) (e : HeapCall × (ℕ → SysReply)) : Option Heap :=
  match call e.1.run (h.vm.answering e.2) with
  | (.ok r, vm) => some ⟨vm, r.toList ++ h.ranges⟩
  | (.error _, vm) => some ⟨vm, h.ranges⟩

/-- The heap of a new context. -/
def Heap.start : Heap := { vm := { uvmVaddr := uvmHeapStart } }

/-- **The ranges are well formed**: they start at multiples of their alignment, behind all ranges
handed out before, and are at least as large as requested; `isDevicePtr` accepts their addresses and
none from the heap pointer on. -/
structure Heap.WellFormed (h : Heap) : Prop where
  alignment : ∀ r ∈ h.ranges, r.alignment = (4 <<< 10 : NvU64) ∨ r.alignment = (2 <<< 20 : NvU64)
  aligned : ∀ r ∈ h.ranges, r.alignment.toNat ∣ r.start.toNat
  ordered : h.ranges.Pairwise fun r earlier =>
    earlier.start.toNat + earlier.size.toNat ≤ r.start.toNat
  enough : ∀ r ∈ h.ranges, r.requested.toNat ≤ r.size.toNat
  recognised : ∀ r ∈ h.ranges, ∀ p, r.Contains p → isDevicePtr h.vm p = true
  unallocated : ∀ p, h.vm.uvmVaddr ≤ p → isDevicePtr h.vm p = false

/-! ## What a call does -/

/-- The range a call takes from the heap. -/
def HeapCall.takes (v : Vm) : HeapCall → Option HeapRange
  | .gpuAlloc size hugePages _ => some ⟨v.nextVa (gpuAllocAlignment hugePages),
      gpuAllocSize size hugePages, size, gpuAllocAlignment hugePages⟩
  | .gpuSystemAlloc size _ => some ⟨v.nextVa (4 <<< 10 : NvU64), size, size, (4 <<< 10 : NvU64)⟩
  | .registerChannel =>
    some ⟨v.nextVa (4 <<< 10 : NvU64), 0x4000000, 0x4000000, (4 <<< 10 : NvU64)⟩
  | .gpuFree _ => none

/-- What a call does to the heap pointer and the host mapped ranges, and what it returns: nothing;
or it takes its range, and can map it to the host; or it frees the memory at an address. -/
inductive HeapCall.Does (c : HeapCall) (v v' : Vm) : Option HeapRange → Prop
  | nothing (heap : v'.uvmVaddr = v.uvmVaddr) (ptrs : v'.hostMappedPtrs = v.hostMappedPtrs) :
    c.Does v v' none
  | takes {r : HeapRange} {o : Option HeapRange} (takes : c.takes v = some r)
    (returns : o = none ∨ o = some r) (heap : v'.uvmVaddr = r.stop)
    (ptrs : v'.hostMappedPtrs = v.hostMappedPtrs ∨
      v'.hostMappedPtrs = v.hostMappedPtrs ++ [(r.start, r.stop)]) : c.Does v v' o
  | frees {va : NvU64} (heap : v'.uvmVaddr = v.uvmVaddr)
    (ptrs : v'.hostMappedPtrs = eraseMapped va v.hostMappedPtrs) : c.Does v v' none

/-- The host mapped ranges are as before. -/
def Vm.SamePtrs (v v' : Vm) : Prop := v'.hostMappedPtrs = v.hostMappedPtrs

instance : IsPreorder Vm Vm.SamePtrs where
  refl _ := rfl
  trans _ _ _ h h' := h'.trans h

theorem Vm.SameMemory.samePtrs {v v' : Vm} (h : v.SameMemory v') : v.SamePtrs v' := h.hostMappedPtrs

theorem keeps_rmAlloc_ptrs : Keeps Vm.SamePtrs rmAlloc := by
  refine (keeps_sysCall.mono fun _ _ => Vm.SameMemory.samePtrs).bind fun _ =>
    (keeps_require _ _).bind fun _ => (keeps_require _ _).bind fun _ => ?_
  exact Keeps.bind (keeps_modify fun _ => rfl) fun _ => keeps_pure _

theorem keeps_bumpAllocVirtualAddr_ptrs (size : NvU64) (alignment : NvU32) :
    Keeps Vm.SamePtrs (bumpAllocVirtualAddr size alignment) := by
  intro v
  refine wp_mono (wp_bumpAllocVirtualAddr size alignment v) (fun _ _ h => ?_) (fun _ _ => False.elim)
  rw [h.2]
  exact rfl

/-- A system allocation is not entered as host mapped, even where it is. -/
theorem keeps_gpuSystemAlloc_ptrs (size : NvU64) (mapToCpu : Bool) :
    Keeps Vm.SamePtrs (gpuSystemAlloc size mapToCpu) :=
  keeps_rmAlloc_ptrs.bind fun handle => (keeps_bumpAllocVirtualAddr_ptrs _ _).bind fun va =>
    (((keeps_memMapToCpu handle true).mono fun _ _ => Vm.SameMemory.samePtrs).onlyIf _).bind fun _ =>
      ((keeps_memUVMMap handle va).mono fun _ _ => Vm.SameMemory.samePtrs).bind fun _ =>
        keeps_pure _

theorem keeps_createChannel_ptrs : Keeps Vm.SamePtrs createChannel := by
  have hobject : Keeps Vm.SamePtrs rmObject := keeps_rmObject.mono fun _ _ => Vm.SameMemory.samePtrs
  exact hobject.bind fun _ => hobject.bind fun _ => hobject.bind fun _ => hobject.bind fun _ =>
    (keeps_require _ _).bind fun _ => (keeps_bumpAllocVirtualAddr_ptrs _ _).bind fun _ =>
      keeps_uvmIoctl.mono fun _ _ => Vm.SameMemory.samePtrs

/-- An allocation that failed took its range or not. -/
theorem HeapCall.Does.of_leaked {c : HeapCall} {v v' : Vm} {r : HeapRange}
    (htakes : c.takes v = some r) (hleak : v.Leaked v' r.start r.size) (hptrs : v.SamePtrs v') :
    c.Does v v' none := by
  rcases hleak.uvmVaddr with hheap | hheap
  · exact .nothing hheap hptrs
  · exact .takes htakes (Or.inl rfl) hheap (Or.inl hptrs)

/-- **`gpuAlloc`** -/
theorem wp_run_gpuAlloc (v : Vm) (size : NvU64) (hugePages mapToCpu : Bool) :
    wp (HeapCall.gpuAlloc size hugePages mapToCpu).run
      (fun r v' => (HeapCall.gpuAlloc size hugePages mapToCpu).Does v v' r)
      (fun _ v' => (HeapCall.gpuAlloc size hugePages mapToCpu).Does v v' none) v := by
  rw [HeapCall.run, wp_bind]
  refine wp_mono (wp_and (wp_gpuAlloc size hugePages mapToCpu v)
    (wp_and (wp_gpuAlloc_stopped v size hugePages mapToCpu)
      (wp_gpuAlloc_moved v size hugePages mapToCpu))) (fun r v' h => ?_) (fun _ v' h => ?_)
  · obtain ⟨⟨hva, halloc⟩, ⟨-, -, hunmapped, hmapped⟩, -⟩ := h
    rw [wp_pure, hva]
    refine .takes rfl (Or.inr rfl) (hva ▸ halloc.uvmVaddr) ?_
    cases mapToCpu with
    | true => exact Or.inr (hmapped rfl)
    | false =>
      rw [hunmapped rfl]
      exact Or.inl rfl
  · obtain ⟨hleak, ⟨-, hstopped⟩, hmoved⟩ := h
    cases hstopped with
    | refused grants handles ptrs => exact .of_leaked rfl hleak ptrs
    | unmapped grants allocates handles ptrs => exact .of_leaked rfl hleak ptrs
    | notOnCpu allocates mapped handles ptrs =>
      -- the range is entered before it is mapped, and stays
      exact .takes rfl (Or.inl rfl) (hmoved allocates.grants) (Or.inr ptrs)

/-- **What a call does**, whether it succeeds or fails. -/
theorem wp_heapCall (c : HeapCall) (v : Vm) :
    wp c.run (fun r v' => c.Does v v' r) (fun _ v' => c.Does v v' none) v := by
  cases c with
  | gpuAlloc size hugePages mapToCpu => exact wp_run_gpuAlloc v size hugePages mapToCpu
  | gpuSystemAlloc size mapToCpu =>
    rw [HeapCall.run, wp_bind]
    refine wp_mono (wp_and (wp_gpuSystemAlloc size mapToCpu v)
      (keeps_gpuSystemAlloc_ptrs size mapToCpu v)) (fun r v' h => ?_) (fun _ v' h => ?_)
    · obtain ⟨⟨hva, halloc⟩, hptrs⟩ := h
      rw [wp_pure, hva]
      exact .takes rfl (Or.inr rfl) (hva ▸ halloc.uvmVaddr) (Or.inl hptrs)
    · exact .of_leaked rfl h.1 h.2
  | registerChannel =>
    rw [HeapCall.run, wp_bind]
    refine wp_mono (wp_and (wp_createChannel v) (keeps_createChannel_ptrs v)) (fun r v' h => ?_)
      (fun _ v' h => ?_)
    · obtain ⟨⟨hheap, -⟩, hptrs⟩ := h
      have hstart : v'.uvmVaddr - (0x4000000 : NvU64) = v.nextVa (4 <<< 10 : NvU64) := by
        rw [hheap]
        exact BitVec.add_sub_cancel ..
      rw [wp_bind, wp_get, wp_pure, hstart]
      exact .takes rfl (Or.inr rfl) hheap (Or.inl hptrs)
    · exact .of_leaked rfl h.1 h.2
  | gpuFree va =>
    rw [HeapCall.run, wp_bind]
    refine wp_mono (wp_and (wp_gpuFree_frees v va) (wp_gpuFree_refused v va)) (fun _ v' h => ?_)
      (fun _ v' h => ?_)
    · obtain ⟨⟨hfrees, rfl⟩, -⟩ := h
      rw [wp_pure]
      exact .frees hfrees.freed.1 hfrees.freed.2
    · exact .nothing h.2.uvmVaddr h.2.hostMappedPtrs


/-- A step leads where the program of its call leads. -/
theorem Heap.exists_step {h : Heap} {e : HeapCall × (ℕ → SysReply)} {p : Heap → Prop}
    (hwp : wp e.1.run (fun r vm => p ⟨vm, r.toList ++ h.ranges⟩) (fun _ vm => p ⟨vm, h.ranges⟩)
      (h.vm.answering e.2)) : ∃ h', h.step e = some h' ∧ p h' := by
  unfold Heap.step
  rcases hrun : call e.1.run (h.vm.answering e.2) with ⟨_ | r, vm⟩
  · exact ⟨_, rfl, (wp_of_call_error hrun).mp hwp⟩
  · exact ⟨_, rfl, (wp_of_call hrun).mp hwp⟩

/-- **A step** does what its call does; what the call returns is a new range. -/
theorem Heap.step_does {h h' : Heap} {e : HeapCall × (ℕ → SysReply)} (hstep : h.step e = some h') :
    ∃ r, e.1.Does (h.vm.answering e.2) h'.vm r ∧ h'.ranges = r.toList ++ h.ranges := by
  obtain ⟨t, ht, hdoes⟩ := Heap.exists_step (h := h) (e := e)
    (p := fun t => ∃ r, e.1.Does (h.vm.answering e.2) t.vm r ∧ t.ranges = r.toList ++ h.ranges)
    (wp_mono (wp_heapCall e.1 _) (fun r _ hr => ⟨r, hr, rfl⟩) (fun _ _ hnone => ⟨none, hnone, rfl⟩))
  rw [hstep] at ht
  obtain rfl := Option.some.inj ht
  exact hdoes

/-! ## Room in the address space -/

/-- Rounded up to a multiple of the alignment, without a wrap. -/
def alignedUp (n : ℕ) (alignment : NvU64) : ℕ :=
  (n + alignment.toNat - 1) / alignment.toNat * alignment.toNat

/-- Where the heap pointer is behind a call that takes its range, without a wrap. -/
def HeapCall.reach (v : Vm) : HeapCall → ℕ
  | .gpuAlloc size hugePages _ => alignedUp v.uvmVaddr.toNat (gpuAllocAlignment hugePages) +
      alignedUp size.toNat (gpuAllocAlignment hugePages)
  | .gpuSystemAlloc size _ => alignedUp v.uvmVaddr.toNat (4 <<< 10 : NvU64) + size.toNat
  | .registerChannel =>
    alignedUp v.uvmVaddr.toNat (4 <<< 10 : NvU64) + (0x4000000 : NvU64).toNat
  | .gpuFree _ => v.uvmVaddr.toNat

/-- **The call fits**: its range ends in front of the end of the address space. -/
def HeapCall.Fits (v : Vm) (c : HeapCall) : Prop := c.reach v < 2 ^ 64

/-- A range that a call can take: it lies behind the heap pointer, does not wrap, and is what was
asked for. -/
structure HeapRange.New (v : Vm) (r : HeapRange) : Prop where
  range : NewRange v r.start r.size
  alignment : r.alignment = (4 <<< 10 : NvU64) ∨ r.alignment = (2 <<< 20 : NvU64)
  aligned : r.alignment.toNat ∣ r.start.toNat
  enough : r.requested.toNat ≤ r.size.toNat

section Aligned

variable {n : ℕ} {alignment : NvU64}

/-- Nothing is added to a multiple, and otherwise what is missing to the next one. -/
theorem alignedUp_eq (hpos : 0 < alignment.toNat) : alignedUp n alignment =
    if n % alignment.toNat = 0 then n else n + (alignment.toNat - n % alignment.toNat) := by
  have hdiv := Nat.div_add_mod n alignment.toNat
  have hmod := Nat.mod_lt n hpos
  rw [Nat.mul_comm] at hdiv
  unfold alignedUp
  split_ifs with hzero
  · have hquot : (n + alignment.toNat - 1) / alignment.toNat = n / alignment.toNat :=
      Nat.div_eq_of_lt_le (by omega) (by rw [Nat.add_one_mul]; omega)
    rw [hquot]
    omega
  · have hquot : (n + alignment.toNat - 1) / alignment.toNat = n / alignment.toNat + 1 := by
      refine Nat.div_eq_of_lt_le ?_ ?_
      · rw [Nat.add_one_mul]
        omega
      · rw [Nat.add_one_mul, Nat.add_one_mul]
        omega
    rw [hquot, Nat.add_one_mul]
    omega

theorem dvd_alignedUp : alignment.toNat ∣ alignedUp n alignment := Nat.dvd_mul_left ..

theorem le_alignedUp (hpos : 0 < alignment.toNat) : n ≤ alignedUp n alignment := by
  rw [alignedUp_eq hpos]
  split_ifs
  · exact Nat.le_refl n
  · exact Nat.le_add_right ..

theorem alignedUp_lt (hpos : 0 < alignment.toNat) : alignedUp n alignment < n + alignment.toNat := by
  have hle : alignedUp n alignment ≤ n + alignment.toNat - 1 := Nat.div_mul_le_self ..
  omega

/-- The next address, where it does not wrap. -/
theorem toNat_nextVa {v : Vm} (hpos : 0 < alignment.toNat)
    (h : alignedUp v.uvmVaddr.toNat alignment < 2 ^ 64) :
    (v.nextVa alignment).toNat = alignedUp v.uvmVaddr.toNat alignment := by
  have hslack : (v.uvmVaddr % alignment).toNat = v.uvmVaddr.toNat % alignment.toNat :=
    BitVec.toNat_umod
  have hlt : v.uvmVaddr.toNat % alignment.toNat < alignment.toNat := Nat.mod_lt _ hpos
  have hiff : v.uvmVaddr % alignment ≠ 0 ↔ ¬ v.uvmVaddr.toNat % alignment.toNat = 0 := by
    rw [← hslack, not_iff_not]
    exact ⟨fun hzero => by rw [hzero]; rfl, fun hzero => BitVec.eq_of_toNat_eq hzero⟩
  rw [alignedUp_eq hpos] at h ⊢
  unfold Vm.nextVa
  by_cases hzero : v.uvmVaddr.toNat % alignment.toNat = 0
  · rw [if_pos hzero, if_neg (by rw [hiff]; exact not_not_intro hzero)]
  · rw [if_neg hzero] at h ⊢
    rw [if_pos (hiff.mpr hzero)]
    have hsub : (alignment - v.uvmVaddr % alignment).toNat =
        alignment.toNat - v.uvmVaddr.toNat % alignment.toNat := by
      rw [BitVec.toNat_sub_of_le (by rw [BitVec.le_def, hslack]; omega), hslack]
    rw [BitVec.toNat_add, hsub, Nat.mod_eq_of_lt h]

/-- The alignments of the heap are at most two mebibytes. -/
theorem alignment_bounds (h : alignment = (4 <<< 10 : NvU64) ∨ alignment = (2 <<< 20 : NvU64)) :
    0 < alignment.toNat ∧ alignment.toNat ≤ 2 ^ 21 := by
  rcases h with rfl | rfl
  · decide
  · decide

theorem alignedUp_bounds (h : alignment = (4 <<< 10 : NvU64) ∨ alignment = (2 <<< 20 : NvU64)) :
    n ≤ alignedUp n alignment ∧ alignedUp n alignment < n + 2 ^ 21 := by
  obtain ⟨hpos, hle⟩ := alignment_bounds h
  exact ⟨le_alignedUp hpos, Nat.lt_of_lt_of_le (alignedUp_lt hpos) (Nat.add_le_add_left hle n)⟩

/-- The range at the next address. -/
theorem new_nextVa {v : Vm} {size requested : NvU64}
    (halign : alignment = (4 <<< 10 : NvU64) ∨ alignment = (2 <<< 20 : NvU64))
    (h : alignedUp v.uvmVaddr.toNat alignment + size.toNat < 2 ^ 64)
    (henough : requested.toNat ≤ size.toNat) :
    HeapRange.New v ⟨v.nextVa alignment, size, requested, alignment⟩ ∧
      (v.nextVa alignment).toNat = alignedUp v.uvmVaddr.toNat alignment := by
  have hpos := (alignment_bounds halign).1
  have hnext := toNat_nextVa (v := v) hpos (by omega)
  have hle := le_alignedUp (n := v.uvmVaddr.toNat) hpos
  exact ⟨⟨⟨hnext ▸ hle, hnext ▸ h⟩, halign, hnext ▸ dvd_alignedUp, henough⟩, hnext⟩

end Aligned

theorem gpuAllocAlignment_cases (hugePages : Bool) :
    gpuAllocAlignment hugePages = (4 <<< 10 : NvU64) ∨
      gpuAllocAlignment hugePages = (2 <<< 20 : NvU64) := by
  cases hugePages with
  | true => exact Or.inr rfl
  | false => exact Or.inl rfl

/-- A call reaches no further than what was asked for and the two roundings. -/
theorem reach_bounds (v : Vm) (c : HeapCall) : v.uvmVaddr.toNat ≤ c.reach v ∧
    c.reach v ≤ v.uvmVaddr.toNat + (c.requested.toNat + 2 ^ 22) := by
  cases c with
  | gpuAlloc size hugePages mapToCpu =>
    have hva := alignedUp_bounds (n := v.uvmVaddr.toNat) (gpuAllocAlignment_cases hugePages)
    have hsize := alignedUp_bounds (n := size.toNat) (gpuAllocAlignment_cases hugePages)
    simp only [HeapCall.reach, HeapCall.requested]
    omega
  | gpuSystemAlloc size mapToCpu =>
    have hva := alignedUp_bounds (n := v.uvmVaddr.toNat) (Or.inl rfl)
    simp only [HeapCall.reach, HeapCall.requested]
    omega
  | registerChannel =>
    have hva := alignedUp_bounds (n := v.uvmVaddr.toNat) (Or.inl rfl)
    simp only [HeapCall.reach, HeapCall.requested]
    omega
  | gpuFree va => exact ⟨Nat.le_refl _, Nat.le_add_right ..⟩

/-- **A call that fits** takes a range of its own, which ends where the call reaches. -/
theorem HeapCall.Fits.new {v : Vm} {c : HeapCall} {r : HeapRange}
    (hstart : uvmHeapStart.toNat ≤ v.uvmVaddr.toNat) (h : c.Fits v) (htakes : c.takes v = some r) :
    r.New v ∧ r.start.toNat + r.size.toNat = c.reach v := by
  cases c with
  | gpuAlloc size hugePages mapToCpu =>
    obtain rfl := Option.some.inj htakes
    have halign := gpuAllocAlignment_cases hugePages
    obtain ⟨hpos, hlt⟩ := alignment_bounds halign
    have hheap : 2 ^ 21 < uvmHeapStart.toNat := by decide
    have hfits : alignedUp v.uvmVaddr.toNat (gpuAllocAlignment hugePages) +
      alignedUp size.toNat (gpuAllocAlignment hugePages) < 2 ^ 64 := h
    have hva := le_alignedUp (n := v.uvmVaddr.toNat) hpos
    have hle := le_alignedUp (n := size.toNat) hpos
    have hsize : (gpuAllocSize size hugePages).toNat =
        alignedUp size.toNat (gpuAllocAlignment hugePages) :=
      toNat_roundUp size (gpuAllocAlignment hugePages) hpos (by omega)
    obtain ⟨hnew, hnext⟩ := new_nextVa halign (v := v) (hsize ▸ hfits) (hsize ▸ hle)
    exact ⟨hnew, congrArg₂ (· + ·) hnext hsize⟩
  | gpuSystemAlloc size mapToCpu =>
    obtain rfl := Option.some.inj htakes
    obtain ⟨hnew, hnext⟩ := new_nextVa (v := v) (Or.inl rfl) h (Nat.le_refl _)
    exact ⟨hnew, congrArg (· + size.toNat) hnext⟩
  | registerChannel =>
    obtain rfl := Option.some.inj htakes
    obtain ⟨hnew, hnext⟩ := new_nextVa (v := v) (Or.inl rfl) h (Nat.le_refl _)
    exact ⟨hnew, congrArg (· + (0x4000000 : NvU64).toNat) hnext⟩
  | gpuFree va => cases htakes

/-! ## The heap over a run -/

/-- A range that was taken from the heap in front of the heap pointer. -/
structure HeapRange.Taken (v : Vm) (r : HeapRange) : Prop where
  start : uvmHeapStart.toNat ≤ r.start.toNat
  stop : r.start.toNat + r.size.toNat ≤ v.uvmVaddr.toNat
  alignment : r.alignment = (4 <<< 10 : NvU64) ∨ r.alignment = (2 <<< 20 : NvU64)
  aligned : r.alignment.toNat ∣ r.start.toNat
  enough : r.requested.toNat ≤ r.size.toNat

/-- **The invariant**: the ranges ascend from the start of the heap to the heap pointer. -/
structure Heap.Sound (h : Heap) : Prop where
  start : uvmHeapStart.toNat ≤ h.vm.uvmVaddr.toNat
  taken : ∀ r ∈ h.ranges, r.Taken h.vm
  ordered : h.ranges.Pairwise fun r earlier =>
    earlier.start.toNat + earlier.size.toNat ≤ r.start.toNat

theorem isDevicePtr_iff {v : Vm} {p : NvU64} : isDevicePtr v p = true ↔
    uvmHeapStart.toNat ≤ p.toNat ∧ p.toNat < v.uvmVaddr.toNat := by
  unfold isDevicePtr
  rw [← BitVec.lt_def]
  split
  · rename_i hlt
    rw [BitVec.lt_def] at hlt
    exact iff_of_false Bool.false_ne_true fun h => absurd h.1 (by omega)
  · rename_i hlt
    rw [BitVec.lt_def] at hlt
    rw [decide_eq_true_eq]
    exact ⟨fun h => ⟨by omega, h⟩, fun h => h.2⟩

section Taken

variable {v v' : Vm} {r : HeapRange} {p : NvU64}

theorem HeapRange.Taken.mono (h : r.Taken v) (hheap : v.uvmVaddr.toNat ≤ v'.uvmVaddr.toNat) :
    r.Taken v' := ⟨h.start, Nat.le_trans h.stop hheap, h.alignment, h.aligned, h.enough⟩

/-- A range does not wrap. -/
theorem HeapRange.Taken.contains_iff (h : r.Taken v) :
    r.Contains p ↔ r.start.toNat ≤ p.toNat ∧ p.toNat < r.start.toNat + r.size.toNat := by
  have hstop := h.stop
  have hlt := v.uvmVaddr.isLt
  unfold HeapRange.Contains
  bv_omega

theorem HeapRange.Taken.toNat_stop (h : r.Taken v) :
    r.stop.toNat = r.start.toNat + r.size.toNat := by
  have hstop := h.stop
  have hlt := v.uvmVaddr.isLt
  rw [HeapRange.stop, BitVec.toNat_add, Nat.mod_eq_of_lt (by omega)]

/-- `isDevicePtr` accepts the addresses of a range. -/
theorem HeapRange.Taken.isDevicePtr (h : r.Taken v) (hp : r.Contains p) :
    isDevicePtr v p = true := by
  obtain ⟨hle, hlt⟩ := h.contains_iff.mp hp
  exact isDevicePtr_iff.mpr ⟨Nat.le_trans h.start hle, Nat.lt_of_lt_of_le hlt h.stop⟩

theorem HeapRange.New.toNat_stop (h : r.New v) : r.stop.toNat = r.start.toNat + r.size.toNat :=
  h.range.toNat_end

/-- A new range is taken once the heap pointer has moved to its end. -/
theorem HeapRange.New.taken (h : r.New v) (hstart : uvmHeapStart.toNat ≤ v.uvmVaddr.toNat)
    (hheap : v'.uvmVaddr = r.stop) : r.Taken v' := by
  refine ⟨Nat.le_trans hstart h.range.start, ?_, h.alignment, h.aligned, h.enough⟩
  rw [hheap, h.toNat_stop]

end Taken

theorem Heap.Sound.wellFormed {h : Heap} (hsound : h.Sound) : h.WellFormed where
  alignment r hr := (hsound.taken r hr).alignment
  aligned r hr := (hsound.taken r hr).aligned
  ordered := hsound.ordered
  enough r hr := (hsound.taken r hr).enough
  recognised r hr p hp := (hsound.taken r hr).isDevicePtr hp
  unallocated p hp := by
    rw [BitVec.le_def] at hp
    rw [Bool.eq_false_iff, ne_eq, isDevicePtr_iff]
    omega

theorem sound_start : Heap.start.Sound := ⟨Nat.le_refl _, nofun, .nil⟩

/-- The heap pointer behind a call, and the range it took. -/
theorem Heap.Sound.does {h : Heap} (hsound : h.Sound) {c : HeapCall} {v v' : Vm}
    {o : Option HeapRange} (hv : v.uvmVaddr = h.vm.uvmVaddr) (hfits : c.Fits v)
    (hdoes : c.Does v v' o) : h.vm.uvmVaddr.toNat ≤ v'.uvmVaddr.toNat ∧
      v'.uvmVaddr.toNat ≤ c.reach v ∧ ∀ r ∈ o, r.New v ∧ v'.uvmVaddr = r.stop := by
  have hreach := (reach_bounds v c).1
  cases hdoes with
  | nothing heap ptrs =>
    rw [heap]
    exact ⟨Nat.le_of_eq (by rw [hv]), hreach, nofun⟩
  | @takes r o takes returns heap ptrs =>
    obtain ⟨hnew, hstop⟩ := hfits.new (hv ▸ hsound.start) takes
    rw [heap, hnew.toNat_stop, hstop, ← hv]
    refine ⟨hreach, Nat.le_refl _, fun r' hr' => ?_⟩
    rcases returns with rfl | rfl
    · cases hr'
    · obtain rfl := Option.some.inj hr'
      exact ⟨hnew, rfl⟩
  | frees heap ptrs =>
    rw [heap]
    exact ⟨Nat.le_of_eq (by rw [hv]), hreach, nofun⟩

/-- **A call that fits keeps the invariant.** -/
theorem Heap.Sound.step {h h' : Heap} {e : HeapCall × (ℕ → SysReply)} (hsound : h.Sound)
    (hfits : e.1.Fits h.vm) (hstep : h.step e = some h') :
    h'.Sound ∧ h'.vm.uvmVaddr.toNat ≤ e.1.reach h.vm := by
  obtain ⟨o, hdoes, hranges⟩ := Heap.step_does hstep
  obtain ⟨hheap, hreach, hnew⟩ := hsound.does (v := h.vm.answering e.2) rfl hfits hdoes
  have htaken : ∀ r ∈ h.ranges, r.Taken h'.vm := fun r hr => (hsound.taken r hr).mono hheap
  refine ⟨⟨Nat.le_trans hsound.start hheap, ?_, ?_⟩, hreach⟩
  · rw [hranges]
    intro r hr
    rcases List.mem_append.mp hr with hr | hr
    · obtain ⟨hnew, hstop⟩ := hnew r (Option.mem_toList.mp hr)
      exact hnew.taken hsound.start hstop
    · exact htaken r hr
  · -- the older ranges end in front of the old heap pointer, and the new one starts behind it
    rw [hranges]
    cases o with
    | none => exact hsound.ordered
    | some r =>
      exact List.pairwise_cons.mpr ⟨fun r' hr' =>
        Nat.le_trans (hsound.taken r' hr').stop (hnew r rfl).1.range.start, hsound.ordered⟩

/-- Calls fit as long as what they ask for and round up to does. -/
theorem meets_fits_of_sum_le {h : Heap} {calls : List (HeapCall × (ℕ → SysReply))}
    (hsound : h.Sound) (hsum : h.vm.uvmVaddr.toNat +
      (calls.map fun e => e.1.requested.toNat + 2 ^ 22).sum < 2 ^ 64) :
    Meets Heap.step (fun h e => e.1.Fits h.vm) h calls := by
  induction calls generalizing h with
  | nil => trivial
  | cons e calls ih =>
    rw [List.map_cons, List.sum_cons] at hsum
    have hbound := (reach_bounds h.vm e.1).2
    have hfits : e.1.Fits h.vm := by
      unfold HeapCall.Fits
      omega
    intro h' hstep
    obtain ⟨hsound', hreach⟩ := hsound.step hfits hstep
    exact ⟨hfits, ih hsound' (by omega)⟩

/-- The bytes that the calls of a run ask for. -/
def requestedTotal (calls : List (HeapCall × (ℕ → SysReply))) : ℕ :=
  (calls.map fun e => e.1.requested.toNat).sum

/-- **A trillion calls fit**, if they ask for less than half of the address space in total. -/
theorem meets_fits_of_total {calls : List (HeapCall × (ℕ → SysReply))}
    (hlength : calls.length ≤ 2 ^ 40) (htotal : requestedTotal calls < 2 ^ 63) :
    Meets Heap.step (fun h e => e.1.Fits h.vm) Heap.start calls := by
  refine meets_fits_of_sum_le sound_start ?_
  have hsum : (calls.map fun e => e.1.requested.toNat + 2 ^ 22).sum =
      requestedTotal calls + calls.length * 2 ^ 22 := by
    rw [List.sum_map_add, List.map_const', List.sum_replicate_nat]
    rfl
  have hstart : Heap.start.vm.uvmVaddr.toNat = 2 ^ 36 := by decide
  rw [hsum, hstart]
  omega

/-- **The ranges of a heap are well formed** in every run whose calls fit into the address space,
whether they succeed or fail. -/
theorem heap_well_formed {calls : List (HeapCall × (ℕ → SysReply))}
    (hfits : Meets Heap.step (fun h e => e.1.Fits h.vm) Heap.start calls) :
    Always Heap.step Heap.WellFormed Heap.start calls := by
  have hsound : Always Heap.step Heap.Sound Heap.start calls :=
    always_of_meets (fun _ _ _ hsound hfits hstep => (hsound.step hfits hstep).1) sound_start hfits
  exact hsound.imp fun _ h => h.wellFormed

/-- A kernel that grants every call, always with the same handle. -/
def granting : ℕ → SysReply := fun _ => { handle := 1 }

/-- A huge page, a channel behind it and a page that is freed again. -/
theorem heap_well_formed_sample : Always Heap.step Heap.WellFormed Heap.start
    [(.gpuAlloc 1 true true, granting), (.registerChannel, granting),
      (.gpuAlloc 0x1001 false false, granting), (.gpuFree (uvmHeapStart + 0x4200000), granting)] :=
  heap_well_formed (meets_fits_of_total (by decide) (by decide))

/-! ## Exhausting the address space -/

/-- Allocate one byte on a huge page and give it back, over and over, from the heap pointer on. -/
def churn : ℕ → NvU64 → List (HeapCall × (ℕ → SysReply))
  | 0, _ => []
  | n + 1, va => (.gpuAlloc 1 true false, granting) :: (.gpuFree va, granting) ::
      churn n (va + (2 <<< 20 : NvU64))

/-- The rounds between the second huge page of the heap and the last one. -/
def exhaustingRounds : ℕ := 2 ^ 43 - 2 ^ 15 - 2

/-- One byte that stays allocated and is mapped to the host, and as many more as there are huge
pages behind it. -/
def exhausting : List (HeapCall × (ℕ → SysReply)) :=
  (.gpuAlloc 1 true true, granting) ::
    (churn exhaustingRounds (uvmHeapStart + (2 <<< 20 : NvU64)) ++
      [(.gpuAlloc 1 true false, granting)])

section Churn

variable {h : Heap}

/-- The heap pointer is at a huge page, behind everything that is mapped to the host. -/
structure Heap.AtPage (h : Heap) : Prop where
  aligned : h.vm.uvmVaddr.toNat % 2 ^ 21 = 0
  ne_zero : h.vm.uvmVaddr ≠ 0
  ptrs : ∀ r ∈ h.vm.hostMappedPtrs, r.2 ≤ h.vm.uvmVaddr

theorem nextVa_of_aligned {v : Vm} (h : v.uvmVaddr.toNat % 2 ^ 21 = 0) :
    v.nextVa (gpuAllocAlignment true) = v.uvmVaddr := by
  have hheight : (gpuAllocAlignment true).toNat = 2 ^ 21 := by decide +kernel
  have hpos : 0 < (gpuAllocAlignment true).toNat := by decide
  have hsame : alignedUp v.uvmVaddr.toNat (gpuAllocAlignment true) = v.uvmVaddr.toNat := by
    rw [alignedUp_eq hpos, hheight, if_pos h]
  refine BitVec.eq_of_toNat_eq ?_
  rw [toNat_nextVa hpos (by rw [hsame]; exact v.uvmVaddr.isLt), hsame]

theorem eraseMapped_of_le {va : NvU64} {ranges : List (NvU64 × NvU64)}
    (h : ∀ r ∈ ranges, r.2 ≤ va) : eraseMapped va ranges = ranges := by
  unfold eraseMapped
  rw [List.eraseP_of_forall_not, List.reverse_reverse]
  intro r hr
  have hle := h r (List.mem_reverse.mp hr)
  rw [BitVec.le_def] at hle
  rw [Bool.and_eq_true, decide_eq_true_eq, BitVec.lt_def]
  omega

/-- The allocation of a round, which the kernel grants. -/
theorem Heap.AtPage.alloc (hpage : h.AtPage) :
    ∃ h', h.step (.gpuAlloc 1 true false, granting) = some h' ∧
      h'.vm.uvmVaddr = h.vm.uvmVaddr + (2 <<< 20 : NvU64) ∧
      h'.vm.hostMappedPtrs = h.vm.hostMappedPtrs ∧ h.ranges ⊆ h'.ranges ∧
      h'.vm.vaToMemHandle h.vm.uvmVaddr = some 1 := by
  refine Heap.exists_step ?_
  have hnext : (h.vm.answering granting).nextVa (gpuAllocAlignment true) = h.vm.uvmVaddr :=
    nextVa_of_aligned (v := h.vm.answering granting) hpage.aligned
  have hallocates : (h.vm.answering granting).Allocates true :=
    ⟨⟨rfl, rfl⟩, ⟨(by decide : (1 : NvU32) ≠ 0), hnext ▸ hpage.ne_zero, rfl, rfl⟩⟩
  rw [HeapCall.run, wp_bind]
  refine wp_mono (wp_gpuAlloc_allocates (h.vm.answering granting) 1 true) (fun r v hv => ?_)
    (fun _ _ hfail => absurd hallocates hfail.1)
  obtain ⟨-, -, rfl⟩ := hv
  rw [wp_pure]
  have hsize : gpuAllocSize 1 true = (2 <<< 20 : NvU64) := by decide +kernel
  refine ⟨?_, ?_, List.subset_append_right .., ?_⟩
  · rw [Vm.allocated_uvmVaddr, hnext, hsize]
  · rw [Vm.allocated_hostMappedPtrs]
    rfl
  · rw [Vm.allocated_vaToMemHandle, hnext, Function.update_self]
    rfl

/-- A round leaves the heap at the next huge page, with all ranges it had. -/
theorem Heap.AtPage.round (hpage : h.AtPage) :
    ∃ h', (∀ calls, exec Heap.step h ((.gpuAlloc 1 true false, granting) ::
        (.gpuFree h.vm.uvmVaddr, granting) :: calls) = exec Heap.step h' calls) ∧
      h'.vm.uvmVaddr = h.vm.uvmVaddr + (2 <<< 20 : NvU64) ∧
      h'.vm.hostMappedPtrs = h.vm.hostMappedPtrs ∧ h.ranges ⊆ h'.ranges := by
  obtain ⟨h₁, hstep₁, hheap₁, hptrs₁, hranges₁, hentry⟩ := hpage.alloc
  have hstep₂ : ∃ h₂, h₁.step (.gpuFree h.vm.uvmVaddr, granting) = some h₂ ∧
      h₂.vm.uvmVaddr = h₁.vm.uvmVaddr ∧ h₂.vm.hostMappedPtrs = h₁.vm.hostMappedPtrs ∧
      h₁.ranges ⊆ h₂.ranges := by
    refine Heap.exists_step ?_
    have hfrees : (h₁.vm.answering granting).Frees h.vm.uvmVaddr := ⟨⟨1, hentry⟩, rfl⟩
    rw [HeapCall.run, wp_bind]
    refine wp_mono (wp_gpuFree_frees (h₁.vm.answering granting) h.vm.uvmVaddr) (fun _ v hv => ?_)
      (fun _ _ hfail => absurd hfrees hfail.1)
    obtain ⟨-, rfl⟩ := hv
    obtain ⟨hheap, hptrs⟩ := hfrees.freed
    rw [wp_pure]
    refine ⟨hheap, hptrs.trans ?_, List.subset_append_right ..⟩
    exact eraseMapped_of_le (hptrs₁ ▸ hpage.ptrs)
  obtain ⟨h₂, hstep₂, hheap₂, hptrs₂, hranges₂⟩ := hstep₂
  refine ⟨h₂, fun calls => ?_, hheap₂.trans hheap₁, hptrs₂.trans hptrs₁,
    fun r hr => hranges₂ (hranges₁ hr)⟩
  rw [exec_cons hstep₁, exec_cons hstep₂]

/-- Rounds that do not reach the end of the address space. -/
theorem Heap.AtPage.churn (n : ℕ) (hpage : h.AtPage)
    (hroom : h.vm.uvmVaddr.toNat + n * 2 ^ 21 < 2 ^ 64) :
    ∃ h', exec Heap.step h (churn n h.vm.uvmVaddr) = some h' ∧ h'.AtPage ∧
      h'.vm.uvmVaddr.toNat = h.vm.uvmVaddr.toNat + n * 2 ^ 21 ∧
      h'.vm.hostMappedPtrs = h.vm.hostMappedPtrs ∧ h.ranges ⊆ h'.ranges := by
  induction n generalizing h with
  | zero => exact ⟨h, rfl, hpage, by omega, rfl, List.Subset.refl _⟩
  | succ n ih =>
    obtain ⟨h₁, hexec, hheap, hptrs, hranges⟩ := hpage.round
    have hpage₁ := hpage.aligned
    have htoNat : h₁.vm.uvmVaddr.toNat = h.vm.uvmVaddr.toNat + 2 ^ 21 := by
      have hheight : (2 <<< 20 : NvU64).toNat = 2 ^ 21 := by decide
      rw [hheap, BitVec.toNat_add, hheight, Nat.mod_eq_of_lt (by omega)]
    have hat : h₁.AtPage := by
      refine ⟨by omega, fun hzero => ?_, fun r hr => ?_⟩
      · rw [hzero] at htoNat
        exact absurd htoNat (by simp)
      · have hle := hpage.ptrs r (hptrs ▸ hr)
        rw [BitVec.le_def] at hle ⊢
        omega
    obtain ⟨h', hexec', hat', hheap', hptrs', hranges'⟩ := ih hat (by omega)
    refine ⟨h', ?_, hat', by omega, hptrs'.trans hptrs, fun r hr => hranges' (hranges hr)⟩
    rw [LibreCuda.churn, hexec, ← hheap]
    exact hexec'

end Churn

theorem requestedTotal_cons (e : HeapCall × (ℕ → SysReply))
    (calls : List (HeapCall × (ℕ → SysReply))) :
    requestedTotal (e :: calls) = e.1.requested.toNat + requestedTotal calls := by
  rw [requestedTotal, List.map_cons, List.sum_cons, requestedTotal]

theorem requestedTotal_append (calls calls' : List (HeapCall × (ℕ → SysReply))) :
    requestedTotal (calls ++ calls') = requestedTotal calls + requestedTotal calls' := by
  rw [requestedTotal, List.map_append, List.sum_append, requestedTotal, requestedTotal]

theorem requestedTotal_churn (n : ℕ) (va : NvU64) : requestedTotal (churn n va) = n := by
  induction n generalizing va with
  | zero => rfl
  | succ n ih =>
    rw [churn, requestedTotal_cons, requestedTotal_cons, ih]
    show 1 + (0 + n) = n + 1
    omega

theorem requestedTotal_exhausting : requestedTotal exhausting < 2 ^ 63 := by
  have hrounds : exhaustingRounds < 2 ^ 43 := by decide +kernel
  have hfirst : (HeapCall.gpuAlloc 1 true true).requested.toNat = 1 := rfl
  have hlast : requestedTotal [(HeapCall.gpuAlloc 1 true false, granting)] = 1 := rfl
  rw [exhausting, requestedTotal_cons, requestedTotal_append, requestedTotal_churn, hfirst, hlast]
  omega

/-- **The last allocation wraps**: the heap pointer is back at zero, and the first range is still
allocated and mapped. -/
theorem exec_exhausting : ∃ h, exec Heap.step Heap.start exhausting = some h ∧
    h.vm.uvmVaddr = 0 ∧
    h.vm.hostMappedPtrs = [(uvmHeapStart, uvmHeapStart + (2 <<< 20 : NvU64))] ∧
    ⟨uvmHeapStart, (2 <<< 20 : NvU64), 1, (2 <<< 20 : NvU64)⟩ ∈ h.ranges := by
  have hfirst : (Heap.start.step (.gpuAlloc 1 true true, granting)).map (fun h =>
      (h.vm.uvmVaddr, h.vm.hostMappedPtrs, h.ranges)) =
      some (uvmHeapStart + (2 <<< 20 : NvU64),
        [(uvmHeapStart, uvmHeapStart + (2 <<< 20 : NvU64))],
        [⟨uvmHeapStart, (2 <<< 20 : NvU64), 1, (2 <<< 20 : NvU64)⟩]) := by decide +kernel
  obtain ⟨h₁, hstep₁, hfields⟩ := Option.map_eq_some_iff.mp hfirst
  simp only [Prod.mk.injEq] at hfields
  obtain ⟨hheap₁, hptrs₁, hranges₁⟩ := hfields
  have hat : h₁.AtPage := by
    refine ⟨hheap₁ ▸ by decide, hheap₁ ▸ by decide, fun r hr => ?_⟩
    rw [hptrs₁, List.mem_singleton] at hr
    rw [hr, hheap₁]
    exact BitVec.le_refl _
  obtain ⟨h₂, hexec₂, hat₂, hheap₂, hptrs₂, hranges₂⟩ :=
    hat.churn exhaustingRounds (by rw [hheap₁]; decide)
  obtain ⟨h₃, hstep₃, hheap₃, hptrs₃, hranges₃, -⟩ := hat₂.alloc
  refine ⟨h₃, ?_, ?_, hptrs₃.trans (hptrs₂.trans hptrs₁), hranges₃ (hranges₂ ?_)⟩
  · rw [exhausting, exec_cons hstep₁, ← hheap₁, exec_append hexec₂, exec_cons hstep₃]
    rfl
  · rw [hheap₁] at hheap₂
    refine BitVec.eq_of_toNat_eq ?_
    rw [hheap₃, BitVec.toNat_add, hheap₂]
    decide
  · rw [hranges₁]
    exact List.mem_cons_self

/-- **Requests of one byte can exhaust the address space**: each takes a huge page, and the ranges
are not recognised any more once the heap pointer wraps. -/
theorem exhausted_heap : requestedTotal exhausting < 2 ^ 63 ∧
    ¬ Always Heap.step Heap.WellFormed Heap.start exhausting := by
  refine ⟨requestedTotal_exhausting, fun halways => ?_⟩
  obtain ⟨h, hexec, hheap, -, hmem⟩ := exec_exhausting
  have hptr := (halways.exec hexec).recognised _ hmem uvmHeapStart (by rw [HeapRange.Contains]; decide)
  rw [isDevicePtr_iff, hheap] at hptr
  exact absurd hptr.2 (by decide)

end LibreCuda
