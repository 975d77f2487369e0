import LibreCuda.Foundation.Intervals
import LibreCuda.Runtime.Heap

/-! # Host mapped memory

`gpuAlloc` appends the ranges it maps to the host to one vector, and `gpuFree` takes them out of it.
Both `gpuFree` and `isHostMappedPtr` search it from its end, and the latter gives up at the first
range that starts in front of the address: the ranges have to ascend.

* **`Vm.Ascends`**: they do, inside the heap; **`isHostMappedPtr_iff`**: the search is exact then.
* **`Heap.Unmaps`**: a free takes out the range of its allocation, and no other one.
* **`host_mapped_exact`**: both hold in every run that does not exhaust the address space. -/

namespace LibreCuda

open Exec Runs Intervals

/-- `isHostMappedPtr`. The loop runs through the vector from its end, and stops at the first range
that contains the address or starts in front of it. -/
def isHostMappedPtr (v : Vm) (va : NvU64) : Bool :=
  if !isDevicePtr v va then false else scan va v.hostMappedPtrs.reverse

/-- A `gpuFree` of the range leaves none of its addresses host mapped, and all others as they were.
-/
def Heap.Unmaps (h : Heap) (r : HeapRange) : Prop :=
  ∀ replies v', call (gpuFree r.start) (h.vm.answering replies) = (.ok (), v') →
    (∀ p, r.Contains p → isHostMappedPtr v' p = false) ∧
      ∀ p, ¬ r.Contains p → isHostMappedPtr v' p = isHostMappedPtr h.vm p

/-- **The lookup is exact**, and a free takes the range of its allocation out of it. -/
structure Heap.MappedExact (h : Heap) : Prop where
  exact : ∀ p, isHostMappedPtr h.vm p = true ↔ Covers h.vm.hostMappedPtrs p
  unmaps : ∀ r ∈ h.ranges, h.Unmaps r

/-- The call does not ask for zero bytes. -/
def HeapCall.Positive : HeapCall → Prop
  | .gpuAlloc size _ _ => 0 < size.toNat
  | .gpuSystemAlloc size _ => 0 < size.toNat
  | .registerChannel => True
  | .gpuFree _ => True

instance (c : HeapCall) : Decidable c.Positive :=
  match c with
  | .gpuAlloc size _ _ => inferInstanceAs (Decidable (0 < size.toNat))
  | .gpuSystemAlloc size _ => inferInstanceAs (Decidable (0 < size.toNat))
  | .registerChannel => inferInstanceAs (Decidable True)
  | .gpuFree _ => inferInstanceAs (Decidable True)

/-! ## The vector -/

section Vector

variable {v v' : Vm} {p va : NvU64} {m : NvU64 × NvU64}

/-- The host mapped ranges ascend inside the heap, and none is empty. -/
structure Vm.Ascends (v : Vm) : Prop where
  descending : Descending v.hostMappedPtrs.reverse
  start : ∀ m ∈ v.hostMappedPtrs, uvmHeapStart.toNat ≤ m.1.toNat
  filled : ∀ m ∈ v.hostMappedPtrs, m.1.toNat < m.2.toNat
  stop : ∀ m ∈ v.hostMappedPtrs, m.2.toNat ≤ v.uvmVaddr.toNat

theorem mem_range_iff : Contains m p ↔ m.1.toNat ≤ p.toNat ∧ p.toNat < m.2.toNat := Iff.rfl

theorem covers_reverse {l : List (NvU64 × NvU64)} : Covers l.reverse p ↔ Covers l p := by
  unfold Covers
  simp only [List.mem_reverse]

/-- **The search is exact** on ranges that ascend inside the heap. -/
theorem isHostMappedPtr_iff (h : v.Ascends) :
    isHostMappedPtr v p = true ↔ Covers v.hostMappedPtrs p := by
  unfold isHostMappedPtr
  cases hdevice : isDevicePtr v p with
  | true => exact (scan_eq_true_iff h.descending).trans covers_reverse
  | false =>
    refine iff_of_false Bool.false_ne_true ?_
    rintro ⟨m, hmem, hm⟩
    have hm := mem_range_iff.mp hm
    have hstart := h.start m hmem
    have hstop := h.stop m hmem
    rw [Bool.eq_false_iff, ne_eq, isDevicePtr_iff] at hdevice
    omega

/-- What `gpuFree` leaves of the vector. -/
theorem mem_eraseMapped_iff {l : List (NvU64 × NvU64)} (h : Descending l.reverse) :
    m ∈ eraseMapped va l ↔ m ∈ l ∧ ¬ Contains m va := by
  have hsame : (fun r : NvU64 × NvU64 => decide (va < r.2) && decide (r.1 ≤ va)) =
      fun r => decide (Contains r va) := by
    funext r
    rw [Bool.and_comm, ← Bool.decide_and]
    rfl
  unfold eraseMapped
  rw [List.mem_reverse, hsame, mem_eraseP_iff h, List.mem_reverse]

/-- Fewer ranges ascend as well. -/
theorem Vm.Ascends.eraseMapped (h : v.Ascends) (hheap : v'.uvmVaddr = v.uvmVaddr)
    (hptrs : v'.hostMappedPtrs = eraseMapped va v.hostMappedPtrs) : v'.Ascends := by
  have hsub : ∀ m ∈ v'.hostMappedPtrs, m ∈ v.hostMappedPtrs := by
    intro m hm
    rw [hptrs, mem_eraseMapped_iff h.descending] at hm
    exact hm.1
  refine ⟨?_, fun m hm => h.start m (hsub m hm), fun m hm => h.filled m (hsub m hm),
    fun m hm => hheap ▸ h.stop m (hsub m hm)⟩
  rw [hptrs, LibreCuda.eraseMapped, List.reverse_reverse]
  exact h.descending.eraseP _

/-- The heap pointer may move on. -/
theorem Vm.Ascends.mono (h : v.Ascends) (hheap : v.uvmVaddr.toNat ≤ v'.uvmVaddr.toNat)
    (hptrs : v'.hostMappedPtrs = v.hostMappedPtrs) : v'.Ascends := by
  refine ⟨hptrs ▸ h.descending, hptrs ▸ h.start, hptrs ▸ h.filled, fun m hm => ?_⟩
  exact Nat.le_trans (h.stop m (hptrs ▸ hm)) hheap

/-- A new range that is mapped goes to the end. -/
theorem Vm.Ascends.append (h : v.Ascends) {r : HeapRange} (hnew : r.New v) (hfilled : 0 < r.size.toNat)
    (hstart : uvmHeapStart.toNat ≤ v.uvmVaddr.toNat) (hheap : v'.uvmVaddr = r.stop)
    (hptrs : v'.hostMappedPtrs = v.hostMappedPtrs ++ [(r.start, r.stop)]) : v'.Ascends := by
  have hbehind := hnew.range.start
  have hstop := hnew.toNat_stop
  have hmem : ∀ m ∈ v'.hostMappedPtrs, m ∈ v.hostMappedPtrs ∨ m = (r.start, r.stop) := by
    intro m hm
    rw [hptrs, List.mem_append, List.mem_singleton] at hm
    exact hm
  refine ⟨?_, fun m hm => ?_, fun m hm => ?_, fun m hm => ?_⟩
  · rw [hptrs, List.reverse_append]
    refine h.descending.cons fun m hm => ?_
    have hle := h.stop m (List.mem_reverse.mp hm)
    show m.2.toNat ≤ r.start.toNat
    omega
  · rcases hmem m hm with hm | rfl
    · exact h.start m hm
    · exact Nat.le_trans hstart hbehind
  · rcases hmem m hm with hm | rfl
    · exact h.filled m hm
    · show r.start.toNat < r.stop.toNat
      omega
  · rw [hheap]
    rcases hmem m hm with hm | rfl
    · have hle := h.stop m hm
      omega
    · exact Nat.le_refl _

end Vector

/-! ## The ranges of the allocations -/

/-- A host mapped range is that of the allocation, or has no address of it. -/
def HeapRange.OwnOrApart (r : HeapRange) (m : NvU64 × NvU64) : Prop :=
  m = (r.start, r.stop) ∨ m.2.toNat ≤ r.start.toNat ∨ r.stop.toNat ≤ m.1.toNat

section Allocation

variable {v : Vm} {r : HeapRange} {m : NvU64 × NvU64} {p : NvU64}

theorem HeapRange.Taken.contains_own (h : r.Taken v) :
    Intervals.Contains (r.start, r.stop) p ↔ r.Contains p := by
  rw [mem_range_iff, h.contains_iff, h.toNat_stop]

/-- A host mapped range that contains the start of an allocation is that of the allocation. -/
theorem HeapRange.OwnOrApart.contains_start (hown : r.OwnOrApart m) (h : r.Taken v)
    (hfilled : 0 < r.size.toNat) : Intervals.Contains m r.start ↔ m = (r.start, r.stop) := by
  have hstop := h.toNat_stop
  constructor
  · intro hm
    have hm := mem_range_iff.mp hm
    rcases hown with hown | hfront | hbehind
    · exact hown
    · omega
    · omega
  · rintro rfl
    rw [h.contains_own, h.contains_iff]
    omega

/-- Any other one has no address of the allocation. -/
theorem HeapRange.OwnOrApart.not_contains (hown : r.OwnOrApart m) (h : r.Taken v)
    (hne : m ≠ (r.start, r.stop)) (hm : Intervals.Contains m p) : ¬ r.Contains p := by
  have hstop := h.toNat_stop
  have hm := mem_range_iff.mp hm
  rw [h.contains_iff]
  rcases hown with hown | hfront | hbehind
  · exact absurd hown hne
  · omega
  · omega

end Allocation

/-- **The invariant**: the host mapped ranges ascend, and one that meets an allocation is the range
of it. -/
structure Heap.MappedSound (h : Heap) : Prop where
  sound : h.Sound
  ascends : h.vm.Ascends
  filled : ∀ r ∈ h.ranges, 0 < r.size.toNat
  own : ∀ r ∈ h.ranges, ∀ m ∈ h.vm.hostMappedPtrs, r.OwnOrApart m

/-- **A free unmaps its allocation**: it takes out the one range that contains its start. -/
theorem Heap.MappedSound.unmaps {h : Heap} (hsound : h.MappedSound) {r : HeapRange}
    (hr : r ∈ h.ranges) : h.Unmaps r := by
  intro replies v' hfree
  have htaken := hsound.sound.taken r hr
  obtain ⟨hfrees, rfl⟩ := (wp_of_call hfree).mp (wp_gpuFree_frees _ r.start)
  have hheap : ((h.vm.answering replies).freed r.start).uvmVaddr = h.vm.uvmVaddr := hfrees.freed.1
  have hptrs : ((h.vm.answering replies).freed r.start).hostMappedPtrs =
      eraseMapped r.start h.vm.hostMappedPtrs := hfrees.freed.2
  have hafter : ∀ p, isHostMappedPtr ((h.vm.answering replies).freed r.start) p = true ↔
      ∃ m ∈ h.vm.hostMappedPtrs, m ≠ (r.start, r.stop) ∧ Contains m p := by
    intro p
    rw [isHostMappedPtr_iff (hsound.ascends.eraseMapped hheap hptrs), hptrs]
    refine exists_congr fun m => ?_
    rw [mem_eraseMapped_iff hsound.ascends.descending, and_assoc]
    refine and_congr_right fun hm => ?_
    rw [(hsound.own r hr m hm).contains_start htaken (hsound.filled r hr)]
  refine ⟨fun p hp => ?_, fun p hp => ?_⟩
  · rw [Bool.eq_false_iff, ne_eq, hafter]
    rintro ⟨m, hm, hne, hcontains⟩
    exact (hsound.own r hr m hm).not_contains htaken hne hcontains hp
  · rw [Bool.eq_iff_iff, hafter, isHostMappedPtr_iff hsound.ascends]
    constructor
    · rintro ⟨m, hm, -, hcontains⟩
      exact ⟨m, hm, hcontains⟩
    · rintro ⟨m, hm, hcontains⟩
      refine ⟨m, hm, fun heq => hp ?_, hcontains⟩
      rw [heq] at hcontains
      exact htaken.contains_own.mp hcontains

theorem Heap.MappedSound.exact {h : Heap} (hsound : h.MappedSound) : h.MappedExact :=
  ⟨fun _ => isHostMappedPtr_iff hsound.ascends, fun _ hr => hsound.unmaps hr⟩

/-! ## Runs -/

theorem mappedSound_start : Heap.start.MappedSound :=
  ⟨sound_start, ⟨.nil, nofun, nofun, nofun⟩, nofun, nofun⟩

/-- A call that does not ask for zero bytes takes a range that is not empty. -/
theorem HeapCall.Positive.filled {v : Vm} {c : HeapCall} {r : HeapRange} (h : c.Positive)
    (htakes : c.takes v = some r) : 0 < r.requested.toNat := by
  cases c with
  | gpuAlloc size hugePages mapToCpu =>
    obtain rfl := Option.some.inj htakes
    exact h
  | gpuSystemAlloc size mapToCpu =>
    obtain rfl := Option.some.inj htakes
    exact h
  | registerChannel =>
    obtain rfl := Option.some.inj htakes
    exact (by decide : 0 < (0x4000000 : NvU64).toNat)
  | gpuFree va => cases htakes

/-- A new range, returned or not, mapped to the host or not. -/
theorem Heap.MappedSound.take {h h' : Heap} {o : Option HeapRange} {r : HeapRange}
    (hsound : h.MappedSound) (hsound' : h'.Sound) (hnew : r.New h.vm) (hfilled : 0 < r.size.toNat)
    (hranges : h'.ranges = o.toList ++ h.ranges) (hreturns : o = none ∨ o = some r)
    (hheap : h'.vm.uvmVaddr = r.stop)
    (hptrs : h'.vm.hostMappedPtrs = h.vm.hostMappedPtrs ∨
      h'.vm.hostMappedPtrs = h.vm.hostMappedPtrs ++ [(r.start, r.stop)]) : h'.MappedSound := by
  have hbehind := hnew.range.start
  have hstop := hnew.toNat_stop
  have hranges' : ∀ r' ∈ h'.ranges, r' ∈ h.ranges ∨ r' = r := by
    intro r' hr'
    rcases hreturns with rfl | rfl
    · rw [hranges] at hr'
      exact Or.inl hr'
    · rw [hranges] at hr'
      exact (List.mem_cons.mp hr').symm
  have hptrs' : ∀ m ∈ h'.vm.hostMappedPtrs,
      m ∈ h.vm.hostMappedPtrs ∨ m = (r.start, r.stop) := by
    intro m hm
    rcases hptrs with hptrs | hptrs
    · exact Or.inl (hptrs ▸ hm)
    · rw [hptrs, List.mem_append, List.mem_singleton] at hm
      exact hm
  refine ⟨hsound', ?_, fun r' hr' => ?_, fun r' hr' m hm => ?_⟩
  · rcases hptrs with hptrs | hptrs
    · exact hsound.ascends.mono (by rw [hheap]; omega) hptrs
    · exact hsound.ascends.append hnew hfilled hsound.sound.start hheap hptrs
  · rcases hranges' r' hr' with hr' | rfl
    · exact hsound.filled r' hr'
    · exact hfilled
  · rcases hranges' r' hr' with hr' | rfl
    · rcases hptrs' m hm with hm | rfl
      · exact hsound.own r' hr' m hm
      · have htaken := hsound.sound.taken r' hr'
        have hend := htaken.stop
        refine Or.inr (Or.inr ?_)
        rw [htaken.toNat_stop]
        exact Nat.le_trans hend hbehind
    · rcases hptrs' m hm with hm | rfl
      · exact Or.inr (Or.inl (Nat.le_trans (hsound.ascends.stop m hm) hbehind))
      · exact Or.inl rfl

/-- **A call keeps the invariant.** -/
theorem Heap.MappedSound.step {h h' : Heap} {e : HeapCall × (ℕ → SysReply)}
    (hsound : h.MappedSound) (hfits : e.1.Fits h.vm) (hpositive : e.1.Positive)
    (hstep : h.step e = some h') : h'.MappedSound := by
  have hsound' := (hsound.sound.step hfits hstep).1
  obtain ⟨o, hdoes, hranges⟩ := Heap.step_does hstep
  cases hdoes with
  | nothing heap ptrs =>
    have hsame : h'.ranges = h.ranges := hranges
    have hptrs : h'.vm.hostMappedPtrs = h.vm.hostMappedPtrs := ptrs
    refine ⟨hsound', hsound.ascends.mono (by rw [heap]; exact Nat.le_refl _) hptrs,
      hsame ▸ hsound.filled, ?_⟩
    rw [hsame, hptrs]
    exact hsound.own
  | @takes r o takes returns heap ptrs =>
    obtain ⟨hnew, -⟩ := HeapCall.Fits.new (v := h.vm) hsound.sound.start hfits takes
    have hfilled : 0 < r.size.toNat := Nat.lt_of_lt_of_le (hpositive.filled takes) hnew.enough
    exact hsound.take hsound' hnew hfilled hranges returns heap ptrs
  | @frees va heap ptrs =>
    have hsame : h'.ranges = h.ranges := hranges
    have hptrs : h'.vm.hostMappedPtrs = eraseMapped va h.vm.hostMappedPtrs := ptrs
    refine ⟨hsound', hsound.ascends.eraseMapped heap hptrs, hsame ▸ hsound.filled, ?_⟩
    rw [hsame, hptrs]
    intro r hr m hm
    rw [mem_eraseMapped_iff hsound.ascends.descending] at hm
    exact hsound.own r hr m hm.1

/-- **The lookup of host mapped addresses is exact** in every run whose calls ask for some bytes and
fit into the address space, whether they succeed or fail. -/
theorem host_mapped_exact {calls : List (HeapCall × (ℕ → SysReply))}
    (hfits : Meets Heap.step (fun h e => e.1.Fits h.vm) Heap.start calls)
    (hpositive : ∀ e ∈ calls, e.1.Positive) :
    Always Heap.step Heap.MappedExact Heap.start calls := by
  have hsound : Always Heap.step Heap.MappedSound Heap.start calls :=
    always_of_meets (fun _ _ _ hsound hcall hstep => hsound.step hcall.1 hcall.2 hstep)
      mappedSound_start (hfits.and (meets_of_forall hpositive))
  exact hsound.imp fun _ h => h.exact

/-- A mapped range, one that is not mapped, and another mapped one that is freed again. -/
theorem host_mapped_exact_sample : Always Heap.step Heap.MappedExact Heap.start
    [(.gpuAlloc 1 true true, granting), (.gpuSystemAlloc 1 true, granting),
      (.gpuAlloc 0x1001 false true, granting), (.gpuFree (uvmHeapStart + 0x201000), granting)] :=
  host_mapped_exact (meets_fits_of_total (by decide) (by decide)) (by decide)

theorem positive_churn (n : ℕ) (va : NvU64) : ∀ e ∈ churn n va, e.1.Positive := by
  induction n generalizing va with
  | zero => exact nofun
  | succ n ih =>
    intro e he
    rw [churn, List.mem_cons, List.mem_cons] at he
    rcases he with rfl | rfl | he
    · exact Nat.one_pos
    · exact trivial
    · exact ih _ e he

theorem positive_exhausting : ∀ e ∈ exhausting, e.1.Positive := by
  intro e he
  rw [exhausting, List.mem_cons, List.mem_append, List.mem_singleton] at he
  rcases he with rfl | he | rfl
  · exact Nat.one_pos
  · exact positive_churn _ _ e he
  · exact Nat.one_pos

/-- **Once the heap pointer has wrapped, the lookup misses** a range that is still mapped. -/
theorem exhausted_lookup : requestedTotal exhausting < 2 ^ 63 ∧
    (∀ e ∈ exhausting, e.1.Positive) ∧
    ¬ Always Heap.step Heap.MappedExact Heap.start exhausting := by
  refine ⟨requestedTotal_exhausting, positive_exhausting, fun halways => ?_⟩
  obtain ⟨h, hexec, hheap, hptrs, -⟩ := exec_exhausting
  have hcovers : Covers h.vm.hostMappedPtrs uvmHeapStart := by
    rw [hptrs]
    exact ⟨_, List.mem_singleton_self _, by decide⟩
  have hmapped := ((halways.exec hexec).exact uvmHeapStart).mpr hcovers
  have hdevice : isDevicePtr h.vm uvmHeapStart = false := by
    rw [Bool.eq_false_iff, ne_eq, isDevicePtr_iff, hheap]
    exact fun hin => absurd hin.2 (by decide)
  rw [isHostMappedPtr, hdevice] at hmapped
  exact Bool.false_ne_true hmapped

end LibreCuda
