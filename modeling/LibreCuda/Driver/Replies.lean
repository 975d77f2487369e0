import LibreCuda.Driver.Alloc

/-! # What the kernel driver answers

Every system call of an allocation can be refused on its own. This file states what the answers have
to be for `gpuAlloc` and `gpuFree` to succeed, and what they leave where they do not.

* **`Vm.Releases`**, **`Vm.Allocates`**: the kernel takes back and hands out memory.
* **`Vm.AllocStopped`**: how far an allocation came that failed, and what it left.
* **`failed_alloc_undone_iff`**: it is undone where `RM_ALLOC` was refused, and nowhere else. -/

namespace LibreCuda

open Exec

/-! ## Calls that succeed -/

section Vm

variable (v : Vm) (va : NvU64)

/-- The answer to one of the next system calls. -/
def Vm.reply (n : ℕ) : SysReply := v.sysReply (v.sysCalls + n)

/-- `gpuFree` succeeds: the address has a handle, and the kernel takes the call. -/
def Vm.Frees : Prop := (∃ handle, v.vaToMemHandle va = some handle) ∧ (v.reply 0).ret = true

/-- Local memory at an address can be given back; there is none at the null pointer. -/
def Vm.Releases : Prop := va ≠ 0 → v.Frees va

/-- `RM_ALLOC` hands out a handle. -/
def Vm.Grants : Prop := (v.reply 0).ret = true ∧ (v.reply 0).status = 0

/-- `memUVMMap` succeeds: neither of its arguments is null, and the kernel takes both calls. -/
structure Vm.Maps (handle : NvU32) : Prop where
  handle : handle ≠ 0
  va : va ≠ 0
  range : (v.reply 0).status = 0
  mapped : (v.reply 1).status = 0

/-- Some system calls later. -/
def Vm.later (n : ℕ) : Vm := { v with sysCalls := v.sysCalls + n }

/-- `gpuAlloc` of memory that is not mapped to the CPU succeeds. -/
structure Vm.Allocates (hugePages : Bool) : Prop where
  grants : v.Grants
  maps : (v.later 1).Maps (v.nextVa (gpuAllocAlignment hugePages)) (v.reply 0).handle

/-- The bookkeeping behind a `gpuFree` that the kernel took. -/
def Vm.freed : Vm :=
  match v.vaToMemHandle va with
  | none => v
  | some handle =>
    { v with
      sysCalls := v.sysCalls + 1
      liveHandles := if (v.reply 0).status = 0 then v.liveHandles.erase handle else v.liveHandles
      vaToMemHandle := Function.update v.vaToMemHandle va none
      hostMappedPtrs := eraseMapped va v.hostMappedPtrs }

/-- The bookkeeping behind a `gpuAlloc` of memory that is not mapped to the CPU. -/
def Vm.allocated (size : NvU64) (hugePages : Bool) : Vm :=
  { v with
    sysCalls := v.sysCalls + 3
    liveHandles := (v.reply 0).handle :: v.liveHandles
    uvmVaddr := v.nextVa (gpuAllocAlignment hugePages) + gpuAllocSize size hugePages
    vaToMemHandle := Function.update v.vaToMemHandle (v.nextVa (gpuAllocAlignment hugePages))
      (some (v.reply 0).handle) }

section Allocated

variable (size : NvU64) (hugePages : Bool)

@[simp] theorem Vm.allocated_uvmVaddr : (v.allocated size hugePages).uvmVaddr =
    v.nextVa (gpuAllocAlignment hugePages) + gpuAllocSize size hugePages := rfl

@[simp] theorem Vm.allocated_hostMappedPtrs :
    (v.allocated size hugePages).hostMappedPtrs = v.hostMappedPtrs := rfl

@[simp] theorem Vm.allocated_vaToMemHandle : (v.allocated size hugePages).vaToMemHandle =
    Function.update v.vaToMemHandle (v.nextVa (gpuAllocAlignment hugePages))
      (some (v.reply 0).handle) := rfl

end Allocated

/-- The bookkeeping behind giving back local memory. -/
def Vm.released : Vm := if va = 0 then v else v.freed va

/-- **`gpuFree`** succeeds exactly where there is a handle and the kernel takes the call. -/
theorem wp_gpuFree_frees : wp (gpuFree va) (fun _ v' => v.Frees va ∧ v' = v.freed va)
    (fun _ v' => ¬ v.Frees va ∧ v'.liveHandles = v.liveHandles) v := by
  rw [gpuFree, wp_bind, wp_get]
  split
  · rename_i hnone
    rw [wp_throw]
    refine ⟨?_, rfl⟩
    rintro ⟨⟨handle, hsome⟩, -⟩
    rw [hnone] at hsome
    cases hsome
  · rename_i handle hsome
    rw [wp_bind, sysCall, wp_bind, wp_get, wp_bind, wp_set, wp_pure, wp_bind, wp_validate]
    split
    · rename_i hret
      rw [wp_modify]
      refine ⟨⟨⟨handle, hsome⟩, hret⟩, ?_⟩
      rw [Vm.freed, hsome]
      rfl
    · rename_i hret
      exact ⟨fun hfrees => hret hfrees.2, rfl⟩

/-- A `gpuFree` that fails leaves the bookkeeping as it is. -/
theorem wp_gpuFree_refused :
    wp (gpuFree va) (fun _ _ => True) (fun _ v' => v.SameMemory v') v := by
  rw [gpuFree, wp_bind, wp_get]
  split
  · rw [wp_throw]
    exact Std.Refl.refl v
  · rw [wp_bind]
    refine wp_mono (keeps_sysCall v) (fun reply w hsame => ?_) (fun _ _ => id)
    rw [wp_bind, wp_validate]
    split
    · rw [wp_modify]
      trivial
    · exact hsame

/-- A free leaves the heap pointer, and takes the address out of the host mapped ranges. -/
theorem Vm.Frees.freed {v : Vm} {va : NvU64} (h : v.Frees va) :
    (v.freed va).uvmVaddr = v.uvmVaddr ∧
      (v.freed va).hostMappedPtrs = eraseMapped va v.hostMappedPtrs := by
  obtain ⟨⟨handle, hentry⟩, -⟩ := h
  rw [Vm.freed, hentry]
  exact ⟨rfl, rfl⟩

theorem wp_sysCall (ok : SysReply → Vm → Prop) (err : Failure → Vm → Prop) :
    wp sysCall ok err v ↔ ok (v.reply 0) (v.later 1) := by
  rw [sysCall, wp_bind, wp_get, wp_bind, wp_set, wp_pure]
  exact Iff.rfl

theorem wp_uvmIoctl (ok : Unit → Vm → Prop) (err : Failure → Vm → Prop) :
    wp uvmIoctl ok err v ↔ if (v.reply 0).status = 0 then ok () (v.later 1)
      else err (.status .unknown) (v.later 1) := by
  rw [uvmIoctl, wp_bind, wp_sysCall, wp_validate]
  simp only [beq_iff_eq]

/-- **`RM_ALLOC`** -/
theorem wp_rmAlloc_grants : wp rmAlloc
    (fun handle v' => v.Grants ∧ handle = (v.reply 0).handle ∧
      v' = { v.later 1 with liveHandles := (v.reply 0).handle :: v.liveHandles })
    (fun _ v' => ¬ v.Grants ∧ v'.liveHandles = v.liveHandles) v := by
  rw [rmAlloc, wp_bind, wp_sysCall, wp_bind, wp_validate]
  split
  · rename_i hret
    rw [wp_bind, wp_validate]
    split
    · rename_i hstatus
      rw [wp_bind, wp_modify, wp_pure]
      exact ⟨⟨hret, beq_iff_eq.mp hstatus⟩, rfl, rfl⟩
    · rename_i hstatus
      exact ⟨fun hgrants => hstatus (beq_iff_eq.mpr hgrants.2), rfl⟩
  · rename_i hret
    exact ⟨fun hgrants => hret hgrants.1, rfl⟩

/-- **`memUVMMap`** -/
theorem wp_memUVMMap_maps (handle : NvU32) : wp (memUVMMap handle va)
    (fun _ v' => v.Maps va handle ∧ v' = v.later 2)
    (fun _ v' => ¬ v.Maps va handle ∧ v'.liveHandles = v.liveHandles) v := by
  rw [memUVMMap, wp_bind, wp_validate]
  split
  swap
  · rename_i hzero
    exact ⟨fun hmaps => hzero (bne_iff_ne.mpr hmaps.handle), rfl⟩
  rename_i hhandle
  rw [wp_bind, wp_validate]
  split
  swap
  · rename_i hzero
    exact ⟨fun hmaps => hzero (bne_iff_ne.mpr hmaps.va), rfl⟩
  rename_i hva
  rw [wp_bind, wp_uvmIoctl]
  split
  swap
  · rename_i hrange
    exact ⟨fun hmaps => hrange hmaps.range, rfl⟩
  rename_i hrange
  rw [wp_uvmIoctl]
  split
  · rename_i hmapped
    exact ⟨⟨bne_iff_ne.mp hhandle, bne_iff_ne.mp hva, hrange, hmapped⟩, rfl⟩
  · rename_i hmapped
    exact ⟨fun hmaps => hmapped hmaps.mapped, rfl⟩

end Vm

/-! ## Allocations that fail -/

section Stopped

variable (v : Vm) (size : NvU64) (hugePages mapToCpu : Bool)

/-- The range of the CPU mapping of an allocation. -/
def Vm.mappedRange : NvU64 × NvU64 :=
  (v.nextVa (gpuAllocAlignment hugePages),
    v.nextVa (gpuAllocAlignment hugePages) + gpuAllocSize size hugePages)

/-- How far an allocation came that failed, and what it left: nothing where `RM_ALLOC` was refused,
the new handle where it could not be mapped to the device, and an entry for the CPU as well where
it could not be mapped there. -/
inductive Vm.AllocStopped (v' : Vm) : Prop
  | refused (grants : ¬ v.Grants) (handles : v'.liveHandles = v.liveHandles)
    (ptrs : v'.hostMappedPtrs = v.hostMappedPtrs)
  | unmapped (grants : v.Grants) (allocates : ¬ v.Allocates hugePages)
    (handles : v'.liveHandles = (v.reply 0).handle :: v.liveHandles)
    (ptrs : v'.hostMappedPtrs = v.hostMappedPtrs)
  | notOnCpu (allocates : v.Allocates hugePages) (mapped : mapToCpu = true)
    (handles : v'.liveHandles = (v.reply 0).handle :: v.liveHandles)
    (ptrs : v'.hostMappedPtrs = v.hostMappedPtrs ++ [v.mappedRange size hugePages])

/-- **`gpuAlloc`** enters an address only when it succeeds; what else it leaves depends on where it
stopped. -/
theorem wp_gpuAlloc_stopped : wp (gpuAlloc size hugePages mapToCpu)
    (fun r v' => v.Allocates hugePages ∧ r.1 = v.nextVa (gpuAllocAlignment hugePages) ∧
      (mapToCpu = false → v' = v.allocated size hugePages) ∧
      (mapToCpu = true →
        v'.hostMappedPtrs = v.hostMappedPtrs ++ [v.mappedRange size hugePages]))
    (fun _ v' => v'.vaToMemHandle = v.vaToMemHandle ∧
      v.AllocStopped size hugePages mapToCpu v') v := by
  show wp (rmAlloc >>= _) _ _ v
  rw [wp_bind]
  refine wp_mono (wp_and (wp_rmAlloc_grants v) (wp_rmAlloc v)) (fun handle v₁ h₁ => ?_)
    (fun _ v₁ h₁ => ?_)
  swap
  · obtain ⟨⟨hrefused, hlive⟩, hsame⟩ := h₁
    exact ⟨hsame.vaToMemHandle, .refused hrefused hlive hsame.hostMappedPtrs⟩
  obtain ⟨⟨hgrants, rfl, rfl⟩, -⟩ := h₁
  rw [wp_bind]
  refine wp_mono (wp_bumpAllocVirtualAddr _ _ _) (fun va v₂ h₂ => ?_) (fun _ _ => False.elim)
  obtain ⟨hva, hv₂⟩ := h₂
  have hnext : va = v.nextVa (gpuAllocAlignment hugePages) := by
    rw [hva]
    show Vm.nextVa _ (((gpuAllocAlignment hugePages).setWidth 32).setWidth 64) = _
    rw [setWidth_gpuAllocAlignment]
    rfl
  -- the bump of the address asks the kernel nothing, so that the next replies are the same
  have hmaps : v₂.Maps va (v.reply 0).handle ↔
      (v.later 1).Maps (v.nextVa (gpuAllocAlignment hugePages)) (v.reply 0).handle := by
    rw [hv₂, ← hnext]
    exact ⟨fun h => ⟨h.handle, h.va, h.range, h.mapped⟩,
      fun h => ⟨h.handle, h.va, h.range, h.mapped⟩⟩
  have hlive₂ : v₂.liveHandles = (v.reply 0).handle :: v.liveHandles := by rw [hv₂]
  have hptrs₂ : v₂.hostMappedPtrs = v.hostMappedPtrs := by
    rw [hv₂]
    rfl
  have hentries₂ : v₂.vaToMemHandle = v.vaToMemHandle := by
    rw [hv₂]
    rfl
  rw [wp_bind]
  refine wp_mono (wp_and (wp_memUVMMap_maps v₂ va _) (keeps_memUVMMap _ va v₂))
    (fun _ v₃ h₃ => ?_) (fun _ v₃ h₃ => ?_)
  swap
  · obtain ⟨⟨hrefused, -⟩, hsame⟩ := h₃
    exact ⟨hsame.vaToMemHandle.trans hentries₂,
      .unmapped hgrants (fun halloc => hrefused (hmaps.mpr halloc.maps))
        (hsame.liveHandles.trans hlive₂) (hsame.hostMappedPtrs.trans hptrs₂)⟩
  obtain ⟨⟨hmapped, hv₃⟩, hsame⟩ := h₃
  -- from here on the device has the memory, and only the CPU mapping can fail
  have hallocates : v.Allocates hugePages := ⟨hgrants, hmaps.mp hmapped⟩
  have hptrs₃ : v₃.hostMappedPtrs ++ [(va, va + gpuAllocSize size hugePages)] =
      v.hostMappedPtrs ++ [v.mappedRange size hugePages] := by
    rw [hsame.hostMappedPtrs, hptrs₂, hnext]
    rfl
  rw [wp_bind, wp_onlyIf]
  split
  · rename_i hcpu
    rw [wp_bind, wp_modify]
    refine wp_mono (keeps_memMapToCpu _ false _) (fun _ v₄ h₄ => ?_) (fun _ v₄ h₄ => ?_)
    · rw [wp_bind, wp_modify, wp_pure]
      refine ⟨hallocates, hnext, fun hfalse => ?_, fun _ => h₄.hostMappedPtrs.trans hptrs₃⟩
      exact absurd (hcpu.symm.trans hfalse) (by decide)
    · exact ⟨h₄.vaToMemHandle.trans (hsame.vaToMemHandle.trans hentries₂),
        .notOnCpu hallocates hcpu (h₄.liveHandles.trans (hsame.liveHandles.trans hlive₂))
          (h₄.hostMappedPtrs.trans hptrs₃)⟩
  · rename_i hcpu
    rw [wp_bind, wp_modify, wp_pure]
    refine ⟨hallocates, hnext, fun _ => ?_, fun htrue => absurd htrue hcpu⟩
    rw [hv₃, hv₂, hnext]
    rfl

/-- Behind `RM_ALLOC`, the heap pointer has moved, whether the allocation fails or not. -/
theorem wp_gpuAlloc_moved : wp (gpuAlloc size hugePages mapToCpu) (fun _ _ => True)
    (fun _ v' => v.Grants → v'.uvmVaddr = (v.mappedRange size hugePages).2) v := by
  show wp (rmAlloc >>= _) _ _ v
  rw [wp_bind]
  refine wp_mono (wp_rmAlloc_grants v) (fun handle v₁ h₁ => ?_)
    (fun _ _ h hgrants => absurd hgrants h.1)
  obtain ⟨-, -, rfl⟩ := h₁
  rw [wp_bind]
  refine wp_mono (wp_bumpAllocVirtualAddr _ _ _) (fun va v₂ h₂ => ?_) (fun _ _ => False.elim)
  obtain ⟨hva, hv₂⟩ := h₂
  have hheap : v₂.uvmVaddr = (v.mappedRange size hugePages).2 := by
    rw [hv₂, hva]
    show Vm.nextVa _ (((gpuAllocAlignment hugePages).setWidth 32).setWidth 64) + _ = _
    rw [setWidth_gpuAllocAlignment]
    rfl
  rw [wp_bind]
  refine wp_mono (keeps_memUVMMap _ va v₂) (fun _ v₃ h₃ => ?_)
    (fun _ v₃ h₃ _ => h₃.uvmVaddr.trans hheap)
  rw [wp_bind, wp_onlyIf]
  split
  · rw [wp_bind, wp_modify]
    refine wp_mono (keeps_memMapToCpu _ false _) (fun _ v₄ _ => ?_)
      (fun _ v₄ h₄ _ => h₄.uvmVaddr.trans (h₃.uvmVaddr.trans hheap))
    rw [wp_bind, wp_modify, wp_pure]
    trivial
  · rw [wp_bind, wp_modify, wp_pure]
    trivial

/-- A failure behind `RM_ALLOC` leaves the new handle alive. -/
theorem wp_gpuAlloc_allocates : wp (gpuAlloc size hugePages false)
    (fun r v' => v.Allocates hugePages ∧ r.1 = v.nextVa (gpuAllocAlignment hugePages) ∧
      v' = v.allocated size hugePages)
    (fun _ v' => ¬ v.Allocates hugePages ∧ ∀ x, x ∈ v'.liveHandles ↔
      (v.Grants ∧ x = (v.reply 0).handle) ∨ x ∈ v.liveHandles) v := by
  refine wp_mono (wp_gpuAlloc_stopped v size hugePages false) (fun r v' h => ?_) (fun _ v' h => ?_)
  · exact ⟨h.1, h.2.1, h.2.2.1 rfl⟩
  · obtain ⟨-, hstopped⟩ := h
    cases hstopped with
    | refused grants handles ptrs =>
      refine ⟨fun halloc => grants halloc.grants, fun x => ?_⟩
      rw [handles]
      exact ⟨Or.inr, fun hx => hx.resolve_left fun hnew => grants hnew.1⟩
    | unmapped grants allocates handles ptrs =>
      refine ⟨allocates, fun x => ?_⟩
      rw [handles, List.mem_cons, and_iff_right grants]
    | notOnCpu allocates mapped handles ptrs => cases mapped

end Stopped

/-- Nothing is left of an allocation: the tables are as before, and so are the handles that were
obtained and not released. -/
structure Vm.Undone (v v' : Vm) : Prop where
  entries : v'.vaToMemHandle = v.vaToMemHandle
  ptrs : v'.hostMappedPtrs = v.hostMappedPtrs
  handles : v'.liveHandles = v.liveHandles

/-- `gpuAlloc` from its checks on; `ctx` and `pVaOut` say whether these pointers are there. -/
def gpuAllocChecked (ctx pVaOut : Bool) (size : NvU64) (hugePages mapToCpu : Bool) :
    Exec Vm Failure (NvU64 × NvU32) := do
  validate ctx .invalidValue
  validate pVaOut .invalidValue
  gpuAlloc size hugePages mapToCpu

/-- **A failed allocation is undone if and only if** it failed before it had a handle: a pointer is
missing, or the call that was refused is `RM_ALLOC`. -/
theorem failed_alloc_undone_iff {v v' : Vm} {ctx pVaOut : Bool} {size : NvU64}
    {hugePages mapToCpu : Bool} {e : Failure}
    (h : call (gpuAllocChecked ctx pVaOut size hugePages mapToCpu) v = (.error e, v')) :
    v.Undone v' ↔ ctx = false ∨ pVaOut = false ∨ ¬ v.Grants := by
  suffices hwp : wp (gpuAllocChecked ctx pVaOut size hugePages mapToCpu) (fun _ _ => True)
      (fun _ v' => v.Undone v' ↔ ctx = false ∨ pVaOut = false ∨ ¬ v.Grants) v from
    (wp_of_call_error h).mp hwp
  rw [gpuAllocChecked, wp_bind, wp_validate]
  cases ctx with
  | false => exact ⟨fun _ => Or.inl rfl, fun _ => ⟨rfl, rfl, rfl⟩⟩
  | true =>
    rw [if_pos rfl, wp_bind, wp_validate]
    cases pVaOut with
    | false => exact ⟨fun _ => Or.inr (Or.inl rfl), fun _ => ⟨rfl, rfl, rfl⟩⟩
    | true =>
      rw [if_pos rfl]
      refine wp_mono (wp_gpuAlloc_stopped v size hugePages mapToCpu) (fun _ _ _ => trivial)
        (fun _ w hw => ?_)
      obtain ⟨hentries, hstopped⟩ := hw
      have hnew : (v.reply 0).handle :: v.liveHandles ≠ v.liveHandles := List.cons_ne_self _ _
      cases hstopped with
      | refused grants handles ptrs =>
        exact ⟨fun _ => Or.inr (Or.inr grants), fun _ => ⟨hentries, ptrs, handles⟩⟩
      | unmapped grants allocates handles ptrs =>
        refine ⟨fun hundone => absurd (handles.symm.trans hundone.handles) hnew, fun hearly => ?_⟩
        simp [grants] at hearly
      | notOnCpu allocates mapped handles ptrs =>
        refine ⟨fun hundone => absurd (handles.symm.trans hundone.handles) hnew, fun hearly => ?_⟩
        simp [allocates.grants] at hearly

/-- A context whose kernel hands out handle 1 and refuses one call. -/
def refusing (n : ℕ) : Vm where
  uvmVaddr := uvmHeapStart
  sysReply := fun k => { ret := k != n, status := if k = n then 1 else 0, handle := 1 }

theorem failed_alloc_undone_iff_sample :
    (refusing 0).Undone (call (gpuAllocChecked true true 0x1000 false true) (refusing 0)).2 ↔
      true = false ∨ true = false ∨ ¬ (refusing 0).Grants :=
  @failed_alloc_undone_iff (refusing 0) _ true true 0x1000 false true (.status .unknown)
    (Prod.ext (by decide +kernel) rfl)

/-- **A refused mapping leaks**: the handle stays alive, and where the CPU mapping was refused, the
entry for it stays as well. -/
theorem refused_mapping_leaks :
    (call (gpuAllocChecked true true 0x1000 false true) (refusing 1)).1 =
        .error (.status .unknown) ∧
      (call (gpuAllocChecked true true 0x1000 false true) (refusing 1)).2.liveHandles = [1] ∧
      (call (gpuAllocChecked true true 0x1000 false true) (refusing 6)).1 =
        .error (.status .unknown) ∧
      (call (gpuAllocChecked true true 0x1000 false true) (refusing 6)).2.hostMappedPtrs =
        [(uvmHeapStart, uvmHeapStart + 0x1000)] ∧
      ¬ (refusing 1).Undone (call (gpuAllocChecked true true 0x1000 false true) (refusing 1)).2 := by
  refine ⟨by decide +kernel, by decide +kernel, by decide +kernel, by decide +kernel, fun h => ?_⟩
  exact absurd h.handles (by decide +kernel)

end LibreCuda
