import LibreCuda.Driver.State

/-! # Device memory

`bump_alloc_virtual_addr`, `memUVMMap`, `memMapToCpu`, `gpuAlloc`, `gpuFree` and `gpuSystemAlloc`.
Every system call consumes one reply of the state, so each of them can succeed or fail on its own.
What only the kernel reads (attribute words, map flags, descriptors) is left out. -/

namespace LibreCuda

/-- `UVM_HEAP_START`. -/
def uvmHeapStart : NvU64 := 0x1000000000

/-- Make one system call and take its answer. -/
def sysCall : Exec Vm Failure SysReply := do
  let v ← get
  set { v with sysCalls := v.sysCalls + 1 }
  pure (v.sysReply v.sysCalls)

/-- `NV_IOWR`: only the return value of the call is looked at. -/
def nvIowr : Exec Vm Failure Unit := do
  let reply ← sysCall
  validate reply.ret .unknown

/-- `UVM_IOCTL`: only the status field is looked at. -/
def uvmIoctl : Exec Vm Failure Unit := do
  let reply ← sysCall
  validate (reply.status == 0) .unknown

/-- `RM_ALLOC` of a memory object: the new handle. -/
def rmAlloc : Exec Vm Failure NvU32 := do
  let reply ← sysCall
  validate reply.ret .unknown
  validate (reply.status == 0) .unknown
  modify fun v => { v with liveHandles := reply.handle :: v.liveHandles }
  pure reply.handle

/-- `bump_alloc_virtual_addr`: the next free address, aligned; the heap pointer moves past it. -/
def bumpAllocVirtualAddr (size : NvU64) (alignment : NvU32 := 4 <<< 10) :
    Exec Vm Failure NvU64 := do
  let v ← get
  let align := alignment.setWidth 64
  let slack := v.uvmVaddr % align
  let vaAddress := if slack ≠ 0 then v.uvmVaddr + (align - slack) else v.uvmVaddr
  set { v with uvmVaddr := vaAddress + size }
  pure vaAddress

/-- `memUVMMap`: create the external range and map the memory into it. -/
def memUVMMap (memoryHandle : NvU32) (virtualAddress : NvU64) : Exec Vm Failure Unit := do
  validate (memoryHandle != 0) .invalidValue
  validate (virtualAddress != 0) .invalidValue
  uvmIoctl
  uvmIoctl

/-- `memMapToCpu` at a given address. A device allocation registers the descriptor it opened. -/
def memMapToCpu (memoryHandle : NvU32) (isSystemAlloc : Bool) : Exec Vm Failure Unit := do
  validate (memoryHandle != 0) .invalidValue
  let opened ← sysCall
  validate opened.ret .invalidDevice
  Exec.onlyIf (!isSystemAlloc) nvIowr
  nvIowr
  let mapped ← sysCall
  validate mapped.ret .unknown

/-- `gpuAlloc`: the address and the memory handle of a new device allocation. -/
def gpuAlloc (size : NvU64) (hugePages mapToCpu : Bool) : Exec Vm Failure (NvU64 × NvU32) := do
  let alignment : NvU64 := if hugePages then 2 <<< 20 else 4 <<< 10
  let size := ceilDiv size alignment * alignment
  let memoryHandle ← rmAlloc
  let vaAddress ← bumpAllocVirtualAddr size (alignment.setWidth 32)
  memUVMMap memoryHandle vaAddress
  Exec.onlyIf mapToCpu do
    modify fun v => { v with hostMappedPtrs := v.hostMappedPtrs ++ [(vaAddress, vaAddress + size)] }
    memMapToCpu memoryHandle false
  modify fun v => { v with vaToMemHandle := Function.update v.vaToMemHandle vaAddress memoryHandle }
  pure (vaAddress, memoryHandle)

/-- Drop the last range that contains the address (the reverse scan of `gpuFree`). -/
def eraseMapped (virtualAddress : NvU64) (ranges : List (NvU64 × NvU64)) : List (NvU64 × NvU64) :=
  (ranges.reverse.eraseP fun r => virtualAddress < r.2 && r.1 ≤ virtualAddress).reverse

/-- `gpuFree`: release the handle recorded for the address. The status the kernel reports for the
release is not looked at. -/
def gpuFree (virtualAddress : NvU64) : Exec Vm Failure Unit := do
  let v ← get
  match v.vaToMemHandle virtualAddress with
  | none => throw (.status .invalidValue)
  | some memHandle =>
    let reply ← sysCall
    validate reply.ret .unknown
    modify fun v => { v with
      liveHandles := if reply.status = 0 then v.liveHandles.erase memHandle else v.liveHandles
      vaToMemHandle := Function.update v.vaToMemHandle virtualAddress none
      hostMappedPtrs := eraseMapped virtualAddress v.hostMappedPtrs }

/-- `gpuSystemAlloc`: the address and the memory handle of a new system allocation, which is not
recorded in `va_to_mem_handle`. -/
def gpuSystemAlloc (size : NvU64) (mapToCpu : Bool) : Exec Vm Failure (NvU64 × NvU32) := do
  let memoryHandle ← rmAlloc
  let vaAddress ← bumpAllocVirtualAddr size (4 <<< 10)
  Exec.onlyIf mapToCpu (memMapToCpu memoryHandle true)
  memUVMMap memoryHandle vaAddress
  pure (vaAddress, memoryHandle)

/-! ## The heap pointer -/

/-- The alignment `gpuAlloc` chooses. -/
def gpuAllocAlignment (hugePages : Bool) : NvU64 := if hugePages then 2 <<< 20 else 4 <<< 10

/-- The size `gpuAlloc` rounds up to. -/
def gpuAllocSize (size : NvU64) (hugePages : Bool) : NvU64 :=
  ceilDiv size (gpuAllocAlignment hugePages) * gpuAllocAlignment hugePages

/-- The address the next allocation gets. -/
def Vm.nextVa (v : Vm) (alignment : NvU64) : NvU64 :=
  if v.uvmVaddr % alignment ≠ 0 then v.uvmVaddr + (alignment - v.uvmVaddr % alignment)
  else v.uvmVaddr

/-- The next address is at most one alignment away. -/
theorem nextVa_bounds {v : Vm} {alignment : NvU64} (hpos : 0 < alignment.toNat)
    (h : v.uvmVaddr.toNat + alignment.toNat ≤ 2 ^ 64) :
    v.uvmVaddr.toNat ≤ (v.nextVa alignment).toNat ∧
      (v.nextVa alignment).toNat < v.uvmVaddr.toNat + alignment.toNat := by
  unfold Vm.nextVa
  have hslack : (v.uvmVaddr % alignment).toNat = v.uvmVaddr.toNat % alignment.toNat :=
    BitVec.toNat_umod
  have hlt : v.uvmVaddr.toNat % alignment.toNat < alignment.toNat := Nat.mod_lt _ hpos
  split_ifs with hzero
  · have hne : v.uvmVaddr.toNat % alignment.toNat ≠ 0 := by
      intro h0
      exact hzero (BitVec.eq_of_toNat_eq (hslack.trans h0))
    have hsub : (alignment - v.uvmVaddr % alignment).toNat =
        alignment.toNat - v.uvmVaddr.toNat % alignment.toNat := by
      rw [BitVec.toNat_sub_of_le (by rw [BitVec.le_def, hslack]; omega), hslack]
    rw [BitVec.toNat_add, hsub, Nat.mod_eq_of_lt (by omega)]
    omega
  · omega

/-- The size of an allocation that does not run past the address space. -/
theorem gpuAllocSize_bounds {size : NvU64} {hugePages : Bool}
    (h : size.toNat + (gpuAllocAlignment hugePages).toNat < 2 ^ 64) :
    size.toNat ≤ (gpuAllocSize size hugePages).toNat ∧
      (gpuAllocSize size hugePages).toNat < size.toNat + (gpuAllocAlignment hugePages).toNat := by
  have hpos : 0 < (gpuAllocAlignment hugePages).toNat := by cases hugePages <;> decide
  have hround := toNat_roundUp size (gpuAllocAlignment hugePages) hpos h
  have hsize : gpuAllocSize size hugePages = roundUp size (gpuAllocAlignment hugePages) := rfl
  have hdiv := Nat.div_add_mod (size.toNat + (gpuAllocAlignment hugePages).toNat - 1)
    (gpuAllocAlignment hugePages).toNat
  have hmod := Nat.mod_lt (size.toNat + (gpuAllocAlignment hugePages).toNat - 1) hpos
  rw [Nat.mul_comm] at hdiv
  rw [hsize, hround]
  omega

/-! ## What the calls do to the bookkeeping -/

/-- No memory was taken or given back. -/
structure Vm.SameMemory (v v' : Vm) : Prop where
  uvmVaddr : v'.uvmVaddr = v.uvmVaddr
  hostMappedPtrs : v'.hostMappedPtrs = v.hostMappedPtrs
  vaToMemHandle : v'.vaToMemHandle = v.vaToMemHandle
  liveHandles : v'.liveHandles = v.liveHandles
  sysReply : v'.sysReply = v.sysReply

instance : IsPreorder Vm Vm.SameMemory where
  refl _ := ⟨rfl, rfl, rfl, rfl, rfl⟩
  trans _ _ _ h h' := ⟨h'.uvmVaddr.trans h.uvmVaddr, h'.hostMappedPtrs.trans h.hostMappedPtrs,
    h'.vaToMemHandle.trans h.vaToMemHandle, h'.liveHandles.trans h.liveHandles,
    h'.sysReply.trans h.sysReply⟩

open Exec

theorem keeps_sysCall : Keeps Vm.SameMemory sysCall := by
  intro v
  rw [sysCall, wp_bind, wp_get, wp_bind, wp_set, wp_pure]
  exact ⟨rfl, rfl, rfl, rfl, rfl⟩

theorem keeps_nvIowr : Keeps Vm.SameMemory nvIowr :=
  keeps_sysCall.bind fun _ => keeps_require _ _

theorem keeps_uvmIoctl : Keeps Vm.SameMemory uvmIoctl :=
  keeps_sysCall.bind fun _ => keeps_require _ _

theorem keeps_memUVMMap (memoryHandle : NvU32) (virtualAddress : NvU64) :
    Keeps Vm.SameMemory (memUVMMap memoryHandle virtualAddress) :=
  (keeps_require _ _).bind fun _ => (keeps_require _ _).bind fun _ =>
    keeps_uvmIoctl.bind fun _ => keeps_uvmIoctl

theorem keeps_memMapToCpu (memoryHandle : NvU32) (isSystemAlloc : Bool) :
    Keeps Vm.SameMemory (memMapToCpu memoryHandle isSystemAlloc) :=
  (keeps_require _ _).bind fun _ => keeps_sysCall.bind fun _ => (keeps_require _ _).bind fun _ =>
    (keeps_nvIowr.onlyIf _).bind fun _ => keeps_nvIowr.bind fun _ =>
      keeps_sysCall.bind fun _ => keeps_require _ _

/-- What an allocation that failed can have left behind: a handle, and a moved heap pointer. -/
structure Vm.Leaked (v v' : Vm) (va size : NvU64) : Prop where
  uvmVaddr : v'.uvmVaddr = v.uvmVaddr ∨ v'.uvmVaddr = va + size
  vaToMemHandle : v'.vaToMemHandle = v.vaToMemHandle
  liveHandles : v'.liveHandles = v.liveHandles ∨ ∃ handle, v'.liveHandles = handle :: v.liveHandles

/-- What a device allocation did. -/
structure Vm.Allocated (v v' : Vm) (va size : NvU64) (handle : NvU32) : Prop where
  uvmVaddr : v'.uvmVaddr = va + size
  vaToMemHandle : v'.vaToMemHandle = Function.update v.vaToMemHandle va (some handle)
  liveHandles : v'.liveHandles = handle :: v.liveHandles

/-- What a system allocation did: the map has no entry for it. -/
structure Vm.SystemAllocated (v v' : Vm) (va size : NvU64) (handle : NvU32) : Prop where
  uvmVaddr : v'.uvmVaddr = va + size
  vaToMemHandle : v'.vaToMemHandle = v.vaToMemHandle
  liveHandles : v'.liveHandles = handle :: v.liveHandles

theorem Vm.SameMemory.leaked {v v' : Vm} (h : v.SameMemory v') (va size : NvU64) :
    v.Leaked v' va size :=
  ⟨Or.inl h.uvmVaddr, h.vaToMemHandle, Or.inl h.liveHandles⟩

/-- A new handle, and nothing else. -/
theorem wp_rmAlloc (v : Vm) : wp rmAlloc
    (fun handle v' => v'.uvmVaddr = v.uvmVaddr ∧ v'.vaToMemHandle = v.vaToMemHandle ∧
      v'.liveHandles = handle :: v.liveHandles) (fun _ => v.SameMemory) v := by
  rw [rmAlloc, wp_bind]
  refine wp_mono (keeps_sysCall v) (fun reply w hsame => ?_) (fun _ _ => id)
  rw [wp_bind, wp_validate]
  split
  · rw [wp_bind, wp_validate]
    split
    · rw [wp_bind, wp_modify, wp_pure]
      exact ⟨hsame.uvmVaddr, hsame.vaToMemHandle, congrArg _ hsame.liveHandles⟩
    · exact hsame
  · exact hsame

/-- The heap pointer moves to the end of the new range. -/
theorem wp_bumpAllocVirtualAddr (size : NvU64) (alignment : NvU32) (v : Vm) :
    wp (bumpAllocVirtualAddr size alignment)
      (fun va v' => va = v.nextVa (alignment.setWidth 64) ∧ v' = { v with uvmVaddr := va + size })
      (fun _ _ => False) v := by
  rw [bumpAllocVirtualAddr, wp_bind, wp_get, wp_bind, wp_set, wp_pure]
  exact ⟨rfl, rfl⟩

theorem setWidth_gpuAllocAlignment (hugePages : Bool) :
    ((gpuAllocAlignment hugePages).setWidth 32).setWidth 64 = gpuAllocAlignment hugePages := by
  cases hugePages with
  | true => decide
  | false => decide

/-- **`gpuAlloc`** takes the next range of the heap and enters its handle under the address. -/
theorem wp_gpuAlloc (size : NvU64) (hugePages mapToCpu : Bool) (v : Vm) :
    wp (gpuAlloc size hugePages mapToCpu)
      (fun r v' => r.1 = v.nextVa (gpuAllocAlignment hugePages) ∧
        v.Allocated v' r.1 (gpuAllocSize size hugePages) r.2)
      (fun _ v' => v.Leaked v' (v.nextVa (gpuAllocAlignment hugePages))
        (gpuAllocSize size hugePages)) v := by
  show wp (rmAlloc >>= _) _ _ v
  rw [wp_bind]
  refine wp_mono (wp_rmAlloc v) (fun handle v₁ h₁ => ?_) (fun _ _ h => h.leaked _ _)
  obtain ⟨hva₁, hmap₁, hlive₁⟩ := h₁
  rw [wp_bind]
  refine wp_mono (wp_bumpAllocVirtualAddr _ _ v₁) (fun va v₂ h₂ => ?_) (fun _ _ => False.elim)
  obtain ⟨hva, rfl⟩ := h₂
  have hnext : va = v.nextVa (gpuAllocAlignment hugePages) := by
    rw [hva]
    show v₁.nextVa (((gpuAllocAlignment hugePages).setWidth 32).setWidth 64) = _
    rw [setWidth_gpuAllocAlignment, Vm.nextVa, hva₁]
    rfl
  -- a call that fails behind this point leaks the range and the handle
  have hleak : ∀ w : Vm, w.uvmVaddr = va + gpuAllocSize size hugePages →
      w.vaToMemHandle = v₁.vaToMemHandle → w.liveHandles = v₁.liveHandles →
      v.Leaked w (v.nextVa (gpuAllocAlignment hugePages)) (gpuAllocSize size hugePages) :=
    fun w hheap hmap hlive => ⟨Or.inr (hnext ▸ hheap), hmap.trans hmap₁,
      Or.inr ⟨handle, hlive.trans hlive₁⟩⟩
  rw [wp_bind]
  refine wp_mono (keeps_memUVMMap handle va _) (fun _ v₃ h₃ => ?_)
    (fun _ v₃ h₃ => hleak v₃ h₃.uvmVaddr h₃.vaToMemHandle h₃.liveHandles)
  have hend : ∀ w : Vm, w.uvmVaddr = va + gpuAllocSize size hugePages →
      w.vaToMemHandle = v₁.vaToMemHandle → w.liveHandles = v₁.liveHandles →
      wp (do
        modify fun v => { v with
          vaToMemHandle := Function.update v.vaToMemHandle va (some handle) }
        pure (va, handle) : Exec Vm Failure (NvU64 × NvU32))
        (fun r v' => r.1 = v.nextVa (gpuAllocAlignment hugePages) ∧
          v.Allocated v' r.1 (gpuAllocSize size hugePages) r.2)
        (fun _ v' => v.Leaked v' (v.nextVa (gpuAllocAlignment hugePages))
          (gpuAllocSize size hugePages)) w := by
    intro w hheap hmap hlive
    rw [wp_bind, wp_modify, wp_pure]
    refine ⟨hnext, hheap, ?_, hlive.trans hlive₁⟩
    show Function.update w.vaToMemHandle va _ = _
    rw [hmap, hmap₁]
  rw [wp_bind, wp_onlyIf]
  split
  · rw [wp_bind, wp_modify]
    refine wp_mono (keeps_memMapToCpu handle false _) (fun _ v₄ h₄ => ?_) (fun _ v₄ h₄ => ?_)
    · exact hend v₄ (h₄.uvmVaddr.trans h₃.uvmVaddr) (h₄.vaToMemHandle.trans h₃.vaToMemHandle)
        (h₄.liveHandles.trans h₃.liveHandles)
    · exact hleak v₄ (h₄.uvmVaddr.trans h₃.uvmVaddr) (h₄.vaToMemHandle.trans h₃.vaToMemHandle)
        (h₄.liveHandles.trans h₃.liveHandles)
  · exact hend v₃ h₃.uvmVaddr h₃.vaToMemHandle h₃.liveHandles

/-- **`gpuSystemAlloc`** takes the next range of the heap. -/
theorem wp_gpuSystemAlloc (size : NvU64) (mapToCpu : Bool) (v : Vm) :
    wp (gpuSystemAlloc size mapToCpu)
      (fun r v' => r.1 = v.nextVa (4 <<< 10) ∧ v.SystemAllocated v' r.1 size r.2)
      (fun _ v' => v.Leaked v' (v.nextVa (4 <<< 10)) size) v := by
  rw [gpuSystemAlloc, wp_bind]
  refine wp_mono (wp_rmAlloc v) (fun handle v₁ h₁ => ?_) (fun _ _ h => h.leaked _ _)
  obtain ⟨hva₁, hmap₁, hlive₁⟩ := h₁
  rw [wp_bind]
  refine wp_mono (wp_bumpAllocVirtualAddr _ _ v₁) (fun va v₂ h₂ => ?_) (fun _ _ => False.elim)
  obtain ⟨hva, rfl⟩ := h₂
  have hnext : va = v.nextVa (4 <<< 10) := by
    rw [hva, Vm.nextVa, hva₁]
    rfl
  have hleak : ∀ w : Vm, w.uvmVaddr = va + size → w.vaToMemHandle = v₁.vaToMemHandle →
      w.liveHandles = v₁.liveHandles → v.Leaked w (v.nextVa (4 <<< 10)) size :=
    fun w hheap hmap hlive => ⟨Or.inr (hnext ▸ hheap), hmap.trans hmap₁,
      Or.inr ⟨handle, hlive.trans hlive₁⟩⟩
  rw [wp_bind]
  refine wp_mono ((keeps_memMapToCpu handle true).onlyIf mapToCpu _) (fun _ v₃ h₃ => ?_)
    (fun _ v₃ h₃ => hleak v₃ h₃.uvmVaddr h₃.vaToMemHandle h₃.liveHandles)
  rw [wp_bind]
  refine wp_mono (keeps_memUVMMap handle va v₃) (fun _ v₄ h₄ => ?_) (fun _ v₄ h₄ => ?_)
  · rw [wp_pure]
    exact ⟨hnext, h₄.uvmVaddr.trans h₃.uvmVaddr,
      h₄.vaToMemHandle.trans (h₃.vaToMemHandle.trans hmap₁),
      h₄.liveHandles.trans (h₃.liveHandles.trans hlive₁)⟩
  · exact hleak v₄ (h₄.uvmVaddr.trans h₃.uvmVaddr) (h₄.vaToMemHandle.trans h₃.vaToMemHandle)
      (h₄.liveHandles.trans h₃.liveHandles)

/-- The kernel answers every call with success. -/
def Vm.Answered (v : Vm) : Prop := ∀ n, (v.sysReply n).ret = true ∧ (v.sysReply n).status = 0

/-- **`gpuFree`** releases the handle under the address; it fails only where there is none. -/
theorem wp_gpuFree {v : Vm} (hv : v.Answered) (va : NvU64) :
    wp (gpuFree va)
      (fun _ v' => ∃ handle, v.vaToMemHandle va = some handle ∧ v'.uvmVaddr = v.uvmVaddr ∧
        v'.vaToMemHandle = Function.update v.vaToMemHandle va none ∧
        v'.liveHandles = v.liveHandles.erase handle)
      (fun _ v' => v.vaToMemHandle va = none ∧ v' = v) v := by
  rw [gpuFree, wp_bind, wp_get]
  split
  · rename_i hnone
    rw [wp_throw]
    exact ⟨hnone, rfl⟩
  · rename_i handle hsome
    obtain ⟨hret, hstatus⟩ := hv v.sysCalls
    rw [wp_bind, sysCall, wp_bind, wp_get, wp_bind, wp_set, wp_pure, wp_bind, wp_validate,
      if_pos hret, wp_modify]
    refine ⟨handle, hsome, rfl, rfl, ?_⟩
    rw [if_pos hstatus]

end LibreCuda
