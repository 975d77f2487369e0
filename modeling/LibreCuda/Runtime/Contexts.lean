import LibreCuda.Module.Load
import LibreCuda.Runtime.Devices
import LibreCuda.Runtime.Memcpy

/-! # Contexts of a process

`libreCuCtxCreate_v2`, `libreCuCtxDestroy` and `libreCuCtxSetCurrent`, with what they need of
`makeGpuFifo` and `loadMemcpyKernelsIfNeeded`. A context has a heap pointer of its own; the map from
addresses to memory handles, the host-mapped ranges, the descriptors and the copy kernels are those
of the process.

* **`Contexts`** is the process with its contexts, which are named by the order of their creation.
* **`Contexts.step`** is one call, with the handles the kernel answers it with. -/

namespace LibreCuda

open Exec

/-- Bookkeeping: memory that was allocated and not freed. -/
structure Allocation where
  context : ℕ
  va : NvU64
  size : NvU64
  handle : NvU32
  /-- Made by `gpuAlloc`, and not by `gpuSystemAlloc`. -/
  onDevice : Bool
  deriving DecidableEq

/-- The fields of `LibreCUcontext_` that creating and using memory needs. A destroyed context is
deleted: using it is undefined. -/
structure ContextRecord where
  device : ℕ := 0
  uvmVaddr : NvU64 := uvmHeapStart
  alive : Bool := false

/-- A function of a module that was loaded for copies. -/
structure CachedKernel where
  function : LibreCUFunction
  /-- Bookkeeping: the context whose address space the module is in. -/
  context : ℕ
  deriving DecidableEq

/-- A process and its contexts. -/
structure Contexts where
  devices : Devices := {}
  /-- The bookkeeping all contexts share. Its heap pointer is that of the context used last. -/
  vm : Vm := { uvmVaddr := uvmHeapStart }
  context : ℕ → ContextRecord := fun _ => {}
  /-- The number of the next context. -/
  created : ℕ := 0
  currentCtx : Option ℕ := none
  /-- The tables of `memcopy.cpp`, by device ordinal. -/
  initialized : ℕ → Bool := fun _ => false
  kernels : ℕ → CopyKernel → Option CachedKernel := fun _ _ => none
  /-- Bookkeeping: the live allocations of all contexts. -/
  live : List Allocation := []

/-- Programs on a process. -/
abbrev ContextProgram (α : Type) : Type := Exec Contexts Failure α

/-! ## Memory of a context -/

/-- The memory bookkeeping as a context sees it. -/
def Contexts.view (s : Contexts) (ctx : ℕ) : Vm := { s.vm with uvmVaddr := (s.context ctx).uvmVaddr }

/-- Write back what a context left. -/
def Contexts.put (ctx : ℕ) (v : Vm) (s : Contexts) : Contexts :=
  { s with
    vm := v
    context := Function.update s.context ctx { s.context ctx with uvmVaddr := v.uvmVaddr } }

/-- Run a program on the memory bookkeeping of a context. -/
def onContext {α : Type} (ctx : ℕ) (x : Exec Vm Failure α) : ContextProgram α := do
  let s ← get
  Exec.require (s.context ctx).alive .crash
  Exec.zoom (fun s => s.view ctx) (Contexts.put ctx) x

/-- `gpuAlloc` for a context. -/
def allocIn (ctx : ℕ) (size : NvU64) (hugePages mapToCpu : Bool) :
    ContextProgram (NvU64 × NvU32) := do
  let (va, handle) ← onContext ctx (gpuAlloc size hugePages mapToCpu)
  modify fun s => { s with live := ⟨ctx, va, gpuAllocSize size hugePages, handle, true⟩ :: s.live }
  pure (va, handle)

/-- `gpuSystemAlloc` for a context. -/
def systemAllocIn (ctx : ℕ) (size : NvU64) (mapToCpu : Bool) : ContextProgram (NvU64 × NvU32) := do
  let (va, handle) ← onContext ctx (gpuSystemAlloc size mapToCpu)
  modify fun s => { s with live := ⟨ctx, va, size, handle, false⟩ :: s.live }
  pure (va, handle)

/-- `gpuFree` for a context: the allocation this context made at the address is not live any more.
-/
def freeIn (ctx : ℕ) (va : NvU64) : ContextProgram Unit := do
  onContext ctx (gpuFree va)
  modify fun s => { s with
    live := s.live.eraseP fun a => a.onDevice && a.context == ctx && a.va == va }

/-! ## Creating a context -/

/-- `RM_ALLOC` of an object that is no memory. -/
def rmObject : Exec Vm Failure NvU32 := do
  let reply ← sysCall
  validate reply.ret .unknown
  validate (reply.status == 0) .unknown
  pure reply.handle

/-- `RM_CTRL`, with the word it answers. -/
def rmCtrl : Exec Vm Failure NvU32 := rmObject

/-- `GPU_FIFO_AREA_SIZE`. -/
def gpuFifoAreaSize : NvU64 := 0x200000

/-- The first part of `libreCuCtxCreate_v2`: the objects of the device, the address space and the
channel group, and the class list and device information. -/
def createObjects : Exec Vm Failure Unit := do
  nvIowr
  let _ ← rmObject
  let _ ← rmObject
  let userMode ← rmObject
  memMapToCpu userMode false
  let _ ← rmCtrl
  let _ ← rmObject
  uvmIoctl
  uvmIoctl
  let _ ← rmObject
  let _ ← rmObject
  let _ ← rmCtrl
  let _ ← rmCtrl

/-- The part of `makeGpuFifo` behind the notifier: the channel, its engines and its token, and the
addresses it is registered at. -/
def createChannel : Exec Vm Failure Unit := do
  let _ ← rmObject
  let _ ← rmObject
  let _ ← rmObject
  let workSubmitToken ← rmCtrl
  validate (workSubmitToken != 0xFFFFFFFF) .unknown
  let _ ← bumpAllocVirtualAddr 0x4000000
  uvmIoctl

/-- `makeGpuFifo`. -/
def makeGpuFifo (ctx : ℕ) (gpfifoAreaVa : NvU64) (gpfifoAreaHandle : NvU32) :
    ContextProgram Unit := do
  validate (gpfifoAreaVa != 0) .unknown
  validate (gpfifoAreaHandle != 0) .unknown
  let _ ← systemAllocIn ctx (48 <<< 20) true
  onContext ctx createChannel

/-- `libreCuModuleGetFunction`. -/
def libreCuModuleGetFunction (m : LibreCUmodule) (name : String) : Except Failure LibreCUFunction :=
  match m.functions.find? fun f => f.name == name with
  | none => .error (.status .notFound)
  | some f => .ok f

/-- `libreCuModuleLoadData` in the current context. The copy to the device is left out. -/
def loadCurrent (image : ElfImage) : ContextProgram (ℕ × LibreCUmodule) := do
  let s ← get
  match s.currentCtx with
  | none => throw (.status .invalidContext)
  | some ctx =>
    let (rebuiltImage, sections) ← Exec.ofExcept (rebuildImage image.sections)
    let (moduleGpuVa, _) ← allocIn ctx (allocatedSize rebuiltImage.length) false true
    let tables ← Exec.ofExcept (scanSections { image with sections := sections } moduleGpuVa)
    let _ ← Exec.ofExcept (applyRelocs moduleGpuVa rebuiltImage tables.relocs)
    pure (ctx, tables.module moduleGpuVa)

/-- Look up a copy kernel and remember it. -/
def cacheKernel (ordinal ctx : ℕ) (m : LibreCUmodule) (kernel : CopyKernel) :
    ContextProgram Unit := do
  let f ← Exec.ofExcept (libreCuModuleGetFunction m kernel.name)
  modify fun s => { s with
    kernels := Function.update s.kernels ordinal
      (Function.update (s.kernels ordinal) kernel (some ⟨f, ctx⟩)) }

/-- `loadMemcpyKernelsIfNeeded`. The image is that for the compute capability of the device, which
may be none. -/
def loadMemcpyKernelsIfNeeded (copyImage : ℕ → Option ElfImage) (ordinal : ℕ) :
    ContextProgram Unit := do
  let s ← get
  Exec.onlyIf (!s.initialized ordinal) do
    match copyImage ordinal with
    | none => throw (.status .compatNotSupportedOnDevice)
    | some image =>
      let (ctx, m) ← loadCurrent image
      cacheKernel ordinal ctx m .highBW
      cacheKernel ordinal ctx m .lowLatency
      cacheKernel ordinal ctx m .trailing
      modify fun s => { s with initialized := Function.update s.initialized ordinal true }

/-- The process with the record of a new context. -/
def Contexts.addContext (s : Contexts) (ordinal : ℕ) : Contexts :=
  { s with
    created := s.created + 1
    context := Function.update s.context s.created { device := ordinal, alive := true } }

/-- Make the record of a new context. -/
def newContext (ordinal : ℕ) : ContextProgram ℕ := do
  let s ← get
  set (s.addContext ordinal)
  pure s.created

/-- The part of `libreCuCtxCreate_v2` that sets up a new context. -/
def setupContext (ctx : ℕ) : ContextProgram Unit := do
  onContext ctx createObjects
  let (gpfifoAreaVa, gpfifoAreaHandle) ← allocIn ctx gpuFifoAreaSize true true
  makeGpuFifo ctx gpfifoAreaVa gpfifoAreaHandle
  makeGpuFifo ctx gpfifoAreaVa gpfifoAreaHandle
  let _ ← onContext ctx rmCtrl

/-- The checks of `libreCuCtxCreate_v2`, and the handle the context keeps. -/
def checkDevice (device : LibreCUdevice) : ContextProgram LibreCUdevice := do
  let s ← get
  validate s.devices.librecudaInitialized .notInitialized
  validate (device.ordinal < s.devices.numDevices) .invalidDevice
  validate (s.devices.deviceInstances.contains device.instanceId) .invalidDevice
  match s.devices.publicDeviceHandles[device.ordinal]? with
  | none => throw .crash
  | some handle => pure handle

/-- `libreCuCtxCreate_v2`. -/
def libreCuCtxCreate (copyImage : ℕ → Option ElfImage) (device : LibreCUdevice) :
    ContextProgram ℕ := do
  let handle ← checkDevice device
  let ctx ← newContext handle.ordinal
  setupContext ctx
  modify fun s => { s with currentCtx := some ctx }
  loadMemcpyKernelsIfNeeded copyImage device.ordinal
  pure ctx

/-! ## Destroying and choosing a context -/

/-- `libreCuCtxDestroy`. -/
def libreCuCtxDestroy (ctx : ℕ) : ContextProgram Unit := do
  let s ← get
  Exec.require (s.context ctx).alive .crash
  set { s with
    currentCtx := if s.currentCtx = some ctx then none else s.currentCtx
    context := Function.update s.context ctx { s.context ctx with alive := false } }

/-- `libreCuCtxSetCurrent`. -/
def libreCuCtxSetCurrent (ctx : ℕ) : ContextProgram Unit :=
  modify fun s => { s with currentCtx := some ctx }

/-! ## Runs -/

/-- The calls on contexts and their memory. -/
inductive ContextCall
  | create (device : LibreCUdevice)
  | destroy (ctx : ℕ)
  | setCurrent (ctx : ℕ)
  | alloc (ctx : ℕ) (size : NvU64) (hugePages mapToCpu : Bool)
  | systemAlloc (ctx : ℕ) (size : NvU64) (mapToCpu : Bool)
  | free (ctx : ℕ) (va : NvU64)

/-- Make a call. -/
def ContextCall.run (copyImage : ℕ → Option ElfImage) : ContextCall → ContextProgram Unit
  | .create device => do
    let _ ← libreCuCtxCreate copyImage device
  | .destroy ctx => libreCuCtxDestroy ctx
  | .setCurrent ctx => libreCuCtxSetCurrent ctx
  | .alloc ctx size hugePages mapToCpu => do
    let _ ← allocIn ctx size hugePages mapToCpu
  | .systemAlloc ctx size mapToCpu => do
    let _ ← systemAllocIn ctx size mapToCpu
  | .free ctx va => freeIn ctx va

/-- Every system call of the next call succeeds, and answers with these handles. -/
def Contexts.answered (s : Contexts) (handles : ℕ → NvU32) : Contexts :=
  { s with vm := { s.vm with sysCalls := 0, sysReply := fun n => { handle := handles n } } }

/-- One call, whether it succeeds or fails. The kernel hands out fresh memory handles: the handles
it has not been given back are different, and none is zero. -/
def Contexts.step (copyImage : ℕ → Option ElfImage) (s : Contexts)
    (e : ContextCall × (ℕ → NvU32)) : Option Contexts :=
  let s' := (call (e.1.run copyImage) (s.answered e.2)).2
  if (0 :: s'.vm.liveHandles).Nodup then some s' else none

/-- What a step is. -/
theorem Contexts.step_eq_some {copyImage : ℕ → Option ElfImage} {s s' : Contexts}
    {e : ContextCall × (ℕ → NvU32)} (h : s.step copyImage e = some s') :
    (call (e.1.run copyImage) (s.answered e.2)).2 = s' ∧ (0 :: s'.vm.liveHandles).Nodup := by
  dsimp only [Contexts.step] at h
  split at h
  · obtain rfl := Option.some.inj h
    exact ⟨rfl, ‹_›⟩
  · cases h

/-- A step the kernel can make. -/
theorem Contexts.step_of_nodup {copyImage : ℕ → Option ElfImage} {s : Contexts}
    {e : ContextCall × (ℕ → NvU32)}
    (h : (0 :: (call (e.1.run copyImage) (s.answered e.2)).2.vm.liveHandles).Nodup) :
    s.step copyImage e = some (call (e.1.run copyImage) (s.answered e.2)).2 :=
  if_pos h

/-! ## What leaves the records alone -/

/-- Memory apart, the process is as before. -/
structure Contexts.SameRecords (s s' : Contexts) : Prop where
  devices : s'.devices = s.devices
  created : s'.created = s.created
  currentCtx : s'.currentCtx = s.currentCtx
  initialized : s'.initialized = s.initialized
  kernels : s'.kernels = s.kernels
  device : ∀ c, (s'.context c).device = (s.context c).device
  alive : ∀ c, (s'.context c).alive = (s.context c).alive

instance : IsPreorder Contexts Contexts.SameRecords where
  refl _ := ⟨rfl, rfl, rfl, rfl, rfl, fun _ => rfl, fun _ => rfl⟩
  trans _ _ _ h h' := ⟨h'.devices.trans h.devices, h'.created.trans h.created,
    h'.currentCtx.trans h.currentCtx, h'.initialized.trans h.initialized,
    h'.kernels.trans h.kernels, fun c => (h'.device c).trans (h.device c),
    fun c => (h'.alive c).trans (h.alive c)⟩

theorem sameRecords_put (s : Contexts) (ctx : ℕ) (v : Vm) : s.SameRecords (s.put ctx v) := by
  refine ⟨rfl, rfl, rfl, rfl, rfl, fun c => ?_, fun c => ?_⟩
  · show (Function.update s.context ctx _ c).device = _
    by_cases hc : c = ctx
    · rw [hc, Function.update_self]
    · rw [Function.update_of_ne hc]
  · show (Function.update s.context ctx _ c).alive = _
    by_cases hc : c = ctx
    · rw [hc, Function.update_self]
    · rw [Function.update_of_ne hc]

section Keeps

variable {α : Type}

/-- Whatever a context does with its memory. -/
theorem keeps_onContext (ctx : ℕ) (x : Exec Vm Failure α) :
    Keeps Contexts.SameRecords (onContext ctx x) := by
  refine keeps_get.bind fun s => (keeps_require _ _).bind fun _ => ?_
  exact Keeps.zoom (q := fun _ _ => True)
    (fun v => wp_trivial x (fun _ _ => trivial) (fun _ _ => trivial))
    fun s v _ => sameRecords_put s ctx v

theorem keeps_allocIn (ctx : ℕ) (size : NvU64) (hugePages mapToCpu : Bool) :
    Keeps Contexts.SameRecords (allocIn ctx size hugePages mapToCpu) :=
  (keeps_onContext ctx _).bind fun _ =>
    (keeps_modify fun _ => ⟨rfl, rfl, rfl, rfl, rfl, fun _ => rfl, fun _ => rfl⟩).bind fun _ =>
      keeps_pure _

theorem keeps_systemAllocIn (ctx : ℕ) (size : NvU64) (mapToCpu : Bool) :
    Keeps Contexts.SameRecords (systemAllocIn ctx size mapToCpu) :=
  (keeps_onContext ctx _).bind fun _ =>
    (keeps_modify fun _ => ⟨rfl, rfl, rfl, rfl, rfl, fun _ => rfl, fun _ => rfl⟩).bind fun _ =>
      keeps_pure _

theorem keeps_freeIn (ctx : ℕ) (va : NvU64) : Keeps Contexts.SameRecords (freeIn ctx va) :=
  (keeps_onContext ctx _).bind fun _ =>
    keeps_modify fun _ => ⟨rfl, rfl, rfl, rfl, rfl, fun _ => rfl, fun _ => rfl⟩

theorem keeps_makeGpuFifo (ctx : ℕ) (gpfifoAreaVa : NvU64) (gpfifoAreaHandle : NvU32) :
    Keeps Contexts.SameRecords (makeGpuFifo ctx gpfifoAreaVa gpfifoAreaHandle) :=
  (keeps_require _ _).bind fun _ => (keeps_require _ _).bind fun _ =>
    (keeps_systemAllocIn _ _ _).bind fun _ => keeps_onContext _ _

theorem keeps_setupContext (ctx : ℕ) : Keeps Contexts.SameRecords (setupContext ctx) :=
  (keeps_onContext _ _).bind fun _ => (keeps_allocIn _ _ _ _).bind fun _ =>
    (keeps_makeGpuFifo _ _ _).bind fun _ => (keeps_makeGpuFifo _ _ _).bind fun _ =>
      (keeps_onContext _ _).bind fun _ => keeps_pure _

end Keeps

/-! ## A sample process -/

/-- An image with the copy kernels. -/
def sampleCopyImage : ElfImage where
  sectionEntrySize := 64
  sections := [{ name := ".text.memcpyKernelHighBW".toList, type := shtProgbits },
    { name := ".text.memcpyKernelLowLatency".toList, type := shtProgbits },
    { name := ".text.memcpyKernelTrailing".toList, type := shtProgbits }]

/-- The image is for every device. -/
def sampleCopyImages : ℕ → Option ElfImage := fun _ => some sampleCopyImage

/-- A process with one device and no context. -/
def sampleProcess : Contexts where
  devices := {
    librecudaInitialized := true
    numDevices := 1
    deviceInstances := [0]
    publicDeviceHandles := [⟨0, 0⟩] }

/-- Create a context; the kernel answers with the handles from a number on. -/
def createFrom (first : ℕ) : ContextCall × (ℕ → NvU32) :=
  (.create ⟨0, 0⟩, fun n => BitVec.ofNat 32 (first + n))

/-- The sample process with one context. -/
def oneContext : Contexts :=
  (call ((createFrom 1).1.run sampleCopyImages) (sampleProcess.answered (createFrom 1).2)).2

/-- The sample process with two contexts on its device. -/
def twoContexts : Contexts :=
  (call ((createFrom 100).1.run sampleCopyImages) (oneContext.answered (createFrom 100).2)).2

theorem step_oneContext : sampleProcess.step sampleCopyImages (createFrom 1) = some oneContext :=
  Contexts.step_of_nodup (by decide +kernel)

theorem step_twoContexts : oneContext.step sampleCopyImages (createFrom 100) = some twoContexts :=
  Contexts.step_of_nodup (by decide +kernel)

end LibreCuda
