import LibreCuda.Driver.State
import Mathlib.Data.Finset.Insert

/-! # Device enumeration

`libreCuInit`, `libreCuDeviceGetCount` and `libreCuDeviceGet`. The kernel reports a table of cards;
`CUDA_VISIBLE_DEVICES` selects some of them by ordinal. Three lists grow in three loops: the visible
cards, the instances the kernel names for them, and the public handles. The last loop runs over the
number of all cards.

* **`parseOrdinals`** reads the variable, **`libreCuInit`** runs the three loops.
* **`enumeration_matches_visibility`**: the handles are those of the visible cards if and only if
  every card is visible. -/

namespace LibreCuda

/-! ## The kernel's side -/

/-- The fields of `nv_ioctl_card_info_t` that `libreCuInit` reads. -/
structure NvIoctlCardInfo where
  valid : Bool
  gpuId : NvU32
  deriving DecidableEq, Repr

/-- Entries of the table that `NV_ESC_CARD_INFO` fills (`n_infos`). -/
def nInfos : ℕ := 128

/-- The kernel as a process sees it that initialises the driver: the answers to its system calls in
order, the table of cards and the instance it names for a card. -/
structure Kernel where
  reply : ℕ → SysReply := fun _ => {}
  cardInfos : Fin nInfos → NvIoctlCardInfo
  deviceInstance : NvU32 → NvU32

/-- Every system call succeeds. -/
def Kernel.Answers (k : Kernel) : Prop :=
  ∀ n, (k.reply n).ret = true ∧ (k.reply n).status = 0

/-- The valid cards: the entries in front of the first invalid one. -/
def Kernel.validCards (k : Kernel) : List NvIoctlCardInfo :=
  (List.ofFn k.cardInfos).takeWhile NvIoctlCardInfo.valid

/-! ## The environment variable -/

/-- The loop over the variable. `token` is what was read since `current_start`: a part that is not a
number to its end is not skipped, its comma stays and the next part is read behind it. -/
def parseOrdinals (token : List Char) (visible : Finset ℤ) : List Char → Option (Finset ℤ)
  | [] => (stoi token).map fun parsed => insert parsed.1 visible
  | c :: rest =>
    if c = ',' then
      match stoi token with
      | none => none
      | some (parsed, pos) =>
        if pos ≠ token.length then parseOrdinals (token ++ [c]) visible rest
        else parseOrdinals [] (insert parsed visible) rest
    else parseOrdinals (token ++ [c]) visible rest

/-- The visible ordinals: those of the variable, or all when it is not set. -/
def visibleOrdinals (env : Option (List Char)) (numGpus : ℕ) : Option (Finset ℤ) :=
  match env with
  | some value => parseOrdinals [] ∅ value
  | none => some ((Finset.range numGpus).image Nat.cast)

/-! ## The driver's side -/

/-- The fields of `LibreCUdevice_` that `libreCuInit` fills in. -/
structure LibreCUdevice where
  ordinal : ℕ
  instanceId : NvU32
  deriving DecidableEq, Repr

/-- Which kernel driver is in use (`DriverType`). -/
inductive DriverType
  | openKernelModules
  | nvidiaProprietary
  deriving DecidableEq, Repr

/-- The globals of `librecuda.cpp` that describe the devices. -/
structure Devices where
  librecudaInitialized : Bool := false
  driverType : DriverType := .openKernelModules
  numDevices : ℕ := 0
  devices : List NvIoctlCardInfo := []
  deviceInstances : List NvU32 := []
  publicDeviceHandles : List LibreCUdevice := []
  sysCalls : ℕ := 0

/-- Programs on these globals. -/
abbrev DeviceProgram (α : Type) : Type := Exec Devices Failure α

/-- Make one system call and take its answer. -/
def Kernel.call (k : Kernel) : DeviceProgram SysReply := do
  let d ← get
  set { d with sysCalls := d.sysCalls + 1 }
  pure (k.reply d.sysCalls)

/-- Open a device file. -/
def Kernel.openFile (k : Kernel) (error : Status) : DeviceProgram Unit := do
  let reply ← k.call
  validate reply.ret error

/-- A call of which both the return value and the status field are looked at (`RM_ALLOC`,
`RM_CTRL`). -/
def Kernel.rmCall (k : Kernel) : DeviceProgram Unit := do
  let reply ← k.call
  validate reply.ret .unknown
  validate (reply.status == 0) .unknown

/-- `NV_WARN_NOTHING_TO_DO`. -/
def nvWarnNothingToDo : NvU32 := 0x00010006

/-- The part of `libreCuInit` that initialises the memory manager and learns which kernel driver is
in use. -/
def Kernel.initializeMm (k : Kernel) : DeviceProgram Unit := do
  k.openFile .invalidDevice
  let reply ← k.call
  if !reply.ret || reply.status != 0 then
    if reply.status = nvWarnNothingToDo then
      modify fun d => { d with driverType := .nvidiaProprietary }
    else throw (.status .unknown)
  else modify fun d => { d with driverType := .openKernelModules }

/-- The visible ones of the valid cards, by their index. -/
def visibleCards (cards : List NvIoctlCardInfo) (visible : Finset ℤ) : List NvIoctlCardInfo :=
  (cards.zipIdx.filter fun card => (card.2 : ℤ) ∈ visible).map Prod.fst

/-- The part of `libreCuInit` that asks for the cards and keeps the visible ones. -/
def Kernel.obtainCards (k : Kernel) (env : Option (List Char)) : DeviceProgram Unit := do
  let reply ← k.call
  validate reply.ret .unknown
  let cards := k.validCards
  match visibleOrdinals env cards.length with
  | none => throw .exception
  | some visible =>
    modify fun d => { d with
      devices := d.devices ++ visibleCards cards visible
      numDevices := cards.length }

/-- The part of `libreCuInit` that asks for the instance of each card. -/
def Kernel.obtainInstances (k : Kernel) : List NvIoctlCardInfo → DeviceProgram Unit
  | [] => pure ()
  | card :: rest => do
    k.rmCall
    modify fun d => { d with deviceInstances := d.deviceInstances ++ [k.deviceInstance card.gpuId] }
    k.obtainInstances rest

/-- The part of `libreCuInit` that makes the handles of the given ordinals. An ordinal without an
instance is read out of range. -/
def createHandles : List ℕ → DeviceProgram Unit
  | [] => pure ()
  | ordinal :: rest => do
    let d ← get
    match d.deviceInstances[ordinal]? with
    | none => throw .crash
    | some deviceInstance =>
      set { d with
        publicDeviceHandles :=
          d.publicDeviceHandles ++ [({ ordinal, instanceId := deviceInstance } : LibreCUdevice)] }
      createHandles rest

/-- `libreCuInit`. -/
def libreCuInit (k : Kernel) (env : Option (List Char)) : DeviceProgram Unit := do
  let d ← get
  Exec.onlyIf (!d.librecudaInitialized) do
    k.openFile .compatNotSupportedOnDevice
    k.openFile .compatNotSupportedOnDevice
    k.rmCall
    let reply ← k.call
    validate (reply.status == 0) .unknown
    k.initializeMm
    k.obtainCards env
    let d ← get
    k.obtainInstances d.devices
    let d ← get
    createHandles (List.range d.numDevices)
    modify fun d => { d with librecudaInitialized := true }

/-- `libreCuDeviceGetCount`. -/
def libreCuDeviceGetCount : DeviceProgram ℕ := do
  let d ← get
  validate d.librecudaInitialized .notInitialized
  pure d.numDevices

/-- `libreCuDeviceGet`: the handle at an ordinal. -/
def libreCuDeviceGet (deviceOrdinal : ℤ) : DeviceProgram LibreCUdevice := do
  let d ← get
  validate d.librecudaInitialized .notInitialized
  validate (0 ≤ deviceOrdinal && deviceOrdinal < d.numDevices) .invalidDevice
  match d.publicDeviceHandles[deviceOrdinal.toNat]? with
  | none => throw .crash
  | some handle => pure handle

/-! ## What the initialisation does -/

section Calls

variable {k : Kernel} (hk : k.Answers) (d : Devices)
include hk

theorem call_openFile (error : Status) :
    Exec.call (k.openFile error) d = (.ok (), { d with sysCalls := d.sysCalls + 1 }) := by
  have hret := (hk d.sysCalls).1
  simp [Kernel.openFile, Kernel.call, Exec.call_bind, validate, hret]

theorem call_rmCall : Exec.call k.rmCall d = (.ok (), { d with sysCalls := d.sysCalls + 1 }) := by
  obtain ⟨hret, hstatus⟩ := hk d.sysCalls
  simp [Kernel.rmCall, Kernel.call, Exec.call_bind, validate, hret, hstatus]

theorem call_initializeMm : Exec.call k.initializeMm d =
    (.ok (), { d with sysCalls := d.sysCalls + 2, driverType := .openKernelModules }) := by
  obtain ⟨hret, hstatus⟩ := hk (d.sysCalls + 1)
  rw [Kernel.initializeMm, Exec.call_bind_ok (call_openFile hk d _)]
  simp [Kernel.call, Exec.call_bind, hret, hstatus]

theorem call_obtainCards {env : Option (List Char)} {visible : Finset ℤ}
    (hvisible : visibleOrdinals env k.validCards.length = some visible) :
    Exec.call (k.obtainCards env) d = (.ok (), { d with
      sysCalls := d.sysCalls + 1
      devices := d.devices ++ visibleCards k.validCards visible
      numDevices := k.validCards.length }) := by
  have hret := (hk d.sysCalls).1
  simp [Kernel.obtainCards, Kernel.call, Exec.call_bind, validate, hret, hvisible]

theorem call_obtainInstances (cards : List NvIoctlCardInfo) :
    Exec.call (k.obtainInstances cards) d = (.ok (), { d with
      sysCalls := d.sysCalls + cards.length
      deviceInstances := d.deviceInstances ++ cards.map fun card => k.deviceInstance card.gpuId }) := by
  induction cards generalizing d with
  | nil => simp [Kernel.obtainInstances]
  | cons card rest ih =>
    rw [Kernel.obtainInstances, Exec.call_bind_ok (call_rmCall hk d), Exec.call_bind,
      Exec.call_modify]
    dsimp only
    rw [ih]
    simp [Nat.add_assoc, Nat.add_comm 1]

end Calls

/-- Every ordinal that has an instance gets a handle. -/
theorem call_createHandles {d : Devices} {ordinals : List ℕ}
    (h : ∀ o ∈ ordinals, o < d.deviceInstances.length) :
    Exec.call (createHandles ordinals) d = (.ok (), { d with
      publicDeviceHandles := d.publicDeviceHandles ++
        ordinals.map fun o => ⟨o, d.deviceInstances.getD o 0⟩ }) := by
  induction ordinals generalizing d with
  | nil => simp [createHandles]
  | cons o rest ih =>
    have ho : o < d.deviceInstances.length := h o List.mem_cons_self
    have hrest : ∀ o ∈ rest, o < d.deviceInstances.length :=
      fun o ho => h o (List.mem_cons_of_mem _ ho)
    rw [createHandles, Exec.call_bind, Exec.call_get]
    simp only [List.getElem?_eq_getElem ho]
    rw [Exec.call_bind, Exec.call_set]
    dsimp only
    rw [ih]
    · simp [List.getElem?_eq_getElem ho]
    · exact hrest

/-- An ordinal without an instance is read out of range. -/
theorem call_createHandles_crash {d : Devices} {ordinals : List ℕ} {o : ℕ} (ho : o ∈ ordinals)
    (h : d.deviceInstances.length ≤ o) :
    (Exec.call (createHandles ordinals) d).1 = .error .crash := by
  induction ordinals generalizing d with
  | nil => cases ho
  | cons o' rest ih =>
    rw [createHandles, Exec.call_bind, Exec.call_get]
    dsimp only
    cases hget : d.deviceInstances[o']? with
    | none => rfl
    | some deviceInstance =>
      have hlt : o' < d.deviceInstances.length := (List.getElem?_eq_some_iff.mp hget).1
      have hrest : o ∈ rest := by
        rcases List.mem_cons.mp ho with rfl | hrest
        · omega
        · exact hrest
      dsimp only
      rw [Exec.call_bind, Exec.call_set]
      exact ih hrest h

/-- The globals in front of the loop over the handles. -/
def Kernel.listed (k : Kernel) (visible : Finset ℤ) : Devices :=
  let shown := visibleCards k.validCards visible
  { numDevices := k.validCards.length
    devices := shown
    deviceInstances := shown.map fun card => k.deviceInstance card.gpuId
    sysCalls := 7 + shown.length }

/-- With all system calls succeeding, the initialisation is the loop over the handles. -/
theorem call_libreCuInit {k : Kernel} (hk : k.Answers) {env : Option (List Char)}
    {visible : Finset ℤ} (hvisible : visibleOrdinals env k.validCards.length = some visible) :
    Exec.call (libreCuInit k env) {} =
      Exec.call (do
        createHandles (List.range k.validCards.length)
        modify fun d => { d with librecudaInitialized := true }) (k.listed visible) := by
  have hstatus := (hk 3).2
  rw [libreCuInit, Exec.call_bind, Exec.call_get]
  simp only [Bool.not_false, Exec.call_onlyIf, if_true]
  rw [Exec.call_bind_ok (call_openFile hk _ _), Exec.call_bind_ok (call_openFile hk _ _),
    Exec.call_bind_ok (call_rmCall hk _)]
  simp only [Kernel.call, Exec.call_bind, Exec.call_get, Exec.call_set, Exec.call_pure]
  simp only [validate, hstatus, beq_self_eq_true, Exec.call_require_true,
    call_initializeMm hk, call_obtainCards hk _ hvisible, call_obtainInstances hk]
  rfl

/-! ## Enumeration -/

/-- All cards are listed when all are visible, and fewer when one is not. -/
theorem visibleCards_of_visible {cards : List NvIoctlCardInfo} {visible : Finset ℤ}
    (h : ∀ i < cards.length, (i : ℤ) ∈ visible) : visibleCards cards visible = cards := by
  rw [visibleCards, List.filter_eq_self.mpr, List.zipIdx_map_fst]
  intro card hcard
  rw [List.mem_zipIdx_iff_getElem?] at hcard
  simpa using h card.2 (List.getElem?_eq_some_iff.mp hcard).1

theorem length_visibleCards_lt {cards : List NvIoctlCardInfo} {visible : Finset ℤ} {i : ℕ}
    (hi : i < cards.length) (h : (i : ℤ) ∉ visible) :
    (visibleCards cards visible).length < cards.length := by
  have hmem : (cards[i], i) ∈ cards.zipIdx := by
    rw [List.mem_zipIdx_iff_getElem?]
    exact List.getElem?_eq_getElem hi
  have hlt : (cards.zipIdx.filter fun card => (card.2 : ℤ) ∈ visible).length <
      cards.zipIdx.length := by
    rw [List.length_filter_lt_length_iff_exists]
    exact ⟨_, hmem, by simpa using h⟩
  simpa [visibleCards] using hlt

/-- What a caller of the enumeration relies on: the initialisation succeeds, the count is that of
the visible cards, and the handle at an ordinal is that of the visible card there. -/
def Enumerates (k : Kernel) (env : Option (List Char)) (visible : Finset ℤ) : Prop :=
  ∃ d, Exec.call (libreCuInit k env) {} = (.ok (), d) ∧
    (Exec.call libreCuDeviceGetCount d).1 = .ok (visibleCards k.validCards visible).length ∧
    ∀ (i : ℕ) (card : NvIoctlCardInfo), (visibleCards k.validCards visible)[i]? = some card →
      ∃ handle, (Exec.call (libreCuDeviceGet i) d).1 = .ok handle ∧
        handle.instanceId = k.deviceInstance card.gpuId

/-- **The handles are those of the visible cards if and only if every card is visible.** Otherwise
the loop over the handles reads behind the end of `device_instances`. -/
theorem enumeration_matches_visibility (k : Kernel) (hk : k.Answers) (env : Option (List Char))
    (visible : Finset ℤ) (hvisible : visibleOrdinals env k.validCards.length = some visible) :
    Enumerates k env visible ↔ ∀ i < k.validCards.length, (i : ℤ) ∈ visible := by
  have hinit := call_libreCuInit hk hvisible
  constructor
  · rintro ⟨d', hcall, -, -⟩ i hi
    by_contra hhidden
    -- the first ordinal without an instance is the number of visible cards
    have hlt := length_visibleCards_lt hi hhidden
    have hcrash : (Exec.call (createHandles _) (k.listed visible)).1 = .error .crash :=
      call_createHandles_crash (List.mem_range.mpr hlt) (List.length_map ..).le
    rw [hinit, Exec.call_bind] at hcall
    rcases hc : Exec.call (createHandles (List.range k.validCards.length)) (k.listed visible) with
      ⟨r, d''⟩
    rw [hc] at hcrash hcall
    obtain rfl : r = .error .crash := hcrash
    cases hcall
  · intro hall
    have hcards := visibleCards_of_visible hall
    have hinstances : (k.listed visible).deviceInstances =
        k.validCards.map fun card => k.deviceInstance card.gpuId := by
      rw [Kernel.listed, hcards]
    have hinstance : ∀ o ∈ List.range k.validCards.length,
        o < (k.listed visible).deviceInstances.length := fun o ho => by
      rw [hinstances, List.length_map]
      exact List.mem_range.mp ho
    rw [Exec.call_bind_ok (call_createHandles hinstance), Exec.call_modify] at hinit
    refine ⟨_, hinit, ?_, ?_⟩
    · rw [hcards]
      rfl
    · intro i card hget
      rw [hcards] at hget
      obtain ⟨hlt, rfl⟩ := List.getElem?_eq_some_iff.mp hget
      refine ⟨⟨i, k.deviceInstance k.validCards[i].gpuId⟩, ?_, rfl⟩
      have hinstance : (k.listed visible).deviceInstances.getD i 0 =
          k.deviceInstance k.validCards[i].gpuId := by
        rw [hinstances]
        simp [hlt]
      have hhandle : ((List.range k.validCards.length).map fun o =>
          (⟨o, (k.listed visible).deviceInstances.getD o 0⟩ : LibreCUdevice))[i]? =
          some ⟨i, k.deviceInstance k.validCards[i].gpuId⟩ := by
        rw [List.getElem?_map, List.getElem?_range hlt, Option.map_some, hinstance]
      simp only [libreCuDeviceGet, Exec.call_bind, Exec.call_get, validate]
      simp [Kernel.listed] at hhandle ⊢
      simp [hlt, hhandle]

/-- A machine with two cards whose system calls all succeed. -/
def sampleKernel : Kernel where
  cardInfos i := ⟨i.val < 2, BitVec.ofNat 32 (0x100 * i.val)⟩
  deviceInstance gpuId := gpuId >>> 8

/-- Both cards visible: `CUDA_VISIBLE_DEVICES=1,0`. -/
theorem enumeration_matches_visibility_sample :
    Enumerates sampleKernel (some ['1', ',', '0']) {0, 1} := by
  have hvisible : visibleOrdinals (some ['1', ',', '0']) sampleKernel.validCards.length =
      some {0, 1} := by decide +kernel
  have hall : ∀ i < sampleKernel.validCards.length, (i : ℤ) ∈ ({0, 1} : Finset ℤ) := by
    decide +kernel
  exact (enumeration_matches_visibility _ (fun _ => ⟨rfl, rfl⟩) _ _ hvisible).mpr hall

/-- With `CUDA_VISIBLE_DEVICES=1` on a machine of two cards, the initialisation reads the instance
of a second visible card, and there is none. -/
theorem hidden_card_read_out_of_range :
    visibleOrdinals (some ['1']) sampleKernel.validCards.length = some {1} ∧
      (visibleCards sampleKernel.validCards {1}).length = 1 ∧
      (Exec.call (libreCuInit sampleKernel (some ['1'])) {}).1 = .error .crash ∧
      ¬ Enumerates sampleKernel (some ['1']) {1} := by
  have hcrash : (Exec.call (libreCuInit sampleKernel (some ['1'])) {}).1 = .error .crash := by
    decide +kernel
  refine ⟨by decide +kernel, by decide +kernel, hcrash, ?_⟩
  rintro ⟨d, hinit, -⟩
  rw [hinit] at hcrash
  cases hcrash

end LibreCuda
