import LibreCuda.Driver.Encoding
import LibreCuda.Queue.Footprint
import LibreCuda.Queue.Streams

/-! # What an engine finds

An order for the compute engine is an address: the engine finds a descriptor there, the address of
the arguments in the descriptor, and as many bytes of the arguments as the kernel reads. An order
for the copy engine says everything itself.

* **`Processor`** stands for the kernels and the engines; **`Processor.task`** is what an engine
  finds in memory for an order.
* **`Host.taskOf`** is what a call asks for.
* **`Processor.Stored`**: an engine finds a task whatever is in memory outside a region.
* **`stored_of_call`**: behind a call that succeeds an engine finds what the call asked for. -/

namespace LibreCuda

open Bytes Channels Exec QmdField

/-! ## Tasks -/

/-- What an engine carries out, with all it reads from the argument page for that. -/
inductive Task
  | launch (qmd : List NvU32) (arguments : List NvU8)
  | copy (dst src : NvU64) (numBytes : NvU32)
  deriving DecidableEq, Repr

/-- The kernels and the engines: how many bytes of its arguments the kernel of a descriptor reads,
and what carrying out a task as the operation of a number does, one action after another. -/
structure Processor (M : Type) where
  reads : List NvU32 → ℕ
  actions : ℕ → Task → List (M → M)

/-- The words of a descriptor. -/
def QmdData.words (q : QmdData) : List NvU32 := (List.range qmdWords).map q

/-- The address of constant bank 0 in a descriptor. -/
def QmdData.argumentsAddr (q : QmdData) : NvU64 :=
  (constantBufferAddrUpper 0).val q ++ (constantBufferAddrLower 0).val q

section Processor

variable {M : Type} (p : Processor M)

/-- What an engine finds in memory for an order. -/
def Processor.task (mem : Memory) : Order → Task
  | .launch qmdAddr =>
    let q := qmdAt mem qmdAddr
    .launch q.words ((List.range (p.reads q.words)).map (load mem q.argumentsAddr))
  | .copy dst src numBytes => .copy dst src numBytes

/-- An engine finds a task, whatever is in memory outside a region. -/
def Processor.Stored (mem : Memory) (order : Order) (task : Task) (region : NvU64 × NvU64) : Prop :=
  ∀ mem' : Memory, (∀ x, InRegion region x → mem' x = mem x) → p.task mem' order = task

/-- The kernels read no more than the header and their parameters. -/
def Processor.Reads (functions : ℕ → LibreCUFunction) : Prop :=
  ∀ function grid block sharedMemBytes slm ptr,
    p.reads (QmdData.words (qmdData (functions function) grid block sharedMemBytes slm ptr)) ≤
      352 + 4 * (functions function).numWords

variable {p}

/-- What is stored stays, as long as its region does. -/
theorem Processor.Stored.of_region {mem mem' : Memory} {order : Order} {task : Task}
    {region : NvU64 × NvU64} (h : p.Stored mem order task region)
    (hsame : ∀ x, InRegion region x → mem' x = mem x) : p.Stored mem' order task region :=
  fun _ hmem => h _ fun x hx => (hmem x hx).trans (hsame x hx)

theorem Processor.Stored.task_eq {mem : Memory} {order : Order} {task : Task}
    {region : NvU64 × NvU64} (h : p.Stored mem order task region) : p.task mem order = task :=
  h mem fun _ _ => rfl

/-! ## Finding a launch -/

/-- Descriptors with the same words lead to the same arguments. -/
theorem argumentsAddr_congr {q q' : QmdData} (h : ∀ k < qmdWords, q k = q' k) :
    q.argumentsAddr = q'.argumentsAddr := by
  have hupper : (constantBufferAddrUpper 0).InWord := by decide
  have hlower : (constantBufferAddrLower 0).InWord := by decide
  rw [QmdData.argumentsAddr, QmdData.argumentsAddr, hupper.val_congr (h _ (by decide)),
    hlower.val_congr (h _ (by decide))]

/-- The descriptor of a launch has the address of its arguments, if that is below `2 ^ 40`. -/
theorem argumentsAddr_qmdData {f : LibreCUFunction} (hf : f.Fits) (grid block : Dim3)
    (sharedMemBytes : NvU32) (slm : NvU64) {ptr : NvU64} (hbelow : ptr.toNat < 2 ^ 40) :
    (qmdData f grid block sharedMemBytes slm ptr).argumentsAddr = ptr := by
  obtain ⟨hlower, hupper⟩ := (qmd_decodes hf.numbers grid block sharedMemBytes slm ptr).arguments
  have hhi : (hi32 ptr).toNat < 2 ^ 17 := by
    have hshift : (hi32 ptr).toNat = ptr.toNat / 2 ^ 32 % 2 ^ 32 := by
      rw [hi32, BitVec.toNat_setWidth, BitVec.toNat_ushiftRight, Nat.shiftRight_eq_div_pow]
    omega
  rw [Nat.mod_eq_of_lt hhi] at hupper
  rw [QmdData.argumentsAddr, hlower, BitVec.eq_of_toNat_eq hupper, hi32_append_lo32]

/-- **An engine finds a launch that is stored**, if the address of its descriptor survives. -/
theorem task_of_stored {mem : Memory} {f : LibreCUFunction} {grid block : Dim3}
    {sharedMemBytes : NvU32} {slm ptr : NvU64} {arguments : List NvU8} (hf : f.Fits)
    (haligned : 256 ∣ ptr.toNat) (hbelow : ptr.toNat + f.qmdOffset < 2 ^ 40)
    (hreads : p.reads (QmdData.words (qmdData f grid block sharedMemBytes slm ptr)) ≤
      arguments.length)
    (hs : LaunchStored mem f (qmdData f grid block sharedMemBytes slm ptr) arguments ptr) :
    p.task mem (launchOrder (qmdAddress f ptr)) =
      .launch (QmdData.words (qmdData f grid block sharedMemBytes slm ptr))
        (arguments.take (p.reads (QmdData.words (qmdData f grid block sharedMemBytes slm ptr)))) := by
  have haddress : (qmdAddress f ptr).toNat = ptr.toNat + f.qmdOffset := by
    rw [qmdAddress_eq, BitVec.toNat_add, BitVec.toNat_ofNat]
    omega
  have hdvd : 256 ∣ (qmdAddress f ptr).toNat := by
    rw [haddress, hf.qmdOffset_eq]
    exact Nat.dvd_add haligned (Nat.dvd_mul_left _ _)
  have hwords : (qmdAt mem (qmdAddress f ptr)).words =
      QmdData.words (qmdData f grid block sharedMemBytes slm ptr) :=
    List.map_congr_left fun k hk => hs.words k (List.mem_range.mp hk)
  have haddr : (qmdAt mem (qmdAddress f ptr)).argumentsAddr = ptr :=
    (argumentsAddr_congr hs.words).trans
      (argumentsAddr_qmdData hf grid block sharedMemBytes slm (by omega))
  rw [launchOrder, shift_survives hdvd (by omega), Processor.task]
  simp only [hwords, haddr]
  congr 1
  refine List.ext_getElem? fun y => ?_
  by_cases hy : y < p.reads (QmdData.words (qmdData f grid block sharedMemBytes slm ptr))
  · rw [List.getElem?_map, List.getElem?_range hy, Option.map_some, List.getElem?_take_of_lt hy,
      hs.bytes y (by omega)]
  · rw [List.getElem?_eq_none (by simpa using hy), List.getElem?_eq_none (by simp; omega)]

end Processor

/-! ## Calls -/

section Calls

variable {M : Type} (p : Processor M)

/-- What a call asks for, if it succeeds and leaves the given stream. -/
def Host.taskOf (h h' : Host) : ApiCall → Option Task
  | .launchFunction (some function) grid block sharedMemBytes params _ _ =>
    let f := h.functions function
    let qmd := qmdData f grid block sharedMemBytes h'.queue.currentSlmPerThread h.kernargsPointer
    some (.launch qmd.words ((f.argumentBytes grid block params).take (p.reads qmd.words)))
  | .gpuMemcpy dst src numBytes _ => some (.copy dst src (numBytes.setWidth 32))
  | _ => none

/-- The argument page lies where addresses of descriptors survive the shift, and the next region of
it is aligned and inside. -/
structure Host.PageReady (h : Host) : Prop where
  aligned : 2 ^ 21 ∣ h.queue.kernArgsPageVa.toNat
  below : h.queue.kernArgsPageVa.toNat + 2 ^ 24 ≤ 2 ^ 40
  next : 256 ∣ h.queue.kernArgsWriteIdx.toNat
  inside : h.queue.kernArgsWriteIdx.toNat ≤ 2 ^ 24

/-- What an allocation takes from the page. -/
theorem Host.PageReady.toNat_alloc {h h' : Host} {ptr : NvU64} {f : LibreCUFunction}
    (hp : h.PageReady) (hf : f.Fits) (ha : h.Allocated h' ptr f.regionSize) :
    h'.queue.kernArgsWriteIdx.toNat = h.queue.kernArgsWriteIdx.toNat + (f.qmdOffset + 2048) ∧
      h'.queue.kernArgsWriteIdx.toNat ≤ 2 ^ 24 := by
  have hinside := hp.inside
  have hoffset := hf.qmdOffset_lt
  have hroom := Nat.not_lt.mp ha.fits
  have hpage : kernargsPageSize.toNat = 2 ^ 24 := rfl
  rw [hpage, ← ha.kernArgsWriteIdx] at hroom
  refine ⟨?_, hroom⟩
  rw [ha.kernArgsWriteIdx, BitVec.toNat_add, hf.toNat_regionSize]
  omega

/-- **Every call keeps the page ready.** -/
theorem Host.PageReady.call {h h' : Host} {c : ApiCall} {r : Except Failure Unit} (hu : h.Usable)
    (hfits : ∀ f, (h.functions f).Fits) (hp : h.PageReady) (hc : call c.run h = (r, h')) :
    h'.PageReady := by
  by_cases hawait : c = .awaitExecution
  · subst hawait
    rcases wp_call hc (wp_awaitExecution hu.timelineSignal hu.waits) with ⟨_, -, hok⟩ | ⟨_, -, hf⟩
    · obtain ⟨hkept, -, hidx, -⟩ := hok
      refine ⟨hkept.kernArgsPageVa ▸ hp.aligned, hkept.kernArgsPageVa ▸ hp.below, ?_, ?_⟩
      · rw [hidx]
        exact Nat.dvd_zero 256
      · rw [hidx]
        exact Nat.zero_le _
    · exact hf.elim
  obtain ⟨hargs, hpage⟩ := allocated_of_call hu hawait hc
  refine ⟨hpage ▸ hp.aligned, hpage ▸ hp.below, ?_, ?_⟩
  · rcases hargs with hsame | ⟨f, bank, rest, ptr, hconstants, halloc⟩
    · exact hsame.kernArgsWriteIdx ▸ hp.next
    · have hsize : kernargsSize bank.size = (h.functions f).regionSize := by
        rw [LibreCUFunction.regionSize, hconstants]
        rfl
      rw [hsize] at halloc
      rw [(hp.toNat_alloc (hfits f) halloc).1, (hfits f).qmdOffset_eq]
      exact Nat.dvd_add hp.next (Nat.dvd_add (Nat.dvd_mul_left _ _) (by decide))
  · rcases hargs with hsame | ⟨f, bank, rest, ptr, hconstants, halloc⟩
    · exact hsame.kernArgsWriteIdx ▸ hp.inside
    · have hsize : kernargsSize bank.size = (h.functions f).regionSize := by
        rw [LibreCUFunction.regionSize, hconstants]
        rfl
      rw [hsize] at halloc
      exact (hp.toNat_alloc (hfits f) halloc).2

variable {p}

/-- **Behind a call that succeeds an engine finds what it asked for.** -/
theorem stored_of_call {h h' : Host} {c : ApiCall} (hsig : h.timeline.timelineSignal ≠ 0)
    (hfits : ∀ f, (h.functions f).Fits) (hreads : p.Reads h.functions) (hpage : h.PageReady)
    (hc : call c.run h = (.ok (), h')) {order : Order} (horder : h.orderOf c = some order) :
    ∃ task async args, h.taskOf p h' c = some task ∧ h'.operations = h.operations ++
      [⟨h.timeline.timelineSteps + 1, order.engine, async, args⟩] ∧
        p.Stored h'.mem order task args := by
  cases c with
  | launchFunction function grid block sharedMemBytes params numParams async =>
    cases function with
    | none => cases horder
    | some function =>
      obtain rfl := Option.some.inj horder
      have hf := hfits function
      have hoffset := hf.qmdOffset_lt
      have hlength := length_argumentBytes (h.functions function) grid block params
      have hstored := stored_of_launch hsig hf hc
      rcases wp_call hc (wp_launchFunction hsig (some function) grid block sharedMemBytes params
        numParams async) with ⟨_, -, g, hg, hok⟩ | ⟨_, herr, -⟩
      swap
      · cases herr
      obtain rfl := Option.some.inj hg
      obtain ⟨bank, rest, ptr, hconstants, halloc, hops⟩ := hok.operation
      have hsize : kernargsSize bank.size = (h.functions function).regionSize := by
        rw [LibreCUFunction.regionSize, hconstants]
        rfl
      obtain rfl : ptr = h.kernargsPointer := halloc.ptr_eq
      rw [hsize] at halloc hops
      refine ⟨_, async, _, rfl, hops, fun mem' hmem' => ?_⟩
      have hbelow := hpage.below
      have hptr : (h.queue.kernArgsPageVa + h.queue.kernArgsWriteIdx).toNat =
          h.queue.kernArgsPageVa.toNat + h.queue.kernArgsWriteIdx.toNat := by
        have hinside := hpage.inside
        rw [BitVec.toNat_add]
        omega
      obtain ⟨hidx, hinside⟩ := hpage.toNat_alloc hf halloc
      refine task_of_stored hf ?_ (by omega) ?_ (hstored.of_region hf ?_ hmem')
      · rw [hptr]
        exact Nat.dvd_add (Nat.dvd_trans (by decide) hpage.aligned) hpage.next
      · rw [hlength]
        exact hreads function grid block sharedMemBytes _ _
      · rw [hlength]
        exact hf.params_le
  | gpuMemcpy dst src numBytes async =>
    obtain rfl := Option.some.inj horder
    rcases wp_call hc (wp_gpuMemcpy hsig dst src numBytes async) with ⟨_, -, hok⟩ | ⟨_, herr, -⟩
    swap
    · cases herr
    exact ⟨_, async, _, rfl, hok.operation, fun _ _ => rfl⟩
  | recordEvent => cases horder
  | startExecution => cases horder
  | awaitExecution => cases horder

end Calls

end LibreCuda
