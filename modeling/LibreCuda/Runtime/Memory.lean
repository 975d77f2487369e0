import LibreCuda.Foundation.Runs
import LibreCuda.Runtime.Contexts
import Mathlib.Data.List.Perm.Subperm

/-! # Memory of the contexts

A context takes addresses from a heap pointer of its own, and every context starts with the same
one; the map from addresses to memory handles is that of the process.

* **`Ledger`** is what allocations and frees of one heap pointer keep: live ranges lie in front of
  the pointer and apart from each other, and the map has an entry for each live device allocation.
* **`allocations_separate`**: in a process that creates one context, allocations do not collide, and
  a free releases the handle of its own allocation. -/

namespace LibreCuda

open Exec Runs

/-! ## Collisions -/

/-- The addresses of an allocation. -/
def Allocation.Contains (a : Allocation) (x : NvU64) : Prop := (x - a.va).toNat < a.size.toNat

/-- Two allocations have no address in common. -/
def Allocation.Apart (a b : Allocation) : Prop := ∀ x, ¬ (a.Contains x ∧ b.Contains x)

/-- Freeing an allocation for its context succeeds, and releases its handle and no other one. -/
def Contexts.FreesOwn (s : Contexts) (a : Allocation) : Prop :=
  ∀ handles, ∃ s', call (freeIn a.context a.va) (s.answered handles) = (.ok (), s') ∧
    (a.handle :: s'.vm.liveHandles).Perm s.vm.liveHandles

/-- **Allocations do not collide**: live ranges are apart, and a live device allocation is freed
with its own handle as long as its context is alive. -/
structure Contexts.Separate (s : Contexts) : Prop where
  apart : s.live.Pairwise Allocation.Apart
  frees : ∀ a ∈ s.live, a.onDevice = true → (s.context a.context).alive = true → s.FreesOwn a

/-- Ranges that do not wrap and follow each other are apart. -/
theorem apart_of_le {a b : Allocation} (ha : a.va.toNat + a.size.toNat < 2 ^ 64)
    (hb : b.va.toNat + b.size.toNat < 2 ^ 64) (h : a.va.toNat + a.size.toNat ≤ b.va.toNat) :
    a.Apart b := by
  rintro x ⟨hxa, hxb⟩
  unfold Allocation.Contains at hxa hxb
  bv_omega

theorem Allocation.Apart.symm {a b : Allocation} (h : a.Apart b) : b.Apart a :=
  fun x hx => h x hx.symm

/-! ## The ledger of one heap pointer -/

/-- **The ledger.** Live ranges end in front of the heap pointer and follow each other; live device
allocations have addresses of their own, and are what the map has entries for; each live allocation
has a handle that was not given back. -/
structure Ledger (v : Vm) (live : List Allocation) : Prop where
  below : ∀ a ∈ live, a.va.toNat + a.size.toNat ≤ v.uvmVaddr.toNat
  apart : live.Pairwise fun a b => a.va.toNat + a.size.toNat ≤ b.va.toNat ∨
    b.va.toNat + b.size.toNat ≤ a.va.toNat
  distinct : live.Pairwise fun a b => a.onDevice = true → b.onDevice = true → a.va ≠ b.va
  entries : ∀ va handle, v.vaToMemHandle va = some handle ↔
    ∃ a ∈ live, a.onDevice = true ∧ a.va = va ∧ a.handle = handle
  handles : (live.map Allocation.handle).Subperm v.liveHandles

variable {v v' : Vm} {live : List Allocation}

/-- More handles and a heap pointer further on do no harm. -/
theorem Ledger.mono (h : Ledger v live) (hheap : v.uvmVaddr.toNat ≤ v'.uvmVaddr.toNat)
    (hmap : v'.vaToMemHandle = v.vaToMemHandle) (hlive : v.liveHandles.Subperm v'.liveHandles) :
    Ledger v' live :=
  ⟨fun a ha => Nat.le_trans (h.below a ha) hheap, h.apart, h.distinct, hmap ▸ h.entries,
    h.handles.trans hlive⟩

theorem Ledger.sameMemory (h : Ledger v live) (hsame : v.SameMemory v') : Ledger v' live :=
  h.mono (Nat.le_of_eq (congrArg _ hsame.uvmVaddr.symm)) hsame.vaToMemHandle
    (hsame.liveHandles ▸ List.Subperm.refl _)

/-- Nothing is live at first. -/
theorem ledger_nil (hmap : ∀ va, v.vaToMemHandle va = none) : Ledger v [] :=
  ⟨by simp, .nil, .nil, by simp [hmap], List.nil_subperm⟩

/-- The range of a new allocation: it starts at or behind the heap pointer and does not wrap. -/
structure NewRange (v : Vm) (va size : NvU64) : Prop where
  start : v.uvmVaddr.toNat ≤ va.toNat
  fits : va.toNat + size.toNat < 2 ^ 64

theorem NewRange.toNat_end {va size : NvU64} (h : NewRange v va size) :
    (va + size).toNat = va.toNat + size.toNat := by
  rw [BitVec.toNat_add, Nat.mod_eq_of_lt h.fits]

/-- A failed allocation leaves the ledger as it was. -/
theorem Ledger.leaked (h : Ledger v live) {va size : NvU64} (hnew : NewRange v va size)
    (hleak : v.Leaked v' va size) : Ledger v' live := by
  refine h.mono ?_ hleak.vaToMemHandle ?_
  · have hstart := hnew.start
    rcases hleak.uvmVaddr with hheap | hheap
    · rw [hheap]
    · rw [hheap, hnew.toNat_end]
      omega
  · rcases hleak.liveHandles with hlive | ⟨handle, hlive⟩
    · rw [hlive]
    · rw [hlive]
      exact (List.sublist_cons_self ..).subperm

/-- A range behind the heap pointer follows every live one. -/
theorem Ledger.apart_cons (h : Ledger v live) {a : Allocation} (hnew : NewRange v a.va a.size) :
    (a :: live).Pairwise fun a b => a.va.toNat + a.size.toNat ≤ b.va.toNat ∨
      b.va.toNat + b.size.toNat ≤ a.va.toNat :=
  List.pairwise_cons.mpr
    ⟨fun b hb => Or.inr (Nat.le_trans (h.below b hb) hnew.start), h.apart⟩

theorem Ledger.below_cons (h : Ledger v live) {a : Allocation} (hnew : NewRange v a.va a.size)
    (hheap : v'.uvmVaddr = a.va + a.size) :
    ∀ b ∈ a :: live, b.va.toNat + b.size.toNat ≤ v'.uvmVaddr.toNat := by
  have hstart := hnew.start
  intro b hb
  rw [hheap, hnew.toNat_end]
  rcases List.mem_cons.mp hb with rfl | hb
  · exact Nat.le_refl _
  · have := h.below b hb
    omega

theorem Ledger.handles_cons (h : Ledger v live) {a : Allocation}
    (hlive : v'.liveHandles = a.handle :: v.liveHandles) :
    ((a :: live).map Allocation.handle).Subperm v'.liveHandles := by
  rw [hlive]
  exact (List.subperm_cons a.handle).mpr h.handles

/-- **A device allocation** enters the ledger, unless a live one of no bytes has its address. -/
theorem Ledger.allocated (h : Ledger v live) {a : Allocation} (hdevice : a.onDevice = true)
    (hnew : NewRange v a.va a.size)
    (hvacant : ∀ b ∈ live, b.onDevice = true → b.size = 0 → b.va ≠ a.va)
    (halloc : v.Allocated v' a.va a.size a.handle) : Ledger v' (a :: live) := by
  have hother : ∀ b ∈ live, b.onDevice = true → b.va ≠ a.va := by
    intro b hb hbdevice heq
    have hend := h.below b hb
    have hstart := hnew.start
    have hsize : b.size.toNat = 0 := by
      rw [heq] at hend
      omega
    exact hvacant b hb hbdevice (BitVec.eq_of_toNat_eq hsize) heq
  refine ⟨h.below_cons hnew halloc.uvmVaddr, h.apart_cons hnew, List.pairwise_cons.mpr
    ⟨fun b hb _ hbdevice heq => hother b hb hbdevice heq.symm, h.distinct⟩, fun va handle => ?_,
    h.handles_cons halloc.liveHandles⟩
  rw [halloc.vaToMemHandle]
  by_cases hva : va = a.va
  · rw [hva, Function.update_self]
    constructor
    · intro heq
      exact ⟨a, List.mem_cons_self, hdevice, rfl, Option.some.inj heq⟩
    · rintro ⟨b, hb, hbdevice, hbva, hbhandle⟩
      rcases List.mem_cons.mp hb with rfl | hb
      · rw [hbhandle]
      · exact absurd hbva (hother b hb hbdevice)
  · rw [Function.update_of_ne hva, h.entries]
    constructor
    · rintro ⟨b, hb, hrest⟩
      exact ⟨b, List.mem_cons_of_mem a hb, hrest⟩
    · rintro ⟨b, hb, hbdevice, hbva, hbhandle⟩
      rcases List.mem_cons.mp hb with rfl | hb
      · exact absurd hbva.symm hva
      · exact ⟨b, hb, hbdevice, hbva, hbhandle⟩

/-- **A system allocation** enters the ledger. -/
theorem Ledger.systemAllocated (h : Ledger v live) {a : Allocation} (hsystem : a.onDevice = false)
    (hnew : NewRange v a.va a.size) (halloc : v.SystemAllocated v' a.va a.size a.handle) :
    Ledger v' (a :: live) := by
  refine ⟨h.below_cons hnew halloc.uvmVaddr, h.apart_cons hnew, List.pairwise_cons.mpr
    ⟨fun b _ hadevice => by simp [hsystem] at hadevice, h.distinct⟩, fun va handle => ?_,
    h.handles_cons halloc.liveHandles⟩
  rw [halloc.vaToMemHandle, h.entries]
  simp [hsystem]

/-- **A free** takes one live allocation off the ledger. -/
theorem Ledger.freed (h : Ledger v live) {front rest : List Allocation} {a : Allocation}
    (hlive : live = front ++ a :: rest) (hdevice : a.onDevice = true)
    (hheap : v'.uvmVaddr = v.uvmVaddr)
    (hmap : v'.vaToMemHandle = Function.update v.vaToMemHandle a.va none)
    (hhandles : v'.liveHandles = v.liveHandles.erase a.handle) : Ledger v' (front ++ rest) := by
  have hsub : (front ++ rest).Sublist live := by
    rw [hlive]
    exact (List.Sublist.refl front).append (List.sublist_cons_self a rest)
  have hperm : live.Perm (a :: (front ++ rest)) := hlive ▸ List.perm_middle
  have hdistinct : ∀ b ∈ front ++ rest, b.onDevice = true → b.va ≠ a.va := by
    have hpair := (hperm.pairwise_iff fun hab hb ha => (hab ha hb).symm).mp h.distinct
    intro b hb hbdevice heq
    exact (List.pairwise_cons.mp hpair).1 b hb hdevice hbdevice heq.symm
  refine ⟨fun b hb => hheap ▸ h.below b (hsub.subset hb), h.apart.sublist hsub,
    h.distinct.sublist hsub, fun va handle => ?_, ?_⟩
  · rw [hmap]
    by_cases hva : va = a.va
    · rw [hva, Function.update_self]
      constructor
      · intro heq
        cases heq
      · rintro ⟨b, hb, hbdevice, hbva, -⟩
        exact absurd hbva (hdistinct b hb hbdevice)
    · rw [Function.update_of_ne hva, h.entries]
      constructor
      · rintro ⟨b, hb, hbdevice, hbva, hbhandle⟩
        rcases List.mem_cons.mp (hperm.mem_iff.mp hb) with rfl | hb
        · exact absurd hbva.symm hva
        · exact ⟨b, hb, hbdevice, hbva, hbhandle⟩
      · rintro ⟨b, hb, hrest⟩
        exact ⟨b, hsub.subset hb, hrest⟩
  · rw [hhandles]
    have hall : (a.handle :: (front ++ rest).map Allocation.handle).Subperm v.liveHandles :=
      (hperm.map Allocation.handle).symm.subperm.trans h.handles
    have herase := hall.erase a.handle
    rwa [List.erase_cons_head] at herase

/-! ## The ledger of a process -/

/-- No context was created yet, and no memory taken. -/
structure Contexts.Blank (s : Contexts) : Prop where
  created : s.created = 0
  dead : ∀ c, (s.context c).alive = false
  live : s.live = []
  entries : ∀ va, s.vm.vaToMemHandle va = none

/-- The ledger of a process that has created at most one context. -/
structure Contexts.Sound (s : Contexts) : Prop where
  alive : ∀ c, (s.context c).alive = true → c = 0
  blank : s.created = 0 → s.Blank
  context : ∀ a ∈ s.live, a.context = 0
  ledger : Ledger (s.view 0) s.live

variable {s s' : Contexts}

@[simp] theorem view_put (ctx : ℕ) (v : Vm) : (s.put ctx v).view ctx = v := by
  simp [Contexts.view, Contexts.put]

/-- What the one context does with its memory keeps the ledger, if it does so for the heap of that.
-/
theorem Contexts.Sound.put (h : s.Sound) (halive : (s.context 0).alive = true) {v : Vm}
    {live : List Allocation} (hledger : Ledger v live) (hcontext : ∀ a ∈ live, a.context = 0) :
    ({ s.put 0 v with live := live } : Contexts).Sound := by
  refine ⟨fun c hc => ?_, fun hzero => ?_, hcontext, ?_⟩
  · by_cases hc0 : c = 0
    · exact hc0
    · refine h.alive c ?_
      have hc : (Function.update s.context 0 _ c).alive = true := hc
      rwa [Function.update_of_ne hc0] at hc
  · have hdead := (h.blank hzero).dead 0
    rw [halive] at hdead
    cases hdead
  · have hview : ({ s.put 0 v with live := live } : Contexts).view 0 = v := view_put 0 v
    rw [hview]
    exact hledger

/-- The room a call needs: the range does not run past the address space. -/
def Contexts.Room (s : Contexts) (ctx : ℕ) (size alignment : NvU64) : Prop :=
  (s.context ctx).uvmVaddr.toNat + size.toNat + 2 * alignment.toNat ≤ 2 ^ 64

theorem newRange_of_room {size alignment size' : NvU64} (hpos : 0 < alignment.toNat)
    (hsize : size'.toNat < size.toNat + alignment.toNat) (h : s.Room 0 size alignment) :
    NewRange (s.view 0) ((s.view 0).nextVa alignment) size' := by
  have hroom : (s.view 0).uvmVaddr.toNat + size.toNat + 2 * alignment.toNat ≤ 2 ^ 64 := h
  obtain ⟨hstart, hlt⟩ := nextVa_bounds hpos (v := s.view 0) (by omega)
  exact ⟨hstart, by omega⟩

/-- The heap pointer behind an allocation stays within the room for it. -/
theorem toNat_end_le_of_room {size alignment size' : NvU64} (hpos : 0 < alignment.toNat)
    (hsize : size'.toNat < size.toNat + alignment.toNat) (h : s.Room 0 size alignment) :
    ((s.view 0).nextVa alignment + size').toNat ≤
      (s.context 0).uvmVaddr.toNat + size.toNat + 2 * alignment.toNat := by
  have hroom : (s.view 0).uvmVaddr.toNat + size.toNat + 2 * alignment.toNat ≤ 2 ^ 64 := h
  obtain ⟨-, hlt⟩ := nextVa_bounds hpos (v := s.view 0) (by omega)
  have hview : (s.view 0).uvmVaddr = (s.context 0).uvmVaddr := rfl
  rw [(newRange_of_room hpos hsize h).toNat_end]
  rw [hview] at hlt
  omega

@[simp] theorem put_uvmVaddr (s : Contexts) (ctx : ℕ) (v : Vm) :
    ((s.put ctx v).context ctx).uvmVaddr = v.uvmVaddr := by
  simp [Contexts.put]

/-- No live device allocation of zero bytes lies where the next allocation goes. -/
def Contexts.Vacant (s : Contexts) (ctx : ℕ) (alignment : NvU64) : Prop :=
  ∀ a ∈ s.live, a.onDevice = true → a.size = 0 → a.va ≠ (s.view ctx).nextVa alignment

/-- A program that takes no memory keeps the ledger of the process. -/
theorem wp_onContext_sound (h : s.Sound) (ctx : ℕ) {α : Type} {x : Exec Vm Failure α}
    (hx : Keeps Vm.SameMemory x) :
    wp (onContext ctx x)
      (fun _ s' => s'.Sound ∧ (s'.context 0).uvmVaddr = (s.context 0).uvmVaddr ∧ s'.live = s.live)
      (fun _ s' => s'.Sound) s := by
  rw [onContext, wp_bind, wp_get, wp_bind, wp_require]
  split
  swap
  · exact h
  rename_i halive
  obtain rfl := h.alive ctx halive
  have hkeep : ∀ v : Vm, (s.view 0).SameMemory v → (s.put 0 v).Sound :=
    fun v hv => h.put halive (h.ledger.sameMemory hv) h.context
  rw [wp_zoom]
  refine wp_mono (hx (s.view 0)) (fun _ v hv => ⟨hkeep v hv, ?_, rfl⟩) (fun _ v hv => hkeep v hv)
  rw [put_uvmVaddr]
  exact hv.uvmVaddr

/-- **A device allocation** keeps the ledger of the process. -/
theorem wp_allocIn_sound (h : s.Sound) {ctx : ℕ} {size : NvU64} {hugePages mapToCpu : Bool}
    (hroom : s.Room ctx size (gpuAllocAlignment hugePages))
    (hvacant : s.Vacant ctx (gpuAllocAlignment hugePages)) :
    wp (allocIn ctx size hugePages mapToCpu)
      (fun r s' => s'.Sound ∧ (s'.context 0).uvmVaddr.toNat ≤ (s.context 0).uvmVaddr.toNat +
          size.toNat + 2 * (gpuAllocAlignment hugePages).toNat ∧
        s'.live = ⟨ctx, r.1, gpuAllocSize size hugePages, r.2, true⟩ :: s.live)
      (fun _ s' => s'.Sound) s := by
  rw [allocIn, wp_bind, onContext, wp_bind, wp_get, wp_bind, wp_require]
  split
  swap
  · exact h
  rename_i halive
  obtain rfl := h.alive ctx halive
  have hpos : 0 < (gpuAllocAlignment hugePages).toNat := by cases hugePages <;> decide
  have hfits : size.toNat + (gpuAllocAlignment hugePages).toNat < 2 ^ 64 := by
    unfold Contexts.Room at hroom
    omega
  have hsize := (gpuAllocSize_bounds hfits).2
  have hnew := newRange_of_room hpos hsize hroom
  rw [wp_zoom]
  refine wp_mono (wp_gpuAlloc size hugePages mapToCpu (s.view 0)) (fun r v hr => ?_)
    (fun _ v hleak => h.put halive (h.ledger.leaked hnew hleak) h.context)
  obtain ⟨hva, halloc⟩ := hr
  rw [wp_bind, wp_modify, wp_pure]
  refine ⟨h.put halive (h.ledger.allocated (a := ⟨0, r.1, _, r.2, true⟩) rfl (hva ▸ hnew)
    (fun b hb hdevice hzero => hva ▸ hvacant b hb hdevice hzero) halloc) ?_, ?_, rfl⟩
  · intro a ha
    rcases List.mem_cons.mp ha with rfl | ha
    · rfl
    · exact h.context a ha
  · show ((s.put 0 v).context 0).uvmVaddr.toNat ≤ _
    rw [put_uvmVaddr, halloc.uvmVaddr, hva]
    exact toNat_end_le_of_room hpos hsize hroom

/-- **A system allocation** keeps the ledger of the process. -/
theorem wp_systemAllocIn_sound (h : s.Sound) {ctx : ℕ} {size : NvU64} {mapToCpu : Bool}
    (hroom : s.Room ctx size (4 <<< 10)) :
    wp (systemAllocIn ctx size mapToCpu)
      (fun r s' => s'.Sound ∧ (s'.context 0).uvmVaddr.toNat ≤ (s.context 0).uvmVaddr.toNat +
          size.toNat + 2 * (4 <<< 10 : NvU64).toNat ∧
        s'.live = ⟨ctx, r.1, size, r.2, false⟩ :: s.live)
      (fun _ s' => s'.Sound) s := by
  rw [systemAllocIn, wp_bind, onContext, wp_bind, wp_get, wp_bind, wp_require]
  split
  swap
  · exact h
  rename_i halive
  obtain rfl := h.alive ctx halive
  have hpos : 0 < (4 <<< 10 : NvU64).toNat := by decide
  have hsize : size.toNat < size.toNat + (4 <<< 10 : NvU64).toNat := Nat.lt_add_of_pos_right hpos
  have hnew := newRange_of_room hpos hsize hroom
  rw [wp_zoom]
  refine wp_mono (wp_gpuSystemAlloc size mapToCpu (s.view 0)) (fun r v hr => ?_)
    (fun _ v hleak => h.put halive (h.ledger.leaked hnew hleak) h.context)
  obtain ⟨hva, halloc⟩ := hr
  rw [wp_bind, wp_modify, wp_pure]
  refine ⟨h.put halive (h.ledger.systemAllocated (a := ⟨0, r.1, _, r.2, false⟩) rfl (hva ▸ hnew)
    halloc) ?_, ?_, rfl⟩
  · intro a ha
    rcases List.mem_cons.mp ha with rfl | ha
    · rfl
    · exact h.context a ha
  · show ((s.put 0 v).context 0).uvmVaddr.toNat ≤ _
    rw [put_uvmVaddr, halloc.uvmVaddr, hva]
    exact toNat_end_le_of_room hpos hsize hroom

/-- **A free** keeps the ledger of the process. -/
theorem wp_freeIn_sound (h : s.Sound) (hanswered : s.vm.Answered) (ctx : ℕ) (va : NvU64) :
    wp (freeIn ctx va) (fun _ s' => s'.Sound) (fun _ s' => s'.Sound) s := by
  rw [freeIn, wp_bind, onContext, wp_bind, wp_get, wp_bind, wp_require]
  split
  swap
  · exact h
  rename_i halive
  obtain rfl := h.alive ctx halive
  rw [wp_zoom]
  refine wp_mono (wp_gpuFree (v := s.view 0) hanswered va) (fun _ v hfree => ?_)
    (fun _ v hfail => ?_)
  · obtain ⟨handle, hentry, hheap, hmap, hhandles⟩ := hfree
    obtain ⟨a, ha, hdevice, hva, hhandle⟩ := (h.ledger.entries va handle).mp hentry
    rw [wp_modify]
    -- the allocation that is taken off is the one the map has the entry for
    obtain ⟨b, front, rest, -, hb, hlive, herase⟩ :=
      List.exists_of_eraseP (p := fun a => a.onDevice && a.context == 0 && a.va == va) ha
        (by simp [hdevice, hva, h.context a ha])
    rw [Bool.and_eq_true, Bool.and_eq_true, beq_iff_eq, beq_iff_eq] at hb
    have hown := (h.ledger.entries va b.handle).mpr
      ⟨b, hlive ▸ List.mem_append_right _ List.mem_cons_self, hb.1.1, hb.2, rfl⟩
    have hsame : handle = b.handle := Option.some.inj (hentry.symm.trans hown)
    have hledger : Ledger v (front ++ rest) :=
      h.ledger.freed hlive hb.1.1 hheap (hb.2 ▸ hmap) (hsame ▸ hhandles)
    have hcontext : ∀ a ∈ front ++ rest, a.context = 0 := by
      intro a ha
      refine h.context a ?_
      rw [hlive]
      rcases List.mem_append.mp ha with ha | ha
      · exact List.mem_append_left _ ha
      · exact List.mem_append_right _ (List.mem_cons_of_mem b ha)
    have hput := h.put halive hledger hcontext
    rw [← herase] at hput
    exact hput
  · rw [hfail.2]
    exact h.put halive h.ledger h.context

/-! ## Creating the first context -/

/-- While the one context is being created its heap pointer is still low, and no device allocation
is of zero bytes. -/
structure Contexts.Ready (s : Contexts) (heap : ℕ) : Prop where
  sound : s.Sound
  below : (s.context 0).uvmVaddr.toNat ≤ heap
  filled : ∀ a ∈ s.live, a.onDevice = true → a.size ≠ 0

variable {heap : ℕ}

theorem Contexts.Ready.room (h : s.Ready heap) {size alignment : NvU64}
    (hroom : heap + size.toNat + 2 * alignment.toNat ≤ 2 ^ 64) : s.Room 0 size alignment := by
  have hbelow := h.below
  unfold Contexts.Room
  omega

theorem Contexts.Ready.vacant (h : s.Ready heap) (alignment : NvU64) : s.Vacant 0 alignment :=
  fun a ha hdevice hzero => absurd hzero (h.filled a ha hdevice)

/-- A program that takes no memory. -/
theorem wp_onContext_ready (h : s.Ready heap) {α : Type} {x : Exec Vm Failure α}
    (hx : Keeps Vm.SameMemory x) :
    wp (onContext 0 x) (fun _ s' => s'.Ready heap) (fun _ s' => s'.Sound) s := by
  refine wp_mono (wp_onContext_sound h.sound 0 hx) (fun _ t ht => ?_) (fun _ _ => id)
  obtain ⟨hsound, hheap, hlive⟩ := ht
  exact ⟨hsound, hheap ▸ h.below, hlive ▸ h.filled⟩

/-- A device allocation that is not empty. -/
theorem wp_allocIn_ready (h : s.Ready heap) {size : NvU64} {hugePages mapToCpu : Bool}
    (hroom : heap + size.toNat + 2 * (gpuAllocAlignment hugePages).toNat ≤ 2 ^ 64)
    (hfilled : gpuAllocSize size hugePages ≠ 0) :
    wp (allocIn 0 size hugePages mapToCpu)
      (fun _ s' => s'.Ready (heap + size.toNat + 2 * (gpuAllocAlignment hugePages).toNat))
      (fun _ s' => s'.Sound) s := by
  refine wp_mono (wp_allocIn_sound h.sound (h.room hroom) (h.vacant _)) (fun r t ht => ?_)
    (fun _ _ => id)
  obtain ⟨hsound, hheap, hlive⟩ := ht
  have hbelow := h.below
  refine ⟨hsound, by omega, fun a ha => ?_⟩
  rw [hlive] at ha
  rcases List.mem_cons.mp ha with rfl | ha
  · exact fun _ => hfilled
  · exact h.filled a ha

theorem wp_systemAllocIn_ready (h : s.Ready heap) {size : NvU64} {mapToCpu : Bool}
    (hroom : heap + size.toNat + 2 * (4 <<< 10 : NvU64).toNat ≤ 2 ^ 64) :
    wp (systemAllocIn 0 size mapToCpu)
      (fun _ s' => s'.Ready (heap + size.toNat + 2 * (4 <<< 10 : NvU64).toNat))
      (fun _ s' => s'.Sound) s := by
  refine wp_mono (wp_systemAllocIn_sound h.sound (h.room hroom)) (fun r t ht => ?_) (fun _ _ => id)
  obtain ⟨hsound, hheap, hlive⟩ := ht
  have hbelow := h.below
  refine ⟨hsound, by omega, fun a ha hdevice => ?_⟩
  rw [hlive] at ha
  rcases List.mem_cons.mp ha with rfl | ha
  · cases hdevice
  · exact h.filled a ha hdevice

theorem keeps_rmObject : Keeps Vm.SameMemory rmObject :=
  keeps_sysCall.bind fun _ => (keeps_require _ _).bind fun _ =>
    (keeps_require _ _).bind fun _ => keeps_pure _

theorem keeps_rmCtrl : Keeps Vm.SameMemory rmCtrl := keeps_rmObject

theorem keeps_createObjects : Keeps Vm.SameMemory createObjects :=
  keeps_nvIowr.bind fun _ => keeps_rmObject.bind fun _ => keeps_rmObject.bind fun _ =>
    keeps_rmObject.bind fun userMode => (keeps_memMapToCpu userMode false).bind fun _ =>
      keeps_rmCtrl.bind fun _ => keeps_rmObject.bind fun _ => keeps_uvmIoctl.bind fun _ =>
        keeps_uvmIoctl.bind fun _ => keeps_rmObject.bind fun _ => keeps_rmObject.bind fun _ =>
          keeps_rmCtrl.bind fun _ => keeps_rmCtrl.bind fun _ => keeps_pure _

/-- A channel takes addresses of the heap, and no memory. -/
theorem wp_createChannel (v : Vm) :
    wp createChannel
      (fun _ v' => v'.uvmVaddr = v.nextVa (4 <<< 10) + 0x4000000 ∧
        v'.vaToMemHandle = v.vaToMemHandle ∧ v'.liveHandles = v.liveHandles)
      (fun _ v' => v.Leaked v' (v.nextVa (4 <<< 10)) 0x4000000) v := by
  rw [createChannel, wp_bind]
  refine wp_mono (keeps_rmObject v) (fun _ v₁ h₁ => ?_) (fun _ _ h => h.leaked _ _)
  rw [wp_bind]
  refine wp_mono (keeps_rmObject v₁) (fun _ v₂ h₂ => ?_)
    (fun _ _ h => (IsTrans.trans _ _ _ h₁ h).leaked _ _)
  rw [wp_bind]
  refine wp_mono (keeps_rmObject v₂) (fun _ v₃ h₃ => ?_)
    (fun _ _ h => (IsTrans.trans _ _ _ h₁ (IsTrans.trans _ _ _ h₂ h)).leaked _ _)
  rw [wp_bind]
  have hsame₃ : v.SameMemory v₃ := IsTrans.trans _ _ _ h₁ (IsTrans.trans _ _ _ h₂ h₃)
  refine wp_mono (keeps_rmCtrl v₃) (fun token v₄ h₄ => ?_)
    (fun _ _ h => (IsTrans.trans _ _ _ hsame₃ h).leaked _ _)
  have hsame : v.SameMemory v₄ := IsTrans.trans _ _ _ hsame₃ h₄
  rw [wp_bind, wp_validate]
  split
  swap
  · exact hsame.leaked _ _
  rw [wp_bind]
  refine wp_mono (wp_bumpAllocVirtualAddr _ _ v₄) (fun va v₅ h₅ => ?_) (fun _ _ => False.elim)
  obtain ⟨hva, rfl⟩ := h₅
  have hnext : va = v.nextVa (4 <<< 10) := by
    rw [hva, Vm.nextVa, hsame.uvmVaddr]
    rfl
  refine wp_mono (keeps_uvmIoctl _) (fun _ v₆ h₆ => ?_) (fun _ v₆ h₆ => ?_)
  · refine ⟨?_, h₆.vaToMemHandle.trans hsame.vaToMemHandle,
      h₆.liveHandles.trans hsame.liveHandles⟩
    rw [h₆.uvmVaddr, ← hnext]
  · refine ⟨Or.inr ?_, h₆.vaToMemHandle.trans hsame.vaToMemHandle,
      Or.inl (h₆.liveHandles.trans hsame.liveHandles)⟩
    rw [h₆.uvmVaddr, ← hnext]

/-- A channel of the context. -/
theorem wp_onContext_createChannel (h : s.Ready heap)
    (hroom : heap + (0x4000000 : NvU64).toNat + 2 * (4 <<< 10 : NvU64).toNat ≤ 2 ^ 64) :
    wp (onContext 0 createChannel)
      (fun _ s' => s'.Ready (heap + (0x4000000 : NvU64).toNat + 2 * (4 <<< 10 : NvU64).toNat))
      (fun _ s' => s'.Sound) s := by
  rw [onContext, wp_bind, wp_get, wp_bind, wp_require]
  split
  swap
  · exact h.sound
  rename_i halive
  have hpos : 0 < (4 <<< 10 : NvU64).toNat := by decide
  have hsize := Nat.lt_add_of_pos_right (n := (0x4000000 : NvU64).toNat) hpos
  have hnew := newRange_of_room hpos hsize (h.room hroom)
  have hledger := h.sound.ledger
  rw [wp_zoom]
  refine wp_mono (wp_createChannel (s.view 0)) (fun _ v hv => ?_) (fun _ v hleak =>
    h.sound.put halive (hledger.leaked hnew hleak) h.sound.context)
  obtain ⟨hheap, hmap, hlive⟩ := hv
  refine ⟨h.sound.put halive (hledger.leaked hnew ⟨Or.inr hheap, hmap, Or.inl hlive⟩)
    h.sound.context, ?_, h.filled⟩
  have hend := toNat_end_le_of_room hpos hsize (h.room hroom)
  have hbelow := h.below
  rw [put_uvmVaddr, hheap]
  omega

/-- What a channel and its notifier take of the heap. -/
def channelRoom : ℕ := 0x4000000 + (48 <<< 20) + 4 * (4 <<< 10)

theorem wp_makeGpuFifo_ready (h : s.Ready heap) (hroom : heap + channelRoom ≤ 2 ^ 64) (va : NvU64)
    (handle : NvU32) :
    wp (makeGpuFifo 0 va handle) (fun _ s' => s'.Ready (heap + channelRoom))
      (fun _ s' => s'.Sound) s := by
  have hnotifier : (48 <<< 20 : NvU64).toNat = 48 <<< 20 := by decide
  have hregistered : (0x4000000 : NvU64).toNat = 0x4000000 := by decide
  have hpage : (4 <<< 10 : NvU64).toNat = 4 <<< 10 := by decide
  unfold channelRoom at hroom ⊢
  rw [makeGpuFifo, wp_bind, wp_validate]
  split
  swap
  · exact h.sound
  rw [wp_bind, wp_validate]
  split
  swap
  · exact h.sound
  rw [wp_bind]
  refine wp_mono (wp_systemAllocIn_ready h (by omega)) (fun _ t ht => ?_) (fun _ _ => id)
  refine wp_mono (wp_onContext_createChannel ht (by omega)) (fun _ u hu => ?_) (fun _ _ => id)
  have hbelow := hu.below
  exact ⟨hu.sound, by omega, hu.filled⟩

/-- What a new context takes of its heap: the area of the queues, and two channels. -/
def contextRoom : ℕ := gpuFifoAreaSize.toNat + 2 * (2 <<< 20) + 2 * channelRoom

theorem wp_setupContext_ready (h : s.Ready uvmHeapStart.toNat) :
    wp (setupContext 0) (fun _ s' => s'.Ready (uvmHeapStart.toNat + contextRoom))
      (fun _ s' => s'.Sound) s := by
  have hstart : uvmHeapStart.toNat = 0x1000000000 := by decide
  have harea : gpuFifoAreaSize.toNat = 0x200000 := by decide
  have hhuge : (gpuAllocAlignment true).toNat = 2 <<< 20 := by decide
  have hchannel : channelRoom = 117456896 := by decide
  unfold contextRoom
  rw [setupContext, wp_bind]
  refine wp_mono (wp_onContext_ready h keeps_createObjects) (fun _ s₁ h₁ => ?_) (fun _ _ => id)
  rw [wp_bind]
  refine wp_mono (wp_allocIn_ready h₁ (by omega) (by decide)) (fun _ s₂ h₂ => ?_) (fun _ _ => id)
  rw [wp_bind]
  refine wp_mono (wp_makeGpuFifo_ready h₂ (by omega) _ _) (fun _ s₃ h₃ => ?_) (fun _ _ => id)
  rw [wp_bind]
  refine wp_mono (wp_makeGpuFifo_ready h₃ (by omega) _ _) (fun _ s₄ h₄ => ?_) (fun _ _ => id)
  rw [wp_bind]
  refine wp_mono (wp_onContext_ready h₄ keeps_rmCtrl) (fun _ s₅ h₅ => ?_) (fun _ _ => id)
  rw [wp_pure]
  refine ⟨h₅.sound, h₅.below.trans (Nat.le_of_eq ?_), h₅.filled⟩
  rw [hhuge, Nat.two_mul channelRoom, ← Nat.add_assoc, ← Nat.add_assoc, ← Nat.add_assoc]

/-- The copy kernels for each device fit into an address space. -/
def SmallImages (copyImage : ℕ → Option ElfImage) : Prop :=
  ∀ ordinal image, copyImage ordinal = some image →
    ∀ rebuiltImage sections, rebuildImage image.sections = .ok (rebuiltImage, sections) →
      rebuiltImage.length < 2 ^ 62

theorem toNat_allocatedSize_lt {n : ℕ} (h : n < 2 ^ 62) : (allocatedSize n).toNat < 2 ^ 63 := by
  have hn : (BitVec.ofNat 64 n).toNat = n := by
    rw [BitVec.toNat_ofNat, Nat.mod_eq_of_lt (by omega)]
  have hpage : (0x1000 : NvU64).toNat = 0x1000 := by decide
  have hround := toNat_roundUp (BitVec.ofNat 64 n) 0x1000 (by decide) (by rw [hn, hpage]; omega)
  have hle := Nat.div_mul_le_self ((BitVec.ofNat 64 n).toNat + (0x1000 : NvU64).toNat - 1)
    (0x1000 : NvU64).toNat
  have hsize : allocatedSize n = roundUp (BitVec.ofNat 64 n) 0x1000 + 0x1000 := rfl
  rw [← hround, hn, hpage] at hle
  rw [hsize, BitVec.toNat_add, hpage]
  omega

/-- What `loadMemcpyKernelsIfNeeded` does behind the allocation keeps the ledger. -/
def Contexts.SoundTo (s s' : Contexts) : Prop := s.Sound → s'.Sound

instance : IsPreorder Contexts Contexts.SoundTo where
  refl _ h := h
  trans _ _ _ h h' hs := h' (h hs)

/-- A step that leaves memory and contexts alone. -/
theorem soundTo_of_eq (hcontext : s'.context = s.context) (hcreated : s'.created = s.created)
    (hvm : s'.vm = s.vm) (hlive : s'.live = s.live) : s.SoundTo s' := by
  intro h
  refine ⟨fun c => hcontext ▸ h.alive c, fun hzero => ?_, hlive ▸ h.context, ?_⟩
  · have hblank := h.blank (hcreated ▸ hzero)
    exact ⟨hzero, hcontext ▸ hblank.dead, hlive.trans hblank.live, hvm ▸ hblank.entries⟩
  · rw [hlive, Contexts.view, hvm, hcontext]
    exact h.ledger

theorem keeps_cacheKernel (ordinal ctx : ℕ) (m : LibreCUmodule) (kernel : CopyKernel) :
    Keeps Contexts.SoundTo (cacheKernel ordinal ctx m kernel) :=
  (keeps_ofExcept _).bind fun _ => keeps_modify fun _ => soundTo_of_eq rfl rfl rfl rfl

theorem wp_loadCurrent_ready (h : s.Ready (uvmHeapStart.toNat + contextRoom))
    (hcurrent : s.currentCtx = some 0) {image : ElfImage}
    (hsmall : ∀ rebuiltImage sections, rebuildImage image.sections = .ok (rebuiltImage, sections) →
      rebuiltImage.length < 2 ^ 62) :
    wp (loadCurrent image) (fun _ s' => s'.Sound) (fun _ s' => s'.Sound) s := by
  have hheap : uvmHeapStart.toNat + contextRoom < 2 ^ 62 := by decide
  have hpage : (gpuAllocAlignment false).toNat = 4 <<< 10 := by decide
  rw [loadCurrent, wp_bind, wp_get, hcurrent]
  dsimp only
  rw [wp_bind, wp_ofExcept]
  refine ⟨fun r hr => ?_, fun _ _ => h.sound⟩
  have hsize := toNat_allocatedSize_lt (hsmall r.1 r.2 hr)
  rw [wp_bind]
  refine wp_mono (wp_allocIn_sound h.sound (h.room (by omega)) (h.vacant _)) (fun q t ht => ?_)
    (fun _ _ => id)
  rw [wp_bind, wp_ofExcept]
  refine ⟨fun _ _ => ?_, fun _ _ => ht.1⟩
  rw [wp_bind, wp_ofExcept]
  refine ⟨fun _ _ => ?_, fun _ _ => ht.1⟩
  rw [wp_pure]
  exact ht.1

theorem wp_loadMemcpyKernelsIfNeeded_ready (h : s.Ready (uvmHeapStart.toNat + contextRoom))
    (hcurrent : s.currentCtx = some 0) {copyImage : ℕ → Option ElfImage}
    (hsmall : SmallImages copyImage) (ordinal : ℕ) :
    wp (loadMemcpyKernelsIfNeeded copyImage ordinal) (fun _ s' => s'.Sound) (fun _ s' => s'.Sound)
      s := by
  rw [loadMemcpyKernelsIfNeeded, wp_bind, wp_get, wp_onlyIf]
  split
  swap
  · exact h.sound
  split
  · rw [wp_throw]
    exact h.sound
  · rename_i image himage
    rw [wp_bind]
    refine wp_mono (wp_loadCurrent_ready h hcurrent (hsmall ordinal image himage))
      (fun r t ht => ?_) (fun _ _ => id)
    have hkeeps := ((keeps_cacheKernel ordinal r.1 r.2 .highBW).bind fun _ =>
      (keeps_cacheKernel ordinal r.1 r.2 .lowLatency).bind fun _ =>
        (keeps_cacheKernel ordinal r.1 r.2 .trailing).bind fun _ =>
          keeps_modify (f := fun s : Contexts => { s with
            initialized := Function.update s.initialized ordinal true })
            fun _ => soundTo_of_eq rfl rfl rfl rfl) t
    exact wp_mono hkeeps (fun _ _ hto => hto ht) (fun _ _ hto => hto ht)

/-- The record of the first context. -/
theorem Contexts.Sound.addContext (h : s.Sound) (hzero : s.created = 0) (ordinal : ℕ) :
    (s.addContext ordinal).Ready uvmHeapStart.toNat := by
  obtain ⟨-, hdead, hlive, hmap⟩ := h.blank hzero
  have hcontext : (s.addContext ordinal).context =
      Function.update s.context 0 { device := ordinal, alive := true } := by
    rw [← hzero]
    rfl
  have hlive' : (s.addContext ordinal).live = [] := hlive
  refine ⟨⟨fun c hc => ?_, fun hzero' => ?_, ?_, ?_⟩, ?_, ?_⟩
  · by_contra hne
    rw [hcontext, Function.update_of_ne hne, hdead c] at hc
    cases hc
  · exact absurd hzero' (Nat.succ_ne_zero _)
  · rw [hlive']
    simp
  · rw [hlive']
    exact ledger_nil hmap
  · rw [hcontext, Function.update_self]
  · rw [hlive']
    simp

/-- **Creating the first context** keeps the ledger. -/
theorem wp_libreCuCtxCreate_sound (h : s.Sound) (hzero : s.created = 0)
    {copyImage : ℕ → Option ElfImage} (hsmall : SmallImages copyImage) (device : LibreCUdevice) :
    wp (libreCuCtxCreate copyImage device) (fun _ s' => s'.Sound) (fun _ s' => s'.Sound) s := by
  rw [libreCuCtxCreate, wp_bind, checkDevice, wp_bind, wp_get, wp_bind, wp_validate]
  split
  swap
  · exact h
  rw [wp_bind, wp_validate]
  split
  swap
  · exact h
  rw [wp_bind, wp_validate]
  split
  swap
  · exact h
  split
  · rw [wp_throw]
    exact h
  · rename_i handle hhandle
    rw [wp_pure, wp_bind, newContext, wp_bind, wp_get, wp_bind, wp_set, wp_pure, wp_bind, hzero]
    refine wp_mono (wp_setupContext_ready (h.addContext hzero handle.ordinal)) (fun _ t ht => ?_)
      (fun _ _ => id)
    rw [wp_bind, wp_modify, wp_bind]
    have hready : ({ t with currentCtx := some 0 } : Contexts).Ready
        (uvmHeapStart.toNat + contextRoom) :=
      ⟨soundTo_of_eq (s := t) rfl rfl rfl rfl ht.sound, ht.below, ht.filled⟩
    refine wp_mono (wp_loadMemcpyKernelsIfNeeded_ready hready rfl hsmall device.ordinal)
      (fun _ u hu => ?_) (fun _ _ => id)
    rw [wp_pure]
    exact hu

/-! ## Runs -/

/-- The condition on a call: the process creates one context, which does not run out of addresses,
and no live device allocation of zero bytes has the address of the next one. -/
def Contexts.Confined (s : Contexts) (e : ContextCall × (ℕ → NvU32)) : Prop :=
  match e.1 with
  | .create _ => s.created = 0
  | .alloc ctx size hugePages _ =>
    s.Room ctx size (gpuAllocAlignment hugePages) ∧ s.Vacant ctx (gpuAllocAlignment hugePages)
  | .systemAlloc ctx size _ => s.Room ctx size (4 <<< 10)
  | .destroy _ | .setCurrent _ | .free _ _ => True

theorem Contexts.Blank.sound (h : s.Blank) : s.Sound := by
  refine ⟨fun c hc => ?_, fun _ => h, ?_, ?_⟩
  · rw [h.dead c] at hc
    cases hc
  · rw [h.live]
    simp
  · rw [h.live]
    exact ledger_nil h.entries

/-- The answers of the kernel are no part of the ledger. -/
theorem Contexts.Sound.answered (h : s.Sound) (handles : ℕ → NvU32) : (s.answered handles).Sound :=
  ⟨h.alive, fun hzero => ⟨hzero, (h.blank hzero).dead, (h.blank hzero).live,
    (h.blank hzero).entries⟩, h.context, h.ledger.mono (Nat.le_refl _) rfl (List.Subperm.refl _)⟩

/-- A context that is destroyed keeps its memory. -/
theorem Contexts.Sound.destroyed (h : s.Sound) {ctx : ℕ} (halive : (s.context ctx).alive = true)
    (currentCtx : Option ℕ) :
    ({ s with
      currentCtx := currentCtx
      context := Function.update s.context ctx { s.context ctx with alive := false } } :
        Contexts).Sound := by
  obtain rfl := h.alive ctx halive
  refine ⟨fun c hc => ?_, fun hzero => ?_, h.context, ?_⟩
  · by_contra hne
    have hc : (Function.update s.context 0 _ c).alive = true := hc
    rw [Function.update_of_ne hne] at hc
    exact hne (h.alive c hc)
  · rw [(h.blank hzero).dead 0] at halive
    cases halive
  · refine h.ledger.mono (Nat.le_of_eq ?_) rfl (List.Subperm.refl _)
    show _ = (Function.update s.context 0 _ 0).uvmVaddr.toNat
    rw [Function.update_self]
    rfl

/-- **One call** that meets the condition keeps the ledger. -/
theorem Contexts.Sound.step {copyImage : ℕ → Option ElfImage} (hsmall : SmallImages copyImage)
    (h : s.Sound) {e : ContextCall × (ℕ → NvU32)} (hconfined : s.Confined e)
    (hstep : s.step copyImage e = some s') : s'.Sound := by
  obtain ⟨rfl, -⟩ := Contexts.step_eq_some hstep
  have hsound := h.answered e.2
  have hwp : wp (e.1.run copyImage) (fun _ t => t.Sound) (fun _ t => t.Sound) (s.answered e.2) := by
    obtain ⟨c, handles⟩ := e
    cases c with
    | create device =>
      simp only [ContextCall.run, wp_bind, wp_pure]
      exact wp_libreCuCtxCreate_sound hsound hconfined hsmall device
    | destroy ctx =>
      rw [ContextCall.run, libreCuCtxDestroy, wp_bind, wp_get, wp_bind, wp_require]
      split
      · rename_i halive
        rw [wp_set]
        exact hsound.destroyed halive _
      · exact hsound
    | setCurrent ctx =>
      rw [ContextCall.run, libreCuCtxSetCurrent, wp_modify]
      exact soundTo_of_eq (s := s.answered handles) rfl rfl rfl rfl hsound
    | alloc ctx size hugePages mapToCpu =>
      simp only [ContextCall.run, wp_bind, wp_pure]
      exact wp_mono (wp_allocIn_sound hsound hconfined.1 hconfined.2) (fun _ _ ht => ht.1)
        (fun _ _ => id)
    | systemAlloc ctx size mapToCpu =>
      simp only [ContextCall.run, wp_bind, wp_pure]
      exact wp_mono (wp_systemAllocIn_sound hsound hconfined) (fun _ _ ht => ht.1) (fun _ _ => id)
    | free ctx va => exact wp_freeIn_sound hsound (fun _ => ⟨rfl, rfl⟩) ctx va
  rcases wp_call (Prod.eta _).symm hwp with ⟨_, _, ht⟩ | ⟨_, _, ht⟩
  · exact ht
  · exact ht

/-- A free of a live device allocation releases its handle. -/
theorem Contexts.Sound.freesOwn (h : s.Sound) {a : Allocation} (ha : a ∈ s.live)
    (hdevice : a.onDevice = true) (halive : (s.context a.context).alive = true) :
    s.FreesOwn a := by
  intro handles
  have hzero := h.context a ha
  have hsound := h.answered handles
  have hentry := (hsound.ledger.entries a.va a.handle).mpr ⟨a, ha, hdevice, rfl, rfl⟩
  have hmem : a.handle ∈ s.vm.liveHandles :=
    h.ledger.handles.subset (List.mem_map.mpr ⟨a, ha, rfl⟩)
  have hwp : wp (freeIn a.context a.va)
      (fun _ s' => (a.handle :: s'.vm.liveHandles).Perm s.vm.liveHandles) (fun _ _ => False)
      (s.answered handles) := by
    rw [hzero] at halive ⊢
    rw [freeIn, wp_bind, onContext, wp_bind, wp_get, wp_bind, wp_require]
    rw [if_pos (show ((s.answered handles).context 0).alive = true from halive), wp_zoom]
    refine wp_mono (wp_gpuFree (v := (s.answered handles).view 0) (fun _ => ⟨rfl, rfl⟩) a.va)
      (fun _ v hfree => ?_) (fun _ v hfail => ?_)
    · obtain ⟨handle, hfound, -, -, hhandles⟩ := hfree
      obtain rfl : handle = a.handle := Option.some.inj (hfound.symm.trans hentry)
      rw [wp_modify]
      show (a.handle :: v.liveHandles).Perm _
      rw [hhandles]
      exact (List.perm_cons_erase hmem).symm
    · cases hfail.1.symm.trans hentry
  rcases wp_call (Prod.eta _).symm hwp with ⟨_, hok, hperm⟩ | ⟨_, _, hfalse⟩
  · exact ⟨_, Prod.ext hok rfl, hperm⟩
  · exact hfalse.elim

/-- The ledger keeps allocations from colliding. -/
theorem Contexts.Sound.separate (h : s.Sound) : s.Separate := by
  refine ⟨?_, fun a ha hdevice halive => h.freesOwn ha hdevice halive⟩
  refine List.Pairwise.imp_of_mem (fun {a b} ha hb hab => ?_) h.ledger.apart
  have hend := (s.view 0).uvmVaddr.isLt
  have hafits := h.ledger.below a ha
  have hbfits := h.ledger.below b hb
  rcases hab with hab | hba
  · exact apart_of_le (by omega) (by omega) hab
  · exact (apart_of_le (by omega) (by omega) hba).symm

/-- **Allocations do not collide** in a process all of whose calls meet the condition: in every
state of the run live ranges are apart, and a free releases the handle of its own allocation. -/
theorem allocations_separate {copyImage : ℕ → Option ElfImage} (hsmall : SmallImages copyImage)
    (hs : s.Blank) {calls : List (ContextCall × (ℕ → NvU32))}
    (hconfined : Meets (Contexts.step copyImage) Contexts.Confined s calls) :
    Always (Contexts.step copyImage) Contexts.Separate s calls :=
  (always_of_meets (fun _ _ _ h hq hstep => h.step hsmall hq hstep) hs.sound hconfined).imp
    fun _ h => h.separate

theorem blank_sampleProcess : sampleProcess.Blank := ⟨rfl, fun _ => rfl, rfl, fun _ => rfl⟩

theorem smallImages_sample : SmallImages sampleCopyImages := by
  intro ordinal image himage rebuiltImage sections hrebuild
  obtain rfl := Option.some.inj himage
  have hlength : (rebuildImage sampleCopyImage.sections).map (fun r => r.1.length) = .ok 0 := by
    decide +kernel
  rw [hrebuild] at hlength
  have hempty : rebuiltImage.length = 0 := Except.ok.inj hlength
  omega

/-- One context that allocates a page. -/
theorem allocations_separate_sample :
    Always (Contexts.step sampleCopyImages) Contexts.Separate sampleProcess
      [createFrom 1, (.alloc 0 4096 false false, fun n => BitVec.ofNat 32 (100 + n))] := by
  refine allocations_separate smallImages_sample blank_sampleProcess
    fun s₁ hs₁ => ⟨rfl, fun s₂ _ => ⟨?_, trivial⟩⟩
  obtain rfl := Option.some.inj (step_oneContext.symm.trans hs₁)
  unfold Contexts.Confined Contexts.Room Contexts.Vacant
  decide +kernel

/-- **The queues of a second context lie where those of the first one do.** -/
theorem second_context_collides :
    sampleProcess.Blank ∧
      exec (Contexts.step sampleCopyImages) sampleProcess [createFrom 1, createFrom 100] =
        some twoContexts ∧
      ¬ twoContexts.Separate := by
  refine ⟨blank_sampleProcess, ?_, fun hseparate => ?_⟩
  · rw [exec_cons step_oneContext, exec_cons step_twoContexts]
    rfl
  · have hareas : [(⟨1, uvmHeapStart, gpuFifoAreaSize, 116, true⟩ : Allocation),
        ⟨0, uvmHeapStart, gpuFifoAreaSize, 17, true⟩].Sublist twoContexts.live := by
      decide +kernel
    have hapart := List.rel_of_pairwise_cons (hseparate.apart.sublist hareas) List.mem_cons_self
    refine hapart uvmHeapStart ⟨?_, ?_⟩
    · unfold Allocation.Contains
      decide
    · unfold Allocation.Contains
      decide

end LibreCuda
