import LibreCuda.Queue.Acceptance
import LibreCuda.Queue.Session
import Mathlib.Data.Set.Insert

/-! # Handles behind the queue

Which handles the memory bookkeeping can still give back, and what the calls on a queue do to it. A
handle is *stray* if it is live and no address leads to it: `gpuFree` looks handles up by address,
so it is never released.

* **`Vm.Books`** is the invariant of the bookkeeping, with a set of stray handles.
* **`keepsBooks_call`**: every call on a stream keeps it, and leaves the stray handles stray.
* **`wp_initializeQueue_books`**: initialising a queue adds one, that of the signal pool. -/

namespace LibreCuda

open Exec

/-! ## The books -/

/-- **The books.** Every entry of the map names a live handle, and no two name the same one; the
stray handles are live, and no entry names one of them. -/
structure Vm.Books (stray : Set NvU32) (v : Vm) : Prop where
  entry_live : ∀ va handle, v.vaToMemHandle va = some handle → handle ∈ v.liveHandles
  entry_unique : ∀ va va' handle, v.vaToMemHandle va = some handle →
    v.vaToMemHandle va' = some handle → va = va'
  stray_live : ∀ handle ∈ stray, handle ∈ v.liveHandles
  stray_unlisted : ∀ handle ∈ stray, ∀ va, v.vaToMemHandle va ≠ some handle

/-- Fewer stray handles. -/
theorem Vm.Books.mono {stray stray' : Set NvU32} {v : Vm} (h : v.Books stray)
    (hsub : stray' ⊆ stray) : v.Books stray' :=
  ⟨h.entry_live, h.entry_unique, fun handle hmem => h.stray_live handle (hsub hmem),
    fun handle hmem => h.stray_unlisted handle (hsub hmem)⟩

/-- The books under the same map, with more handles live. -/
theorem Vm.Books.of_subset {stray : Set NvU32} {v v' : Vm} (h : v.Books stray)
    (hmap : v'.vaToMemHandle = v.vaToMemHandle) (hlive : v.liveHandles ⊆ v'.liveHandles) :
    v'.Books stray := by
  refine ⟨fun va handle hentry => ?_, fun va va' handle hentry hentry' => ?_,
    fun handle hmem => hlive (h.stray_live handle hmem), fun handle hmem va => ?_⟩
  · rw [hmap] at hentry
    exact hlive (h.entry_live va handle hentry)
  · rw [hmap] at hentry hentry'
    exact h.entry_unique va va' handle hentry hentry'
  · rw [hmap]
    exact h.stray_unlisted handle hmem va

/-- Calls that give memory back: what is taken off the map is what is released. -/
structure Vm.Gives (v v' : Vm) : Prop where
  sublist : v'.liveHandles.Sublist v.liveHandles
  books : ∀ stray, v.Books stray → v'.Books stray

instance : IsPreorder Vm Vm.Gives where
  refl _ := ⟨List.Sublist.refl _, fun _ h => h⟩
  trans _ _ _ h h' := ⟨h'.sublist.trans h.sublist,
    fun stray hbooks => h'.books stray (h.books stray hbooks)⟩

/-- Calls that take memory: handles are added, and the books are kept if these are fresh. -/
structure Vm.Takes (v v' : Vm) : Prop where
  suffix : v.liveHandles <:+ v'.liveHandles
  books : v'.liveHandles.Nodup → ∀ stray, v.Books stray → v'.Books stray

instance : IsPreorder Vm Vm.Takes where
  refl _ := ⟨List.suffix_rfl, fun _ _ h => h⟩
  trans _ _ _ h h' := ⟨h.suffix.trans h'.suffix, fun hnodup stray hbooks =>
    h'.books hnodup stray (h.books (h'.suffix.sublist.nodup hnodup) stray hbooks)⟩

/-- Calls that may give memory back and take some after that. -/
structure Vm.KeepsBooks (v v' : Vm) : Prop where
  books : v'.liveHandles.Nodup → ∀ stray, v.Books stray → v'.Books stray

theorem Vm.SameMemory.takes {v v' : Vm} (h : v.SameMemory v') : v.Takes v' :=
  ⟨h.liveHandles ▸ List.suffix_rfl, fun _ _ hbooks =>
    hbooks.of_subset h.vaToMemHandle (h.liveHandles ▸ List.Subset.refl _)⟩

/-- A failed allocation leaves a handle behind at most. -/
theorem Vm.Leaked.takes {v v' : Vm} {va size : NvU64} (h : v.Leaked v' va size) : v.Takes v' := by
  rcases h.liveHandles with hlive | ⟨handle, hlive⟩
  · exact ⟨hlive ▸ List.suffix_rfl, fun _ _ hbooks =>
      hbooks.of_subset h.vaToMemHandle (hlive ▸ List.Subset.refl _)⟩
  · exact ⟨hlive ▸ List.suffix_cons handle _, fun _ _ hbooks =>
      hbooks.of_subset h.vaToMemHandle (hlive ▸ List.subset_cons_self handle _)⟩

/-- **A device allocation** enters its handle under its address. -/
theorem Vm.Allocated.takes {v v' : Vm} {va size : NvU64} {handle : NvU32}
    (h : v.Allocated v' va size handle) : v.Takes v' := by
  refine ⟨h.liveHandles ▸ List.suffix_cons handle _, fun hnodup stray hbooks => ?_⟩
  rw [h.liveHandles] at hnodup
  have hfresh : handle ∉ v.liveHandles := (List.nodup_cons.mp hnodup).1
  have hentry : ∀ a b, v'.vaToMemHandle a = some b →
      (a = va ∧ b = handle) ∨ (a ≠ va ∧ v.vaToMemHandle a = some b) := by
    intro a b hab
    rw [h.vaToMemHandle] at hab
    by_cases ha : a = va
    · rw [ha, Function.update_self] at hab
      exact Or.inl ⟨ha, (Option.some.inj hab).symm⟩
    · rw [Function.update_of_ne ha] at hab
      exact Or.inr ⟨ha, hab⟩
  refine ⟨fun a b hab => ?_, fun a a' b hab hab' => ?_, fun b hb => ?_, fun b hb a hab => ?_⟩
  · rw [h.liveHandles]
    rcases hentry a b hab with ⟨-, rfl⟩ | ⟨-, hold⟩
    · exact List.mem_cons_self
    · exact List.mem_cons_of_mem handle (hbooks.entry_live a b hold)
  · -- the new handle is in no older entry: those are live, and it is fresh
    rcases hentry a b hab with ⟨rfl, rfl⟩ | ⟨-, hold⟩
    · rcases hentry a' b hab' with ⟨rfl, -⟩ | ⟨-, hold'⟩
      · rfl
      · exact absurd (hbooks.entry_live a' b hold') hfresh
    · rcases hentry a' b hab' with ⟨-, rfl⟩ | ⟨-, hold'⟩
      · exact absurd (hbooks.entry_live a b hold) hfresh
      · exact hbooks.entry_unique a a' b hold hold'
  · rw [h.liveHandles]
    exact List.mem_cons_of_mem handle (hbooks.stray_live b hb)
  · rcases hentry a b hab with ⟨-, rfl⟩ | ⟨-, hold⟩
    · exact hfresh (hbooks.stray_live b hb)
    · exact hbooks.stray_unlisted b hb a hold

theorem Vm.SystemAllocated.takes {v v' : Vm} {va size : NvU64} {handle : NvU32}
    (h : v.SystemAllocated v' va size handle) : v.Takes v' :=
  ⟨h.liveHandles ▸ List.suffix_cons handle _, fun _ _ hbooks =>
    hbooks.of_subset h.vaToMemHandle (h.liveHandles ▸ List.subset_cons_self handle _)⟩

/-- **The handle of a system allocation is stray** from the start. -/
theorem Vm.SystemAllocated.books {v v' : Vm} {va size : NvU64} {handle : NvU32}
    (h : v.SystemAllocated v' va size handle) (hnodup : v'.liveHandles.Nodup) {stray : Set NvU32}
    (hbooks : v.Books stray) : handle ∉ v.liveHandles ∧ v'.Books (insert handle stray) := by
  have hkept := h.takes.books hnodup stray hbooks
  rw [h.liveHandles] at hnodup
  have hfresh : handle ∉ v.liveHandles := (List.nodup_cons.mp hnodup).1
  refine ⟨hfresh, hkept.entry_live, hkept.entry_unique, fun b hb => ?_, fun b hb va hentry => ?_⟩
  · rcases hb with rfl | hb
    · rw [h.liveHandles]
      exact List.mem_cons_self
    · exact hkept.stray_live b hb
  · rcases hb with rfl | hb
    · rw [h.vaToMemHandle] at hentry
      exact hfresh (hbooks.entry_live va b hentry)
    · exact hkept.stray_unlisted b hb va hentry

/-- Releasing the handle of an entry and dropping the entry. -/
theorem Vm.Books.freed {stray : Set NvU32} {v v' : Vm} {va : NvU64} {handle : NvU32}
    (h : v.Books stray) (hentry : v.vaToMemHandle va = some handle)
    (hmap : v'.vaToMemHandle = Function.update v.vaToMemHandle va none)
    (hlive : v'.liveHandles = v.liveHandles.erase handle ∨ v'.liveHandles = v.liveHandles) :
    v'.Books stray := by
  have hstays : ∀ b ∈ v.liveHandles, b ≠ handle → b ∈ v'.liveHandles := by
    intro b hb hne
    rcases hlive with hlive | hlive
    · rw [hlive]
      exact (List.mem_erase_of_ne hne).mpr hb
    · rw [hlive]
      exact hb
  have hold : ∀ a b, v'.vaToMemHandle a = some b → a ≠ va ∧ v.vaToMemHandle a = some b := by
    intro a b hab
    rw [hmap] at hab
    by_cases ha : a = va
    · rw [ha, Function.update_self] at hab
      cases hab
    · rw [Function.update_of_ne ha] at hab
      exact ⟨ha, hab⟩
  refine ⟨fun a b hab => ?_, fun a a' b hab hab' => ?_, fun b hb => ?_, fun b hb a hab => ?_⟩
  · obtain ⟨hne, hab⟩ := hold a b hab
    refine hstays b (h.entry_live a b hab) ?_
    rintro rfl
    exact hne (h.entry_unique a va b hab hentry)
  · exact h.entry_unique a a' b (hold a b hab).2 (hold a' b hab').2
  · refine hstays b (h.stray_live b hb) ?_
    rintro rfl
    exact h.stray_unlisted b hb va hentry
  · exact h.stray_unlisted b hb a (hold a b hab).2

/-! ## The allocators -/

theorem takes_gpuAlloc (size : NvU64) (hugePages mapToCpu : Bool) :
    Keeps Vm.Takes (gpuAlloc size hugePages mapToCpu) := fun v =>
  wp_mono (wp_gpuAlloc size hugePages mapToCpu v) (fun _ _ h => h.2.takes) fun _ _ h => h.takes

theorem takes_gpuSystemAlloc (size : NvU64) (mapToCpu : Bool) :
    Keeps Vm.Takes (gpuSystemAlloc size mapToCpu) := fun v =>
  wp_mono (wp_gpuSystemAlloc size mapToCpu v) (fun _ _ h => h.2.takes) fun _ _ h => h.takes

/-- **`gpuFree`** keeps the books, whatever the kernel answers. -/
theorem gives_gpuFree (va : NvU64) : Keeps Vm.Gives (gpuFree va) := by
  intro v
  have hsameBooks : ∀ w, v.SameMemory w → v.Gives w := fun w hsame =>
    ⟨hsame.liveHandles ▸ List.Sublist.refl _, fun _ h =>
      h.of_subset hsame.vaToMemHandle (hsame.liveHandles ▸ List.Subset.refl _)⟩
  rw [gpuFree, wp_bind, wp_get]
  split
  · rw [wp_throw]
    exact Std.Refl.refl v
  · rename_i handle hentry
    rw [wp_bind]
    refine wp_mono (keeps_sysCall v) (fun reply w hsame => ?_) (fun _ w hsame => hsameBooks w hsame)
    rw [wp_bind, wp_validate]
    split
    · rw [wp_modify]
      have hgives := hsameBooks w hsame
      refine ⟨?_, fun stray h =>
        @Vm.Books.freed stray w _ va handle (hgives.books stray h) ?_ rfl ?_⟩
      · dsimp only
        split
        · exact List.erase_sublist.trans hgives.sublist
        · exact hgives.sublist
      · rw [hsame.vaToMemHandle]
        exact hentry
      · dsimp only
        split
        · exact Or.inl rfl
        · exact Or.inr rfl
    · exact hsameBooks w hsame

/-! ## What the calls do to the books -/

/-- The relations on the bookkeeping, of a stream. -/
structure Host.GivesMemory (h h' : Host) : Prop where
  vm : h.vm.Gives h'.vm

structure Host.TakesMemory (h h' : Host) : Prop where
  vm : h.vm.Takes h'.vm

structure Host.KeepsBooks (h h' : Host) : Prop where
  vm : h.vm.KeepsBooks h'.vm

instance : IsPreorder Host Host.GivesMemory where
  refl h := ⟨Std.Refl.refl h.vm⟩
  trans _ _ _ h h' := ⟨IsTrans.trans _ _ _ h.vm h'.vm⟩

instance : IsPreorder Host Host.TakesMemory where
  refl h := ⟨Std.Refl.refl h.vm⟩
  trans _ _ _ h h' := ⟨IsTrans.trans _ _ _ h.vm h'.vm⟩

theorem Host.SameLocalMem.takes {h h' : Host} (hsame : h.SameLocalMem h') : h.TakesMemory h' :=
  ⟨hsame.vm.symm ▸ Std.Refl.refl h.vm⟩

theorem Host.SameLocalMem.gives {h h' : Host} (hsame : h.SameLocalMem h') : h.GivesMemory h' :=
  ⟨hsame.vm.symm ▸ Std.Refl.refl h.vm⟩

theorem Host.SameLocalMem.keepsBooks {h h' h'' : Host} (hsame : h.SameLocalMem h') (hkeeps : h'.KeepsBooks h'') :
    h.KeepsBooks h'' :=
  ⟨hsame.vm ▸ hkeeps.vm⟩

theorem Host.KeepsBooks.sameVm {h h' h'' : Host} (hkeeps : h.KeepsBooks h') (hsame : h'.SameLocalMem h'') :
    h.KeepsBooks h'' :=
  ⟨hsame.vm.symm ▸ hkeeps.vm⟩

theorem Host.GivesMemory.keepsBooks {h h' : Host} (hgives : h.GivesMemory h') : h.KeepsBooks h' :=
  ⟨⟨fun _ => hgives.vm.books⟩⟩

theorem Host.TakesMemory.keepsBooks {h h' : Host} (htakes : h.TakesMemory h') : h.KeepsBooks h' :=
  ⟨⟨htakes.vm.books⟩⟩

theorem Host.GivesMemory.takes {h h' h'' : Host} (hgives : h.GivesMemory h')
    (htakes : h'.TakesMemory h'') : h.KeepsBooks h'' :=
  ⟨⟨fun hnodup stray hbooks =>
    htakes.vm.books hnodup stray (hgives.vm.books stray hbooks)⟩⟩

/-- Growing local memory gives back what the function had before it takes more. -/
theorem keepsBooks_ensureEnoughLocalMem (function : ℕ) :
    Keeps Host.KeepsBooks (ensureEnoughLocalMem function) := by
  have htimeline : ∀ x : Exec CommandTimeline Failure Unit, Keeps Host.TakesMemory (onTimeline x) :=
    fun x => (keeps_onTimeline (keeps_anyTimeline x)).mono fun _ _ => Host.SameLocalMem.takes
  have halloc : ∀ size, Keeps Host.TakesMemory (onVm (gpuAlloc size true false)) := fun size =>
    (takes_gpuAlloc size true false).zoom fun _ _ h => ⟨h⟩
  have hgrow : ∀ slm, Keeps Host.TakesMemory (growLocalMem function slm) := by
    intro slm
    refine Keeps.bind (keeps_modify fun h => ?_) fun _ => (halloc _).bind fun _ =>
      Keeps.bind (keeps_modify fun h => ?_) fun _ => (htimeline _).bind fun _ => htimeline _
    · exact ⟨Std.Refl.refl h.vm⟩
    · exact ⟨Std.Refl.refl h.vm⟩
  have hfree : ∀ va, Keeps Host.GivesMemory (freeLocalMem va) := fun va =>
    Keeps.onlyIf ((gives_gpuFree va).zoom fun _ _ h => ⟨h⟩) _
  intro h
  rw [ensureEnoughLocalMem, wp_bind, wp_get, wp_onlyIf]
  split
  · exact (hfree _).seq (fun _ => hgrow _) (fun _ _ => Host.GivesMemory.keepsBooks)
      (fun _ _ _ => Host.GivesMemory.takes) h
  · exact (Std.Refl.refl h : h.GivesMemory h).keepsBooks

theorem keepsBooks_launchFunction (function : Option ℕ) (grid block : Dim3)
    (sharedMemBytes : NvU32) (params : ℕ → ℕ → NvU8) (numParams : NvU64) (async : Bool) :
    Keeps Host.KeepsBooks
      (launchFunction function grid block sharedMemBytes params numParams async) := by
  have hprepare : ∀ function, Keeps Host.KeepsBooks (prepareLaunch function async) :=
    fun function => (keeps_onTimeline (keeps_anyTimeline _)).seq
      (fun _ => (keepsBooks_ensureEnoughLocalMem function).seq
        (fun _ => keeps_get.bind fun _ => keeps_onTimeline (keeps_anyTimeline _)) (fun _ _ h => h)
        fun _ _ _ => Host.KeepsBooks.sameVm)
      (fun _ _ h => h.gives.keepsBooks) fun _ _ _ => Host.SameLocalMem.keepsBooks
  have hrefl : ∀ h : Host, h.KeepsBooks h := fun h => (Std.Refl.refl h : h.GivesMemory h).keepsBooks
  intro h
  cases function with
  | none =>
    rw [launchFunction, wp_throw]
    exact hrefl h
  | some function =>
    rw [launchFunction, wp_bind, wp_get, wp_bind, wp_validate]
    split
    · exact (hprepare function).seq (fun _ => keeps_performLaunch _ _ _ _ _ _ _)
        (fun _ _ h => h) (fun _ _ _ => Host.KeepsBooks.sameVm) h
    · exact hrefl h

/-- **Every call on a stream keeps the books**: whatever is stray stays so. -/
theorem keepsBooks_call (c : ApiCall) : Keeps Host.KeepsBooks c.run := by
  have hsame : ∀ x : Driver Unit, Keeps Host.SameLocalMem x → Keeps Host.KeepsBooks x :=
    fun x hx => hx.mono fun _ _ h => h.gives.keepsBooks
  cases c with
  | launchFunction => exact keepsBooks_launchFunction _ _ _ _ _ _ _
  | gpuMemcpy => exact hsame _ (keeps_gpuMemcpy _ _ _ _)
  | recordEvent => exact hsame _ (keeps_recordEvent _ _)
  | startExecution => exact hsame _ keeps_startExecution
  | awaitExecution => exact hsame _ keeps_awaitExecution

/-! ## Initialising a queue -/

theorem takes_allocatePages : Keeps Host.TakesMemory allocatePages := by
  have halloc : ∀ size, Keeps Host.TakesMemory (onVm (gpuAlloc size false true)) := fun size =>
    (takes_gpuAlloc size false true).zoom fun _ _ h => ⟨h⟩
  refine (halloc _).bind fun _ => Keeps.bind (keeps_modify fun _ => ?_) fun _ =>
    (halloc _).bind fun _ => keeps_modify fun _ => ?_
  · exact Host.SameLocalMem.takes ⟨rfl, rfl, rfl⟩
  · exact Host.SameLocalMem.takes ⟨rfl, rfl, rfl⟩

/-- What the initialisation does behind the allocation of the signal pool. -/
theorem takes_afterPool : Keeps Host.TakesMemory (do
    setupCompute
    setupDma
    let (kernArgsVa, _) ← onVm (gpuAlloc kernargsPageSize true true)
    modify fun h => { h with
      queue := { h.queue with kernArgsPageVa := kernArgsVa, initialized := true } }) := by
  have halloc : Keeps Host.TakesMemory (onVm (gpuAlloc kernargsPageSize true true)) :=
    (takes_gpuAlloc kernargsPageSize true true).zoom fun _ _ h => ⟨h⟩
  have hsame : ∀ x : Driver Unit, Keeps Host.SameLocalMem x → Keeps Host.TakesMemory x :=
    fun x hx => hx.mono fun _ _ => Host.SameLocalMem.takes
  refine (hsame _ keeps_setupCompute).bind fun _ => (hsame _ keeps_setupDma).bind fun _ =>
    halloc.bind fun _ => keeps_modify fun _ => ?_
  exact Host.SameLocalMem.takes ⟨rfl, rfl, rfl⟩

/-- The signal pool: its handle is stray. -/
theorem wp_allocateSignals_books (h : Host) :
    wp allocateSignals
      (fun _ h' => ∃ pool, h.TakesMemory h' ∧ (h'.vm.liveHandles.Nodup → ∀ stray, h.vm.Books stray →
        pool ∉ h.vm.liveHandles ∧ h'.vm.Books (insert pool stray)))
      (fun _ h' => h.TakesMemory h') h := by
  have hsignal : Keeps Host.SameLocalMem obtainSignal := keeps_obtainSignal
  rw [allocateSignals, wp_bind, wp_onVm]
  refine wp_mono (wp_gpuSystemAlloc _ true h.vm) (fun r v halloc => ?_)
    (fun _ _ hleak => ⟨hleak.takes⟩)
  obtain ⟨-, halloc⟩ := halloc
  rw [wp_bind, wp_modify, wp_bind]
  refine wp_mono (hsignal _) (fun signal h' hsame => ?_) (fun _ h' hsame => ?_)
  · rw [wp_onTimeline, wp_modify]
    have hvm : h'.vm = v := hsame.vm
    refine ⟨r.2, ⟨?_⟩, fun hnodup stray hbooks => ?_⟩
    · show h.vm.Takes h'.vm
      rw [hvm]
      exact halloc.takes
    · have hnodup : h'.vm.liveHandles.Nodup := hnodup
      show _ ∧ h'.vm.Books _
      rw [hvm] at hnodup ⊢
      exact halloc.books hnodup hbooks
  · have hvm : h'.vm = v := hsame.vm
    exact ⟨hvm ▸ halloc.takes⟩

theorem takes_initializeQueue : Keeps Host.TakesMemory initializeQueue := by
  refine takes_allocatePages.bind fun _ => Keeps.bind (fun h => ?_) fun _ => takes_afterPool
  exact wp_mono (wp_allocateSignals_books h) (fun _ _ hok => hok.choose_spec.1) fun _ _ => id

/-- **A queue that was initialised has a stray handle**: the map has no entry for the memory of its
signal pool. -/
theorem wp_initializeQueue_books (h : Host) :
    wp initializeQueue
      (fun _ h' => ∃ pool, h'.vm.liveHandles.Nodup → ∀ stray, h.vm.Books stray →
        pool ∉ h.vm.liveHandles ∧ h'.vm.Books (insert pool stray))
      (fun _ _ => True) h := by
  rw [initializeQueue, wp_bind]
  refine wp_mono (takes_allocatePages h) (fun _ h₁ hpages => ?_) (fun _ _ _ => trivial)
  rw [wp_bind]
  refine wp_mono (wp_allocateSignals_books h₁) (fun _ h₂ hpool => ?_) (fun _ _ _ => trivial)
  obtain ⟨pool, htakes, hpool⟩ := hpool
  refine wp_mono (takes_afterPool h₂) (fun _ h₃ hrest => ?_) (fun _ _ _ => trivial)
  refine ⟨pool, fun hnodup stray hbooks => ?_⟩
  have hnodup₂ := hrest.vm.suffix.sublist.nodup hnodup
  obtain ⟨hfresh, hbooks₂⟩ := hpool hnodup₂ stray
    (hpages.vm.books (htakes.vm.suffix.sublist.nodup hnodup₂) stray hbooks)
  exact ⟨fun hmem => hfresh (hpages.vm.suffix.subset hmem), hrest.vm.books hnodup _ hbooks₂⟩

end LibreCuda
