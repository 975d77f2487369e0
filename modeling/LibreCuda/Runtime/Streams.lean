import LibreCuda.Foundation.Runs
import LibreCuda.Queue.Memory
import LibreCuda.Runtime.Memcpy
import LibreCuda.Runtime.Process

/-! # Creating and destroying streams

`libreCuStreamCreate`, `libreCuStreamDestroy` and the destructor of the command queue, among the
other calls of a process that take memory and give it back. The destructor gives memory back by its
address, and the signal pool is not in the map from addresses to handles.

* **`Process.step`** is one call of a process, on a stream or on memory.
* **`Process.Reachable.books`**: the books are kept in every reachable process.
* **`destroyed_stream_leaks`**: whatever was done on a stream, destroying it leaves the handle of
  its signal pool live, which was not live before the stream was created. -/

namespace LibreCuda

open Exec Runs

/-! ## The destructor -/

/-- `releaseSignal`: put a signal back into the pool. -/
def releaseSignal (signal : NvU64) : Driver Unit := do
  validate (signal != 0) .invalidValue
  let h ← get
  let signalIdx : NvU32 := ((signal - h.queue.signalPool).sdiv nvSignalBytes).setWidth 32
  validate (decide (signalIdx.toNat < maxSignalPoolSize)) .invalidValue
  validate (!h.queue.freeSignals.contains signalIdx) .invalidValue
  modify fun h => { h with
    queue := { h.queue with freeSignals := h.queue.freeSignals ++ [signalIdx] } }

/-- `~NvCommandQueue`: a queue that was not initialised has nothing to give back. -/
def destroyQueue : Driver Unit := do
  let h ← get
  Exec.onlyIf h.queue.initialized do
    ignoreStatus (releaseSignal h.queue.timelineSignal)
    ignoreStatus (onVm (gpuFree h.queue.signalPool))
    ignoreStatus (onVm (gpuFree h.queue.computeQueuePage.commandQueueSpace))
    ignoreStatus (onVm (gpuFree h.queue.dmaQueuePage.commandQueueSpace))
    ignoreStatus (onVm (gpuFree h.queue.kernArgsPageVa))

/-! ## Streams of a process -/

/-- The queue as the constructor leaves it. It does not initialise `kernArgsPageVa`. -/
def newQueue (kernArgsPageVa : NvU64) : NvCommandQueue :=
  { currentQueueType := none, kernArgsPageVa }

/-- `libreCuStreamCreate`, at a place where there is no stream. -/
def libreCuStreamCreate (stream : ℕ) (kernArgsPageVa : NvU64) : Exec Process Failure Unit := do
  modify fun p => { p with queue := Function.update p.queue stream (newQueue kernArgsPageVa) }
  onStream stream initializeQueue

/-- `libreCuStreamDestroy`. -/
def libreCuStreamDestroy (stream : ℕ) : Exec Process Failure Unit := onStream stream destroyQueue

/-- Run a program on the memory of the process. -/
def onMemory {α : Type} (x : Exec Vm Failure α) : Exec Process Failure α :=
  Exec.zoom (fun p => p.shared.vm) (fun v p => { p with shared := { p.shared with vm := v } }) x

/-- The calls of a process: streams are created, used and destroyed, and everything else takes
memory and gives it back. -/
inductive ProcessCall
  | streamCreate (stream : ℕ) (kernArgsPageVa : NvU64)
  | streamDestroy (stream : ℕ)
  | api (stream : ℕ) (c : ApiCall)
  | alloc (size : NvU64) (hugePages mapToCpu : Bool)
  | systemAlloc (size : NvU64) (mapToCpu : Bool)
  | free (va : NvU64)

/-- The program of a call. -/
def ProcessCall.run : ProcessCall → Exec Process Failure Unit
  | .streamCreate stream kernArgsPageVa => libreCuStreamCreate stream kernArgsPageVa
  | .streamDestroy stream => libreCuStreamDestroy stream
  | .api stream c => onStream stream c.run
  | .alloc size hugePages mapToCpu => do
    let _ ← onMemory (gpuAlloc size hugePages mapToCpu)
  | .systemAlloc size mapToCpu => do
    let _ ← onMemory (gpuSystemAlloc size mapToCpu)
  | .free va => onMemory (gpuFree va)

/-- What a call finds: the context it is for, with its heap pointer, what the GPU has written and
will have written when the CPU waits, and the handles the kernel answers with. -/
structure Surroundings where
  ctx : LibreCUcontext
  uvmVaddr : NvU64
  values : NvU64 → NvU64 := fun _ => 0
  progress : List (NvU32 × NvU32) := []
  handles : ℕ → NvU32

/-- The process as a call finds it. Every system call is answered with success. -/
def Process.enter (p : Process) (x : Surroundings) : Process :=
  { p with
    shared := { p.shared with
      ctx := x.ctx
      signals := fun a => { p.shared.signals a with value := x.values a }
      progress := x.progress
      vm := { p.shared.vm with
        uvmVaddr := x.uvmVaddr
        sysCalls := 0
        sysReply := fun n => { handle := x.handles n } } } }

/-- The outcome of a call, and the process it leaves. -/
def Process.made (p : Process) (e : ProcessCall × Surroundings) : Except Failure Unit × Process :=
  call e.1.run (p.enter e.2)

/-- One call, whether it succeeds or fails. The kernel hands out fresh handles: those it has not
been given back are different, and none is zero. -/
def Process.step (p : Process) (e : ProcessCall × Surroundings) : Option Process :=
  if (0 :: (p.made e).2.shared.vm.liveHandles).Nodup then some (p.made e).2 else none

/-- A process that has taken no memory. -/
structure Process.Blank (p : Process) : Prop where
  entries : ∀ va, p.shared.vm.vaToMemHandle va = none
  liveHandles : p.shared.vm.liveHandles = []

/-- Some calls lead from a process that has taken no memory here. -/
def Process.Reachable (p : Process) : Prop :=
  ∃ p₀ : Process, p₀.Blank ∧ ∃ calls, exec Process.step p₀ calls = some p

/-- The live handles. -/
def Process.liveHandles (p : Process) : Set NvU32 := {handle | handle ∈ p.shared.vm.liveHandles}

/-! ## The books of a process -/

variable {p p' : Process} {e : ProcessCall × Surroundings}

theorem step_eq_some (h : p.step e = some p') :
    p' = (p.made e).2 ∧ p'.shared.vm.liveHandles.Nodup := by
  unfold Process.step at h
  split at h
  · rename_i hnodup
    obtain rfl := Option.some.inj h
    exact ⟨rfl, (List.nodup_cons.mp hnodup).2⟩
  · cases h

/-- What a process does to its books. -/
structure Process.KeepsBooks (p p' : Process) : Prop where
  vm : p.shared.vm.KeepsBooks p'.shared.vm

theorem keepsBooks_onStream {α : Type} {x : Driver α} (hx : Keeps Host.KeepsBooks x) (stream : ℕ) :
    Keeps Process.KeepsBooks (onStream stream x) :=
  hx.zoom fun _ _ h => ⟨h.vm⟩

theorem keepsBooks_onMemory {α : Type} {x : Exec Vm Failure α} (hx : Keeps Vm.KeepsBooks x) :
    Keeps Process.KeepsBooks (onMemory x) :=
  hx.zoom fun _ _ h => ⟨h⟩

/-- A call whose status is not looked at. -/
theorem keeps_ignoreStatus {r : Host → Host → Prop} [IsPreorder Host r] {x : Driver Unit}
    (hx : Keeps r x) : Keeps r (ignoreStatus x) := by
  intro h
  rw [ignoreStatus, wp_tryCatch]
  refine wp_mono (hx h) (fun _ _ => id) (fun e h' hr => ?_)
  cases e with
  | status s => exact (wp_pure ..).mpr hr
  | _ => exact (wp_throw ..).mpr hr

theorem gives_destroyQueue : Keeps Host.GivesMemory destroyQueue := by
  have hfree : ∀ va, Keeps Host.GivesMemory (ignoreStatus (onVm (gpuFree va))) := fun va =>
    keeps_ignoreStatus ((gives_gpuFree va).zoom fun _ _ h => ⟨h⟩)
  have hrelease : ∀ signal, Keeps Host.GivesMemory (releaseSignal signal) := by
    intro signal
    refine (keeps_require _ _).bind fun _ => keeps_get.bind fun _ => (keeps_require _ _).bind fun _ =>
      (keeps_require _ _).bind fun _ => keeps_modify fun _ => ?_
    exact Host.SameLocalMem.gives ⟨rfl, rfl, rfl⟩
  exact keeps_get.bind fun _ => Keeps.onlyIf ((keeps_ignoreStatus (hrelease _)).bind fun _ =>
    (hfree _).bind fun _ => (hfree _).bind fun _ => (hfree _).bind fun _ => hfree _) _

theorem keepsBooks_libreCuStreamCreate (stream : ℕ) (kernArgsPageVa : NvU64) :
    Keeps Process.KeepsBooks (libreCuStreamCreate stream kernArgsPageVa) := by
  intro p
  rw [libreCuStreamCreate, wp_bind, wp_modify]
  have hinit : Keeps Host.KeepsBooks initializeQueue :=
    takes_initializeQueue.mono fun _ _ => Host.TakesMemory.keepsBooks
  refine wp_mono (keepsBooks_onStream hinit stream _) (fun _ _ h => ?_) (fun _ _ h => ?_)
  · exact ⟨h.vm⟩
  · exact ⟨h.vm⟩

/-- **Every call keeps the books.** -/
theorem keepsBooks_run (c : ProcessCall) : Keeps Process.KeepsBooks c.run := by
  have hunit : ∀ {α : Type} {x : Exec Process Failure α}, Keeps Process.KeepsBooks x →
      Keeps Process.KeepsBooks (x >>= fun _ => pure ()) := by
    intro α x hx p
    rw [wp_bind]
    exact wp_mono (hx p) (fun _ _ h => (wp_pure ..).mpr h) (fun _ _ => id)
  cases c with
  | streamCreate stream va => exact keepsBooks_libreCuStreamCreate stream va
  | streamDestroy stream =>
    exact keepsBooks_onStream
      (gives_destroyQueue.mono fun _ _ => Host.GivesMemory.keepsBooks) stream
  | api stream c => exact keepsBooks_onStream (keepsBooks_call c) stream
  | alloc size hugePages mapToCpu =>
    exact hunit (keepsBooks_onMemory ((takes_gpuAlloc _ _ _).mono fun _ _ h => ⟨h.books⟩))
  | systemAlloc size mapToCpu =>
    exact hunit (keepsBooks_onMemory ((takes_gpuSystemAlloc _ _).mono fun _ _ h => ⟨h.books⟩))
  | free va =>
    exact keepsBooks_onMemory ((gives_gpuFree va).mono fun _ _ h => ⟨fun _ => h.books⟩)

/-- What a call finds is in the books. -/
theorem Process.books_enter {stray : Set NvU32} (h : p.shared.vm.Books stray) (x : Surroundings) :
    (p.enter x).shared.vm.Books stray :=
  h.of_subset rfl (List.Subset.refl _)

/-- **A step keeps the books.** -/
theorem Process.books_step {stray : Set NvU32} (h : p.shared.vm.Books stray)
    (hs : p.step e = some p') : p'.shared.vm.Books stray := by
  obtain ⟨rfl, hnodup⟩ := step_eq_some hs
  have hkeeps : (p.enter e.2).KeepsBooks (p.made e).2 := (keepsBooks_run e.1).of_call rfl
  exact hkeeps.vm.books hnodup stray (Process.books_enter h e.2)

/-- **A run keeps the books.** -/
theorem Process.books_exec {stray : Set NvU32} (h : p.shared.vm.Books stray)
    {calls : List (ProcessCall × Surroundings)} (hrun : exec Process.step p calls = some p') :
    p'.shared.vm.Books stray :=
  (always_of_step (fun _ _ _ hbooks hs => Process.books_step hbooks hs) h).exec hrun

/-- **The books of a reachable process** are kept. -/
theorem Process.Reachable.books (h : p.Reachable) : p.shared.vm.Books ∅ := by
  obtain ⟨p₀, hblank, calls, hrun⟩ := h
  refine Process.books_exec ?_ hrun
  refine ⟨fun va handle hentry => ?_, fun va _ handle hentry => ?_, fun _ hmem => hmem.elim,
    fun _ hmem => hmem.elim⟩
  · rw [hblank.entries] at hentry
    cases hentry
  · rw [hblank.entries] at hentry
    cases hentry

/-! ## The life of a stream -/

/-- A stream can always be destroyed: the kernel hands out nothing. -/
theorem step_streamDestroy (hnodup : (0 :: p.shared.vm.liveHandles).Nodup) (stream : ℕ)
    (y : Surroundings) :
    p.step (.streamDestroy stream, y) = some (p.made (.streamDestroy stream, y)).2 := by
  have hgives : Keeps (fun p p' : Process => p.shared.vm.Gives p'.shared.vm)
      (onStream stream destroyQueue) := gives_destroyQueue.zoom fun _ _ h => h.vm
  have hsub : (p.made (.streamDestroy stream, y)).2.shared.vm.liveHandles.Sublist
      (p.enter y).shared.vm.liveHandles := ((hgives.of_call rfl).sublist)
  exact if_pos ((hsub.cons_cons 0).nodup hnodup)

/-- **A stream that was created has a stray handle**, which was not live before. -/
theorem stray_of_created {stream : ℕ} {va : NvU64} {x : Surroundings}
    (hbooks : p.shared.vm.Books ∅) (hok : (p.made (.streamCreate stream va, x)).1 = .ok ())
    (hs : p.step (.streamCreate stream va, x) = some p') :
    ∃ pool, pool ∉ p.liveHandles ∧ p'.shared.vm.Books {pool} := by
  obtain ⟨rfl, hnodup⟩ := step_eq_some hs
  have hcall : call (libreCuStreamCreate stream va) (p.enter x) =
      (.ok (), (p.made (.streamCreate stream va, x)).2) := Prod.ext hok rfl
  have hwp : wp (libreCuStreamCreate stream va) (fun _ p' => ∃ pool,
      p'.shared.vm.liveHandles.Nodup → ∀ stray, p.shared.vm.Books stray →
        pool ∉ p.shared.vm.liveHandles ∧ p'.shared.vm.Books (insert pool stray))
      (fun _ _ => True) (p.enter x) := by
    rw [libreCuStreamCreate, wp_bind, wp_modify, onStream, wp_zoom]
    refine wp_mono (wp_initializeQueue_books _) (fun _ h' hpool => ?_) (fun _ _ _ => trivial)
    obtain ⟨pool, hpool⟩ := hpool
    exact ⟨pool, fun hnodup stray hbooks => hpool hnodup stray (Process.books_enter hbooks x)⟩
  rcases wp_call hcall hwp with ⟨_, -, pool, hpool⟩ | ⟨_, hr, -⟩
  · obtain ⟨hfresh, hkept⟩ := hpool hnodup ∅ hbooks
    exact ⟨pool, hfresh, hkept.mono (by simp)⟩
  · cases hr

/-- **Destroying a stream never gives back what creating it took**: in every process, whatever calls
were made on the stream, the memory of the signal pool stays live. -/
theorem destroyed_stream_leaks {created used destroyed : Process} {stream : ℕ} {va : NvU64}
    {x y : Surroundings} {calls : List (ApiCall × Surroundings)} (hp : p.Reachable)
    (hok : (p.made (.streamCreate stream va, x)).1 = .ok ())
    (hcreate : p.step (.streamCreate stream va, x) = some created)
    (huse : exec Process.step created (calls.map fun c => (.api stream c.1, c.2)) = some used)
    (hdestroy : used.step (.streamDestroy stream, y) = some destroyed) :
    destroyed.liveHandles ≠ p.liveHandles := by
  obtain ⟨pool, hfresh, hbooks⟩ := stray_of_created hp.books hok hcreate
  have hused := Process.books_exec hbooks huse
  have hdestroyed := Process.books_step hused hdestroy
  intro heq
  have hlive : pool ∈ destroyed.liveHandles := hdestroyed.stray_live pool rfl
  rw [heq] at hlive
  exact hfresh hlive

/-- A process that has taken no memory. -/
def noStreams : Process := ⟨sampleFresh, fun _ => newQueue 0⟩

def sampleSurroundings : Surroundings :=
  { ctx := sampleFresh.ctx, uvmVaddr := uvmHeapStart, values := fun _ => 2
    handles := fun n => BitVec.ofNat 32 (n + 1) }

/-- The process with one stream. -/
def sampleCreated : Process := (noStreams.made (.streamCreate 0 0, sampleSurroundings)).2

/-- The calls that make a stream work and wait for it. -/
def sampleUse : List (ApiCall × Surroundings) :=
  [(sampleLaunch false, sampleSurroundings), (.startExecution, sampleSurroundings),
    (.awaitExecution, sampleSurroundings)]

theorem reachable_noStreams : noStreams.Reachable :=
  ⟨noStreams, ⟨fun _ => rfl, rfl⟩, [], rfl⟩

theorem made_sampleCreated :
    (noStreams.made (.streamCreate 0 0, sampleSurroundings)).1 = .ok () := by decide +kernel

theorem liveHandles_sampleCreated : sampleCreated.shared.vm.liveHandles = [21, 15, 8, 1] := by
  decide +kernel

theorem step_sampleCreated :
    noStreams.step (.streamCreate 0 0, sampleSurroundings) = some sampleCreated := by
  refine if_pos ?_
  show (0 :: sampleCreated.shared.vm.liveHandles).Nodup
  rw [liveHandles_sampleCreated]
  decide

theorem exec_sampleUse :
    (exec Process.step sampleCreated (sampleUse.map fun c => (.api 0 c.1, c.2))).map
      (fun p => p.shared.vm.liveHandles) = some [21, 15, 8, 1] := by decide +kernel

/-- A stream on which a kernel was run. -/
theorem destroyed_stream_leaks_sample : ∃ used destroyed : Process,
    exec Process.step sampleCreated (sampleUse.map fun c => (.api 0 c.1, c.2)) = some used ∧
      used.step (.streamDestroy 0, sampleSurroundings) = some destroyed ∧
      destroyed.liveHandles ≠ noStreams.liveHandles := by
  obtain ⟨used, huse, hlive⟩ := Option.map_eq_some_iff.mp exec_sampleUse
  have hdestroy : used.step (.streamDestroy 0, sampleSurroundings) = some _ :=
    step_streamDestroy (by rw [hlive]; decide) 0 sampleSurroundings
  exact ⟨used, _, huse, hdestroy, destroyed_stream_leaks reachable_noStreams made_sampleCreated
    step_sampleCreated huse hdestroy⟩

/-- **Creating a stream and destroying it** leaves a handle behind. -/
theorem created_and_destroyed_stream_leaks : ∃ destroyed : Process, noStreams.Reachable ∧
    (noStreams.made (.streamCreate 0 0, sampleSurroundings)).1 = .ok () ∧
    noStreams.step (.streamCreate 0 0, sampleSurroundings) = some sampleCreated ∧
    sampleCreated.step (.streamDestroy 0, sampleSurroundings) = some destroyed ∧
    destroyed.liveHandles ≠ noStreams.liveHandles := by
  have hdestroy : sampleCreated.step (.streamDestroy 0, sampleSurroundings) = some _ :=
    step_streamDestroy (by rw [liveHandles_sampleCreated]; decide) 0 sampleSurroundings
  refine ⟨_, reachable_noStreams, made_sampleCreated, step_sampleCreated, hdestroy, fun heq => ?_⟩
  obtain ⟨pool, hfresh, hbooks⟩ :=
    stray_of_created reachable_noStreams.books made_sampleCreated step_sampleCreated
  have hlive : pool ∈ (sampleCreated.made (.streamDestroy 0, sampleSurroundings)).2.liveHandles :=
    (Process.books_step hbooks hdestroy).stray_live pool rfl
  rw [heq] at hlive
  exact hfresh hlive

end LibreCuda
