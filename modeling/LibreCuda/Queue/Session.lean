import LibreCuda.Queue.Initialize

/-! # Sessions

A program uses a stream by calling the functions of the driver one after another. Between two calls
the GPU moves on: it writes signals and advances on its rings, and the driver sees that at the next
call (`Host.observe`).

* **`Host.Step`** is one call with what was observed before it, and its outcome.
* **`Host.Reachable`**: some sequence of calls leads here from an initialised stream.
* **`Host.Usable`** holds throughout: the timeline has a signal, the CPU can wait, and neither an
  event nor the pool holds the timeline signal. -/

namespace LibreCuda

open Channels Exec

/-- The calls on a stream. -/
inductive ApiCall
  | launchFunction (function : Option ℕ) (grid block : Dim3) (sharedMemBytes : NvU32)
      (params : ℕ → ℕ → NvU8) (numParams : NvU64) (async : Bool)
  | gpuMemcpy (dst src numBytes : NvU64) (async : Bool)
  | recordEvent (event : Option ℕ) (pStream : ℕ)
  | startExecution
  | awaitExecution

/-- The program of a call. -/
def ApiCall.run : ApiCall → Driver Unit
  | .launchFunction function grid block sharedMemBytes params numParams async =>
    LibreCuda.launchFunction function grid block sharedMemBytes params numParams async
  | .gpuMemcpy dst src numBytes async => LibreCuda.gpuMemcpy dst src numBytes async
  | .recordEvent event pStream => LibreCuda.recordEvent event pStream
  | .startExecution => LibreCuda.startExecution
  | .awaitExecution => LibreCuda.awaitExecution

/-- The call adds commands to the queue. -/
def ApiCall.Builds : ApiCall → Prop
  | .startExecution => False
  | .awaitExecution => False
  | _ => True

/-- The call enqueues an operation if it succeeds. -/
def ApiCall.isOperation : ApiCall → Bool
  | .launchFunction .. => true
  | .gpuMemcpy .. => true
  | _ => false

/-- What the GPU has written since the last call: the values of signals and its position on both
rings. -/
def Host.observe (h : Host) (values : NvU64 → NvU64) (gpGet : NvU32 × NvU32) : Host :=
  { h with
    signals := fun a => { h.signals a with value := values a }
    ctx := { h.ctx with
      computeGpfifo := { h.ctx.computeGpfifo with gpGet := gpGet.1 }
      dmaGpfifo := { h.ctx.dmaGpfifo with gpGet := gpGet.2 } } }

/-- A call, made after the driver has observed the GPU. -/
def Host.Step (c : ApiCall) (r : Except Failure Unit) (h h' : Host) : Prop :=
  ∃ values gpGet, call c.run (h.observe values gpGet) = (r, h')

/-- Some sequence of calls, each succeeding or failing, leads from an initialised stream here. -/
inductive Host.Reachable : Host → Prop
  | initialized {h : Host} : h.Initialized → Reachable h
  | step {h h' : Host} {c : ApiCall} {r : Except Failure Unit} :
      Reachable h → h.Step c r h' → Reachable h'

/-- What every call relies on. -/
structure Host.Usable (h : Host) : Prop where
  timelineSignal : h.timeline.timelineSignal ≠ 0
  waits : Waits h.ctx.flags
  events : ∀ e type, (h.events e).signal type ≠ h.timeline.timelineSignal
  freeSignals : ∀ idx ∈ h.queue.freeSignals,
    h.queue.signalPool + idx.setWidth 64 * nvSignalBytes ≠ h.timeline.timelineSignal

theorem Host.Initialized.usable {h : Host} (hi : h.Initialized) : h.Usable :=
  ⟨hi.ready.timelineSignal, hi.ready.waits, hi.2, hi.ready.freeSignals⟩

theorem Host.Usable.observe {h : Host} (hu : h.Usable) (values : NvU64 → NvU64)
    (gpGet : NvU32 × NvU32) : (h.observe values gpGet).Usable :=
  ⟨hu.timelineSignal, hu.waits, hu.events, hu.freeSignals⟩

/-- What no call changes, and the events it may touch. -/
structure Host.Touched (h h' : Host) : Prop where
  timelineSignal : h'.timeline.timelineSignal = h.timeline.timelineSignal
  flags : h'.ctx.flags = h.ctx.flags
  signalPool : h'.queue.signalPool = h.queue.signalPool
  events : h.EventsTouched h'

theorem Host.Touched.refl (h : Host) : h.Touched h :=
  ⟨rfl, rfl, rfl, (Host.Kept.refl h).toSameEvents.touched⟩

theorem Host.Touched.of_adds {h h' : Host} {fx : List HostEffect}
    (ht : h'.timeline.timelineSignal = h.timeline.timelineSignal) (ha : h.Adds fx h') :
    h.Touched h' :=
  ⟨ht, ha.flags, ha.signalPool, ha.toSameEvents.touched⟩

/-- A step that takes signals from the pool only keeps the stream usable. -/
theorem Host.Usable.touched {h h' : Host} (hu : h.Usable) (ht : h.Touched h') : h'.Usable := by
  refine ⟨ht.timelineSignal ▸ hu.timelineSignal, ht.flags ▸ hu.waits, fun e type => ?_,
    fun idx hidx => ?_⟩
  · rw [ht.timelineSignal]
    rcases ht.events.signal e type with hsame | ⟨idx, hidx, hnew⟩
    · rw [hsame]
      exact hu.events e type
    · rw [hnew]
      exact hu.freeSignals idx hidx
  · rw [ht.timelineSignal, ht.signalPool]
    exact hu.freeSignals idx (ht.events.freeSignals hidx)

@[simp] theorem launchBase_timelineSignal (h : Host) (calls : List MethodCall) (async : Bool) :
    (h.launchBase calls async).timelineSignal = h.timeline.timelineSignal := by
  simp [Host.launchBase]

@[simp] theorem launchBase_timelineCtr (h : Host) (calls : List MethodCall) (async : Bool) :
    (h.launchBase calls async).timelineCtr = h.timeline.timelineCtr := by
  simp [Host.launchBase]

@[simp] theorem launchBase_timelineSteps (h : Host) (calls : List MethodCall) (async : Bool) :
    (h.launchBase calls async).timelineSteps = h.timeline.timelineSteps := by
  simp [Host.launchBase]

/-- **What every call leaves alone**, whether it succeeds or fails. -/
theorem Host.Usable.touched_of_call {h h' : Host} {c : ApiCall} {r : Except Failure Unit}
    (hu : h.Usable) (hc : Exec.call c.run h = (r, h')) : h.Touched h' := by
  have hsig := hu.timelineSignal
  cases c with
  | launchFunction function grid block sharedMemBytes params numParams async =>
    rcases wp_call hc (wp_launchFunction hsig function grid block sharedMemBytes params numParams
      async) with ⟨_, -, f, -, hok⟩ | ⟨_, -, herr⟩
    · obtain ⟨calls, qmdAddr, -, ht⟩ := hok.timeline
      exact ⟨by rw [ht]; simp, by rw [hok.ctx], hok.signalPool, hok.toSameEvents.touched⟩
    · refine ⟨?_, by rw [herr.ctx], herr.signalPool, herr.toSameEvents.touched⟩
      rcases herr.timeline with ht | ⟨calls, -, ht | ht⟩ <;> rw [ht] <;> simp
  | gpuMemcpy dst src numBytes async =>
    rcases wp_call hc (wp_gpuMemcpy hsig dst src numBytes async) with ⟨_, -, hok⟩ | ⟨_, -, rfl⟩
    · obtain ⟨dst', src', n, ht⟩ := hok.timeline
      exact ⟨by rw [ht]; simp, by rw [hok.ctx], hok.signalPool, hok.toSameEvents.touched⟩
    · exact Host.Touched.refl _
  | recordEvent event pStream =>
    rcases wp_call hc (wp_recordEvent event pStream h) with
      ⟨_, -, hrec, e, signal, -, -, ht⟩ | ⟨_, -, hrec, ht⟩
    · exact ⟨by rw [ht, CommandTimeline.record]; simp, by rw [hrec.ctx], hrec.signalPool,
        hrec.toEventsTouched⟩
    · exact ⟨by rw [ht], by rw [hrec.ctx], hrec.signalPool, hrec.toEventsTouched⟩
  | startExecution =>
    by_cases hnil : h.timeline.commandBufBacklog = []
    · rcases wp_call hc (wp_startExecution_of_nil hsig hnil) with ⟨_, -, hok⟩ | ⟨_, -, herr⟩
      · rcases hok.submitted with ⟨type, -, -, hadds, -⟩ | ⟨-, hadds, -⟩
        · exact .of_adds hok.targets.timelineSignal hadds
        · exact .of_adds hok.targets.timelineSignal hadds
      · rcases herr with rfl | ⟨type, -, -, hadds, hcounts, -⟩
        · exact Host.Touched.refl _
        · exact .of_adds hcounts.timelineSignal hadds
    · rcases wp_call hc (wp_startExecution_of_ne_nil hsig hu.waits hnil) with
        ⟨_, -, hok⟩ | ⟨_, -, herr⟩
      · exact .of_adds hok.targets.timelineSignal hok.adds
      · obtain ⟨pre, e, post, -, hadds, -⟩ := herr.stopped
        exact .of_adds herr.targets.timelineSignal hadds
  | awaitExecution =>
    rcases wp_call hc (wp_awaitExecution hsig hu.waits) with ⟨_, -, hok⟩ | ⟨_, -, hf⟩
    · obtain ⟨hkept, -, -, ht, hflags, -⟩ := hok
      exact ⟨by rw [ht], hflags, hkept.signalPool, hkept.toSameEvents.touched⟩
    · exact hf.elim

/-- **Every call leaves the stream usable.** -/
theorem Host.Usable.call {h h' : Host} {c : ApiCall} {r : Except Failure Unit} (hu : h.Usable)
    (hc : Exec.call c.run h = (r, h')) : h'.Usable :=
  hu.touched (hu.touched_of_call hc)

theorem Host.Usable.step {h h' : Host} {c : ApiCall} {r : Except Failure Unit} (hu : h.Usable)
    (hs : h.Step c r h') : h'.Usable := by
  obtain ⟨values, gpGet, hc⟩ := hs
  exact (hu.observe values gpGet).call hc

/-- **Every reachable stream is usable.** -/
theorem Host.Reachable.usable {h : Host} (hr : h.Reachable) : h.Usable := by
  induction hr with
  | initialized hi => exact hi.usable
  | step _ hs ih => exact ih.step hs

/-! ## A sample session

A stream as its constructor leaves it, initialised, on which the GPU has written two to every signal
whenever the driver looks. -/

/-- A kernel without parameters. -/
def sampleFunction : LibreCUFunction :=
  { name := "kernel", funcVaAddr := 0x1000000000, sharedMem := 0, numRegisters := 16,
    localMemReq := 0, functionSize := 0x100, constants := [⟨0, 0, 0x160⟩], paramInfo := [] }

/-- A context on which nothing has been allocated yet. -/
def sampleFresh : Host :=
  { queue := { currentQueueType := none, kernArgsPageVa := 0 },
    ctx := { flags := 0, computeClass := 0xc7c0 },
    vm := { uvmVaddr := uvmHeapStart, sysReply := fun n => { handle := BitVec.ofNat 32 (n + 1) } },
    functions := fun _ => sampleFunction }

def sampleStream : Host := (call initializeQueue sampleFresh).2

theorem initialized_sampleStream : sampleStream.Initialized := by
  refine ⟨⟨sampleFresh, ?_, Prod.ext (by rfl) rfl⟩, fun e type => ?_⟩
  · exact ⟨fun type => by cases type <;> rfl, rfl, rfl, rfl, rfl, rfl, rfl, rfl, rfl⟩
  · have hevents : sampleStream.events = sampleFresh.events := by rfl
    have hsignal : (0 : NvU64) ≠ sampleStream.timeline.timelineSignal := by decide +kernel
    rw [hevents]
    exact fun h => hsignal (by rw [← h]; cases type <;> rfl)

def sampleLaunch (async : Bool) : ApiCall :=
  .launchFunction (some 0) ⟨1, 1, 1⟩ ⟨1, 1, 1⟩ 0 (fun _ _ => 0) 0 async

def sampleCopy (async : Bool) : ApiCall := .gpuMemcpy 0x2000 0x1000 16 async

theorem builds_sampleLaunch (async : Bool) : (sampleLaunch async).Builds := trivial

theorem builds_sampleCopy (async : Bool) : (sampleCopy async).Builds := trivial

/-- A call made when every signal is two. -/
def sampleCall (c : ApiCall) (h : Host) : Host := (call c.run (h.observe (fun _ => 2) (0, 0))).2

theorem step_sampleCall {c : ApiCall} {h : Host}
    (hok : (call c.run (h.observe (fun _ => 2) (0, 0))).1 = .ok ()) :
    h.Step c (.ok ()) (sampleCall c h) := ⟨_, _, Prod.ext hok rfl⟩

/-- A launch and a copy, not commenced. -/
def sampleBuilt : Host :=
  sampleCall (sampleCopy false) (sampleCall (sampleLaunch false) sampleStream)

theorem step_sampleLaunch :
    sampleStream.Step (sampleLaunch false) (.ok ()) (sampleCall (sampleLaunch false) sampleStream) :=
  step_sampleCall (by rfl)

theorem step_sampleCopy : (sampleCall (sampleLaunch false) sampleStream).Step (sampleCopy false)
    (.ok ()) sampleBuilt := step_sampleCall (by rfl)

theorem step_sampleStart :
    sampleBuilt.Step .startExecution (.ok ()) (sampleCall .startExecution sampleBuilt) :=
  step_sampleCall (by rfl)

end LibreCuda
