import LibreCuda.Gpu.PushBuffer
import LibreCuda.Queue.Session

/-! # What the calls are made of

Every call on a stream is a sequence of a few updates. A relation between streams that each of them
keeps is kept by every call, whether it succeeds or fails.

* **`KeptByCommands`**: a relation between timelines holds across what commands do to them.
* **`KeptByUpdates`**: then the relation between streams holds across every update but those of
  local memory.
* **`KeptByGrowth`**: it holds across those of local memory as well.
* **`keeps_call`**: then every call keeps it. -/

namespace LibreCuda

open Exec

/-- A relation between timelines that holds where commands are pushed and counted. -/
class KeptByPush (q : CommandTimeline → CommandTimeline → Prop) : Prop
    extends IsPreorder CommandTimeline q where
  push (t : CommandTimeline) (type : QueueType) {m : MethodCall} {d : DmaMethod}
    (hm : m.Pushes d) : q t (t.pushAll type [m])
  setMode (t : CommandTimeline) (signal : NvU64) (ctr : NvU32) (pending : Bool)
    (mode : Option QueueType) (steps : ℕ) : q t { t with
      timelineSignal := signal, timelineCtr := ctr, timelineNotifyPending := pending
      currentQueueType := mode, timelineSteps := steps }

/-- A relation between timelines that holds across all updates that commands are made of. -/
class KeptByCommands (q : CommandTimeline → CommandTimeline → Prop) : Prop extends KeptByPush q where
  backlog (t : CommandTimeline) (type : QueueType) : q t (t.backlog type)
  load (t : CommandTimeline) {e : CommandBufSplit} (he : e ∈ t.commandBufBacklog) :
    q t (t.setCommandBuffer e.commandBuffer e.queueType)
  clearBacklog (t : CommandTimeline) : q t { t with commandBufBacklog := [] }

/-- Any two timelines. -/
def anyTimeline (_ _ : CommandTimeline) : Prop := True

instance : KeptByCommands anyTimeline where
  refl _ := trivial
  trans _ _ _ _ _ := trivial
  push _ _ _ _ _ := trivial
  backlog _ _ := trivial
  load _ _ _ := trivial
  clearBacklog _ := trivial
  setMode _ _ _ _ _ _ := trivial

theorem keeps_anyTimeline {α : Type} (x : Exec CommandTimeline Failure α) : Keeps anyTimeline x :=
  fun _ => wp_trivial x (fun _ _ => trivial) fun _ _ => trivial

/-- A relation between streams that holds across the updates a call is made of: of the timeline, as
far as the relation between timelines says, the pages and rings, the scheduling flags, the argument
page, the memory, the signal pool, the events and the operations. -/
class KeptByUpdates (q : outParam (CommandTimeline → CommandTimeline → Prop))
    (r : Host → Host → Prop) : Prop extends IsPreorder Host r where
  setTimeline (h : Host) (t : CommandTimeline) (ht : q h.timeline t) : r h (h.setTimeline t)
  submitted (type : QueueType) (h : Host) : r h (h.submitted type)
  setFlags (h : Host) (flags : NvU32) : r h { h with ctx := { h.ctx with flags := flags } }
  waited (h : Host) (pSignal : NvU64) (signalTarget : NvU32) : r h (h.waited pSignal signalTarget)
  setArguments (h : Host) (idx : NvU64) (regions : List (NvU64 × NvU64)) :
    r h { h with queue := { h.queue with kernArgsWriteIdx := idx }, argRegions := regions }
  store (h : Host) (mem : NvU64 → NvU8) : r h { h with mem := mem }
  setFreeSignals (h : Host) (indices : List NvU32) :
    r h { h with queue := { h.queue with freeSignals := indices } }
  setEvents (h : Host) (events : ℕ → LibreCUEvent) : r h { h with events := events }
  setOperations (h : Host) (operations : List Operation) :
    r h { h with operations := operations }

/-- A relation that holds across the updates of local memory as well. -/
class KeptByGrowth (q : outParam (CommandTimeline → CommandTimeline → Prop))
    (r : Host → Host → Prop) : Prop extends KeptByUpdates q r where
  setVm (h : Host) (vm : Vm) : r h { h with vm := vm }
  setSlm (h : Host) (localMemReq : NvU32) :
    r h { h with queue := { h.queue with currentSlmPerThread := slmPerThread localMemReq } }
  setLocalMem (h : Host) (function : ℕ) (va : NvU64) : r h { h with
    functions := Function.update h.functions function
      { h.functions function with shaderLocalMemoryVa := va } }

/-! ## Commands -/

section Commands

variable {q : CommandTimeline → CommandTimeline → Prop}

section Push

variable [KeptByPush q]

theorem keeps_enqueue {subcommand method : NvU32} {arguments : List NvU32} (n : ℕ)
    (type : QueueType) (op : Option OpTag)
    (hheader : subcommand.toNat < 8 ∧ method.toNat < 0x4000 ∧ method.toNat % 4 = 0 ∧ n < 0x1000 ∧
      ((makeNvMethod subcommand method (BitVec.ofNat 32 n) >>> 16) &&& 0xFFF).toNat = n)
    (hargs : arguments.length = n) :
    Keeps q (enqueue (makeNvMethod subcommand method (BitVec.ofNat 32 n)) arguments type op) := by
  obtain ⟨hsub, hmethod, haligned, hcount, hn⟩ := hheader
  intro t
  rw [wp_enqueue _ _ t type n op hn hargs]
  exact KeptByPush.push t type (d := ⟨subcommand, method, arguments⟩)
    ⟨hsub, hmethod, haligned, hargs ▸ hcount, by rw [hargs]; rfl, rfl⟩

theorem keeps_signalNotify (pSignal : NvU64) (signalTarget : NvU32) (type : QueueType) :
    Keeps q (signalNotify pSignal signalTarget type) := by
  refine (keeps_require _ _).bind fun _ => ?_
  cases type with
  | compute => exact (keeps_enqueue 5 _ _ (by decide) rfl).bind fun _ =>
      keeps_enqueue 1 _ _ (by decide) rfl
  | dma => exact (keeps_enqueue 3 _ _ (by decide) rfl).bind fun _ =>
      keeps_enqueue 1 _ _ (by decide) rfl

theorem keeps_signalWaitGpu (value pSignal : NvU64) (signalTarget : NvU32) :
    Keeps q (signalWaitGpu value pSignal signalTarget) := by
  unfold signalWaitGpu
  split
  · exact keeps_pure ()
  · exact keeps_enqueue 5 _ _ (by decide) rfl

theorem keeps_synchronizeLaunch (value : NvU64) (async : Bool) :
    Keeps q (synchronizeLaunch value async) :=
  keeps_get.bind fun _ => (Keeps.onlyIf ((keeps_signalNotify _ _ _).bind fun _ =>
    keeps_modify fun t => KeptByPush.setMode t _ _ _ _ _) _).bind fun _ =>
      (keeps_signalWaitGpu _ _ _).onlyIf _

theorem keeps_finishOperation (type : QueueType) (async : Bool) :
    Keeps q (finishOperation type async) := by
  refine (keeps_modify fun t => KeptByPush.setMode t _ _ _ _ _).bind fun _ =>
    keeps_get.bind fun t => ?_
  cases async with
  | true => exact keeps_modify fun t => KeptByPush.setMode t _ _ _ _ _
  | false => exact (keeps_signalNotify _ _ _).bind fun _ =>
      keeps_modify fun t => KeptByPush.setMode t _ _ _ _ _

theorem keeps_notifySetup (type : QueueType) : Keeps q (notifySetup type) :=
  (keeps_modify fun t => KeptByPush.setMode t _ _ _ _ _).bind fun _ =>
    keeps_get.bind fun _ => keeps_signalNotify _ _ _

end Push

variable [KeptByCommands q]

theorem keeps_backlogCurrentCmdBuffer (type : QueueType) :
    Keeps q (backlogCurrentCmdBuffer type) := by
  refine keeps_modify fun t => ?_
  split
  · exact Std.Refl.refl t
  · exact KeptByCommands.backlog t type

theorem keeps_selectQueueType (type : QueueType) : Keeps q (selectQueueType type) :=
  keeps_get.bind fun _ =>
    (Keeps.onlyIf (keeps_modify fun t => KeptByPush.setMode t _ _ _ _ _) _).bind fun _ =>
      keeps_get.bind fun _ => Keeps.onlyIf ((keeps_backlogCurrentCmdBuffer _).bind fun _ =>
        keeps_modify fun t => KeptByPush.setMode t _ _ _ _ _) _

end Commands

/-! ## Calls without growth -/

section Updates

variable {q : CommandTimeline → CommandTimeline → Prop} {r : Host → Host → Prop}
  [KeptByUpdates q r]
include q

theorem keeps_onTimeline {α : Type} {x : Exec CommandTimeline Failure α} (hx : Keeps q x) :
    Keeps r (onTimeline x) := by
  intro h
  rw [wp_onTimeline]
  exact wp_mono (hx h.timeline) (fun _ t ht => KeptByUpdates.setTimeline h t ht)
    fun _ t ht => KeptByUpdates.setTimeline h t ht

theorem keeps_submitToFifo (type : QueueType) : Keeps r (submitToFifo type) := by
  intro h
  rw [submitToFifo, wp_bind, wp_get, wp_onlyIf]
  split
  · rw [wp_bind, wp_validate]
    split
    · rw [wp_set]
      exact KeptByUpdates.submitted type h
    · exact Std.Refl.refl h
  · exact Std.Refl.refl h

theorem keeps_signalWaitCpu (pSignal : NvU64) (signalTarget : NvU32) :
    Keeps r (signalWaitCpu pSignal signalTarget) := by
  refine (keeps_require _ _).bind fun _ =>
    (keeps_modify fun h => KeptByUpdates.setFlags h _).bind fun _ h => ?_
  rw [wp_bind, wp_get]
  split
  · rw [wp_set]
    exact KeptByUpdates.waited h pSignal signalTarget
  · split
    · exact keeps_throw _ h
    · exact keeps_pure _ h

theorem keeps_obtainSignal : Keeps r obtainSignal := by
  intro h
  rw [obtainSignal, wp_bind, wp_get, wp_bind, wp_validate]
  split
  · split
    · exact keeps_throw _ h
    · rw [wp_bind, wp_set, wp_pure]
      exact KeptByUpdates.setFreeSignals h _
  · exact Std.Refl.refl h

theorem keeps_awaitExecution : Keeps r awaitExecution :=
  keeps_get.bind fun _ => (keeps_require _ _).bind fun _ => (keeps_signalWaitCpu _ _).bind fun _ =>
    keeps_modify fun h => KeptByUpdates.setArguments h 0 h.argRegions

theorem keeps_allocKernArgs (size : NvU64) : Keeps r (allocKernArgs size) := by
  intro h
  rw [allocKernArgs, wp_bind, wp_get]
  split
  · rw [wp_throw]
    exact Std.Refl.refl h
  · show wp (do set _; pure _) _ _ h
    rw [wp_bind, wp_set, wp_pure]
    exact KeptByUpdates.setArguments h _ _

theorem keeps_writeParams (kernargsBuf : NvU64) (params : ℕ → ℕ → NvU8)
    (infos : List KernelParamInfo) (i j : ℕ) :
    Keeps r (writeParams kernargsBuf params infos i j) := by
  induction infos generalizing i j with
  | nil => exact keeps_pure ()
  | cons p rest ih =>
    rw [writeParams]
    split
    · exact keeps_throw _
    · exact (keeps_modify fun h => KeptByUpdates.store h _).bind fun _ => ih _ _

theorem keeps_writeKernArgs (f : LibreCUFunction) (grid block : Dim3) (params : ℕ → ℕ → NvU8)
    (numParams : NvU64) : Keeps r (writeKernArgs f grid block params numParams) := by
  unfold writeKernArgs
  split
  · exact keeps_throw _
  · refine (keeps_allocKernArgs _).bind fun ptr => ?_
    refine Keeps.bind ?_ fun _ => keeps_pure _
    exact (keeps_require _ _).bind fun _ =>
      (keeps_modify fun h => KeptByUpdates.store h _).bind fun _ =>
        (keeps_require _ _).bind fun _ => keeps_writeParams _ _ _ _ _

end Updates

/-! ## The backlog of a commence -/

/-- The same segments wait. -/
structure CommandTimeline.SameBacklog (t t' : CommandTimeline) : Prop where
  backlog : t'.commandBufBacklog = t.commandBufBacklog

instance : KeptByPush CommandTimeline.SameBacklog where
  refl _ := ⟨rfl⟩
  trans _ _ _ h h' := ⟨h'.backlog.trans h.backlog⟩
  push _ type _ _ _ := ⟨by cases type <;> rfl⟩
  setMode _ _ _ _ _ _ := ⟨rfl⟩

/-- The same segments wait on the stream. -/
structure Host.SameBacklog (h h' : Host) : Prop where
  timeline : h.timeline.SameBacklog h'.timeline

instance : KeptByUpdates CommandTimeline.SameBacklog Host.SameBacklog where
  refl _ := ⟨⟨rfl⟩⟩
  trans _ _ _ h h' := ⟨IsTrans.trans _ _ _ h.timeline h'.timeline⟩
  setTimeline _ _ ht := ⟨ht⟩
  submitted type _ := by cases type <;> exact ⟨⟨rfl⟩⟩
  setFlags _ _ := ⟨⟨rfl⟩⟩
  waited _ _ _ := ⟨⟨rfl⟩⟩
  setArguments _ _ _ := ⟨⟨rfl⟩⟩
  store _ _ := ⟨⟨rfl⟩⟩
  setFreeSignals _ _ := ⟨⟨rfl⟩⟩
  setEvents _ _ := ⟨⟨rfl⟩⟩
  setOperations _ _ := ⟨⟨rfl⟩⟩

/-- A round of the loop leaves the segments where they are. -/
theorem sameBacklog_commenceEntry (e : CommandBufSplit) :
    Keeps Host.SameBacklog (commenceEntry e) := by
  refine Keeps.bind ?_ fun _ => keeps_get.bind fun _ =>
    ((keeps_onTimeline (keeps_signalNotify _ _ _)).onlyIf _).bind fun _ =>
      (keeps_submitToFifo _).bind fun _ => keeps_signalWaitCpu _ _
  exact keeps_onTimeline (keeps_modify fun t => ⟨setCommandBuffer_commandBufBacklog ..⟩)

section Commence

variable {q : CommandTimeline → CommandTimeline → Prop} {r : Host → Host → Prop}
  [KeptByCommands q] [KeptByUpdates q r]
include q

/-- A round of the loop over the backlog. -/
theorem wp_commenceEntry_keeps {e : CommandBufSplit} {h : Host}
    (he : e ∈ h.timeline.commandBufBacklog) : wp (commenceEntry e) (fun _ => r h) (fun _ => r h) h := by
  have hrest : Keeps r (do
      let h ← get
      Exec.onlyIf e.timelineNotifyPending <|
        onTimeline (signalNotify h.queue.timelineSignal e.timelineCtr e.queueType)
      submitToFifo e.queueType
      signalWaitCpu h.queue.timelineSignal e.timelineCtr : Driver Unit) :=
    keeps_get.bind fun _ => ((keeps_onTimeline (keeps_signalNotify _ _ _)).onlyIf _).bind fun _ =>
      (keeps_submitToFifo _).bind fun _ => keeps_signalWaitCpu _ _
  rw [commenceEntry, wp_bind, wp_onTimeline, wp_modify]
  have hload : r h (h.setTimeline (h.timeline.setCommandBuffer e.commandBuffer e.queueType)) :=
    KeptByUpdates.setTimeline h _ (KeptByCommands.load h.timeline he)
  exact wp_mono (hrest _) (fun _ _ h' => IsTrans.trans _ _ _ hload h')
    fun _ _ h' => IsTrans.trans _ _ _ hload h'

/-- Every round, and then the whole loop over the backlog. -/
theorem wp_commenceBacklog_keeps {entries : List CommandBufSplit} {h : Host}
    (hentries : ∀ e ∈ entries, e ∈ h.timeline.commandBufBacklog) :
    wp (commenceBacklog entries) (fun _ => r h) (fun _ => r h) h := by
  induction entries generalizing h with
  | nil => exact keeps_pure () h
  | cons entry rest ih =>
    rw [commenceBacklog, wp_bind]
    refine wp_mono (wp_and (wp_commenceEntry_keeps (hentries entry List.mem_cons_self))
      (sameBacklog_commenceEntry entry h)) (fun _ h₁ h₁' => ?_) (fun _ _ h₁' => h₁'.1)
    have hrest := ih (h := h₁) fun e he => by
      rw [h₁'.2.timeline.backlog]
      exact hentries e (List.mem_cons_of_mem entry he)
    exact wp_mono hrest (fun _ _ h₂ => IsTrans.trans _ _ _ h₁'.1 h₂)
      fun _ _ h₂ => IsTrans.trans _ _ _ h₁'.1 h₂

theorem keeps_startExecution : Keeps r startExecution := by
  have hcurrent : ∀ type, Keeps r (commenceCurrent type) := fun type =>
    keeps_get.bind fun _ => Keeps.onlyIf ((keeps_require _ _).bind fun _ =>
      ((keeps_onTimeline (keeps_signalNotify _ _ _)).onlyIf _).bind fun _ =>
        keeps_submitToFifo type) _
  refine keeps_get.bind fun h => ?_
  split
  · exact (hcurrent .compute).bind fun _ => (hcurrent .dma).bind fun _ => keeps_onTimeline <|
      keeps_modify fun t => KeptByPush.setMode t _ _ _ _ _
  · refine (keeps_onTimeline (keeps_backlogCurrentCmdBuffer _)).bind fun _ =>
      (keeps_onTimeline (keeps_backlogCurrentCmdBuffer _)).bind fun _ => ?_
    have hclear : Keeps r (onTimeline (modify fun t => { t with commandBufBacklog := [] })) :=
      keeps_onTimeline <| keeps_modify fun t => KeptByCommands.clearBacklog t
    intro h
    have hloop : wp (commenceBacklog h.queue.commandBufBacklog) (fun _ => r h) (fun _ => r h) h :=
      wp_commenceBacklog_keeps fun _ he => he
    rw [wp_bind, wp_get, wp_bind]
    exact wp_mono hloop (fun _ h₁ h₁' => wp_mono (hclear h₁)
      (fun _ _ h₂ => IsTrans.trans _ _ _ h₁' h₂) fun _ _ h₂ => IsTrans.trans _ _ _ h₁' h₂)
      fun _ _ => id

theorem keeps_finishSetup (type : QueueType) : Keeps r (finishSetup type) :=
  (keeps_onTimeline (keeps_notifySetup type)).bind fun _ => (keeps_submitToFifo type).bind fun _ =>
    keeps_awaitExecution

theorem keeps_setupCompute : Keeps r setupCompute :=
  keeps_get.bind fun _ => (keeps_onTimeline (keeps_enqueue 1 _ _ (by decide) rfl)).bind fun _ =>
    (keeps_onTimeline (keeps_enqueue 2 _ _ (by decide) rfl)).bind fun _ =>
      (keeps_onTimeline (keeps_enqueue 2 _ _ (by decide) rfl)).bind fun _ => keeps_finishSetup _

theorem keeps_setupDma : Keeps r setupDma :=
  (keeps_onTimeline (keeps_enqueue 1 _ _ (by decide) rfl)).bind fun _ => keeps_finishSetup _

theorem keeps_recordEvent (event : Option ℕ) (pStream : ℕ) :
    Keeps r (recordEvent event pStream) := by
  have hnotify : ∀ event type, Keeps r (notifyEvent event type) := fun event type => by
    have hprovide : Keeps r (provideSignal event type) := by
      refine keeps_get.bind fun _ => Keeps.onlyIf ?_ _
      exact keeps_obtainSignal.bind fun _ => keeps_modify fun h => KeptByUpdates.setEvents h _
    exact hprovide.bind fun _ => keeps_get.bind fun _ => keeps_onTimeline (keeps_signalNotify _ _ _)
  cases event with
  | none => exact keeps_throw _
  | some event =>
    refine (keeps_modify fun h => KeptByUpdates.setEvents h _).bind fun _ => keeps_get.bind fun h => ?_
    split
    · exact hnotify event _
    · exact (hnotify event _).bind fun _ => keeps_onTimeline <|
        keeps_modify fun t => KeptByPush.setMode t _ _ _ _ _

theorem keeps_gpuMemcpy (dst src numBytes : NvU64) (async : Bool) :
    Keeps r (gpuMemcpy dst src numBytes async) := by
  have hcopy : Keeps r (performCopy dst src numBytes async) :=
    keeps_get.bind fun _ => (keeps_onTimeline (keeps_enqueue 4 _ _ (by decide) rfl)).bind fun _ =>
      (keeps_onTimeline (keeps_enqueue 1 _ _ (by decide) rfl)).bind fun _ =>
        (keeps_onTimeline (keeps_enqueue 1 _ _ (by decide) rfl)).bind fun _ =>
          (keeps_modify fun h => KeptByUpdates.setOperations h _).bind fun _ =>
            keeps_onTimeline (keeps_finishOperation _ _)
  exact (keeps_require _ _).bind fun _ => (keeps_require _ _).bind fun _ =>
    (keeps_require _ _).bind fun _ => (keeps_onTimeline (keeps_selectQueueType _)).bind fun _ => hcopy

theorem keeps_enqueueLaunch (f : LibreCUFunction) (grid block : Dim3) (sharedMemBytes : NvU32)
    (kernargsPointer : NvU64) (async : Bool) :
    Keeps r (enqueueLaunch f grid block sharedMemBytes kernargsPointer async) :=
  keeps_get.bind fun _ => (keeps_onTimeline (keeps_enqueue 1 _ _ (by decide) rfl)).bind fun _ =>
    (keeps_modify fun h => KeptByUpdates.store h _).bind fun _ =>
      (keeps_onTimeline (keeps_enqueue 1 _ _ (by decide) rfl)).bind fun _ =>
        keeps_onTimeline (keeps_enqueue 1 _ _ (by decide) rfl)

theorem keeps_performLaunch (f : LibreCUFunction) (grid block : Dim3) (sharedMemBytes : NvU32)
    (params : ℕ → ℕ → NvU8) (numParams : NvU64) (async : Bool) :
    Keeps r (performLaunch f grid block sharedMemBytes params numParams async) := by
  refine (keeps_writeKernArgs f grid block params numParams).bind fun ptr => ?_
  refine Keeps.bind (fun h => ?_) fun _ => (keeps_require _ _).bind fun _ =>
    (keeps_enqueueLaunch f grid block sharedMemBytes ptr async).bind fun _ =>
      (keeps_modify fun h => KeptByUpdates.setOperations h _).bind fun _ =>
        keeps_onTimeline (keeps_finishOperation _ _)
  refine wp_mono (wp_checkLaunchDimensions f grid block sharedMemBytes h)
    (fun _ _ hsame => ?_) (fun _ _ hsame => ?_)
  · subst hsame
    exact Std.Refl.refl _
  · subst hsame
    exact Std.Refl.refl _

end Commence

/-! ## All calls -/

section Growth

variable {q : CommandTimeline → CommandTimeline → Prop} {r : Host → Host → Prop} [KeptByGrowth q r]
include q

theorem keeps_onVm {α : Type} (x : Exec Vm Failure α) : Keeps r (onVm x) := by
  intro h
  rw [wp_onVm]
  exact wp_trivial x (fun _ vm => KeptByGrowth.setVm h vm) fun _ vm => KeptByGrowth.setVm h vm

variable [KeptByCommands q]

theorem keeps_ensureEnoughLocalMem (function : ℕ) : Keeps r (ensureEnoughLocalMem function) := by
  have hgrow : ∀ localMemReq, Keeps r (growLocalMem function (slmPerThread localMemReq)) :=
    fun localMemReq => (keeps_modify fun h => KeptByGrowth.setSlm h localMemReq).bind fun _ =>
      (keeps_onVm _).bind fun _ =>
        (keeps_modify fun h => KeptByGrowth.setLocalMem h function _).bind fun _ =>
          (keeps_onTimeline (keeps_enqueue 2 _ _ (by decide) rfl)).bind fun _ =>
            keeps_onTimeline (keeps_enqueue 3 _ _ (by decide) rfl)
  exact keeps_get.bind fun _ => Keeps.onlyIf (((keeps_onVm _).onlyIf _).bind fun _ => hgrow _) _

/-- **Every call keeps what its updates keep**, whether it succeeds or fails. -/
theorem keeps_call (c : ApiCall) : Keeps r c.run := by
  cases c with
  | launchFunction function grid block sharedMemBytes params numParams async =>
    cases function with
    | none => exact keeps_throw _
    | some function =>
      have hprepare : Keeps r (prepareLaunch function async) :=
        (keeps_onTimeline (keeps_selectQueueType _)).bind fun _ =>
          (keeps_ensureEnoughLocalMem function).bind fun _ =>
            keeps_get.bind fun _ => keeps_onTimeline (keeps_synchronizeLaunch _ _)
      exact keeps_get.bind fun _ => (keeps_require _ _).bind fun _ => hprepare.bind fun _ =>
        keeps_performLaunch _ _ _ _ _ _ _
  | gpuMemcpy => exact keeps_gpuMemcpy _ _ _ _
  | recordEvent => exact keeps_recordEvent _ _
  | startExecution => exact keeps_startExecution
  | awaitExecution => exact keeps_awaitExecution

end Growth

end LibreCuda
