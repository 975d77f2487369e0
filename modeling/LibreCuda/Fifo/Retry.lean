import LibreCuda.Fifo.Submission
import LibreCuda.Queue.Releases

/-! # Retrying a commence

A commence can be refused in the middle of the backlog. `Host.Retry` is a sequence of commences with
nothing enqueued in between, of which the last one succeeds. The **payload** of a command stream is
what the program enqueued: launches, copies and releases of events.

* **`refused_payload`**: a commence that is refused keeps the whole backlog, and the refused segment
  is in its buffer once more; what stood in front of it was submitted.
* **`commenced_payload`**: a commence that succeeds submits everything that waits.
* **`retry_submits_once_iff`**: all calls together submit the payload once and in order exactly if
  no refused call reached a segment with payload.
* **`refused_segment_submitted_twice`** is a run in which one did. -/

namespace LibreCuda

open Channels Exec

/-! ## Payload -/

/-- The command starts a launch or a copy, or releases a signal other than the timeline. -/
def carriesPayload (timelineSignal : NvU64) : GpuCommand → Bool
  | .start .. => true
  | .release signal _ => signal != timelineSignal
  | _ => false

/-- The launches, copies and releases of events among commands. -/
def payload (timelineSignal : NvU64) (commands : List GpuCommand) : List GpuCommand :=
  commands.filter (carriesPayload timelineSignal)

@[simp] theorem payload_nil (timelineSignal : NvU64) : payload timelineSignal [] = [] := rfl

@[simp] theorem payload_append (timelineSignal : NvU64) (a b : List GpuCommand) :
    payload timelineSignal (a ++ b) = payload timelineSignal a ++ payload timelineSignal b :=
  List.filter_append ..

/-- A release of the timeline is no payload. -/
theorem payload_release (timelineSignal value : NvU64) :
    payload timelineSignal [.release timelineSignal value] = [] := by
  simp [payload, carriesPayload]

/-- A buffer with a release of the timeline added carries the payload of the buffer. -/
theorem payload_released (timelineSignal : NvU64) (type : QueueType) (buffer : List MethodCall)
    (notify : Bool) (target : NvU32) :
    payload timelineSignal (commandsOf type (buffer ++
      if notify then releaseCalls type timelineSignal target else [])) =
      payload timelineSignal (commandsOf type buffer) := by
  cases notify with
  | true =>
    obtain ⟨hclosed, hcmds⟩ := commandsOf_releaseCalls type timelineSignal target
    rw [if_pos rfl, commandsOf_append hclosed, hcmds, payload_append, payload_release,
      List.append_nil]
  | false => simp

/-- A segment carries the payload of its buffer. -/
theorem payload_entryCommands (timelineSignal : NvU64) (e : CommandBufSplit) :
    payload timelineSignal (entryCommands timelineSignal e) =
      payload timelineSignal (commandsOf e.queueType e.commandBuffer) :=
  payload_released ..

/-- Setting a buffer aside moves its payload to the end of the backlog. -/
theorem payload_setAside (t : CommandTimeline) (type : QueueType) (timelineSignal : NvU64) :
    payload timelineSignal (backlogCommands timelineSignal (t.setAside type).commandBufBacklog) =
      payload timelineSignal (backlogCommands timelineSignal t.commandBufBacklog) ++
        payload timelineSignal (commandsOf type (t.commandBuffer type)) := by
  by_cases hnil : t.commandBuffer type = []
  · rw [setAside_of_nil _ _ hnil, hnil, commandsOf_nil, payload_nil, List.append_nil]
  · rw [setAside_of_ne_nil _ _ hnil, backlog_commandBufBacklog, backlogCommands_append,
      payload_append, backlogCommands_singleton, payload_entryCommands]

/-- With both buffers set aside, the backlog carries the payload of everything that waits. -/
theorem payload_setAsideBoth (t : CommandTimeline) :
    payload t.timelineSignal (backlogCommands t.timelineSignal t.setAsideBoth.commandBufBacklog) =
      payload t.timelineSignal t.waiting := by
  have hdma : (t.setAside .compute).commandBuffer .dma = t.commandBuffer .dma :=
    setAside_commandBuffer_other t .compute
  rw [CommandTimeline.setAsideBoth, payload_setAside, payload_setAside, hdma,
    CommandTimeline.waiting, CommandTimeline.bufferCommands, payload_append, payload_append,
    List.append_assoc]

/-! ## Queues in no mode -/

/-- A queue in no mode holds nothing. -/
def CommandTimeline.HoldsInMode (t : CommandTimeline) : Prop :=
  t.currentQueueType = none → t.Idle ∧ t.commandBufBacklog = []

theorem holdsInMode_of_some {t : CommandTimeline} {type : QueueType}
    (hmode : t.currentQueueType = some type) : t.HoldsInMode := by
  intro hnone
  rw [hmode] at hnone
  cases hnone

/-- A queue that changes its mode is in one. -/
theorem CommandTimeline.HoldsInMode.select {t : CommandTimeline} (ht : t.HoldsInMode)
    (type : QueueType) : ∃ type', (t.select type).currentQueueType = some type' := by
  unfold CommandTimeline.select
  split_ifs with hempty hmode
  · exact ⟨type, rfl⟩
  · exact ⟨type, rfl⟩
  · cases hcur : t.currentQueueType with
    | some type' => exact ⟨type', rfl⟩
    | none => exact absurd ((ht hcur).1 _) hempty

/-- Whatever is appended behind a change of the mode, the queue is in a mode. -/
theorem CommandTimeline.HoldsInMode.appends {t t' : CommandTimeline} {type type' : QueueType}
    {ms : List MethodCall} (ht : t.HoldsInMode) (ha : (t.select type).Appends type' ms t') :
    t'.HoldsInMode := by
  obtain ⟨mode, hmode⟩ := ht.select type
  exact holdsInMode_of_some (ha.currentQueueType.trans hmode)

/-- **Every call keeps this**, whether it succeeds or fails. -/
theorem holdsInMode_of_call {h h' : Host} {c : ApiCall} {r : Except Failure Unit} (hu : h.Usable)
    (hm : h.timeline.HoldsInMode) (hc : call c.run h = (r, h')) : h'.timeline.HoldsInMode := by
  have hsig := hu.timelineSignal
  cases c with
  | launchFunction function grid block sharedMemBytes params numParams async =>
    rcases wp_call hc (wp_launchFunction hsig function grid block sharedMemBytes params numParams
      async) with ⟨_, -, f, -, hok⟩ | ⟨_, -, herr⟩
    · obtain ⟨ms, -, ha⟩ := appends_launch hok
      exact hm.appends ha
    · rcases herr.timeline with ht | ⟨calls, -, ht | ht⟩
      · rw [ht]
        exact hm
      · rw [ht]
        exact hm.appends (appends_pushAll _ .compute calls)
      · rw [ht]
        exact hm.appends ((appends_pushAll _ .compute calls).trans (appends_synchronize ..))
  | gpuMemcpy dst src numBytes async =>
    rcases wp_call hc (wp_gpuMemcpy hsig dst src numBytes async) with ⟨_, -, hok⟩ | ⟨_, -, rfl⟩
    · obtain ⟨dst', src', n, ht⟩ := hok.timeline
      rw [ht]
      exact hm.appends ((appends_pushAll _ .dma _).trans (appends_finish _ .dma async))
    · exact hm
  | recordEvent event pStream =>
    rcases wp_call hc (wp_recordEvent event pStream h) with
      ⟨_, -, -, e, signal, -, -, ht⟩ | ⟨_, -, -, ht⟩
    · rw [ht]
      exact holdsInMode_of_some rfl
    · rw [ht]
      exact hm
  | startExecution =>
    by_cases hnil : h.timeline.commandBufBacklog = []
    · rcases wp_call hc (wp_startExecution_of_nil hsig hnil) with ⟨_, -, hok⟩ | ⟨_, -, herr⟩
      · intro hnone
        rw [hok.targets.currentQueueType] at hnone
        rcases hok.submitted with ⟨type, hmode, -⟩ | ⟨-, -, hbuf⟩
        · rw [hmode] at hnone
          cases hnone
        · exact ⟨fun type => (hbuf type).trans ((hm hnone).1 type), hok.backlog⟩
      · rcases herr with rfl | ⟨type, hmode, -, -, hcounts, -⟩
        · exact hm
        · exact holdsInMode_of_some (hcounts.currentQueueType.trans hmode)
    · have htargets : h.timeline.SameTargets h'.timeline := by
        rcases wp_call hc (wp_startExecution_of_ne_nil hsig hu.waits hnil) with
          ⟨_, -, hok⟩ | ⟨_, -, herr⟩
        · exact hok.targets
        · exact herr.targets
      -- a backlog is only there in some mode, and a commence does not change it
      intro hnone
      rw [htargets.currentQueueType] at hnone
      exact absurd (hm hnone).2 hnil
  | awaitExecution =>
    rcases wp_call hc (wp_awaitExecution hsig hu.waits) with ⟨_, -, hok⟩ | ⟨_, -, hf⟩
    · rw [hok.2.2.2.1]
      exact hm
    · exact hf.elim

/-- **A reachable stream in no mode holds nothing.** -/
theorem Host.Reachable.holdsInMode {h : Host} (hr : h.Reachable) : h.timeline.HoldsInMode := by
  induction hr with
  | initialized hi => exact fun _ => ⟨hi.ready.idle, hi.ready.backlog⟩
  | step hr hs ih =>
    obtain ⟨values, gpGet, hc⟩ := hs
    exact holdsInMode_of_call (hr.usable.observe values gpGet) ih hc

/-! ## One commence -/

/-- Waits of the CPU among effects. -/
def cpuWaits (fx : List HostEffect) : ℕ :=
  fx.countP fun
    | .waitCpu .. => true
    | .submit .. => false

/-- The segments a refused commence reached: it waited behind each one it submitted, and stopped at
the next. A commence without a backlog reaches none. -/
def Host.tried (h h' : Host) : List CommandBufSplit :=
  if h.timeline.commandBufBacklog = [] then []
  else h.timeline.setAsideBoth.commandBufBacklog.take
    (cpuWaits (h'.trace.drop h.trace.length) + 1)

theorem cpuWaits_backlogEffects (timelineSignal : NvU64) (entries : List CommandBufSplit) :
    cpuWaits (backlogEffects timelineSignal entries) = entries.length := by
  induction entries with
  | nil => rfl
  | cons e rest ih =>
    have hsubmit : ∀ type buffer, cpuWaits (submitEffect type buffer) = 0 := by
      intro type buffer
      unfold submitEffect
      split_ifs <;> rfl
    rw [show backlogEffects timelineSignal (e :: rest) =
      entryEffects timelineSignal e ++ backlogEffects timelineSignal rest from rfl, entryEffects,
      cpuWaits, List.countP_append, List.countP_append]
    have hentry := hsubmit e.queueType (e.commands timelineSignal)
    rw [cpuWaits] at hentry ih
    rw [hentry, ih, List.length_cons]
    simp [Nat.add_comm]

/-- What a commence that is refused does to the payload: some was submitted, and some waits twice.
-/
structure Host.RefusedPayload (h h' : Host) : Prop where
  timelineSignal : h'.timeline.timelineSignal = h.timeline.timelineSignal
  split : ∃ before behind,
    payload h.timeline.timelineSignal
      (backlogCommands h.timeline.timelineSignal (h.tried h')) = before ++ behind ∧
    (∃ fx, h'.trace = h.trace ++ fx ∧
      payload h.timeline.timelineSignal (submittedCommands fx) = before) ∧
    payload h.timeline.timelineSignal h'.timeline.waiting =
      payload h.timeline.timelineSignal h.timeline.waiting ++ behind

/-- **A commence that is refused** keeps what waits and doubles the segment it was refused at. -/
theorem refused_payload {h h' : Host} {failure : Failure} (hu : h.Usable)
    (hc : call startExecution h = (.error failure, h')) : h.RefusedPayload h' := by
  have hsig := hu.timelineSignal
  by_cases hnil : h.timeline.commandBufBacklog = []
  · have htried : h.tried h' = [] := if_pos hnil
    rcases wp_call hc (wp_startExecution_of_nil hsig hnil) with ⟨_, hr, -⟩ | ⟨_, -, herr⟩
    · cases hr
    · rcases herr with rfl | ⟨type, -, hother, hadds, hcounts, hbuf, hother'⟩
      · refine ⟨rfl, [], [], by rw [htried]; rfl, ⟨[], (List.append_nil _).symm, rfl⟩, ?_⟩
        rw [List.append_nil]
      · refine ⟨hcounts.timelineSignal, [], [], by rw [htried]; rfl, ⟨[], hadds.trace, rfl⟩, ?_⟩
        rw [List.append_nil, CommandTimeline.waiting, CommandTimeline.waiting,
          hcounts.commandBufBacklog, hcounts.timelineSignal, bufferCommands_of_other hother',
          bufferCommands_of_other hother, hbuf, payload_append, payload_append,
          CommandTimeline.current, payload_released]
  · rcases wp_call hc (wp_startExecution_of_ne_nil hsig hu.waits hnil) with
      ⟨_, hr, -⟩ | ⟨_, -, herr⟩
    · cases hr
    · obtain ⟨pre, e, post, hsplit, hadds, hbuf, hother⟩ := herr.stopped
      have htried : h.tried h' = pre ++ [e] := by
        rw [Host.tried, if_neg hnil, hadds.trace, List.drop_left, cpuWaits_backlogEffects, hsplit,
          List.take_append, List.take_of_length_le (Nat.le_succ _)]
        simp
      refine ⟨herr.targets.timelineSignal,
        payload h.timeline.timelineSignal (backlogCommands h.timeline.timelineSignal pre),
        payload h.timeline.timelineSignal (entryCommands h.timeline.timelineSignal e), ?_,
        ⟨_, hadds.trace, by rw [submittedCommands_backlogEffects]⟩, ?_⟩
      · rw [htried, backlogCommands_append, backlogCommands_singleton, payload_append]
      · rw [← payload_setAsideBoth, CommandTimeline.waiting, herr.backlog,
          herr.targets.timelineSignal, bufferCommands_of_other hother, hbuf, payload_append]
        rfl

/-- **A commence that succeeds** submits everything that waits. -/
theorem commenced_payload {h h' : Host} (hu : h.Usable) (hm : h.timeline.HoldsInMode)
    (hc : call startExecution h = (.ok (), h')) : ∃ fx, h'.trace = h.trace ++ fx ∧
      payload h.timeline.timelineSignal (submittedCommands fx) =
        payload h.timeline.timelineSignal h.timeline.waiting := by
  have hsig := hu.timelineSignal
  by_cases hnil : h.timeline.commandBufBacklog = []
  · have hwaiting : h.timeline.waiting = h.timeline.bufferCommands := by
      rw [CommandTimeline.waiting, hnil]
      rfl
    rcases wp_call hc (wp_startExecution_of_nil hsig hnil) with ⟨_, -, hok⟩ | ⟨_, hr, -⟩
    · rcases hok.submitted with ⟨type, -, hother, hadds, -⟩ | ⟨hmode, hadds, -⟩
      · refine ⟨_, hadds.trace, ?_⟩
        rw [submittedCommands_submitEffect, CommandTimeline.current, payload_released, hwaiting,
          bufferCommands_of_other hother]
      · refine ⟨_, hadds.trace, ?_⟩
        rw [hwaiting, bufferCommands_of_idle (hm hmode).1]
        rfl
    · cases hr
  · rcases wp_call hc (wp_startExecution_of_ne_nil hsig hu.waits hnil) with
      ⟨_, -, hok⟩ | ⟨_, hr, -⟩
    · exact ⟨_, hok.adds.trace, by rw [submittedCommands_backlogEffects, payload_setAsideBoth]⟩
    · cases hr

/-! ## Sequences of commences -/

/-- Commences with nothing enqueued in between, the last of which succeeds. The log holds the
segments that each refused call reached. -/
inductive Host.Retry : Host → List (List CommandBufSplit) → Host → Prop
  | done {h h' : Host} : h.Step .startExecution (.ok ()) h' → Retry h [] h'
  | again {h h₁ h' : Host} {failure : Failure} {log : List (List CommandBufSplit)} :
      h.Step .startExecution (.error failure) h₁ → Retry h₁ log h' → Retry h (h.tried h₁ :: log) h'

/-- What the calls submit is what waited, between what refused calls submitted and what was doubled.
-/
theorem Host.Retry.payload {h h' : Host} {log : List (List CommandBufSplit)} (hr : h.Reachable)
    (hretry : h.Retry log h') : ∃ fx before behind, h'.trace = h.trace ++ fx ∧
      LibreCuda.payload h.timeline.timelineSignal (submittedCommands fx) =
        before ++ LibreCuda.payload h.timeline.timelineSignal h.timeline.waiting ++ behind ∧
      (before = [] ∧ behind = [] ↔ ∀ segments ∈ log, LibreCuda.payload h.timeline.timelineSignal
        (backlogCommands h.timeline.timelineSignal segments) = []) := by
  induction hretry with
  | done hstep =>
    obtain ⟨values, gpGet, hc⟩ := hstep
    obtain ⟨fx, htrace, hpay⟩ :=
      commenced_payload (hr.usable.observe values gpGet) hr.holdsInMode hc
    exact ⟨fx, [], [], htrace, hpay.trans (List.append_nil _).symm, by simp⟩
  | again hstep _ ih =>
    rename_i h h₁ h' failure log hrest
    have hr₁ := hr.step hstep
    obtain ⟨values, gpGet, hc⟩ := hstep
    have href := refused_payload (hr.usable.observe values gpGet) hc
    obtain ⟨first, last, htried, ⟨fx, htrace, hfx⟩, hwaits⟩ := href.split
    obtain ⟨gx, before, behind, htrace', hgx, hiff⟩ := ih hr₁
    have hsig : h₁.timeline.timelineSignal = h.timeline.timelineSignal := href.timelineSignal
    rw [hsig] at hgx hiff
    refine ⟨fx ++ gx, first ++ before, last ++ behind, ?_, ?_, ?_⟩
    · rw [htrace', htrace, List.append_assoc]
      rfl
    · have hfx : LibreCuda.payload h.timeline.timelineSignal (submittedCommands fx) = first := hfx
      have hwaits : LibreCuda.payload h.timeline.timelineSignal h₁.timeline.waiting =
        LibreCuda.payload h.timeline.timelineSignal h.timeline.waiting ++ last := hwaits
      rw [submittedCommands_append, payload_append, hfx, hgx, hwaits]
      simp only [List.append_assoc]
    · have htried : LibreCuda.payload h.timeline.timelineSignal
          (backlogCommands h.timeline.timelineSignal (h.tried h₁)) = first ++ last := htried
      rw [List.forall_mem_cons, ← hiff, htried]
      simp only [List.append_eq_nil_iff]
      tauto

/-- **Retried commences submit each launch, copy and event release exactly once and in order if and
only if no refused call reached a segment that holds one.** -/
theorem retry_submits_once_iff {h h' : Host} {log : List (List CommandBufSplit)} (hr : h.Reachable)
    (hretry : h.Retry log h') :
    payload h.timeline.timelineSignal (submittedCommands (h'.trace.drop h.trace.length)) =
        payload h.timeline.timelineSignal h.timeline.waiting ↔
      ∀ segments ∈ log, payload h.timeline.timelineSignal
        (backlogCommands h.timeline.timelineSignal segments) = [] := by
  obtain ⟨fx, before, behind, htrace, hpay, hiff⟩ := hretry.payload hr
  rw [← hiff, htrace, List.drop_left, hpay]
  constructor
  · intro heq
    have hlen := congrArg List.length heq
    simp only [List.length_append] at hlen
    exact ⟨List.eq_nil_of_length_eq_zero (by omega), List.eq_nil_of_length_eq_zero (by omega)⟩
  · rintro ⟨rfl, rfl⟩
    rw [List.nil_append, List.append_nil]

/-- A launch and a copy that are commenced at the first attempt. -/
theorem retry_submits_once_iff_sample :
    payload sampleBuilt.timeline.timelineSignal (submittedCommands
      ((sampleCall .startExecution sampleBuilt).trace.drop sampleBuilt.trace.length)) =
      payload sampleBuilt.timeline.timelineSignal sampleBuilt.timeline.waiting := by
  have hr : sampleBuilt.Reachable :=
    ((Host.Reachable.initialized initialized_sampleStream).step step_sampleLaunch).step
      step_sampleCopy
  exact (retry_submits_once_iff hr (.done step_sampleStart)).mpr fun _ h => by cases h

/-! ## A commence that submits twice

An event recorded very often fills the page of the compute engine; the records behind it and a copy
make a backlog that is refused once, because the GPU has not taken the first entry yet. -/

/-- Under flags that let the CPU wait, it waits. -/
theorem wp_signalWaitCpu_waited {h : Host} {pSignal : NvU64} (hsig : pSignal ≠ 0) {target : NvU32}
    {ok : Unit → Host → Prop} {err : Failure → Host → Prop} (hw : Waits h.ctx.flags) :
    wp (signalWaitCpu pSignal target) ok err h ↔ ok () (h.waited pSignal target) := by
  have hself : ({ h with ctx := { h.ctx with flags := schedFlags h.ctx.flags } } : Host) = h := by
    rw [schedFlags_of_waits hw]
  rw [signalWaitCpu, wp_bind, wp_validate, if_pos (by simpa using hsig), wp_bind, wp_modify]
  simp only [hself]
  rw [wp_bind, wp_get, if_pos (show _ ∨ _ from hw), wp_set]

/-- The stream with a segment back in its buffer. -/
def Host.loaded (h : Host) (e : CommandBufSplit) : Host := h.setTimeline (h.timeline.load e)

/-- The part of a round of the loop that ends with the segment in its buffer. -/
theorem wp_commenceEntry_loaded {h : Host} {e : CommandBufSplit} {ok : Unit → Host → Prop}
    {err : Failure → Host → Prop} (hsig : h.timeline.timelineSignal ≠ 0) :
    wp (commenceEntry e) ok err h ↔ wp (do
      submitToFifo e.queueType
      signalWaitCpu h.timeline.timelineSignal e.timelineCtr) ok err (h.loaded e) := by
  rw [commenceEntry, wp_bind, wp_onTimeline, wp_modify, wp_bind, wp_get, wp_bind, wp_onlyIf]
  have hsame : (h.setTimeline (h.timeline.setCommandBuffer e.commandBuffer e.queueType)
    ).queue.timelineSignal = h.timeline.timelineSignal := setCommandBuffer_timelineSignal ..
  rw [hsame]
  rw [Host.loaded, CommandTimeline.load]
  cases e.timelineNotifyPending with
  | true =>
    rw [if_pos rfl, if_pos rfl, wp_onTimeline, wp_signalNotify _ _ _ _ hsig]
    rfl
  | false => rw [if_neg (by decide), if_neg (by decide), pushAll_nil]

/-- A round of the loop whose segment there is room for. -/
theorem wp_commenceEntry_of_maySubmit {h : Host} {e : CommandBufSplit} {ok : Unit → Host → Prop}
    {err : Failure → Host → Prop} (hsig : h.timeline.timelineSignal ≠ 0) (hw : Waits h.ctx.flags)
    (hne : e.commands h.timeline.timelineSignal ≠ [])
    (hmay : h.maySubmit e.queueType
      (commandWords (e.commands h.timeline.timelineSignal)).length = true) :
    wp (commenceEntry e) ok err h ↔ ok () (((h.loaded e).submitted e.queueType).waited
      h.timeline.timelineSignal e.timelineCtr) := by
  have hbuffer : (h.loaded e).queue.commandBuffer e.queueType =
      e.commands h.timeline.timelineSignal := load_commandBuffer h.timeline e
  have hsame : ∀ n, (h.loaded e).maySubmit e.queueType n = h.maySubmit e.queueType n := by
    intro n
    cases hq : e.queueType <;> rfl
  have hflags : ((h.loaded e).submitted e.queueType).ctx.flags = h.ctx.flags := by
    cases hq : e.queueType <;> rfl
  rw [wp_commenceEntry_loaded hsig, wp_bind,
    wp_submitToFifo_of_maySubmit (by rw [hbuffer]; exact hne) (by rw [hbuffer, hsame]; exact hmay),
    wp_signalWaitCpu_waited hsig (by rw [hflags]; exact hw)]

section Overfull

variable {h : Host}

/-- A stream in compute mode, nothing set aside, with an event that has a signal there. -/
structure Host.RecordReady (h : Host) : Prop where
  mode : h.timeline.currentQueueType = some .compute
  other : h.timeline.commandBuffer .dma = []
  backlog : h.timeline.commandBufBacklog = []
  pending : h.timeline.timelineNotifyPending = false
  timelineSignal : h.timeline.timelineSignal ≠ 0
  waits : Waits h.ctx.flags
  stream : (h.events 0).stream = some 0
  signal : (h.events 0).computeSignal ≠ 0

/-- The methods of `k` records of the event. -/
def Host.records (h : Host) (k : ℕ) : List MethodCall :=
  (List.replicate k (releaseCalls .compute (h.events 0).computeSignal 1)).flatten

/-- The stream behind `k` more records of the event. -/
def Host.recorded (h : Host) (k : ℕ) : Host :=
  h.setTimeline (h.timeline.pushAll .compute (h.records k))

theorem length_records (h : Host) (k : ℕ) : (commandWords (h.records k)).length = 8 * k := by
  induction k with
  | zero => rfl
  | succ k ih =>
    rw [Host.records, List.replicate_succ, List.flatten_cons, commandWords_append,
      List.length_append]
    rw [Host.records] at ih
    rw [ih]
    show 8 + 8 * k = 8 * (k + 1)
    omega

/-- An observation that shows nothing new. -/
theorem observe_self (h : Host) : h.observe (fun a => (h.signals a).value)
    (h.ctx.computeGpfifo.gpGet, h.ctx.dmaGpfifo.gpGet) = h := rfl

/-- A call that succeeds without new progress of the GPU. -/
theorem step_of_wp {h' : Host} {c : ApiCall}
    (hwp : wp c.run (fun _ t => t = h') (fun _ _ => False) h) : h.Step c (.ok ()) h' := by
  refine ⟨fun a => (h.signals a).value, (h.ctx.computeGpfifo.gpGet, h.ctx.dmaGpfifo.gpGet), ?_⟩
  rw [observe_self]
  rcases hcall : call c.run h with ⟨r, t⟩
  rcases wp_call hcall hwp with ⟨_, rfl, rfl⟩ | ⟨_, -, hf⟩
  · rfl
  · exact hf.elim

/-- One more record. -/
theorem step_recorded (hn : h.RecordReady) :
    h.Step (.recordEvent (some 0) 0) (.ok ()) (h.recorded 1) := by
  have hself : h.setStream 0 0 = h := by
    rw [Host.setStream, ← hn.stream, Function.update_eq_self]
  have hsignal : (h.events 0).signal .compute ≠ 0 := hn.signal
  refine step_of_wp ?_
  show wp (recordEvent (some 0) 0) _ _ h
  rw [recordEvent, wp_bind, wp_modify, hself, wp_bind, wp_get, hn.mode]
  show wp (notifyEvent 0 .compute) _ _ h
  rw [notifyEvent, wp_bind, provideSignal, wp_bind, wp_get, wp_onlyIf, if_neg (by simpa using hsignal), wp_bind, wp_get,
    wp_onTimeline, wp_signalNotify _ _ _ _ hsignal]
  rw [Host.recorded, Host.records, List.replicate_one, List.flatten_singleton]
  rfl

theorem Host.RecordReady.recorded (hn : h.RecordReady) (k : ℕ) : (h.recorded k).RecordReady := by
  refine ⟨hn.mode, ?_, hn.backlog, hn.pending, hn.timelineSignal, hn.waits, hn.stream, hn.signal⟩
  exact (pushAll_commandBuffer_other _ .compute _).trans hn.other

/-- Any number of records. -/
theorem reachable_recorded (hr : h.Reachable) (hn : h.RecordReady) (k : ℕ) :
    (h.recorded k).Reachable := by
  induction k with
  | zero =>
    rw [Host.recorded, Host.records, List.replicate_zero, List.flatten_nil, pushAll_nil]
    exact hr
  | succ k ih =>
    have hstep := step_recorded (hn.recorded k)
    have hmore : (h.recorded k).recorded 1 = h.recorded (k + 1) := by
      have hlast : (h.recorded k).records 1 =
          releaseCalls .compute (h.events 0).computeSignal 1 := by
        rw [Host.records, List.replicate_one, List.flatten_singleton]
        rfl
      have hall : h.records (k + 1) =
          h.records k ++ releaseCalls .compute (h.events 0).computeSignal 1 := by
        rw [Host.records, List.replicate_succ', List.flatten_append, List.flatten_singleton]
        rfl
      rw [Host.recorded, hlast, Host.recorded, Host.recorded, setTimeline_setTimeline,
        setTimeline_timeline, pushAll_pushAll, hall]
    rw [hmore] at hstep
    exact ih.step hstep

/-- Clearing a flag that is not set. -/
theorem clear_of_not_pending {t : CommandTimeline} (h : t.timelineNotifyPending = false) :
    ({ t with timelineNotifyPending := false } : CommandTimeline) = t := by
  rw [← h]

/-- Commencing what was recorded. -/
theorem step_commenced (hn : h.RecordReady) (hne : h.timeline.commandBuffer .compute ≠ [])
    (hmay : h.maySubmit .compute (commandWords (h.timeline.commandBuffer .compute)).length = true) :
    h.Step .startExecution (.ok ()) (h.submitted .compute) := by
  refine step_of_wp ?_
  show wp startExecution _ _ h
  have hother : (h.queue.commandBuffer QueueType.compute.other).isEmpty = true :=
    List.isEmpty_iff.mpr hn.other
  rw [startExecution, wp_bind, wp_get, if_pos (List.isEmpty_iff.mpr hn.backlog), wp_bind,
    commenceCurrent, wp_bind, wp_get, wp_onlyIf, if_pos (by simpa using hn.mode), wp_bind,
    wp_validate, if_pos hother, wp_bind, wp_onlyIf, if_neg (by simp [hn.pending]),
    wp_submitToFifo_of_maySubmit hne hmay, wp_bind,
    wp_commenceCurrent_of_ne (by show h.timeline.currentQueueType ≠ _; rw [hn.mode]; decide),
    wp_onTimeline, wp_modify]
  rw [clear_of_not_pending (t := (h.submitted .compute).timeline) hn.pending]
  rfl

/-- A copy that passes the checks. -/
theorem wp_gpuMemcpy_of_valid {dst src numBytes : NvU64} {async : Bool} {ok : Unit → Host → Prop}
    {err : Failure → Host → Prop} (hsig : h.timeline.timelineSignal ≠ 0) (hdst : dst ≠ 0)
    (hsrc : src ≠ 0) (hbytes : numBytes < 0xFFFFFFFF) :
    wp (gpuMemcpy dst src numBytes async) ok err h ↔
      ok () ((h.addOperation .dma async (0, 0)).setTimeline
        (((h.timeline.select .dma).pushAll .dma
          (copyCalls dst src numBytes ⟨h.timeline.timelineSteps + 1, async⟩)).finish .dma async)) := by
  have hsteps : (h.timeline.select .dma).timelineSteps = h.timeline.timelineSteps :=
    select_timelineSteps ..
  rw [gpuMemcpy, wp_bind, wp_validate, if_pos (by simpa using hdst), wp_bind, wp_validate,
    if_pos (by simpa using hsrc), wp_bind, wp_validate, if_pos (by simpa using hbytes), wp_bind,
    wp_onTimeline, wp_selectQueueType, wp_performCopy (by simpa using hsig), setTimeline_timeline,
    hsteps, addOperation_setTimeline hsteps, setTimeline_setTimeline]

/-- The stream behind a copy of 16 bytes. -/
def Host.copied (h : Host) : Host :=
  (h.addOperation .dma false (0, 0)).setTimeline (((h.timeline.select .dma).pushAll .dma
    (copyCalls 0x2000 0x1000 16 ⟨h.timeline.timelineSteps + 1, false⟩)).finish .dma false)

theorem step_copied (hn : h.RecordReady) : h.Step (sampleCopy false) (.ok ()) h.copied := by
  refine step_of_wp ?_
  show wp (gpuMemcpy 0x2000 0x1000 16 false) _ _ h
  rw [wp_gpuMemcpy_of_valid hn.timelineSignal (by decide) (by decide) (by decide)]
  rfl

/-- The records, as they are set aside by the copy. -/
def Host.recordEntry (h : Host) : CommandBufSplit :=
  ⟨h.timeline.commandBuffer .compute, .compute, h.timeline.timelineCtr, false⟩

/-- The copy, as it is set aside by the commence. -/
def Host.copyEntry (h : Host) : CommandBufSplit where
  commandBuffer := copyCalls 0x2000 0x1000 16 ⟨h.timeline.timelineSteps + 1, false⟩ ++
    releaseCalls .dma h.timeline.timelineSignal (h.timeline.timelineCtr + 1)
  queueType := .dma
  timelineCtr := h.timeline.timelineCtr + 1
  timelineNotifyPending := false

/-- What waits behind the copy. -/
structure Host.BehindCopy (h h' : Host) : Prop where
  backlog : h'.timeline.commandBufBacklog = [h.recordEntry]
  compute : h'.timeline.commandBuffer .compute = []
  dma : h'.timeline.commandBuffer .dma = h.copyEntry.commandBuffer
  pending : h'.timeline.timelineNotifyPending = false
  timelineCtr : h'.timeline.timelineCtr = h.timeline.timelineCtr + 1
  timelineSignal : h'.timeline.timelineSignal = h.timeline.timelineSignal

theorem behindCopy_copied (hn : h.RecordReady) (hne : h.timeline.commandBuffer .compute ≠ []) :
    h.BehindCopy h.copied := by
  have hcompute : h.timeline.commandBuffer QueueType.dma.other ≠ [] := hne
  have hselect : h.timeline.select .dma =
      { h.timeline.backlog .compute with currentQueueType := some .dma } := by
    rw [CommandTimeline.select, if_neg hcompute]
    exact if_pos hn.mode
  have hcopied : h.copied.timeline = ((h.timeline.select .dma).pushAll .dma
    (copyCalls 0x2000 0x1000 16 ⟨h.timeline.timelineSteps + 1, false⟩)).finish .dma false := rfl
  have ha := (appends_pushAll (h.timeline.select .dma) .dma
    (copyCalls 0x2000 0x1000 16 ⟨h.timeline.timelineSteps + 1, false⟩)).trans
      (appends_finish _ .dma false)
  rw [← hcopied] at ha
  have hfinish : CommandTimeline.finishCalls ((h.timeline.select .dma).pushAll .dma
      (copyCalls 0x2000 0x1000 16 ⟨h.timeline.timelineSteps + 1, false⟩)) .dma false =
      releaseCalls .dma h.timeline.timelineSignal (h.timeline.timelineCtr + 1) := by
    simp [CommandTimeline.finishCalls]
  constructor
  · rw [ha.commandBufBacklog, hselect]
    show (h.timeline.backlog .compute).commandBufBacklog = _
    rw [backlog_commandBufBacklog, hn.backlog, hn.pending]
    rfl
  · refine ha.commandBuffer_other.trans ?_
    rw [hselect]
    rfl
  · rw [ha.commandBuffer, hfinish, hselect]
    show h.timeline.commandBuffer .dma ++ _ = _
    rw [hn.other]
    rfl
  · rw [hcopied]
    simp
  · rw [hcopied]
    simp
  · rw [hcopied]
    simp

/-- The buffers a copy left behind, set aside by the commence. -/
theorem Host.BehindCopy.setAside {h' : Host} (hb : h.BehindCopy h') :
    h'.timeline.setAsideBoth.commandBufBacklog = [h.recordEntry, h.copyEntry] := by
  have hdma : h'.timeline.commandBuffer .dma ≠ [] := by
    rw [hb.dma]
    exact List.cons_ne_nil _ _
  rw [CommandTimeline.setAsideBoth, setAside_of_nil _ _ hb.compute, setAside_of_ne_nil _ _ hdma,
    backlog_commandBufBacklog, hb.backlog, hb.dma, hb.timelineCtr, hb.pending]
  rfl

/-- The stream once its commence was refused at the records. -/
def Host.refusedRecords (h h' : Host) : Host :=
  (h'.setTimeline h'.timeline.setAsideBoth).loaded h.recordEntry

/-- The commence is refused if there is no room for the records. -/
theorem refused_behindCopy {h' : Host} (hb : h.BehindCopy h') (hn : h.RecordReady)
    (hne : h.timeline.commandBuffer .compute ≠ [])
    (hfull : h'.maySubmit .compute
      (commandWords (h.timeline.commandBuffer .compute)).length = false) :
    call startExecution h' = (.error (.status .unknown), h.refusedRecords h') := by
  have hsig : h'.timeline.timelineSignal ≠ 0 := hb.timelineSignal ▸ hn.timelineSignal
  have hback : h'.timeline.commandBufBacklog ≠ [] := by
    rw [hb.backlog]
    exact List.cons_ne_nil _ _
  have hbuffer : (h.refusedRecords h').queue.commandBuffer .compute =
      h.timeline.commandBuffer .compute :=
    (load_commandBuffer h'.timeline.setAsideBoth h.recordEntry).trans (List.append_nil _)
  have hwp : wp startExecution (fun _ _ => False)
      (fun f t => f = .status .unknown ∧ t = h.refusedRecords h') h' := by
    rw [startExecution, wp_bind, wp_get, if_neg (fun hnil => hback (List.isEmpty_iff.mp hnil)),
      wp_bind, wp_onTimeline, wp_backlogCurrentCmdBuffer, wp_bind, wp_onTimeline,
      wp_backlogCurrentCmdBuffer, wp_bind, wp_get, wp_bind]
    show wp (commenceBacklog h'.timeline.setAsideBoth.commandBufBacklog) _ _
      (h'.setTimeline h'.timeline.setAsideBoth)
    have hsig' : (h'.setTimeline h'.timeline.setAsideBoth).timeline.timelineSignal ≠ 0 :=
      (sameTargets_setAsideBoth h'.timeline).timelineSignal ▸ hsig
    rw [hb.setAside, commenceBacklog, wp_bind, wp_commenceEntry_loaded hsig', wp_bind]
    show wp (submitToFifo .compute) _ _ (h.refusedRecords h')
    rw [wp_submitToFifo_of_full (by rw [hbuffer]; exact hne) (by rw [hbuffer]; exact hfull)]
    exact ⟨rfl, rfl⟩
  rcases hcall : call startExecution h' with ⟨r, t⟩
  rcases wp_call hcall hwp with ⟨_, -, hf⟩ | ⟨_, rfl, rfl, rfl⟩
  · exact hf.elim
  · rfl

/-- The stream behind a round of the loop. -/
def Host.rounded (h : Host) (e : CommandBufSplit) : Host :=
  ((h.loaded e).submitted e.queueType).waited h.timeline.timelineSignal e.timelineCtr

/-- The page of the engine behind a round: the words follow what was there, or start over. -/
theorem rounded_commandWriteIdx (h : Host) (e : CommandBufSplit) :
    ((h.rounded e).queue.page e.queueType).commandWriteIdx =
      (if h.fitsPage e.queueType (commandWords (e.commands h.timeline.timelineSignal)).length then
        (h.queue.page e.queueType).commandWriteIdx else 0) +
        (commandWords (e.commands h.timeline.timelineSignal)).length := by
  have hbuffer : (h.loaded e).queue.commandBuffer e.queueType =
      e.commands h.timeline.timelineSignal := load_commandBuffer h.timeline e
  have hpage : (h.rounded e).queue.page e.queueType =
      ((h.loaded e).submitted e.queueType).queue.page e.queueType := rfl
  have hsame : (h.loaded e).queue.page e.queueType = h.queue.page e.queueType := by
    cases e.queueType <;> rfl
  have hfits : ∀ n, (h.loaded e).fitsPage e.queueType n = h.fitsPage e.queueType n := by
    intro n
    rw [Host.fitsPage, Host.fitsPage, hsame]
  rw [hpage, submitted_page, hbuffer, hsame, hfits]
  rfl

/-- A round for an engine leaves the page of the other one alone. -/
theorem rounded_page_other (h : Host) (e : CommandBufSplit) :
    (h.rounded e).queue.page e.queueType.other = h.queue.page e.queueType.other := by
  show (((h.loaded e).submitted e.queueType).queue.page e.queueType.other) = _
  cases e.queueType <;> rfl

theorem rounded_timelineSignal (h : Host) (e : CommandBufSplit) :
    (h.rounded e).timeline.timelineSignal = h.timeline.timelineSignal := by
  show (((h.loaded e).submitted e.queueType).timeline.timelineSignal) = _
  exact (setCommandBuffer_timelineSignal ..).trans (sameCounts_load h.timeline e).timelineSignal

theorem rounded_flags (h : Host) (e : CommandBufSplit) :
    (h.rounded e).ctx.flags = h.ctx.flags := by
  show ((h.loaded e).submitted e.queueType).ctx.flags = _
  cases e.queueType <;> rfl

/-- There is room behind the write index. -/
theorem maySubmit_of_fits {type : QueueType} {n : ℕ}
    (hfits : (h.queue.page type).commandWriteIdx + n ≤ maxCmdQueuePageSize) :
    h.maySubmit type n = true := by
  rw [Host.maySubmit, Host.fitsPage, decide_eq_true hfits, Bool.true_or]

/-- A commence of the records, the copy and the records once more: the first ones start the page of
the compute engine over, which the GPU has read to its end. -/
theorem retried_ok {e₁ e₂ e₃ : CommandBufSplit} (hsig : h.timeline.timelineSignal ≠ 0)
    (hw : Waits h.ctx.flags) (hback : h.timeline.commandBufBacklog ≠ [])
    (hentries : h.timeline.setAsideBoth.commandBufBacklog = [e₁, e₂, e₃])
    (htypes : e₁.queueType = .compute ∧ e₂.queueType = .dma ∧ e₃.queueType = .compute)
    (hne : ∀ e ∈ [e₁, e₂, e₃], e.commands h.timeline.timelineSignal ≠ [])
    (hread : h.ctx.computeGpfifo.gpGet = h.ctx.computeGpfifo.gpPut)
    (hfull : h.fitsPage .compute
      (commandWords (e₁.commands h.timeline.timelineSignal)).length = false)
    (hfits₂ : h.queue.dmaQueuePage.commandWriteIdx +
      (commandWords (e₂.commands h.timeline.timelineSignal)).length ≤ maxCmdQueuePageSize)
    (hfits₃ : (commandWords (e₁.commands h.timeline.timelineSignal)).length +
      (commandWords (e₃.commands h.timeline.timelineSignal)).length ≤ maxCmdQueuePageSize) :
    ∃ h', call startExecution h = (.ok (), h') := by
  obtain ⟨htype₁, htype₂, htype₃⟩ := htypes
  have hsame := (sameTargets_setAsideBoth h.timeline).timelineSignal
  have hwp : wp startExecution (fun _ _ => True) (fun _ _ => False) h := by
    rw [startExecution, wp_bind, wp_get, if_neg (fun hnil => hback (List.isEmpty_iff.mp hnil)),
      wp_bind, wp_onTimeline, wp_backlogCurrentCmdBuffer, wp_bind, wp_onTimeline,
      wp_backlogCurrentCmdBuffer, wp_bind, wp_get, wp_bind]
    show wp (commenceBacklog h.timeline.setAsideBoth.commandBufBacklog) _ _
      (h.setTimeline h.timeline.setAsideBoth)
    rw [hentries]
    generalize hg : h.setTimeline h.timeline.setAsideBoth = g
    have hgsig : g.timeline.timelineSignal = h.timeline.timelineSignal := by
      rw [← hg]
      exact hsame
    have hgw : Waits g.ctx.flags := by
      rw [← hg]
      exact hw
    have hgpage : ∀ type, g.queue.page type = h.queue.page type := by
      intro type
      rw [← hg]
      cases type <;> rfl
    have hgfifo : g.ctx.computeGpfifo = h.ctx.computeGpfifo := by
      rw [← hg]
      rfl
    rw [← hgsig] at hsig hne hfull hfits₂ hfits₃
    have hfull : g.fitsPage .compute
        (commandWords (e₁.commands g.timeline.timelineSignal)).length = false := by
      rw [Host.fitsPage, hgpage]
      exact hfull
    -- the first segment wraps
    have hmay₁ : g.maySubmit e₁.queueType
        (commandWords (e₁.commands g.timeline.timelineSignal)).length = true := by
      have hempty : g.ctx.computeGpfifo.gpGet = g.ctx.computeGpfifo.gpPut := by
        rw [hgfifo]
        exact hread
      rw [htype₁, Host.maySubmit, hfull, Bool.false_or, GPFifo.mayWrap, Bool.or_eq_true]
      exact Or.inr (beq_iff_eq.mpr hempty)
    rw [commenceBacklog, wp_bind,
      wp_commenceEntry_of_maySubmit hsig hgw (hne _ (by simp)) hmay₁]
    show wp (commenceBacklog [e₂, e₃]) _ _ (g.rounded e₁)
    have hidx₁ := rounded_commandWriteIdx g e₁
    have hother₁ := rounded_page_other g e₁
    rw [htype₁, if_neg (by simp [hfull]), Nat.zero_add] at hidx₁
    rw [htype₁] at hother₁
    have hsig₁ := rounded_timelineSignal g e₁
    have hw₁ : Waits (g.rounded e₁).ctx.flags := by
      rw [rounded_flags]
      exact hgw
    generalize g.rounded e₁ = g₁ at hidx₁ hother₁ hsig₁ hw₁ ⊢
    -- the others fit
    rw [← hsig₁] at hsig hne hfits₂ hfits₃ hidx₁
    have hmay₂ : g₁.maySubmit e₂.queueType
        (commandWords (e₂.commands g₁.timeline.timelineSignal)).length = true := by
      refine maySubmit_of_fits ?_
      rw [htype₂]
      rw [show g₁.queue.page .dma = h.queue.page .dma from hother₁.trans (hgpage _)]
      exact hfits₂
    rw [commenceBacklog, wp_bind,
      wp_commenceEntry_of_maySubmit hsig hw₁ (hne _ (by simp)) hmay₂]
    show wp (commenceBacklog [e₃]) _ _ (g₁.rounded e₂)
    have hother₂ := rounded_page_other g₁ e₂
    rw [htype₂] at hother₂
    have hsig₂ := rounded_timelineSignal g₁ e₂
    have hw₂ : Waits (g₁.rounded e₂).ctx.flags := by
      rw [rounded_flags]
      exact hw₁
    generalize g₁.rounded e₂ = g₂ at hother₂ hsig₂ hw₂ ⊢
    rw [← hsig₂] at hsig hne hfits₃ hidx₁
    have hmay₃ : g₂.maySubmit e₃.queueType
        (commandWords (e₃.commands g₂.timeline.timelineSignal)).length = true := by
      refine maySubmit_of_fits ?_
      rw [htype₃]
      have hidx₂ : (g₂.queue.page .compute).commandWriteIdx = _ :=
        (congrArg CommandQueuePage.commandWriteIdx hother₂).trans hidx₁
      rw [hidx₂]
      exact hfits₃
    rw [commenceBacklog, wp_bind,
      wp_commenceEntry_of_maySubmit hsig hw₂ (hne _ (by simp)) hmay₃, commenceBacklog, wp_pure,
      wp_onTimeline, wp_modify]
    trivial
  rcases hcall : call startExecution h with ⟨r, t⟩
  rcases wp_call hcall hwp with ⟨_, rfl, -⟩ | ⟨_, -, hf⟩
  · exact ⟨t, rfl⟩
  · exact hf.elim

end Overfull

/-- What waits once the commence was refused at the records. -/
theorem entries_refusedRecords {h h' : Host} (hb : h.BehindCopy h')
    (hne : h.timeline.commandBuffer .compute ≠ []) :
    (h.refusedRecords h').timeline.setAsideBoth.commandBufBacklog =
      [h.recordEntry, h.copyEntry,
        { h.recordEntry with timelineCtr := h.timeline.timelineCtr + 1 }] := by
  have htargets := sameTargets_setAsideBoth h'.timeline
  have hcompute : (h.refusedRecords h').timeline.commandBuffer .compute =
      h.timeline.commandBuffer .compute :=
    (load_commandBuffer h'.timeline.setAsideBoth h.recordEntry).trans (List.append_nil _)
  have hdma : (h.refusedRecords h').timeline.commandBuffer .dma = [] :=
    (load_commandBuffer_other h'.timeline.setAsideBoth h.recordEntry).trans
      (idle_setAsideBoth _ _)
  have hcounts := sameCounts_load h'.timeline.setAsideBoth h.recordEntry
  have hback : (h.refusedRecords h').timeline.commandBufBacklog = [h.recordEntry, h.copyEntry] :=
    hcounts.commandBufBacklog.trans hb.setAside
  have hctr : (h.refusedRecords h').timeline.timelineCtr = h.timeline.timelineCtr + 1 :=
    (hcounts.timelineCtr.trans htargets.timelineCtr).trans hb.timelineCtr
  have hpend : (h.refusedRecords h').timeline.timelineNotifyPending = false := by
    refine hcounts.timelineNotifyPending.trans ?_
    have hdma' : h'.timeline.commandBuffer .dma ≠ [] := by
      rw [hb.dma]
      exact List.cons_ne_nil _ _
    rw [CommandTimeline.setAsideBoth, setAside_of_nil _ _ hb.compute, setAside_of_ne_nil _ _ hdma',
      backlog_timelineNotifyPending]
  rw [CommandTimeline.setAsideBoth, setAside_of_ne_nil (h.refusedRecords h').timeline _
    (by rw [hcompute]; exact hne), setAside_of_nil _ _
    (by rw [show ((h.refusedRecords h').timeline.backlog .compute).commandBuffer .dma =
      (h.refusedRecords h').timeline.commandBuffer .dma from rfl]; exact hdma),
    backlog_commandBufBacklog, hback, hcompute, hctr, hpend]
  rfl

/-- Records of an event carry payload. -/
theorem payload_records {h : Host} {timelineSignal : NvU64}
    (hsignal : (h.events 0).computeSignal ≠ timelineSignal) :
    payload timelineSignal (commandsOf .compute (h.records 3)) ≠ [] := by
  have hsplit : h.records 3 = releaseCalls .compute (h.events 0).computeSignal 1 ++ h.records 2 := by
    rw [Host.records, List.replicate_succ, List.flatten_cons]
    rfl
  rw [hsplit, commandsOf_append (closed_compute _), (commandsOf_releaseCalls _ _ _).2, payload_append,
    payload]
  simp [carriesPayload, hsignal]

/-- The page of the compute engine is full, its oldest entry is near the start, and three records
wait in the buffer. -/
structure Host.PageFull (h : Host) : Prop where
  buffer : h.timeline.commandBuffer .compute = h.records 3
  commandWriteIdx : (h.queue.page .compute).commandWriteIdx = maxCmdQueuePageSize
  mayWrap : (h.ctx.gpfifo .compute).mayWrap (h.queue.page .compute) 24 = false
  dma : (h.queue.page .dma).commandWriteIdx = 8

section PageFull

variable {h : Host} (hp : h.PageFull)
include hp

theorem Host.PageFull.length :
    (commandWords (h.timeline.commandBuffer .compute)).length = 24 := by
  rw [hp.buffer, length_records]

theorem Host.PageFull.ne_nil : h.timeline.commandBuffer .compute ≠ [] := by
  rw [hp.buffer]
  exact List.cons_ne_nil _ _

/-- The commence behind a copy is refused at the records. -/
theorem refused_copied (hn : h.RecordReady) :
    call startExecution h.copied = (.error (.status .unknown), h.refusedRecords h.copied) := by
  refine refused_behindCopy (behindCopy_copied hn hp.ne_nil) hn hp.ne_nil ?_
  have hidx : (h.copied.queue.page .compute).commandWriteIdx = maxCmdQueuePageSize :=
    hp.commandWriteIdx
  have hwrap : (h.copied.ctx.gpfifo .compute).mayWrap (h.copied.queue.page .compute) 24 = false :=
    hp.mayWrap
  rw [hp.length, Host.maySubmit, hwrap, Bool.or_false, Host.fitsPage, hidx]
  rfl

/-- It succeeds once the GPU has read what was submitted. -/
theorem retried_copied (hn : h.RecordReady) :
    ∃ h', (h.refusedRecords h.copied).Step .startExecution (.ok ()) h' := by
  have hb := behindCopy_copied hn hp.ne_nil
  have hentries := entries_refusedRecords hb hp.ne_nil
  have hgsig : (h.refusedRecords h.copied).timeline.timelineSignal = h.timeline.timelineSignal :=
    ((sameCounts_load _ _).timelineSignal.trans
      (sameTargets_setAsideBoth _).timelineSignal).trans hb.timelineSignal
  have hgback : (h.refusedRecords h.copied).timeline.commandBufBacklog ≠ [] := by
    rw [Host.refusedRecords, Host.loaded, setTimeline_timeline,
      (sameCounts_load _ _).commandBufBacklog, setTimeline_timeline, hb.setAside]
    exact List.cons_ne_nil _ _
  have hgpage : ∀ type, (h.refusedRecords h.copied).queue.page type = h.queue.page type :=
    fun type => by cases type <;> rfl
  have hgctx : (h.refusedRecords h.copied).ctx = h.ctx := rfl
  generalize h.refusedRecords h.copied = g at hentries hgsig hgback hgpage hgctx ⊢
  have hsig : g.timeline.timelineSignal ≠ 0 := hgsig ▸ hn.timelineSignal
  have hwaits : Waits g.ctx.flags := hgctx ▸ hn.waits
  have hrecords : h.recordEntry.commands g.timeline.timelineSignal =
      h.timeline.commandBuffer .compute := List.append_nil _
  have hlength : (commandWords (h.recordEntry.commands g.timeline.timelineSignal)).length = 24 := by
    rw [hrecords]
    exact hp.length
  have hcopy : (commandWords (h.copyEntry.commands g.timeline.timelineSignal)).length = 15 := by
    rw [CommandBufSplit.commands]
    rfl
  have hnonempty : ∀ e ∈ [h.recordEntry, h.copyEntry,
      { h.recordEntry with timelineCtr := h.timeline.timelineCtr + 1 }],
      e.commands g.timeline.timelineSignal ≠ [] := by
    intro e he hnil
    have hne := hrecords ▸ hp.ne_nil
    simp only [List.mem_cons, List.not_mem_nil, or_false] at he
    obtain rfl | rfl | rfl := he
    · exact hne hnil
    · rw [hnil] at hcopy
      cases hcopy
    · exact hne hnil
  have hfull : g.fitsPage .compute
      (commandWords (h.recordEntry.commands g.timeline.timelineSignal)).length = false := by
    rw [hlength, Host.fitsPage, hgpage, hp.commandWriteIdx]
    rfl
  have hfits₂ : g.queue.dmaQueuePage.commandWriteIdx +
      (commandWords (h.copyEntry.commands g.timeline.timelineSignal)).length ≤
        maxCmdQueuePageSize := by
    have hdma : g.queue.dmaQueuePage.commandWriteIdx = 8 :=
      (congrArg CommandQueuePage.commandWriteIdx (hgpage .dma)).trans hp.dma
    rw [hdma, hcopy]
    decide
  have hfits₃ : (commandWords (h.recordEntry.commands g.timeline.timelineSignal)).length +
      (commandWords (h.recordEntry.commands g.timeline.timelineSignal)).length ≤
        maxCmdQueuePageSize := by
    rw [hlength]
    decide
  obtain ⟨h', hh'⟩ := retried_ok (h := g.observe (fun _ => 0)
    (g.ctx.computeGpfifo.gpPut, g.ctx.dmaGpfifo.gpPut)) hsig hwaits hgback hentries
    ⟨rfl, rfl, rfl⟩ hnonempty rfl hfull hfits₂ hfits₃
  exact ⟨h', _, _, hh'⟩

/-- Both calls together submit the records twice. -/
theorem submitted_twice (hr : h.Reachable) (hn : h.RecordReady) :
    ∃ (h' : Host) (log : List (List CommandBufSplit)), h.copied.Retry log h' ∧
      payload h.copied.timeline.timelineSignal
        (submittedCommands (h'.trace.drop h.copied.trace.length)) ≠
        payload h.copied.timeline.timelineSignal h.copied.timeline.waiting := by
  have hb := behindCopy_copied hn hp.ne_nil
  have hr' := hr.step (step_copied hn)
  obtain ⟨h', hstep⟩ := retried_copied hp hn
  have hrefused : h.copied.Step .startExecution (.error (.status .unknown))
      (h.refusedRecords h.copied) := by
    refine ⟨fun a => (h.copied.signals a).value,
      (h.copied.ctx.computeGpfifo.gpGet, h.copied.ctx.dmaGpfifo.gpGet), ?_⟩
    rw [observe_self]
    exact refused_copied hp hn
  have hretry := Host.Retry.again hrefused (.done hstep)
  refine ⟨h', _, hretry, fun heq => ?_⟩
  obtain ⟨fx, before, behind, htrace, hpay, hiff⟩ := hretry.payload hr'
  rw [htrace, List.drop_left, hpay] at heq
  have hlen := congrArg List.length heq
  simp only [List.length_append] at hlen
  have hnone := hiff.mp ⟨List.eq_nil_of_length_eq_zero (by omega),
    List.eq_nil_of_length_eq_zero (by omega)⟩ _ List.mem_cons_self
  have htrace' : (h.refusedRecords h.copied).trace = h.copied.trace := rfl
  have htried : h.copied.tried (h.refusedRecords h.copied) = [h.recordEntry] := by
    rw [Host.tried, if_neg (by rw [hb.backlog]; exact List.cons_ne_nil _ _), htrace',
      List.drop_length, hb.setAside]
    rfl
  rw [htried, backlogCommands_singleton, payload_entryCommands, Host.recordEntry, hp.buffer] at hnone
  exact payload_records (hr'.usable.events 0 .compute) hnone

end PageFull

/-- A stream whose set-up the GPU has read, and an event recorded on it. -/
def sampleNoted : Host :=
  (call (recordEvent (some 0) 0) (sampleStream.observe (fun _ => 0) (1, 1))).2

theorem reachable_sampleNoted : sampleNoted.Reachable := by
  have hstep : sampleStream.Step (.recordEvent (some 0) 0) (.ok ()) sampleNoted :=
    ⟨fun _ => 0, (1, 1), Prod.ext (by rfl) rfl⟩
  exact (Host.Reachable.initialized initialized_sampleStream).step hstep

theorem recording_sampleNoted : sampleNoted.RecordReady where
  mode := by decide +kernel
  other := by decide +kernel
  backlog := by decide +kernel
  pending := by decide +kernel
  timelineSignal := by decide +kernel
  waits := by decide +kernel
  stream := by decide +kernel
  signal := by decide +kernel

/-- What the page and the ring of the compute engine hold then. -/
theorem places_sampleNoted :
    (sampleNoted.queue.computeQueuePage.commandWriteIdx = 16 ∧
      sampleNoted.queue.dmaQueuePage.commandWriteIdx = 8) ∧
    (sampleNoted.ctx.computeGpfifo.putValue = 1 ∧ sampleNoted.ctx.computeGpfifo.gpGet = 1 ∧
      sampleNoted.ctx.computeGpfifo.entriesCount = 0x10000) ∧
    (commandWords (sampleNoted.timeline.commandBuffer .compute)).length = 8 ∧
    sampleNoted.queue.computeQueuePage.commandQueueSpace = 0x1000000000 := by
  decide +kernel

/-- Many records, commenced, and three more records behind them. -/
def sampleFilled (k : ℕ) : Host := (sampleNoted.recorded k).submitted .compute

def sampleBehind (k : ℕ) : Host := (sampleFilled k).recorded 3

theorem length_sampleBuffer (k : ℕ) : (commandWords
    ((sampleNoted.recorded k).queue.commandBuffer .compute)).length = 8 * k + 8 := by
  have hbuffer : (sampleNoted.recorded k).queue.commandBuffer .compute =
      sampleNoted.timeline.commandBuffer .compute ++ sampleNoted.records k :=
    pushAll_commandBuffer ..
  rw [hbuffer, commandWords_append, List.length_append, length_records,
    places_sampleNoted.2.2.1, Nat.add_comm]

section Filled

variable {k : ℕ} (hk : 8 * k + 24 = maxCmdQueuePageSize)
include hk

/-- The records fit in the page exactly. -/
theorem fits_sampleNoted : (sampleNoted.recorded k).fitsPage .compute (8 * k + 8) = true := by
  have hidx : ((sampleNoted.recorded k).queue.page .compute).commandWriteIdx = 16 :=
    places_sampleNoted.1.1
  rw [Host.fitsPage, hidx, decide_eq_true_iff]
  omega

theorem reachable_sampleFilled : (sampleFilled k).Reachable := by
  have hbuffer := length_sampleBuffer k
  refine (reachable_recorded reachable_sampleNoted recording_sampleNoted k).step
    (step_commenced (recording_sampleNoted.recorded k) (fun hnil => ?_) ?_)
  · rw [hnil, commandWords_nil, List.length_nil] at hbuffer
    omega
  · rw [hbuffer, Host.maySubmit, fits_sampleNoted hk, Bool.true_or]

/-- The page of the compute engine is full, and the GPU is about to read its second entry. -/
theorem full_sampleFilled :
    ((sampleFilled k).queue.page .compute).commandWriteIdx = maxCmdQueuePageSize ∧
    ((sampleFilled k).ctx.gpfifo .compute).mayWrap ((sampleFilled k).queue.page .compute) 24 =
      false := by
  obtain ⟨⟨hidx, -⟩, ⟨hput, hget, hcount⟩, -, hspace⟩ := places_sampleNoted
  have hidx : ((sampleNoted.recorded k).queue.page .compute).commandWriteIdx = 16 := hidx
  have hput : ((sampleNoted.recorded k).ctx.gpfifo .compute).putValue = 1 := hput
  have hget : ((sampleNoted.recorded k).ctx.gpfifo .compute).gpGet = 1 := hget
  have hcount : ((sampleNoted.recorded k).ctx.gpfifo .compute).entriesCount = 0x10000 := hcount
  have hspace : ((sampleNoted.recorded k).queue.page .compute).commandQueueSpace =
      0x1000000000 := hspace
  have hpage := @submitted_page .compute (sampleNoted.recorded k)
  have hfifo := submitted_gpfifo .compute (sampleNoted.recorded k)
  have hwords : 8 * k + 8 = 2097136 := by
    rw [maxCmdQueuePageSize] at hk
    omega
  rw [length_sampleBuffer k, fits_sampleNoted hk, if_pos rfl, hidx] at hpage hfifo
  rw [hput, hcount, hwords] at hfifo
  constructor
  · rw [sampleFilled, hpage, CommandQueuePage.copyIn, length_sampleBuffer k]
    show 16 + (8 * k + 8) = _
    omega
  · have hslot : (1 : NvU32) % 0x10000 = 1 := by decide +kernel
    have hring := submitted_ring .compute (sampleNoted.recorded k)
    rw [length_sampleBuffer k, fits_sampleNoted hk, if_pos rfl, hidx, hput, hcount, hslot, hwords,
      ← sampleFilled] at hring
    have hget : ((sampleFilled k).ctx.gpfifo .compute).gpGet = 1 := by
      rw [sampleFilled, hfifo]
      exact hget
    have hput : ((sampleFilled k).ctx.gpfifo .compute).gpPut = 2 := by
      rw [sampleFilled, hfifo]
      rfl
    have hspace' : ((sampleFilled k).queue.page .compute).commandQueueSpace = 0x1000000000 := by
      rw [sampleFilled, hpage]
      exact hspace
    rw [GPFifo.mayWrap, hget, hput, hring, CommandQueuePage.wordAddress, hspace',
      CommandQueuePage.wordAddress, hspace]
    decide +kernel

end Filled

theorem recording_sampleFilled (k : ℕ) : (sampleFilled k).RecordReady := by
  have hn := recording_sampleNoted.recorded k
  exact ⟨hn.mode, hn.other, hn.backlog, hn.pending, hn.timelineSignal, hn.waits, hn.stream,
    hn.signal⟩

theorem buffer_sampleBehind (k : ℕ) :
    (sampleBehind k).timeline.commandBuffer .compute = (sampleFilled k).records 3 :=
  pushAll_commandBuffer ..

/-- **A commence that is refused once submits an event release twice.** The records and the copy are
still in the backlog when it is called again, and the records a second time behind them. -/
theorem refused_segment_submitted_twice : ∃ (h h' : Host) (log : List (List CommandBufSplit)),
    h.Reachable ∧ h.Retry log h' ∧
    payload h.timeline.timelineSignal (submittedCommands (h'.trace.drop h.trace.length)) ≠
      payload h.timeline.timelineSignal h.timeline.waiting := by
  obtain ⟨k, hk⟩ : ∃ k, 8 * k + 24 = maxCmdQueuePageSize := ⟨262141, rfl⟩
  obtain ⟨hidx, hwrap⟩ := full_sampleFilled hk
  have hr : (sampleBehind k).Reachable :=
    reachable_recorded (reachable_sampleFilled hk) (recording_sampleFilled k) 3
  have hp : (sampleBehind k).PageFull :=
    ⟨buffer_sampleBehind k, hidx, hwrap, places_sampleNoted.1.2⟩
  obtain ⟨h', log, hretry, hne⟩ := submitted_twice hp hr ((recording_sampleFilled k).recorded 3)
  exact ⟨_, h', log, hr.step (step_copied ((recording_sampleFilled k).recorded 3)), hretry, hne⟩

end LibreCuda
