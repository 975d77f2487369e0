import LibreCuda.Foundation.Relays
import LibreCuda.Stream.Pace

/-! # The timeline flows

What waits to be commenced raises the timeline step by step: from the value that everything
submitted so far ends with, every segment of the backlog flows to its own target, and the buffer
flows to the counter, or stops below it while a release is pending.

* **`CommandTimeline.Flowing`** is that invariant of a queue.
* **`flowing_of_call`**: a call that builds commands and succeeds keeps it, as long as the counter
  does not wrap.
* **`Segments`** speaks of the effects of a commence: every buffer flows from where the one before
  ends, and every wait of the CPU is for where the last buffer ends. -/

namespace LibreCuda

open Channels Exec

/-- The value a target lets the signal reach. -/
abbrev targetValue (target : NvU32) : NvU64 := target.setWidth 64

/-- Every segment flows from the target of the one before to its own. -/
def FlowsEach (timelineSignal : NvU64) (v : NvU64) : List CommandBufSplit → Prop
  | [] => True
  | e :: rest =>
    Flows timelineSignal BitVec.toNat v (entryCommands timelineSignal e) ∧
    settle timelineSignal v (entryCommands timelineSignal e) = targetValue e.timelineCtr ∧
    FlowsEach timelineSignal (targetValue e.timelineCtr) rest

/-- The value behind the segments. -/
def settleEach (v : NvU64) (entries : List CommandBufSplit) : NvU64 :=
  entries.foldl (fun _ e => targetValue e.timelineCtr) v

@[simp] theorem settleEach_append (v : NvU64) (entries : List CommandBufSplit)
    (e : CommandBufSplit) : settleEach v (entries ++ [e]) = targetValue e.timelineCtr := by
  rw [settleEach, List.foldl_append]
  rfl

theorem flowsEach_append {timelineSignal v : NvU64} {entries : List CommandBufSplit}
    {e : CommandBufSplit} (h : FlowsEach timelineSignal v entries)
    (hflows : Flows timelineSignal BitVec.toNat (settleEach v entries)
      (entryCommands timelineSignal e))
    (hends : settle timelineSignal (settleEach v entries) (entryCommands timelineSignal e) =
      targetValue e.timelineCtr) : FlowsEach timelineSignal v (entries ++ [e]) := by
  induction entries generalizing v with
  | nil => exact ⟨hflows, hends, trivial⟩
  | cons first rest ih => exact ⟨h.1, h.2.1, ih h.2.2 hflows hends⟩

/-- The value the buffers end with: the counter, or less while its release is pending. -/
def CommandTimeline.EndsAt (t : CommandTimeline) (w : NvU64) : Prop :=
  if t.timelineNotifyPending then w.toNat < t.timelineCtr.toNat else w = targetValue t.timelineCtr

/-- **The invariant**, when everything submitted ends with the timeline at `v`. -/
structure CommandTimeline.Flowing (v : NvU64) (t : CommandTimeline) : Prop where
  settled : t.Settled
  closed : t.AllClosed
  count : t.timelineCtr.toNat = t.timelineSteps
  pending_of_idle : t.Idle → t.timelineNotifyPending = false
  backlog : FlowsEach t.timelineSignal v t.commandBufBacklog
  buffers : Flows t.timelineSignal BitVec.toNat (settleEach v t.commandBufBacklog) t.bufferCommands
  ends : t.EndsAt (settle t.timelineSignal (settleEach v t.commandBufBacklog) t.bufferCommands)

theorem toNat_targetValue (target : NvU32) : (targetValue target).toNat = target.toNat := by
  rw [BitVec.toNat_setWidth, Nat.mod_eq_of_lt (target.isLt.trans (by decide))]

/-- The buffers end no higher than the counter. -/
theorem CommandTimeline.EndsAt.le {t : CommandTimeline} {w : NvU64} (h : t.EndsAt w) :
    w.toNat ≤ t.timelineCtr.toNat := by
  unfold CommandTimeline.EndsAt at h
  split_ifs at h
  · exact h.le
  · rw [h, toNat_targetValue]

/-- The pending release takes the buffers to the counter. -/
theorem flows_pendingRelease {t : CommandTimeline} {w : NvU64} (h : t.EndsAt w) :
    Flows t.timelineSignal BitVec.toNat w (if t.timelineNotifyPending then
        [(.release t.timelineSignal (targetValue t.timelineCtr) : GpuCommand)] else []) ∧
      settle t.timelineSignal w (if t.timelineNotifyPending then
        [(.release t.timelineSignal (targetValue t.timelineCtr) : GpuCommand)] else []) =
        targetValue t.timelineCtr := by
  unfold CommandTimeline.EndsAt at h
  cases hp : t.timelineNotifyPending with
  | true =>
    rw [hp, if_pos rfl] at h
    refine ⟨⟨fun _ => ?_, trivial⟩, ?_⟩
    · rw [toNat_targetValue]
      exact h
    · simp [settle]
  | false =>
    rw [hp, if_neg Bool.false_ne_true] at h
    exact ⟨trivial, h⟩

/-! ## Setting aside and changing the mode -/

/-- **Setting the only buffer aside.** -/
theorem CommandTimeline.Flowing.backlogged {v : NvU64} {t : CommandTimeline} {type : QueueType}
    (hf : t.Flowing v) (hother : t.commandBuffer type.other = []) :
    (t.backlog type).Flowing v ∧ (t.backlog type).Idle := by
  have hidle : (t.backlog type).Idle :=
    forall_queueType type (backlog_commandBuffer ..)
      (by rw [backlog_commandBuffer_other]; exact hother)
  have hpend : (t.backlog type).timelineNotifyPending = false := backlog_timelineNotifyPending ..
  obtain ⟨hrelease, hends⟩ := flows_pendingRelease hf.ends
  have hbuf := bufferCommands_of_other hother
  have hcmds : entryCommands t.timelineSignal ⟨t.commandBuffer type, type, t.timelineCtr,
      t.timelineNotifyPending⟩ = t.bufferCommands ++ if t.timelineNotifyPending then
        [.release t.timelineSignal (targetValue t.timelineCtr)] else [] := by
    rw [entryCommands_eq, hbuf]
  have hflows := hf.buffers.append hrelease
  rw [← settle_append] at hends
  rw [← hcmds] at hflows hends
  refine ⟨⟨hidle.settled, ⟨fun type' => ?_, fun e he => ?_⟩, ?_, fun _ => hpend, ?_, ?_, ?_⟩, hidle⟩
  · rw [hidle type']
    exact closed_nil type'
  · rw [backlog_commandBufBacklog] at he
    rcases List.mem_append.mp he with he | he
    · exact hf.closed.backlog e he
    · obtain rfl := List.mem_singleton.mp he
      exact hf.closed.buffers type
  · rw [backlog_timelineCtr, backlog_timelineSteps]
    exact hf.count
  · rw [backlog_timelineSignal, backlog_commandBufBacklog]
    exact flowsEach_append hf.backlog hflows hends
  · rw [bufferCommands_of_idle hidle]
    trivial
  · rw [bufferCommands_of_idle hidle, backlog_commandBufBacklog, settleEach_append,
      CommandTimeline.EndsAt, hpend, if_neg Bool.false_ne_true, backlog_timelineCtr]
    rfl

/-- The invariant depends on the mode through `Settled` only. -/
theorem CommandTimeline.Flowing.setMode {v : NvU64} {t : CommandTimeline} {type : QueueType}
    (hf : t.Flowing v) (hother : t.commandBuffer type.other = []) :
    ({ t with currentQueueType := some type } : CommandTimeline).Flowing v := by
  have hsame : ∀ type', ({ t with currentQueueType := some type } :
      CommandTimeline).commandBuffer type' = t.commandBuffer type' := fun type' => by
    cases type' <;> rfl
  exact ⟨settled_of_mode rfl ((hsame _).trans hother),
    ⟨fun type' => (hsame type').symm ▸ hf.closed.buffers type', hf.closed.backlog⟩, hf.count,
    fun hidle => hf.pending_of_idle fun type' => (hsame type').symm.trans (hidle type'),
    hf.backlog, hf.buffers, hf.ends⟩

/-- **Changing the mode.** -/
theorem CommandTimeline.Flowing.select {v : NvU64} {t : CommandTimeline} (hf : t.Flowing v)
    (type : QueueType) : (t.select type).Flowing v := by
  have hsettled := settled_select hf.settled type
  unfold CommandTimeline.select at hsettled ⊢
  split_ifs at hsettled ⊢ with hempty hcur
  · exact hf.setMode hempty
  · have hthis : t.commandBuffer type.other.other = [] := hf.settled.other_of_some _ hcur
    exact (hf.backlogged hthis).1.setMode (backlog_commandBuffer ..)
  · exact hf

/-! ## Appending -/

/-- **Appending commands** that flow from wherever the buffers end to where they are to end. -/
theorem CommandTimeline.Flowing.appends {v : NvU64} {t t' : CommandTimeline} {type : QueueType}
    {ms : List MethodCall} (hf : t.Flowing v) (hmode : t.currentQueueType = some type)
    (hother : t.commandBuffer type.other = []) (ha : t.Appends type ms t') (hne : ms ≠ [])
    (hclosed : Closed type ms) (hcount : t'.timelineCtr.toNat = t'.timelineSteps)
    (hflows : ∀ w, t.EndsAt w → Flows t.timelineSignal BitVec.toNat w (commandsOf type ms) ∧
      t'.EndsAt (settle t.timelineSignal w (commandsOf type ms))) : t'.Flowing v := by
  have hother' : t'.commandBuffer type.other = [] := ha.commandBuffer_other.trans hother
  have hbuf : t'.bufferCommands = t.bufferCommands ++ commandsOf type ms := by
    rw [bufferCommands_of_other hother, bufferCommands_of_other hother', ha.commandBuffer,
      commandsOf_append hclosed]
  obtain ⟨hms, hends⟩ := hflows _ hf.ends
  refine ⟨settled_of_mode (ha.currentQueueType.trans hmode) hother', ⟨?_, ?_⟩, hcount,
    fun hidle => ?_, ?_, ?_, ?_⟩
  · refine forall_queueType type ?_ ?_
    · rw [ha.commandBuffer]
      exact (hf.closed.buffers type).append hclosed
    · rw [hother']
      exact closed_nil _
  · rw [ha.commandBufBacklog]
    exact hf.closed.backlog
  · exact absurd (List.append_eq_nil_iff.mp (ha.commandBuffer.symm.trans (hidle type))).2 hne
  · rw [ha.timelineSignal, ha.commandBufBacklog]
    exact hf.backlog
  · rw [ha.timelineSignal, ha.commandBufBacklog, hbuf]
    exact hf.buffers.append hms
  · rw [ha.timelineSignal, ha.commandBufBacklog, hbuf, settle_append]
    exact hends

theorem quiet_localMemCalls {calls : List MethodCall} (hcalls : LocalMemCalls calls)
    (sig : NvU64) : Quiet sig (commandsOf .compute calls) := by
  cases hcalls with
  | none => exact quiet_nil
  | grown va bytesPerTpc =>
    obtain ⟨a, b, h⟩ := commandsOf_localMemCalls va bytesPerTpc
    rw [h]
    simp [Command.Quiet]

theorem quiet_launchCalls (qmdAddr : NvU64) (tag : OpTag) (sig : NvU64) :
    Quiet sig (commandsOf .compute (launchCalls qmdAddr tag)) := by
  obtain ⟨a, b, h⟩ := commandsOf_launchCalls qmdAddr tag
  rw [h]
  simp [Command.Quiet]

theorem quiet_copyCalls (dst src numBytes : NvU64) (tag : OpTag) (sig : NvU64) :
    Quiet sig (commandsOf .dma (copyCalls dst src numBytes tag)) := by
  obtain ⟨-, a, b, h⟩ := commandsOf_copyCalls dst src numBytes tag
  rw [h]
  simp [Command.Quiet]

/-- Synchronising in front of commands that release the timeline: the acquire carries the counter,
which is what the timeline was released with. -/
theorem flows_synchronizeCalls (t : CommandTimeline) (value : NvU64) {rest : List GpuCommand}
    (hlifts : Lifts t.timelineSignal rest) {w : NvU64} (h : t.EndsAt w)
    (hrest : Flows t.timelineSignal BitVec.toNat (targetValue t.timelineCtr) rest) :
    Flows t.timelineSignal BitVec.toNat w
        (commandsOf .compute (t.synchronizeCalls value false) ++ rest) ∧
      settle t.timelineSignal w (commandsOf .compute (t.synchronizeCalls value false)) =
        targetValue t.timelineCtr := by
  obtain ⟨hrelease, hends⟩ := flows_pendingRelease h
  rw [commandsOf_synchronizeCalls, if_neg Bool.false_ne_true, List.append_assoc, settle_append]
  constructor
  · refine hrelease.append ?_
    rw [hends]
    split_ifs
    · exact hrest
    · exact ⟨rfl, rfl, hlifts, hrest⟩
  · rw [hends]
    split_ifs <;> rfl

/-- What ends an operation, behind commands that leave the timeline where it was. -/
theorem endsAt_finish {t : CommandTimeline} {w : NvU64} (type : QueueType) (async : Bool)
    (hle : w.toNat ≤ t.timelineCtr.toNat) (hcount : t.timelineCtr.toNat = t.timelineSteps)
    (hlt : t.timelineSteps + 1 < 2 ^ 32) :
    (t.timelineCtr + 1).toNat = t.timelineSteps + 1 ∧
      Flows t.timelineSignal BitVec.toNat w (commandsOf type (t.finishCalls type async)) ∧
      (t.finish type async).EndsAt
        (settle t.timelineSignal w (commandsOf type (t.finishCalls type async))) := by
  have hctr : (t.timelineCtr + 1).toNat = t.timelineSteps + 1 := by
    rw [BitVec.toNat_add, hcount]
    exact Nat.mod_eq_of_lt hlt
  obtain ⟨-, hcmds⟩ := commandsOf_finishCalls t type async
  refine ⟨hctr, ?_⟩
  rw [hcmds, CommandTimeline.EndsAt, finish_timelineNotifyPending, finish_timelineCtr]
  cases async with
  | true =>
    refine ⟨trivial, ?_⟩
    rw [if_pos rfl, if_pos rfl, settle_nil, hctr]
    omega
  | false =>
    rw [if_neg Bool.false_ne_true, if_neg Bool.false_ne_true]
    refine ⟨⟨fun _ => ?_, trivial⟩, by simp [settle]⟩
    have hvalue := toNat_targetValue (t.timelineCtr + 1)
    rw [hctr] at hvalue
    show w.toNat < (targetValue (t.timelineCtr + 1)).toNat
    rw [hvalue]
    omega

/-! ## The calls -/

/-- **A launch** flows: it synchronises in front of itself, so that its acquire finds the counter
released, and releases its own target behind. -/
theorem flowing_launch {v : NvU64} {t : CommandTimeline} {calls : List MethodCall} {value : NvU64}
    {async : Bool} {qmdAddr : NvU64} {tag : OpTag} (hf : t.Flowing v)
    (hmode : t.currentQueueType = some .compute)
    (hother : t.commandBuffer QueueType.compute.other = []) (hcalls : LocalMemCalls calls)
    (hlt : t.timelineSteps + 1 < 2 ^ 32) :
    ((((t.pushAll .compute calls).synchronize value async).pushAll .compute
      (launchCalls qmdAddr tag)).finish .compute async).Flowing v := by
  -- what is pushed, and what the engine makes of it
  have ha := (((appends_pushAll t .compute calls).trans
    (appends_synchronize (t.pushAll .compute calls) value async)).trans
    (appends_pushAll _ .compute (launchCalls qmdAddr tag))).trans (appends_finish _ .compute async)
  have hne : ((calls ++ (t.pushAll .compute calls).synchronizeCalls value async) ++
      launchCalls qmdAddr tag) ++ (((t.pushAll .compute calls).synchronize value async).pushAll
        .compute (launchCalls qmdAddr tag)).finishCalls .compute async ≠ [] :=
    List.append_ne_nil_of_left_ne_nil
      (List.append_ne_nil_of_right_ne_nil _ (launchCalls_ne_nil _ _)) _
  have hlocal := quiet_localMemCalls hcalls t.timelineSignal
  have hlaunch := quiet_launchCalls qmdAddr tag t.timelineSignal
  have hfinish : ∀ w : NvU64, w.toNat ≤ t.timelineCtr.toNat → _ := fun w hle =>
    endsAt_finish (w := w) (t := ((t.pushAll .compute calls).synchronize value async).pushAll
      .compute (launchCalls qmdAddr tag)) .compute async (by simpa using hle)
      (by simpa using hf.count) (by simpa using hlt)
  refine hf.appends hmode hother ha hne (closed_compute _) ?_ fun w hw => ?_
  · have hctr := (hfinish 0 (Nat.zero_le _)).1
    simpa using hctr
  rw [commandsOf_append (closed_compute _), commandsOf_append (closed_compute _),
    commandsOf_append (closed_compute _)]
  simp only [List.append_assoc, settle_append, settle_of_quiet hlocal]
  have hw₂ : (t.pushAll .compute calls).EndsAt w := by
    simpa [CommandTimeline.EndsAt] using hw
  cases async with
  | true =>
    -- nothing but the operation; its release stays pending
    have hsync : commandsOf .compute ((t.pushAll .compute calls).synchronizeCalls value true) =
        [] := by
      rw [commandsOf_synchronizeCalls, if_pos rfl]
    obtain ⟨-, hflows, hends⟩ := hfinish w hw.le
    rw [hsync, List.nil_append, settle_nil, settle_of_quiet hlaunch]
    refine ⟨(flows_of_quiet hlocal w).append ?_, by simpa using hends⟩
    rw [settle_of_quiet hlocal]
    refine (flows_of_quiet hlaunch w).append ?_
    rw [settle_of_quiet hlaunch]
    simpa using hflows
  | false =>
    obtain ⟨-, hflows, hends⟩ := hfinish (targetValue t.timelineCtr)
      (toNat_targetValue _).le
    have hlifts : Lifts t.timelineSignal (commandsOf .compute (launchCalls qmdAddr tag) ++
        commandsOf .compute ((((t.pushAll .compute calls).synchronize value false).pushAll .compute
          (launchCalls qmdAddr tag)).finishCalls .compute false)) := by
      rw [(commandsOf_finishCalls _ _ _).2, if_neg Bool.false_ne_true]
      exact ⟨targetValue (t.timelineCtr + 1), List.mem_append_right _ (by simp)⟩
    have hrest : Flows t.timelineSignal BitVec.toNat (targetValue t.timelineCtr)
        (commandsOf .compute (launchCalls qmdAddr tag) ++
          commandsOf .compute ((((t.pushAll .compute calls).synchronize value false).pushAll
            .compute (launchCalls qmdAddr tag)).finishCalls .compute false)) := by
      refine (flows_of_quiet hlaunch _).append ?_
      rw [settle_of_quiet hlaunch]
      simpa using hflows
    obtain ⟨hsync, hsettle⟩ := flows_synchronizeCalls (t.pushAll .compute calls) value
      (by simpa using hlifts) hw₂ (by simpa using hrest)
    rw [pushAll_timelineSignal, pushAll_timelineCtr] at hsettle
    rw [pushAll_timelineSignal] at hsync
    refine ⟨(flows_of_quiet hlocal w).append ?_, ?_⟩
    · rw [settle_of_quiet hlocal]
      exact hsync
    · rw [hsettle, settle_of_quiet hlaunch]
      simpa using hends

/-- **A copy** flows. -/
theorem flowing_copy {v : NvU64} {t : CommandTimeline} {async : Bool} {dst src numBytes : NvU64}
    {tag : OpTag} (hf : t.Flowing v) (hmode : t.currentQueueType = some .dma)
    (hother : t.commandBuffer QueueType.dma.other = []) (hlt : t.timelineSteps + 1 < 2 ^ 32) :
    ((t.pushAll .dma (copyCalls dst src numBytes tag)).finish .dma async).Flowing v := by
  have ha := (appends_pushAll t .dma (copyCalls dst src numBytes tag)).trans
    (appends_finish _ .dma async)
  have hcopy := quiet_copyCalls dst src numBytes tag t.timelineSignal
  obtain ⟨hfinish, -⟩ := commandsOf_finishCalls
    (t.pushAll .dma (copyCalls dst src numBytes tag)) .dma async
  have hstep : ∀ w : NvU64, w.toNat ≤ t.timelineCtr.toNat → _ := fun w hle =>
    endsAt_finish (w := w) (t := t.pushAll .dma (copyCalls dst src numBytes tag)) .dma async
      (by simpa using hle) (by simpa using hf.count) (by simpa using hlt)
  refine hf.appends hmode hother ha
    (List.append_ne_nil_of_left_ne_nil (copyCalls_ne_nil _ _ _ _) _)
    ((commandsOf_copyCalls dst src numBytes tag).1.append hfinish) ?_ fun w hw => ?_
  · have hctr := (hstep 0 (Nat.zero_le _)).1
    simpa using hctr
  obtain ⟨-, hflows, hends⟩ := hstep w hw.le
  rw [commandsOf_append hfinish, settle_append, settle_of_quiet hcopy]
  refine ⟨(flows_of_quiet hcopy w).append ?_, by simpa using hends⟩
  rw [settle_of_quiet hcopy]
  simpa using hflows

/-- **Recording an event** flows: it releases a signal of the event. -/
theorem flowing_record {v : NvU64} {t : CommandTimeline} {signal : NvU64} (hf : t.Flowing v)
    (hsignal : signal ≠ t.timelineSignal) : (t.record signal).Flowing v := by
  have hother : t.commandBuffer t.recordType.other = [] := by
    cases hmode : t.currentQueueType with
    | none => exact hf.settled.idle_of_none hmode _
    | some type =>
      rw [CommandTimeline.recordType, hmode]
      exact hf.settled.other_of_some type hmode
  have hsame : ∀ type, ({ t with currentQueueType := some t.recordType } :
      CommandTimeline).commandBuffer type = t.commandBuffer type := fun type => by
    cases type <;> rfl
  obtain ⟨hclosed, hcmds⟩ := commandsOf_releaseCalls t.recordType signal 1
  have hquiet : Quiet t.timelineSignal
      (commandsOf t.recordType (releaseCalls t.recordType signal 1)) := by
    rw [hcmds]
    simpa [Command.Quiet] using hsignal
  have hctr : (t.record signal).timelineCtr = t.timelineCtr := pushAll_timelineCtr ..
  have hsteps : (t.record signal).timelineSteps = t.timelineSteps := pushAll_timelineSteps ..
  have hpend : (t.record signal).timelineNotifyPending = t.timelineNotifyPending :=
    pushAll_timelineNotifyPending ..
  refine (hf.setMode hother).appends rfl ((hsame _).trans hother) (appends_record t signal)
    (releaseCalls_ne_nil _ _ _) hclosed ?_ fun w hw => ⟨flows_of_quiet hquiet w, ?_⟩
  · rw [hctr, hsteps]
    exact hf.count
  · rw [show settle ({ t with currentQueueType := some t.recordType } :
      CommandTimeline).timelineSignal w _ = w from settle_of_quiet hquiet w]
    rw [CommandTimeline.EndsAt, hpend, hctr]
    exact hw

/-- **A call that builds commands keeps the flow** when it succeeds, as long as the counter does not
wrap; one that leaves the queue as it was keeps it anyway. -/
theorem flowing_of_call {h h' : Host} {c : ApiCall} {r : Except Failure Unit} {v : NvU64}
    (hbuilds : c.Builds) (hu : h.Usable) (hf : h.timeline.Flowing v)
    (hkept : r = .ok () ∨ h'.timeline = h.timeline)
    (hlt : c.Counts → h.timeline.timelineSteps + 1 < 2 ^ 32) (hc : call c.run h = (r, h')) :
    h'.timeline.Flowing v := by
  rcases hkept with rfl | hsame
  swap
  · rw [hsame]
    exact hf
  have hsig := hu.timelineSignal
  cases c with
  | launchFunction function grid block sharedMemBytes params numParams async =>
    rcases wp_call hc (wp_launchFunction hsig function grid block sharedMemBytes params numParams
      async) with ⟨_, -, f, -, hok⟩ | ⟨_, hr, -⟩
    · obtain ⟨calls, qmdAddr, hcalls, ht⟩ := hok.timeline
      obtain ⟨hmode, hother, -⟩ := settled_select hf.settled .compute
      rw [ht]
      exact flowing_launch (hf.select .compute) hmode hother hcalls
        (by rw [select_timelineSteps]; exact hlt trivial)
    · cases hr
  | gpuMemcpy dst src numBytes async =>
    rcases wp_call hc (wp_gpuMemcpy hsig dst src numBytes async) with ⟨_, -, hok⟩ | ⟨_, hr, -⟩
    · obtain ⟨dst', src', n, ht⟩ := hok.timeline
      obtain ⟨hmode, hother, -⟩ := settled_select hf.settled .dma
      rw [ht]
      exact flowing_copy (hf.select .dma) hmode hother
        (by rw [select_timelineSteps]; exact hlt trivial)
    · cases hr
  | recordEvent event pStream =>
    rcases wp_call hc (wp_recordEvent event pStream h) with
      ⟨_, -, -, e, signal, -, hsignal, ht⟩ | ⟨_, hr, -⟩
    · rw [ht]
      refine flowing_record hf ?_
      have hsame : h'.timeline.timelineSignal = h.timeline.timelineSignal := by
        rw [ht]
        exact pushAll_timelineSignal ..
      rw [hsignal, ← hsame]
      exact (hu.call hc).events e _
    · cases hr
  | startExecution => exact hbuilds.elim
  | awaitExecution => exact hbuilds.elim

/-! ## Commencing -/

/-- Effects that raise the timeline from `v` segment by segment, each awaited at the value it ends
with; behind them a property of the last value holds. -/
def Segments (timelineSignal : NvU64) (post : NvU64 → Prop) (v : NvU64) : List HostEffect → Prop
  | [] => post v
  | .submit type commands :: rest =>
    Flows timelineSignal BitVec.toNat v (commandsOf type commands) ∧
      Segments timelineSignal post (settle timelineSignal v (commandsOf type commands)) rest
  | .waitCpu signal target :: rest =>
    signal = timelineSignal ∧ targetValue target = v ∧ Segments timelineSignal post v rest

/-- Between two submissions stands a wait. -/
def Spaced : List HostEffect → Prop
  | [] => True
  | .submit _ _ :: rest => (∀ type commands, rest.head? ≠ some (.submit type commands)) ∧ Spaced rest
  | .waitCpu _ _ :: rest => Spaced rest

theorem segments_submitEffect {timelineSignal v : NvU64} {post : NvU64 → Prop} {type : QueueType}
    {commands : List MethodCall} {rest : List HostEffect}
    (hflows : Flows timelineSignal BitVec.toNat v (commandsOf type commands))
    (hrest : Segments timelineSignal post (settle timelineSignal v (commandsOf type commands)) rest) :
    Segments timelineSignal post v (submitEffect type commands ++ rest) := by
  unfold submitEffect
  split_ifs with hnil
  · subst hnil
    exact hrest
  · exact ⟨hflows, hrest⟩

theorem spaced_submitEffect {type : QueueType} {commands : List MethodCall} {rest : List HostEffect}
    (hrest : Spaced rest) (hhead : ∀ type commands, rest.head? ≠ some (.submit type commands)) :
    Spaced (submitEffect type commands ++ rest) := by
  unfold submitEffect
  split_ifs
  · exact hrest
  · exact ⟨hhead, hrest⟩

/-- The loop over a backlog. -/
theorem segments_backlogEffects {timelineSignal v : NvU64} (post : NvU64 → Prop)
    {entries : List CommandBufSplit} (h : FlowsEach timelineSignal v entries)
    (hpost : post (settleEach v entries)) :
    Segments timelineSignal post v (backlogEffects timelineSignal entries) ∧
      Spaced (backlogEffects timelineSignal entries) := by
  induction entries generalizing v with
  | nil => exact ⟨hpost, trivial⟩
  | cons e rest ih =>
    obtain ⟨hflows, hends, hrest⟩ := h
    obtain ⟨hsegments, hspaced⟩ := ih hrest hpost
    rw [show backlogEffects timelineSignal (e :: rest) =
      entryEffects timelineSignal e ++ backlogEffects timelineSignal rest from rfl, entryEffects,
      List.append_assoc]
    refine ⟨segments_submitEffect hflows ⟨rfl, hends.symm, ?_⟩, spaced_submitEffect hspaced ?_⟩
    · rw [show commandsOf e.queueType (e.commands timelineSignal) =
        entryCommands timelineSignal e from rfl, hends]
      exact hsegments
    · intro type commands hhead
      cases hhead

/-- With nothing left to commence, everything submitted ends with the counter. -/
theorem flowing_of_idle {t : CommandTimeline} (hidle : t.Idle) (hback : t.commandBufBacklog = [])
    (hpend : t.timelineNotifyPending = false) (hcount : t.timelineCtr.toNat = t.timelineSteps) :
    t.Flowing (targetValue t.timelineCtr) := by
  refine ⟨hidle.settled, ⟨fun type => ?_, fun e he => ?_⟩, hcount, fun _ => hpend, ?_, ?_, ?_⟩
  · rw [hidle type]
    exact closed_nil type
  · rw [hback] at he
    cases he
  · rw [hback]
    trivial
  · rw [bufferCommands_of_idle hidle]
    trivial
  · rw [bufferCommands_of_idle hidle, hback, CommandTimeline.EndsAt, hpend,
      if_neg Bool.false_ne_true]
    rfl

/-- And it ends nowhere else. -/
theorem CommandTimeline.Flowing.eq_of_idle {t : CommandTimeline} {v : NvU64} (hf : t.Flowing v)
    (hidle : t.Idle) (hback : t.commandBufBacklog = []) : v = targetValue t.timelineCtr := by
  have hends := hf.ends
  rwa [bufferCommands_of_idle hidle, hback, CommandTimeline.EndsAt, hf.pending_of_idle hidle,
    if_neg Bool.false_ne_true] at hends

/-- Segments raise the timeline. -/
theorem le_settleEach {timelineSignal v : NvU64} {entries : List CommandBufSplit}
    (h : FlowsEach timelineSignal v entries) : v.toNat ≤ (settleEach v entries).toNat := by
  induction entries generalizing v with
  | nil => exact Nat.le_refl _
  | cons e rest ih =>
    obtain ⟨hflows, hends, hrest⟩ := h
    have hle := num_le_settle hflows
    rw [hends] at hle
    exact hle.trans (ih hrest)

/-- Everything submitted ends no higher than the counter. -/
theorem CommandTimeline.Flowing.le {t : CommandTimeline} {v : NvU64} (hf : t.Flowing v) :
    v.toNat ≤ t.timelineCtr.toNat :=
  (le_settleEach hf.backlog).trans ((num_le_settle hf.buffers).trans hf.ends.le)

/-- Setting both buffers aside. -/
theorem CommandTimeline.Flowing.setAsideBoth {t : CommandTimeline} {v : NvU64} (hf : t.Flowing v) :
    t.setAsideBoth.Flowing v := by
  have hone : ∀ {t : CommandTimeline} (type : QueueType), t.Flowing v →
      (t.setAside type).Flowing v := by
    intro t type hf
    by_cases hbuf : t.commandBuffer type = []
    · rw [setAside_of_nil _ _ hbuf]
      exact hf
    · rw [setAside_of_ne_nil _ _ hbuf]
      exact (hf.backlogged (hf.settled.other_of_ne_nil hbuf)).1
  exact hone .dma (hone .compute hf)

/-- **A commence that succeeds** submits segments that raise the timeline to the counter, and the
first one is the first segment of the queue. -/
theorem segments_of_commence {h h' : Host} {v : NvU64} (hu : h.Usable) (hf : h.timeline.Flowing v)
    (hc : call startExecution h = (.ok (), h')) :
    ∃ fx, h'.trace = h.trace ++ fx ∧
      Segments h.timeline.timelineSignal
        (fun w => h'.timeline.Flowing w ∧ w.toNat = h'.timeline.timelineSteps) v fx ∧
      Spaced fx ∧ ∀ type commands rest, fx = .submit type commands :: rest →
        h.timeline.firstSegment = some (type, commands) := by
  have hpost : h.timeline.SameTargets h'.timeline → h'.timeline.Idle →
      h'.timeline.commandBufBacklog = [] → h'.timeline.timelineNotifyPending = false →
      h'.timeline.Flowing (targetValue h.timeline.timelineCtr) ∧
        (targetValue h.timeline.timelineCtr).toNat = h'.timeline.timelineSteps := by
    intro hsame hidle hback hpend
    have hcount : h'.timeline.timelineCtr.toNat = h'.timeline.timelineSteps := by
      rw [hsame.timelineCtr, hsame.timelineSteps]
      exact hf.count
    refine ⟨hsame.timelineCtr ▸ flowing_of_idle hidle hback hpend hcount, ?_⟩
    rw [toNat_targetValue, ← hsame.timelineCtr]
    exact hcount
  by_cases hnil : h.timeline.commandBufBacklog = []
  · rcases wp_call hc (wp_startExecution_of_nil hu.timelineSignal hnil) with ⟨_, -, hok⟩ | ⟨_, hr, -⟩
    swap
    · cases hr
    rcases hok.submitted with ⟨type, hmode, hother, hadds, hidle⟩ | ⟨hmode, hadds, hbuf⟩
    · obtain ⟨hset, hidle'⟩ := hf.backlogged hother
      have hfirst : h.timeline.firstSegment = some (type, h.timeline.current type) := by
        rw [CommandTimeline.firstSegment, hnil, hmode]
        rfl
      -- what is submitted is the segment that setting the buffer aside would leave
      have hentry := hset.backlog
      rw [backlog_commandBufBacklog, hnil, backlog_timelineSignal] at hentry
      obtain ⟨hflows, hends, -⟩ := hentry
      have hpost' := hpost hok.targets hidle hok.backlog hok.pending
      refine ⟨_, hadds.trace, ?_, ?_, fun type' commands rest heq => ?_⟩
      · rw [← List.append_nil (submitEffect _ _)]
        refine segments_submitEffect hflows ?_
        show _ ∧ _
        rw [show settle h.timeline.timelineSignal v (commandsOf type (h.timeline.current type)) =
          targetValue h.timeline.timelineCtr from hends]
        exact hpost'
      · rw [← List.append_nil (submitEffect _ _)]
        exact spaced_submitEffect trivial (by simp)
      · unfold submitEffect at heq
        split_ifs at heq
        cases heq
        exact hfirst
    · have hidle := hf.settled.idle_of_none hmode
      have hv := hf.eq_of_idle hidle hnil
      refine ⟨[], hadds.trace, ?_, trivial, fun _ _ _ heq => by cases heq⟩
      show _ ∧ _
      rw [hv]
      exact hpost hok.targets (fun type => (hbuf type).trans (hidle type)) hok.backlog hok.pending
  · rcases wp_call hc (wp_startExecution_of_ne_nil hu.timelineSignal hu.waits hnil) with
      ⟨_, -, hok⟩ | ⟨_, hr, -⟩
    swap
    · cases hr
    have hset := hf.setAsideBoth
    have hsame := sameTargets_setAsideBoth h.timeline
    have hidle := idle_setAsideBoth h.timeline
    have hpend := hset.pending_of_idle hidle
    have hbacklog := hset.backlog
    have hends := hset.ends
    rw [bufferCommands_of_idle hidle, settle_nil, CommandTimeline.EndsAt, hpend,
      if_neg Bool.false_ne_true, hsame.timelineCtr] at hends
    rw [hsame.timelineSignal] at hbacklog
    have hpost' := hpost hok.targets hok.idle hok.backlog (hok.pending.trans hpend)
    obtain ⟨hsegments, hspaced⟩ := segments_backlogEffects
      (fun w => h'.timeline.Flowing w ∧ w.toNat = h'.timeline.timelineSteps) hbacklog
      (by rw [hends]; exact hpost')
    refine ⟨_, hok.adds.trace, hsegments, hspaced, fun type commands rest heq => ?_⟩
    obtain ⟨first, others, hcons⟩ := List.exists_cons_of_ne_nil hnil
    obtain ⟨more, hmore⟩ := backlog_setAsideBoth h.timeline
    rw [hmore, hcons] at heq
    rw [CommandTimeline.firstSegment, hcons]
    rw [show backlogEffects h.timeline.timelineSignal (first :: others ++ more) =
      entryEffects h.timeline.timelineSignal first ++
        backlogEffects h.timeline.timelineSignal (others ++ more) from rfl, entryEffects,
      List.append_assoc] at heq
    unfold submitEffect at heq
    split_ifs at heq
    · cases heq
    · cases heq
      rfl

end LibreCuda
