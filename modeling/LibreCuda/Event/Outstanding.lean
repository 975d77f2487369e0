import LibreCuda.Event.Recording
import LibreCuda.Queue.Releases

/-! # Outstanding releases

An event is reached when its signal is released, and a record enqueues one release of the signal the
event has on the engine.

* **`CommandTimeline.outstanding`** counts the releases of a signal that wait to be commenced; calls
  other than records leave the count alone (**`outstanding_of_call`**), and a commence hands all of
  them over (**`outstanding_of_commence`**).
* **`Host.OwnSignals`**: events do not share signals with one another or with the pool. -/

namespace LibreCuda

open Channels Exec

/-- Releases of a signal that wait to be commenced. -/
def CommandTimeline.outstanding (t : CommandTimeline) (sig : NvU64) : ℕ := releaseCount sig t.waiting

/-! ## Methods that leave a signal alone -/

/-- The methods are read as commands that ignore the signal. -/
def Silent (sig : NvU64) (type : QueueType) (ms : List MethodCall) : Prop :=
  Closed type ms ∧ ∀ c ∈ commandsOf type ms, c.Ignores sig

variable {sig : NvU64} {t t' : CommandTimeline} {type : QueueType}

theorem Silent.append {a b : List MethodCall} (ha : Silent sig type a) (hb : Silent sig type b) :
    Silent sig type (a ++ b) := by
  refine ⟨ha.1.append hb.1, fun c hc => ?_⟩
  rw [commandsOf_append hb.1] at hc
  rcases List.mem_append.mp hc with hc | hc
  · exact ha.2 c hc
  · exact hb.2 c hc

theorem silent_localMemCalls {calls : List MethodCall} (hc : LocalMemCalls calls) :
    Silent sig .compute calls :=
  ⟨closed_compute _, ignores_of_localMemCalls hc sig⟩

theorem silent_launchCalls (qmdAddr : NvU64) (tag : OpTag) :
    Silent sig .compute (launchCalls qmdAddr tag) :=
  ⟨closed_compute _, ignores_of_launchCalls qmdAddr tag sig⟩

theorem silent_copyCalls (dst src numBytes : NvU64) (tag : OpTag) :
    Silent sig .dma (copyCalls dst src numBytes tag) :=
  ⟨(commandsOf_copyCalls dst src numBytes tag).1, ignores_of_copyCalls dst src numBytes tag sig⟩

/-- Synchronising concerns the timeline signal only. -/
theorem silent_synchronizeCalls (hne : t.timelineSignal ≠ sig) (value : NvU64) (async : Bool) :
    Silent sig .compute (t.synchronizeCalls value async) := by
  refine ⟨closed_compute _, fun c hc => ?_⟩
  rw [commandsOf_synchronizeCalls] at hc
  split_ifs at hc with hasync hpending hseen hseen
  · cases hc
  · obtain rfl := List.mem_singleton.mp hc
    exact hne
  · rcases List.mem_cons.mp hc with rfl | hc
    · exact hne
    · obtain rfl := List.mem_singleton.mp hc
      exact hne
  · cases hc
  · obtain rfl := List.mem_singleton.mp hc
    exact hne

theorem silent_finishCalls (hne : t.timelineSignal ≠ sig) (type : QueueType) (async : Bool) :
    Silent sig type (t.finishCalls type async) := by
  obtain ⟨hclosed, hcmds⟩ := commandsOf_finishCalls t type async
  refine ⟨hclosed, fun c hc => ?_⟩
  rw [hcmds] at hc
  split_ifs at hc
  · cases hc
  · obtain rfl := List.mem_singleton.mp hc
    exact hne

/-! ## Changes of the timeline -/

/-- What waits depends on buffers, backlog and the timeline signal. -/
theorem waiting_congr (hbuf : ∀ type, t'.commandBuffer type = t.commandBuffer type)
    (hback : t'.commandBufBacklog = t.commandBufBacklog)
    (hsig : t'.timelineSignal = t.timelineSignal) : t'.waiting = t.waiting := by
  rw [CommandTimeline.waiting, CommandTimeline.waiting, CommandTimeline.bufferCommands,
    CommandTimeline.bufferCommands, hbuf, hbuf, hback, hsig]

/-- Appending adds the releases that are appended. -/
theorem outstanding_appends {ms : List MethodCall} (hother : t.commandBuffer type.other = [])
    (ha : t.Appends type ms t') (hclosed : Closed type ms) :
    t'.outstanding sig = t.outstanding sig + releaseCount sig (commandsOf type ms) := by
  have hother' : t'.commandBuffer type.other = [] := ha.commandBuffer_other.trans hother
  rw [CommandTimeline.outstanding, CommandTimeline.outstanding, CommandTimeline.waiting,
    CommandTimeline.waiting, bufferCommands_of_other hother, bufferCommands_of_other hother',
    ha.commandBuffer, commandsOf_append hclosed, ha.commandBufBacklog, ha.timelineSignal,
    ← List.append_assoc, releaseCount_append]

theorem outstanding_silent {ms : List MethodCall} (hother : t.commandBuffer type.other = [])
    (ha : t.Appends type ms t') (hsilent : Silent sig type ms) :
    t'.outstanding sig = t.outstanding sig := by
  rw [outstanding_appends hother ha hsilent.1, releaseCount_of_ignores hsilent.2, Nat.add_zero]

/-- Setting the only buffer aside adds a release of the timeline at most. -/
theorem outstanding_backlog (hne : t.timelineSignal ≠ sig)
    (hother : t.commandBuffer type.other = []) :
    (t.backlog type).outstanding sig = t.outstanding sig := by
  rw [CommandTimeline.outstanding, CommandTimeline.outstanding, waiting_backlog hother,
    releaseCount_append]
  split_ifs
  · rw [releaseCount_release, if_neg hne, Nat.add_zero]
  · rw [releaseCount_nil, Nat.add_zero]

/-- Changing the mode leaves the count alone. -/
theorem outstanding_select (hs : t.Settled) (hne : t.timelineSignal ≠ sig) (type : QueueType) :
    (t.select type).outstanding sig = t.outstanding sig := by
  unfold CommandTimeline.select
  split_ifs with hempty hcur
  · exact congrArg (releaseCount sig) (waiting_congr (fun type' => by cases type' <;> rfl) rfl rfl)
  · have hthis : t.commandBuffer type.other.other = [] := hs.other_of_some _ hcur
    rw [← outstanding_backlog hne hthis]
    exact congrArg (releaseCount sig) (waiting_congr (fun type' => by cases type' <;> rfl) rfl rfl)
  · rfl

theorem outstanding_setAside (hs : t.Settled) (hne : t.timelineSignal ≠ sig) (type : QueueType) :
    (t.setAside type).outstanding sig = t.outstanding sig ∧ (t.setAside type).Settled := by
  by_cases hbuf : t.commandBuffer type = []
  · rw [setAside_of_nil _ _ hbuf]
    exact ⟨rfl, hs⟩
  · have hother := hs.other_of_ne_nil hbuf
    have hidle : (t.backlog type).Idle :=
      forall_queueType type (backlog_commandBuffer ..)
        (by rw [backlog_commandBuffer_other]; exact hother)
    rw [setAside_of_ne_nil _ _ hbuf]
    exact ⟨outstanding_backlog hne hother, hidle.settled⟩

theorem outstanding_of_idle (hidle : t.Idle) (hback : t.commandBufBacklog = []) :
    t.outstanding sig = 0 := by
  rw [CommandTimeline.outstanding, CommandTimeline.waiting, bufferCommands_of_idle hidle, hback]
  rfl

/-! ## The calls -/

variable {h h' : Host}

/-- The base of a launch has no other release of the signal. -/
theorem outstanding_launchBase (hs : h.timeline.Settled) (hne : h.timeline.timelineSignal ≠ sig)
    {calls : List MethodCall} (hcalls : LocalMemCalls calls) (async : Bool) :
    ((h.timeline.select .compute).pushAll .compute calls).outstanding sig =
        h.timeline.outstanding sig ∧
      (h.launchBase calls async).outstanding sig = h.timeline.outstanding sig ∧
      (h.launchBase calls async).commandBuffer QueueType.compute.other = [] := by
  obtain ⟨-, hother, -⟩ := settled_select hs .compute
  have hlocal := appends_pushAll (h.timeline.select .compute) .compute calls
  have hsync := appends_synchronize ((h.timeline.select .compute).pushAll .compute calls)
    (h.signals h.timeline.timelineSignal).value async
  have hne' : ((h.timeline.select .compute).pushAll .compute calls).timelineSignal ≠ sig := by
    rw [pushAll_timelineSignal, select_timelineSignal]
    exact hne
  have hother' := hlocal.commandBuffer_other.trans hother
  have hsilent : Silent sig .compute calls := silent_localMemCalls hcalls
  have hfirst := outstanding_silent hother hlocal hsilent
  rw [outstanding_select hs hne] at hfirst
  refine ⟨hfirst, ?_, hsync.commandBuffer_other.trans hother'⟩
  exact (outstanding_silent hother' hsync (silent_synchronizeCalls hne' _ async)).trans hfirst

/-- **Launches and copies release no other signal**, whether they succeed or fail. -/
theorem outstanding_of_call {c : ApiCall} {r : Except Failure Unit} (hbuilds : c.Builds)
    (hrecord : ∀ event pStream, c ≠ .recordEvent event pStream) (hu : h.Usable)
    (hs : h.timeline.Settled) (hne : h.timeline.timelineSignal ≠ sig)
    (hc : call c.run h = (r, h')) : h'.timeline.outstanding sig = h.timeline.outstanding sig := by
  have hsig := hu.timelineSignal
  cases c with
  | launchFunction function grid block sharedMemBytes params numParams async =>
    rcases wp_call hc (wp_launchFunction hsig function grid block sharedMemBytes params numParams
      async) with ⟨_, -, f, -, hok⟩ | ⟨_, -, herr⟩
    · obtain ⟨calls, qmdAddr, hcalls, ht⟩ := hok.timeline
      obtain ⟨-, hbase, hother⟩ := outstanding_launchBase hs hne hcalls async
      have hne' : ((h.launchBase calls async).pushAll .compute
          (launchCalls qmdAddr ⟨h.timeline.timelineSteps + 1, async⟩)).timelineSignal ≠ sig := by
        rw [pushAll_timelineSignal, launchBase_timelineSignal]
        exact hne
      rw [ht, ← hbase]
      exact outstanding_silent hother ((appends_pushAll _ .compute _).trans (appends_finish ..))
        ((silent_launchCalls _ _).append (silent_finishCalls hne' .compute async))
    · rcases herr.timeline with ht | ⟨calls, hcalls, ht | ht⟩
      · rw [ht]
      · rw [ht]
        exact (outstanding_launchBase hs hne hcalls async).1
      · rw [ht]
        exact (outstanding_launchBase hs hne hcalls async).2.1
  | gpuMemcpy dst src numBytes async =>
    rcases wp_call hc (wp_gpuMemcpy hsig dst src numBytes async) with ⟨_, -, hok⟩ | ⟨_, -, rfl⟩
    · obtain ⟨dst', src', n, ht⟩ := hok.timeline
      obtain ⟨-, hother, -⟩ := settled_select hs .dma
      have hne' : ((h.timeline.select .dma).pushAll .dma (copyCalls dst' src' n
          ⟨h.timeline.timelineSteps + 1, async⟩)).timelineSignal ≠ sig := by
        rw [pushAll_timelineSignal, select_timelineSignal]
        exact hne
      rw [ht, ← outstanding_select hs hne .dma]
      exact outstanding_silent hother ((appends_pushAll _ .dma _).trans (appends_finish ..))
        ((silent_copyCalls _ _ _ _).append (silent_finishCalls hne' .dma async))
    · rfl
  | recordEvent event pStream => exact absurd rfl (hrecord event pStream)
  | startExecution => exact hbuilds.elim
  | awaitExecution => exact hbuilds.elim

/-- **A record adds one release of its signal.** -/
theorem outstanding_record (hs : t.Settled) (signal : NvU64) :
    (t.record signal).outstanding sig = t.outstanding sig + if signal = sig then 1 else 0 := by
  have hother : t.commandBuffer t.recordType.other = [] := by
    cases hmode : t.currentQueueType with
    | none => exact hs.idle_of_none hmode _
    | some type =>
      rw [CommandTimeline.recordType, hmode]
      exact hs.other_of_some type hmode
  have hsame : ∀ type, ({ t with currentQueueType := some t.recordType } :
      CommandTimeline).commandBuffer type = t.commandBuffer type := fun type => by
    cases type <;> rfl
  obtain ⟨hclosed, hcmds⟩ := commandsOf_releaseCalls t.recordType signal 1
  rw [outstanding_appends ((hsame _).trans hother) (appends_record t signal) hclosed, hcmds,
    releaseCount_release]
  exact congrArg (releaseCount sig · + _) (waiting_congr hsame rfl rfl)

/-- **A commence that succeeds submits all releases that waited.** -/
theorem outstanding_of_commence (hu : h.Usable) (hs : h.timeline.Settled)
    (hne : h.timeline.timelineSignal ≠ sig) (hc : call startExecution h = (.ok (), h')) :
    ∃ fx, h'.trace = h.trace ++ fx ∧
      releaseCount sig (submittedCommands fx) = h.timeline.outstanding sig ∧
      h'.timeline.outstanding sig = 0 := by
  have hsig := hu.timelineSignal
  by_cases hnil : h.timeline.commandBufBacklog = []
  · rcases wp_call hc (wp_startExecution_of_nil hsig hnil) with ⟨_, -, hok⟩ | ⟨_, hr, -⟩
    · rcases hok.submitted with ⟨type, -, hother, hadds, hidle⟩ | ⟨hmode, hadds, hbuf⟩
      · refine ⟨_, hadds.trace, ?_, outstanding_of_idle hidle hok.backlog⟩
        rw [submittedCommands_submitEffect, ← outstanding_backlog hne hother,
          CommandTimeline.outstanding]
        -- what is submitted is what setting the buffer aside would leave waiting
        have hidle' : (h.timeline.backlog type).Idle :=
          forall_queueType type (backlog_commandBuffer ..)
            (by rw [backlog_commandBuffer_other]; exact hother)
        rw [CommandTimeline.waiting, bufferCommands_of_idle hidle', backlog_commandBufBacklog,
          hnil, List.nil_append, backlogCommands_singleton, backlog_timelineSignal,
          List.append_nil]
        rfl
      · have hidle := hs.idle_of_none hmode
        refine ⟨_, hadds.trace, ?_, outstanding_of_idle
          (fun type => (hbuf type).trans (hidle type)) hok.backlog⟩
        rw [outstanding_of_idle hidle hnil]
        rfl
    · cases hr
  · rcases wp_call hc (wp_startExecution_of_ne_nil hsig hu.waits hnil) with
      ⟨_, -, hok⟩ | ⟨_, hr, -⟩
    · obtain ⟨hfirst, hs₁⟩ := outstanding_setAside hs hne .compute
      have hne₁ : (h.timeline.setAside .compute).timelineSignal ≠ sig := by
        rw [setAside_timelineSignal]
        exact hne
      obtain ⟨hsecond, -⟩ := outstanding_setAside hs₁ hne₁ .dma
      refine ⟨_, hok.adds.trace, ?_, outstanding_of_idle hok.idle hok.backlog⟩
      rw [submittedCommands_backlogEffects, ← hfirst, ← hsecond]
      have hboth := idle_setAsideBoth h.timeline
      have hwait : h.timeline.setAsideBoth.waiting =
          backlogCommands h.timeline.timelineSignal h.timeline.setAsideBoth.commandBufBacklog := by
        rw [CommandTimeline.waiting, bufferCommands_of_idle hboth,
          (sameTargets_setAsideBoth h.timeline).timelineSignal, List.append_nil]
      rw [← hwait]
      rfl
    · cases hr

/-- What a call does to the releases that are outstanding: those that are submitted are no longer
waiting, and one of the given signal is new. -/
structure Host.Tallied (record : Option NvU64) (h h' : Host) : Prop where
  balanced : h'.timeline.Balanced (submittedCommands h'.trace)
  count : ∃ fx, h'.trace = h.trace ++ fx ∧ ∀ sig, h.timeline.timelineSignal ≠ sig →
    releaseCount sig (submittedCommands fx) + h'.timeline.outstanding sig =
      h.timeline.outstanding sig + if record = some sig then 1 else 0

/-- **Calls other than records** release no signal but the timeline's. -/
theorem tallied_of_call {c : ApiCall} {r : Except Failure Unit}
    (hrecord : ∀ event pStream, c ≠ .recordEvent event pStream)
    (hstart : c = .startExecution → r = .ok ()) (hu : h.Usable)
    (hb : h.timeline.Balanced (submittedCommands h.trace)) (hc : call c.run h = (r, h')) :
    h.Tallied none h' := by
  have hbuild : c.Builds → h.Tallied none h' := by
    intro hbuilds
    obtain ⟨hb', htrace⟩ := balanced_of_call hbuilds hu hb hc
    refine ⟨htrace ▸ hb', [], by rw [htrace, List.append_nil], fun sig hne => ?_⟩
    rw [outstanding_of_call hbuilds hrecord hu hb.settled hne hc]
    exact Nat.zero_add _
  cases c with
  | launchFunction function grid block sharedMemBytes params numParams async => exact hbuild trivial
  | gpuMemcpy dst src numBytes async => exact hbuild trivial
  | recordEvent event pStream => exact absurd rfl (hrecord event pStream)
  | startExecution =>
    obtain rfl := hstart rfl
    obtain ⟨fx, htrace, -, hb'⟩ := (handsOver_of_commence hu hb hc).balanced
    refine ⟨?_, fx, htrace, fun sig hne => ?_⟩
    · rw [htrace, submittedCommands_append]
      exact hb'
    · obtain ⟨fx', htrace', hsubmitted, hrest⟩ := outstanding_of_commence hu hb.settled hne hc
      obtain rfl : fx = fx' := List.append_cancel_left (htrace.symm.trans htrace')
      rw [hsubmitted, hrest]
      rfl
  | awaitExecution =>
    rcases wp_call hc (wp_awaitExecution hu.timelineSignal hu.waits) with ⟨_, -, hok⟩ | ⟨_, -, hf⟩
    · obtain ⟨-, -, -, ht, -, htrace⟩ := hok
      refine ⟨?_, _, htrace, fun sig _ => ?_⟩
      · rw [ht, htrace, submittedCommands_append]
        simpa [submittedCommands] using hb
      · rw [ht]
        exact Nat.zero_add _
    · exact hf.elim

/-- **A record** that succeeds enqueues one release of the event's signal, and one that fails
enqueues none. -/
theorem tallied_of_record {event pStream : ℕ} {r : Except Failure Unit} (hu : h.Usable)
    (hb : h.timeline.Balanced (submittedCommands h.trace))
    (hc : call (recordEvent (some event) pStream) h = (r, h')) :
    (r.isOk = true ∧ (h'.events event).signal h.timeline.recordType ≠ 0 ∧
      h.Tallied (some ((h'.events event).signal h.timeline.recordType)) h' ∧
      SignalUse event h.timeline.recordType h h') ∨
    (r.isOk = false ∧ h.Tallied none h' ∧ SignalFailure event h.timeline.recordType h h') := by
  obtain ⟨hb', htrace⟩ := balanced_of_call (c := .recordEvent (some event) pStream) trivial hu hb hc
  rcases wp_call hc (wp_and (wp_recordEvent_some event pStream h)
    (wp_recordEvent_signals event pStream h)) with ⟨_, rfl, hok⟩ | ⟨_, rfl, hfail⟩
  · obtain ⟨⟨hrec, signal, hne, hsignal, ht⟩, huse⟩ := hok
    refine Or.inl ⟨rfl, hsignal ▸ hne, ⟨htrace ▸ hb', [], by rw [htrace, List.append_nil],
      fun sig _ => ?_⟩, huse⟩
    rw [ht, outstanding_record hb.settled, ← hsignal]
    simp [submittedCommands]
  · obtain ⟨⟨hrec, ht⟩, hfail⟩ := hfail
    refine Or.inr ⟨rfl, ⟨htrace ▸ hb', [], by rw [htrace, List.append_nil], fun sig _ => ?_⟩, hfail⟩
    rw [ht]
    exact Nat.zero_add _

/-! ## Signals of events and of the pool -/

/-- Addresses of the free signals. -/
def Host.freeAddresses (h : Host) : List NvU64 := h.queue.freeSignals.map h.signalAt

/-- **No signal has two owners**: the free ones are different from one another and from those of
events, and an event does not share a signal with another one or with its other engine. -/
structure Host.OwnSignals (h : Host) : Prop where
  nodup : h.freeAddresses.Nodup
  apart : ∀ e type e' type', (h.events e).signal type ≠ 0 →
    (h.events e').signal type' = (h.events e).signal type → e' = e ∧ type' = type
  taken : ∀ e type, (h.events e).signal type ≠ 0 → (h.events e).signal type ∉ h.freeAddresses

theorem Host.OwnSignals.same (ho : h.OwnSignals) (hsame : h.SameSignals h')
    (hpool : h'.queue.signalPool = h.queue.signalPool) : h'.OwnSignals := by
  have hfree : h'.freeAddresses = h.freeAddresses := by
    unfold Host.freeAddresses
    rw [hsame.freeSignals]
    exact List.map_congr_left fun idx _ => by rw [Host.signalAt, hpool]; rfl
  refine ⟨hfree ▸ ho.nodup, fun e type e' type' => ?_, fun e type => ?_⟩
  · rw [hsame.signal, hsame.signal]
    exact ho.apart e type e' type'
  · rw [hsame.signal, hfree]
    exact ho.taken e type

/-- What a record that takes a signal makes of the free ones. -/
theorem Host.Takes.freeAddresses {event : ℕ} {type : QueueType} {idx : NvU32}
    (ht : h.Takes event type idx h') (hpool : h'.queue.signalPool = h.queue.signalPool) :
    h.freeAddresses = h.signalAt idx :: h'.freeAddresses := by
  unfold Host.freeAddresses
  rw [ht.freeSignals, List.map_cons]
  congr 1
  exact List.map_congr_left fun idx _ => by rw [Host.signalAt, Host.signalAt, hpool]

theorem Host.OwnSignals.takes (ho : h.OwnSignals) {event : ℕ} {type : QueueType} {idx : NvU32}
    (ht : h.Takes event type idx h') (hpool : h'.queue.signalPool = h.queue.signalPool) :
    h'.OwnSignals := by
  have hfree := ht.freeAddresses hpool
  have hnodup := ho.nodup
  rw [hfree] at hnodup
  obtain ⟨hnew, hrest⟩ := List.nodup_cons.mp hnodup
  have hmem : h.signalAt idx ∈ h.freeAddresses := hfree ▸ List.mem_cons_self
  refine ⟨hrest, fun e t e' t' hne heq => ?_, fun e t hne => ?_⟩
  · rw [ht.signal e t] at hne heq
    rw [ht.signal e' t'] at heq
    split_ifs at hne heq with hown hown' hown'
    · exact ⟨hown'.1.trans hown.1.symm, hown'.2.trans hown.2.symm⟩
    · -- the signal that was taken belonged to no event
      rw [← heq] at hne hmem
      exact absurd hmem (ho.taken e' t' hne)
    · rw [heq] at hmem
      exact absurd hmem (ho.taken e t hne)
    · exact ho.apart e t e' t' hne heq
  · rw [ht.signal e t] at hne ⊢
    split_ifs at hne ⊢
    · exact hnew
    · intro hin
      exact ho.taken e t hne (hfree ▸ List.mem_cons_of_mem _ hin)

/-- Where the signals of the events are behind a record: where they were, but for one that may have
been taken from the pool. -/
structure Host.SignalsFrom (event : ℕ) (type : QueueType) (h h' : Host) : Prop where
  owned : h'.OwnSignals
  signal : ∀ e t, (h'.events e).signal t = (h.events e).signal t ∨
    (e = event ∧ t = type ∧ (h.events e).signal t = 0 ∧ (h'.events e).signal t ∈ h.freeAddresses)
  free : h'.freeAddresses ⊆ h.freeAddresses

theorem Host.OwnSignals.signalsFrom (ho : h.OwnSignals) {event : ℕ} {type : QueueType}
    (hsame : h.SameSignals h') (hpool : h'.queue.signalPool = h.queue.signalPool) :
    h.SignalsFrom event type h' := by
  refine ⟨ho.same hsame hpool, fun e t => Or.inl (hsame.signal e t), fun a ha => ?_⟩
  obtain ⟨idx, hidx, rfl⟩ := List.mem_map.mp ha
  rw [hsame.freeSignals] at hidx
  refine List.mem_map.mpr ⟨idx, hidx, ?_⟩
  rw [Host.signalAt, Host.signalAt, hpool]

theorem SignalUse.signalsFrom {event : ℕ} {type : QueueType} (hu : SignalUse event type h h')
    (ho : h.OwnSignals) (hpool : h'.queue.signalPool = h.queue.signalPool) :
    h.SignalsFrom event type h' := by
  cases hu with
  | owned _ hsame => exact ho.signalsFrom hsame hpool
  | taken idx hzero ht =>
    have hfree := ht.freeAddresses hpool
    refine ⟨ho.takes ht hpool, fun e t => ?_, fun a ha => hfree ▸ List.mem_cons_of_mem _ ha⟩
    rw [ht.signal e t]
    split_ifs with hown
    · obtain ⟨rfl, rfl⟩ := hown
      exact Or.inr ⟨rfl, rfl, hzero, hfree ▸ List.mem_cons_self⟩
    · exact Or.inl rfl

/-- A record that fails gives no event a signal. -/
theorem SignalFailure.signal {event : ℕ} {type : QueueType} (hf : SignalFailure event type h h')
    (e : ℕ) (t : QueueType) : (h'.events e).signal t = (h.events e).signal t := by
  cases hf with
  | exhausted _ _ hsame => exact hsame.signal e t
  | null idx hzero ht hnull =>
    rw [ht.signal e t]
    split_ifs with hown
    · rw [hown.1, hown.2, hzero]
      exact hnull
    · rfl

theorem SignalFailure.signalsFrom {event : ℕ} {type : QueueType}
    (hf : SignalFailure event type h h') (ho : h.OwnSignals)
    (hpool : h'.queue.signalPool = h.queue.signalPool) : h.SignalsFrom event type h' := by
  cases hf with
  | exhausted _ _ hsame => exact ho.signalsFrom hsame hpool
  | null idx hzero ht hnull => exact (SignalUse.taken idx hzero ht).signalsFrom ho hpool

/-- Signals of the pool are different. -/
theorem signalAt_injOn (h : Host) {a b : ℕ} (ha : a < 65536) (hb : b < 65536)
    (heq : h.signalAt (BitVec.ofNat 32 a) = h.signalAt (BitVec.ofNat 32 b)) : a = b := by
  have hsame := congrArg BitVec.toNat (add_left_cancel heq)
  rw [toNat_signalOffset ha, toNat_signalOffset hb] at hsame
  omega

/-- On an initialised stream whose events were not recorded, nothing is shared. -/
theorem Host.Initialized.ownSignals (hi : h.Initialized)
    (hevents : ∀ e type, (h.events e).signal type = 0) : h.OwnSignals := by
  refine ⟨?_, fun e type _ _ hne => absurd (hevents e type) hne,
    fun e type hne => absurd (hevents e type) hne⟩
  rw [Host.freeAddresses, hi.poolReady.freeSignals, remainingSignals, List.map_map]
  refine List.Nodup.map_on (fun a ha b hb heq => ?_) List.nodup_range'
  rw [List.mem_range'_1, maxSignalPoolSize] at ha hb
  exact signalAt_injOn h (by omega) (by omega) heq

end LibreCuda
