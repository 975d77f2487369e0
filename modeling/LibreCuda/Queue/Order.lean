import LibreCuda.Queue.Session

/-! # Commands keep their order

`CommandTimeline.queued` lists what waits to be commenced, segment by segment and then the buffers.
Building calls append to it; setting a buffer aside does not change it. Commencing hands it over as
it stands, with releases of the timeline added at the end of segments only. -/

namespace LibreCuda

open Channels Exec

/-- Methods for an engine. -/
def tagged (type : QueueType) (ms : List MethodCall) : List (QueueType × MethodCall) :=
  ms.map fun m => (type, m)

@[simp] theorem tagged_nil (type : QueueType) : tagged type [] = [] := rfl

@[simp] theorem tagged_append (type : QueueType) (a b : List MethodCall) :
    tagged type (a ++ b) = tagged type a ++ tagged type b := List.map_append

/-- The methods set aside. -/
def backlogged (entries : List CommandBufSplit) : List (QueueType × MethodCall) :=
  entries.flatMap fun e => tagged e.queueType e.commandBuffer

/-- The methods that wait to be commenced, in order. -/
def CommandTimeline.queued (t : CommandTimeline) : List (QueueType × MethodCall) :=
  backlogged t.commandBufBacklog ++
    (tagged .compute (t.commandBuffer .compute) ++ tagged .dma (t.commandBuffer .dma))

/-- Only the buffer of the engine the queue is in the mode of holds commands. -/
structure CommandTimeline.Settled (t : CommandTimeline) : Prop where
  idle_of_none : t.currentQueueType = none → t.Idle
  other_of_some : ∀ type, t.currentQueueType = some type → t.commandBuffer type.other = []

theorem CommandTimeline.Idle.settled {t : CommandTimeline} (h : t.Idle) : t.Settled :=
  ⟨fun _ => h, fun _ _ => h _⟩

/-- A settled queue in the mode of an engine. -/
theorem settled_of_mode {t : CommandTimeline} {type : QueueType}
    (hmode : t.currentQueueType = some type) (hother : t.commandBuffer type.other = []) :
    t.Settled := by
  refine ⟨fun hnone => ?_, fun type' hmode' => ?_⟩
  · rw [hmode] at hnone
    cases hnone
  · obtain rfl : type = type' := Option.some.inj (hmode.symm.trans hmode')
    exact hother

/-- A settled queue that has commands for an engine is in its mode. -/
theorem CommandTimeline.Settled.mode_of_ne_nil {t : CommandTimeline} {type : QueueType}
    (hs : t.Settled) (hbuf : t.commandBuffer type ≠ []) : t.currentQueueType = some type := by
  cases hmode : t.currentQueueType with
  | none => exact absurd (hs.idle_of_none hmode type) hbuf
  | some type' =>
    have hother := hs.other_of_some type' hmode
    cases type <;> cases type' <;> first | rfl | exact absurd hother hbuf

/-- A settled queue has commands for one engine only. -/
theorem CommandTimeline.Settled.other_of_ne_nil {t : CommandTimeline} {type : QueueType}
    (hs : t.Settled) (hbuf : t.commandBuffer type ≠ []) : t.commandBuffer type.other = [] :=
  hs.other_of_some type (hs.mode_of_ne_nil hbuf)

/-- With the other buffer empty, what waits is the backlog and this buffer. -/
theorem queued_of_other {t : CommandTimeline} {type : QueueType}
    (hother : t.commandBuffer type.other = []) :
    t.queued = backlogged t.commandBufBacklog ++ tagged type (t.commandBuffer type) := by
  cases type with
  | compute =>
    rw [CommandTimeline.queued, show t.commandBuffer .dma = [] from hother]
    simp
  | dma =>
    rw [CommandTimeline.queued, show t.commandBuffer .compute = [] from hother]
    simp

/-- Appending to the only buffer appends. -/
theorem queued_appends {t t' : CommandTimeline} {type : QueueType} {ms : List MethodCall}
    (hother : t.commandBuffer type.other = []) (ha : t.Appends type ms t') :
    t'.queued = t.queued ++ tagged type ms := by
  rw [queued_of_other (t := t') (ha.commandBuffer_other.trans hother), queued_of_other hother,
    ha.commandBuffer, ha.commandBufBacklog, tagged_append, List.append_assoc]

/-- Setting the only buffer aside moves it to the end of the backlog. -/
theorem queued_backlog {t : CommandTimeline} {type : QueueType}
    (hother : t.commandBuffer type.other = []) : (t.backlog type).queued = t.queued := by
  rw [queued_of_other (t := t.backlog type) (by rw [backlog_commandBuffer_other]; exact hother),
    queued_of_other hother, backlog_commandBuffer, backlog_commandBufBacklog]
  simp [backlogged]

/-- What waits depends on buffers and backlog only. -/
theorem queued_congr {t t' : CommandTimeline} (hbuf : ∀ type, t'.commandBuffer type =
    t.commandBuffer type) (hback : t'.commandBufBacklog = t.commandBufBacklog) :
    t'.queued = t.queued := by
  rw [CommandTimeline.queued, CommandTimeline.queued, hback, hbuf, hbuf]

/-- A settled queue that changes its mode keeps its order. -/
theorem settled_select {t : CommandTimeline} (hs : t.Settled) (type : QueueType) :
    (t.select type).currentQueueType = some type ∧
      (t.select type).commandBuffer type.other = [] ∧ (t.select type).queued = t.queued := by
  unfold CommandTimeline.select
  split_ifs with hempty hmode
  · exact ⟨rfl, by cases type <;> exact hempty, queued_congr (fun type' => by cases type' <;> rfl) rfl⟩
  · refine ⟨rfl, by cases type <;> rfl, ?_⟩
    have hthis : t.commandBuffer type.other.other = [] := hs.other_of_some _ hmode
    rw [← queued_backlog hthis]
    exact queued_congr (fun type' => by cases type' <;> rfl) rfl
  · -- a settled queue whose other buffer is not empty is in the other mode
    exfalso
    cases hcur : t.currentQueueType with
    | none => exact hempty (hs.idle_of_none hcur _)
    | some type' =>
      have hother := hs.other_of_some type' hcur
      cases type <;> cases type' <;> first | exact hempty hother | exact hmode hcur

/-- Both buffers are set aside in order. -/
theorem queued_setAsideBoth (t : CommandTimeline) :
    backlogged t.setAsideBoth.commandBufBacklog = t.queued := by
  have h1 : (t.setAside .compute).queued = t.queued := by
    by_cases hc : t.commandBuffer .compute = []
    · rw [setAside_of_nil _ _ hc]
    · rw [setAside_of_ne_nil _ _ hc, CommandTimeline.queued, CommandTimeline.queued,
        backlog_commandBuffer, backlog_commandBufBacklog,
        show (t.backlog .compute).commandBuffer .dma = t.commandBuffer .dma from rfl]
      simp [backlogged]
  have hother : (t.setAside .compute).commandBuffer QueueType.dma.other = [] :=
    setAside_commandBuffer ..
  have h2 : t.setAsideBoth.queued = (t.setAside .compute).queued := by
    unfold CommandTimeline.setAsideBoth
    by_cases hd : (t.setAside .compute).commandBuffer .dma = []
    · rw [setAside_of_nil _ _ hd]
    · rw [setAside_of_ne_nil _ _ hd, queued_backlog hother]
  rw [← h1, ← h2, CommandTimeline.queued, idle_setAsideBoth t, idle_setAsideBoth t]
  simp

/-! ## Building -/

/-- The engine a call is for: an event is recorded on the engine the queue is in the mode of. -/
def ApiCall.engine (t : CommandTimeline) : ApiCall → QueueType
  | .gpuMemcpy .. => .dma
  | .recordEvent .. => t.recordType
  | _ => .compute

/-- What a call that builds commands does to a settled queue: it emits methods for its engine, and
these are what is added to the commands that wait. -/
structure Host.Emits (type : QueueType) (ms : List MethodCall) (h h' : Host) : Prop where
  emitted : h'.timeline.emitted = h.timeline.emitted ++ tagged type ms
  queued : h'.timeline.queued = h.timeline.queued ++ tagged type ms
  settled : h'.timeline.Settled
  trace : h'.trace = h.trace
  timelineSignal : h'.timeline.timelineSignal = h.timeline.timelineSignal

/-- A change of mode followed by appending for its engine. -/
theorem emits_of_select {h h' : Host} {type : QueueType} {ms : List MethodCall}
    (hs : h.timeline.Settled) (ha : (h.timeline.select type).Appends type ms h'.timeline)
    (htrace : h'.trace = h.trace) : h.Emits type ms h' := by
  obtain ⟨hmode, hother, hqueued⟩ := settled_select hs type
  refine ⟨?_, ?_, settled_of_mode (ha.currentQueueType.trans hmode)
    (ha.commandBuffer_other.trans hother), htrace,
    ha.timelineSignal.trans (select_timelineSignal ..)⟩
  · rw [ha.emitted, select_emitted]
    rfl
  · rw [queued_appends hother ha, hqueued]

/-- A launch appends to the timeline in compute mode. -/
theorem appends_launch {h h' : Host} {f : ℕ} {async : Bool} (hl : h.Launched f async h') :
    ∃ ms, ms ≠ [] ∧ (h.timeline.select .compute).Appends .compute ms h'.timeline := by
  obtain ⟨calls, qmdAddr, -, ht⟩ := hl.timeline
  rw [ht]
  refine ⟨_, ?_, (((appends_pushAll _ .compute calls).trans (appends_synchronize ..)).trans
    (appends_pushAll _ .compute _)).trans (appends_finish ..)⟩
  apply List.append_ne_nil_of_left_ne_nil
  exact List.append_ne_nil_of_right_ne_nil _ (launchCalls_ne_nil _ _)

/-- Selecting the engine an event is recorded on only sets the mode. -/
theorem select_recordType {t : CommandTimeline} (hs : t.Settled) :
    t.select t.recordType = { t with currentQueueType := some t.recordType } := by
  have hother : t.commandBuffer t.recordType.other = [] := by
    cases hmode : t.currentQueueType with
    | none => exact hs.idle_of_none hmode _
    | some type =>
      rw [CommandTimeline.recordType, hmode]
      exact hs.other_of_some type hmode
  rw [CommandTimeline.select, if_pos hother]

/-- **A call that succeeds selects its engine and appends for it.** -/
theorem appends_of_call {h h' : Host} {c : ApiCall} (hb : c.Builds) (hu : h.Usable)
    (hs : h.timeline.Settled) (hc : call c.run h = (.ok (), h')) :
    h'.trace = h.trace ∧ ∃ ms, ms ≠ [] ∧ (h.timeline.select (c.engine h.timeline)).Appends
      (c.engine h.timeline) ms h'.timeline := by
  have hsig := hu.timelineSignal
  cases c with
  | launchFunction function grid block sharedMemBytes params numParams async =>
    rcases wp_call hc (wp_launchFunction hsig function grid block sharedMemBytes params numParams
      async) with ⟨_, -, f, -, hok⟩ | ⟨_, hr, -⟩
    · exact ⟨hok.trace, appends_launch hok⟩
    · cases hr
  | gpuMemcpy dst src numBytes async =>
    rcases wp_call hc (wp_gpuMemcpy hsig dst src numBytes async) with ⟨_, -, hok⟩ | ⟨_, hr, -⟩
    · obtain ⟨dst', src', n, ht⟩ := hok.timeline
      have ha := (appends_pushAll (h.timeline.select .dma) .dma (copyCalls dst' src' n
        ⟨h.timeline.timelineSteps + 1, async⟩)).trans (appends_finish _ .dma async)
      rw [← ht] at ha
      exact ⟨hok.trace, _, List.append_ne_nil_of_left_ne_nil (copyCalls_ne_nil _ _ _ _) _, ha⟩
    · cases hr
  | recordEvent event pStream =>
    rcases wp_call hc (wp_recordEvent event pStream h) with
      ⟨_, -, hrec, e, signal, -, -, ht⟩ | ⟨_, hr, -⟩
    · have ha := appends_record h.timeline signal
      rw [← ht, ← select_recordType hs] at ha
      exact ⟨hrec.trace, _, releaseCalls_ne_nil _ _ _, ha⟩
    · cases hr
  | startExecution => exact hb.elim
  | awaitExecution => exact hb.elim

/-- A call that builds commands hands nothing over, whether it succeeds or fails. -/
theorem trace_of_builds {h h' : Host} {c : ApiCall} {r : Except Failure Unit} (hb : c.Builds)
    (hu : h.Usable) (hc : call c.run h = (r, h')) : h'.trace = h.trace := by
  have hsig := hu.timelineSignal
  cases c with
  | launchFunction function grid block sharedMemBytes params numParams async =>
    rcases wp_call hc (wp_launchFunction hsig function grid block sharedMemBytes params numParams
      async) with ⟨_, -, _, -, hok⟩ | ⟨_, -, herr⟩
    · exact hok.trace
    · exact herr.trace
  | gpuMemcpy dst src numBytes async =>
    rcases wp_call hc (wp_gpuMemcpy hsig dst src numBytes async) with ⟨_, -, hok⟩ | ⟨_, -, rfl⟩
    · exact hok.trace
    · rfl
  | recordEvent event pStream =>
    rcases wp_call hc (wp_recordEvent event pStream h) with ⟨_, -, hrec, -⟩ | ⟨_, -, hrec, -⟩
    · exact hrec.trace
    · exact hrec.trace
  | startExecution => exact hb.elim
  | awaitExecution => exact hb.elim

/-- **A call that succeeds emits for its engine only, and appends what it emits.** -/
theorem emits_of_call {h h' : Host} {c : ApiCall} (hb : c.Builds) (hu : h.Usable)
    (hs : h.timeline.Settled) (hc : call c.run h = (.ok (), h')) :
    ∃ ms, h.Emits (c.engine h.timeline) ms h' := by
  obtain ⟨htrace, ms, -, ha⟩ := appends_of_call hb hu hs hc
  exact ⟨ms, emits_of_select hs ha htrace⟩

/-- What a call emitted: the engine it was for, and the methods in order. -/
structure Emission where
  engine : QueueType
  methods : List MethodCall

/-- A sequence of calls that build commands and succeed, with what each of them emitted. -/
inductive Host.BuildsTo (h : Host) : List Emission → Host → Prop
  | nil : h.BuildsTo [] h
  | snoc {log : List Emission} {h₁ h₂ : Host} {c : ApiCall} : h.BuildsTo log h₁ → c.Builds →
      h₁.Step c (.ok ()) h₂ →
      h.BuildsTo (log ++ [⟨c.engine h₁.timeline,
        (h₂.timeline.emitted.drop h₁.timeline.emitted.length).map Prod.snd⟩]) h₂

/-- The methods of a log, each for its engine. -/
def logged (log : List Emission) : List (QueueType × MethodCall) :=
  log.flatMap fun e => tagged e.engine e.methods

/-- **What waits after building is what was emitted.** -/
theorem Host.BuildsTo.queued {h h' : Host} {log : List Emission} (hu : h.Usable)
    (hs : h.timeline.Settled) (hb : h.BuildsTo log h') :
    h'.Usable ∧ h'.timeline.Settled ∧ h'.trace = h.trace ∧
      h'.timeline.timelineSignal = h.timeline.timelineSignal ∧
      h'.timeline.queued = h.timeline.queued ++ logged log := by
  induction hb with
  | nil => exact ⟨hu, hs, rfl, rfl, (List.append_nil _).symm⟩
  | snoc hprev hbuilds hstep ih =>
    rename_i log h₁ h₂ c
    obtain ⟨hu₁, hs₁, htrace₁, hsig₁, hq₁⟩ := ih
    have hu₂ := hu₁.step hstep
    obtain ⟨values, gpGet, hc⟩ := hstep
    obtain ⟨ms, hms⟩ := emits_of_call hbuilds (hu₁.observe values gpGet) hs₁ hc
    have hdrop : (h₂.timeline.emitted.drop h₁.timeline.emitted.length).map Prod.snd = ms := by
      rw [hms.emitted]
      show ((h₁.timeline.emitted ++ _).drop h₁.timeline.emitted.length).map Prod.snd = ms
      rw [List.drop_left, tagged, List.map_map]
      exact List.map_id ms
    refine ⟨hu₂, hms.settled, hms.trace.trans htrace₁, hms.timelineSignal.trans hsig₁, ?_⟩
    rw [hms.queued, hdrop]
    show h₁.timeline.queued ++ _ = _
    rw [hq₁]
    simp only [logged, List.flatMap_append, List.flatMap_cons, List.flatMap_nil, List.append_nil,
      List.append_assoc]
    rfl

/-! ## Commencing -/

/-- What was handed to an engine at once: commands that were waiting, and words added at the end. -/
structure Segment where
  engine : QueueType
  body : List NvU32
  added : List NvU32

/-- Words for an engine. -/
def taggedWords (type : QueueType) (words : List NvU32) : List (QueueType × NvU32) :=
  words.map fun w => (type, w)

/-- The words handed over by the effects of a call. -/
def submissions (fx : List HostEffect) : List (QueueType × List NvU32) :=
  fx.filterMap fun
    | .submit type commands => some (type, commandWords commands)
    | .waitCpu .. => none

/-- The words of methods, each for its engine. -/
def wordsOf (q : List (QueueType × MethodCall)) : List (QueueType × NvU32) :=
  q.flatMap fun m => taggedWords m.1 m.2.words

theorem wordsOf_append (a b : List (QueueType × MethodCall)) :
    wordsOf (a ++ b) = wordsOf a ++ wordsOf b := List.flatMap_append

theorem wordsOf_tagged (type : QueueType) (ms : List MethodCall) :
    wordsOf (tagged type ms) = taggedWords type (commandWords ms) := by
  induction ms with
  | nil => rfl
  | cons m rest ih =>
    show taggedWords type m.words ++ wordsOf (tagged type rest) = _
    rw [ih]
    simp [taggedWords, commandWords]

theorem wordsOf_logged (log : List Emission) :
    wordsOf (logged log) =
      log.flatMap fun e => taggedWords e.engine (commandWords e.methods) := by
  induction log with
  | nil => rfl
  | cons e rest ih =>
    rw [show logged (e :: rest) = tagged e.engine e.methods ++ logged rest from rfl,
      wordsOf_append, wordsOf_tagged, ih]
    rfl

/-- The segments carry the given methods in order, and what is added to them are releases of the
timeline. -/
structure Carries (timelineSignal : NvU64) (fx : List HostEffect)
    (q : List (QueueType × MethodCall)) (segments : List Segment) : Prop where
  submissions : submissions fx = segments.map fun s => (s.engine, s.body ++ s.added)
  added : ∀ s ∈ segments, s.added = [] ∨
    ∃ target, s.added = commandWords (releaseCalls s.engine timelineSignal target)
  bodies : (segments.flatMap fun s => taggedWords s.engine s.body) = wordsOf q

theorem Carries.append {timelineSignal : NvU64} {fx gx : List HostEffect}
    {q q' : List (QueueType × MethodCall)} {a b : List Segment}
    (ha : Carries timelineSignal fx q a) (hb : Carries timelineSignal gx q' b) :
    Carries timelineSignal (fx ++ gx) (q ++ q') (a ++ b) := by
  refine ⟨?_, fun s hs => ?_, ?_⟩
  · rw [LibreCuda.submissions, List.filterMap_append, List.map_append, ← ha.submissions,
      ← hb.submissions]
    rfl
  · rcases List.mem_append.mp hs with h | h
    · exact ha.added s h
    · exact hb.added s h
  · rw [List.flatMap_append, ha.bodies, hb.bodies, wordsOf_append]

/-- A buffer that is submitted with a release of the timeline added, or without. -/
theorem carries_submitEffect (timelineSignal : NvU64) (type : QueueType)
    (buffer : List MethodCall) (notify : Bool) (target : NvU32) :
    ∃ segments, Carries timelineSignal (submitEffect type (buffer ++
      if notify then releaseCalls type timelineSignal target else [])) (tagged type buffer)
      segments := by
  by_cases hnil : (buffer ++
      if notify then releaseCalls type timelineSignal target else []) = []
  · rw [submitEffect, if_pos hnil]
    obtain ⟨rfl, -⟩ := List.append_eq_nil_iff.mp hnil
    exact ⟨[], rfl, fun _ hs => (List.not_mem_nil hs).elim, rfl⟩
  · rw [submitEffect, if_neg hnil]
    refine ⟨[⟨type, commandWords buffer, commandWords
      (if notify then releaseCalls type timelineSignal target else [])⟩], ?_, ?_, ?_⟩
    · simp [LibreCuda.submissions]
    · intro s hs
      obtain rfl := List.mem_singleton.mp hs
      cases notify with
      | true => exact Or.inr ⟨target, rfl⟩
      | false => exact Or.inl rfl
    · rw [wordsOf_tagged]
      simp

theorem carries_backlogEffects (timelineSignal : NvU64) (entries : List CommandBufSplit) :
    ∃ segments,
      Carries timelineSignal (backlogEffects timelineSignal entries) (backlogged entries)
        segments := by
  induction entries with
  | nil => exact ⟨[], rfl, fun _ hs => (List.not_mem_nil hs).elim, rfl⟩
  | cons e rest ih =>
    obtain ⟨tail, htail⟩ := ih
    obtain ⟨head, hhead⟩ := carries_submitEffect timelineSignal e.queueType e.commandBuffer
      e.timelineNotifyPending e.timelineCtr
    refine ⟨head ++ tail, ?_⟩
    have hwait : Carries timelineSignal (entryEffects timelineSignal e)
        (tagged e.queueType e.commandBuffer) head := by
      refine ⟨?_, hhead.added, hhead.bodies⟩
      rw [← hhead.submissions, entryEffects, LibreCuda.submissions, List.filterMap_append]
      exact List.append_nil _
    exact hwait.append htail

/-- **What a successful commence hands over is what was waiting**, with releases of the timeline
added at the end of segments, and nothing waits afterwards. -/
theorem carries_of_commence {h h' : Host} (hu : h.Usable) (hs : h.timeline.Settled)
    (hc : call startExecution h = (.ok (), h')) :
    (∃ fx segments, h'.trace = h.trace ++ fx ∧
      Carries h.timeline.timelineSignal fx h.timeline.queued segments) ∧
      h'.timeline.Idle ∧ h'.timeline.commandBufBacklog = [] := by
  have hsig := hu.timelineSignal
  by_cases hnil : h.timeline.commandBufBacklog = []
  · rcases wp_call hc (wp_startExecution_of_nil hsig hnil) with ⟨_, -, hok⟩ | ⟨_, hr, -⟩
    · rcases hok.submitted with ⟨type, -, hother, hadds, hidle⟩ | ⟨hmode, hadds, hbuf⟩
      · obtain ⟨segments, hseg⟩ := carries_submitEffect h.timeline.timelineSignal type
          (h.timeline.commandBuffer type) h.timeline.timelineNotifyPending h.timeline.timelineCtr
        refine ⟨⟨_, segments, hadds.trace, ?_⟩, hidle, hok.backlog⟩
        rw [queued_of_other hother, hnil]
        exact hseg
      · have hidle := hs.idle_of_none hmode
        refine ⟨⟨_, [], hadds.trace, rfl, fun _ hs => (List.not_mem_nil hs).elim, ?_⟩,
          fun type => (hbuf type).trans (hidle type), hok.backlog⟩
        rw [CommandTimeline.queued, hnil, hidle, hidle]
        rfl
    · cases hr
  · rcases wp_call hc (wp_startExecution_of_ne_nil hsig hu.waits hnil) with
      ⟨_, -, hok⟩ | ⟨_, hr, -⟩
    · obtain ⟨segments, hseg⟩ := carries_backlogEffects h.timeline.timelineSignal
        h.timeline.setAsideBoth.commandBufBacklog
      refine ⟨⟨_, segments, hok.adds.trace, ?_⟩, hok.idle, hok.backlog⟩
      rw [← queued_setAsideBoth]
      exact hseg
    · cases hr

/-- **A commence loses, duplicates and reorders nothing.** From a reachable stream with nothing
queued, whatever a sequence of successful calls emitted is handed over by a successful
`startExecution` segment by segment, word by word, in the order of the calls and each word to the
engine its call was for. The only words added are releases of the timeline at the end of a segment.
Afterwards nothing is queued again. -/
theorem startExecution_hands_over_in_order {h h' h'' : Host} {log : List Emission}
    (hr : h.Reachable) (hidle : h.timeline.Idle) (hback : h.timeline.commandBufBacklog = [])
    (hbuild : h.BuildsTo log h') (hstart : h'.Step .startExecution (.ok ()) h'') :
    (∃ segments : List Segment,
      submissions (h''.trace.drop h.trace.length) =
        segments.map (fun s => (s.engine, s.body ++ s.added)) ∧
      (∀ s ∈ segments, s.added = [] ∨ ∃ target,
        s.added = commandWords (releaseCalls s.engine h.timeline.timelineSignal target)) ∧
      segments.flatMap (fun s => taggedWords s.engine s.body) =
        log.flatMap (fun e => taggedWords e.engine (commandWords e.methods))) ∧
    h''.timeline.Idle ∧ h''.timeline.commandBufBacklog = [] := by
  obtain ⟨hu', hs', htrace', hsig', hqueued⟩ := hbuild.queued hr.usable hidle.settled
  have hempty : h.timeline.queued = [] := by
    rw [CommandTimeline.queued, hback, hidle, hidle]
    rfl
  rw [hempty, List.nil_append] at hqueued
  obtain ⟨values, gpGet, hc⟩ := hstart
  obtain ⟨⟨fx, segments, htrace, hcarries⟩, hidle'', hback''⟩ :=
    carries_of_commence (hu'.observe values gpGet) hs' hc
  refine ⟨⟨segments, ?_, ?_, ?_⟩, hidle'', hback''⟩
  · rw [htrace]
    show submissions ((h'.trace ++ fx).drop h.trace.length) = _
    rw [htrace', List.drop_left]
    exact hcarries.submissions
  · rw [← hsig']
    exact hcarries.added
  · rw [hcarries.bodies]
    show wordsOf h'.timeline.queued = _
    rw [hqueued, wordsOf_logged]

/-- What the launch and the copy of the sample session emit. -/
def sampleLog : List Emission :=
  [⟨.compute, ((sampleCall (sampleLaunch false) sampleStream).timeline.emitted.drop
      sampleStream.timeline.emitted.length).map Prod.snd⟩,
    ⟨.dma, (sampleBuilt.timeline.emitted.drop
      (sampleCall (sampleLaunch false) sampleStream).timeline.emitted.length).map Prod.snd⟩]

/-- The launch and the copy of the sample session are handed over in order. -/
theorem startExecution_hands_over_in_order_sample :
    (∃ segments : List Segment,
      submissions ((sampleCall .startExecution sampleBuilt).trace.drop sampleStream.trace.length) =
        segments.map (fun s => (s.engine, s.body ++ s.added)) ∧
      (∀ s ∈ segments, s.added = [] ∨ ∃ target, s.added =
        commandWords (releaseCalls s.engine sampleStream.timeline.timelineSignal target)) ∧
      segments.flatMap (fun s => taggedWords s.engine s.body) =
        sampleLog.flatMap (fun e => taggedWords e.engine (commandWords e.methods))) ∧
    (sampleCall .startExecution sampleBuilt).timeline.Idle ∧
      (sampleCall .startExecution sampleBuilt).timeline.commandBufBacklog = [] := by
  have hidle : sampleStream.timeline.Idle := initialized_sampleStream.ready.idle
  have hback := initialized_sampleStream.ready.backlog
  have hbuild : sampleStream.BuildsTo sampleLog sampleBuilt :=
    (Host.BuildsTo.nil.snoc (builds_sampleLaunch false) step_sampleLaunch).snoc
      (builds_sampleCopy false) step_sampleCopy
  exact startExecution_hands_over_in_order (.initialized initialized_sampleStream) hidle hback hbuild
    step_sampleStart

end LibreCuda
