import LibreCuda.Queue.Order

/-! # Batches of one engine

Launches alone, or copies alone, need no wait of the CPU: what they build is handed over by one
submission. Events may be recorded among them. But an event is recorded on the engine the queue is
in the mode of, and the first operation of a batch may change that mode only afterwards.

* **`Host.SubmitsAtOnce`**: one submission, of all commands of the batch, and no wait.
* **`single_engine_commence_iff`**: a batch of one engine is handed over so if and only if it starts
  on that engine, and the page of the engine can take its commands.
* **`leading_event_splits`**: an event recorded before the first launch, on a queue that copied
  before, splits the batch. -/

namespace LibreCuda

open Exec

/-! ## Batches -/

/-- The call is an operation of this engine, or it records an event. -/
def ApiCall.Serves (type : QueueType) : ApiCall → Prop
  | .launchFunction .. => type = .compute
  | .gpuMemcpy .. => type = .dma
  | .recordEvent .. => True
  | .startExecution => False
  | .awaitExecution => False

/-- Calls made one after another, all of which succeed. -/
inductive Host.Succeeds : Host → List ApiCall → Host → Prop
  | nil {h : Host} : h.Succeeds [] h
  | cons {h h₁ h' : Host} {c : ApiCall} {calls : List ApiCall} :
      h.Step c (.ok ()) h₁ → h₁.Succeeds calls h' → h.Succeeds (c :: calls) h'

/-- A batch of one engine: at least one operation, and otherwise only operations of this engine and
recordings of events. -/
structure ForEngine (type : QueueType) (calls : List ApiCall) : Prop where
  serves : ∀ c ∈ calls, c.Serves type
  operation : ∃ c ∈ calls, c.isOperation = true

/-- The commands emitted from one state to another. -/
def emittedBetween (h h' : Host) : List MethodCall :=
  (h'.timeline.emitted.drop h.timeline.emitted.length).map Prod.snd

/-- One submission, to this engine, of these commands, with at most a release of the timeline behind
them, and no wait of the CPU. -/
def Host.SubmitsAtOnce (type : QueueType) (commands : List MethodCall) (h h' : Host) : Prop :=
  ∃ added, (added = [] ∨ ∃ target, added = releaseCalls type h.timeline.timelineSignal target) ∧
    h'.trace = h.trace ++ [.submit type (commands ++ added)]

/-- The batch starts on the engine: its first call is an operation, or an event would be recorded on
that engine anyway. -/
def StartsOn (type : QueueType) (h : Host) (calls : List ApiCall) : Prop :=
  h.timeline.recordType = type ∨ ∃ c rest, calls = c :: rest ∧ c.isOperation = true

theorem ApiCall.Serves.builds {type : QueueType} {c : ApiCall} (hc : c.Serves type) :
    c.Builds := by
  cases c with
  | launchFunction => trivial
  | gpuMemcpy => trivial
  | recordEvent => trivial
  | startExecution => exact hc
  | awaitExecution => exact hc

/-- An operation is for its engine. -/
theorem ApiCall.Serves.engine_of_operation {type : QueueType} {c : ApiCall} (hc : c.Serves type)
    (hop : c.isOperation = true) (t : CommandTimeline) : c.engine t = type := by
  cases c with
  | launchFunction => exact hc.symm
  | gpuMemcpy => exact hc.symm
  | recordEvent => cases hop
  | startExecution => cases hop
  | awaitExecution => cases hop

/-- Any other call of a batch is for the engine of the mode. -/
theorem ApiCall.Serves.engine_of_not_operation {type : QueueType} {c : ApiCall}
    (hc : c.Serves type) (hop : c.isOperation = false) (t : CommandTimeline) :
    c.engine t = t.recordType := by
  cases c with
  | launchFunction => cases hop
  | gpuMemcpy => cases hop
  | recordEvent => rfl
  | startExecution => exact hc.elim
  | awaitExecution => exact hc.elim

theorem recordType_of_mode {t : CommandTimeline} {type : QueueType}
    (hmode : t.currentQueueType = some type) : t.recordType = type := by
  rw [CommandTimeline.recordType, hmode]
  rfl

/-! ## Batches that stay together -/

variable {h h₁ h' : Host} {type : QueueType} {c : ApiCall} {calls : List ApiCall}

theorem Host.Succeeds.usable (hbatch : h.Succeeds calls h') (hu : h.Usable) : h'.Usable := by
  induction hbatch with
  | nil => exact hu
  | cons hstep _ ih => exact ih (hu.step hstep)

/-- **What a call of a batch does**: the queue changes to the mode of its engine, and commands are
appended. -/
theorem Host.Step.appends (hu : h.Usable) (hs : h.timeline.Settled) (hb : c.Builds)
    (hstep : h.Step c (.ok ()) h₁) :
    h₁.Usable ∧ h₁.timeline.Settled ∧
      h₁.timeline.currentQueueType = some (c.engine h.timeline) ∧
      ∃ ms, ms ≠ [] ∧ (h.timeline.select (c.engine h.timeline)).Appends (c.engine h.timeline) ms
        h₁.timeline := by
  have hu₁ := hu.step hstep
  obtain ⟨values, gpGet, hc⟩ := hstep
  obtain ⟨-, ms, hne, ha⟩ := appends_of_call hb (hu.observe values gpGet) hs hc
  obtain ⟨hmode, hother, -⟩ := settled_select hs (c.engine h.timeline)
  have hmode₁ := ha.currentQueueType.trans hmode
  exact ⟨hu₁, settled_of_mode hmode₁ (ha.commandBuffer_other.trans hother), hmode₁, ms, hne, ha⟩

/-- Everything that waits is in the buffer of the engine. -/
structure CommandTimeline.Gathers (type : QueueType) (t : CommandTimeline) : Prop where
  other : t.commandBuffer type.other = []
  backlog : t.commandBufBacklog = []

/-- The same commands were emitted and added to the buffer of the engine. -/
structure CommandTimeline.Adds (type : QueueType) (ms : List MethodCall)
    (t t' : CommandTimeline) : Prop where
  emitted : t'.emitted = t.emitted ++ tagged type ms
  commandBuffer : t'.commandBuffer type = t.commandBuffer type ++ ms

theorem CommandTimeline.Adds.trans {t t' t'' : CommandTimeline} {a b : List MethodCall}
    (ha : t.Adds type a t') (hb : t'.Adds type b t'') : t.Adds type (a ++ b) t'' := by
  refine ⟨?_, ?_⟩
  · rw [hb.emitted, ha.emitted, tagged_append, List.append_assoc]
  · rw [hb.commandBuffer, ha.commandBuffer, List.append_assoc]

/-- A call for the engine keeps everything there. -/
theorem Host.Step.gathers (hu : h.Usable) (hs : h.timeline.Settled) (hg : h.timeline.Gathers type)
    (hb : c.Builds) (hengine : c.engine h.timeline = type) (hstep : h.Step c (.ok ()) h₁) :
    h₁.timeline.Gathers type ∧ ∃ ms, ms ≠ [] ∧ h.timeline.Adds type ms h₁.timeline := by
  obtain ⟨-, -, -, ms, hne, ha⟩ := hstep.appends hu hs hb
  rw [hengine, CommandTimeline.select, if_pos hg.other] at ha
  refine ⟨⟨?_, ha.commandBufBacklog.trans hg.backlog⟩, ms, hne, ha.emitted, ?_⟩
  · rw [ha.commandBuffer_other]
    cases type <;> exact hg.other
  · rw [ha.commandBuffer]
    cases type <;> rfl

/-- **A batch stays together** on a queue that is in the mode of its engine. -/
theorem Host.Succeeds.gathers (hbatch : h.Succeeds calls h') (hu : h.Usable)
    (hs : h.timeline.Settled) (hg : h.timeline.Gathers type)
    (hmode : h.timeline.currentQueueType = some type) (hserves : ∀ c ∈ calls, c.Serves type) :
    h'.Usable ∧ h'.timeline.Gathers type ∧ h'.timeline.currentQueueType = some type ∧
      ∃ ms, h.timeline.Adds type ms h'.timeline := by
  induction hbatch with
  | nil => exact ⟨hu, hg, hmode, [], (List.append_nil _).symm, (List.append_nil _).symm⟩
  | @cons h h₁ h' c calls hstep _ ih =>
    have hc := hserves c List.mem_cons_self
    -- operations and events alike are for the engine of the mode
    have hengine : c.engine h.timeline = type := by
      cases hop : c.isOperation with
      | true => exact hc.engine_of_operation hop _
      | false => exact (hc.engine_of_not_operation hop _).trans (recordType_of_mode hmode)
    obtain ⟨hu₁, hs₁, hmode₁, -⟩ := hstep.appends hu hs hc.builds
    rw [hengine] at hmode₁
    obtain ⟨hg₁, ms, -, hadds₁⟩ := hstep.gathers hu hs hg hc.builds hengine
    obtain ⟨hu', hg', hmode', rest, hadds'⟩ := ih hu₁ hs₁ hg₁ hmode₁ fun c hmem =>
      hserves c (List.mem_cons_of_mem _ hmem)
    exact ⟨hu', hg', hmode', ms ++ rest, hadds₁.trans hadds'⟩

/-- **A batch that starts on its engine** waits in the buffer of that engine, and nothing else
does. -/
theorem Host.Succeeds.together (hbatch : h.Succeeds calls h') (hu : h.Usable)
    (hidle : h.timeline.Idle) (hback : h.timeline.commandBufBacklog = [])
    (hengine : ForEngine type calls) (hstarts : StartsOn type h calls) :
    h'.Usable ∧ h'.timeline.Gathers type ∧ h'.timeline.currentQueueType = some type ∧
      h'.timeline.commandBuffer type = emittedBetween h h' ∧
      h'.timeline.commandBuffer type ≠ [] := by
  cases hbatch with
  | nil =>
    obtain ⟨c, hmem, -⟩ := hengine.operation
    cases hmem
  | @cons _ h₁ _ c rest hstep hrest =>
    have hc := hengine.serves c List.mem_cons_self
    have hfirst : c.engine h.timeline = type := by
      cases hop : c.isOperation with
      | true => exact hc.engine_of_operation hop _
      | false =>
        rcases hstarts with hrecord | ⟨c', rest', heq, hop'⟩
        · exact (hc.engine_of_not_operation hop _).trans hrecord
        · obtain ⟨rfl, -⟩ := List.cons.inj heq
          rw [hop] at hop'
          cases hop'
    obtain ⟨hu₁, hs₁, hmode₁, -⟩ := hstep.appends hu hidle.settled hc.builds
    rw [hfirst] at hmode₁
    obtain ⟨hg₁, ms, hne, hadds₁⟩ :=
      hstep.gathers hu hidle.settled ⟨hidle _, hback⟩ hc.builds hfirst
    obtain ⟨hu', hg', hmode', more, hadds'⟩ := hrest.gathers hu₁ hs₁ hg₁ hmode₁ fun c hmem =>
      hengine.serves c (List.mem_cons_of_mem _ hmem)
    have hadds := hadds₁.trans hadds'
    have hbuf : h'.timeline.commandBuffer type = ms ++ more := by
      rw [hadds.commandBuffer, hidle, List.nil_append]
    refine ⟨hu', hg', hmode', ?_, ?_⟩
    · rw [hbuf, emittedBetween, hadds.emitted, List.drop_left, tagged, List.map_map]
      exact (List.map_id _).symm
    · rw [hbuf]
      exact List.append_ne_nil_of_left_ne_nil hne _

/-! ## Batches that split -/

/-- Building never empties the backlog. -/
theorem Host.Succeeds.backlog_ne_nil (hbatch : h.Succeeds calls h') (hu : h.Usable)
    (hs : h.timeline.Settled) (hback : h.timeline.commandBufBacklog ≠ [])
    (hserves : ∀ c ∈ calls, c.Serves type) : h'.timeline.commandBufBacklog ≠ [] := by
  induction hbatch with
  | nil => exact hback
  | @cons h h₁ h' c calls hstep _ ih =>
    have hc := hserves c List.mem_cons_self
    obtain ⟨hu₁, hs₁, -, ms, -, ha⟩ := hstep.appends hu hs hc.builds
    refine ih hu₁ hs₁ ?_ fun c hmem => hserves c (List.mem_cons_of_mem _ hmem)
    rw [ha.commandBufBacklog, CommandTimeline.select]
    split_ifs
    · exact hback
    · show (h.timeline.backlog _).commandBufBacklog ≠ []
      rw [backlog_commandBufBacklog]
      exact List.append_ne_nil_of_left_ne_nil hback _
    · exact hback

/-- **A batch splits** if commands for the other engine are in front of its first operation. -/
theorem Host.Succeeds.splits (hbatch : h.Succeeds calls h') (hu : h.Usable)
    (hs : h.timeline.Settled) (hmode : h.timeline.currentQueueType = some type.other)
    (hbuf : h.timeline.commandBuffer type.other ≠ []) (hengine : ForEngine type calls) :
    h'.timeline.commandBufBacklog ≠ [] := by
  induction hbatch with
  | nil =>
    obtain ⟨c, hmem, -⟩ := hengine.operation
    cases hmem
  | @cons h h₁ h' c calls hstep hrest ih =>
    have hc := hengine.serves c List.mem_cons_self
    have hserves : ∀ c ∈ calls, c.Serves type := fun c hmem =>
      hengine.serves c (List.mem_cons_of_mem _ hmem)
    obtain ⟨hu₁, hs₁, hmode₁, ms, -, ha⟩ := hstep.appends hu hs hc.builds
    cases hop : c.isOperation with
    | true =>
      -- the operation sets the other buffer aside
      rw [hc.engine_of_operation hop, CommandTimeline.select, if_neg hbuf, if_pos hmode] at ha
      refine hrest.backlog_ne_nil hu₁ hs₁ ?_ hserves
      rw [ha.commandBufBacklog]
      show (h.timeline.backlog _).commandBufBacklog ≠ []
      rw [backlog_commandBufBacklog]
      exact List.append_ne_nil_of_right_ne_nil _ (List.cons_ne_nil _ _)
    | false =>
      -- another event, on the other engine as well
      have hother : c.engine h.timeline = type.other :=
        (hc.engine_of_not_operation hop _).trans (recordType_of_mode hmode)
      rw [hother] at hmode₁ ha
      refine ih hu₁ hs₁ hmode₁ ?_ ⟨hserves, ?_⟩
      · have hempty : h.timeline.commandBuffer type.other.other = [] := hs.other_of_some _ hmode
        rw [ha.commandBuffer, CommandTimeline.select, if_pos hempty]
        refine List.append_ne_nil_of_left_ne_nil ?_ _
        cases type <;> exact hbuf
      · obtain ⟨c', hmem, hop'⟩ := hengine.operation
        rcases List.mem_cons.mp hmem with rfl | hmem
        · rw [hop] at hop'
          cases hop'
        · exact ⟨c', hmem, hop'⟩

/-- **A batch that does not start on its engine** leaves a segment in the backlog. -/
theorem Host.Succeeds.apart (hbatch : h.Succeeds calls h') (hu : h.Usable)
    (hidle : h.timeline.Idle) (hengine : ForEngine type calls)
    (hstarts : ¬ StartsOn type h calls) : h'.timeline.commandBufBacklog ≠ [] := by
  simp only [StartsOn, not_or, not_exists, not_and, Bool.not_eq_true] at hstarts
  obtain ⟨hrecord, hevent⟩ := hstarts
  cases hbatch with
  | nil =>
    obtain ⟨c, hmem, -⟩ := hengine.operation
    cases hmem
  | @cons _ h₁ _ c rest hstep hrest =>
    have hc := hengine.serves c List.mem_cons_self
    have hop := hevent c rest rfl
    have hother : c.engine h.timeline = type.other := by
      rw [hc.engine_of_not_operation hop]
      cases type <;> cases hmode : h.timeline.recordType <;> first | rfl | exact absurd hmode hrecord
    obtain ⟨hu₁, hs₁, hmode₁, ms, hne, ha⟩ := hstep.appends hu hidle.settled hc.builds
    rw [hother] at hmode₁ ha
    refine hrest.splits hu₁ hs₁ hmode₁ ?_ ⟨fun c hmem =>
      hengine.serves c (List.mem_cons_of_mem _ hmem), ?_⟩
    · rw [ha.commandBuffer]
      exact List.append_ne_nil_of_right_ne_nil _ hne
    · obtain ⟨c', hmem, hop'⟩ := hengine.operation
      rcases List.mem_cons.mp hmem with rfl | hmem
      · rw [hop] at hop'
        cases hop'
      · exact ⟨c', hmem, hop'⟩

/-! ## Commencing a batch -/

/-- The effects of a loop over segments are never one submission. -/
theorem backlogEffects_ne_submit (timelineSignal : NvU64) (entries : List CommandBufSplit)
    (commands : List MethodCall) :
    backlogEffects timelineSignal entries ≠ [.submit type commands] := by
  intro heq
  cases entries with
  | nil => cases heq
  | cons e rest =>
    have hwait : HostEffect.waitCpu timelineSignal e.timelineCtr ∈
        backlogEffects timelineSignal (e :: rest) := by
      rw [backlogEffects, List.flatMap_cons, entryEffects]
      simp
    rw [heq, List.mem_singleton] at hwait
    cases hwait

/-- A commence of segments is not one of a batch at once, whether it succeeds or fails. -/
theorem not_submitsAtOnce_of_backlog {r : Except Failure Unit} (hu : h.Usable)
    (hback : h.timeline.commandBufBacklog ≠ []) (hc : call startExecution h = (r, h'))
    (commands : List MethodCall) : ¬ h.SubmitsAtOnce type commands h' := by
  obtain ⟨entries, htrace⟩ : ∃ entries, h'.trace = h.trace ++
      backlogEffects h.timeline.timelineSignal entries := by
    rcases wp_call hc (wp_startExecution_of_ne_nil hu.timelineSignal hu.waits hback) with
      ⟨_, -, hok⟩ | ⟨_, -, herr⟩
    · exact ⟨_, hok.adds.trace⟩
    · obtain ⟨pre, e, post, -, hadds, -⟩ := herr.stopped
      exact ⟨pre, hadds.trace⟩
  rintro ⟨added, -, hsubmit⟩
  exact backlogEffects_ne_submit _ _ _ (List.append_cancel_left (htrace.symm.trans hsubmit))

/-- A commence of one buffer hands it over at once if and only if the page can take it. -/
theorem submitsAtOnce_iff {r : Except Failure Unit} (hu : h.Usable)
    (hg : h.timeline.Gathers type) (hmode : h.timeline.currentQueueType = some type)
    (hne : h.timeline.commandBuffer type ≠ []) (hc : call startExecution h = (r, h')) :
    h.SubmitsAtOnce type (h.timeline.commandBuffer type) h' ↔ h.MayCommence type := by
  have hstart := wp_and (wp_startExecution_of_nil hu.timelineSignal hg.backlog)
    (wp_startExecution_mayCommence hu.timelineSignal hg.backlog hmode hg.other)
  rcases wp_call hc hstart with ⟨_, -, hok, hmay⟩ | ⟨_, -, herr, hfull⟩
  · refine iff_of_true ?_ hmay
    rcases hok.submitted with ⟨type', hmode', -, hadds, -⟩ | ⟨hnone, -⟩
    · obtain rfl : type = type' := Option.some.inj (hmode.symm.trans hmode')
      refine ⟨if h.timeline.timelineNotifyPending then
        releaseCalls type h.timeline.timelineSignal h.timeline.timelineCtr else [], ?_, ?_⟩
      · split
        · exact Or.inr ⟨_, rfl⟩
        · exact Or.inl rfl
      · have hcurrent : h.timeline.current type ≠ [] :=
          List.append_ne_nil_of_left_ne_nil hne _
        rw [hadds.trace, submitEffect, if_neg hcurrent, CommandTimeline.current]
    · rw [hmode] at hnone
      cases hnone
  · refine iff_of_false ?_ hfull
    have htrace : h'.trace = h.trace := by
      rcases herr with rfl | ⟨_, -, -, hadds, -⟩
      · rfl
      · rw [hadds.trace, List.append_nil]
    rintro ⟨added, -, hsubmit⟩
    have hlength := congrArg List.length (htrace.symm.trans hsubmit)
    simp at hlength

/-- **Which batches of one engine are commenced at once.** On a reachable queue with nothing
waiting, after any successful calls of which at least one is an operation of the engine, and the
others are operations of that engine and recordings of events, `startExecution` makes one submission
of all their commands to the engine, and no wait, if and only if the batch starts on that engine and
the page of the engine can take the commands. -/
theorem single_engine_commence_iff {h'' : Host} {r : Except Failure Unit} {values : NvU64 → NvU64}
    {gpGet : NvU32 × NvU32} (hr : h.Reachable) (hidle : h.timeline.Idle)
    (hback : h.timeline.commandBufBacklog = []) (hengine : ForEngine type calls)
    (hbatch : h.Succeeds calls h')
    (hc : call startExecution (h'.observe values gpGet) = (r, h'')) :
    h'.SubmitsAtOnce type (emittedBetween h h') h'' ↔
      StartsOn type h calls ∧ (h'.observe values gpGet).MayCommence type := by
  by_cases hstarts : StartsOn type h calls
  · obtain ⟨hu', hg, hmode, hbuf, hne⟩ :=
      hbatch.together hr.usable hidle hback hengine hstarts
    have hcommence := submitsAtOnce_iff (hu'.observe values gpGet) hg hmode hne hc
    rw [← hbuf, and_iff_right hstarts]
    exact hcommence
  · refine iff_of_false ?_ fun h => hstarts h.1
    have hsplit := hbatch.apart hr.usable hidle hengine hstarts
    exact not_submitsAtOnce_of_backlog ((hbatch.usable hr.usable).observe values gpGet) hsplit hc _

/-! ## Batches on the sample stream -/

theorem succeeds_sampleCall {c : ApiCall} {h : Host} {calls : List ApiCall} {h' : Host}
    (hok : (call c.run (h.observe (fun _ => 2) (0, 0))).1 = .ok ())
    (hrest : (sampleCall c h).Succeeds calls h') : h.Succeeds (c :: calls) h' :=
  .cons (step_sampleCall hok) hrest

/-- Record an event. -/
def sampleRecord : ApiCall := .recordEvent (some 0) 0

/-- A batch of a recording and a launch. -/
theorem forEngine_sampleRecord_sampleLaunch :
    ForEngine .compute [sampleRecord, sampleLaunch false] := by
  refine ⟨fun c hc => ?_, sampleLaunch false, by simp, rfl⟩
  simp only [List.mem_cons, List.not_mem_nil, or_false] at hc
  rcases hc with rfl | rfl
  · trivial
  · rfl

/-- On a stream nothing was copied on, the batch is commenced at once. -/
theorem single_engine_commence_iff_sample :
    (sampleCall (sampleLaunch false) (sampleCall sampleRecord sampleStream)).SubmitsAtOnce .compute
      (emittedBetween sampleStream
        (sampleCall (sampleLaunch false) (sampleCall sampleRecord sampleStream)))
      (sampleCall .startExecution
        (sampleCall (sampleLaunch false) (sampleCall sampleRecord sampleStream))) := by
  have hready := initialized_sampleStream.ready
  have hbatch : sampleStream.Succeeds [sampleRecord, sampleLaunch false]
      (sampleCall (sampleLaunch false) (sampleCall sampleRecord sampleStream)) :=
    succeeds_sampleCall (by rfl) (succeeds_sampleCall (by rfl) .nil)
  refine (single_engine_commence_iff (.initialized initialized_sampleStream) hready.idle
    hready.backlog forEngine_sampleRecord_sampleLaunch hbatch (Prod.ext rfl rfl)).mpr ⟨?_, ?_⟩
  · exact Or.inl (by rfl)
  · exact Or.inr (by decide +kernel)

/-- A stream on which a copy was commenced. -/
def sampleCopied : Host := sampleCall .startExecution (sampleCall (sampleCopy false) sampleStream)

/-- **Split**: the event goes to the copy engine, behind which the launch has to wait. -/
theorem leading_event_splits : ∃ (h h' h'' : Host) (calls : List ApiCall),
    h.Reachable ∧ h.timeline.Idle ∧ h.timeline.commandBufBacklog = [] ∧
      ForEngine .compute calls ∧ h.Succeeds calls h' ∧ h'.Step .startExecution (.ok ()) h'' ∧
      ¬ h'.SubmitsAtOnce .compute (emittedBetween h h') h'' := by
  have hreach : sampleCopied.Reachable :=
    .step (.step (.initialized initialized_sampleStream) (step_sampleCall (c := sampleCopy false)
      (by rfl))) (step_sampleCall (c := .startExecution) (by rfl))
  have hbatch : sampleCopied.Succeeds [sampleRecord, sampleLaunch false]
      (sampleCall (sampleLaunch false) (sampleCall sampleRecord sampleCopied)) :=
    succeeds_sampleCall (by rfl) (succeeds_sampleCall (by rfl) .nil)
  have hstart := step_sampleCall (c := .startExecution)
    (h := sampleCall (sampleLaunch false) (sampleCall sampleRecord sampleCopied)) (by rfl)
  have hidle : sampleCopied.timeline.Idle := fun type => by cases type <;> rfl
  have hmode : sampleCopied.timeline.recordType = .dma := by rfl
  have hstarts : ¬ StartsOn .compute sampleCopied [sampleRecord, sampleLaunch false] := by
    rintro (hrecord | ⟨c, rest, heq, hop⟩)
    · rw [hmode] at hrecord
      cases hrecord
    · obtain ⟨rfl, -⟩ := List.cons.inj heq
      cases hop
  refine ⟨_, _, _, _, hreach, hidle, by rfl, forEngine_sampleRecord_sampleLaunch, hbatch, hstart, ?_⟩
  obtain ⟨values, gpGet, hc⟩ := hstart
  exact not_submitsAtOnce_of_backlog ((hbatch.usable hreach.usable).observe values gpGet)
    (hbatch.apart hreach.usable hidle forEngine_sampleRecord_sampleLaunch hstarts) hc _

end LibreCuda
