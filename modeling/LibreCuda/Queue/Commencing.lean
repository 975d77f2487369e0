import LibreCuda.Queue.Calls

/-! # What commencing does to a stream

`submitToFifo`, the waits of the CPU, the loop over the backlog, `startExecution` and
`awaitExecution`: the effects they add to the trace, and what they leave of the timeline. None of
them touches events, operations or the signals in memory (`Host.Kept`).

* **`wp_startExecution`**: without a backlog, one submission, or a refusal that leaves the release
  in the buffer; with a backlog, a submission and a wait for each segment, or a refusal that leaves
  the refused segment in its buffer and the whole backlog in place. -/

namespace LibreCuda

open Channels Exec

/-- What commencing and waiting leave alone. -/
structure Host.Kept (h h' : Host) : Prop extends Host.SameEvents h h' where
  signals : h'.signals = h.signals
  signalPool : h'.queue.signalPool = h.queue.signalPool
  kernArgsPageVa : h'.queue.kernArgsPageVa = h.queue.kernArgsPageVa
  operations : h'.operations = h.operations

theorem Host.Kept.refl (h : Host) : h.Kept h := ⟨⟨rfl, rfl⟩, rfl, rfl, rfl, rfl⟩

theorem Host.Kept.trans {h h' h'' : Host} (a : h.Kept h') (b : h'.Kept h'') : h.Kept h'' :=
  ⟨a.toSameEvents.trans b.toSameEvents, b.signals.trans a.signals,
    b.signalPool.trans a.signalPool, b.kernArgsPageVa.trans a.kernArgsPageVa,
    b.operations.trans a.operations⟩

theorem kept_setTimeline (h : Host) (t : CommandTimeline) : h.Kept (h.setTimeline t) :=
  ⟨⟨rfl, rfl⟩, rfl, rfl, rfl, rfl⟩

/-- The scheduling flags let the CPU wait: it spins or yields. -/
def Waits (flags : NvU32) : Prop :=
  flags &&& cuCtxSchedSpin ≠ 0 ∨ flags &&& cuCtxSchedYield ≠ 0

instance (flags : NvU32) : Decidable (Waits flags) := inferInstanceAs (Decidable (_ ∨ _))

theorem or_spin_and_spin (flags : NvU32) : (flags ||| cuCtxSchedSpin) &&& cuCtxSchedSpin ≠ 0 := by
  intro h
  have hbit := congrArg (fun x : NvU32 => x.getLsbD 0) h
  simp [cuCtxSchedSpin] at hbit

/-- Flags that let the CPU wait are not changed by a wait. -/
theorem schedFlags_of_waits {flags : NvU32} (h : Waits flags) : schedFlags flags = flags := by
  unfold schedFlags
  rw [if_neg]
  rintro ⟨hspin, hyield, -⟩
  exact h.elim (· hspin) (· hyield)

/-- Flags that do not let the CPU wait ask for a blocking wait. -/
theorem blocking_of_not_waits {flags : NvU32} (h : ¬ Waits (schedFlags flags)) :
    schedFlags flags &&& cuCtxSchedBlockingSync ≠ 0 := by
  unfold schedFlags at h ⊢
  split
  · rename_i hnone
    rw [if_pos hnone] at h
    exact absurd (Or.inl (or_spin_and_spin flags)) h
  · rename_i hsome
    rw [if_neg hsome] at h
    intro hblock
    simp only [Waits, not_or, not_not] at h
    exact hsome ⟨h.1, h.2, hblock⟩

/-! ## Submissions and waits -/

/-- The effect of submitting a buffer; an empty one is not submitted. -/
def submitEffect (type : QueueType) (buffer : List MethodCall) : List HostEffect :=
  if buffer = [] then [] else [.submit type buffer]

/-- A step that added effects to the trace and changed nothing else but the timeline. -/
structure Host.Adds (fx : List HostEffect) (h h' : Host) : Prop
    extends Host.Kept h h', Host.SameArgs h h' where
  flags : h'.ctx.flags = h.ctx.flags
  trace : h'.trace = h.trace ++ fx

theorem Host.Adds.refl (h : Host) : h.Adds [] h :=
  ⟨Host.Kept.refl h, ⟨rfl, rfl⟩, rfl, (List.append_nil _).symm⟩

theorem Host.Adds.trans {h h' h'' : Host} {fx gx : List HostEffect} (a : h.Adds fx h')
    (b : h'.Adds gx h'') : h.Adds (fx ++ gx) h'' :=
  ⟨a.toKept.trans b.toKept, a.toSameArgs.trans b.toSameArgs, b.flags.trans a.flags,
    by rw [b.trace, a.trace, List.append_assoc]⟩

theorem adds_setTimeline (h : Host) (t : CommandTimeline) : h.Adds [] (h.setTimeline t) :=
  ⟨kept_setTimeline h t, ⟨rfl, rfl⟩, rfl, (List.append_nil _).symm⟩

theorem adds_submitted (type : QueueType) (h : Host) :
    h.Adds [.submit type (h.timeline.commandBuffer type)] (h.submitted type) := by
  cases type <;> exact ⟨⟨⟨rfl, rfl⟩, rfl, rfl, rfl, rfl⟩, ⟨rfl, rfl⟩, rfl, rfl⟩

/-- The engine's buffer is handed over, or refused with nothing changed. -/
theorem wp_submitToFifo (type : QueueType) (h : Host) :
    wp (submitToFifo type)
      (fun _ h' => h.Adds (submitEffect type (h.timeline.commandBuffer type)) h' ∧
        h'.timeline = h.timeline.setCommandBuffer [] type)
      (fun _ h' => h' = h) h := by
  rw [submitToFifo, wp_bind, wp_get, wp_onlyIf]
  by_cases hempty : h.timeline.commandBuffer type = []
  · rw [hempty]
    refine ⟨Host.Adds.refl h, ?_⟩
    rw [← hempty, setCommandBuffer_commandBuffer]
  · rw [if_pos (by simpa using hempty), wp_bind, wp_validate, submitEffect, if_neg hempty]
    split
    · rw [wp_set]
      exact ⟨adds_submitted type h, rfl⟩
    · rfl

/-- A wait of the CPU returns, or throws under flags that do not let it wait. -/
theorem wp_signalWaitCpu {pSignal : NvU64} (hsig : pSignal ≠ 0) (signalTarget : NvU32) (h : Host) :
    wp (signalWaitCpu pSignal signalTarget)
      (fun _ h' => h.Kept h' ∧ h.SameArgs h' ∧ h'.timeline = h.timeline ∧
        h'.ctx.flags = schedFlags h.ctx.flags ∧ Waits h'.ctx.flags ∧
        h'.trace = h.trace ++ [.waitCpu pSignal signalTarget])
      (fun _ _ => ¬ Waits (schedFlags h.ctx.flags)) h := by
  rw [signalWaitCpu, wp_bind, wp_validate, if_pos (by simpa using hsig), wp_bind, wp_modify,
    wp_bind, wp_get]
  split
  · rename_i hwaits
    rw [wp_set]
    exact ⟨⟨⟨rfl, rfl⟩, rfl, rfl, rfl, rfl⟩, ⟨rfl, rfl⟩, rfl, rfl, hwaits, rfl⟩
  · rename_i hwaits
    rw [if_pos (blocking_of_not_waits hwaits), wp_throw]
    exact hwaits

/-- Under flags that let the CPU wait, a wait returns. -/
theorem wp_signalWaitCpu_of_waits {pSignal : NvU64} (hsig : pSignal ≠ 0) (signalTarget : NvU32)
    {h : Host} (hw : Waits h.ctx.flags) :
    wp (signalWaitCpu pSignal signalTarget)
      (fun _ h' => h.Adds [.waitCpu pSignal signalTarget] h' ∧ h'.timeline = h.timeline)
      (fun _ _ => False) h := by
  refine wp_mono (wp_signalWaitCpu hsig signalTarget h) (fun _ h' hok => ?_) (fun _ _ herr => ?_)
  · obtain ⟨hkept, hargs, ht, hflags, -, htrace⟩ := hok
    exact ⟨⟨hkept, hargs, hflags.trans (schedFlags_of_waits hw), htrace⟩, ht⟩
  · rw [schedFlags_of_waits hw] at herr
    exact herr hw

/-! ## The loop over the backlog -/

/-- The commands a segment is submitted with: those set aside, and the release they lack. -/
def CommandBufSplit.commands (e : CommandBufSplit) (timelineSignal : NvU64) : List MethodCall :=
  e.commandBuffer ++
    if e.timelineNotifyPending then releaseCalls e.queueType timelineSignal e.timelineCtr else []

/-- The timeline with a segment back in its buffer. -/
def CommandTimeline.load (t : CommandTimeline) (e : CommandBufSplit) : CommandTimeline :=
  (t.setCommandBuffer e.commandBuffer e.queueType).pushAll e.queueType
    (if e.timelineNotifyPending then releaseCalls e.queueType t.timelineSignal e.timelineCtr else [])

@[simp] theorem load_commandBuffer (t : CommandTimeline) (e : CommandBufSplit) :
    (t.load e).commandBuffer e.queueType = e.commands t.timelineSignal := by
  simp [CommandTimeline.load, CommandBufSplit.commands]

@[simp] theorem load_commandBuffer_other (t : CommandTimeline) (e : CommandBufSplit) :
    (t.load e).commandBuffer e.queueType.other = t.commandBuffer e.queueType.other := by
  simp [CommandTimeline.load]

/-- Two timelines with the same signal, targets and mode. -/
structure CommandTimeline.SameTargets (t t' : CommandTimeline) : Prop where
  timelineSignal : t'.timelineSignal = t.timelineSignal
  timelineCtr : t'.timelineCtr = t.timelineCtr
  currentQueueType : t'.currentQueueType = t.currentQueueType
  timelineSteps : t'.timelineSteps = t.timelineSteps

/-- Two timelines that differ in their buffers only. -/
structure CommandTimeline.SameCounts (t t' : CommandTimeline) : Prop
    extends CommandTimeline.SameTargets t t' where
  timelineNotifyPending : t'.timelineNotifyPending = t.timelineNotifyPending
  commandBufBacklog : t'.commandBufBacklog = t.commandBufBacklog

theorem CommandTimeline.SameTargets.trans {t t' t'' : CommandTimeline} (a : t.SameTargets t')
    (b : t'.SameTargets t'') : t.SameTargets t'' :=
  ⟨b.timelineSignal.trans a.timelineSignal, b.timelineCtr.trans a.timelineCtr,
    b.currentQueueType.trans a.currentQueueType, b.timelineSteps.trans a.timelineSteps⟩

theorem CommandTimeline.SameCounts.refl (t : CommandTimeline) : t.SameCounts t :=
  ⟨⟨rfl, rfl, rfl, rfl⟩, rfl, rfl⟩

theorem CommandTimeline.SameCounts.trans {t t' t'' : CommandTimeline} (a : t.SameCounts t')
    (b : t'.SameCounts t'') : t.SameCounts t'' :=
  ⟨a.toSameTargets.trans b.toSameTargets,
    b.timelineNotifyPending.trans a.timelineNotifyPending,
    b.commandBufBacklog.trans a.commandBufBacklog⟩

theorem sameCounts_load (t : CommandTimeline) (e : CommandBufSplit) : t.SameCounts (t.load e) := by
  refine ⟨⟨?_, ?_, ?_, ?_⟩, ?_, ?_⟩ <;> simp [CommandTimeline.load]

theorem sameCounts_setCommandBuffer (t : CommandTimeline) (buffer : List MethodCall)
    (type : QueueType) : t.SameCounts (t.setCommandBuffer buffer type) := by
  refine ⟨⟨?_, ?_, ?_, ?_⟩, ?_, ?_⟩ <;> simp

/-- The effects of one round of the loop. -/
def entryEffects (timelineSignal : NvU64) (e : CommandBufSplit) : List HostEffect :=
  submitEffect e.queueType (e.commands timelineSignal) ++ [.waitCpu timelineSignal e.timelineCtr]

/-- One round of the loop submits the segment and waits for it, or leaves it in its buffer. -/
theorem wp_commenceEntry {h : Host} (hsig : h.timeline.timelineSignal ≠ 0)
    (hw : Waits h.ctx.flags) (e : CommandBufSplit) :
    wp (commenceEntry e)
      (fun _ h' => h.Adds (entryEffects h.timeline.timelineSignal e) h' ∧
        h'.timeline = (h.timeline.load e).setCommandBuffer [] e.queueType)
      (fun _ h' => h.Adds [] h' ∧ h'.timeline = h.timeline.load e) h := by
  have hload : wp (Exec.onlyIf e.timelineNotifyPending <|
      onTimeline (signalNotify h.timeline.timelineSignal e.timelineCtr e.queueType))
      (fun _ h' => h' = h.setTimeline (h.timeline.load e)) (fun _ _ => False)
      (h.setTimeline (h.timeline.setCommandBuffer e.commandBuffer e.queueType)) := by
    rw [wp_onlyIf, CommandTimeline.load]
    cases e.timelineNotifyPending with
    | true =>
      rw [if_pos rfl, if_pos rfl, wp_onTimeline, wp_signalNotify _ _ _ _ hsig]
      rfl
    | false => simp
  rw [commenceEntry, wp_bind, wp_onTimeline, wp_modify, wp_bind, wp_get, wp_bind]
  simp only [show (h.setTimeline (h.timeline.setCommandBuffer e.commandBuffer e.queueType)
    ).queue.timelineSignal = h.timeline.timelineSignal from setCommandBuffer_timelineSignal ..]
  refine wp_mono hload (fun _ h₁ heq => ?_) (fun _ _ hf => hf.elim)
  subst heq
  have hadds := adds_setTimeline h (h.timeline.load e)
  rw [wp_bind]
  refine wp_mono (wp_submitToFifo e.queueType _) (fun _ h₂ hsub => ?_) (fun _ h₂ hsame => ?_)
  · obtain ⟨hadds₂, ht₂⟩ := hsub
    rw [setTimeline_timeline] at hadds₂ ht₂
    have hw₂ : Waits h₂.ctx.flags := by
      rw [hadds₂.flags]
      exact hw
    refine wp_mono (wp_signalWaitCpu_of_waits hsig e.timelineCtr hw₂) (fun _ h₃ hwait => ?_)
      (fun _ _ hf => hf.elim)
    refine ⟨?_, hwait.2.trans ht₂⟩
    have := (hadds.trans hadds₂).trans hwait.1
    rw [load_commandBuffer, List.nil_append] at this
    exact this
  · subst hsame
    exact ⟨hadds, rfl⟩

/-- Both command buffers are empty. -/
def CommandTimeline.Idle (t : CommandTimeline) : Prop := ∀ type, t.commandBuffer type = []

/-- A property of both buffers, from one of them and the other. -/
theorem forall_queueType {p : QueueType → Prop} (type : QueueType) (h : p type)
    (hother : p type.other) : ∀ type', p type' := by
  intro type'
  cases type <;> cases type' <;> assumption

/-- The effects of the loop over a backlog. -/
def backlogEffects (timelineSignal : NvU64) (entries : List CommandBufSplit) : List HostEffect :=
  entries.flatMap (entryEffects timelineSignal)

/-- The loop submits and awaits every segment, or stops at one that is refused and leaves it in its
buffer. -/
theorem wp_commenceBacklog (entries : List CommandBufSplit) {h : Host}
    (hsig : h.timeline.timelineSignal ≠ 0) (hw : Waits h.ctx.flags) (hidle : h.timeline.Idle) :
    wp (commenceBacklog entries)
      (fun _ h' => h.Adds (backlogEffects h.timeline.timelineSignal entries) h' ∧
        h.timeline.SameCounts h'.timeline ∧ h'.timeline.Idle)
      (fun _ h' => ∃ pre e post, entries = pre ++ e :: post ∧
        h.Adds (backlogEffects h.timeline.timelineSignal pre) h' ∧
        h.timeline.SameCounts h'.timeline ∧
        h'.timeline.commandBuffer e.queueType = e.commands h.timeline.timelineSignal ∧
        h'.timeline.commandBuffer e.queueType.other = []) h := by
  induction entries generalizing h with
  | nil =>
    rw [commenceBacklog, wp_pure]
    exact ⟨Host.Adds.refl h, .refl _, hidle⟩
  | cons e rest ih =>
    rw [commenceBacklog, wp_bind]
    refine wp_mono (wp_commenceEntry hsig hw e) (fun _ h₁ hentry => ?_) (fun _ h₁ hrefused => ?_)
    -- the entry was submitted and awaited, so that its buffer is empty again
    · obtain ⟨hadds, ht⟩ := hentry
      have hcounts : h.timeline.SameCounts h₁.timeline := by
        rw [ht]
        exact (sameCounts_load _ e).trans (sameCounts_setCommandBuffer ..)
      have hidle₁ : h₁.timeline.Idle := by
        rw [ht]
        refine forall_queueType e.queueType (commandBuffer_setCommandBuffer ..) ?_
        rw [commandBuffer_other_setCommandBuffer, load_commandBuffer_other]
        exact hidle _
      have hw₁ : Waits h₁.ctx.flags := by
        rw [hadds.flags]
        exact hw
      have hsig₁ : h₁.timeline.timelineSignal ≠ 0 := by
        rw [hcounts.timelineSignal]
        exact hsig
      have hrest := ih hsig₁ hw₁ hidle₁
      rw [hcounts.timelineSignal] at hrest
      refine wp_mono hrest (fun _ h₂ hok => ?_) (fun _ h₂ herr => ?_)
      · exact ⟨hadds.trans hok.1, hcounts.trans hok.2.1, hok.2.2⟩
      · obtain ⟨pre, e', post, hsplit, hadds₂, hcounts₂, hbuf, hother⟩ := herr
        exact ⟨e :: pre, e', post, by rw [hsplit, List.cons_append], hadds.trans hadds₂,
          hcounts.trans hcounts₂, hbuf, hother⟩
    -- the entry was refused after it was loaded
    · obtain ⟨hadds, ht⟩ := hrefused
      refine ⟨[], e, rest, rfl, hadds, ?_, ?_, ?_⟩
      · rw [ht]
        exact sameCounts_load _ e
      · rw [ht, load_commandBuffer]
      · rw [ht, load_commandBuffer_other]
        exact hidle _

/-! ## `startExecution` and `awaitExecution` -/

/-- What a queue without a backlog hands over for the engine it is in the mode of. -/
def CommandTimeline.current (t : CommandTimeline) (type : QueueType) : List MethodCall :=
  t.commandBuffer type ++
    if t.timelineNotifyPending then releaseCalls type t.timelineSignal t.timelineCtr else []

/-- The branch of `startExecution` for another engine does nothing. -/
theorem wp_commenceCurrent_of_ne {h : Host} {type : QueueType}
    (hmode : h.timeline.currentQueueType ≠ some type) (ok : Unit → Host → Prop)
    (err : Failure → Host → Prop) : wp (commenceCurrent type) ok err h ↔ ok () h := by
  rw [commenceCurrent, wp_bind, wp_get, wp_onlyIf, if_neg (by simpa using hmode)]

/-- The release that was left out goes into the buffer before it is handed over. -/
theorem wp_pendingRelease {h : Host} (hsig : h.timeline.timelineSignal ≠ 0) (type : QueueType) :
    wp (Exec.onlyIf h.queue.timelineNotifyPending <|
        onTimeline (signalNotify h.queue.timelineSignal h.queue.timelineCtr type))
      (fun _ h' => h' = h.setTimeline (h.timeline.pushAll type (if h.timeline.timelineNotifyPending
        then releaseCalls type h.timeline.timelineSignal h.timeline.timelineCtr else [])))
      (fun _ _ => False) h := by
  rw [wp_onlyIf]
  split
  · rw [wp_onTimeline, wp_signalNotify _ _ _ _ hsig]
  · rw [pushAll_nil]
    rfl

/-- The branch of `startExecution` for the current engine. -/
theorem wp_commenceCurrent {h : Host} (hsig : h.timeline.timelineSignal ≠ 0) {type : QueueType}
    (hmode : h.timeline.currentQueueType = some type) :
    wp (commenceCurrent type)
      (fun _ h' => h.timeline.commandBuffer type.other = [] ∧
        h.Adds (submitEffect type (h.timeline.current type)) h' ∧
        h.timeline.SameCounts h'.timeline ∧ h'.timeline.Idle)
      (fun _ h' => h' = h ∨ (h.timeline.commandBuffer type.other = [] ∧ h.Adds [] h' ∧
        h.timeline.SameCounts h'.timeline ∧
        h'.timeline.commandBuffer type = h.timeline.current type ∧
        h'.timeline.commandBuffer type.other = [])) h := by
  rw [commenceCurrent, wp_bind, wp_get, wp_onlyIf, if_pos (by simpa using hmode), wp_bind,
    wp_validate]
  split
  swap
  · exact Or.inl rfl
  rename_i hother
  have hother' : h.timeline.commandBuffer type.other = [] := List.isEmpty_iff.mp hother
  rw [wp_bind]
  refine wp_mono (wp_pendingRelease hsig type) (fun _ h₁ heq => ?_) (fun _ _ hf => hf.elim)
  subst heq
  generalize hrel : (if h.timeline.timelineNotifyPending then
    releaseCalls type h.timeline.timelineSignal h.timeline.timelineCtr else []) = rel
  have hcurrent : h.timeline.current type = h.timeline.commandBuffer type ++ rel := by
    rw [CommandTimeline.current, hrel]
  have hadds := adds_setTimeline h (h.timeline.pushAll type rel)
  have hcounts : h.timeline.SameCounts (h.timeline.pushAll type rel) := by
    refine ⟨⟨?_, ?_, ?_, ?_⟩, ?_, ?_⟩ <;> simp
  refine wp_mono (wp_submitToFifo type _) (fun _ h₂ hsub => ?_) (fun _ h₂ hsame => Or.inr ?_)
  · obtain ⟨hadds₂, ht₂⟩ := hsub
    rw [setTimeline_timeline, pushAll_commandBuffer, ← hcurrent] at hadds₂
    refine ⟨hother', hadds.trans hadds₂, ?_, ?_⟩
    · rw [ht₂]
      exact hcounts.trans (sameCounts_setCommandBuffer ..)
    · rw [ht₂]
      refine forall_queueType type (commandBuffer_setCommandBuffer ..) ?_
      rw [commandBuffer_other_setCommandBuffer, setTimeline_timeline, pushAll_commandBuffer_other]
      exact hother'
  · subst hsame
    exact ⟨hother', hadds, hcounts, by rw [setTimeline_timeline, pushAll_commandBuffer, hcurrent],
      by rw [setTimeline_timeline, pushAll_commandBuffer_other]; exact hother'⟩

/-- What a commence without a backlog did: it handed the current buffer over, if the queue is in a
mode, and cleared the flag. -/
structure Host.CommencedCurrent (h h' : Host) : Prop where
  targets : h.timeline.SameTargets h'.timeline
  pending : h'.timeline.timelineNotifyPending = false
  backlog : h'.timeline.commandBufBacklog = []
  submitted : (∃ type, h.timeline.currentQueueType = some type ∧
      h.timeline.commandBuffer type.other = [] ∧
      h.Adds (submitEffect type (h.timeline.current type)) h' ∧ h'.timeline.Idle) ∨
    (h.timeline.currentQueueType = none ∧ h.Adds [] h' ∧
      ∀ type, h'.timeline.commandBuffer type = h.timeline.commandBuffer type)

/-- What a commence without a backlog that failed did: nothing, or it left the release that was put
in the current buffer there. -/
def Host.RefusedCurrent (h h' : Host) : Prop :=
  h' = h ∨ ∃ type, h.timeline.currentQueueType = some type ∧
    h.timeline.commandBuffer type.other = [] ∧ h.Adds [] h' ∧
    h.timeline.SameCounts h'.timeline ∧
    h'.timeline.commandBuffer type = h.timeline.current type ∧
    h'.timeline.commandBuffer type.other = []

/-- Clearing the flag ends a commence in which the branch of an engine has run. -/
theorem commencedCurrent_clear {h h₁ : Host} {type : QueueType}
    (hnil : h.timeline.commandBufBacklog = []) (hmode : h.timeline.currentQueueType = some type)
    (hother : h.timeline.commandBuffer type.other = [])
    (hadds : h.Adds (submitEffect type (h.timeline.current type)) h₁)
    (hcounts : h.timeline.SameCounts h₁.timeline) (hidle : h₁.timeline.Idle) :
    h.CommencedCurrent
      (h₁.setTimeline { h₁.timeline with timelineNotifyPending := false }) := by
  refine ⟨hcounts.toSameTargets.trans ⟨rfl, rfl, rfl, rfl⟩, rfl,
    hcounts.commandBufBacklog.trans hnil, Or.inl ⟨type, hmode, hother, ?_, fun type' => ?_⟩⟩
  · simpa using hadds.trans (adds_setTimeline h₁ _)
  · have := hidle type'
    cases type' <;> exact this

/-- **`startExecution` without a backlog**: the current buffer is handed over and the flag cleared,
or it is refused and keeps the release that was put in it. -/
theorem wp_startExecution_of_nil {h : Host} (hsig : h.timeline.timelineSignal ≠ 0)
    (hnil : h.timeline.commandBufBacklog = []) :
    wp startExecution (fun _ h' => h.CommencedCurrent h') (fun _ h' => h.RefusedCurrent h') h := by
  rw [startExecution, wp_bind, wp_get, if_pos (List.isEmpty_iff.mpr hnil), wp_bind]
  cases hmode : h.timeline.currentQueueType with
  | none =>
    rw [wp_commenceCurrent_of_ne (by rw [hmode]; decide), wp_bind,
      wp_commenceCurrent_of_ne (by rw [hmode]; decide), wp_onTimeline, wp_modify]
    exact ⟨⟨rfl, rfl, rfl, rfl⟩, rfl, hnil, Or.inr ⟨hmode, adds_setTimeline h _, fun type => by
      cases type <;> rfl⟩⟩
  | some type =>
    cases type with
    | compute =>
      refine wp_mono (wp_commenceCurrent hsig hmode) (fun _ h₁ hok => ?_)
        (fun _ _ herr => herr.imp id fun hrest => ⟨.compute, hmode, hrest⟩)
      obtain ⟨hother, hadds, hcounts, hidle⟩ := hok
      rw [wp_bind, wp_commenceCurrent_of_ne (by rw [hcounts.currentQueueType, hmode]; decide),
        wp_onTimeline, wp_modify]
      exact commencedCurrent_clear hnil hmode hother hadds hcounts hidle
    | dma =>
      rw [wp_commenceCurrent_of_ne (by rw [hmode]; decide), wp_bind]
      refine wp_mono (wp_commenceCurrent hsig hmode) (fun _ h₁ hok => ?_)
        (fun _ _ herr => herr.imp id fun hrest => ⟨.dma, hmode, hrest⟩)
      obtain ⟨hother, hadds, hcounts, hidle⟩ := hok
      rw [wp_onTimeline, wp_modify]
      exact commencedCurrent_clear hnil hmode hother hadds hcounts hidle

/-- The page of an engine can take what is waiting for it, if anything is. -/
def Host.MayCommence (h : Host) (type : QueueType) : Prop :=
  h.timeline.current type = [] ∨
    h.maySubmit type (commandWords (h.timeline.current type)).length = true

/-- The branch of `startExecution` for the current engine fails if and only if the page cannot take
its commands. -/
theorem wp_commenceCurrent_mayCommence {h : Host} (hsig : h.timeline.timelineSignal ≠ 0)
    {type : QueueType} (hmode : h.timeline.currentQueueType = some type)
    (hother : h.timeline.commandBuffer type.other = []) :
    wp (commenceCurrent type) (fun _ _ => h.MayCommence type) (fun _ _ => ¬ h.MayCommence type)
      h := by
  rw [commenceCurrent, wp_bind, wp_get, wp_onlyIf, if_pos (by simpa using hmode), wp_bind,
    wp_validate, if_pos (List.isEmpty_iff.mpr hother), wp_bind]
  refine wp_mono (wp_pendingRelease hsig type) (fun _ h₁ heq => ?_) (fun _ _ hf => hf.elim)
  subst heq
  generalize ht : h.timeline.pushAll type (if h.timeline.timelineNotifyPending then
    releaseCalls type h.timeline.timelineSignal h.timeline.timelineCtr else []) = t
  have hbuf : (h.setTimeline t).queue.commandBuffer type = h.timeline.current type := by
    show t.commandBuffer type = _
    rw [← ht, pushAll_commandBuffer, CommandTimeline.current]
  have hmay : ∀ n, (h.setTimeline t).maySubmit type n = h.maySubmit type n := by
    intro n
    cases type <;> rfl
  rw [submitToFifo, wp_bind, wp_get, wp_onlyIf, hbuf, hmay]
  split
  · rename_i hne
    rw [wp_bind, wp_validate]
    split
    · rename_i hfits
      rw [wp_set]
      exact Or.inr hfits
    · rename_i hfull
      rintro (hempty | hfits)
      · simp [hempty] at hne
      · exact hfull hfits
  · rename_i hempty
    exact Or.inl (by simpa using hempty)

/-- **`startExecution` without a backlog fails if and only if the page cannot take the commands.**
-/
theorem wp_startExecution_mayCommence {h : Host} (hsig : h.timeline.timelineSignal ≠ 0)
    (hnil : h.timeline.commandBufBacklog = []) {type : QueueType}
    (hmode : h.timeline.currentQueueType = some type)
    (hother : h.timeline.commandBuffer type.other = []) :
    wp startExecution (fun _ _ => h.MayCommence type) (fun _ _ => ¬ h.MayCommence type) h := by
  have hbranch := wp_and (wp_commenceCurrent hsig hmode)
    (wp_commenceCurrent_mayCommence hsig hmode hother)
  rw [startExecution, wp_bind, wp_get, if_pos (List.isEmpty_iff.mpr hnil), wp_bind]
  cases type with
  | compute =>
    refine wp_mono hbranch (fun _ h₁ hok => ?_) (fun _ _ herr => herr.2)
    obtain ⟨⟨-, -, hcounts, -⟩, hmay⟩ := hok
    rw [wp_bind, wp_commenceCurrent_of_ne (by rw [hcounts.currentQueueType, hmode]; decide),
      wp_onTimeline, wp_modify]
    exact hmay
  | dma =>
    rw [wp_commenceCurrent_of_ne (by rw [hmode]; decide), wp_bind]
    refine wp_mono hbranch (fun _ h₁ hok => ?_) (fun _ _ herr => herr.2)
    rw [wp_onTimeline, wp_modify]
    exact hok.2

/-- The timeline with both buffers set aside. -/
def CommandTimeline.setAsideBoth (t : CommandTimeline) : CommandTimeline :=
  (t.setAside .compute).setAside .dma

theorem sameTargets_setAsideBoth (t : CommandTimeline) : t.SameTargets t.setAsideBoth := by
  constructor <;> simp [CommandTimeline.setAsideBoth]

/-- The backlog stays in front of what is set aside. -/
theorem backlog_setAsideBoth (t : CommandTimeline) :
    ∃ more, t.setAsideBoth.commandBufBacklog = t.commandBufBacklog ++ more := by
  have hone : ∀ (t : CommandTimeline) (type : QueueType),
      ∃ more, (t.setAside type).commandBufBacklog = t.commandBufBacklog ++ more := by
    intro t type
    unfold CommandTimeline.setAside
    split_ifs
    · exact ⟨[], (List.append_nil _).symm⟩
    · exact ⟨_, backlog_commandBufBacklog ..⟩
  obtain ⟨a, ha⟩ := hone t .compute
  obtain ⟨b, hb⟩ := hone (t.setAside .compute) .dma
  exact ⟨a ++ b, by rw [CommandTimeline.setAsideBoth, hb, ha, List.append_assoc]⟩

theorem idle_setAsideBoth (t : CommandTimeline) : t.setAsideBoth.Idle := by
  refine forall_queueType .dma (setAside_commandBuffer ..) ?_
  rw [CommandTimeline.setAsideBoth, setAside_commandBuffer_other]
  exact setAside_commandBuffer ..

/-- What a commence with a backlog did: it submitted and awaited every segment. -/
structure Host.CommencedBacklog (h h' : Host) : Prop where
  targets : h.timeline.SameTargets h'.timeline
  pending : h'.timeline.timelineNotifyPending = h.timeline.setAsideBoth.timelineNotifyPending
  backlog : h'.timeline.commandBufBacklog = []
  idle : h'.timeline.Idle
  adds : h.Adds (backlogEffects h.timeline.timelineSignal
    h.timeline.setAsideBoth.commandBufBacklog) h'

/-- What a commence with a backlog that failed did: some segments were submitted and awaited, the
next one is left in its buffer, and the backlog is still there. -/
structure Host.RefusedBacklog (h h' : Host) : Prop where
  targets : h.timeline.SameTargets h'.timeline
  pending : h'.timeline.timelineNotifyPending = h.timeline.setAsideBoth.timelineNotifyPending
  backlog : h'.timeline.commandBufBacklog = h.timeline.setAsideBoth.commandBufBacklog
  stopped : ∃ pre e post, h.timeline.setAsideBoth.commandBufBacklog = pre ++ e :: post ∧
    h.Adds (backlogEffects h.timeline.timelineSignal pre) h' ∧
    h'.timeline.commandBuffer e.queueType = e.commands h.timeline.timelineSignal ∧
    h'.timeline.commandBuffer e.queueType.other = []

/-- **`startExecution` with a backlog.** -/
theorem wp_startExecution_of_ne_nil {h : Host} (hsig : h.timeline.timelineSignal ≠ 0)
    (hw : Waits h.ctx.flags) (hne : h.timeline.commandBufBacklog ≠ []) :
    wp startExecution (fun _ h' => h.CommencedBacklog h') (fun _ h' => h.RefusedBacklog h') h := by
  rw [startExecution, wp_bind, wp_get, if_neg (fun hnil => hne (List.isEmpty_iff.mp hnil)), wp_bind,
    wp_onTimeline, wp_backlogCurrentCmdBuffer, wp_bind, wp_onTimeline, wp_backlogCurrentCmdBuffer,
    wp_bind, wp_get, wp_bind]
  have hadds := adds_setTimeline h h.timeline.setAsideBoth
  have htargets := sameTargets_setAsideBoth h.timeline
  have hloop := wp_commenceBacklog h.timeline.setAsideBoth.commandBufBacklog
    (h := h.setTimeline h.timeline.setAsideBoth)
    (by rw [setTimeline_timeline, htargets.timelineSignal]; exact hsig) hw (idle_setAsideBoth _)
  rw [setTimeline_timeline, htargets.timelineSignal] at hloop
  refine wp_mono hloop (fun _ h₁ hok => ?_) (fun _ h₁ herr => ?_)
  · obtain ⟨hadds₁, hcounts, hidle⟩ := hok
    rw [wp_onTimeline, wp_modify]
    refine ⟨(htargets.trans hcounts.toSameTargets).trans ⟨rfl, rfl, rfl, rfl⟩,
      hcounts.timelineNotifyPending, rfl, fun type => ?_, ?_⟩
    · have := hidle type
      cases type <;> exact this
    · simpa using (hadds.trans hadds₁).trans (adds_setTimeline h₁ _)
  · obtain ⟨pre, e, post, hsplit, hadds₁, hcounts, hbuf, hother⟩ := herr
    exact ⟨htargets.trans hcounts.toSameTargets, hcounts.timelineNotifyPending,
      hcounts.commandBufBacklog, pre, e, post, hsplit, hadds.trans hadds₁, hbuf, hother⟩

/-- **`awaitExecution`** waits for the last target and reuses the argument page. -/
theorem wp_awaitExecution {h : Host} (hsig : h.timeline.timelineSignal ≠ 0)
    (hw : Waits h.ctx.flags) :
    wp awaitExecution
      (fun _ h' => h.Kept h' ∧ h'.argRegions = h.argRegions ∧ h'.queue.kernArgsWriteIdx = 0 ∧
        h'.timeline = h.timeline ∧ h'.ctx.flags = h.ctx.flags ∧ h'.trace = h.trace ++
          [.waitCpu h.timeline.timelineSignal h.timeline.timelineCtr])
      (fun _ _ => False) h := by
  rw [awaitExecution, wp_bind, wp_get, wp_bind, wp_validate, if_pos (by simpa using hsig), wp_bind]
  refine wp_mono (wp_signalWaitCpu_of_waits hsig _ hw) (fun _ h₁ hwait => ?_) (fun _ _ hf => hf)
  obtain ⟨hadds, ht⟩ := hwait
  rw [wp_modify]
  exact ⟨⟨⟨hadds.events, hadds.freeSignals⟩, hadds.signals, hadds.signalPool, hadds.kernArgsPageVa,
    hadds.operations⟩, hadds.argRegions, rfl, ht, hadds.flags, hadds.trace⟩

end LibreCuda
