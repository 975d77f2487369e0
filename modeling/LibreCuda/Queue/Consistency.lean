import LibreCuda.Queue.Releases

/-! # The consistency checks of a commence

`startExecution` without a backlog checks that the buffer of the engine the queue is not in the mode
of is empty. The constructor leaves the mode uninitialised, and a launch can fail after it has
changed the mode and pushed commands; still the check never fires.

* **`startExecution_stopped`**: a commence that fails is stopped by the check or by `submitToFifo`.
* **`consistency_checks_never_fire`**: it is not the check, in any stream reached while
  `submitToFifo` does not fail. -/

namespace LibreCuda

open Exec

/-! ## What stops a commence -/

/-- The check fires: nothing was set aside, and the buffer of the engine the queue is not in the
mode of holds commands. -/
def CommandTimeline.Inconsistent (t : CommandTimeline) : Prop :=
  t.commandBufBacklog = [] ∧
    ∃ type, t.currentQueueType = some type ∧ t.commandBuffer type.other ≠ []

/-- `submitToFifo` fails here. -/
def Host.Refuses (h : Host) : Prop := ∃ type e, call (submitToFifo type) h = (.error e, h)

variable {h h' : Host}

/-- A submission that fails is refused where it was tried. -/
theorem wp_submitToFifo_refuses (type : QueueType) (h : Host) :
    wp (submitToFifo type)
      (fun _ h' => h.Adds (submitEffect type (h.timeline.commandBuffer type)) h' ∧
        h'.timeline = h.timeline.setCommandBuffer [] type)
      (fun _ h' => h'.Refuses) h := by
  refine wp_mono (wp_and (wp_submitToFifo type h) (wp_self _ h)) (fun _ _ hok => hok.1)
    fun e h₁ herr => ?_
  obtain ⟨rfl, hcall⟩ := herr
  exact ⟨type, e, hcall⟩

/-- One round of the loop over a backlog is stopped by `submitToFifo` only. -/
theorem wp_commenceEntry_refuses (hsig : h.timeline.timelineSignal ≠ 0) (hw : Waits h.ctx.flags)
    (e : CommandBufSplit) :
    wp (commenceEntry e) (fun _ _ => True) (fun _ h' => h'.Refuses) h := by
  rw [commenceEntry, wp_bind, wp_onTimeline, wp_modify, wp_bind, wp_get, wp_bind]
  have hload : wp (Exec.onlyIf e.timelineNotifyPending <|
      onTimeline (signalNotify h.timeline.timelineSignal e.timelineCtr e.queueType))
      (fun _ h₁ => h₁.ctx = h.ctx) (fun _ _ => False)
      (h.setTimeline (h.timeline.setCommandBuffer e.commandBuffer e.queueType)) := by
    rw [wp_onlyIf]
    split
    · rw [wp_onTimeline, wp_signalNotify _ _ _ _ hsig]
      rfl
    · rfl
  simp only [show (h.setTimeline (h.timeline.setCommandBuffer e.commandBuffer e.queueType)
    ).queue.timelineSignal = h.timeline.timelineSignal from setCommandBuffer_timelineSignal ..]
  refine wp_mono hload (fun _ h₁ hctx => ?_) (fun _ _ => False.elim)
  rw [wp_bind]
  refine wp_mono (wp_submitToFifo_refuses e.queueType h₁) (fun _ h₂ hsub => ?_) (fun _ _ => id)
  have hw₂ : Waits h₂.ctx.flags := by
    rw [hsub.1.flags, hctx]
    exact hw
  exact wp_mono (wp_signalWaitCpu_of_waits hsig e.timelineCtr hw₂) (fun _ _ _ => trivial)
    (fun _ _ => False.elim)

/-- And so is the loop. -/
theorem wp_commenceBacklog_refuses (entries : List CommandBufSplit)
    (hsig : h.timeline.timelineSignal ≠ 0) (hw : Waits h.ctx.flags) :
    wp (commenceBacklog entries) (fun _ _ => True) (fun _ h' => h'.Refuses) h := by
  induction entries generalizing h with
  | nil =>
    rw [commenceBacklog, wp_pure]
    trivial
  | cons e rest ih =>
    rw [commenceBacklog, wp_bind]
    refine wp_mono (wp_and (wp_commenceEntry hsig hw e) (wp_commenceEntry_refuses hsig hw e))
      (fun _ h₁ hok => ?_) (fun _ _ herr => herr.2)
    obtain ⟨hadds, ht⟩ := hok.1
    refine ih ?_ ?_
    · rw [ht, setCommandBuffer_timelineSignal, (sameCounts_load h.timeline e).timelineSignal]
      exact hsig
    · rw [hadds.flags]
      exact hw

/-- The branch for the current engine is stopped by its check or by `submitToFifo`. -/
theorem wp_commenceCurrent_stopped (hsig : h.timeline.timelineSignal ≠ 0)
    (hnil : h.timeline.commandBufBacklog = []) {type : QueueType}
    (hmode : h.timeline.currentQueueType = some type) :
    wp (commenceCurrent type) (fun _ h' => h'.timeline.currentQueueType = some type)
      (fun _ h' => h.timeline.Inconsistent ∨ h'.Refuses) h := by
  rw [commenceCurrent, wp_bind, wp_get, wp_onlyIf, if_pos (by simpa using hmode), wp_bind,
    wp_validate]
  split
  swap
  · rename_i hother
    exact Or.inl ⟨hnil, type, hmode, fun hempty => hother (List.isEmpty_iff.mpr hempty)⟩
  have hload : wp (Exec.onlyIf h.queue.timelineNotifyPending <|
      onTimeline (signalNotify h.queue.timelineSignal h.queue.timelineCtr type))
      (fun _ h₁ => h₁.timeline.currentQueueType = some type) (fun _ _ => False) h := by
    rw [wp_onlyIf]
    split
    · rw [wp_onTimeline, wp_signalNotify _ _ _ _ hsig]
      exact (pushAll_currentQueueType ..).trans hmode
    · exact hmode
  rw [wp_bind]
  refine wp_mono hload (fun _ h₁ hmode₁ => ?_) (fun _ _ => False.elim)
  refine wp_mono (wp_submitToFifo_refuses type h₁) (fun _ h₂ hsub => ?_) (fun _ _ => Or.inr)
  rw [hsub.2, setCommandBuffer_currentQueueType]
  exact hmode₁

/-- **A commence that fails** is stopped by the consistency check or by `submitToFifo`. -/
theorem startExecution_stopped {e : Failure} (hu : h.Usable)
    (hc : call startExecution h = (.error e, h')) : h.timeline.Inconsistent ∨ h'.Refuses := by
  have hsig := hu.timelineSignal
  have hstop : wp startExecution (fun _ _ => True)
      (fun _ h' => h.timeline.Inconsistent ∨ h'.Refuses) h := by
    rw [startExecution, wp_bind, wp_get]
    split
    · rename_i hempty
      have hnil := List.isEmpty_iff.mp hempty
      rw [wp_bind]
      cases hmode : h.timeline.currentQueueType with
      | none =>
        rw [wp_commenceCurrent_of_ne (by rw [hmode]; decide), wp_bind,
          wp_commenceCurrent_of_ne (by rw [hmode]; decide), wp_onTimeline, wp_modify]
        trivial
      | some type =>
        cases type with
        | compute =>
          refine wp_mono (wp_commenceCurrent_stopped hsig hnil hmode) (fun _ h₁ hmode₁ => ?_)
            (fun _ _ => id)
          rw [wp_bind, wp_commenceCurrent_of_ne (by rw [hmode₁]; decide), wp_onTimeline, wp_modify]
          trivial
        | dma =>
          rw [wp_commenceCurrent_of_ne (by rw [hmode]; decide), wp_bind]
          refine wp_mono (wp_commenceCurrent_stopped hsig hnil hmode) (fun _ h₁ _ => ?_)
            (fun _ _ => id)
          rw [wp_onTimeline, wp_modify]
          trivial
    · rw [wp_bind, wp_onTimeline, wp_backlogCurrentCmdBuffer, wp_bind, wp_onTimeline,
        wp_backlogCurrentCmdBuffer, wp_bind, wp_get, wp_bind]
      have hsig' : (h.setTimeline h.timeline.setAsideBoth).timeline.timelineSignal ≠ 0 := by
        rw [setTimeline_timeline, (sameTargets_setAsideBoth h.timeline).timelineSignal]
        exact hsig
      refine wp_mono (wp_commenceBacklog_refuses (h := h.setTimeline h.timeline.setAsideBoth) _ hsig'
        hu.waits) (fun _ h₁ _ => ?_) (fun _ _ => Or.inr)
      rw [wp_onTimeline, wp_modify]
      trivial
  exact (wp_of_call_error hc).mp hstop

/-! ## The checks never fire -/

/-- Streams reached by calls that succeed or fail, while `submitToFifo` does not fail: a commence
that fails is one that the consistency check stopped. -/
inductive Host.Submitting : Host → Prop
  | initialized {h : Host} : h.Initialized → Submitting h
  | step {h h' : Host} {c : ApiCall} {r : Except Failure Unit} : Submitting h → h.Step c r h' →
      (c = .startExecution → r = .ok () ∨ h.timeline.Inconsistent) → Submitting h'

/-- Commands wait for the engine the queue is in the mode of, and a release is left out behind
commands only. -/
structure CommandTimeline.Consistent (t : CommandTimeline) : Prop where
  mode : ∀ type, t.commandBuffer type ≠ [] →
    t.currentQueueType = some type ∧ t.commandBuffer type.other = []
  pending : t.timelineNotifyPending = true → ∃ type, t.commandBuffer type ≠ []

/-- A settled queue passes the check. -/
theorem CommandTimeline.Settled.not_inconsistent {t : CommandTimeline} (hs : t.Settled) :
    ¬ t.Inconsistent := by
  rintro ⟨-, type, hmode, hother⟩
  exact hother (hs.other_of_some type hmode)

/-- The balance makes a queue consistent. -/
theorem CommandTimeline.Balanced.consistent {t : CommandTimeline} {s : List GpuCommand}
    (hb : t.Balanced s) : t.Consistent := by
  refine ⟨fun type hbuf => ⟨hb.settled.mode_of_ne_nil hbuf, hb.settled.other_of_ne_nil hbuf⟩,
    fun hpend => ?_⟩
  by_contra hidle
  have hfalse := hb.pending_of_idle fun type => by
    by_contra hbuf
    exact hidle ⟨type, hbuf⟩
  rw [hpend] at hfalse
  cases hfalse

/-- **One call** keeps the balance, unless it is a commence that fails. -/
theorem balanced_of_step {c : ApiCall} {r : Except Failure Unit} (hu : h.Usable)
    (hb : h.timeline.Balanced (submittedCommands h.trace)) (hstep : h.Step c r h')
    (hstart : c = .startExecution → r = .ok ()) :
    h'.timeline.Balanced (submittedCommands h'.trace) := by
  obtain ⟨values, gpGet, hc⟩ := hstep
  have hu₁ := hu.observe values gpGet
  have hbuild : c.Builds → h'.timeline.Balanced (submittedCommands h'.trace) := by
    intro hbuilds
    obtain ⟨hb', htrace⟩ := balanced_of_call hbuilds hu₁ hb hc
    rw [htrace]
    exact hb'
  cases c with
  | launchFunction function grid block sharedMemBytes params numParams async => exact hbuild trivial
  | gpuMemcpy dst src numBytes async => exact hbuild trivial
  | recordEvent event pStream => exact hbuild trivial
  | startExecution =>
    rw [hstart rfl] at hc
    obtain ⟨fx, htrace, -, hb'⟩ := (handsOver_of_commence hu₁ hb hc).balanced
    rw [htrace, submittedCommands_append]
    exact hb'
  | awaitExecution =>
    rcases wp_call hc (wp_awaitExecution hu₁.timelineSignal hu₁.waits) with
      ⟨_, -, -, -, -, htimeline, -, htrace⟩ | ⟨_, -, hfalse⟩
    · rw [htimeline, htrace, submittedCommands_append, show submittedCommands [HostEffect.waitCpu _ _] =
        [] from rfl, List.append_nil]
      exact hb
    · exact hfalse.elim

/-- **The balance holds in every such run.** -/
theorem Host.Submitting.balanced (hr : h.Submitting) :
    h.Usable ∧ h.timeline.Balanced (submittedCommands h.trace) := by
  induction hr with
  | initialized hi => exact ⟨hi.usable, hi.ready.balanced⟩
  | step _ hstep hstart ih =>
    obtain ⟨hu, hb⟩ := ih
    refine ⟨hu.step hstep, balanced_of_step hu hb hstep fun hc => ?_⟩
    exact (hstart hc).resolve_right hb.settled.not_inconsistent

/-- **The consistency checks never fire.** Whatever the uninitialised mode is, and however calls
succeed or fail while `submitToFifo` does not: commands wait for the engine the queue is in the mode
of only, a release is left out behind commands only, and a commence that fails is stopped by
`submitToFifo`, not by the check. -/
theorem consistency_checks_never_fire (hr : h.Submitting) :
    h.timeline.Consistent ∧ ¬ h.timeline.Inconsistent ∧
      ∀ e h', h.Step .startExecution (.error e) h' → h'.Refuses := by
  obtain ⟨hu, hb⟩ := hr.balanced
  refine ⟨hb.consistent, hb.settled.not_inconsistent, fun e h' hstep => ?_⟩
  obtain ⟨values, gpGet, hc⟩ := hstep
  exact (startExecution_stopped (hu.observe values gpGet) hc).resolve_left
    hb.settled.not_inconsistent

/-- A launch and a copy of the sample session, the second of which waits on the copy engine. -/
theorem consistency_checks_never_fire_sample :
    sampleBuilt.timeline.commandBuffer .dma ≠ [] ∧
      sampleBuilt.timeline.currentQueueType = some .dma := by
  have hdma : sampleBuilt.timeline.commandBuffer .dma ≠ [] := by decide +kernel
  have hbuilt : sampleBuilt.Submitting :=
    ((Host.Submitting.initialized initialized_sampleStream).step step_sampleLaunch
      fun hc => by cases hc).step step_sampleCopy fun hc => by cases hc
  exact ⟨hdma, ((consistency_checks_never_fire hbuilt).1.mode .dma hdma).1⟩

end LibreCuda
