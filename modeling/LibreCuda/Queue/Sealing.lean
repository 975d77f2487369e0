import LibreCuda.Foundation.Overlaps
import LibreCuda.Queue.Releases
import LibreCuda.Queue.Streams

/-! # Synchronous launches are sealed

A synchronous launch ends with the release of its target, in the same buffer. So in every buffer for
the compute engine a release follows each synchronous launch before the next one starts, and a
commence hands over buffers of that kind.

* **`SealedFor`** says it of the methods for an engine, and **`CommandTimeline.Sealed`** of all
  buffers of a queue.
* **`sealed_of_call`**: every call keeps it, as long as commences are accepted. -/

namespace LibreCuda

open Channels Exec

/-- Behind each synchronous launch of a buffer there is a release, before the next launch. -/
def SealedFor (type : QueueType) (ms : List MethodCall) : Prop :=
  type = .compute → Channels.Sealed (commandsOf .compute ms)

/-- All buffers of a queue are sealed. -/
structure CommandTimeline.Sealed (t : CommandTimeline) : Prop where
  buffers : ∀ type, SealedFor type (t.commandBuffer type)
  backlog : ∀ e ∈ t.commandBufBacklog, SealedFor e.queueType e.commandBuffer

/-! ## Methods -/

section Methods

variable {type : QueueType} {a b ms : List MethodCall}

theorem sealedFor_nil : SealedFor type [] := fun _ => trivial

theorem sealedFor_dma : SealedFor .dma ms := nofun

theorem SealedFor.append (ha : SealedFor type a) (hb : SealedFor type b) :
    SealedFor type (a ++ b) := fun htype => by
  rw [commandsOf_append (closed_compute b)]
  exact (ha htype).append (hb htype)

/-- Methods that begin nothing. -/
theorem sealedFor_of_starts (h : starts (dutiesOf type ms) = []) : SealedFor type ms := by
  rintro rfl
  refine sealed_of_starts ?_
  rw [← starts_dutiesOf, h]

theorem sealedFor_releaseCalls (pSignal : NvU64) (signalTarget : NvU32) :
    SealedFor type (releaseCalls type pSignal signalTarget) :=
  sealedFor_of_starts (by rw [dutiesOf_releaseCalls]; rfl)

/-- **A launch and its release**: a synchronous one is followed by it. -/
theorem sealedFor_launchCalls (t : CommandTimeline) (qmdAddr : NvU64) (number : ℕ) (async : Bool) :
    SealedFor .compute (launchCalls qmdAddr ⟨number, async⟩ ++ t.finishCalls .compute async) := by
  intro _
  obtain ⟨x, y, hlaunch⟩ := commandsOf_launchCalls qmdAddr ⟨number, async⟩
  obtain ⟨-, hfinish⟩ := commandsOf_finishCalls t .compute async
  rw [commandsOf_append (closed_compute _), hlaunch, hfinish]
  cases async with
  | true => exact ⟨nofun, trivial⟩
  | false => exact ⟨fun _ => trivial, trivial⟩

end Methods

/-! ## Queues -/

section Queues

variable {t t' : CommandTimeline}

theorem CommandTimeline.Sealed.backlogged (h : t.Sealed) (type : QueueType) :
    (t.backlog type).Sealed := by
  refine ⟨fun type' => ?_, fun e he => ?_⟩
  · by_cases hsame : type' = type
    · subst hsame
      rw [backlog_commandBuffer]
      exact sealedFor_nil
    · have hother : (t.backlog type).commandBuffer type' = t.commandBuffer type' := by
        cases type <;> cases type'
        all_goals first | exact absurd rfl hsame | rfl
      rw [hother]
      exact h.buffers type'
  · rw [backlog_commandBufBacklog] at he
    rcases List.mem_append.mp he with he | he
    · exact h.backlog e he
    · rw [List.mem_singleton.mp he]
      exact h.buffers type

theorem CommandTimeline.Sealed.setAside (h : t.Sealed) (type : QueueType) :
    (t.setAside type).Sealed := by
  unfold CommandTimeline.setAside
  split_ifs
  · exact h
  · exact h.backlogged type

theorem CommandTimeline.Sealed.setMode (h : t.Sealed) (mode : Option QueueType) :
    ({ t with currentQueueType := mode } : CommandTimeline).Sealed :=
  ⟨fun type => by cases type <;> exact h.buffers _, h.backlog⟩

theorem CommandTimeline.Sealed.select (h : t.Sealed) (type : QueueType) : (t.select type).Sealed := by
  unfold CommandTimeline.select
  split_ifs
  · exact h.setMode _
  · exact (h.backlogged type.other).setMode _
  · exact h

/-- Sealed methods go behind what a buffer has. -/
theorem CommandTimeline.Sealed.appends {type : QueueType} {ms : List MethodCall} (h : t.Sealed)
    (ha : t.Appends type ms t') (hms : SealedFor type ms) : t'.Sealed := by
  refine ⟨fun type' => ?_, ha.commandBufBacklog ▸ h.backlog⟩
  rcases eq_or_ne type' type with rfl | hne
  · rw [ha.commandBuffer]
    exact (h.buffers type').append hms
  · have hother : type' = type.other := by
      cases type <;> cases type'
      all_goals first | exact absurd rfl hne | rfl
    rw [hother, ha.commandBuffer_other]
    exact h.buffers type.other

theorem sealed_of_idle (hidle : t.Idle) (hback : t.commandBufBacklog = []) : t.Sealed := by
  refine ⟨fun type => ?_, fun e he => ?_⟩
  · rw [hidle type]
    exact sealedFor_nil
  · rw [hback] at he
    cases he

end Queues

/-! ## Effects -/

/-- Effects hand over sealed buffers. -/
def HandsSealed (fx : List HostEffect) : Prop :=
  ∀ type commands, .submit type commands ∈ fx → SealedFor type commands

theorem handsSealed_submitEffect {type : QueueType} {commands : List MethodCall}
    (h : SealedFor type commands) : HandsSealed (submitEffect type commands) := by
  intro type' commands' hmem
  unfold submitEffect at hmem
  split_ifs at hmem
  · cases hmem
  · obtain ⟨rfl, rfl⟩ := HostEffect.submit.inj (List.mem_singleton.mp hmem)
    exact h

/-- A buffer is handed over with a release added, or without. -/
theorem SealedFor.released {type : QueueType} {buffer : List MethodCall} (h : SealedFor type buffer)
    (notify : Bool) (timelineSignal : NvU64) (target : NvU32) :
    SealedFor type (buffer ++ if notify then releaseCalls type timelineSignal target else []) := by
  split_ifs
  · exact h.append (sealedFor_releaseCalls _ _)
  · exact h.append sealedFor_nil

theorem handsSealed_backlogEffects {timelineSignal : NvU64} {entries : List CommandBufSplit}
    (h : ∀ e ∈ entries, SealedFor e.queueType e.commandBuffer) :
    HandsSealed (backlogEffects timelineSignal entries) := by
  intro type commands hmem
  obtain ⟨e, he, hmem⟩ := List.mem_flatMap.mp hmem
  rw [entryEffects, List.mem_append] at hmem
  rcases hmem with hmem | hmem
  · exact handsSealed_submitEffect ((h e he).released _ _ _) type commands hmem
  · cases List.mem_singleton.mp hmem

/-! ## Calls -/

/-- Launches, copies and records append sealed methods. -/
theorem sealed_of_build {h h' : Host} {c : ApiCall} {r : Except Failure Unit} (hbuilds : c.Builds)
    (hsig : h.timeline.timelineSignal ≠ 0) (hsealed : h.timeline.Sealed)
    (hc : call c.run h = (r, h')) : h'.timeline.Sealed := by
  have hlocal : ∀ {calls : List MethodCall}, LocalMemCalls calls → SealedFor .compute calls :=
    fun hcalls => sealedFor_of_starts (starts_localMemCalls hcalls)
  have hsync : ∀ (t : CommandTimeline) value async,
      SealedFor .compute (t.synchronizeCalls value async) := fun t value async =>
    sealedFor_of_starts (by rw [dutiesOf_synchronizeCalls]; rfl)
  cases c with
  | launchFunction function grid block sharedMemBytes params numParams async =>
    have hselect := hsealed.select .compute
    rcases wp_call hc (wp_launchFunction hsig function grid block sharedMemBytes params numParams
      async) with ⟨_, -, f, -, hok⟩ | ⟨_, -, herr⟩
    · obtain ⟨calls, qmdAddr, hcalls, ht⟩ := hok.timeline
      have hbase := hselect.appends (appends_launchBase h calls async)
        ((hlocal hcalls).append (hsync _ _ _))
      rw [ht]
      exact hbase.appends ((appends_pushAll _ .compute _).trans (appends_finish _ .compute async))
        (sealedFor_launchCalls _ qmdAddr _ async)
    · rcases herr.timeline with ht | ⟨calls, hcalls, ht | ht⟩
      · rw [ht]
        exact hsealed
      · rw [ht]
        exact hselect.appends (appends_pushAll _ .compute calls) (hlocal hcalls)
      · rw [ht]
        exact hselect.appends (appends_launchBase h calls async)
          ((hlocal hcalls).append (hsync _ _ _))
  | gpuMemcpy dst src numBytes async =>
    rcases wp_call hc (wp_gpuMemcpy hsig dst src numBytes async) with ⟨_, -, hok⟩ | ⟨_, -, rfl⟩
    · obtain ⟨_, _, _, ht⟩ := hok.timeline
      rw [ht]
      exact (hsealed.select .dma).appends ((appends_pushAll _ .dma _).trans
        (appends_finish _ .dma async)) sealedFor_dma
    · exact hsealed
  | recordEvent event pStream =>
    rcases wp_call hc (wp_recordEvent event pStream h) with
      ⟨_, -, -, _, signal, -, -, ht⟩ | ⟨_, -, -, ht⟩
    · rw [ht]
      exact (hsealed.setMode _).appends (appends_record h.timeline signal)
        (sealedFor_releaseCalls _ _)
    · rw [ht]
      exact hsealed
  | startExecution => exact hbuilds.elim
  | awaitExecution => exact hbuilds.elim

/-- **Every call keeps the buffers sealed** and hands over sealed ones, as long as commences are
accepted. -/
theorem sealed_of_call {h h' : Host} {c : ApiCall} {r : Except Failure Unit} (hu : h.Usable)
    (hs : h.timeline.Settled) (hsealed : h.timeline.Sealed)
    (haccepted : c = .startExecution → r = .ok ()) (hc : call c.run h = (r, h')) :
    h'.timeline.Sealed ∧ ∃ fx, h'.trace = h.trace ++ fx ∧ HandsSealed fx := by
  have hsig := hu.timelineSignal
  have hnone : HandsSealed [] := fun _ _ hmem => absurd hmem List.not_mem_nil
  have hbuild : c.Builds → h'.trace = h.trace →
      h'.timeline.Sealed ∧ ∃ fx, h'.trace = h.trace ++ fx ∧ HandsSealed fx :=
    fun hbuilds htrace => ⟨sealed_of_build hbuilds hsig hsealed hc, [],
      htrace.trans (List.append_nil _).symm, hnone⟩
  cases c with
  | launchFunction =>
    obtain ⟨_, hhands, -⟩ := duties_of_launch hsig hs hc
    exact hbuild trivial hhands.trace
  | gpuMemcpy =>
    obtain ⟨_, hhands, -⟩ := duties_of_copy hsig hs hc
    exact hbuild trivial hhands.trace
  | recordEvent =>
    obtain ⟨_, hhands, -⟩ := duties_of_record hs hc
    exact hbuild trivial hhands.trace
  | awaitExecution =>
    rcases wp_call hc (wp_awaitExecution hsig hu.waits) with ⟨_, -, hok⟩ | ⟨_, -, hf⟩
    · obtain ⟨-, -, -, ht, -, htrace⟩ := hok
      refine ⟨ht ▸ hsealed, _, htrace, fun type commands hmem => ?_⟩
      exact absurd (List.mem_singleton.mp hmem) nofun
    · exact hf.elim
  | startExecution =>
    obtain rfl := haccepted rfl
    obtain ⟨-, hidle, hback⟩ := carries_of_commence hu hs hc
    refine ⟨sealed_of_idle hidle hback, ?_⟩
    by_cases hnil : h.timeline.commandBufBacklog = []
    · rcases wp_call hc (wp_startExecution_of_nil hsig hnil) with ⟨_, -, hok⟩ | ⟨_, herr, -⟩
      · rcases hok.submitted with ⟨type, -, -, hadds, -⟩ | ⟨-, hadds, -⟩
        · exact ⟨_, hadds.trace, handsSealed_submitEffect
            ((hsealed.buffers type).released _ _ _)⟩
        · exact ⟨_, hadds.trace, hnone⟩
      · cases herr
    · rcases wp_call hc (wp_startExecution_of_ne_nil hsig hu.waits hnil) with
        ⟨_, -, hok⟩ | ⟨_, herr, -⟩
      · exact ⟨_, hok.adds.trace, handsSealed_backlogEffects
          ((hsealed.setAside .compute).setAside .dma).backlog⟩
      · cases herr

end LibreCuda
