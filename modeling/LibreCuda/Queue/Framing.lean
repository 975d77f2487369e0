import LibreCuda.Queue.Order
import LibreCuda.Queue.Updates

/-! # Framing of the push buffer

Whatever is done with a queue, succeeding or failing, the words it hands to a channel are whole
methods: those of the `enqueue` calls that were collected in the segment.

* **`CommandTimeline.WellFramed`** is the invariant: every buffer, and every segment set aside, is
  made of such calls, in the order in which they were made.
* **`Framing`** says that an update keeps it; every call is made of such updates.
* **`submissions_well_framed`**: the words of every segment parse to the calls collected in it. -/

namespace LibreCuda

open Exec

/-! ## Buffers -/

/-- Calls of `enqueue` for one engine, collected in the order of a log of all calls. -/
structure Collected (log : List (QueueType × MethodCall)) (type : QueueType)
    (buffer : List MethodCall) : Prop where
  pushes : ∃ methods, List.Forall₂ MethodCall.Pushes buffer methods
  ordered : (tagged type buffer).Sublist log

theorem collected_nil (log : List (QueueType × MethodCall)) (type : QueueType) :
    Collected log type [] :=
  ⟨⟨[], .nil⟩, List.nil_sublist log⟩

/-- A longer log. -/
theorem Collected.mono {log log' : List (QueueType × MethodCall)} {type : QueueType}
    {buffer : List MethodCall} (h : Collected log type buffer) (hlog : log <+: log') :
    Collected log' type buffer :=
  ⟨h.pushes, h.ordered.trans hlog.sublist⟩

/-- One more call. -/
theorem Collected.push {log : List (QueueType × MethodCall)} {type : QueueType}
    {buffer : List MethodCall} {m : MethodCall} {d : DmaMethod} (h : Collected log type buffer)
    (hm : m.Pushes d) : Collected (log ++ [(type, m)]) type (buffer ++ [m]) := by
  obtain ⟨methods, hmethods⟩ := h.pushes
  refine ⟨⟨methods ++ [d], List.rel_append hmethods (.cons hm .nil)⟩, ?_⟩
  rw [tagged_append]
  exact h.ordered.append (List.Sublist.refl _)

/-- All buffers of a timeline are collected from its calls. -/
structure CommandTimeline.WellFramed (t : CommandTimeline) : Prop where
  buffers : ∀ type, Collected t.emitted type (t.commandBuffer type)
  backlog : ∀ e ∈ t.commandBufBacklog, Collected t.emitted e.queueType e.commandBuffer

/-- The log grows, and the buffers stay collected from it. -/
structure CommandTimeline.Framing (t t' : CommandTimeline) : Prop where
  emitted : t.emitted <+: t'.emitted
  wellFramed : t.WellFramed → t'.WellFramed

/-- A timeline with another buffer for an engine. -/
theorem CommandTimeline.WellFramed.setCommandBuffer {t : CommandTimeline} (ht : t.WellFramed)
    {type : QueueType} {buffer : List MethodCall} (h : Collected t.emitted type buffer) :
    (t.setCommandBuffer buffer type).WellFramed := by
  refine ⟨fun type' => ?_, fun e he => ?_⟩
  · rw [setCommandBuffer_emitted]
    revert type'
    refine forall_queueType type ?_ ?_
    · rw [commandBuffer_setCommandBuffer]
      exact h
    · rw [commandBuffer_other_setCommandBuffer]
      exact ht.buffers type.other
  · rw [setCommandBuffer_commandBufBacklog] at he
    rw [setCommandBuffer_emitted]
    exact ht.backlog e he

instance : KeptByCommands CommandTimeline.Framing where
  refl t := ⟨List.prefix_rfl, id⟩
  trans _ _ _ h h' := ⟨h.emitted.trans h'.emitted, h'.wellFramed ∘ h.wellFramed⟩
  push t type m d hm := by
    have hlog : t.emitted <+: (t.pushAll type [m]).emitted := List.prefix_append _ _
    refine ⟨hlog, fun ht => ⟨?_, fun e he => ?_⟩⟩
    · refine forall_queueType type ?_ ?_
      · rw [pushAll_commandBuffer]
        exact (ht.buffers type).push hm
      · rw [pushAll_commandBuffer_other]
        exact (ht.buffers type.other).mono hlog
    · rw [pushAll_commandBufBacklog] at he
      exact (ht.backlog e he).mono hlog
  setMode _ _ _ _ _ _ := ⟨List.prefix_rfl, fun ht => ⟨ht.buffers, ht.backlog⟩⟩
  backlog t type := by
    refine ⟨by rw [backlog_emitted], fun ht => ⟨fun type' => ?_, fun e he => ?_⟩⟩
    · -- the buffer that is set aside leaves an empty one
      have hcleared := ht.setCommandBuffer (collected_nil t.emitted type)
      exact hcleared.buffers type'
    · rw [backlog_emitted]
      rw [backlog_commandBufBacklog] at he
      rcases List.mem_append.mp he with hold | hnew
      · exact ht.backlog e hold
      · rw [List.mem_singleton.mp hnew]
        exact ht.buffers type
  load t e he := by
    refine ⟨by rw [setCommandBuffer_emitted], fun ht => ?_⟩
    exact ht.setCommandBuffer (ht.backlog e he)
  clearBacklog _ := ⟨List.prefix_rfl, fun ht => ⟨ht.buffers, fun _ he => absurd he List.not_mem_nil⟩⟩

/-! ## Streams -/

/-- The buffers and everything submitted so far are collected from the calls. -/
structure Host.WellFramed (h : Host) : Prop where
  timeline : h.timeline.WellFramed
  trace : ∀ type commands, HostEffect.submit type commands ∈ h.trace →
    Collected h.timeline.emitted type commands

/-- The log grows, and everything stays collected from it. -/
structure Host.Framing (h h' : Host) : Prop where
  emitted : h.timeline.emitted <+: h'.timeline.emitted
  wellFramed : h.WellFramed → h'.WellFramed

instance : IsPreorder Host Host.Framing where
  refl _ := ⟨List.prefix_rfl, id⟩
  trans _ _ _ h h' := ⟨h.emitted.trans h'.emitted, h'.wellFramed ∘ h.wellFramed⟩

/-- An update that touches neither the timeline nor what was submitted. -/
theorem framing_of_same {h h' : Host} (ht : h'.timeline = h.timeline)
    (htrace : ∀ type commands, HostEffect.submit type commands ∈ h'.trace →
      HostEffect.submit type commands ∈ h.trace) : h.Framing h' := by
  refine ⟨by rw [ht], fun hh => ⟨by rw [ht]; exact hh.timeline, fun type commands hsubmit => ?_⟩⟩
  rw [ht]
  exact hh.trace type commands (htrace type commands hsubmit)

theorem framing_submitted (type : QueueType) (h : Host) : h.Framing (h.submitted type) := by
  have htimeline : (h.submitted type).timeline = h.timeline.setCommandBuffer [] type := rfl
  refine ⟨by rw [htimeline, setCommandBuffer_emitted], fun hh => ⟨?_, fun type' commands hsubmit => ?_⟩⟩
  · rw [htimeline]
    exact hh.timeline.setCommandBuffer (collected_nil _ type)
  · rw [htimeline, setCommandBuffer_emitted]
    rcases List.mem_append.mp hsubmit with hold | hnew
    · exact hh.trace type' commands hold
    · obtain ⟨rfl, rfl⟩ := HostEffect.submit.inj (List.mem_singleton.mp hnew)
      exact hh.timeline.buffers type'

instance : KeptByGrowth CommandTimeline.Framing Host.Framing where
  setTimeline h t ht := by
    refine ⟨ht.emitted, fun hh => ⟨ht.wellFramed hh.timeline, fun type commands hsubmit => ?_⟩⟩
    exact (hh.trace type commands hsubmit).mono ht.emitted
  submitted := framing_submitted
  setFlags _ _ := framing_of_same rfl fun _ _ => id
  waited _ _ _ := framing_of_same rfl fun type commands hsubmit => by
    rcases List.mem_append.mp hsubmit with hold | hnew
    · exact hold
    · cases List.mem_singleton.mp hnew
  setArguments _ _ _ := framing_of_same rfl fun _ _ => id
  store _ _ := framing_of_same rfl fun _ _ => id
  setFreeSignals _ _ := framing_of_same rfl fun _ _ => id
  setEvents _ _ := framing_of_same rfl fun _ _ => id
  setOperations _ _ := framing_of_same rfl fun _ _ => id
  setVm _ _ := framing_of_same rfl fun _ _ => id
  setSlm _ _ := framing_of_same rfl fun _ _ => id
  setLocalMem _ _ _ := framing_of_same rfl fun _ _ => id

theorem framing_initializeQueue : Keeps Host.Framing initializeQueue := by
  have hpages : Keeps Host.Framing allocatePages := by
    refine (keeps_onVm _).bind fun _ => Keeps.bind (keeps_modify fun _ => ?_) fun _ =>
      (keeps_onVm _).bind fun _ => keeps_modify fun _ => ?_
    · exact framing_of_same rfl fun _ _ => id
    · exact framing_of_same rfl fun _ _ => id
  have hsignals : Keeps Host.Framing allocateSignals := by
    refine (keeps_onVm _).bind fun _ => Keeps.bind (keeps_modify fun _ => ?_) fun _ =>
      keeps_obtainSignal.bind fun _ => keeps_onTimeline <|
        keeps_modify fun t => KeptByPush.setMode t _ _ _ _ _
    exact framing_of_same rfl fun _ _ => id
  refine hpages.bind fun _ => hsignals.bind fun _ => keeps_setupCompute.bind fun _ =>
    keeps_setupDma.bind fun _ => (keeps_onVm _).bind fun _ => keeps_modify fun _ => ?_
  exact framing_of_same rfl fun _ _ => id

/-! ## Runs -/

/-- Some sequence of operations, each succeeding or failing, leads here from a queue as the
constructor left it: `initializeQueue`, and the calls on a stream. -/
inductive Host.Operated : Host → Prop
  | fresh {h : Host} : h.Fresh → Operated h
  | initializeQueue {h h' : Host} {r : Except Failure Unit} :
      Operated h → call initializeQueue h = (r, h') → Operated h'
  | step {h h' : Host} {c : ApiCall} {r : Except Failure Unit} :
      Operated h → h.Step c r h' → Operated h'

/-- A new queue has nothing to frame. -/
theorem Host.Fresh.wellFramed {h : Host} (hf : h.Fresh) : h.WellFramed := by
  refine ⟨⟨fun type => ?_, fun e he => ?_⟩, fun type commands hsubmit => ?_⟩
  · rw [hf.idle type]
    exact collected_nil _ type
  · rw [hf.backlog] at he
    exact absurd he List.not_mem_nil
  · rw [hf.trace] at hsubmit
    exact absurd hsubmit List.not_mem_nil

/-- **Every operation keeps the framing**, whether it succeeds or fails. -/
theorem Host.Operated.wellFramed {h : Host} (hop : h.Operated) : h.WellFramed := by
  induction hop with
  | fresh hf => exact hf.wellFramed
  | initializeQueue _ hc ih => exact (framing_initializeQueue.of_call hc).wellFramed ih
  | @step h h' c r _ hs ih =>
    obtain ⟨values, gpGet, hc⟩ := hs
    -- what the device did in between touches no buffer
    have hobserved : h.Framing (h.observe values gpGet) := framing_of_same rfl fun _ _ => id
    have hkept : (h.observe values gpGet).Framing h' := (keeps_call c).of_call hc
    exact hkept.wellFramed (hobserved.wellFramed ih)

/-- **The push-buffer stream is well framed**: after any sequence of operations, the words of every
segment handed to a channel parse into whole methods, and these are the subchannels, addresses and
arguments of the `enqueue` calls collected in it, in the order of the calls. -/
theorem submissions_well_framed {h : Host} (hop : h.Operated) {type : QueueType}
    {commands : List MethodCall} (hsubmit : HostEffect.submit type commands ∈ h.trace) :
    ∃ methods, parseMethods (commandWords commands) = some methods ∧
      List.Forall₂ MethodCall.Pushes commands methods ∧
      (tagged type commands).Sublist h.timeline.emitted := by
  obtain ⟨⟨methods, hmethods⟩, hordered⟩ := hop.wellFramed.trace type commands hsubmit
  exact ⟨methods, parseMethods_commandWords hmethods, hmethods, hordered⟩

theorem operated_sampleStream : sampleStream.Operated :=
  let ⟨⟨_, hfresh, hc⟩, _⟩ := initialized_sampleStream
  .initializeQueue (.fresh hfresh) hc

theorem submissions_well_framed_sample :
    (HostEffect.submit .dma (setupDmaCalls sampleStream.timeline.timelineSignal) ∈
      sampleStream.trace) ∧
    ∃ methods, parseMethods
        (commandWords (setupDmaCalls sampleStream.timeline.timelineSignal)) = some methods ∧
      List.Forall₂ MethodCall.Pushes (setupDmaCalls sampleStream.timeline.timelineSignal) methods ∧
      (tagged .dma (setupDmaCalls sampleStream.timeline.timelineSignal)).Sublist
        sampleStream.timeline.emitted := by
  have hmem : HostEffect.submit .dma (setupDmaCalls sampleStream.timeline.timelineSignal) ∈
      sampleStream.trace := by
    obtain ⟨computeClass, htrace⟩ := initialized_sampleStream.ready.trace
    rw [htrace]
    simp
  exact ⟨hmem, submissions_well_framed operated_sampleStream hmem⟩

/-- The first method the copy engine is handed sets its object, on subchannel 4. -/
example : (parseMethods (commandWords (setupDmaCalls 0x1000))).map (fun ms => ms.head?) =
    some (some ⟨4, 0, [ampereDmaCopyB]⟩) := by decide

end LibreCuda
