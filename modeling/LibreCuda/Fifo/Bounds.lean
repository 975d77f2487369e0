import LibreCuda.Fifo.Submission
import LibreCuda.Queue.ArgumentPage
import LibreCuda.Queue.Batches
import LibreCuda.Queue.Targets

/-! # Command pages and long batches

A launch, a copy and the recording of an event add words to a command buffer, and nothing bounds how
many are added before a commence. `submitToFifo` copies the whole buffer to the page of the engine:
behind the write index if it fits there, and otherwise to the start of the page, where it is not
compared with the size of the page again.

* **`Host.Received`** says what all calls do to the pages: they receive what is submitted, buffer by
  buffer.
* **`Host.PagesHold`**: every buffer was written inside its page.
* **`pages_hold_iff`**: this is so in exactly the runs in which no buffer that was submitted is
  longer than a page.
* **`long_batch_leaves_page`**: copies alone, enqueued before one commence, fill a longer one. -/

namespace LibreCuda

open Exec Rings Runs

/-! ## Pages -/

/-- What `submitToFifo` does to a page that receives these words. -/
def CommandQueuePage.receive (page : CommandQueuePage) (words : List NvU32) : CommandQueuePage :=
  page.copyIn (placeAt maxCmdQueuePageSize page.commandWriteIdx words.length) words

/-- The page behind several buffers. -/
def CommandQueuePage.receiveAll (page : CommandQueuePage) (buffers : List (List NvU32)) :
    CommandQueuePage := buffers.foldl CommandQueuePage.receive page

/-- The word indices that are written for each buffer: the first one, and their number. -/
def CommandQueuePage.writes (page : CommandQueuePage) : List (List NvU32) → List (ℕ × ℕ)
  | [] => []
  | words :: rest => (placeAt maxCmdQueuePageSize page.commandWriteIdx words.length, words.length) ::
      (page.receive words).writes rest

theorem CommandQueuePage.receiveAll_append (page : CommandQueuePage) (a b : List (List NvU32)) :
    page.receiveAll (a ++ b) = (page.receiveAll a).receiveAll b := List.foldl_append

/-- Where the buffers go depends on their lengths only. -/
theorem CommandQueuePage.writes_eq (page : CommandQueuePage) (buffers : List (List NvU32)) :
    page.writes buffers =
      placements maxCmdQueuePageSize page.commandWriteIdx (buffers.map List.length) := by
  induction buffers generalizing page with
  | nil => rfl
  | cons words rest ih =>
    rw [CommandQueuePage.writes, ih, List.map_cons, placements]
    rfl

theorem CommandQueuePage.receiveAll_commandWriteIdx (page : CommandQueuePage)
    (buffers : List (List NvU32)) : (page.receiveAll buffers).commandWriteIdx =
      placedEnd maxCmdQueuePageSize page.commandWriteIdx (buffers.map List.length) := by
  induction buffers generalizing page with
  | nil => rfl
  | cons words rest ih => exact ih (page.receive words)

/-- A submission is received by the page of its engine. -/
theorem submitted_page_eq_receive (type : QueueType) (h : Host) :
    (h.submitted type).queue.page type =
      (h.queue.page type).receive (commandWords (h.queue.commandBuffer type)) := by
  rw [submitted_page, CommandQueuePage.receive, placeAt]
  simp only [Host.fitsPage, decide_eq_true_eq]

theorem submitted_page_other (type : QueueType) (h : Host) :
    (h.submitted type).queue.page type.other = h.queue.page type.other := by
  cases type <;> rfl

/-! ## Calls -/

/-- The buffers that effects hand to an engine. -/
def buffersFor (type : QueueType) (fx : List HostEffect) : List (List NvU32) :=
  fx.filterMap fun
    | .submit type' commands => if type' = type then some (commandWords commands) else none
    | .waitCpu .. => none

theorem buffersFor_append (type : QueueType) (fx gx : List HostEffect) :
    buffersFor type (fx ++ gx) = buffersFor type fx ++ buffersFor type gx := List.filterMap_append

/-- The pages received what was submitted. -/
structure Host.Received (h h' : Host) : Prop where
  effects : ∃ fx, h'.trace = h.trace ++ fx ∧
    ∀ type, h'.queue.page type = (h.queue.page type).receiveAll (buffersFor type fx)

theorem received_of_same {h h' : Host} (htrace : h'.trace = h.trace)
    (hpage : ∀ type, h'.queue.page type = h.queue.page type) : h.Received h' :=
  ⟨[], htrace.trans (List.append_nil _).symm, hpage⟩

instance : IsPreorder Host Host.Received where
  refl _ := received_of_same rfl fun _ => rfl
  trans h h' h'' := by
    rintro ⟨fx, htrace, hpage⟩ ⟨gx, htrace', hpage'⟩
    refine ⟨fx ++ gx, ?_, fun type => ?_⟩
    · rw [htrace', htrace, List.append_assoc]
    · rw [hpage', hpage, buffersFor_append, CommandQueuePage.receiveAll_append]

/-- **A submission** is received by the page of its engine, and by no other. -/
theorem received_submitted (type : QueueType) (h : Host) : h.Received (h.submitted type) := by
  refine ⟨[.submit type (h.queue.commandBuffer type)], rfl, ?_⟩
  refine forall_queueType type ?_ ?_
  · rw [submitted_page_eq_receive]
    simp [buffersFor, CommandQueuePage.receiveAll]
  · rw [submitted_page_other]
    simp [buffersFor, CommandQueuePage.receiveAll, type.ne_other]

instance : KeptByGrowth anyTimeline Host.Received where
  setTimeline _ _ _ := received_of_same rfl fun type => by cases type <;> rfl
  submitted := received_submitted
  setFlags _ _ := received_of_same rfl fun type => by cases type <;> rfl
  waited _ pSignal signalTarget :=
    ⟨[.waitCpu pSignal signalTarget], rfl, fun type => by cases type <;> rfl⟩
  setArguments _ _ _ := received_of_same rfl fun type => by cases type <;> rfl
  store _ _ := received_of_same rfl fun type => by cases type <;> rfl
  setFreeSignals _ _ := received_of_same rfl fun type => by cases type <;> rfl
  setEvents _ _ := received_of_same rfl fun type => by cases type <;> rfl
  setOperations _ _ := received_of_same rfl fun type => by cases type <;> rfl
  setVm _ _ := received_of_same rfl fun type => by cases type <;> rfl
  setSlm _ _ := received_of_same rfl fun type => by cases type <;> rfl
  setLocalMem _ _ _ := received_of_same rfl fun type => by cases type <;> rfl

/-! ## Runs -/

/-- A stream whose queue was initialised from the state the constructor left, pages included. -/
structure Host.Started (h : Host) : Prop where
  setUp : ∃ h₀ : Host, h₀.Fresh ∧ (∀ type, (h₀.queue.page type).commandWriteIdx = 0) ∧
    call initializeQueue h₀ = (.ok (), h)
  events : ∀ e type, (h.events e).signal type ≠ h.timeline.timelineSignal

/-- The pages are what the submissions so far made of new ones. -/
def Host.Replays (s : Host) : Prop :=
  ∃ page₀ : QueueType → CommandQueuePage, (∀ type, (page₀ type).commandWriteIdx = 0) ∧
    ∀ type, s.queue.page type = (page₀ type).receiveAll (buffersFor type s.trace)

/-- **The pages hold**: every buffer submitted so far was written to word indices of its page, and
no write index is behind the end of its page. -/
structure Host.PagesHold (s : Host) : Prop where
  written : ∀ type, ∀ w ∈ ({} : CommandQueuePage).writes (buffersFor type s.trace),
    w.1 + w.2 ≤ maxCmdQueuePageSize
  commandWriteIdx : ∀ type, (s.queue.page type).commandWriteIdx ≤ maxCmdQueuePageSize

/-- No buffer submitted so far is longer than a page. -/
def Host.BuffersFit (s : Host) : Prop :=
  ∀ type, ∀ words ∈ buffersFor type s.trace, words.length ≤ maxCmdQueuePageSize

theorem Host.Started.initialized {h : Host} (hs : h.Started) : h.Initialized := by
  obtain ⟨⟨h₀, hfresh, -, hc⟩, hevents⟩ := hs
  exact ⟨⟨h₀, hfresh, hc⟩, hevents⟩

theorem Host.Received.replays {h h' : Host} (hreceived : h.Received h') (hr : h.Replays) :
    h'.Replays := by
  obtain ⟨page₀, hnew, hpage⟩ := hr
  obtain ⟨fx, htrace, hpage'⟩ := hreceived
  refine ⟨page₀, hnew, fun type => ?_⟩
  rw [hpage', hpage, htrace, buffersFor_append, CommandQueuePage.receiveAll_append]

/-- Nothing was submitted, and nothing was written. -/
structure Host.SameIndices (h h' : Host) : Prop where
  trace : h'.trace = h.trace
  commandWriteIdx : ∀ type, (h'.queue.page type).commandWriteIdx = (h.queue.page type).commandWriteIdx

instance : IsPreorder Host Host.SameIndices where
  refl _ := ⟨rfl, fun _ => rfl⟩
  trans _ _ _ h h' := ⟨h'.trace.trans h.trace, fun type =>
    (h'.commandWriteIdx type).trans (h.commandWriteIdx type)⟩

theorem keepsIndices_allocatePages : Keeps Host.SameIndices allocatePages := by
  have halloc : ∀ size, Keeps Host.SameIndices (onVm (gpuAlloc size false true)) := by
    intro size h
    rw [wp_onVm]
    exact wp_trivial _ (fun _ _ => ⟨rfl, fun type => by cases type <;> rfl⟩)
      fun _ _ => ⟨rfl, fun type => by cases type <;> rfl⟩
  refine (halloc _).bind fun _ => Keeps.bind (keeps_modify fun _ => ?_) fun _ =>
    (halloc _).bind fun _ => keeps_modify fun _ => ?_
  · exact ⟨rfl, fun type => by cases type <;> rfl⟩
  · exact ⟨rfl, fun type => by cases type <;> rfl⟩

theorem received_allocateSignals : Keeps Host.Received allocateSignals := by
  refine (keeps_onVm _).bind fun _ => Keeps.bind (keeps_modify fun _ => ?_) fun _ =>
    keeps_obtainSignal.bind fun _ => keeps_onTimeline (keeps_anyTimeline _)
  exact received_of_same rfl fun type => by cases type <;> rfl

/-- **A stream that was started** replays what its set-up submitted. -/
theorem Host.Started.replays {h : Host} (hs : h.Started) : h.Replays := by
  obtain ⟨⟨h₀, hfresh, hnew, hc⟩, -⟩ := hs
  have hstart : wp initializeQueue (fun _ h => h.Replays) (fun _ _ => True) h₀ := by
    rw [initializeQueue, wp_bind]
    refine wp_mono (keepsIndices_allocatePages h₀) (fun _ h₁ hsame => ?_) (fun _ _ _ => trivial)
    have htrace : h₁.trace = [] := hsame.trace.trans hfresh.trace
    have hr₁ : h₁.Replays := by
      refine ⟨h₁.queue.page, fun type => (hsame.commandWriteIdx type).trans (hnew type),
        fun type => ?_⟩
      rw [htrace]
      rfl
    -- behind the pages, the set-up is made of updates
    refine wp_mono (Keeps.bind received_allocateSignals (fun _ => keeps_setupCompute.bind fun _ =>
      keeps_setupDma.bind fun _ => (keeps_onVm _).bind fun _ => keeps_modify fun _ => ?_) h₁)
      (fun _ _ hreceived => hreceived.replays hr₁) (fun _ _ _ => trivial)
    exact received_of_same rfl fun type => by cases type <;> rfl
  exact (wp_of_call hc).mp hstart

/-- **One call** goes on replaying. -/
theorem Host.Replays.next {s s' : Host} {c : ObservedCall} (hr : s.Replays)
    (hs : s.next c = some s') : s'.Replays := by
  obtain rfl := Option.some.inj hs
  have hobserved : s.Received (s.observe c.2.1 c.2.2) :=
    received_of_same rfl fun type => by cases type <;> rfl
  have hmade : (s.observe c.2.1 c.2.2).Received (s.made c).2 := (keeps_call c.1).of_call rfl
  exact hmade.replays (hobserved.replays hr)

/-- **The pages hold in exactly the states in which all submitted buffers fit.** -/
theorem Host.Replays.pagesHold_iff {s : Host} (hr : s.Replays) : s.PagesHold ↔ s.BuffersFit := by
  have hwritten : ∀ type, (∀ w ∈ ({} : CommandQueuePage).writes (buffersFor type s.trace),
      w.1 + w.2 ≤ maxCmdQueuePageSize) ↔
        ∀ words ∈ buffersFor type s.trace, words.length ≤ maxCmdQueuePageSize := by
    intro type
    rw [CommandQueuePage.writes_eq, placements_inside_iff, List.forall_mem_map]
  constructor
  · intro hpages type
    exact (hwritten type).mp (hpages.written type)
  · intro hfit
    obtain ⟨page₀, hnew, hpage⟩ := hr
    refine ⟨fun type => (hwritten type).mpr (hfit type), fun type => ?_⟩
    rw [hpage, CommandQueuePage.receiveAll_commandWriteIdx, hnew]
    apply placedEnd_le (Nat.zero_le _)
    rw [List.forall_mem_map]
    exact hfit type

/-! ## What is handed over -/

/-- The buffers a commence hands over unless it is refused: that of the engine the queue is in the
mode of, or one for each segment. -/
def CommandTimeline.handed (t : CommandTimeline) : List (List MethodCall) :=
  if t.commandBufBacklog.isEmpty then (t.currentQueueType.map t.current).toList
  else t.setAsideBoth.commandBufBacklog.map fun e => e.commands t.timelineSignal

/-- No buffer a commence is about to hand over is longer than a page. -/
def CommencesFit (s : Host) (c : ObservedCall) : Prop :=
  c.1 = .startExecution →
    ∀ buffer ∈ s.timeline.handed, (commandWords buffer).length ≤ maxCmdQueuePageSize

theorem mem_buffersFor {type : QueueType} {fx : List HostEffect} {words : List NvU32} :
    words ∈ buffersFor type fx ↔
      ∃ commands, .submit type commands ∈ fx ∧ commandWords commands = words := by
  rw [buffersFor, List.mem_filterMap]
  constructor
  · rintro ⟨e, hmem, he⟩
    cases e with
    | submit type' commands =>
      simp only [Option.ite_none_right_eq_some, Option.some.injEq] at he
      obtain ⟨rfl, hwords⟩ := he
      exact ⟨commands, hmem, hwords⟩
    | waitCpu => cases he
  · rintro ⟨commands, hmem, hwords⟩
    exact ⟨_, hmem, by simp [hwords]⟩

theorem mem_submitEffect {type type' : QueueType} {buffer commands : List MethodCall}
    (hmem : .submit type commands ∈ submitEffect type' buffer) : commands = buffer := by
  unfold submitEffect at hmem
  split_ifs at hmem
  · cases hmem
  · rw [List.mem_singleton] at hmem
    exact (HostEffect.submit.inj hmem).2

/-- The loop over segments submits the commands of segments. -/
theorem mem_backlogEffects {timelineSignal : NvU64} {entries : List CommandBufSplit}
    {type : QueueType} {commands : List MethodCall}
    (hmem : .submit type commands ∈ backlogEffects timelineSignal entries) :
    ∃ e ∈ entries, commands = e.commands timelineSignal := by
  obtain ⟨e, he, hmem⟩ := List.mem_flatMap.mp hmem
  rw [entryEffects, List.mem_append] at hmem
  rcases hmem with hmem | hmem
  · exact ⟨e, he, mem_submitEffect hmem⟩
  · simp at hmem

/-- **What a commence submits** is among what it hands over, whether it succeeds or fails. -/
theorem submits_of_startExecution {h h' : Host} {r : Except Failure Unit} (hu : h.Usable)
    (hc : call startExecution h = (r, h')) : ∃ fx, h'.trace = h.trace ++ fx ∧
      ∀ type commands, .submit type commands ∈ fx → commands ∈ h.timeline.handed := by
  have hsig := hu.timelineSignal
  have hnone : ∃ fx, h.trace = h.trace ++ fx ∧
      ∀ type commands, .submit type commands ∈ fx → commands ∈ h.timeline.handed := by
    refine ⟨[], (List.append_nil _).symm, fun _ _ hmem => ?_⟩
    cases hmem
  by_cases hnil : h.timeline.commandBufBacklog = []
  · rcases wp_call hc (wp_startExecution_of_nil hsig hnil) with ⟨_, -, hok⟩ | ⟨_, -, herr⟩
    · rcases hok.submitted with ⟨type, hmode, -, hadds, -⟩ | ⟨-, hadds, -⟩
      · refine ⟨_, hadds.trace, fun type' commands hmem => ?_⟩
        rw [mem_submitEffect hmem, CommandTimeline.handed, if_pos (List.isEmpty_iff.mpr hnil),
          hmode]
        exact List.mem_singleton_self _
      · rw [hadds.trace, List.append_nil]
        exact hnone
    · rcases herr with rfl | ⟨_, -, -, hadds, -⟩
      · exact hnone
      · rw [hadds.trace, List.append_nil]
        exact hnone
  · have hhanded : ∀ e ∈ h.timeline.setAsideBoth.commandBufBacklog,
        e.commands h.timeline.timelineSignal ∈ h.timeline.handed := by
      intro e he
      rw [CommandTimeline.handed, if_neg (fun hempty => hnil (List.isEmpty_iff.mp hempty))]
      exact List.mem_map.mpr ⟨e, he, rfl⟩
    rcases wp_call hc (wp_startExecution_of_ne_nil hsig hu.waits hnil) with
      ⟨_, -, hok⟩ | ⟨_, -, herr⟩
    · refine ⟨_, hok.adds.trace, fun type commands hmem => ?_⟩
      obtain ⟨e, he, rfl⟩ := mem_backlogEffects hmem
      exact hhanded e he
    · obtain ⟨pre, e, post, hsplit, hadds, -⟩ := herr.stopped
      refine ⟨_, hadds.trace, fun type commands hmem => ?_⟩
      obtain ⟨e', he', rfl⟩ := mem_backlogEffects hmem
      exact hhanded e' (hsplit ▸ List.mem_append_left _ he')

/-- **One call** submits no buffer that is too long, if no commence is about to. -/
theorem Host.BuffersFit.made {s : Host} {c : ObservedCall} (hu : s.Usable) (hfit : s.BuffersFit)
    (hcommence : CommencesFit s c) : (s.made c).2.BuffersFit := by
  have hu' := hu.observe c.2.1 c.2.2
  obtain ⟨fx, htrace, hfx⟩ : ∃ fx, (s.made c).2.trace = s.trace ++ fx ∧
      ∀ type commands, .submit type commands ∈ fx →
        (commandWords commands).length ≤ maxCmdQueuePageSize := by
    have hcall : call c.1.run (s.observe c.2.1 c.2.2) = ((s.made c).1, (s.made c).2) := rfl
    have hbuilds : c.1.Builds → ∃ fx, (s.made c).2.trace = s.trace ++ fx ∧
        ∀ type commands, .submit type commands ∈ fx →
          (commandWords commands).length ≤ maxCmdQueuePageSize := by
      intro hb
      refine ⟨[], (trace_of_builds hb hu' hcall).trans (List.append_nil _).symm, fun _ _ hmem => ?_⟩
      cases hmem
    rcases c with ⟨c, values, gpGet⟩
    cases c with
    | launchFunction => exact hbuilds trivial
    | gpuMemcpy => exact hbuilds trivial
    | recordEvent => exact hbuilds trivial
    | startExecution =>
      obtain ⟨fx, htrace, hfx⟩ := submits_of_startExecution hu' hcall
      exact ⟨fx, htrace, fun type commands hmem => hcommence rfl _ (hfx type commands hmem)⟩
    | awaitExecution =>
      obtain ⟨_, h', hc, -, -, -, -, -, htrace⟩ :=
        exists_ok_of_wp (wp_awaitExecution hu'.timelineSignal hu'.waits)
      obtain rfl : h' = (s.made (.awaitExecution, values, gpGet)).2 :=
        (Prod.ext_iff.mp (hc.symm.trans hcall)).2
      exact ⟨_, htrace, fun _ _ hmem => by simp at hmem⟩
  intro type words hmem
  rw [htrace, buffersFor_append, List.mem_append] at hmem
  rcases hmem with hmem | hmem
  · exact hfit type words hmem
  · obtain ⟨commands, hsubmit, rfl⟩ := mem_buffersFor.mp hmem
    exact hfx type commands hsubmit

/-- The buffers of the set-up are short. -/
theorem Host.Started.buffersFit {h : Host} (hs : h.Started) : h.BuffersFit := by
  obtain ⟨computeClass, htrace⟩ := hs.initialized.ready.trace
  intro type words hmem
  obtain ⟨commands, hsubmit, rfl⟩ := mem_buffersFor.mp hmem
  rw [htrace] at hsubmit
  simp only [List.mem_cons, List.not_mem_nil, or_false, HostEffect.submit.injEq, reduceCtorEq,
    false_or] at hsubmit
  rcases hsubmit with ⟨-, rfl⟩ | ⟨-, rfl⟩
  · show 16 ≤ _
    decide
  · show 8 ≤ _
    decide

/-- **Commands stay inside their page in exactly the runs in which no submitted buffer is longer
than a page**: for every sequence of calls on a stream, of any length, each succeeding or failing.
It is enough that no commence finds a longer one to hand over. -/
theorem pages_hold_iff {h : Host} (hs : h.Started) (calls : List ObservedCall) :
    (Always Host.next Host.PagesHold h calls ↔ Always Host.next Host.BuffersFit h calls) ∧
      (Meets Host.next CommencesFit h calls → Always Host.next Host.PagesHold h calls) := by
  have hreplays : Always Host.next Host.Replays h calls :=
    always_of_step (fun _ _ _ hr hstep => hr.next hstep) hs.replays
  have hiff : Always Host.next Host.PagesHold h calls ↔ Always Host.next Host.BuffersFit h calls := by
    constructor
    · intro hpages
      exact (hreplays.and hpages).imp fun _ hboth => hboth.1.pagesHold_iff.mp hboth.2
    · intro hfit
      exact (hreplays.and hfit).imp fun _ hboth => hboth.1.pagesHold_iff.mpr hboth.2
  refine ⟨hiff, fun hcommences => hiff.mpr ?_⟩
  have hkept : Always Host.next (fun s => s.Usable ∧ s.BuffersFit) h calls := by
    refine always_of_meets (fun s c s' hkept hcommence hs' => ?_)
      ⟨hs.initialized.usable, hs.buffersFit⟩ hcommences
    obtain rfl := Option.some.inj hs'
    exact ⟨(hkept.1.observe c.2.1 c.2.2).call rfl, hkept.2.made hkept.1 hcommence⟩
  exact hkept.imp fun _ hboth => hboth.2

theorem started_sampleStream : sampleStream.Started := by
  refine ⟨⟨sampleFresh, ?_, fun type => by cases type <;> rfl, Prod.ext (by rfl) rfl⟩,
    initialized_sampleStream.2⟩
  exact ⟨fun type => by cases type <;> rfl, rfl, rfl, rfl, rfl, rfl, rfl, rfl, rfl⟩

/-- A copy, when every signal is two. -/
def observedCopy : ObservedCall := (sampleCopy false, fun _ => 2, (0, 0))

/-- A launch and a copy, commenced together. -/
theorem pages_hold_iff_sample : Always Host.next Host.PagesHold sampleStream
    [(sampleLaunch false, fun _ => 2, (0, 0)), observedCopy,
      (.startExecution, fun _ => 2, (0, 0))] := by
  refine (pages_hold_iff started_sampleStream _).2 fun s₁ h₁ => ⟨fun hc => ?_, fun s₂ h₂ =>
    ⟨fun hc => ?_, fun s₃ h₃ => ⟨fun _ => ?_, trivial⟩⟩⟩
  · cases hc
  · cases hc
  · obtain rfl := Option.some.inj h₁
    obtain rfl := Option.some.inj h₂
    decide +kernel

/-! ## A run that fills more than a page -/

/-- A copy adds fifteen words to the buffer of the copy engine. -/
theorem length_of_copied {h h' : Host} (hg : h.timeline.Gathers .dma) (hc : h.Copied false h') :
    h'.timeline.Gathers .dma ∧ h'.timeline.Settled ∧
      (commandWords (h'.timeline.commandBuffer .dma)).length =
        (commandWords (h.timeline.commandBuffer .dma)).length + 15 := by
  obtain ⟨dst, src, numBytes, ht⟩ := hc.timeline
  rw [CommandTimeline.select, if_pos hg.other] at ht
  have ha := (appends_pushAll { h.timeline with currentQueueType := some .dma } .dma
    (copyCalls dst src numBytes ⟨h.timeline.timelineSteps + 1, false⟩)).trans
      (appends_finish _ .dma false)
  rw [← ht] at ha
  have hother : h'.timeline.commandBuffer .compute = [] := ha.commandBuffer_other.trans hg.other
  refine ⟨⟨hother, ha.commandBufBacklog.trans hg.backlog⟩,
    settled_of_mode ha.currentQueueType hother, ?_⟩
  rw [ha.commandBuffer, commandWords_append, List.length_append]
  rfl

/-- A commence of more words than a page holds goes through when the ring is empty. -/
theorem commence_long {s : Host} (hu : s.Usable) (hr : s.Replays) (hs : s.timeline.Settled)
    (hg : s.timeline.Gathers .dma)
    (hlong : maxCmdQueuePageSize < (commandWords (s.timeline.commandBuffer .dma)).length) :
    ∃ gpGet, (s.made (.startExecution, fun _ => 2, gpGet)).1 = .ok () ∧
      ¬ (s.made (.startExecution, fun _ => 2, gpGet)).2.PagesHold := by
  obtain ⟨gpGet, hgpGet⟩ : ∃ gpGet : NvU32 × NvU32, gpGet = (0, (s.ctx.gpfifo .dma).gpPut) :=
    ⟨_, rfl⟩
  have hne : s.timeline.commandBuffer .dma ≠ [] := by
    intro hnil
    rw [hnil] at hlong
    exact absurd hlong (Nat.not_lt_zero _)
  have hmode := hs.mode_of_ne_nil hne
  have hu' := hu.observe (fun _ => 2) gpGet
  obtain ⟨h', hc⟩ := startExecution_of_fetched hu' hg.backlog hmode hg.other (by rw [hgpGet]; rfl)
  have hmade : s.made (.startExecution, fun _ => 2, gpGet) = (.ok (), h') := hc
  refine ⟨gpGet, by rw [hmade], ?_⟩
  have hr' : h'.Replays := by
    apply hr.next (c := (.startExecution, fun _ => 2, gpGet))
    rw [Host.next, hmade]
  rw [hmade, hr'.pagesHold_iff]
  intro hfit
  have hcommenced := (wp_of_call hc).mp (wp_startExecution_of_nil hu'.timelineSignal hg.backlog)
  rcases hcommenced.submitted with ⟨type, hmode', -, hadds, -⟩ | ⟨hnone, -⟩
  · obtain rfl : QueueType.dma = type := Option.some.inj (hmode.symm.trans hmode')
    have hcurrent : s.timeline.current .dma ≠ [] := List.append_ne_nil_of_left_ne_nil hne _
    have hmem : commandWords (s.timeline.current .dma) ∈ buffersFor .dma h'.trace := by
      rw [hadds.trace, buffersFor_append, List.mem_append]
      apply Or.inr
      show _ ∈ buffersFor .dma (submitEffect .dma (s.timeline.current .dma))
      rw [submitEffect, if_neg hcurrent]
      simp [buffersFor]
    have hbound := hfit .dma _ hmem
    rw [CommandTimeline.current, commandWords_append, List.length_append] at hbound
    omega
  · exact absurd (hmode.symm.trans hnone) (by simp)

/-- Copies and one commence, in which every call succeeds. -/
theorem copies_leave_page (n : ℕ) {s : Host} (hu : s.Usable) (hr : s.Replays)
    (hs : s.timeline.Settled) (hg : s.timeline.Gathers .dma) (hlong : maxCmdQueuePageSize <
      (commandWords (s.timeline.commandBuffer .dma)).length + 15 * n) :
    ∃ gpGet, Meets Host.next (fun s c => (s.made c).1 = .ok ()) s
        (List.replicate n observedCopy ++ [(.startExecution, fun _ => 2, gpGet)]) ∧
      ¬ Always Host.next Host.PagesHold s
        (List.replicate n observedCopy ++ [(.startExecution, fun _ => 2, gpGet)]) := by
  induction n generalizing s with
  | zero =>
    obtain ⟨gpGet, hok, hpast⟩ := commence_long hu hr hs hg hlong
    exact ⟨gpGet, fun _ _ => ⟨hok, trivial⟩, fun hpages => hpast (hpages.2 _ rfl)⟩
  | succ n ih =>
    obtain ⟨h', hc, hcopied⟩ := sampleCopy_succeeds (hu.observe (fun _ => 2) (0, 0))
    have hmade : s.made observedCopy = (.ok (), h') := hc
    have hnext : s.next observedCopy = some h' := by rw [Host.next, hmade]
    obtain ⟨hg', hs', hlength⟩ := length_of_copied (h := s.observe (fun _ => 2) (0, 0)) hg hcopied
    have hlong' : maxCmdQueuePageSize <
        (commandWords (h'.timeline.commandBuffer .dma)).length + 15 * n := by
      rw [hlength]
      show _ < (commandWords (s.timeline.commandBuffer .dma)).length + 15 + 15 * n
      omega
    obtain ⟨gpGet, hmeets, hpast⟩ :=
      ih ((hu.observe _ _).call hc) (hr.next hnext) hs' hg' hlong'
    refine ⟨gpGet, fun s₁ h₁ => ?_, fun hpages => hpast (hpages.2 h' hnext)⟩
    obtain rfl : h' = s₁ := Option.some.inj (hnext.symm.trans h₁)
    refine ⟨?_, hmeets⟩
    show (s.made observedCopy).1 = .ok ()
    rw [hmade]

/-- **Past the page.** Copies are enqueued until they fill more than a page, which uses up nothing
else; the commence behind them finds the ring empty and copies all of them to the page. -/
theorem long_batch_leaves_page : ∃ (h : Host) (gpGet : NvU32 × NvU32), h.Started ∧
    Meets Host.next (fun s c => (s.made c).1 = .ok ()) h
      (List.replicate 139811 observedCopy ++ [(.startExecution, fun _ => 2, gpGet)]) ∧
    ¬ Always Host.next Host.PagesHold h
      (List.replicate 139811 observedCopy ++ [(.startExecution, fun _ => 2, gpGet)]) := by
  have hready := initialized_sampleStream.ready
  obtain ⟨gpGet, hok, hpast⟩ := copies_leave_page 139811 initialized_sampleStream.usable
    started_sampleStream.replays hready.idle.settled ⟨hready.idle _, hready.backlog⟩ (by
      rw [maxCmdQueuePageSize]
      omega)
  exact ⟨sampleStream, gpGet, started_sampleStream, hok, hpast⟩

end LibreCuda
