import LibreCuda.Stream.Interference

/-! # Streams that are being created

`initializeQueue` sets up both engines. It submits to a channel, awaits the release that ends the
buffer, and only then goes on with the other channel. While that is under way the stream holds to
the invariants of every other time, and once the last wait has passed its queue is ready.

* **`System.Created`** is a stream whose initialisation is still to be carried out.
* **`System.Created.regular`** and **`System.Created.spares`** start the invariants there. -/

namespace LibreCuda

open Channels Exec

/-! ## The queue -/

/-- The initialisation touches no event. -/
theorem wp_initializeQueue_events {h : Host} (hfresh : h.Fresh) :
    wp initializeQueue (fun _ h' => h'.events = h.events) (fun _ _ => True) h := by
  rw [initializeQueue, wp_bind]
  refine wp_mono (wp_allocatePages h) (fun _ h₁ hpages => ?_) (fun _ _ _ => trivial)
  obtain ⟨hadds, ht₁⟩ := hpages
  have hsignals : wp allocateSignals (fun _ h₂ => h₂.events = h₁.events ∧ h₂.timeline.Idle)
      (fun _ _ => True) h₁ := by
    rw [allocateSignals, wp_bind, wp_onVm]
    refine wp_trivial _ (fun va v => ?_) (fun _ _ => trivial)
    rw [wp_bind, wp_modify, wp_bind]
    refine wp_mono (wp_obtainSignal _) (fun signal h₂ hobtain => ?_) (fun _ _ _ => trivial)
    obtain ⟨idx, rest, -, -, rfl⟩ := hobtain
    rw [wp_onTimeline, wp_modify]
    refine ⟨rfl, fun type => ?_⟩
    have hidle := hfresh.idle type
    rw [← ht₁] at hidle
    cases type <;> exact hidle
  rw [wp_bind]
  refine wp_mono hsignals (fun _ h₂ hok => ?_) (fun _ _ _ => trivial)
  obtain ⟨hevents, hidle⟩ := hok
  rw [wp_bind]
  refine wp_mono (wp_setupCompute hidle) (fun _ h₃ hcompute => ?_) (fun _ _ _ => trivial)
  rw [wp_bind]
  refine wp_mono (wp_setupDma hcompute.2.idle) (fun _ h₄ hdma => ?_) (fun _ _ _ => trivial)
  rw [wp_bind, wp_onVm]
  refine wp_trivial _ (fun va v => ?_) (fun _ _ => trivial)
  rw [wp_modify]
  show h₄.events = h.events
  rw [(setUp_of_pushAll hdma).1.events, (setUp_of_pushAll hcompute.2).1.events, hevents,
    hadds.events]

/-! ## Streams that were created -/

/-- A stream was created, and nothing of its initialisation has been carried out. -/
structure System.Created (s : System) : Prop where
  host : s.host.Initialized
  channels : ∀ type, s.gpu.channel type = {}
  completed : s.gpu.completed = []
  signal : s.gpu.signals s.timelineSignal = 0
  effects : s.effects = s.host.trace
  last : s.last = none
  commenced : s.commenced = 2
  sent : ∀ type, s.sent type = []

section Created

variable {s : System}

/-- What the initialisation submits begins nothing. -/
theorem System.Created.starts (hc : s.Created) {type : QueueType} {commands : List MethodCall}
    (hmem : .submit type commands ∈ s.effects) : starts (dutiesOf type commands) = [] := by
  obtain ⟨computeClass, htrace⟩ := hc.host.ready.trace
  rw [hc.effects, htrace] at hmem
  simp only [List.mem_cons, HostEffect.submit.injEq, reduceCtorEq, List.not_mem_nil, or_false,
    false_or] at hmem
  rcases hmem with ⟨rfl, rfl⟩ | ⟨rfl, rfl⟩
  · obtain ⟨a, b, c, hcompute⟩ :=
      commandsOf_setupComputeCalls computeClass s.host.timeline.timelineSignal
    rw [starts_dutiesOf, hcompute]
    rfl
  · obtain ⟨a, hdma⟩ := commandsOf_setupDmaCalls s.host.timeline.timelineSignal
    rw [starts_dutiesOf, hdma]
    rfl

/-- Effects that begin nothing. -/
theorem starts_sentDuties {type : QueueType} {fx : List HostEffect}
    (h : ∀ commands, .submit type commands ∈ fx → starts (dutiesOf type commands) = []) :
    starts (sentDuties type fx) = [] := by
  induction fx with
  | nil => rfl
  | cons first rest ih =>
    have hrest := ih fun commands hmem => h commands (List.mem_cons_of_mem _ hmem)
    cases first with
    | submit type' commands =>
      show starts ((if type' = type then dutiesOf type commands else []) ++ sentDuties type rest) = []
      rw [starts_append, hrest, List.append_nil]
      split_ifs with hsame
      · subst hsame
        exact h commands List.mem_cons_self
      · rfl
    | waitCpu signal value => exact hrest

theorem System.Created.knows (hc : s.Created) : s.Knows 2 := by
  have hready := hc.host.ready
  have hdone : s.gpu.Done 2 2 := fun k hk hle => absurd hk (Nat.not_lt.mpr hle)
  have hreached : ∀ type, s.reached type = 0 := fun type => by
    rw [System.reached, hc.sent]
    rfl
  refine ⟨hdone, ?_, fun type => ?_, ?_⟩
  · rw [hc.signal]
    exact hdone.mono (Nat.zero_le 2)
  · rw [hreached]
    refine ⟨knownAt 2 0, ⟨hdone, fun n hn hle => absurd hn (Nat.not_lt.mpr hle)⟩, ?_, ?_⟩
    · rw [hc.channels]
      trivial
    · rw [hc.channels]
      exact Known.Below.refl _
  · -- the releases of one and two are for operations that were there from the start
    obtain ⟨computeClass, htrace⟩ := hready.trace
    obtain ⟨x, y, z, hcompute⟩ :=
      commandsOf_setupComputeCalls computeClass s.host.timeline.timelineSignal
    obtain ⟨w, hdma⟩ := commandsOf_setupDmaCalls s.host.timeline.timelineSignal
    have hsettles : Settles s.host s.commenced s.last 2 := by
      refine ⟨?_, fun r hlast => ?_⟩
      · have hcommenced : s.commenced = s.host.timeline.timelineSteps :=
          hc.commenced.trans hready.timelineSteps.symm
        rw [hcommenced]
        exact disciplined_of_idle (by rw [hready.timelineCtr, hready.timelineSteps]; rfl)
          hready.idle hready.backlog 2
      · rw [hc.last] at hlast
        cases hlast
    have hreach : s.reached = fun _ => 0 := funext hreached
    rw [hc.effects, htrace, hreach]
    simp [Carried, hcompute, hdma, Known.Allows, Known.advance, knownAt, System.timelineSignal,
      hsettles]

theorem System.Created.labelled (hc : s.Created) : s.Labelled := by
  obtain ⟨hnumbered, htagged⟩ := hc.host.ready.numbered
  refine ⟨hnumbered, htagged, fun type commands hmem m hm tag htag => ?_,
    fun type n ordered hmem => ?_⟩
  · obtain ⟨computeClass, htrace⟩ := hc.host.ready.trace
    rw [hc.effects, htrace] at hmem
    have huntagged : m.op = none := by
      simp only [List.mem_cons, HostEffect.submit.injEq, reduceCtorEq, List.not_mem_nil, or_false,
        false_or] at hmem
      rcases hmem with ⟨rfl, rfl⟩ | ⟨rfl, rfl⟩
      · simp only [setupComputeCalls, objectAndWindows, releaseCalls, List.mem_append,
          List.mem_cons, List.not_mem_nil, or_false] at hm
        rcases hm with (rfl | rfl | rfl) | rfl | rfl <;> rfl
      · simp only [setupDmaCalls, releaseCalls, List.mem_append, List.mem_cons, List.not_mem_nil,
          or_false] at hm
        rcases hm with rfl | rfl | rfl | rfl <;> rfl
    rw [huntagged] at htag
    cases htag
  · rw [hc.channels] at hmem
    cases hmem

theorem System.Created.conserves (hc : s.Created) : s.Conserves fun _ => [] := by
  have hready := hc.host.ready
  refine ⟨hready.idle.settled, fun type => ?_, fun n => ?_⟩
  · rw [System.numbersFor, hready.operations, System.stream, hc.channels, CommandTimeline.duties,
      CommandTimeline.queued, hready.backlog, hready.idle, hready.idle, starts_append,
      starts_append, starts_sentDuties fun commands => hc.starts]
    rfl
  · rw [Machine.begun, hc.completed]
    simp only [hc.channels, List.count_nil, Finset.sum_const_zero, Nat.add_zero]

theorem System.Created.beside (hc : s.Created) : s.Beside := by
  have hready := hc.host.ready
  refine ⟨fun type n hn => ?_, sealed_of_idle hready.idle hready.backlog,
    fun type ms hmem => ?_, fun type _ => ?_, fun k hk => ?_⟩
  · rw [hc.channels] at hn
    cases hn
  · exact sealedFor_of_starts (hc.starts hmem)
  · rw [hc.channels]
    exact ⟨trivial, nofun⟩
  · rcases hk with hk | ⟨type, hk⟩
    · rw [hc.completed] at hk
      cases hk
    · rw [hc.channels] at hk
      cases hk

/-- **A stream that was created has the invariants.** -/
theorem System.Created.regular (hc : s.Created) : s.Regular :=
  ⟨hc.host.usable, hc.labelled, ⟨2, hc.knows⟩, ⟨_, hc.conserves⟩, hc.beside⟩

/-- **It spares every signal** that is neither its own nor one of its pool. -/
theorem System.Created.spares (hc : s.Created) {sig : NvU64} (hne : s.timelineSignal ≠ sig)
    (hpool : ∀ idx ∈ s.host.queue.freeSignals,
      s.host.queue.signalPool + idx.setWidth 64 * nvSignalBytes ≠ sig) : s.Spares sig := by
  have hready := hc.host.ready
  refine ⟨⟨fun type => ?_, ?_, outstanding_of_idle hready.idle hready.backlog⟩, hne, hpool⟩
  · rw [hc.channels]
    rfl
  · obtain ⟨a, b, c, d, hcommands⟩ := hready.submittedCommands
    rw [hc.effects, hcommands]
    have hreleases : ∀ value, Command.releases sig
        (.release s.host.timeline.timelineSignal value : GpuCommand) = false :=
      fun value => decide_eq_false hne
    simp only [releaseCount_cons, releaseCount_nil, hreleases]
    rfl

end Created

end LibreCuda
