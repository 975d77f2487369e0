import LibreCuda.Queue.Releases
import LibreCuda.Stream.System

/-! # The barrier between segments

A commence with a backlog submits a segment, waits for the segment's target and submits the next.
The wait is a barrier exactly where the release of the target is the last command of the segment and
nothing before it lifts the signal as high (`Fenced`). A segment that ends with the release of an
event is not awaited to its end.

* **`System.Barred`** is the invariant of such a commence, effect by effect.
* **`segments_executed_before_next`**: when a segment is submitted, the engines of all earlier ones
  are drained. -/

namespace LibreCuda

open Channels Exec

/-- Every segment but the last ends with the release of its own target, and that is higher than
`low`, than the targets of the segments before it and than the other releases of the segment. -/
def Fenced (timelineSignal : NvU64) (low : ℕ) : List CommandBufSplit → Prop
  | [] => True
  | [_] => True
  | e :: next :: rest =>
    (∃ before,
      entryCommands timelineSignal e =
        before ++ [.release timelineSignal (e.timelineCtr.setWidth 64)] ∧
      low < e.timelineCtr.toNat ∧
      ∀ value, .release timelineSignal value ∈ before → value.toNat < e.timelineCtr.toNat) ∧
    Fenced timelineSignal e.timelineCtr.toNat (next :: rest)

/-- The condition: a commence with a backlog finds its segments fenced, above the value of the
signal and every release of it that a channel has yet to execute. -/
def System.Fences (s : System) : SystemEvent → Prop
  | .call .startExecution _ => s.host.timeline.commandBufBacklog ≠ [] →
      ∃ low, s.gpu.Below s.timelineSignal BitVec.toNat low ∧
        Fenced s.timelineSignal low s.host.timeline.setAsideBoth.commandBufBacklog
  | _ => True

/-- The segments before one that is refused are fenced. -/
theorem Fenced.of_append {timelineSignal : NvU64} {low : ℕ} {a b : List CommandBufSplit}
    (h : Fenced timelineSignal low (a ++ b)) : Fenced timelineSignal low a := by
  induction a generalizing low with
  | nil => trivial
  | cons e rest ih =>
    cases rest with
    | nil => trivial
    | cons next rest => exact ⟨h.1, ih h.2⟩

/-- The call that is being carried out has submitted a buffer to the engine. -/
def System.Issued (s : System) (type : QueueType) : Prop :=
  ∃ commands, .submit type commands ∈ s.issued

/-- **The invariant**: nothing is left to submit, or the call submits one buffer only, or the next
segment is due and the engines of the earlier ones are drained, or the wait for a segment is due and
its engine is fenced. -/
inductive System.Barred (s : System) : Prop
  | spent : (∀ type commands, .submit type commands ∉ s.effects) → s.Barred
  | single : s.issued = [] → s.effects.length ≤ 1 → s.Barred
  | due (low : ℕ) (entries : List CommandBufSplit) :
      s.effects = backlogEffects s.timelineSignal entries →
      Fenced s.timelineSignal low entries →
      s.gpu.Below s.timelineSignal BitVec.toNat low →
      (∀ type, s.Issued type → s.gpu.Drained type) → s.Barred
  | awaiting (current : QueueType) (target : NvU32) (entries : List CommandBufSplit) :
      s.effects = .waitCpu s.timelineSignal target :: backlogEffects s.timelineSignal entries →
      Fenced s.timelineSignal target.toNat entries →
      s.gpu.Below s.timelineSignal BitVec.toNat target.toNat →
      s.gpu.Fence s.timelineSignal BitVec.toNat current target.toNat ∨ s.gpu.Drained current →
      (∀ type, s.Issued type → type ≠ current → s.gpu.Drained type) → s.Barred

/-! ## Calls -/

/-- A call that adds no effect leaves nothing to submit. -/
theorem barred_of_nil {s : System} (h : s.effects = []) : s.Barred :=
  .spent fun _ _ hmem => by
    rw [h] at hmem
    cases hmem

/-- **A commence with fenced segments starts barred.** -/
theorem barred_start {s : System} (hu : s.host.Usable) {gpGet : NvU32 × NvU32}
    (hok : s.Fences (.call .startExecution gpGet)) : (s.called .startExecution gpGet).Barred := by
  have hobs := hu.observe s.gpu.signals gpGet
  have hcall : call startExecution (s.observed gpGet) =
    ((call startExecution (s.observed gpGet)).1, (s.called .startExecution gpGet).host) := rfl
  have hissued : (s.called .startExecution gpGet).issued = [] := rfl
  have hnone : ∀ type, (s.called .startExecution gpGet).Issued type →
      (s.called .startExecution gpGet).gpu.Drained type := by
    rintro type ⟨commands, hmem⟩
    rw [hissued] at hmem
    cases hmem
  by_cases hnil : s.host.timeline.commandBufBacklog = []
  · rcases wp_call hcall (wp_startExecution_of_nil hobs.timelineSignal hnil) with
      ⟨_, -, hdone⟩ | ⟨_, -, hrefused⟩
    · rcases hdone.submitted with ⟨type, -, -, hadds, -⟩ | ⟨-, hadds, -⟩
      · refine .single rfl ?_
        rw [called_effects hadds.trace, submitEffect]
        split_ifs <;> simp
      · exact barred_of_nil (called_effects hadds.trace)
    · rcases hrefused with heq | ⟨type, -, -, hadds, -⟩
      · refine barred_of_nil (called_effects ?_)
        rw [heq, List.append_nil]
        rfl
      · exact barred_of_nil (called_effects hadds.trace)
  · obtain ⟨low, hbelow, hfenced⟩ := hok hnil
    rcases wp_call hcall (wp_startExecution_of_ne_nil hobs.timelineSignal hobs.waits hnil) with
      ⟨_, -, hdone⟩ | ⟨_, -, hrefused⟩
    · have hsig : (s.called .startExecution gpGet).timelineSignal = s.timelineSignal :=
        hdone.targets.timelineSignal
      refine .due low s.host.timeline.setAsideBoth.commandBufBacklog ?_ ?_ ?_ hnone
      · rw [called_effects hdone.adds.trace, hsig]
        rfl
      · rw [hsig]
        exact hfenced
      · rw [hsig]
        exact hbelow
    · obtain ⟨before, e, after, hsplit, hadds, -⟩ := hrefused.stopped
      have hsig : (s.called .startExecution gpGet).timelineSignal = s.timelineSignal :=
        hrefused.targets.timelineSignal
      -- what was refused, and what is behind it, is not submitted
      refine .due low before ?_ ?_ ?_ hnone
      · rw [called_effects hadds.trace, hsig]
        rfl
      · rw [hsig]
        refine Fenced.of_append (b := e :: after) ?_
        rw [← hsplit]
        exact hfenced
      · rw [hsig]
        exact hbelow

/-- No other call submits anything. -/
theorem barred_called {s : System} (hu : s.host.Usable) {c : ApiCall} {gpGet : NvU32 × NvU32}
    (hok : s.Fences (.call c gpGet)) : (s.called c gpGet).Barred := by
  have hobs := hu.observe s.gpu.signals gpGet
  have hsig := hobs.timelineSignal
  have hcall : call c.run (s.observed gpGet) =
    ((call c.run (s.observed gpGet)).1, (s.called c gpGet).host) := rfl
  have htrace : (s.called c gpGet).host.trace = s.host.trace → (s.called c gpGet).Barred :=
    fun h => barred_of_nil (called_effects (h.trans (List.append_nil _).symm))
  cases c with
  | launchFunction function grid block sharedMemBytes params numParams async =>
    rcases wp_call hcall (wp_launchFunction hsig function grid block sharedMemBytes params
      numParams async) with ⟨_, -, f, -, hdone⟩ | ⟨_, -, hfailed⟩
    · exact htrace hdone.trace
    · exact htrace hfailed.trace
  | gpuMemcpy dst src numBytes async =>
    rcases wp_call hcall (wp_gpuMemcpy hsig dst src numBytes async) with
      ⟨_, -, hdone⟩ | ⟨_, -, heq⟩
    · exact htrace hdone.trace
    · exact htrace (by rw [heq]; rfl)
  | recordEvent event pStream =>
    rcases wp_call hcall (wp_recordEvent event pStream _) with
      ⟨_, -, hrec, -⟩ | ⟨_, -, hrec, -⟩
    · exact htrace hrec.trace
    · exact htrace hrec.trace
  | startExecution => exact barred_start hu hok
  | awaitExecution =>
    rcases wp_call hcall (wp_awaitExecution hsig hobs.waits) with ⟨_, -, hdone⟩ | ⟨_, -, hf⟩
    · obtain ⟨-, -, -, -, -, htr⟩ := hdone
      refine .spent fun type commands hmem => ?_
      rw [called_effects htr] at hmem
      simp at hmem
    · exact hf.elim

/-! ## Effects and the channels -/

/-- After a buffer was submitted to an engine, the others were issued to before. -/
theorem issued_submit {s : System} {type other : QueueType} {commands : List MethodCall}
    {rest : List HostEffect} (h : (s.submit type commands rest).Issued other) (hne : other ≠ type) :
    s.Issued other := by
  obtain ⟨commands', hmem⟩ := h
  rcases List.mem_append.mp hmem with hmem | hmem
  · exact ⟨commands', hmem⟩
  · cases List.mem_singleton.mp hmem
    exact absurd rfl hne

theorem issued_passWait {s : System} {type : QueueType} {signal : NvU64} {value : NvU32}
    {rest : List HostEffect} (h : (s.passWait signal value rest).Issued type) : s.Issued type := by
  obtain ⟨commands, hmem⟩ := h
  rcases List.mem_append.mp hmem with hmem | hmem
  · exact ⟨commands, hmem⟩
  · cases List.mem_singleton.mp hmem

/-- The segments behind the first one of a fenced backlog. -/
theorem Fenced.tail {timelineSignal : NvU64} {low : ℕ} {e : CommandBufSplit}
    {rest : List CommandBufSplit} (h : Fenced timelineSignal low (e :: rest)) :
    Fenced timelineSignal e.timelineCtr.toNat rest := by
  cases rest with
  | nil => trivial
  | cons next rest => exact h.2

/-- **Carrying out an effect keeps the barrier.** -/
theorem barred_effect {s s' : System} (hb : s.Barred) (hs : s.step .effect = some s') :
    s'.Barred := by
  -- the effects that are left are a tail of those before
  have htail : ∃ fx, s.effects = fx :: s'.effects ∧ s'.timelineSignal = s.timelineSignal := by
    rcases step_effect hs with ⟨_, _, _, heq, rfl⟩ | ⟨_, _, _, heq, -, rfl⟩
    · exact ⟨_, heq, rfl⟩
    · exact ⟨_, heq, rfl⟩
  obtain ⟨fx, heffects, hsig⟩ := htail
  cases hb with
  | spent hnone =>
    exact .spent fun type commands hmem => hnone type commands
      (heffects ▸ List.mem_cons_of_mem fx hmem)
  | single _ hlen =>
    refine barred_of_nil (List.length_eq_zero_iff.mp ?_)
    rw [heffects, List.length_cons] at hlen
    omega
  | due low entries heq hfenced hbelow hdrained =>
    match entries, heq, hfenced with
    | [], heq, _ =>
      rw [heq] at heffects
      cases heffects
    | [e], heq, _ =>
      refine .spent fun type commands hmem => ?_
      rw [heq, backlogEffects, List.flatMap_singleton, entryEffects, submitEffect] at heffects
      split_ifs at heffects
      · obtain ⟨-, hnil⟩ := List.cons.inj heffects
        rw [← hnil] at hmem
        cases hmem
      · obtain ⟨-, hwait⟩ := List.cons.inj heffects
        rw [← hwait] at hmem
        cases List.mem_singleton.mp hmem
    | e :: next :: rest, heq, ⟨⟨before, hcmds, hlow, hbefore⟩, hfenced⟩ =>
      have hne : e.commands s.timelineSignal ≠ [] := by
        intro hnil
        rw [entryCommands, hnil, commandsOf_nil] at hcmds
        simp at hcmds
      have heq' : s.effects = .submit e.queueType (e.commands s.timelineSignal) ::
          .waitCpu s.timelineSignal e.timelineCtr ::
            backlogEffects s.timelineSignal (next :: rest) := by
        rw [heq, show backlogEffects s.timelineSignal (e :: next :: rest) =
          entryEffects s.timelineSignal e ++ backlogEffects s.timelineSignal (next :: rest)
          from rfl, entryEffects, submitEffect, if_neg hne]
        rfl
      rcases step_effect hs with ⟨type, commands, more, hsub, rfl⟩ | ⟨_, _, _, hwait, -, rfl⟩
      · obtain ⟨hfirst, rfl⟩ := List.cons.inj (heq'.symm.trans hsub)
        cases hfirst
        have hfence : (s.gpu.submit e.queueType (entryCommands s.timelineSignal e)).Fence
            s.timelineSignal BitVec.toNat e.queueType e.timelineCtr.toNat := by
          rw [hcmds]
          refine hbelow.fence hlow ?_ hbefore
          rw [BitVec.toNat_setWidth, Nat.mod_eq_of_lt (e.timelineCtr.isLt.trans (by decide))]
        exact .awaiting e.queueType e.timelineCtr (next :: rest) rfl hfenced hfence.below
          (Or.inl hfence) fun type hissued hne' =>
            (hdrained type (issued_submit hissued hne')).submit_of_ne hne'
      · cases heq'.symm.trans hwait
  | awaiting current target entries heq hfenced hbelow hfence hdrained =>
    rcases step_effect hs with ⟨_, _, _, hsub, rfl⟩ | ⟨signal, value, rest, hwait, hle, rfl⟩
    · cases heq.symm.trans hsub
    · obtain ⟨hfirst, rfl⟩ := List.cons.inj (heq.symm.trans hwait)
      cases hfirst
      -- the signal has reached the target, so the fence has been executed
      have hcurrent : s.gpu.Drained current := by
        rcases hfence with hfence | hd
        · have hlt := hfence.signal
          have hle' : target.toNat ≤ (s.gpu.signals s.timelineSignal).toNat := by
            have := BitVec.le_def.mp hle
            rwa [BitVec.toNat_setWidth, Nat.mod_eq_of_lt (target.isLt.trans (by decide))] at this
          omega
        · exact hd
      refine .due target.toNat entries rfl hfenced hbelow fun type hissued => ?_
      by_cases hne : type = current
      · exact hne ▸ hcurrent
      · exact hdrained type (issued_passWait hissued) hne

/-- The channels keep the barrier. -/
theorem barred_gpu {s : System} {g : Gpu} (hb : s.Barred)
    (hbelow : ∀ low, s.gpu.Below s.timelineSignal BitVec.toNat low →
      g.Below s.timelineSignal BitVec.toNat low)
    (hdrained : ∀ type, s.gpu.Drained type → g.Drained type)
    (hfence : ∀ type n, s.gpu.Fence s.timelineSignal BitVec.toNat type n →
      g.Fence s.timelineSignal BitVec.toNat type n ∨ g.Drained type) :
    ({ s with gpu := g } : System).Barred := by
  cases hb with
  | spent hnone => exact .spent hnone
  | single hissued hlen => exact .single hissued hlen
  | due low entries heq hfenced hb hd =>
    exact .due low entries heq hfenced (hbelow low hb) fun type hi => hdrained type (hd type hi)
  | awaiting current target entries heq hfenced hb hf hd =>
    refine .awaiting current target entries heq hfenced (hbelow _ hb) ?_
      fun type hi hne => hdrained type (hd type hi hne)
    rcases hf with hf | hf
    · exact hfence _ _ hf
    · exact Or.inr (hdrained _ hf)

/-- **Every state of a run with fenced segments is barred.** -/
theorem System.Run.barred {s : System} (hr : s.Run System.Fences) : s.Barred := by
  induction hr with
  | initial hi => exact barred_of_nil hi.effects
  | step hprev hok hs ih =>
    rename_i s s' e
    cases e with
    | call c gpGet =>
      obtain ⟨-, rfl⟩ := step_call hs
      exact barred_called hprev.usable hok
    | effect => exact barred_effect ih hs
    | fetch type =>
      obtain ⟨g, hg, rfl⟩ := step_fetch hs
      exact barred_gpu ih (fun _ hb => hb.fetch hg) (fun _ hd => hd.fetch hg)
        fun _ _ hf => hf.fetch hg
    | finish type n =>
      obtain ⟨g, hg, rfl⟩ := step_finish hs
      exact barred_gpu ih (fun _ hb => hb.finish hg) (fun _ hd => hd.finish hg)
        fun _ _ hf => Or.inl (hf.finish hg)

/-- **The barrier.** In a run whose commences find their segments fenced, whenever a commence is
about to submit a segment, every engine it has submitted to before has executed everything, and
nothing runs on it. -/
theorem segments_executed_before_next {s : System} (hr : s.Run System.Fences)
    {next : QueueType} {commands : List MethodCall} {rest : List HostEffect}
    (hnext : s.effects = .submit next commands :: rest) {type : QueueType}
    {earlier : List MethodCall} (hearlier : .submit type earlier ∈ s.issued) :
    (s.gpu.channel type).pending = [] ∧ (s.gpu.channel type).running = [] := by
  cases hr.barred with
  | spent hnone => exact absurd (hnext ▸ List.mem_cons_self) (hnone next commands)
  | single hissued _ =>
    rw [hissued] at hearlier
    cases hearlier
  | due low entries _ _ _ hdrained => exact hdrained type ⟨earlier, hearlier⟩
  | awaiting _ _ _ heq => cases heq.symm.trans hnext

/-- A launch and a copy are enqueued. -/
def sampleEnqueued : System :=
  sampleSystem.after [.call (sampleLaunch false) (0, 0), .call (sampleCopy false) (0, 0)]

/-- The first segment of a commence is submitted, its launch runs to its end, and the CPU sees the
release behind it. -/
def firstSegment : List SystemEvent :=
  [.effect, .fetch .compute, .fetch .compute, .fetch .compute, .finish .compute 3, .fetch .compute,
    .effect]

theorem fences_firstSegment : ∀ e ∈ firstSegment, ∀ s : System, s.Fences e := by
  intro e he s
  simp only [firstSegment, List.mem_cons, List.not_mem_nil, or_false] at he
  rcases he with rfl | rfl | rfl | rfl | rfl | rfl | rfl <;> trivial

/-- The segments of the sample session are fenced. -/
theorem fences_sampleEnqueued : sampleEnqueued.Fences (.call .startExecution (0, 0)) := by
  obtain ⟨qmdAddr, hentries⟩ : ∃ qmdAddr,
      sampleEnqueued.host.timeline.setAsideBoth.commandBufBacklog =
        [⟨launchCalls qmdAddr ⟨3, false⟩ ++ releaseCalls .compute sampleEnqueued.timelineSignal 3,
            .compute, 3, false⟩,
          ⟨copyCalls 0x2000 0x1000 16 ⟨4, false⟩ ++
            releaseCalls .dma sampleEnqueued.timelineSignal 4, .dma, 4, false⟩] :=
    ⟨sampleEnqueued.host.queue.kernArgsPageVa + 0x200, by decide +kernel⟩
  have hidle : sampleEnqueued.gpu = sampleSystem.gpu := by rfl
  intro _
  refine ⟨2, ⟨?_, fun type value hmem => ?_⟩, ?_⟩
  · rw [hidle]
    rfl
  · rw [hidle] at hmem
    cases hmem
  · obtain ⟨a, b, hlaunch⟩ := commandsOf_launchCalls qmdAddr ⟨3, false⟩
    obtain ⟨hclosed, hrelease⟩ := commandsOf_releaseCalls .compute sampleEnqueued.timelineSignal 3
    have hlow : 2 < (3 : NvU32).toNat := by decide
    rw [hentries]
    refine ⟨⟨[.other a, .other b, .start 3 true], ?_, hlow, fun value hmem => ?_⟩, trivial⟩
    · rw [entryCommands_eq, commandsOf_append hclosed, hlaunch, hrelease]
      rfl
    · simp at hmem

/-- When the copy of the sample session is due, the launch has been executed. -/
theorem segments_executed_before_next_sample :
    let s := (sampleEnqueued.after [.call .startExecution (0, 0)]).after firstSegment
    (s.gpu.channel .compute).pending = [] ∧ (s.gpu.channel .compute).running = [] := by
  intro s
  have hcalls : sampleEnqueued.Run System.Fences := by
    refine (System.Run.initial initial_sampleSystem).exec (fun e he t => ?_)
      (exec_after (by rfl))
    simp only [List.mem_cons, List.not_mem_nil, or_false] at he
    rcases he with rfl | rfl <;> trivial
  have hstart : sampleEnqueued.step (.call .startExecution (0, 0)) =
      some (sampleEnqueued.after [.call .startExecution (0, 0)]) := by rfl
  have hrun : s.Run System.Fences :=
    (hcalls.step fences_sampleEnqueued hstart).exec fences_firstSegment (exec_after (by rfl))
  have hnext : ∃ commands rest, s.effects = .submit .dma commands :: rest :=
    ⟨copyCalls 0x2000 0x1000 16 ⟨4, false⟩ ++ releaseCalls .dma sampleEnqueued.timelineSignal 4,
      [.waitCpu sampleEnqueued.timelineSignal 4], by decide +kernel⟩
  have hearlier : ∃ earlier, .submit .compute earlier ∈ s.issued :=
    ⟨launchCalls (sampleEnqueued.host.queue.kernArgsPageVa + 0x200) ⟨3, false⟩ ++
      releaseCalls .compute sampleEnqueued.timelineSignal 3, by decide +kernel⟩
  obtain ⟨commands, rest, hnext⟩ := hnext
  obtain ⟨earlier, hearlier⟩ := hearlier
  exact segments_executed_before_next hrun hnext hearlier

/-- The first segment behind a recorded event. -/
def eventLeftBehind : System :=
  sampleSystem.after ([.call (sampleLaunch false) (0, 0), .call (.recordEvent (some 0) 0) (0, 0),
    .call (sampleCopy false) (0, 0), .call .startExecution (0, 0)] ++ firstSegment)

/-- **The barrier does not cover an event recorded behind a synchronous launch**: the copy is due
while the release of the event is still to be executed. -/
theorem event_not_awaited : ∃ s : System, (s.Run fun _ _ => True) ∧
    (∃ commands rest, s.effects = .submit .dma commands :: rest) ∧
    (∃ earlier, .submit .compute earlier ∈ s.issued) ∧
    ∃ signal, (s.gpu.channel .compute).pending = [.release signal 1] := by
  have hrun : eventLeftBehind.Run fun _ _ => True :=
    (System.Run.initial initial_sampleSystem).exec (fun _ _ _ => trivial) (exec_after (by rfl))
  refine ⟨eventLeftBehind, hrun, ⟨copyCalls 0x2000 0x1000 16 ⟨4, false⟩ ++
    releaseCalls .dma eventLeftBehind.timelineSignal 4,
    [.waitCpu eventLeftBehind.timelineSignal 4], by decide +kernel⟩, ?_,
    (eventLeftBehind.host.events 0).computeSignal, by decide +kernel⟩
  exact ⟨launchCalls (eventLeftBehind.host.queue.kernArgsPageVa + 0x200) ⟨3, false⟩ ++
    releaseCalls .compute eventLeftBehind.timelineSignal 3 ++
    releaseCalls .compute (eventLeftBehind.host.events 0).computeSignal 1, by decide +kernel⟩

end LibreCuda
