import LibreCuda.Stream.Barrier
import LibreCuda.Stream.Flow

/-! # The stream never hangs

An acquire of the compute channel passes only while the timeline has exactly its value, and a wait
of the CPU only once the timeline has reached its target. Neither is ever missed as long as the
driver keeps pace (`System.Paced`): what it commences is accepted, the engine it is submitted to
first may take it, and it awaits only what was commenced.

* **`System.Flowing`** is the invariant: the timeline is handed on from engine to engine, and the
  rest of the call goes on raising it.
* **`stream_never_hangs`**: whatever the order in which the engines and the driver go on, they come
  to an end, with everything commenced completed and no call waiting.
* **`await_returns_iff`**: a wait for the stream returns exactly when everything was commenced.
* **`hangs_out_of_pace`**: a commence that comes too early leaves the CPU waiting for ever. -/

namespace LibreCuda

open Channels Exec

/-- The two engines. -/
instance : Fintype QueueType := ⟨{.compute, .dma}, fun type => by cases type <;> decide⟩

/-! ## Pace -/

/-- An engine may take a segment: everything commenced before has been released, or the other engine
has nothing left to do with the timeline, or the segment waits on the compute engine until it has
been released. -/
def System.Takes (s : System) (type : QueueType) (commands : List MethodCall) : Prop :=
  s.commenced ≤ (s.gpu.signals s.timelineSignal).toNat ∨
  (∀ other, other ≠ type → Quiet s.timelineSignal (s.gpu.channel other).pending) ∨
  type = .compute ∧ Gated s.timelineSignal BitVec.toNat (BitVec.ofNat 64 s.commenced)
    (commandsOf type commands)

/-- The condition: a commence is accepted and its first engine may take it; the stream is awaited
with everything commenced; every other call succeeds or leaves the queue as it was, and the counter
does not wrap. -/
def System.Paced (s : System) : SystemEvent → Prop
  | .call .startExecution gpGet =>
    (Exec.call startExecution (s.observed gpGet)).1 = .ok () ∧
      ∀ type commands, s.host.timeline.firstSegment = some (type, commands) → s.Takes type commands
  | .call .awaitExecution _ => s.commenced = s.host.timeline.timelineSteps
  | .call c gpGet =>
    ((Exec.call c.run (s.observed gpGet)).1 = .ok () ∨
      (s.called c gpGet).host.timeline = s.host.timeline) ∧
    (c.Counts → s.host.timeline.timelineSteps + 1 < 2 ^ 32)
  | _ => True

/-- An event that is not a call. -/
def SystemEvent.Internal : SystemEvent → Prop
  | .call _ _ => False
  | _ => True

theorem SystemEvent.Internal.paced {e : SystemEvent} (he : e.Internal) (s : System) : s.Paced e := by
  cases e with
  | call c gpGet => exact he.elim
  | effect => trivial
  | fetch type => trivial
  | finish type n => trivial

/-! ## The invariant -/

/-- **The invariant**, when everything submitted ends with the timeline at `v`. -/
structure System.Flowing (s : System) (v : NvU64) : Prop where
  relayed : s.gpu.Relayed s.timelineSignal BitVec.toNat v
  waits : ∀ signal value, .acquire signal value ∉ (s.gpu.channel .dma).pending
  segments : Segments s.timelineSignal
    (fun w => s.host.timeline.Flowing w ∧ w.toNat = s.commenced) v s.effects
  spaced : Spaced s.effects
  admits : ∀ type commands rest, s.effects = .submit type commands :: rest →
    s.gpu.Admits s.timelineSignal BitVec.toNat type v (commandsOf type commands)

theorem acquire_notMem_decodeDma (signal value : NvU64) (regs : SemaphoreRegs) (m : MethodCall) :
    .acquire signal value ∉ (decodeDma regs m).2 := by
  intro hmem
  simp only [decodeDma, startOf] at hmem
  split at hmem
  · split at hmem <;> simp at hmem
  · split_ifs at hmem
    · split at hmem
      · rcases List.mem_append.mp hmem with hmem | hmem
        · split_ifs at hmem
          · cases hmem
          · split at hmem <;> simp at hmem
        · split_ifs at hmem <;> simp at hmem
      · simp at hmem
    · simp at hmem

/-- The copy engine never waits for a signal. -/
theorem acquire_notMem_dma (signal value : NvU64) (buffer : List MethodCall) :
    .acquire signal value ∉ commandsOf .dma buffer := by
  suffices h : ∀ regs, .acquire signal value ∉ (decode .dma regs buffer).2 from h {}
  induction buffer with
  | nil => exact fun _ => List.not_mem_nil
  | cons m rest ih =>
    intro regs hmem
    rcases List.mem_append.mp hmem with hmem | hmem
    · exact acquire_notMem_decodeDma signal value regs m hmem
    · exact ih _ hmem

/-- A step of the GPU keeps the invariant when it hands the timeline on. -/
theorem System.Flowing.setGpu {s : System} {v : NvU64} (hf : s.Flowing v) {g : Gpu}
    (hrelayed : g.Relayed s.timelineSignal BitVec.toNat v)
    (hsub : ∀ type cmd, cmd ∈ (g.channel type).pending → cmd ∈ (s.gpu.channel type).pending) :
    ({ s with gpu := g } : System).Flowing v :=
  ⟨hrelayed, fun signal value hmem => hf.waits signal value (hsub .dma _ hmem), hf.segments,
    hf.spaced, fun type commands rest heq => (hf.admits type commands rest heq).of_pending hsub⟩

theorem System.Flowing.fetch {s : System} {v : NvU64} (hf : s.Flowing v) {g : Gpu}
    {type : QueueType} (hg : s.gpu.fetch serialEngine type = some g) :
    ({ s with gpu := g } : System).Flowing v :=
  hf.setGpu (hf.relayed.fetch hg) fun _ _ => pending_fetch hg

theorem System.Flowing.finish {s : System} {v : NvU64} (hf : s.Flowing v) {g : Gpu}
    {type : QueueType} {n : ℕ} (hg : s.gpu.finish type n = some g) :
    ({ s with gpu := g } : System).Flowing v :=
  hf.setGpu (hf.relayed.finish hg) fun _ _ => pending_finish hg

/-- **Carrying out an effect**: a segment hands the timeline on, and behind a wait both engines are
done with it, so that either may take the next segment. -/
theorem System.Flowing.effect {s s' : System} {v : NvU64} (hf : s.Flowing v)
    (hs : s.step .effect = some s') : ∃ w, s'.Flowing w := by
  have hsegments := hf.segments
  have hspaced := hf.spaced
  rcases step_effect hs with ⟨type, commands, rest, heq, rfl⟩ | ⟨signal, value, rest, heq, hle, rfl⟩
  · rw [heq] at hsegments hspaced
    obtain ⟨hflows, hrest⟩ := hsegments
    refine ⟨_, hf.relayed.submit hflows (hf.admits _ _ _ heq), fun signal value hmem => ?_, hrest,
      hspaced.2, fun type' commands' rest' heq' => ?_⟩
    · by_cases hdma : type = .dma
      · subst hdma
        have hpend : ((s.submit .dma commands rest).gpu.channel .dma).pending =
            (s.gpu.channel .dma).pending ++ commandsOf .dma commands := pending_submit_self _
        rw [hpend] at hmem
        rcases List.mem_append.mp hmem with hmem | hmem
        · exact hf.waits signal value hmem
        · exact acquire_notMem_dma signal value commands hmem
      · have hpend : (s.submit type commands rest).gpu.channel .dma = s.gpu.channel .dma :=
          channel_submit_of_ne (Ne.symm hdma) _
        rw [hpend] at hmem
        exact hf.waits signal value hmem
    · have hhead : rest.head? = some (.submit type' commands') := by
        rw [show rest = .submit type' commands' :: rest' from heq']
        rfl
      exact absurd hhead (hspaced.1 type' commands')
  · rw [heq] at hsegments hspaced
    obtain ⟨rfl, rfl, hrest⟩ := hsegments
    refine ⟨_, hf.relayed, hf.waits, hrest, hspaced, fun type commands rest' _ => Or.inl ?_⟩
    obtain ⟨lead, follow, hrelay⟩ := hf.relayed
    exact fun j _ => hrelay.quiet_of_le (BitVec.le_def.mp hle) j

/-- A call after which the timeline goes on flowing. -/
theorem System.Flowing.of_called {s : System} {v : NvU64} (hf : s.Flowing v) {a : ApiCall}
    {gpGet : NvU32 × NvU32} (hsig : (s.called a gpGet).timelineSignal = s.timelineSignal)
    {fx : List HostEffect} (htrace : (s.called a gpGet).host.trace = s.host.trace ++ fx)
    (hsegments : Segments s.timelineSignal (fun w => (s.called a gpGet).host.timeline.Flowing w ∧
      w.toNat = (s.called a gpGet).commenced) v fx) (hspaced : Spaced fx)
    (hadmits : ∀ type commands rest, fx = .submit type commands :: rest →
      s.gpu.Admits s.timelineSignal BitVec.toNat type v (commandsOf type commands)) :
    (s.called a gpGet).Flowing v := by
  have heffects := called_effects htrace
  refine ⟨?_, hf.waits, ?_, ?_, fun type commands rest heq => ?_⟩
  · rw [hsig]
    exact hf.relayed
  · rw [hsig, heffects]
    exact hsegments
  · rw [heffects]
    exact hspaced
  · rw [hsig]
    exact hadmits type commands rest (heffects ▸ heq)

/-- **A call that builds commands.** -/
theorem System.Flowing.build {s : System} {v : NvU64} (hf : s.Flowing v) (heffects : s.effects = [])
    (hu : s.host.Usable) {a : ApiCall} {gpGet : NvU32 × NvU32} (hbuilds : a.Builds)
    (hkept : (Exec.call a.run (s.observed gpGet)).1 = .ok () ∨
      (s.called a gpGet).host.timeline = s.host.timeline)
    (hlt : a.Counts → s.host.timeline.timelineSteps + 1 < 2 ^ 32) :
    (s.called a gpGet).Flowing v := by
  have hobs := hu.observe s.gpu.signals gpGet
  have hsegments := hf.segments
  rw [heffects] at hsegments
  have hcall : Exec.call a.run (s.observed gpGet) =
    ((Exec.call a.run (s.observed gpGet)).1, (s.called a gpGet).host) := rfl
  have hflowing := flowing_of_call hbuilds hobs hsegments.1 hkept hlt hcall
  have htrace := trace_of_builds hbuilds hobs hcall
  have hcommenced : (s.called a gpGet).commenced = s.commenced := by
    cases a <;> first | rfl | exact hbuilds.elim
  refine hf.of_called (hobs.touched_of_call hcall).timelineSignal
    (htrace.trans (List.append_nil _).symm) ⟨hflowing, ?_⟩ trivial fun _ _ _ heq => by cases heq
  rw [hcommenced]
  exact hsegments.2

/-- **A commence that is accepted**, with an engine that may take its first segment. -/
theorem System.Flowing.start {s : System} {v : NvU64} (hf : s.Flowing v) (heffects : s.effects = [])
    (hu : s.host.Usable) {gpGet : NvU32 × NvU32}
    (hok : s.Paced (.call .startExecution gpGet)) :
    (s.called .startExecution gpGet).Flowing v := by
  have hobs := hu.observe s.gpu.signals gpGet
  have hsegments := hf.segments
  rw [heffects] at hsegments
  obtain ⟨hflowing, hv⟩ := hsegments
  obtain ⟨hr, htakes⟩ := hok
  have hcall : Exec.call startExecution (s.observed gpGet) =
      (.ok (), (s.called .startExecution gpGet).host) := Prod.ext hr rfl
  have hcommenced : (s.called .startExecution gpGet).commenced =
      (s.called .startExecution gpGet).host.timeline.timelineSteps := by
    show commencedBehind (s.called .startExecution gpGet).host s.commenced .startExecution
      (Exec.call startExecution (s.observed gpGet)).1 = _
    rw [hr]
    rfl
  obtain ⟨fx, htrace, hfx, hspaced, hfirst⟩ := segments_of_commence hobs hflowing hcall
  refine hf.of_called (hobs.touched_of_call (c := .startExecution) hcall).timelineSignal htrace ?_
    hspaced fun type commands rest heq => ?_
  · rw [hcommenced]
    exact hfx
  -- the first segment is one the engine may take
  rcases htakes type commands (hfirst type commands rest heq) with hle | hquiet | ⟨rfl, hgated⟩
  · obtain ⟨lead, follow, hrelay⟩ := hf.relayed
    exact Or.inl fun j _ => hrelay.quiet_of_le (hv.le.trans hle) j
  · exact Or.inl hquiet
  · refine Or.inr ⟨?_, fun j hj signal value hmem => ?_⟩
    · rw [← hv, BitVec.ofNat_toNat, BitVec.setWidth_eq] at hgated
      exact hgated
    · cases j with
      | compute => exact hj rfl
      | dma => exact hf.waits signal value hmem

/-- What a wait for the stream leaves to be carried out. -/
theorem effects_of_await {s : System} (hu : s.host.Usable) (gpGet : NvU32 × NvU32) :
    (s.called .awaitExecution gpGet).host.timeline = s.host.timeline ∧
      (s.called .awaitExecution gpGet).host.trace =
        s.host.trace ++ [.waitCpu s.timelineSignal s.host.timeline.timelineCtr] := by
  have hobs := hu.observe s.gpu.signals gpGet
  have hcall : Exec.call awaitExecution (s.observed gpGet) =
    ((Exec.call awaitExecution (s.observed gpGet)).1, (s.called .awaitExecution gpGet).host) := rfl
  rcases wp_call hcall (wp_awaitExecution hobs.timelineSignal hobs.waits) with
    ⟨_, -, hok⟩ | ⟨_, -, hfail⟩
  · obtain ⟨-, -, -, ht, -, htrace⟩ := hok
    exact ⟨ht, htrace⟩
  · exact hfail.elim

/-- **A wait for what was commenced.** -/
theorem System.Flowing.await {s : System} {v : NvU64} (hf : s.Flowing v) (heffects : s.effects = [])
    (hu : s.host.Usable) {gpGet : NvU32 × NvU32}
    (hcommenced : s.commenced = s.host.timeline.timelineSteps) :
    (s.called .awaitExecution gpGet).Flowing v := by
  have hsegments := hf.segments
  rw [heffects] at hsegments
  obtain ⟨hflowing, hv⟩ := hsegments
  obtain ⟨ht, htrace⟩ := effects_of_await hu gpGet
  have hsig : (s.called .awaitExecution gpGet).timelineSignal = s.timelineSignal := by
    rw [System.timelineSignal, ht]
    rfl
  have htarget : targetValue s.host.timeline.timelineCtr = v := by
    refine BitVec.eq_of_toNat_eq ?_
    rw [toNat_targetValue, hflowing.count, hv, hcommenced]
  refine hf.of_called hsig htrace ⟨rfl, htarget, ?_, hv⟩ trivial fun _ _ _ heq => by cases heq
  rw [ht]
  exact hflowing

/-- **A call at pace.** -/
theorem System.Flowing.call {s : System} {v : NvU64} (hf : s.Flowing v) (heffects : s.effects = [])
    (hu : s.host.Usable) {a : ApiCall} {gpGet : NvU32 × NvU32} (hok : s.Paced (.call a gpGet)) :
    (s.called a gpGet).Flowing v := by
  cases a with
  | launchFunction function grid block sharedMemBytes params numParams async =>
    exact hf.build heffects hu trivial hok.1 hok.2
  | gpuMemcpy dst src numBytes async => exact hf.build heffects hu trivial hok.1 hok.2
  | recordEvent event pStream => exact hf.build heffects hu trivial hok.1 hok.2
  | startExecution => exact hf.start heffects hu hok
  | awaitExecution => exact hf.await heffects hu hok

/-- An initialised system has released everything. -/
theorem System.Initial.flowing {s : System} (hi : s.Initial) : s.Flowing 2 := by
  have hready := hi.host.ready
  have hquiet : ∀ type, Quiet s.timelineSignal (s.gpu.channel type).pending := fun type => by
    rw [hi.channels]
    exact quiet_nil
  have hrelay : s.gpu.Relay s.timelineSignal BitVec.toNat .compute .dma
      (s.gpu.signals s.timelineSignal) := Machine.relay_of_quiet (by decide) hquiet
  rw [hi.signal] at hrelay
  refine ⟨⟨_, _, hrelay⟩, fun signal value hmem => ?_, ?_, ?_, fun type commands rest heq => ?_⟩
  · rw [hi.channels] at hmem
    cases hmem
  · rw [hi.effects]
    refine ⟨?_, hi.commenced.symm⟩
    have hflowing := flowing_of_idle hready.idle hready.backlog hready.pending (by
      rw [hready.timelineCtr, hready.timelineSteps]
      rfl)
    rw [hready.timelineCtr] at hflowing
    exact hflowing
  · rw [hi.effects]
    trivial
  · rw [hi.effects] at heq
    cases heq

/-- **The invariant holds in every run at pace.** -/
theorem System.Run.flowing {s : System} (hr : s.Run System.Paced) : ∃ v, s.Flowing v := by
  induction hr with
  | initial hi => exact ⟨2, hi.flowing⟩
  | step hprev hok hs ih =>
    rename_i s s' e
    obtain ⟨v, hf⟩ := ih
    cases e with
    | call a gpGet =>
      obtain ⟨heffects, rfl⟩ := step_call hs
      exact ⟨v, hf.call heffects hprev.usable hok⟩
    | effect => exact hf.effect hs
    | fetch type =>
      obtain ⟨g, hg, rfl⟩ := step_fetch hs
      exact ⟨v, hf.fetch hg⟩
    | finish type n =>
      obtain ⟨g, hg, rfl⟩ := step_finish hs
      exact ⟨v, hf.finish hg⟩

/-! ## Every operation is accounted for -/

/-- **What was submitted waits on its engine, or runs, or has completed.** -/
theorem System.Run.holds {ok : System → SystemEvent → Prop} {s : System} (hr : s.Run ok)
    {type : QueueType} {n : ℕ} {ordered : Bool} (hsent : .start n ordered ∈ s.sent type) :
    s.gpu.Holds type n ordered := by
  induction hr with
  | initial hi =>
    rw [hi.sent] at hsent
    cases hsent
  | step _ _ hs ih =>
    rename_i s s' e _ _
    cases e with
    | call a gpGet =>
      obtain ⟨-, rfl⟩ := step_call hs
      exact ih hsent
    | effect =>
      rcases step_effect hs with ⟨type', commands, rest, -, rfl⟩ | ⟨_, _, _, -, -, rfl⟩
      swap
      · exact ih hsent
      by_cases hsame : type = type'
      · subst hsame
        have hsent' : (s.submit type commands rest).sent type =
            s.sent type ++ commandsOf type commands := Function.update_self ..
        rw [hsent'] at hsent
        rcases List.mem_append.mp hsent with hsent | hsent
        · exact (ih hsent).submit _
        · refine Or.inl ?_
          have hpend : ((s.submit type commands rest).gpu.channel type).pending =
              (s.gpu.channel type).pending ++ commandsOf type commands := pending_submit_self _
          rw [hpend]
          exact List.mem_append_right _ hsent
      · have hsent' : (s.submit type' commands rest).sent type = s.sent type :=
          Function.update_of_ne hsame ..
        rw [hsent'] at hsent
        exact (ih hsent).submit _
    | fetch type' =>
      obtain ⟨g, hg, rfl⟩ := step_fetch hs
      exact (ih hsent).fetch hg
    | finish type' k =>
      obtain ⟨g, hg, rfl⟩ := step_finish hs
      exact (ih hsent).finish hg

/-! ## Going on -/

/-- The steps that an effect leaves to do: it is carried out, and what it submits is executed. -/
def effectWork : HostEffect → ℕ
  | .submit type commands => 1 + 2 * (commandsOf type commands).length
  | .waitCpu _ _ => 1

/-- The steps that are left until the next call can be made and the engines are drained. -/
def System.work (s : System) : ℕ := s.gpu.work + (s.effects.map effectWork).sum

/-- **Every event that is not a call is a step less.** -/
theorem work_step {s s' : System} {e : SystemEvent} (he : e.Internal) (hs : s.step e = some s') :
    s'.work < s.work := by
  cases e with
  | call a gpGet => exact he.elim
  | effect =>
    rcases step_effect hs with ⟨type, commands, rest, heq, rfl⟩ | ⟨signal, value, rest, heq, -, rfl⟩
    · have hgpu : (s.submit type commands rest).gpu.work =
          s.gpu.work + 2 * (commandsOf type commands).length := work_submit _
      have hrest : (s.submit type commands rest).effects = rest := rfl
      rw [System.work, System.work, hgpu, hrest, heq, List.map_cons, List.sum_cons, effectWork]
      omega
    · have hrest : (s.passWait signal value rest).effects = rest := rfl
      have hgpu : (s.passWait signal value rest).gpu = s.gpu := rfl
      rw [System.work, System.work, hrest, hgpu, heq, List.map_cons, List.sum_cons, effectWork]
      omega
  | fetch type =>
    obtain ⟨g, hg, rfl⟩ := step_fetch hs
    exact Nat.add_lt_add_right (work_fetch hg) _
  | finish type n =>
    obtain ⟨g, hg, rfl⟩ := step_finish hs
    exact Nat.add_lt_add_right (work_finish hg) _

/-- Several events are as many steps less. -/
theorem length_le_work {s s' : System} {events : List SystemEvent}
    (hinternal : ∀ e ∈ events, e.Internal) (h : s.exec events = some s') :
    events.length + s'.work ≤ s.work := by
  induction events generalizing s with
  | nil =>
    cases h
    exact (Nat.zero_add _).le
  | cons e rest ih =>
    obtain ⟨t, ht, hrest⟩ := Option.bind_eq_some_iff.mp h
    have hstep := work_step (hinternal e List.mem_cons_self) ht
    have hle := ih (fun e' he' => hinternal e' (List.mem_cons_of_mem e he')) hrest
    rw [List.length_cons]
    omega

/-- **No deadlock**: as long as a call has not returned or an engine is not drained, the driver or
an engine can go on. -/
theorem System.Flowing.enabled {s : System} {v : NvU64} (hf : s.Flowing v)
    (hleft : s.effects ≠ [] ∨ ∃ type, ¬ s.gpu.Drained type) :
    ∃ e : SystemEvent, e.Internal ∧ (s.step e).isSome = true := by
  by_cases hgpu : ∃ type, ¬ s.gpu.Drained type
  · have henabled : ∃ type, (s.gpu.fetch serialEngine type).isSome = true ∨
        ∃ n, (s.gpu.finish type n).isSome = true := hf.relayed.enabled hgpu
    obtain ⟨type, hfetch | ⟨n, hfinish⟩⟩ := henabled
    · exact ⟨.fetch type, trivial, by rw [System.step, Option.isSome_map]; exact hfetch⟩
    · exact ⟨.finish type n, trivial, by rw [System.step, Option.isSome_map]; exact hfinish⟩
  -- with the engines drained the timeline is where it will end, and so a wait passes
  have hdrained : ∀ type, s.gpu.Drained type := fun type => by
    by_contra hnot
    exact hgpu ⟨type, hnot⟩
  obtain ⟨effect, rest, heq⟩ := List.exists_cons_of_ne_nil (hleft.resolve_right hgpu)
  refine ⟨.effect, trivial, ?_⟩
  rw [System.step, System.carryOut, heq]
  cases effect with
  | submit type commands => rfl
  | waitCpu signal value =>
    have hsegments := hf.segments
    rw [heq] at hsegments
    obtain ⟨rfl, rfl, -⟩ := hsegments
    obtain ⟨lead, follow, hrelay⟩ := hf.relayed
    have hsignal := hrelay.signal_of_quiet fun type => by
      rw [(hdrained type).1]
      exact quiet_nil
    simp [hsignal]

/-- A system in which nothing but a call can happen. -/
def System.Resting (s : System) : Prop := ∀ e : SystemEvent, e.Internal → s.step e = none

/-- A system that rests has nothing left to do. -/
theorem System.Flowing.of_resting {s : System} {v : NvU64} (hf : s.Flowing v) (hrest : s.Resting) :
    s.effects = [] ∧ (∀ type, s.gpu.Drained type) ∧
      (s.gpu.signals s.timelineSignal).toNat = s.commenced := by
  have hnone : ¬ (s.effects ≠ [] ∨ ∃ type, ¬ s.gpu.Drained type) := fun hleft => by
    obtain ⟨e, he, hsome⟩ := hf.enabled hleft
    rw [hrest e he] at hsome
    cases hsome
  have heffects : s.effects = [] := by
    by_contra hne
    exact hnone (Or.inl hne)
  have hdrained : ∀ type, s.gpu.Drained type := fun type => by
    by_contra hne
    exact hnone (Or.inr ⟨type, hne⟩)
  refine ⟨heffects, hdrained, ?_⟩
  obtain ⟨lead, follow, hrelay⟩ := hf.relayed
  have hsignal := hrelay.signal_of_quiet fun type => by
    rw [(hdrained type).1]
    exact quiet_nil
  have hsegments := hf.segments
  rw [heffects] at hsegments
  rw [hsignal]
  exact hsegments.2

/-- **The stream never hangs.** In a run at pace, whatever the order in which the driver and the
engines go on, they come to rest after no more steps than are left; and when they rest, the call
that was made has returned, the engines are drained, the timeline has reached what was commenced
and every operation that was submitted has completed. -/
theorem stream_never_hangs {s s' : System} (hr : s.Run System.Paced) {events : List SystemEvent}
    (hinternal : ∀ e ∈ events, e.Internal) (h : s.exec events = some s') :
    events.length ≤ s.work ∧
    (s'.Resting → s'.effects = [] ∧ (∀ type, s'.gpu.Drained type) ∧
      (s'.gpu.signals s'.timelineSignal).toNat = s'.commenced ∧
      ∀ type n ordered, .start n ordered ∈ s'.sent type → n ∈ s'.gpu.completed) := by
  have hr' : s'.Run System.Paced := hr.exec (fun e he t => (hinternal e he).paced t) h
  obtain ⟨v, hf⟩ := hr'.flowing
  refine ⟨(Nat.le_add_right _ _).trans (length_le_work hinternal h), fun hrest => ?_⟩
  obtain ⟨heffects, hdrained, hsignal⟩ := hf.of_resting hrest
  refine ⟨heffects, hdrained, hsignal, fun type n ordered hsent => ?_⟩
  rcases hr'.holds hsent with hpend | hrun | hdone
  · rw [(hdrained type).1] at hpend
    cases hpend
  · rw [(hdrained type).2] at hrun
    cases hrun
  · exact hdone

/-- The sample session is at pace. -/
theorem paced_sampleEnqueued : sampleEnqueued.Run System.Paced ∧
    sampleEnqueued.Paced (.call .startExecution (0, 0)) := by
  have hlaunch : (sampleSystem.after [.call (sampleLaunch false) (0, 0)]).Run System.Paced :=
    (System.Run.initial initial_sampleSystem).step (e := .call (sampleLaunch false) (0, 0))
      ⟨Or.inl (by rfl), fun _ => by decide +kernel⟩ (by rfl)
  have hcopy : sampleEnqueued.Run System.Paced :=
    hlaunch.step (e := .call (sampleCopy false) (0, 0))
      ⟨Or.inl (by rfl), fun _ => by decide +kernel⟩ (by rfl)
  exact ⟨hcopy, by rfl, fun _ _ _ => Or.inl (by decide +kernel)⟩

/-- The rest of the sample session: the copy is executed, released and awaited. -/
def wholeSession : List SystemEvent :=
  firstSegment ++ [.effect, .fetch .dma, .fetch .dma, .fetch .dma, .finish .dma 4, .fetch .dma,
    .effect]

/-- A system with no effects left and drained engines rests. -/
theorem resting_of_drained {s : System} (heffects : s.effects = [])
    (hdrained : ∀ type, s.gpu.Drained type) : s.Resting := by
  intro e he
  cases e with
  | call a gpGet => exact he.elim
  | effect =>
    rw [System.step, System.carryOut, heffects]
  | fetch type =>
    rw [System.step, Machine.fetch, (hdrained type).1]
    rfl
  | finish type n =>
    rw [System.step, Machine.finish, (hdrained type).2, if_neg List.not_mem_nil]
    rfl

/-- The sample session comes to rest, with the timeline at four. -/
theorem stream_never_hangs_sample :
    let s := sampleEnqueued.after [.call .startExecution (0, 0)]
    let t := s.after wholeSession
    wholeSession.length ≤ s.work ∧ t.effects = [] ∧
      (t.gpu.signals t.timelineSignal).toNat = t.commenced ∧
      ∀ type n ordered, .start n ordered ∈ t.sent type → n ∈ t.gpu.completed := by
  obtain ⟨hrun, hok⟩ := paced_sampleEnqueued
  have hstart : (sampleEnqueued.after [.call .startExecution (0, 0)]).Run System.Paced :=
    hrun.step hok (by rfl)
  have hinternal : ∀ e ∈ wholeSession, e.Internal := by
    intro e he
    simp only [wholeSession, firstSegment, List.cons_append, List.nil_append, List.mem_cons,
      List.not_mem_nil, or_false] at he
    rcases he with rfl | rfl | rfl | rfl | rfl | rfl | rfl | rfl | rfl | rfl | rfl | rfl | rfl |
      rfl <;> trivial
  obtain ⟨hlength, hrests⟩ := stream_never_hangs hstart hinternal (exec_after (by rfl))
  obtain ⟨heffects, -, hsignal, hdone⟩ := hrests (resting_of_drained (by rfl) fun type => by
    cases type <;> exact ⟨by rfl, by rfl⟩)
  exact ⟨hlength, heffects, hsignal, hdone⟩

/-! ## Waiting for the stream -/

/-- The call waits for more than the timeline will be raised to. -/
structure System.Stuck (s : System) (v : NvU64) (target : NvU32) : Prop where
  relayed : s.gpu.Relayed s.timelineSignal BitVec.toNat v
  effects : s.effects = [.waitCpu s.timelineSignal target]
  lt : v.toNat < target.toNat

/-- Nothing but a call gets the system out of that. -/
theorem System.Stuck.step {s s' : System} {v : NvU64} {target : NvU32} (hst : s.Stuck v target)
    {e : SystemEvent} (he : e.Internal) (hs : s.step e = some s') : s'.Stuck v target := by
  cases e with
  | call a gpGet => exact he.elim
  | effect =>
    rcases step_effect hs with ⟨_, _, _, heq, -⟩ | ⟨signal, value, rest, heq, hle, -⟩
    · rw [hst.effects] at heq
      cases heq
    -- the wait would have to pass
    · rw [hst.effects] at heq
      cases heq
      obtain ⟨lead, follow, hrelay⟩ := hst.relayed
      have hsignal := hrelay.num_le
      have hvalue := BitVec.le_def.mp hle
      rw [toNat_targetValue] at hvalue
      exact absurd (hvalue.trans hsignal) (Nat.not_le.mpr hst.lt)
  | fetch type =>
    obtain ⟨g, hg, rfl⟩ := step_fetch hs
    exact ⟨hst.relayed.fetch hg, hst.effects, hst.lt⟩
  | finish type n =>
    obtain ⟨g, hg, rfl⟩ := step_finish hs
    exact ⟨hst.relayed.finish hg, hst.effects, hst.lt⟩

theorem System.Stuck.exec {s s' : System} {v : NvU64} {target : NvU32} (hst : s.Stuck v target)
    {events : List SystemEvent} (hinternal : ∀ e ∈ events, e.Internal)
    (h : s.exec events = some s') : s'.Stuck v target := by
  induction events generalizing s with
  | nil =>
    cases h
    exact hst
  | cons e rest ih =>
    obtain ⟨t, ht, hrest⟩ := Option.bind_eq_some_iff.mp h
    exact ih (hst.step (hinternal e List.mem_cons_self) ht)
      (fun e' he' => hinternal e' (List.mem_cons_of_mem e he')) hrest

/-- A stream that is awaited with something left to commence is stuck. -/
theorem System.Flowing.stuck {s : System} {v : NvU64} (hf : s.Flowing v) (heffects : s.effects = [])
    (hu : s.host.Usable) (gpGet : NvU32 × NvU32)
    (hne : s.commenced ≠ s.host.timeline.timelineSteps) :
    (s.called .awaitExecution gpGet).Stuck v s.host.timeline.timelineCtr := by
  have hsegments := hf.segments
  rw [heffects] at hsegments
  obtain ⟨hflowing, hv⟩ := hsegments
  obtain ⟨ht, htrace⟩ := effects_of_await hu gpGet
  have hsig : (s.called .awaitExecution gpGet).timelineSignal = s.timelineSignal := by
    rw [System.timelineSignal, ht]
    rfl
  have hle := hflowing.le
  have hcount := hflowing.count
  refine ⟨?_, ?_, by omega⟩
  · rw [hsig]
    exact hf.relayed
  · rw [hsig, called_effects htrace]

/-- **When a wait for the stream returns**: in a run at pace, `awaitExecution` has returned once the
engines have come to rest exactly if everything enqueued was commenced before. -/
theorem await_returns_iff {s s' : System} (hr : s.Run System.Paced) (heffects : s.effects = [])
    (gpGet : NvU32 × NvU32) (events : List SystemEvent) (hinternal : ∀ e ∈ events, e.Internal)
    (h : (s.called .awaitExecution gpGet).exec events = some s') (hrest : s'.Resting) :
    s'.effects = [] ↔ s.commenced = s.host.timeline.timelineSteps := by
  obtain ⟨v, hf⟩ := hr.flowing
  constructor
  · intro hnil
    by_contra hne
    have hstuck := (hf.stuck heffects hr.usable gpGet hne).exec hinternal h
    rw [hstuck.effects] at hnil
    cases hnil
  · intro hcommenced
    have hcalled : (s.called .awaitExecution gpGet).Run System.Paced :=
      hr.step (e := .call .awaitExecution gpGet) hcommenced (by rw [System.step, if_pos heffects])
    have hr' : s'.Run System.Paced := hcalled.exec (fun e he t => (hinternal e he).paced t) h
    obtain ⟨w, hf'⟩ := hr'.flowing
    exact (hf'.of_resting hrest).1

/-- The sample session is awaited before it is commenced: the call does not return. -/
theorem await_returns_iff_sample : sampleEnqueued.commenced = 2 ∧
    (sampleEnqueued.called .awaitExecution (0, 0)).effects ≠ [] := by
  have hne : sampleEnqueued.commenced ≠ sampleEnqueued.host.timeline.timelineSteps := by
    decide +kernel
  refine ⟨by rfl, fun hnil => hne ?_⟩
  refine (await_returns_iff paced_sampleEnqueued.1 (by rfl) (0, 0) [] (fun _ h => nomatch h)
    (by rfl) (resting_of_drained hnil fun type => ?_)).mp hnil
  cases type <;> exact ⟨by rfl, by rfl⟩

/-- A copy is commenced when the launch in front of it has completed, but its release is still to
be executed; the copy's own release overtakes it. -/
def lateRelease : System :=
  sampleSystem.after [.call (sampleLaunch false) (0, 0), .call .startExecution (0, 0), .effect,
    .fetch .compute, .fetch .compute, .fetch .compute, .finish .compute 3,
    .call (sampleCopy false) (0, 0), .call .startExecution (0, 0), .effect, .fetch .dma, .fetch .dma,
    .fetch .dma, .finish .dma 4, .fetch .dma, .fetch .compute, .call .awaitExecution (0, 0)]

/-- **Out of pace the stream hangs**: both operations have completed and both engines are drained,
but the timeline is back at the first target, and the CPU waits for the second for ever. -/
theorem hangs_out_of_pace : (lateRelease.Run fun _ _ => True) ∧
    lateRelease.gpu.completed = [4, 3] ∧ lateRelease.effects ≠ [] ∧ lateRelease.Resting := by
  have hrun : lateRelease.Run fun _ _ => True :=
    (System.Run.initial initial_sampleSystem).exec (fun _ _ _ => trivial) (exec_after (by rfl))
  have heffects : lateRelease.effects = [.waitCpu lateRelease.timelineSignal 4] := by rfl
  have hsignal : lateRelease.gpu.signals lateRelease.timelineSignal = 3 := by rfl
  have hdrained : ∀ type, lateRelease.gpu.Drained type := fun type => by
    cases type <;> exact ⟨by rfl, by rfl⟩
  refine ⟨hrun, by rfl, by rw [heffects]; exact List.cons_ne_nil _ _, fun e he => ?_⟩
  cases e with
  | call a gpGet => exact he.elim
  | effect =>
    rw [System.step, System.carryOut, heffects]
    simp [hsignal]
  | fetch type =>
    rw [System.step, Machine.fetch, (hdrained type).1]
    rfl
  | finish type n =>
    rw [System.step, Machine.finish, (hdrained type).2, if_neg List.not_mem_nil]
    rfl

end LibreCuda
