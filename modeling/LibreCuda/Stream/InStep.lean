import LibreCuda.Stream.Barrier
import LibreCuda.Stream.Pace

/-! # Operations in order across the engines

The copy engine cannot wait for the compute engine, and a commence without a backlog does not wait
on the CPU either. So the order of the stream holds as long as the engine that a commence submits to
first has caught up with what was commenced before (`System.InStep`).

* **`System.Knows`** is the invariant of the system: what has completed, what each channel's stream
  keeps, and that the rest of the call can be carried out. **`System.Run.knows`** carries it through
  every run in step.
* **`operation_starts_after_earlier`**: in such a run an operation enqueued as a synchronous one
  starts after everything enqueued before it.
* **`copy_starts_early`**: out of step, it does not. -/

namespace LibreCuda

open Channels Exec

/-- The highest operation that what was submitted to an engine begins or acquires the timeline for.
-/
def System.reached (s : System) (type : QueueType) : ℕ :=
  reach s.timelineSignal BitVec.toNat (s.sent type)

/-- The engine of the first segment is caught up: everything commenced before has completed, or the
engine has reached it before the segment's first operation and its first release of the timeline. -/
def System.CaughtUp (s : System) : Prop :=
  ∀ type commands, s.host.timeline.firstSegment = some (type, commands) →
    s.gpu.Done 2 s.commenced ∨
      Channels.CaughtUp s.timelineSignal BitVec.toNat s.commenced (s.reached type)
        (commandsOf type commands)

/-- The condition: the counter does not wrap, and a commence finds its first engine caught up and no
buffer left behind that would take the release of another. -/
def System.InStep (s : System) : SystemEvent → Prop
  | .call .startExecution _ => s.host.timeline.Undivided ∧ s.CaughtUp
  | .call c _ => c.Counts → s.host.timeline.timelineSteps + 1 < 2 ^ 32
  | _ => True

/-- What holds behind the last call when the operations up to `c` have completed. -/
structure Settles (h : Host) (commenced : ℕ) (last : Option (ApiCall × Except Failure Unit))
    (c : ℕ) : Prop where
  disciplined : h.timeline.Disciplined c commenced
  awaited : ∀ r, last = some (.awaitExecution, r) → h.timeline.timelineSteps ≤ c

/-- **The invariant**, when the operations up to `c` have completed. -/
structure System.Knows (s : System) (c : ℕ) : Prop where
  done : s.gpu.Done 2 c
  signal : s.gpu.Done 2 (s.gpu.signals s.timelineSignal).toNat
  ahead : ∀ type, s.gpu.Ahead 2 serialEngine s.timelineSignal BitVec.toNat type
    (knownAt c (s.reached type))
  carried : Carried s.timelineSignal (Settles s.host s.commenced s.last) c s.reached s.effects

/-- The GPU of a system that knows is sound. -/
theorem System.Knows.sound {s : System} {c : ℕ} (hk : s.Knows c) :
    s.gpu.Sound 2 serialEngine s.timelineSignal BitVec.toNat :=
  ⟨hk.signal, fun type => (hk.ahead type).mono ⟨Nat.zero_le _, Nat.zero_le _⟩⟩

/-! ## The GPU -/

theorem System.Knows.fetch {s : System} {c : ℕ} (hk : s.Knows c) {g : Gpu} {type : QueueType}
    (hg : s.gpu.fetch serialEngine type = some g) : ({ s with gpu := g } : System).Knows c :=
  ⟨Machine.Done.fetch hg hk.done, (hk.sound.fetch hg).1, fun type' => Machine.Ahead.fetch hk.signal hg (hk.ahead type'),
    hk.carried⟩

theorem System.Knows.finish {s : System} {c : ℕ} (hk : s.Knows c) {g : Gpu} {type : QueueType}
    {n : ℕ} (hg : s.gpu.finish type n = some g) : ({ s with gpu := g } : System).Knows c :=
  ⟨Machine.Done.finish hg hk.done, (hk.sound.finish hg).1, fun type' => Machine.Ahead.finish hg (hk.ahead type'),
    hk.carried⟩

/-- Raising what a channel knows. -/
theorem ahead_raise {g : Gpu} {sig : NvU64} {type : QueueType} {c c' n : ℕ}
    (h : g.Ahead 2 serialEngine sig BitVec.toNat type (knownAt c n)) (hc : g.Done 2 c') :
    g.Ahead 2 serialEngine sig BitVec.toNat type (knownAt (max c c') n) := by
  have hbelow : (knownAt (max c c') n).Below ⟨max c c', max (max c n) c'⟩ :=
    ⟨Nat.le_refl _, by simp only [knownAt]; omega⟩
  exact Machine.Ahead.mono hbelow (Machine.Ahead.raise hc h)

/-- **Carrying out an effect.** -/
theorem System.Knows.effect {s s' : System} {c : ℕ} (hk : s.Knows c)
    (hs : s.step .effect = some s') : ∃ c', s'.Knows c' := by
  have hcarried := hk.carried
  rcases step_effect hs with ⟨type, commands, rest, heq, rfl⟩ | ⟨signal, value, rest, heq, hle, rfl⟩
  · rw [heq] at hcarried
    obtain ⟨ho, hrest⟩ := hcarried
    have hreached : (s.submit type commands rest).reached = Function.update s.reached type
        (max (s.reached type) (reach s.timelineSignal BitVec.toNat (commandsOf type commands))) := by
      funext type'
      by_cases hsame : type' = type
      · subst hsame
        have hsent : (s.submit type' commands rest).sent type' =
            s.sent type' ++ commandsOf type' commands := Function.update_self ..
        rw [Function.update_self, System.reached, hsent, reach_append]
        rfl
      · have hsent : (s.submit type commands rest).sent type' = s.sent type' :=
          Function.update_of_ne hsame ..
        rw [Function.update_of_ne hsame, System.reached, hsent]
        rfl
    refine ⟨c, hk.done, hk.signal, fun type' => ?_, ?_⟩
    · rw [hreached]
      by_cases hsame : type' = type
      · subst hsame
        rw [Function.update_self]
        have hsure : (knownAt c (s.reached type')).sure ≤ (knownAt c (s.reached type')).upTo :=
          Nat.le_max_left _ _
        refine Machine.Ahead.mono ⟨(sure_le_run hsure _).1, ?_⟩
          (Machine.Ahead.submit (hk.ahead type') ho)
        rw [upTo_run]
        exact (max_assoc ..).symm.le
      · rw [Function.update_of_ne hsame]
        exact Machine.Ahead.submit_of_ne hsame (hk.ahead type')
    · rw [hreached]
      exact hrest
  · rw [heq] at hcarried
    obtain ⟨rfl, hrest⟩ := hcarried
    have hvalue : s.gpu.Done 2 value.toNat := by
      refine Machine.Done.mono hk.signal ?_
      have := BitVec.le_def.mp hle
      rwa [BitVec.toNat_setWidth, Nat.mod_eq_of_lt (value.isLt.trans (by decide))] at this
    exact ⟨max c value.toNat, Machine.Done.max hk.done hvalue, hk.signal,
      fun type => ahead_raise (hk.ahead type) hvalue, hrest⟩

/-! ## Calls -/

/-- Between two calls, what has completed may be added to what is known. -/
theorem System.Knows.raise {s : System} {c c' : ℕ} (hk : s.Knows c) (heffects : s.effects = [])
    (hc : s.gpu.Done 2 c') : s.Knows (max c c') := by
  have hcarried := hk.carried
  rw [heffects] at hcarried
  refine ⟨Machine.Done.max hk.done hc, hk.signal, fun type => ahead_raise (hk.ahead type) hc, ?_⟩
  rw [heffects]
  exact ⟨hcarried.disciplined.raise (Nat.le_max_left _ _),
    fun r hlast => (hcarried.awaited r hlast).trans (Nat.le_max_left _ _)⟩

/-- A property of what has completed may be weakened. -/
theorem Carried.imp {timelineSignal : NvU64} {post post' : ℕ → Prop}
    (himp : ∀ c, post c → post' c) {c : ℕ} {n : QueueType → ℕ} {fx : List HostEffect}
    (h : Carried timelineSignal post c n fx) : Carried timelineSignal post' c n fx := by
  induction fx generalizing c n with
  | nil => exact himp c h
  | cons first rest ih =>
    cases first with
    | submit type commands => exact ⟨h.1, ih h.2⟩
    | waitCpu signal target => exact ⟨h.1, ih h.2⟩

/-- A call after which the rest can be carried out. -/
theorem System.Knows.of_called {s : System} {c : ℕ} (hk : s.Knows c) {a : ApiCall}
    {gpGet : NvU32 × NvU32} (hsig : (s.called a gpGet).timelineSignal = s.timelineSignal)
    {fx : List HostEffect} (htrace : (s.called a gpGet).host.trace = s.host.trace ++ fx)
    (hcarried : Carried s.timelineSignal (Settles (s.called a gpGet).host
      (s.called a gpGet).commenced (s.called a gpGet).last) c s.reached fx) :
    (s.called a gpGet).Knows c := by
  have hreached : (s.called a gpGet).reached = s.reached := by
    funext type
    rw [System.reached, hsig]
    rfl
  refine ⟨hk.done, ?_, fun type => ?_, ?_⟩
  · rw [hsig]
    exact hk.signal
  · rw [hsig, hreached]
    exact hk.ahead type
  · rw [hsig, hreached, called_effects htrace]
    exact hcarried

/-- **A call that builds commands.** -/
theorem System.Knows.build {s : System} {c : ℕ} (hk : s.Knows c) (heffects : s.effects = [])
    (hu : s.host.Usable) {a : ApiCall} {gpGet : NvU32 × NvU32} (hbuilds : a.Builds)
    (hok : a.Counts → s.host.timeline.timelineSteps + 1 < 2 ^ 32) :
    ∃ c', (s.called a gpGet).Knows c' := by
  have hk' := hk.raise heffects hk.signal
  have hcarried := hk'.carried
  rw [heffects] at hcarried
  have hcall : Exec.call a.run (s.observed gpGet) =
    ((Exec.call a.run (s.observed gpGet)).1, (s.called a gpGet).host) := rfl
  obtain ⟨hd, htrace⟩ := disciplined_of_call hbuilds (hu.observe s.gpu.signals gpGet)
    hcarried.disciplined (Nat.le_max_right c _) hok hcall
  have hsig := ((hu.observe s.gpu.signals gpGet).touched_of_call hcall).timelineSignal
  have hcommenced : (s.called a gpGet).commenced = s.commenced := by
    cases a <;> first | rfl | exact hbuilds.elim
  refine ⟨_, hk'.of_called hsig (htrace.trans (List.append_nil _).symm) ⟨?_, ?_⟩⟩
  · rw [hcommenced]
    exact hd
  · rintro r hlast
    cases hlast
    exact hbuilds.elim

/-- **A commence in step.** -/
theorem System.Knows.start {s : System} {c : ℕ} (hk : s.Knows c) (heffects : s.effects = [])
    (hu : s.host.Usable) {gpGet : NvU32 × NvU32} (hundivided : s.host.timeline.Undivided)
    (hcaught : s.CaughtUp) : ∃ c', (s.called .startExecution gpGet).Knows c' := by
  have hobs := hu.observe s.gpu.signals gpGet
  -- if everything commenced before has completed, that is known from here on
  obtain ⟨c', hk', hcaught'⟩ : ∃ c', s.Knows c' ∧ ∀ type commands,
      s.host.timeline.firstSegment = some (type, commands) →
        Channels.CaughtUp s.timelineSignal BitVec.toNat s.commenced (max c' (s.reached type))
          (commandsOf type commands) := by
    by_cases hdone : s.gpu.Done 2 s.commenced
    · exact ⟨_, hk.raise heffects hdone, fun type commands _ =>
        caughtUp_of_le ((Nat.le_max_right c _).trans (Nat.le_max_left _ _)) _⟩
    · exact ⟨c, hk, fun type commands hfirst =>
        ((hcaught type commands hfirst).resolve_left hdone).mono (Nat.le_max_right _ _)⟩
  have hcarried := hk'.carried
  rw [heffects] at hcarried
  have hcall : Exec.call startExecution (s.observed gpGet) =
    ((Exec.call startExecution (s.observed gpGet)).1, (s.called .startExecution gpGet).host) := rfl
  have hsig := (hobs.touched_of_call (c := .startExecution) hcall).timelineSignal
  obtain ⟨fx, htrace, hfx⟩ := carried_of_start hobs hcarried.disciplined hundivided s.reached
    hcaught' hcall
  have hcommenced : (s.called .startExecution gpGet).commenced =
      if (Exec.call startExecution (s.observed gpGet)).1 = .ok () then
        (s.called .startExecution gpGet).host.timeline.timelineSteps else s.commenced := by
    show commencedBehind (s.called .startExecution gpGet).host s.commenced .startExecution
      (Exec.call startExecution (s.observed gpGet)).1 = _
    cases (Exec.call startExecution (s.observed gpGet)).1 with
    | ok _ => rfl
    | error e =>
      rw [if_neg (by rintro ⟨⟩)]
      rfl
  refine ⟨c', hk'.of_called hsig htrace (hfx.imp fun c'' hd => ⟨?_, ?_⟩)⟩
  · rw [hcommenced]
    exact hd
  · rintro r hlast
    cases hlast

/-- **A wait for everything enqueued.** -/
theorem System.Knows.await {s : System} {c : ℕ} (hk : s.Knows c) (heffects : s.effects = [])
    (hu : s.host.Usable) {gpGet : NvU32 × NvU32} :
    ∃ c', (s.called .awaitExecution gpGet).Knows c' := by
  have hobs := hu.observe s.gpu.signals gpGet
  have hcarried := hk.carried
  rw [heffects] at hcarried
  have hcall : Exec.call awaitExecution (s.observed gpGet) =
    ((Exec.call awaitExecution (s.observed gpGet)).1, (s.called .awaitExecution gpGet).host) := rfl
  have hsig := (hobs.touched_of_call (c := .awaitExecution) hcall).timelineSignal
  obtain ⟨fx, htrace, hfx⟩ := carried_of_await hobs hcarried.disciplined s.reached hcall
  exact ⟨c, hk.of_called hsig htrace (hfx.imp fun c' hd => ⟨hd.1, fun _ _ => hd.2⟩)⟩

/-- **A call in step.** -/
theorem System.Knows.call {s : System} {c : ℕ} (hk : s.Knows c) (heffects : s.effects = [])
    (hu : s.host.Usable) {a : ApiCall} {gpGet : NvU32 × NvU32} (hok : s.InStep (.call a gpGet)) :
    ∃ c', (s.called a gpGet).Knows c' := by
  cases a with
  | launchFunction function grid block sharedMemBytes params numParams async =>
    exact hk.build heffects hu trivial hok
  | gpuMemcpy dst src numBytes async => exact hk.build heffects hu trivial hok
  | recordEvent event pStream => exact hk.build heffects hu trivial hok
  | startExecution => exact hk.start heffects hu hok.1 hok.2
  | awaitExecution => exact hk.await heffects hu

/-! ## Runs -/

/-- An initialised system knows of no operation. -/
theorem System.Initial.knows {s : System} (hi : s.Initial) : s.Knows 2 := by
  have hready := hi.host.ready
  have hdone : s.gpu.Done 2 2 := fun k hk hle => absurd hk (Nat.not_lt.mpr hle)
  have hreached : ∀ type, s.reached type = 0 := fun type => by
    rw [System.reached, hi.sent]
    rfl
  refine ⟨hdone, ?_, fun type => ?_, ?_⟩
  · rw [hi.signal]
    exact hdone
  · rw [hreached]
    refine ⟨knownAt 2 0, ⟨hdone, fun n hn hle => absurd hn (Nat.not_lt.mpr hle)⟩, ?_, ?_⟩
    · rw [hi.channels]
      trivial
    · rw [hi.channels]
      exact Known.Below.refl _
  · rw [hi.effects]
    refine ⟨?_, fun r hlast => ?_⟩
    · have hcommenced : s.commenced = s.host.timeline.timelineSteps :=
        hi.commenced.trans hready.timelineSteps.symm
      rw [hcommenced]
      exact disciplined_of_idle (by rw [hready.timelineCtr, hready.timelineSteps]; rfl)
        hready.idle hready.backlog 2
    · rw [hi.last] at hlast
      cases hlast

/-- **The invariant holds in every run in step.** -/
theorem System.Run.knows {s : System} (hr : s.Run System.InStep) : ∃ c, s.Knows c := by
  induction hr with
  | initial hi => exact ⟨2, hi.knows⟩
  | step hprev hok hs ih =>
    rename_i s s' e
    obtain ⟨c, hk⟩ := ih
    cases e with
    | call a gpGet =>
      obtain ⟨heffects, rfl⟩ := step_call hs
      exact hk.call heffects hprev.usable hok
    | effect => exact hk.effect hs
    | fetch type =>
      obtain ⟨g, hg, rfl⟩ := step_fetch hs
      exact ⟨c, hk.fetch hg⟩
    | finish type n =>
      obtain ⟨g, hg, rfl⟩ := step_finish hs
      exact ⟨c, hk.finish hg⟩

/-- **Order across the engines.** In a run in step, when an operation enqueued as a synchronous one
is next on a channel that is free to start it, every operation enqueued before it has completed. -/
theorem operation_starts_after_earlier {s : System} (hr : s.Run System.InStep) {i j : ℕ}
    {earlier later : Operation} (hearlier : s.host.operations[i]? = some earlier)
    (hlater : s.host.operations[j]? = some later) (hij : i < j) (hsync : later.async = false)
    {type : QueueType} {ordered : Bool}
    (hnext : s.gpu.next type = some (.start later.number ordered))
    (hfree : serialEngine type = true → (s.gpu.channel type).running = []) :
    earlier.number ∈ s.gpu.completed := by
  obtain ⟨c, hk⟩ := hr.knows
  have hordered := hr.ordered_of_sync (List.mem_of_getElem? hlater) hsync hnext
  rw [hordered] at hnext
  obtain ⟨hfloor, hlt⟩ := hr.labelled.numbered.lt hearlier hlater hij
  exact hk.sound.start_after hnext hfree _ hfloor (Nat.le_sub_one_of_lt hlt)

/-- The sample session is in step. -/
theorem inStep_sampleEnqueued : sampleEnqueued.Run System.InStep ∧
    sampleEnqueued.InStep (.call .startExecution (0, 0)) := by
  have hlaunch : (sampleSystem.after [.call (sampleLaunch false) (0, 0)]).Run System.InStep :=
    (System.Run.initial initial_sampleSystem).step (e := .call (sampleLaunch false) (0, 0))
      (fun _ => by decide +kernel) (by rfl)
  have hcopy : sampleEnqueued.Run System.InStep :=
    hlaunch.step (e := .call (sampleCopy false) (0, 0)) (fun _ => by decide +kernel) (by rfl)
  have hpending : sampleEnqueued.host.timeline.timelineNotifyPending = false := by rfl
  have hcommenced : sampleEnqueued.commenced = 2 := by rfl
  refine ⟨hcopy, fun _ _ hp => ?_, fun type commands _ => Or.inl fun k hk hle => ?_⟩
  · rw [hpending] at hp
    cases hp
  · rw [hcommenced] at hle
    exact absurd hk (Nat.not_lt.mpr hle)

/-- The second segment of a commence is submitted and its first two methods are executed. -/
def secondSegment : List SystemEvent := [.effect, .fetch .dma, .fetch .dma]

/-- The copy of the sample session is next on its channel. -/
def sampleCopyNext : System :=
  (sampleEnqueued.after [.call .startExecution (0, 0)]).after (firstSegment ++ secondSegment)

theorem run_sampleCopyNext : sampleCopyNext.Run System.InStep := by
  obtain ⟨hrun, hok⟩ := inStep_sampleEnqueued
  have hgpu : ∀ e ∈ firstSegment ++ secondSegment, ∀ s : System, s.InStep e := by
    intro e he s
    simp only [firstSegment, secondSegment, List.cons_append, List.nil_append, List.mem_cons,
      List.not_mem_nil, or_false] at he
    rcases he with rfl | rfl | rfl | rfl | rfl | rfl | rfl | rfl | rfl | rfl <;> trivial
  have hstart : (sampleEnqueued.after [.call .startExecution (0, 0)]).Run System.InStep :=
    hrun.step hok (by rfl)
  exact hstart.exec hgpu (exec_after (by rfl))

/-- When it is, the launch has completed. -/
theorem operation_starts_after_earlier_sample : 3 ∈ sampleCopyNext.gpu.completed := by
  have hops : sampleCopyNext.host.operations =
      [⟨3, .compute, false, sampleCopyNext.host.queue.kernArgsPageVa, 0xa00⟩,
        ⟨4, .dma, false, 0, 0⟩] := by decide +kernel
  have hlaunch : sampleCopyNext.host.operations[0]? =
      some ⟨3, .compute, false, sampleCopyNext.host.queue.kernArgsPageVa, 0xa00⟩ := by
    rw [hops]
    rfl
  have hcopy : sampleCopyNext.host.operations[1]? = some ⟨4, .dma, false, 0, 0⟩ := by
    rw [hops]
    rfl
  have hnext : sampleCopyNext.gpu.next .dma = some (.start 4 true) := by decide +kernel
  exact operation_starts_after_earlier run_sampleCopyNext hlaunch hcopy Nat.zero_lt_one rfl hnext
    fun _ => by decide +kernel

/-- A launch is commenced and runs; then a copy is commenced, and is next on its channel. -/
def copyBehindLaunch : System :=
  sampleSystem.after [.call (sampleLaunch false) (0, 0), .call .startExecution (0, 0), .effect,
    .fetch .compute, .fetch .compute, .fetch .compute, .call (sampleCopy false) (0, 0),
    .call .startExecution (0, 0), .effect, .fetch .dma, .fetch .dma]

/-- **Out of step, the copy starts while the launch before it is running.** -/
theorem copy_starts_early : ∃ s : System, (s.Run fun _ _ => True) ∧ ∃ launch copy,
    s.host.operations = [launch, copy] ∧ copy.async = false ∧
    s.gpu.next .dma = some (.start copy.number true) ∧ (s.gpu.channel .dma).running = [] ∧
    launch.number ∈ (s.gpu.channel .compute).running ∧ launch.number ∉ s.gpu.completed := by
  have hrun : copyBehindLaunch.Run fun _ _ => True :=
    (System.Run.initial initial_sampleSystem).exec (fun _ _ _ => trivial) (exec_after (by rfl))
  exact ⟨copyBehindLaunch, hrun, ⟨3, .compute, false, copyBehindLaunch.host.queue.kernArgsPageVa,
    0xa00⟩, ⟨4, .dma, false, 0, 0⟩, by decide +kernel, rfl, by decide +kernel, by decide +kernel,
    by decide +kernel, by decide +kernel⟩

end LibreCuda
