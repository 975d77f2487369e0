import LibreCuda.Queue.Sealing
import LibreCuda.Stream.Conservation
import LibreCuda.Stream.InStep

/-! # What runs beside what

In a run in step whose commences are accepted, operations are in execution at the same time only if
these and everything enqueued between them are asynchronous launches. So a synchronous launch is a
barrier, and so is a copy, whether it is asynchronous or not.

* **`System.Orderly`** is the condition on the steps of such a run.
* **`System.Beside`** is the invariant.
* **`only_async_launches_overlap`** says it of every two operations. -/

namespace LibreCuda

open Channels Exec

/-- The condition: the run is in step, and commences are accepted. -/
def System.Orderly (s : System) (e : SystemEvent) : Prop := s.InStep e ∧ s.Accepts e

/-- The operation of that number was enqueued as an asynchronous launch. -/
def Host.IsAsyncLaunch (h : Host) (n : ℕ) : Prop :=
  ∃ o ∈ h.operations, o.number = n ∧ o.engine = .compute ∧ o.async = true

/-- The operation of that number was enqueued as a synchronous one. -/
def Host.IsSync (h : Host) (n : ℕ) : Prop := ∃ o ∈ h.operations, o.number = n ∧ o.async = false

/-- What runs on a channel was enqueued for it, all buffers are sealed, and what runs beside
something is an asynchronous launch. -/
structure System.Beside (s : System) : Prop where
  running : ∀ type, ∀ n ∈ (s.gpu.channel type).running, n ∈ s.numbersFor type
  buffers : s.host.timeline.Sealed
  effects : HandsSealed s.effects
  channels : s.gpu.Sealed serialEngine s.host.IsSync
  overlaps : s.gpu.Overlaps 2 s.host.IsAsyncLaunch

/-! ## Runs that are orderly -/

theorem orderly_inStep {s s' : System}
    (h : Relation.ReflTransGen (System.Next System.Orderly) s s') :
    Relation.ReflTransGen (System.Next System.InStep) s s' :=
  Relation.ReflTransGen.mono (fun _ _ ⟨e, hok, hs⟩ => ⟨e, hok.1, hs⟩) _ _ h

theorem orderly_accepts {s s' : System}
    (h : Relation.ReflTransGen (System.Next System.Orderly) s s') :
    Relation.ReflTransGen (System.Next System.Accepts) s s' :=
  Relation.ReflTransGen.mono (fun _ _ ⟨e, hok, hs⟩ => ⟨e, hok.2, hs⟩) _ _ h

theorem mem_numbersFor {s : System} {type : QueueType} {n : ℕ} :
    n ∈ s.numbersFor type ↔ ∃ o ∈ s.host.operations, o.number = n ∧ o.engine = type := by
  simp only [System.numbersFor, List.mem_map, List.mem_filter, decide_eq_true_eq]
  constructor
  · rintro ⟨o, ⟨ho, htype⟩, hn⟩
    exact ⟨o, ho, hn, htype⟩
  · rintro ⟨o, ho, hn, htype⟩
    exact ⟨o, ⟨ho, htype⟩, hn⟩

/-- What is pending on a channel was enqueued for it. -/
theorem System.Conserves.pending {s : System} {log : QueueType → List ℕ} (hc : s.Conserves log)
    {type : QueueType} {n : ℕ} {ordered : Bool} {rest : List GpuCommand}
    (hp : (s.gpu.channel type).pending = .start n ordered :: rest) : n ∈ s.numbersFor type := by
  rw [hc.placed, System.stream, hp, starts_append]
  exact List.mem_append_right _ (List.mem_append_left _ List.mem_cons_self)

/-- Operations stay. -/
theorem operations_called {s : System} (hu : s.host.Usable) (c : ApiCall)
    (gpGet : NvU32 × NvU32) : ∀ o ∈ s.host.operations, o ∈ (s.called c gpGet).host.operations := by
  have hcall : Exec.call c.run (s.observed gpGet) =
    ((Exec.call c.run (s.observed gpGet)).1, (s.called c gpGet).host) := rfl
  obtain ⟨henqueued, -⟩ := (hu.observe s.gpu.signals gpGet).enqueued hcall
  intro o ho
  cases henqueued with
  | none hops _ _ => exact hops ▸ ho
  | one _ _ hops _ _ => exact hops ▸ List.mem_append_left _ ho

/-! ## The invariant -/

/-- Calls begin nothing. -/
theorem System.Beside.called {s : System} (hb : s.Beside) (hu : s.host.Usable) (hl : s.Labelled)
    (hs : s.host.timeline.Settled) {c : ApiCall} {gpGet : NvU32 × NvU32}
    (hok : s.Accepts (.call c gpGet)) : (s.called c gpGet).Beside := by
  have hstay := operations_called hu c gpGet
  have hnumbered := (hl.called hu c gpGet).numbered
  have hcall : Exec.call c.run (s.observed gpGet) =
    ((Exec.call c.run (s.observed gpGet)).1, (s.called c gpGet).host) := rfl
  have haccepted : c = .startExecution → (Exec.call c.run (s.observed gpGet)).1 = .ok () := by
    rintro rfl
    exact hok
  obtain ⟨hbuffers, fx, htrace, hfx⟩ :=
    sealed_of_call (hu.observe s.gpu.signals gpGet) hs hb.buffers haccepted hcall
  refine ⟨fun type n hn => ?_, hbuffers, ?_, hb.channels.mono ?_, hb.overlaps.mono ?_⟩
  · obtain ⟨o, ho, hsame⟩ := mem_numbersFor.mp (hb.running type n hn)
    exact mem_numbersFor.mpr ⟨o, hstay o ho, hsame⟩
  · rw [called_effects htrace]
    exact hfx
  · -- what runs was enqueued before, and so is none of the operations that were added
    rintro type n hn ⟨o, ho, hnumber, hsync⟩
    obtain ⟨o', ho', hnumber', -⟩ := mem_numbersFor.mp (hb.running type n hn)
    obtain rfl := hnumbered.unique (hstay o' ho') ho (hnumber'.trans hnumber.symm)
    exact ⟨o', ho', hnumber', hsync⟩
  · rintro n ⟨o, ho, hsame⟩
    exact ⟨o, hstay o ho, hsame⟩

/-- Carrying out an effect begins nothing. -/
theorem System.Beside.effect {s s' : System} (hb : s.Beside) (hs : s.step .effect = some s') :
    s'.Beside := by
  have heffects := hb.effects
  rcases step_effect hs with ⟨type', commands, rest, heq, rfl⟩ | ⟨_, _, rest, heq, -, rfl⟩
  · rw [heq] at heffects
    refine ⟨fun type n hn => hb.running type n ?_, hb.buffers, fun type ms hmem =>
      heffects type ms (List.mem_cons_of_mem _ hmem), hb.channels.submit fun hserial => ?_,
      hb.overlaps.submit _⟩
    · have hrunning : ((s.submit type' commands rest).gpu.channel type).running =
          (s.gpu.channel type).running := running_submit _ type
      rwa [hrunning] at hn
    · cases type' with
      | compute => exact heffects .compute commands List.mem_cons_self rfl
      | dma => cases hserial
  · rw [heq] at heffects
    exact ⟨hb.running, hb.buffers, fun type ms hmem =>
      heffects type ms (List.mem_cons_of_mem _ hmem), hb.channels, hb.overlaps⟩

/-- The tag of a start that is pending says how its operation was enqueued. -/
theorem System.Labelled.start {s : System} (hl : s.Labelled) {type : QueueType} {n : ℕ}
    {ordered : Bool} {rest : List GpuCommand}
    (hp : (s.gpu.channel type).pending = .start n ordered :: rest) {o : Operation}
    (ho : o ∈ s.host.operations) (hnumber : o.number = n) : o.async = !ordered := by
  obtain ⟨o', ho', hnumber', hasync⟩ := hl.pending type n ordered (hp ▸ List.mem_cons_self)
  obtain rfl := hl.numbered.unique ho' ho (hnumber'.trans hnumber.symm)
  exact hasync

/-- **A fetch** begins what is pending, beside what is running on its channel. -/
theorem System.Beside.fetch {s : System} (hb : s.Beside) (hl : s.Labelled)
    {log : QueueType → List ℕ} (hc : s.Conserves log)
    (hsound : s.gpu.Sound 2 serialEngine s.timelineSignal BitVec.toNat) {type : QueueType} {g : Gpu}
    (hg : s.gpu.fetch serialEngine type = some g) : ({ s with gpu := g } : System).Beside := by
  refine ⟨fun type' n hn => ?_, hb.buffers, hb.effects,
    hb.channels.fetch hg fun n ordered rest _ hp hstrict => ?_,
    hb.overlaps.fetch hsound hg (fun k ordered rest hserial hp n hn => ?_)
      fun n rest hserial hp => ?_⟩
  · obtain ⟨cmd, rest, hp, -, hne, -, hcmd⟩ := fetch_cases hg
    by_cases hsame : type' = type
    swap
    · rw [hne type' hsame] at hn
      exact hb.running type' n hn
    subst hsame
    cases cmd with
    | release signal value =>
      rw [hcmd.2.1] at hn
      cases hn
    | acquire signal value =>
      rw [hcmd.2.1] at hn
      exact hb.running type' n hn
    | other m =>
      rw [hcmd.1] at hn
      exact hb.running type' n hn
    | start k ordered =>
      rw [hcmd.2.1] at hn
      rcases List.mem_cons.mp hn with rfl | hn
      · exact hc.pending hp
      · exact hb.running type' n hn
  · obtain ⟨o, ho, hnumber, hsync⟩ := hstrict
    have hasync := hl.start hp ho hnumber
    rw [hsync] at hasync
    simpa using hasync
  · cases type with
    | compute =>
      obtain ⟨o, ho, hnumber, hengine⟩ := mem_numbersFor.mp (hb.running .compute n hn)
      refine ⟨o, ho, hnumber, hengine, ?_⟩
      by_contra hsync
      exact hb.channels.not_strict hserial hp hn ⟨o, ho, hnumber, by simpa using hsync⟩
    | dma => cases hserial
  · cases type with
    | compute =>
      obtain ⟨o, ho, hnumber, hengine⟩ := mem_numbersFor.mp (hc.pending hp)
      exact ⟨o, ho, hnumber, hengine, hl.start hp ho hnumber⟩
    | dma => cases hserial

theorem System.Beside.finish {s : System} (hb : s.Beside) {type : QueueType} {n : ℕ} {g : Gpu}
    (hg : s.gpu.finish type n = some g) : ({ s with gpu := g } : System).Beside := by
  refine ⟨fun type' k hk => hb.running type' k ?_, hb.buffers, hb.effects, hb.channels.finish hg,
    hb.overlaps.finish hg⟩
  obtain ⟨-, -, -, hne, -, hrunning⟩ := finish_cases hg
  by_cases hsame : type' = type
  · subst hsame
    rw [hrunning] at hk
    exact List.mem_of_mem_erase hk
  · rwa [hne type' hsame] at hk

/-- Nothing has begun in a new system. -/
theorem System.Initial.besides {s : System} (hi : s.Initial) (hnew : s.gpu.completed = []) :
    s.Beside := by
  have hready := hi.host.ready
  refine ⟨fun type n hn => ?_, sealed_of_idle hready.idle hready.backlog, fun type ms hmem => ?_,
    fun type _ => ?_, fun k hk => ?_⟩
  · rw [hi.channels] at hn
    cases hn
  · rw [hi.effects] at hmem
    cases hmem
  · rw [hi.channels]
    exact ⟨trivial, nofun⟩
  · rcases hk with hk | ⟨type, hk⟩
    · rw [hnew] at hk
      cases hk
    · rw [hi.channels] at hk
      cases hk

/-- **The invariant holds in every orderly run** of a new system. -/
theorem System.Initial.beside {s s' : System} (hi : s.Initial) (hnew : s.gpu.completed = [])
    (h : Relation.ReflTransGen (System.Next System.Orderly) s s') : s'.Beside := by
  induction h with
  | refl => exact hi.besides hnew
  | tail hprev hnext ih =>
    obtain ⟨e, hok, hs⟩ := hnext
    have hr := (System.Run.initial hi).continue (orderly_inStep hprev)
    obtain ⟨log, hc⟩ := hi.conserved hnew (orderly_accepts hprev)
    cases e with
    | call c gpGet =>
      obtain ⟨-, rfl⟩ := step_call hs
      exact ih.called hr.usable hr.labelled hc.settled hok.2
    | effect => exact ih.effect hs
    | fetch type =>
      obtain ⟨g, hg, rfl⟩ := step_fetch hs
      obtain ⟨c, hk⟩ := hr.knows
      exact ih.fetch hr.labelled hc hk.sound hg
    | finish type n =>
      obtain ⟨g, hg, rfl⟩ := step_finish hs
      exact ih.finish hg

/-- **Only asynchronous launches overlap.** In every orderly run of a new system: if an operation has
begun while an earlier one has not completed, then both and everything enqueued between them are
asynchronous launches. -/
theorem only_async_launches_overlap {s s' : System} (hi : s.Initial) (hnew : s.gpu.completed = [])
    (h : Relation.ReflTransGen (System.Next System.Orderly) s s') {earlier later : Operation}
    (hearlier : earlier ∈ s'.host.operations) (hlt : earlier.number < later.number)
    (hbegun : s'.gpu.Begun later.number) (hopen : earlier.number ∉ s'.gpu.completed) :
    ∀ o ∈ s'.host.operations, earlier.number ≤ o.number → o.number ≤ later.number →
      o.engine = .compute ∧ o.async = true := by
  have hnumbered := ((System.Run.initial hi).continue (orderly_inStep h)).labelled.numbered
  obtain ⟨hfloor, -⟩ := hnumbered.bounds hearlier
  intro o ho hbehind hle
  obtain ⟨o', ho', hnumber, hengine, hasync⟩ := (hi.beside hnew h).overlaps later.number hbegun
    earlier.number hfloor hlt hopen o.number hbehind hle
  exact hnumbered.unique ho' ho hnumber ▸ ⟨hengine, hasync⟩

/-- Two asynchronous launches are enqueued. -/
def sampleAsync : System :=
  sampleSystem.after [.call (sampleLaunch true) (0, 0), .call (sampleLaunch true) (0, 0)]

/-- They are commenced, and run beside each other. -/
def sampleBeside : System :=
  (sampleAsync.after [.call .startExecution (0, 0)]).after
    (.effect :: List.replicate 6 (.fetch .compute))

/-- What comes behind the first launch is orderly. -/
theorem orderly_behindFirst : Relation.ReflTransGen (System.Next System.Orderly)
    (sampleSystem.called (sampleLaunch true) (0, 0)) sampleBeside := by
  have hsecond : System.Next System.Orderly
      (sampleSystem.called (sampleLaunch true) (0, 0)) sampleAsync :=
    ⟨.call (sampleLaunch true) (0, 0), ⟨fun _ => by decide +kernel, trivial⟩, by rfl⟩
  have hback : sampleAsync.host.timeline.commandBufBacklog = [] := by rfl
  have hcommenced : sampleAsync.commenced = 2 := by rfl
  have hstart : System.Next System.Orderly sampleAsync
      (sampleAsync.after [.call .startExecution (0, 0)]) := by
    refine ⟨.call .startExecution (0, 0), ⟨⟨fun hne => absurd hback hne,
      fun type commands _ => Or.inl fun k hk hle => ?_⟩, by rfl⟩, by rfl⟩
    rw [hcommenced] at hle
    exact absurd hk (Nat.not_lt.mpr hle)
  have hgpu : Relation.ReflTransGen (System.Next System.Orderly)
      (sampleAsync.after [.call .startExecution (0, 0)]) sampleBeside := by
    refine next_of_exec (fun e he t => ?_) (exec_after (by rfl))
    rcases List.mem_cons.mp he with rfl | he
    · exact ⟨trivial, trivial⟩
    · rw [List.eq_of_mem_replicate he]
      exact ⟨trivial, trivial⟩
  exact ((Relation.ReflTransGen.single hsecond).tail hstart).trans hgpu

theorem orderly_sampleBeside :
    Relation.ReflTransGen (System.Next System.Orderly) sampleSystem sampleBeside :=
  .head ⟨.call (sampleLaunch true) (0, 0), ⟨fun _ => by decide +kernel, trivial⟩, by rfl⟩
    orderly_behindFirst

/-- Two launches run beside each other, and they are asynchronous. -/
theorem only_async_launches_overlap_sample : sampleBeside.gpu.Begun 4 ∧
    ∀ o ∈ sampleBeside.host.operations, 3 ≤ o.number → o.number ≤ 4 →
      o.engine = .compute ∧ o.async = true := by
  have hops : sampleBeside.host.operations =
      [⟨3, .compute, true, sampleBeside.host.queue.kernArgsPageVa, 0xa00⟩,
        ⟨4, .compute, true, sampleBeside.host.queue.kernArgsPageVa + 0xa00, 0xa00⟩] := by
    decide +kernel
  have hbegun : sampleBeside.gpu.Begun 4 := Or.inr ⟨.compute, by decide +kernel⟩
  exact ⟨hbegun, @only_async_launches_overlap sampleSystem sampleBeside initial_sampleSystem
    (by rfl) orderly_sampleBeside ⟨3, .compute, true, sampleBeside.host.queue.kernArgsPageVa, 0xa00⟩
    ⟨4, .compute, true, sampleBeside.host.queue.kernArgsPageVa + 0xa00, 0xa00⟩
    (hops ▸ List.mem_cons_self) (by decide) hbegun (by decide +kernel)⟩

end LibreCuda
