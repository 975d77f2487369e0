import LibreCuda.Event.Outstanding
import LibreCuda.Foundation.Sharing
import LibreCuda.Stream.Await
import LibreCuda.Stream.Overlaps

/-! # Streams that are disturbed

What other streams of a context do changes what a stream shares with them, and leaves alone what is
its own: its queue, its commands on the channels, its operations and its timeline signal.

* **`System.Disturbed`** says that.
* **`System.Regular`** has the invariants of a stream; every orderly step of it keeps them, and so
  does every disturbance.
* **`System.Hushed`**: a stream does not release a signal.
* **`System.Spares`**: nor will it, since the signal is neither its own nor one of its pool. -/

namespace LibreCuda

open Channels Exec

/-- Nothing of the stream changed. -/
structure System.Disturbed (s s' : System) : Prop where
  queue : s'.host.queue = s.host.queue
  waits : Waits s'.host.ctx.flags
  events : ∀ e type, (s'.host.events e).signal type ≠ s.timelineSignal
  operations : s'.host.operations = s.host.operations
  gpu : s.gpu.Disturbed s.timelineSignal s'.gpu
  effects : s'.effects = s.effects
  last : s'.last = s.last
  commenced : s'.commenced = s.commenced
  sent : s'.sent = s.sent

/-- The invariants of a stream. -/
structure System.Regular (s : System) : Prop where
  usable : s.host.Usable
  labelled : s.Labelled
  known : ∃ c, s.Knows c
  conserved : ∃ log, s.Conserves log
  beside : s.Beside

/-! ## Disturbances -/

section Disturbed

variable {s s' : System}

/-- Nothing is the least disturbance. -/
theorem System.Disturbed.refl (hr : s.Regular) : s.Disturbed s :=
  ⟨rfl, hr.usable.waits, hr.usable.events, rfl, ⟨rfl, rfl, rfl⟩, rfl, rfl, rfl, rfl⟩

theorem System.Disturbed.timeline (h : s.Disturbed s') : s'.host.timeline = s.host.timeline := by
  rw [Host.timeline, Host.timeline, h.queue]

theorem System.Disturbed.timelineSignal (h : s.Disturbed s') :
    s'.timelineSignal = s.timelineSignal := by
  rw [System.timelineSignal, System.timelineSignal, h.timeline]

theorem System.Disturbed.channel (h : s.Disturbed s') (type : QueueType) :
    s'.gpu.channel type = s.gpu.channel type := congrFun h.gpu.channel type

theorem System.Disturbed.usable (h : s.Disturbed s') (hu : s.host.Usable) : s'.host.Usable := by
  refine ⟨?_, h.waits, fun e type => ?_, fun idx hidx => ?_⟩
  · rw [h.timeline]
    exact hu.timelineSignal
  · rw [h.timeline]
    exact h.events e type
  · rw [h.queue] at hidx ⊢
    rw [h.timeline]
    exact hu.freeSignals idx hidx

theorem System.Disturbed.labelled (h : s.Disturbed s') (hl : s.Labelled) : s'.Labelled := by
  have hknows : ∀ tag, s.host.Knows tag → s'.host.Knows tag := fun tag ⟨o, ho, hsame⟩ =>
    ⟨o, h.operations ▸ ho, hsame⟩
  refine ⟨⟨?_, ?_⟩, ?_, fun type commands hmem m hm tag htag => ?_, fun type n ordered hmem => ?_⟩
  · rw [h.operations]
    exact hl.numbered.numbers
  · rw [h.operations, h.timeline]
    exact hl.numbered.steps
  · intro tag htag
    rw [h.timeline] at htag
    exact hknows tag (hl.tagged tag htag)
  · rw [h.effects] at hmem
    exact hknows tag (hl.effects type commands hmem m hm tag htag)
  · rw [h.channel] at hmem
    exact hknows _ (hl.pending type n ordered hmem)

theorem System.Disturbed.reached (h : s.Disturbed s') : s'.reached = s.reached := by
  funext type
  rw [System.reached, System.reached, h.timelineSignal, h.sent]

theorem System.Disturbed.knows (h : s.Disturbed s') {c : ℕ} (hk : s.Knows c) : s'.Knows c := by
  refine ⟨hk.done.disturbed h.gpu, ?_, fun type => ?_, ?_⟩
  · rw [h.timelineSignal, h.gpu.signal]
    exact hk.signal.disturbed h.gpu
  · rw [h.timelineSignal, h.reached]
    exact (hk.ahead type).disturbed h.gpu
  · rw [h.timelineSignal, h.reached, h.effects, h.last, h.commenced]
    refine Carried.imp (fun c' hs => ⟨?_, ?_⟩) hk.carried
    · rw [h.timeline]
      exact hs.disciplined
    · rw [h.timeline]
      exact hs.awaited

theorem System.Disturbed.numbersFor (h : s.Disturbed s') (type : QueueType) :
    s'.numbersFor type = s.numbersFor type := by
  rw [System.numbersFor, System.numbersFor, h.operations]

theorem System.Disturbed.stream (h : s.Disturbed s') (type : QueueType) :
    s'.stream type = s.stream type := by
  rw [System.stream, System.stream, h.channel, h.effects, h.timeline]

theorem System.Disturbed.conserves (h : s.Disturbed s') {log : QueueType → List ℕ}
    (hc : s.Conserves log) : s'.Conserves log := by
  refine ⟨?_, fun type => ?_, fun n => ?_⟩
  · rw [h.timeline]
    exact hc.settled
  · rw [h.numbersFor, h.stream]
    exact hc.placed type
  · rw [h.gpu.begun]
    exact hc.begun n

theorem System.Disturbed.beside (h : s.Disturbed s') (hb : s.Beside) : s'.Beside := by
  refine ⟨fun type n hn => ?_, ?_, ?_, (hb.channels.disturbed h.gpu).mono ?_,
    (hb.overlaps.disturbed h.gpu).mono ?_⟩
  · rw [h.channel] at hn
    rw [h.numbersFor]
    exact hb.running type n hn
  · rw [h.timeline]
    exact hb.buffers
  · rw [h.effects]
    exact hb.effects
  · rintro type n - ⟨o, ho, hsame⟩
    exact ⟨o, h.operations ▸ ho, hsame⟩
  · rintro n ⟨o, ho, hsame⟩
    exact ⟨o, h.operations ▸ ho, hsame⟩

/-- **A disturbance keeps the invariants.** -/
theorem System.Regular.disturbed (hr : s.Regular) (h : s.Disturbed s') : s'.Regular := by
  obtain ⟨c, hk⟩ := hr.known
  obtain ⟨log, hc⟩ := hr.conserved
  exact ⟨h.usable hr.usable, h.labelled hr.labelled, ⟨c, h.knows hk⟩, ⟨log, h.conserves hc⟩,
    h.beside hr.beside⟩

end Disturbed

/-! ## Steps of the stream itself -/

section Steps

variable {s s' : System}

/-- **A call keeps the invariants.** -/
theorem System.Regular.called (hr : s.Regular) (heffects : s.effects = []) {c : ApiCall}
    {gpGet : NvU32 × NvU32} (hok : s.Orderly (.call c gpGet)) : (s.called c gpGet).Regular := by
  obtain ⟨k, hk⟩ := hr.known
  obtain ⟨log, hc⟩ := hr.conserved
  have hcall : Exec.call c.run (s.observed gpGet) =
    ((Exec.call c.run (s.observed gpGet)).1, (s.called c gpGet).host) := rfl
  exact ⟨(hr.usable.observe s.gpu.signals gpGet).call hcall, hr.labelled.called hr.usable c gpGet,
    hk.call heffects hr.usable hok.1, ⟨log, hc.called hr.usable heffects hok.2⟩,
    hr.beside.called hr.usable hr.labelled hc.settled hok.2⟩

theorem System.Regular.effect (hr : s.Regular) (hs : s.step .effect = some s') : s'.Regular := by
  obtain ⟨k, hk⟩ := hr.known
  obtain ⟨log, hc⟩ := hr.conserved
  have hstream := stream_effect hs
  refine ⟨?_, hr.labelled.effect hs, hk.effect hs, ⟨log, ?_⟩, hr.beside.effect hs⟩
  · rcases step_effect hs with ⟨_, _, _, -, rfl⟩ | ⟨_, _, _, -, -, rfl⟩
    · exact hr.usable
    · exact hr.usable
  · rcases step_effect hs with ⟨type, commands, rest, -, rfl⟩ | ⟨_, _, _, -, -, rfl⟩
    · exact ⟨hc.settled, fun type' => hstream type' ▸ hc.placed type', fun n =>
        (hc.begun n).trans (begun_submit _ n).symm⟩
    · exact ⟨hc.settled, fun type' => hstream type' ▸ hc.placed type', hc.begun⟩

theorem System.Regular.fetch (hr : s.Regular) {type : QueueType} {g : Gpu}
    (hg : s.gpu.fetch serialEngine type = some g) : ({ s with gpu := g } : System).Regular := by
  obtain ⟨k, hk⟩ := hr.known
  obtain ⟨log, hc⟩ := hr.conserved
  obtain ⟨cmd, rest, -, hfetched⟩ := hc.fetch hg
  exact ⟨hr.usable, ⟨hr.labelled.numbered, hr.labelled.tagged, hr.labelled.effects,
    fun type' n ordered hmem => hr.labelled.pending type' n ordered (pending_fetch hg hmem)⟩,
    ⟨k, hk.fetch hg⟩, ⟨_, hfetched⟩, hr.beside.fetch hr.labelled hc hk.sound hg⟩

theorem System.Regular.finish (hr : s.Regular) {type : QueueType} {n : ℕ} {g : Gpu}
    (hg : s.gpu.finish type n = some g) : ({ s with gpu := g } : System).Regular := by
  obtain ⟨k, hk⟩ := hr.known
  obtain ⟨log, hc⟩ := hr.conserved
  refine ⟨hr.usable, ⟨hr.labelled.numbered, hr.labelled.tagged, hr.labelled.effects,
    fun type' n ordered hmem => hr.labelled.pending type' n ordered (pending_finish hg hmem)⟩,
    ⟨k, hk.finish hg⟩, ⟨log, hc.settled, fun type' => ?_, fun k => ?_⟩, hr.beside.finish hg⟩
  · rw [stream_finish hg]
    exact hc.placed type'
  · rw [hc.begun]
    exact (begun_finish hg k).symm

/-- **Every orderly step keeps the invariants.** -/
theorem System.Regular.step (hr : s.Regular) {e : SystemEvent} (hok : s.Orderly e)
    (hs : s.step e = some s') : s'.Regular := by
  cases e with
  | call c gpGet =>
    obtain ⟨heffects, rfl⟩ := step_call hs
    exact hr.called heffects hok
  | effect => exact hr.effect hs
  | fetch type =>
    obtain ⟨g, hg, rfl⟩ := step_fetch hs
    exact hr.fetch hg
  | finish type n =>
    obtain ⟨g, hg, rfl⟩ := step_finish hs
    exact hr.finish hg

theorem System.Initial.regular (hi : s.Initial) (hnew : s.gpu.completed = []) : s.Regular :=
  have hr : s.Run fun _ _ => True := .initial hi
  ⟨hi.host.usable, hr.labelled, ⟨2, hi.knows⟩, ⟨_, hi.conserves hnew⟩, hi.besides hnew⟩

end Steps

/-! ## Signals of others -/

/-- Nothing of the stream releases the signal: neither what is on the channels, nor what is about to
be submitted, nor what waits in the queue. -/
structure System.Hushed (sig : NvU64) (s : System) : Prop where
  pending : ∀ type, releaseCount sig (s.gpu.channel type).pending = 0
  effects : releaseCount sig (submittedCommands s.effects) = 0
  outstanding : s.host.timeline.outstanding sig = 0

section Hushed

variable {sig : NvU64}

/-- **A call releases its own signal and those of events only**, as long as commences are accepted.
-/
theorem hushed_of_call {h h' : Host} {c : ApiCall} {r : Except Failure Unit} (hu : h.Usable)
    (hs : h.timeline.Settled) (hstart : c = .startExecution → r = .ok ())
    (hne : h.timeline.timelineSignal ≠ sig) (hevents : ∀ e type, (h'.events e).signal type ≠ sig)
    (hout : h.timeline.outstanding sig = 0) (hc : call c.run h = (r, h')) :
    ∃ fx, h'.trace = h.trace ++ fx ∧ releaseCount sig (submittedCommands fx) = 0 ∧
      h'.timeline.outstanding sig = 0 := by
  have hbuild : ∀ hbuilds : c.Builds, (∀ event pStream, c ≠ .recordEvent event pStream) →
      h'.trace = h.trace → ∃ fx, h'.trace = h.trace ++ fx ∧
        releaseCount sig (submittedCommands fx) = 0 ∧ h'.timeline.outstanding sig = 0 := by
    intro hbuilds hrecord htrace
    refine ⟨[], htrace.trans (List.append_nil _).symm, rfl, ?_⟩
    rw [outstanding_of_call hbuilds hrecord hu hs hne hc]
    exact hout
  cases c with
  | launchFunction function grid block sharedMemBytes params numParams async =>
    refine hbuild trivial nofun ?_
    rcases wp_call hc (wp_launchFunction hu.timelineSignal function grid block sharedMemBytes params
      numParams async) with ⟨_, -, f, -, hok⟩ | ⟨_, -, herr⟩
    · exact hok.trace
    · exact herr.trace
  | gpuMemcpy dst src numBytes async =>
    refine hbuild trivial nofun ?_
    rcases wp_call hc (wp_gpuMemcpy hu.timelineSignal dst src numBytes async) with
      ⟨_, -, hok⟩ | ⟨_, -, rfl⟩
    · exact hok.trace
    · rfl
  | recordEvent event pStream =>
    rcases wp_call hc (wp_recordEvent event pStream h) with
      ⟨_, -, hrec, e, signal, -, hsignal, ht⟩ | ⟨_, -, hrec, ht⟩
    · refine ⟨[], hrec.trace.trans (List.append_nil _).symm, rfl, ?_⟩
      rw [ht, outstanding_record hs, hout, if_neg (hsignal ▸ hevents e _)]
    · refine ⟨[], hrec.trace.trans (List.append_nil _).symm, rfl, ?_⟩
      rw [ht]
      exact hout
  | startExecution =>
    obtain rfl := hstart rfl
    obtain ⟨fx, htrace, hcount, hafter⟩ := outstanding_of_commence hu hs hne hc
    exact ⟨fx, htrace, hcount.trans hout, hafter⟩
  | awaitExecution =>
    rcases wp_call hc (wp_awaitExecution hu.timelineSignal hu.waits) with ⟨_, -, hok⟩ | ⟨_, -, hf⟩
    · obtain ⟨-, -, -, ht, -, htrace⟩ := hok
      refine ⟨_, htrace, rfl, ?_⟩
      rw [ht]
      exact hout
    · exact hf.elim

theorem System.Hushed.called {s : System} (hh : s.Hushed sig) (hr : s.Regular) {c : ApiCall}
    {gpGet : NvU32 × NvU32} (hok : s.Accepts (.call c gpGet)) (hne : s.timelineSignal ≠ sig)
    (hevents : ∀ e type, ((s.called c gpGet).host.events e).signal type ≠ sig) :
    (s.called c gpGet).Hushed sig := by
  obtain ⟨log, hc⟩ := hr.conserved
  have hcall : Exec.call c.run (s.observed gpGet) =
    ((Exec.call c.run (s.observed gpGet)).1, (s.called c gpGet).host) := rfl
  have haccepted : c = .startExecution → (Exec.call c.run (s.observed gpGet)).1 = .ok () := by
    rintro rfl
    exact hok
  obtain ⟨fx, htrace, hcount, hout⟩ := hushed_of_call (hr.usable.observe s.gpu.signals gpGet)
    hc.settled haccepted hne hevents hh.outstanding hcall
  exact ⟨hh.pending, by rw [called_effects htrace]; exact hcount, hout⟩

theorem System.Hushed.effect {s s' : System} (hh : s.Hushed sig) (hs : s.step .effect = some s') :
    s'.Hushed sig := by
  have heffects := hh.effects
  rcases step_effect hs with ⟨type, commands, rest, heq, rfl⟩ | ⟨_, _, rest, heq, -, rfl⟩
  · have hsplit : submittedCommands s.effects =
        commandsOf type commands ++ submittedCommands rest := by
      rw [heq]
      rfl
    rw [hsplit, releaseCount_append] at heffects
    obtain ⟨hfirst, hrest⟩ := Nat.add_eq_zero_iff.mp heffects
    refine ⟨fun type' => ?_, hrest, hh.outstanding⟩
    by_cases hsame : type' = type
    · subst hsame
      have hpend : ((s.submit type' commands rest).gpu.channel type').pending =
          (s.gpu.channel type').pending ++ commandsOf type' commands := pending_submit_self _
      rw [hpend, releaseCount_append, hh.pending, hfirst]
    · have hpend : (s.submit type commands rest).gpu.channel type' = s.gpu.channel type' :=
        channel_submit_of_ne hsame _
      rw [hpend]
      exact hh.pending type'
  · rw [heq] at heffects
    exact ⟨hh.pending, heffects, hh.outstanding⟩

theorem System.Hushed.fetch {s : System} (hh : s.Hushed sig) {type : QueueType} {g : Gpu}
    (hg : s.gpu.fetch serialEngine type = some g) : ({ s with gpu := g } : System).Hushed sig := by
  obtain ⟨cmd, rest, hp, -, hne, hp', -⟩ := fetch_cases hg
  refine ⟨fun type' => ?_, hh.effects, hh.outstanding⟩
  by_cases hsame : type' = type
  · subst hsame
    have hpending := hh.pending type'
    rw [hp, releaseCount_cons] at hpending
    show releaseCount sig (g.channel type').pending = 0
    rw [hp']
    omega
  · show releaseCount sig (g.channel type').pending = 0
    rw [hne type' hsame]
    exact hh.pending type'

theorem System.Hushed.finish {s : System} (hh : s.Hushed sig) {type : QueueType} {n : ℕ} {g : Gpu}
    (hg : s.gpu.finish type n = some g) : ({ s with gpu := g } : System).Hushed sig := by
  refine ⟨fun type' => ?_, hh.effects, hh.outstanding⟩
  show releaseCount sig (g.channel type').pending = 0
  rw [pending_finish_eq hg]
  exact hh.pending type'

theorem System.Hushed.disturbed {s s' : System} (hh : s.Hushed sig) (h : s.Disturbed s') :
    s'.Hushed sig := by
  refine ⟨fun type => ?_, ?_, ?_⟩
  · rw [h.channel]
    exact hh.pending type
  · rw [h.effects]
    exact hh.effects
  · rw [h.timeline]
    exact hh.outstanding

end Hushed

/-- A stream leaves a signal alone. -/
structure System.Spares (sig : NvU64) (s : System) : Prop extends System.Hushed sig s where
  timeline : s.timelineSignal ≠ sig
  pool : ∀ idx ∈ s.host.queue.freeSignals,
    s.host.queue.signalPool + idx.setWidth 64 * nvSignalBytes ≠ sig

section Spares

variable {sig : NvU64} {s s' : System}

/-- Events take signals from the pool of the stream. -/
theorem System.Spares.events (hp : s.Spares sig) (hr : s.Regular)
    (hevents : ∀ e type, (s.host.events e).signal type ≠ sig) (c : ApiCall) (gpGet : NvU32 × NvU32)
    (e : ℕ) (type : QueueType) : ((s.called c gpGet).host.events e).signal type ≠ sig := by
  have hcall : Exec.call c.run (s.observed gpGet) =
    ((Exec.call c.run (s.observed gpGet)).1, (s.called c gpGet).host) := rfl
  have htouched := (hr.usable.observe s.gpu.signals gpGet).touched_of_call hcall
  rcases htouched.events.signal e type with hsame | ⟨idx, hidx, hnew⟩
  · rw [hsame]
    exact hevents e type
  · rw [hnew]
    exact hp.pool idx hidx

theorem System.Spares.called (hp : s.Spares sig) (hr : s.Regular) {c : ApiCall}
    {gpGet : NvU32 × NvU32} (hok : s.Accepts (.call c gpGet))
    (hevents : ∀ e type, (s.host.events e).signal type ≠ sig) : (s.called c gpGet).Spares sig := by
  have hcall : Exec.call c.run (s.observed gpGet) =
    ((Exec.call c.run (s.observed gpGet)).1, (s.called c gpGet).host) := rfl
  have htouched := (hr.usable.observe s.gpu.signals gpGet).touched_of_call hcall
  refine ⟨hp.toHushed.called hr hok hp.timeline (hp.events hr hevents c gpGet), ?_,
    fun idx hidx => ?_⟩
  · rw [System.timelineSignal, htouched.timelineSignal]
    exact hp.timeline
  · rw [htouched.signalPool]
    exact hp.pool idx (htouched.events.freeSignals hidx)

theorem System.Spares.effect (hp : s.Spares sig) (hs : s.step .effect = some s') :
    s'.Spares sig := by
  have hhost : s'.host = s.host := by
    rcases step_effect hs with ⟨_, _, _, -, rfl⟩ | ⟨_, _, _, -, -, rfl⟩
    · rfl
    · rfl
  refine ⟨hp.toHushed.effect hs, ?_, ?_⟩
  · rw [System.timelineSignal, hhost]
    exact hp.timeline
  · rw [hhost]
    exact hp.pool

theorem System.Spares.fetch (hp : s.Spares sig) {type : QueueType} {g : Gpu}
    (hg : s.gpu.fetch serialEngine type = some g) : ({ s with gpu := g } : System).Spares sig :=
  ⟨hp.toHushed.fetch hg, hp.timeline, hp.pool⟩

theorem System.Spares.finish (hp : s.Spares sig) {type : QueueType} {n : ℕ} {g : Gpu}
    (hg : s.gpu.finish type n = some g) : ({ s with gpu := g } : System).Spares sig :=
  ⟨hp.toHushed.finish hg, hp.timeline, hp.pool⟩

theorem System.Spares.disturbed (hp : s.Spares sig) (h : s.Disturbed s') : s'.Spares sig := by
  refine ⟨hp.toHushed.disturbed h, ?_, ?_⟩
  · rw [h.timelineSignal]
    exact hp.timeline
  · rw [h.queue]
    exact hp.pool

end Spares

end LibreCuda
