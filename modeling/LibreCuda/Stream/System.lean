import LibreCuda.Foundation.Fences
import LibreCuda.Queue.Operations

/-! # The stream and its GPU

The driver and the GPU as one system. The GPU is a compute channel and a copy channel; a call of the
driver leaves effects to be carried out, one after another and between the steps of the channels:
a submission appends to a channel, and a wait of the CPU passes once the signal has reached the
target. The next call is made when the last one has returned.

* **`System.step`** is one event: a call, an effect, a command executed by a channel, or an
  operation completed.
* **`System.Run`** is a run in which every event meets a condition on the state before it. -/

namespace LibreCuda

open Channels Exec

/-- The two channels and the memory of signals. -/
abbrev Gpu : Type := Machine QueueType NvU64 NvU64 MethodCall

/-- The copy engine transfers one buffer at a time. -/
def serialEngine : QueueType → Bool
  | .compute => false
  | .dma => true

/-- A stream, its GPU and the call that is being carried out. -/
structure System where
  host : Host
  gpu : Gpu
  /-- Effects of the last call that are still to come. -/
  effects : List HostEffect := []
  /-- Bookkeeping: effects of the last call that have happened. -/
  issued : List HostEffect := []
  /-- Bookkeeping: the last call and its outcome. -/
  last : Option (ApiCall × Except Failure Unit) := none
  /-- Bookkeeping: the operations enqueued when `startExecution` last succeeded. -/
  commenced : ℕ := 2
  /-- Bookkeeping: everything submitted to a channel. -/
  sent : QueueType → List GpuCommand := fun _ => []

/-- What can happen next. -/
inductive SystemEvent
  | call (c : ApiCall) (gpGet : NvU32 × NvU32)
  | effect
  | fetch (type : QueueType)
  | finish (type : QueueType) (n : ℕ)

/-- The address of the timeline signal. -/
def System.timelineSignal (s : System) : NvU64 := s.host.timeline.timelineSignal

/-- The stream as the driver sees it when a call is made. -/
def System.observed (s : System) (gpGet : NvU32 × NvU32) : Host :=
  s.host.observe s.gpu.signals gpGet

/-- The operations commenced behind a call that left the given stream. -/
def commencedBehind (h : Host) (commenced : ℕ) : ApiCall → Except Failure Unit → ℕ
  | .startExecution, .ok _ => h.timeline.timelineSteps
  | _, _ => commenced

/-- A call is made. -/
def System.called (s : System) (c : ApiCall) (gpGet : NvU32 × NvU32) : System :=
  let (r, h) := call c.run (s.observed gpGet)
  { s with
    host := h
    effects := h.trace.drop s.host.trace.length
    issued := []
    last := some (c, r)
    commenced := commencedBehind h s.commenced c r }

/-- A buffer is submitted. -/
def System.submit (s : System) (type : QueueType) (commands : List MethodCall)
    (rest : List HostEffect) : System :=
  { s with
    gpu := s.gpu.submit type (commandsOf type commands)
    effects := rest
    issued := s.issued ++ [.submit type commands]
    sent := Function.update s.sent type (s.sent type ++ commandsOf type commands) }

/-- A wait of the CPU returns. -/
def System.passWait (s : System) (signal : NvU64) (value : NvU32) (rest : List HostEffect) :
    System :=
  { s with effects := rest, issued := s.issued ++ [.waitCpu signal value] }

/-- The next effect of the call that is being carried out. -/
def System.carryOut (s : System) : Option System :=
  match s.effects with
  | [] => none
  | .submit type commands :: rest => some (s.submit type commands rest)
  | .waitCpu signal value :: rest =>
    if value.setWidth 64 ≤ s.gpu.signals signal then some (s.passWait signal value rest) else none

/-- An event, if it can happen. -/
def System.step (s : System) : SystemEvent → Option System
  | .call c gpGet => if s.effects = [] then some (s.called c gpGet) else none
  | .effect => s.carryOut
  | .fetch type => (s.gpu.fetch serialEngine type).map fun g => { s with gpu := g }
  | .finish type n => (s.gpu.finish type n).map fun g => { s with gpu := g }

/-- The system once a stream has been initialised: the set-up commands were awaited, so the channels
are idle and the timeline signal carries the second of their releases. -/
structure System.Initial (s : System) : Prop where
  host : s.host.Initialized
  channels : ∀ type, s.gpu.channel type = {}
  signal : s.gpu.signals s.timelineSignal = 2
  effects : s.effects = []
  issued : s.issued = []
  last : s.last = none
  commenced : s.commenced = 2
  sent : ∀ type, s.sent type = []

/-- A run from an initialised stream in which every event meets a condition. -/
inductive System.Run (ok : System → SystemEvent → Prop) : System → Prop
  | initial {s : System} : s.Initial → Run ok s
  | step {s s' : System} {e : SystemEvent} :
      Run ok s → ok s e → s.step e = some s' → Run ok s'

/-! ## Steps -/

theorem step_call {s s' : System} {c : ApiCall} {gpGet : NvU32 × NvU32}
    (h : s.step (.call c gpGet) = some s') : s.effects = [] ∧ s' = s.called c gpGet := by
  unfold System.step at h
  split_ifs at h with heffects
  exact ⟨heffects, (Option.some.inj h).symm⟩

/-- What a call added to the trace is what is to be carried out. -/
theorem called_effects {s : System} {c : ApiCall} {gpGet : NvU32 × NvU32} {fx : List HostEffect}
    (h : (s.called c gpGet).host.trace = s.host.trace ++ fx) : (s.called c gpGet).effects = fx := by
  show (s.called c gpGet).host.trace.drop s.host.trace.length = fx
  rw [h, List.drop_left]

/-- **What carrying out an effect does.** -/
theorem step_effect {s s' : System} (h : s.step .effect = some s') :
    (∃ type commands rest, s.effects = .submit type commands :: rest ∧
      s' = s.submit type commands rest) ∨
    ∃ signal value rest, s.effects = .waitCpu signal value :: rest ∧
      value.setWidth 64 ≤ s.gpu.signals signal ∧ s' = s.passWait signal value rest := by
  rw [System.step, System.carryOut] at h
  split at h
  · cases h
  · rename_i type commands rest heffects
    exact Or.inl ⟨type, commands, rest, heffects, (Option.some.inj h).symm⟩
  · rename_i signal value rest heffects
    split_ifs at h with hle
    exact Or.inr ⟨signal, value, rest, heffects, hle, (Option.some.inj h).symm⟩

theorem step_fetch {s s' : System} {type : QueueType} (h : s.step (.fetch type) = some s') :
    ∃ g, s.gpu.fetch serialEngine type = some g ∧ s' = { s with gpu := g } := by
  obtain ⟨g, hg, hs⟩ := Option.map_eq_some_iff.mp h
  exact ⟨g, hg, hs.symm⟩

theorem step_finish {s s' : System} {type : QueueType} {n : ℕ}
    (h : s.step (.finish type n) = some s') :
    ∃ g, s.gpu.finish type n = some g ∧ s' = { s with gpu := g } := by
  obtain ⟨g, hg, hs⟩ := Option.map_eq_some_iff.mp h
  exact ⟨g, hg, hs.symm⟩

/-- A run under a condition is a run under a weaker one. -/
theorem System.Run.mono {ok ok' : System → SystemEvent → Prop} (hle : ∀ s e, ok s e → ok' s e)
    {s : System} (hr : s.Run ok) : s.Run ok' := by
  induction hr with
  | initial hi => exact .initial hi
  | step _ hok hs ih => exact ih.step (hle _ _ hok) hs

/-- The host of a run is reachable. -/
theorem System.Run.reachable {ok : System → SystemEvent → Prop} {s : System} (hr : s.Run ok) :
    s.host.Reachable := by
  induction hr with
  | initial hi => exact .initialized hi.host
  | step _ _ hs ih =>
    rename_i s s' e _ _
    cases e with
    | call c gpGet =>
      obtain ⟨-, rfl⟩ := step_call hs
      exact ih.step ⟨s.gpu.signals, gpGet, rfl⟩
    | effect =>
      rcases step_effect hs with ⟨_, _, _, -, rfl⟩ | ⟨_, _, _, -, -, rfl⟩
      · exact ih
      · exact ih
    | fetch type =>
      obtain ⟨g, -, rfl⟩ := step_fetch hs
      exact ih
    | finish type n =>
      obtain ⟨g, -, rfl⟩ := step_finish hs
      exact ih

/-- What a host of a run relies on. -/
theorem System.Run.usable {ok : System → SystemEvent → Prop} {s : System} (hr : s.Run ok) :
    s.host.Usable := hr.reachable.usable

/-! ## Operations

In every run the starts on the channels belong to operations that were enqueued. -/

/-- The operations of the host, and what is left of them to submit and to start. -/
structure System.Labelled (s : System) : Prop where
  numbered : s.host.Numbered
  tagged : s.host.Tagged
  effects : ∀ type commands, .submit type commands ∈ s.effects →
    ∀ m ∈ commands, ∀ tag, m.op = some tag → s.host.Knows tag
  pending : ∀ type n ordered, .start n ordered ∈ (s.gpu.channel type).pending →
    s.host.Knows ⟨n, !ordered⟩

/-- A call keeps the labels. -/
theorem System.Labelled.called {s : System} (hl : s.Labelled) (hu : s.host.Usable) (c : ApiCall)
    (gpGet : NvU32 × NvU32) : (s.called c gpGet).Labelled := by
  have hcall : call c.run (s.observed gpGet) =
    ((call c.run (s.observed gpGet)).1, (s.called c gpGet).host) := rfl
  obtain ⟨henqueued, fx, htrace, hfx⟩ := (hu.observe s.gpu.signals gpGet).enqueued hcall
  have hknows : ∀ tag, s.host.Knows tag → (s.called c gpGet).host.Knows tag :=
    fun tag h => henqueued.knows h
  refine ⟨henqueued.numbered ⟨hl.numbered.numbers, hl.numbered.steps⟩,
    henqueued.tagged hl.tagged, fun type commands hmem m hm tag htag => ?_,
    fun type n ordered hmem => hknows _ (hl.pending type n ordered hmem)⟩
  rw [called_effects htrace] at hmem
  exact hknows tag (hl.tagged tag (hfx type commands hmem m hm tag htag))

/-- Carrying out an effect keeps the labels. -/
theorem System.Labelled.effect {s s' : System} (hl : s.Labelled) (hs : s.step .effect = some s') :
    s'.Labelled := by
  rcases step_effect hs with ⟨type, commands, rest, heq, rfl⟩ | ⟨signal, value, rest, heq, -, rfl⟩
  · refine ⟨hl.numbered, hl.tagged, fun type' commands' hmem => hl.effects type' commands' ?_,
      fun type' n ordered hmem => ?_⟩
    · rw [heq]
      exact List.mem_cons_of_mem _ hmem
    · by_cases hsame : type' = type
      · subst hsame
        have hpend : ((s.submit type' commands rest).gpu.channel type').pending =
            (s.gpu.channel type').pending ++ commandsOf type' commands := by
          simp [System.submit, Machine.submit]
        rw [hpend] at hmem
        rcases List.mem_append.mp hmem with hmem | hmem
        · exact hl.pending type' n ordered hmem
        · obtain ⟨m, hm, htag⟩ := tag_of_start hmem
          exact hl.effects type' commands (heq ▸ List.mem_cons_self) m hm _ htag
      · have hpend : (s.submit type commands rest).gpu.channel type' = s.gpu.channel type' :=
          setChannel_of_ne hsame ..
        rw [hpend] at hmem
        exact hl.pending type' n ordered hmem
  · refine ⟨hl.numbered, hl.tagged, fun type' commands' hmem => hl.effects type' commands' ?_,
      hl.pending⟩
    rw [heq]
    exact List.mem_cons_of_mem _ hmem

/-- **Every run is labelled.** -/
theorem System.Run.labelled {ok : System → SystemEvent → Prop} {s : System} (hr : s.Run ok) :
    s.Labelled := by
  induction hr with
  | initial hi =>
    obtain ⟨hnumbered, htagged⟩ := hi.host.ready.numbered
    refine ⟨hnumbered, htagged, fun type commands hmem => ?_, fun type n ordered hmem => ?_⟩
    · rw [hi.effects] at hmem
      cases hmem
    · rw [hi.channels] at hmem
      cases hmem
  | step hprev _ hs ih =>
    rename_i s s' e _
    cases e with
    | call c gpGet =>
      obtain ⟨-, rfl⟩ := step_call hs
      exact ih.called hprev.usable c gpGet
    | effect => exact ih.effect hs
    | fetch type =>
      obtain ⟨g, hg, rfl⟩ := step_fetch hs
      exact ⟨ih.numbered, ih.tagged, ih.effects, fun type' n ordered hmem =>
        ih.pending type' n ordered (pending_fetch hg hmem)⟩
    | finish type n =>
      obtain ⟨g, hg, rfl⟩ := step_finish hs
      exact ⟨ih.numbered, ih.tagged, ih.effects, fun type' n ordered hmem =>
        ih.pending type' n ordered (pending_finish hg hmem)⟩

/-- **The start of an operation on a channel is ordered when it was enqueued as a synchronous one.**
-/
theorem System.Run.ordered_of_sync {ok : System → SystemEvent → Prop} {s : System} (hr : s.Run ok)
    {o : Operation} (ho : o ∈ s.host.operations) (hsync : o.async = false) {type : QueueType}
    {ordered : Bool} (hnext : s.gpu.next type = some (.start o.number ordered)) :
    ordered = true := by
  have hl := hr.labelled
  obtain ⟨o', ho', hnumber, hasync⟩ := hl.pending type o.number ordered (List.mem_of_head? hnext)
  obtain rfl := hl.numbered.unique ho' ho hnumber
  rw [hsync] at hasync
  simpa using hasync

/-! ## Executing a list of events -/

/-- Several events one after another. -/
def System.exec (s : System) : List SystemEvent → Option System
  | [] => some s
  | e :: rest => (s.step e).bind fun s' => s'.exec rest

/-- Executing events that meet the condition wherever they happen continues a run. -/
theorem System.Run.exec {ok : System → SystemEvent → Prop} {s s' : System}
    {events : List SystemEvent} (hr : s.Run ok) (hok : ∀ e ∈ events, ∀ t, ok t e)
    (h : s.exec events = some s') : s'.Run ok := by
  induction events generalizing s with
  | nil =>
    cases h
    exact hr
  | cons e rest ih =>
    obtain ⟨t, ht, hrest⟩ := Option.bind_eq_some_iff.mp h
    exact ih (hr.step (hok e List.mem_cons_self s) ht)
      (fun e' he' => hok e' (List.mem_cons_of_mem e he')) hrest

/-- Where events lead; they are possible if `exec` says so. -/
def System.after (s : System) (events : List SystemEvent) : System := (s.exec events).getD s

theorem exec_after {s : System} {events : List SystemEvent} (h : (s.exec events).isSome = true) :
    s.exec events = some (s.after events) := by
  obtain ⟨t, ht⟩ := Option.isSome_iff_exists.mp h
  rw [System.after, ht]
  rfl

/-- The sample stream with an idle GPU. -/
def sampleSystem : System :=
  { host := sampleStream, gpu := { signals := fun _ => 2 } }

theorem initial_sampleSystem : sampleSystem.Initial :=
  ⟨initialized_sampleStream, fun _ => rfl, rfl, rfl, rfl, rfl, rfl, fun _ => rfl⟩

end LibreCuda
