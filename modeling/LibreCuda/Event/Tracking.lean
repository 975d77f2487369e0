import LibreCuda.Event.Outstanding
import LibreCuda.Event.Signals
import LibreCuda.Foundation.Runs
import LibreCuda.Stream.System

/-! # Events that are recorded again

`waitForEvent` and `getEventTimestamp` look at the signal an event has on the compute engine, or at
the one on the copy engine when it has no other, and every record of the event releases with the
same value.

* **`Watched.step`** is the stream and its GPU with one event that is watched: a release stores the
  time in its signal, and the two functions are calls like others.
* **`Watched.Tracked`**: what they report is about the latest record of the event.
* **`events_track`**: they do in every run in which the latest record has been reached when they are
  called, or is the only one on the engine they look at.
* **`event_recorded_again`** is the shortest history in which they do not. -/

namespace LibreCuda

open Channels Exec Runs

/-! ## The two functions -/

/-- `waitForEvent`. The status of the wait is not looked at; it fails for the null pointer only. -/
def waitForEvent (event : Option ℕ) : Driver Unit := do
  match event with
  | none => throw (.status .invalidValue)
  | some event =>
    let h ← get
    let e := h.events event
    validate e.stream.isSome .invalidValue
    validate (e.computeSignal != 0 || e.dmaSignal != 0) .invalidValue
    if e.computeSignal ≠ 0 then signalWaitCpu e.computeSignal 1
    else if e.dmaSignal ≠ 0 then signalWaitCpu e.dmaSignal 1

/-- The time stamp of a signal that was released. -/
def readTimestamp (signal : NvSignal) : Driver NvU64 := do
  validate (signal.value == 1) .notReady
  pure signal.timeStamp

/-- `getEventTimestamp`; `hasOut` says that there is a place for the result. -/
def getEventTimestamp (event : Option ℕ) (hasOut : Bool) : Driver NvU64 := do
  match event with
  | none => throw (.status .invalidValue)
  | some event =>
    let h ← get
    let e := h.events event
    validate hasOut .invalidValue
    validate e.stream.isSome .invalidValue
    validate (e.computeSignal != 0 || e.dmaSignal != 0) .invalidValue
    if e.computeSignal ≠ 0 then readTimestamp (h.signals e.computeSignal)
    else readTimestamp (h.signals e.dmaSignal)

/-- The engine whose signal both look at. -/
def LibreCUEvent.looked (e : LibreCUEvent) : QueueType :=
  if e.computeSignal ≠ 0 then .compute else .dma

/-! ## Watching an event -/

/-- A stream, its GPU, and what happened to one event. -/
structure Watched where
  system : System
  /-- The time stamps in the memory of signals. -/
  timeStamps : NvU64 → NvU64 := fun _ => 0
  /-- Bookkeeping: the times of the releases of a signal that were executed, the last one first. -/
  released : NvU64 → List NvU64 := fun _ => []
  /-- Bookkeeping: the engines the event was recorded on, the last one first. -/
  records : List QueueType := []
  /-- Bookkeeping: the last call is a `waitForEvent` that was not refused. -/
  waiting : Bool := false
  /-- Bookkeeping: what the last call returned, if it is a `getEventTimestamp` that succeeded and
  nothing has happened since. -/
  timestamp : Option NvU64 := none

/-- What can happen: an event of the stream at a time, or a call of the two functions. -/
inductive WatchedEvent
  | run (e : SystemEvent) (time : NvU64)
  | waitForEvent (gpGet : NvU32 × NvU32)
  | getEventTimestamp

/-- The signal that is released next if an event happens. -/
def System.releases (s : System) : SystemEvent → Option NvU64
  | .fetch type =>
    match s.gpu.next type with
    | some (.release signal _) => some signal
    | _ => none
  | _ => none

/-- The call records the event, and succeeds. -/
def System.recordsEvent (s : System) (event : ℕ) : SystemEvent → Bool
  | .call (.recordEvent (some e) pStream) gpGet =>
    e == event &&
      (call (recordEvent (some e) pStream) (s.observed gpGet)).1.isOk
  | _ => false

/-- The event is a call. -/
def SystemEvent.isCall : SystemEvent → Bool
  | .call _ _ => true
  | _ => false

/-- The host with the time stamps that are in memory. -/
def Watched.observed (w : Watched) : Host :=
  { w.system.host with signals := fun a => ⟨w.system.gpu.signals a, w.timeStamps a⟩ }

/-- A release that is executed at a time. -/
def Watched.stamp (w : Watched) (signal : Option NvU64) (time : NvU64) : Watched :=
  match signal with
  | none => w
  | some signal => { w with
      timeStamps := Function.update w.timeStamps signal time
      released := Function.update w.released signal (time :: w.released signal) }

/-- The system behind a call of `waitForEvent`. -/
def System.waitCalled (s : System) (event : ℕ) (gpGet : NvU32 × NvU32) : System :=
  let h := (call (waitForEvent (some event)) (s.observed gpGet)).2
  { s with
    host := h
    effects := h.trace.drop s.host.trace.length
    issued := []
    last := none }

/-- What an event does, if it can happen. -/
def Watched.step (event : ℕ) (w : Watched) : WatchedEvent → Option Watched
  | .run e time => (w.system.step e).map fun s =>
    { w.stamp (w.system.releases e) time with
      system := s
      records := if w.system.recordsEvent event e then
          w.system.host.timeline.recordType :: w.records
        else w.records
      waiting := w.waiting && !e.isCall
      timestamp := none }
  | .waitForEvent gpGet =>
    if w.system.effects = [] then some
      { w with
        system := w.system.waitCalled event gpGet
        waiting := (call (waitForEvent (some event)) (w.system.observed gpGet)).1.isOk
        timestamp := none }
    else none
  | .getEventTimestamp =>
    if w.system.effects = [] then some
      { w with
        waiting := false
        timestamp := (call (getEventTimestamp (some event) true) w.observed).1.toOption }
    else none

/-! ## The property -/

/-- The signal the event has on an engine. -/
def Watched.signal (w : Watched) (event : ℕ) (type : QueueType) : NvU64 :=
  (w.system.host.events event).signal type

/-- The release of the latest record has been executed: as many releases of the event's signal on
its engine as the event was recorded there. -/
def Watched.Latest (w : Watched) (event : ℕ) : Prop :=
  ∃ type rest, w.records = type :: rest ∧
    (w.released (w.signal event type)).length = w.records.count type

/-- **Tracking.** Once `waitForEvent` has returned, the release of the latest record has been
executed; and so it has when `getEventTimestamp` succeeds, which returns the time of that release. -/
structure Watched.Tracked (event : ℕ) (w : Watched) : Prop where
  wait : w.waiting = true → w.system.effects = [] → w.Latest event
  timestamp : ∀ t, w.timestamp = some t → ∃ type rest times, w.records = type :: rest ∧
    w.released (w.signal event type) = t :: times ∧ times.length + 1 = w.records.count type

/-- The latest record is the only one on the engine that is looked at. -/
def Watched.Sole (w : Watched) (event : ℕ) : Prop :=
  ∃ rest, w.records = (w.system.host.events event).looked :: rest ∧
    (w.system.host.events event).looked ∉ rest

/-- The condition on a step. -/
def Watched.Reliable (event : ℕ) (w : Watched) : WatchedEvent → Prop
  | .waitForEvent _ => w.records = [] ∨ w.Latest event ∨ w.Sole event
  | .getEventTimestamp => w.records = [] ∨
      w.released (w.signal event (w.system.host.events event).looked) = [] ∨
      (w.records.head? = some (w.system.host.events event).looked ∧
        (w.Latest event ∨ w.Sole event))
  | .run (.call .startExecution gpGet) _ =>
    (call startExecution (w.system.observed gpGet)).1 = .ok ()
  | .run _ _ => True

/-! ## Releases along the stream -/

/-- Releases of a signal that were enqueued and not executed. -/
def System.outstanding (s : System) (sig : NvU64) : ℕ :=
  releaseCount sig (s.gpu.channel .compute).pending +
    releaseCount sig (s.gpu.channel .dma).pending +
    releaseCount sig (submittedCommands s.effects) + s.host.timeline.outstanding sig

section System

variable {s s' : System}

/-- Carrying out an effect moves releases to a channel. -/
theorem outstanding_effect (h : s.step .effect = some s') (sig : NvU64) :
    s'.outstanding sig = s.outstanding sig := by
  rcases step_effect h with ⟨type, commands, rest, heffects, rfl⟩ | ⟨a, v, rest, heffects, -, rfl⟩
  · have hsubmitted : releaseCount sig (submittedCommands s.effects) =
        releaseCount sig (commandsOf type commands) + releaseCount sig (submittedCommands rest) := by
      rw [heffects, ← releaseCount_append]
      rfl
    have hpend : ((s.submit type commands rest).gpu.channel type).pending =
        (s.gpu.channel type).pending ++ commandsOf type commands := by
      simp [System.submit, Machine.submit]
    have hother : (s.submit type commands rest).gpu.channel type.other =
        s.gpu.channel type.other := setChannel_of_ne (by cases type <;> decide) ..
    have hcount := congrArg (releaseCount sig) hpend
    rw [releaseCount_append] at hcount
    show _ + _ + releaseCount sig (submittedCommands rest) + s.host.timeline.outstanding sig = _
    unfold System.outstanding
    cases type with
    | compute =>
      have hdma : (s.submit .compute commands rest).gpu.channel .dma = s.gpu.channel .dma := hother
      rw [hdma]
      omega
    | dma =>
      have hcompute : (s.submit .dma commands rest).gpu.channel .compute =
          s.gpu.channel .compute := hother
      rw [hcompute]
      omega
  · have hsubmitted : submittedCommands s.effects = submittedCommands rest := by
      rw [heffects]
      rfl
    unfold System.outstanding
    rw [hsubmitted]
    rfl

/-- A command that is executed is no longer outstanding, and writes to the signal it releases. -/
theorem outstanding_fetch {type : QueueType} (h : s.step (.fetch type) = some s') :
    s'.host = s.host ∧ s'.effects = s.effects ∧
      (∀ sig, s.outstanding sig =
        s'.outstanding sig + if s.releases (.fetch type) = some sig then 1 else 0) ∧
      ∀ sig, s.releases (.fetch type) ≠ some sig → s'.gpu.signals sig = s.gpu.signals sig := by
  obtain ⟨g, hg, rfl⟩ := step_fetch h
  obtain ⟨cmd, rest, hpend, -, hothers, hrest, hcmd⟩ := fetch_cases hg
  have hnext : s.gpu.next type = some cmd := by rw [Machine.next, hpend]; rfl
  have hreleases : ∀ sig, (cmd.releases sig = true ↔ s.releases (.fetch type) = some sig) := by
    intro sig
    simp only [System.releases, hnext]
    cases cmd <;> simp [Command.releases]
  refine ⟨rfl, rfl, fun sig => ?_, fun sig hne => ?_⟩
  · have hcount : releaseCount sig (s.gpu.channel type).pending =
        releaseCount sig (g.channel type).pending +
          if s.releases (.fetch type) = some sig then 1 else 0 := by
      rw [hpend, hrest, releaseCount_cons]
      simp only [hreleases sig]
    unfold System.outstanding
    dsimp only
    cases type with
    | compute =>
      rw [hothers .dma (by decide)]
      omega
    | dma =>
      rw [hothers .compute (by decide)]
      omega
  · have hno : cmd.releases sig = false := Bool.eq_false_iff.mpr fun hyes =>
      hne ((hreleases sig).mp hyes)
    cases cmd with
    | release signal value =>
      have hdiff : signal ≠ sig := by simpa [Command.releases] using hno
      show g.signals sig = _
      rw [hcmd.2.2, Function.update_of_ne hdiff.symm]
    | acquire signal value => exact congrFun hcmd.2.2 sig
    | start n ordered => exact congrFun hcmd.2.2 sig
    | other m => exact congrFun hcmd.2 sig

theorem outstanding_finish {type : QueueType} {n : ℕ} (h : s.step (.finish type n) = some s') :
    s'.host = s.host ∧ s'.effects = s.effects ∧ s'.gpu.signals = s.gpu.signals ∧
      ∀ sig, s'.outstanding sig = s.outstanding sig := by
  obtain ⟨g, hg, rfl⟩ := step_finish h
  obtain ⟨-, -, hsignals, hothers, hpend, -⟩ := finish_cases hg
  refine ⟨rfl, rfl, hsignals, fun sig => ?_⟩
  unfold System.outstanding
  cases type with
  | compute => rw [hothers .dma (by decide), hpend]
  | dma => rw [hothers .compute (by decide), hpend]

/-- What a call that was made left to carry out, and to commence. -/
theorem outstanding_called {c : ApiCall} {gpGet : NvU32 × NvU32} (heffects : s.effects = [])
    {record : Option NvU64} (ht : (s.observed gpGet).Tallied record (s.called c gpGet).host)
    {sig : NvU64} (hne : s.timelineSignal ≠ sig) :
    (s.called c gpGet).outstanding sig =
      s.outstanding sig + if record = some sig then 1 else 0 := by
  obtain ⟨fx, htrace, hcount⟩ := ht.count
  have hcount : _ = s.host.timeline.outstanding sig + _ := hcount sig hne
  have hfx : (s.called c gpGet).effects = fx := called_effects htrace
  have hchannel : (s.called c gpGet).gpu.channel = s.gpu.channel := rfl
  unfold System.outstanding
  rw [hfx, heffects, hchannel, show submittedCommands [] = [] from rfl, releaseCount_nil]
  omega

end System

/-! ## The invariant -/

/-- **The invariant of a run.** The releases of a signal of the event that were executed or are
outstanding are its records on that engine; a free signal was not released and will not be; a signal
that was never released is zero; and a signal carries the time of its last release. -/
structure Watched.Sound (event : ℕ) (w : Watched) : Prop where
  usable : w.system.host.Usable
  balanced : w.system.host.timeline.Balanced (submittedCommands w.system.host.trace)
  owned : w.system.host.OwnSignals
  counted : ∀ type, w.signal event type ≠ 0 →
    (w.released (w.signal event type)).length + w.system.outstanding (w.signal event type) =
      w.records.count type
  recorded : ∀ type, w.signal event type = 0 ↔ type ∉ w.records
  free : ∀ a ∈ w.system.host.freeAddresses, w.released a = [] ∧ w.system.outstanding a = 0
  silent : ∀ a, w.system.timelineSignal ≠ a → w.released a = [] → w.system.gpu.signals a = 0
  stamped : ∀ a t times, w.released a = t :: times → w.timeStamps a = t

variable {event : ℕ} {w w' : Watched}

/-- The signals of the event are not the timeline's. -/
theorem Watched.Sound.signal_ne (h : w.Sound event) (type : QueueType) :
    w.system.timelineSignal ≠ w.signal event type := (h.usable.events event type).symm

theorem Watched.Sound.free_ne (h : w.Sound event) {a : NvU64}
    (ha : a ∈ w.system.host.freeAddresses) : w.system.timelineSignal ≠ a := by
  obtain ⟨idx, hidx, rfl⟩ := List.mem_map.mp ha
  exact (h.usable.freeSignals idx hidx).symm

/-- No more releases are executed than were recorded. -/
theorem Watched.Sound.released_le (h : w.Sound event) {type : QueueType}
    (hne : w.signal event type ≠ 0) :
    (w.released (w.signal event type)).length ≤ w.records.count type := by
  have hcounted := h.counted type hne
  omega

/-- An engine the event was recorded on has a signal. -/
theorem Watched.Sound.signal_of_mem (h : w.Sound event) {type : QueueType}
    (hmem : type ∈ w.records) : w.signal event type ≠ 0 :=
  fun hzero => (h.recorded type).mp hzero hmem

/-- Once the latest record has been reached it stays so until the next one. -/
theorem Watched.Latest.mono (h : w.Latest event) (hw' : w'.Sound event)
    (hrecords : w'.records = w.records) (hsignal : ∀ type, w'.signal event type = w.signal event type)
    (hmore : ∀ a, (w.released a).length ≤ (w'.released a).length) : w'.Latest event := by
  obtain ⟨type, rest, hhead, hcount⟩ := h
  have hhead' : w'.records = type :: rest := hrecords.trans hhead
  have hmem : type ∈ w'.records := hhead' ▸ List.mem_cons_self
  have hne := hw'.signal_of_mem hmem
  have hle := hw'.released_le hne
  have hge := hmore (w.signal event type)
  refine ⟨type, rest, hhead', ?_⟩
  rw [hrecords] at hle ⊢
  rw [hsignal] at hle ⊢
  omega

/-- **A signal that is looked at and was released** belongs to the latest record, if that has been
reached or is the only one on its engine. -/
theorem Watched.Sound.latest_of_released (h : w.Sound event) (hready : w.Latest event ∨ w.Sole event)
    (hreleased : w.released (w.signal event (w.system.host.events event).looked) ≠ []) :
    w.Latest event := by
  rcases hready with hlatest | ⟨rest, hhead, hnew⟩
  · exact hlatest
  · have hne := h.signal_of_mem (hhead ▸ List.mem_cons_self)
    have hle := h.released_le hne
    have hpos := List.length_pos_iff.mpr hreleased
    have hone : w.records.count (w.system.host.events event).looked = 1 := by
      rw [hhead, List.count_cons_self, List.count_eq_zero_of_not_mem hnew]
    exact ⟨_, rest, hhead, by omega⟩

/-! ## Steps -/

theorem stamp_released (w : Watched) (signal : Option NvU64) (time : NvU64) (a : NvU64) :
    (w.stamp signal time).released a = if signal = some a then time :: w.released a
      else w.released a := by
  cases signal with
  | none => rfl
  | some signal =>
    show Function.update w.released signal _ a = _
    by_cases ha : a = signal
    · subst ha
      rw [Function.update_self, if_pos rfl]
    · rw [Function.update_of_ne ha, if_neg fun heq => ha (Option.some.inj heq).symm]

theorem stamp_timeStamps (w : Watched) (signal : Option NvU64) (time : NvU64) (a : NvU64) :
    (w.stamp signal time).timeStamps a = if signal = some a then time else w.timeStamps a := by
  cases signal with
  | none => rfl
  | some signal =>
    show Function.update w.timeStamps signal _ a = _
    by_cases ha : a = signal
    · subst ha
      rw [Function.update_self, if_pos rfl]
    · rw [Function.update_of_ne ha, if_neg fun heq => ha (Option.some.inj heq).symm]

/-- The state behind a step without a call, which executes a release of the given signal if any. -/
def Watched.advanced (w : Watched) (s' : System) (signal : Option NvU64) (time : NvU64) : Watched :=
  ⟨s', (w.stamp signal time).timeStamps, (w.stamp signal time).released, w.records, w.waiting, none⟩

/-- **A step without a call** keeps the invariant: a release that is executed is counted and
stamped. -/
theorem Watched.Sound.advance (h : w.Sound event) {s' : System} {signal : Option NvU64} (time : NvU64)
    (hhost : s'.host = w.system.host)
    (hcount : ∀ sig, w.system.outstanding sig =
      s'.outstanding sig + if signal = some sig then 1 else 0)
    (hsignals : ∀ sig, signal ≠ some sig → s'.gpu.signals sig = w.system.gpu.signals sig) :
    (w.advanced s' signal time).Sound event := by
  have hsame : ∀ type, (s'.host.events event).signal type = w.signal event type := fun type => by
    rw [hhost]
    rfl
  have hadvanced : (w.advanced s' signal time).system.host = w.system.host := hhost
  refine ⟨?_, ?_, ?_, fun type hnull => ?_, fun type => ?_, fun a ha => ?_, fun a hne hnil => ?_,
    fun a t times heq => ?_⟩
  · rw [hadvanced]
    exact h.usable
  · rw [hadvanced]
    exact h.balanced
  · rw [hadvanced]
    exact h.owned
  · have hne : (s'.host.events event).signal type ≠ 0 := hnull
    show ((w.stamp signal time).released ((s'.host.events event).signal type)).length +
      s'.outstanding ((s'.host.events event).signal type) = w.records.count type
    rw [hsame] at hne ⊢
    -- a release that is executed moves from the outstanding ones to the executed ones
    have hcounted := h.counted type hne
    have hsig := hcount (w.signal event type)
    rw [stamp_released]
    split_ifs with heq
    · rw [if_pos heq] at hsig
      rw [List.length_cons]
      omega
    · rw [if_neg heq] at hsig
      omega
  · show (s'.host.events event).signal type = 0 ↔ _
    rw [hsame]
    exact h.recorded type
  · rw [hadvanced] at ha
    obtain ⟨hreleased, hzero⟩ := h.free a ha
    -- nothing is outstanding on a free signal, so that it is not the one released
    have hsig := hcount a
    show (w.stamp signal time).released a = [] ∧ s'.outstanding a = 0
    rw [stamp_released]
    split_ifs with heq
    · rw [if_pos heq] at hsig
      omega
    · rw [if_neg heq] at hsig
      exact ⟨hreleased, by omega⟩
  · have htimeline : s'.host.timeline.timelineSignal ≠ a := hne
    have hunreleased : (w.stamp signal time).released a = [] := hnil
    rw [hhost] at htimeline
    rw [stamp_released] at hunreleased
    split_ifs at hunreleased with heq
    exact (hsignals a heq).trans (h.silent a htimeline hunreleased)
  · have hlast : (w.stamp signal time).released a = t :: times := heq
    show (w.stamp signal time).timeStamps a = t
    rw [stamp_released] at hlast
    rw [stamp_timeStamps]
    split_ifs at hlast ⊢ with hsig
    · exact (List.cons.inj hlast).1
    · exact h.stamped a t times hlast

/-- **A call that enqueues no release of the event** keeps the invariant. -/
theorem Watched.Sound.call_other (h : w.Sound event) {s' : System}
    (husable : s'.host.Usable) (hbalanced : s'.host.timeline.Balanced (submittedCommands s'.host.trace))
    (howned : s'.host.OwnSignals)
    (hsame : ∀ type, (s'.host.events event).signal type = w.signal event type)
    (hfree : s'.host.freeAddresses ⊆ w.system.host.freeAddresses)
    (htimeline : s'.timelineSignal = w.system.timelineSignal) (hgpu : s'.gpu = w.system.gpu)
    (hown : ∀ type, w.signal event type ≠ 0 →
      s'.outstanding (w.signal event type) = w.system.outstanding (w.signal event type))
    (hothers : ∀ a ∈ s'.host.freeAddresses, s'.outstanding a = w.system.outstanding a)
    (waiting : Bool) (timestamp : Option NvU64) :
    Watched.Sound event
      ⟨s', w.timeStamps, w.released, w.records, waiting, timestamp⟩ := by
  refine ⟨husable, hbalanced, howned, fun type hnull => ?_, fun type => ?_, fun a ha => ?_,
    fun a hne hnil => ?_, h.stamped⟩
  · have hne : (s'.host.events event).signal type ≠ 0 := hnull
    show (w.released ((s'.host.events event).signal type)).length +
      s'.outstanding ((s'.host.events event).signal type) = w.records.count type
    rw [hsame] at hne ⊢
    rw [hown type hne]
    exact h.counted type hne
  · show (s'.host.events event).signal type = 0 ↔ _
    rw [hsame]
    exact h.recorded type
  · obtain ⟨hreleased, hzero⟩ := h.free a (hfree ha)
    exact ⟨hreleased, (hothers a ha).trans hzero⟩
  · rw [htimeline] at hne
    show s'.gpu.signals a = 0
    rw [hgpu]
    exact h.silent a hne hnil

/-- **A record of the event** keeps the invariant. -/
theorem Watched.Sound.call_record (h : w.Sound event) {s' : System} {type : QueueType}
    (husable : s'.host.Usable) (hbalanced : s'.host.timeline.Balanced (submittedCommands s'.host.trace))
    (hsignals : w.system.host.SignalsFrom event type s'.host)
    (hnew : (s'.host.events event).signal type ≠ 0)
    (htimeline : s'.timelineSignal = w.system.timelineSignal) (hgpu : s'.gpu = w.system.gpu)
    (hcount : ∀ sig, w.system.timelineSignal ≠ sig → s'.outstanding sig = w.system.outstanding sig +
      if (s'.host.events event).signal type = sig then 1 else 0) :
    Watched.Sound event
      ⟨s', w.timeStamps, w.released, type :: w.records, false, none⟩ := by
  have hother : ∀ t, t ≠ type → (s'.host.events event).signal t = w.signal event t := by
    intro t ht
    rcases hsignals.signal event t with hsame | ⟨-, htype, -⟩
    · exact hsame
    · exact absurd htype ht
  refine ⟨husable, hbalanced, hsignals.owned, fun t hnull => ?_, fun t => ?_, fun a ha => ?_,
    fun a hne hnil => ?_, h.stamped⟩
  · have hne' : w.system.timelineSignal ≠ (s'.host.events event).signal t := by
      rw [← htimeline]
      exact (husable.events event t).symm
    have hsig := hcount _ hne'
    have hne : (s'.host.events event).signal t ≠ 0 := hnull
    show (w.released ((s'.host.events event).signal t)).length +
      s'.outstanding ((s'.host.events event).signal t) = (type :: w.records).count t
    by_cases ht : t = type
    · subst ht
      rw [if_pos rfl] at hsig
      rw [List.count_cons_self, hsig]
      rcases hsignals.signal event t with hsame | ⟨-, -, hzero, hfree⟩
      · rw [hsame] at hne ⊢
        have hcounted := h.counted t hne
        unfold Watched.signal at hcounted
        omega
      · -- a signal from the pool was never released, and the event not recorded on this engine
        obtain ⟨hreleased, hnone⟩ := h.free _ hfree
        have hcountzero := List.count_eq_zero_of_not_mem ((h.recorded t).mp hzero)
        rw [hreleased, hnone, hcountzero]
        rfl
    · have hdiff : (s'.host.events event).signal type ≠ (s'.host.events event).signal t :=
        fun heq => ht (hsignals.owned.apart event type event t hnew heq.symm).2
      rw [if_neg hdiff] at hsig
      rw [List.count_cons_of_ne (Ne.symm ht), hsig, hother t ht]
      rw [hother t ht] at hne
      exact h.counted t hne
  · show (s'.host.events event).signal t = 0 ↔ _
    by_cases ht : t = type
    · subst ht
      exact iff_of_false hnew fun hnot => hnot List.mem_cons_self
    · rw [hother t ht, List.mem_cons, not_or]
      exact (h.recorded t).trans ⟨fun hnot => ⟨ht, hnot⟩, fun hnot => hnot.2⟩
  · obtain ⟨hreleased, hzero⟩ := h.free a (hsignals.free ha)
    have hdiff : (s'.host.events event).signal type ≠ a := by
      rintro rfl
      exact hsignals.owned.taken event type hnew ha
    refine ⟨hreleased, ?_⟩
    have hsig := hcount a (h.free_ne (hsignals.free ha))
    rw [if_neg hdiff] at hsig
    exact hsig.trans hzero
  · rw [htimeline] at hne
    show s'.gpu.signals a = 0
    rw [hgpu]
    exact h.silent a hne hnil

/-! ## The calls of the two functions -/

/-- `waitForEvent` waits for the signal that is looked at, or is refused. -/
theorem wp_waitForEvent {h : Host} (hu : h.Usable) (event : ℕ) :
    wp (waitForEvent (some event))
      (fun _ h' => (h.events event).signal (h.events event).looked ≠ 0 ∧ h'.timeline = h.timeline ∧
        h.Adds [.waitCpu ((h.events event).signal (h.events event).looked) 1] h')
      (fun _ h' => h' = h) h := by
  rw [waitForEvent, wp_bind, wp_get, wp_bind, wp_validate]
  split
  swap
  · rfl
  rw [wp_bind, wp_validate]
  split
  swap
  · rfl
  rename_i hsome
  have hwait : ∀ signal : NvU64, signal ≠ 0 → wp (signalWaitCpu signal 1)
      (fun _ h' => h'.timeline = h.timeline ∧ h.Adds [.waitCpu signal 1] h') (fun _ h' => h' = h)
      h := fun signal hne =>
    wp_mono (wp_signalWaitCpu_of_waits hne 1 hu.waits) (fun _ _ hok => ⟨hok.2, hok.1⟩)
      (fun _ _ => False.elim)
  unfold LibreCUEvent.looked
  by_cases hcompute : (h.events event).computeSignal = 0
  · have hdma : (h.events event).dmaSignal ≠ 0 := by simpa [hcompute] using hsome
    rw [if_neg (not_not.mpr hcompute), if_pos hdma, if_neg (not_not.mpr hcompute)]
    exact wp_mono (hwait _ hdma) (fun _ _ hok => ⟨hdma, hok⟩) (fun _ _ => id)
  · rw [if_pos hcompute, if_pos hcompute]
    exact wp_mono (hwait _ hcompute) (fun _ _ hok => ⟨hcompute, hok⟩) (fun _ _ => id)

/-- `getEventTimestamp` returns the time stamp of the signal that is looked at, if that is one. -/
theorem wp_getEventTimestamp (event : ℕ) (h : Host) :
    wp (getEventTimestamp (some event) true)
      (fun t _ => (h.events event).signal (h.events event).looked ≠ 0 ∧
        (h.signals ((h.events event).signal (h.events event).looked)).value = 1 ∧
        t = (h.signals ((h.events event).signal (h.events event).looked)).timeStamp)
      (fun _ _ => True) h := by
  rw [getEventTimestamp, wp_bind, wp_get, wp_bind, wp_validate, if_pos rfl, wp_bind, wp_validate]
  split
  swap
  · trivial
  rw [wp_bind, wp_validate]
  split
  swap
  · trivial
  rename_i hsome
  have hread : ∀ signal : NvU64, wp (readTimestamp (h.signals signal))
      (fun t _ => (h.signals signal).value = 1 ∧ t = (h.signals signal).timeStamp)
      (fun _ _ => True) h := by
    intro signal
    rw [readTimestamp, wp_bind, wp_validate]
    split
    · rename_i hvalue
      rw [wp_pure]
      exact ⟨by simpa using hvalue, rfl⟩
    · trivial
  unfold LibreCUEvent.looked
  by_cases hcompute : (h.events event).computeSignal = 0
  · have hdma : (h.events event).dmaSignal ≠ 0 := by simpa [hcompute] using hsome
    rw [if_neg (not_not.mpr hcompute), if_neg (not_not.mpr hcompute)]
    exact wp_mono (hread _) (fun _ _ hok => ⟨hdma, hok⟩) (fun _ _ _ => trivial)
  · rw [if_pos hcompute, if_pos hcompute]
    exact wp_mono (hread _) (fun _ _ hok => ⟨hcompute, hok⟩) (fun _ _ _ => trivial)

/-- What a call of `waitForEvent` leaves to carry out. -/
theorem Watched.Sound.waitCalled (h : w.Sound event) (heffects : w.system.effects = [])
    (gpGet : NvU32 × NvU32) :
    (w.system.waitCalled event gpGet).host.events = w.system.host.events ∧
      (∀ waiting, Watched.Sound event ⟨w.system.waitCalled event gpGet, w.timeStamps, w.released,
        w.records, waiting, none⟩) ∧
      ((call (waitForEvent (some event)) (w.system.observed gpGet)).1.isOk = true →
        w.signal event (w.system.host.events event).looked ≠ 0 ∧
        (w.system.waitCalled event gpGet).effects =
          [.waitCpu (w.signal event (w.system.host.events event).looked) 1]) := by
  have husable : (w.system.observed gpGet).Usable := h.usable.observe _ _
  -- a call that only waits leaves everything the invariant speaks of alone
  have hsound : ∀ (h' : Host) (fx : List HostEffect), (w.system.waitCalled event gpGet).host = h' →
      (w.system.observed gpGet).Adds fx h' → h'.timeline = w.system.host.timeline →
      submittedCommands fx = [] →
      (w.system.waitCalled event gpGet).effects = fx ∧
      h'.events = w.system.host.events ∧ ∀ waiting, Watched.Sound event
        ⟨w.system.waitCalled event gpGet, w.timeStamps, w.released, w.records, waiting, none⟩ := by
    rintro h' fx rfl hadds htimeline hnone
    have htrace : (w.system.waitCalled event gpGet).host.trace = w.system.host.trace ++ fx :=
      hadds.trace
    have hfx : (w.system.waitCalled event gpGet).effects = fx := by
      show (w.system.waitCalled event gpGet).host.trace.drop _ = fx
      rw [htrace, List.drop_left]
    have hevents : (w.system.waitCalled event gpGet).host.events = w.system.host.events :=
      hadds.events
    have hsame : w.system.host.SameSignals (w.system.waitCalled event gpGet).host :=
      ⟨fun e t => by rw [hevents], hadds.freeSignals⟩
    have hfrom : w.system.host.SignalsFrom event .compute (w.system.waitCalled event gpGet).host :=
      h.owned.signalsFrom hsame hadds.signalPool
    have hcount : ∀ sig, (w.system.waitCalled event gpGet).outstanding sig =
        w.system.outstanding sig := by
      intro sig
      have hchannel : (w.system.waitCalled event gpGet).gpu.channel = w.system.gpu.channel := rfl
      unfold System.outstanding
      rw [hfx, heffects, hnone, htimeline, hchannel]
      rfl
    refine ⟨hfx, hevents, fun waiting => h.call_other ?_ ?_ hfrom.owned (fun type => ?_) hfrom.free
      ?_ rfl (fun _ _ => hcount _) (fun a _ => hcount a) waiting none⟩
    · exact husable.touched (.of_adds (congrArg CommandTimeline.timelineSignal htimeline) hadds)
    · rw [htimeline, htrace, submittedCommands_append, hnone, List.append_nil]
      exact h.balanced
    · rw [hevents]
      rfl
    · exact congrArg CommandTimeline.timelineSignal htimeline
  rcases wp_call (Prod.mk.eta).symm (wp_waitForEvent husable event) with
    ⟨_, hr, hne, htimeline, hadds⟩ | ⟨e, hr, hsame⟩
  · obtain ⟨hfx, hevents, hsound⟩ := hsound _ _ rfl hadds htimeline rfl
    exact ⟨hevents, hsound, fun _ => ⟨hne, hfx⟩⟩
  · have hhost : (w.system.waitCalled event gpGet).host = w.system.observed gpGet := hsame
    obtain ⟨-, -, hsound⟩ := hsound _ [] hhost (Host.Adds.refl _) rfl rfl
    refine ⟨by rw [hhost]; rfl, hsound, fun hok => ?_⟩
    rw [hr] at hok
    cases hok

/-! ## Runs -/

/-- The invariant with what is known of a wait and of a time stamp that was read. -/
structure Watched.Invariant (event : ℕ) (w : Watched) : Prop extends Watched.Sound event w where
  waits : w.waiting = true → (w.Latest event ∨ w.Sole event) ∧
    (w.system.effects = [] ∧ w.Latest event ∨
      w.system.effects = [.waitCpu (w.signal event (w.system.host.events event).looked) 1])
  timestamp : ∀ t, w.timestamp = some t → ∃ type rest times, w.records = type :: rest ∧
    w.released (w.signal event type) = t :: times ∧ times.length + 1 = w.records.count type

theorem Watched.Invariant.tracked (h : w.Invariant event) : w.Tracked event := by
  refine ⟨fun hwaiting heffects => ?_, h.timestamp⟩
  rcases (h.waits hwaiting).2 with ⟨-, hlatest⟩ | hpending
  · exact hlatest
  · rw [heffects] at hpending
    cases hpending

/-- **Steps without a call** keep the invariant. -/
theorem Watched.Invariant.advance (h : w.Invariant event) {s' : System} (signal : Option NvU64)
    (time : NvU64) (hhost : s'.host = w.system.host)
    (hcount : ∀ sig, w.system.outstanding sig =
      s'.outstanding sig + if signal = some sig then 1 else 0)
    (hsignals : ∀ sig, signal ≠ some sig → s'.gpu.signals sig = w.system.gpu.signals sig)
    (heffects : w.waiting = true → s'.effects = w.system.effects ∨ (s'.effects = [] ∧
      ∀ a v, w.system.effects = [.waitCpu a v] → v.setWidth 64 ≤ w.system.gpu.signals a)) :
    (w.advanced s' signal time).Invariant event := by
  have hsound := h.toSound.advance time hhost hcount hsignals
  have hsame : ∀ type, (s'.host.events event).signal type = w.signal event type := fun type => by
    rw [hhost]
    rfl
  have hmore : ∀ a, (w.released a).length ≤ ((w.stamp signal time).released a).length := by
    intro a
    rw [stamp_released]
    split_ifs
    · rw [List.length_cons]
      exact Nat.le_succ _
    · exact Nat.le_refl _
  have hlatest : w.Latest event → (w.advanced s' signal time).Latest event :=
    fun hlatest => hlatest.mono hsound rfl hsame hmore
  refine ⟨hsound, fun hwaiting => ?_, fun t ht => by cases ht⟩
  obtain ⟨hready, hstate⟩ := h.waits hwaiting
  have hready' : (w.advanced s' signal time).Latest event ∨
      (w.advanced s' signal time).Sole event := by
    rcases hready with hreached | ⟨rest, hhead, hnew⟩
    · exact Or.inl (hlatest hreached)
    · refine Or.inr ⟨rest, ?_, ?_⟩
      · show w.records = (s'.host.events event).looked :: rest
        rw [hhost]
        exact hhead
      · show (s'.host.events event).looked ∉ rest
        rw [hhost]
        exact hnew
  refine ⟨hready', ?_⟩
  have hlooked : (w.advanced s' signal time).signal event (s'.host.events event).looked =
      w.signal event (w.system.host.events event).looked := by
    show (s'.host.events event).signal (s'.host.events event).looked = _
    rw [hhost]
    rfl
  rcases hstate with ⟨hdone, hreached⟩ | hpending
  · refine Or.inl ⟨?_, hlatest hreached⟩
    rcases heffects hwaiting with hkept | ⟨hempty, -⟩
    · exact hkept.trans hdone
    · exact hempty
  · rcases heffects hwaiting with hkept | ⟨hempty, hpassed⟩
    · refine Or.inr ?_
      show s'.effects = [.waitCpu ((w.advanced s' signal time).signal event
        (s'.host.events event).looked) 1]
      rw [hlooked]
      exact hkept.trans hpending
    · -- the wait has passed: the signal that is looked at was released
      refine Or.inl ⟨hempty, hlatest (h.latest_of_released hready fun hnil => ?_)⟩
      have hzero := h.silent _ (h.signal_ne _) hnil
      have hone := hpassed _ _ hpending
      rw [hzero] at hone
      exact absurd hone (by decide)

/-- What a call of the stream does: it ends a wait. -/
theorem Watched.Sound.invariant_of_call (h : w.Sound event) (hwaiting : w.waiting = false)
    (htimestamp : w.timestamp = none) : w.Invariant event :=
  ⟨h, by simp [hwaiting], by simp [htimestamp]⟩

/-- What every call of the stream leaves. -/
theorem Watched.Sound.touched_called (h : w.Sound event) (c : ApiCall) (gpGet : NvU32 × NvU32) :
    (w.system.observed gpGet).Touched (w.system.called c gpGet).host := by
  have hu : (w.system.observed gpGet).Usable := h.usable.observe _ _
  have hcall : call c.run (w.system.observed gpGet) =
    ((call c.run (w.system.observed gpGet)).1, (w.system.called c gpGet).host) := rfl
  exact hu.touched_of_call hcall

/-- A call that enqueues no release, and leaves the signals of the event where they are. -/
theorem Watched.Sound.called_quiet (h : w.Sound event) (heffects : w.system.effects = [])
    {c : ApiCall} {gpGet : NvU32 × NvU32}
    (htally : (w.system.observed gpGet).Tallied none (w.system.called c gpGet).host)
    (howned : (w.system.called c gpGet).host.OwnSignals)
    (hsame : ∀ type, ((w.system.called c gpGet).host.events event).signal type =
      w.signal event type)
    (hfree : (w.system.called c gpGet).host.freeAddresses ⊆ w.system.host.freeAddresses) :
    Watched.Sound event ⟨w.system.called c gpGet, w.timeStamps, w.released, w.records, false,
      none⟩ := by
  have hu : (w.system.observed gpGet).Usable := h.usable.observe _ _
  have ht := h.touched_called c gpGet
  exact h.call_other (hu.touched ht) htally.balanced howned hsame hfree ht.timelineSignal rfl
    (fun type _ => outstanding_called heffects htally (h.signal_ne type))
    (fun a ha => outstanding_called heffects htally (h.free_ne (hfree ha))) false none

/-- A call that is not a record. -/
theorem Watched.Sound.called_other (h : w.Sound event) (heffects : w.system.effects = [])
    {c : ApiCall} {gpGet : NvU32 × NvU32} (hrecord : ∀ e pStream, c ≠ .recordEvent e pStream)
    (hstart : c = .startExecution → (call startExecution (w.system.observed gpGet)).1 = .ok ()) :
    Watched.Sound event ⟨w.system.called c gpGet, w.timeStamps, w.released, w.records, false,
      none⟩ := by
  have hu : (w.system.observed gpGet).Usable := h.usable.observe _ _
  have hcall : call c.run (w.system.observed gpGet) =
    ((call c.run (w.system.observed gpGet)).1, (w.system.called c gpGet).host) := rfl
  have hevents := sameEvents_of_call hu hrecord hcall
  have hfrom : w.system.host.SignalsFrom event .compute (w.system.called c gpGet).host :=
    h.owned.signalsFrom ⟨fun e t => by rw [hevents.events]; rfl, hevents.freeSignals⟩
      (h.touched_called c gpGet).signalPool
  refine h.called_quiet heffects (tallied_of_call hrecord (fun hc => ?_) hu h.balanced hcall)
    hfrom.owned (fun type => ?_) hfrom.free
  · subst hc
    exact hstart rfl
  · rw [hevents.events]
    rfl

/-- A record that succeeds on another event: the release it enqueues is not one of the event's. -/
theorem Watched.Sound.called_record_other (h : w.Sound event) (heffects : w.system.effects = [])
    {e pStream : ℕ} {gpGet : NvU32 × NvU32} (he : e ≠ event)
    (htally : (w.system.observed gpGet).Tallied
      (some (((w.system.called (.recordEvent (some e) pStream) gpGet).host.events e).signal
        w.system.host.timeline.recordType))
      (w.system.called (.recordEvent (some e) pStream) gpGet).host)
    (hfrom : w.system.host.SignalsFrom e w.system.host.timeline.recordType
      (w.system.called (.recordEvent (some e) pStream) gpGet).host)
    (hne : ((w.system.called (.recordEvent (some e) pStream) gpGet).host.events e).signal
      w.system.host.timeline.recordType ≠ 0) :
    Watched.Sound event ⟨w.system.called (.recordEvent (some e) pStream) gpGet, w.timeStamps,
      w.released, w.records, false, none⟩ := by
  have hu : (w.system.observed gpGet).Usable := h.usable.observe _ _
  have ht := h.touched_called (.recordEvent (some e) pStream) gpGet
  have hsame : ∀ type, ((w.system.called (.recordEvent (some e) pStream) gpGet).host.events
      event).signal type = w.signal event type := by
    intro type
    rcases hfrom.signal event type with hsame | ⟨heq, -⟩
    · exact hsame
    · exact absurd heq.symm he
  -- only the signal that was recorded, and the timeline, have another release to come
  have hdiff : ∀ a, ((w.system.called (.recordEvent (some e) pStream) gpGet).host.events
      e).signal w.system.host.timeline.recordType ≠ a →
      (w.system.called (.recordEvent (some e) pStream) gpGet).outstanding a =
        w.system.outstanding a ∨ w.system.timelineSignal = a := by
    intro a ha
    by_cases htime : w.system.timelineSignal = a
    · exact Or.inr htime
    · refine Or.inl ?_
      rw [outstanding_called heffects htally htime, if_neg]
      · rfl
      · exact fun heq => ha (Option.some.inj heq)
  refine h.call_other (hu.touched ht) htally.balanced hfrom.owned hsame hfrom.free
    ht.timelineSignal rfl (fun type htype => ?_) (fun a ha => ?_) false none
  · refine (hdiff _ fun heq => he ?_).resolve_right (h.signal_ne type)
    exact (hfrom.owned.apart event type e _ (by rw [hsame]; exact htype)
      (heq.trans (hsame type).symm)).1
  · refine (hdiff _ fun heq => ?_).resolve_right (h.free_ne (hfrom.free ha))
    exact hfrom.owned.taken e _ hne (heq ▸ ha)

/-- A record, of this event or another one. -/
theorem Watched.Sound.called_record (h : w.Sound event) (heffects : w.system.effects = [])
    (e pStream : ℕ) (gpGet : NvU32 × NvU32) :
    Watched.Sound event ⟨w.system.called (.recordEvent (some e) pStream) gpGet, w.timeStamps,
      w.released, if w.system.recordsEvent event (.call (.recordEvent (some e) pStream) gpGet) then
        w.system.host.timeline.recordType :: w.records else w.records, false, none⟩ := by
  have hu : (w.system.observed gpGet).Usable := h.usable.observe _ _
  have ht := h.touched_called (.recordEvent (some e) pStream) gpGet
  have hcall : call (recordEvent (some e) pStream) (w.system.observed gpGet) =
    ((call (recordEvent (some e) pStream) (w.system.observed gpGet)).1,
      (w.system.called (.recordEvent (some e) pStream) gpGet).host) := rfl
  have howned : (w.system.observed gpGet).OwnSignals :=
    ⟨h.owned.nodup, h.owned.apart, h.owned.taken⟩
  rcases tallied_of_record hu h.balanced hcall with
    ⟨hok, hne, htally, huse⟩ | ⟨hfail, htally, hfailure⟩
  · have hfrom : w.system.host.SignalsFrom e w.system.host.timeline.recordType
        (w.system.called (.recordEvent (some e) pStream) gpGet).host :=
      have hfrom := SignalUse.signalsFrom huse howned ht.signalPool
      ⟨hfrom.owned, hfrom.signal, hfrom.free⟩
    by_cases he : e = event
    · subst he
      have hrecords : w.system.recordsEvent e (.call (.recordEvent (some e) pStream) gpGet) =
          true := by simp [System.recordsEvent, hok]
      rw [hrecords, if_pos rfl]
      refine h.call_record (hu.touched ht) htally.balanced hfrom hne ht.timelineSignal rfl
        fun sig hsig => ?_
      rw [outstanding_called heffects htally hsig]
      simp
      rfl
    · have hrecords : w.system.recordsEvent event (.call (.recordEvent (some e) pStream) gpGet) =
          false := by simp [System.recordsEvent, he]
      rw [hrecords, if_neg Bool.false_ne_true]
      exact h.called_record_other heffects he htally hfrom hne
  · have hrecords : w.system.recordsEvent event (.call (.recordEvent (some e) pStream) gpGet) =
        false := by
      unfold System.recordsEvent
      rw [Bool.and_eq_false_iff]
      exact Or.inr hfail
    rw [hrecords, if_neg Bool.false_ne_true]
    have hfrom : w.system.host.SignalsFrom e w.system.host.timeline.recordType
        (w.system.called (.recordEvent (some e) pStream) gpGet).host :=
      have hfrom := SignalFailure.signalsFrom hfailure howned ht.signalPool
      ⟨hfrom.owned, hfrom.signal, hfrom.free⟩
    exact h.called_quiet heffects htally hfrom.owned (fun type => hfailure.signal event type)
      hfrom.free

/-- **A call of the stream** keeps the invariant. -/
theorem Watched.Sound.called (h : w.Sound event) (heffects : w.system.effects = []) {c : ApiCall}
    {gpGet : NvU32 × NvU32} (hstart : c = .startExecution →
      (call startExecution (w.system.observed gpGet)).1 = .ok ()) :
    Watched.Sound event ⟨w.system.called c gpGet, w.timeStamps, w.released,
      if w.system.recordsEvent event (.call c gpGet) then
        w.system.host.timeline.recordType :: w.records else w.records, false, none⟩ := by
  cases c with
  | recordEvent e pStream =>
    cases e with
    | none =>
      refine h.called_quiet heffects
        ⟨h.balanced, [], (List.append_nil _).symm, fun sig _ => Nat.zero_add _⟩ ?_ ?_ ?_
      · exact h.owned.same ⟨fun _ _ => rfl, rfl⟩ rfl
      · exact fun _ => rfl
      · exact List.Subset.refl _
    | some e => exact h.called_record heffects e pStream gpGet
  | launchFunction function grid block sharedMemBytes params numParams async =>
    exact h.called_other heffects (fun _ _ hc => by cases hc) hstart
  | gpuMemcpy dst src numBytes async =>
    exact h.called_other heffects (fun _ _ hc => by cases hc) hstart
  | startExecution => exact h.called_other heffects (fun _ _ hc => by cases hc) hstart
  | awaitExecution => exact h.called_other heffects (fun _ _ hc => by cases hc) hstart

/-- Carrying out an effect keeps the invariant: a wait that passes has seen its signal released. -/
theorem Watched.Invariant.effect (h : w.Invariant event) {s' : System} (time : NvU64)
    (hs : w.system.step .effect = some s') :
    Watched.Invariant event ⟨s', w.timeStamps, w.released, w.records, w.waiting, none⟩ := by
  have hstep := step_effect hs
  refine h.advance none time ?_ (fun sig => ?_) (fun sig _ => ?_) fun hwaiting => ?_
  · rcases hstep with ⟨type, commands, rest, -, rfl⟩ | ⟨a, v, rest, -, -, rfl⟩
    · rfl
    · rfl
  · rw [outstanding_effect hs sig]
    rfl
  · rcases hstep with ⟨type, commands, rest, -, rfl⟩ | ⟨a, v, rest, -, -, rfl⟩
    · rfl
    · rfl
  · rcases (h.waits hwaiting).2 with ⟨hnil, -⟩ | hpending
    · rw [System.step, System.carryOut, hnil] at hs
      cases hs
    · rcases hstep with ⟨type, commands, rest, heq, -⟩ | ⟨a, v, rest, heq, hle, rfl⟩
      · rw [hpending] at heq
        cases heq
      · rw [hpending] at heq
        obtain ⟨hfirst, hrest⟩ := List.cons.inj heq
        obtain ⟨rfl, rfl⟩ := HostEffect.waitCpu.inj hfirst
        refine Or.inr ⟨hrest.symm, fun a v heq' => ?_⟩
        rw [hpending] at heq'
        obtain ⟨rfl, rfl⟩ := HostEffect.waitCpu.inj (List.cons.inj heq').1
        exact hle

/-- The event was recorded on the engine that is looked at, if it has a signal there. -/
theorem Watched.Sound.looked_mem (h : w.Sound event)
    (hne : w.signal event (w.system.host.events event).looked ≠ 0) :
    (w.system.host.events event).looked ∈ w.records := by
  by_contra hnot
  exact hne ((h.recorded _).mpr hnot)

/-- A call of `waitForEvent` keeps the invariant. -/
theorem Watched.Invariant.waited (h : w.Invariant event) (heffects : w.system.effects = [])
    {gpGet : NvU32 × NvU32} (hq : w.Reliable event (.waitForEvent gpGet)) :
    Watched.Invariant event { w with
      system := w.system.waitCalled event gpGet
      waiting := (call (waitForEvent (some event)) (w.system.observed gpGet)).1.isOk
      timestamp := none } := by
  obtain ⟨hevents, hsound, hwait⟩ := h.toSound.waitCalled heffects gpGet
  refine ⟨hsound _, fun hwaiting => ?_, fun t ht => by cases ht⟩
  obtain ⟨hne, hpending⟩ := hwait hwaiting
  have hsame : ∀ type, ((w.system.waitCalled event gpGet).host.events event).signal type =
      w.signal event type := fun type => by
    rw [hevents]
    rfl
  have hmem := h.looked_mem hne
  refine ⟨?_, Or.inr ?_⟩
  · rcases hq with hnil | hlatest | ⟨rest, hhead, hnew⟩
    · rw [hnil] at hmem
      cases hmem
    · exact Or.inl (hlatest.mono (hsound _) rfl hsame fun _ => Nat.le_refl _)
    · refine Or.inr ⟨rest, ?_, ?_⟩
      · show w.records = ((w.system.waitCalled event gpGet).host.events event).looked :: rest
        rw [hevents]
        exact hhead
      · show ((w.system.waitCalled event gpGet).host.events event).looked ∉ rest
        rw [hevents]
        exact hnew
  · show (w.system.waitCalled event gpGet).effects = [.waitCpu
      (((w.system.waitCalled event gpGet).host.events event).signal
        ((w.system.waitCalled event gpGet).host.events event).looked) 1]
    rw [hevents]
    exact hpending

/-- **A time stamp that is read** is that of the latest record. -/
theorem Watched.Invariant.timestamp_read (h : w.Invariant event)
    (hq : w.Reliable event .getEventTimestamp) {t : NvU64}
    (ht : (call (getEventTimestamp (some event) true) w.observed).1.toOption = some t) :
    ∃ type rest times, w.records = type :: rest ∧ w.released (w.signal event type) = t :: times ∧
      times.length + 1 = w.records.count type := by
  rcases wp_call (Prod.mk.eta).symm (wp_getEventTimestamp event w.observed) with
    ⟨t', hr, hne, hvalue, hstamp⟩ | ⟨e, hr, -⟩
  swap
  · rw [hr] at ht
    cases ht
  rw [hr] at ht
  obtain rfl : t' = t := Option.some.inj ht
  have hvalue : w.system.gpu.signals (w.signal event (w.system.host.events event).looked) = 1 :=
    hvalue
  have hstamp : t' = w.timeStamps (w.signal event (w.system.host.events event).looked) := hstamp
  -- a signal that is one was released
  have hreleased : w.released (w.signal event (w.system.host.events event).looked) ≠ [] := by
    intro hnil
    have hzero := h.silent _ (h.signal_ne _) hnil
    rw [hvalue] at hzero
    exact absurd hzero (by decide)
  have hmem := h.looked_mem hne
  rcases hq with hnil | hnil | ⟨hhead, hready⟩
  · rw [hnil] at hmem
    cases hmem
  · exact absurd hnil hreleased
  · obtain ⟨type, rest, hrecords, hcount⟩ := h.latest_of_released hready hreleased
    have htype : type = (w.system.host.events event).looked := by
      rw [hrecords] at hhead
      exact Option.some.inj hhead
    rw [htype] at hcount hrecords
    obtain ⟨t₀, times, hlast⟩ := List.exists_cons_of_ne_nil hreleased
    have ht₀ : t' = t₀ := hstamp.trans (h.stamped _ _ _ hlast)
    rw [hlast, List.length_cons] at hcount
    exact ⟨_, rest, times, hrecords, ht₀ ▸ hlast, hcount⟩

/-- **One step** that meets the condition keeps the invariant. -/
theorem Watched.Invariant.step (h : w.Invariant event) {e : WatchedEvent} (hq : w.Reliable event e)
    (hs : w.step event e = some w') : w'.Invariant event := by
  cases e with
  | run e time =>
    obtain ⟨s', hs', rfl⟩ := Option.map_eq_some_iff.mp hs
    cases e with
    | call c gpGet =>
      obtain ⟨heffects, rfl⟩ := step_call hs'
      show Watched.Invariant event ⟨w.system.called c gpGet, w.timeStamps, w.released, _,
        w.waiting && false, none⟩
      rw [Bool.and_false]
      refine (h.toSound.called heffects fun hc => ?_).invariant_of_call rfl rfl
      subst hc
      exact hq
    | effect =>
      show Watched.Invariant event ⟨s', w.timeStamps, w.released, w.records, w.waiting && true, none⟩
      rw [Bool.and_true]
      exact h.effect time hs'
    | fetch type =>
      obtain ⟨hhost, heffects, hcount, hsignals⟩ := outstanding_fetch hs'
      show Watched.Invariant event ⟨s', (w.stamp (w.system.releases (.fetch type)) time).timeStamps,
        (w.stamp (w.system.releases (.fetch type)) time).released, w.records, w.waiting && true,
        none⟩
      rw [Bool.and_true]
      exact h.advance _ time hhost hcount hsignals fun _ => Or.inl heffects
    | finish type n =>
      obtain ⟨hhost, heffects, hsignals, hcount⟩ := outstanding_finish hs'
      show Watched.Invariant event ⟨s', w.timeStamps, w.released, w.records, w.waiting && true, none⟩
      rw [Bool.and_true]
      exact h.advance none time hhost (fun sig => (hcount sig).symm)
        (fun sig _ => congrFun hsignals sig) fun _ => Or.inl heffects
  | waitForEvent gpGet =>
    rw [Watched.step] at hs
    split at hs
    swap
    · cases hs
    rename_i heffects
    obtain rfl := Option.some.inj hs
    exact h.waited heffects hq
  | getEventTimestamp =>
    rw [Watched.step] at hs
    split at hs
    swap
    · cases hs
    obtain rfl := Option.some.inj hs
    have hsound : Watched.Sound event { w with
        waiting := false
        timestamp := (call (getEventTimestamp (some event) true) w.observed).1.toOption } :=
      ⟨h.usable, h.balanced, h.owned, h.counted, h.recorded, h.free, h.silent, h.stamped⟩
    exact Watched.Invariant.mk hsound (fun hwaiting => absurd hwaiting Bool.false_ne_true)
      fun t ht => h.timestamp_read hq ht

/-- What a run starts from: an initialised stream, a fresh pool of signals, and an event that was
not recorded. -/
structure Watched.Start (w : Watched) : Prop where
  initial : w.system.Initial
  events : ∀ e type, (w.system.host.events e).signal type = 0
  fresh : ∀ a, w.system.timelineSignal ≠ a → w.system.gpu.signals a = 0
  released : ∀ a, w.released a = []
  records : w.records = []
  waiting : w.waiting = false
  timestamp : w.timestamp = none

theorem Watched.Start.invariant (hs : w.Start) : w.Invariant event := by
  have hready := hs.initial.host.ready
  have hidle : ∀ sig, w.system.outstanding sig = 0 := by
    intro sig
    unfold System.outstanding
    rw [hs.initial.channels, hs.initial.channels, hs.initial.effects,
      outstanding_of_idle hready.idle hready.backlog]
    rfl
  refine Watched.Sound.invariant_of_call ⟨hs.initial.host.usable, hready.balanced,
    hs.initial.host.ownSignals hs.events, fun type hne => absurd (hs.events event type) hne,
    fun type => ?_, fun a _ => ⟨hs.released a, hidle a⟩, fun a hne _ => hs.fresh a hne,
    fun a t times heq => ?_⟩ hs.waiting hs.timestamp
  · refine iff_of_true (hs.events event type) ?_
    rw [hs.records]
    exact List.not_mem_nil
  · rw [hs.released a] at heq
    cases heq

/-- **Events are tracked** in a run whose steps all meet the condition: `waitForEvent` and
`getEventTimestamp` are called when the latest record of the event has been reached, or is the only
one on the engine whose signal they look at; for the time stamp it is on that engine. -/
theorem events_track (hs : w.Start) {events : List WatchedEvent}
    (hq : Meets (Watched.step event) (Watched.Reliable event) w events) :
    Always (Watched.step event) (Watched.Tracked event) w events :=
  (always_of_meets (fun _ _ _ h hq hstep => h.step hq hstep) hs.invariant hq).imp
    fun _ h => h.tracked

/-! ## Runs on a sample stream -/

/-- Where events lead, as far as they can happen. -/
def Watched.after (event : ℕ) (w : Watched) (events : List WatchedEvent) : Watched :=
  events.foldl (fun w e => (w.step event e).getD w) w

theorem Watched.eq_of_step {e : WatchedEvent} (h : w.step event e = some w') :
    w' = (w.step event e).getD w := by
  rw [h]
  rfl

/-- The sample stream before the event is recorded. -/
def sampleWatched : Watched where
  system :=
    { host := sampleStream
      gpu := { signals := fun a => if a = sampleStream.timeline.timelineSignal then 2 else 0 } }

theorem start_sampleWatched : sampleWatched.Start := by
  refine ⟨⟨initialized_sampleStream, fun _ => rfl, rfl, rfl, rfl, rfl, rfl, fun _ => rfl⟩,
    fun e type => ?_, fun a hne => if_neg hne.symm, fun _ => rfl, rfl, rfl, rfl⟩
  cases type
  · rfl
  · rfl

/-- An event that is recorded once and waited for; its time is read when the wait has returned. -/
def sampleTracking : List WatchedEvent :=
  [.run (.call (.recordEvent (some 7) 0) (0, 0)) 0, .run (.call .startExecution (0, 0)) 0,
    .run .effect 0, .waitForEvent (0, 0), .run (.fetch .compute) 55, .run (.fetch .compute) 55,
    .run .effect 56, .getEventTimestamp]

/-- The run goes through, and reads the time of the release. -/
theorem events_track_sample :
    Always (Watched.step 7) (Watched.Tracked 7) sampleWatched sampleTracking ∧
      (sampleWatched.after 7 sampleTracking).timestamp = some 55 := by
  refine ⟨events_track start_sampleWatched ?_, by decide +kernel⟩
  have hstart : (call startExecution ((sampleWatched.after 7
      (sampleTracking.take 1)).system.observed (0, 0))).1 = .ok () := by rfl
  have hwait : (sampleWatched.after 7 (sampleTracking.take 3)).Sole 7 :=
    ⟨[], by decide +kernel, by decide +kernel⟩
  have hread : (sampleWatched.after 7 (sampleTracking.take 7)).Sole 7 :=
    ⟨[], by decide +kernel, by decide +kernel⟩
  have hhead : (sampleWatched.after 7 (sampleTracking.take 7)).records.head? =
      some ((sampleWatched.after 7 (sampleTracking.take 7)).system.host.events 7).looked := by
    decide +kernel
  intro w₁ h₁
  obtain rfl := Watched.eq_of_step h₁
  refine ⟨trivial, fun w₂ h₂ => ⟨hstart, fun w₃ h₃ => ⟨trivial, fun w₄ h₄ => ?_⟩⟩⟩
  obtain rfl := Watched.eq_of_step h₂
  obtain rfl := Watched.eq_of_step h₃
  refine ⟨Or.inr (Or.inr hwait), fun w₅ h₅ => ⟨trivial, fun w₆ h₆ => ⟨trivial, fun w₇ h₇ =>
    ⟨trivial, fun w₈ h₈ => ⟨?_, trivial⟩⟩⟩⟩⟩
  obtain rfl := Watched.eq_of_step h₄
  obtain rfl := Watched.eq_of_step h₅
  obtain rfl := Watched.eq_of_step h₆
  obtain rfl := Watched.eq_of_step h₇
  exact Or.inr (Or.inr ⟨hhead, Or.inr hread⟩)

/-- An event that is recorded again when the first record has been reached. -/
def recordedAgain : List WatchedEvent :=
  [.run (.call (.recordEvent (some 7) 0) (0, 0)) 0, .run (.call .startExecution (0, 0)) 0,
    .run .effect 0, .run (.fetch .compute) 55, .run (.fetch .compute) 55,
    .run (.call (.recordEvent (some 7) 0) (0, 0)) 0, .waitForEvent (0, 0), .run .effect 0]

/-- **The wait for an event that was recorded again returns at once**: the second record has not
even been submitted. -/
theorem event_recorded_again : ∃ w : Watched, w.Start ∧ (w.after 7 recordedAgain).records.length = 2 ∧
    ¬ (w.after 7 recordedAgain).Tracked 7 := by
  refine ⟨sampleWatched, start_sampleWatched, by decide +kernel, fun htracked => ?_⟩
  have hrecords : (sampleWatched.after 7 recordedAgain).records = [.compute, .compute] := by
    decide +kernel
  have hreleased : ((sampleWatched.after 7 recordedAgain).released
      ((sampleWatched.after 7 recordedAgain).signal 7 .compute)).length = 1 := by decide +kernel
  obtain ⟨type, rest, hhead, hcount⟩ := htracked.wait (by decide +kernel) (by decide +kernel)
  rw [hrecords] at hhead hcount
  obtain ⟨rfl, -⟩ := List.cons.inj hhead
  rw [hreleased] at hcount
  exact absurd hcount (by decide)

end LibreCuda
