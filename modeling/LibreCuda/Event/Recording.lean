import LibreCuda.Queue.Session

/-! # Events and their signals

`libreCuEventCreate`, `libreCuEventRecord` and `libreCuEventDestroy`. An event is created without
signals, gets one from the pool of the stream when it is recorded on an engine it has none for, and
is deleted without giving any back.

* **`SignalUse`** says what a record does to the pool and to the signals of the events;
  **`wp_recordEvent_signals`** is the specification of `recordEvent` in its terms.
* **`sameEvents_of_call`**: the other calls on a stream leave both alone. -/

namespace LibreCuda

open Exec

/-! ## The functions of the interface -/

/-- A call with an event that does not exist. -/
def checkEvent (event : Option ℕ) : Driver ℕ :=
  match event with
  | none => throw (.status .invalidValue)
  | some event => pure event

/-- `libreCuEventCreate` (`NewEvent`): `new` puts the event at an address of its choice. -/
def libreCuEventCreate (address : ℕ) : Driver ℕ := do
  modify fun h => { h with events := Function.update h.events address {} }
  pure address

/-- `libreCuEventRecord` on this stream. -/
def libreCuEventRecord (event : Option ℕ) (stream : Option ℕ) : Driver Unit := do
  let event ← checkEvent event
  match stream with
  | none => throw (.status .invalidValue)
  | some stream => recordEvent (some event) stream

/-- `libreCuEventDestroy` (`DeleteEvent`): the event is gone, and its signals are not released. -/
def libreCuEventDestroy (event : Option ℕ) : Driver Unit := do
  let _ ← checkEvent event

/-- Signals an event owns. -/
def LibreCUEvent.owned (e : LibreCUEvent) : ℕ :=
  (if e.computeSignal = 0 then 0 else 1) + if e.dmaSignal = 0 then 0 else 1

theorem owned_le_two (e : LibreCUEvent) : e.owned ≤ 2 := by
  unfold LibreCUEvent.owned
  split_ifs <;> omega

/-! ## What a record does to the signals -/

/-- Address of a signal of the pool. -/
def Host.signalAt (h : Host) (idx : NvU32) : NvU64 :=
  h.queue.signalPool + idx.setWidth 64 * nvSignalBytes

theorem toNat_signalOffset {n : ℕ} (hn : n < 65536) :
    ((BitVec.ofNat 32 n).setWidth 64 * nvSignalBytes : NvU64).toNat = n * 16 := by
  rw [BitVec.toNat_mul, BitVec.toNat_setWidth, BitVec.toNat_ofNat, nvSignalBytes]
  show n % 2 ^ 32 % 2 ^ 64 * 16 % 2 ^ 64 = n * 16
  omega

/-- The signals of the events and the pool are as before. -/
structure Host.SameSignals (h h' : Host) : Prop where
  signal : ∀ e type, (h'.events e).signal type = (h.events e).signal type
  freeSignals : h'.queue.freeSignals = h.queue.freeSignals

/-- The first free signal was taken for an event on an engine. -/
structure Host.Takes (event : ℕ) (type : QueueType) (idx : NvU32) (h h' : Host) : Prop where
  signal : ∀ e t, (h'.events e).signal t =
    if e = event ∧ t = type then h.signalAt idx else (h.events e).signal t
  freeSignals : h.queue.freeSignals = idx :: h'.queue.freeSignals

/-- What a record on an engine does to the signals: the event has one there, or takes the first free
one. -/
inductive SignalUse (event : ℕ) (type : QueueType) (h h' : Host) : Prop
  | owned : (h.events event).signal type ≠ 0 → h.SameSignals h' → SignalUse event type h h'
  | taken (idx : NvU32) : (h.events event).signal type = 0 → h.Takes event type idx h' →
      SignalUse event type h h'

/-- Why a record fails: there is no free signal to take, or no pool, or the signal taken lies at the
null address. -/
inductive SignalFailure (event : ℕ) (type : QueueType) (h h' : Host) : Prop
  | exhausted : (h.events event).signal type = 0 →
      (h.queue.signalPool = 0 ∨ h.queue.freeSignals = []) → h.SameSignals h' →
      SignalFailure event type h h'
  | null (idx : NvU32) : (h.events event).signal type = 0 → h.Takes event type idx h' →
      h.signalAt idx = 0 → SignalFailure event type h h'

theorem Host.SameSignals.refl (h : Host) : h.SameSignals h := ⟨fun _ _ => rfl, rfl⟩

theorem wp_obtainSignal_failure (h : Host) :
    wp obtainSignal (fun _ _ => True)
      (fun _ h' => h' = h ∧ (h.queue.signalPool = 0 ∨ h.queue.freeSignals = [])) h := by
  rw [obtainSignal, wp_bind, wp_get, wp_bind, wp_validate]
  split
  · split
    · rename_i hempty
      rw [wp_throw]
      exact ⟨rfl, Or.inr hempty⟩
    · rw [wp_bind, wp_set, wp_pure]
      trivial
  · rename_i hpool
    exact ⟨rfl, Or.inl (by simpa using hpool)⟩

/-- `provideSignal` in these terms. -/
theorem wp_provideSignal_signals (event : ℕ) (type : QueueType) (h : Host) :
    wp (provideSignal event type) (fun _ h' => SignalUse event type h h')
      (fun _ h' => (h.events event).signal type = 0 ∧
        (h.queue.signalPool = 0 ∨ h.queue.freeSignals = []) ∧ h' = h) h := by
  rw [provideSignal, wp_bind, wp_get, wp_onlyIf]
  split
  · rename_i hzero
    have hzero : (h.events event).signal type = 0 := by simpa using hzero
    rw [wp_bind]
    have hboth := wp_and (wp_obtainSignal h) (wp_obtainSignal_failure h)
    refine wp_mono hboth (fun signal h₁ hok => ?_) (fun _ h₁ herr => ⟨hzero, herr.2.2, herr.1⟩)
    obtain ⟨⟨idx, rest, hfree, hsignal, rfl⟩, -⟩ := hok
    rw [wp_modify]
    refine .taken idx hzero ⟨fun e t => ?_, hfree⟩
    show (Function.update h.events event _ e).signal t = _
    rw [signal_setSignal, hsignal]
    rfl
  · rename_i hne
    exact .owned (by simpa using hne) (Host.SameSignals.refl h)

theorem signal_setStream (h : Host) (event pStream e : ℕ) (type : QueueType) :
    ((h.setStream event pStream).events e).signal type = (h.events e).signal type := by
  show (Function.update h.events event _ e).signal type = _
  by_cases he : e = event
  · subst he
    rw [Function.update_self]
    cases type <;> rfl
  · rw [Function.update_of_ne he]

section Before

variable {event : ℕ} {type : QueueType} {h h₁ h' : Host} (hsame : h.SameSignals h₁)
  (hpool : h₁.queue.signalPool = h.queue.signalPool)
include hsame hpool

/-- What a step does behind one that left the signals alone. -/
theorem Host.SameSignals.takes {idx : NvU32} (ht : h₁.Takes event type idx h') :
    h.Takes event type idx h' := by
  refine ⟨fun e t => ?_, hsame.freeSignals.symm.trans ht.freeSignals⟩
  rw [ht.signal e t, hsame.signal, Host.signalAt, hpool]
  rfl

theorem Host.SameSignals.use (hu : SignalUse event type h₁ h') : SignalUse event type h h' := by
  cases hu with
  | owned hne hkept =>
    rw [hsame.signal] at hne
    exact .owned hne ⟨fun e t => (hkept.signal e t).trans (hsame.signal e t),
      hkept.freeSignals.trans hsame.freeSignals⟩
  | taken idx hzero htakes =>
    rw [hsame.signal] at hzero
    exact .taken idx hzero (hsame.takes hpool htakes)

theorem Host.SameSignals.failure (hf : SignalFailure event type h₁ h') :
    SignalFailure event type h h' := by
  cases hf with
  | exhausted hzero hempty hkept =>
    rw [hsame.signal] at hzero
    rw [hpool, hsame.freeSignals] at hempty
    exact .exhausted hzero hempty ⟨fun e t => (hkept.signal e t).trans (hsame.signal e t),
      hkept.freeSignals.trans hsame.freeSignals⟩
  | null idx hzero htakes hnull =>
    rw [hsame.signal] at hzero
    rw [Host.signalAt, hpool] at hnull
    exact .null idx hzero (hsame.takes hpool htakes) hnull

end Before

/-- The signals behind a change of the timeline. -/
theorem SignalUse.setTimeline {event : ℕ} {type : QueueType} {h h' : Host}
    (hu : SignalUse event type h h') (t : CommandTimeline) :
    SignalUse event type h (h'.setTimeline t) := by
  cases hu with
  | owned hne hsame => exact .owned hne ⟨hsame.signal, hsame.freeSignals⟩
  | taken idx hnone htakes => exact .taken idx hnone ⟨htakes.signal, htakes.freeSignals⟩

/-- `notifyEvent` in these terms. -/
theorem wp_notifyEvent_signals (event : ℕ) (type : QueueType) (h : Host) :
    wp (notifyEvent event type) (fun _ h' => SignalUse event type h h')
      (fun _ h' => SignalFailure event type h h') h := by
  rw [notifyEvent, wp_bind]
  refine wp_mono (wp_provideSignal_signals event type h) (fun _ h₁ huse => ?_) (fun _ h₁ herr => ?_)
  · rw [wp_bind, wp_get, wp_onTimeline]
    by_cases hzero : (h₁.events event).signal type = 0
    · rw [hzero, wp_of_call_error (call_signalNotify_zero 1 type h₁.timeline)]
      cases huse with
      | owned hne hsame => exact absurd ((hsame.signal event type).symm.trans hzero) hne
      | taken idx hnone htakes =>
        refine .null idx hnone htakes ?_
        rw [htakes.signal event type, if_pos ⟨rfl, rfl⟩] at hzero
        exact hzero
    · rw [wp_signalNotify _ _ _ _ hzero]
      exact huse.setTimeline _
  · obtain ⟨hzero, hempty, rfl⟩ := herr
    exact .exhausted hzero hempty (Host.SameSignals.refl _)

/-- **What `recordEvent` does to the signals.** -/
theorem wp_recordEvent_signals (event pStream : ℕ) (h : Host) :
    wp (recordEvent (some event) pStream)
      (fun _ h' => SignalUse event h.timeline.recordType h h')
      (fun _ h' => SignalFailure event h.timeline.recordType h h') h := by
  unfold recordEvent
  rw [wp_bind, wp_modify, wp_bind, wp_get]
  have hsame : h.SameSignals (h.setStream event pStream) :=
    ⟨fun e type => signal_setStream h event pStream e type, rfl⟩
  have hnotify : ∀ type, wp (notifyEvent event type) (fun _ h' => SignalUse event type h h')
      (fun _ h' => SignalFailure event type h h') (h.setStream event pStream) := fun type =>
    wp_mono (wp_notifyEvent_signals event type _) (fun _ _ hu => hsame.use rfl hu)
      (fun _ _ hf => hsame.failure rfl hf)
  split
  · rename_i type hmode
    have htype : h.timeline.recordType = type := by
      have hmode' : h.timeline.currentQueueType = some type := hmode
      simp [CommandTimeline.recordType, hmode']
    rw [htype]
    exact hnotify type
  · rename_i hmode
    have htype : h.timeline.recordType = .compute := by
      have hmode' : h.timeline.currentQueueType = none := hmode
      simp [CommandTimeline.recordType, hmode']
    rw [htype, wp_bind]
    refine wp_mono (hnotify .compute) (fun _ h₁ hu => ?_) (fun _ _ hf => hf)
    rw [wp_onTimeline, wp_modify]
    exact hu.setTimeline _

/-! ## The other calls -/

/-- **No call but `recordEvent` touches the events or the pool.** -/
theorem sameEvents_of_call {h h' : Host} {c : ApiCall} {r : Except Failure Unit} (hu : h.Usable)
    (hne : ∀ event pStream, c ≠ .recordEvent event pStream) (hc : call c.run h = (r, h')) :
    h.SameEvents h' := by
  have hsig := hu.timelineSignal
  cases c with
  | launchFunction function grid block sharedMemBytes params numParams async =>
    rcases wp_call hc (wp_launchFunction hsig function grid block sharedMemBytes params numParams
      async) with ⟨_, -, f, -, hok⟩ | ⟨_, -, herr⟩
    · exact hok.toSameEvents
    · exact herr.toSameEvents
  | gpuMemcpy dst src numBytes async =>
    rcases wp_call hc (wp_gpuMemcpy hsig dst src numBytes async) with ⟨_, -, hok⟩ | ⟨_, -, rfl⟩
    · exact hok.toSameEvents
    · exact ⟨rfl, rfl⟩
  | recordEvent event pStream => exact absurd rfl (hne event pStream)
  | startExecution =>
    by_cases hnil : h.timeline.commandBufBacklog = []
    · rcases wp_call hc (wp_startExecution_of_nil hsig hnil) with ⟨_, -, hok⟩ | ⟨_, -, herr⟩
      · rcases hok.submitted with ⟨type, -, -, hadds, -⟩ | ⟨-, hadds, -⟩
        · exact hadds.toSameEvents
        · exact hadds.toSameEvents
      · rcases herr with rfl | ⟨type, -, -, hadds, hcounts, -⟩
        · exact ⟨rfl, rfl⟩
        · exact hadds.toSameEvents
    · rcases wp_call hc (wp_startExecution_of_ne_nil hsig hu.waits hnil) with
        ⟨_, -, hok⟩ | ⟨_, -, herr⟩
      · exact hok.adds.toSameEvents
      · obtain ⟨pre, e, post, -, hadds, -⟩ := herr.stopped
        exact hadds.toSameEvents
  | awaitExecution =>
    rcases wp_call hc (wp_awaitExecution hsig hu.waits) with ⟨_, -, hok⟩ | ⟨_, -, hf⟩
    · exact hok.1.toSameEvents
    · exact hf.elim

end LibreCuda
