import LibreCuda.Event.Recording
import LibreCuda.Foundation.Runs
import Mathlib.Algebra.BigOperators.Group.Finset.Basic
import Mathlib.Algebra.Order.BigOperators.Group.Finset

/-! # Conservation of signals

A program creates, records and destroys events on a stream, any number of times and between any
other calls. The signals missing from the pool are the timeline signal and those that events own,
until an event that owns one is destroyed: its signals stay missing.

* **`Conserved`** is the balance, **`step_conserved_iff`** says which calls keep it.
* **`signals_conserved_iff`**: the balance holds throughout, and the pool lasts for 32767 events, if
  and only if no event is destroyed that was recorded.
* **`destroyed_event_leaks`** is the shortest history that breaks it. -/

namespace LibreCuda

open Exec Runs

/-- A stream, and the events that were created and not destroyed. -/
structure EventState where
  host : Host
  alive : Finset ℕ := ∅

/-- What a program does. A created event lies at an address where none is alive; the other calls are
made after the driver has observed the GPU. -/
inductive EventCall
  | create (address : ℕ)
  | record (event : ℕ)
  | destroy (event : ℕ)
  | other (c : ApiCall) (values : NvU64 → NvU64) (gpGet : NvU32 × NvU32)

/-- The call records an event. -/
def ApiCall.records : ApiCall → Bool
  | .recordEvent _ _ => true
  | _ => false

/-- One call, whether it succeeds or fails. -/
def EventState.step (s : EventState) : EventCall → Option EventState
  | .create address =>
    if address ∈ s.alive then none
    else some ⟨(call (libreCuEventCreate address) s.host).2, insert address s.alive⟩
  | .record event =>
    if event ∈ s.alive then
      some { s with host := (call (libreCuEventRecord (some event) (some 0)) s.host).2 }
    else none
  | .destroy event =>
    if event ∈ s.alive then
      some ⟨(call (libreCuEventDestroy (some event)) s.host).2, s.alive.erase event⟩
    else none
  | .other c values gpGet =>
    if c.records then none
    else some { s with host := (call c.run (s.host.observe values gpGet)).2 }

/-- Signals owned by events that are alive. -/
def EventState.owned (s : EventState) : ℕ := ∑ e ∈ s.alive, (s.host.events e).owned

/-- **The balance.** The signals missing from the pool are the timeline signal and those that living
events own. -/
def Conserved (s : EventState) : Prop :=
  s.host.queue.freeSignals.length + (1 + s.owned) = maxSignalPoolSize

/-- The condition: an event that is destroyed owns no signal. -/
def KeepsSignals (s : EventState) : EventCall → Prop
  | .destroy event => (s.host.events event).owned = 0
  | _ => True

/-- At most 32767 events are alive. -/
def FewEvents (s : EventState) : Prop := s.alive.card ≤ 32767

/-- A record succeeds. -/
def RecordSucceeds (s : EventState) : EventCall → Prop
  | .record event => (call (libreCuEventRecord (some event) (some 0)) s.host).1 = .ok ()
  | _ => True

/-- What every call relies on: the stream is usable, and no signal of the pool lies at the null
address. -/
structure EventState.Usable (s : EventState) : Prop where
  host : s.host.Usable
  pool : s.host.queue.signalPool ≠ 0
  mapped : ∀ idx ∈ s.host.queue.freeSignals, s.host.signalAt idx ≠ 0

variable {s s' : EventState}

/-! ## Single calls -/

/-- A new event at an address. -/
def Host.newEvent (h : Host) (address : ℕ) : Host :=
  { h with events := Function.update h.events address {} }

theorem call_libreCuEventCreate (address : ℕ) (h : Host) :
    (call (libreCuEventCreate address) h).2 = h.newEvent address := rfl

theorem call_libreCuEventDestroy (event : ℕ) (h : Host) :
    (call (libreCuEventDestroy (some event)) h).2 = h := rfl

theorem call_libreCuEventRecord (event : ℕ) (h : Host) :
    call (libreCuEventRecord (some event) (some 0)) h = call (recordEvent (some event) 0) h := rfl

/-- What a call starts from and leads to. -/
theorem step_create {address : ℕ} (hs : s.step (.create address) = some s') :
    address ∉ s.alive ∧ s' = ⟨s.host.newEvent address, insert address s.alive⟩ := by
  rw [EventState.step, call_libreCuEventCreate] at hs
  split at hs
  · cases hs
  · exact ⟨‹_›, (Option.some.inj hs).symm⟩

theorem step_record {event : ℕ} (hs : s.step (.record event) = some s') :
    event ∈ s.alive ∧
      s' = { s with host := (call (libreCuEventRecord (some event) (some 0)) s.host).2 } := by
  rw [EventState.step] at hs
  split at hs
  · exact ⟨‹_›, (Option.some.inj hs).symm⟩
  · cases hs

theorem step_destroy {event : ℕ} (hs : s.step (.destroy event) = some s') :
    event ∈ s.alive ∧ s' = { s with alive := s.alive.erase event } := by
  rw [EventState.step, call_libreCuEventDestroy] at hs
  split at hs
  · exact ⟨‹_›, (Option.some.inj hs).symm⟩
  · cases hs

theorem step_other {c : ApiCall} {values : NvU64 → NvU64} {gpGet : NvU32 × NvU32}
    (hs : s.step (.other c values gpGet) = some s') :
    c.records = false ∧ s' = { s with host := (call c.run (s.host.observe values gpGet)).2 } := by
  rw [EventState.step] at hs
  split at hs
  · cases hs
  · exact ⟨Bool.eq_false_iff.mpr ‹_›, (Option.some.inj hs).symm⟩

theorem owned_of_signal {e e' : LibreCUEvent} (h : ∀ type, e'.signal type = e.signal type) :
    e'.owned = e.owned := by
  have hcompute : e'.computeSignal = e.computeSignal := h .compute
  have hdma : e'.dmaSignal = e.dmaSignal := h .dma
  rw [LibreCUEvent.owned, LibreCUEvent.owned, hcompute, hdma]

/-- A signal that is taken for an engine is one more. -/
theorem owned_of_taken {e e' : LibreCUEvent} {type : QueueType} {signal : NvU64}
    (hsignal : signal ≠ 0) (hzero : e.signal type = 0)
    (h : ∀ t, e'.signal t = if t = type then signal else e.signal t) : e'.owned = e.owned + 1 := by
  have hcompute : e'.computeSignal = _ := h .compute
  have hdma : e'.dmaSignal = _ := h .dma
  rw [LibreCUEvent.owned, LibreCUEvent.owned, hcompute, hdma]
  cases type with
  | compute =>
    have hzero : e.computeSignal = 0 := hzero
    simp [hzero, LibreCUEvent.signal, Nat.add_comm]
    exact hsignal
  | dma =>
    have hzero : e.dmaSignal = 0 := hzero
    simp [hzero, LibreCUEvent.signal]
    exact hsignal

/-- Events whose signals are as before own as many. -/
theorem sum_owned_of_same {h h' : Host} (hsame : h.SameSignals h') (alive : Finset ℕ) :
    ∑ e ∈ alive, (h'.events e).owned = ∑ e ∈ alive, (h.events e).owned :=
  Finset.sum_congr rfl fun e _ => owned_of_signal (hsame.signal e)

/-- A signal that is taken for a living event is one more. -/
theorem sum_owned_of_taken {h h' : Host} {event : ℕ} {type : QueueType} {idx : NvU32}
    (ht : h.Takes event type idx h') (hzero : (h.events event).signal type = 0)
    (hsignal : h.signalAt idx ≠ 0) {alive : Finset ℕ} (halive : event ∈ alive) :
    ∑ e ∈ alive, (h'.events e).owned = ∑ e ∈ alive, (h.events e).owned + 1 := by
  rw [← Finset.add_sum_erase _ _ halive, ← Finset.add_sum_erase _ (fun e => (h.events e).owned) halive]
  have hevent : (h'.events event).owned = (h.events event).owned + 1 := by
    refine owned_of_taken hsignal hzero fun t => ?_
    rw [ht.signal event t]
    simp
  have hothers : ∑ e ∈ alive.erase event, (h'.events e).owned =
      ∑ e ∈ alive.erase event, (h.events e).owned := by
    refine Finset.sum_congr rfl fun e he => owned_of_signal fun t => ?_
    rw [ht.signal e t, if_neg fun hand => Finset.ne_of_mem_erase he hand.1]
  omega

/-! ## One call -/

theorem EventState.Usable.signalPool (hu : s.Usable) {h' : Host} (ht : s.host.Touched h')
    {alive : Finset ℕ} : (⟨h', alive⟩ : EventState).Usable := by
  refine ⟨hu.host.touched ht, ht.signalPool ▸ hu.pool, fun idx hidx => ?_⟩
  show h'.queue.signalPool + _ ≠ 0
  rw [ht.signalPool]
  exact hu.mapped idx (ht.events.freeSignals hidx)

/-- A new event has no signal. -/
theorem Host.Usable.newEvent {h : Host} (hu : h.Usable) (address : ℕ) :
    (h.newEvent address).Usable := by
  have hnull := hu.timelineSignal.symm
  refine ⟨hu.timelineSignal, hu.waits, fun e type => ?_, hu.freeSignals⟩
  show (Function.update h.events address {} e).signal type ≠ _
  by_cases he : e = address
  · rw [he, Function.update_self]
    cases type <;> exact hnull
  · rw [Function.update_of_ne he]
    exact hu.events e type

/-- **Every call leaves the stream usable.** -/
theorem EventState.Usable.step (hu : s.Usable) {c : EventCall} (hs : s.step c = some s') :
    s'.Usable := by
  cases c with
  | create address =>
    obtain ⟨-, rfl⟩ := step_create hs
    exact ⟨hu.host.newEvent address, hu.pool, hu.mapped⟩
  | record event =>
    obtain ⟨-, rfl⟩ := step_record hs
    have hc : call (ApiCall.recordEvent (some event) 0).run s.host =
        call (libreCuEventRecord (some event) (some 0)) s.host := rfl
    exact hu.signalPool (hu.host.touched_of_call (hc.trans (Prod.mk.eta).symm))
  | destroy event =>
    obtain ⟨-, rfl⟩ := step_destroy hs
    exact ⟨hu.host, hu.pool, hu.mapped⟩
  | other c values gpGet =>
    obtain ⟨-, rfl⟩ := step_other hs
    have hobs : (⟨s.host.observe values gpGet, s.alive⟩ : EventState).Usable :=
      ⟨hu.host.observe values gpGet, hu.pool, hu.mapped⟩
    exact hobs.signalPool (hobs.host.touched_of_call (Prod.mk.eta).symm)

/-- A record keeps the balance, and succeeds if there is a signal to take. -/
theorem conserved_record (hu : s.Usable) {event : ℕ} (halive : event ∈ s.alive) :
    (Conserved s → Conserved
      { s with host := (call (libreCuEventRecord (some event) (some 0)) s.host).2 }) ∧
    (s.host.queue.freeSignals ≠ [] →
      (call (libreCuEventRecord (some event) (some 0)) s.host).1 = .ok ()) := by
  have hsame : ∀ h', s.host.SameSignals h' → Conserved s → Conserved { s with host := h' } := by
    intro h' hkept hcons
    rw [Conserved, EventState.owned, hkept.freeSignals, sum_owned_of_same hkept]
    exact hcons
  have htakes : ∀ type idx h', (s.host.events event).signal type = 0 →
      s.host.Takes event type idx h' → Conserved s → Conserved { s with host := h' } := by
    intro type idx h' hzero htaken hcons
    have hfree := htaken.freeSignals
    have hmem : idx ∈ s.host.queue.freeSignals := by rw [hfree]; exact List.mem_cons_self
    rw [Conserved, hfree, List.length_cons] at hcons
    rw [Conserved, EventState.owned, sum_owned_of_taken htaken hzero (hu.mapped idx hmem) halive]
    rw [EventState.owned] at hcons
    show h'.queue.freeSignals.length + _ = _
    omega
  rw [call_libreCuEventRecord]
  rcases wp_call (Prod.mk.eta).symm (wp_recordEvent_signals event 0 s.host) with
    ⟨_, hr, huse⟩ | ⟨_, hr, hfail⟩
  · refine ⟨fun hcons => ?_, fun _ => hr⟩
    cases huse with
    | owned _ hkept => exact hsame _ hkept hcons
    | taken idx hzero htaken => exact htakes _ idx _ hzero htaken hcons
  · cases hfail with
    | exhausted hzero hempty hkept =>
      refine ⟨hsame _ hkept, fun hne => absurd hempty ?_⟩
      simp only [not_or]
      exact ⟨hu.pool, hne⟩
    | null idx hzero htaken hnull =>
      have hmem : idx ∈ s.host.queue.freeSignals := by
        rw [htaken.freeSignals]; exact List.mem_cons_self
      exact absurd hnull (hu.mapped idx hmem)

/-- **A call keeps the balance exactly when it destroys no event that owns a signal.** -/
theorem step_conserved_iff (hu : s.Usable) (hcons : Conserved s) {c : EventCall}
    (hs : s.step c = some s') : Conserved s' ↔ KeepsSignals s c := by
  cases c with
  | create address =>
    obtain ⟨hnew, rfl⟩ := step_create hs
    refine iff_of_true ?_ trivial
    have hothers : ∑ e ∈ s.alive, ((s.host.newEvent address).events e).owned = s.owned := by
      refine Finset.sum_congr rfl fun e he => ?_
      show (Function.update s.host.events address {} e).owned = _
      rw [Function.update_of_ne (ne_of_mem_of_not_mem he hnew)]
    have hevent : ((s.host.newEvent address).events address).owned = 0 := by
      show (Function.update s.host.events address {} address).owned = 0
      rw [Function.update_self]
      rfl
    rw [Conserved, EventState.owned, Finset.sum_insert hnew, hevent, hothers, Nat.zero_add]
    exact hcons
  | record event =>
    obtain ⟨halive, rfl⟩ := step_record hs
    exact iff_of_true ((conserved_record hu halive).1 hcons) trivial
  | destroy event =>
    obtain ⟨halive, rfl⟩ := step_destroy hs
    have hsplit := Finset.add_sum_erase s.alive (fun e => (s.host.events e).owned) halive
    have hcons : s.host.queue.freeSignals.length + (1 + s.owned) = maxSignalPoolSize := hcons
    show s.host.queue.freeSignals.length + (1 + ∑ e ∈ s.alive.erase event, (s.host.events e).owned) =
      maxSignalPoolSize ↔ (s.host.events event).owned = 0
    rw [EventState.owned] at hcons
    omega
  | other c values gpGet =>
    obtain ⟨hrec, rfl⟩ := step_other hs
    refine iff_of_true ?_ trivial
    have hne : ∀ event pStream, c ≠ .recordEvent event pStream := by
      rintro event pStream rfl
      cases hrec
    have hsame := sameEvents_of_call (hu.host.observe values gpGet) hne (Prod.mk.eta).symm
    rw [Conserved, EventState.owned, hsame.freeSignals, hsame.events]
    exact hcons

/-! ## Runs -/

/-- Few events own few signals. -/
theorem owned_le_of_fewEvents (hfew : FewEvents s) : s.owned ≤ 65534 := by
  have hsum : s.owned ≤ ∑ _e ∈ s.alive, 2 := Finset.sum_le_sum fun e _ => owned_le_two _
  rw [Finset.sum_const, nsmul_eq_mul, Nat.cast_id] at hsum
  have := hfew
  rw [FewEvents] at this
  omega

/-- With few events a record succeeds. -/
theorem recordSucceeds_of_fewEvents (hu : s.Usable) (hcons : Conserved s) (hfew : FewEvents s)
    {c : EventCall} (hs : s.step c = some s') : RecordSucceeds s c := by
  cases c with
  | record event =>
    obtain ⟨halive, -⟩ := step_record hs
    refine (conserved_record hu halive).2 fun hempty => ?_
    have howned := owned_le_of_fewEvents hfew
    rw [Conserved, hempty, List.length_nil, maxSignalPoolSize] at hcons
    omega
  | create _ => trivial
  | destroy _ => trivial
  | other _ _ _ => trivial

/-- The pool was mapped as a whole: it does not reach past the end of the address space. -/
def Host.PoolMapped (h : Host) : Prop := h.queue.signalPool.toNat + maxSignalPoolSize * 16 ≤ 2 ^ 64

theorem signalAt_ne_zero {h : Host} (hmapped : h.PoolMapped) (hpool : h.queue.signalPool ≠ 0)
    {idx : NvU32} (hidx : idx ∈ remainingSignals) : h.signalAt idx ≠ 0 := by
  obtain ⟨n, hn, rfl⟩ := List.mem_map.mp hidx
  rw [List.mem_range'_1, maxSignalPoolSize] at hn
  rw [Host.PoolMapped, maxSignalPoolSize] at hmapped
  intro hzero
  have hnat := congrArg BitVec.toNat hzero
  have hne : h.queue.signalPool.toNat ≠ 0 := fun h0 => hpool (BitVec.eq_of_toNat_eq h0)
  have hidx := toNat_signalOffset (n := n) (by omega)
  have hend : h.queue.signalPool.toNat + n * 16 < 2 ^ 64 := by omega
  rw [Host.signalAt, BitVec.toNat_add, hidx, Nat.mod_eq_of_lt hend] at hnat
  have hzero : (0 : NvU64).toNat = 0 := rfl
  omega

/-- What a program starts from: an initialised stream, and no event. -/
structure EventState.Start (s : EventState) : Prop where
  host : s.host.Initialized
  mapped : s.host.PoolMapped
  alive : s.alive = ∅

theorem EventState.Start.usable (hs : s.Start) : s.Usable := by
  have hpool : s.host.queue.signalPool ≠ 0 := by
    rw [← hs.host.poolReady.timelineSignal]
    exact hs.host.usable.timelineSignal
  refine ⟨hs.host.usable, hpool, fun idx hidx => ?_⟩
  rw [hs.host.poolReady.freeSignals] at hidx
  exact signalAt_ne_zero hs.mapped hpool hidx

theorem EventState.Start.conserved (hs : s.Start) : Conserved s := by
  rw [Conserved, EventState.owned, hs.alive, hs.host.poolReady.freeSignals, remainingSignals]
  simp [maxSignalPoolSize]

/-- **The signals are conserved, and the pool lasts for 32767 living events, if and only if no event
is destroyed that owns a signal.** -/
theorem signals_conserved_iff (hs : s.Start) (calls : List EventCall) :
    (Always EventState.step Conserved s calls ∧
      (Always EventState.step FewEvents s calls →
        Meets EventState.step RecordSucceeds s calls)) ↔
    Meets EventState.step KeepsSignals s calls := by
  have hinv : ∀ s e s', EventState.Usable s → s.step e = some s' → EventState.Usable s' :=
    fun _ _ _ hu hstep => hu.step hstep
  have hiff : Always EventState.step Conserved s calls ↔
      Meets EventState.step KeepsSignals s calls := always_iff_meets hinv
    (fun _ _ _ hu hcons hstep => step_conserved_iff hu hcons hstep) hs.usable hs.conserved
  refine ⟨fun h => hiff.mp h.1, fun h => ⟨hiff.mpr h, fun hfew => ?_⟩⟩
  have hall := ((always_of_step hinv hs.usable).and (hiff.mpr h)).and hfew
  exact hall.meets fun _ _ _ hp hstep => recordSucceeds_of_fewEvents hp.1.1 hp.1.2 hp.2 hstep

/-! ## Runs on a sample stream -/

/-- The sample stream before any event exists. -/
def sampleEvents : EventState := { host := sampleStream }

theorem start_sampleEvents : sampleEvents.Start :=
  ⟨initialized_sampleStream, by rw [Host.PoolMapped]; decide +kernel, rfl⟩

/-- One event is recorded and kept, another one is destroyed without a record. -/
theorem signals_conserved_iff_sample :
    Always EventState.step Conserved sampleEvents
      [.create 7, .record 7, .create 8, .destroy 8] := by
  refine ((signals_conserved_iff start_sampleEvents _).mpr ?_).1
  intro s₁ _
  refine ⟨trivial, fun s₂ _ => ⟨trivial, fun s₃ hs₃ => ⟨trivial, fun s₄ _ => ⟨?_, trivial⟩⟩⟩⟩
  obtain ⟨-, rfl⟩ := step_create hs₃
  show (Function.update s₂.host.events 8 {} 8).owned = 0
  rw [Function.update_self]
  rfl

/-- An event that is created and recorded. -/
def sampleRecorded : EventState :=
  { host := (call (libreCuEventRecord (some 7) (some 0)) (sampleStream.newEvent 7)).2, alive := {7} }

theorem owned_sampleRecorded : (sampleRecorded.host.events 7).owned = 1 := by decide +kernel

/-- **An event that is destroyed after a record takes its signal with it.** -/
theorem destroyed_event_leaks : ∃ s : EventState, s.Start ∧
    ¬ Always EventState.step Conserved s [.create 7, .record 7, .destroy 7] := by
  refine ⟨sampleEvents, start_sampleEvents, fun h => ?_⟩
  have hcreated : sampleEvents.step (.create 7) = some ⟨sampleStream.newEvent 7, {7}⟩ := rfl
  have hrecorded : EventState.step ⟨sampleStream.newEvent 7, {7}⟩ (.record 7) =
      some sampleRecorded := rfl
  have hdestroyed : sampleRecorded.step (.destroy 7) =
      some { sampleRecorded with alive := sampleRecorded.alive.erase 7 } := rfl
  have hu : sampleRecorded.Usable := (start_sampleEvents.usable.step hcreated).step hrecorded
  have hrest := (h.2 _ hcreated).2 _ hrecorded
  have hkeeps := (step_conserved_iff hu hrest.head hdestroyed).mp (hrest.2 _ hdestroyed)
  rw [KeepsSignals, owned_sampleRecorded] at hkeeps
  exact absurd hkeeps one_ne_zero

end LibreCuda
