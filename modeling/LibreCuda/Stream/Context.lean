import LibreCuda.Runtime.Streams
import LibreCuda.Stream.Creation

/-! # The streams of a context

The streams of one context are created, used and carried out side by side. They submit to the same
two channels, and share the events, the functions, the rings and the memory of the process.

* **`ContextSystem.view`** is one stream of the context as a system of its own.
* **`ContextSystem.step`** is one event: a stream is created, a call or an effect of a stream, a
  command that a channel executes, or an operation that completes.
* **`ContextSystem.Moves`**: an event is one of a single stream, and disturbs the others.
* **`streams_isolated`**: whatever the others do, every stream runs in order and is awaited. -/

namespace LibreCuda

open Channels Exec

variable {κ : Type}

/-! ## Contexts -/

/-- Bookkeeping of a stream, and the call that is being carried out on it. -/
structure StreamBooks where
  operations : List Operation := []
  argRegions : List (NvU64 × NvU64) := []
  trace : List HostEffect := []
  effects : List HostEffect := []
  issued : List HostEffect := []
  last : Option (ApiCall × Except Failure Unit) := none
  commenced : ℕ := 2
  sent : QueueType → List GpuCommand := fun _ => []

/-- The streams of a context, what they share, and the channels they submit to. -/
structure ContextSystem (κ : Type) where
  shared : Host
  /-- The streams that were created. -/
  live : κ → Bool := fun _ => false
  queue : κ → NvCommandQueue
  books : κ → StreamBooks := fun _ => {}
  gpu : Shared κ QueueType NvU64 NvU64 MethodCall

/-- What can happen next. A stream is created at a place where memory holds `kernArgsPageVa`. -/
inductive ContextEvent (κ : Type)
  | create (k : κ) (kernArgsPageVa : NvU64) (gpGet : NvU32 × NvU32)
  | call (k : κ) (c : ApiCall) (gpGet : NvU32 × NvU32)
  | effect (k : κ)
  | fetch (type : QueueType)
  | finish (type : QueueType) (k : κ) (n : ℕ)

/-- The host of a queue with its books. -/
def ContextSystem.host (x : ContextSystem κ) (queue : NvCommandQueue) (books : StreamBooks) : Host :=
  { x.shared with
    queue := queue
    operations := books.operations
    argRegions := books.argRegions
    trace := books.trace }

/-- `libreCuStreamCreate` on a new queue. -/
def ContextSystem.initialized (x : ContextSystem κ) (kernArgsPageVa : NvU64)
    (gpGet : NvU32 × NvU32) : Except Failure Unit × Host :=
  Exec.call initializeQueue ((x.host (newQueue kernArgsPageVa) {}).observe x.gpu.signals gpGet)

section Steps

variable [DecidableEq κ]

/-- One stream, as a system of its own. -/
def ContextSystem.view (x : ContextSystem κ) (k : κ) : System where
  host := x.host (x.queue k) (x.books k)
  gpu := x.gpu.view k
  effects := (x.books k).effects
  issued := (x.books k).issued
  last := (x.books k).last
  commenced := (x.books k).commenced
  sent := (x.books k).sent

/-- Write back what a stream did. -/
def ContextSystem.put (x : ContextSystem κ) (k : κ) (s : System) : ContextSystem κ :=
  { x with
    shared := s.host
    queue := Function.update x.queue k s.host.queue
    books := Function.update x.books k ⟨s.host.operations, s.host.argRegions, s.host.trace,
      s.effects, s.issued, s.last, s.commenced, s.sent⟩ }

/-- A stream was created; what its initialisation submits and awaits is still to come. -/
def ContextSystem.created (x : ContextSystem κ) (k : κ) (h : Host) : ContextSystem κ :=
  { x with
    shared := h
    live := Function.update x.live k true
    queue := Function.update x.queue k h.queue
    books := Function.update x.books k
      { operations := h.operations, argRegions := h.argRegions, trace := h.trace, effects := h.trace } }

/-- The next effect of the call that is being carried out on a stream. -/
def ContextSystem.carryOut (x : ContextSystem κ) (k : κ) : Option (ContextSystem κ) :=
  match (x.books k).effects with
  | [] => none
  | .submit type commands :: rest =>
    some { x.put k ((x.view k).submit type commands rest) with
      gpu := x.gpu.submit type k (commandsOf type commands) }
  | .waitCpu signal value :: rest =>
    if value.setWidth 64 ≤ x.gpu.signals signal then
      some (x.put k ((x.view k).passWait signal value rest))
    else none

/-- An event, if it can happen. -/
def ContextSystem.step (x : ContextSystem κ) : ContextEvent κ → Option (ContextSystem κ)
  | .create k kernArgsPageVa gpGet =>
    if x.live k then none
    else
      match x.initialized kernArgsPageVa gpGet with
      | (.ok _, h) => some (x.created k h)
      | (.error _, _) => none
  | .call k c gpGet =>
    if x.live k && (x.books k).effects.isEmpty then some (x.put k ((x.view k).called c gpGet))
    else none
  | .effect k => if x.live k then x.carryOut k else none
  | .fetch type => (x.gpu.fetch serialEngine type).map fun g => { x with gpu := g }
  | .finish type k n => (x.gpu.finish type k n).map fun g => { x with gpu := g }

/-- The signals of a queue that was initialised are in use nowhere, and their memory is zero. -/
structure ContextSystem.Unused (x : ContextSystem κ) (q : NvCommandQueue) : Prop where
  zero : x.gpu.signals q.timelineSignal = 0
  events : ∀ e type, (x.shared.events e).signal type ≠ q.timelineSignal
  spared : ∀ j, x.live j = true → (x.view j).Spares q.timelineSignal
  pool : ∀ j, x.live j = true → ∀ idx ∈ q.freeSignals,
    q.signalPool + idx.setWidth 64 * nvSignalBytes ≠ (x.view j).timelineSignal

/-- The condition: a stream is created with signals of its own, and its calls are orderly. -/
def ContextSystem.Orderly (x : ContextSystem κ) : ContextEvent κ → Prop
  | .create _ kernArgsPageVa gpGet => x.Unused (x.initialized kernArgsPageVa gpGet).2.queue
  | .call k c gpGet => (x.view k).Orderly (.call c gpGet)
  | _ => True

/-- The condition under which every stream goes on as well: its calls are at pace. -/
def ContextSystem.Punctual (x : ContextSystem κ) (e : ContextEvent κ) : Prop :=
  x.Orderly e ∧ match e with
    | .call k c gpGet => (x.view k).Paced (.call c gpGet)
    | _ => True

/-- A step that meets a condition. -/
def ContextSystem.Next (ok : ContextSystem κ → ContextEvent κ → Prop) (x x' : ContextSystem κ) :
    Prop := ∃ e, ok x e ∧ x.step e = some x'

/-- A context without streams. -/
structure ContextSystem.New (x : ContextSystem κ) : Prop where
  live : ∀ k, x.live k = false
  channels : ∀ type, x.gpu.channel type = {}
  completed : x.gpu.completed = []

/-! ## Views -/

variable {x x' : ContextSystem κ} {k j : κ}

theorem ContextSystem.view_put_self (s : System) : (x.put k s).view k = { s with gpu := x.gpu.view k } := by
  simp [ContextSystem.put, ContextSystem.view, ContextSystem.host]

theorem ContextSystem.view_put_of_ne (hne : j ≠ k) (s : System) : (x.put k s).view j =
    { x.view j with host := (x.put k s).host (x.queue j) (x.books j) } := by
  simp [ContextSystem.put, ContextSystem.view, ContextSystem.host, Function.update_of_ne hne]

theorem ContextSystem.view_created_self (h : Host) : (x.created k h).view k =
    { host := h, gpu := x.gpu.view k, effects := h.trace } := by
  simp [ContextSystem.created, ContextSystem.view, ContextSystem.host]

theorem ContextSystem.view_created_of_ne (hne : j ≠ k) (h : Host) : (x.created k h).view j =
    { x.view j with host := (x.created k h).host (x.queue j) (x.books j) } := by
  simp [ContextSystem.created, ContextSystem.view, ContextSystem.host, Function.update_of_ne hne]

/-- What a stream did leaves another one alone, but for what they share. -/
theorem ContextSystem.disturbed_put (hne : j ≠ k) {s : System} (hw : Waits s.host.ctx.flags)
    (hevents : ∀ e type, (s.host.events e).signal type ≠ (x.view j).timelineSignal) :
    (x.view j).Disturbed ((x.put k s).view j) := by
  rw [ContextSystem.view_put_of_ne hne]
  exact ⟨rfl, hw, hevents, rfl, ⟨rfl, rfl, rfl⟩, rfl, rfl, rfl, rfl⟩

/-- An effect of a stream can be carried out when its view says so. -/
theorem ContextSystem.carryOut_isSome_iff (x : ContextSystem κ) (k : κ) :
    (x.carryOut k).isSome = true ↔ ((x.view k).step .effect).isSome = true := by
  have heffects : (x.view k).effects = (x.books k).effects := rfl
  have hsignals : (x.view k).gpu.signals = x.gpu.signals := rfl
  rw [ContextSystem.carryOut, System.step, System.carryOut, heffects, hsignals]
  cases (x.books k).effects with
  | nil => exact Iff.rfl
  | cons effect rest =>
    cases effect with
    | submit type commands => exact ⟨fun _ => rfl, fun _ => rfl⟩
    | waitCpu signal value =>
      dsimp only
      split_ifs
      · exact ⟨fun _ => rfl, fun _ => rfl⟩
      · exact Iff.rfl

/-- **An effect of a stream** is one of its view, and nothing for the others. -/
theorem ContextSystem.carryOut_cases (h : x.carryOut k = some x') :
    (x.view k).step .effect = some (x'.view k) ∧ x'.live = x.live ∧
      (∀ j, j ≠ k → x'.view j = x.view j) := by
  rw [ContextSystem.carryOut] at h
  have hothers : ∀ (s : System) (g : Shared κ QueueType NvU64 NvU64 MethodCall) j, j ≠ k →
      s.host = (x.view k).host → g.view j = x.gpu.view j →
        ({ x.put k s with gpu := g } : ContextSystem κ).view j = x.view j := by
    intro s g j hne hhost hg
    have hview : ({ x.put k s with gpu := g } : ContextSystem κ).view j =
        { (x.put k s).view j with gpu := g.view j } := rfl
    rw [hview, ContextSystem.view_put_of_ne hne, hg, ContextSystem.put, hhost]
    rfl
  split at h
  · cases h
  · rename_i type commands rest heffects
    cases h
    refine ⟨?_, rfl, fun j hne => hothers _ _ j hne rfl ?_⟩
    · have hview : ({ x.put k ((x.view k).submit type commands rest) with
          gpu := x.gpu.submit type k (commandsOf type commands) } : ContextSystem κ).view k =
          { (x.put k ((x.view k).submit type commands rest)).view k with
            gpu := (x.gpu.submit type k (commandsOf type commands)).view k } := rfl
      rw [hview, ContextSystem.view_put_self, view_submit, if_pos rfl, System.step, System.carryOut]
      have heffects' : (x.view k).effects = .submit type commands :: rest := heffects
      rw [heffects']
      rfl
    · rw [view_submit, if_neg (Ne.symm hne)]
  · rename_i signal value rest heffects
    split_ifs at h with hle
    cases h
    refine ⟨?_, rfl, fun j hne => hothers _ _ j hne rfl rfl⟩
    have heffects' : (x.view k).effects = .waitCpu signal value :: rest := heffects
    have hle' : value.setWidth 64 ≤ (x.view k).gpu.signals signal := hle
    rw [ContextSystem.view_put_self, System.step, System.carryOut, heffects']
    exact if_pos hle'

/-! ## The invariant -/

/-- The invariants of the streams, and that they spare the signals of each other. -/
structure ContextSystem.Regular (x : ContextSystem κ) : Prop where
  regular : ∀ k, x.live k = true → (x.view k).Regular
  channels : ∀ k, x.live k = false → ∀ type, (x.gpu.view k).channel type = {}
  completed : ∀ k, x.live k = false → (x.gpu.view k).completed = []
  spares : ∀ j k, x.live j = true → x.live k = true → j ≠ k →
    (x.view j).Spares (x.view k).timelineSignal

/-- What is on a channel belongs to a stream that was created. -/
theorem ContextSystem.Regular.live_of_pending (hr : x.Regular) {type : QueueType} {cmd : GpuCommand}
    {rest : List GpuCommand} (hp : ((x.gpu.view k).channel type).pending = cmd :: rest) :
    x.live k = true := by
  by_contra hdead
  rw [hr.channels k (Bool.eq_false_iff.mpr hdead) type] at hp
  cases hp

/-- A single stream moved, and spared the signals of the others. -/
structure ContextSystem.Moves (k : κ) (x x' : ContextSystem κ) : Prop where
  live : x'.live = x.live
  regular : (x'.view k).Regular
  timelineSignal : (x'.view k).timelineSignal = (x.view k).timelineSignal
  spares : ∀ j, j ≠ k → x.live j = true → (x'.view k).Spares (x.view j).timelineSignal
  others : ∀ j, j ≠ k → x.live j = true → (x.view j).Disturbed (x'.view j)
  channels : ∀ j, j ≠ k → (x'.gpu.view j).channel = (x.gpu.view j).channel
  completed : ∀ j, j ≠ k → (x'.gpu.view j).completed = (x.gpu.view j).completed

/-- **A move of one stream keeps the invariant.** -/
theorem ContextSystem.Moves.keeps (hm : x.Moves k x') (hlive : x.live k = true) (hr : x.Regular) :
    x'.Regular := by
  have hsignal : ∀ j, x.live j = true → (x'.view j).timelineSignal = (x.view j).timelineSignal := by
    intro j hj
    rcases eq_or_ne j k with rfl | hne
    · exact hm.timelineSignal
    · exact (hm.others j hne hj).timelineSignal
  have hother : ∀ j, x'.live j = false → j ≠ k := by
    rintro j hj rfl
    rw [hm.live, hlive] at hj
    cases hj
  refine ⟨fun j hj => ?_, fun j hj type => ?_, fun j hj => ?_, fun i j hi hj hij => ?_⟩
  · rw [hm.live] at hj
    rcases eq_or_ne j k with rfl | hne
    · exact hm.regular
    · exact (hr.regular j hj).disturbed (hm.others j hne hj)
  · rw [hm.channels j (hother j hj)]
    exact hr.channels j (hm.live ▸ hj) type
  · rw [hm.completed j (hother j hj)]
    exact hr.completed j (hm.live ▸ hj)
  · rw [hm.live] at hi hj
    rw [hsignal j hj]
    rcases eq_or_ne i k with rfl | hne
    · exact hm.spares j (Ne.symm hij) hj
    · exact (hr.spares i j hi hj hij).disturbed (hm.others i hne hi)

/-! ## Steps -/

/-- **A call** is a move of its stream. -/
theorem ContextSystem.Regular.call (hr : x.Regular) (hlive : x.live k = true)
    (heffects : (x.view k).effects = []) {c : ApiCall} {gpGet : NvU32 × NvU32}
    (hok : (x.view k).Orderly (.call c gpGet)) :
    x.Moves k (x.put k ((x.view k).called c gpGet)) := by
  have hk := hr.regular k hlive
  have hcall : Exec.call c.run ((x.view k).observed gpGet) =
    ((Exec.call c.run ((x.view k).observed gpGet)).1, ((x.view k).called c gpGet).host) := rfl
  have htouched := (hk.usable.observe (x.view k).gpu.signals gpGet).touched_of_call hcall
  have hself : (x.put k ((x.view k).called c gpGet)).view k = (x.view k).called c gpGet :=
    ContextSystem.view_put_self _
  have hspares : ∀ j, j ≠ k → x.live j = true → (x.view k).Spares (x.view j).timelineSignal :=
    fun j hne hj => hr.spares k j hlive hj (Ne.symm hne)
  have hevents : ∀ j, x.live j = true → ∀ e type,
      ((x.view k).host.events e).signal type ≠ (x.view j).timelineSignal :=
    fun j hj => (hr.regular j hj).usable.events
  refine ⟨rfl, ?_, ?_, fun j hne hj => ?_, fun j hne hj => ?_, fun _ _ => rfl, fun _ _ => rfl⟩
  · rw [hself]
    exact hk.called heffects hok
  · rw [hself]
    exact htouched.timelineSignal
  · rw [hself]
    exact (hspares j hne hj).called hk hok.2 (hevents j hj)
  · refine ContextSystem.disturbed_put hne ?_ ((hspares j hne hj).events hk (hevents j hj) c gpGet)
    rw [htouched.flags]
    exact hk.usable.waits

/-- **An effect** is a move of its stream. -/
theorem ContextSystem.Regular.effect (hr : x.Regular) (hlive : x.live k = true)
    (hs : x.carryOut k = some x') : x.Moves k x' := by
  obtain ⟨hstep, hlives, hothers⟩ := ContextSystem.carryOut_cases hs
  have hhost : (x'.view k).host = (x.view k).host := by
    rcases step_effect hstep with ⟨_, _, _, -, heq⟩ | ⟨_, _, _, -, -, heq⟩
    · rw [heq]
      rfl
    · rw [heq]
      rfl
  refine ⟨hlives, (hr.regular k hlive).effect hstep, ?_,
    fun j hne hj => (hr.spares k j hlive hj (Ne.symm hne)).effect hstep,
    fun j hne hj => ?_, fun j hne => ?_, fun j hne => ?_⟩
  · rw [System.timelineSignal, System.timelineSignal, hhost]
  · rw [hothers j hne]
    exact .refl (hr.regular j hj)
  · exact congrArg (fun s : System => s.gpu.channel) (hothers j hne)
  · exact congrArg (fun s : System => s.gpu.completed) (hothers j hne)

/-- Every command has a signal that it does not release. -/
theorem exists_not_released (cmd : GpuCommand) :
    ∃ sig : NvU64, ∀ value, cmd ≠ .release sig value := by
  cases cmd with
  | release signal value =>
    refine ⟨signal + 1, fun value' h => ?_⟩
    have hsame : signal + 0 = signal + 1 := (BitVec.add_zero signal).trans (by injection h)
    exact absurd ((BitVec.add_right_inj signal).mp hsame) (by decide)
  | acquire signal value => exact ⟨0, nofun⟩
  | start n ordered => exact ⟨0, nofun⟩
  | other m => exact ⟨0, nofun⟩

/-- **A command that a channel executes** is a move of the stream that submitted it. -/
theorem ContextSystem.Regular.fetch (hr : x.Regular) {type : QueueType}
    {g : Shared κ QueueType NvU64 NvU64 MethodCall}
    (hg : x.gpu.fetch serialEngine type = some g) :
    ∃ k, x.live k = true ∧ (x.gpu.view k).fetch serialEngine type = some (g.view k) ∧
      x.Moves k { x with gpu := g } := by
  obtain ⟨k, cmd, rest, hp, -, -, hfetch, hothers⟩ := view_fetch hg
  have hpending : ((x.view k).gpu.channel type).pending = cmd :: ofUser k rest := by
    show ofUser k (x.gpu.channel type).pending = _
    rw [hp, ofUser_cons_self]
  have hlive := hr.live_of_pending hpending
  obtain ⟨free, hfree⟩ := exists_not_released cmd
  refine ⟨k, hlive, hfetch, rfl, (hr.regular k hlive).fetch hfetch, rfl,
    fun j hne hj => (hr.spares k j hlive hj (Ne.symm hne)).fetch hfetch, fun j hne hj => ?_,
    fun j hne => (hothers j hne free hfree).channel,
    fun j hne => (hothers j hne free hfree).completed⟩
  -- what the stream has on its channel does not release the signal of another
  have hquiet : ∀ value, cmd ≠ .release (x.view j).timelineSignal value := by
    rintro value rfl
    have hcount := (hr.spares k j hlive hj (Ne.symm hne)).pending type
    rw [hpending, releaseCount_cons, Command.releases, if_pos (decide_eq_true rfl)] at hcount
    exact absurd hcount (Nat.succ_ne_zero _)
  have hk := hr.regular j hj
  exact ⟨rfl, hk.usable.waits, hk.usable.events, rfl, hothers j hne _ hquiet, rfl, rfl, rfl, rfl⟩

/-- **An operation that completes** is a move of its stream. -/
theorem ContextSystem.Regular.finish (hr : x.Regular) {type : QueueType} {k : κ} {n : ℕ}
    {g : Shared κ QueueType NvU64 NvU64 MethodCall} (hg : x.gpu.finish type k n = some g) :
    x.live k = true ∧ (x.gpu.view k).finish type n = some (g.view k) ∧
      x.Moves k { x with gpu := g } := by
  have hview := view_finish hg
  have hfinish : (x.gpu.view k).finish type n = some (g.view k) := by
    simpa using hview k
  have hothers : ∀ j, j ≠ k → g.view j = x.gpu.view j := fun j hne => by
    simpa [Ne.symm hne] using hview j
  have hlive : x.live k = true := by
    by_contra hdead
    have hmem := (finish_cases hfinish).1
    rw [hr.channels k (Bool.eq_false_iff.mpr hdead) type] at hmem
    cases hmem
  refine ⟨hlive, hfinish, rfl, (hr.regular k hlive).finish hfinish, rfl,
    fun j hne hj => (hr.spares k j hlive hj (Ne.symm hne)).finish hfinish, fun j hne hj => ?_,
    fun j hne => congrArg Machine.channel (hothers j hne),
    fun j hne => congrArg Machine.completed (hothers j hne)⟩
  have hview : ({ x with gpu := g } : ContextSystem κ).view j = x.view j :=
    congrArg (fun m => ({ x.view j with gpu := m } : System)) (hothers j hne)
  rw [hview]
  exact .refl (hr.regular j hj)

/-! ## Creation -/

omit [DecidableEq κ] in
/-- The queue of a stream that was created. -/
theorem ContextSystem.initialized_cases {va : NvU64} {gpGet : NvU32 × NvU32} {h : Host}
    (hi : x.initialized va gpGet = (.ok (), h))
    (hevents : ∀ e type, (x.shared.events e).signal type ≠ h.timeline.timelineSignal) :
    h.Initialized ∧ h.events = x.shared.events := by
  have hfresh : ((x.host (newQueue va) {}).observe x.gpu.signals gpGet).Fresh :=
    ⟨fun type => by cases type <;> rfl, rfl, rfl, rfl, rfl, rfl, rfl, rfl, rfl⟩
  have hsame : h.events = x.shared.events := by
    rcases wp_call hi (wp_initializeQueue_events hfresh) with ⟨_, -, hevents⟩ | ⟨_, hr, -⟩
    · exact hevents
    · cases hr
  exact ⟨⟨⟨_, hfresh, hi⟩, fun e type => hsame ▸ hevents e type⟩, hsame⟩

theorem ContextSystem.live_created_of_ne (hne : j ≠ k) (h : Host) :
    (x.created k h).live j = x.live j := Function.update_of_ne hne ..

section Create

variable {va : NvU64} {gpGet : NvU32 × NvU32} {h : Host}

/-- A stream that was created is about to be set up. -/
theorem ContextSystem.Regular.view_created (hr : x.Regular) (hdead : x.live k = false)
    (hi : x.initialized va gpGet = (.ok (), h)) (hu : x.Unused h.queue) :
    ((x.created k h).view k).Created := by
  rw [ContextSystem.view_created_self]
  exact ⟨(ContextSystem.initialized_cases hi hu.events).1, hr.channels k hdead,
    hr.completed k hdead, hu.zero, rfl, rfl, rfl, fun _ => rfl⟩

/-- The others are left alone. -/
theorem ContextSystem.Regular.disturbed_created (hr : x.Regular)
    (hi : x.initialized va gpGet = (.ok (), h)) (hu : x.Unused h.queue) (hne : j ≠ k)
    (hj : x.live j = true) : (x.view j).Disturbed ((x.created k h).view j) := by
  obtain ⟨hinit, hevents⟩ := ContextSystem.initialized_cases hi hu.events
  rw [ContextSystem.view_created_of_ne hne]
  refine ⟨rfl, hinit.ready.waits, fun e type => ?_, rfl, ⟨rfl, rfl, rfl⟩, rfl, rfl, rfl, rfl⟩
  show (h.events e).signal type ≠ _
  rw [hevents]
  exact (hr.regular j hj).usable.events e type

/-- **Creating a stream keeps the invariant.** -/
theorem ContextSystem.Regular.create (hr : x.Regular) (hdead : x.live k = false)
    (hi : x.initialized va gpGet = (.ok (), h)) (hu : x.Unused h.queue) :
    (x.created k h).Regular := by
  have hcreated := hr.view_created hdead hi hu
  have hself : (x.created k h).view k = { host := h, gpu := x.gpu.view k, effects := h.trace } :=
    ContextSystem.view_created_self h
  have hlive : ∀ j, j ≠ k → (x.created k h).live j = x.live j :=
    fun j hne => ContextSystem.live_created_of_ne hne h
  have hothers : ∀ j, j ≠ k → x.live j = true →
      (x.view j).Disturbed ((x.created k h).view j) :=
    fun j hne hj => hr.disturbed_created hi hu hne hj
  have hdead' : ∀ j, (x.created k h).live j = false → x.live j = false := by
    intro j hj
    rcases eq_or_ne j k with rfl | hne
    · exact hdead
    · rwa [hlive j hne] at hj
  refine ⟨fun j hj => ?_, fun j hj => hr.channels j (hdead' j hj),
    fun j hj => hr.completed j (hdead' j hj), fun i j hi hj hij => ?_⟩
  · rcases eq_or_ne j k with rfl | hne
    · exact hcreated.regular
    · rw [hlive j hne] at hj
      exact (hr.regular j hj).disturbed (hothers j hne hj)
  · rcases eq_or_ne i k with rfl | hik
    · rw [hlive j (Ne.symm hij)] at hj
      rw [(hothers j (Ne.symm hij) hj).timelineSignal]
      refine hcreated.spares ?_ ?_
      · rw [hself]
        exact Ne.symm (hu.spared j hj).timeline
      · rw [hself]
        exact hu.pool j hj
    · rw [hlive i hik] at hi
      refine System.Spares.disturbed ?_ (hothers i hik hi)
      rcases eq_or_ne j k with rfl | hjk
      · rw [hself]
        exact hu.spared i hi
      · rw [hlive j hjk] at hj
        rw [(hothers j hjk hj).timelineSignal]
        exact hr.spares i j hi hj hij

end Create

/-! ## Runs -/

/-- **Every orderly event keeps the invariant.** -/
theorem ContextSystem.Regular.step (hr : x.Regular) {e : ContextEvent κ} (hok : x.Orderly e)
    (hs : x.step e = some x') : x'.Regular := by
  cases e with
  | create k va gpGet =>
    rw [ContextSystem.step] at hs
    split_ifs at hs with hlive
    split at hs
    · rename_i h hi
      cases hs
      have hu : x.Unused (x.initialized va gpGet).2.queue := hok
      rw [hi] at hu
      exact hr.create (Bool.eq_false_iff.mpr hlive) hi hu
    · cases hs
  | call k c gpGet =>
    rw [ContextSystem.step] at hs
    split_ifs at hs with hready
    cases hs
    obtain ⟨hlive, heffects⟩ := (Bool.and_eq_true ..).mp hready
    exact (hr.call hlive (List.isEmpty_iff.mp heffects) hok).keeps hlive hr
  | effect k =>
    rw [ContextSystem.step] at hs
    split_ifs at hs with hlive
    exact (hr.effect hlive hs).keeps hlive hr
  | fetch type =>
    obtain ⟨g, hg, rfl⟩ := Option.map_eq_some_iff.mp hs
    obtain ⟨k, hlive, -, hm⟩ := hr.fetch hg
    exact hm.keeps hlive hr
  | finish type k n =>
    obtain ⟨g, hg, rfl⟩ := Option.map_eq_some_iff.mp hs
    obtain ⟨hlive, -, hm⟩ := hr.finish hg
    exact hm.keeps hlive hr

theorem ContextSystem.New.regular (hn : x.New) : x.Regular := by
  have hdead : ∀ k, ¬ x.live k = true := fun k => by rw [hn.live]; exact Bool.false_ne_true
  refine ⟨fun k hk => absurd hk (hdead k), fun k _ type => ?_, fun k _ => ?_,
    fun j _ hj => absurd hj (hdead j)⟩
  · show Channel.mk (ofUser k (x.gpu.channel type).pending) (ofUser k (x.gpu.channel type).running) = _
    rw [hn.channels]
    rfl
  · show ofUser k x.gpu.completed = []
    rw [hn.completed]
    rfl

/-- **The invariant holds in every run** of a new context. -/
theorem ContextSystem.New.run (hn : x.New)
    (h : Relation.ReflTransGen (ContextSystem.Next ContextSystem.Orderly) x x') : x'.Regular := by
  induction h with
  | refl => exact hn.regular
  | tail _ hnext ih =>
    obtain ⟨e, hok, hs⟩ := hnext
    exact ih.step hok hs

/-- **The streams of a context are isolated.** However the calls, the effects and the commands of
the streams interleave: when an await of a stream has returned, all operations of that stream have
completed; its operations are in execution at the same time only if these and everything enqueued
between them are asynchronous launches; and each of its operations is in one place, once. -/
theorem streams_isolated (hn : x.New)
    (h : Relation.ReflTransGen (ContextSystem.Next ContextSystem.Orderly) x x')
    (hlive : x'.live k = true) :
    (∀ r, (x'.books k).effects = [] → (x'.books k).last = some (.awaitExecution, r) →
      ∀ o ∈ (x'.books k).operations, (k, o.number) ∈ x'.gpu.completed) ∧
    (∀ earlier ∈ (x'.books k).operations, ∀ later, earlier.number < later →
      (x'.gpu.view k).Begun later → (k, earlier.number) ∉ x'.gpu.completed →
        ∀ o ∈ (x'.books k).operations, earlier.number ≤ o.number → o.number ≤ later →
          o.engine = .compute ∧ o.async = true) ∧
    ∀ n, (x'.view k).places n = if ∃ o ∈ (x'.books k).operations, o.number = n then 1 else 0 := by
  have hr := (hn.run h).regular k hlive
  obtain ⟨c, hk⟩ := hr.known
  obtain ⟨log, hc⟩ := hr.conserved
  have hnumbered := hr.labelled.numbered
  refine ⟨fun r heffects hlast o ho => ?_, fun earlier hearlier later hlt hbegun hopen o ho hle
    hle' => ?_, hc.places hnumbered⟩
  · have hsettles := hk.carried
    rw [show (x'.view k).effects = [] from heffects] at hsettles
    obtain ⟨hfloor, hle⟩ := hnumbered.bounds ho
    exact mem_ofUser.mp (hk.done _ hfloor (hle.trans (hsettles.awaited r hlast)))
  · obtain ⟨hfloor, -⟩ := hnumbered.bounds hearlier
    obtain ⟨o', ho', hnumber, hengine, hasync⟩ := hr.beside.overlaps later hbegun
      earlier.number hfloor hlt (fun hmem => hopen (mem_ofUser.mp hmem)) o.number hle hle'
    exact hnumbered.unique ho' ho hnumber ▸ ⟨hengine, hasync⟩

end Steps

/-! ## A sample context

Two streams are created and set up, and each is given a launch. That of the second stream completes
and is awaited, while that of the first is still to be fetched. -/

section Sample

variable [DecidableEq κ]

/-- Several events one after another. -/
def ContextSystem.exec (x : ContextSystem κ) : List (ContextEvent κ) → Option (ContextSystem κ)
  | [] => some x
  | e :: rest => (x.step e).bind fun x' => x'.exec rest

/-- Where events lead; they are possible if `exec` says so. -/
def ContextSystem.after (x : ContextSystem κ) (events : List (ContextEvent κ)) : ContextSystem κ :=
  (x.exec events).getD x

/-- Events that meet the condition wherever they happen. -/
theorem ContextSystem.next_of_exec {ok : ContextSystem κ → ContextEvent κ → Prop}
    {x : ContextSystem κ} {events : List (ContextEvent κ)} (hok : ∀ e ∈ events, ∀ y, ok y e)
    (h : (x.exec events).isSome = true) :
    Relation.ReflTransGen (ContextSystem.Next ok) x (x.after events) := by
  obtain ⟨x', hx⟩ := Option.isSome_iff_exists.mp h
  rw [ContextSystem.after, hx, Option.getD_some]
  clear h
  induction events generalizing x with
  | nil =>
    cases hx
    exact .refl
  | cons e rest ih =>
    obtain ⟨y, hy, hrest⟩ := Option.bind_eq_some_iff.mp hx
    exact .head ⟨e, hok e List.mem_cons_self x, hy⟩
      (ih (fun e' he' => hok e' (List.mem_cons_of_mem e he')) hrest)

end Sample

/-- The signals of a pool lie in the megabyte from its start. -/
theorem signal_address_ne_of_disjoint {pool sig : NvU64} {idx : NvU32}
    (hidx : idx ∈ remainingSignals) (hfits : pool ≤ 0x2000000000)
    (hdisjoint : sig < pool ∨ pool + 0x100000 ≤ sig) :
    pool + idx.setWidth 64 * nvSignalBytes ≠ sig := by
  have hlt : idx.toNat < 65536 := by
    obtain ⟨n, hn, rfl⟩ := List.mem_map.mp hidx
    rw [List.mem_range'_1, maxSignalPoolSize] at hn
    rw [BitVec.toNat_ofNat]
    omega
  rw [nvSignalBytes]
  bv_omega

/-- A context on which nothing has been allocated, and no stream created. -/
def sampleContext : ContextSystem Bool :=
  { shared := sampleFresh, queue := fun _ => newQueue 0, gpu := { signals := fun _ => 0 } }

def firstCreated : ContextSystem Bool := sampleContext.after [.create false 0 (0, 0)]

def bothCreated : ContextSystem Bool := firstCreated.after [.create true 0 (0, 0)]

/-- What carries out the initialisation of a stream. -/
def setupEvents (k : Bool) : List (ContextEvent Bool) :=
  .effect k :: List.replicate 4 (.fetch .compute) ++
    [.effect k, .effect k, .fetch .dma, .fetch .dma, .effect k]

def bothSetUp : ContextSystem Bool := bothCreated.after (setupEvents true ++ setupEvents false)

/-- Both streams are given a launch. -/
def bothLaunched : ContextSystem Bool :=
  (bothSetUp.after [.call false (sampleLaunch false) (0, 0)]).after
    [.call true (sampleLaunch false) (0, 0)]

/-- Both are commenced. -/
def bothCommenced : ContextSystem Bool :=
  (bothLaunched.after [.call false .startExecution (0, 0)]).after
    [.call true .startExecution (0, 0)]

/-- The launch of the second stream is awaited. -/
def sampleIsolated : ContextSystem Bool :=
  bothCommenced.after
    [.effect true, .effect false, .fetch .compute, .fetch .compute, .fetch .compute,
      .finish .compute true 3, .fetch .compute, .call true .awaitExecution (0, 0), .effect true]

/-- The second stream is created while the first is still to be set up. -/
theorem next_bothCreated :
    Relation.ReflTransGen (ContextSystem.Next ContextSystem.Punctual) sampleContext bothCreated := by
  have hfirst : sampleContext.initialized 0 (0, 0) =
      (.ok (), (sampleContext.initialized 0 (0, 0)).2) := Prod.ext (by rfl) rfl
  have hsecond : firstCreated.initialized 0 (0, 0) =
      (.ok (), (firstCreated.initialized 0 (0, 0)).2) := Prod.ext (by rfl) rfl
  have hevents : ∀ (x : ContextSystem Bool) (sig : NvU64), (x.shared.events = fun _ => {}) →
      sig ≠ 0 → ∀ e type, (x.shared.events e).signal type ≠ sig := by
    intro x sig hx hsig e type
    rw [hx]
    cases type <;> exact hsig.symm
  have hunused₁ : sampleContext.Unused (sampleContext.initialized 0 (0, 0)).2.queue :=
    ⟨rfl, hevents _ _ rfl (by decide +kernel), nofun, nofun⟩
  have hpool₁ := (ContextSystem.initialized_cases hfirst hunused₁.events).1.poolReady
  have hevents₂ : ∀ e type, (firstCreated.shared.events e).signal type ≠
      (firstCreated.initialized 0 (0, 0)).2.queue.timelineSignal :=
    hevents _ _ (by rfl) (by decide +kernel)
  have hpool₂ := (ContextSystem.initialized_cases hsecond hevents₂).1.poolReady
  have hunused₂ : firstCreated.Unused (firstCreated.initialized 0 (0, 0)).2.queue := by
    refine ⟨rfl, hevents₂, fun j hj => ?_, fun j hj idx hidx => ?_⟩
    · cases j with
      | true => exact absurd hj (by decide +kernel)
      | false =>
        refine ⟨⟨fun type => by cases type <;> rfl, by decide +kernel, by decide +kernel⟩,
          by decide +kernel, fun idx hidx => ?_⟩
        refine signal_address_ne_of_disjoint ?_ (by decide +kernel) (Or.inr (by decide +kernel))
        have hfree := hpool₁.freeSignals
        exact hfree ▸ hidx
    · cases j with
      | true => exact absurd hj (by decide +kernel)
      | false =>
        refine signal_address_ne_of_disjoint ?_ (by decide +kernel) (Or.inl (by decide +kernel))
        exact hpool₂.freeSignals ▸ hidx
  exact (Relation.ReflTransGen.single ⟨.create false 0 (0, 0), ⟨hunused₁, trivial⟩, by rfl⟩).tail
    ⟨.create true 0 (0, 0), ⟨hunused₂, trivial⟩, by rfl⟩

/-- Both streams are commenced. -/
theorem next_bothCommenced : Relation.ReflTransGen
    (ContextSystem.Next ContextSystem.Punctual) sampleContext bothCommenced := by
  have hsetUp : Relation.ReflTransGen (ContextSystem.Next ContextSystem.Punctual)
      bothCreated bothSetUp := by
    refine ContextSystem.next_of_exec (fun e he y => ?_) (by rfl)
    simp only [setupEvents, List.replicate, List.cons_append, List.nil_append, List.mem_cons,
      List.not_mem_nil, or_false] at he
    rcases he with rfl | rfl | rfl | rfl | rfl | rfl | rfl | rfl | rfl | rfl | rfl | rfl | rfl |
      rfl | rfl | rfl | rfl | rfl | rfl | rfl <;> exact ⟨trivial, trivial⟩
  have hlaunch : ∀ (k : Bool) (x x' : ContextSystem Bool),
      (x.view k).host.timeline.timelineSteps = 2 →
        (Exec.call (sampleLaunch false).run ((x.view k).observed (0, 0))).1 = .ok () →
          x.step (.call k (sampleLaunch false) (0, 0)) = some x' →
            ContextSystem.Next ContextSystem.Punctual x x' := by
    intro k x x' hsteps hok hs
    have hcount : (x.view k).host.timeline.timelineSteps + 1 < 2 ^ 32 := by
      rw [hsteps]
      decide
    exact ⟨.call k (sampleLaunch false) (0, 0),
      ⟨⟨fun _ => hcount, trivial⟩, Or.inl hok, fun _ => hcount⟩, hs⟩
  have hstart : ∀ (k : Bool) (x x' : ContextSystem Bool),
      (x.view k).host.timeline.commandBufBacklog = [] → (x.view k).commenced = 2 →
        (x.view k).gpu.signals (x.view k).timelineSignal = 2 →
          (Exec.call startExecution ((x.view k).observed (0, 0))).1 = .ok () →
            x.step (.call k .startExecution (0, 0)) = some x' →
              ContextSystem.Next ContextSystem.Punctual x x' := by
    intro k x x' hback hcommenced hsignal hok hs
    refine ⟨.call k .startExecution (0, 0), ⟨⟨⟨fun hne => absurd hback hne,
      fun type commands _ => Or.inl fun n hn hle => ?_⟩, hok⟩, hok, fun _ _ _ => Or.inl ?_⟩, hs⟩
    · rw [hcommenced] at hle
      exact absurd hn (Nat.not_lt.mpr hle)
    · rw [hcommenced, hsignal]
      rfl
  have hlaunched := (Relation.ReflTransGen.single (hlaunch false bothSetUp _ (by rfl) (by rfl)
    (by rfl))).tail (hlaunch true _ bothLaunched (by rfl) (by rfl) (by rfl))
  have hcommenced := (Relation.ReflTransGen.single (hstart false bothLaunched _ (by rfl) (by rfl)
    (by rfl) (by rfl) (by rfl))).tail
      (hstart true _ bothCommenced (by rfl) (by rfl) (by rfl) (by rfl) (by rfl))
  exact ((next_bothCreated.trans hsetUp).trans hlaunched).trans hcommenced

theorem new_sampleContext : sampleContext.New := ⟨fun _ => rfl, fun _ => rfl, rfl⟩

/-- The await of the second stream returns after its launch, whatever the first one does. -/
theorem streams_isolated_sample : (sampleIsolated.books true).operations.length = 1 ∧
    ∀ o ∈ (sampleIsolated.books true).operations,
      (true, o.number) ∈ sampleIsolated.gpu.completed := by
  have hcommenced : Relation.ReflTransGen (ContextSystem.Next ContextSystem.Orderly)
      sampleContext bothCommenced :=
    Relation.ReflTransGen.mono (fun _ _ ⟨e, hok, hs⟩ => ⟨e, hok.1, hs⟩) _ _ next_bothCommenced
  have hrun : Relation.ReflTransGen (ContextSystem.Next ContextSystem.Orderly)
      bothCommenced sampleIsolated := by
    refine ContextSystem.next_of_exec (fun e he y => ?_) (by rfl)
    simp only [List.mem_cons, List.not_mem_nil, or_false] at he
    rcases he with rfl | rfl | rfl | rfl | rfl | rfl | rfl | rfl | rfl
    all_goals first
      | exact trivial
      | exact ⟨fun h => h.elim, trivial⟩
  exact ⟨by decide +kernel, (streams_isolated new_sampleContext (hcommenced.trans hrun)
    (by rfl)).1 (.ok ()) (by decide +kernel) (by rfl)⟩

end LibreCuda
