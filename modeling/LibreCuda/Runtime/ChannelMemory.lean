import LibreCuda.Queue.Announcements
import LibreCuda.Runtime.Process

/-! # The local memory of the compute channel

All streams of a context hand their commands to one compute channel, and the base of the local
memory is a register of that channel. Local memory belongs to a function, the mark up to which it
was reserved to a stream; it is given back when a function grows again, and when its module is
unloaded.

* **`ComputeChannel.step`** is one event: a launch or a commence that succeeds on one of the
  streams, the channel executing its next command, or the unloading of a module.
* **`ComputeChannel.Valid`**: however far the channel executes from here, every launch finds local
  memory that was not given back and is large enough.
* **`valid_iff_safe`**: exactly which runs it holds in. -/

namespace LibreCuda

open Exec Registers Runs QmdField

/-! ## Unloading -/

/-- What unloading a module reads of it: its functions, and its memory. -/
structure LoadedModule where
  functions : List ℕ
  moduleVaAddr : NvU64
  deriving DecidableEq

/-- The loop of `libreCuModuleUnload` over the functions. -/
def unloadFunctions : List ℕ → Driver Unit
  | [] => pure ()
  | function :: rest => do
    let h ← get
    freeLocalMem (h.functions function).shaderLocalMemoryVa
    unloadFunctions rest

/-- `libreCuModuleUnload` behind its checks: give back the memory of the module, and the local
memory of its functions. -/
def libreCuModuleUnload (m : LoadedModule) : Driver Unit := do
  onVm (gpuFree m.moduleVaAddr)
  unloadFunctions m.functions

theorem wp_unloadFunctions (functions : List ℕ) (h : Host) :
    wp (unloadFunctions functions) (fun _ h' => h.Quiet h') (fun _ h' => h.Quiet h') h := by
  induction functions generalizing h with
  | nil =>
    rw [unloadFunctions, wp_pure]
    exact Host.Quiet.refl h
  | cons function rest ih =>
    rw [unloadFunctions, wp_bind, wp_get, wp_bind]
    refine wp_mono (wp_freeLocalMem _ h) (fun _ h₁ hq => ?_) (fun _ _ hq => hq.1)
    exact wp_mono (ih h₁) (fun _ _ hq₁ => hq.1.trans hq₁) fun _ _ hq₁ => hq.1.trans hq₁

/-- Unloading a module gives memory back, whether it succeeds or fails. -/
theorem wp_libreCuModuleUnload (m : LoadedModule) (h : Host) :
    wp (libreCuModuleUnload m) (fun _ h' => h.Quiet h') (fun _ h' => h.Quiet h') h := by
  rw [libreCuModuleUnload, wp_bind, wp_onVm]
  refine wp_trivial _ (fun _ v => ?_) (fun _ v => quiet_vm h v)
  exact wp_mono (wp_unloadFunctions _ _) (fun _ _ hq => (quiet_vm h v).trans hq)
    fun _ _ hq => (quiet_vm h v).trans hq

/-! ## The channel and its streams -/

/-- The streams of a context, the modules that are loaded, and the compute channel: the base of the
local memory, and what was handed over and is not executed yet. -/
structure ComputeChannel where
  process : Process
  streams : List ℕ
  modules : List LoadedModule
  base : NvU64 := 0
  pending : List (Access NvU64 NvU32) := []
  /-- Bookkeeping: the size in the descriptor of each launch, by stream and number. -/
  sizes : ℕ → ℕ → NvU32 := fun _ _ => 0
  /-- Bookkeeping: the mark that local memory at an address was reserved for. -/
  marks : NvU64 → Option NvU64 := fun _ => none

/-- What the driver sees of the GPU at a call: the values of the signals, and the position on both
rings. -/
abbrev Seen : Type := (NvU64 → NvU64) × (NvU32 × NvU32)

/-- What happens to the channel. -/
inductive ChannelEvent
  | launch (stream function : ℕ) (grid block : Dim3) (sharedMemBytes : NvU32)
      (params : ℕ → ℕ → NvU8) (numParams : NvU64) (async : Bool) (seen : Seen)
  | start (stream : ℕ) (seen : Seen)
  | execute
  | unload (m : LoadedModule)

namespace ComputeChannel

variable (c : ComputeChannel)

/-- The function is one of a loaded module. -/
def Loaded (function : ℕ) : Prop := ∃ m ∈ c.modules, function ∈ m.functions

instance (function : ℕ) : Decidable (c.Loaded function) :=
  inferInstanceAs (Decidable (∃ m ∈ c.modules, _))

/-- A stream as a call on it finds it. -/
def enter (stream : ℕ) (seen : Seen) : Host := (c.process.view stream).observe seen.1 seen.2

/-- The accesses of the local memory that wait on a stream. -/
def waiting (stream : ℕ) : List (Access NvU64 NvU32) :=
  accesses (c.sizes stream) (computeMethods (c.process.queue stream).queued)

/-- Behind a launch on a stream. -/
def launched (stream function : ℕ) (h h' : Host) : ComputeChannel :=
  { c with
    process := c.process.put stream h'
    sizes := Function.update c.sizes stream (Function.update (c.sizes stream)
      (h.timeline.timelineSteps + 1) (shaderLocalMemoryHighSize.val h'.lastQmd))
    marks := if h.queue.currentSlmPerThread < (h.functions function).localMemReq.setWidth 64 then
        Function.update c.marks (h'.functions function).shaderLocalMemoryVa
          (some h'.queue.currentSlmPerThread)
      else c.marks }

/-- Behind a commence of a stream: what it handed over waits on the channel. -/
def started (stream : ℕ) (h h' : Host) : ComputeChannel :=
  { c with
    process := c.process.put stream h'
    pending := c.pending ++ accesses (c.sizes stream) (handedOver (h'.trace.drop h.trace.length)) }

/-- One event. Launches and commences are those that succeed, and a module is unloaded when
everything that was handed over is executed. -/
def step : ChannelEvent → Option ComputeChannel
  | .launch stream function grid block sharedMemBytes params numParams async seen =>
    if stream ∈ c.streams ∧ c.Loaded function then
      match call (launchFunction (some function) grid block sharedMemBytes params numParams async)
          (c.enter stream seen) with
      | (.ok _, h') => some (c.launched stream function (c.enter stream seen) h')
      | (.error _, _) => none
    else none
  | .start stream seen =>
    if stream ∈ c.streams then
      match call startExecution (c.enter stream seen) with
      | (.ok _, h') => some (c.started stream (c.enter stream seen) h')
      | (.error _, _) => none
    else none
  | .execute =>
    match c.pending with
    | [] => none
    | .set base :: rest => some { c with base, pending := rest }
    | .use _ :: rest => some { c with pending := rest }
  | .unload m =>
    if m ∈ c.modules ∧ c.pending = [] then
      match call (libreCuModuleUnload m) c.process.shared with
      | (.ok _, h) => some { c with
          process := { c.process with shared := h }, modules := c.modules.erase m }
      | (.error _, h) => some { c with process := { c.process with shared := h } }
    else none

/-! ## Valid local memory -/

/-- Memory at the address was not given back. -/
def Live (va : NvU64) : Prop := ∃ handle, c.process.shared.vm.vaToMemHandle va = some handle

/-- Local memory at the address was reserved for a mark of at least so much. -/
def Reserved (va : NvU64) (size : ℕ) : Prop := ∃ mark, c.marks va = some mark ∧ size ≤ mark.toNat

/-- The local memory at an address is there for a launch of this size per thread. -/
def Backs (va : NvU64) (size : NvU32) : Prop := c.Live va ∧ c.Reserved va size.toNat

/-- If the channel executes a launch next, the local memory it finds is there. -/
def ExecutesBacked : Prop :=
  ∀ size rest, c.pending = .use size :: rest → size ≠ 0 → c.Backs c.base size

/-- **Local memory is valid**: however far the channel executes, every launch finds it there. -/
def Valid : Prop :=
  ∀ n c', exec step c (List.replicate n .execute) = some c' → c'.ExecutesBacked

/-! ## The condition -/

/-- A launch is given new local memory at an address where there was none before, and its
descriptor says no more than the mark. -/
def Regular : ChannelEvent → Prop
  | .launch stream function _ _ _ _ _ _ seen =>
    ((c.enter stream seen).NeedsLocalMem function →
        c.marks (c.enter stream seen).vm.nextLocalMem = none) ∧
      ((c.enter stream seen).functions function).slmInQmd
          ((c.enter stream seen).markBehind function) ≤
        ((c.enter stream seen).markBehind function).toNat
  | _ => True

/-- **The condition on an event.** A launch that raises the mark gives back no local memory that a
launch on the channel is going to use. What a stream hands over in front of its own announcements
finds memory that is there, and the memory it announced was not given back since. -/
def Safe : ChannelEvent → Prop
  | .launch stream function _ _ _ _ _ _ seen =>
    (c.enter stream seen).NeedsLocalMem function →
      ((c.enter stream seen).functions function).shaderLocalMemoryVa ≠ 0 →
        ∀ x ∈ uses c.base c.pending, x.2 ≠ 0 →
          x.1 ≠ ((c.enter stream seen).functions function).shaderLocalMemoryVa
  | .start stream _ =>
    (∀ size ∈ front (c.waiting stream), size ≠ 0 → c.Backs (last c.base c.pending) size) ∧
      ∀ x ∈ own (c.waiting stream), x.2 ≠ 0 → c.Live x.1
  | _ => True

/-- A context in which nothing was launched yet. -/
structure Fresh : Prop where
  usable : ∀ stream ∈ c.streams, (c.process.view stream).Usable
  idle : ∀ stream ∈ c.streams, (c.process.queue stream).Idle
  backlog : ∀ stream ∈ c.streams, (c.process.queue stream).commandBufBacklog = []
  pending : c.pending = []
  marks : ∀ va, c.marks va = none

end ComputeChannel

/-! ## What an event does -/

section Events

variable {c c' : ComputeChannel} {stream function : ℕ} {grid block : Dim3} {sharedMemBytes : NvU32}
  {params : ℕ → ℕ → NvU8} {numParams : NvU64} {async : Bool} {seen : Seen} {m : LoadedModule}

theorem launched_of_step (h : c.step (.launch stream function grid block sharedMemBytes params
      numParams async seen) = some c') :
    stream ∈ c.streams ∧ ∃ h', call (launchFunction (some function) grid block sharedMemBytes params
      numParams async) (c.enter stream seen) = (.ok (), h') ∧
        c' = c.launched stream function (c.enter stream seen) h' := by
  rw [ComputeChannel.step] at h
  split at h
  · rename_i hguard
    split at h
    · rename_i h' hcall
      exact ⟨hguard.1, h', hcall, (Option.some.inj h).symm⟩
    · cases h
  · cases h

theorem started_of_step (h : c.step (.start stream seen) = some c') :
    stream ∈ c.streams ∧ ∃ h', call startExecution (c.enter stream seen) = (.ok (), h') ∧
      c' = c.started stream (c.enter stream seen) h' := by
  rw [ComputeChannel.step] at h
  split at h
  · rename_i hguard
    split at h
    · rename_i h' hcall
      exact ⟨hguard, h', hcall, (Option.some.inj h).symm⟩
    · cases h
  · cases h

/-- Executing a command sets the base or uses it. -/
theorem executed_of_step (h : c.step .execute = some c') :
    (∃ base rest, c.pending = .set base :: rest ∧ c' = { c with base, pending := rest }) ∨
      ∃ size rest, c.pending = .use size :: rest ∧ c' = { c with pending := rest } := by
  rw [ComputeChannel.step] at h
  split at h
  · cases h
  · rename_i base rest hpending
    exact Or.inl ⟨base, rest, hpending, (Option.some.inj h).symm⟩
  · rename_i size rest hpending
    exact Or.inr ⟨size, rest, hpending, (Option.some.inj h).symm⟩

/-- Unloading a module leaves the streams alone. -/
theorem unloaded_of_step (h : c.step (.unload m) = some c') : c.pending = [] ∧
    ∃ h' modules, c.process.shared.Quiet h' ∧
      c' = { c with process := { c.process with shared := h' }, modules := modules } := by
  rw [ComputeChannel.step] at h
  split at h
  · rename_i hguard
    refine ⟨hguard.2, ?_⟩
    split at h
    · rename_i h' hcall
      have hquiet := wp_libreCuModuleUnload m c.process.shared
      rw [wp_of_call hcall] at hquiet
      exact ⟨h', _, hquiet, (Option.some.inj h).symm⟩
    · rename_i h' hcall
      have hquiet := wp_libreCuModuleUnload m c.process.shared
      rw [wp_of_call_error hcall] at hquiet
      exact ⟨h', _, hquiet, (Option.some.inj h).symm⟩
  · cases h

end Events

/-! ## Executing -/

/-- Valid local memory, one command at a time. -/
theorem valid_iff_execute {c : ComputeChannel} : c.Valid ↔
    c.ExecutesBacked ∧ ∀ c', c.step .execute = some c' → c'.Valid := by
  constructor
  · intro hvalid
    refine ⟨hvalid 0 c rfl, fun c' hstep n c'' hexec => hvalid (n + 1) c'' ?_⟩
    rw [List.replicate_succ, exec_cons hstep]
    exact hexec
  · rintro ⟨hhead, hrest⟩ n c' hexec
    cases n with
    | zero =>
      obtain rfl := Option.some.inj hexec
      exact hhead
    | succ n =>
      obtain ⟨c₁, hstep, hexec₁⟩ := Option.bind_eq_some_iff.mp hexec
      exact hrest c₁ hstep n c' hexec₁

/-- **Valid local memory**: every launch that waits on the channel has it at the base it finds. -/
theorem valid_iff_uses {c : ComputeChannel} : c.Valid ↔
    ∀ x ∈ uses c.base c.pending, x.2 ≠ 0 → c.Backs x.1 x.2 := by
  suffices h : ∀ pending base, ({ c with base, pending } : ComputeChannel).Valid ↔
      ∀ x ∈ uses base pending, x.2 ≠ 0 → c.Backs x.1 x.2 from h c.pending c.base
  intro pending
  induction pending with
  | nil =>
    intro base
    rw [valid_iff_execute]
    refine iff_of_true ⟨fun size rest hpending => ?_, fun c' hstep => ?_⟩ fun x hx => ?_
    · cases hpending
    · cases hstep
    · cases hx
  | cons access rest ih =>
    intro base
    rw [valid_iff_execute]
    cases access with
    | set value =>
      rw [uses_set, ← ih value]
      refine ⟨fun h => h.2 _ rfl, fun h => ⟨fun size rest hpending => ?_, fun c' hstep => ?_⟩⟩
      · cases hpending
      · obtain rfl := Option.some.inj hstep
        exact h
    | use size =>
      rw [uses_use, List.forall_mem_cons, ← ih base]
      constructor
      · rintro ⟨hhead, hrest⟩
        exact ⟨fun hne => hhead size rest rfl hne, hrest _ rfl⟩
      · rintro ⟨hhead, hrest⟩
        refine ⟨fun size' rest' hpending hne => ?_, fun c' hstep => ?_⟩
        · cases hpending
          exact hhead hne
        · obtain rfl := Option.some.inj hstep
          exact hrest

/-! ## What holds of the streams -/

/-- These methods read the sizes of launches up to a number only. -/
def ReadsUpTo (n : ℕ) (ms : List MethodCall) : Prop :=
  ∀ sizes sizes' : ℕ → NvU32, (∀ k ≤ n, sizes k = sizes' k) → accesses sizes ms = accesses sizes' ms

/-- **A stream keeps its sizes**: the local memory it announced was reserved for the launches behind
the announcement, and the last of it for the mark. -/
structure ComputeChannel.StreamSized (c : ComputeChannel) (stream : ℕ) : Prop where
  usable : (c.process.view stream).Usable
  settled : (c.process.queue stream).Settled
  reads : ReadsUpTo (c.process.queue stream).timelineSteps
    (computeMethods (c.process.queue stream).queued)
  own : ∀ x ∈ own (c.waiting stream), c.Reserved x.1 x.2.toNat
  announced : ∀ va, lastSet (c.waiting stream) = some va →
    c.Reserved va (c.process.queue stream).currentSlmPerThread.toNat

/-- It is so on all streams. -/
def ComputeChannel.Sized (c : ComputeChannel) : Prop := ∀ stream ∈ c.streams, c.StreamSized stream

theorem Host.Usable.of_same {h h' : Host} (hu : h.Usable) (hqueue : h'.queue = h.queue)
    (hflags : h'.ctx.flags = h.ctx.flags) (hevents : h'.events = h.events) : h'.Usable := by
  have htimeline : h'.timeline = h.timeline := by rw [Host.timeline, hqueue]
  refine ⟨?_, ?_, ?_, ?_⟩
  · rw [htimeline]
    exact hu.timelineSignal
  · rw [hflags]
    exact hu.waits
  · rw [hevents, htimeline]
    exact hu.events
  · rw [hqueue, htimeline]
    exact hu.freeSignals

section Streams

variable {c c' : ComputeChannel} {stream : ℕ}

/-- Nothing waits on a stream without commands. -/
theorem waiting_of_queued (h : (c.process.queue stream).queued = []) : c.waiting stream = [] := by
  rw [ComputeChannel.waiting, h]
  rfl

/-- A stream without commands announced nothing. -/
theorem streamSized_of_queued (husable : (c.process.view stream).Usable)
    (hsettled : (c.process.queue stream).Settled) (hqueued : (c.process.queue stream).queued = []) :
    c.StreamSized stream := by
  refine ⟨husable, hsettled, fun _ _ _ => ?_, fun x hx => ?_, fun va hva => ?_⟩
  · rw [hqueued]
    rfl
  · rw [waiting_of_queued hqueued] at hx
    cases hx
  · rw [waiting_of_queued hqueued] at hva
    cases hva

/-- What happens elsewhere leaves a stream as it is. -/
theorem ComputeChannel.StreamSized.of_same (hs : c.StreamSized stream)
    (hqueue : c'.process.queue stream = c.process.queue stream)
    (hsizes : c'.sizes stream = c.sizes stream)
    (hflags : c'.process.shared.ctx.flags = c.process.shared.ctx.flags)
    (hevents : c'.process.shared.events = c.process.shared.events)
    (hmarks : ∀ va n, c.Reserved va n → c'.Reserved va n) : c'.StreamSized stream := by
  have hwaiting : c'.waiting stream = c.waiting stream := by
    rw [ComputeChannel.waiting, hqueue, hsizes]
    rfl
  refine ⟨hs.usable.of_same hqueue hflags hevents, ?_, ?_, fun x hx => ?_, fun va hva => ?_⟩
  · rw [hqueue]
    exact hs.settled
  · rw [hqueue]
    exact hs.reads
  · rw [hwaiting] at hx
    exact hmarks _ _ (hs.own x hx)
  · rw [hwaiting] at hva
    rw [hqueue]
    exact hmarks _ _ (hs.announced va hva)

theorem ComputeChannel.Fresh.sized (hf : c.Fresh) : c.Sized := by
  intro stream hstream
  have hidle := hf.idle stream hstream
  refine streamSized_of_queued (hf.usable stream hstream) hidle.settled ?_
  rw [CommandTimeline.queued, hf.backlog stream hstream, hidle, hidle]
  rfl

end Streams

/-! ## Launching -/

section Launching

variable {c : ComputeChannel} {stream function : ℕ} {grid block : Dim3} {sharedMemBytes : NvU32}
  {params : ℕ → ℕ → NvU8} {numParams : NvU64} {async : Bool} {seen : Seen} {h' : Host}

/-- Reserving local memory where there was none before keeps what was reserved. -/
theorem reserved_launched {h : Host} (hnew : h.NeedsLocalMem function →
      c.marks (h'.functions function).shaderLocalMemoryVa = none) {va : NvU64} {n : ℕ}
    (hva : c.Reserved va n) : (c.launched stream function h h').Reserved va n := by
  obtain ⟨mark, hmark, hle⟩ := hva
  refine ⟨mark, ?_, hle⟩
  show (if h.queue.currentSlmPerThread < (h.functions function).localMemReq.setWidth 64 then
    Function.update c.marks _ _ else c.marks) va = some mark
  split_ifs with hneeds
  · rw [Function.update_of_ne, hmark]
    rintro rfl
    rw [hnew hneeds] at hmark
    cases hmark
  · exact hmark

/-- What waits behind a launch: its announcement, and a use of the size in its descriptor. -/
theorem waiting_launched (hs : c.StreamSized stream)
    (hlaunch : call (launchFunction (some function) grid block sharedMemBytes params numParams
      async) (c.enter stream seen) = (.ok (), h')) :
    (c.launched stream function (c.enter stream seen) h').waiting stream =
      (c.waiting stream ++ (c.enter stream seen).announced function) ++
        [.use (shaderLocalMemoryHighSize.val h'.lastQmd)] := by
  have husable : (c.enter stream seen).Usable := hs.usable.observe _ _
  obtain ⟨-, -, haccesses⟩ := announced_of_launch husable hs.settled hlaunch
  have hqueue : (c.launched stream function (c.enter stream seen) h').process.queue stream =
      h'.queue := put_queue_self ..
  have hsizes : (c.launched stream function (c.enter stream seen) h').sizes stream =
      Function.update (c.sizes stream) ((c.process.queue stream).timelineSteps + 1)
        (shaderLocalMemoryHighSize.val h'.lastQmd) := Function.update_self ..
  rw [ComputeChannel.waiting, hqueue, hsizes, haccesses]
  -- the new size is the one of the new launch only
  have hold : accesses (Function.update (c.sizes stream)
      ((c.process.queue stream).timelineSteps + 1) (shaderLocalMemoryHighSize.val h'.lastQmd))
        (computeMethods (c.enter stream seen).timeline.queued) = c.waiting stream :=
    hs.reads _ _ fun k hk => Function.update_of_ne (by omega) ..
  rw [hold, List.append_assoc]
  refine congrArg (fun size => c.waiting stream ++ (_ ++ [Access.use size])) ?_
  exact Function.update_self ..

/-- An announcement at the end uses nothing. -/
theorem own_announced (accesses : List (Access NvU64 NvU32)) (h : Host) :
    own (accesses ++ h.announced function) = own accesses := by
  unfold Host.announced
  split_ifs
  · exact own_concat_set _
  · rw [List.append_nil]

/-- A launch keeps what was reserved. -/
theorem reserved_of_launch (hs : c.StreamSized stream)
    (hregular : c.Regular (.launch stream function grid block sharedMemBytes params numParams async
      seen))
    (hlaunch : call (launchFunction (some function) grid block sharedMemBytes params numParams
      async) (c.enter stream seen) = (.ok (), h')) {va : NvU64} {n : ℕ} (hva : c.Reserved va n) :
    (c.launched stream function (c.enter stream seen) h').Reserved va n := by
  have husable : (c.enter stream seen).Usable := hs.usable.observe _ _
  have hgrown := grownTo_of_launch husable.timelineSignal hlaunch
  refine reserved_launched (fun hneeds => ?_) hva
  rw [hgrown.va hneeds]
  exact hregular.1 hneeds

/-- The local memory announced last is reserved for the mark the launch leaves. -/
theorem reserved_of_announced (hs : c.StreamSized stream)
    (hregular : c.Regular (.launch stream function grid block sharedMemBytes params numParams async
      seen))
    (hlaunch : call (launchFunction (some function) grid block sharedMemBytes params numParams
      async) (c.enter stream seen) = (.ok (), h')) {va : NvU64}
    (hva : lastSet (c.waiting stream ++ (c.enter stream seen).announced function) = some va) :
    (c.launched stream function (c.enter stream seen) h').Reserved va
      h'.queue.currentSlmPerThread.toNat := by
  have husable : (c.enter stream seen).Usable := hs.usable.observe _ _
  have hgrown := grownTo_of_launch husable.timelineSignal hlaunch
  unfold Host.announced at hva
  split_ifs at hva with hneeds
  · rw [lastSet_concat_set, ← hgrown.va hneeds] at hva
    obtain rfl := Option.some.inj hva
    refine ⟨h'.queue.currentSlmPerThread, ?_, Nat.le_refl _⟩
    show (if _ then Function.update c.marks _ _ else c.marks) _ = _
    rw [if_pos hneeds, Function.update_self]
  · rw [List.append_nil] at hva
    have hmark : h'.queue.currentSlmPerThread = (c.process.queue stream).currentSlmPerThread :=
      hgrown.mark.trans (if_neg hneeds)
    rw [hmark]
    exact reserved_of_launch hs hregular hlaunch (hs.announced va hva)

/-- A launch keeps the sizes of its stream. -/
theorem streamSized_launched (hs : c.StreamSized stream)
    (hregular : c.Regular (.launch stream function grid block sharedMemBytes params numParams async
      seen))
    (hlaunch : call (launchFunction (some function) grid block sharedMemBytes params numParams
      async) (c.enter stream seen) = (.ok (), h')) :
    (c.launched stream function (c.enter stream seen) h').StreamSized stream := by
  have husable : (c.enter stream seen).Usable := hs.usable.observe _ _
  have hgrown := grownTo_of_launch husable.timelineSignal hlaunch
  obtain ⟨hsettled, hsteps, haccesses⟩ := announced_of_launch husable hs.settled hlaunch
  have hqueue : (c.launched stream function (c.enter stream seen) h').process.queue stream =
      h'.queue := put_queue_self ..
  have hsize : (shaderLocalMemoryHighSize.val h'.lastQmd).toNat ≤
      h'.queue.currentSlmPerThread.toNat := by
    rw [toNat_slmInQmd hlaunch, hgrown.mark]
    exact hregular.2
  refine ⟨?_, ?_, ?_, fun x hx => ?_, fun va hva => ?_⟩
  · rw [ComputeChannel.launched, view_put_self]
    exact husable.call (c := .launchFunction (some function) grid block sharedMemBytes params
      numParams async) hlaunch
  · rw [hqueue]
    exact hsettled
  · rw [hqueue]
    intro sizes sizes' hsame
    have hold := hs.reads sizes sizes' fun k hk => hsame k <| by
      rw [hsteps]
      exact Nat.le_succ_of_le hk
    rw [haccesses, haccesses, hsame _ (Nat.le_of_eq hsteps.symm)]
    exact congrArg (· ++ _) hold
  · rw [waiting_launched hs hlaunch] at hx
    rcases mem_own_concat_use hx with hold | ⟨hva, hnew⟩
    · rw [own_announced] at hold
      exact reserved_of_launch hs hregular hlaunch (hs.own x hold)
    · obtain ⟨mark, hmark, hle⟩ := reserved_of_announced hs hregular hlaunch hva
      exact ⟨mark, hmark, by rw [hnew]; exact hsize.trans hle⟩
  · rw [waiting_launched hs hlaunch, lastSet_concat_use] at hva
    rw [hqueue]
    exact reserved_of_announced hs hregular hlaunch hva

/-- A launch leaves the other streams as they are. -/
theorem sized_launched (hs : c.Sized) (hstream : stream ∈ c.streams)
    (hregular : c.Regular (.launch stream function grid block sharedMemBytes params numParams async
      seen))
    (hlaunch : call (launchFunction (some function) grid block sharedMemBytes params numParams
      async) (c.enter stream seen) = (.ok (), h')) :
    (c.launched stream function (c.enter stream seen) h').Sized := by
  intro other hother
  by_cases hsame : other = stream
  · rw [hsame]
    exact streamSized_launched (hs stream hstream) hregular hlaunch
  · have husable : (c.enter stream seen).Usable := (hs stream hstream).usable.observe _ _
    have hdone := wp_launchFunction husable.timelineSignal (some function) grid block sharedMemBytes
      params numParams async
    rw [wp_of_call hlaunch] at hdone
    obtain ⟨_, -, hlaunched⟩ := hdone
    have hflags : h'.ctx.flags = (c.enter stream seen).ctx.flags := by rw [hlaunched.ctx]
    refine (hs other hother).of_same (put_queue_of_ne hsame ..) (Function.update_of_ne hsame ..)
      hflags hlaunched.events fun va n => ?_
    exact reserved_of_launch (hs stream hstream) hregular hlaunch

/-- A launch gives back the local memory its function had, and no other. -/
theorem live_launched {h : Host} (hentries : h.vm = c.process.shared.vm)
    (hgrown : h.GrownTo function h') {va : NvU64}
    (hne : h.NeedsLocalMem function → (h.functions function).shaderLocalMemoryVa ≠ 0 →
      va ≠ (h.functions function).shaderLocalMemoryVa) (hlive : c.Live va) :
    (c.launched stream function h h').Live va := by
  obtain ⟨handle, hentry⟩ := hlive
  rw [← hentries] at hentry
  by_cases hneeds : h.NeedsLocalMem function
  · obtain ⟨new, hnew⟩ := hgrown.entries hneeds
    show ∃ handle, h'.vm.vaToMemHandle va = some handle
    rw [hnew]
    by_cases hva : va = h.vm.nextLocalMem
    · rw [hva, Function.update_self]
      exact ⟨new, rfl⟩
    · rw [Function.update_of_ne hva, Vm.released_entry_of_ne _ (hne hneeds)]
      exact ⟨handle, hentry⟩
  · refine ⟨handle, ?_⟩
    show h'.vm.vaToMemHandle va = _
    rw [hgrown.kept hneeds]
    exact hentry

theorem not_live_launched {h : Host} (hgrown : h.GrownTo function h')
    (hneeds : h.NeedsLocalMem function) (hzero : (h.functions function).shaderLocalMemoryVa ≠ 0)
    (hne : (h.functions function).shaderLocalMemoryVa ≠ h.vm.nextLocalMem) :
    ¬ (c.launched stream function h h').Live (h.functions function).shaderLocalMemoryVa := by
  rintro ⟨handle, hentry⟩
  obtain ⟨new, hnew⟩ := hgrown.entries hneeds
  have hfreed : h'.vm.vaToMemHandle (h.functions function).shaderLocalMemoryVa = none := by
    rw [hnew, Function.update_of_ne hne, Vm.released_entry _ hzero]
  cases hfreed.symm.trans hentry

/-- **A launch keeps local memory valid, if and only if** it gives none back that is going to be
used. -/
theorem valid_launched_iff (hs : c.StreamSized stream) (hvalid : c.Valid)
    (hregular : c.Regular (.launch stream function grid block sharedMemBytes params numParams async
      seen))
    (hlaunch : call (launchFunction (some function) grid block sharedMemBytes params numParams
      async) (c.enter stream seen) = (.ok (), h')) :
    (c.launched stream function (c.enter stream seen) h').Valid ↔
      c.Safe (.launch stream function grid block sharedMemBytes params numParams async seen) := by
  have husable : (c.enter stream seen).Usable := hs.usable.observe _ _
  have hgrown := grownTo_of_launch husable.timelineSignal hlaunch
  rw [valid_iff_uses] at hvalid ⊢
  constructor
  · intro hvalid' hneeds hzero x hx hsize heq
    obtain ⟨-, mark, hmark, -⟩ := hvalid x hx hsize
    have hnext : ((c.enter stream seen).functions function).shaderLocalMemoryVa ≠
        (c.enter stream seen).vm.nextLocalMem := by
      intro hnext
      rw [heq, hnext, hregular.1 hneeds] at hmark
      cases hmark
    have hlive := (hvalid' x hx hsize).1
    rw [heq] at hlive
    exact not_live_launched hgrown hneeds hzero hnext hlive
  · intro hsafe x hx hsize
    obtain ⟨hlive, hreserved⟩ := hvalid x hx hsize
    have hkept : (c.launched stream function (c.enter stream seen) h').Live x.1 :=
      live_launched (h := c.enter stream seen) rfl hgrown
        (fun hneeds hzero => hsafe hneeds hzero x hx hsize) hlive
    exact ⟨hkept, reserved_of_launch hs hregular hlaunch hreserved⟩

end Launching

/-! ## Commencing -/

section Commencing

variable {c : ComputeChannel} {stream : ℕ} {seen : Seen} {h' : Host}

/-- What is behind a commence: the accesses that waited on the stream wait on the channel. -/
theorem started_of_call (hs : c.StreamSized stream)
    (hstart : call startExecution (c.enter stream seen) = (.ok (), h')) :
    (c.started stream (c.enter stream seen) h').pending = c.pending ++ c.waiting stream ∧
      (c.started stream (c.enter stream seen) h').process.shared.vm = c.process.shared.vm := by
  have husable : (c.enter stream seen).Usable := hs.usable.observe _ _
  have hlocal : (c.enter stream seen).SameLocalMem h' :=
    (keeps_startExecution (r := Host.SameLocalMem)).of_call hstart
  refine ⟨?_, hlocal.vm⟩
  rw [ComputeChannel.started, accesses_of_commence husable hs.settled hstart]
  rfl

theorem sized_started (hs : c.Sized) (hstream : stream ∈ c.streams)
    (hstart : call startExecution (c.enter stream seen) = (.ok (), h')) :
    (c.started stream (c.enter stream seen) h').Sized := by
  have husable : (c.enter stream seen).Usable := (hs stream hstream).usable.observe _ _
  intro other hother
  by_cases hsame : other = stream
  · obtain ⟨hidle, hqueued⟩ := queued_of_commence husable (hs stream hstream).settled hstart
    rw [hsame]
    refine streamSized_of_queued ?_ ?_ ?_
    · rw [ComputeChannel.started, view_put_self]
      exact husable.call (c := .startExecution) hstart
    · rw [ComputeChannel.started, put_queue_self]
      exact hidle.settled
    · rw [ComputeChannel.started, put_queue_self]
      exact hqueued
  · obtain ⟨fx, hadds⟩ := adds_of_commence husable hstart
    exact (hs other hother).of_same (put_queue_of_ne hsame ..) rfl hadds.flags hadds.events
      fun _ _ => id

/-- **A commence keeps local memory valid, if and only if** what it hands over is there: in front of
the announcements of the stream, at the base that is set last on the channel. -/
theorem valid_started_iff (hs : c.StreamSized stream) (hvalid : c.Valid)
    (hstart : call startExecution (c.enter stream seen) = (.ok (), h')) :
    (c.started stream (c.enter stream seen) h').Valid ↔ c.Safe (.start stream seen) := by
  obtain ⟨hpending, hvm⟩ := started_of_call hs hstart
  have hbacks : ∀ va size, (c.started stream (c.enter stream seen) h').Backs va size ↔
      c.Backs va size := by
    intro va size
    unfold ComputeChannel.Backs ComputeChannel.Live
    rw [hvm]
    rfl
  rw [valid_iff_uses] at hvalid ⊢
  rw [hpending, uses_append, uses_eq _ (c.waiting stream)]
  simp only [hbacks, List.forall_mem_append, List.forall_mem_map]
  constructor
  · rintro ⟨-, hfront, hown⟩
    exact ⟨hfront, fun x hx hsize => (hown x hx hsize).1⟩
  · rintro ⟨hfront, hown⟩
    exact ⟨hvalid, hfront, fun x hx hsize => ⟨hown x hx hsize, hs.own x hx⟩⟩

end Commencing

/-! ## Runs -/

section Run

variable {c c' : ComputeChannel} {e : ChannelEvent}

/-- Every event keeps the sizes of the streams. -/
theorem sized_step (hs : c.Sized) (hregular : c.Regular e) (hstep : c.step e = some c') :
    c'.Sized := by
  cases e with
  | launch stream function grid block sharedMemBytes params numParams async seen =>
    obtain ⟨hstream, h', hlaunch, rfl⟩ := launched_of_step hstep
    exact sized_launched hs hstream hregular hlaunch
  | start stream seen =>
    obtain ⟨hstream, h', hstart, rfl⟩ := started_of_step hstep
    exact sized_started hs hstream hstart
  | execute =>
    rcases executed_of_step hstep with ⟨_, _, -, rfl⟩ | ⟨_, _, -, rfl⟩
    · exact fun stream hstream => (hs stream hstream).of_same rfl rfl rfl rfl fun _ _ => id
    · exact fun stream hstream => (hs stream hstream).of_same rfl rfl rfl rfl fun _ _ => id
  | unload m =>
    obtain ⟨-, h', modules, hquiet, rfl⟩ := unloaded_of_step hstep
    intro stream hstream
    have hflags : h'.ctx.flags = c.process.shared.ctx.flags := by rw [hquiet.ctx]
    exact (hs stream hstream).of_same rfl rfl hflags hquiet.events fun _ _ => id

/-- **An event keeps local memory valid, if and only if** it meets the condition. -/
theorem valid_step_iff (hs : c.Sized) (hvalid : c.Valid) (hregular : c.Regular e)
    (hstep : c.step e = some c') : c'.Valid ↔ c.Safe e := by
  cases e with
  | launch stream function grid block sharedMemBytes params numParams async seen =>
    obtain ⟨hstream, h', hlaunch, rfl⟩ := launched_of_step hstep
    exact valid_launched_iff (hs stream hstream) hvalid hregular hlaunch
  | start stream seen =>
    obtain ⟨hstream, h', hstart, rfl⟩ := started_of_step hstep
    exact valid_started_iff (hs stream hstream) hvalid hstart
  | execute => exact iff_of_true ((valid_iff_execute.mp hvalid).2 c' hstep) trivial
  | unload m =>
    obtain ⟨hpending, h', modules, -, rfl⟩ := unloaded_of_step hstep
    refine iff_of_true (valid_iff_uses.mpr fun x hx => ?_) trivial
    rw [hpending] at hx
    cases hx

/-- **Local memory stays valid, if and only if** every event meets the condition: in every run of
launches, commences, executed commands and unloaded modules from a context in which nothing was
launched yet, as long as new local memory is at new addresses and no constant bank makes a size in a
descriptor larger than the mark. -/
theorem valid_iff_safe {events : List ChannelEvent} (hfresh : c.Fresh)
    (hregular : Meets ComputeChannel.step ComputeChannel.Regular c events) :
    Always ComputeChannel.step ComputeChannel.Valid c events ↔
      Meets ComputeChannel.step ComputeChannel.Safe c events := by
  have hvalid : c.Valid := by
    rw [valid_iff_uses, hfresh.pending]
    exact fun x hx => absurd hx List.not_mem_nil
  exact always_iff_meets_of_meets (p := ComputeChannel.Sized)
    (fun _ _ _ hs hregular hstep => sized_step hs hregular hstep)
    (fun _ _ _ hs hvalid hregular hstep => valid_step_iff hs hvalid hregular hstep)
    hfresh.sized hvalid hregular

end Run

/-! ## A sample channel -/

/-- The sample stream, in front of a first launch: memory for two modules was taken, and the
functions need local memory. -/
def sampleModules : Host :=
  { sampleStream with
    vm := (call (do
      let _ ← gpuAlloc 0x1000 false true
      let _ ← gpuAlloc 0x1000 false true) sampleStream.vm).2
    functions := fun _ => { sampleFunction with localMemReq := 64 } }

/-- One stream, and two modules of one function each. -/
def sampleChannel : ComputeChannel where
  process := ⟨sampleModules, fun _ => sampleStream.queue⟩
  streams := [0]
  modules := [⟨[0], 0x1002200000⟩, ⟨[1], 0x1002201000⟩]

theorem fresh_sampleChannel : sampleChannel.Fresh := by
  have hready := initialized_sampleStream.ready
  exact ⟨fun _ _ => initialized_sampleStream.usable.of_same rfl rfl rfl, fun _ _ => hready.idle,
    fun _ _ => hready.backlog, rfl, fun _ => rfl⟩

/-- Launch a function on the stream, when every signal is two. -/
def launchOf (function : ℕ) : ChannelEvent :=
  .launch 0 function ⟨1, 1, 1⟩ ⟨1, 1, 1⟩ 0 (fun _ _ => 0) 0 true (fun _ => 2, (0, 0))

/-- Hand everything over. -/
def startNow : ChannelEvent := .start 0 (fun _ => 2, (0, 0))

/-- A launch that is handed over and executed meets the condition. -/
theorem valid_iff_safe_sample :
    Always ComputeChannel.step ComputeChannel.Valid sampleChannel
        [launchOf 0, startNow, .execute, .execute] ↔
      Meets ComputeChannel.step ComputeChannel.Safe sampleChannel
        [launchOf 0, startNow, .execute, .execute] := by
  have hlaunch : sampleChannel.Regular (launchOf 0) := ⟨fun _ => rfl, by decide +kernel⟩
  exact valid_iff_safe fresh_sampleChannel fun _ _ => ⟨hlaunch, fun _ _ => ⟨trivial, fun _ _ =>
    ⟨trivial, fun _ _ => ⟨trivial, trivial⟩⟩⟩⟩

/-- Launch a function of the first module, unload the module when all of it is executed, and launch
a function of the second one: it needs no more local memory than the stream has a mark for. -/
def reusingRun : List ChannelEvent :=
  [launchOf 0, startNow, .execute, .execute, .unload ⟨[0], 0x1002200000⟩, launchOf 1, startNow]

/-- **The second launch uses local memory that was given back** with the first module. -/
theorem unloaded_memory_used : sampleChannel.Fresh ∧
    ∃ c, exec ComputeChannel.step sampleChannel reusingRun = some c ∧ ¬ c.ExecutesBacked := by
  have hrun : (exec ComputeChannel.step sampleChannel reusingRun).map (fun c =>
      (c.base, c.pending, c.process.shared.vm.vaToMemHandle 0x1002400000)) =
        some (0x1002400000, [.use 64], none) := by decide +kernel
  obtain ⟨c, hexec, hfields⟩ := Option.map_eq_some_iff.mp hrun
  simp only [Prod.mk.injEq] at hfields
  obtain ⟨hbase, hpending, hentry⟩ := hfields
  refine ⟨fresh_sampleChannel, c, hexec, fun hbacked => ?_⟩
  obtain ⟨⟨handle, hlive⟩, -⟩ := hbacked 64 [] hpending (by decide)
  rw [hbase, hentry] at hlive
  cases hlive

end LibreCuda
