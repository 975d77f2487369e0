import LibreCuda.Foundation.Rings
import LibreCuda.Foundation.Runs
import LibreCuda.Queue.Session
import LibreCuda.Runtime.Process

/-! # Submissions to a channel

Any number of queues of one context call `submitToFifo` on one channel, and the GPU takes the
entries of its ring. A run is a list of such calls, each with a command buffer of its own, and of
fetches: the GPU reads the entry `GPGet` points at, as long as that is not `GPPut`, and moves on.

* **`FifoSystem.step`** is one event.
* **`Submitted`** says what a successful call does to the ring and to the page of its queue, and
  **`Fetched`** what a fetch does. -/

namespace LibreCuda

open Exec Rings

/-- Bookkeeping: one submission. Its words lie in the page of a stream, and an entry of the ring
describes them. -/
structure Submission extends Block where
  stream : ℕ
  entry : NvU64
  deriving DecidableEq, Repr

/-- The streams of a context and one of its channels. -/
structure FifoSystem where
  process : Process
  /-- Bookkeeping: everything submitted to the channel. -/
  submitted : List Submission := []
  /-- Bookkeeping: the entries the GPU read, in order. -/
  fetched : List NvU64 := []
  /-- Bookkeeping: how often the writing to a stream's page returned to its start. -/
  lap : ℕ → ℕ := fun _ => 0

/-- A call of `submitToFifo` on a stream whose command buffer has these contents, or a fetch. -/
inductive FifoEvent
  | submit (stream : ℕ) (buffer : List MethodCall)
  | fetch

variable (type : QueueType)

/-- The ring of the channel. -/
def FifoSystem.fifo (s : FifoSystem) : GPFifo := s.process.shared.ctx.gpfifo type

/-- The page of a stream for the channel. -/
def FifoSystem.page (s : FifoSystem) (stream : ℕ) : CommandQueuePage :=
  (s.process.queue stream).page type

/-- The entries that were submitted and not fetched. -/
def FifoSystem.unfetched (s : FifoSystem) : List Submission := s.submitted.drop s.fetched.length

/-- A stream, its command buffer for the channel filled with these methods. -/
def FifoSystem.filled (s : FifoSystem) (stream : ℕ) (buffer : List MethodCall) : Host :=
  let h := s.process.view stream
  { h with queue := { h.queue with
      toCommandTimeline := h.queue.toCommandTimeline.setCommandBuffer buffer type } }

/-- `n` words fit in the page of a stream behind its write index. -/
def FifoSystem.fits (s : FifoSystem) (stream n : ℕ) : Bool :=
  (s.process.view stream).fitsPage type n

/-- What is noted of a submission of `n` words that led from one state to another. -/
def FifoSystem.note (s : FifoSystem) (p : Process) (stream n : ℕ) : FifoSystem where
  process := p
  submitted := s.submitted ++ [{
    stream
    start := ((p.queue stream).page type).commandWriteIdx - n
    length := n
    lap := if s.fits type stream n then s.lap stream else s.lap stream + 1
    entry := (p.shared.ctx.gpfifo type).ring
      ((s.fifo type).putValue % (s.fifo type).entriesCount) }]
  fetched := s.fetched
  lap := if s.fits type stream n then s.lap
    else Function.update s.lap stream (s.lap stream + 1)

/-- Replace the ring of the channel. -/
def FifoSystem.setFifo (s : FifoSystem) (fifo : GPFifo) : FifoSystem :=
  { s with process := { s.process with shared := { s.process.shared with
      ctx := s.process.shared.ctx.setGpfifo fifo type } } }

/-- One event. A call that fails is not possible, and neither is a fetch from an empty ring. -/
def FifoSystem.step (s : FifoSystem) : FifoEvent → Option FifoSystem
  | .submit stream buffer =>
    let h := s.filled type stream buffer
    match Exec.call (onStream stream (submitToFifo type)) (s.process.put stream h) with
    | (.ok _, p) =>
      if buffer = [] then some { s with process := p }
      else some (s.note type p stream (commandWords buffer).length)
    | (.error _, _) => none
  | .fetch =>
    let fifo := s.fifo type
    if fifo.gpGet = fifo.gpPut then none
    else some { s.setFifo type { fifo with gpGet := (fifo.gpGet + 1) % fifo.entriesCount } with
      fetched := s.fetched ++ [fifo.ring fifo.gpGet] }

/-- A channel nothing was submitted to, and pages nothing was written to. -/
structure FifoSystem.Fresh (s : FifoSystem) : Prop where
  entriesCount : (s.fifo type).entriesCount = 0x10000
  putValue : (s.fifo type).putValue = 0
  gpGet : (s.fifo type).gpGet = 0
  gpPut : (s.fifo type).gpPut = 0
  commandWriteIdx : ∀ stream, (s.page type stream).commandWriteIdx = 0
  submitted : s.submitted = []
  fetched : s.fetched = []

/-! ## What an event does -/

section Steps

variable {type} {s s' : FifoSystem}

/-- A call with an empty buffer leaves everything as it was. -/
structure Untouched (type : QueueType) (s s' : FifoSystem) : Prop where
  fifo : s'.fifo type = s.fifo type
  page : s'.page type = s.page type
  submitted : s'.submitted = s.submitted
  fetched : s'.fetched = s.fetched
  lap : s'.lap = s.lap

/-- Where `n` words go. -/
def FifoSystem.start (type : QueueType) (s : FifoSystem) (stream n : ℕ) : ℕ :=
  if s.fits type stream n then (s.page type stream).commandWriteIdx else 0

/-- The lap they are written in. -/
def FifoSystem.writeLap (type : QueueType) (s : FifoSystem) (stream n : ℕ) : ℕ :=
  if s.fits type stream n then s.lap stream else s.lap stream + 1

/-- The submission of `n` words. -/
def FifoSystem.submission (type : QueueType) (s : FifoSystem) (stream n : ℕ) : Submission where
  start := s.start type stream n
  length := n
  lap := s.writeLap type stream n
  stream := stream
  entry := gpEntry ((s.page type stream).wordAddress (s.start type stream n)) n

/-- What a call with `n` words does: it writes them behind the write index of its page, or from the
start of the page on, and puts an entry for them on the ring. -/
structure Submitted (type : QueueType) (stream n : ℕ) (s s' : FifoSystem) : Prop where
  fifo : s'.fifo type = { s.fifo type with
    ring := Function.update (s.fifo type).ring
      ((s.fifo type).putValue % (s.fifo type).entriesCount) (s.submission type stream n).entry
    gpPut := ((s.fifo type).putValue + 1) % (s.fifo type).entriesCount
    putValue := (s.fifo type).putValue + 1 }
  submitted : s'.submitted = s.submitted ++ [s.submission type stream n]
  commandWriteIdx : (s'.page type stream).commandWriteIdx = s.start type stream n + n
  others : ∀ other, other ≠ stream → s'.page type other = s.page type other
  space : (s'.page type stream).commandQueueSpace = (s.page type stream).commandQueueSpace
  fetched : s'.fetched = s.fetched
  lap : s'.lap = Function.update s.lap stream (s.writeLap type stream n)

/-- What a fetch does. -/
structure Fetched (type : QueueType) (s s' : FifoSystem) : Prop where
  pending : (s.fifo type).gpGet ≠ (s.fifo type).gpPut
  fifo : s'.fifo type =
    { s.fifo type with gpGet := ((s.fifo type).gpGet + 1) % (s.fifo type).entriesCount }
  fetched : s'.fetched = s.fetched ++ [(s.fifo type).ring (s.fifo type).gpGet]
  page : s'.page type = s.page type
  submitted : s'.submitted = s.submitted
  lap : s'.lap = s.lap

/-- A submission that succeeds: an empty buffer is not submitted. -/
theorem call_submitToFifo {h h' : Host} (hcall : Exec.call (submitToFifo type) h = (.ok (), h')) :
    h.queue.commandBuffer type = [] ∧ h' = h ∨
      h.queue.commandBuffer type ≠ [] ∧ h' = h.submitted type := by
  rw [submitToFifo, Exec.call_bind, Exec.call_get] at hcall
  simp only [Exec.call_onlyIf] at hcall
  by_cases hempty : h.queue.commandBuffer type = []
  · rw [if_neg (by simp [hempty])] at hcall
    exact Or.inl ⟨hempty, (Prod.ext_iff.mp hcall).2.symm⟩
  · rw [if_pos (by simpa using hempty)] at hcall
    obtain ⟨-, hset⟩ := Exec.require_bind_eq_ok hcall
    exact Or.inr ⟨hempty, (Prod.ext_iff.mp hset).2.symm⟩

@[simp] theorem filled_commandBuffer (s : FifoSystem) (stream : ℕ) (buffer : List MethodCall) :
    (s.filled type stream buffer).queue.commandBuffer type = buffer := by
  cases type <;> rfl

@[simp] theorem filled_page (s : FifoSystem) (stream : ℕ) (buffer : List MethodCall) :
    (s.filled type stream buffer).queue.page type = s.page type stream := by
  cases type <;> rfl

@[simp] theorem filled_ctx (s : FifoSystem) (stream : ℕ) (buffer : List MethodCall) :
    (s.filled type stream buffer).ctx = s.process.shared.ctx := rfl

@[simp] theorem filled_fitsPage (s : FifoSystem) (stream n : ℕ) (buffer : List MethodCall) :
    (s.filled type stream buffer).fitsPage type n = s.fits type stream n := by
  cases type <;> rfl

/-- The page behind a submission. -/
theorem submitted_page (h : Host) :
    (h.submitted type).queue.page type =
      (h.queue.page type).copyIn
        (if h.fitsPage type (commandWords (h.queue.commandBuffer type)).length then
          (h.queue.page type).commandWriteIdx else 0)
        (commandWords (h.queue.commandBuffer type)) := by
  cases type <;> rfl

/-- The ring behind a submission. -/
theorem submitted_gpfifo (type : QueueType) (h : Host) :
    (h.submitted type).ctx.gpfifo type = { h.ctx.gpfifo type with
      ring := Function.update (h.ctx.gpfifo type).ring
        ((h.ctx.gpfifo type).putValue % (h.ctx.gpfifo type).entriesCount)
        (gpEntry ((h.queue.page type).wordAddress
          (if h.fitsPage type (commandWords (h.queue.commandBuffer type)).length then
            (h.queue.page type).commandWriteIdx else 0))
          (commandWords (h.queue.commandBuffer type)).length)
      gpPut := ((h.ctx.gpfifo type).putValue + 1) % (h.ctx.gpfifo type).entriesCount
      putValue := (h.ctx.gpfifo type).putValue + 1 } := by
  cases type <;> rfl

/-- The entry a submission puts on the ring. -/
theorem submitted_ring (type : QueueType) (h : Host) :
    ((h.submitted type).ctx.gpfifo type).ring
        ((h.ctx.gpfifo type).putValue % (h.ctx.gpfifo type).entriesCount) =
      gpEntry ((h.queue.page type).wordAddress
        (if h.fitsPage type (commandWords (h.queue.commandBuffer type)).length then
          (h.queue.page type).commandWriteIdx else 0))
        (commandWords (h.queue.commandBuffer type)).length := by
  rw [submitted_gpfifo]
  exact Function.update_self _ _ _

/-- A submission there is room for. -/
theorem wp_submitToFifo_of_maySubmit {h : Host} {type : QueueType} {ok : Unit → Host → Prop}
    {err : Failure → Host → Prop} (hne : h.queue.commandBuffer type ≠ [])
    (hmay : h.maySubmit type (commandWords (h.queue.commandBuffer type)).length = true) :
    wp (submitToFifo type) ok err h ↔ ok () (h.submitted type) := by
  rw [submitToFifo, wp_bind, wp_get, wp_onlyIf, if_pos (by simpa using hne), wp_bind, wp_validate,
    if_pos hmay, wp_set]

/-- A submission there is no room for. -/
theorem wp_submitToFifo_of_full {h : Host} {type : QueueType} {ok : Unit → Host → Prop}
    {err : Failure → Host → Prop} (hne : h.queue.commandBuffer type ≠ [])
    (hfull : h.maySubmit type (commandWords (h.queue.commandBuffer type)).length = false) :
    wp (submitToFifo type) ok err h ↔ err (.status .unknown) h := by
  rw [submitToFifo, wp_bind, wp_get, wp_onlyIf, if_pos (by simpa using hne), wp_bind, wp_validate,
    if_neg (by simp [hfull])]

/-- What is noted of a submission. -/
theorem note_submitted {stream : ℕ} {buffer : List MethodCall} :
    Submitted type stream (commandWords buffer).length s
      (s.note type (Process.put stream ((s.filled type stream buffer).submitted type)
        (s.process.put stream (s.filled type stream buffer))) stream
        (commandWords buffer).length) := by
  have hpage : ((s.filled type stream buffer).submitted type).queue.page type =
      (s.page type stream).copyIn (s.start type stream (commandWords buffer).length)
        (commandWords buffer) := by
    rw [submitted_page, filled_page, filled_commandBuffer, filled_fitsPage]
    rfl
  have hfifo := submitted_gpfifo type (s.filled type stream buffer)
  rw [filled_page, filled_commandBuffer, filled_fitsPage, filled_ctx] at hfifo
  refine ⟨hfifo, ?_, ?_, fun other ho => ?_, ?_, rfl, ?_⟩
  · simp only [FifoSystem.note, FifoSystem.submission, put_queue_self, hpage, put_shared, hfifo]
    rw [CommandQueuePage.copyIn, Nat.add_sub_cancel]
    simp only [FifoSystem.fifo, Function.update_self]
    rfl
  · simp [FifoSystem.page, FifoSystem.note, hpage, CommandQueuePage.copyIn]
  · simp [FifoSystem.page, FifoSystem.note, put_queue_of_ne ho]
  · simp [FifoSystem.page, FifoSystem.note, hpage, CommandQueuePage.copyIn]
  · simp only [FifoSystem.note, FifoSystem.writeLap]
    split_ifs
    · rw [Function.update_eq_self]
    · rfl

/-- **What a call does.** -/
theorem step_submit {stream : ℕ} {buffer : List MethodCall}
    (h : s.step type (.submit stream buffer) = some s') :
    buffer = [] ∧ Untouched type s s' ∨
      buffer ≠ [] ∧ Submitted type stream (commandWords buffer).length s s' := by
  simp only [FifoSystem.step, onStream, Exec.call_zoom, view_put_self] at h
  rcases hcall : Exec.call (submitToFifo type) (s.filled type stream buffer) with ⟨_ | _, h'⟩
  · rw [hcall] at h
    cases h
  · rw [hcall] at h
    dsimp only at h
    rcases call_submitToFifo hcall with ⟨hempty, rfl⟩ | ⟨hne, rfl⟩
    · rw [filled_commandBuffer] at hempty
      rw [if_pos hempty] at h
      obtain rfl := Option.some.inj h
      refine Or.inl ⟨hempty, rfl, funext fun other => ?_, rfl, rfl, rfl⟩
      by_cases ho : other = stream
      · subst ho
        simp [FifoSystem.page]
      · simp [FifoSystem.page, put_queue_of_ne ho]
    · rw [filled_commandBuffer] at hne
      rw [if_neg hne] at h
      obtain rfl := Option.some.inj h
      exact Or.inr ⟨hne, note_submitted⟩

/-- **What a fetch does.** -/
theorem step_fetched (h : s.step type .fetch = some s') : Fetched type s s' := by
  simp only [FifoSystem.step] at h
  split at h
  · cases h
  · rename_i hne
    obtain rfl := Option.some.inj h
    exact ⟨hne, by cases type <;> rfl, rfl, rfl, rfl, rfl⟩

/-- A call succeeds whose words fit in the page, or find it free to be reused. -/
theorem step_of_maySubmit {stream : ℕ} {buffer : List MethodCall}
    (hmay : s.fits type stream (commandWords buffer).length = true ∨
      (s.fifo type).mayWrap (s.page type stream) (commandWords buffer).length = true) :
    ∃ s', s.step type (.submit stream buffer) = some s' := by
  have hmay' : (s.filled type stream buffer).maySubmit type (commandWords buffer).length = true := by
    rw [Host.maySubmit, filled_fitsPage, filled_page, Bool.or_eq_true]
    exact hmay
  have hcall : ∃ h', Exec.call (submitToFifo type) (s.filled type stream buffer) = (.ok (), h') := by
    rw [submitToFifo, Exec.call_bind, Exec.call_get]
    simp only [Exec.call_onlyIf, filled_commandBuffer]
    split
    · refine ⟨(s.filled type stream buffer).submitted type, ?_⟩
      rw [Exec.call_bind, hmay']
      rfl
    · exact ⟨_, rfl⟩
  obtain ⟨h', hcall⟩ := hcall
  simp only [FifoSystem.step, onStream, Exec.call_zoom, view_put_self, hcall]
  split_ifs
  · exact ⟨_, rfl⟩
  · exact ⟨_, rfl⟩

theorem fits_iff {stream n : ℕ} : s.fits type stream n = true ↔
    (s.page type stream).commandWriteIdx + n ≤ maxCmdQueuePageSize := decide_eq_true_iff

end Steps

/-! ## A sample context -/

/-- Streams whose pages follow one another. -/
def samplePages (stream : ℕ) : NvCommandQueue :=
  let base := 0x1100000000 + 0x2000000 * BitVec.ofNat 64 stream
  { sampleFresh.queue with
    computeQueuePage := { commandQueueSpace := base }
    dmaQueuePage := { commandQueueSpace := base + 0x1000000 } }

/-- A context on which nothing was submitted. -/
def sampleFifo : FifoSystem where
  process := ⟨sampleFresh, samplePages⟩

theorem fresh_sampleFifo (type : QueueType) : sampleFifo.Fresh type := by
  cases type <;> exact ⟨rfl, rfl, rfl, rfl, fun _ => rfl, rfl, rfl⟩

end LibreCuda
