import LibreCuda.Queue.Launch

/-! # The streams of a context

Several command queues of one context in one process: they share the rings of the context, the
memory bookkeeping, the loaded functions, the events and the memory. A call on a stream runs on its
queue and on what is shared. -/

namespace LibreCuda

/-- The queues of the streams, and what they share. The field `shared.queue` is the queue of the
stream that was used last. -/
structure Process where
  shared : Host
  queue : ℕ → NvCommandQueue

/-- The shared state as one stream sees it. -/
def Process.view (p : Process) (stream : ℕ) : Host := { p.shared with queue := p.queue stream }

/-- Write back what a call on a stream left. -/
def Process.put (stream : ℕ) (h : Host) (p : Process) : Process :=
  ⟨h, Function.update p.queue stream h.queue⟩

/-- A call on a stream. -/
def onStream {α : Type} (stream : ℕ) (x : Driver α) : Exec Process Failure α :=
  Exec.zoom (fun p => p.view stream) (Process.put stream) x

@[simp] theorem view_put_self (stream : ℕ) (h : Host) (p : Process) :
    (p.put stream h).view stream = h := by
  simp [Process.view, Process.put]

/-- A call on one stream leaves the queues of the others alone. -/
theorem put_queue_of_ne {stream other : ℕ} (hne : other ≠ stream) (h : Host) (p : Process) :
    (p.put stream h).queue other = p.queue other :=
  Function.update_of_ne hne ..

@[simp] theorem put_queue_self (stream : ℕ) (h : Host) (p : Process) :
    (p.put stream h).queue stream = h.queue :=
  Function.update_self ..

@[simp] theorem put_shared (stream : ℕ) (h : Host) (p : Process) :
    (p.put stream h).shared = h := rfl

end LibreCuda
