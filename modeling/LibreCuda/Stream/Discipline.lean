import LibreCuda.Queue.Releases
import LibreCuda.Stream.System

/-! # The discipline of what waits to be commenced

The CPU knows that the operations up to `c` have completed and that those up to `top` were
commenced. From there on the backlog and the buffers keep the discipline of the timeline signal: a
release carries a number up to which everything has begun in front of it, and an operation enqueued
as a synchronous one stands behind everything before it.

* **`Chained`** says so of a backlog, where a wait of the CPU stands between two segments.
* **`CommandTimeline.Disciplined`** is the invariant of a queue; `disciplined_of_call` is its step
  lemma for the calls that build commands. -/

namespace LibreCuda

open Channels Exec

/-- Knowledge that grew because more operations are known to have completed. -/
structure Grown (k k' : Known) : Prop where
  below : k.Below k'
  upTo : k'.upTo ≤ max k'.sure k.upTo

/-- What is known when the operations up to `c` have completed and those up to `top` were begun. -/
def knownAt (c top : ℕ) : Known := ⟨c, max c top⟩

theorem grown_knownAt {c c' : ℕ} (h : c ≤ c') (top : ℕ) : Grown (knownAt c top) (knownAt c' top) :=
  ⟨⟨h, max_le_max h (Nat.le_refl _)⟩, by simp only [knownAt]; omega⟩

/-! ## Backlogs -/

/-- What is known behind a wait of the CPU for a target. -/
def Known.awaited (k : Known) (target : NvU32) : Known := Known.all (max k.sure target.toNat)

/-- What is known behind the waits for a backlog. -/
def awaitedAll (k : Known) (entries : List CommandBufSplit) : Known :=
  entries.foldl (fun k e => Known.awaited k e.timelineCtr) k

/-- The segments of a backlog keep the discipline, each behind the wait for the one before. -/
def Chained (timelineSignal : NvU64) (k : Known) : List CommandBufSplit → Prop
  | [] => True
  | e :: rest => k.upTo ≤ max k.sure e.timelineCtr.toNat ∧
      k.Orders (serialEngine e.queueType) timelineSignal BitVec.toNat
        (entryCommands timelineSignal e) ∧
      Chained timelineSignal (Known.awaited k e.timelineCtr) rest

theorem awaitedAll_append (k : Known) (a b : List CommandBufSplit) :
    awaitedAll k (a ++ b) = awaitedAll (awaitedAll k a) b := List.foldl_append

theorem chained_append (timelineSignal : NvU64) (k : Known) (a b : List CommandBufSplit) :
    Chained timelineSignal k (a ++ b) ↔
      Chained timelineSignal k a ∧ Chained timelineSignal (awaitedAll k a) b := by
  induction a generalizing k with
  | nil => simp [Chained, awaitedAll]
  | cons e rest ih => simp [Chained, awaitedAll, ih, and_assoc]

/-- Waiting adds to what has completed. -/
theorem Grown.awaited {k k' : Known} (h : Grown k k') (target : NvU32) :
    Grown (Known.awaited k target) (Known.awaited k' target) := by
  have hle : max k.sure target.toNat ≤ max k'.sure target.toNat :=
    max_le_max h.below.1 (Nat.le_refl _)
  exact ⟨⟨hle, hle⟩, Nat.le_max_left _ _⟩

theorem Grown.awaitedAll {k k' : Known} (h : Grown k k') (entries : List CommandBufSplit) :
    Grown (awaitedAll k entries) (awaitedAll k' entries) := by
  induction entries generalizing k k' with
  | nil => exact h
  | cons e rest ih => exact ih (h.awaited e.timelineCtr)

/-- A backlog keeps the discipline when more is known. -/
theorem Chained.grown {timelineSignal : NvU64} {k k' : Known} {entries : List CommandBufSplit}
    (h : Chained timelineSignal k entries) (hg : Grown k k') :
    Chained timelineSignal k' entries := by
  induction entries generalizing k k' with
  | nil => trivial
  | cons e rest ih =>
    obtain ⟨hle, ho, hrest⟩ := h
    have h1 := hg.below.1
    have h2 := hg.upTo
    exact ⟨by omega, orders_mono hg.below ho, ih hrest (hg.awaited e.timelineCtr)⟩

/-- Behind the waits for a backlog no less is known. -/
theorem Chained.below {timelineSignal : NvU64} {k : Known} {entries : List CommandBufSplit}
    (h : Chained timelineSignal k entries) : k.Below (awaitedAll k entries) := by
  induction entries generalizing k with
  | nil => exact Known.Below.refl k
  | cons e rest ih =>
    obtain ⟨hle, -, hrest⟩ := h
    have hnext := ih hrest
    exact ⟨(Nat.le_max_left _ _).trans hnext.1, hle.trans hnext.2⟩

theorem sure_le_awaitedAll {k : Known} (h : k.sure ≤ k.upTo) (entries : List CommandBufSplit) :
    (awaitedAll k entries).sure ≤ (awaitedAll k entries).upTo := by
  induction entries generalizing k with
  | nil => exact h
  | cons e rest ih => exact ih (Nat.le_refl _)

/-- What was begun is bounded by what has completed and any bound of what was begun before. -/
theorem upTo_awaitedAll_le {k : Known} {n : ℕ} (h : k.upTo ≤ max k.sure n)
    (entries : List CommandBufSplit) :
    (awaitedAll k entries).upTo ≤ max (awaitedAll k entries).sure n := by
  induction entries generalizing k with
  | nil => exact h
  | cons e rest ih => exact ih (k := Known.awaited k e.timelineCtr) (Nat.le_max_left _ _)

/-! ## The invariant -/

/-- What is known in front of the buffers. -/
def CommandTimeline.base (c top : ℕ) (t : CommandTimeline) : Known :=
  awaitedAll (knownAt c top) t.commandBufBacklog

/-- What is known behind the buffer of an engine. -/
def CommandTimeline.known (c top : ℕ) (t : CommandTimeline) (type : QueueType) : Known :=
  (t.base c top).run (serialEngine type) t.timelineSignal BitVec.toNat
    (commandsOf type (t.commandBuffer type))

/-- **The invariant.** The counter has not wrapped, backlog and buffers keep the discipline, and the
last operation is known behind the buffer of the engine the queue is in the mode of. -/
structure CommandTimeline.Disciplined (c top : ℕ) (t : CommandTimeline) : Prop where
  count : t.timelineCtr.toNat = t.timelineSteps
  closed : t.AllClosed
  top_le : top ≤ t.timelineSteps
  chained : Chained t.timelineSignal (knownAt c top) t.commandBufBacklog
  ordered : ∀ type, (t.base c top).Orders (serialEngine type) t.timelineSignal BitVec.toNat
    (commandsOf type (t.commandBuffer type))
  reached : ∀ type, t.currentQueueType = some type → t.timelineSteps ≤ (t.known c top type).upTo
  idle : t.currentQueueType = none →
    t.Idle ∧ t.commandBufBacklog = [] ∧ t.timelineSteps ≤ (t.base c top).upTo

theorem base_sure_le {c top : ℕ} (t : CommandTimeline) :
    (t.base c top).sure ≤ (t.base c top).upTo :=
  sure_le_awaitedAll (Nat.le_max_left _ _) _

theorem known_of_nil {c top : ℕ} {t : CommandTimeline} {type : QueueType}
    (h : t.commandBuffer type = []) : t.known c top type = t.base c top := by
  rw [CommandTimeline.known, h]
  rfl

section Disciplined

variable {c top : ℕ} {t : CommandTimeline}

theorem CommandTimeline.Disciplined.base_upTo_le (hd : t.Disciplined c top) :
    (t.base c top).upTo ≤ max (t.base c top).sure t.timelineSteps := by
  refine upTo_awaitedAll_le ?_ _
  have := hd.top_le
  simp only [knownAt]
  omega

theorem CommandTimeline.Disciplined.le_base_sure (hd : t.Disciplined c top) :
    c ≤ (t.base c top).sure := hd.chained.below.1

/-- What is known to have completed in front of a buffer is known behind it. -/
theorem CommandTimeline.Disciplined.le_known_sure (hd : t.Disciplined c top) (type : QueueType) :
    c ≤ (t.known c top type).sure :=
  hd.le_base_sure.trans (sure_le_run (base_sure_le t) _).1

/-- **More completions** keep the discipline. -/
theorem CommandTimeline.Disciplined.raise (hd : t.Disciplined c top) {c' : ℕ} (hle : c ≤ c') :
    t.Disciplined c' top := by
  have hg := grown_knownAt hle top
  have hbase := hg.awaitedAll t.commandBufBacklog
  refine ⟨hd.count, hd.closed, hd.top_le, hd.chained.grown hg,
    fun type => orders_mono hbase.below (hd.ordered type), fun type hmode => ?_, fun hmode => ?_⟩
  · exact (hd.reached type hmode).trans (run_mono hbase.below _).2
  · obtain ⟨hidle, hback, hle⟩ := hd.idle hmode
    exact ⟨hidle, hback, hle.trans hbase.below.2⟩

/-- With the other buffer empty, the last operation is known behind this one in every mode. -/
theorem CommandTimeline.Disciplined.reached_of_other (hd : t.Disciplined c top) {type : QueueType}
    (hother : t.commandBuffer type.other = []) :
    t.timelineSteps ≤ (t.known c top type).upTo := by
  have hbase : t.timelineSteps ≤ (t.base c top).upTo →
      t.timelineSteps ≤ (t.known c top type).upTo := fun h => h.trans (upTo_le_run _ _)
  cases hmode : t.currentQueueType with
  | none => exact hbase (hd.idle hmode).2.2
  | some type' =>
    have := hd.reached type' hmode
    by_cases hsame : type' = type
    · exact hsame ▸ this
    · obtain rfl : type' = type.other := by
        cases type <;> cases type' <;> first | rfl | exact absurd rfl hsame
      rw [known_of_nil hother] at this
      exact hbase this

/-- The number a release of the timeline with the current target carries. -/
theorem CommandTimeline.Disciplined.target (hd : t.Disciplined c top) :
    (t.timelineCtr.setWidth 64).toNat = t.timelineSteps := by
  rw [BitVec.toNat_setWidth, Nat.mod_eq_of_lt (t.timelineCtr.isLt.trans (by decide)), hd.count]

/-- The release a segment lacks is allowed behind its buffer. -/
theorem CommandTimeline.Disciplined.orders_release (hd : t.Disciplined c top) {type : QueueType}
    (hpend : t.timelineNotifyPending = true → t.timelineSteps ≤ (t.known c top type).upTo) :
    (t.known c top type).Orders (serialEngine type) t.timelineSignal BitVec.toNat
      (if t.timelineNotifyPending then
        [(.release t.timelineSignal (t.timelineCtr.setWidth 64) : GpuCommand)] else []) := by
  cases hp : t.timelineNotifyPending with
  | false => trivial
  | true =>
    refine ⟨fun _ => ?_, trivial⟩
    rw [hd.target]
    exact hpend hp

/-- **Setting a buffer aside** keeps the discipline, when a pending release may stand behind it. -/
theorem CommandTimeline.Disciplined.backlog (hd : t.Disciplined c top) {type : QueueType}
    (hne : t.commandBuffer type ≠ [])
    (hpend : t.timelineNotifyPending = true → t.timelineSteps ≤ (t.known c top type).upTo) :
    (t.backlog type).Disciplined c top := by
  have hbase : (t.backlog type).base c top = Known.awaited (t.base c top) t.timelineCtr := by
    rw [CommandTimeline.base, backlog_commandBufBacklog, awaitedAll_append]
    rfl
  have hbelow : (t.base c top).Below ((t.backlog type).base c top) := by
    rw [hbase]
    refine ⟨Nat.le_max_left _ _, ?_⟩
    show _ ≤ max _ t.timelineCtr.toNat
    rw [hd.count]
    exact hd.base_upTo_le
  have hsteps : t.timelineSteps ≤ ((t.backlog type).base c top).upTo := by
    rw [hbase, ← hd.count]
    exact Nat.le_max_right _ _
  refine ⟨?_, ⟨?_, fun e he => ?_⟩, ?_, ?_, ?_, fun type' _ => ?_, fun hmode => ?_⟩
  · rw [backlog_timelineCtr, backlog_timelineSteps]
    exact hd.count
  · refine forall_queueType type ?_ ?_
    · rw [backlog_commandBuffer]
      exact closed_nil type
    · rw [backlog_commandBuffer_other]
      exact hd.closed.buffers _
  · rw [backlog_commandBufBacklog] at he
    rcases List.mem_append.mp he with he | he
    · exact hd.closed.backlog e he
    · obtain rfl := List.mem_singleton.mp he
      exact hd.closed.buffers type
  · rw [backlog_timelineSteps]
    exact hd.top_le
  · rw [backlog_timelineSignal, backlog_commandBufBacklog, chained_append]
    refine ⟨hd.chained, ?_, ?_, trivial⟩
    · show _ ≤ max _ t.timelineCtr.toNat
      rw [hd.count]
      exact hd.base_upTo_le
    -- behind the entry stands the release of everything counted so far
    · rw [entryCommands_eq]
      exact (orders_append _ _ _).mpr ⟨hd.ordered type, hd.orders_release hpend⟩
  · refine forall_queueType type ?_ ?_
    · rw [backlog_commandBuffer]
      trivial
    · rw [backlog_commandBuffer_other, backlog_timelineSignal]
      exact orders_mono hbelow (hd.ordered _)
  · rw [backlog_timelineSteps]
    exact hsteps.trans (upTo_le_run _ _)
  · rw [backlog_currentQueueType] at hmode
    exact absurd ((hd.idle hmode).1 type) hne

/-- The discipline depends on the mode in its last two parts only. -/
theorem CommandTimeline.Disciplined.setMode (hd : t.Disciplined c top) {type : QueueType}
    (hreached : t.timelineSteps ≤ (t.known c top type).upTo) :
    ({ t with currentQueueType := some type } : CommandTimeline).Disciplined c top := by
  have hbuf : ∀ type', ({ t with currentQueueType := some type } :
      CommandTimeline).commandBuffer type' = t.commandBuffer type' := fun type' => by
    cases type' <;> rfl
  refine ⟨hd.count, ⟨fun type' => ?_, hd.closed.backlog⟩, hd.top_le, hd.chained, fun type' => ?_,
    fun type' hmode => ?_, fun hmode => ?_⟩
  · rw [hbuf]
    exact hd.closed.buffers type'
  · rw [hbuf]
    exact hd.ordered type'
  · cases hmode
    rw [CommandTimeline.known, hbuf]
    exact hreached
  · cases hmode

/-- **Changing the mode** keeps the discipline. -/
theorem CommandTimeline.Disciplined.select (hd : t.Disciplined c top) (type : QueueType) :
    (t.select type).Disciplined c top ∧ (t.select type).currentQueueType = some type := by
  unfold CommandTimeline.select
  split_ifs with hempty hcur
  · exact ⟨hd.setMode (hd.reached_of_other hempty), rfl⟩
  · have hback := hd.backlog hempty fun _ => hd.reached _ hcur
    refine ⟨hback.setMode ?_, rfl⟩
    have hother := hback.reached type.other (by rw [backlog_currentQueueType]; exact hcur)
    rw [known_of_nil (backlog_commandBuffer ..)] at hother
    exact hother.trans (upTo_le_run _ _)
  · refine ⟨hd, ?_⟩
    cases hmode : t.currentQueueType with
    | none => exact absurd ((hd.idle hmode).1 _) hempty
    | some type' =>
      rw [hmode] at hcur
      cases type <;> cases type' <;> first | rfl | exact absurd rfl hcur

/-- A queue whose buffer for an engine was extended. -/
structure CommandTimeline.Extends (type : QueueType) (ms : List MethodCall)
    (t t' : CommandTimeline) : Prop where
  commandBuffer : t'.commandBuffer type = t.commandBuffer type ++ ms
  commandBuffer_other : t'.commandBuffer type.other = t.commandBuffer type.other
  currentQueueType : t'.currentQueueType = t.currentQueueType
  commandBufBacklog : t'.commandBufBacklog = t.commandBufBacklog
  timelineSignal : t'.timelineSignal = t.timelineSignal

theorem CommandTimeline.Appends.extends {t' : CommandTimeline} {type : QueueType}
    {ms : List MethodCall} (ha : t.Appends type ms t') : t.Extends type ms t' :=
  ⟨ha.commandBuffer, ha.commandBuffer_other, ha.currentQueueType, ha.commandBufBacklog,
    ha.timelineSignal⟩

/-- What is known behind a buffer that was extended. -/
theorem CommandTimeline.Extends.known (c top : ℕ) {t' : CommandTimeline} {type : QueueType}
    {ms : List MethodCall} (ha : t.Extends type ms t') (hclosed : Closed type ms) :
    t'.known c top type = (t.known c top type).run (serialEngine type) t.timelineSignal
      BitVec.toNat (commandsOf type ms) := by
  rw [CommandTimeline.known, CommandTimeline.base, ha.commandBufBacklog, ha.commandBuffer,
    ha.timelineSignal, commandsOf_append hclosed, run_append]
  rfl

/-- **Extending a buffer** with commands that keep the discipline behind it keeps it, when the last
operation is known behind the buffer of the mode. -/
theorem CommandTimeline.Disciplined.extend {t' : CommandTimeline} {type : QueueType}
    {ms : List MethodCall} (hd : t.Disciplined c top) (hmode : t.currentQueueType ≠ none)
    (ha : t.Extends type ms t') (hclosed : Closed type ms)
    (hcount : t'.timelineCtr.toNat = t'.timelineSteps) (hsteps : t.timelineSteps ≤ t'.timelineSteps)
    (ho : (t.known c top type).Orders (serialEngine type) t.timelineSignal BitVec.toNat
      (commandsOf type ms))
    (hreached : ∀ type', t.currentQueueType = some type' →
      t'.timelineSteps ≤ (t'.known c top type').upTo) : t'.Disciplined c top := by
  have hbase : t'.base c top = t.base c top := by
    rw [CommandTimeline.base, ha.commandBufBacklog]
    rfl
  refine ⟨hcount, ⟨?_, ?_⟩, hd.top_le.trans hsteps, ?_, ?_, fun type' hmode' => ?_,
    fun hmode' => ?_⟩
  · refine forall_queueType type ?_ ?_
    · rw [ha.commandBuffer]
      exact (hd.closed.buffers type).append hclosed
    · rw [ha.commandBuffer_other]
      exact hd.closed.buffers _
  · rw [ha.commandBufBacklog]
    exact hd.closed.backlog
  · rw [ha.timelineSignal, ha.commandBufBacklog]
    exact hd.chained
  · rw [hbase, ha.timelineSignal]
    refine forall_queueType type ?_ ?_
    · rw [ha.commandBuffer, commandsOf_append hclosed, orders_append]
      exact ⟨hd.ordered type, ho⟩
    · rw [ha.commandBuffer_other]
      exact hd.ordered _
  · rw [ha.currentQueueType] at hmode'
    exact hreached type' hmode'
  · rw [ha.currentQueueType] at hmode'
    exact absurd hmode' hmode

/-- **Appending** in the mode of the engine. -/
theorem CommandTimeline.Disciplined.appends {t' : CommandTimeline} {type : QueueType}
    {ms : List MethodCall} (hd : t.Disciplined c top) (hmode : t.currentQueueType = some type)
    (ha : t.Appends type ms t') (hclosed : Closed type ms)
    (hcount : t'.timelineCtr.toNat = t'.timelineSteps) (hsteps : t.timelineSteps ≤ t'.timelineSteps)
    (ho : (t.known c top type).Orders (serialEngine type) t.timelineSignal BitVec.toNat
      (commandsOf type ms))
    (hreached : t'.timelineSteps ≤ ((t.known c top type).run (serialEngine type) t.timelineSignal
      BitVec.toNat (commandsOf type ms)).upTo) : t'.Disciplined c top := by
  refine hd.extend (by rw [hmode]; exact Option.some_ne_none type) ha.extends hclosed hcount hsteps
    ho fun type' hmode' => ?_
  rw [hmode] at hmode'
  cases hmode'
  rw [ha.extends.known _ _ hclosed]
  exact hreached

/-! ## The calls -/

/-- Announcing local memory keeps the discipline. -/
theorem CommandTimeline.Disciplined.localMem (hd : t.Disciplined c top)
    (hmode : t.currentQueueType = some .compute) {calls : List MethodCall}
    (hcalls : LocalMemCalls calls) : (t.pushAll .compute calls).Disciplined c top := by
  have hothers : (t.known c top .compute).Orders (serialEngine .compute) t.timelineSignal
      BitVec.toNat (commandsOf .compute calls) := by
    cases hcalls with
    | none => trivial
    | grown va bytesPerTpc =>
      obtain ⟨a, b, h⟩ := commandsOf_localMemCalls va bytesPerTpc
      rw [h]
      exact ⟨trivial, trivial, trivial⟩
  refine hd.appends hmode (appends_pushAll ..) (closed_compute _) ?_ ?_ hothers ?_
  · rw [pushAll_timelineCtr, pushAll_timelineSteps]
    exact hd.count
  · rw [pushAll_timelineSteps]
  · rw [pushAll_timelineSteps]
    exact (hd.reached _ hmode).trans (upTo_le_run _ _)

/-- **Synchronising** keeps the discipline, and behind it everything enqueued is known to have
completed: the CPU has seen it, or the channel acquires the timeline. -/
theorem CommandTimeline.Disciplined.synchronize (hd : t.Disciplined c top)
    (hmode : t.currentQueueType = some .compute) {value : NvU64} (hvalue : value.toNat ≤ c)
    (async : Bool) : (t.synchronize value async).Disciplined c top ∧
      (async = false →
        t.timelineSteps ≤ ((t.synchronize value async).known c top .compute).sure) := by
  have htarget := hd.target
  have hreached := hd.reached _ hmode
  have hcmds := commandsOf_synchronizeCalls t value async
  have hacquire : ∀ k : Known, k.Orders (serialEngine .compute) t.timelineSignal BitVec.toNat
      (if value = t.timelineCtr.setWidth 64 then [] else
        [(.acquire t.timelineSignal (t.timelineCtr.setWidth 64) : GpuCommand)]) := fun k => by
    split_ifs
    · trivial
    · exact ⟨trivial, trivial⟩
  have ho : (t.known c top .compute).Orders (serialEngine .compute) t.timelineSignal
      BitVec.toNat (commandsOf .compute (t.synchronizeCalls value async)) := by
    rw [hcmds]
    cases async with
    | true => trivial
    | false =>
      rw [if_neg Bool.false_ne_true, orders_append]
      refine ⟨?_, hacquire _⟩
      split_ifs
      · exact ⟨fun _ => htarget ▸ hreached, trivial⟩
      · trivial
  have ha := appends_synchronize t value async
  have hknown := ha.extends.known c top (closed_compute _)
  have hd' := hd.appends hmode ha (closed_compute _)
    (by rw [synchronize_timelineCtr, synchronize_timelineSteps]; exact hd.count)
    (by rw [synchronize_timelineSteps]) ho
    (by rw [synchronize_timelineSteps]; exact hreached.trans (upTo_le_run _ _))
  refine ⟨hd', fun hasync => ?_⟩
  by_cases hseen : value = t.timelineCtr.setWidth 64
  · rw [← htarget, ← hseen]
    exact hvalue.trans (hd'.le_known_sure _)
  · rw [hknown, hcmds, hasync, if_neg Bool.false_ne_true, if_neg hseen, run_append, run_cons,
      Known.advance, if_pos rfl, htarget]
    exact Nat.le_max_right _ _

/-- **An operation** keeps the discipline, when everything before it is known to have completed or
it is asynchronous or its engine serial. -/
theorem CommandTimeline.Disciplined.operation (hd : t.Disciplined c top) {type : QueueType}
    (hmode : t.currentQueueType = some type) {ms : List MethodCall} (hclosed : Closed type ms)
    {async : Bool} {a b : MethodCall}
    (hcmds : commandsOf type ms = [.other a, .other b, .start (t.timelineSteps + 1) (!async)])
    (hsure : async = false → serialEngine type = false →
      t.timelineSteps ≤ (t.known c top type).sure)
    (hlt : t.timelineSteps + 1 < 2 ^ 32) :
    ((t.pushAll type ms).finish type async).Disciplined c top := by
  obtain ⟨hfinish, hrelease⟩ := commandsOf_finishCalls (t.pushAll type ms) type async
  rw [pushAll_timelineSignal, pushAll_timelineCtr] at hrelease
  have hctr : (t.timelineCtr + 1).toNat = t.timelineSteps + 1 := by
    rw [BitVec.toNat_add, hd.count]
    exact Nat.mod_eq_of_lt hlt
  have htarget : ((t.timelineCtr + 1).setWidth 64).toNat = t.timelineSteps + 1 := by
    rw [BitVec.toNat_setWidth,
      Nat.mod_eq_of_lt ((t.timelineCtr + 1).isLt.trans (by decide)), hctr]
  have hreached := hd.reached _ hmode
  refine hd.appends hmode ((appends_pushAll t type ms).trans (appends_finish ..))
    (hclosed.append hfinish) ?_ ?_ ?_ ?_
  · rw [finish_timelineCtr, finish_timelineSteps, pushAll_timelineCtr, pushAll_timelineSteps, hctr]
  · rw [finish_timelineSteps, pushAll_timelineSteps]
    exact Nat.le_succ _
  · rw [commandsOf_append hfinish, orders_append, hcmds, hrelease]
    refine ⟨⟨trivial, trivial, ⟨Nat.succ_le_succ hreached, fun hordered => ?_⟩, trivial⟩, ?_⟩
    · have hasync : async = false := by simpa using hordered
      cases hs : serialEngine type with
      | true => exact Nat.succ_le_succ hreached
      | false => exact Nat.succ_le_succ (hsure hasync hs)
    · split_ifs
      · trivial
      · refine ⟨fun _ => ?_, trivial⟩
        rw [htarget]
        exact Nat.le_max_right _ _
  · rw [finish_timelineSteps, pushAll_timelineSteps, commandsOf_append hfinish, hcmds]
    have hmem : .start (t.timelineSteps + 1) (!async) ∈
        [.other a, .other b, .start (t.timelineSteps + 1) (!async)] ++
          commandsOf type ((t.pushAll type ms).finishCalls type async) := by simp
    exact op_le_run hmem rfl

/-- **Recording an event** keeps the discipline. -/
theorem CommandTimeline.Disciplined.record (hd : t.Disciplined c top) {signal : NvU64}
    (hsignal : signal ≠ t.timelineSignal) : (t.record signal).Disciplined c top := by
  have hreached : t.timelineSteps ≤ (t.known c top t.recordType).upTo := by
    cases hmode : t.currentQueueType with
    | none => exact hd.reached_of_other ((hd.idle hmode).1 _)
    | some type =>
      rw [CommandTimeline.recordType, hmode]
      exact hd.reached type hmode
  have hd' := hd.setMode hreached
  obtain ⟨hclosed, hcmds⟩ := commandsOf_releaseCalls t.recordType signal 1
  have hctr : (t.record signal).timelineCtr = t.timelineCtr := pushAll_timelineCtr ..
  have hsteps : (t.record signal).timelineSteps = t.timelineSteps := pushAll_timelineSteps ..
  refine hd'.appends rfl (appends_record t signal) hclosed ?_ ?_ ?_ ?_
  · rw [hctr, hsteps]
    exact hd.count
  · rw [hsteps]
  · rw [hcmds]
    exact ⟨fun h => absurd h hsignal, trivial⟩
  · rw [hsteps]
    exact (hd'.reached _ rfl).trans (upTo_le_run _ _)

end Disciplined

/-- The base of a launch keeps the discipline. -/
theorem CommandTimeline.Disciplined.launchBase {c top : ℕ} {h : Host}
    (hd : h.timeline.Disciplined c top)
    (hseen : (h.signals h.timeline.timelineSignal).value.toNat ≤ c) {calls : List MethodCall}
    (hcalls : LocalMemCalls calls) (async : Bool) :
    ((h.timeline.select .compute).pushAll .compute calls).Disciplined c top ∧
      (h.launchBase calls async).Disciplined c top ∧
      (h.launchBase calls async).currentQueueType = some .compute ∧
      (async = false →
        h.timeline.timelineSteps ≤ ((h.launchBase calls async).known c top .compute).sure) := by
  obtain ⟨hselect, hmode⟩ := hd.select .compute
  have hlocal := hselect.localMem hmode hcalls
  have hmode₁ : ((h.timeline.select .compute).pushAll .compute calls).currentQueueType =
      some .compute := by rw [pushAll_currentQueueType, hmode]
  obtain ⟨hsync, hsure⟩ := hlocal.synchronize hmode₁ hseen async
  have ha := appends_synchronize ((h.timeline.select .compute).pushAll .compute calls)
    (h.signals h.timeline.timelineSignal).value async
  refine ⟨hlocal, hsync, ha.currentQueueType.trans hmode₁, fun hasync => ?_⟩
  have := hsure hasync
  rwa [pushAll_timelineSteps, select_timelineSteps] at this

/-- The call counts the timeline up if it succeeds. -/
def ApiCall.Counts : ApiCall → Prop
  | .launchFunction .. => True
  | .gpuMemcpy .. => True
  | _ => False

/-- **A call that builds commands keeps the discipline**, whether it succeeds or fails, as long as
the counter does not wrap and the value of the timeline that the CPU sees is one it knows. -/
theorem disciplined_of_call {h h' : Host} {c : ApiCall} {r : Except Failure Unit}
    (hbuilds : c.Builds) (hu : h.Usable) {done top : ℕ} (hd : h.timeline.Disciplined done top)
    (hseen : (h.signals h.timeline.timelineSignal).value.toNat ≤ done)
    (hlt : c.Counts → h.timeline.timelineSteps + 1 < 2 ^ 32) (hc : call c.run h = (r, h')) :
    h'.timeline.Disciplined done top ∧ h'.trace = h.trace := by
  have hsig := hu.timelineSignal
  cases c with
  | launchFunction function grid block sharedMemBytes params numParams async =>
    replace hlt := hlt trivial
    rcases wp_call hc (wp_launchFunction hsig function grid block sharedMemBytes params numParams
      async) with ⟨_, -, f, -, hok⟩ | ⟨_, -, herr⟩
    · obtain ⟨calls, qmdAddr, hcalls, ht⟩ := hok.timeline
      obtain ⟨-, hbase, hmode, hsure⟩ := hd.launchBase hseen hcalls async
      obtain ⟨a, b, hcmds⟩ := commandsOf_launchCalls qmdAddr ⟨h.timeline.timelineSteps + 1, async⟩
      rw [← launchBase_timelineSteps h calls async] at hcmds hlt hsure
      rw [ht, ← launchBase_timelineSteps h calls async]
      exact ⟨hbase.operation hmode (closed_compute _) hcmds (fun hasync _ => hsure hasync) hlt,
        hok.trace⟩
    · refine ⟨?_, herr.trace⟩
      rcases herr.timeline with ht | ⟨calls, hcalls, ht | ht⟩
      · rw [ht]
        exact hd
      · rw [ht]
        exact (hd.launchBase hseen hcalls async).1
      · rw [ht]
        exact (hd.launchBase hseen hcalls async).2.1
  | gpuMemcpy dst src numBytes async =>
    replace hlt := hlt trivial
    rcases wp_call hc (wp_gpuMemcpy hsig dst src numBytes async) with ⟨_, -, hok⟩ | ⟨_, -, rfl⟩
    · obtain ⟨dst', src', n, ht⟩ := hok.timeline
      obtain ⟨hselect, hmode⟩ := hd.select .dma
      obtain ⟨hclosed, a, b, hcmds⟩ := commandsOf_copyCalls dst' src' n
        ⟨h.timeline.timelineSteps + 1, async⟩
      rw [← select_timelineSteps h.timeline .dma] at hcmds hlt
      rw [ht, ← select_timelineSteps h.timeline .dma]
      refine ⟨hselect.operation hmode ?_ hcmds (fun _ hserial => by cases hserial) hlt, hok.trace⟩
      rw [select_timelineSteps]
      exact hclosed
    · exact ⟨hd, rfl⟩
  | recordEvent event pStream =>
    rcases wp_call hc (wp_recordEvent event pStream h) with
      ⟨_, -, hrec, e, signal, -, hsignal, ht⟩ | ⟨_, -, hrec, ht⟩
    · rw [ht]
      refine ⟨hd.record ?_, hrec.trace⟩
      -- the release is of a signal of the event, which is not the timeline
      have hsame : h'.timeline.timelineSignal = h.timeline.timelineSignal := by
        rw [ht]
        exact pushAll_timelineSignal ..
      rw [hsignal, ← hsame]
      exact (hu.call hc).events e _
    · rw [ht]
      exact ⟨hd, hrec.trace⟩
  | startExecution => exact hbuilds.elim
  | awaitExecution => exact hbuilds.elim

end LibreCuda
