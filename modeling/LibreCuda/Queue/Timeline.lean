import LibreCuda.Queue.Commence
import LibreCuda.Queue.Launch
import LibreCuda.Gpu.Decode

/-! # What the queue functions do to the command timeline

Each function that works on the timeline is restated as a function of the timeline alone: what it
pushes, and how it changes counter, flag, mode and backlog. The programs are equal to these
functions (`call_…`), and later proofs use these equations only. The second half reads the methods
pushed as engine commands. -/

namespace LibreCuda

open Channels Exec

/-! ## Buffers -/

section Buffers

variable (t : CommandTimeline) (buffer : List MethodCall) (type : QueueType)

theorem QueueType.ne_other : type ≠ type.other := by cases type <;> decide

@[simp] theorem QueueType.other_other : type.other.other = type := by cases type <;> rfl

@[simp] theorem commandBuffer_setCommandBuffer :
    (t.setCommandBuffer buffer type).commandBuffer type = buffer := by cases type <;> rfl

@[simp] theorem commandBuffer_other_setCommandBuffer :
    (t.setCommandBuffer buffer type).commandBuffer type.other = t.commandBuffer type.other := by
  cases type <;> rfl

@[simp] theorem commandBuffer_setCommandBuffer_other :
    (t.setCommandBuffer buffer type.other).commandBuffer type = t.commandBuffer type := by
  cases type <;> rfl

@[simp] theorem setCommandBuffer_timelineSignal :
    (t.setCommandBuffer buffer type).timelineSignal = t.timelineSignal := by cases type <;> rfl

@[simp] theorem setCommandBuffer_timelineCtr :
    (t.setCommandBuffer buffer type).timelineCtr = t.timelineCtr := by cases type <;> rfl

@[simp] theorem setCommandBuffer_timelineNotifyPending :
    (t.setCommandBuffer buffer type).timelineNotifyPending = t.timelineNotifyPending := by
  cases type <;> rfl

@[simp] theorem setCommandBuffer_currentQueueType :
    (t.setCommandBuffer buffer type).currentQueueType = t.currentQueueType := by
  cases type <;> rfl

@[simp] theorem setCommandBuffer_commandBufBacklog :
    (t.setCommandBuffer buffer type).commandBufBacklog = t.commandBufBacklog := by
  cases type <;> rfl

@[simp] theorem setCommandBuffer_timelineSteps :
    (t.setCommandBuffer buffer type).timelineSteps = t.timelineSteps := by cases type <;> rfl

@[simp] theorem setCommandBuffer_emitted :
    (t.setCommandBuffer buffer type).emitted = t.emitted := by cases type <;> rfl

/-- Setting a buffer to what it holds changes nothing. -/
@[simp] theorem setCommandBuffer_commandBuffer :
    t.setCommandBuffer (t.commandBuffer type) type = t := by cases type <;> rfl

@[simp] theorem setCommandBuffer_setCommandBuffer (buffer' : List MethodCall) :
    (t.setCommandBuffer buffer type).setCommandBuffer buffer' type =
      t.setCommandBuffer buffer' type := by cases type <;> rfl

end Buffers

/-- Push several methods. -/
def CommandTimeline.pushAll (t : CommandTimeline) (type : QueueType) (ms : List MethodCall) :
    CommandTimeline :=
  { t.setCommandBuffer (t.commandBuffer type ++ ms) type with
    emitted := t.emitted ++ ms.map fun m => (type, m) }

section PushAll

variable (t : CommandTimeline) (type : QueueType) (ms : List MethodCall)

@[simp] theorem pushAll_nil : t.pushAll type [] = t := by
  cases type <;> simp [CommandTimeline.pushAll, CommandTimeline.setCommandBuffer,
    CommandTimeline.commandBuffer]

@[simp] theorem pushAll_pushAll (more : List MethodCall) :
    (t.pushAll type ms).pushAll type more = t.pushAll type (ms ++ more) := by
  cases type <;> simp [CommandTimeline.pushAll, CommandTimeline.setCommandBuffer,
    CommandTimeline.commandBuffer]

@[simp] theorem pushAll_commandBuffer :
    (t.pushAll type ms).commandBuffer type = t.commandBuffer type ++ ms := by
  cases type <;> rfl

@[simp] theorem pushAll_commandBuffer_other :
    (t.pushAll type ms).commandBuffer type.other = t.commandBuffer type.other := by
  cases type <;> rfl

@[simp] theorem pushAll_timelineSignal :
    (t.pushAll type ms).timelineSignal = t.timelineSignal := by cases type <;> rfl

@[simp] theorem pushAll_timelineCtr :
    (t.pushAll type ms).timelineCtr = t.timelineCtr := by cases type <;> rfl

@[simp] theorem pushAll_timelineNotifyPending :
    (t.pushAll type ms).timelineNotifyPending = t.timelineNotifyPending := by cases type <;> rfl

@[simp] theorem pushAll_currentQueueType :
    (t.pushAll type ms).currentQueueType = t.currentQueueType := by cases type <;> rfl

@[simp] theorem pushAll_commandBufBacklog :
    (t.pushAll type ms).commandBufBacklog = t.commandBufBacklog := by cases type <;> rfl

@[simp] theorem pushAll_timelineSteps :
    (t.pushAll type ms).timelineSteps = t.timelineSteps := by cases type <;> rfl

@[simp] theorem pushAll_emitted :
    (t.pushAll type ms).emitted = t.emitted ++ ms.map fun m => (type, m) := rfl

end PushAll

/-! ## Methods -/

/-- An `enqueue` whose header announces the number of its arguments. -/
theorem call_enqueue {method : NvMethod} {args : List NvU32} {n : ℕ} (type : QueueType)
    (op : Option OpTag) (t : CommandTimeline) (hn : ((method >>> 16) &&& 0xFFF).toNat = n)
    (hargs : args.length = n) :
    call (enqueue method args type op) t =
      (.ok (), t.pushAll type [⟨method.setWidth 32, args, op⟩]) := by
  unfold enqueue
  rw [if_pos (hn.trans hargs.symm)]
  cases type <;> rfl

/-- What `signalNotify` pushes. -/
def releaseCalls (type : QueueType) (pSignal : NvU64) (signalTarget : NvU32) : List MethodCall :=
  match type with
  | .compute =>
    [⟨methodHeader 0 nvc56fSemAddrLo 5,
      [lo32 pSignal, hi32 pSignal, signalTarget, 0, 0x03100001], none⟩,
      ⟨methodHeader 4 nvc56fNonStallInterrupt 1, [0], none⟩]
  | .dma =>
    [⟨methodHeader 4 nvc6b5SetSemaphoreA 3, [hi32 pSignal, lo32 pSignal, signalTarget], none⟩,
      ⟨methodHeader 4 nvc6b5LaunchDma 1, [0x14], none⟩]

theorem releaseCalls_ne_nil (type : QueueType) (pSignal : NvU64) (signalTarget : NvU32) :
    releaseCalls type pSignal signalTarget ≠ [] := by
  cases type <;> exact List.cons_ne_nil _ _

/-- What `signalWaitGpu` pushes. -/
def acquireCall (pSignal : NvU64) (signalTarget : NvU32) : MethodCall :=
  ⟨methodHeader 0 nvc56fSemAddrLo 5,
    [lo32 pSignal, hi32 pSignal, signalTarget, 0, 0x01000000], none⟩

theorem call_signalNotify {pSignal : NvU64} (h : pSignal ≠ 0) (signalTarget : NvU32)
    (type : QueueType) (t : CommandTimeline) :
    call (signalNotify pSignal signalTarget type) t =
      (.ok (), t.pushAll type (releaseCalls type pSignal signalTarget)) := by
  have hne : (pSignal != 0) = true := by simpa using h
  unfold signalNotify validate
  rw [hne, call_bind_ok (call_require_true _ _)]
  cases type with
  | compute =>
    rw [call_bind_ok (call_enqueue (n := 5) .compute none t (by decide) rfl),
      call_enqueue (n := 1) _ _ _ (by decide) rfl, pushAll_pushAll]
    rfl
  | dma =>
    rw [call_bind_ok (call_enqueue (n := 3) .dma none t (by decide) rfl),
      call_enqueue (n := 1) _ _ _ (by decide) rfl, pushAll_pushAll]
    rfl

/-- A null signal is refused. -/
theorem call_signalNotify_zero (signalTarget : NvU32) (type : QueueType) (t : CommandTimeline) :
    call (signalNotify 0 signalTarget type) t = (.error (.status .invalidValue), t) := rfl

/-- What `signalWaitGpu` pushes when the CPU sees `value`. -/
def waitCalls (value : NvU64) (pSignal : NvU64) (signalTarget : NvU32) : List MethodCall :=
  if value = signalTarget.setWidth 64 then [] else [acquireCall pSignal signalTarget]

theorem call_signalWaitGpu (value pSignal : NvU64) (signalTarget : NvU32) (t : CommandTimeline) :
    call (signalWaitGpu value pSignal signalTarget) t =
      (.ok (), t.pushAll .compute (waitCalls value pSignal signalTarget)) := by
  unfold signalWaitGpu waitCalls
  split
  · rw [pushAll_nil]
    rfl
  · exact call_enqueue (n := 5) _ _ _ (by decide) rfl

/-! ## Modes and targets -/

/-- `backlogCurrentCmdBuffer` on the timeline. -/
def CommandTimeline.setAside (t : CommandTimeline) (type : QueueType) : CommandTimeline :=
  if t.commandBuffer type = [] then t else t.backlog type

theorem call_backlogCurrentCmdBuffer (type : QueueType) (t : CommandTimeline) :
    call (backlogCurrentCmdBuffer type) t = (.ok (), t.setAside type) := by
  unfold backlogCurrentCmdBuffer CommandTimeline.setAside
  rw [call_modify]
  simp only [List.isEmpty_iff]

/-- `selectQueueType` on the timeline. -/
def CommandTimeline.select (t : CommandTimeline) (type : QueueType) : CommandTimeline :=
  if t.commandBuffer type.other = [] then { t with currentQueueType := some type }
  else if t.currentQueueType = some type.other then
    { t.backlog type.other with currentQueueType := some type }
  else t

theorem call_selectQueueType (type : QueueType) (t : CommandTimeline) :
    call (selectQueueType type) t = (.ok (), t.select type) := by
  unfold selectQueueType CommandTimeline.select
  by_cases hempty : t.commandBuffer type.other = []
  · simp [call_bind, hempty, type.ne_other]
  · by_cases hmode : t.currentQueueType = some type.other
    · simp [call_bind, hempty, hmode, call_backlogCurrentCmdBuffer, CommandTimeline.setAside]
    · simp [call_bind, hempty, hmode]

/-- `finishOperation` on the timeline. -/
def CommandTimeline.finish (t : CommandTimeline) (type : QueueType) (async : Bool) :
    CommandTimeline :=
  let counted := { t with timelineCtr := t.timelineCtr + 1, timelineSteps := t.timelineSteps + 1 }
  if async then { counted with timelineNotifyPending := true }
  else
    { counted.pushAll type (releaseCalls type t.timelineSignal (t.timelineCtr + 1)) with
      timelineNotifyPending := false }

theorem call_finishOperation {t : CommandTimeline} (h : t.timelineSignal ≠ 0) (type : QueueType)
    (async : Bool) : call (finishOperation type async) t = (.ok (), t.finish type async) := by
  unfold finishOperation CommandTimeline.finish
  cases async with
  | true => simp [call_bind]
  | false => simp [call_bind, call_signalNotify h]

/-- The release that an asynchronous predecessor left out. -/
def CommandTimeline.notifyPending (t : CommandTimeline) (type : QueueType) : CommandTimeline :=
  if t.timelineNotifyPending then
    { t.pushAll type (releaseCalls type t.timelineSignal t.timelineCtr) with
      timelineNotifyPending := false }
  else t

/-- `synchronizeLaunch` on the timeline. -/
def CommandTimeline.synchronize (t : CommandTimeline) (value : NvU64) (async : Bool) :
    CommandTimeline :=
  if async then t
  else (t.notifyPending .compute).pushAll .compute (waitCalls value t.timelineSignal t.timelineCtr)

theorem call_synchronizeLaunch {t : CommandTimeline} (h : t.timelineSignal ≠ 0) (value : NvU64)
    (async : Bool) :
    call (synchronizeLaunch value async) t = (.ok (), t.synchronize value async) := by
  unfold synchronizeLaunch CommandTimeline.synchronize CommandTimeline.notifyPending
  cases async with
  | true => simp [call_bind]
  | false =>
    cases hp : t.timelineNotifyPending with
    | true => simp [call_bind, hp, call_signalNotify h, call_signalWaitGpu]
    | false => simp [call_bind, hp, call_signalWaitGpu]

/-! Only `finish` counts; the signal never changes. -/

section Fields

variable (t : CommandTimeline) (type : QueueType) (value : NvU64) (async : Bool)

@[simp] theorem backlog_timelineSignal : (t.backlog type).timelineSignal = t.timelineSignal := by
  cases type <;> rfl

@[simp] theorem backlog_timelineCtr : (t.backlog type).timelineCtr = t.timelineCtr := by
  cases type <;> rfl

@[simp] theorem backlog_timelineSteps : (t.backlog type).timelineSteps = t.timelineSteps := by
  cases type <;> rfl

@[simp] theorem backlog_emitted : (t.backlog type).emitted = t.emitted := by
  cases type <;> rfl

@[simp] theorem backlog_currentQueueType :
    (t.backlog type).currentQueueType = t.currentQueueType := by
  cases type <;> rfl

@[simp] theorem backlog_commandBuffer : (t.backlog type).commandBuffer type = [] := by
  cases type <;> rfl

@[simp] theorem backlog_commandBuffer_other :
    (t.backlog type).commandBuffer type.other = t.commandBuffer type.other := by
  cases type <;> rfl

@[simp] theorem backlog_other_commandBuffer :
    (t.backlog type.other).commandBuffer type = t.commandBuffer type := by
  cases type <;> rfl

@[simp] theorem backlog_timelineNotifyPending :
    (t.backlog type).timelineNotifyPending = false := by
  cases type <;> rfl

@[simp] theorem backlog_commandBufBacklog :
    (t.backlog type).commandBufBacklog = t.commandBufBacklog ++
      [⟨t.commandBuffer type, type, t.timelineCtr, t.timelineNotifyPending⟩] := by
  cases type <;> rfl

@[simp] theorem setAside_timelineSignal :
    (t.setAside type).timelineSignal = t.timelineSignal := by
  unfold CommandTimeline.setAside
  split_ifs <;> simp

@[simp] theorem setAside_timelineCtr : (t.setAside type).timelineCtr = t.timelineCtr := by
  unfold CommandTimeline.setAside
  split_ifs <;> simp

@[simp] theorem setAside_timelineSteps : (t.setAside type).timelineSteps = t.timelineSteps := by
  unfold CommandTimeline.setAside
  split_ifs <;> simp

@[simp] theorem setAside_currentQueueType :
    (t.setAside type).currentQueueType = t.currentQueueType := by
  unfold CommandTimeline.setAside
  split_ifs <;> simp

@[simp] theorem setAside_commandBuffer : (t.setAside type).commandBuffer type = [] := by
  unfold CommandTimeline.setAside
  split_ifs with h
  · exact h
  · simp

@[simp] theorem setAside_commandBuffer_other :
    (t.setAside type).commandBuffer type.other = t.commandBuffer type.other := by
  unfold CommandTimeline.setAside
  split_ifs <;> simp

theorem setAside_of_nil (h : t.commandBuffer type = []) : t.setAside type = t := if_pos h

theorem setAside_of_ne_nil (h : t.commandBuffer type ≠ []) : t.setAside type = t.backlog type :=
  if_neg h

@[simp] theorem select_timelineSignal : (t.select type).timelineSignal = t.timelineSignal := by
  unfold CommandTimeline.select
  split_ifs <;> simp

@[simp] theorem select_timelineCtr : (t.select type).timelineCtr = t.timelineCtr := by
  unfold CommandTimeline.select
  split_ifs <;> simp

@[simp] theorem select_timelineSteps : (t.select type).timelineSteps = t.timelineSteps := by
  unfold CommandTimeline.select
  split_ifs <;> simp

@[simp] theorem select_emitted : (t.select type).emitted = t.emitted := by
  unfold CommandTimeline.select
  split_ifs <;> simp

@[simp] theorem notifyPending_timelineSignal :
    (t.notifyPending type).timelineSignal = t.timelineSignal := by
  unfold CommandTimeline.notifyPending
  split_ifs <;> simp

@[simp] theorem notifyPending_timelineCtr :
    (t.notifyPending type).timelineCtr = t.timelineCtr := by
  unfold CommandTimeline.notifyPending
  split_ifs <;> simp

@[simp] theorem notifyPending_timelineSteps :
    (t.notifyPending type).timelineSteps = t.timelineSteps := by
  unfold CommandTimeline.notifyPending
  split_ifs <;> simp

@[simp] theorem synchronize_timelineSignal :
    (t.synchronize value async).timelineSignal = t.timelineSignal := by
  unfold CommandTimeline.synchronize
  split_ifs <;> simp

@[simp] theorem synchronize_timelineCtr :
    (t.synchronize value async).timelineCtr = t.timelineCtr := by
  unfold CommandTimeline.synchronize
  split_ifs <;> simp

@[simp] theorem synchronize_timelineSteps :
    (t.synchronize value async).timelineSteps = t.timelineSteps := by
  unfold CommandTimeline.synchronize
  split_ifs <;> simp

@[simp] theorem finish_timelineSignal :
    (t.finish type async).timelineSignal = t.timelineSignal := by
  unfold CommandTimeline.finish
  split_ifs <;> simp

@[simp] theorem finish_timelineCtr :
    (t.finish type async).timelineCtr = t.timelineCtr + 1 := by
  unfold CommandTimeline.finish
  split_ifs <;> simp

@[simp] theorem finish_timelineSteps :
    (t.finish type async).timelineSteps = t.timelineSteps + 1 := by
  unfold CommandTimeline.finish
  split_ifs <;> simp

end Fields

/-! ## The methods of launches and copies -/

/-- The methods of a launch. -/
def launchCalls (qmdAddr : NvU64) (tag : OpTag) : List MethodCall :=
  [⟨methodHeader 1 nvc6c0InvalidateShaderCachesNoWfi 1, [0x1011], none⟩,
    ⟨methodHeader 1 nvc6c0SendPcasA 1, [(qmdAddr >>> 8).setWidth 32], none⟩,
    ⟨methodHeader 1 nvc6c0SendSignalingPcas2B 1, [0x9], some tag⟩]

/-- The methods of a copy. -/
def copyCalls (dst src numBytes : NvU64) (tag : OpTag) : List MethodCall :=
  [⟨methodHeader 4 nvc6b5OffsetInUpper 4, [hi32 src, lo32 src, hi32 dst, lo32 dst], none⟩,
    ⟨methodHeader 4 nvc6b5LineLengthIn 1, [numBytes.setWidth 32], none⟩,
    ⟨methodHeader 4 nvc6b5LaunchDma 1, [0x182], some tag⟩]

theorem launchCalls_ne_nil (qmdAddr : NvU64) (tag : OpTag) : launchCalls qmdAddr tag ≠ [] :=
  List.cons_ne_nil _ _

theorem copyCalls_ne_nil (dst src numBytes : NvU64) (tag : OpTag) :
    copyCalls dst src numBytes tag ≠ [] := List.cons_ne_nil _ _

/-- The methods that announce new local memory. -/
def localMemCalls (va bytesPerTpc : NvU64) : List MethodCall :=
  [⟨methodHeader 1 nvc6c0SetShaderLocalMemoryA 2, [hi32 va, lo32 va], none⟩,
    ⟨methodHeader 1 nvc6c0SetShaderLocalMemoryNonThrottledA 3,
      [hi32 bytesPerTpc, lo32 bytesPerTpc, 0x40], none⟩]

/-- The engine an event is recorded on: a queue in no mode records on the compute engine. -/
def CommandTimeline.recordType (t : CommandTimeline) : QueueType :=
  t.currentQueueType.getD .compute

/-- `recordEvent` on the timeline, for the signal the event uses. -/
def CommandTimeline.record (t : CommandTimeline) (signal : NvU64) : CommandTimeline :=
  { t.pushAll t.recordType (releaseCalls t.recordType signal 1) with
    currentQueueType := some t.recordType }

/-! ## Appending

Within a mode, everything a call does to the buffers is appending methods to one of them. -/

/-- The timeline got methods appended for an engine; backlog and mode are as they were. -/
structure CommandTimeline.Appends (type : QueueType) (ms : List MethodCall)
    (t t' : CommandTimeline) : Prop where
  commandBuffer : t'.commandBuffer type = t.commandBuffer type ++ ms
  commandBuffer_other : t'.commandBuffer type.other = t.commandBuffer type.other
  emitted : t'.emitted = t.emitted ++ ms.map fun m => (type, m)
  currentQueueType : t'.currentQueueType = t.currentQueueType
  commandBufBacklog : t'.commandBufBacklog = t.commandBufBacklog
  timelineSignal : t'.timelineSignal = t.timelineSignal

theorem CommandTimeline.Appends.refl (type : QueueType) (t : CommandTimeline) :
    t.Appends type [] t :=
  ⟨(List.append_nil _).symm, rfl, (List.append_nil _).symm, rfl, rfl, rfl⟩

theorem CommandTimeline.Appends.trans {type : QueueType} {a b : List MethodCall}
    {t t' t'' : CommandTimeline} (ha : t.Appends type a t') (hb : t'.Appends type b t'') :
    t.Appends type (a ++ b) t'' := by
  refine ⟨?_, hb.commandBuffer_other.trans ha.commandBuffer_other, ?_,
    hb.currentQueueType.trans ha.currentQueueType,
    hb.commandBufBacklog.trans ha.commandBufBacklog, hb.timelineSignal.trans ha.timelineSignal⟩
  · rw [hb.commandBuffer, ha.commandBuffer, List.append_assoc]
  · rw [hb.emitted, ha.emitted, List.map_append, List.append_assoc]

theorem appends_pushAll (t : CommandTimeline) (type : QueueType) (ms : List MethodCall) :
    t.Appends type ms (t.pushAll type ms) := by
  constructor <;> simp

/-- What a synchronous launch pushes before itself when the CPU sees `value`. -/
def CommandTimeline.synchronizeCalls (t : CommandTimeline) (value : NvU64) (async : Bool) :
    List MethodCall :=
  if async then []
  else (if t.timelineNotifyPending then releaseCalls .compute t.timelineSignal t.timelineCtr
    else []) ++ waitCalls value t.timelineSignal t.timelineCtr

theorem appends_synchronize (t : CommandTimeline) (value : NvU64) (async : Bool) :
    t.Appends .compute (t.synchronizeCalls value async) (t.synchronize value async) := by
  unfold CommandTimeline.synchronize CommandTimeline.synchronizeCalls CommandTimeline.notifyPending
  cases async with
  | true => exact .refl _ t
  | false =>
    cases hp : t.timelineNotifyPending with
    | true =>
      have h := appends_pushAll t .compute (releaseCalls .compute t.timelineSignal t.timelineCtr)
      have hrelease : t.Appends .compute (releaseCalls .compute t.timelineSignal t.timelineCtr)
          { t.pushAll .compute (releaseCalls .compute t.timelineSignal t.timelineCtr) with
            timelineNotifyPending := false } :=
        ⟨h.commandBuffer, h.commandBuffer_other, h.emitted, h.currentQueueType,
          h.commandBufBacklog, h.timelineSignal⟩
      exact hrelease.trans (appends_pushAll _ .compute _)
    | false => exact appends_pushAll t .compute _

/-- A synchronous launch leaves no release open. -/
theorem synchronize_timelineNotifyPending (t : CommandTimeline) (value : NvU64) (async : Bool) :
    (t.synchronize value async).timelineNotifyPending = (async && t.timelineNotifyPending) := by
  unfold CommandTimeline.synchronize CommandTimeline.notifyPending
  cases async with
  | true => rfl
  | false => cases hp : t.timelineNotifyPending <;> simp [hp]

/-- What an operation pushes behind itself. -/
def CommandTimeline.finishCalls (t : CommandTimeline) (type : QueueType) (async : Bool) :
    List MethodCall :=
  if async then [] else releaseCalls type t.timelineSignal (t.timelineCtr + 1)

theorem appends_finish (t : CommandTimeline) (type : QueueType) (async : Bool) :
    t.Appends type (t.finishCalls type async) (t.finish type async) := by
  unfold CommandTimeline.finish CommandTimeline.finishCalls
  cases async with
  | true => exact ⟨by cases type <;> exact (List.append_nil _).symm, by cases type <;> rfl,
      (List.append_nil _).symm, rfl, rfl, rfl⟩
  | false => cases type <;> exact ⟨rfl, rfl, rfl, rfl, rfl, rfl⟩

@[simp] theorem finish_timelineNotifyPending (t : CommandTimeline) (type : QueueType)
    (async : Bool) : (t.finish type async).timelineNotifyPending = async := by
  unfold CommandTimeline.finish
  cases async <;> rfl

/-- Recording an event appends its release in the mode the queue has then. -/
theorem appends_record (t : CommandTimeline) (signal : NvU64) :
    ({ t with currentQueueType := some t.recordType } : CommandTimeline).Appends t.recordType
      (releaseCalls t.recordType signal 1) (t.record signal) := by
  unfold CommandTimeline.record
  cases t.recordType <;> exact ⟨rfl, rfl, rfl, rfl, rfl, rfl⟩

/-! ## The methods as engine commands -/

/-- A 32-bit payload behind a zero high half. -/
theorem zero_append_eq_setWidth (value : NvU32) :
    (0 : NvU32) ++ value = (value.setWidth 64 : NvU64) := by
  apply BitVec.eq_of_toNat_eq
  have happend : ((0 : NvU32) ++ value).toNat = (0 : NvU32).toNat <<< 32 ||| value.toNat :=
    BitVec.toNat_append 0 value
  rw [BitVec.toNat_setWidth, Nat.mod_eq_of_lt (value.isLt.trans (by decide))]
  exact happend.trans (by simp)

/-- **A release is read as a release of the signal with the target.** -/
theorem commandsOf_releaseCalls (type : QueueType) (pSignal : NvU64) (signalTarget : NvU32) :
    Closed type (releaseCalls type pSignal signalTarget) ∧
      commandsOf type (releaseCalls type pSignal signalTarget) =
        [.release pSignal (signalTarget.setWidth 64)] := by
  cases type with
  | compute =>
    refine ⟨closed_compute _, ?_⟩
    show [Command.release (hi32 pSignal ++ lo32 pSignal) ((0 : NvU32) ++ signalTarget)] = _
    rw [hi32_append_lo32, zero_append_eq_setWidth]
  | dma =>
    refine ⟨fun _ => rfl, ?_⟩
    show [Command.release (hi32 pSignal ++ lo32 pSignal) (signalTarget.setWidth 64)] = _
    rw [hi32_append_lo32]

/-- **An acquire is read as an acquire of the signal with the target.** -/
theorem commandsOf_acquireCall (pSignal : NvU64) (signalTarget : NvU32) :
    commandsOf .compute [acquireCall pSignal signalTarget] =
      [.acquire pSignal (signalTarget.setWidth 64)] := by
  show [Command.acquire (hi32 pSignal ++ lo32 pSignal) ((0 : NvU32) ++ signalTarget)] = _
  rw [hi32_append_lo32, zero_append_eq_setWidth]

/-- The commands of a launch: one of them starts the operation. -/
theorem commandsOf_launchCalls (qmdAddr : NvU64) (tag : OpTag) :
    ∃ a b, commandsOf .compute (launchCalls qmdAddr tag) =
      [.other a, .other b, .start tag.number (!tag.async)] :=
  ⟨_, _, rfl⟩

/-- The commands of a copy: the last one starts the operation. -/
theorem commandsOf_copyCalls (dst src numBytes : NvU64) (tag : OpTag) :
    Closed .dma (copyCalls dst src numBytes tag) ∧
    ∃ a b, commandsOf .dma (copyCalls dst src numBytes tag) =
      [.other a, .other b, .start tag.number (!tag.async)] :=
  ⟨fun _ => rfl, _, _, rfl⟩

/-- Announcing local memory concerns neither signals nor operations. -/
theorem commandsOf_localMemCalls (va bytesPerTpc : NvU64) :
    ∃ a b, commandsOf .compute (localMemCalls va bytesPerTpc) = [.other a, .other b] :=
  ⟨_, _, rfl⟩

end LibreCuda
