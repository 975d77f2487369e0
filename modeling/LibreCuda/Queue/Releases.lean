import LibreCuda.Queue.Order

/-! # Every wait has its release

The stream of a queue is everything that was submitted, then the backlog, then the buffers, read as
engine commands in this order. **`CommandTimeline.Balanced`** says that along this stream every
acquire of the timeline carries the value of the last release before it, that each segment of the
backlog ends with its own target released, and that the last target is released unless a release is
pending. Every call keeps it. -/

namespace LibreCuda

open Channels Exec

/-- The commands submitted by effects, in submission order. -/
def submittedCommands (fx : List HostEffect) : List GpuCommand :=
  fx.flatMap fun
    | .submit type commands => commandsOf type commands
    | .waitCpu .. => []

theorem submittedCommands_append (a b : List HostEffect) :
    submittedCommands (a ++ b) = submittedCommands a ++ submittedCommands b := List.flatMap_append

/-- Submitting an empty buffer submits no commands. -/
@[simp] theorem submittedCommands_submitEffect (type : QueueType) (buffer : List MethodCall) :
    submittedCommands (submitEffect type buffer) = commandsOf type buffer := by
  unfold submitEffect
  split_ifs with h
  · rw [h]
    rfl
  · simp [submittedCommands]

/-- The commands a segment will be submitted with. -/
def entryCommands (timelineSignal : NvU64) (e : CommandBufSplit) : List GpuCommand :=
  commandsOf e.queueType (e.commands timelineSignal)

/-- The commands the backlog will be submitted with. -/
def backlogCommands (timelineSignal : NvU64) (entries : List CommandBufSplit) : List GpuCommand :=
  entries.flatMap (entryCommands timelineSignal)

theorem backlogCommands_append (timelineSignal : NvU64) (a b : List CommandBufSplit) :
    backlogCommands timelineSignal (a ++ b) =
      backlogCommands timelineSignal a ++ backlogCommands timelineSignal b := List.flatMap_append

@[simp] theorem backlogCommands_singleton (timelineSignal : NvU64) (e : CommandBufSplit) :
    backlogCommands timelineSignal [e] = entryCommands timelineSignal e := List.append_nil _

theorem submittedCommands_backlogEffects (timelineSignal : NvU64) (entries : List CommandBufSplit) :
    submittedCommands (backlogEffects timelineSignal entries) =
      backlogCommands timelineSignal entries := by
  induction entries with
  | nil => rfl
  | cons e rest ih =>
    rw [show backlogEffects timelineSignal (e :: rest) =
      entryEffects timelineSignal e ++ backlogEffects timelineSignal rest from rfl,
      submittedCommands_append, ih, entryEffects, submittedCommands_append,
      submittedCommands_submitEffect]
    simp [submittedCommands, backlogCommands, entryCommands]

/-- The commands in the buffers. -/
def CommandTimeline.bufferCommands (t : CommandTimeline) : List GpuCommand :=
  commandsOf .compute (t.commandBuffer .compute) ++ commandsOf .dma (t.commandBuffer .dma)

/-- The commands that wait to be commenced. -/
def CommandTimeline.waiting (t : CommandTimeline) : List GpuCommand :=
  backlogCommands t.timelineSignal t.commandBufBacklog ++ t.bufferCommands

/-- With the other buffer empty, the commands in the buffers are those of this one. -/
theorem bufferCommands_of_other {t : CommandTimeline} {type : QueueType}
    (hother : t.commandBuffer type.other = []) :
    t.bufferCommands = commandsOf type (t.commandBuffer type) := by
  cases type with
  | compute =>
    rw [CommandTimeline.bufferCommands, show t.commandBuffer .dma = [] from hother]
    simp
  | dma =>
    rw [CommandTimeline.bufferCommands, show t.commandBuffer .compute = [] from hother]
    simp

theorem bufferCommands_of_idle {t : CommandTimeline} (h : t.Idle) : t.bufferCommands = [] := by
  rw [CommandTimeline.bufferCommands, h, h]
  rfl

/-- Buffers and backlog are read the same whatever the registers of the copy engine hold. -/
structure CommandTimeline.AllClosed (t : CommandTimeline) : Prop where
  buffers : ∀ type, Closed type (t.commandBuffer type)
  backlog : ∀ e ∈ t.commandBufBacklog, Closed e.queueType e.commandBuffer

/-- Every segment ends with its own target released last. -/
def ReleasesEach (timelineSignal : NvU64) (last : Option NvU64) : List CommandBufSplit → Prop
  | [] => True
  | e :: rest =>
    lastRelease timelineSignal last (entryCommands timelineSignal e) =
      some (e.timelineCtr.setWidth 64) ∧
    ReleasesEach timelineSignal (some (e.timelineCtr.setWidth 64)) rest

theorem releasesEach_append (timelineSignal : NvU64) (last : Option NvU64)
    (a b : List CommandBufSplit) :
    ReleasesEach timelineSignal last (a ++ b) ↔ ReleasesEach timelineSignal last a ∧
      ReleasesEach timelineSignal
        (lastRelease timelineSignal last (backlogCommands timelineSignal a)) b := by
  induction a generalizing last with
  | nil => simp [ReleasesEach, backlogCommands]
  | cons e rest ih =>
    have hcmds : backlogCommands timelineSignal (e :: rest) =
        entryCommands timelineSignal e ++ backlogCommands timelineSignal rest := rfl
    rw [List.cons_append, ReleasesEach, ReleasesEach, ih, hcmds, lastRelease_append, and_assoc]
    constructor
    · rintro ⟨he, ha, hb⟩
      exact ⟨he, ha, he ▸ hb⟩
    · rintro ⟨he, ha, hb⟩
      exact ⟨he, ha, he ▸ hb⟩

/-- **The invariant**, behind the commands `s` submitted so far. -/
structure CommandTimeline.Balanced (s : List GpuCommand) (t : CommandTimeline) : Prop where
  settled : t.Settled
  closed : t.AllClosed
  pending_of_idle : t.Idle → t.timelineNotifyPending = false
  matched : Matched t.timelineSignal none (s ++ t.waiting)
  released : t.timelineNotifyPending = false →
    lastRelease t.timelineSignal none (s ++ t.waiting) = some (t.timelineCtr.setWidth 64)
  entries : ReleasesEach t.timelineSignal (lastRelease t.timelineSignal none s)
    t.commandBufBacklog

/-! ## Setting aside and changing the mode -/

/-- The commands of a segment are those of its buffer and the release it lacks. -/
theorem entryCommands_eq (timelineSignal : NvU64) (e : CommandBufSplit) :
    entryCommands timelineSignal e = commandsOf e.queueType e.commandBuffer ++
      if e.timelineNotifyPending then
        [.release timelineSignal (e.timelineCtr.setWidth 64)] else [] := by
  rw [entryCommands, CommandBufSplit.commands]
  cases e.timelineNotifyPending with
  | true =>
    obtain ⟨hclosed, hcmds⟩ := commandsOf_releaseCalls e.queueType timelineSignal e.timelineCtr
    rw [if_pos rfl, if_pos rfl, commandsOf_append hclosed, hcmds]
  | false => simp

/-- What waits once the only buffer has been set aside. -/
theorem waiting_backlog {t : CommandTimeline} {type : QueueType}
    (hother : t.commandBuffer type.other = []) :
    (t.backlog type).waiting = t.waiting ++
      if t.timelineNotifyPending then
        [.release t.timelineSignal (t.timelineCtr.setWidth 64)] else [] := by
  have hidle : (t.backlog type).Idle :=
    forall_queueType type (backlog_commandBuffer ..)
      (by rw [backlog_commandBuffer_other]; exact hother)
  rw [CommandTimeline.waiting, bufferCommands_of_idle hidle, backlog_timelineSignal,
    backlog_commandBufBacklog, backlogCommands_append, backlogCommands_singleton,
    entryCommands_eq, CommandTimeline.waiting, bufferCommands_of_other hother, List.append_nil,
    List.append_assoc]

/-- Setting the only buffer aside leaves the last target released. -/
theorem CommandTimeline.Balanced.backlog {s : List GpuCommand} {t : CommandTimeline} {type : QueueType}
    (hb : t.Balanced s) (hother : t.commandBuffer type.other = []) :
    (t.backlog type).Balanced s ∧ lastRelease t.timelineSignal none
      (s ++ (t.backlog type).waiting) = some (t.timelineCtr.setWidth 64) := by
  have hidle : (t.backlog type).Idle :=
    forall_queueType type (backlog_commandBuffer ..)
      (by rw [backlog_commandBuffer_other]; exact hother)
  have hlast : lastRelease t.timelineSignal none (s ++ (t.backlog type).waiting) =
      some (t.timelineCtr.setWidth 64) := by
    rw [waiting_backlog hother]
    cases hp : t.timelineNotifyPending with
    | true => rw [if_pos rfl, ← List.append_assoc, lastRelease_append, lastRelease_singleton]
    | false => simpa using hb.released hp
  refine ⟨⟨hidle.settled, ⟨fun type' => ?_, fun e he => ?_⟩,
    fun _ => backlog_timelineNotifyPending .., ?_, fun _ => ?_, ?_⟩, hlast⟩
  · rw [hidle type']
    exact closed_nil type'
  · rw [backlog_commandBufBacklog] at he
    rcases List.mem_append.mp he with he | he
    · exact hb.closed.backlog e he
    · obtain rfl := List.mem_singleton.mp he
      exact hb.closed.buffers type
  · rw [waiting_backlog hother, backlog_timelineSignal, ← List.append_assoc, matched_append]
    refine ⟨hb.matched, ?_⟩
    split_ifs <;> trivial
  · rw [backlog_timelineSignal, backlog_timelineCtr]
    exact hlast
  · rw [backlog_timelineSignal, backlog_commandBufBacklog, releasesEach_append]
    refine ⟨hb.entries, ?_, trivial⟩
    rw [← lastRelease_append, ← lastRelease_append, ← backlogCommands_singleton,
      ← backlogCommands_append, ← backlog_commandBufBacklog, ← backlog_timelineSignal t type]
    rw [CommandTimeline.waiting, bufferCommands_of_idle hidle, List.append_nil] at hlast
    rw [backlog_timelineSignal] at hlast ⊢
    exact hlast

/-- The balance depends on the mode through `Settled` only. -/
theorem CommandTimeline.Balanced.congr {s : List GpuCommand} {t t' : CommandTimeline} (hb : t.Balanced s)
    (hbuf : ∀ type, t'.commandBuffer type = t.commandBuffer type)
    (hback : t'.commandBufBacklog = t.commandBufBacklog)
    (hsig : t'.timelineSignal = t.timelineSignal) (hctr : t'.timelineCtr = t.timelineCtr)
    (hpend : t'.timelineNotifyPending = t.timelineNotifyPending) (hs : t'.Settled) :
    t'.Balanced s := by
  have hwait : t'.waiting = t.waiting := by
    rw [CommandTimeline.waiting, CommandTimeline.waiting, CommandTimeline.bufferCommands,
      CommandTimeline.bufferCommands, hbuf, hbuf, hback, hsig]
  refine ⟨hs, ⟨fun type => ?_, ?_⟩, fun hidle => ?_, ?_, fun hp => ?_, ?_⟩
  · rw [hbuf]
    exact hb.closed.buffers type
  · rw [hback]
    exact hb.closed.backlog
  · rw [hpend]
    exact hb.pending_of_idle fun type => (hbuf type).symm.trans (hidle type)
  · rw [hwait, hsig]
    exact hb.matched
  · rw [hwait, hsig, hctr]
    exact hb.released (hpend ▸ hp)
  · rw [hsig, hback]
    exact hb.entries

/-- **Changing the mode keeps the balance.** -/
theorem CommandTimeline.Balanced.select {s : List GpuCommand} {t : CommandTimeline} (hb : t.Balanced s)
    (type : QueueType) : (t.select type).Balanced s := by
  obtain ⟨hmode, hother, -⟩ := settled_select hb.settled type
  have hs := settled_of_mode hmode hother
  unfold CommandTimeline.select at hs ⊢
  split_ifs at hs ⊢ with hempty hcur
  · exact hb.congr (fun type' => by cases type' <;> rfl) rfl rfl rfl rfl hs
  · have hthis : t.commandBuffer type.other.other = [] := hb.settled.other_of_some _ hcur
    exact (hb.backlog hthis).1.congr (fun type' => by cases type' <;> rfl) rfl rfl rfl rfl
      hs
  · exact hb

/-! ## Appending -/

/-- **Appending keeps the balance** when the acquires appended carry the last value released, and
the last target is released behind them unless a release is pending. -/
theorem CommandTimeline.Balanced.appends {s : List GpuCommand} {t t' : CommandTimeline} {type : QueueType}
    {ms : List MethodCall} (hb : t.Balanced s) (hmode : t.currentQueueType = some type)
    (hother : t.commandBuffer type.other = []) (ha : t.Appends type ms t')
    (hnil : ms = [] → t'.timelineNotifyPending = t.timelineNotifyPending)
    (hclosed : Closed type ms)
    (hmatched : ∀ last, (t.timelineNotifyPending = false →
        last = some (t.timelineCtr.setWidth 64)) →
      Matched t.timelineSignal last (commandsOf type ms) ∧
        (t'.timelineNotifyPending = false →
          lastRelease t.timelineSignal last (commandsOf type ms) =
            some (t'.timelineCtr.setWidth 64))) : t'.Balanced s := by
  have hother' : t'.commandBuffer type.other = [] := ha.commandBuffer_other.trans hother
  have hwait : s ++ t'.waiting = (s ++ t.waiting) ++ commandsOf type ms := by
    rw [CommandTimeline.waiting, CommandTimeline.waiting, bufferCommands_of_other hother,
      bufferCommands_of_other hother', ha.commandBuffer, commandsOf_append hclosed,
      ha.commandBufBacklog, ha.timelineSignal]
    simp only [List.append_assoc]
  obtain ⟨hm, hl⟩ := hmatched _ hb.released
  refine ⟨settled_of_mode (ha.currentQueueType.trans hmode) hother', ⟨?_, ?_⟩, fun hidle => ?_, ?_,
    fun hp => ?_, ?_⟩
  · refine forall_queueType type ?_ ?_
    · rw [ha.commandBuffer]
      exact (hb.closed.buffers type).append hclosed
    · rw [hother']
      exact closed_nil _
  · rw [ha.commandBufBacklog]
    exact hb.closed.backlog
  · obtain ⟨hbuf, hms⟩ := List.append_eq_nil_iff.mp (ha.commandBuffer.symm.trans (hidle type))
    rw [hnil hms]
    exact hb.pending_of_idle (forall_queueType type hbuf hother)
  · rw [hwait, ha.timelineSignal, matched_append]
    exact ⟨hb.matched, hm⟩
  · rw [hwait, ha.timelineSignal, lastRelease_append]
    exact hl hp
  · rw [ha.timelineSignal, ha.commandBufBacklog]
    exact hb.entries

/-- Commands that are no releases, acquires or operations. -/
theorem ignores_of_localMemCalls {calls : List MethodCall} (hc : LocalMemCalls calls)
    (sig : NvU64) : ∀ c ∈ commandsOf .compute calls, c.Ignores sig := by
  cases hc with
  | none => exact fun _ h => (List.not_mem_nil h).elim
  | grown va bytesPerTpc =>
    obtain ⟨a, b, h⟩ := commandsOf_localMemCalls va bytesPerTpc
    rw [h]
    intro c hmem
    simp only [List.mem_cons, List.not_mem_nil, or_false] at hmem
    rcases hmem with rfl | rfl <;> trivial

theorem ignores_of_launchCalls (qmdAddr : NvU64) (tag : OpTag) (sig : NvU64) :
    ∀ c ∈ commandsOf .compute (launchCalls qmdAddr tag), c.Ignores sig := by
  obtain ⟨a, b, h⟩ := commandsOf_launchCalls qmdAddr tag
  rw [h]
  intro c hmem
  simp only [List.mem_cons, List.not_mem_nil, or_false] at hmem
  rcases hmem with rfl | rfl | rfl <;> trivial

theorem ignores_of_copyCalls (dst src numBytes : NvU64) (tag : OpTag) (sig : NvU64) :
    ∀ c ∈ commandsOf .dma (copyCalls dst src numBytes tag), c.Ignores sig := by
  obtain ⟨-, a, b, h⟩ := commandsOf_copyCalls dst src numBytes tag
  rw [h]
  intro c hmem
  simp only [List.mem_cons, List.not_mem_nil, or_false] at hmem
  rcases hmem with rfl | rfl | rfl <;> trivial

/-- What an operation pushes behind itself releases its target, unless it is asynchronous. -/
theorem commandsOf_finishCalls (t : CommandTimeline) (type : QueueType) (async : Bool) :
    Closed type (t.finishCalls type async) ∧ commandsOf type (t.finishCalls type async) =
      if async then [] else [.release t.timelineSignal ((t.timelineCtr + 1).setWidth 64)] := by
  unfold CommandTimeline.finishCalls
  cases async with
  | true => exact ⟨closed_nil _, rfl⟩
  | false => exact commandsOf_releaseCalls type t.timelineSignal (t.timelineCtr + 1)

/-- What a launch pushes before itself, as commands. -/
theorem commandsOf_synchronizeCalls (t : CommandTimeline) (value : NvU64) (async : Bool) :
    commandsOf .compute (t.synchronizeCalls value async) = if async then [] else
      (if t.timelineNotifyPending then [.release t.timelineSignal (t.timelineCtr.setWidth 64)]
        else []) ++
      (if value = t.timelineCtr.setWidth 64 then []
        else [.acquire t.timelineSignal (t.timelineCtr.setWidth 64)]) := by
  unfold CommandTimeline.synchronizeCalls waitCalls
  cases async with
  | true => rfl
  | false =>
    rw [if_neg Bool.false_ne_true, if_neg Bool.false_ne_true, commandsOf_append (closed_compute _)]
    congr 1
    · split_ifs
      · exact (commandsOf_releaseCalls .compute _ _).2
      · rfl
    · split_ifs
      · rfl
      · exact commandsOf_acquireCall _ _

/-- Synchronising is balanced: the acquire follows the release of the value it carries. -/
theorem matched_synchronizeCalls (t : CommandTimeline) (value : NvU64) (async : Bool)
    {last : Option NvU64} (hlast : t.timelineNotifyPending = false →
      last = some (t.timelineCtr.setWidth 64)) :
    Matched t.timelineSignal last (commandsOf .compute (t.synchronizeCalls value async)) ∧
      ((async && t.timelineNotifyPending) = false → lastRelease t.timelineSignal last
        (commandsOf .compute (t.synchronizeCalls value async)) =
          some (t.timelineCtr.setWidth 64)) := by
  rw [commandsOf_synchronizeCalls]
  cases async with
  | true =>
    exact ⟨trivial, fun hp => by simpa using hlast (by simpa using hp)⟩
  | false =>
    rw [if_neg Bool.false_ne_true]
    cases hp : t.timelineNotifyPending with
    | true =>
      rw [if_pos rfl]
      split_ifs <;> simp [Matched, lastRelease]
    | false =>
      rw [if_neg Bool.false_ne_true, hlast hp]
      split_ifs <;> simp [Matched, lastRelease]

/-! ## The calls -/

/-- Local memory announced behind a change of mode. -/
theorem CommandTimeline.Balanced.localMem {s : List GpuCommand} {t t' : CommandTimeline}
    {calls : List MethodCall} (hb : t.Balanced s) (hmode : t.currentQueueType = some .compute)
    (hother : t.commandBuffer QueueType.compute.other = []) (hcalls : LocalMemCalls calls)
    (ht : t' = t.pushAll .compute calls) : t'.Balanced s := by
  subst ht
  have hign := ignores_of_localMemCalls hcalls t.timelineSignal
  refine hb.appends hmode hother (appends_pushAll ..) (fun _ => pushAll_timelineNotifyPending ..)
    (closed_compute _) fun last hlast => ⟨matched_of_ignores hign last, fun hp => ?_⟩
  rw [lastRelease_of_ignores hign, pushAll_timelineCtr]
  exact hlast (by simpa using hp)

/-- Synchronising keeps the balance. -/
theorem CommandTimeline.Balanced.synchronize {s : List GpuCommand} {t : CommandTimeline}
    (hb : t.Balanced s) (hmode : t.currentQueueType = some .compute)
    (hother : t.commandBuffer QueueType.compute.other = []) (value : NvU64) (async : Bool) :
    (t.synchronize value async).Balanced s := by
  refine hb.appends hmode hother (appends_synchronize ..) (fun hnil => ?_) (closed_compute _)
    fun last hlast => ?_
  · rw [synchronize_timelineNotifyPending]
    cases async with
    | true => rfl
    | false =>
      cases hp : t.timelineNotifyPending with
      | false => rfl
      | true => simp [CommandTimeline.synchronizeCalls, hp, releaseCalls] at hnil
  · rw [synchronize_timelineNotifyPending, synchronize_timelineCtr]
    exact matched_synchronizeCalls t value async hlast

/-- An operation keeps the balance: its methods concern no signal, and its target is released or
pending. -/
theorem CommandTimeline.Balanced.operation {s : List GpuCommand} {t : CommandTimeline}
    {type : QueueType} {ms : List MethodCall} (hb : t.Balanced s)
    (hmode : t.currentQueueType = some type) (hother : t.commandBuffer type.other = [])
    (hne : ms ≠ []) (hclosed : Closed type ms)
    (hign : ∀ c ∈ commandsOf type ms, c.Ignores t.timelineSignal) (async : Bool) :
    ((t.pushAll type ms).finish type async).Balanced s := by
  obtain ⟨hfinish, hcmds⟩ := commandsOf_finishCalls (t.pushAll type ms) type async
  refine hb.appends hmode hother ((appends_pushAll t type ms).trans (appends_finish ..))
    (fun hnil => absurd (List.append_eq_nil_iff.mp hnil).1 hne) (hclosed.append hfinish)
    fun last _ => ?_
  rw [commandsOf_append hfinish, hcmds, matched_append, lastRelease_append,
    lastRelease_of_ignores hign, finish_timelineNotifyPending, finish_timelineCtr]
  refine ⟨⟨matched_of_ignores hign last, ?_⟩, fun hasync => ?_⟩
  · split_ifs <;> trivial
  · rw [hasync, if_neg Bool.false_ne_true, pushAll_timelineSignal, pushAll_timelineCtr,
      lastRelease_singleton]

/-- Recording an event keeps the balance: the signal it releases is not the timeline's. -/
theorem CommandTimeline.Balanced.record {s : List GpuCommand} {t : CommandTimeline}
    (hb : t.Balanced s) {signal : NvU64} (hsignal : signal ≠ t.timelineSignal) :
    (t.record signal).Balanced s := by
  have hother : t.commandBuffer t.recordType.other = [] := by
    cases hmode : t.currentQueueType with
    | none => exact hb.settled.idle_of_none hmode _
    | some type =>
      rw [CommandTimeline.recordType, hmode]
      exact hb.settled.other_of_some type hmode
  have hsame : ∀ type, ({ t with currentQueueType := some t.recordType } :
      CommandTimeline).commandBuffer type = t.commandBuffer type := fun type => by
    cases type <;> rfl
  have hb' : ({ t with currentQueueType := some t.recordType } : CommandTimeline).Balanced s :=
    hb.congr hsame rfl rfl rfl rfl (settled_of_mode rfl ((hsame _).trans hother))
  obtain ⟨hclosed, hcmds⟩ := commandsOf_releaseCalls t.recordType signal 1
  refine hb'.appends rfl ((hsame _).trans hother) (appends_record t signal)
    (fun _ => pushAll_timelineNotifyPending ..) hclosed fun last hlast => ?_
  have hign : ∀ c ∈ commandsOf t.recordType (releaseCalls t.recordType signal 1),
      c.Ignores t.timelineSignal := by
    rw [hcmds]
    intro c hc
    obtain rfl := List.mem_singleton.mp hc
    exact hsignal
  refine ⟨matched_of_ignores hign last, fun hp => ?_⟩
  rw [lastRelease_of_ignores hign]
  have hctr : (t.record signal).timelineCtr = t.timelineCtr := pushAll_timelineCtr ..
  have hpend : (t.record signal).timelineNotifyPending = t.timelineNotifyPending :=
    pushAll_timelineNotifyPending ..
  rw [hctr]
  exact hlast (hpend.symm.trans hp)

/-- The base of a launch is balanced, and in compute mode. -/
theorem CommandTimeline.Balanced.launchBase {s : List GpuCommand} {h : Host}
    (hb : h.timeline.Balanced s) {calls : List MethodCall} (hcalls : LocalMemCalls calls)
    (async : Bool) :
    ((h.timeline.select .compute).pushAll .compute calls).Balanced s ∧
      (h.launchBase calls async).Balanced s ∧
      (h.launchBase calls async).currentQueueType = some .compute ∧
      (h.launchBase calls async).commandBuffer QueueType.compute.other = [] := by
  obtain ⟨hmode, hother, -⟩ := settled_select hb.settled .compute
  have hlocal := (hb.select .compute).localMem hmode hother hcalls rfl
  have hmode₁ : ((h.timeline.select .compute).pushAll .compute calls).currentQueueType =
      some .compute := by rw [pushAll_currentQueueType, hmode]
  have hother₁ : ((h.timeline.select .compute).pushAll .compute calls).commandBuffer
      QueueType.compute.other = [] := by rw [pushAll_commandBuffer_other, hother]
  have ha := appends_synchronize ((h.timeline.select .compute).pushAll .compute calls)
    (h.signals h.timeline.timelineSignal).value async
  exact ⟨hlocal, hlocal.synchronize hmode₁ hother₁ _ async, ha.currentQueueType.trans hmode₁,
    ha.commandBuffer_other.trans hother₁⟩

/-- **A call that builds commands keeps the balance**, whether it succeeds or fails, and submits
nothing. -/
theorem balanced_of_call {h h' : Host} {c : ApiCall} {r : Except Failure Unit} (hbuilds : c.Builds)
    (hu : h.Usable) {s : List GpuCommand} (hb : h.timeline.Balanced s)
    (hc : call c.run h = (r, h')) : h'.timeline.Balanced s ∧ h'.trace = h.trace := by
  have hsig := hu.timelineSignal
  cases c with
  | launchFunction function grid block sharedMemBytes params numParams async =>
    rcases wp_call hc (wp_launchFunction hsig function grid block sharedMemBytes params numParams
      async) with ⟨_, -, f, -, hok⟩ | ⟨_, -, herr⟩
    · obtain ⟨calls, qmdAddr, hcalls, ht⟩ := hok.timeline
      obtain ⟨-, hbase, hmode, hother⟩ := hb.launchBase hcalls async
      rw [ht]
      exact ⟨hbase.operation hmode hother (launchCalls_ne_nil _ _) (closed_compute _)
        (ignores_of_launchCalls _ _ _) async, hok.trace⟩
    · refine ⟨?_, herr.trace⟩
      rcases herr.timeline with ht | ⟨calls, hcalls, ht | ht⟩
      · rw [ht]
        exact hb
      · rw [ht]
        exact (hb.launchBase hcalls async).1
      · rw [ht]
        exact (hb.launchBase hcalls async).2.1
  | gpuMemcpy dst src numBytes async =>
    rcases wp_call hc (wp_gpuMemcpy hsig dst src numBytes async) with ⟨_, -, hok⟩ | ⟨_, -, rfl⟩
    · obtain ⟨dst', src', n, ht⟩ := hok.timeline
      obtain ⟨hmode, hother, -⟩ := settled_select hb.settled .dma
      rw [ht]
      exact ⟨(hb.select .dma).operation hmode hother (copyCalls_ne_nil _ _ _ _)
        (commandsOf_copyCalls _ _ _ _).1 (ignores_of_copyCalls _ _ _ _ _) async, hok.trace⟩
    · exact ⟨hb, rfl⟩
  | recordEvent event pStream =>
    rcases wp_call hc (wp_recordEvent event pStream h) with
      ⟨_, -, hrec, e, signal, -, hsignal, ht⟩ | ⟨_, -, hrec, ht⟩
    · rw [ht]
      refine ⟨hb.record ?_, hrec.trace⟩
      rw [hsignal]
      have hu' : h'.Usable := hu.call hc
      have hsame : h'.timeline.timelineSignal = h.timeline.timelineSignal := by
        rw [ht, CommandTimeline.record]
        simp
      rw [← hsame]
      exact hu'.events e _
    · rw [ht]
      exact ⟨hb, hrec.trace⟩
  | startExecution => exact hbuilds.elim
  | awaitExecution => exact hbuilds.elim

/-! ## Commencing -/

/-- Every wait of the CPU is for a value that was submitted for release before it, behind the
commands `s` submitted so far. -/
def AwaitsReleased (s : List GpuCommand) : List HostEffect → Prop
  | [] => True
  | .submit type commands :: rest => AwaitsReleased (s ++ commandsOf type commands) rest
  | .waitCpu signal value :: rest => .release signal (value.setWidth 64) ∈ s ∧ AwaitsReleased s rest

theorem awaitsReleased_append (s : List GpuCommand) (a b : List HostEffect) :
    AwaitsReleased s (a ++ b) ↔
      AwaitsReleased s a ∧ AwaitsReleased (s ++ submittedCommands a) b := by
  induction a generalizing s with
  | nil => simp [AwaitsReleased, submittedCommands]
  | cons fx rest ih =>
    cases fx with
    | submit type commands => simp [AwaitsReleased, submittedCommands, ih]
    | waitCpu signal value => simp [AwaitsReleased, submittedCommands, ih, and_assoc]

/-- Submitting a buffer waits for nothing. -/
theorem awaitsReleased_submitEffect (s : List GpuCommand) (type : QueueType)
    (buffer : List MethodCall) : AwaitsReleased s (submitEffect type buffer) := by
  unfold submitEffect
  split_ifs <;> trivial

/-- The loop over a backlog waits for the release each segment ends with. -/
theorem awaitsReleased_backlogEffects {timelineSignal : NvU64} {s : List GpuCommand}
    {entries : List CommandBufSplit}
    (h : ReleasesEach timelineSignal (lastRelease timelineSignal none s) entries) :
    AwaitsReleased s (backlogEffects timelineSignal entries) := by
  induction entries generalizing s with
  | nil => trivial
  | cons e rest ih =>
    obtain ⟨hlast, hrest⟩ := h
    rw [← lastRelease_append] at hlast
    have hmem : .release timelineSignal (e.timelineCtr.setWidth 64) ∈
        s ++ entryCommands timelineSignal e := by
      rcases mem_of_lastRelease hlast with hnone | hmem
      · cases hnone
      · exact hmem
    rw [show backlogEffects timelineSignal (e :: rest) =
      entryEffects timelineSignal e ++ backlogEffects timelineSignal rest from rfl,
      awaitsReleased_append, entryEffects, awaitsReleased_append, submittedCommands_append,
      submittedCommands_submitEffect]
    refine ⟨⟨awaitsReleased_submitEffect .., hmem, trivial⟩, ih ?_⟩
    rw [show s ++ (commandsOf e.queueType (e.commands timelineSignal) ++ submittedCommands
      [.waitCpu timelineSignal e.timelineCtr]) = s ++ entryCommands timelineSignal e by
        simp [submittedCommands, entryCommands], hlast]
    exact hrest

/-- Setting buffers aside keeps the balance. -/
theorem CommandTimeline.Balanced.setAside {s : List GpuCommand} {t : CommandTimeline}
    (hb : t.Balanced s) (type : QueueType) : (t.setAside type).Balanced s := by
  by_cases hbuf : t.commandBuffer type = []
  · rw [setAside_of_nil _ _ hbuf]
    exact hb
  · rw [setAside_of_ne_nil _ _ hbuf]
    refine (hb.backlog ?_).1
    -- a settled queue has commands for one engine only
    by_contra hother
    cases hmode : t.currentQueueType with
    | none => exact hbuf (hb.settled.idle_of_none hmode type)
    | some type' =>
      have hnil := hb.settled.other_of_some type' hmode
      cases type <;> cases type' <;> first | exact hother hnil | exact hbuf hnil

/-- With nothing left to commence, a queue is balanced when what was submitted is matched and ends
with the last target released. -/
theorem balanced_of_idle {s : List GpuCommand} {t : CommandTimeline} (hidle : t.Idle)
    (hback : t.commandBufBacklog = []) (hpend : t.timelineNotifyPending = false)
    (hmatched : Matched t.timelineSignal none s)
    (hlast : lastRelease t.timelineSignal none s = some (t.timelineCtr.setWidth 64)) :
    t.Balanced s := by
  have hwait : t.waiting = [] := by
    rw [CommandTimeline.waiting, bufferCommands_of_idle hidle, hback]
    rfl
  refine ⟨hidle.settled, ⟨fun type => ?_, ?_⟩, fun _ => hpend, ?_, fun _ => ?_, ?_⟩
  · rw [hidle type]
    exact closed_nil type
  · rw [hback]
    exact fun _ h => (List.not_mem_nil h).elim
  · rw [hwait, List.append_nil]
    exact hmatched
  · rw [hwait, List.append_nil]
    exact hlast
  · rw [hback]
    trivial

/-- What an idle, balanced queue has submitted ends with the last target released. -/
theorem CommandTimeline.Balanced.lastRelease_of_idle {s : List GpuCommand} {t : CommandTimeline}
    (hb : t.Balanced s) (hidle : t.Idle) (hback : t.commandBufBacklog = []) :
    lastRelease t.timelineSignal none s = some (t.timelineCtr.setWidth 64) := by
  have hlast := hb.released (hb.pending_of_idle hidle)
  rwa [CommandTimeline.waiting, bufferCommands_of_idle hidle, hback, List.append_nil,
    show backlogCommands t.timelineSignal [] = [] from rfl, List.append_nil] at hlast

/-- What a commence submits, followed by what is left to commence: nothing. -/
structure Host.HandsOver (s : List GpuCommand) (h h' : Host) : Prop where
  balanced : ∃ fx, h'.trace = h.trace ++ fx ∧ AwaitsReleased s fx ∧
    h'.timeline.Balanced (s ++ submittedCommands fx)
  idle : h'.timeline.Idle
  backlog : h'.timeline.commandBufBacklog = []

/-- **A successful commence keeps the balance** and hands everything over. -/
theorem handsOver_of_commence {h h' : Host} (hu : h.Usable) {s : List GpuCommand}
    (hb : h.timeline.Balanced s) (hc : call startExecution h = (.ok (), h')) : h.HandsOver s h' := by
  have hsig := hu.timelineSignal
  by_cases hnil : h.timeline.commandBufBacklog = []
  · rcases wp_call hc (wp_startExecution_of_nil hsig hnil) with ⟨_, -, hok⟩ | ⟨_, hr, -⟩
    · rcases hok.submitted with ⟨type, -, hother, hadds, hidle⟩ | ⟨hmode, hadds, hbuf⟩
      · refine ⟨⟨_, hadds.trace, awaitsReleased_submitEffect .., ?_⟩, hidle, hok.backlog⟩
        obtain ⟨hset, hlast⟩ := hb.backlog hother
        have hmatched := hset.matched
        -- what is submitted is what setting the buffer aside would leave waiting
        have hwait : (h.timeline.backlog type).waiting =
            commandsOf type (h.timeline.current type) := by
          have hidle' : (h.timeline.backlog type).Idle :=
            forall_queueType type (backlog_commandBuffer ..)
              (by rw [backlog_commandBuffer_other]; exact hother)
          rw [CommandTimeline.waiting, bufferCommands_of_idle hidle', backlog_commandBufBacklog,
            hnil, List.nil_append, backlogCommands_singleton, backlog_timelineSignal,
            List.append_nil]
          rfl
        rw [backlog_timelineSignal, hwait] at hmatched
        rw [hwait] at hlast
        rw [submittedCommands_submitEffect]
        refine balanced_of_idle hidle hok.backlog hok.pending ?_ ?_
        · rw [hok.targets.timelineSignal]
          exact hmatched
        · rw [hok.targets.timelineSignal, hok.targets.timelineCtr]
          exact hlast
      · have hidle := hb.settled.idle_of_none hmode
        have hlast := hb.lastRelease_of_idle hidle hnil
        have hidle' : h'.timeline.Idle := fun type => (hbuf type).trans (hidle type)
        refine ⟨⟨_, hadds.trace, trivial, ?_⟩, hidle', hok.backlog⟩
        have hmatched := (matched_append _ _ _).mp hb.matched
        rw [show submittedCommands [] = [] from rfl, List.append_nil]
        refine balanced_of_idle hidle' hok.backlog hok.pending ?_ ?_
        · rw [hok.targets.timelineSignal]
          exact hmatched.1
        · rw [hok.targets.timelineSignal, hok.targets.timelineCtr]
          exact hlast
    · cases hr
  · rcases wp_call hc (wp_startExecution_of_ne_nil hsig hu.waits hnil) with
      ⟨_, -, hok⟩ | ⟨_, hr, -⟩
    · have hset := (hb.setAside .compute).setAside .dma
      rw [show (h.timeline.setAside .compute).setAside .dma = h.timeline.setAsideBoth from rfl]
        at hset
      have hsame := sameTargets_setAsideBoth h.timeline
      have hidle := idle_setAsideBoth h.timeline
      have hpend := hset.pending_of_idle hidle
      have hwait : h.timeline.setAsideBoth.waiting =
          backlogCommands h.timeline.timelineSignal h.timeline.setAsideBoth.commandBufBacklog := by
        rw [CommandTimeline.waiting, bufferCommands_of_idle hidle, hsame.timelineSignal,
          List.append_nil]
      have hmatched := hset.matched
      have hlast := hset.released hpend
      have hentries := hset.entries
      rw [hsame.timelineSignal, hwait] at hmatched hlast
      rw [hsame.timelineSignal] at hentries
      refine ⟨⟨_, hok.adds.trace, awaitsReleased_backlogEffects hentries, ?_⟩, hok.idle,
        hok.backlog⟩
      rw [submittedCommands_backlogEffects]
      refine balanced_of_idle hok.idle hok.backlog (hok.pending.trans hpend) ?_ ?_
      · rw [hok.targets.timelineSignal]
        exact hmatched
      · rw [hok.targets.timelineSignal, hok.targets.timelineCtr, ← hsame.timelineCtr]
        exact hlast
    · cases hr

/-! ## Runs -/

/-- Streams reached by calls that build commands, each succeeding or failing, and by commences that
succeed. -/
inductive Host.Unrefused : Host → Prop
  | initialized {h : Host} : h.Initialized → Unrefused h
  | build {h h' : Host} {c : ApiCall} {r : Except Failure Unit} :
      Unrefused h → c.Builds → h.Step c r h' → Unrefused h'
  | commence {h h' : Host} : Unrefused h → h.Step .startExecution (.ok ()) h' → Unrefused h'

/-- The compute engine's set-up ends with the release of one. -/
theorem commandsOf_setupComputeCalls (computeClass : NvU32) (timelineSignal : NvU64) :
    ∃ a b c, commandsOf .compute (setupComputeCalls computeClass timelineSignal) =
      [.other a, .other b, .other c, .release timelineSignal 1] := by
  obtain ⟨-, hcmds⟩ := commandsOf_releaseCalls .compute timelineSignal 1
  rw [setupComputeCalls, commandsOf_append (closed_compute _), hcmds]
  exact ⟨_, _, _, rfl⟩

/-- The copy engine's set-up ends with the release of two. -/
theorem commandsOf_setupDmaCalls (timelineSignal : NvU64) :
    ∃ a, commandsOf .dma (setupDmaCalls timelineSignal) =
      [.other a, .release timelineSignal 2] := by
  obtain ⟨hclosed, hcmds⟩ := commandsOf_releaseCalls .dma timelineSignal 2
  rw [setupDmaCalls, commandsOf_append hclosed, hcmds]
  exact ⟨_, rfl⟩

/-- What a ready queue has submitted. -/
theorem Host.Ready.submittedCommands {h : Host} (hr : h.Ready) :
    ∃ a b c d, submittedCommands h.trace =
      [.other a, .other b, .other c, .release h.timeline.timelineSignal 1, .other d,
        .release h.timeline.timelineSignal 2] := by
  obtain ⟨computeClass, htrace⟩ := hr.trace
  obtain ⟨a, b, c, hcompute⟩ := commandsOf_setupComputeCalls computeClass h.timeline.timelineSignal
  obtain ⟨d, hdma⟩ := commandsOf_setupDmaCalls h.timeline.timelineSignal
  refine ⟨a, b, c, d, ?_⟩
  rw [htrace]
  simp [LibreCuda.submittedCommands, hcompute, hdma]

/-- A ready queue is balanced. -/
theorem Host.Ready.balanced {h : Host} (hr : h.Ready) :
    h.timeline.Balanced (LibreCuda.submittedCommands h.trace) := by
  obtain ⟨a, b, c, d, hcmds⟩ := hr.submittedCommands
  rw [hcmds]
  refine balanced_of_idle hr.idle hr.backlog hr.pending ?_ ?_
  · simp [Matched]
  · rw [hr.timelineCtr]
    simp [lastRelease]

/-- The waits of the set-up are for what it released. -/
theorem Host.Ready.awaits {h : Host} (hr : h.Ready) : AwaitsReleased [] h.trace := by
  obtain ⟨computeClass, htrace⟩ := hr.trace
  obtain ⟨a, b, c, hcompute⟩ := commandsOf_setupComputeCalls computeClass h.timeline.timelineSignal
  obtain ⟨d, hdma⟩ := commandsOf_setupDmaCalls h.timeline.timelineSignal
  rw [htrace]
  simp [AwaitsReleased, hcompute, hdma]

/-- **The balance holds in every such run**, and the CPU has waited for released values only. -/
theorem Host.Unrefused.balanced {h : Host} (hr : h.Unrefused) : h.Usable ∧
    h.timeline.Balanced (submittedCommands h.trace) ∧ AwaitsReleased [] h.trace := by
  induction hr with
  | initialized hi => exact ⟨hi.usable, hi.ready.balanced, hi.ready.awaits⟩
  | build _ hbuilds hstep ih =>
    rename_i h h' c r
    obtain ⟨hu, hb, ha⟩ := ih
    obtain ⟨values, gpGet, hc⟩ := hstep
    obtain ⟨hb', htrace⟩ := balanced_of_call hbuilds (hu.observe values gpGet) hb hc
    refine ⟨(hu.observe values gpGet).call hc, ?_⟩
    rw [htrace]
    exact ⟨hb', ha⟩
  | commence _ hstep ih =>
    rename_i h h'
    obtain ⟨hu, hb, ha⟩ := ih
    obtain ⟨values, gpGet, hc⟩ := hstep
    obtain ⟨fx, htrace, hawaits, hb'⟩ :=
      (handsOver_of_commence (hu.observe values gpGet) hb hc).balanced
    refine ⟨(hu.observe values gpGet).call hc, ?_⟩
    rw [htrace, submittedCommands_append, awaitsReleased_append]
    exact ⟨hb', ha, hawaits⟩

/-- **Every wait has its release.** However calls that build commands succeed or fail, as long as
commences succeed: behind each commence the last release of the timeline carries the counter, every
wait of the CPU is for a value submitted for release before it, and every acquire of the timeline
carries the value of the last release submitted before it. -/
theorem every_wait_has_its_release {h : Host} (hr : h.Unrefused) :
    (∀ h', h.Step .startExecution (.ok ()) h' →
      lastRelease h'.timeline.timelineSignal none (submittedCommands h'.trace) =
        some (h'.timeline.timelineCtr.setWidth 64)) ∧
    (∀ earlier signal value later, h.trace = earlier ++ .waitCpu signal value :: later →
      .release signal (value.setWidth 64) ∈ submittedCommands earlier) ∧
    (∀ earlier value later,
      submittedCommands h.trace = earlier ++ .acquire h.timeline.timelineSignal value :: later →
      lastRelease h.timeline.timelineSignal none earlier = some value) := by
  obtain ⟨hu, hb, ha⟩ := hr.balanced
  refine ⟨fun h' hstep => ?_, fun earlier signal value later hsplit => ?_,
    fun earlier value later hsplit => ?_⟩
  · obtain ⟨-, hb', -⟩ := (hr.commence hstep).balanced
    obtain ⟨values, gpGet, hc⟩ := hstep
    have hover := handsOver_of_commence (hu.observe values gpGet) hb hc
    exact hb'.lastRelease_of_idle hover.idle hover.backlog
  · rw [hsplit, awaitsReleased_append] at ha
    simpa using ha.2.1
  · have hm := ((matched_append _ _ _).mp hb.matched).1
    rw [hsplit, matched_append] at hm
    exact hm.2.1 rfl

/-- After the sample session the timeline was released with four last. -/
theorem every_wait_has_its_release_sample :
    lastRelease (sampleCall .startExecution sampleBuilt).timeline.timelineSignal none
      (submittedCommands (sampleCall .startExecution sampleBuilt).trace) = some 4 := by
  have hbuilt : sampleBuilt.Unrefused :=
    ((Host.Unrefused.initialized initialized_sampleStream).build (builds_sampleLaunch false)
      step_sampleLaunch).build (builds_sampleCopy false) step_sampleCopy
  have hctr : (sampleCall .startExecution sampleBuilt).timeline.timelineCtr = 4 := by rfl
  rw [(every_wait_has_its_release hbuilt).1 _ step_sampleStart, hctr]
  rfl

end LibreCuda
