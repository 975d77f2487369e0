import LibreCuda.Gpu.Orders
import LibreCuda.Queue.ArgumentPage
import LibreCuda.Queue.Order

/-! # What a queue has the engines do

A launch orders the compute engine to launch its descriptor, and a copy orders the copy engine to
copy. What waits for an engine is read without the signals, since releases are added when it is
handed over.

* **`Host.ordered`** says what a call orders.
* **`duties_of_launch`** and **`duties_of_copy`**: a call that builds commands adds what it orders to
  one engine, and nothing that begins an operation otherwise.
* **`leaves_of_start`**: a commence that is accepted hands over what waits, for each engine. -/

namespace LibreCuda

open Channels Exec

/-! ## Methods -/

section Methods

variable (type : QueueType)

theorem dutiesOf_releaseCalls (pSignal : NvU64) (signalTarget : NvU32) :
    dutiesOf type (releaseCalls type pSignal signalTarget) = [] := by cases type <;> rfl

theorem dutiesOf_synchronizeCalls (t : CommandTimeline) (value : NvU64) (async : Bool) :
    dutiesOf .compute (t.synchronizeCalls value async) = [] := by
  unfold CommandTimeline.synchronizeCalls waitCalls
  split_ifs
  · rfl
  · rw [List.append_nil, dutiesOf_releaseCalls]
  · rw [dutiesOf_append, dutiesOf_releaseCalls]
    rfl
  · rfl
  · rfl

theorem dutiesOf_finishCalls (t : CommandTimeline) (async : Bool) :
    dutiesOf type (t.finishCalls type async) = [] := by
  unfold CommandTimeline.finishCalls
  split_ifs
  · rfl
  · exact dutiesOf_releaseCalls ..

/-- Announcing local memory begins nothing. -/
theorem starts_localMemCalls {calls : List MethodCall} (hc : LocalMemCalls calls) :
    starts (dutiesOf .compute calls) = [] := by
  cases hc with
  | none => rfl
  | grown va bytesPerTpc => rfl

/-- The order that sending the address of a descriptor leads to. -/
def launchOrder (qmdAddr : NvU64) : Order := .launch (((qmdAddr >>> 8).setWidth 32).setWidth 64 <<< 8)

theorem gives_launchCalls (qmdAddr : NvU64) (tag : OpTag) :
    (orderEngine .compute).Gives (dutiesOf .compute (launchCalls qmdAddr tag))
      [(tag.number, launchOrder qmdAddr)] := fun _ => rfl

theorem gives_copyCalls (dst src numBytes : NvU64) (tag : OpTag) :
    (orderEngine .dma).Gives (dutiesOf .dma (copyCalls dst src numBytes tag))
      [(tag.number, .copy dst src (numBytes.setWidth 32))] := by
  intro regs
  have horder : (orderEngine .dma).orders regs (dutiesOf .dma (copyCalls dst src numBytes tag)) =
    [(tag.number, .copy (hi32 dst ++ lo32 dst) (hi32 src ++ lo32 src)
      (numBytes.setWidth 32))] := rfl
  rw [horder, hi32_append_lo32, hi32_append_lo32]

end Methods

/-! ## Queues -/

/-- The methods for an engine, in order. -/
def methodsFor (type : QueueType) (q : List (QueueType × MethodCall)) : List MethodCall :=
  q.filterMap fun m => if m.1 = type then some m.2 else none

/-- What waits for an engine, without the signals. -/
def CommandTimeline.duties (t : CommandTimeline) (type : QueueType) : List GpuCommand :=
  dutiesOf type (methodsFor type t.queued)

/-- What effects hand over to an engine, without the signals. -/
def sentDuties (type : QueueType) (fx : List HostEffect) : List GpuCommand :=
  fx.flatMap fun
    | .submit type' commands => if type' = type then dutiesOf type commands else []
    | .waitCpu .. => []

section Queues

variable (type type' : QueueType)

@[simp] theorem methodsFor_nil : methodsFor type [] = [] := rfl

@[simp] theorem methodsFor_append (a b : List (QueueType × MethodCall)) :
    methodsFor type (a ++ b) = methodsFor type a ++ methodsFor type b := List.filterMap_append

theorem methodsFor_tagged (ms : List MethodCall) :
    methodsFor type (tagged type' ms) = if type' = type then ms else [] := by
  rw [methodsFor, tagged, List.filterMap_map]
  split_ifs with hsame
  · subst hsame
    refine (List.filterMap_congr fun m _ => ?_).trans List.filterMap_some
    rw [Function.comp_apply, if_pos rfl]
  · refine List.filterMap_eq_nil_iff.mpr fun m _ => ?_
    rw [Function.comp_apply, if_neg hsame]

@[simp] theorem sentDuties_nil : sentDuties type [] = [] := rfl

@[simp] theorem sentDuties_append (fx gx : List HostEffect) :
    sentDuties type (fx ++ gx) = sentDuties type fx ++ sentDuties type gx := List.flatMap_append

theorem sentDuties_submitEffect (commands : List MethodCall) :
    sentDuties type (submitEffect type' commands) =
      if type' = type then dutiesOf type commands else [] := by
  unfold submitEffect
  split_ifs with hnil hsame hsame
  · rw [hnil]
    rfl
  · rfl
  · rw [sentDuties, List.flatMap_singleton]
    exact if_pos hsame
  · rw [sentDuties, List.flatMap_singleton]
    exact if_neg hsame

/-- A buffer that is submitted with a release of the timeline added, or without. -/
theorem sentDuties_released (buffer : List MethodCall) (notify : Bool) (timelineSignal : NvU64)
    (target : NvU32) :
    sentDuties type (submitEffect type' (buffer ++
      if notify then releaseCalls type' timelineSignal target else [])) =
      dutiesOf type (methodsFor type (tagged type' buffer)) := by
  rw [sentDuties_submitEffect, methodsFor_tagged]
  split_ifs with hsame
  · subst hsame
    rw [dutiesOf_append, dutiesOf_releaseCalls, List.append_nil]
  · rw [List.append_nil]
  · rfl

theorem sentDuties_backlogEffects (timelineSignal : NvU64) (entries : List CommandBufSplit) :
    sentDuties type (backlogEffects timelineSignal entries) =
      dutiesOf type (methodsFor type (backlogged entries)) := by
  induction entries with
  | nil => rfl
  | cons e rest ih =>
    have hentry := sentDuties_released type e.queueType e.commandBuffer e.timelineNotifyPending
      timelineSignal e.timelineCtr
    have hwait : sentDuties type (entryEffects timelineSignal e) =
        sentDuties type (submitEffect e.queueType (e.commands timelineSignal)) := by
      rw [entryEffects, sentDuties_append]
      exact List.append_nil _
    have hrest : backlogEffects timelineSignal (e :: rest) =
      entryEffects timelineSignal e ++ backlogEffects timelineSignal rest := rfl
    have htail : backlogged (e :: rest) =
      tagged e.queueType e.commandBuffer ++ backlogged rest := rfl
    rw [hrest, htail, sentDuties_append, methodsFor_append, dutiesOf_append, ih, hwait,
      CommandBufSplit.commands, hentry]

end Queues

/-! ## Building -/

/-- An engine gets more to do, and the other one does not. -/
structure Host.HandsOn (type : QueueType) (cmds : List GpuCommand) (h h' : Host) : Prop where
  settled : h'.timeline.Settled
  trace : h'.trace = h.trace
  duties : ∀ type', h'.timeline.duties type' =
    h.timeline.duties type' ++ if type = type' then cmds else []

/-- A change of mode followed by appending for its engine. -/
theorem handsOn_of_select {h h' : Host} {type : QueueType} {ms : List MethodCall}
    (hs : h.timeline.Settled) (ha : (h.timeline.select type).Appends type ms h'.timeline)
    (htrace : h'.trace = h.trace) : h.HandsOn type (dutiesOf type ms) h' := by
  have hemits := emits_of_select hs ha htrace
  refine ⟨hemits.settled, htrace, fun type' => ?_⟩
  rw [CommandTimeline.duties, hemits.queued, methodsFor_append, dutiesOf_append, methodsFor_tagged]
  split_ifs with hsame
  · rw [hsame]
    rfl
  · rfl

/-- Nothing happened to the queue. -/
theorem handsOn_of_eq {h h' : Host} (hs : h.timeline.Settled) (ht : h'.timeline = h.timeline)
    (htrace : h'.trace = h.trace) : h.HandsOn .compute [] h' := by
  refine ⟨ht ▸ hs, htrace, fun type' => ?_⟩
  rw [ht, ite_self, List.append_nil]

/-- The order of an operation. -/
def Host.orderOf (h : Host) : ApiCall → Option Order
  | .launchFunction (some function) .. =>
    some (launchOrder (qmdAddress (h.functions function)
      (h.queue.kernArgsPageVa + h.queue.kernArgsWriteIdx)))
  | .gpuMemcpy dst src numBytes _ => some (.copy dst src (numBytes.setWidth 32))
  | _ => none

/-- What a call with the given outcome orders, with the number of the operation. -/
def Host.ordered (h : Host) (c : ApiCall) : Except Failure Unit → List (ℕ × Order)
  | .ok _ => ((h.orderOf c).map fun order => (h.timeline.timelineSteps + 1, order)).toList
  | .error _ => []

/-- The descriptor that a launch hands over is where it left it. -/
theorem launchOrder_of_described {h h' : Host} {f : LibreCUFunction} {grid block : Dim3}
    {sharedMemBytes : NvU32} {ptr qmdAddr : NvU64} {calls : List MethodCall} {tag : OpTag}
    {async : Bool} (hcalls : LocalMemCalls calls)
    (hd : h.Describes h' f grid block sharedMemBytes ptr)
    (ht : h'.timeline = ((h.launchBase calls async).pushAll .compute
      (launchCalls qmdAddr tag)).finish .compute async) :
    launchOrder qmdAddr = launchOrder (qmdAddress f
      (h.queue.kernArgsPageVa + h.queue.kernArgsWriteIdx)) := by
  have happends := (((appends_pushAll (h.timeline.select .compute) .compute calls).trans
    (appends_synchronize _ (h.signals h.timeline.timelineSignal).value async)).trans
      (appends_pushAll (h.launchBase calls async) .compute (launchCalls qmdAddr tag))).trans
        (appends_finish _ .compute async)
  rw [← ht] at happends
  have hsent : (h.sentPcas h').map MethodCall.args = [[(qmdAddr >>> 8).setWidth 32]] := by
    rw [Host.sentPcas, happends.emitted, select_emitted, List.drop_left, List.map_map]
    show ((List.map id _).filter _).map _ = _
    rw [List.map_id, List.filter_append, List.filter_append, List.filter_append,
      not_isSendPcas_localMemCalls hcalls, not_isSendPcas_synchronizeCalls,
      not_isSendPcas_finishCalls, List.append_nil, List.nil_append, List.nil_append,
      isSendPcas_launchCalls]
  rw [hd.method] at hsent
  have hshifted : (qmdAddress f ptr >>> 8).setWidth 32 = (qmdAddr >>> 8).setWidth 32 := by
    simpa using hsent
  rw [← hd.pointer, launchOrder, launchOrder, hshifted]

/-- What a launch appends, from its local memory to the release behind it. -/
theorem appends_launchBase (h : Host) (calls : List MethodCall) (async : Bool) :
    (h.timeline.select .compute).Appends .compute
      (calls ++ ((h.timeline.select .compute).pushAll .compute calls).synchronizeCalls
        (h.signals h.timeline.timelineSignal).value async) (h.launchBase calls async) :=
  (appends_pushAll (h.timeline.select .compute) .compute calls).trans (appends_synchronize ..)

/-- **A launch** orders its descriptor, or nothing if it fails. -/
theorem duties_of_launch {h h' : Host} {r : Except Failure Unit} {function : Option ℕ}
    {grid block : Dim3} {sharedMemBytes : NvU32} {params : ℕ → ℕ → NvU8} {numParams : NvU64}
    {async : Bool} (hsig : h.timeline.timelineSignal ≠ 0) (hs : h.timeline.Settled)
    (hc : call (launchFunction function grid block sharedMemBytes params numParams async) h =
      (r, h')) :
    ∃ cmds, h.HandsOn .compute cmds h' ∧ (orderEngine .compute).Gives cmds
      (h.ordered (.launchFunction function grid block sharedMemBytes params numParams async) r) := by
  rcases wp_call hc (wp_launchFunction hsig function grid block sharedMemBytes params numParams
    async) with ⟨_, rfl, f, rfl, hok⟩ | ⟨_, rfl, herr⟩
  · obtain ⟨calls, qmdAddr, hcalls, ht⟩ := hok.timeline
    obtain ⟨ptr, hdescribed⟩ := described_of_launch hsig hc
    have horder := launchOrder_of_described hcalls hdescribed ht
    have happends := ((appends_launchBase h calls async).trans
      (appends_pushAll (h.launchBase calls async) .compute
        (launchCalls qmdAddr ⟨h.timeline.timelineSteps + 1, async⟩))).trans
          (appends_finish _ .compute async)
    rw [← ht] at happends
    refine ⟨_, handsOn_of_select hs happends hok.trace, ?_⟩
    rw [dutiesOf_append, dutiesOf_append, dutiesOf_append, dutiesOf_synchronizeCalls,
      dutiesOf_finishCalls, List.append_nil, List.append_nil]
    have hgives := (Engine.gives_of_starts (e := orderEngine .compute)
      (starts_localMemCalls hcalls)).append
        (gives_launchCalls qmdAddr ⟨h.timeline.timelineSteps + 1, async⟩)
    rw [horder] at hgives
    exact hgives
  · -- a launch that fails may have enqueued local memory and its waits
    rcases herr.timeline with ht | ⟨calls, hcalls, ht | ht⟩
    · exact ⟨[], handsOn_of_eq hs ht herr.trace, Engine.gives_nil⟩
    · have happends := appends_pushAll (h.timeline.select .compute) .compute calls
      rw [← ht] at happends
      exact ⟨_, handsOn_of_select hs happends herr.trace,
        Engine.gives_of_starts (starts_localMemCalls hcalls)⟩
    · have happends := appends_launchBase h calls async
      rw [← ht] at happends
      refine ⟨_, handsOn_of_select hs happends herr.trace, Engine.gives_of_starts ?_⟩
      rw [dutiesOf_append, dutiesOf_synchronizeCalls, List.append_nil]
      exact starts_localMemCalls hcalls

/-- The commands of a copy that succeeds. -/
theorem wp_gpuMemcpy_timeline {h : Host} (hsig : h.timeline.timelineSignal ≠ 0)
    (dst src numBytes : NvU64) (async : Bool) :
    wp (gpuMemcpy dst src numBytes async)
      (fun _ h' => h'.timeline = ((h.timeline.select .dma).pushAll .dma (copyCalls dst src numBytes
        ⟨h.timeline.timelineSteps + 1, async⟩)).finish .dma async)
      (fun _ _ => True) h := by
  rw [gpuMemcpy, wp_bind, wp_validate]
  split_ifs
  · rw [wp_bind, wp_validate]
    split_ifs
    · rw [wp_bind, wp_validate]
      split_ifs
      · rw [wp_bind, wp_onTimeline, wp_selectQueueType, wp_performCopy (by simpa using hsig),
          setTimeline_timeline, setTimeline_timeline, select_timelineSteps]

/-- **A copy** orders the transfer, or nothing if it fails. -/
theorem duties_of_copy {h h' : Host} {r : Except Failure Unit} {dst src numBytes : NvU64}
    {async : Bool} (hsig : h.timeline.timelineSignal ≠ 0) (hs : h.timeline.Settled)
    (hc : call (gpuMemcpy dst src numBytes async) h = (r, h')) :
    ∃ cmds, h.HandsOn .dma cmds h' ∧
      (orderEngine .dma).Gives cmds (h.ordered (.gpuMemcpy dst src numBytes async) r) := by
  have hdone := wp_and (wp_gpuMemcpy hsig dst src numBytes async)
    (wp_gpuMemcpy_timeline hsig dst src numBytes async)
  rcases wp_call hc hdone with ⟨_, rfl, hok, ht⟩ | ⟨_, rfl, hsame, -⟩
  · have happends := (appends_pushAll (h.timeline.select .dma) .dma
      (copyCalls dst src numBytes ⟨h.timeline.timelineSteps + 1, async⟩)).trans
        (appends_finish _ .dma async)
    rw [← ht] at happends
    refine ⟨_, handsOn_of_select hs happends hok.trace, ?_⟩
    rw [dutiesOf_append, dutiesOf_finishCalls, List.append_nil]
    exact gives_copyCalls dst src numBytes ⟨h.timeline.timelineSteps + 1, async⟩
  · subst hsame
    refine ⟨[], ⟨hs, rfl, fun type' => ?_⟩, Engine.gives_nil⟩
    rw [ite_self, List.append_nil]

/-- **Recording an event** orders nothing. -/
theorem duties_of_record {h h' : Host} {r : Except Failure Unit} {event : Option ℕ} {pStream : ℕ}
    (hs : h.timeline.Settled) (hc : call (recordEvent event pStream) h = (r, h')) :
    ∃ type, h.HandsOn type [] h' ∧ h'.operations = h.operations := by
  rcases wp_call hc (wp_recordEvent event pStream h) with
    ⟨_, -, hrec, _, signal, -, -, ht⟩ | ⟨_, -, hrec, ht⟩
  · have happends := appends_record h.timeline signal
    rw [← ht, ← select_recordType hs] at happends
    have hhands := handsOn_of_select hs happends hrec.trace
    rw [dutiesOf_releaseCalls] at hhands
    exact ⟨_, hhands, hrec.operations⟩
  · exact ⟨_, handsOn_of_eq hs ht hrec.trace, hrec.operations⟩

/-! ## Calls -/

/-- The orders for an engine. -/
def ordersFor (type : QueueType) (orders : List (ℕ × Order)) : List (ℕ × Order) :=
  orders.filter fun x => x.2.engine = type

/-- **What a call leaves to do**: the streams of the engines, with what the call hands over, are
those before and what the call orders. -/
structure Host.Leaves (h : Host) (c : ApiCall) (r : Except Failure Unit) (h' : Host)
    (fx : List HostEffect) : Prop where
  settled : h'.timeline.Settled
  trace : h'.trace = h.trace ++ fx
  streams : ∀ type, ∃ cmds, sentDuties type fx ++ h'.timeline.duties type =
    h.timeline.duties type ++ cmds ∧
      (orderEngine type).Gives cmds (ordersFor type (h.ordered c r))

theorem ordersFor_self {type : QueueType} {orders : List (ℕ × Order)}
    (h : ∀ x ∈ orders, x.2.engine = type) : ordersFor type orders = orders :=
  List.filter_eq_self.mpr fun x hx => by simpa using h x hx

theorem ordersFor_of_ne {type type' : QueueType} {orders : List (ℕ × Order)}
    (h : ∀ x ∈ orders, x.2.engine = type) (hne : type ≠ type') : ordersFor type' orders = [] :=
  List.filter_eq_nil_iff.mpr fun x hx => by simpa [h x hx] using hne

/-- A call that hands on to one engine. -/
theorem Host.HandsOn.leaves {h h' : Host} {c : ApiCall} {r : Except Failure Unit} {type : QueueType}
    {cmds : List GpuCommand} (hhands : h.HandsOn type cmds h')
    (hgives : (orderEngine type).Gives cmds (h.ordered c r))
    (hengine : ∀ x ∈ h.ordered c r, x.2.engine = type) : h.Leaves c r h' [] := by
  refine ⟨hhands.settled, hhands.trace.trans (List.append_nil _).symm, fun type' => ?_⟩
  refine ⟨if type = type' then cmds else [], hhands.duties type', ?_⟩
  split_ifs with hsame
  · subst hsame
    rw [ordersFor_self hengine]
    exact hgives
  · rw [ordersFor_of_ne hengine hsame]
    exact Engine.gives_nil

/-- **A commence that is accepted** hands over what waits, for each engine. -/
theorem leaves_of_start {h h' : Host} (hu : h.Usable) (hs : h.timeline.Settled)
    (hc : call startExecution h = (.ok (), h')) :
    ∃ fx, h.Leaves .startExecution (.ok ()) h' fx := by
  obtain ⟨-, hidle, hback⟩ := carries_of_commence hu hs hc
  have hnone : ∀ type, h'.timeline.duties type = [] := fun type => by
    rw [CommandTimeline.duties, CommandTimeline.queued, hback, hidle, hidle]
    rfl
  have hleaves : ∀ fx, h'.trace = h.trace ++ fx →
      (∀ type, sentDuties type fx = h.timeline.duties type) →
        h.Leaves .startExecution (.ok ()) h' fx := fun fx htrace hsent =>
    ⟨hidle.settled, htrace, fun type => ⟨[], by rw [hsent, hnone], Engine.gives_nil⟩⟩
  by_cases hnil : h.timeline.commandBufBacklog = []
  · rcases wp_call hc (wp_startExecution_of_nil hu.timelineSignal hnil) with
      ⟨_, -, hok⟩ | ⟨_, herr, -⟩
    · rcases hok.submitted with ⟨type, -, hother, hadds, -⟩ | ⟨hmode, hadds, -⟩
      · refine ⟨_, hleaves _ hadds.trace fun type' => ?_⟩
        rw [CommandTimeline.current, sentDuties_released, CommandTimeline.duties,
          queued_of_other hother, hnil]
        rfl
      · refine ⟨_, hleaves _ hadds.trace fun type => ?_⟩
        have hbuf := hs.idle_of_none hmode
        rw [CommandTimeline.duties, CommandTimeline.queued, hnil, hbuf, hbuf]
        rfl
    · cases herr
  · rcases wp_call hc (wp_startExecution_of_ne_nil hu.timelineSignal hu.waits hnil) with
      ⟨_, -, hok⟩ | ⟨_, herr, -⟩
    · refine ⟨_, hleaves _ hok.adds.trace fun type => ?_⟩
      rw [sentDuties_backlogEffects, queued_setAsideBoth]
      rfl
    · cases herr

/-- **What every call leaves to do**, as long as commences are accepted. -/
theorem Host.Usable.leaves {h h' : Host} {c : ApiCall} {r : Except Failure Unit} (hu : h.Usable)
    (hs : h.timeline.Settled) (haccepted : c = .startExecution → r = .ok ())
    (hc : Exec.call c.run h = (r, h')) : ∃ fx, h.Leaves c r h' fx := by
  have hsig := hu.timelineSignal
  cases c with
  | launchFunction function grid block sharedMemBytes params numParams async =>
    obtain ⟨cmds, hhands, hgives⟩ := duties_of_launch hsig hs hc
    refine ⟨[], hhands.leaves hgives fun x hx => ?_⟩
    cases r with
    | ok _ =>
      cases function with
      | none => cases hx
      | some f => rw [List.mem_singleton.mp hx]; rfl
    | error e => cases hx
  | gpuMemcpy dst src numBytes async =>
    obtain ⟨cmds, hhands, hgives⟩ := duties_of_copy hsig hs hc
    refine ⟨[], hhands.leaves hgives fun x hx => ?_⟩
    cases r with
    | ok _ => rw [List.mem_singleton.mp hx]; rfl
    | error e => cases hx
  | recordEvent event pStream =>
    obtain ⟨type, hhands, -⟩ := duties_of_record hs hc
    have hnone : h.ordered (.recordEvent event pStream) r = [] := by cases r <;> rfl
    exact ⟨[], hhands.leaves (by rw [hnone]; exact Engine.gives_nil) (by rw [hnone]; nofun)⟩
  | startExecution =>
    obtain rfl := haccepted rfl
    exact leaves_of_start hu hs hc
  | awaitExecution =>
    rcases wp_call hc (wp_awaitExecution hsig hu.waits) with ⟨_, -, hok⟩ | ⟨_, -, hfail⟩
    · obtain ⟨-, -, -, ht, -, htrace⟩ := hok
      have hnone : h.ordered .awaitExecution r = [] := by cases r <;> rfl
      refine ⟨_, ht ▸ hs, htrace, fun type => ⟨[], ?_, by rw [hnone]; exact Engine.gives_nil⟩⟩
      rw [ht, List.append_nil]
      rfl
    · exact hfail.elim

/-- An operation with its engine. -/
def Operation.placed (o : Operation) : ℕ × QueueType := (o.number, o.engine)

/-- **The operations are what was ordered**, each for its engine. -/
theorem Host.Usable.placed {h h' : Host} {c : ApiCall} {r : Except Failure Unit} (hu : h.Usable)
    (hc : Exec.call c.run h = (r, h')) :
    h'.operations.map Operation.placed = h.operations.map Operation.placed ++
      (h.ordered c r).map fun x => (x.1, x.2.engine) := by
  have hsig := hu.timelineSignal
  have hnone : h.ordered c r = [] → h'.operations = h.operations →
      h'.operations.map Operation.placed = h.operations.map Operation.placed ++
        (h.ordered c r).map fun x => (x.1, x.2.engine) := fun hordered hops => by
    rw [hordered, hops, List.map_nil, List.append_nil]
  cases c with
  | launchFunction function grid block sharedMemBytes params numParams async =>
    rcases wp_call hc (wp_launchFunction hsig function grid block sharedMemBytes params numParams
      async) with ⟨_, rfl, f, rfl, hok⟩ | ⟨_, rfl, herr⟩
    · obtain ⟨_, _, _, -, -, hops⟩ := hok.operation
      rw [hops, List.map_append]
      rfl
    · exact hnone rfl herr.operations
  | gpuMemcpy dst src numBytes async =>
    rcases wp_call hc (wp_gpuMemcpy hsig dst src numBytes async) with
      ⟨_, rfl, hok⟩ | ⟨_, rfl, hsame⟩
    · rw [hok.operation, List.map_append]
      rfl
    · exact hnone rfl (by rw [hsame])
  | recordEvent event pStream =>
    refine hnone (by cases r <;> rfl) ?_
    rcases wp_call hc (wp_recordEvent event pStream h) with ⟨_, -, hrec, -⟩ | ⟨_, -, hrec, -⟩
    · exact hrec.operations
    · exact hrec.operations
  | startExecution => exact hnone (by cases r <;> rfl) (args_of_start hu hc).2.1
  | awaitExecution =>
    refine hnone (by cases r <;> rfl) ?_
    rcases wp_call hc (wp_awaitExecution hsig hu.waits) with ⟨_, -, hok⟩ | ⟨_, -, hfail⟩
    · exact hok.1.operations
    · exact hfail.elim

end LibreCuda
