import LibreCuda.Queue.Session

/-! # Operations and their commands

Operations are numbered in the order they are enqueued, from three on: the targets one and two
belong to the set-up. A method that starts an operation carries its number.

* **`Host.Numbered`**: the list of operations and the count of the timeline agree.
* **`Host.Tagged`**: every start that waits to be commenced belongs to an operation that was
enqueued.
* **`Host.Usable.enqueued`** says what a call does to both, and what it submits. -/

namespace LibreCuda

open Channels Exec

/-- The tag is on a method that waits to be commenced. -/
def CommandTimeline.Tags (t : CommandTimeline) (tag : OpTag) : Prop :=
  ∃ m : MethodCall, m.op = some tag ∧ ((∃ type, m ∈ t.commandBuffer type) ∨
    ∃ e ∈ t.commandBufBacklog, m ∈ e.commandBuffer)

/-- No method carries a tag. -/
def Untagged (ms : List MethodCall) : Prop := ∀ m ∈ ms, m.op = none

theorem Untagged.append {a b : List MethodCall} (ha : Untagged a) (hb : Untagged b) :
    Untagged (a ++ b) := fun m hm => (List.mem_append.mp hm).elim (ha m) (hb m)

theorem untagged_nil : Untagged [] := fun _ hm => (List.not_mem_nil hm).elim

theorem untagged_releaseCalls (type : QueueType) (pSignal : NvU64) (signalTarget : NvU32) :
    Untagged (releaseCalls type pSignal signalTarget) := by
  cases type <;> simp [Untagged, releaseCalls]

theorem untagged_synchronizeCalls (t : CommandTimeline) (value : NvU64) (async : Bool) :
    Untagged (t.synchronizeCalls value async) := by
  unfold CommandTimeline.synchronizeCalls waitCalls
  split_ifs
  · exact untagged_nil
  · exact (untagged_releaseCalls _ _ _).append untagged_nil
  · exact (untagged_releaseCalls _ _ _).append (by simp [Untagged, acquireCall])
  · exact untagged_nil.append untagged_nil
  · exact untagged_nil.append (by simp [Untagged, acquireCall])

theorem untagged_finishCalls (t : CommandTimeline) (type : QueueType) (async : Bool) :
    Untagged (t.finishCalls type async) := by
  unfold CommandTimeline.finishCalls
  split_ifs
  · exact untagged_nil
  · exact untagged_releaseCalls _ _ _

theorem untagged_localMemCalls {calls : List MethodCall} (hc : LocalMemCalls calls) :
    Untagged calls := by
  cases hc with
  | none => exact untagged_nil
  | grown va bytesPerTpc => simp [Untagged, localMemCalls]

/-! ## Tags on the timeline -/

section Tags

variable {t t' : CommandTimeline} {tag : OpTag}

/-- Tags after appending are those before or on what was appended. -/
theorem CommandTimeline.Appends.tags {type : QueueType} {ms : List MethodCall}
    (ha : t.Appends type ms t') (h : t'.Tags tag) : t.Tags tag ∨ ∃ m ∈ ms, m.op = some tag := by
  obtain ⟨m, hm, ⟨type', hmem⟩ | ⟨e, he, hmem⟩⟩ := h
  · by_cases hsame : type' = type
    · subst hsame
      rw [ha.commandBuffer] at hmem
      rcases List.mem_append.mp hmem with hmem | hmem
      · exact Or.inl ⟨m, hm, Or.inl ⟨type', hmem⟩⟩
      · exact Or.inr ⟨m, hmem, hm⟩
    · obtain rfl : type' = type.other := by
        cases type <;> cases type' <;> first | rfl | exact absurd rfl hsame
      rw [ha.commandBuffer_other] at hmem
      exact Or.inl ⟨m, hm, Or.inl ⟨_, hmem⟩⟩
  · rw [ha.commandBufBacklog] at he
    exact Or.inl ⟨m, hm, Or.inr ⟨e, he, hmem⟩⟩

theorem CommandTimeline.Appends.tags_of_untagged {type : QueueType} {ms : List MethodCall}
    (ha : t.Appends type ms t') (hms : Untagged ms) (h : t'.Tags tag) : t.Tags tag := by
  rcases ha.tags h with h | ⟨m, hmem, hm⟩
  · exact h
  · rw [hms m hmem] at hm
    cases hm

/-- Setting a buffer aside moves its tags. -/
theorem tags_backlog {type : QueueType} (h : (t.backlog type).Tags tag) : t.Tags tag := by
  obtain ⟨m, hm, ⟨type', hmem⟩ | ⟨e, he, hmem⟩⟩ := h
  · by_cases hsame : type' = type
    · subst hsame
      rw [backlog_commandBuffer] at hmem
      cases hmem
    · obtain rfl : type' = type.other := by
        cases type <;> cases type' <;> first | rfl | exact absurd rfl hsame
      rw [backlog_commandBuffer_other] at hmem
      exact ⟨m, hm, Or.inl ⟨_, hmem⟩⟩
  · rw [backlog_commandBufBacklog] at he
    rcases List.mem_append.mp he with he | he
    · exact ⟨m, hm, Or.inr ⟨e, he, hmem⟩⟩
    · obtain rfl := List.mem_singleton.mp he
      exact ⟨m, hm, Or.inl ⟨type, hmem⟩⟩

theorem tags_setAside {type : QueueType} (h : (t.setAside type).Tags tag) : t.Tags tag := by
  unfold CommandTimeline.setAside at h
  split_ifs at h
  · exact h
  · exact tags_backlog h

/-- The mode carries no tags. -/
theorem tags_setMode {type : Option QueueType}
    (h : ({ t with currentQueueType := type } : CommandTimeline).Tags tag) : t.Tags tag := by
  obtain ⟨m, hm, ⟨type', hmem⟩ | hback⟩ := h
  · exact ⟨m, hm, Or.inl ⟨type', by cases type' <;> exact hmem⟩⟩
  · exact ⟨m, hm, Or.inr hback⟩

theorem tags_select {type : QueueType} (h : (t.select type).Tags tag) : t.Tags tag := by
  unfold CommandTimeline.select at h
  split_ifs at h
  · exact tags_setMode h
  · exact tags_backlog (tags_setMode h)
  · exact h

/-- The commands a segment is submitted with carry the tags of its buffer. -/
theorem tags_entry {e : CommandBufSplit} (he : e ∈ t.commandBufBacklog) {m : MethodCall}
    (hmem : m ∈ e.commands t.timelineSignal) (hm : m.op = some tag) : t.Tags tag := by
  rcases List.mem_append.mp hmem with hmem | hmem
  · exact ⟨m, hm, Or.inr ⟨e, he, hmem⟩⟩
  · split_ifs at hmem
    · rw [untagged_releaseCalls _ _ _ m hmem] at hm
      cases hm
    · cases hmem

theorem tags_current {type : QueueType} {m : MethodCall} (hmem : m ∈ t.current type)
    (hm : m.op = some tag) : t.Tags tag := by
  rcases List.mem_append.mp hmem with hmem | hmem
  · exact ⟨m, hm, Or.inl ⟨type, hmem⟩⟩
  · split_ifs at hmem
    · rw [untagged_releaseCalls _ _ _ m hmem] at hm
      cases hm
    · cases hmem

end Tags

/-! ## Calls -/

/-- What a call did to the operations: nothing, or it enqueued the next one. -/
inductive Host.Enqueued (h h' : Host) : Prop
  | none : h'.operations = h.operations →
      h'.timeline.timelineSteps = h.timeline.timelineSteps →
      (∀ tag, h'.timeline.Tags tag → h.timeline.Tags tag) → h.Enqueued h'
  | one (o : Operation) : o.number = h.timeline.timelineSteps + 1 →
      h'.operations = h.operations ++ [o] →
      h'.timeline.timelineSteps = h.timeline.timelineSteps + 1 →
      (∀ tag, h'.timeline.Tags tag → h.timeline.Tags tag ∨ tag = ⟨o.number, o.async⟩) →
      h.Enqueued h'

/-- The effects submit methods whose tags were waiting only. -/
def SubmitsTags (t : CommandTimeline) (fx : List HostEffect) : Prop :=
  ∀ type commands, .submit type commands ∈ fx → ∀ m ∈ commands, ∀ tag, m.op = some tag → t.Tags tag

theorem submitsTags_nil (t : CommandTimeline) : SubmitsTags t [] :=
  fun _ _ h => (List.not_mem_nil h).elim

theorem submitsTags_submitEffect {t : CommandTimeline} {type : QueueType}
    {commands : List MethodCall}
    (h : ∀ m ∈ commands, ∀ tag, m.op = some tag → t.Tags tag) :
    SubmitsTags t (submitEffect type commands) := by
  intro type' commands' hmem
  unfold submitEffect at hmem
  split_ifs at hmem
  · cases hmem
  · cases List.mem_singleton.mp hmem
    exact h

theorem submitsTags_backlogEffects {t : CommandTimeline} {sig : NvU64}
    {entries : List CommandBufSplit}
    (h : ∀ e ∈ entries, ∀ m ∈ e.commands sig, ∀ tag, m.op = some tag → t.Tags tag) :
    SubmitsTags t (backlogEffects sig entries) := by
  intro type commands hmem
  obtain ⟨e, he, hmem⟩ := List.mem_flatMap.mp hmem
  rcases List.mem_append.mp hmem with hmem | hmem
  · exact submitsTags_submitEffect (h e he) type commands hmem
  · cases List.mem_singleton.mp hmem

/-- An operation enqueued behind a change of mode. -/
theorem enqueued_operation {h h' : Host} {t : CommandTimeline} {type : QueueType}
    {ms : List MethodCall} {o : Operation} (hnumber : o.number = h.timeline.timelineSteps + 1)
    (hops : h'.operations = h.operations ++ [o])
    (hsteps : t.timelineSteps = h.timeline.timelineSteps)
    (htags : ∀ tag, t.Tags tag → h.timeline.Tags tag)
    (hms : ∀ m ∈ ms, ∀ tag, m.op = some tag → tag = ⟨o.number, o.async⟩)
    (ht : h'.timeline = (t.pushAll type ms).finish type o.async) : h.Enqueued h' := by
  refine .one o hnumber hops ?_ fun tag h' => ?_
  · rw [ht, finish_timelineSteps, pushAll_timelineSteps, hsteps]
  · rw [ht] at h'
    have h' := (appends_finish (t.pushAll type ms) type o.async).tags_of_untagged
      (untagged_finishCalls _ _ _) h'
    rcases (appends_pushAll t type ms).tags h' with h' | ⟨m, hmem, hm⟩
    · exact Or.inl (htags tag h')
    · exact Or.inr (hms m hmem tag hm)

theorem tags_launchBase {h : Host} {calls : List MethodCall} (hcalls : LocalMemCalls calls)
    {async : Bool} {tag : OpTag} (ht : (h.launchBase calls async).Tags tag) :
    h.timeline.Tags tag := by
  have ht := (appends_synchronize _ _ async).tags_of_untagged (untagged_synchronizeCalls _ _ _) ht
  exact tags_select ((appends_pushAll ..).tags_of_untagged (untagged_localMemCalls hcalls) ht)

/-- A commence enqueues nothing, and submits what was waiting. -/
theorem Host.Usable.enqueued_start {h h' : Host} {r : Except Failure Unit} (hu : h.Usable)
    (hc : Exec.call startExecution h = (r, h')) :
    h.Enqueued h' ∧ ∃ fx, h'.trace = h.trace ++ fx ∧ SubmitsTags h.timeline fx := by
  have hsig := hu.timelineSignal
  have hcurrent : ∀ type, SubmitsTags h.timeline (submitEffect type (h.timeline.current type)) :=
    fun type => submitsTags_submitEffect fun _ hmem _ hm => tags_current hmem hm
  by_cases hnil : h.timeline.commandBufBacklog = []
  · rcases wp_call hc (wp_startExecution_of_nil hsig hnil) with ⟨_, -, hok⟩ | ⟨_, -, herr⟩
    · rcases hok.submitted with ⟨type, -, -, hadds, hidle⟩ | ⟨-, hadds, hbuf⟩
      · refine ⟨.none hadds.operations hok.targets.timelineSteps fun tag htags => ?_, _,
          hadds.trace, hcurrent type⟩
        obtain ⟨m, hm, ⟨type', hmem⟩ | ⟨e, he, -⟩⟩ := htags
        · rw [hidle type'] at hmem
          cases hmem
        · rw [hok.backlog] at he
          cases he
      · refine ⟨.none hadds.operations hok.targets.timelineSteps fun tag htags => ?_, _,
          hadds.trace, submitsTags_nil _⟩
        obtain ⟨m, hm, ⟨type', hmem⟩ | ⟨e, he, -⟩⟩ := htags
        · exact ⟨m, hm, Or.inl ⟨type', hbuf type' ▸ hmem⟩⟩
        · rw [hok.backlog] at he
          cases he
    · rcases herr with rfl | ⟨type, -, hother, hadds, hcounts, hbuf, hother'⟩
      · exact ⟨.none rfl rfl fun _ => id, [], (List.append_nil _).symm, submitsTags_nil _⟩
      -- refused: what was put into the buffer stays there
      · refine ⟨.none hadds.operations hcounts.timelineSteps fun tag htags => ?_, _,
          hadds.trace, submitsTags_nil _⟩
        obtain ⟨m, hm, ⟨type', hmem⟩ | ⟨e, he, hmem⟩⟩ := htags
        · revert hmem
          refine forall_queueType (p := fun type' => m ∈ h'.timeline.commandBuffer type' →
            h.timeline.Tags tag) type (fun hmem => ?_) (fun hmem => ?_) type'
          · exact tags_current (hbuf ▸ hmem) hm
          · rw [hother'] at hmem
            cases hmem
        · rw [hcounts.commandBufBacklog] at he
          exact ⟨m, hm, Or.inr ⟨e, he, hmem⟩⟩
  · have hboth : ∀ tag, h.timeline.setAsideBoth.Tags tag → h.timeline.Tags tag :=
      fun tag htags => tags_setAside (tags_setAside htags)
    have hentries : ∀ e ∈ h.timeline.setAsideBoth.commandBufBacklog,
        ∀ m ∈ e.commands h.timeline.timelineSignal, ∀ tag, m.op = some tag →
          h.timeline.Tags tag := fun e he m hmem tag hm => by
      rw [← (sameTargets_setAsideBoth h.timeline).timelineSignal] at hmem
      exact hboth tag (tags_entry he hmem hm)
    rcases wp_call hc (wp_startExecution_of_ne_nil hsig hu.waits hnil) with
      ⟨_, -, hok⟩ | ⟨_, -, herr⟩
    · refine ⟨.none hok.adds.operations hok.targets.timelineSteps fun tag htags => ?_, _,
        hok.adds.trace, submitsTags_backlogEffects hentries⟩
      obtain ⟨m, hm, ⟨type', hmem⟩ | ⟨e, he, -⟩⟩ := htags
      · rw [hok.idle type'] at hmem
        cases hmem
      · rw [hok.backlog] at he
        cases he
    -- stopped at an entry: it stays in its buffer, and those in front of it were submitted
    · obtain ⟨before, e, after, hsplit, hadds, hbuf, hother⟩ := herr.stopped
      refine ⟨.none hadds.operations herr.targets.timelineSteps fun tag htags => ?_, _,
        hadds.trace, submitsTags_backlogEffects fun e' he' => hentries e' ?_⟩
      · obtain ⟨m, hm, ⟨type', hmem⟩ | ⟨e', he', hmem⟩⟩ := htags
        · revert hmem
          refine forall_queueType (p := fun type' => m ∈ h'.timeline.commandBuffer type' →
            h.timeline.Tags tag) e.queueType (fun hmem => ?_) (fun hmem => ?_) type'
          · refine hentries e ?_ m (hbuf ▸ hmem) tag hm
            rw [hsplit]
            exact List.mem_append_right _ List.mem_cons_self
          · rw [hother] at hmem
            cases hmem
        · rw [herr.backlog] at he'
          exact hboth tag ⟨m, hm, Or.inr ⟨e', he', hmem⟩⟩
      · rw [hsplit]
        exact List.mem_append_left _ he'

/-- **What a call does to the operations, and what it submits.** -/
theorem Host.Usable.enqueued {h h' : Host} {c : ApiCall} {r : Except Failure Unit} (hu : h.Usable)
    (hc : Exec.call c.run h = (r, h')) :
    h.Enqueued h' ∧ ∃ fx, h'.trace = h.trace ++ fx ∧ SubmitsTags h.timeline fx := by
  have hsig := hu.timelineSignal
  have hquiet : h'.trace = h.trace →
      ∃ fx, h'.trace = h.trace ++ fx ∧ SubmitsTags h.timeline fx := fun htrace =>
    ⟨[], htrace.trans (List.append_nil _).symm, submitsTags_nil _⟩
  cases c with
  | launchFunction function grid block sharedMemBytes params numParams async =>
    rcases wp_call hc (wp_launchFunction hsig function grid block sharedMemBytes params numParams
      async) with ⟨_, -, f, -, hok⟩ | ⟨_, -, herr⟩
    · obtain ⟨calls, qmdAddr, hcalls, ht⟩ := hok.timeline
      obtain ⟨c, rest, ptr, -, -, hops⟩ := hok.operation
      refine ⟨enqueued_operation rfl hops (launchBase_timelineSteps h calls async)
        (fun tag => tags_launchBase hcalls) ?_ ht, hquiet hok.trace⟩
      intro m hm tag htag
      simp only [launchCalls, List.mem_cons, List.not_mem_nil, or_false] at hm
      rcases hm with rfl | rfl | rfl <;> cases htag
      rfl
    · refine ⟨?_, hquiet herr.trace⟩
      -- a launch that fails may have enqueued local memory and its waits, which carry no tag
      rcases herr.timeline with ht | ⟨calls, hcalls, ht | ht⟩
      · exact .none herr.operations (by rw [ht]) (by rw [ht]; exact fun _ => id)
      · refine .none herr.operations (by rw [ht]; simp) fun tag htags => ?_
        rw [ht] at htags
        exact tags_select
          ((appends_pushAll ..).tags_of_untagged (untagged_localMemCalls hcalls) htags)
      · refine .none herr.operations (by rw [ht]; simp) fun tag htags => ?_
        rw [ht] at htags
        exact tags_launchBase hcalls htags
  | gpuMemcpy dst src numBytes async =>
    rcases wp_call hc (wp_gpuMemcpy hsig dst src numBytes async) with ⟨_, -, hok⟩ | ⟨_, -, rfl⟩
    · obtain ⟨dst', src', n, ht⟩ := hok.timeline
      refine ⟨enqueued_operation rfl hok.operation (select_timelineSteps ..)
        (fun tag => tags_select) ?_ ht, hquiet hok.trace⟩
      intro m hm tag htag
      simp only [copyCalls, List.mem_cons, List.not_mem_nil, or_false] at hm
      rcases hm with rfl | rfl | rfl <;> cases htag
      rfl
    · exact ⟨.none rfl rfl fun _ => id, hquiet rfl⟩
  | recordEvent event pStream =>
    rcases wp_call hc (wp_recordEvent event pStream h) with
      ⟨_, -, hrec, e, signal, -, -, ht⟩ | ⟨_, -, hrec, ht⟩
    · refine ⟨.none hrec.operations ?_ fun tag htags => ?_, hquiet hrec.trace⟩
      · rw [ht]
        exact pushAll_timelineSteps ..
      · rw [ht] at htags
        exact tags_setMode ((appends_record h.timeline signal).tags_of_untagged
          (untagged_releaseCalls _ _ _) htags)
    · exact ⟨.none hrec.operations (by rw [ht]) (by rw [ht]; exact fun _ => id), hquiet hrec.trace⟩
  | startExecution => exact hu.enqueued_start hc
  | awaitExecution =>
    rcases wp_call hc (wp_awaitExecution hsig hu.waits) with ⟨_, -, hok⟩ | ⟨_, -, hf⟩
    · obtain ⟨hkept, -, -, ht, -, htrace⟩ := hok
      refine ⟨.none hkept.operations (by rw [ht]) (by rw [ht]; exact fun _ => id), _, htrace, ?_⟩
      intro type commands hmem
      cases List.mem_singleton.mp hmem
    · exact hf.elim

/-! ## Reachable streams -/

/-- Operations are numbered from three on, and the timeline counts them. -/
structure Host.Numbered (h : Host) : Prop where
  numbers : h.operations.map Operation.number = List.range' 3 h.operations.length
  steps : h.timeline.timelineSteps = h.operations.length + 2

/-- Some operation was enqueued under the tag. -/
def Host.Knows (h : Host) (tag : OpTag) : Prop :=
  ∃ o ∈ h.operations, o.number = tag.number ∧ o.async = tag.async

/-- Every start that waits to be commenced belongs to an operation. -/
def Host.Tagged (h : Host) : Prop := ∀ tag, h.timeline.Tags tag → h.Knows tag

theorem Host.Enqueued.numbered {h h' : Host} (he : h.Enqueued h') (hn : h.Numbered) :
    h'.Numbered := by
  cases he with
  | none hops hsteps _ => exact ⟨hops ▸ hn.numbers, by rw [hsteps, hops]; exact hn.steps⟩
  | one o hnumber hops hsteps _ =>
    constructor
    · rw [hops, List.map_append, hn.numbers, List.length_append, List.range'_append_1.symm]
      simp [hnumber, hn.steps, Nat.add_comm, Nat.add_left_comm]
    · rw [hsteps, hops, hn.steps]
      simp

theorem Host.Enqueued.knows {h h' : Host} (he : h.Enqueued h') {tag : OpTag} (hk : h.Knows tag) :
    h'.Knows tag := by
  obtain ⟨o, ho, hsame⟩ := hk
  cases he with
  | none hops _ _ => exact ⟨o, hops ▸ ho, hsame⟩
  | one o' _ hops _ _ => exact ⟨o, hops ▸ List.mem_append_left _ ho, hsame⟩

theorem Host.Enqueued.tagged {h h' : Host} (he : h.Enqueued h') (ht : h.Tagged) : h'.Tagged := by
  intro tag htag
  cases he with
  | none hops hsteps htags =>
    exact (Host.Enqueued.none hops hsteps htags).knows (ht tag (htags tag htag))
  | one o hnumber hops hsteps htags =>
    rcases htags tag htag with htag | rfl
    · exact (Host.Enqueued.one o hnumber hops hsteps htags).knows (ht tag htag)
    · exact ⟨o, by rw [hops]; simp, rfl, rfl⟩

/-- A ready queue has no operations. -/
theorem Host.Ready.numbered {h : Host} (hr : h.Ready) : h.Numbered ∧ h.Tagged := by
  refine ⟨⟨by rw [hr.operations]; rfl, by rw [hr.operations]; exact hr.timelineSteps⟩, ?_⟩
  rintro tag ⟨m, hm, ⟨type, hmem⟩ | ⟨e, he, -⟩⟩
  · rw [hr.idle type] at hmem
    cases hmem
  · rw [hr.backlog] at he
    cases he

/-- The number of an operation says where it stands. -/
theorem Host.Numbered.number {h : Host} (hn : h.Numbered) {i : ℕ} {a : Operation}
    (ha : h.operations[i]? = some a) : i < h.operations.length ∧ a.number = 3 + i := by
  have hlt := (List.getElem?_eq_some_iff.mp ha).1
  have hmap : (h.operations.map Operation.number)[i]? = some a.number := by
    rw [List.getElem?_map, ha]
    rfl
  rw [hn.numbers, List.getElem?_range' hlt] at hmap
  exact ⟨hlt, by simpa using (Option.some.inj hmap).symm⟩

/-- The numbers of operations grow in the order they were enqueued. -/
theorem Host.Numbered.lt {h : Host} (hn : h.Numbered) {i j : ℕ} {a b : Operation}
    (ha : h.operations[i]? = some a) (hb : h.operations[j]? = some b) (hij : i < j) :
    2 < a.number ∧ a.number < b.number := by
  rw [(hn.number ha).2, (hn.number hb).2]
  omega

/-- The timeline has counted every operation. -/
theorem Host.Numbered.bounds {h : Host} (hn : h.Numbered) {o : Operation}
    (ho : o ∈ h.operations) : 2 < o.number ∧ o.number ≤ h.timeline.timelineSteps := by
  obtain ⟨i, hi⟩ := List.getElem?_of_mem ho
  obtain ⟨hlt, hnumber⟩ := hn.number hi
  rw [hnumber, hn.steps]
  omega

/-- Two operations of one number are one. -/
theorem Host.Numbered.unique {h : Host} (hn : h.Numbered) {a b : Operation}
    (ha : a ∈ h.operations) (hb : b ∈ h.operations) (hab : a.number = b.number) : a = b := by
  obtain ⟨i, hi⟩ := List.getElem?_of_mem ha
  obtain ⟨j, hj⟩ := List.getElem?_of_mem hb
  rcases Nat.lt_trichotomy i j with hij | rfl | hij
  · exact absurd hab (hn.lt hi hj hij).2.ne
  · exact Option.some.inj (hi.symm.trans hj)
  · exact absurd hab.symm (hn.lt hj hi hij).2.ne

end LibreCuda
