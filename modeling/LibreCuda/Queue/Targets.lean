import LibreCuda.Foundation.Runs
import LibreCuda.Queue.Consistency

/-! # Targets of the timeline

`timelineCtr` has 32 bits, and every launch and every copy counts it up for the life of a stream;
the CPU waits while the 64-bit value of the signal is below a 32-bit target.

* **`Targeted.step`** is a stream with the targets of its operations.
* **`Targeted.Grows`**: every target is held back by the values of all earlier ones, and so is every
  wait that is made or prepared.
* **`targets_grow_iff`**: they are in exactly the runs that count up fewer than `2 ^ 32` times.
* **`targets_repeat`**: copies alone, each commenced and awaited, reach a target that is not. -/

namespace LibreCuda

open Exec Runs

/-! ## The counter -/

/-- The counter, and the targets set aside, are numbers of increments in 32 bits. -/
structure CommandTimeline.Counted (t : CommandTimeline) : Prop where
  timelineCtr : t.timelineCtr = BitVec.ofNat 32 t.timelineSteps
  started : 1 ≤ t.timelineSteps
  backlog : ∀ e ∈ t.commandBufBacklog,
    ∃ k, 1 ≤ k ∧ k ≤ t.timelineSteps ∧ e.timelineCtr = BitVec.ofNat 32 k

section Counted

variable {t t' : CommandTimeline}

theorem CommandTimeline.Counted.congr (h : t.Counted) (hctr : t'.timelineCtr = t.timelineCtr)
    (hsteps : t'.timelineSteps = t.timelineSteps)
    (hback : ∀ e ∈ t'.commandBufBacklog, e ∈ t.commandBufBacklog) : t'.Counted := by
  refine ⟨?_, ?_, fun e he => ?_⟩
  · rw [hctr, hsteps]
    exact h.timelineCtr
  · rw [hsteps]
    exact h.started
  · rw [hsteps]
    exact h.backlog e (hback e he)

theorem CommandTimeline.Counted.backlog_step (h : t.Counted) (type : QueueType) :
    (t.backlog type).Counted := by
  refine ⟨?_, ?_, fun e he => ?_⟩
  · rw [backlog_timelineCtr, backlog_timelineSteps]
    exact h.timelineCtr
  · rw [backlog_timelineSteps]
    exact h.started
  · rw [backlog_timelineSteps]
    rw [backlog_commandBufBacklog, List.mem_append, List.mem_singleton] at he
    rcases he with he | rfl
    · exact h.backlog e he
    · exact ⟨t.timelineSteps, h.started, Nat.le_refl _, h.timelineCtr⟩

theorem CommandTimeline.Counted.setAside (h : t.Counted) (type : QueueType) :
    (t.setAside type).Counted := by
  by_cases hbuf : t.commandBuffer type = []
  · rw [setAside_of_nil _ _ hbuf]
    exact h
  · rw [setAside_of_ne_nil _ _ hbuf]
    exact h.backlog_step type

theorem CommandTimeline.Counted.select (h : t.Counted) (type : QueueType) :
    (t.select type).Counted := by
  unfold CommandTimeline.select
  split_ifs
  · exact h.congr rfl rfl fun _ => id
  · exact (h.backlog_step type.other).congr rfl rfl fun _ => id
  · exact h

theorem CommandTimeline.Counted.finish (h : t.Counted) (type : QueueType) (async : Bool) :
    (t.finish type async).Counted := by
  refine ⟨?_, ?_, fun e he => ?_⟩
  · rw [finish_timelineCtr, finish_timelineSteps, h.timelineCtr, BitVec.ofNat_add]
    rfl
  · rw [finish_timelineSteps]
    omega
  · rw [(appends_finish t type async).commandBufBacklog] at he
    obtain ⟨k, hpos, hle, heq⟩ := h.backlog e he
    rw [finish_timelineSteps]
    exact ⟨k, hpos, by omega, heq⟩

end Counted

variable {h h' : Host}

/-- The base of a launch counts nothing. -/
theorem counted_launchBase (hcount : h.timeline.Counted) (calls : List MethodCall) (async : Bool) :
    ((h.timeline.select .compute).pushAll .compute calls).Counted ∧
      (h.launchBase calls async).Counted ∧
      ((h.timeline.select .compute).pushAll .compute calls).timelineSteps = h.timeline.timelineSteps ∧
      (h.launchBase calls async).timelineSteps = h.timeline.timelineSteps := by
  have hpushed : ((h.timeline.select .compute).pushAll .compute calls).Counted :=
    (hcount.select .compute).congr (by simp) (by simp) fun e he => by simpa using he
  refine ⟨hpushed, hpushed.congr ?_ ?_ fun e he => ?_, ?_, ?_⟩
  · simp [Host.launchBase]
  · simp [Host.launchBase]
  · rwa [Host.launchBase, (appends_synchronize _ _ _).commandBufBacklog] at he
  · simp
  · simp [Host.launchBase]

/-- A commence counts nothing, and neither does one that is refused. -/
theorem counted_of_start {r : Except Failure Unit} (hu : h.Usable) (hcount : h.timeline.Counted)
    (hc : call startExecution h = (r, h')) :
    h'.timeline.Counted ∧ h'.timeline.timelineSteps = h.timeline.timelineSteps := by
  have hsig := hu.timelineSignal
  have htargets : ∀ t : CommandTimeline, h.timeline.SameTargets t →
      (∀ e ∈ t.commandBufBacklog, e ∈ h.timeline.setAsideBoth.commandBufBacklog) →
      t.Counted ∧ t.timelineSteps = h.timeline.timelineSteps := by
    intro t hsame hback
    have hboth : h.timeline.setAsideBoth.Counted := (hcount.setAside .compute).setAside .dma
    have hsame' := sameTargets_setAsideBoth h.timeline
    exact ⟨hboth.congr (hsame.timelineCtr.trans hsame'.timelineCtr.symm)
      (hsame.timelineSteps.trans hsame'.timelineSteps.symm) hback, hsame.timelineSteps⟩
  by_cases hnil : h.timeline.commandBufBacklog = []
  · rcases wp_call hc (wp_startExecution_of_nil hsig hnil) with ⟨_, rfl, hok⟩ | ⟨e, rfl, herr⟩
    · refine htargets _ hok.targets fun e he => ?_
      rw [hok.backlog] at he
      cases he
    · rcases herr with hsame | ⟨type, -, -, -, hcounts, -⟩
      · rw [hsame]
        exact ⟨hcount, rfl⟩
      · refine htargets _ hcounts.toSameTargets fun e he => ?_
        rw [hcounts.commandBufBacklog, hnil] at he
        cases he
  · rcases wp_call hc (wp_startExecution_of_ne_nil hsig hu.waits hnil) with
      ⟨_, rfl, hok⟩ | ⟨e, rfl, herr⟩
    · refine htargets _ hok.targets fun e he => ?_
      rw [hok.backlog] at he
      cases he
    · exact htargets _ herr.targets fun e he => herr.backlog ▸ he

/-- **What a call counts**: an operation that succeeds counts one, and nothing else counts. -/
theorem counted_of_call {c : ApiCall} {r : Except Failure Unit} (hu : h.Usable)
    (hcount : h.timeline.Counted) (hc : call c.run h = (r, h')) :
    h'.timeline.Counted ∧ h'.timeline.timelineSteps =
      h.timeline.timelineSteps + if c.isOperation && r.isOk then 1 else 0 := by
  have hsig := hu.timelineSignal
  cases c with
  | launchFunction function grid block sharedMemBytes params numParams async =>
    rcases wp_call hc (wp_launchFunction hsig function grid block sharedMemBytes params numParams
      async) with ⟨_, rfl, f, -, hl⟩ | ⟨e, rfl, hf⟩
    · obtain ⟨calls, qmdAddr, -, ht⟩ := hl.timeline
      obtain ⟨-, hbase, -, hsteps⟩ := counted_launchBase hcount calls async
      have hpushed : ((h.launchBase calls async).pushAll .compute
          (launchCalls qmdAddr ⟨h.timeline.timelineSteps + 1, async⟩)).Counted :=
        hbase.congr (by simp) (by simp) fun e he => by simpa using he
      refine ⟨ht ▸ hpushed.finish _ _, ?_⟩
      rw [ht, finish_timelineSteps, pushAll_timelineSteps, hsteps]
      rfl
    · have hsame : h'.timeline.Counted ∧
          h'.timeline.timelineSteps = h.timeline.timelineSteps := by
        -- no way to fail gets as far as the counter
        rcases hf.timeline with ht | ⟨calls, -, ht | ht⟩
        · rw [ht]
          exact ⟨hcount, rfl⟩
        · obtain ⟨hpushed, -, hsteps, -⟩ := counted_launchBase hcount calls async
          rw [ht]
          exact ⟨hpushed, hsteps⟩
        · obtain ⟨-, hbase, -, hsteps⟩ := counted_launchBase hcount calls async
          rw [ht]
          exact ⟨hbase, hsteps⟩
      exact hsame
  | gpuMemcpy dst src numBytes async =>
    rcases wp_call hc (wp_gpuMemcpy hsig dst src numBytes async) with ⟨_, rfl, hok⟩ | ⟨e, rfl, hsame⟩
    · obtain ⟨dst', src', numBytes', ht⟩ := hok.timeline
      have hpushed : ((h.timeline.select .dma).pushAll .dma
          (copyCalls dst' src' numBytes' ⟨h.timeline.timelineSteps + 1, async⟩)).Counted :=
        (hcount.select .dma).congr (by simp) (by simp) fun e he => by simpa using he
      refine ⟨ht ▸ hpushed.finish _ _, ?_⟩
      rw [ht, finish_timelineSteps, pushAll_timelineSteps, select_timelineSteps]
      rfl
    · rw [hsame]
      exact ⟨hcount, rfl⟩
  | recordEvent event pStream =>
    rcases wp_call hc (wp_recordEvent event pStream h) with
      ⟨_, rfl, -, _, signal, -, -, ht⟩ | ⟨e, rfl, -, ht⟩
    · rw [ht]
      exact ⟨hcount.congr (pushAll_timelineCtr ..) (pushAll_timelineSteps ..) fun e he => by
        simpa [CommandTimeline.record] using he, pushAll_timelineSteps ..⟩
    · rw [ht]
      exact ⟨hcount, rfl⟩
  | startExecution => exact counted_of_start hu hcount hc
  | awaitExecution =>
    rcases wp_call hc (wp_awaitExecution hsig hu.waits) with ⟨_, rfl, -, -, -, ht, -⟩ | ⟨e, -, hfalse⟩
    · rw [ht]
      exact ⟨hcount, rfl⟩
    · exact hfalse.elim

/-! ## Runs -/

/-- A stream with the targets of its operations. -/
structure Targeted where
  host : Host
  /-- Bookkeeping: the targets counted so far, in order. The first two are those of the set-up. -/
  targets : List NvU32 := [1, 2]

/-- A call, made after the driver has observed the GPU: the values of signals, and the positions on
both rings. -/
abbrev Targeted.Call : Type := ApiCall × (NvU64 → NvU64) × (NvU32 × NvU32)

/-- What a call does: an operation that is enqueued releases the value the counter has then. -/
def Targeted.step (s : Targeted) (e : Targeted.Call) : Option Targeted :=
  let o := call e.1.run (s.host.observe e.2.1 e.2.2)
  some
    { host := o.2
      targets := s.targets ++
        if e.1.isOperation && o.1.isOk then [o.2.timeline.timelineCtr] else [] }

/-- `signalWaitCpu` goes on waiting: the value of the signal is below the target. -/
def HoldsBack (value : NvU64) (target : NvU32) : Prop := value < target.setWidth 64

/-- The targets that are waited for: by `awaitExecution`, and for the segments set aside. -/
def CommandTimeline.waitTargets (t : CommandTimeline) : List NvU32 :=
  t.timelineCtr :: t.commandBufBacklog.map CommandBufSplit.timelineCtr

/-- **Targets grow**: no wait for one is satisfied by the value of an earlier one. -/
structure Targeted.Grows (s : Targeted) : Prop where
  increasing : s.targets.Pairwise fun a b => HoldsBack (a.setWidth 64) b
  waits : ∀ w ∈ s.host.timeline.waitTargets, ∃ earlier later,
    s.targets = earlier ++ w :: later ∧ ∀ t ∈ earlier, HoldsBack (t.setWidth 64) w

/-- What a run starts from. -/
structure Targeted.Start (s : Targeted) : Prop where
  host : s.host.Initialized
  targets : s.targets = [1, 2]

/-- The targets are the first numbers, in 32 bits. -/
structure Targeted.Numbered (s : Targeted) : Prop where
  usable : s.host.Usable
  counted : s.host.timeline.Counted
  targets : s.targets = (List.range' 1 s.host.timeline.timelineSteps).map (BitVec.ofNat 32)

variable {s s' : Targeted}

theorem Targeted.Start.numbered (hs : s.Start) : s.Numbered := by
  have hready := hs.host.ready
  refine ⟨hs.host.usable, ⟨?_, ?_, fun e he => ?_⟩, ?_⟩
  · rw [hready.timelineCtr, hready.timelineSteps]
    rfl
  · rw [hready.timelineSteps]
    decide
  · rw [hready.backlog] at he
    cases he
  · rw [hs.targets, hready.timelineSteps]
    rfl

/-- **One call** counts the targets up. -/
theorem Targeted.Numbered.step (h : s.Numbered) {e : Targeted.Call} (hs : s.step e = some s') :
    s'.Numbered := by
  obtain rfl := Option.some.inj hs
  have hu := h.usable.observe e.2.1 e.2.2
  have hc : call e.1.run (s.host.observe e.2.1 e.2.2) =
    ((call e.1.run (s.host.observe e.2.1 e.2.2)).1,
      (call e.1.run (s.host.observe e.2.1 e.2.2)).2) := rfl
  obtain ⟨hcount, hsteps⟩ := counted_of_call hu h.counted hc
  refine ⟨hu.call hc, hcount, ?_⟩
  show s.targets ++ _ = _
  have hbefore : (s.host.observe e.2.1 e.2.2).timeline.timelineSteps =
    s.host.timeline.timelineSteps := rfl
  rw [hsteps, hbefore, List.range'_append_1.symm, List.map_append, ← h.targets]
  split_ifs with hop
  · rw [hcount.timelineCtr, hsteps, hbefore, if_pos hop]
    simp [List.range', Nat.add_comm]
  · rfl

/-- Numbers in 32 bits grow as long as they fit. -/
theorem holdsBack_ofNat {a b : ℕ} (hlt : a < b) (hb : b < 2 ^ 32) :
    HoldsBack ((BitVec.ofNat 32 a).setWidth 64) (BitVec.ofNat 32 b) := by
  unfold HoldsBack
  rw [BitVec.lt_def, BitVec.toNat_setWidth, BitVec.toNat_setWidth, BitVec.toNat_ofNat,
    BitVec.toNat_ofNat]
  omega

/-- **Targets grow in exactly the states that have counted fewer than `2 ^ 32` of them.** -/
theorem Targeted.Numbered.grows_iff (h : s.Numbered) : s.Grows ↔ s.targets.length < 2 ^ 32 := by
  have hlength : s.targets.length = s.host.timeline.timelineSteps := by
    rw [h.targets, List.length_map, List.length_range']
  constructor
  · intro hgrows
    by_contra hmany
    -- the target counted as the `2 ^ 32`-th is zero, which the first one does not wait for
    have hpair := List.pairwise_iff_getElem.mp hgrows.increasing 0 (2 ^ 32 - 1) (by omega) (by omega)
      (by decide)
    simp only [h.targets, List.getElem_map, List.getElem_range'] at hpair
    exact absurd hpair (by unfold HoldsBack; decide)
  · intro hfew
    rw [hlength] at hfew
    refine ⟨?_, fun w hw => ?_⟩
    · rw [h.targets, List.pairwise_map]
      refine (List.pairwise_lt_range' (s := 1) (n := s.host.timeline.timelineSteps)).imp_of_mem
        fun ha hb hlt => ?_
      have hbound := (List.mem_range'_1.mp hb).2
      exact holdsBack_ofNat hlt (by omega)
    · obtain ⟨k, hpos, hle, rfl⟩ : ∃ k, 1 ≤ k ∧ k ≤ s.host.timeline.timelineSteps ∧
          w = BitVec.ofNat 32 k := by
        rcases List.mem_cons.mp hw with rfl | hmem
        · exact ⟨_, h.counted.started, Nat.le_refl _, h.counted.timelineCtr⟩
        · obtain ⟨e, he, rfl⟩ := List.mem_map.mp hmem
          exact h.counted.backlog e he
      refine ⟨(List.range' 1 (k - 1)).map (BitVec.ofNat 32),
        (List.range' (k + 1) (s.host.timeline.timelineSteps - k)).map (BitVec.ofNat 32), ?_,
        fun t ht => ?_⟩
      · have hsplit : List.range' 1 s.host.timeline.timelineSteps = List.range' 1 (k - 1) ++
            k :: List.range' (k + 1) (s.host.timeline.timelineSteps - k) := by
          have hk : 1 + (k - 1) = k := by omega
          have hrest := List.range'_append_1 (s := 1) (m := k - 1)
            (n := s.host.timeline.timelineSteps - k + 1)
          rw [hk, List.range'_succ] at hrest
          rw [hrest]
          congr 1
          omega
        rw [h.targets, hsplit, List.map_append, List.map_cons]
      · obtain ⟨n, hn, rfl⟩ := List.mem_map.mp ht
        have hbound := (List.mem_range'_1.mp hn).2
        exact holdsBack_ofNat (by omega) (by omega)

/-- **Targets grow in exactly the runs that count fewer than `2 ^ 32` of them.** -/
theorem targets_grow_iff (hs : s.Start) (calls : List Targeted.Call) :
    Always Targeted.step Targeted.Grows s calls ↔
      Always Targeted.step (fun s => s.targets.length < 2 ^ 32) s calls := by
  have hnumbered : Always Targeted.step Targeted.Numbered s calls :=
    always_of_step (fun _ _ _ h hstep => h.step hstep) hs.numbered
  constructor
  · intro hgrows
    exact (hnumbered.and hgrows).imp fun _ h => h.1.grows_iff.mp h.2
  · intro hfew
    exact (hnumbered.and hfew).imp fun _ h => h.1.grows_iff.mpr h.2

/-! ## Runs on a sample stream -/

/-- The sample stream behind its set-up. -/
def sampleTargeted : Targeted := { host := sampleStream }

theorem start_sampleTargeted : sampleTargeted.Start := ⟨initialized_sampleStream, rfl⟩

/-- A launch and a copy count two targets. -/
theorem targets_grow_iff_sample : Always Targeted.step Targeted.Grows sampleTargeted
    [(sampleLaunch false, fun _ => 2, (0, 0)), (sampleCopy false, fun _ => 2, (0, 0))] := by
  refine (targets_grow_iff start_sampleTargeted _).mpr ⟨by decide, fun s₁ h₁ => ?_⟩
  obtain rfl := Option.some.inj h₁
  refine ⟨by decide +kernel, fun s₂ h₂ => ?_⟩
  obtain rfl := Option.some.inj h₂
  show List.length _ < _
  decide +kernel

/-- All operations are for one engine. -/
def SingleEngine (type : QueueType) (calls : List Targeted.Call) : Prop :=
  ∀ e ∈ calls, e.1.isOperation = true → ∀ t : CommandTimeline, e.1.engine t = type

/-- Every commence is followed by an await. -/
def CommencesAwaited : List Targeted.Call → Prop
  | [] => True
  | (.startExecution, _) :: (.awaitExecution, _) :: rest => CommencesAwaited rest
  | (.startExecution, _) :: _ => False
  | _ :: rest => CommencesAwaited rest

/-- Nothing waits to be commenced. -/
structure Host.Resting (h : Host) : Prop where
  usable : h.Usable
  idle : h.timeline.Idle
  backlog : h.timeline.commandBufBacklog = []

/-- A commence without a backlog succeeds once the GPU has fetched all entries of the ring. -/
theorem startExecution_of_fetched (hu : h.Usable) (hnil : h.timeline.commandBufBacklog = [])
    {type : QueueType} (hmode : h.timeline.currentQueueType = some type)
    (hother : h.timeline.commandBuffer type.other = [])
    (hfetched : (h.ctx.gpfifo type).gpGet = (h.ctx.gpfifo type).gpPut) :
    ∃ h', call startExecution h = (.ok (), h') := by
  have hmay : h.MayCommence type := by
    apply Or.inr
    rw [Host.maySubmit, GPFifo.mayWrap, hfetched]
    simp
  have hstart := wp_startExecution_mayCommence hu.timelineSignal hnil hmode hother
  obtain ⟨_, h', hc, -⟩ := exists_ok_of_wp (wp_mono hstart (fun _ _ => id) fun _ _ hfull =>
    hfull hmay)
  exact ⟨h', hc⟩

/-- The sample copy is never refused. -/
theorem sampleCopy_succeeds (hu : h.Usable) :
    ∃ h', call (sampleCopy false).run h = (.ok (), h') ∧ h.Copied false h' := by
  have hsucceeds : wp (gpuMemcpy 0x2000 0x1000 16 false) (fun _ _ => True) (fun _ _ => False) h := by
    rw [gpuMemcpy, wp_bind, wp_validate, if_pos (by decide), wp_bind, wp_validate,
      if_pos (by decide), wp_bind, wp_validate, if_pos (by decide), wp_bind, wp_onTimeline,
      wp_selectQueueType, wp_performCopy]
    · trivial
    · rw [setTimeline_timeline, select_timelineSignal]
      exact hu.timelineSignal
  have hok : wp (sampleCopy false).run (fun _ h' => h.Copied false h') (fun _ _ => False) h :=
    wp_mono (wp_and (wp_gpuMemcpy hu.timelineSignal 0x2000 0x1000 16 false) hsucceeds)
      (fun _ _ hok => hok.1) (fun _ _ herr => herr.2)
  obtain ⟨_, h', hc, hcopied⟩ := exists_ok_of_wp hok
  exact ⟨h', hc, hcopied⟩

/-- The sample copy, commenced when the GPU has fetched all entries of the ring and awaited. -/
theorem exec_round (hr : s.host.Resting) : ∃ gpGet s',
    exec Targeted.step s [(sampleCopy false, fun _ => 2, (0, 0)),
      (.startExecution, fun _ => 2, gpGet), (.awaitExecution, fun _ => 2, gpGet)] = some s' ∧
    s'.host.Resting ∧ s'.targets.length = s.targets.length + 1 := by
  obtain ⟨h₁, hc₁, hcopied⟩ := sampleCopy_succeeds (hr.usable.observe (fun _ => 2) (0, 0))
  have hu₁ := (hr.usable.observe (fun _ => 2) (0, 0)).call hc₁
  obtain ⟨dst, src, numBytes, ht⟩ := hcopied.timeline
  have hselect : (s.host.observe (fun _ => 2) (0, 0)).timeline.select .dma =
      { s.host.timeline with currentQueueType := some .dma } := if_pos (hr.idle .compute)
  have happends := (appends_pushAll ((s.host.observe (fun _ => 2) (0, 0)).timeline.select .dma) .dma
    (copyCalls dst src numBytes
      ⟨(s.host.observe (fun _ => 2) (0, 0)).timeline.timelineSteps + 1, false⟩)).trans
      (appends_finish _ .dma false)
  rw [← ht] at happends
  have hnil : h₁.timeline.commandBufBacklog = [] := by
    rw [happends.commandBufBacklog, hselect]
    exact hr.backlog
  have hmode : h₁.timeline.currentQueueType = some .dma := by
    rw [happends.currentQueueType, hselect]
  have hother : h₁.timeline.commandBuffer .compute = [] := by
    have hsame := happends.commandBuffer_other
    rw [hselect] at hsame
    exact hsame.trans (hr.idle .compute)
  -- the GPU has fetched what was put on the ring before
  obtain ⟨gpGet, hgpGet⟩ : ∃ gpGet : NvU32 × NvU32, gpGet = (0, (h₁.ctx.gpfifo .dma).gpPut) :=
    ⟨_, rfl⟩
  have hu₁' := hu₁.observe (fun _ => 2) gpGet
  obtain ⟨h₂, hc₂⟩ := startExecution_of_fetched hu₁' hnil hmode hother (by rw [hgpGet]; rfl)
  have hu₂ : h₂.Usable := Host.Usable.call (c := .startExecution) hu₁' hc₂
  have hcommenced := (wp_of_call hc₂).mp (wp_startExecution_of_nil hu₁'.timelineSignal hnil)
  have hidle₂ : h₂.timeline.Idle := by
    rcases hcommenced.submitted with ⟨_, -, -, -, hidle⟩ | ⟨hnone, -⟩
    · exact hidle
    · rw [show (h₁.observe (fun _ => 2) gpGet).timeline = h₁.timeline from rfl, hmode] at hnone
      cases hnone
  have hu₂' := hu₂.observe (fun _ => 2) gpGet
  obtain ⟨_, h₃, hc₃, -, -, -, ht₃, -⟩ :=
    exists_ok_of_wp (wp_awaitExecution hu₂'.timelineSignal hu₂'.waits)
  have hu₃ : h₃.Usable := Host.Usable.call (c := .awaitExecution) hu₂' hc₃
  refine ⟨gpGet, ⟨h₃, s.targets ++ [h₁.timeline.timelineCtr]⟩, ?_, ⟨hu₃, ?_, ?_⟩, ?_⟩
  · have hstep₁ : s.step (sampleCopy false, fun _ => 2, (0, 0)) =
        some ⟨h₁, s.targets ++ [h₁.timeline.timelineCtr]⟩ := by
      unfold Targeted.step
      simp only [hc₁]
      rfl
    have hstep₂ : Targeted.step ⟨h₁, s.targets ++ [h₁.timeline.timelineCtr]⟩
        (.startExecution, fun _ => 2, gpGet) =
        some ⟨h₂, s.targets ++ [h₁.timeline.timelineCtr]⟩ := by
      unfold Targeted.step
      simp only [ApiCall.run, hc₂]
      simp [ApiCall.isOperation]
    have hstep₃ : Targeted.step ⟨h₂, s.targets ++ [h₁.timeline.timelineCtr]⟩
        (.awaitExecution, fun _ => 2, gpGet) =
        some ⟨h₃, s.targets ++ [h₁.timeline.timelineCtr]⟩ := by
      unfold Targeted.step
      simp only [ApiCall.run, hc₃]
      simp [ApiCall.isOperation]
    rw [exec_cons hstep₁, exec_cons hstep₂, exec_cons hstep₃]
    rfl
  · rw [ht₃]
    exact hidle₂
  · rw [ht₃]
    exact hcommenced.backlog
  · rw [List.length_append]
    rfl

/-- Any number of such rounds. -/
theorem exec_rounds (n : ℕ) (hr : s.host.Resting) : ∃ calls s',
    exec Targeted.step s calls = some s' ∧ SingleEngine .dma calls ∧ CommencesAwaited calls ∧
      s'.targets.length = s.targets.length + n := by
  induction n generalizing s with
  | zero =>
    refine ⟨[], s, rfl, fun e he => ?_, trivial, rfl⟩
    cases he
  | succ n ih =>
    obtain ⟨gpGet, s₁, hround, hr₁, hlength₁⟩ := exec_round hr
    obtain ⟨calls, s', hcalls, hengine, hawaited, hlength⟩ := ih hr₁
    refine ⟨[(sampleCopy false, fun _ => 2, (0, 0)), (.startExecution, fun _ => 2, gpGet),
      (.awaitExecution, fun _ => 2, gpGet)] ++ calls, s', ?_, ?_, hawaited, by omega⟩
    · rw [exec_append hround]
      exact hcalls
    · intro e he
      rcases List.mem_append.mp he with hmem | hmem
      · simp only [List.mem_cons, List.not_mem_nil, or_false] at hmem
        rcases hmem with rfl | rfl | rfl
        · exact fun _ _ => rfl
        · intro hop
          cases hop
        · intro hop
          cases hop
      · exact hengine e hmem

/-- **Copies alone, each commenced and awaited, reach a target that an earlier value satisfies**:
the one counted as the `2 ^ 32`-th is zero. -/
theorem targets_repeat : ∃ s calls, s.Start ∧ SingleEngine .dma calls ∧ CommencesAwaited calls ∧
    ¬ Always Targeted.step Targeted.Grows s calls := by
  have hready := initialized_sampleStream.ready
  obtain ⟨calls, s', hcalls, hengine, hawaited, hlength⟩ := exec_rounds (s := sampleTargeted)
    (2 ^ 32) ⟨initialized_sampleStream.usable, hready.idle, hready.backlog⟩
  refine ⟨sampleTargeted, calls, start_sampleTargeted, hengine, hawaited, fun hgrows => ?_⟩
  have hfew := ((targets_grow_iff start_sampleTargeted calls).mp hgrows).exec hcalls
  omega

end LibreCuda
