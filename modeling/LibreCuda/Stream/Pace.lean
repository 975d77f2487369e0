import LibreCuda.Stream.Discipline

/-! # Carrying a commence out

What a call of `startExecution` or `awaitExecution` leaves to be carried out, seen from the GPU:
every submission keeps the discipline behind what its engine has reached, and every wait of the CPU
adds to what has completed (`Carried`). The exception is a first segment whose engine has not caught
up with the operations commenced before (`Channels.CaughtUp`).

* **`carried_of_start`** and **`carried_of_await`** are the step lemmas of the two calls. -/

namespace LibreCuda

open Channels Exec

/-- Effects that can be carried out when the operations up to `c` have completed and each engine has
reached `n`; behind them a property of what has completed holds. -/
def Carried (timelineSignal : NvU64) (post : ℕ → Prop) (c : ℕ) (n : QueueType → ℕ) :
    List HostEffect → Prop
  | [] => post c
  | .submit type commands :: rest =>
    (knownAt c (n type)).Orders (serialEngine type) timelineSignal BitVec.toNat
      (commandsOf type commands) ∧
    Carried timelineSignal post c (Function.update n type
      (max (n type) (reach timelineSignal BitVec.toNat (commandsOf type commands)))) rest
  | .waitCpu signal target :: rest =>
    signal = timelineSignal ∧ Carried timelineSignal post (max c target.toNat) n rest

/-- Submitting a buffer that keeps the discipline. -/
theorem carried_submitEffect {timelineSignal : NvU64} {post : ℕ → Prop} {c : ℕ}
    {n : QueueType → ℕ} {type : QueueType} {commands : List MethodCall} {rest : List HostEffect}
    (ho : (knownAt c (n type)).Orders (serialEngine type) timelineSignal BitVec.toNat
      (commandsOf type commands)) (hrest : ∀ n', Carried timelineSignal post c n' rest) :
    Carried timelineSignal post c n (submitEffect type commands ++ rest) := by
  unfold submitEffect
  split_ifs
  · exact hrest n
  · exact ⟨ho, hrest _⟩

/-- Commands that keep the discipline behind everything commenced keep it behind what their engine
has reached, if it is caught up. -/
theorem orders_caughtUp {timelineSignal : NvU64} {c top reached : ℕ} {type : QueueType}
    {cmds : List GpuCommand} (ho : (knownAt c top).Orders (serialEngine type) timelineSignal
      BitVec.toNat cmds)
    (hcaught : CaughtUp timelineSignal BitVec.toNat top (max c reached) cmds) :
    (knownAt c reached).Orders (serialEngine type) timelineSignal BitVec.toNat cmds :=
  orders_of_caughtUp ho (Nat.le_refl _) (by simp only [knownAt]; omega) hcaught

/-- **A backlog can be carried out** when the engine of its first segment is caught up. -/
theorem carried_backlogEffects {timelineSignal : NvU64} {post : ℕ → Prop} {c top : ℕ}
    {entries : List CommandBufSplit} (hchain : Chained timelineSignal (knownAt c top) entries)
    (n : QueueType → ℕ)
    (hfirst : ∀ e ∈ entries.head?, CaughtUp timelineSignal BitVec.toNat top
      (max c (n e.queueType)) (entryCommands timelineSignal e))
    (hpost : ∀ c', c ≤ c' → post c') :
    Carried timelineSignal post c n (backlogEffects timelineSignal entries) := by
  induction entries generalizing c top n with
  | nil => exact hpost c (Nat.le_refl _)
  | cons e rest ih =>
    obtain ⟨-, ho, hrest⟩ := hchain
    have hawaited : Known.awaited (knownAt c top) e.timelineCtr =
        knownAt (max c e.timelineCtr.toNat) 0 := by
      simp [Known.awaited, knownAt, Known.all]
    rw [hawaited] at hrest
    rw [show backlogEffects timelineSignal (e :: rest) =
      entryEffects timelineSignal e ++ backlogEffects timelineSignal rest from rfl, entryEffects,
      List.append_assoc]
    refine carried_submitEffect (orders_caughtUp ho (hfirst e rfl)) fun n' => ⟨rfl, ?_⟩
    exact ih hrest n' (fun e' _ => caughtUp_of_le (Nat.zero_le _) _)
      fun c' hc' => hpost c' ((Nat.le_max_left _ _).trans hc')

/-! ## `startExecution` -/

/-- What a commence submits first: the first segment of the backlog, or the buffer of the mode. -/
def CommandTimeline.firstSegment (t : CommandTimeline) : Option (QueueType × List MethodCall) :=
  match t.commandBufBacklog with
  | e :: _ => some (e.queueType, e.commands t.timelineSignal)
  | [] => t.currentQueueType.map fun type => (type, t.current type)

/-- The pending release of the copy engine is not taken for a compute buffer that an earlier,
refused commence left behind. -/
def CommandTimeline.Undivided (t : CommandTimeline) : Prop :=
  t.commandBufBacklog ≠ [] → t.currentQueueType = some .dma → t.timelineNotifyPending = true →
    t.commandBuffer .compute = []

section Start

variable {c top : ℕ}

/-- With nothing left to commence, a queue keeps the discipline whatever has completed. -/
theorem disciplined_of_idle {t : CommandTimeline} (hcount : t.timelineCtr.toNat = t.timelineSteps)
    (hidle : t.Idle) (hback : t.commandBufBacklog = []) (c : ℕ) :
    t.Disciplined c t.timelineSteps := by
  have hbase : t.timelineSteps ≤ (t.base c t.timelineSteps).upTo := by
    rw [CommandTimeline.base, hback]
    exact Nat.le_max_right _ _
  refine ⟨hcount, ⟨fun type => ?_, fun e he => ?_⟩, Nat.le_refl _, ?_, fun type => ?_,
    fun type _ => ?_, fun _ => ⟨hidle, hback, hbase⟩⟩
  · rw [hidle type]
    exact closed_nil type
  · rw [hback] at he
    cases he
  · rw [hback]
    trivial
  · rw [hidle type]
    trivial
  · rw [known_of_nil (hidle type)]
    exact hbase

/-- Setting both buffers aside keeps the discipline. -/
theorem CommandTimeline.Disciplined.setAsideBoth {t : CommandTimeline} (hd : t.Disciplined c top)
    (hne : t.commandBufBacklog ≠ []) (hundivided : t.Undivided) :
    t.setAsideBoth.Disciplined c top := by
  have hcompute : (t.setAside .compute).Disciplined c top := by
    by_cases hbuf : t.commandBuffer .compute = []
    · rw [setAside_of_nil _ _ hbuf]
      exact hd
    · rw [setAside_of_ne_nil _ _ hbuf]
      refine hd.backlog hbuf fun hp => ?_
      cases hmode : t.currentQueueType with
      | none => exact absurd ((hd.idle hmode).1 _) hbuf
      | some type =>
        cases type with
        | compute => exact hd.reached _ hmode
        | dma => exact absurd (hundivided hne hmode hp) hbuf
  have hother : (t.setAside .compute).commandBuffer QueueType.dma.other = [] :=
    setAside_commandBuffer ..
  unfold CommandTimeline.setAsideBoth
  by_cases hbuf : (t.setAside .compute).commandBuffer .dma = []
  · rw [setAside_of_nil _ _ hbuf]
    exact hcompute
  · rw [setAside_of_ne_nil _ _ hbuf]
    exact hcompute.backlog hbuf fun _ => hcompute.reached_of_other hother

/-- The current buffer keeps the discipline with the release that it lacks. -/
theorem CommandTimeline.Disciplined.orders_current {t : CommandTimeline} (hd : t.Disciplined c top)
    {type : QueueType} (hmode : t.currentQueueType = some type) :
    (t.base c top).Orders (serialEngine type) t.timelineSignal BitVec.toNat
      (commandsOf type (t.current type)) := by
  have hrelease := hd.orders_release fun _ => hd.reached _ hmode
  rw [CommandTimeline.current]
  cases hp : t.timelineNotifyPending with
  | false => simpa using hd.ordered type
  | true =>
    obtain ⟨hclosed, hcmds⟩ := commandsOf_releaseCalls type t.timelineSignal t.timelineCtr
    rw [hp] at hrelease
    rw [if_pos rfl, commandsOf_append hclosed, hcmds, orders_append]
    exact ⟨hd.ordered type, hrelease⟩

/-- A commence without a backlog that is refused keeps the discipline. -/
theorem disciplined_of_refusedCurrent {h h' : Host} (hd : h.timeline.Disciplined c top)
    (hr : h.RefusedCurrent h') : h'.timeline.Disciplined c top := by
  rcases hr with rfl | ⟨type, hmode, hother, -, hcounts, hbuf, hother'⟩
  · exact hd
  have hrelease := hd.orders_release fun _ => hd.reached _ hmode
  obtain ⟨ms, hms, hclosed, hcmds⟩ : ∃ ms, h.timeline.current type =
      h.timeline.commandBuffer type ++ ms ∧ Closed type ms ∧ commandsOf type ms =
        if h.timeline.timelineNotifyPending then
          [.release h.timeline.timelineSignal (h.timeline.timelineCtr.setWidth 64)] else [] := by
    refine ⟨_, rfl, ?_⟩
    split_ifs
    · exact commandsOf_releaseCalls type _ _
    · exact ⟨closed_nil type, rfl⟩
  have hext : h.timeline.Extends type ms h'.timeline :=
    ⟨hbuf.trans hms, hother'.trans hother.symm, hcounts.currentQueueType,
      hcounts.commandBufBacklog, hcounts.timelineSignal⟩
  refine hd.extend (by rw [hmode]; exact Option.some_ne_none type) hext hclosed ?_ ?_ ?_
    fun type' hmode' => ?_
  · rw [hcounts.timelineCtr, hcounts.timelineSteps]
    exact hd.count
  · rw [hcounts.timelineSteps]
  · rw [hcmds]
    exact hrelease
  · rw [hmode] at hmode'
    cases hmode'
    rw [hcounts.timelineSteps, hext.known _ _ hclosed]
    exact (hd.reached _ hmode).trans (upTo_le_run _ _)

/-- A commence that stops at a segment keeps the discipline, the segment being left in its buffer.
-/
theorem disciplined_of_stopped {t t' : CommandTimeline} (hd : t.Disciplined c top)
    (hidle : t.Idle) (htargets : t.SameTargets t')
    (hback : t'.commandBufBacklog = t.commandBufBacklog) {before after : List CommandBufSplit}
    {e : CommandBufSplit} (hsplit : t.commandBufBacklog = before ++ e :: after)
    (hbuf : t'.commandBuffer e.queueType = e.commands t.timelineSignal)
    (hother : t'.commandBuffer e.queueType.other = []) : t'.Disciplined c top := by
  have hmode : t.currentQueueType ≠ none := fun hnone => by
    rw [(hd.idle hnone).2.1] at hsplit
    exact List.append_ne_nil_of_right_ne_nil before (List.cons_ne_nil e after) hsplit.symm
  have hext : t.Extends e.queueType (e.commands t.timelineSignal) t' :=
    ⟨by rw [hbuf, hidle]; rfl, by rw [hother, hidle], htargets.currentQueueType, hback,
      htargets.timelineSignal⟩
  have hclosed : Closed e.queueType (e.commands t.timelineSignal) := by
    refine (hd.closed.backlog e (hsplit ▸ List.mem_append_right _ List.mem_cons_self)).append ?_
    split_ifs
    · exact (commandsOf_releaseCalls _ _ _).1
    · exact closed_nil _
  refine hd.extend hmode hext hclosed ?_ ?_ ?_ fun type' hmode' => ?_
  · rw [htargets.timelineCtr, htargets.timelineSteps]
    exact hd.count
  · rw [htargets.timelineSteps]
  · -- the segment keeps the discipline where it stands in the backlog, so also behind all of it
    have hchain := hd.chained
    rw [hsplit, chained_append] at hchain
    rw [known_of_nil (hidle _), CommandTimeline.base, hsplit, awaitedAll_append]
    exact orders_mono hchain.2.below hchain.2.2.1
  · have hreached := hd.reached type' hmode'
    have hbase : t'.base c top = t.base c top := by
      rw [CommandTimeline.base, hback]
      rfl
    rw [htargets.timelineSteps]
    rw [known_of_nil (hidle type'), ← hbase] at hreached
    exact hreached.trans (upTo_le_run _ _)

/-- A commence of a single buffer: it is submitted, or kept by a refusal. -/
theorem carried_of_start_current {h h' : Host} {r : Except Failure Unit} (hu : h.Usable)
    (hd : h.timeline.Disciplined c top) (hnil : h.timeline.commandBufBacklog = [])
    (n : QueueType → ℕ)
    (hcaught : ∀ type commands, h.timeline.firstSegment = some (type, commands) →
      CaughtUp h.timeline.timelineSignal BitVec.toNat top (max c (n type))
        (commandsOf type commands))
    (hc : call startExecution h = (r, h')) :
    ∃ fx, h'.trace = h.trace ++ fx ∧
      Carried h.timeline.timelineSignal
        (fun c' => h'.timeline.Disciplined c' (if r = .ok () then h'.timeline.timelineSteps else top))
        c n fx := by
  rcases wp_call hc (wp_startExecution_of_nil hu.timelineSignal hnil) with
    ⟨_, rfl, hok⟩ | ⟨_, rfl, herr⟩
  · have hcount : h'.timeline.timelineCtr.toNat = h'.timeline.timelineSteps := by
      rw [hok.targets.timelineCtr, hok.targets.timelineSteps]
      exact hd.count
    rw [if_pos rfl]
    rcases hok.submitted with ⟨type, hmode, hother, hadds, hidle⟩ | ⟨hmode, hadds, hbuf⟩
    · refine ⟨_, hadds.trace, ?_⟩
      have hbase : h.timeline.base c top = knownAt c top := by
        rw [CommandTimeline.base, hnil]
        rfl
      -- with an empty backlog nothing is between what is known and the current buffer
      have ho := hd.orders_current hmode
      rw [hbase] at ho
      have hfirst : h.timeline.firstSegment = some (type, h.timeline.current type) := by
        rw [CommandTimeline.firstSegment, hnil, hmode]
        rfl
      rw [← List.append_nil (submitEffect _ _)]
      exact carried_submitEffect (orders_caughtUp ho (hcaught _ _ hfirst)) fun n' =>
        disciplined_of_idle hcount hidle hok.backlog c
    · exact ⟨_, hadds.trace, disciplined_of_idle hcount
        (fun type => (hbuf type).trans ((hd.idle hmode).1 type)) hok.backlog c⟩
  · have hd' := disciplined_of_refusedCurrent hd herr
    rw [if_neg (by rintro ⟨⟩)]
    rcases herr with rfl | ⟨type, -, -, hadds, -⟩
    · exact ⟨[], (List.append_nil _).symm, hd'⟩
    · exact ⟨[], hadds.trace, hd'⟩

/-- A commence of a backlog: its entries are submitted in turn, up to one that is refused. -/
theorem carried_of_start_backlog {h h' : Host} {r : Except Failure Unit} (hu : h.Usable)
    (hd : h.timeline.Disciplined c top) (hundivided : h.timeline.Undivided)
    (hnil : h.timeline.commandBufBacklog ≠ []) (n : QueueType → ℕ)
    (hcaught : ∀ type commands, h.timeline.firstSegment = some (type, commands) →
      CaughtUp h.timeline.timelineSignal BitVec.toNat top (max c (n type))
        (commandsOf type commands))
    (hc : call startExecution h = (r, h')) :
    ∃ fx, h'.trace = h.trace ++ fx ∧
      Carried h.timeline.timelineSignal
        (fun c' => h'.timeline.Disciplined c' (if r = .ok () then h'.timeline.timelineSteps else top))
        c n fx := by
  have hset := hd.setAsideBoth hnil hundivided
  have hsame := sameTargets_setAsideBoth h.timeline
  have hfirst : ∀ e ∈ h.timeline.setAsideBoth.commandBufBacklog.head?,
      CaughtUp h.timeline.timelineSignal BitVec.toNat top (max c (n e.queueType))
        (entryCommands h.timeline.timelineSignal e) := by
    intro e he
    obtain ⟨first, rest, hcons⟩ := List.exists_cons_of_ne_nil hnil
    obtain ⟨more, hmore⟩ := backlog_setAsideBoth h.timeline
    rw [hmore, hcons] at he
    cases he
    refine hcaught _ _ ?_
    rw [CommandTimeline.firstSegment, hcons]
  have hchain := hset.chained
  rw [hsame.timelineSignal] at hchain
  rcases wp_call hc (wp_startExecution_of_ne_nil hu.timelineSignal hu.waits hnil) with
    ⟨_, rfl, hok⟩ | ⟨_, rfl, herr⟩
  · refine ⟨_, hok.adds.trace, carried_backlogEffects hchain n hfirst fun c' _ => ?_⟩
    rw [if_pos rfl]
    refine disciplined_of_idle ?_ hok.idle hok.backlog c'
    rw [hok.targets.timelineCtr, hok.targets.timelineSteps]
    exact hd.count
  · obtain ⟨before, e, after, hsplit, hadds, hbuf, hother⟩ := herr.stopped
    rw [hsplit, chained_append] at hchain
    refine ⟨_, hadds.trace, carried_backlogEffects hchain.1 n (fun e' he' => hfirst e' ?_)
      fun c' hc' => ?_⟩
    · rw [hsplit]
      cases before with
      | nil => cases he'
      | cons first rest => exact he'
    -- what was not submitted stays, ordered as before
    · rw [if_neg (by rintro ⟨⟩)]
      refine disciplined_of_stopped (hset.raise hc') (idle_setAsideBoth _) ?_ herr.backlog hsplit
        ?_ hother
      · exact ⟨herr.targets.timelineSignal.trans hsame.timelineSignal.symm,
          herr.targets.timelineCtr.trans hsame.timelineCtr.symm,
          herr.targets.currentQueueType.trans hsame.currentQueueType.symm,
          herr.targets.timelineSteps.trans hsame.timelineSteps.symm⟩
      · rw [hsame.timelineSignal]
        exact hbuf

/-- **`startExecution` can be carried out** when the first segment's engine is caught up with what
was commenced before; behind it, the discipline holds, with everything commenced if it succeeds. -/
theorem carried_of_start {h h' : Host} {r : Except Failure Unit} (hu : h.Usable)
    (hd : h.timeline.Disciplined c top) (hundivided : h.timeline.Undivided) (n : QueueType → ℕ)
    (hcaught : ∀ type commands, h.timeline.firstSegment = some (type, commands) →
      CaughtUp h.timeline.timelineSignal BitVec.toNat top (max c (n type))
        (commandsOf type commands))
    (hc : call startExecution h = (r, h')) :
    ∃ fx, h'.trace = h.trace ++ fx ∧
      Carried h.timeline.timelineSignal
        (fun c' => h'.timeline.Disciplined c' (if r = .ok () then h'.timeline.timelineSteps else top))
        c n fx := by
  by_cases hnil : h.timeline.commandBufBacklog = []
  · exact carried_of_start_current hu hd hnil n hcaught hc
  · exact carried_of_start_backlog hu hd hundivided hnil n hcaught hc

/-- **`awaitExecution` can be carried out**: it waits for everything enqueued. -/
theorem carried_of_await {h h' : Host} {r : Except Failure Unit} (hu : h.Usable)
    (hd : h.timeline.Disciplined c top) (n : QueueType → ℕ)
    (hc : call awaitExecution h = (r, h')) :
    ∃ fx, h'.trace = h.trace ++ fx ∧
      Carried h.timeline.timelineSignal (fun c' => h'.timeline.Disciplined c' top ∧
        h'.timeline.timelineSteps ≤ c') c n fx := by
  rcases wp_call hc (wp_awaitExecution hu.timelineSignal hu.waits) with ⟨_, -, hok⟩ | ⟨_, -, hf⟩
  · obtain ⟨-, -, -, ht, -, htrace⟩ := hok
    refine ⟨_, htrace, rfl, ?_, ?_⟩
    · rw [ht]
      exact hd.raise (Nat.le_max_left _ _)
    · rw [ht, hd.count]
      exact Nat.le_max_right _ _
  · exact hf.elim

end Start

end LibreCuda
