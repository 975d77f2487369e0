import LibreCuda.Queue.Streams
import LibreCuda.Stream.Progress

/-! # No operation is lost or done twice

What an engine has still to do is pending on its channel, or about to be submitted by the call that
is being carried out, or waits in the queue of the stream: **`System.stream`** puts the three one
behind another. A call adds what it orders at the end, a fetch takes the first command off, and
nothing else changes it, as long as commences are accepted.

* **`operations_conserved`**: what an engine has still to begin is the end of what was enqueued for
  it, in order, and every operation that was enqueued is in one place, once.
* A commence that is refused hands a segment over twice, which is why it is left out. -/

namespace LibreCuda

open Channels Exec

/-- The condition: commences are accepted. -/
def System.Accepts (s : System) : SystemEvent → Prop
  | .call .startExecution gpGet => (Exec.call startExecution (s.observed gpGet)).1 = .ok ()
  | _ => True

/-- What an engine has still to do. -/
def System.stream (s : System) (type : QueueType) : List GpuCommand :=
  duties (s.gpu.channel type).pending ++
    (sentDuties type s.effects ++ s.host.timeline.duties type)

/-! ## Steps -/

/-- What a call orders. -/
def System.ordered (s : System) (c : ApiCall) (gpGet : NvU32 × NvU32) : List (ℕ × Order) :=
  (s.observed gpGet).ordered c (Exec.call c.run (s.observed gpGet)).1

/-- **A call adds what it orders**, for each engine at the end. -/
theorem stream_called {s : System} {c : ApiCall} {gpGet : NvU32 × NvU32} (hu : s.host.Usable)
    (hs : s.host.timeline.Settled) (heffects : s.effects = [])
    (hok : s.Accepts (.call c gpGet)) :
    (s.called c gpGet).host.timeline.Settled ∧ ∀ type, ∃ cmds,
      (s.called c gpGet).stream type = s.stream type ++ cmds ∧
        (orderEngine type).Gives cmds (ordersFor type (s.ordered c gpGet)) := by
  have haccepted : c = .startExecution → (Exec.call c.run (s.observed gpGet)).1 = .ok () := by
    rintro rfl
    exact hok
  have hcall : Exec.call c.run (s.observed gpGet) =
    ((Exec.call c.run (s.observed gpGet)).1, (s.called c gpGet).host) := rfl
  obtain ⟨fx, hleaves⟩ := (hu.observe s.gpu.signals gpGet).leaves hs haccepted hcall
  refine ⟨hleaves.settled, fun type => ?_⟩
  obtain ⟨cmds, hstream, hgives⟩ := hleaves.streams type
  refine ⟨cmds, ?_, hgives⟩
  rw [System.stream, System.stream, called_effects hleaves.trace, heffects, hstream,
    ← List.append_assoc]
  rfl

/-- Carrying out an effect leaves it. -/
theorem stream_effect {s s' : System} (hs : s.step .effect = some s') (type : QueueType) :
    s'.stream type = s.stream type := by
  rcases step_effect hs with ⟨type', commands, rest, heq, rfl⟩ | ⟨_, _, rest, heq, -, rfl⟩
  · have hsent : sentDuties type s.effects =
        (if type' = type then dutiesOf type commands else []) ++ sentDuties type rest := by
      rw [heq]
      rfl
    have hpending : duties ((s.submit type' commands rest).gpu.channel type).pending =
        duties (s.gpu.channel type).pending ++
          if type' = type then dutiesOf type commands else [] := by
      by_cases hsame : type' = type
      · subst hsame
        have hpend : ((s.submit type' commands rest).gpu.channel type').pending =
            (s.gpu.channel type').pending ++ commandsOf type' commands := pending_submit_self _
        rw [hpend, duties_append, duties_commandsOf, if_pos rfl]
      · have hpend : (s.submit type' commands rest).gpu.channel type = s.gpu.channel type :=
          channel_submit_of_ne (Ne.symm hsame) _
        rw [hpend, if_neg hsame, List.append_nil]
    rw [System.stream, System.stream, hpending, hsent, List.append_assoc, List.append_assoc]
    rfl
  · have hsent : sentDuties type s.effects = sentDuties type rest := by
      rw [heq]
      rfl
    rw [System.stream, System.stream, hsent]
    rfl

/-- **A fetch takes the first command off.** -/
theorem stream_fetch {s : System} {type : QueueType} {g : Gpu}
    (hg : s.gpu.fetch serialEngine type = some g) :
    (∃ cmd rest, (s.gpu.channel type).pending = cmd :: rest ∧
      s.stream type = duties [cmd] ++ ({ s with gpu := g } : System).stream type) ∧
    ∀ other, other ≠ type → ({ s with gpu := g } : System).stream other = s.stream other := by
  obtain ⟨cmd, rest, hp, -, hne, hp', -⟩ := fetch_cases hg
  refine ⟨⟨cmd, rest, hp, ?_⟩, fun other hother => ?_⟩
  · rw [System.stream, System.stream, hp, hp', duties_cons, List.append_assoc]
  · rw [System.stream, System.stream, hne other hother]

theorem stream_finish {s : System} {type : QueueType} {n : ℕ} {g : Gpu}
    (hg : s.gpu.finish type n = some g) (other : QueueType) :
    ({ s with gpu := g } : System).stream other = s.stream other := by
  rw [System.stream, System.stream, pending_finish_eq hg]

/-! ## The invariant -/

/-- The operations that were enqueued for an engine, in order. -/
def System.numbersFor (s : System) (type : QueueType) : List ℕ :=
  (s.host.operations.filter fun o => o.engine = type).map Operation.number

/-- **The invariant**: `log` has the operations that each engine has begun, in order. -/
structure System.Conserves (s : System) (log : QueueType → List ℕ) : Prop where
  settled : s.host.timeline.Settled
  placed : ∀ type, s.numbersFor type = log type ++ starts (s.stream type)
  begun : ∀ n, ∑ type, (log type).count n = s.gpu.begun n

/-- The numbers for an engine are read from the operations and their engines. -/
theorem numbersFor_eq (s : System) (type : QueueType) :
    s.numbersFor type = ((s.host.operations.map Operation.placed).filter
      fun x => x.2 = type).map Prod.fst := by
  rw [System.numbersFor, List.filter_map, List.map_map]
  rfl

/-- A call appends what it orders to the operations. -/
theorem numbersFor_called {s : System} (hu : s.host.Usable) (c : ApiCall) (gpGet : NvU32 × NvU32)
    (type : QueueType) : (s.called c gpGet).numbersFor type =
      s.numbersFor type ++ (ordersFor type (s.ordered c gpGet)).map Prod.fst := by
  have hcall : Exec.call c.run (s.observed gpGet) =
    ((Exec.call c.run (s.observed gpGet)).1, (s.called c gpGet).host) := rfl
  have hplaced := (hu.observe s.gpu.signals gpGet).placed hcall
  have horders : ((s.ordered c gpGet).map fun x => (x.1, x.2.engine)).filter (fun x => x.2 = type) =
      (ordersFor type (s.ordered c gpGet)).map fun x => (x.1, x.2.engine) := List.filter_map ..
  rw [numbersFor_eq, numbersFor_eq, hplaced, List.filter_append, List.map_append]
  refine congrArg _ ?_
  show (((s.ordered c gpGet).map fun x => (x.1, x.2.engine)).filter _).map Prod.fst = _
  rw [horders, List.map_map]
  rfl

theorem System.Conserves.called {s : System} {log : QueueType → List ℕ} (hc : s.Conserves log)
    (hu : s.host.Usable) (heffects : s.effects = []) {c : ApiCall} {gpGet : NvU32 × NvU32}
    (hok : s.Accepts (.call c gpGet)) : (s.called c gpGet).Conserves log := by
  obtain ⟨hsettled, hstreams⟩ := stream_called hu hc.settled heffects hok
  refine ⟨hsettled, fun type => ?_, hc.begun⟩
  obtain ⟨cmds, hstream, hgives⟩ := hstreams type
  have hstarts : starts cmds = (ordersFor type (s.ordered c gpGet)).map Prod.fst := by
    rw [← hgives {}, Engine.map_fst_orders]
  rw [numbersFor_called hu, hstream, starts_append, hstarts, hc.placed, List.append_assoc]

/-- What a fetch adds to the log. -/
theorem System.Conserves.fetch {s : System} {log : QueueType → List ℕ} (hc : s.Conserves log)
    {type : QueueType} {g : Gpu} (hg : s.gpu.fetch serialEngine type = some g) :
    ∃ cmd rest, (s.gpu.channel type).pending = cmd :: rest ∧
      ({ s with gpu := g } : System).Conserves
        (Function.update log type (log type ++ starts [cmd])) := by
  obtain ⟨⟨cmd, rest, hp, hstream⟩, hothers⟩ := stream_fetch hg
  refine ⟨cmd, rest, hp, hc.settled, fun type' => ?_, fun n => ?_⟩
  · by_cases hsame : type' = type
    · subst hsame
      have hplaced := hc.placed type'
      rw [hstream, starts_append, starts_duties] at hplaced
      rw [Function.update_self, List.append_assoc]
      exact hplaced
    · rw [Function.update_of_ne hsame, hothers type' hsame]
      exact hc.placed type'
  · obtain ⟨cmd', rest', hp', -, -, hpend, -⟩ := fetch_cases hg
    obtain ⟨rfl, rfl⟩ := List.cons.inj (hp.symm.trans hp')
    have hfetch := begun_fetch hg n
    have hstarts : starts (cmd :: rest) = starts [cmd] ++ starts rest := starts_append [cmd] rest
    rw [hp, hpend, hstarts, List.count_append] at hfetch
    have hbegun : g.begun n = s.gpu.begun n + (starts [cmd]).count n := by omega
    have hsum : ∀ type', (Function.update log type (log type ++ starts [cmd]) type').count n =
        (log type').count n + if type' = type then (starts [cmd]).count n else 0 := fun type' => by
      by_cases hsame : type' = type
      · subst hsame
        rw [Function.update_self, List.count_append, if_pos rfl]
      · rw [Function.update_of_ne hsame, if_neg hsame, Nat.add_zero]
    rw [Finset.sum_congr rfl fun type' _ => hsum type', Finset.sum_add_distrib, hc.begun,
      Finset.sum_ite_eq' Finset.univ type fun _ => (starts [cmd]).count n,
      if_pos (Finset.mem_univ type), hbegun]

/-- A new system has begun nothing. -/
theorem System.Initial.conserves {s : System} (hi : s.Initial) (hnew : s.gpu.completed = []) :
    s.Conserves fun _ => [] := by
  have hready := hi.host.ready
  have hstream : ∀ type, s.stream type = [] := fun type => by
    rw [System.stream, hi.channels, hi.effects, CommandTimeline.duties, CommandTimeline.queued,
      hready.backlog, hready.idle, hready.idle]
    rfl
  refine ⟨hready.idle.settled, fun type => ?_, fun n => ?_⟩
  · rw [hstream, System.numbersFor, hready.operations]
    rfl
  · rw [Machine.begun, hnew]
    simp only [hi.channels, List.count_nil, Finset.sum_const_zero, Nat.add_zero]

/-! ## Runs -/

/-- A step that meets a condition. -/
def System.Next (ok : System → SystemEvent → Prop) (s s' : System) : Prop :=
  ∃ e, ok s e ∧ s.step e = some s'

/-- Steps that meet the condition of a run continue it. -/
theorem System.Run.continue {ok : System → SystemEvent → Prop} {s s' : System} (hr : s.Run ok)
    (h : Relation.ReflTransGen (System.Next ok) s s') : s'.Run ok := by
  induction h with
  | refl => exact hr
  | tail _ hnext ih =>
    obtain ⟨e, hok, hs⟩ := hnext
    exact ih.step hok hs

/-- Events that meet the condition wherever they happen. -/
theorem next_of_exec {ok : System → SystemEvent → Prop} {s s' : System} {events : List SystemEvent}
    (hok : ∀ e ∈ events, ∀ t, ok t e) (h : s.exec events = some s') :
    Relation.ReflTransGen (System.Next ok) s s' := by
  induction events generalizing s with
  | nil =>
    cases h
    exact .refl
  | cons e rest ih =>
    obtain ⟨t, ht, hrest⟩ := Option.bind_eq_some_iff.mp h
    exact .head ⟨e, hok e List.mem_cons_self s, ht⟩
      (ih (fun e' he' => hok e' (List.mem_cons_of_mem e he')) hrest)

/-- **The invariant holds in every run** of a new system whose commences are accepted. -/
theorem System.Initial.conserved {s s' : System} (hi : s.Initial) (hnew : s.gpu.completed = [])
    (h : Relation.ReflTransGen (System.Next System.Accepts) s s') : ∃ log, s'.Conserves log := by
  induction h with
  | refl => exact ⟨_, hi.conserves hnew⟩
  | tail hprev hnext ih =>
    obtain ⟨log, hc⟩ := ih
    obtain ⟨e, hok, hs⟩ := hnext
    have hu := ((System.Run.initial hi).continue hprev).usable
    cases e with
    | call c gpGet =>
      obtain ⟨heffects, rfl⟩ := step_call hs
      exact ⟨log, hc.called hu heffects hok⟩
    | effect =>
      have hstream := stream_effect hs
      rcases step_effect hs with ⟨type, commands, rest, -, rfl⟩ | ⟨_, _, _, -, -, rfl⟩
      · refine ⟨log, hc.settled, fun type' => ?_, fun n => ?_⟩
        · rw [hstream]
          exact hc.placed type'
        · rw [hc.begun]
          exact (begun_submit _ n).symm
      · refine ⟨log, hc.settled, fun type' => ?_, hc.begun⟩
        rw [hstream]
        exact hc.placed type'
    | fetch type =>
      obtain ⟨g, hg, rfl⟩ := step_fetch hs
      obtain ⟨cmd, rest, -, hfetched⟩ := hc.fetch hg
      exact ⟨_, hfetched⟩
    | finish type n =>
      obtain ⟨g, hg, rfl⟩ := step_finish hs
      refine ⟨log, hc.settled, fun type' => ?_, fun k => ?_⟩
      · rw [stream_finish hg]
        exact hc.placed type'
      · rw [hc.begun]
        exact (begun_finish hg k).symm

/-- Filtering by the engine splits the operations. -/
theorem sum_numbersFor (s : System) (n : ℕ) :
    ∑ type, (s.numbersFor type).count n = (s.host.operations.map Operation.number).count n := by
  have hsplit : ∀ ops : List Operation, ∑ type, ((ops.filter fun o => o.engine = type).map
      Operation.number).count n = (ops.map Operation.number).count n := by
    intro ops
    induction ops with
    | nil => rfl
    | cons o rest ih =>
      have hone : ∀ type, (((o :: rest).filter fun o => o.engine = type).map
          Operation.number).count n = ((rest.filter fun o => o.engine = type).map
            Operation.number).count n + if type = o.engine then [o.number].count n else 0 := by
        intro type
        by_cases hsame : type = o.engine
        · rw [List.filter_cons_of_pos (by simpa using hsame.symm), if_pos hsame, List.map_cons,
            List.count_cons, List.count_singleton]
        · rw [List.filter_cons_of_neg (by simpa using Ne.symm hsame), if_neg hsame, Nat.add_zero]
      rw [Finset.sum_congr rfl fun type _ => hone type, Finset.sum_add_distrib, ih,
        Finset.sum_ite_eq' Finset.univ o.engine fun _ => [o.number].count n,
        if_pos (Finset.mem_univ _), List.map_cons, List.count_cons, List.count_cons, List.count_nil,
        Nat.zero_add]
  exact hsplit s.host.operations

/-- The places an operation is at: in the stream of an engine, running, or completed. -/
def System.places (s : System) (n : ℕ) : ℕ :=
  ∑ type, (starts (s.stream type)).count n + s.gpu.begun n

/-- **What has begun and what has not** are the operations, each once. -/
theorem System.Conserves.places {s : System} {log : QueueType → List ℕ} (hc : s.Conserves log)
    (hnumbered : s.host.Numbered) (n : ℕ) :
    s.places n = if ∃ o ∈ s.host.operations, o.number = n then 1 else 0 := by
  have hplaces : s.places n = (s.host.operations.map Operation.number).count n := by
    rw [← sum_numbersFor, System.places, ← hc.begun, ← Finset.sum_add_distrib]
    refine Finset.sum_congr rfl fun type _ => ?_
    rw [hc.placed, List.count_append, Nat.add_comm]
  have hnodup : (s.host.operations.map Operation.number).Nodup := by
    rw [hnumbered.numbers]
    exact List.nodup_range'
  rw [hplaces, hnodup.count]
  simp only [List.mem_map]

/-- **Operations are conserved.** In every run of a new system whose commences are accepted, what an
engine has still to begin is the end of what was enqueued for it, in that order; an operation that
was enqueued is in one place, once, and nothing else is anywhere. -/
theorem operations_conserved {s s' : System} (hi : s.Initial) (hnew : s.gpu.completed = [])
    (h : Relation.ReflTransGen (System.Next System.Accepts) s s') :
    (∀ type, starts (s'.stream type) <:+ s'.numbersFor type) ∧
      ∀ n, s'.places n = if ∃ o ∈ s'.host.operations, o.number = n then 1 else 0 := by
  obtain ⟨log, hc⟩ := hi.conserved hnew h
  have hnumbered := ((System.Run.initial hi).continue h).labelled.numbered
  exact ⟨fun type => ⟨log type, (hc.placed type).symm⟩, hc.places hnumbered⟩

/-- Nothing was lost on the way through the sample session. -/
theorem operations_conserved_sample :
    let s := (sampleEnqueued.after [.call .startExecution (0, 0)]).after firstSegment
    starts (s.stream .dma) <:+ s.numbersFor .dma ∧ s.places 4 = 1 := by
  intro s
  have hcalls : Relation.ReflTransGen (System.Next System.Accepts) sampleSystem sampleEnqueued := by
    refine next_of_exec (fun e he t => ?_) (exec_after (by rfl))
    simp only [List.mem_cons, List.not_mem_nil, or_false] at he
    rcases he with rfl | rfl <;> trivial
  have hstart : System.Next System.Accepts sampleEnqueued
      (sampleEnqueued.after [.call .startExecution (0, 0)]) :=
    ⟨.call .startExecution (0, 0), by rfl, by rfl⟩
  have hsegment : Relation.ReflTransGen (System.Next System.Accepts)
      (sampleEnqueued.after [.call .startExecution (0, 0)]) s := by
    refine next_of_exec (fun e he t => ?_) (exec_after (by rfl))
    simp only [firstSegment, List.mem_cons, List.not_mem_nil, or_false] at he
    rcases he with rfl | rfl | rfl | rfl | rfl | rfl | rfl <;> trivial
  obtain ⟨hsuffix, hplaces⟩ := operations_conserved initial_sampleSystem (by rfl)
    ((hcalls.tail hstart).trans hsegment)
  refine ⟨hsuffix .dma, (hplaces 4).trans (if_pos ⟨⟨4, .dma, false, (0, 0)⟩, ?_, rfl⟩)⟩
  decide +kernel

end LibreCuda
