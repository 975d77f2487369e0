import LibreCuda.Stream.Execution

/-! # A stream is sequential

When an await has returned, the memory is what it would be if every operation had been carried out
before the next one was enqueued. That is so whatever the engines do first, if what may run beside
each other is independent: asynchronous launches with nothing but asynchronous launches in between.

* **`Execution.Logged`** is the invariant about what has been performed.
* **`System.Behaved.enqueued`**: nothing begins that was not enqueued.
* **`stream_is_sequential`** says it of every orderly run. -/

namespace LibreCuda

open Channels Exec Interleavings

variable {M : Type} {p : Processor M}

/-- What has been performed of an operation is the front of what its call asked for, and all of it
once the operation has completed; what was performed too early was of asynchronous launches. -/
structure Execution.Logged (p : Processor M) (x : Execution M) (m : M) : Prop where
  memory : perform x.log m = x.memory
  length : ∀ n, (actionsOf n x.log).length = x.done n
  front : ∀ n task, (n, task) ∈ x.asked → actionsOf n x.log <+: p.actions n task
  full : ∀ n task, (n, task) ∈ x.asked → n ∈ x.system.gpu.completed →
    actionsOf n x.log = p.actions n task
  begun : ∀ e ∈ x.log, x.system.gpu.Begun e.1
  source : ∀ e ∈ x.log, ∃ task, (e.1, task) ∈ x.asked ∧ e.2 ∈ p.actions e.1 task
  overlaps : x.log.Pairwise fun a b => b.1 < a.1 →
    ∀ l, b.1 ≤ l → l ≤ a.1 → x.system.host.IsAsyncLaunch l

/-! ## What was asked for -/

/-- **What has begun was enqueued.** -/
theorem System.Behaved.enqueued {s : System} (hb : s.Behaved p) {n : ℕ} (hn : s.gpu.Begun n) :
    ∃ o ∈ s.host.operations, o.number = n := by
  obtain ⟨log, hc⟩ := hb.conserved
  have hbegun : 0 < s.gpu.begun n := by
    rcases hn with hn | ⟨type, hn⟩
    · exact Nat.lt_add_left _ (List.count_pos_iff.mpr hn)
    · refine Nat.lt_add_right _ ((List.count_pos_iff.mpr hn).trans_le ?_)
      exact Finset.single_le_sum (f := fun type => (s.gpu.channel type).running.count n)
        (fun _ _ => Nat.zero_le _) (Finset.mem_univ type)
  rw [← hc.begun] at hbegun
  obtain ⟨type, -, hcount⟩ := Finset.exists_ne_zero_of_sum_ne_zero hbegun.ne'
  have hlog := List.count_pos_iff.mp (Nat.pos_of_ne_zero hcount)
  have hmem : n ∈ s.numbersFor type := by
    rw [hc.placed]
    exact List.mem_append_left _ hlog
  obtain ⟨o, ho, hnumber, -⟩ := mem_numbersFor.mp hmem
  exact ⟨o, ho, hnumber⟩

/-- Operations are asked for in the order of their numbers. -/
theorem Execution.Faithful.sorted {x : Execution M} {given : List (ℕ × Order)}
    (hf : x.Faithful p given) (hb : x.system.Behaved p) :
    (x.asked.map Prod.fst).Pairwise (· < ·) := by
  rw [hf.asked, hb.run.labelled.numbered.numbers]
  exact List.pairwise_lt_range'

/-- An operation is asked for once. -/
theorem Execution.Faithful.unique {x : Execution M} {given : List (ℕ × Order)}
    (hf : x.Faithful p given) (hb : x.system.Behaved p) {n : ℕ} {task task' : Task}
    (h : (n, task) ∈ x.asked) (h' : (n, task') ∈ x.asked) : task = task' := by
  have hnodup : (x.asked.map Prod.fst).Nodup := (hf.sorted hb).imp fun hlt => Nat.ne_of_lt hlt
  exact congrArg Prod.snd (List.inj_on_of_nodup_map hnodup h h' rfl)

/-- The numbers of what was asked for are those of operations. -/
theorem Execution.Faithful.bounds {x : Execution M} {given : List (ℕ × Order)}
    (hf : x.Faithful p given) (hb : x.system.Behaved p) {n : ℕ} {task : Task}
    (h : (n, task) ∈ x.asked) : 2 < n ∧ n ≤ x.system.host.timeline.timelineSteps := by
  have hmem : n ∈ x.system.host.operations.map Operation.number := by
    rw [← hf.asked]
    exact List.mem_map_of_mem h
  obtain ⟨o, ho, rfl⟩ := List.mem_map.mp hmem
  exact hb.run.labelled.numbered.bounds ho

/-- A call asks for the next operation. -/
theorem eq_of_mem_tasked {s : System} {c : ApiCall} {gpGet : NvU32 × NvU32} {n : ℕ} {task : Task}
    (h : (n, task) ∈ s.tasked p c gpGet) : n = s.host.timeline.timelineSteps + 1 := by
  rw [System.tasked] at h
  split at h
  · obtain ⟨_, -, heq⟩ := Option.map_eq_some_iff.mp (Option.mem_toList.mp h)
    exact (congrArg Prod.fst heq).symm
  · cases h

/-! ## Events of the system -/

/-- Events of the system perform nothing. -/
theorem follow_performs (x : Execution M) (e : SystemEvent) :
    (x.follow p e).memory = x.memory ∧ (x.follow p e).done = x.done ∧
      (x.follow p e).log = x.log := by
  cases e with
  | fetch type =>
    rw [Execution.follow]
    split
    · exact ⟨rfl, rfl, rfl⟩
    · rename_i cmd _ _
      cases cmd <;> exact ⟨rfl, rfl, rfl⟩
  | _ => exact ⟨rfl, rfl, rfl⟩

/-- What was asked for stays, and only a call adds to it. -/
theorem asked_follow (x : Execution M) (e : SystemEvent) :
    (∃ c gpGet, e = .call c gpGet) ∨ (x.follow p e).asked = x.asked := by
  cases e with
  | call c gpGet => exact Or.inl ⟨c, gpGet, rfl⟩
  | fetch type =>
    refine Or.inr ?_
    rw [Execution.follow]
    split
    · rfl
    · exact asked_take ..
  | _ => exact Or.inr rfl

/-- What has begun stays so. -/
theorem begun_of_step {s s' : System} {e : SystemEvent} (hs : s.step e = some s') {n : ℕ}
    (hn : s.gpu.Begun n) : s'.gpu.Begun n := by
  cases e with
  | call c gpGet =>
    obtain ⟨-, rfl⟩ := step_call hs
    exact hn
  | effect =>
    rcases step_effect hs with ⟨type, commands, rest, -, rfl⟩ | ⟨_, _, _, -, -, rfl⟩
    · exact Machine.Begun.submit hn
    · exact hn
  | fetch type =>
    obtain ⟨g, hg, rfl⟩ := step_fetch hs
    exact hn.fetch hg
  | finish type k =>
    obtain ⟨g, hg, rfl⟩ := step_finish hs
    exact hn.finish hg

/-- An event that asks for nothing, and completes only what is done. -/
theorem Execution.Logged.event {x : Execution M} {m : M} (hl : x.Logged p m) {e : SystemEvent}
    {s : System} (hs : x.system.step e = some s) (hhost : s.host = x.system.host)
    (hasked : (x.follow p e).asked = x.asked)
    (hfull : ∀ n task, (n, task) ∈ x.asked → n ∈ s.gpu.completed →
      n ∈ x.system.gpu.completed ∨ actionsOf n x.log = p.actions n task) :
    Execution.Logged p { x.follow p e with system := s } m := by
  obtain ⟨hmemory, hdone, hlog⟩ := follow_performs (p := p) x e
  constructor <;> simp only [hmemory, hdone, hlog, hasked, hhost]
  · exact hl.memory
  · exact hl.length
  · exact hl.front
  · intro n task hmem hn
    rcases hfull n task hmem hn with hn | hdone
    · exact hl.full n task hmem hn
    · exact hdone
  · exact fun a ha => begun_of_step hs (hl.begun a ha)
  · exact hl.source
  · exact hl.overlaps

/-- **A call** asks for what nothing has been performed of. -/
theorem Execution.Logged.called {x : Execution M} {m : M} (hl : x.Logged p m)
    (hb : x.system.Behaved p) (c : ApiCall) (gpGet : NvU32 × NvU32) :
    Execution.Logged p { x.follow p (.call c gpGet) with system := x.system.called c gpGet } m := by
  have hfresh : ∀ n task, (n, task) ∈ x.system.tasked p c gpGet → ¬ x.system.gpu.Begun n := by
    intro n task hmem hbegun
    obtain ⟨o, ho, hnumber⟩ := hb.enqueued hbegun
    obtain ⟨-, hle⟩ := hb.run.labelled.numbered.bounds ho
    have hnext := eq_of_mem_tasked hmem
    omega
  refine ⟨hl.memory, hl.length, fun n task hmem => ?_, fun n task hmem hdone => ?_, hl.begun,
    fun e he => ?_, hl.overlaps.imp fun {a b} h hlt l hle hle' => ?_⟩
  · rcases List.mem_append.mp hmem with hmem | hmem
    · exact hl.front n task hmem
    · have hnone : actionsOf n x.log = [] := by
        refine List.map_eq_nil_iff.mpr (List.filter_eq_nil_iff.mpr fun e he => ?_)
        have hbegun := hl.begun e he
        simp only [decide_eq_true_eq]
        rintro rfl
        exact hfresh _ task hmem hbegun
      exact hnone ▸ List.nil_prefix
  · rcases List.mem_append.mp hmem with hmem | hmem
    · exact hl.full n task hmem hdone
    · exact absurd (Or.inl hdone) (hfresh n task hmem)
  · obtain ⟨task, hmem, haction⟩ := hl.source e he
    exact ⟨task, List.mem_append_left _ hmem, haction⟩
  · obtain ⟨o, ho, hsame⟩ := h hlt l hle hle'
    exact ⟨o, operations_called hb.run.usable c gpGet o ho, hsame⟩

/-- **A completed operation has been performed.** -/
theorem Execution.Logged.completed {x : Execution M} {m : M} (hl : x.Logged p m)
    {given : List (ℕ × Order)} (hf : x.Faithful p given) (hb : x.system.Behaved p)
    {type : QueueType} {n : ℕ} (hn : n ∈ (x.system.gpu.channel type).running)
    (hready : (x.left p n).isEmpty = true) {task : Task} (hmem : (n, task) ∈ x.asked) :
    actionsOf n x.log = p.actions n task := by
  obtain ⟨task', hmem', hleft⟩ := hf.left hb hn
  obtain rfl := hf.unique hb hmem hmem'
  rw [hleft, List.isEmpty_iff, List.drop_eq_nil_iff] at hready
  exact (hl.front n task hmem).eq_of_length_le (hready.trans (hl.length n).ge)

theorem Execution.Logged.system {x x' : Execution M} {m : M} (hl : x.Logged p m)
    {given : List (ℕ × Order)} (hf : x.Faithful p given) (hb : x.system.Behaved p)
    {e : SystemEvent} (hstep : x.step p (.system e) = some x') : x'.Logged p m := by
  obtain ⟨hready, s, hs, rfl⟩ := step_system hstep
  cases e with
  | call c gpGet =>
    obtain ⟨-, rfl⟩ := step_call hs
    exact hl.called hb c gpGet
  | effect =>
    rcases step_effect hs with ⟨_, _, _, -, rfl⟩ | ⟨_, _, _, -, -, rfl⟩
    · exact hl.event hs rfl rfl fun n task _ hn => Or.inl hn
    · exact hl.event hs rfl rfl fun n task _ hn => Or.inl hn
  | fetch type =>
    obtain ⟨g, hg, rfl⟩ := step_fetch hs
    obtain ⟨-, -, -, hcompleted, -⟩ := fetch_cases hg
    refine hl.event hs rfl ((asked_follow x (.fetch type)).resolve_left ?_) fun n task _ hn => ?_
    · rintro ⟨_, _, h⟩
      cases h
    · have hn : n ∈ g.completed := hn
      exact Or.inl (hcompleted ▸ hn)
  | finish type n =>
    obtain ⟨g, hg, rfl⟩ := step_finish hs
    obtain ⟨hrunning, hcompleted, -⟩ := finish_cases hg
    refine hl.event hs rfl rfl fun k task hmem hk => ?_
    have hk : k ∈ g.completed := hk
    rw [hcompleted] at hk
    rcases List.mem_cons.mp hk with rfl | hk
    · exact Or.inr (hl.completed hf hb hrunning hready hmem)
    · exact Or.inl hk

/-! ## Actions -/

/-- **An action** is the next one of its operation, and what it comes too late for was
asynchronous. -/
theorem Execution.Logged.act {x x' : Execution M} {m : M} (hl : x.Logged p m)
    {given : List (ℕ × Order)} (hf : x.Faithful p given) (hb : x.system.Behaved p) {n : ℕ}
    (hstep : x.step p (.act n) = some x') : x'.Logged p m := by
  obtain ⟨⟨type, hrunning⟩, f, rest, hleft, rfl⟩ := step_act hstep
  obtain ⟨task, hasked, hdrop⟩ := hf.left hb hrunning
  rw [hdrop] at hleft
  have hopen := hb.not_completed hrunning
  obtain ⟨hfloor, -⟩ := hf.bounds hb hasked
  have hactions : ∀ k, actionsOf k (x.log ++ [(n, f)]) =
      actionsOf k x.log ++ if n = k then [f] else [] := fun k => by
    rw [actionsOf_append, actionsOf_singleton]
  have hother : ∀ k, k ≠ n → actionsOf k (x.log ++ [(n, f)]) = actionsOf k x.log := fun k hk => by
    rw [hactions, if_neg (Ne.symm hk), List.append_nil]
  refine ⟨?_, fun k => ?_, fun k task' hmem => ?_, fun k task' hmem hdone => ?_, fun e he => ?_,
    fun e he => ?_, ?_⟩
  · show perform (x.log ++ [(n, f)]) m = f x.memory
    rw [perform_append, hl.memory]
    rfl
  · show (actionsOf k (x.log ++ [(n, f)])).length = Function.update x.done n (x.done n + 1) k
    by_cases hk : k = n
    · subst hk
      rw [hactions, if_pos rfl, List.length_append, hl.length, Function.update_self]
      rfl
    · rw [hother k hk, Function.update_of_ne hk]
      exact hl.length k
  · show actionsOf k (x.log ++ [(n, f)]) <+: p.actions k task'
    by_cases hk : k = n
    · subst hk
      obtain rfl := hf.unique hb hmem hasked
      -- what has been performed is as long as what the engine has counted
      have hfront : actionsOf k x.log = (p.actions k task').take (x.done k) := by
        rw [← hl.length k]
        exact List.prefix_iff_eq_take.mp (hl.front k task' hmem)
      refine ⟨rest, ?_⟩
      rw [hactions, if_pos rfl, hfront, List.append_assoc, List.singleton_append, ← hleft,
        List.take_append_drop]
    · rw [hother k hk]
      exact hl.front k task' hmem
  · show actionsOf k (x.log ++ [(n, f)]) = p.actions k task'
    have hk : k ≠ n := by
      rintro rfl
      exact hopen hdone
    rw [hother k hk]
    exact hl.full k task' hmem hdone
  · rcases List.mem_append.mp he with he | he
    · exact hl.begun e he
    · obtain rfl := List.mem_singleton.mp he
      exact Or.inr ⟨type, hrunning⟩
  · rcases List.mem_append.mp he with he | he
    · exact hl.source e he
    · obtain rfl := List.mem_singleton.mp he
      exact ⟨task, hasked, List.mem_of_mem_drop (hleft ▸ List.mem_cons_self)⟩
  · refine List.pairwise_append.mpr ⟨hl.overlaps, List.pairwise_singleton .., ?_⟩
    intro a ha b hb' hlt l hle hle'
    obtain rfl := List.mem_singleton.mp hb'
    exact hb.beside.overlaps a.1 (hl.begun a ha) n hfloor hlt hopen l hle hle'

/-! ## Runs -/

theorem Execution.New.logged {x : Execution M} (hnew : x.New p) : x.Logged p x.memory := by
  constructor <;> simp only [hnew.log, hnew.asked, hnew.done, actionsOf_nil, perform_nil,
    List.length_nil, List.not_mem_nil, false_implies, implies_true, List.Pairwise.nil]

/-- **What has been performed, in every run.** -/
theorem logged_of_run {x x' : Execution M} (hnew : x.New p)
    (h : Relation.ReflTransGen (Execution.Next p) x x') : x'.Logged p x.memory := by
  induction h with
  | refl => exact hnew.logged
  | tail hprev hnext ih =>
    obtain ⟨given, hf⟩ := faithful_of_run hnew hprev
    have hb := behaved_of_run hnew hprev
    obtain ⟨e, -, hs⟩ := hnext
    cases e with
    | system e => exact ih.system hf hb hs
    | act n => exact ih.act hf hb hs

/-- **When an await has returned**, everything has completed, and so all of it has been performed. -/
theorem Execution.Logged.awaited {x : Execution M} {m : M} (hl : x.Logged p m)
    {given : List (ℕ × Order)} (hf : x.Faithful p given) (hb : x.system.Behaved p)
    {r : Except Failure Unit} (hlast : x.system.last = some (.awaitExecution, r))
    (heffects : x.system.effects = []) {a : ℕ × Task} (ha : a ∈ x.asked) :
    actionsOf a.1 x.log = p.actions a.1 a.2 := by
  have hrun : x.system.Run System.InStep := hb.run.mono fun _ _ hfits => hfits.1
  have hnumber : a.1 ∈ x.system.host.operations.map Operation.number := by
    rw [← hf.asked]
    exact List.mem_map_of_mem ha
  obtain ⟨o, ho, heq⟩ := List.mem_map.mp hnumber
  exact hl.full a.1 a.2 ha (heq ▸ completed_of_awaited hrun hlast heffects o ho)

/-- **A stream is sequential.** In every orderly run of a new execution: when an await has returned,
the memory is the one that the calls so far would leave one after another, provided that
asynchronous launches with only asynchronous launches in between are independent. -/
theorem stream_is_sequential {x x' : Execution M} (hnew : x.New p)
    (h : Relation.ReflTransGen (Execution.Next p) x x') {r : Except Failure Unit}
    (hlast : x'.system.last = some (.awaitExecution, r)) (heffects : x'.system.effects = [])
    (hfree : ∀ a ∈ x'.asked, ∀ b ∈ x'.asked, a.1 < b.1 →
      (∀ l, a.1 ≤ l → l ≤ b.1 → x'.system.host.IsAsyncLaunch l) →
        ∀ f ∈ p.actions a.1 a.2, ∀ g ∈ p.actions b.1 b.2, Function.Commute g f) :
    x'.memory = x'.asked.foldl (fun m a => act (p.actions a.1 a.2) m) x.memory := by
  obtain ⟨given, hf⟩ := faithful_of_run hnew h
  have hb := behaved_of_run hnew h
  have hl := logged_of_run hnew h
  have hserial : Serializable x'.log := by
    refine hl.overlaps.imp_of_mem fun {a b} ha hb' hoverlaps hlt => ?_
    obtain ⟨task, hasked, haction⟩ := hl.source a ha
    obtain ⟨task', hasked', haction'⟩ := hl.source b hb'
    exact hfree (b.1, task') hasked' (a.1, task) hasked hlt (hoverlaps hlt) b.2 haction' a.2 haction
  have hmem : ∀ e ∈ x'.log, e.1 ∈ x'.asked.map Prod.fst := fun e he => by
    obtain ⟨task, hasked, -⟩ := hl.source e he
    exact List.mem_map_of_mem hasked
  calc x'.memory = perform x'.log x.memory := hl.memory.symm
    _ = (x'.asked.map Prod.fst).foldl (fun m n => act (actionsOf n x'.log) m) x.memory :=
      perform_eq_serial hserial (hf.sorted hb) hmem x.memory
    _ = x'.asked.foldl (fun m a => act (actionsOf a.1 x'.log) m) x.memory := List.foldl_map
    _ = x'.asked.foldl (fun m a => act (p.actions a.1 a.2) m) x.memory :=
      List.foldl_ext _ _ _ fun m a ha => by rw [hl.awaited hf hb hlast heffects ha]

/-! ## A run -/

/-- Events, one after another. -/
def Execution.exec (p : Processor M) (x : Execution M) : List ExecutionEvent → Option (Execution M)
  | [] => some x
  | e :: rest => (x.step p e).bind fun x' => x'.exec p rest

/-- Events that are orderly wherever they happen. -/
theorem run_of_exec {x x' : Execution M} {events : List ExecutionEvent}
    (hok : ∀ e ∈ events, ∀ y : Execution M, y.Orderly e) (h : x.exec p events = some x') :
    Relation.ReflTransGen (Execution.Next p) x x' := by
  induction events generalizing x with
  | nil =>
    cases h
    exact .refl
  | cons e rest ih =>
    obtain ⟨y, hy, hrest⟩ := Option.bind_eq_some_iff.mp h
    exact .head ⟨e, hok e List.mem_cons_self x, hy⟩
      (ih (fun e' he' => hok e' (List.mem_cons_of_mem e he')) hrest)

def Execution.after (p : Processor M) (x : Execution M) (events : List ExecutionEvent) :
    Execution M := (x.exec p events).getD x

theorem execution_after {x : Execution M} {events : List ExecutionEvent}
    (h : (x.exec p events).isSome = true) : x.exec p events = some (x.after p events) := by
  obtain ⟨y, hy⟩ := Option.isSome_iff_exists.mp h
  rw [Execution.after, hy]
  rfl

/-- Whatever is carried out adds one and then two. -/
def sampleProcessor : Processor ℕ := ⟨fun _ => 0, fun _ _ => [(· + 1), (· + 2)]⟩

def sampleExecution : Execution ℕ := ⟨sampleSystem, 0, fun _ => {}, [], fun _ => 0, [], []⟩

theorem new_sampleExecution : sampleExecution.New sampleProcessor :=
  ⟨initial_sampleSystem, by rfl, prepared_sampleSystem, fun _ _ _ _ _ _ => Nat.zero_le _, rfl,
    fun _ => rfl, rfl, rfl⟩

/-- Two asynchronous launches are enqueued, and commenced. -/
def sampleCommenced : Execution ℕ :=
  ((sampleExecution.after sampleProcessor [.system (.call (sampleLaunch true) (0, 0))]).after
    sampleProcessor [.system (.call (sampleLaunch true) (0, 0))]).after sampleProcessor
      [.system (.call .startExecution (0, 0))]

/-- Their actions are interleaved, and an await returns. -/
def interleaved : List ExecutionEvent :=
  [.system .effect] ++ List.replicate 6 (.system (.fetch .compute)) ++
    [.act 4, .act 3, .act 3, .system (.finish .compute 3), .act 4, .system (.finish .compute 4),
      .system (.fetch .compute), .system (.call .awaitExecution (0, 0)), .system .effect]

theorem run_sampleCommenced :
    Relation.ReflTransGen (Execution.Next sampleProcessor) sampleExecution sampleCommenced := by
  have hback : (sampleExecution.after sampleProcessor
      [.system (.call (sampleLaunch true) (0, 0))] |>.after sampleProcessor
        [.system (.call (sampleLaunch true) (0, 0))]).system.host.timeline.commandBufBacklog = [] := by
    rfl
  have hcommenced : (sampleExecution.after sampleProcessor
      [.system (.call (sampleLaunch true) (0, 0))] |>.after sampleProcessor
        [.system (.call (sampleLaunch true) (0, 0))]).system.commenced = 2 := by rfl
  refine .tail (.tail (.tail .refl ⟨.system (.call (sampleLaunch true) (0, 0)),
    ⟨fun _ => by decide +kernel, trivial⟩, by rfl⟩) ⟨.system (.call (sampleLaunch true) (0, 0)),
      ⟨fun _ => by decide +kernel, trivial⟩, by rfl⟩) ⟨.system (.call .startExecution (0, 0)), ⟨⟨
        fun hne => absurd hback hne, fun type commands _ => Or.inl fun k hk hle => ?_⟩, by rfl⟩, by rfl⟩
  rw [hcommenced] at hle
  exact absurd hk (Nat.not_lt.mpr hle)

theorem run_interleaved : Relation.ReflTransGen (Execution.Next sampleProcessor) sampleExecution
    (sampleCommenced.after sampleProcessor interleaved) := by
  refine run_sampleCommenced.trans (run_of_exec (fun e he y => ?_) (execution_after (by rfl)))
  have hcount : ∀ _ : False, y.system.host.timeline.timelineSteps + 1 < 2 ^ 32 := fun h => h.elim
  simp only [interleaved, List.mem_append, List.mem_replicate, List.mem_cons, List.not_mem_nil,
    or_false] at he
  rcases he with (rfl | ⟨-, rfl⟩) | rfl | rfl | rfl | rfl | rfl | rfl | rfl | rfl | rfl
  all_goals first
    | exact trivial
    | exact ⟨trivial, trivial⟩
    | exact ⟨hcount, trivial⟩

/-- Interleaved or not, two launches add six. -/
theorem stream_is_sequential_sample :
    (sampleCommenced.after sampleProcessor interleaved).memory = 0 + 1 + 2 + 1 + 2 := by
  rw [stream_is_sequential new_sampleExecution run_interleaved (r := .ok ()) (by rfl)
    (by decide +kernel) fun _ _ _ _ _ _ f hf g hg m => ?_]
  · rfl
  · -- additions commute
    simp only [sampleProcessor, List.mem_cons, List.not_mem_nil, or_false] at hf hg
    rcases hf with rfl | rfl <;> rcases hg with rfl | rfl <;> simp only [Nat.add_right_comm]

end LibreCuda
