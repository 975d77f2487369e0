import LibreCuda.Foundation.Interleavings
import LibreCuda.Stream.Intact

/-! # Operations as they are carried out

An engine reads an order from its registers when it begins an operation. It finds its task in memory
and carries it out, one action after another, and actions of operations that run at the same time
come in any order. An operation completes when all of it is done.

* **`Execution.step`** is one event: one of the system, or an action.
* **`System.Behaved`** is what is known of the system behind an orderly run.
* **`Execution.Faithful`**: the engines have begun, and will begin, what was ordered, and what they
  find for it is what the call asked for. It holds in every run (**`faithful_of_run`**). -/

namespace LibreCuda

open Channels Exec Interleavings

variable {M : Type} (p : Processor M)

/-- A system, the memory its engines work on, and what they have done. -/
structure Execution (M : Type) where
  system : System
  memory : M
  regs : QueueType → OrderRegs
  /-- The operations begun, each with the order that was in the registers. -/
  begun : List (ℕ × Order)
  /-- How many actions of an operation have been performed. -/
  done : ℕ → ℕ
  /-- Bookkeeping: what calls asked for, each with the number of its operation. -/
  asked : List (ℕ × Task)
  /-- Bookkeeping: the actions performed. -/
  log : Log ℕ M

/-- What can happen next. -/
inductive ExecutionEvent
  | system (e : SystemEvent)
  | act (n : ℕ)

/-- What a call asks for, with the number of its operation. -/
def System.tasked (s : System) (c : ApiCall) (gpGet : NvU32 × NvU32) : List (ℕ × Task) :=
  match (call c.run (s.observed gpGet)).1 with
  | .ok _ => (((s.observed gpGet).taskOf p (s.called c gpGet).host c).map fun task =>
      (s.host.timeline.timelineSteps + 1, task)).toList
  | .error _ => []

/-- What an engine takes from the command it fetches. -/
def Execution.take (x : Execution M) (type : QueueType) : GpuCommand → Execution M
  | .other m => { x with
      regs := Function.update x.regs type ((orderEngine type).set (x.regs type) m) }
  | .start n _ => { x with begun := x.begun ++ [(n, (orderEngine type).order (x.regs type))] }
  | _ => x

/-- What an event of the system means for the engines. -/
def Execution.follow (x : Execution M) : SystemEvent → Execution M
  | .call c gpGet => { x with asked := x.asked ++ x.system.tasked p c gpGet }
  | .fetch type =>
    match (x.system.gpu.channel type).pending with
    | [] => x
    | cmd :: _ => x.take type cmd
  | _ => x

/-- What is left to do of an operation that has begun. -/
def Execution.left (x : Execution M) (n : ℕ) : List (M → M) :=
  match x.begun.lookup n with
  | some order => (p.actions n (p.task x.system.host.mem order)).drop (x.done n)
  | none => []

/-- An operation completes when nothing is left of it. -/
def Execution.ready (x : Execution M) : SystemEvent → Bool
  | .finish _ n => (x.left p n).isEmpty
  | _ => true

/-- An action is performed. -/
def Execution.performed (x : Execution M) (n : ℕ) (f : M → M) : Execution M :=
  { x with
    memory := f x.memory
    done := Function.update x.done n (x.done n + 1)
    log := x.log ++ [(n, f)] }

/-- An event, if it can happen. -/
def Execution.step (x : Execution M) : ExecutionEvent → Option (Execution M)
  | .system e =>
    if x.ready p e then (x.system.step e).map fun s => { x.follow p e with system := s } else none
  | .act n =>
    if ∃ type, n ∈ (x.system.gpu.channel type).running then
      (x.left p n).head?.map (x.performed n)
    else none

/-- The condition: events of the system are orderly. -/
def Execution.Orderly (x : Execution M) : ExecutionEvent → Prop
  | .system e => x.system.Orderly e
  | .act _ => True

/-- A step that meets the condition. -/
def Execution.Next (x x' : Execution M) : Prop := ∃ e, x.Orderly e ∧ x.step p e = some x'

/-- Nothing has been asked for in a new execution. -/
structure Execution.New (x : Execution M) : Prop where
  initial : x.system.Initial
  completed : x.system.gpu.completed = []
  prepared : x.system.host.Prepared
  reads : p.Reads x.system.host.functions
  begun : x.begun = []
  done : ∀ n, x.done n = 0
  asked : x.asked = []
  log : x.log = []

variable {p}

/-! ## Steps -/

theorem step_system {x x' : Execution M} {e : SystemEvent} (h : x.step p (.system e) = some x') :
    x.ready p e = true ∧ ∃ s, x.system.step e = some s ∧ x' = { x.follow p e with system := s } := by
  simp only [Execution.step] at h
  split_ifs at h with hready
  obtain ⟨s, hs, rfl⟩ := Option.map_eq_some_iff.mp h
  exact ⟨hready, s, hs, rfl⟩

theorem step_act {x x' : Execution M} {n : ℕ} (h : x.step p (.act n) = some x') :
    (∃ type, n ∈ (x.system.gpu.channel type).running) ∧
      ∃ f rest, x.left p n = f :: rest ∧ x' = x.performed n f := by
  simp only [Execution.step] at h
  split_ifs at h with hrunning
  obtain ⟨f, hf, rfl⟩ := Option.map_eq_some_iff.mp h
  obtain ⟨rest, hleft⟩ := List.head?_eq_some_iff.mp hf
  exact ⟨hrunning, f, rest, hleft, rfl⟩

/-- What is left is read from an order. -/
theorem left_of_lookup {x : Execution M} {n : ℕ} {order : Order}
    (h : x.begun.lookup n = some order) :
    x.left p n = (p.actions n (p.task x.system.host.mem order)).drop (x.done n) := by
  rw [Execution.left, h]

/-- Actions leave the system alone. -/
theorem system_of_next {x x' : Execution M} (h : x.Next p x') :
    x'.system = x.system ∨ System.Next System.Orderly x.system x'.system := by
  obtain ⟨e, hok, hstep⟩ := h
  cases e with
  | system e =>
    obtain ⟨-, s, hs, rfl⟩ := step_system hstep
    exact Or.inr ⟨e, hok, hs⟩
  | act n =>
    obtain ⟨-, f, rest, -, rfl⟩ := step_act hstep
    exact Or.inl rfl

/-- **The system of an execution runs orderly.** -/
theorem system_of_run {x x' : Execution M} (h : Relation.ReflTransGen (Execution.Next p) x x') :
    Relation.ReflTransGen (System.Next System.Orderly) x.system x'.system := by
  induction h with
  | refl => exact .refl
  | tail _ hnext ih =>
    rcases system_of_next hnext with hsame | hnext
    · rw [hsame]
      exact ih
    · exact ih.tail hnext

/-! ## Systems behind orderly runs -/

/-- What is known behind an orderly run of a prepared system. -/
structure System.Behaved (p : Processor M) (s : System) : Prop where
  run : s.Run System.Fits
  prepared : s.host.Prepared
  reads : p.Reads s.host.functions
  beside : s.Beside
  conserved : ∃ log, s.Conserves log

/-- Descriptors say nothing about local memory. -/
theorem Host.SameKernels.reads {h h' : Host} (hsame : h.SameKernels h')
    (hreads : p.Reads h.functions) : p.Reads h'.functions := by
  intro function grid block sharedMemBytes slm ptr
  rw [hsame.functions function]
  exact hreads function grid block sharedMemBytes slm ptr

theorem reads_of_run {s s' : System} (hreads : p.Reads s.host.functions)
    (h : Relation.ReflTransGen (System.Next System.Orderly) s s') : p.Reads s'.host.functions := by
  induction h with
  | refl => exact hreads
  | tail _ hnext ih =>
    obtain ⟨e, -, hs⟩ := hnext
    rcases host_of_step hs with hhost | ⟨c, gpGet, -, rfl⟩
    · exact hhost ▸ ih
    · exact (kernels_called _ c gpGet).reads ih

theorem behaved_of_run {x x' : Execution M} (hnew : x.New p)
    (h : Relation.ReflTransGen (Execution.Next p) x x') : x'.system.Behaved p := by
  have hsystem := system_of_run h
  obtain ⟨hprepared, hrun⟩ :=
    prepared_of_run hnew.initial hnew.prepared (orderly_inStep hsystem)
  exact ⟨hrun, hprepared, reads_of_run hnew.reads hsystem,
    hnew.initial.beside hnew.completed hsystem,
    hnew.initial.conserved hnew.completed (orderly_accepts hsystem)⟩

/-- Operations have numbers of their own. -/
theorem System.Behaved.nodup {s : System} (hb : s.Behaved p) :
    (s.host.operations.map Operation.number).Nodup := by
  rw [hb.run.labelled.numbered.numbers]
  exact List.nodup_range'

/-- What runs has not completed. -/
theorem System.Behaved.not_completed {s : System} (hb : s.Behaved p) {type : QueueType} {n : ℕ}
    (hn : n ∈ (s.gpu.channel type).running) : n ∉ s.gpu.completed := by
  intro hdone
  obtain ⟨log, hc⟩ := hb.conserved
  -- the operation would have begun twice, and it was enqueued once
  have honce : s.gpu.begun n ≤ 1 := by
    rw [← hc.begun]
    refine le_trans (Finset.sum_le_sum fun type _ => ?_)
      ((sum_numbersFor s n).trans_le (List.nodup_iff_count_le_one.mp hb.nodup n))
    rw [hc.placed, List.count_append]
    exact Nat.le_add_right _ _
  have hrunning : (s.gpu.channel type).running.count n ≤
      ∑ type, (s.gpu.channel type).running.count n :=
    Finset.single_le_sum (f := fun type => (s.gpu.channel type).running.count n)
      (fun _ _ => Nat.zero_le _) (Finset.mem_univ type)
  have hcount := List.count_pos_iff.mpr hn
  have hcompleted := List.count_pos_iff.mpr hdone
  rw [Machine.begun] at honce
  omega

/-! ## What engines begin -/

/-- **The invariant**: `given` has what was ordered. What an engine has begun, and will read from its
stream, is what was ordered for it; and for an operation that has not completed it finds what the
call asked for. -/
structure Execution.Faithful (p : Processor M) (x : Execution M) (given : List (ℕ × Order)) :
    Prop where
  streams : ∀ type, ordersFor type x.begun ++
    (orderEngine type).orders (x.regs type) (x.system.stream type) = ordersFor type given
  asked : x.asked.map Prod.fst = x.system.host.operations.map Operation.number
  stored : ∀ n order, (n, order) ∈ given → n ∉ x.system.gpu.completed → ∃ task, (n, task) ∈ x.asked ∧
    ∃ o ∈ x.system.host.operations, o.number = n ∧ p.Stored x.system.host.mem order task o.args
  running : ∀ type, ∀ n ∈ (x.system.gpu.channel type).running, ∃ order, (n, order) ∈ x.begun

theorem mem_ordersFor {type : QueueType} {orders : List (ℕ × Order)} {n : ℕ} {order : Order} :
    (n, order) ∈ ordersFor type orders ↔ (n, order) ∈ orders ∧ order.engine = type := by
  simp [ordersFor]

theorem ordersFor_append (type : QueueType) (a b : List (ℕ × Order)) :
    ordersFor type (a ++ b) = ordersFor type a ++ ordersFor type b := List.filter_append ..

/-- What has begun was ordered. -/
theorem Execution.Faithful.mem_given {x : Execution M} {given : List (ℕ × Order)}
    (hf : x.Faithful p given) {n : ℕ} {order : Order} (h : (n, order) ∈ x.begun) :
    (n, order) ∈ given := by
  have hmem : (n, order) ∈ ordersFor order.engine given := by
    rw [← hf.streams]
    exact List.mem_append_left _ (mem_ordersFor.mpr ⟨h, rfl⟩)
  exact (mem_ordersFor.mp hmem).1

/-- A running operation has an order. -/
theorem Execution.Faithful.lookup {x : Execution M} {given : List (ℕ × Order)}
    (hf : x.Faithful p given) {type : QueueType} {n : ℕ}
    (hn : n ∈ (x.system.gpu.channel type).running) :
    ∃ order, x.begun.lookup n = some order ∧ (n, order) ∈ given := by
  obtain ⟨order, hmem⟩ := hf.running type n hn
  cases hlookup : x.begun.lookup n with
  | none => exact absurd hmem (by simpa using List.lookup_eq_none_iff.mp hlookup (n, order))
  | some order' =>
    obtain ⟨before, behind, hsplit, -⟩ := List.lookup_eq_some_iff.mp hlookup
    refine ⟨order', rfl, hf.mem_given ?_⟩
    rw [hsplit]
    exact List.mem_append_right _ List.mem_cons_self

/-- **What is left of a running operation** are actions of what its call asked for. -/
theorem Execution.Faithful.left {x : Execution M} {given : List (ℕ × Order)}
    (hf : x.Faithful p given) (hb : x.system.Behaved p) {type : QueueType} {n : ℕ}
    (hn : n ∈ (x.system.gpu.channel type).running) :
    ∃ task, (n, task) ∈ x.asked ∧ x.left p n = (p.actions n task).drop (x.done n) := by
  obtain ⟨order, hlookup, hgiven⟩ := hf.lookup hn
  obtain ⟨task, hasked, o, -, -, hstored⟩ := hf.stored n order hgiven (hb.not_completed hn)
  exact ⟨task, hasked, by rw [left_of_lookup hlookup, hstored.task_eq]⟩

/-- A call asks for what it orders. -/
theorem map_fst_tasked (s : System) (c : ApiCall) (gpGet : NvU32 × NvU32) :
    (s.tasked p c gpGet).map Prod.fst = (s.ordered c gpGet).map Prod.fst := by
  have hsome : (((s.observed gpGet).taskOf p (s.called c gpGet).host c).map fun task =>
      (s.host.timeline.timelineSteps + 1, task)).toList.map Prod.fst =
        (((s.observed gpGet).orderOf c).map fun order =>
          (s.host.timeline.timelineSteps + 1, order)).toList.map Prod.fst := by
    cases c with
    | launchFunction function =>
      cases function with
      | none => rfl
      | some function => rfl
    | _ => rfl
  rw [System.tasked, System.ordered]
  cases (call c.run (s.observed gpGet)).1 with
  | ok _ => exact hsome
  | error e => rfl

/-- The numbers of the operations behind a call. -/
theorem map_number_called {s : System} (hu : s.host.Usable) (c : ApiCall) (gpGet : NvU32 × NvU32) :
    (s.called c gpGet).host.operations.map Operation.number =
      s.host.operations.map Operation.number ++ (s.ordered c gpGet).map Prod.fst := by
  have hcall : Exec.call c.run (s.observed gpGet) =
    ((Exec.call c.run (s.observed gpGet)).1, (s.called c gpGet).host) := rfl
  have hplaced := congrArg (List.map Prod.fst) ((hu.observe s.gpu.signals gpGet).placed hcall)
  rw [List.map_append, List.map_map, List.map_map, List.map_map] at hplaced
  exact hplaced

/-- **Behind a call** the engine finds what it asked for. -/
theorem stored_called {s : System} (hb : s.Behaved p) {c : ApiCall} {gpGet : NvU32 × NvU32} {n : ℕ}
    {order : Order} (h : (n, order) ∈ s.ordered c gpGet) :
    ∃ task, (n, task) ∈ s.tasked p c gpGet ∧ ∃ o ∈ (s.called c gpGet).host.operations,
      o.number = n ∧ p.Stored (s.called c gpGet).host.mem order task o.args := by
  have hpage : (s.observed gpGet).PageReady :=
    ⟨hb.prepared.page.aligned, hb.prepared.page.below, hb.prepared.page.next,
      hb.prepared.page.inside⟩
  have hcall : Exec.call c.run (s.observed gpGet) =
    ((Exec.call c.run (s.observed gpGet)).1, (s.called c gpGet).host) := rfl
  rw [System.ordered] at h
  cases hr : (Exec.call c.run (s.observed gpGet)).1 with
  | error e =>
    rw [hr] at h
    cases h
  | ok _ =>
    rw [hr] at h hcall
    obtain ⟨order', horder, heq⟩ := Option.map_eq_some_iff.mp (Option.mem_toList.mp h)
    obtain ⟨rfl, rfl⟩ := Prod.mk.inj heq
    obtain ⟨task, async, args, htask, hops, hstored⟩ :=
      stored_of_call (h := s.observed gpGet) hb.run.usable.timelineSignal hb.prepared.fits hb.reads
        hpage hcall horder
    refine ⟨task, ?_, ⟨s.host.timeline.timelineSteps + 1, order'.engine, async, args⟩, ?_, rfl,
      hstored⟩
    · rw [System.tasked, hr]
      show _ ∈ (Option.map _ ((s.observed gpGet).taskOf p (s.called c gpGet).host c)).toList
      rw [htask]
      exact List.mem_cons_self
    · rw [hops]
      exact List.mem_append_right _ List.mem_cons_self

/-! ## The invariant -/

theorem Execution.Faithful.called {x : Execution M} {given : List (ℕ × Order)}
    (hf : x.Faithful p given) (hb : x.system.Behaved p) (heffects : x.system.effects = [])
    {c : ApiCall} {gpGet : NvU32 × NvU32} (hok : x.system.Accepts (.call c gpGet)) :
    Execution.Faithful p { x.follow p (.call c gpGet) with system := x.system.called c gpGet }
      (given ++ x.system.ordered c gpGet) := by
  have hu := hb.run.usable
  obtain ⟨log, hc⟩ := hb.conserved
  obtain ⟨-, hstreams⟩ := stream_called hu hc.settled heffects hok
  have hstep : x.system.step (.call c gpGet) = some (x.system.called c gpGet) := if_pos heffects
  refine ⟨fun type => ?_, ?_, fun n order hmem hopen => ?_, hf.running⟩
  · obtain ⟨cmds, hstream, hgives⟩ := hstreams type
    rw [hstream, Engine.orders_append, hgives, ordersFor_append, ← List.append_assoc]
    exact congrArg (· ++ _) (hf.streams type)
  · rw [map_number_called hu, ← map_fst_tasked (p := p), ← hf.asked]
    exact List.map_append
  rcases List.mem_append.mp hmem with hmem | hmem
  · obtain ⟨task, htask, o, ho, hnumber, hstored⟩ := hf.stored n order hmem hopen
    refine ⟨task, List.mem_append_left _ htask, o, operations_called hu c gpGet o ho, hnumber,
      hstored.of_region fun a ha => ?_⟩
    exact mem_of_step hb.run hb.prepared hstep ho (hnumber ▸ hopen) ha
  · obtain ⟨task, htask, hrest⟩ := stored_called hb hmem
    exact ⟨task, List.mem_append_right _ htask, hrest⟩

/-- What an engine takes from a command, it no longer reads from its stream. -/
theorem orders_take (x : Execution M) (type : QueueType) (cmd : GpuCommand)
    (rest : List GpuCommand) :
    ordersFor type x.begun ++ (orderEngine type).orders (x.regs type) (duties [cmd] ++ rest) =
      ordersFor type (x.take type cmd).begun ++
        (orderEngine type).orders ((x.take type cmd).regs type) rest := by
  cases cmd with
  | release signal value => rfl
  | acquire signal value => rfl
  | other m =>
    have hregs : (x.take type (.other m)).regs type = (orderEngine type).set (x.regs type) m :=
      Function.update_self ..
    rw [hregs]
    rfl
  | start n ordered =>
    have hself : ordersFor type [(n, (orderEngine type).order (x.regs type))] =
        [(n, (orderEngine type).order (x.regs type))] :=
      ordersFor_self fun a ha => by rw [List.mem_singleton.mp ha, engine_order]
    have hbegun : (x.take type (.start n ordered)).begun =
        x.begun ++ [(n, (orderEngine type).order (x.regs type))] := rfl
    rw [hbegun, ordersFor_append, hself, List.append_assoc]
    rfl

/-- What an engine takes is for itself. -/
theorem take_of_ne {x : Execution M} {type other : QueueType} (hne : other ≠ type)
    (cmd : GpuCommand) : ordersFor other (x.take type cmd).begun = ordersFor other x.begun ∧
      (x.take type cmd).regs other = x.regs other := by
  cases cmd with
  | release signal value => exact ⟨rfl, rfl⟩
  | acquire signal value => exact ⟨rfl, rfl⟩
  | other m => exact ⟨rfl, Function.update_of_ne hne ..⟩
  | start n ordered =>
    have hnone : ordersFor other [(n, (orderEngine type).order (x.regs type))] = [] :=
      ordersFor_of_ne (fun a ha => by rw [List.mem_singleton.mp ha, engine_order]) hne.symm
    refine ⟨?_, rfl⟩
    show ordersFor other (x.begun ++ [_]) = _
    rw [ordersFor_append, hnone, List.append_nil]

/-- Nothing that has begun is forgotten. -/
theorem mem_begun_take {x : Execution M} {type : QueueType} {cmd : GpuCommand} {a : ℕ × Order}
    (h : a ∈ x.begun) : a ∈ (x.take type cmd).begun := by
  cases cmd with
  | start n ordered => exact List.mem_append_left _ h
  | _ => exact h

/-- The first command is taken, and nothing that was asked for changes. -/
theorem follow_fetch {x : Execution M} {type : QueueType} {cmd : GpuCommand}
    {rest : List GpuCommand} (hp : (x.system.gpu.channel type).pending = cmd :: rest) :
    x.follow p (.fetch type) = x.take type cmd := by
  rw [Execution.follow, hp]

theorem asked_take (x : Execution M) (type : QueueType) (cmd : GpuCommand) :
    (x.take type cmd).asked = x.asked := by cases cmd <;> rfl

theorem Execution.Faithful.fetch {x : Execution M} {given : List (ℕ × Order)}
    (hf : x.Faithful p given) {type : QueueType} {g : Gpu}
    (hg : x.system.gpu.fetch serialEngine type = some g) :
    Execution.Faithful p { x.follow p (.fetch type) with system := { x.system with gpu := g } }
      given := by
  obtain ⟨⟨cmd, rest, hp, hstream⟩, hothers⟩ := stream_fetch hg
  obtain ⟨cmd', rest', hp', hcompleted, hne, -, hcmd⟩ := fetch_cases hg
  obtain ⟨rfl, rfl⟩ := List.cons.inj (hp.symm.trans hp')
  rw [follow_fetch hp]
  refine ⟨fun type' => ?_, ?_, fun n order hmem hopen => ?_, fun type' n hn => ?_⟩
  · by_cases hsame : type' = type
    · subst hsame
      have hbefore := hf.streams type'
      rw [hstream, orders_take] at hbefore
      exact hbefore
    · obtain ⟨hbegun, hregs⟩ := take_of_ne (x := x) hsame cmd
      show ordersFor type' (x.take type cmd).begun ++ (orderEngine type').orders
        ((x.take type cmd).regs type') (System.stream { x.system with gpu := g } type') = _
      rw [hbegun, hregs, hothers type' hsame]
      exact hf.streams type'
  · show (x.take type cmd).asked.map Prod.fst = _
    rw [asked_take]
    exact hf.asked
  · have hopen : n ∉ g.completed := hopen
    rw [hcompleted] at hopen
    obtain ⟨task, htask, hrest⟩ := hf.stored n order hmem hopen
    exact ⟨task, (asked_take x type cmd).symm ▸ htask, hrest⟩
  · have hn : n ∈ (g.channel type').running := hn
    by_cases hsame : type' = type
    swap
    · rw [hne type' hsame] at hn
      obtain ⟨order, hmem⟩ := hf.running type' n hn
      exact ⟨order, mem_begun_take hmem⟩
    subst hsame
    cases cmd with
    | release signal value =>
      rw [hcmd.2.1] at hn
      cases hn
    | acquire signal value =>
      rw [hcmd.2.1] at hn
      exact hf.running type' n hn
    | other m =>
      rw [hcmd.1] at hn
      exact hf.running type' n hn
    | start k ordered =>
      rw [hcmd.2.1] at hn
      rcases List.mem_cons.mp hn with rfl | hn
      · exact ⟨_, List.mem_append_right _ List.mem_cons_self⟩
      · obtain ⟨order, hmem⟩ := hf.running type' n hn
        exact ⟨order, mem_begun_take hmem⟩

/-- **The invariant holds behind every step** of the system. -/
theorem Execution.Faithful.system {x x' : Execution M} {given : List (ℕ × Order)}
    (hf : x.Faithful p given) (hb : x.system.Behaved p) {e : SystemEvent}
    (hok : x.system.Orderly e) (hstep : x.step p (.system e) = some x') :
    ∃ given', x'.Faithful p given' := by
  obtain ⟨-, s, hs, rfl⟩ := step_system hstep
  cases e with
  | call c gpGet =>
    obtain ⟨heffects, rfl⟩ := step_call hs
    exact ⟨_, hf.called hb heffects hok.2⟩
  | effect =>
    refine ⟨given, ?_⟩
    have hstream := stream_effect hs
    have hhost : s.host = x.system.host ∧ s.gpu.completed = x.system.gpu.completed ∧
        ∀ type, (s.gpu.channel type).running = (x.system.gpu.channel type).running := by
      rcases step_effect hs with ⟨type, commands, rest, -, rfl⟩ | ⟨_, _, _, -, -, rfl⟩
      · exact ⟨rfl, rfl, running_submit _⟩
      · exact ⟨rfl, rfl, fun _ => rfl⟩
    obtain ⟨hhost, hcompleted, hrunning⟩ := hhost
    refine ⟨fun type => ?_, ?_, fun n order hmem hopen => ?_, fun type n hn => ?_⟩
    · exact hstream type ▸ hf.streams type
    · exact hhost ▸ hf.asked
    · have hopen : n ∉ s.gpu.completed := hopen
      exact hhost ▸ hf.stored n order hmem (hcompleted ▸ hopen)
    · exact hf.running type n (hrunning type ▸ hn)
  | fetch type =>
    obtain ⟨g, hg, rfl⟩ := step_fetch hs
    exact ⟨given, hf.fetch hg⟩
  | finish type n =>
    obtain ⟨g, hg, rfl⟩ := step_finish hs
    obtain ⟨-, hcompleted, -, hne, -, hrunning⟩ := finish_cases hg
    refine ⟨given, fun type' => ?_, hf.asked, fun k order hmem hopen => ?_, fun type' k hk => ?_⟩
    · exact (stream_finish hg type').symm ▸ hf.streams type'
    · refine hf.stored k order hmem fun hk => hopen ?_
      show k ∈ g.completed
      rw [hcompleted]
      exact List.mem_cons_of_mem n hk
    · have hk : k ∈ (g.channel type').running := hk
      refine hf.running type' k ?_
      by_cases hsame : type' = type
      · subst hsame
        rw [hrunning] at hk
        exact List.mem_of_mem_erase hk
      · rwa [hne type' hsame] at hk

/-- Nothing has been ordered in a new execution. -/
theorem Execution.New.faithful {x : Execution M} (hnew : x.New p) : x.Faithful p [] := by
  have hready := hnew.initial.host.ready
  have hstream : ∀ type, x.system.stream type = [] := fun type => by
    rw [System.stream, hnew.initial.channels, hnew.initial.effects, CommandTimeline.duties,
      CommandTimeline.queued, hready.backlog, hready.idle, hready.idle]
    rfl
  refine ⟨fun type => ?_, ?_, fun n order hmem => absurd hmem List.not_mem_nil, fun type n hn => ?_⟩
  · rw [hstream, hnew.begun]
    rfl
  · rw [hnew.asked, hready.operations]
    rfl
  · rw [hnew.initial.channels] at hn
    cases hn

/-- **The invariant holds in every run.** -/
theorem faithful_of_run {x x' : Execution M} (hnew : x.New p)
    (h : Relation.ReflTransGen (Execution.Next p) x x') : ∃ given, x'.Faithful p given := by
  induction h with
  | refl => exact ⟨[], hnew.faithful⟩
  | tail hprev hnext ih =>
    obtain ⟨given, hf⟩ := ih
    obtain ⟨e, hok, hs⟩ := hnext
    cases e with
    | system e => exact hf.system (behaved_of_run hnew hprev) hok hs
    | act n =>
      obtain ⟨-, f, rest, -, rfl⟩ := step_act hs
      exact ⟨given, hf.streams, hf.asked, hf.stored, hf.running⟩

end LibreCuda
