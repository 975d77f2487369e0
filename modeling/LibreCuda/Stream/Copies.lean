import LibreCuda.Runtime.Deeds
import LibreCuda.Stream.Sequential

/-! # Copies in a stream

A copy makes up to three launches, and they may run beside each other and beside what is enqueued
next. When an await has returned, the memory is nevertheless the one that the copies and the kernels
leave one after another.

* **`Execution.Serves`** is a run that serves requests, each of them a call or the calls of a copy.
* **`Deed.Served`** is what is known of the operations behind a request, and
  **`Execution.Serves.groups`** says that everything asked for belongs to one.
* **`stream_copies`** says what is in the memory behind an await. -/

namespace LibreCuda

open Bytes Channels Exec Interleavings Threads

/-! ## Requests -/

/-- A call launches a kernel asynchronously. -/
def ApiCall.launchesAsync : ApiCall → Bool
  | .launchFunction _ _ _ _ _ _ async => async
  | _ => false

/-- The first operation of a deed, and with it all of them, is an asynchronous launch. -/
def Deed.startsAsync : Deed → Bool
  | .copied _ _ _ onDevice async => onDevice && async
  | .launched _ _ async => async

/-- Some operation of a deed is an asynchronous launch: all but the first launch of a copy are. -/
def Deed.endsAsync : Deed → Bool
  | .copied _ _ size onDevice async => onDevice && (async || 1 < (memcpyKernels size).length)
  | .launched _ _ async => async

/-- Operations of two deeds may run beside each other: those in between are asynchronous. -/
def Deed.MayOverlap (deeds : List Deed) (i j : ℕ) : Prop :=
  (∀ d, deeds[i]? = some d → d.endsAsync = true) ∧
    ∀ k d, i < k → k ≤ j → deeds[k]? = some d → d.startsAsync = true

section Requests

variable {M : Type} (p : Processor M)

/-- Calls that succeed one after another, and in between events that ask for nothing. -/
inductive Execution.Makes (x : Execution M) : List ApiCall → Execution M → Prop
  | nothing : x.Makes [] x
  | event {calls : List ApiCall} {y z : Execution M} (h : x.Makes calls y) (hnext : y.Next p z)
      (hasked : z.asked = y.asked) : x.Makes calls z
  | succeeded {calls : List ApiCall} {y z : Execution M} {c : ApiCall} {gpGet : NvU32 × NvU32}
      (h : x.Makes calls y) (hok : y.system.Orderly (.call c gpGet))
      (hstep : y.step p (.system (.call c gpGet)) = some z)
      (hcall : (Exec.call c.run (y.system.observed gpGet)).1 = .ok ()) : x.Makes (calls ++ [c]) z

/-- Requests that are served: copies, launches of other kernels, and in between events that ask for
nothing. -/
inductive Execution.Serves (programs : NvU64 → Option CopyKernel)
    (kernels : CopyKernel → Option ℕ) (x : Execution M) : List Deed → Execution M → Prop
  | nothing : x.Serves programs kernels [] x
  | event {deeds : List Deed} {y z : Execution M} (h : x.Serves programs kernels deeds y)
      (hnext : y.Next p z) (hasked : z.asked = y.asked) : x.Serves programs kernels deeds z
  | copied {deeds : List Deed} {y z : Execution M} {dst src size : NvU64} {onDevice async : Bool}
      (h : x.Serves programs kernels deeds y)
      (hpath : y.system.host.copiesOnDevice dst src = onDevice)
      (hmakes : y.Makes p (memcpyCalls kernels dst src size onDevice async) z) :
      x.Serves programs kernels (deeds ++ [.copied dst src size onDevice async]) z
  | launched {deeds : List Deed} {y z : Execution M} {function : Option ℕ} {grid block : Dim3}
      {sharedMemBytes : NvU32} {params : ℕ → ℕ → NvU8} {numParams : NvU64} {async : Bool} {n : ℕ}
      {task : Task} (h : x.Serves programs kernels deeds y)
      (hmakes : y.Makes p
        [.launchFunction function grid block sharedMemBytes params numParams async] z)
      (hasked : z.asked = y.asked ++ [(n, task)]) (hother : task.copies programs = false) :
      x.Serves programs kernels (deeds ++ [.launched n task async]) z

/-- **A copy makes its calls**: it looks at both pointers, and at the status of nothing. -/
theorem libreCuMemCpy_eq (kernels : CopyKernel → Option ℕ) (dst src byteCount : NvU64)
    (async : Bool) : libreCuMemCpy kernels dst src byteCount async = (do
      validate (dst != 0) .invalidValue
      validate (src != 0) .invalidValue
      let h ← get
      ignoreStatus ((memcpyCalls kernels dst src byteCount (h.copiesOnDevice dst src) async).forM
        ApiCall.run)) := by
  refine bind_congr fun _ => bind_congr fun _ => bind_congr fun h => ?_
  cases h.copiesOnDevice dst src with
  | true =>
    show ignoreStatus (memcpyD2D kernels dst src byteCount async) = _
    rw [memcpyD2D, memcpyCalls, if_pos rfl]
    congr 1
    induction memcpyLaunches dst src byteCount async with
    | nil => rfl
    | cons l rest ih => exact congrArg _ (funext fun _ => ih)
  | false =>
    exact congrArg ignoreStatus (bind_pure_unit (x := gpuMemcpy dst src byteCount async)).symm

variable {p} {programs : NvU64 → Option CopyKernel} {kernels : CopyKernel → Option ℕ}
  {x y z : Execution M}

theorem Execution.Makes.run {calls : List ApiCall} (h : x.Makes p calls y) :
    Relation.ReflTransGen (Execution.Next p) x y := by
  induction h with
  | nothing => exact .refl
  | event _ hnext _ ih => exact ih.tail hnext
  | succeeded _ hok hstep _ ih => exact ih.tail ⟨.system _, hok, hstep⟩

theorem Execution.Serves.run {deeds : List Deed} (h : x.Serves p programs kernels deeds y) :
    Relation.ReflTransGen (Execution.Next p) x y := by
  induction h with
  | nothing => exact .refl
  | event _ hnext _ ih => exact ih.tail hnext
  | copied _ _ hmakes ih => exact ih.trans hmakes.run
  | launched _ hmakes _ _ ih => exact ih.trans hmakes.run

/-! ## What a call asks for -/

/-- The copy kernels stay where they are. -/
theorem Host.SameKernels.holds {h h' : Host} (hsame : h.SameKernels h')
    (hholds : HoldsKernels programs kernels h.functions) :
    HoldsKernels programs kernels h'.functions := by
  constructor
  · intro kernel f hf
    rw [hsame.functions f]
    exact hholds.program kernel f hf
  · intro kernel f hf
    rw [hsame.functions f]
    exact hholds.below kernel f hf
  · intro kernel f hf
    rw [hsame.functions f]
    exact hholds.sizes kernel f hf

theorem holds_of_run (hholds : HoldsKernels programs kernels x.system.host.functions)
    (h : Relation.ReflTransGen (Execution.Next p) x y) :
    HoldsKernels programs kernels y.system.host.functions := by
  induction h with
  | refl => exact hholds
  | tail _ hnext ih =>
    rcases system_of_next hnext with hsame | ⟨e, -, hs⟩
    · exact hsame ▸ ih
    · rcases host_of_step hs with hhost | ⟨c, gpGet, -, hcalled⟩
      · exact hhost ▸ ih
      · rw [hcalled]
        exact (kernels_called _ c gpGet).holds ih

/-- A call asks for a task, on a stream that holds the copy kernels. -/
def ApiCall.Asks (p : Processor M) (programs : NvU64 → Option CopyKernel)
    (kernels : CopyKernel → Option ℕ) (c : ApiCall) (task : Task) : Prop :=
  ∃ h h' : Host, (∀ f, (h.functions f).Fits) ∧ HoldsKernels programs kernels h.functions ∧
    h.taskOf p h' c = some task

/-- An operation was enqueued, as an asynchronous launch only if that is said. -/
def System.Enqueued (s : System) (n : ℕ) (async : Bool) : Prop :=
  ∃ o ∈ s.host.operations, o.number = n ∧ (o.engine = .compute → o.async = true → async = true)

theorem System.Enqueued.mono {s : System} {n : ℕ} {async async' : Bool} (h : s.Enqueued n async)
    (hle : async = true → async' = true) : s.Enqueued n async' := by
  obtain ⟨o, ho, hnumber, hasync⟩ := h
  exact ⟨o, ho, hnumber, fun hengine ha => hle (hasync hengine ha)⟩

/-- An asynchronous launch was enqueued as one. -/
theorem System.Enqueued.eq_true {s : System} (hb : s.Behaved p) {n : ℕ} {async : Bool}
    (h : s.Enqueued n async) (hasync : s.host.IsAsyncLaunch n) : async = true := by
  obtain ⟨o, ho, hnumber, hif⟩ := h
  obtain ⟨o', ho', hnumber', hengine, ha⟩ := hasync
  -- there is one operation of that number
  obtain rfl := List.inj_on_of_nodup_map hb.nodup ho ho' (hnumber.trans hnumber'.symm)
  exact hif hengine ha

/-- What was enqueued stays so. -/
theorem enqueued_of_next (hb : x.system.Behaved p) (hnext : x.Next p y) {n : ℕ} {async : Bool}
    (h : x.system.Enqueued n async) : y.system.Enqueued n async := by
  rcases system_of_next hnext with hsame | ⟨e, -, hs⟩
  · exact hsame ▸ h
  · obtain ⟨o, ho, hrest⟩ := h
    rcases host_of_step hs with hhost | ⟨c, gpGet, -, hcalled⟩
    · exact ⟨o, hhost ▸ ho, hrest⟩
    · rw [hcalled]
      exact ⟨o, operations_called hb.run.usable c gpGet o ho, hrest⟩

theorem enqueued_of_run {x₀ : Execution M} (hnew : x₀.New p)
    (hrun : Relation.ReflTransGen (Execution.Next p) x₀ x)
    (h : Relation.ReflTransGen (Execution.Next p) x y) {n : ℕ} {async : Bool}
    (hn : x.system.Enqueued n async) : y.system.Enqueued n async := by
  induction h with
  | refl => exact hn
  | tail hprev hnext ih => exact enqueued_of_next (behaved_of_run hnew (hrun.trans hprev)) hnext ih

/-- **A call that succeeds asks for its task**, as the next operation. -/
theorem asked_of_call (hb : x.system.Behaved p) {c : ApiCall} {gpGet : NvU32 × NvU32}
    (hop : c.isOperation = true) (hstep : x.step p (.system (.call c gpGet)) = some y)
    (hcall : (Exec.call c.run (x.system.observed gpGet)).1 = .ok ()) :
    ∃ n task, y.asked = x.asked ++ [(n, task)] ∧
      (x.system.observed gpGet).taskOf p y.system.host c = some task ∧
        y.system.Enqueued n c.launchesAsync := by
  obtain ⟨-, s, hs, rfl⟩ := step_system hstep
  obtain ⟨-, rfl⟩ := step_call hs
  have hsig : (x.system.observed gpGet).timeline.timelineSignal ≠ 0 := hb.run.usable.timelineSignal
  have hc : Exec.call c.run (x.system.observed gpGet) =
    (.ok (), (x.system.called c gpGet).host) := Prod.ext hcall rfl
  have hasked : ∀ task, (x.system.observed gpGet).taskOf p (x.system.called c gpGet).host c =
      some task → (x.follow p (.call c gpGet)).asked =
        x.asked ++ [(x.system.host.timeline.timelineSteps + 1, task)] := fun task htask => by
    rw [Execution.follow, System.tasked, hcall, htask]
    rfl
  cases c with
  | launchFunction function grid block sharedMemBytes params numParams async =>
    rcases wp_call hc (wp_launchFunction hsig function grid block sharedMemBytes params numParams
      async) with ⟨_, -, f, rfl, hok⟩ | ⟨_, herr, -⟩
    swap
    · cases herr
    obtain ⟨bank, rest, ptr, -, -, hops⟩ := hok.operation
    exact ⟨_, _, hasked _ rfl, rfl, _, hops ▸ List.mem_append_right _ List.mem_cons_self, rfl,
      fun _ ha => ha⟩
  | gpuMemcpy dst src numBytes async =>
    rcases wp_call hc (wp_gpuMemcpy hsig dst src numBytes async) with ⟨_, -, hok⟩ | ⟨_, herr, -⟩
    swap
    · cases herr
    exact ⟨_, _, hasked _ rfl, rfl, _, hok.operation ▸ List.mem_append_right _ List.mem_cons_self,
      rfl, fun hengine => by cases hengine⟩
  | recordEvent => cases hop
  | startExecution => cases hop
  | awaitExecution => cases hop

/-- **Calls that succeed ask for one operation each**, in their order. -/
theorem Execution.Makes.asked {x₀ : Execution M} (hnew : x₀.New p)
    (hholds : HoldsKernels programs kernels x₀.system.host.functions)
    (hrun : Relation.ReflTransGen (Execution.Next p) x₀ x) {calls : List ApiCall}
    (h : x.Makes p calls y) (hops : ∀ c ∈ calls, c.isOperation = true) :
    ∃ group, y.asked = x.asked ++ group ∧ List.Forall₂ (fun c a =>
      c.Asks p programs kernels a.2 ∧ y.system.Enqueued a.1 c.launchesAsync) calls group := by
  induction h with
  | nothing => exact ⟨[], (List.append_nil _).symm, .nil⟩
  | event hmakes hnext hsame ih =>
    obtain ⟨group, hasked, hgroup⟩ := ih hops
    have hb := behaved_of_run hnew (hrun.trans hmakes.run)
    exact ⟨group, hsame.trans hasked,
      hgroup.imp fun c a h => ⟨h.1, enqueued_of_next hb hnext h.2⟩⟩
  | @succeeded calls y z c gpGet hmakes hok hstep hcall ih =>
    obtain ⟨group, hasked, hgroup⟩ := ih fun c hc => hops c (List.mem_append_left _ hc)
    have hreached := hrun.trans hmakes.run
    have hb := behaved_of_run hnew hreached
    obtain ⟨n, task, hnext, htask, henqueued⟩ :=
      asked_of_call hb (hops c (List.mem_append_right _ List.mem_cons_self)) hstep hcall
    refine ⟨group ++ [(n, task)], by rw [hnext, hasked, List.append_assoc], List.rel_append ?_ ?_⟩
    · exact hgroup.imp fun c a h => ⟨h.1, enqueued_of_next hb ⟨.system _, hok, hstep⟩ h.2⟩
    · exact .cons ⟨⟨_, _, hb.prepared.fits, holds_of_run hholds hreached, htask⟩, henqueued⟩ .nil

/-! ## Requests and their operations -/

/-- The operations of a deed, as they were enqueued. -/
structure Deed.Served (programs : NvU64 → Option CopyKernel) (s : System) (d : Deed)
    (group : List (ℕ × Task)) : Prop where
  takes : d.Takes programs group
  first : ∀ a ∈ group.head?, s.Enqueued a.1 d.startsAsync
  all : ∀ a ∈ group, s.Enqueued a.1 d.endsAsync

/-- A deed takes an operation. -/
theorem Deed.Takes.ne_nil {d : Deed} {group : List (ℕ × Task)} (h : d.Takes programs group) :
    group ≠ [] := by
  rintro rfl
  cases d with
  | copied dst src size onDevice async =>
    cases onDevice with
    | true => exact memcpyKernels_ne_nil size (List.map_eq_nil_iff.mp h.symm)
    | false =>
      obtain ⟨n, heq⟩ := h
      cases heq
  | launched n task async => cases h.1

/-- The calls of a copy are operations. -/
theorem isOperation_memcpyCalls {dst src size : NvU64} {onDevice async : Bool} :
    ∀ c ∈ memcpyCalls kernels dst src size onDevice async, c.isOperation = true := by
  intro c hc
  cases onDevice with
  | true =>
    obtain ⟨l, -, rfl⟩ := List.mem_map.mp hc
    rfl
  | false =>
    obtain rfl := List.mem_singleton.mp hc
    rfl

theorem async_copyLaunch (dst src size : NvU64) (async : Bool) (kernel : CopyKernel) :
    (copyLaunch dst src size async kernel).async = async := by
  cases kernel <;> rfl

/-- **The calls of a copy are its operations.** -/
theorem served_of_copy (hreads : p.ReadsArguments programs) {dst src size : NvU64}
    {onDevice async : Bool} (hsound : (Deed.copied dst src size onDevice async).Sound)
    {group : List (ℕ × Task)} {s : System}
    (h : List.Forall₂ (fun c a => ApiCall.Asks p programs kernels c a.2 ∧
      s.Enqueued a.1 c.launchesAsync) (memcpyCalls kernels dst src size onDevice async) group) :
    (Deed.copied dst src size onDevice async).Served programs s group := by
  cases onDevice with
  | false =>
    obtain ⟨a, rest, ⟨⟨_, _, -, -, htask⟩, henqueued⟩, hrest, rfl⟩ := List.forall₂_cons_left_iff.mp h
    cases hrest
    obtain ⟨n, task⟩ := a
    obtain rfl := Option.some.inj htask
    refine ⟨⟨n, rfl⟩, fun b hb => ?_, fun b hb => ?_⟩
    · obtain rfl := Option.some.inj hb
      exact henqueued
    · obtain rfl := List.mem_singleton.mp hb
      exact henqueued
  | true =>
    obtain ⟨hlength, hall⟩ := List.forall₂_iff_get.mp h
    have hcalls : (memcpyCalls kernels dst src size true async).length =
        (memcpyKernels size).length := by
      simp [memcpyCalls, memcpyLaunches]
    -- the operation at each place is the launch at that place
    have hat : ∀ i (hi : i < group.length) (hk : i < (memcpyKernels size).length),
        group[i].2.copyLaunch programs = some (copyLaunch dst src size true (memcpyKernels size)[i]) ∧
          s.Enqueued group[i].1 (async || 0 < i) := fun i hi hk => by
      obtain ⟨⟨h, h', hfits, hholds, htask⟩, henqueued⟩ := hall i (by omega) hi
      have hcall : (memcpyCalls kernels dst src size true async).get ⟨i, by omega⟩ =
          (copyLaunch dst src size (async || 0 < i) (memcpyKernels size)[i]).call kernels := by
        simp [memcpyCalls, memcpyLaunches]
      rw [hcall] at htask henqueued
      refine ⟨copyLaunch_of_taskOf hreads hfits hholds hsound.2 htask, ?_⟩
      rw [CopyLaunch.call, ApiCall.launchesAsync, async_copyLaunch] at henqueued
      exact henqueued
    refine ⟨?_, fun a ha => ?_, fun a ha => ?_⟩
    · refine List.ext_getElem (by simp; omega) fun i hi hi' => ?_
      simp only [List.length_map] at hi hi'
      simp only [List.getElem_map]
      exact (hat i hi hi').1
    · rw [List.head?_eq_getElem?] at ha
      obtain ⟨hi, rfl⟩ := List.getElem?_eq_some_iff.mp ha
      exact (hat 0 hi (by omega)).2.mono fun ha => by simpa [Deed.startsAsync] using ha
    · obtain ⟨i, hi, rfl⟩ := List.mem_iff_getElem.mp ha
      refine (hat i hi (by omega)).2.mono fun ha => ?_
      simp only [Deed.endsAsync, Bool.true_and, Bool.or_eq_true, decide_eq_true_eq] at ha ⊢
      exact ha.imp_right fun hpos => by omega

theorem Deed.Served.keep {s s' : System} {d : Deed} {group : List (ℕ × Task)}
    (h : d.Served programs s group)
    (hkeep : ∀ n async, s.Enqueued n async → s'.Enqueued n async) : d.Served programs s' group :=
  ⟨h.takes, fun a ha => hkeep _ _ (h.first a ha), fun a ha => hkeep _ _ (h.all a ha)⟩

/-- **Everything asked for belongs to a request.** -/
theorem Execution.Serves.groups (hnew : x.New p) (hreads : p.ReadsArguments programs)
    (hholds : HoldsKernels programs kernels x.system.host.functions) {deeds : List Deed}
    (h : x.Serves p programs kernels deeds y) (hsound : ∀ d ∈ deeds, d.Sound) :
    ∃ groups : List (List (ℕ × Task)), y.asked = groups.flatten ∧
      List.Forall₂ (Deed.Served programs y.system) deeds groups := by
  induction h with
  | nothing => exact ⟨[], hnew.asked, .nil⟩
  | event hserves hnext hsame ih =>
    obtain ⟨groups, hasked, hgroups⟩ := ih hsound
    have hb := behaved_of_run hnew hserves.run
    exact ⟨groups, hsame.trans hasked,
      hgroups.imp fun d group hd => hd.keep fun _ _ => enqueued_of_next hb hnext⟩
  | copied hserves hpath hmakes ih =>
    obtain ⟨groups, hasked, hgroups⟩ := ih fun d hd => hsound d (List.mem_append_left _ hd)
    obtain ⟨group, hnext, hgroup⟩ := hmakes.asked hnew hholds hserves.run isOperation_memcpyCalls
    refine ⟨groups ++ [group], ?_, List.rel_append (hgroups.imp fun d group hd =>
      hd.keep fun _ _ => enqueued_of_run hnew hserves.run hmakes.run) (.cons ?_ .nil)⟩
    · rw [hnext, hasked, List.flatten_append, List.flatten_singleton]
    · exact served_of_copy hreads (hsound _ (List.mem_append_right _ List.mem_cons_self)) hgroup
  | @launched _ y z function grid block sharedMemBytes params numParams async n task hserves hmakes
      hsame hother ih =>
    obtain ⟨groups, hasked, hgroups⟩ := ih fun d hd => hsound d (List.mem_append_left _ hd)
    obtain ⟨group, hnext, hgroup⟩ := hmakes.asked hnew hholds hserves.run fun c hc => by
      obtain rfl := List.mem_singleton.mp hc
      rfl
    -- the one operation asked for is the one that is said
    obtain rfl := List.append_cancel_left (hsame.symm.trans hnext)
    obtain ⟨⟨-, henqueued⟩, -⟩ := List.forall₂_cons.mp hgroup
    refine ⟨groups ++ [[(n, task)]], ?_, List.rel_append (hgroups.imp fun d group hd =>
      hd.keep fun _ _ => enqueued_of_run hnew hserves.run hmakes.run)
        (.cons ⟨⟨rfl, hother⟩, fun a ha => ?_, fun a ha => ?_⟩ .nil)⟩
    · rw [hnext, hasked, List.flatten_append, List.flatten_singleton]
    · obtain rfl := Option.some.inj ha
      exact henqueued
    · obtain rfl := List.mem_singleton.mp ha
      exact henqueued

end Requests

/-! ## What is in the memory -/

section Groups

variable {groups : List (List (ℕ × Task))}

/-- Operations are numbered request by request. -/
theorem lt_of_groups (h : (groups.flatten.map Prod.fst).Pairwise (· < ·)) {i j : ℕ}
    {group group' : List (ℕ × Task)} (hlt : i < j) (hi : groups[i]? = some group)
    (hj : groups[j]? = some group') {a b : ℕ × Task} (ha : a ∈ group) (hb : b ∈ group') :
    a.1 < b.1 := by
  rw [List.pairwise_map, List.pairwise_flatten] at h
  obtain ⟨hi', rfl⟩ := List.getElem?_eq_some_iff.mp hi
  obtain ⟨hj', rfl⟩ := List.getElem?_eq_some_iff.mp hj
  exact List.pairwise_iff_getElem.mp h.2 i j hi' hj' hlt a ha b hb

theorem nodup_of_sorted {numbers : List ℕ} (h : numbers.Pairwise (· < ·)) : numbers.Nodup :=
  h.imp fun hlt => Nat.ne_of_lt hlt

theorem nodup_of_groups (h : (groups.flatten.map Prod.fst).Pairwise (· < ·))
    {group : List (ℕ × Task)} (hgroup : group ∈ groups) : (group.map Prod.fst).Nodup :=
  (nodup_of_sorted h).sublist ((List.sublist_flatten_of_mem hgroup).map _)

/-- The first operation of a request has the least number. -/
theorem le_of_head {group : List (ℕ × Task)} (h : (group.map Prod.fst).Pairwise (· < ·))
    {a b : ℕ × Task} (ha : group.head? = some a) (hb : b ∈ group) : a.1 ≤ b.1 := by
  obtain ⟨rest, rfl⟩ := List.head?_eq_some_iff.mp ha
  rcases List.mem_cons.mp hb with rfl | hb
  · exact le_rfl
  · exact ((List.pairwise_cons.mp h).1 b.1 (List.mem_map_of_mem hb)).le

theorem exists_of_forall₂ {α β : Type} {R : α → β → Prop} {l : List α} {l' : List β}
    (h : List.Forall₂ R l l') {i : ℕ} : (∀ a, l[i]? = some a → ∃ b, l'[i]? = some b ∧ R a b) ∧
      ∀ b, l'[i]? = some b → ∃ a, l[i]? = some a ∧ R a b := by
  induction h generalizing i with
  | nil => exact ⟨fun a ha => by simp at ha, fun b hb => by simp at hb⟩
  | cons hab _ ih =>
    cases i with
    | zero =>
      refine ⟨fun a ha => ?_, fun b hb => ?_⟩
      · obtain rfl := Option.some.inj ha
        exact ⟨_, rfl, hab⟩
      · obtain rfl := Option.some.inj hb
        exact ⟨_, rfl, hab⟩
    | succ i => simpa using ih

end Groups

section Memory

variable {p : Processor (Workspace (ℕ × Worker))} {programs : NvU64 → Option CopyKernel}
  {kernels : CopyKernel → Option ℕ} {others : ℕ → Task → List (Memory → Memory)}
  {deeds : List Deed} {groups : List (List (ℕ × Task))}

/-- **Operations that overlap** belong to requests that may. -/
theorem mayOverlap_of_async {M : Type} {p : Processor M} {s : System} (hb : s.Behaved p)
    (hserved : List.Forall₂ (Deed.Served programs s) deeds groups)
    (hsorted : (groups.flatten.map Prod.fst).Pairwise (· < ·)) {i j : ℕ}
    {group group' : List (ℕ × Task)} (hi : groups[i]? = some group)
    (hj : groups[j]? = some group') {a b : ℕ × Task} (ha : a ∈ group) (hb' : b ∈ group')
    (hlt : a.1 < b.1) (hasync : ∀ l, a.1 ≤ l → l ≤ b.1 → s.host.IsAsyncLaunch l) :
    Deed.MayOverlap deeds i j := by
  refine ⟨fun d hd => ?_, fun k d hik hkj hd => ?_⟩
  · obtain ⟨_, hgroup, hd⟩ := (exists_of_forall₂ hserved).1 d hd
    obtain rfl := Option.some.inj (hi.symm.trans hgroup)
    exact (hd.all a ha).eq_true hb (hasync a.1 le_rfl hlt.le)
  · -- the first operation of a request in between lies between the two
    obtain ⟨between, hbetween, hd⟩ := (exists_of_forall₂ hserved).1 d hd
    obtain ⟨c, hc⟩ := Option.isSome_iff_exists.mp
      (List.isSome_head?.mpr hd.takes.ne_nil)
    have hmem : c ∈ between := List.mem_of_head? hc
    have hle : c.1 ≤ b.1 := by
      rcases Nat.lt_or_eq_of_le hkj with hkj | rfl
      · exact (lt_of_groups hsorted hkj hbetween hj hmem hb').le
      · obtain rfl := Option.some.inj (hbetween.symm.trans hj)
        rw [List.pairwise_map, List.pairwise_flatten] at hsorted
        exact le_of_head (List.pairwise_map.mpr (hsorted.1 _ (List.mem_of_getElem? hj))) hc hb'
    exact (hd.first c hc).eq_true hb
      (hasync c.1 (lt_of_groups hsorted hik hi hbetween ha hmem).le hle)

/-- **Requests one after another**, the operations of each interleaved in any way. -/
theorem mem_performGroups (hmoves : p.MovesBytes programs others)
    {log : Log ℕ (Workspace (ℕ × Worker))}
    (h : List.Forall₂ (fun d group => d.Takes programs group ∧ d.Sound ∧
      (group.map Prod.fst).Nodup ∧ ∀ a ∈ group, actionsOf a.1 log = p.actions a.1 a.2) deeds groups)
    (w : Workspace (ℕ × Worker)) :
    ((groups.map (List.map Prod.fst)).foldl
      (fun w group => perform (log.filter fun e => e.1 ∈ group) w) w).mem =
        deeds.foldl (fun mem d => d.run others mem) w.mem := by
  induction h generalizing w with
  | nil => rfl
  | cons hd _ ih =>
    obtain ⟨htakes, hsound, hnodup, hall⟩ := hd
    rw [List.map_cons, List.foldl_cons, List.foldl_cons, ih]
    congr 1
    -- the first request is carried out by what the log has of it
    refine htakes.mem_perform hmoves hsound hnodup (fun e he => ?_) (fun a ha => ?_) w
    · exact of_decide_eq_true (List.mem_filter.mp he).2
    · rw [actionsOf_filter (List.mem_map_of_mem ha)]
      exact hall a ha

/-- **What comes too early commutes**: an action of a later request in front of one of an earlier
request. -/
theorem commute_of_served {x : Execution (Workspace (ℕ × Worker))}
    {m : Workspace (ℕ × Worker)} {given : List (ℕ × Order)} (hl : x.Logged p m)
    (hf : x.Faithful p given) (hb : x.system.Behaved p) (hmoves : p.MovesBytes programs others)
    (hasked : x.asked = groups.flatten)
    (hserved : List.Forall₂ (Deed.Served programs x.system) deeds groups)
    (hsound : ∀ d ∈ deeds, d.Sound)
    (hfree : ∀ i j d d', i < j → deeds[i]? = some d → deeds[j]? = some d' →
      Deed.MayOverlap deeds i j → d.Independent others d') :
    x.log.Pairwise fun a b => ∀ (i j : ℕ) (g g' : List ℕ), i < j →
      (groups.map (List.map Prod.fst))[i]? = some g →
        (groups.map (List.map Prod.fst))[j]? = some g' → a.1 ∈ g' → b.1 ∈ g →
          Function.Commute a.2 b.2 := by
  have hsorted : (groups.flatten.map Prod.fst).Pairwise (· < ·) := hasked ▸ hf.sorted hb
  have hin : ∀ {group a}, group ∈ groups → a ∈ group → a ∈ x.asked := fun hgroup ha =>
    hasked ▸ List.mem_flatten.mpr ⟨_, hgroup, ha⟩
  refine hl.overlaps.imp_of_mem fun {a b} ha hb' hoverlaps i j g g' hij hgi hgj hag hbg => ?_
  -- both actions are of operations of their requests
  rw [List.getElem?_map] at hgi hgj
  obtain ⟨group, hi, rfl⟩ := Option.map_eq_some_iff.mp hgi
  obtain ⟨group', hj, rfl⟩ := Option.map_eq_some_iff.mp hgj
  obtain ⟨⟨n, task⟩, hn, hnb⟩ := List.mem_map.mp hbg
  obtain ⟨⟨n', task'⟩, hn', hna⟩ := List.mem_map.mp hag
  have hlt : n < n' := lt_of_groups hsorted hij hi hj hn hn'
  obtain ⟨t, ht, hbt⟩ := hl.source b hb'
  obtain ⟨t', ht', hat⟩ := hl.source a ha
  rw [← hnb] at ht hbt
  rw [← hna] at ht' hat
  obtain rfl := hf.unique hb ht (hin (List.mem_of_getElem? hi) hn)
  obtain rfl := hf.unique hb ht' (hin (List.mem_of_getElem? hj) hn')
  obtain ⟨d, hd, hdserved⟩ := (exists_of_forall₂ hserved).2 group hi
  obtain ⟨d', hd', hdserved'⟩ := (exists_of_forall₂ hserved).2 group' hj
  rw [← hnb, ← hna] at hoverlaps
  have hmay : Deed.MayOverlap deeds i j :=
    mayOverlap_of_async hb hserved hsorted hi hj hn hn' hlt (hoverlaps hlt)
  have hind : d.Independent others d' := hfree i j d d' hij hd hd' hmay
  exact (hind.commute hmoves hdserved.takes hdserved'.takes
    (nodup_of_groups hsorted (List.mem_of_getElem? hi))
      (nodup_of_groups hsorted (List.mem_of_getElem? hj)) (hsound d (List.mem_of_getElem? hd))
        (hsound d' (List.mem_of_getElem? hd')) hlt.ne hn hn' hbt hat).symm

/-- **Copies in a stream.** In every orderly run of a new execution that serves requests: when an
await has returned, the memory is the one that copies and kernels leave one after another, provided
that copies are between disjoint buffers and requests that may overlap do not meet. A request is
served by calls that all succeed; the calls are those of `ApiCall`, which leaves out `waitForEvent`. -/
theorem stream_copies {x x' : Execution (Workspace (ℕ × Worker))} (hnew : x.New p)
    (hmoves : p.MovesBytes programs others)
    (hholds : HoldsKernels programs kernels x.system.host.functions)
    (hserves : x.Serves p programs kernels deeds x') {r : Except Failure Unit}
    (hlast : x'.system.last = some (.awaitExecution, r)) (heffects : x'.system.effects = [])
    (hsound : ∀ d ∈ deeds, d.Sound)
    (hfree : ∀ i j d d', i < j → deeds[i]? = some d → deeds[j]? = some d' →
      Deed.MayOverlap deeds i j → d.Independent others d') :
    x'.memory.mem = deeds.foldl (fun mem d => d.run others mem) x.memory.mem := by
  have h := hserves.run
  obtain ⟨given, hf⟩ := faithful_of_run hnew h
  have hb := behaved_of_run hnew h
  have hl := logged_of_run hnew h
  obtain ⟨groups, hasked, hserved⟩ := hserves.groups hnew hmoves.reads hholds hsound
  have hsorted : (groups.flatten.map Prod.fst).Pairwise (· < ·) := hasked ▸ hf.sorted hb
  have hmem : ∀ e ∈ x'.log, ∃ g ∈ groups.map (List.map Prod.fst), e.1 ∈ g := fun e he => by
    obtain ⟨task, htask, -⟩ := hl.source e he
    obtain ⟨group, hgroup, htask⟩ := List.mem_flatten.mp (hasked ▸ htask)
    exact ⟨_, List.mem_map_of_mem hgroup, List.mem_map_of_mem htask⟩
  have hdisjoint : (groups.map (List.map Prod.fst)).Pairwise List.Disjoint := by
    rw [List.map_flatten] at hsorted
    exact (List.nodup_flatten.mp (nodup_of_sorted hsorted)).2
  -- the requests may be carried out one after another
  have hcommute := commute_of_served hl hf hb hmoves hasked hserved hsound hfree
  rw [← hl.memory, perform_eq_groups hcommute hdisjoint hmem]
  refine mem_performGroups hmoves (List.forall₂_iff_get.mpr ⟨hserved.length_eq,
    fun i hi hi' => ?_⟩) x.memory
  have hgroup := List.get_mem groups ⟨i, hi'⟩
  refine ⟨((List.forall₂_iff_get.mp hserved).2 i hi hi').takes, hsound _ (List.get_mem ..),
    nodup_of_groups hsorted hgroup, fun a ha => ?_⟩
  exact hl.awaited hf hb hlast heffects (hasked ▸ List.mem_flatten.mpr ⟨_, hgroup, ha⟩)

end Memory

/-! ## A run -/

section Quiet

variable {M : Type} {p : Processor M} {programs : NvU64 → Option CopyKernel}
  {kernels : CopyKernel → Option ℕ} {x y z : Execution M}

/-- Events other than calls for operations. -/
def ExecutionEvent.Quiet : ExecutionEvent → Prop
  | .system (.call c _) => c.isOperation = false
  | _ => True

theorem asked_of_quiet {e : ExecutionEvent} (hquiet : e.Quiet) (hstep : x.step p e = some y) :
    y.asked = x.asked := by
  cases e with
  | act n =>
    obtain ⟨-, f, rest, -, rfl⟩ := step_act hstep
    rfl
  | system e =>
    obtain ⟨-, s, -, rfl⟩ := step_system hstep
    rcases asked_follow x e with ⟨c, gpGet, rfl⟩ | hsame
    · have hnone : x.system.tasked p c gpGet = [] := by
        rw [System.tasked]
        cases (Exec.call c.run (x.system.observed gpGet)).1 with
        | error e => rfl
        | ok _ =>
          cases c with
          | launchFunction => cases hquiet
          | gpuMemcpy => cases hquiet
          | _ => rfl
      show x.asked ++ _ = x.asked
      rw [hnone, List.append_nil]
    · exact hsame

/-- Events other than calls, and awaits. -/
def ExecutionEvent.harmless : ExecutionEvent → Bool
  | .system (.call .awaitExecution _) => true
  | .system (.call _ _) => false
  | _ => true

/-- They are orderly wherever they happen. -/
theorem quiet_of_harmless {e : ExecutionEvent} (h : e.harmless = true) :
    e.Quiet ∧ ∀ w : Execution M, w.Orderly e := by
  cases e with
  | act n => exact ⟨trivial, fun _ => trivial⟩
  | system e =>
    cases e with
    | call c gpGet =>
      cases c with
      | awaitExecution => exact ⟨rfl, fun _ => ⟨fun hcounts => hcounts.elim, trivial⟩⟩
      | _ => cases h
    | _ => exact ⟨trivial, fun _ => ⟨trivial, trivial⟩⟩

/-- Such events come in between requests. -/
theorem Execution.Serves.exec {deeds : List Deed} (h : x.Serves p programs kernels deeds y)
    {events : List ExecutionEvent} (hok : ∀ e ∈ events, e.harmless = true)
    (hexec : y.exec p events = some z) : x.Serves p programs kernels deeds z := by
  induction events generalizing y with
  | nil =>
    cases hexec
    exact h
  | cons e rest ih =>
    obtain ⟨w, hw, hrest⟩ := Option.bind_eq_some_iff.mp hexec
    obtain ⟨hquiet, horderly⟩ := quiet_of_harmless (M := M) (hok e List.mem_cons_self)
    exact ih (h.event ⟨e, horderly y, hw⟩ (asked_of_quiet hquiet hw))
      (fun e he => hok e (List.mem_cons_of_mem _ he)) hrest

end Quiet

/-- A copy kernel with three parameters and a program of its own. -/
def sampleCopyProgram (f : ℕ) : LibreCUFunction :=
  { sampleCopyFunction "memcpyKernel" 3 with
    funcVaAddr := 0x1000000000 + 0x1000 * BitVec.ofNat 64 f
    constants := [⟨0, 0, 0x180⟩] }

def sampleCopyFresh : Host :=
  { sampleFresh with
    functions := sampleCopyProgram
    vm := { sampleFresh.vm with uvmVaddr := uvmHeapStart + 0x40000000 } }

/-- A new stream on which copy kernels are loaded. -/
def sampleCopySystem : System :=
  { host := (call initializeQueue sampleCopyFresh).2, gpu := { signals := fun _ => 2 } }

/-- Which program is which kernel. -/
def samplePrograms (addr : NvU64) : Option CopyKernel :=
  if addr = 0x1000002000 then some .lowLatency
  else if addr = 0x1000003000 then some .trailing else none

/-- The kernels that small copies need. -/
def smallKernels (kernel : CopyKernel) : Option ℕ :=
  if kernel = .highBW then none else sampleKernels kernel

/-- Engines with nothing but copy kernels. -/
def sampleEngines : Processor (Workspace (ℕ × Worker)) := .byThreads samplePrograms fun _ _ => []

/-- The last byte of a buffer is seven. -/
def sampleCopying : Execution (Workspace (ℕ × Worker)) :=
  ⟨sampleCopySystem, ⟨fun x => if x = 0x1020000004 then 7 else 0, fun _ _ => 0⟩, fun _ => {}, [],
    fun _ => 0, [], []⟩

theorem functions_sampleCopySystem : sampleCopySystem.host.functions = sampleCopyProgram := by rfl

theorem fits_sampleCopyProgram (f : ℕ) : (sampleCopyProgram f).Fits := by
  refine ⟨?_, ?_, ?_⟩
  · show ∀ c ∈ [(⟨0, 0, 0x180⟩ : KernelConstantInfo)], c.size.toNat < 2 ^ 32
    decide
  · show ∀ c ∈ [(⟨0, 0, 0x180⟩ : KernelConstantInfo)], c.constNr < 8
    decide
  · show 352 + 4 * (sampleCopyFunction "memcpyKernel" 3).numWords ≤ (0x180 : NvU64).toNat
    decide

theorem holds_sampleCopySystem :
    HoldsKernels samplePrograms smallKernels sampleCopySystem.host.functions := by
  rw [functions_sampleCopySystem]
  constructor
  all_goals
    intro kernel f hf
    cases kernel
    · cases hf
    all_goals
      obtain rfl := Option.some.inj hf
      decide

theorem new_sampleCopying : sampleCopying.New sampleEngines := by
  refine ⟨⟨⟨⟨sampleCopyFresh, ?_, Prod.ext (by rfl) rfl⟩, fun e type => ?_⟩, fun _ => rfl, rfl,
    rfl, rfl, rfl, rfl, fun _ => rfl⟩, by rfl, ⟨fun f => ?_, ?_⟩, ?_, rfl, fun _ => rfl, rfl, rfl⟩
  · exact ⟨fun type => by cases type <;> rfl, rfl, rfl, rfl, rfl, rfl, rfl, rfl, rfl⟩
  · have hevents : sampleCopySystem.host.events = sampleCopyFresh.events := by rfl
    have hsignal : (0 : NvU64) ≠ sampleCopySystem.host.timeline.timelineSignal := by decide +kernel
    show (sampleCopySystem.host.events e).signal type ≠
      sampleCopySystem.host.timeline.timelineSignal
    rw [hevents]
    exact fun h => hsignal (by rw [← h]; cases type <;> rfl)
  · exact functions_sampleCopySystem ▸ fits_sampleCopyProgram f
  · exact ⟨by decide +kernel, by decide +kernel, by decide +kernel, by decide +kernel⟩
  · intro f grid block sharedMemBytes slm ptr
    have hwords : (sampleCopying.system.host.functions f).numWords = 6 := by
      show (sampleCopySystem.host.functions f).numWords = 6
      rw [functions_sampleCopySystem]
      rfl
    rw [hwords]
    show (Option.map _ _).getD 0 ≤ _
    cases samplePrograms _ with
    | none => exact Nat.zero_le _
    | some kernel => cases kernel <;> decide

/-- A launch of the sample copy. -/
def sampleCopyCall (kernel : CopyKernel) : ApiCall :=
  (copyLaunch 0x1010000000 0x1020000000 5 true kernel).call smallKernels

/-- What was copied is transferred. -/
def sampleTransfer : ApiCall := .gpuMemcpy 0x2000 0x1010000000 5 false

/-- A buffer is copied on the device, the copy is transferred, and both commence. -/
def sampleRequested : Execution (Workspace (ℕ × Worker)) :=
  (((sampleCopying.after sampleEngines [.system (.call (sampleCopyCall .lowLatency) (0, 0))]).after
    sampleEngines [.system (.call (sampleCopyCall .trailing) (0, 0))]).after
      sampleEngines [.system (.call sampleTransfer (0, 0))]).after
        sampleEngines [.system (.call .startExecution (0, 0))]

/-- The requests of the sample. -/
def sampleDeeds : List Deed :=
  [.copied 0x1010000000 0x1020000000 5 true true, .copied 0x2000 0x1010000000 5 false false]

/-- The two launches of the copy are interleaved, the transfer follows, and an await returns. -/
def carriedOut : List ExecutionEvent :=
  [.system .effect] ++ List.replicate 6 (.system (.fetch .compute)) ++ [.act 4, .act 3] ++
    List.replicate 6 (.act 4) ++ [.act 3, .system (.finish .compute 3)] ++
      List.replicate 3 (.act 4) ++ [.system (.finish .compute 4), .system (.fetch .compute),
        .system .effect, .system .effect] ++ List.replicate 3 (.system (.fetch .dma)) ++
          List.replicate 10 (.act 5) ++ [.system (.finish .dma 5), .system (.fetch .dma),
            .system .effect, .system (.call .awaitExecution (0, 0)), .system .effect]

/-- An await has returned. -/
def System.awaited (s : System) : Bool :=
  s.effects.isEmpty && match s.last with
    | some (.awaitExecution, _) => true
    | _ => false

theorem last_of_awaited {s : System} (h : s.awaited = true) :
    (∃ r, s.last = some (.awaitExecution, r)) ∧ s.effects = [] := by
  obtain ⟨heffects, hlast⟩ := Bool.and_eq_true_iff.mp h
  refine ⟨?_, List.isEmpty_iff.mp heffects⟩
  split at hlast
  · rename_i r heq
    exact ⟨r, heq⟩
  · cases hlast

/-- The run comes to its end. -/
theorem exists_carriedOut : ∃ x, sampleRequested.exec sampleEngines carriedOut = some x ∧
    x.system.awaited = true := by
  have hend : ((sampleRequested.exec sampleEngines carriedOut).any fun x => x.system.awaited) =
      true := by decide +kernel
  cases hexec : sampleRequested.exec sampleEngines carriedOut with
  | none =>
    rw [hexec] at hend
    cases hend
  | some x =>
    rw [hexec] at hend
    exact ⟨x, rfl, hend⟩

theorem serves_sampleRequested : sampleCopying.Serves sampleEngines samplePrograms smallKernels
    sampleDeeds sampleRequested := by
  obtain ⟨w, hw⟩ : ∃ w, w = sampleCopying.after sampleEngines
    [.system (.call (sampleCopyCall .lowLatency) (0, 0))] := ⟨_, rfl⟩
  have hwords : sampleCopying.step sampleEngines
      (.system (.call (sampleCopyCall .lowLatency) (0, 0))) = some w := by
    rw [hw]
    rfl
  obtain ⟨y, hy⟩ : ∃ y, y = w.after sampleEngines
    [.system (.call (sampleCopyCall .trailing) (0, 0))] := ⟨_, rfl⟩
  have hbytes : w.step sampleEngines (.system (.call (sampleCopyCall .trailing) (0, 0))) =
      some y := by
    rw [hy, hw]
    rfl
  have hfirst : sampleCopying.Makes sampleEngines [sampleCopyCall .lowLatency] w :=
    .succeeded .nothing ⟨fun _ => by decide +kernel, trivial⟩ hwords (by rfl)
  have hboth : sampleCopying.Makes sampleEngines
      [sampleCopyCall .lowLatency, sampleCopyCall .trailing] y := by
    refine .succeeded hfirst ⟨fun _ => ?_, trivial⟩ hbytes ?_
    · rw [hw]
      decide +kernel
    · rw [hw]
      rfl
  have hcalls : memcpyCalls smallKernels 0x1010000000 0x1020000000 5 true true =
      [sampleCopyCall .lowLatency, sampleCopyCall .trailing] := by rfl
  have hcopied : sampleCopying.Serves sampleEngines samplePrograms smallKernels
      [.copied 0x1010000000 0x1020000000 5 true true] y :=
    .copied .nothing (by decide +kernel) (hcalls ▸ hboth)
  obtain ⟨z, hz⟩ : ∃ z, z = y.after sampleEngines [.system (.call sampleTransfer (0, 0))] := ⟨_, rfl⟩
  have htransfer : y.step sampleEngines (.system (.call sampleTransfer (0, 0))) = some z := by
    rw [hz, hy, hw]
    rfl
  have hdeeds : sampleCopying.Serves sampleEngines samplePrograms smallKernels sampleDeeds z := by
    refine .copied hcopied ?_ (.succeeded .nothing ⟨fun _ => ?_, trivial⟩ htransfer ?_)
    · rw [hy, hw]
      decide +kernel
    · rw [hy, hw]
      decide +kernel
    · rw [hy, hw]
      rfl
  have hstart : z.step sampleEngines (.system (.call .startExecution (0, 0))) =
      some sampleRequested := by
    rw [hz, hy, hw]
    rfl
  have hpending : z.system.host.timeline.timelineNotifyPending = false := by
    rw [hz, hy, hw]
    rfl
  have hcommenced : z.system.commenced = 2 := by
    rw [hz, hy, hw]
    rfl
  have horderly : z.Orderly (.system (.call .startExecution (0, 0))) := by
    refine ⟨⟨fun _ _ hp => ?_, fun type commands _ => Or.inl fun k hk hle => ?_⟩, ?_⟩
    · rw [hpending] at hp
      cases hp
    · rw [hcommenced] at hle
      exact absurd hk (Nat.not_lt.mpr hle)
    · rw [hz, hy, hw]
      rfl
  have hquiet : ExecutionEvent.Quiet (.system (.call .startExecution (0, 0))) := rfl
  exact hdeeds.event ⟨_, horderly, hstart⟩ (asked_of_quiet hquiet hstart)

/-- The last byte of the buffer arrives behind the transfer. -/
theorem stream_copies_sample :
    (sampleRequested.after sampleEngines carriedOut).memory.mem 0x2004 = 7 := by
  obtain ⟨x, hexec, hx⟩ := exists_carriedOut
  obtain ⟨⟨r, hlast⟩, heffects⟩ := last_of_awaited hx
  have hharmless : ∀ e ∈ carriedOut, e.harmless = true := by decide
  have hserves := serves_sampleRequested.exec hharmless hexec
  have hafter : sampleRequested.after sampleEngines carriedOut = x := by
    rw [Execution.after, hexec]
    rfl
  rw [hafter, stream_copies new_sampleCopying movesBytes_byThreads holds_sampleCopySystem hserves
    hlast heffects (fun d hd => ?_) fun i j d d' hij hd hd' hmay => ?_]
  · rfl
  · simp only [sampleDeeds, List.mem_cons, List.not_mem_nil, or_false] at hd
    rcases hd with rfl | rfl
    · exact ⟨disjoint_span_iff.mpr (by decide), by decide⟩
    · exact ⟨disjoint_span_iff.mpr (by decide), by decide⟩
  · -- a transfer waits for what came before
    have hasync := hmay.2 j d' hij le_rfl hd'
    rcases j with _ | _ | j
    · omega
    · obtain rfl := Option.some.inj hd'
      cases hasync
    · cases hd'

end LibreCuda
