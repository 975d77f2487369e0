import LibreCuda.Queue.Tasks
import LibreCuda.Stream.Await
import LibreCuda.Stream.Overlaps

/-! # Arguments of unfinished launches

The page of arguments is written to by launches only, each of them in its own region, and regions
are handed out again when an await has returned. So what a launch wrote stays as it is until the
launch has completed, whatever is called in between, and whether that succeeds or fails.

* **`Host.Prepared`**: the kernels fit their constant bank, and the page is where addresses survive.
* **`mem_of_step`**: a step changes nothing in the region of an unfinished operation.
* **`launch_intact`**: descriptor and arguments of an unfinished launch are those it was called
  with. -/

namespace LibreCuda

open Bytes Channels Exec

/-- The kernels fit their constant bank, and the argument page is ready. -/
structure Host.Prepared (h : Host) : Prop where
  fits : ∀ f, (h.functions f).Fits
  page : h.PageReady

/-! ## Prepared streams -/

/-- A kernel fits wherever its local memory is. -/
theorem Host.SameKernels.fits {h h' : Host} (hsame : h.SameKernels h')
    (hfits : ∀ f, (h.functions f).Fits) : ∀ f, (h'.functions f).Fits := fun f => by
  obtain ⟨hsizes, hnumbers, hparams⟩ := hfits f
  rw [hsame.functions f]
  exact ⟨hsizes, hnumbers, hparams⟩

/-- The functions behind a call are those before it, but for their local memory. -/
theorem kernels_called (s : System) (c : ApiCall) (gpGet : NvU32 × NvU32) :
    s.host.SameKernels (s.called c gpGet).host := by
  have hcall : Exec.call c.run (s.observed gpGet) =
    ((Exec.call c.run (s.observed gpGet)).1, (s.called c gpGet).host) := rfl
  exact ⟨((keeps_call c).of_call hcall : (s.observed gpGet).SameKernels _).functions⟩

/-- Only calls change the stream. -/
theorem host_of_step {s s' : System} {e : SystemEvent} (hs : s.step e = some s') :
    s'.host = s.host ∨ ∃ c gpGet, e = .call c gpGet ∧ s' = s.called c gpGet := by
  cases e with
  | call c gpGet =>
    obtain ⟨-, rfl⟩ := step_call hs
    exact Or.inr ⟨c, gpGet, rfl, rfl⟩
  | effect =>
    rcases step_effect hs with ⟨_, _, _, -, rfl⟩ | ⟨_, _, _, -, -, rfl⟩
    · exact Or.inl rfl
    · exact Or.inl rfl
  | fetch type =>
    obtain ⟨g, -, rfl⟩ := step_fetch hs
    exact Or.inl rfl
  | finish type n =>
    obtain ⟨g, -, rfl⟩ := step_finish hs
    exact Or.inl rfl

theorem Host.Prepared.called {s : System} (hp : s.host.Prepared) (hu : s.host.Usable) (c : ApiCall)
    (gpGet : NvU32 × NvU32) : (s.called c gpGet).host.Prepared := by
  have hcall : Exec.call c.run (s.observed gpGet) =
    ((Exec.call c.run (s.observed gpGet)).1, (s.called c gpGet).host) := rfl
  have hpage : (s.observed gpGet).PageReady := ⟨hp.page.aligned, hp.page.below, hp.page.next,
    hp.page.inside⟩
  exact ⟨(kernels_called s c gpGet).fits hp.fits,
    hpage.call (hu.observe s.gpu.signals gpGet) hp.fits hcall⟩

/-- Every step keeps a stream prepared. -/
theorem Host.Prepared.step {s s' : System} {e : SystemEvent} (hp : s.host.Prepared)
    (hu : s.host.Usable) (hs : s.step e = some s') : s'.host.Prepared := by
  rcases host_of_step hs with hhost | ⟨c, gpGet, -, rfl⟩
  · exact hhost ▸ hp
  · exact hp.called hu c gpGet

/-- On a prepared stream the sum that `allocKernArgs` checks does not wrap. -/
theorem Host.Prepared.fitsCall {s : System} {e : SystemEvent} (hp : s.host.Prepared)
    (hok : s.InStep e) : s.Fits e := by
  refine ⟨hok, ?_⟩
  cases e with
  | call c gpGet =>
    intro size hsize
    have hinside := hp.page.inside
    cases c with
    | launchFunction function =>
      cases function with
      | none => cases hsize
      | some function =>
        have hf := hp.fits function
        have hoffset := hf.qmdOffset_lt
        have hregion : (s.host.functions function).regionSize = size := by
          obtain ⟨c, hc, rfl⟩ := Option.map_eq_some_iff.mp hsize
          rw [LibreCUFunction.regionSize, List.headD_eq_head?_getD, hc, Option.getD_some]
        rw [← hregion, hf.toNat_regionSize]
        omega
    | _ => cases hsize
  | _ => trivial

/-- **A run in step of a prepared stream** stays prepared, and fits. -/
theorem prepared_of_run {s s' : System} (hi : s.Initial) (hp : s.host.Prepared)
    (h : Relation.ReflTransGen (System.Next System.InStep) s s') :
    s'.host.Prepared ∧ s'.Run System.Fits := by
  induction h with
  | refl => exact ⟨hp, .initial hi⟩
  | tail _ hnext ih =>
    obtain ⟨e, hok, hs⟩ := hnext
    obtain ⟨hprepared, hr⟩ := ih
    exact ⟨hprepared.step hr.usable hs, hr.step (hprepared.fitsCall hok) hs⟩

/-! ## Regions of unfinished operations -/

/-- Operations that have completed stay so. -/
theorem completed_of_step {s s' : System} {e : SystemEvent} (hs : s.step e = some s') {n : ℕ}
    (hn : n ∈ s.gpu.completed) : n ∈ s'.gpu.completed := by
  cases e with
  | call c gpGet =>
    obtain ⟨-, rfl⟩ := step_call hs
    exact hn
  | effect =>
    rcases step_effect hs with ⟨_, _, _, -, rfl⟩ | ⟨_, _, _, -, -, rfl⟩
    · exact hn
    · exact hn
  | fetch type =>
    obtain ⟨g, hg, rfl⟩ := step_fetch hs
    obtain ⟨-, -, -, hcompleted, -⟩ := fetch_cases hg
    exact hcompleted ▸ hn
  | finish type k =>
    obtain ⟨g, hg, rfl⟩ := step_finish hs
    obtain ⟨-, hcompleted, -⟩ := finish_cases hg
    exact hcompleted ▸ List.mem_cons_of_mem k hn

/-- **A step changes nothing in the region of an unfinished operation.** -/
theorem mem_of_step {s s' : System} {e : SystemEvent} (hr : s.Run System.Fits)
    (hp : s.host.Prepared) (hs : s.step e = some s') {o : Operation} (ho : o ∈ s.host.operations)
    (hopen : o.number ∉ s.gpu.completed) {x : NvU64} (hx : InRegion o.args x) :
    s'.host.mem x = s.host.mem x := by
  rcases host_of_step hs with hhost | ⟨c, gpGet, rfl, rfl⟩
  · rw [hhost]
  obtain ⟨heffects, -⟩ := step_call hs
  have ha : s.Arranged := hr.arranged.resolve_left fun h => h.1 heffects
  have hcall : Exec.call c.run (s.observed gpGet) =
    ((Exec.call c.run (s.observed gpGet)).1, (s.called c gpGet).host) := rfl
  refine mem_of_call (h := s.observed gpGet) hr.usable.timelineSignal hcall fun f _ hin => ?_
  -- the call writes behind what is in use, and the region is in use
  have hf := hp.fits f
  have hinside := hp.page.inside
  have hoffset := hf.qmdOffset_lt
  have hsize := hf.toNat_regionSize
  have hroom : s.host.queue.kernArgsWriteIdx.toNat + (s.host.functions f).regionSize.toNat <
      2 ^ 64 := by omega
  exact (ha o ho hopen).disjoint hroom x ⟨hf.inRegion hin, hx⟩

/-- The region of an operation stays as it is until the operation has completed. -/
theorem mem_of_run {s t u : System} (hi : s.Initial) (hp : s.host.Prepared)
    (h : Relation.ReflTransGen (System.Next System.InStep) s t)
    (h' : Relation.ReflTransGen (System.Next System.InStep) t u) {o : Operation}
    (ho : o ∈ t.host.operations) (hopen : o.number ∉ u.gpu.completed) {x : NvU64}
    (hx : InRegion o.args x) : o ∈ u.host.operations ∧ u.host.mem x = t.host.mem x := by
  induction h' with
  | refl => exact ⟨ho, rfl⟩
  | tail hprev hnext ih =>
    obtain ⟨e, hok, hs⟩ := hnext
    have hbefore : o.number ∉ _ := fun hn => hopen (completed_of_step hs hn)
    obtain ⟨hmem, hsame⟩ := ih hbefore
    obtain ⟨hprepared, hr⟩ := prepared_of_run hi hp (h.trans hprev)
    refine ⟨?_, (mem_of_step hr hprepared hs hmem hbefore hx).trans hsame⟩
    rcases host_of_step hs with hhost | ⟨c, gpGet, -, rfl⟩
    · exact hhost ▸ hmem
    · exact operations_called hr.usable c gpGet o hmem

/-! ## Launches -/

/-- **The arguments of an unfinished launch are intact.** In every run in step of a prepared stream:
when a launch has been made and succeeded, and as long as it has not completed, the page has the
descriptor of that launch where the launch left it, and the header and the arguments it was called
with in front. -/
theorem launch_intact {s t u : System} (hi : s.Initial) (hp : s.host.Prepared)
    (h : Relation.ReflTransGen (System.Next System.InStep) s t) {function : ℕ} {grid block : Dim3}
    {sharedMemBytes : NvU32} {params : ℕ → ℕ → NvU8} {numParams : NvU64} {async : Bool}
    {gpGet : NvU32 × NvU32} (hidle : t.effects = [])
    (hstep : t.InStep (.call (.launchFunction (some function) grid block sharedMemBytes params
      numParams async) gpGet))
    (hok : (call (launchFunction (some function) grid block sharedMemBytes params numParams async)
      (t.observed gpGet)).1 = .ok ())
    (h' : Relation.ReflTransGen (System.Next System.InStep) (t.called (.launchFunction
      (some function) grid block sharedMemBytes params numParams async) gpGet) u)
    (hopen : t.host.timeline.timelineSteps + 1 ∉ u.gpu.completed) :
    LaunchStored u.host.mem (t.host.functions function)
      (qmdData (t.host.functions function) grid block sharedMemBytes (t.called (.launchFunction
        (some function) grid block sharedMemBytes params numParams async)
          gpGet).host.queue.currentSlmPerThread t.host.kernargsPointer)
      ((t.host.functions function).argumentBytes grid block params) t.host.kernargsPointer := by
  obtain ⟨hprepared, hr⟩ := prepared_of_run hi hp h
  have hf := hprepared.fits function
  have hsig : (t.observed gpGet).timeline.timelineSignal ≠ 0 := hr.usable.timelineSignal
  have hcall : call (launchFunction (some function) grid block sharedMemBytes params numParams async)
      (t.observed gpGet) = (.ok (), (t.called (.launchFunction (some function) grid block
        sharedMemBytes params numParams async) gpGet).host) := Prod.ext hok rfl
  have hstored := stored_of_launch hsig hf hcall
  -- the operation of the launch has that region
  rcases wp_call hcall (wp_launchFunction hsig (some function) grid block sharedMemBytes params
    numParams async) with ⟨_, -, g, hg, hlaunched⟩ | ⟨_, herr, -⟩
  swap
  · cases herr
  obtain rfl := Option.some.inj hg
  obtain ⟨bank, rest, ptr, hconstants, halloc, hops⟩ := hlaunched.operation
  have hconstants : (t.host.functions function).constants = bank :: rest := hconstants
  have hregion : kernargsSize bank.size = (t.host.functions function).regionSize := by
    rw [LibreCUFunction.regionSize, hconstants]
    rfl
  obtain rfl : ptr = t.host.kernargsPointer := halloc.ptr_eq
  rw [hregion] at hops
  have hnext : Relation.ReflTransGen (System.Next System.InStep) s (t.called (.launchFunction
      (some function) grid block sharedMemBytes params numParams async) gpGet) :=
    h.tail ⟨_, hstep, if_pos hidle⟩
  refine hstored.of_region hf ?_ fun x hx => ?_
  · rw [length_argumentBytes]
    exact hf.params_le
  · have hmem : (⟨t.host.timeline.timelineSteps + 1, .compute, async, (t.host.kernargsPointer,
        (t.host.functions function).regionSize)⟩ : Operation) ∈ (t.called (.launchFunction
          (some function) grid block sharedMemBytes params numParams async)
            gpGet).host.operations := by
      rw [hops]
      exact List.mem_append_right _ List.mem_cons_self
    exact (mem_of_run hi hp hnext h' hmem hopen hx).2

/-- The sample kernel has no parameters, and its bank has room for the header. -/
theorem prepared_sampleSystem : sampleSystem.host.Prepared := by
  refine ⟨fun f => ?_, by decide +kernel, by decide +kernel, by decide +kernel, by decide +kernel⟩
  have hfunctions : sampleSystem.host.functions = fun _ => sampleFunction := by rfl
  have hsample : sampleFunction.Fits := ⟨by decide, by decide, by decide⟩
  rw [hfunctions]
  exact hsample

/-- The first of two launches that run beside each other is intact. -/
theorem launch_intact_sample : ∃ qmd, LaunchStored sampleBeside.host.mem sampleFunction qmd
    (sampleFunction.argumentBytes ⟨1, 1, 1⟩ ⟨1, 1, 1⟩ fun _ _ => 0)
      sampleSystem.host.kernargsPointer :=
  ⟨_, launch_intact initial_sampleSystem prepared_sampleSystem .refl (by rfl)
    (fun _ => by decide +kernel) (by rfl) (orderly_inStep orderly_behindFirst) (by decide +kernel)⟩

end LibreCuda
