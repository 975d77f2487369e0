import LibreCuda.Queue.ArgumentPage
import LibreCuda.Stream.InStep

/-! # Awaiting and the argument page

`awaitExecution` reuses the page of kernel arguments from its start. That is safe as long as a wait
for the last target is a wait for every operation, which the discipline of a run in step gives, and
as long as the sum that `allocKernArgs` checks does not wrap.

* **`Within`** says where the region of an operation lies; **`System.Arranged`** that the regions of
  all unfinished operations lie in the part of the page that is in use.
* **`await_returns_after_all`**: behind an await everything has completed, and no region is handed
  out that overlaps one of an unfinished launch.
* **`await_returns_early`**: out of step, both fail. -/

namespace LibreCuda

open Channels Exec

/-- The region is empty, or one of the first `idx` bytes from `base` on. -/
def Within (base : NvU64) (idx : ℕ) (region : NvU64 × NvU64) : Prop :=
  region.2 = 0 ∨ ∃ x, region.1 = base + BitVec.ofNat 64 x ∧ x + region.2.toNat ≤ idx

theorem Within.mono {base : NvU64} {idx idx' : ℕ} (hle : idx ≤ idx') {region : NvU64 × NvU64}
    (h : Within base idx region) : Within base idx' region :=
  h.imp id fun ⟨x, hx, hsize⟩ => ⟨x, hx, hsize.trans hle⟩

/-- **A region behind the bytes in use overlaps none of them.** -/
theorem Within.disjoint {base idx size : NvU64} {region : NvU64 × NvU64}
    (h : Within base idx.toNat region) (hfits : idx.toNat + size.toNat < 2 ^ 64) (a : NvU64) :
    ¬ (InRegion (base + idx, size) a ∧ InRegion region a) := by
  rintro ⟨⟨k, hk, rfl⟩, j, hj, heq⟩
  rcases h with hempty | ⟨x, hx, hsize⟩
  · rw [hempty] at hj
    exact absurd hj (Nat.not_lt_zero j)
  · have hidx : idx = BitVec.ofNat 64 idx.toNat := by simp
    rw [hx, BitVec.add_assoc, BitVec.add_assoc, hidx, ← BitVec.ofNat_add, ← BitVec.ofNat_add] at heq
    have hoffset := congrArg BitVec.toNat ((BitVec.add_right_inj base).mp heq)
    simp only at hk
    rw [BitVec.toNat_ofNat, BitVec.toNat_ofNat, Nat.mod_eq_of_lt (by omega),
      Nat.mod_eq_of_lt (by omega)] at hoffset
    omega

/-! ## The argument page -/

/-- The bytes a launch asks `allocKernArgs` for. -/
def ApiCall.argBytes (h : Host) : ApiCall → Option NvU64
  | .launchFunction (some f) .. => (h.functions f).constants.head?.map fun c => kernargsSize c.size
  | _ => none

/-- What a call did to the argument page and the operations: it handed out no region, or one behind
the bytes in use, or made the page free again. -/
inductive Host.ArgsMoved (c : ApiCall) (h h' : Host) : Prop
  | kept : h'.argRegions = h.argRegions →
      h'.queue.kernArgsWriteIdx = h.queue.kernArgsWriteIdx →
      (∀ o ∈ h'.operations, o ∈ h.operations ∨ o.args.2 = 0) → ArgsMoved c h h'
  | allocated (size : NvU64) : c.argBytes h = some size →
      h'.argRegions = h.argRegions ++
        [(h.queue.kernArgsPageVa + h.queue.kernArgsWriteIdx, size)] →
      h'.queue.kernArgsWriteIdx = h.queue.kernArgsWriteIdx + size →
      (∀ o ∈ h'.operations, o ∈ h.operations ∨
        o.args = (h.queue.kernArgsPageVa + h.queue.kernArgsWriteIdx, size)) → ArgsMoved c h h'
  | freed : c = .awaitExecution → h'.argRegions = h.argRegions → ArgsMoved c h h'

/-- **What a call does to the argument page.** -/
theorem argsMoved_of_call {h h' : Host} {c : ApiCall} {r : Except Failure Unit} (hu : h.Usable)
    (hc : call c.run h = (r, h')) :
    h.ArgsMoved c h' ∧ h'.queue.kernArgsPageVa = h.queue.kernArgsPageVa := by
  have hsig := hu.timelineSignal
  cases c with
  | launchFunction function grid block sharedMemBytes params numParams async =>
    rcases wp_call hc (wp_launchFunction hsig function grid block sharedMemBytes params numParams
      async) with ⟨_, -, f, rfl, hok⟩ | ⟨_, -, herr⟩
    · obtain ⟨bank, rest, ptr, hconstants, halloc, hops⟩ := hok.operation
      refine ⟨.allocated (kernargsSize bank.size) ?_ ?_ halloc.kernArgsWriteIdx fun o ho => ?_,
        hok.kernArgsPageVa⟩
      · simp [ApiCall.argBytes, hconstants]
      · rw [halloc.argRegions, halloc.ptr_eq]
      · rw [hops] at ho
        rcases List.mem_append.mp ho with ho | ho
        · exact Or.inl ho
        · rw [List.mem_singleton.mp ho, halloc.ptr_eq]
          exact Or.inr rfl
    · refine ⟨?_, herr.kernArgsPageVa⟩
      have hkept : h.SameArgs h' → h.ArgsMoved (.launchFunction function grid block sharedMemBytes
          params numParams async) h' := fun hsame =>
        .kept hsame.argRegions hsame.kernArgsWriteIdx fun o ho => Or.inl (herr.operations ▸ ho)
      -- a launch that fails may have taken its region already
      rcases herr.args with hsame | ⟨f, rfl, hsame | ⟨bank, rest, ptr, hconstants, halloc⟩⟩
      · exact hkept hsame
      · exact hkept hsame
      · refine .allocated (kernargsSize bank.size) ?_ ?_ halloc.kernArgsWriteIdx
          fun o ho => Or.inl (herr.operations ▸ ho)
        · simp [ApiCall.argBytes, hconstants]
        · rw [halloc.argRegions, halloc.ptr_eq]
  | gpuMemcpy dst src numBytes async =>
    rcases wp_call hc (wp_gpuMemcpy hsig dst src numBytes async) with ⟨_, -, hok⟩ | ⟨_, -, rfl⟩
    · refine ⟨.kept hok.argRegions hok.kernArgsWriteIdx fun o ho => ?_, hok.kernArgsPageVa⟩
      rw [hok.operation] at ho
      rcases List.mem_append.mp ho with ho | ho
      · exact Or.inl ho
      · rw [List.mem_singleton.mp ho]
        exact Or.inr rfl
    · exact ⟨.kept rfl rfl fun _ => Or.inl, rfl⟩
  | recordEvent event pStream =>
    have hrec : h.Recording h' := by
      rcases wp_call hc (wp_recordEvent event pStream h) with ⟨_, -, hrec, -⟩ | ⟨_, -, hrec, -⟩
      · exact hrec
      · exact hrec
    exact ⟨.kept hrec.argRegions hrec.kernArgsWriteIdx fun o ho => Or.inl (hrec.operations ▸ ho),
      hrec.kernArgsPageVa⟩
  | startExecution =>
    obtain ⟨hsame, hops, hpage⟩ := args_of_start hu hc
    exact ⟨.kept hsame.argRegions hsame.kernArgsWriteIdx fun o ho => Or.inl (hops ▸ ho), hpage⟩
  | awaitExecution =>
    rcases wp_call hc (wp_awaitExecution hsig hu.waits) with ⟨_, -, hok⟩ | ⟨_, -, hf⟩
    · obtain ⟨hkept, hregions, -⟩ := hok
      exact ⟨.freed rfl hregions, hkept.kernArgsPageVa⟩
    · exact hf.elim

/-! ## Runs -/

/-- The condition: the run is in step, and the sum that `allocKernArgs` checks does not wrap. -/
def System.Fits (s : System) (e : SystemEvent) : Prop :=
  s.InStep e ∧ match e with
    | .call c _ => ∀ size, c.argBytes s.host = some size →
        s.host.queue.kernArgsWriteIdx.toNat + size.toNat < 2 ^ 64
    | _ => True

/-- The regions of unfinished operations lie in the part of the page that is in use. -/
def System.Arranged (s : System) : Prop :=
  ∀ o ∈ s.host.operations, o.number ∉ s.gpu.completed →
    Within s.host.queue.kernArgsPageVa s.host.queue.kernArgsWriteIdx.toNat o.args

/-- An await is being carried out. -/
def System.Awaiting (s : System) : Prop :=
  s.effects ≠ [] ∧ ∃ r, s.last = some (.awaitExecution, r)

/-- **Behind an await every operation has completed.** -/
theorem completed_of_awaited {s : System} (hr : s.Run System.InStep) {r : Except Failure Unit}
    (hlast : s.last = some (.awaitExecution, r)) (heffects : s.effects = []) :
    ∀ o ∈ s.host.operations, o.number ∈ s.gpu.completed := by
  obtain ⟨c, hk⟩ := hr.knows
  have hsettles := hk.carried
  rw [heffects] at hsettles
  intro o ho
  obtain ⟨hfloor, hle⟩ := hr.labelled.numbered.bounds ho
  exact hk.done _ hfloor (hle.trans (hsettles.awaited r hlast))

/-- A call keeps the regions arranged, unless it is an await. -/
theorem System.Arranged.called {s : System} (ha : s.Arranged) (hu : s.host.Usable) {c : ApiCall}
    {gpGet : NvU32 × NvU32} (hok : s.Fits (.call c gpGet)) (hne : c ≠ .awaitExecution) :
    (s.called c gpGet).Arranged := by
  have hcall : call c.run (s.observed gpGet) =
    ((call c.run (s.observed gpGet)).1, (s.called c gpGet).host) := rfl
  obtain ⟨hmoved, hpage⟩ := argsMoved_of_call (hu.observe s.gpu.signals gpGet) hcall
  intro o ho hdone
  rw [hpage]
  cases hmoved with
  | kept _ hidx hops =>
    rw [hidx]
    rcases hops o ho with ho | hempty
    · exact ha o ho hdone
    · exact Or.inl hempty
  | allocated size hsize _ hidx hops =>
    have hfits : s.host.queue.kernArgsWriteIdx.toNat + size.toNat < 2 ^ 64 := hok.2 size hsize
    have hnat : (s.called c gpGet).host.queue.kernArgsWriteIdx.toNat =
        s.host.queue.kernArgsWriteIdx.toNat + size.toNat := by
      rw [hidx]
      exact (BitVec.toNat_add ..).trans (Nat.mod_eq_of_lt hfits)
    rw [hnat]
    rcases hops o ho with ho | hargs
    · exact (ha o ho hdone).mono (Nat.le_add_right _ _)
    · refine Or.inr ⟨s.host.queue.kernArgsWriteIdx.toNat, ?_, ?_⟩
      · rw [hargs, BitVec.ofNat_toNat, BitVec.setWidth_eq]
        rfl
      · rw [hargs]
  | freed hawait _ => exact absurd hawait hne

/-- **The regions are arranged in every run that fits**, except while an await is carried out. -/
theorem System.Run.arranged {s : System} (hr : s.Run System.Fits) : s.Awaiting ∨ s.Arranged := by
  induction hr with
  | initial hi =>
    refine Or.inr fun o ho => ?_
    rw [hi.host.ready.operations] at ho
    cases ho
  | step hprev hok hs ih =>
    rename_i s s' e
    have hr' := (hprev.step hok hs).mono fun _ _ h => h.1
    -- completions only make the statement weaker
    have hgpu : ∀ g : Gpu, (∀ n, n ∈ s.gpu.completed → n ∈ g.completed) →
        ({ s with gpu := g } : System).Awaiting ∨ ({ s with gpu := g } : System).Arranged :=
      fun g hg => ih.imp id fun ha o ho hdone => ha o ho fun h => hdone (hg _ h)
    cases e with
    | call c gpGet =>
      obtain ⟨heffects, rfl⟩ := step_call hs
      have ha : s.Arranged := ih.resolve_left fun h => h.1 heffects
      by_cases hc : c = .awaitExecution
      · subst hc
        by_cases hnil : (s.called .awaitExecution gpGet).effects = []
        · exact Or.inr fun o ho hdone => absurd (completed_of_awaited hr' rfl hnil o ho) hdone
        · exact Or.inl ⟨hnil, _, rfl⟩
      · exact Or.inr (ha.called hprev.usable hok hc)
    | effect =>
      obtain ⟨hlast, hhost, hcompleted⟩ : s'.last = s.last ∧ s'.host = s.host ∧
          s'.gpu.completed = s.gpu.completed := by
        rcases step_effect hs with ⟨_, _, _, -, rfl⟩ | ⟨_, _, _, -, -, rfl⟩
        · exact ⟨rfl, rfl, rfl⟩
        · exact ⟨rfl, rfl, rfl⟩
      rcases ih with ⟨-, r, hawait⟩ | ha
      · by_cases hnil : s'.effects = []
        · exact Or.inr fun o ho hdone =>
            absurd (completed_of_awaited hr' (hlast.trans hawait) hnil o ho) hdone
        · exact Or.inl ⟨hnil, r, hlast.trans hawait⟩
      · refine Or.inr ?_
        rw [System.Arranged, hhost, hcompleted]
        exact ha
    | fetch type =>
      obtain ⟨g, hg, rfl⟩ := step_fetch hs
      obtain ⟨-, -, -, hcompleted, -⟩ := fetch_cases hg
      exact hgpu g fun n hn => hcompleted ▸ hn
    | finish type n =>
      obtain ⟨g, hg, rfl⟩ := step_finish hs
      obtain ⟨-, hcompleted, -⟩ := finish_cases hg
      exact hgpu g fun k hk => hcompleted ▸ List.mem_cons_of_mem n hk

/-- **Awaits are sound, and so is the reuse of the argument page.** In a run that fits: when an
await has returned every operation enqueued so far has completed, and a call hands out no region
that shares a byte with the region of an operation that has not. -/
theorem await_returns_after_all {s : System} (hr : s.Run System.Fits) (heffects : s.effects = []) :
    (∀ r, s.last = some (.awaitExecution, r) →
      ∀ o ∈ s.host.operations, o.number ∈ s.gpu.completed) ∧
    ∀ c gpGet, s.Fits (.call c gpGet) →
      ∀ region ∈ (s.called c gpGet).host.argRegions.drop s.host.argRegions.length,
        ∀ o ∈ s.host.operations, o.number ∉ s.gpu.completed →
          ∀ a, ¬ (InRegion region a ∧ InRegion o.args a) := by
  refine ⟨fun r hlast => completed_of_awaited (hr.mono fun _ _ h => h.1) hlast heffects,
    fun c gpGet hok region hregion o ho hdone => ?_⟩
  have ha : s.Arranged := hr.arranged.resolve_left fun h => h.1 heffects
  have hcall : call c.run (s.observed gpGet) =
    ((call c.run (s.observed gpGet)).1, (s.called c gpGet).host) := rfl
  obtain ⟨hmoved, -⟩ := argsMoved_of_call (hr.usable.observe s.gpu.signals gpGet) hcall
  have hnone : (s.called c gpGet).host.argRegions = s.host.argRegions →
      ∀ a, ¬ (InRegion region a ∧ InRegion o.args a) := fun hsame => by
    rw [hsame, List.drop_length] at hregion
    cases hregion
  cases hmoved with
  | kept hregions _ _ => exact hnone hregions
  | allocated size hsize hregions _ _ =>
    rw [hregions] at hregion
    have hnew : region = (s.host.queue.kernArgsPageVa + s.host.queue.kernArgsWriteIdx, size) := by
      have hdrop : (s.host.argRegions ++ [(s.host.queue.kernArgsPageVa +
          s.host.queue.kernArgsWriteIdx, size)]).drop s.host.argRegions.length =
          [(s.host.queue.kernArgsPageVa + s.host.queue.kernArgsWriteIdx, size)] := List.drop_left
      exact List.mem_singleton.mp (hdrop ▸ hregion)
    rw [hnew]
    exact (ha o ho hdone).disjoint (hok.2 size hsize)
  | freed _ hregions => exact hnone hregions

/-- A launch is enqueued, commenced and awaited. -/
def sampleAwaited : System :=
  ((sampleSystem.after [.call (sampleLaunch false) (0, 0)]).after
    [.call .startExecution (0, 0)]).after
      [.effect, .fetch .compute, .fetch .compute, .fetch .compute, .finish .compute 3,
        .fetch .compute, .call .awaitExecution (0, 0), .effect]

theorem run_sampleAwaited : sampleAwaited.Run System.Fits := by
  have hlaunch : (sampleSystem.after [.call (sampleLaunch false) (0, 0)]).Run System.Fits := by
    have hbytes : (sampleLaunch false).argBytes sampleSystem.host = some 0xa00 := by rfl
    refine (System.Run.initial initial_sampleSystem).step (e := .call (sampleLaunch false) (0, 0))
      ⟨fun _ => by decide +kernel, fun size hsize => ?_⟩ (by rfl)
    rw [hbytes] at hsize
    cases hsize
    decide +kernel
  have hback : (sampleSystem.after [.call (sampleLaunch false)
      (0, 0)]).host.timeline.commandBufBacklog = [] := by rfl
  have hcommenced : (sampleSystem.after [.call (sampleLaunch false) (0, 0)]).commenced = 2 := by rfl
  have hstart : ((sampleSystem.after [.call (sampleLaunch false) (0, 0)]).after
      [.call .startExecution (0, 0)]).Run System.Fits := by
    refine hlaunch.step (e := .call .startExecution (0, 0))
      ⟨⟨fun hne => absurd hback hne, fun type commands _ => Or.inl fun k hk hle => ?_⟩,
        fun size hsize => ?_⟩ (by rfl)
    · rw [hcommenced] at hle
      exact absurd hk (Nat.not_lt.mpr hle)
    · cases hsize
  refine hstart.exec (fun e he s => ?_) (exec_after (by rfl))
  simp only [List.mem_cons, List.not_mem_nil, or_false] at he
  have hcount : ∀ _ : False, s.host.timeline.timelineSteps + 1 < 2 ^ 32 := fun h => h.elim
  rcases he with rfl | rfl | rfl | rfl | rfl | rfl | rfl | rfl
  all_goals first
    | exact ⟨trivial, trivial⟩
    | exact ⟨hcount, fun _ hsize => by cases hsize⟩

/-- The await of the sample session returns after its launch. -/
theorem await_returns_after_all_sample : sampleAwaited.effects = [] ∧
    ∀ o ∈ sampleAwaited.host.operations, o.number ∈ sampleAwaited.gpu.completed := by
  have heffects : sampleAwaited.effects = [] := by decide +kernel
  exact ⟨heffects, (await_returns_after_all run_sampleAwaited heffects).1 (.ok ()) (by rfl)⟩

/-- A launch runs; a copy commenced behind it completes, and an await returns. -/
def awaitBehindCopy : System :=
  sampleSystem.after [.call (sampleLaunch false) (0, 0), .call .startExecution (0, 0), .effect,
    .fetch .compute, .fetch .compute, .fetch .compute, .call (sampleCopy false) (0, 0),
    .call .startExecution (0, 0), .effect, .fetch .dma, .fetch .dma, .fetch .dma, .finish .dma 4,
    .fetch .dma, .call .awaitExecution (0, 0), .effect]

/-- **Out of step, the await returns while the launch is running**, with nothing left to commence,
and the next launch is handed the arguments of the one that runs. -/
theorem await_returns_early : ∃ s : System, (s.Run fun _ _ => True) ∧
    s.last = some (.awaitExecution, .ok ()) ∧ s.effects = [] ∧
    s.host.timeline.commandBufBacklog = [] ∧
    (∀ type, s.host.timeline.commandBuffer type = []) ∧
    ∃ launch ∈ s.host.operations, launch.number ∉ s.gpu.completed ∧
      launch.args ∈ (s.called (sampleLaunch false) (0, 0)).host.argRegions.drop
        s.host.argRegions.length ∧ InRegion launch.args launch.args.1 := by
  have hrun : awaitBehindCopy.Run fun _ _ => True :=
    (System.Run.initial initial_sampleSystem).exec (fun _ _ _ => trivial) (exec_after (by rfl))
  refine ⟨awaitBehindCopy, hrun, by rfl, by decide +kernel, by decide +kernel,
    fun type => by cases type <;> decide +kernel,
    ⟨3, .compute, false, awaitBehindCopy.host.queue.kernArgsPageVa, 0xa00⟩, by decide +kernel,
    by decide +kernel, by decide +kernel, 0, by decide, by simp⟩

end LibreCuda
