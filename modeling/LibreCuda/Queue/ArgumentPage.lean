import LibreCuda.Foundation.Arena
import LibreCuda.Foundation.Runs
import LibreCuda.Queue.Descriptor
import LibreCuda.Queue.Memory
import LibreCuda.Queue.Session

/-! # The argument page

Launches take their argument regions one behind another from a page, which `awaitExecution` makes
free again. The descriptor of a launch lies in its region, and the engine gets the address of it
shifted right by eight bits.

* **`Host.ArgsMoved`**: what a call does to the argument page.
* **`Host.PageOrdered`**: between two resets the page is an arena, aligned to 256 bytes.
* **`argument_page_ordered`**: regions are disjoint and addresses of descriptors survive the shift,
  in every sequence of calls between two resets. -/

namespace LibreCuda

open Arena Channels Exec Runs

/-! ## Regions -/

/-- The address is one of the bytes of a region, given by its start and its size. -/
def InRegion (region : NvU64 × NvU64) (a : NvU64) : Prop :=
  ∃ k < region.2.toNat, a = region.1 + BitVec.ofNat 64 k

/-- A commence leaves the argument page alone. -/
theorem args_of_start {h h' : Host} {r : Except Failure Unit} (hu : h.Usable)
    (hc : call startExecution h = (r, h')) :
    h.SameArgs h' ∧ h'.operations = h.operations ∧
      h'.queue.kernArgsPageVa = h.queue.kernArgsPageVa := by
  have hadds : ∀ fx, h.Adds fx h' → h.SameArgs h' ∧ h'.operations = h.operations ∧
      h'.queue.kernArgsPageVa = h.queue.kernArgsPageVa :=
    fun _ ha => ⟨ha.toSameArgs, ha.operations, ha.kernArgsPageVa⟩
  by_cases hnil : h.timeline.commandBufBacklog = []
  · rcases wp_call hc (wp_startExecution_of_nil hu.timelineSignal hnil) with
      ⟨_, -, hok⟩ | ⟨_, -, herr⟩
    · rcases hok.submitted with ⟨type, -, -, ha, -⟩ | ⟨-, ha, -⟩
      · exact hadds _ ha
      · exact hadds _ ha
    · rcases herr with rfl | ⟨type, -, -, ha, -⟩
      · exact ⟨⟨rfl, rfl⟩, rfl, rfl⟩
      · exact hadds _ ha
  · rcases wp_call hc (wp_startExecution_of_ne_nil hu.timelineSignal hu.waits hnil) with
      ⟨_, -, hok⟩ | ⟨_, -, herr⟩
    · exact hadds _ hok.adds
    · obtain ⟨before, e, after, -, ha, -⟩ := herr.stopped
      exact hadds _ ha

/-- **What a call that is no await does to the argument page**: nothing, or it takes the region of a
launch. -/
theorem allocated_of_call {h h' : Host} {c : ApiCall} {r : Except Failure Unit} (hu : h.Usable)
    (hne : c ≠ .awaitExecution) (hc : call c.run h = (r, h')) :
    (h.SameArgs h' ∨ ∃ f bank rest ptr, (h.functions f).constants = bank :: rest ∧
      h.Allocated h' ptr (kernargsSize bank.size)) ∧
    h'.queue.kernArgsPageVa = h.queue.kernArgsPageVa := by
  have hsig := hu.timelineSignal
  cases c with
  | launchFunction function grid block sharedMemBytes params numParams async =>
    rcases wp_call hc (wp_launchFunction hsig function grid block sharedMemBytes params numParams
      async) with ⟨_, -, f, -, hok⟩ | ⟨_, -, herr⟩
    · obtain ⟨bank, rest, ptr, hconstants, halloc, -⟩ := hok.operation
      exact ⟨Or.inr ⟨f, bank, rest, ptr, hconstants, halloc⟩, hok.kernArgsPageVa⟩
    · refine ⟨?_, herr.kernArgsPageVa⟩
      rcases herr.args with hsame | ⟨f, -, hsame | ⟨bank, rest, ptr, hconstants, halloc⟩⟩
      · exact Or.inl hsame
      · exact Or.inl hsame
      · exact Or.inr ⟨f, bank, rest, ptr, hconstants, halloc⟩
  | gpuMemcpy dst src numBytes async =>
    rcases wp_call hc (wp_gpuMemcpy hsig dst src numBytes async) with ⟨_, -, hok⟩ | ⟨_, -, rfl⟩
    · exact ⟨Or.inl hok.toSameArgs, hok.kernArgsPageVa⟩
    · exact ⟨Or.inl ⟨rfl, rfl⟩, rfl⟩
  | recordEvent event pStream =>
    have hrec : h.Recording h' := by
      rcases wp_call hc (wp_recordEvent event pStream h) with ⟨_, -, hrec, -⟩ | ⟨_, -, hrec, -⟩
      · exact hrec
      · exact hrec
    exact ⟨Or.inl hrec.toSameArgs, hrec.kernArgsPageVa⟩
  | startExecution =>
    obtain ⟨hsame, -, hpage⟩ := args_of_start hu hc
    exact ⟨Or.inl hsame, hpage⟩
  | awaitExecution => exact absurd rfl hne

/-! ## Kernels -/

/-- Nothing of the functions changed but where their local memory is. -/
structure Host.SameKernels (h h' : Host) : Prop where
  functions : ∀ f, h'.functions f = { h.functions f with
    shaderLocalMemoryVa := (h'.functions f).shaderLocalMemoryVa }

instance : IsPreorder Host Host.SameKernels where
  refl _ := ⟨fun _ => rfl⟩
  trans _ _ _ h h' := ⟨fun f => by rw [h'.functions f, h.functions f]⟩

theorem Host.SameLocalMem.kernels {h h' : Host} (hsame : h.SameLocalMem h') : h.SameKernels h' :=
  ⟨fun f => by rw [hsame.functions]⟩

theorem Host.SameKernels.constants {h h' : Host} (hsame : h.SameKernels h') (f : ℕ) :
    (h'.functions f).constants = (h.functions f).constants := by
  rw [hsame.functions f]

/-- Local memory is recorded in the function it is for. -/
theorem sameKernels_update (h : Host) (function : ℕ) (va : NvU64) :
    h.SameKernels { h with
      functions := Function.update h.functions function
        { h.functions function with shaderLocalMemoryVa := va } } := by
  refine ⟨fun f => ?_⟩
  by_cases hf : f = function
  · subst hf
    simp only [Function.update_self]
  · simp only [Function.update_of_ne hf]

/-- **No call changes a function** but for its local memory. -/
instance : KeptByGrowth anyTimeline Host.SameKernels where
  setTimeline _ _ _ := ⟨fun _ => rfl⟩
  submitted type _ := by cases type <;> exact ⟨fun _ => rfl⟩
  setFlags _ _ := ⟨fun _ => rfl⟩
  waited _ _ _ := ⟨fun _ => rfl⟩
  setArguments _ _ _ := ⟨fun _ => rfl⟩
  store _ _ := ⟨fun _ => rfl⟩
  setFreeSignals _ _ := ⟨fun _ => rfl⟩
  setEvents _ _ := ⟨fun _ => rfl⟩
  setOperations _ _ := ⟨fun _ => rfl⟩
  setVm _ _ := ⟨fun _ => rfl⟩
  setSlm _ _ := ⟨fun _ => rfl⟩
  setLocalMem h function va := sameKernels_update h function va

/-! ## Sequences of calls -/

/-- A call, and what the driver observes of the GPU before it. -/
abbrev ObservedCall : Type := ApiCall × (NvU64 → NvU64) × (NvU32 × NvU32)

/-- The outcome of a call, and the stream behind it. -/
def Host.made (h : Host) (c : ObservedCall) : Except Failure Unit × Host :=
  call c.1.run (h.observe c.2.1 c.2.2)

/-- The stream behind a call. -/
def Host.next (h : Host) (c : ObservedCall) : Option Host := some (h.made c).2

/-- A region of the arena as a region of the page. -/
def pageRegion (base : NvU64) (r : ℕ × ℕ) : NvU64 × NvU64 :=
  (base + BitVec.ofNat 64 r.1, BitVec.ofNat 64 r.2)

/-- **The page is in order** behind the calls since it was made free: the regions they were handed
are disjoint and inside the page, and the next one starts at a multiple of 256. -/
structure Host.PageOrdered (h s : Host) : Prop where
  regions : ∃ regions, s.argRegions = h.argRegions ++ regions ∧
    regions.Pairwise (fun a b => ∀ x, ¬ (InRegion a x ∧ InRegion b x)) ∧
    ∀ r ∈ regions, ∀ x, InRegion r x →
      h.queue.kernArgsPageVa.toNat ≤ x.toNat ∧ x.toNat < h.queue.kernArgsPageVa.toNat + 2 ^ 24
  aligned : 256 ∣ s.queue.kernArgsWriteIdx.toNat

/-- **The address of a descriptor survives the shift**: a launch that succeeds takes the next region,
and hands over one descriptor, which is stored there; its method argument, shifted back, is where. -/
def AddressSurvives (s : Host) (c : ObservedCall) : Prop :=
  ∀ function grid block sharedMemBytes params numParams async,
    c.1 = .launchFunction (some function) grid block sharedMemBytes params numParams async →
    (s.made c).1 = .ok () → ∃ ptr a,
      (s.made c).2.argRegions = s.argRegions ++
        [(ptr, kernargsSize ((s.functions function).constants.headD ⟨0, 0, 0⟩).size)] ∧
      (s.observe c.2.1 c.2.2).Describes (s.made c).2 (s.functions function) grid block sharedMemBytes
        ptr ∧
      ((s.observe c.2.1 c.2.2).sentPcas (s.made c).2).map MethodCall.args = [[a]] ∧
      a.setWidth 64 <<< 8 = qmdAddress (s.functions function) ptr

/-- The invariant of the calls since the page was made free. -/
structure Host.PageArena (h s : Host) : Prop where
  usable : s.Usable
  kernels : h.SameKernels s
  page : s.queue.kernArgsPageVa = h.queue.kernArgsPageVa
  handed : ∃ rs, s.argRegions = h.argRegions ++ rs.map (pageRegion h.queue.kernArgsPageVa) ∧
    Arena.Handed 256 rs s.queue.kernArgsWriteIdx.toNat
  fits : s.queue.kernArgsWriteIdx.toNat ≤ 2 ^ 24

/-- The size of a constant bank, rounded up. -/
theorem toNat_roundUp_bank {size : NvU64} (h : size.toNat < 2 ^ 32) :
    (roundUp size (1 <<< 8 : NvU64)).toNat = (size.toNat + 255) / 256 * 256 := by
  have height : (1 <<< 8 : NvU64).toNat = 256 := rfl
  rw [toNat_roundUp _ _ (by rw [height]; decide) (by rw [height]; omega), height]
  omega

theorem toNat_kernargsSize {size : NvU64} (h : size.toNat < 2 ^ 32) :
    (kernargsSize size).toNat = (size.toNat + 255) / 256 * 256 + 2048 := by
  have hheader : (8 <<< 8 : NvU64).toNat = 2048 := rfl
  rw [kernargsSize, BitVec.toNat_add, toNat_roundUp_bank h, hheader, Nat.mod_eq_of_lt (by omega)]

/-- A multiple of 256 below `2 ^ 40` survives the shift. -/
theorem shift_survives {a : NvU64} (haligned : 256 ∣ a.toNat) (hbelow : a.toNat < 2 ^ 40) :
    ((a >>> 8).setWidth 32).setWidth 64 <<< 8 = a := by
  obtain ⟨k, hk⟩ := haligned
  apply BitVec.eq_of_toNat_eq
  rw [BitVec.toNat_shiftLeft, BitVec.toNat_setWidth, BitVec.toNat_setWidth,
    BitVec.toNat_ushiftRight, Nat.shiftRight_eq_div_pow, Nat.shiftLeft_eq]
  omega

section PageArena

variable {h s : Host}

/-- The page is ordered as the arena is. -/
theorem Host.PageArena.ordered (hbelow : h.queue.kernArgsPageVa.toNat + 2 ^ 24 ≤ 2 ^ 40)
    (ha : h.PageArena s) : h.PageOrdered s := by
  obtain ⟨rs, hregions, hhanded⟩ := ha.handed
  -- an address of a region is an offset of the arena
  have hoffset : ∀ r ∈ rs, ∀ x, InRegion (pageRegion h.queue.kernArgsPageVa r) x → ∃ k,
      Arena.Within r k ∧ x.toNat = h.queue.kernArgsPageVa.toNat + k ∧ k < 2 ^ 24 := by
    rintro r hr x ⟨k, hk, rfl⟩
    have hinside := (hhanded.inside r hr).trans ha.fits
    simp only [pageRegion, BitVec.toNat_ofNat] at hk
    have hsize : r.2 % 2 ^ 64 ≤ r.2 := Nat.mod_le _ _
    refine ⟨r.1 + k, ⟨Nat.le_add_right _ _, by omega⟩, ?_, by omega⟩
    simp only [pageRegion, BitVec.toNat_add, BitVec.toNat_ofNat]
    omega
  refine ⟨⟨_, hregions, ?_, fun r' hr' x hx => ?_⟩, hhanded.aligned⟩
  · rw [List.pairwise_map]
    refine hhanded.disjoint.imp_of_mem fun hr hr' hdisjoint x hx => ?_
    obtain ⟨k, hk, hxk, -⟩ := hoffset _ hr x hx.1
    obtain ⟨k', hk', hxk', -⟩ := hoffset _ hr' x hx.2
    obtain rfl : k = k' := by omega
    exact hdisjoint k ⟨hk, hk'⟩
  · obtain ⟨r, hr, rfl⟩ := List.mem_map.mp hr'
    obtain ⟨k, -, hxk, hlt⟩ := hoffset r hr x hx
    omega

/-- **A call keeps the page an arena**, unless it makes it free. -/
theorem Host.PageArena.made (hbanks : ∀ f, ∀ c ∈ (h.functions f).constants, c.size.toNat < 2 ^ 32)
    (ha : h.PageArena s) {c : ObservedCall} (hne : c.1 ≠ .awaitExecution) :
    h.PageArena (s.made c).2 := by
  have hu := ha.usable.observe c.2.1 c.2.2
  have hcall : call c.1.run (s.observe c.2.1 c.2.2) = ((s.made c).1, (s.made c).2) := rfl
  have hobserved : h.SameKernels (s.observe c.2.1 c.2.2) := ⟨ha.kernels.functions⟩
  obtain ⟨rs, hregions, hhanded⟩ := ha.handed
  obtain ⟨hargs, hpage⟩ := allocated_of_call hu hne hcall
  have hkernels : h.SameKernels (s.made c).2 :=
    IsTrans.trans _ _ _ hobserved ((keeps_call c.1).of_call hcall)
  rcases hargs with hsame | ⟨f, bank, rest, ptr, hconstants, halloc⟩
  · refine ⟨hu.call hcall, hkernels, hpage.trans ha.page, ⟨rs, ?_, ?_⟩, ?_⟩
    · exact hsame.argRegions.trans hregions
    · rw [hsame.kernArgsWriteIdx]
      exact hhanded
    · rw [hsame.kernArgsWriteIdx]
      exact ha.fits
  · have hbank : bank.size.toNat < 2 ^ 32 := by
      refine hbanks f bank ?_
      rw [← hobserved.constants f, hconstants]
      exact List.mem_cons_self
    have hsize := toNat_kernargsSize hbank
    have hfits := ha.fits
    have hidx : (s.made c).2.queue.kernArgsWriteIdx.toNat =
        s.queue.kernArgsWriteIdx.toNat + (kernargsSize bank.size).toNat := by
      rw [halloc.kernArgsWriteIdx]
      refine (BitVec.toNat_add ..).trans (Nat.mod_eq_of_lt ?_)
      show s.queue.kernArgsWriteIdx.toNat + _ < _
      omega
    refine ⟨hu.call hcall, hkernels, hpage.trans ha.page,
      ⟨rs ++ [(s.queue.kernArgsWriteIdx.toNat, (kernargsSize bank.size).toNat)], ?_, ?_⟩, ?_⟩
    · rw [halloc.argRegions, halloc.ptr_eq, List.map_append, ← List.append_assoc, ← hregions,
        List.map_singleton, pageRegion, BitVec.ofNat_toNat, BitVec.ofNat_toNat, BitVec.setWidth_eq,
        BitVec.setWidth_eq, ← ha.page]
      rfl
    · rw [hidx]
      exact hhanded.alloc (by omega)
    · have hroom := Nat.not_lt.mp halloc.fits
      rw [← halloc.kernArgsWriteIdx] at hroom
      exact hroom

/-- **The address of a descriptor survives the shift** in an arena below `2 ^ 40`. -/
theorem Host.PageArena.addressSurvives
    (haligned : 2 ^ 21 ∣ h.queue.kernArgsPageVa.toNat)
    (hbelow : h.queue.kernArgsPageVa.toNat + 2 ^ 24 ≤ 2 ^ 40)
    (hbanks : ∀ f, ∀ c ∈ (h.functions f).constants, c.size.toNat < 2 ^ 32)
    (ha : h.PageArena s) (c : ObservedCall) : AddressSurvives s c := by
  intro function grid block sharedMemBytes params numParams async hc hok
  have hu := ha.usable.observe c.2.1 c.2.2
  have hlaunch : call (launchFunction (some function) grid block sharedMemBytes params numParams
      async) (s.observe c.2.1 c.2.2) = (.ok (), (s.made c).2) := by
    have hmade : call c.1.run (s.observe c.2.1 c.2.2) = (.ok (), (s.made c).2) := Prod.ext hok rfl
    rw [hc] at hmade
    exact hmade
  obtain ⟨ptr, hdescribes⟩ := described_of_launch hu.timelineSignal hlaunch
  -- the launch took a region of the page
  rcases wp_call hlaunch (wp_launchFunction hu.timelineSignal (some function) grid block
    sharedMemBytes params numParams async) with ⟨_, -, f, hf, hlaunched⟩ | ⟨_, herr, -⟩
  swap
  · cases herr
  obtain rfl := Option.some.inj hf
  obtain ⟨bank, rest, ptr', hconstants, halloc, -⟩ := hlaunched.operation
  have hbank : bank.size.toNat < 2 ^ 32 := by
    refine hbanks function bank ?_
    rw [← ha.kernels.constants function]
    exact hconstants ▸ List.mem_cons_self
  have hround := toNat_roundUp_bank hbank
  have hsize := toNat_kernargsSize hbank
  have hfits := ha.fits
  have hidx : (s.queue.kernArgsWriteIdx + kernargsSize bank.size).toNat =
      s.queue.kernArgsWriteIdx.toNat + (kernargsSize bank.size).toNat :=
    (BitVec.toNat_add ..).trans (Nat.mod_eq_of_lt (by omega))
  have hroom : (s.queue.kernArgsWriteIdx + kernargsSize bank.size).toNat ≤ 2 ^ 24 :=
    Nat.not_lt.mp halloc.fits
  obtain ⟨rs, -, hhanded⟩ := ha.handed
  have hhead : (s.functions function).constants.headD ⟨0, 0, 0⟩ = bank := by
    show ((s.observe c.2.1 c.2.2).functions function).constants.headD ⟨0, 0, 0⟩ = bank
    rw [hconstants]
    rfl
  have hregions : (s.made c).2.argRegions = s.argRegions ++
      [(ptr, kernargsSize ((s.functions function).constants.headD ⟨0, 0, 0⟩).size)] := by
    rw [hhead, halloc.argRegions, halloc.ptr_eq, hdescribes.pointer]
    rfl
  have haddress : (qmdAddress (s.functions function) ptr).toNat =
      h.queue.kernArgsPageVa.toNat + s.queue.kernArgsWriteIdx.toNat +
        (roundUp bank.size (1 <<< 8 : NvU64)).toNat := by
    have hptr : ptr = h.queue.kernArgsPageVa + s.queue.kernArgsWriteIdx := by
      rw [hdescribes.pointer, ← ha.page]
      rfl
    rw [qmdAddress, hhead, hptr, BitVec.toNat_add, BitVec.toNat_add]
    omega
  have hpage : 256 ∣ h.queue.kernArgsPageVa.toNat := Nat.dvd_trans (by decide) haligned
  refine ⟨ptr, _, hregions, hdescribes, hdescribes.method,
    shift_survives (a := qmdAddress (s.functions function) ptr) ?_ (by omega)⟩
  rw [haddress, hround]
  exact Nat.dvd_add (Nat.dvd_add hpage hhanded.aligned) (Nat.dvd_mul_left _ _)

end PageArena

/-! ## Between two resets -/

/-- **Argument regions are disjoint and addresses of descriptors survive**, in every sequence of
calls between two resets of the page: whether they succeed or fail, the regions handed out are
disjoint and inside the page, the next one starts at a multiple of 256, every launch that succeeds
takes one of them, and its method argument, shifted back, is where its descriptor was stored. -/
theorem argument_page_ordered {h : Host} (hu : h.Usable) (hreset : h.queue.kernArgsWriteIdx = 0)
    (haligned : 2 ^ 21 ∣ h.queue.kernArgsPageVa.toNat)
    (hbelow : h.queue.kernArgsPageVa.toNat + 2 ^ 24 ≤ 2 ^ 40)
    (hbanks : ∀ f, ∀ c ∈ (h.functions f).constants, c.size.toNat < 2 ^ 32)
    {calls : List ObservedCall} (hkept : ∀ c ∈ calls, c.1 ≠ .awaitExecution) :
    Always Host.next h.PageOrdered h calls ∧ Meets Host.next AddressSurvives h calls := by
  have hstart : h.PageArena h := by
    refine ⟨hu, Std.Refl.refl h, rfl, ⟨[], (List.append_nil _).symm, ?_⟩, ?_⟩
    · rw [hreset]
      exact handed_nil 256
    · rw [hreset]
      decide
  have hnone : Meets Host.next (fun _ c => c.1 ≠ .awaitExecution) h calls :=
    meets_of_forall hkept
  have harena : Always Host.next h.PageArena h calls := by
    refine always_of_meets (fun s c s' ha hne hs => ?_) hstart hnone
    obtain rfl := Option.some.inj hs
    exact ha.made hbanks hne
  exact ⟨harena.imp fun s ha => ha.ordered hbelow,
    harena.meets fun s c _ ha _ => ha.addressSurvives haligned hbelow hbanks c⟩

/-- Two launches of the sample stream, with a copy and a commence between them. -/
def sampleLaunches : List ObservedCall :=
  [(sampleLaunch false, fun _ => 2, (0, 0)), (sampleCopy false, fun _ => 2, (0, 0)),
    (.startExecution, fun _ => 2, (0, 0)), (sampleLaunch true, fun _ => 4, (1, 1))]

/-- The page of the sample stream is in order behind them. -/
theorem argument_page_ordered_sample :
    Always Host.next sampleStream.PageOrdered sampleStream sampleLaunches ∧
      Meets Host.next AddressSurvives sampleStream sampleLaunches := by
  have hfunctions : sampleStream.functions = fun _ => sampleFunction := by rfl
  refine argument_page_ordered initialized_sampleStream.usable (by rfl) (by decide +kernel)
    (by decide +kernel) (fun f c hc => ?_) fun c hc => ?_
  · rw [hfunctions] at hc
    obtain rfl := List.mem_singleton.mp hc
    decide
  · simp only [sampleLaunches, List.mem_cons, List.not_mem_nil, or_false] at hc
    rcases hc with rfl | rfl | rfl | rfl
    all_goals exact nofun

end LibreCuda
