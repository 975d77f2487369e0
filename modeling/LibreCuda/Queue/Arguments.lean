import LibreCuda.Queue.Acceptance

/-! # Arguments of a launch

Which bytes of the caller's arguments a launch reads, and where it writes.

* **`readsByte_iff`**: a parameter of a size that is not refused is read in full.
* **`launchFunction_congr`**: a launch depends on the bytes it reads only.
* **`wp_launchFunction_areas`**: a launch writes to the header, the parameter words and the
  descriptor behind them only. -/

namespace LibreCuda

open Bytes Exec

/-! ## Bytes of parameters -/

instance (paramSize : ℕ) : Decidable (Readable paramSize) :=
  inferInstanceAs (Decidable (_ ∨ _))

/-- The bytes written for a parameter: those of the argument, filled up to whole words. -/
def paramBytes (paramSize : ℕ) (arg : ℕ → NvU8) : List NvU8 :=
  (List.range (4 * ((paramSize + 3) / 4))).map fun j => if j < paramSize then arg j else 0

@[simp] theorem length_paramBytes (paramSize : ℕ) (arg : ℕ → NvU8) :
    (paramBytes paramSize arg).length = 4 * ((paramSize + 3) / 4) := by
  simp [paramBytes]

/-- The bytes of whole words are those of the argument. -/
theorem paramBytes_of_words (n : ℕ) (arg : ℕ → NvU8) :
    paramBytes (4 * n) arg = (List.range (4 * n)).map arg := by
  rw [paramBytes, show 4 * ((4 * n + 3) / 4) = 4 * n by omega]
  refine List.map_congr_left fun j hj => ?_
  rw [if_pos (List.mem_range.mp hj)]

/-- **The words of a parameter**, as bytes; the cases of the source differ in how they read only. -/
theorem ofWords_paramWords {paramSize : ℕ} (h : Readable paramSize) (arg : ℕ → NvU8) :
    ∃ ws, paramWords paramSize arg = some ws ∧ ofWords ws = paramBytes paramSize arg := by
  unfold paramWords
  split_ifs with height hfour htwo hone hodd
  · subst height
    refine ⟨_, rfl, ?_⟩
    rw [paramBytes_of_words 2]
    exact ofWords_wordAt arg 2
  · subst hfour
    refine ⟨_, rfl, ?_⟩
    rw [paramBytes_of_words 1]
    exact ofWords_wordAt arg 1
  · subst htwo
    refine ⟨_, rfl, ?_⟩
    have hword : (arg 1 ++ arg 0).setWidth 32 = (0 : NvU8) ++ (0 : NvU8) ++ arg 1 ++ arg 0 := by
      ext i hi
      simp only [BitVec.getElem_setWidth, BitVec.getLsbD_append]
      grind
    rw [hword, ofWords_cons, ofWord_append]
    rfl
  · subst hone
    refine ⟨_, rfl, ?_⟩
    have hword : (arg 0).setWidth 32 = (0 : NvU8) ++ (0 : NvU8) ++ (0 : NvU8) ++ arg 0 := by
      ext i hi
      simp only [BitVec.getElem_setWidth]
      grind
    rw [hword, ofWords_cons, ofWord_append]
    rfl
  · unfold Readable at h
    omega
  · refine ⟨_, rfl, ?_⟩
    obtain ⟨n, rfl⟩ : ∃ n, paramSize = 4 * n := ⟨paramSize / 4, by omega⟩
    rw [paramBytes_of_words, Nat.mul_div_cancel_left _ (by omega)]
    exact ofWords_wordAt arg n

/-- The words of a parameter are its bytes. -/
theorem paramWords_of_readable {paramSize : ℕ} (h : Readable paramSize) {arg : ℕ → NvU8}
    {ws : List NvU32} (hws : paramWords paramSize arg = some ws) :
    ofWords ws = paramBytes paramSize arg ∧ ws.length = (paramSize + 3) / 4 := by
  obtain ⟨ws', hws', hbytes⟩ := ofWords_paramWords h arg
  obtain rfl := Option.some.inj (hws.symm.trans hws')
  have hlength := congrArg List.length hbytes
  rw [length_ofWords, length_paramBytes] at hlength
  exact ⟨hbytes, by omega⟩

/-! ## Reads -/

/-- Reading a parameter of a size reads the byte: what is written for it depends on it. -/
def ReadsByte (paramSize j : ℕ) : Prop :=
  ∃ arg arg' : ℕ → NvU8, (∀ k, k ≠ j → arg k = arg' k) ∧
    paramWords paramSize arg ≠ paramWords paramSize arg'

/-- What is written for a parameter is what its bytes are. -/
theorem paramWords_eq_iff {paramSize : ℕ} (h : Readable paramSize) {arg arg' : ℕ → NvU8} :
    paramWords paramSize arg = paramWords paramSize arg' ↔ ∀ j < paramSize, arg j = arg' j := by
  obtain ⟨ws, hws, hbytes⟩ := ofWords_paramWords h arg
  obtain ⟨ws', hws', hbytes'⟩ := ofWords_paramWords h arg'
  rw [hws, hws', Option.some_inj]
  constructor
  · intro heq j hj
    rw [heq, hbytes'] at hbytes
    have hget := congrArg (fun l => l[j]?) hbytes
    simp only [paramBytes] at hget
    rw [List.getElem?_map, List.getElem?_map, List.getElem?_range (by omega), Option.map_some,
      Option.map_some, if_pos hj, if_pos hj] at hget
    exact (Option.some.inj hget).symm
  · intro hargs
    apply ofWords_injective
    rw [hbytes, hbytes', paramBytes, paramBytes]
    refine List.map_congr_left fun j _ => ?_
    split_ifs with hj
    · exact hargs j hj
    · rfl

/-- **A parameter of a size that is not refused is read in full**, and nothing else. -/
theorem readsByte_iff (paramSize j : ℕ) : ReadsByte paramSize j ↔ Readable paramSize ∧ j < paramSize := by
  constructor
  · rintro ⟨arg, arg', hsame, hne⟩
    have hreadable : Readable paramSize := by
      by_contra hnot
      exact hne (((paramWords_eq_none_iff _ arg).mpr hnot).trans
        ((paramWords_eq_none_iff _ arg').mpr hnot).symm)
    refine ⟨hreadable, ?_⟩
    by_contra hge
    exact hne ((paramWords_eq_iff hreadable).mpr fun k hk => hsame k (by omega))
  · rintro ⟨hreadable, hj⟩
    refine ⟨fun _ => 0, Function.update (fun _ => 0) j 1, fun k hk => ?_, fun heq => ?_⟩
    · rw [Function.update_of_ne hk]
    · have hbyte := (paramWords_eq_iff hreadable).mp heq j hj
      rw [Function.update_self] at hbyte
      exact absurd hbyte (by decide)

/-- The sizes of the parameters in front of one are not refused. -/
def ReadableBefore (infos : List KernelParamInfo) (i : ℕ) : Prop :=
  ∀ p ∈ infos.take i, Readable p.paramSize.toNat

/-- The loop over the parameters reads a byte of an argument. -/
def LoopReads (infos : List KernelParamInfo) (i j : ℕ) : Prop :=
  ∃ p, infos[i]? = some p ∧ ReadableBefore infos i ∧ ReadsByte p.paramSize.toNat j

/-- The launch gets to its parameters. -/
structure Host.ReachesParams (h : Host) (function : ℕ) (numParams : NvU64) : Prop where
  count : numParams.toNat = (h.functions function).paramInfo.length
  localMem : h.GrowsLocalMem function
  constants : (h.functions function).constants ≠ []
  fits : ¬ kernargsPageSize < h.queue.kernArgsWriteIdx +
    kernargsSize ((h.functions function).constants.headD ⟨0, 0, 0⟩).size
  header : constbuf0Bytes < kernargsSize ((h.functions function).constants.headD ⟨0, 0, 0⟩).size
  params : constbuf0Bytes + numParams * 2 * 4 <
    kernargsSize ((h.functions function).constants.headD ⟨0, 0, 0⟩).size

/-- **A launch reads byte `j` of argument `i`**: it gets to its parameters, and the loop over them
does. -/
def Host.LaunchReads (h : Host) (function : ℕ) (numParams : NvU64) (i j : ℕ) : Prop :=
  h.ReachesParams function numParams ∧ LoopReads (h.functions function).paramInfo i j

/-- **The loop over the parameters depends on the bytes it reads only.** -/
theorem writeParams_congr (kernargsBuf : NvU64) {params params' : ℕ → ℕ → NvU8}
    (infos : List KernelParamInfo) (i j : ℕ)
    (h : ∀ k b, LoopReads infos k b → params (i + k) b = params' (i + k) b) :
    writeParams kernargsBuf params infos i j = writeParams kernargsBuf params' infos i j := by
  induction infos generalizing i j with
  | nil => rfl
  | cons p rest ih =>
    rw [writeParams, writeParams]
    by_cases hp : Readable p.paramSize.toNat
    · have hwords : paramWords p.paramSize.toNat (params i) =
          paramWords p.paramSize.toNat (params' i) := by
        refine (paramWords_eq_iff hp).mpr fun b hb => ?_
        refine h 0 b ⟨p, rfl, fun q hq => absurd hq List.not_mem_nil, ?_⟩
        exact (readsByte_iff _ b).mpr ⟨hp, hb⟩
      rw [hwords]
      split
      · rfl
      · rename_i ws hws
        have hrest : writeParams kernargsBuf params rest (i + 1) (j + ws.length) =
            writeParams kernargsBuf params' rest (i + 1) (j + ws.length) := by
          refine ih (i + 1) (j + ws.length) fun k b hreads => ?_
          obtain ⟨q, hq, hbefore, hbyte⟩ := hreads
          rw [show i + 1 + k = i + (k + 1) by omega]
          refine h (k + 1) b ⟨q, hq, ?_, hbyte⟩
          intro r hr
          rw [List.take_succ_cons] at hr
          rcases List.mem_cons.mp hr with rfl | hr
          · exact hp
          · exact hbefore r hr
        rw [hrest]
    · rw [(paramWords_eq_none_iff _ (params i)).mpr hp, (paramWords_eq_none_iff _ (params' i)).mpr hp]

section Congruence

variable {params params' : ℕ → ℕ → NvU8} {h : Host}

theorem fillKernArgs_congr (f : LibreCUFunction) (grid block : Dim3)
    (numParams kernargsPointer size : NvU64)
    (hreads : constbuf0Bytes < size → constbuf0Bytes + numParams * 2 * 4 < size →
      ∀ i j, LoopReads f.paramInfo i j → params i j = params' i j) :
    call (fillKernArgs f grid block params numParams kernargsPointer size) h =
      call (fillKernArgs f grid block params' numParams kernargsPointer size) h := by
  rw [fillKernArgs, fillKernArgs]
  refine call_bind_congr fun _ h₁ hheader => call_bind_congr fun _ h₂ _ =>
    call_bind_congr fun _ h₃ hparams => ?_
  obtain ⟨hheader, -⟩ := require_eq_ok hheader
  obtain ⟨hparams, -⟩ := require_eq_ok hparams
  rw [writeParams_congr _ f.paramInfo 0 0 fun k b hk => ?_]
  rw [Nat.zero_add]
  exact hreads (of_decide_eq_true hheader) (of_decide_eq_true hparams) k b hk

theorem writeKernArgs_congr (f : LibreCUFunction) (grid block : Dim3) (numParams : NvU64)
    (hreads : f.constants ≠ [] →
      ¬ kernargsPageSize <
        h.queue.kernArgsWriteIdx + kernargsSize (f.constants.headD ⟨0, 0, 0⟩).size →
      constbuf0Bytes < kernargsSize (f.constants.headD ⟨0, 0, 0⟩).size →
      constbuf0Bytes + numParams * 2 * 4 < kernargsSize (f.constants.headD ⟨0, 0, 0⟩).size →
      ∀ i j, LoopReads f.paramInfo i j → params i j = params' i j) :
    call (writeKernArgs f grid block params numParams) h =
      call (writeKernArgs f grid block params' numParams) h := by
  unfold writeKernArgs
  split
  · rfl
  rename_i c rest hc
  refine call_bind_congr fun ptr h₁ halloc => ?_
  have hfits : ¬ kernargsPageSize < h.queue.kernArgsWriteIdx + kernargsSize c.size := by
    rcases wp_call halloc (wp_allocKernArgs_fits (kernargsSize c.size) h) with
      ⟨_, -, hfits⟩ | ⟨_, herr, -⟩
    · exact hfits
    · cases herr
  have hhead : f.constants.headD ⟨0, 0, 0⟩ = c := by
    rw [hc]
    rfl
  rw [hhead] at hreads
  have hne : f.constants ≠ [] := by
    rw [hc]
    exact List.cons_ne_nil c rest
  rw [call_bind, call_bind, fillKernArgs_congr f grid block numParams ptr _ (hreads hne hfits)]

/-- **A launch depends on the bytes it reads only**: nothing else of the arguments can be read. -/
theorem launchFunction_congr (hsig : h.timeline.timelineSignal ≠ 0) (function : ℕ)
    (grid block : Dim3) (sharedMemBytes : NvU32) (numParams : NvU64) (async : Bool)
    (hreads : ∀ i j, h.LaunchReads function numParams i j → params i j = params' i j) :
    call (launchFunction (some function) grid block sharedMemBytes params numParams async) h =
      call (launchFunction (some function) grid block sharedMemBytes params' numParams async) h := by
  rw [launchFunction, launchFunction, call_bind_ok (call_get h), call_bind_ok (call_get h)]
  refine call_bind_congr fun _ h₀ hcount => ?_
  obtain ⟨hcount, hsame⟩ := require_eq_ok hcount
  rw [hsame]
  refine call_bind_congr fun _ h₁ hprepare => ?_
  have hprepared : h.GrowsLocalMem function ∧
      h₁.queue.kernArgsWriteIdx = h.queue.kernArgsWriteIdx := by
    rcases wp_call hprepare (wp_and (wp_prepareLaunch hsig function async)
      (wp_prepareLaunch_grows hsig function async)) with ⟨_, -, ⟨hq, -⟩, hgrows, -⟩ | ⟨_, herr, -⟩
    · exact ⟨hgrows, hq.kernArgsWriteIdx⟩
    · cases herr
  obtain ⟨hgrows, hidx⟩ := hprepared
  rw [performLaunch, performLaunch, call_bind, call_bind,
    writeKernArgs_congr (h.functions function) grid block numParams
      fun hconstants hfits hheader hparams i j hloop => ?_]
  rw [hidx] at hfits
  exact hreads i j ⟨⟨beq_iff_eq.mp hcount, hgrows, hconstants, hfits, hheader, hparams⟩, hloop⟩

end Congruence

/-! ## Writes -/

/-- The words written for the parameters. -/
def LibreCUFunction.numWords (f : LibreCUFunction) : ℕ :=
  (f.paramInfo.map fun p => (p.paramSize.toNat + 3) / 4).sum

section Writes

variable {h : Host}

/-- **The loop over the parameters writes to their words only.** -/
theorem wp_writeParams_mem (kernargsBuf : NvU64) (params : ℕ → ℕ → NvU8)
    (infos : List KernelParamInfo) (i j : ℕ) (h : Host) :
    wp (writeParams kernargsBuf params infos i j)
      (fun _ h' => ∀ x, x ∉ span kernargsBuf
        (4 * (j + (infos.map fun p => (p.paramSize.toNat + 3) / 4).sum)) → h'.mem x = h.mem x)
      (fun _ _ => True) h := by
  induction infos generalizing i j h with
  | nil =>
    rw [writeParams, wp_pure]
    exact fun x _ => rfl
  | cons p rest ih =>
    rw [writeParams]
    split
    · rw [wp_throw]
      trivial
    · rename_i ws hws
      have hp : Readable p.paramSize.toNat := by
        by_contra hnot
        rw [(paramWords_eq_none_iff _ _).mpr hnot] at hws
        cases hws
      obtain ⟨-, hlength⟩ := paramWords_of_readable hp hws
      have hoffset : 4 * BitVec.ofNat 64 j = BitVec.ofNat 64 (4 * j) := by
        rw [BitVec.ofNat_mul]
        rfl
      rw [wp_bind, wp_modify]
      refine wp_mono (ih (i + 1) (j + ws.length) _) (fun _ h' hrest x hx => ?_) (fun _ _ => id)
      rw [List.map_cons, List.sum_cons] at hx
      rw [hrest x (by rw [hlength, Nat.add_assoc]; exact hx)]
      refine store_of_not_mem_span fun hin => hx ?_
      rw [length_ofWords, hlength, hoffset] at hin
      exact mem_span_of_add (by omega) hin

theorem wp_fillKernArgs_mem (f : LibreCUFunction) (grid block : Dim3) (params : ℕ → ℕ → NvU8)
    (numParams kernargsPointer size : NvU64) :
    wp (fillKernArgs f grid block params numParams kernargsPointer size)
      (fun _ h' => ∀ x, x ∉ span kernargsPointer 352 →
        x ∉ span (kernargsPointer + constbuf0Bytes) (4 * f.numWords) → h'.mem x = h.mem x)
      (fun _ _ => True) h := by
  rw [fillKernArgs, wp_bind, wp_validate]
  split_ifs
  · rw [wp_bind, wp_modify, wp_bind, wp_validate]
    split_ifs
    · refine wp_mono (wp_writeParams_mem _ params f.paramInfo 0 0 _)
        (fun _ h' hwords x hheader hparams => ?_) (fun _ _ => id)
      have hlength : (ofWords (constbuf0Data grid block)).length = 352 := by
        rw [length_ofWords]
        rfl
      rw [hwords x (by rw [Nat.zero_add]; exact hparams)]
      exact store_of_not_mem_span (by rw [hlength]; exact hheader)

/-- **The arguments are written to the header and to the parameter words.** -/
theorem wp_writeKernArgs_mem (f : LibreCUFunction) (grid block : Dim3) (params : ℕ → ℕ → NvU8)
    (numParams : NvU64) :
    wp (writeKernArgs f grid block params numParams)
      (fun ptr h' => ∀ x, x ∉ span ptr 352 → x ∉ span (ptr + constbuf0Bytes) (4 * f.numWords) →
        h'.mem x = h.mem x)
      (fun _ _ => True) h := by
  unfold writeKernArgs
  split
  · rw [wp_throw]
    trivial
  rename_i c rest hc
  rw [wp_bind, allocKernArgs, wp_bind, wp_get]
  split
  · rw [wp_throw]
    trivial
  · show wp (do set _; pure _) _ _ h
    rw [wp_bind, wp_set, wp_pure, wp_bind]
    refine wp_mono (wp_fillKernArgs_mem f grid block params numParams _ _) (fun _ h' hmem => ?_)
      (fun _ _ => id)
    rw [wp_pure]
    exact hmem

/-- The memory did not change. -/
structure Host.SameMem (h h' : Host) : Prop where
  mem : h'.mem = h.mem

instance : IsPreorder Host Host.SameMem where
  refl _ := ⟨rfl⟩
  trans _ _ _ h h' := ⟨h'.mem.trans h.mem⟩

theorem keepsMem_onTimeline {α : Type} (x : Exec CommandTimeline Failure α) :
    Keeps Host.SameMem (onTimeline x) := by
  intro h
  rw [wp_onTimeline]
  exact wp_trivial x (fun _ _ => ⟨rfl⟩) fun _ _ => ⟨rfl⟩

theorem keepsMem_onVm {α : Type} (x : Exec Vm Failure α) : Keeps Host.SameMem (onVm x) := by
  intro h
  rw [onVm, wp_zoom]
  exact wp_trivial x (fun _ _ => ⟨rfl⟩) fun _ _ => ⟨rfl⟩

/-- Preparing a launch leaves the memory alone. -/
theorem keepsMem_prepareLaunch (function : ℕ) (async : Bool) :
    Keeps Host.SameMem (prepareLaunch function async) := by
  have hgrow : ∀ slm, Keeps Host.SameMem (growLocalMem function slm) := fun slm =>
    (keeps_modify fun _ => ⟨rfl⟩).bind fun _ => (keepsMem_onVm _).bind fun _ =>
      (keeps_modify fun _ => ⟨rfl⟩).bind fun _ => (keepsMem_onTimeline _).bind fun _ =>
        keepsMem_onTimeline _
  have hensure : Keeps Host.SameMem (ensureEnoughLocalMem function) :=
    keeps_get.bind fun _ => Keeps.onlyIf (((keepsMem_onVm _).onlyIf _).bind fun _ => hgrow _) _
  exact (keepsMem_onTimeline _).bind fun _ => hensure.bind fun _ => keeps_get.bind fun _ =>
    keepsMem_onTimeline _

/-- The areas of a launch are all it wrote to: the header, the parameter words, and the descriptor.
-/
structure Host.WritesAreas (h h' : Host) (f : LibreCUFunction) (async : Bool) (ptr : NvU64) : Prop
    where
  region : ∃ number, h'.operations = h.operations ++
    [⟨number, .compute, async, (ptr, kernargsSize (f.constants.headD ⟨0, 0, 0⟩).size)⟩]
  mem : ∀ x, x ∉ span ptr 352 → x ∉ span (ptr + constbuf0Bytes) (4 * f.numWords) →
    x ∉ span (ptr + roundUp (f.constants.headD ⟨0, 0, 0⟩).size (1 <<< 8 : NvU64)) 256 →
      h'.mem x = h.mem x

theorem wp_performLaunch_areas (f : LibreCUFunction) (grid block : Dim3) (sharedMemBytes : NvU32)
    (params : ℕ → ℕ → NvU8) (numParams : NvU64) (async : Bool) :
    wp (performLaunch f grid block sharedMemBytes params numParams async)
      (fun _ h' => ∃ ptr, h.WritesAreas h' f async ptr) (fun _ _ => True) h := by
  rw [performLaunch, wp_bind]
  refine wp_mono (wp_and (wp_writeKernArgs f grid block params numParams h)
    (wp_writeKernArgs_mem f grid block params numParams)) (fun ptr h₁ hargs => ?_)
    (fun _ _ _ => trivial)
  obtain ⟨⟨hstill, -⟩, hmem⟩ := hargs
  rw [wp_bind]
  refine wp_mono (wp_checkLaunchDimensions f grid block sharedMemBytes h₁) (fun _ h₂ hsame => ?_)
    (fun _ _ _ => trivial)
  subst hsame
  rw [wp_bind, checkConstantBanks, wp_require]
  split_ifs
  · rw [wp_bind]
    refine wp_mono (wp_and (wp_enqueueLaunch f grid block sharedMemBytes ptr async h₂)
      (wp_enqueueLaunch_mem f grid block sharedMemBytes ptr async h₂)) (fun _ h₃ hqmd => ?_)
      (fun _ _ _ => trivial)
    obtain ⟨⟨hq, -⟩, hqmd⟩ := hqmd
    rw [wp_bind, wp_modify, wp_onTimeline]
    refine wp_trivial _ (fun _ t => ⟨ptr, ⟨h₃.timeline.timelineSteps + 1, ?_⟩,
      fun x hheader hparams hdescriptor => ?_⟩) (fun _ _ => trivial)
    · show h₃.operations ++ [_] = _
      rw [hq.operations, hstill.operations]
    · show h₃.mem x = h.mem x
      have hlength : (ofWords ((List.range qmdWords).map (qmdData f grid block sharedMemBytes
          h₂.queue.currentSlmPerThread ptr))).length = 256 := by
        rw [length_ofWords, List.length_map, List.length_range]
        rfl
      rw [hqmd, store_of_not_mem_span (by rw [hlength]; exact hdescriptor), hmem x hheader hparams]

/-- **A launch writes to its areas only.** -/
theorem wp_launchFunction_areas (function : ℕ) (grid block : Dim3)
    (sharedMemBytes : NvU32) (params : ℕ → ℕ → NvU8) (numParams : NvU64) (async : Bool)
    (hsig : h.timeline.timelineSignal ≠ 0) :
    wp (launchFunction (some function) grid block sharedMemBytes params numParams async)
      (fun _ h' => ∃ ptr, h.WritesAreas h' (h.functions function) async ptr) (fun _ _ => True)
      h := by
  rw [launchFunction, wp_bind, wp_get, wp_bind, wp_validate]
  split_ifs
  · rw [wp_bind]
    refine wp_mono (wp_and (wp_prepareLaunch hsig function async)
      (keepsMem_prepareLaunch function async h)) (fun _ h₁ hprepared => ?_) (fun _ _ _ => trivial)
    obtain ⟨⟨hq, -⟩, hmem⟩ := hprepared
    refine wp_mono (wp_performLaunch_areas (h.functions function) grid block sharedMemBytes params
      numParams async) (fun _ h' hareas => ?_) (fun _ _ _ => trivial)
    obtain ⟨ptr, ⟨number, hops⟩, hareas⟩ := hareas
    refine ⟨ptr, ⟨number, ?_⟩, fun x hheader hparams hdescriptor => ?_⟩
    · rw [hops, hq.operations]
    · rw [hareas x hheader hparams hdescriptor]
      exact congrFun hmem.mem x

end Writes

end LibreCuda
