import LibreCuda.Foundation.Packing
import LibreCuda.Queue.Arguments

/-! # Bytes of the argument region

The loop over the parameters packs the arguments into words, in the order of the parameters. The
offsets of these play no part in it.

* **`wp_writeParams_pack`**: the block that the loop writes.
* **`wp_launchFunction_constbuf0`**: what is in the buffer of constant bank 0 when a launch succeeds.
* **`constbuf0_byte_iff`**: which of its bytes are those of the arguments. -/

namespace LibreCuda

open Bytes Exec Packing

/-- The sizes that the loop over the parameters goes by. -/
def LibreCUFunction.sizes (f : LibreCUFunction) : List ℕ :=
  f.paramInfo.map fun p => p.paramSize.toNat

/-- The bytes that are written for all parameters. -/
def LibreCUFunction.paramBlock (f : LibreCUFunction) (params : ℕ → ℕ → NvU8) : List NvU8 :=
  pack 4 0 f.sizes params

/-- The memory behind a launch: the header and the parameters are written at an address, and the
descriptor behind them. -/
def LibreCUFunction.launchMem (f : LibreCUFunction) (mem : Memory) (ptr : NvU64)
    (header qmd : List NvU8) (params : ℕ → ℕ → NvU8) : Memory :=
  store (store (store mem ptr header) (ptr + constbuf0Bytes) (f.paramBlock params))
    (ptr + roundUp (f.constants.headD ⟨0, 0, 0⟩).size (1 <<< 8 : NvU64)) qmd

/-- The bytes that constant bank 0 of the last launch begins with: those of its argument region. -/
def Host.constbuf0 (h : Host) : ℕ → NvU8 :=
  load h.mem ((h.operations.getLast?).elim 0 fun o => o.args.1)

section Writes

variable {h : Host}

/-- **The loop over the parameters writes the packed arguments**, behind what it has written. -/
theorem wp_writeParams_pack (kernargsBuf : NvU64) (params : ℕ → ℕ → NvU8)
    (infos : List KernelParamInfo) (i j : ℕ) (h : Host)
    (hsize : ((infos.map fun p => p.paramSize.toNat).map (padded 4)).sum ≤ 2 ^ 64) :
    wp (writeParams kernargsBuf params infos i j)
      (fun _ h' => h'.mem = store h.mem (kernargsBuf + BitVec.ofNat 64 (4 * j))
        (pack 4 0 (infos.map fun p => p.paramSize.toNat) fun k => params (i + k)))
      (fun _ _ => True) h := by
  induction infos generalizing i j h with
  | nil =>
    rw [writeParams, wp_pure]
    exact (store_nil _ _).symm
  | cons p rest ih =>
    rw [List.map_cons, List.map_cons, List.sum_cons] at hsize
    rw [writeParams]
    split
    · rw [wp_throw]
      trivial
    · rename_i ws hws
      have hp : Readable p.paramSize.toNat := by
        by_contra hnot
        rw [(paramWords_eq_none_iff _ _).mpr hnot] at hws
        cases hws
      obtain ⟨hbytes, hlength⟩ := paramWords_of_readable hp hws
      have hpadded : (paramBytes p.paramSize.toNat (params i)).length = padded 4 p.paramSize.toNat :=
        length_paramBytes _ _
      rw [wp_bind, wp_modify]
      refine wp_mono (ih (i + 1) (j + ws.length) _ (by omega)) (fun _ h' hrest => ?_)
        (fun _ _ => id)
      rw [hrest]
      show store (store h.mem (kernargsBuf + 4 * BitVec.ofNat 64 j) (ofWords ws)) _ _ = _
      -- the words of this parameter end where the next one begins
      have hfirst : (4 : NvU64) * BitVec.ofNat 64 j = BitVec.ofNat 64 (4 * j) := by
        rw [BitVec.ofNat_mul]
        rfl
      have hnext : kernargsBuf + BitVec.ofNat 64 (4 * (j + ws.length)) =
          kernargsBuf + BitVec.ofNat 64 (4 * j) +
            BitVec.ofNat 64 (paramBytes p.paramSize.toNat (params i)).length := by
        rw [length_paramBytes, ← hlength, Nat.mul_add, BitVec.ofNat_add, BitVec.add_assoc]
      have hargs : (fun k => params (i + 1 + k)) = fun k => params (i + (k + 1)) := by
        funext k
        rw [Nat.add_assoc, Nat.add_comm 1 k]
      rw [hbytes, hfirst, hnext, store_append (by rw [hpadded, length_pack]; exact hsize), hargs]
      rfl

variable {f : LibreCUFunction}

theorem wp_fillKernArgs_pack (hsize : (f.sizes.map (padded 4)).sum ≤ 2 ^ 64) (grid block : Dim3)
    (params : ℕ → ℕ → NvU8) (numParams kernargsPointer size : NvU64) :
    wp (fillKernArgs f grid block params numParams kernargsPointer size)
      (fun _ h' => h'.mem = store (store h.mem kernargsPointer (ofWords (constbuf0Data grid block)))
        (kernargsPointer + constbuf0Bytes) (f.paramBlock params))
      (fun _ _ => True) h := by
  rw [fillKernArgs, wp_bind, wp_validate]
  split_ifs
  rw [wp_bind, wp_modify, wp_bind, wp_validate]
  split_ifs
  refine wp_mono (wp_writeParams_pack (kernargsPointer + constbuf0Bytes) params f.paramInfo 0 0 _
    hsize) (fun _ h' hpack => ?_) (fun _ _ => id)
  have hargs : (fun k => params (0 + k)) = params := by
    funext k
    rw [Nat.zero_add]
  rw [hpack, hargs, Nat.mul_zero, show BitVec.ofNat 64 0 = 0#64 from rfl, BitVec.add_zero]
  rfl

/-- **The arguments of a launch**: the header, and the packed arguments behind it. -/
theorem wp_writeKernArgs_pack (hsize : (f.sizes.map (padded 4)).sum ≤ 2 ^ 64) (grid block : Dim3)
    (params : ℕ → ℕ → NvU8) (numParams : NvU64) :
    wp (writeKernArgs f grid block params numParams)
      (fun ptr h' => h'.mem = store (store h.mem ptr (ofWords (constbuf0Data grid block)))
        (ptr + constbuf0Bytes) (f.paramBlock params))
      (fun _ _ => True) h := by
  unfold writeKernArgs
  split
  · rw [wp_throw]
    trivial
  rename_i c rest hc
  rw [wp_bind, allocKernArgs, wp_bind, wp_get]
  split
  · rw [wp_throw]
    trivial
  · show wp (do set _; pure _) _ _ h
    rw [wp_bind, wp_set, wp_pure, wp_bind]
    refine wp_mono (wp_fillKernArgs_pack hsize grid block params numParams _ _)
      (fun _ h' hpack => ?_) (fun _ _ => id)
    rw [wp_pure]
    exact hpack

/-- Where the next argument region begins. -/
def Host.kernargsPointer (h : Host) : NvU64 := h.queue.kernArgsPageVa + h.queue.kernArgsWriteIdx

theorem wp_performLaunch_constbuf0 (hsize : (f.sizes.map (padded 4)).sum ≤ 2 ^ 64)
    (grid block : Dim3) (sharedMemBytes : NvU32) (params : ℕ → ℕ → NvU8) (numParams : NvU64)
    (async : Bool) :
    wp (performLaunch f grid block sharedMemBytes params numParams async)
      (fun _ h' => h'.constbuf0 = load (f.launchMem h.mem h.kernargsPointer
        (ofWords (constbuf0Data grid block)) (ofWords ((List.range qmdWords).map (qmdData f grid
          block sharedMemBytes h.queue.currentSlmPerThread h.kernargsPointer))) params)
            h.kernargsPointer)
      (fun _ _ => True) h := by
  have hkept : Keeps Host.SameLocalMem (writeKernArgs f grid block params numParams) :=
    keeps_writeKernArgs f grid block params numParams
  rw [performLaunch, wp_bind]
  refine wp_mono (wp_and (wp_and (wp_writeKernArgs f grid block params numParams h) (hkept h))
    (wp_writeKernArgs_pack hsize grid block params numParams)) (fun ptr h₁ hargs => ?_)
    (fun _ _ _ => trivial)
  obtain ⟨⟨⟨-, c, rest, -, halloc⟩, hlocal⟩, hpack⟩ := hargs
  obtain rfl : ptr = h.kernargsPointer := halloc.ptr_eq
  rw [wp_bind]
  refine wp_mono (wp_checkLaunchDimensions f grid block sharedMemBytes h₁) (fun _ h₂ hsame => ?_)
    (fun _ _ _ => trivial)
  subst hsame
  rw [wp_bind, checkConstantBanks, wp_require]
  split_ifs
  rw [wp_bind]
  refine wp_mono (wp_enqueueLaunch_mem f grid block sharedMemBytes h.kernargsPointer async h₂)
    (fun _ h₃ hqmd => ?_) (fun _ _ _ => trivial)
  rw [wp_bind, wp_modify, wp_onTimeline]
  refine wp_trivial _ (fun _ t => ?_) (fun _ _ => trivial)
  have hlast : ((h₃.addOperation .compute async (h.kernargsPointer,
      kernargsSize (f.constants.headD ⟨0, 0, 0⟩).size)).setTimeline t).constbuf0 =
        load h₃.mem h.kernargsPointer := by
    unfold Host.constbuf0 Host.addOperation Host.setTimeline
    rw [List.getLast?_concat]
    rfl
  rw [hlast, hqmd, hpack, hlocal.currentSlmPerThread]
  rfl

/-- The descriptor of a launch, as bytes. -/
def Host.launchQmd (h : Host) (function : ℕ) (grid block : Dim3) (sharedMemBytes : NvU32) :
    List NvU8 :=
  ofWords ((List.range qmdWords).map (qmdData (h.functions function) grid block sharedMemBytes
    (h.afterGrowth function).queue.currentSlmPerThread h.kernargsPointer))

/-- **What a launch that succeeds leaves in its buffer.** -/
theorem wp_launchFunction_constbuf0 (hsig : h.timeline.timelineSignal ≠ 0) (function : ℕ)
    (hsize : ((h.functions function).sizes.map (padded 4)).sum ≤ 2 ^ 64) (grid block : Dim3)
    (sharedMemBytes : NvU32) (params : ℕ → ℕ → NvU8) (numParams : NvU64) (async : Bool) :
    wp (launchFunction (some function) grid block sharedMemBytes params numParams async)
      (fun _ h' => h'.constbuf0 = load ((h.functions function).launchMem h.mem h.kernargsPointer
        (ofWords (constbuf0Data grid block)) (h.launchQmd function grid block sharedMemBytes) params)
          h.kernargsPointer)
      (fun _ _ => True) h := by
  rw [launchFunction, wp_bind, wp_get, wp_bind, wp_validate]
  split_ifs
  rw [wp_bind]
  refine wp_mono (wp_and (wp_and (wp_prepareLaunch hsig function async)
    (wp_prepareLaunch_grows hsig function async)) (keepsMem_prepareLaunch function async h))
    (fun _ h₁ hprepared => ?_) (fun _ _ _ => trivial)
  obtain ⟨⟨⟨hq, -⟩, -, hsame, -⟩, hmem⟩ := hprepared
  have hptr : h₁.kernargsPointer = h.kernargsPointer := by
    rw [Host.kernargsPointer, hq.kernArgsPageVa, hq.kernArgsWriteIdx]
    rfl
  refine wp_mono (wp_performLaunch_constbuf0 hsize grid block sharedMemBytes params numParams async)
    (fun _ h' hbuf => ?_) (fun _ _ _ => trivial)
  rw [hbuf, hptr, hmem.mem, hsame.currentSlmPerThread]
  rfl

theorem length_launchQmd (function : ℕ) (grid block : Dim3) (sharedMemBytes : NvU32) :
    (h.launchQmd function grid block sharedMemBytes).length = 256 := by
  rw [Host.launchQmd, length_ofWords, List.length_map, List.length_range]
  rfl

end Writes

/-! ## Bytes of the buffer -/

/-- Where the descriptor begins in the argument region of a launch. -/
def LibreCUFunction.qmdOffset (f : LibreCUFunction) : ℕ :=
  (roundUp (f.constants.headD ⟨0, 0, 0⟩).size (1 <<< 8 : NvU64)).toNat

/-- It is rounded, so no descriptor wraps. -/
theorem qmdOffset_le (f : LibreCUFunction) : f.qmdOffset + 256 ≤ 2 ^ 64 := by
  have hlt := (f.constants.headD ⟨0, 0, 0⟩).size.isLt
  unfold LibreCUFunction.qmdOffset roundUp ceilDiv
  rw [BitVec.toNat_mul, BitVec.toNat_udiv]
  show _ / 256 * 256 % 2 ^ 64 + 256 ≤ 2 ^ 64
  have hsum := ((f.constants.headD ⟨0, 0, 0⟩).size + (1 <<< 8 : NvU64) - 1).isLt
  omega

/-- The distance of an offset to the descriptor. -/
theorem toNat_sub_qmd (f : LibreCUFunction) (ptr : NvU64) {o : ℕ} (ho : o < 2 ^ 64) :
    (ptr + BitVec.ofNat 64 o -
        (ptr + roundUp (f.constants.headD ⟨0, 0, 0⟩).size (1 <<< 8 : NvU64))).toNat =
      (2 ^ 64 - f.qmdOffset % 2 ^ 64 + o) % 2 ^ 64 := by
  have hsub := toNat_sub_add (ptr + BitVec.ofNat 64 o) ptr f.qmdOffset
  rwa [toNat_add_sub_self ptr ho, LibreCUFunction.qmdOffset, BitVec.ofNat_toNat,
    BitVec.setWidth_eq] at hsub

section Buffer

variable (f : LibreCUFunction) (mem : Memory) (ptr : NvU64) (header : List NvU8) {qmd : List NvU8}
  (params : ℕ → ℕ → NvU8) {y : ℕ}

/-- A byte under the descriptor is one of it. -/
theorem constbuf0_of_qmd (hqmd : qmd.length = 256) (hbehind : f.qmdOffset ≤ 352 + y)
    (hlt : 352 + y < f.qmdOffset + 256) :
    load (f.launchMem mem ptr header qmd params) ptr (352 + y) =
      (qmd[352 + y - f.qmdOffset]?).getD 0 := by
  have hwrap := qmdOffset_le f
  have hback := toNat_sub_qmd f ptr (o := 352 + y) (by omega)
  have hoffset : (2 ^ 64 - f.qmdOffset % 2 ^ 64 + (352 + y)) % 2 ^ 64 = 352 + y - f.qmdOffset := by
    omega
  rw [load, LibreCUFunction.launchMem, store, hback, hoffset, List.getElem?_eq_getElem (by omega)]
  rfl

/-- Any other byte behind the header is one of the packed arguments, or as it was. -/
theorem constbuf0_of_not_qmd (hqmd : qmd.length = 256) (hy : 352 + y < 2 ^ 64)
    (hout : ¬ (f.qmdOffset ≤ 352 + y ∧ 352 + y < f.qmdOffset + 256)) :
    load (f.launchMem mem ptr header qmd params) ptr (352 + y) =
      ((f.paramBlock params)[y]?).getD
        (store mem ptr header (ptr + BitVec.ofNat 64 (352 + y))) := by
  have hwrap := qmdOffset_le f
  have hparams : (ptr + BitVec.ofNat 64 (352 + y) - (ptr + constbuf0Bytes)).toNat = y := by
    show (ptr + BitVec.ofNat 64 (352 + y) - (ptr + BitVec.ofNat 64 352)).toNat = y
    rw [toNat_sub_add, toNat_add_sub_self ptr hy]
    omega
  have hback := toNat_sub_qmd f ptr hy
  rw [load, LibreCUFunction.launchMem, store_of_le (by rw [hqmd, hback]; omega), store, hparams]

/-- **A byte behind the header is that of an argument**, for all arguments, exactly where the packing
puts it and the descriptor does not. -/
theorem constbuf0_byte_iff (hqmd : qmd.length = 256) (hy : 352 + y < 2 ^ 64) {i j : ℕ} :
    (∀ params, load (f.launchMem mem ptr header qmd params) ptr (352 + y) = params i j) ↔
      ¬ (f.qmdOffset ≤ 352 + y ∧ 352 + y < f.qmdOffset + 256) ∧
        source 4 f.sizes y = some (i, j) := by
  have hlength : ∀ params, (f.paramBlock params).length = (f.sizes.map (padded 4)).sum :=
    fun params => length_pack 0 f.sizes params
  constructor
  · intro hall
    have hout : ¬ (f.qmdOffset ≤ 352 + y ∧ 352 + y < f.qmdOffset + 256) := by
      rintro ⟨hbehind, hlt⟩
      -- arguments that differ from the byte of the descriptor
      have hbyte := hall fun _ _ => (qmd[352 + y - f.qmdOffset]?).getD 0 + 1
      rw [constbuf0_of_qmd f mem ptr header _ hqmd hbehind hlt] at hbyte
      exact absurd hbyte (by simp)
    refine ⟨hout, ?_⟩
    by_cases hinside : y < (f.sizes.map (padded 4)).sum
    · have hbyte := hall fun k l => if k = i ∧ l = j then 1 else 0
      rw [constbuf0_of_not_qmd f mem ptr header _ hqmd hy hout, LibreCUFunction.paramBlock,
        getElem?_pack _ _ _ (by rw [length_pack]; exact hinside), Option.getD_some,
        if_pos ⟨rfl, rfl⟩] at hbyte
      cases hsource : source 4 f.sizes y with
      | none =>
        rw [hsource] at hbyte
        cases hbyte
      | some s =>
        rw [hsource] at hbyte
        by_cases hs : s.1 = i ∧ s.2 = j
        · rw [← hs.1, ← hs.2]
        · exact absurd (hbyte.symm.trans (if_neg hs)) (by decide)
    · -- arguments that differ from what was there
      have hbyte := hall fun _ _ => store mem ptr header (ptr + BitVec.ofNat 64 (352 + y)) + 1
      rw [constbuf0_of_not_qmd f mem ptr header _ hqmd hy hout,
        List.getElem?_eq_none (by rw [hlength]; exact Nat.not_lt.mp hinside),
        Option.getD_none] at hbyte
      exact absurd hbyte (by simp)
  · rintro ⟨hout, hsource⟩ params
    have hinside := lt_of_source hsource
    rw [constbuf0_of_not_qmd f mem ptr header _ hqmd hy hout, LibreCUFunction.paramBlock,
      getElem?_pack _ _ _ (by rw [length_pack]; exact hinside), hsource]
    rfl

end Buffer

end LibreCuda
