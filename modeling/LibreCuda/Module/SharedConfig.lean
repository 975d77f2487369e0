import LibreCuda.Driver.Encoding
import LibreCuda.Module.SharedMemory
import LibreCuda.Runtime.Contexts

/-! # Shared-memory configuration of a launch

A launch asks for an amount of shared memory and for a configuration of the multiprocessor that has
room for it. The amount is the larger of what was recorded for the function, which
`libreCuFuncSetAttribute` can raise, and of what is asked for dynamically; nothing compares the
latter with the largest configuration.

* **`sharedMem_of_setAttributes`**: what a sequence of attribute calls leaves in the record.
* **`sharedConfig_of_launch`**: the fields of the configuration in the descriptor of a launch.
* **`shared_config_consistent_iff`**: when they are consistent. -/

namespace LibreCuda

open Bytes Exec QmdField

/-! ## Function attributes -/

/-- `LibreCuDeviceAttribute`. -/
inductive LibreCuDeviceAttribute
  | maxSharedMemoryPerBlock
  | computeCapabilityMajor
  | computeCapabilityMinor
  | maxSharedMemoryPerBlockOptin
  deriving DecidableEq, Repr

/-- `LibreCuFunctionAttribute`, with the values that name none. -/
inductive LibreCuFunctionAttribute
  | maxDynamicSharedSizeBytes
  | other
  deriving DecidableEq, Repr

/-- The version of the multiprocessors in decimal digits (`un_hexed`). -/
def unHexed (data : NvU32) : NvU32 := data % 16 + data / 16 % 16 * 10 + data / 256 % 16 * 100

/-- What a block may have of shared memory on a GPU of the architecture. -/
def maxSharedMemoryOptin (architecture : NvU32) : NvU32 :=
  if architecture = 0x160 then 65536
  else if architecture = 0x140 then 98304
  else if architecture = 0x170 ∨ architecture = 0x190 then 101376
  else 49152

/-- `libreCuDeviceGetAttribute` for a device with the given entry for the version of its
multiprocessors. -/
def libreCuDeviceGetAttribute (attrib : LibreCuDeviceAttribute) (smVersion : NvU32 × NvU32) :
    Driver NvU32 := do
  match attrib with
  | .computeCapabilityMajor | .computeCapabilityMinor =>
    validate (smVersion.1 == 0xC) .unknown
    let major := unHexed smVersion.2 / 100
    validate (major != 0) .notFound
    pure (if attrib = .computeCapabilityMajor then major else unHexed smVersion.2 % 100)
  | .maxSharedMemoryPerBlock => pure 49152
  | .maxSharedMemoryPerBlockOptin =>
    let architecture ← onVm rmCtrl
    pure (maxSharedMemoryOptin architecture)

/-- `libreCuFuncSetAttribute` in the current context; the values are signed. -/
def libreCuFuncSetAttribute (smVersion : NvU32 × NvU32) (function : Option ℕ)
    (attrib : LibreCuFunctionAttribute) (value : NvU32) : Driver Unit := do
  match function with
  | none => throw (.status .invalidValue)
  | some function =>
    match attrib with
    | .maxDynamicSharedSizeBytes =>
      let maxSmem ← libreCuDeviceGetAttribute .maxSharedMemoryPerBlockOptin smVersion
      validate (value.toInt ≤ maxSmem.toInt) .invalidValue
      -- the maximum of unsigned words: a negative value is a large one
      modify fun h => { h with
        functions := Function.update h.functions function
          { h.functions function with
            sharedMem := maxOf (h.functions function).sharedMem value } }
    | .other => throw (.status .invalidValue)

/-- A call with an attribute raises the record to the value, if that is not above what a block may
have; a call that fails leaves the functions alone. -/
theorem wp_libreCuFuncSetAttribute (smVersion : NvU32 × NvU32) (function : ℕ)
    (attrib : LibreCuFunctionAttribute) (value : NvU32) (h : Host) :
    wp (libreCuFuncSetAttribute smVersion (some function) attrib value)
      (fun _ h' => value.toInt ≤ 101376 ∧ h'.functions = Function.update h.functions function
        { h.functions function with sharedMem := maxOf (h.functions function).sharedMem value })
      (fun _ h' => h'.functions = h.functions) h := by
  unfold libreCuFuncSetAttribute
  cases attrib with
  | other =>
    rw [wp_throw]
  | maxDynamicSharedSizeBytes =>
    simp only [libreCuDeviceGetAttribute, wp_bind, wp_validate, wp_modify, wp_pure]
    rw [wp_onVm]
    refine wp_trivial _ (fun architecture v => ?_) (fun _ _ => rfl)
    split
    · rename_i hle
      refine ⟨le_trans (of_decide_eq_true hle) ?_, rfl⟩
      unfold maxSharedMemoryOptin
      split_ifs <;> decide
    · rfl

/-- A sequence of attribute calls for a function. -/
def Host.setAttributes (smVersion : NvU32 × NvU32) (function : ℕ) (h : Host)
    (calls : List (LibreCuFunctionAttribute × NvU32)) : Host :=
  calls.foldl (fun h c => (call (libreCuFuncSetAttribute smVersion (some function) c.1 c.2) h).2) h

/-- The values of the calls that succeed. -/
def Host.acceptedValues (smVersion : NvU32 × NvU32) (function : ℕ) :
    Host → List (LibreCuFunctionAttribute × NvU32) → List NvU32
  | _, [] => []
  | h, c :: calls =>
    let (r, h') := call (libreCuFuncSetAttribute smVersion (some function) c.1 c.2) h
    match r with
    | .ok _ => c.2 :: h'.acceptedValues smVersion function calls
    | .error _ => h'.acceptedValues smVersion function calls

section Attributes

variable (smVersion : NvU32 × NvU32) (function : ℕ)

/-- **What the calls leave in the record**: the largest value, as an unsigned word. -/
theorem function_of_setAttributes (h : Host) (calls : List (LibreCuFunctionAttribute × NvU32)) :
    (h.setAttributes smVersion function calls).functions function =
      { h.functions function with
        sharedMem := (h.acceptedValues smVersion function calls).foldl maxOf
          (h.functions function).sharedMem } := by
  induction calls generalizing h with
  | nil => rfl
  | cons c calls ih =>
    rcases hcall : call (libreCuFuncSetAttribute smVersion (some function) c.1 c.2) h with ⟨r, h'⟩
    have hstep : h.setAttributes smVersion function (c :: calls) =
        h'.setAttributes smVersion function calls := by
      rw [Host.setAttributes, List.foldl_cons, hcall]
      rfl
    rw [hstep, ih h']
    rcases wp_call hcall (wp_libreCuFuncSetAttribute smVersion function c.1 c.2 h) with
      ⟨_, rfl, -, hfunctions⟩ | ⟨_, rfl, hfunctions⟩
    · rw [Host.acceptedValues, hcall, hfunctions, Function.update_self]
      rfl
    · rw [Host.acceptedValues, hcall, hfunctions]

/-- Accepted values are not above the largest that a block may have. -/
theorem toInt_le_of_accepted {h : Host} {calls : List (LibreCuFunctionAttribute × NvU32)} :
    ∀ value ∈ h.acceptedValues smVersion function calls, value.toInt ≤ 101376 := by
  induction calls generalizing h with
  | nil => exact fun value hvalue => absurd hvalue List.not_mem_nil
  | cons c calls ih =>
    rcases hcall : call (libreCuFuncSetAttribute smVersion (some function) c.1 c.2) h with ⟨r, h'⟩
    rcases wp_call hcall (wp_libreCuFuncSetAttribute smVersion function c.1 c.2 h) with
      ⟨_, rfl, hle, -⟩ | ⟨_, rfl, -⟩
    · rw [Host.acceptedValues, hcall]
      exact List.forall_mem_cons.mpr ⟨hle, ih⟩
    · rw [Host.acceptedValues, hcall]
      exact ih

end Attributes

/-! ## Fields under a constant bank

The numbers of constant banks are not checked, so that the fields of a bank can lie over those of
the configuration: bank −8 over the size of the shared memory and two of the configurations, bank −6
over the third. -/

/-- A field as a number. -/
theorem QmdField.InWord.toNat_get {g : QmdField} (h : g.InWord) (q : QmdData) :
    (g.get q).toNat = (q g.word).toNat / 2 ^ g.shift % 2 ^ g.width := by
  rw [h.get_eq, Fields.Field.toNat_get h.fits]
  rfl

/-- A write as a number. -/
theorem QmdField.InWord.toNat_set {g : QmdField} (h : g.InWord) (n : NvU64) (q : QmdData) :
    (fldSetDrfNum g n q g.word).toNat = 2 ^ g.shift * (2 ^ g.width *
      ((q g.word).toNat / 2 ^ g.shift / 2 ^ g.width) +
        (n.setWidth 32 : NvU32).toNat % 2 ^ g.width) + (q g.word).toNat % 2 ^ g.shift := by
  rw [h.set_eq]
  exact Fields.Field.toNat_set h.fits _ _

/-- No field of the bank shares a bit with the field. -/
def ApartFromBank (g : QmdField) (i : NvU32) : Prop := ∀ b ∈ bankFields i, g.Apart b

instance (g : QmdField) (i : NvU32) : Decidable (ApartFromBank g i) :=
  inferInstanceAs (Decidable (∀ _ ∈ _, _))

/-- Of the banks within the descriptor, only one lies over the field. -/
def OnlyUnder (g : QmdField) (i : NvU32) : Prop :=
  ∀ k < 32, BitVec.ofNat 32 k - 16 ≠ i → ApartFromBank g (BitVec.ofNat 32 k - 16)

instance (g : QmdField) (i : NvU32) : Decidable (OnlyUnder g i) :=
  inferInstanceAs (Decidable (∀ k < 32, _))

theorem get_setConstantBuffer_of_apart {g : QmdField} {c : KernelConstantInfo}
    (h : ApartFromBank g c.constNr) (q : QmdData) :
    g.get (setConstantBuffer q c) = g.get q := by
  unfold setConstantBuffer fldSetDrfNum32
  rw [get_fldSetDrfNum_of_apart (h _ (by simp [bankFields])),
    get_fldSetDrfNum_of_apart (h _ (by simp [bankFields])),
    get_fldSetDrfNum_of_apart (h _ (by simp [bankFields])),
    get_fldSetDrfNum_of_apart (h _ (by simp [bankFields]))]

section Overlaid

variable {g : QmdField} {i : NvU32} {value : ℕ → KernelConstantInfo → ℕ}

/-- **A field under one bank** is what the last entry of the bank leaves of it. -/
theorem toNat_get_foldl (honly : OnlyUnder g i)
    (hbank : ∀ c : KernelConstantInfo, c.constNr = i → ∀ q : QmdData,
      (g.get (setConstantBuffer q c)).toNat = value (g.get q).toNat c)
    (habsorb : ∀ x c d, value (value x c) d = value x d) {f : LibreCUFunction}
    (h : f.constants.all KernelConstantInfo.inQmd = true) (q : QmdData) :
    (g.get (f.constants.foldl setConstantBuffer q)).toNat =
      ((f.lastBank i).map (value (g.get q).toNat)).getD (g.get q).toNat := by
  rw [LibreCUFunction.lastBank]
  generalize f.constants = constants at h
  -- the entry written last is the last one of the list
  induction constants using List.reverseRecOn with
  | nil => rfl
  | append_singleton constants c ih =>
    rw [List.all_append, Bool.and_eq_true] at h
    obtain ⟨hconstants, hc⟩ := h
    obtain ⟨k, hk, hnr⟩ := constNr_of_inQmd (List.all_eq_true.mp hc c (List.mem_singleton.mpr rfl))
    rw [List.foldl_append, List.foldl_cons, List.foldl_nil, List.reverse_append,
      List.reverse_singleton, List.singleton_append, List.find?_cons]
    by_cases hci : c.constNr = i
    · rw [hbank c hci, ih hconstants, beq_iff_eq.mpr hci]
      cases constants.reverse.find? fun c => c.constNr == i with
      | none => rfl
      | some d => exact habsorb _ _ _
    · have hapart : ApartFromBank g c.constNr := hnr ▸ honly k hk (hnr ▸ hci)
      rw [get_setConstantBuffer_of_apart hapart, ih hconstants, beq_eq_false_iff_ne.mpr hci]

variable {f : LibreCUFunction} {grid block : Dim3} {sharedMemBytes : NvU32}
  {currentSlmPerThread ptr : NvU64}

/-- The descriptor, with the constant banks between the launch and its arguments. -/
theorem qmdData_eq (f : LibreCUFunction) (grid block : Dim3) (sharedMemBytes : NvU32)
    (currentSlmPerThread ptr : NvU64) :
    qmdData f grid block sharedMemBytes currentSlmPerThread ptr =
      fldSetDrfNum32 (constantBufferAddrLower 0) (lo32 ptr)
        (fldSetDrfNum32 (constantBufferAddrUpper 0) (hi32 ptr)
          (f.constants.foldl setConstantBuffer
            ((launchWrites f grid block sharedMemBytes currentSlmPerThread).foldl
              (fun q x => fldSetDrfNum x.1 x.2 q) fun _ => 0))) := rfl

/-- **A field of the launch under one bank**, in the finished descriptor. -/
theorem toNat_get_qmdData {x : QmdField × NvU64}
    (hx : x ∈ launchWrites f grid block sharedMemBytes currentSlmPerThread)
    (honly : OnlyUnder x.1 i) (hi : i ≠ 0)
    (hbank : ∀ c : KernelConstantInfo, c.constNr = i → ∀ q : QmdData,
      (x.1.get (setConstantBuffer q c)).toNat = value (x.1.get q).toNat c)
    (habsorb : ∀ y c d, value (value y c) d = value y d)
    (h : f.constants.all KernelConstantInfo.inQmd = true) :
    (x.1.get (qmdData f grid block sharedMemBytes currentSlmPerThread ptr)).toNat =
      ((f.lastBank i).map (value (x.2.toNat % 2 ^ x.1.width))).getD
        (x.2.toNat % 2 ^ x.1.width) := by
  have hinWord : x.1.InWord := inWord_launchFields _
    (map_fst_launchWrites f grid block sharedMemBytes currentSlmPerThread ▸
      List.mem_map_of_mem hx)
  have hzero : ApartFromBank x.1 0 := by
    have h16 : (BitVec.ofNat 32 16 - 16 : NvU32) = 0 := by decide
    have hzero := honly 16 (by decide)
    rw [h16] at hzero
    exact hzero (Ne.symm hi)
  have harguments : ∀ q : QmdData, x.1.get (fldSetDrfNum32 (constantBufferAddrLower 0) (lo32 ptr)
      (fldSetDrfNum32 (constantBufferAddrUpper 0) (hi32 ptr) q)) = x.1.get q := by
    intro q
    unfold fldSetDrfNum32
    rw [get_fldSetDrfNum_of_apart (hzero _ (by simp [bankFields])),
      get_fldSetDrfNum_of_apart (hzero _ (by simp [bankFields]))]
  -- without constants, the field is what the launch writes
  have hsame : launchWrites { f with constants := [] } grid block sharedMemBytes
      currentSlmPerThread = launchWrites f grid block sharedMemBytes currentSlmPerThread := rfl
  have hlaunch := @val_launchWrites { f with constants := [] } grid block sharedMemBytes
    currentSlmPerThread ptr nofun x (by rw [hsame]; exact hx)
  rw [hinWord.val_eq, ← hinWord.get_eq, qmdData_eq, harguments, List.foldl_nil, hsame] at hlaunch
  rw [qmdData_eq, harguments, toNat_get_foldl honly hbank habsorb h]
  exact congrArg (fun y => ((f.lastBank i).map (value y)).getD y) hlaunch

end Overlaid

/-! ## The fields of the configuration -/

/-- What a bank −8 leaves of the size of the shared memory. -/
def sizeUnder (x : ℕ) (c : KernelConstantInfo) : ℕ :=
  x / 2 ^ 17 * 2 ^ 17 + (hi32 c.address).toNat % 2 ^ 17

/-- What a bank −8 leaves of the minimal configuration. -/
def minUnder (x : ℕ) (c : KernelConstantInfo) : ℕ := x % 2 + 2 * (c.size.toNat % 32)

/-- What a bank −8 makes of the maximal configuration. -/
def maxUnder (_ : ℕ) (c : KernelConstantInfo) : ℕ := c.size.toNat / 64 % 64

/-- What a bank −6 makes of the target configuration. -/
def targetUnder (_ : ℕ) (c : KernelConstantInfo) : ℕ := (lo32 c.address).toNat / 2 ^ 17 % 64

section Under

variable (q : QmdData) {c : KernelConstantInfo}

/-- A field of a word behind a write of another field of that word. -/
theorem toNat_get_set {g b : QmdField} (hg : g.InWord) (hb : b.InWord) (hword : g.word = b.word)
    (n : NvU64) : (g.get (fldSetDrfNum b n q)).toNat =
      (2 ^ b.shift * (2 ^ b.width * ((q g.word).toNat / 2 ^ b.shift / 2 ^ b.width) +
        n.toNat % 2 ^ 32 % 2 ^ b.width) + (q g.word).toNat % 2 ^ b.shift) / 2 ^ g.shift %
          2 ^ g.width := by
  rw [hg.toNat_get, hword, hb.toNat_set, BitVec.toNat_setWidth]

theorem toNat_sharedMemorySize_set (hc : c.constNr = -8) :
    (sharedMemorySize.get (setConstantBuffer q c)).toNat =
      sizeUnder (sharedMemorySize.get q).toNat c := by
  have hfield : sharedMemorySize.InWord := by decide
  unfold setConstantBuffer fldSetDrfNum32
  rw [hc, get_fldSetDrfNum_of_apart (by decide), get_fldSetDrfNum_of_apart (by decide),
    get_fldSetDrfNum_of_apart (by decide), toNat_get_set q hfield (by decide) (by decide),
    hfield.toNat_get, toNat_setWidth_64, sizeUnder]
  simp only [show sharedMemorySize.shift = 0 by decide, show sharedMemorySize.width = 18 by decide,
    show (constantBufferAddrUpper (-8)).shift = 0 by decide,
    show (constantBufferAddrUpper (-8)).width = 17 by decide]
  omega

theorem toNat_minSmConfig_set (hc : c.constNr = -8) :
    (minSmConfigSharedMemSize.get (setConstantBuffer q c)).toNat =
      minUnder (minSmConfigSharedMemSize.get q).toNat c := by
  have hfield : minSmConfigSharedMemSize.InWord := by decide
  -- the write of the size, behind those of the address, which are apart
  have hwrite : ∀ q : QmdData, (minSmConfigSharedMemSize.get
      (fldSetDrfNum (constantBufferSizeShifted4 (-8)) c.size q)).toNat =
        minUnder (minSmConfigSharedMemSize.get q).toNat c := by
    intro q
    rw [toNat_get_set q hfield (by decide) (by decide), hfield.toNat_get, minUnder]
    simp only [show minSmConfigSharedMemSize.shift = 18 by decide,
      show minSmConfigSharedMemSize.width = 6 by decide,
      show (constantBufferSizeShifted4 (-8)).shift = 19 by decide,
      show (constantBufferSizeShifted4 (-8)).width = 13 by decide]
    omega
  unfold setConstantBuffer fldSetDrfNum32
  rw [hc, get_fldSetDrfNum_of_apart (by decide), hwrite, get_fldSetDrfNum_of_apart (by decide),
    get_fldSetDrfNum_of_apart (by decide)]

theorem toNat_maxSmConfig_set (hc : c.constNr = -8) :
    (maxSmConfigSharedMemSize.get (setConstantBuffer q c)).toNat =
      maxUnder (maxSmConfigSharedMemSize.get q).toNat c := by
  have hfield : maxSmConfigSharedMemSize.InWord := by decide
  unfold setConstantBuffer fldSetDrfNum32
  rw [hc, get_fldSetDrfNum_of_apart (by decide), toNat_get_set _ hfield (by decide) (by decide),
    maxUnder]
  simp only [show maxSmConfigSharedMemSize.shift = 25 by decide,
    show maxSmConfigSharedMemSize.width = 6 by decide,
    show (constantBufferSizeShifted4 (-8)).shift = 19 by decide,
    show (constantBufferSizeShifted4 (-8)).width = 13 by decide]
  omega

theorem toNat_targetSmConfig_set (hc : c.constNr = -6) :
    (targetSmConfigSharedMemSize.get (setConstantBuffer q c)).toNat =
      targetUnder (targetSmConfigSharedMemSize.get q).toNat c := by
  have hfield : targetSmConfigSharedMemSize.InWord := by decide
  unfold setConstantBuffer fldSetDrfNum32
  rw [hc, get_fldSetDrfNum_of_apart (by decide), get_fldSetDrfNum_of_apart (by decide),
    toNat_get_set _ hfield (by decide) (by decide), toNat_setWidth_64, targetUnder]
  simp only [show targetSmConfigSharedMemSize.shift = 17 by decide,
    show targetSmConfigSharedMemSize.width = 6 by decide,
    show (constantBufferAddrLower (-6)).shift = 0 by decide,
    show (constantBufferAddrLower (-6)).width = 32 by decide]
  omega

end Under

/-- The configuration with room for an amount of shared memory, cut to its six bits: none of them
has room for more than 100 kilobytes. -/
def smConfig (usage : ℕ) : ℕ :=
  if usage ≤ 32768 then 9 else if usage ≤ 65536 then 17 else if usage ≤ 102400 then 26 else 0

/-- The amount that is reserved, cut to its eighteen bits. -/
def reservedSharedMem (usage : ℕ) : ℕ := max 1024 ((usage + 255) % 2 ^ 32 / 256 * 256) % 2 ^ 18

theorem toNat_smemConfig (usage : NvU32) :
    ((smemConfig usage).setWidth 64 : NvU64).toNat % 2 ^ 6 = smConfig usage.toNat := by
  have hle : ∀ n : NvU32, usage ≤ n ↔ usage.toNat ≤ n.toNat := fun n => Iff.rfl
  rw [toNat_setWidth_64, smConfig]
  unfold smemConfig minOf
  simp only [List.foldl_cons, List.foldl_nil, hle]
  have h32 : (32 * 1024 : NvU32).toNat = 32768 := rfl
  have h64 : (64 * 1024 : NvU32).toNat = 65536 := rfl
  have h100 : (100 * 1024 : NvU32).toNat = 102400 := rfl
  rw [h32, h64, h100]
  by_cases hsmall : usage.toNat ≤ 32768
  · rw [if_pos hsmall, if_pos hsmall, if_pos (hsmall.trans (by decide)),
      if_pos (hsmall.trans (by decide))]
    decide
  by_cases hmiddle : usage.toNat ≤ 65536
  · rw [if_neg hsmall, if_neg hsmall, if_pos hmiddle, if_pos hmiddle,
      if_pos (hmiddle.trans (by decide))]
    decide
  by_cases hlarge : usage.toNat ≤ 102400
  · rw [if_neg hsmall, if_neg hsmall, if_neg hmiddle, if_neg hmiddle, if_pos hlarge, if_pos hlarge]
    decide
  · rw [if_neg hsmall, if_neg hsmall, if_neg hmiddle, if_neg hmiddle, if_neg hlarge, if_neg hlarge]
    decide

theorem toNat_reservedSharedMem (usage : NvU32) :
    ((maxOf 0x400 (roundUp usage 0x100)).setWidth 64 : NvU64).toNat % 2 ^ 18 =
      reservedSharedMem usage.toNat := by
  have hsum : (usage + 0x100 - 1).toNat = (usage.toNat + 255) % 2 ^ 32 := by bv_omega
  have hround : (roundUp usage 0x100).toNat = (usage.toNat + 255) % 2 ^ 32 / 256 * 256 := by
    have h256 : (0x100 : NvU32).toNat = 256 := rfl
    rw [roundUp, ceilDiv, BitVec.toNat_mul, BitVec.toNat_udiv, hsum, h256, Nat.mod_eq_of_lt]
    omega
  have h1024 : (0x400 : NvU32).toNat = 1024 := rfl
  rw [toNat_setWidth_64, toNat_maxOf, hround, h1024, reservedSharedMem]

/-- **The shared-memory configuration is consistent**: the amount that is reserved is a multiple of
256 and covers what is used; minimum and target are the same configuration, which has room for it
and is not above the maximum. -/
structure SharedConfigConsistent (q : QmdData) (usage : ℕ) : Prop where
  multiple : 256 ∣ (sharedMemorySize.val q).toNat
  covers : usage ≤ (sharedMemorySize.val q).toNat
  same : minSmConfigSharedMemSize.val q = targetSmConfigSharedMemSize.val q
  room : ((sharedMemorySize.val q).toNat : ℤ) ≤ ((minSmConfigSharedMemSize.val q).toNat - 1) * 4096
  allowed : (minSmConfigSharedMemSize.val q).toNat ≤ (maxSmConfigSharedMemSize.val q).toNat

/-- **When the configuration is consistent**: at most 100 kilobytes are used. Where a bank −6 or −8
lies over the fields, its address and size have to fit as well. -/
def SharedConfigFits (f : LibreCUFunction) (usage : ℕ) : Prop :=
  let target := ((f.lastBank (-6)).map (targetUnder 0)).getD (smConfig usage)
  match f.lastBank (-8) with
  | none => usage ≤ 102400 ∧ smConfig usage = target
  | some c =>
    256 ∣ sizeUnder (reservedSharedMem usage) c ∧ usage ≤ sizeUnder (reservedSharedMem usage) c ∧
      minUnder (smConfig usage) c = target ∧
      sizeUnder (reservedSharedMem usage) c + 4096 ≤ minUnder (smConfig usage) c * 4096 ∧
      minUnder (smConfig usage) c ≤ maxUnder 26 c

/-- The fields of a configuration that fits. -/
theorem consistent_reserved_iff {usage target : ℕ} :
    (256 ∣ reservedSharedMem usage ∧ usage ≤ reservedSharedMem usage ∧ smConfig usage = target ∧
      reservedSharedMem usage + 4096 ≤ smConfig usage * 4096 ∧ smConfig usage ≤ 26) ↔
        usage ≤ 102400 ∧ smConfig usage = target := by
  unfold reservedSharedMem smConfig
  constructor
  · rintro ⟨-, -, hsame, hroom, -⟩
    refine ⟨?_, hsame⟩
    by_contra hlarge
    rw [if_neg (by omega), if_neg (by omega), if_neg hlarge] at hroom
    omega
  · rintro ⟨hle, hsame⟩
    refine ⟨by omega, by omega, hsame, ?_, ?_⟩
    · split_ifs <;> omega
    · split_ifs <;> decide

/-! ## Launches -/

section Launches

variable {f : LibreCUFunction} {grid block : Dim3} {sharedMemBytes : NvU32}
  {currentSlmPerThread ptr : NvU64}

theorem toNat_shmemUsage (f : LibreCUFunction) (sharedMemBytes : NvU32) :
    (shmemUsage f sharedMemBytes).toNat = max f.sharedMem.toNat sharedMemBytes.toNat :=
  toNat_maxOf ..

/-- The banks that lie over the fields. -/
theorem onlyUnder_sharedConfig : OnlyUnder sharedMemorySize (-8) ∧
    OnlyUnder minSmConfigSharedMemSize (-8) ∧ OnlyUnder targetSmConfigSharedMemSize (-6) ∧
    OnlyUnder maxSmConfigSharedMemSize (-8) := by decide +kernel

/-- **The size of the shared memory** in a descriptor. -/
theorem toNat_sharedMemorySize (h : f.constants.all KernelConstantInfo.inQmd = true) :
    (sharedMemorySize.get (qmdData f grid block sharedMemBytes currentSlmPerThread ptr)).toNat =
      ((f.lastBank (-8)).map
        (sizeUnder (reservedSharedMem (shmemUsage f sharedMemBytes).toNat))).getD
          (reservedSharedMem (shmemUsage f sharedMemBytes).toNat) := by
  have hget := @toNat_get_qmdData (-8) sizeUnder f grid block sharedMemBytes currentSlmPerThread ptr
    (sharedMemorySize, (maxOf 0x400 (roundUp (shmemUsage f sharedMemBytes) 0x100)).setWidth 64)
    (by simp [launchWrites]) onlyUnder_sharedConfig.1 (by decide)
    (fun c hc q => toNat_sharedMemorySize_set q hc)
    (fun x c d => by simp only [sizeUnder]; omega) h
  rw [show sharedMemorySize.width = 18 by decide, toNat_reservedSharedMem] at hget
  exact hget

/-- **The configurations** in a descriptor. -/
theorem toNat_minSmConfig (h : f.constants.all KernelConstantInfo.inQmd = true) :
    (minSmConfigSharedMemSize.get
        (qmdData f grid block sharedMemBytes currentSlmPerThread ptr)).toNat =
      ((f.lastBank (-8)).map (minUnder (smConfig (shmemUsage f sharedMemBytes).toNat))).getD
        (smConfig (shmemUsage f sharedMemBytes).toNat) := by
  have hget := @toNat_get_qmdData (-8) minUnder f grid block sharedMemBytes currentSlmPerThread ptr
    (minSmConfigSharedMemSize, (smemConfig (shmemUsage f sharedMemBytes)).setWidth 64)
    (by simp [launchWrites]) onlyUnder_sharedConfig.2.1 (by decide)
    (fun c hc q => toNat_minSmConfig_set q hc) (fun x c d => by simp only [minUnder]; omega) h
  rw [show minSmConfigSharedMemSize.width = 6 by decide, toNat_smemConfig] at hget
  exact hget

theorem toNat_targetSmConfig (h : f.constants.all KernelConstantInfo.inQmd = true) :
    (targetSmConfigSharedMemSize.get
        (qmdData f grid block sharedMemBytes currentSlmPerThread ptr)).toNat =
      ((f.lastBank (-6)).map (targetUnder 0)).getD
        (smConfig (shmemUsage f sharedMemBytes).toNat) := by
  have hget := @toNat_get_qmdData (-6) targetUnder f grid block sharedMemBytes currentSlmPerThread
    ptr (targetSmConfigSharedMemSize, (smemConfig (shmemUsage f sharedMemBytes)).setWidth 64)
    (by simp [launchWrites]) onlyUnder_sharedConfig.2.2.1 (by decide)
    (fun c hc q => toNat_targetSmConfig_set q hc) (fun _ _ _ => rfl) h
  rw [show targetSmConfigSharedMemSize.width = 6 by decide, toNat_smemConfig] at hget
  exact hget

theorem toNat_maxSmConfig (h : f.constants.all KernelConstantInfo.inQmd = true) :
    (maxSmConfigSharedMemSize.get
        (qmdData f grid block sharedMemBytes currentSlmPerThread ptr)).toNat =
      ((f.lastBank (-8)).map (maxUnder 26)).getD 26 :=
  @toNat_get_qmdData (-8) maxUnder f grid block sharedMemBytes currentSlmPerThread
    ptr (maxSmConfigSharedMemSize, 0x1A) (by simp [launchWrites]) onlyUnder_sharedConfig.2.2.2
    (by decide)
    (fun c hc q => toNat_maxSmConfig_set q hc) (fun _ _ _ => rfl) h

/-- The four fields are in one word each. -/
theorem inWord_sharedConfig : sharedMemorySize.InWord ∧ minSmConfigSharedMemSize.InWord ∧
    targetSmConfigSharedMemSize.InWord ∧ maxSmConfigSharedMemSize.InWord := by decide

/-- **The configuration of a launch is consistent, if and only if** it fits: for every launch that
succeeded, with the amount that is the larger of the record's and of the dynamic one. -/
theorem shared_config_consistent_iff {h h' : Host} {function : ℕ} {params : ℕ → ℕ → NvU8}
    {numParams : NvU64} {async : Bool}
    (hlaunch : call (launchFunction (some function) grid block sharedMemBytes params numParams
      async) h = (.ok (), h')) :
    SharedConfigConsistent h'.lastQmd
        (max (h.functions function).sharedMem.toNat sharedMemBytes.toNat) ↔
      SharedConfigFits (h.functions function)
        (max (h.functions function).sharedMem.toNat sharedMemBytes.toNat) := by
  have hqmd := wp_launchFunction_qmd function grid block sharedMemBytes params numParams async h
  rw [wp_of_call hlaunch] at hqmd
  obtain ⟨hbanks, slm, ptr, hwords⟩ := hqmd
  generalize h.functions function = f at *
  obtain ⟨hsizeWord, hminWord, htargetWord, hmaxWord⟩ := inWord_sharedConfig
  have hsize := @toNat_sharedMemorySize f grid block sharedMemBytes slm ptr hbanks
  have hmin := @toNat_minSmConfig f grid block sharedMemBytes slm ptr hbanks
  have htarget := @toNat_targetSmConfig f grid block sharedMemBytes slm ptr hbanks
  have hmax := @toNat_maxSmConfig f grid block sharedMemBytes slm ptr hbanks
  rw [hsizeWord.get_eq, ← hsizeWord.val_eq, ← hsizeWord.val_congr (hwords _ (by decide))] at hsize
  rw [hminWord.get_eq, ← hminWord.val_eq, ← hminWord.val_congr (hwords _ (by decide))] at hmin
  rw [htargetWord.get_eq, ← htargetWord.val_eq,
    ← htargetWord.val_congr (hwords _ (by decide))] at htarget
  rw [hmaxWord.get_eq, ← hmaxWord.val_eq, ← hmaxWord.val_congr (hwords _ (by decide))] at hmax
  rw [← toNat_shmemUsage]
  generalize (shmemUsage f sharedMemBytes).toNat = usage at *
  have hconsistent : SharedConfigConsistent h'.lastQmd usage ↔
      256 ∣ (sharedMemorySize.val h'.lastQmd).toNat ∧
      usage ≤ (sharedMemorySize.val h'.lastQmd).toNat ∧
      (minSmConfigSharedMemSize.val h'.lastQmd).toNat =
        (targetSmConfigSharedMemSize.val h'.lastQmd).toNat ∧
      (sharedMemorySize.val h'.lastQmd).toNat + 4096 ≤
        (minSmConfigSharedMemSize.val h'.lastQmd).toNat * 4096 ∧
      (minSmConfigSharedMemSize.val h'.lastQmd).toNat ≤
        (maxSmConfigSharedMemSize.val h'.lastQmd).toNat := by
    constructor
    · rintro ⟨hmultiple, hcovers, hsame, hroom, hallowed⟩
      exact ⟨hmultiple, hcovers, congrArg BitVec.toNat hsame, by omega, hallowed⟩
    · rintro ⟨hmultiple, hcovers, hsame, hroom, hallowed⟩
      exact ⟨hmultiple, hcovers, BitVec.eq_of_toNat_eq hsame, by omega, hallowed⟩
  rw [hconsistent, hsize, hmin, htarget, hmax, SharedConfigFits]
  cases f.lastBank (-8) with
  | none => exact consistent_reserved_iff
  | some c => exact Iff.rfl

end Launches

/-! ## Loaded functions -/

/-- **The record of a loaded function** has room for a configuration, whatever attribute calls were
made, if and only if none of those that succeeded had a negative value. -/
theorem sharedMem_le_iff {image : ElfImage} {m : LibreCUmodule} {h₀ h₁ h : Host}
    {f : LibreCUFunction} {function : ℕ} {shaderLocalMemoryVa : NvU64}
    (hload : call (libreCuModuleLoadData (some image)) h₀ = (.ok m, h₁)) (hf : f ∈ m.functions)
    (hfunction : h.functions function = { f with shaderLocalMemoryVa := shaderLocalMemoryVa })
    (smVersion : NvU32 × NvU32) (calls : List (LibreCuFunctionAttribute × NvU32)) :
    ((h.setAttributes smVersion function calls).functions function).sharedMem.toNat ≤ 102400 ↔
      ∀ value ∈ h.acceptedValues smVersion function calls, 0 ≤ value.toInt := by
  obtain ⟨loaded⟩ := loaded_of_ok hload
  have hrecorded : (h.functions function).sharedMem.toNat ≤ 102400 := by
    rw [hfunction, sharedMem_of_loaded loaded hf]
    exact (toNat_recordedSharedMem_lt image _).le.trans (by decide)
  rw [function_of_setAttributes, toNat_foldl_maxOf_le hrecorded]
  refine forall₂_congr fun value hvalue => ?_
  have hle := toInt_le_of_accepted smVersion function value hvalue
  rw [BitVec.toInt_eq_toNat_cond] at hle ⊢
  have hlt := value.isLt
  split_ifs at hle ⊢ <;> omega

/-- Launch the kernel of `sharedImage` behind an attribute call with the value. -/
def launchConfigured (value sharedMemBytes : NvU32) : Except Failure Unit × Host :=
  call (launchFunction (some 0) ⟨1, 1, 1⟩ ⟨1, 1, 1⟩ sharedMemBytes (fun _ _ => 0) 0 true)
    ((loadShared 512).2.setAttributes (0, 0) 0 [(.maxDynamicSharedSizeBytes, value)])

/-- With 40000 bytes the configuration is consistent. -/
theorem shared_config_consistent_iff_sample :
    SharedConfigConsistent (launchConfigured 40000 512).2.lastQmd (max 40000 512) ↔
      SharedConfigFits { sharedKernel with sharedMem := 40000 } (max 40000 512) := by
  have hlaunch : launchConfigured 40000 512 = (.ok (), (launchConfigured 40000 512).2) :=
    Prod.ext (by decide +kernel) rfl
  have hfunction : ((loadShared 512).2.setAttributes (0, 0) 0
      [(.maxDynamicSharedSizeBytes, 40000)]).functions 0 =
        { sharedKernel with sharedMem := 40000 } := by decide +kernel
  have hiff := shared_config_consistent_iff hlaunch
  rw [hfunction] at hiff
  exact hiff

/-- **A negative attribute leaves no configuration**: behind an attribute call with −1, the kernel
is launched with a kilobyte of shared memory and no configuration at all. -/
theorem negative_attribute_not_consistent :
    (loadShared 512).1 = .ok ⟨[sharedKernel], uvmHeapStart⟩ ∧
      (loadShared 512).2.functions 0 = sharedKernel ∧
      (launchConfigured (-1) 0).1 = .ok () ∧
      sharedMemorySize.val (launchConfigured (-1) 0).2.lastQmd = 1024 ∧
      minSmConfigSharedMemSize.val (launchConfigured (-1) 0).2.lastQmd = 0 ∧
      ¬ SharedConfigConsistent (launchConfigured (-1) 0).2.lastQmd (max (-1 : NvU32).toNat 0) := by
  refine ⟨by decide +kernel, by decide +kernel, by decide +kernel, by decide +kernel,
    by decide +kernel, fun hconsistent => absurd hconsistent.covers (by decide +kernel)⟩

end LibreCuda
