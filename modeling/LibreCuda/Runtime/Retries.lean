import LibreCuda.Foundation.Runs
import LibreCuda.Runtime.Devices

/-! # Retried initialisation

The globals that `libreCuInit` fills are never emptied again, and it marks them as complete only at
its end. A call that fails while it asks for the instances of the cards leaves the cards, and the
instances it has, to the next call.

* **`Devices.attempt`** is one call, with the kernel as it answers then.
* **`retried_as_once_iff`**: when a retried initialisation ends as one call does.
* **`retry_names_wrong_instance`**: otherwise a handle can name the instance of another card. -/

namespace LibreCuda

open Exec Runs

/-! ## Attempts -/

/-- A call of `libreCuInit`: the kernel, and the environment, as they are then. -/
structure Attempt where
  kernel : Kernel
  env : Option (List Char)

/-- Make the call. The kernel of the attempt answers it from its first answer on. -/
def Devices.attempt (d : Devices) (a : Attempt) : Except Failure Unit × Devices :=
  call (libreCuInit a.kernel a.env) { d with sysCalls := 0 }

/-- A call that returns an error. -/
def Devices.failing (d : Devices) (a : Attempt) : Option Devices :=
  match d.attempt a with
  | (.error (.status _), d') => some d'
  | _ => none

/-- The kernel answers the calls in front of those for the instances, the last of which asks for the
table of cards. -/
def Kernel.Lists (k : Kernel) : Prop :=
  (k.reply 0).ret = true ∧ (k.reply 1).ret = true ∧
    ((k.reply 2).ret = true ∧ (k.reply 2).status = 0) ∧ (k.reply 3).status = 0 ∧
    (k.reply 4).ret = true ∧
    ((k.reply 5).ret = true ∧ (k.reply 5).status = 0 ∨ (k.reply 5).status = nvWarnNothingToDo) ∧
    (k.reply 6).ret = true

instance (k : Kernel) : Decidable k.Lists := inferInstanceAs (Decidable (_ ∧ _))

/-- **As after one call**: were it the only one, the last call would succeed and leave the same
count, instances and handles. -/
def SameAsOnce (last : Attempt) (d : Devices) : Prop :=
  ∃ d₁, ({} : Devices).attempt last = (.ok (), d₁) ∧ d.numDevices = d₁.numDevices ∧
    d.deviceInstances = d₁.deviceInstances ∧ d.publicDeviceHandles = d₁.publicDeviceHandles

/-- The lists and the flag are as before. -/
structure Devices.SameLists (d d' : Devices) : Prop where
  librecudaInitialized : d'.librecudaInitialized = d.librecudaInitialized
  numDevices : d'.numDevices = d.numDevices
  devices : d'.devices = d.devices
  deviceInstances : d'.deviceInstances = d.deviceInstances
  publicDeviceHandles : d'.publicDeviceHandles = d.publicDeviceHandles

theorem Devices.SameLists.trans {d d' d'' : Devices} (h : d.SameLists d') (h' : d'.SameLists d'') :
    d.SameLists d'' :=
  ⟨h'.librecudaInitialized.trans h.librecudaInitialized, h'.numDevices.trans h.numDevices,
    h'.devices.trans h.devices, h'.deviceInstances.trans h.deviceInstances,
    h'.publicDeviceHandles.trans h.publicDeviceHandles⟩

theorem failing_of_error {d : Devices} {a : Attempt} {s : Status}
    (h : (d.attempt a).1 = .error (.status s)) : d.failing a = some (d.attempt a).2 := by
  unfold Devices.failing
  rcases hattempt : d.attempt a with ⟨r, d'⟩
  rw [hattempt] at h
  dsimp only at h
  rw [h]

/-! ## The two parts of a call -/

/-- The part of `libreCuInit` behind the table of cards. -/
def nameDevices (k : Kernel) : DeviceProgram Unit := do
  let d ← get
  k.obtainInstances d.devices
  let d ← get
  createHandles (List.range d.numDevices)
  modify fun d => { d with librecudaInitialized := true }

/-- The kernel driver that the answers tell of. -/
def Kernel.driverType (k : Kernel) : DriverType :=
  if (k.reply 5).ret = true ∧ (k.reply 5).status = 0 then .openKernelModules else .nvidiaProprietary

/-- The globals behind the table of cards. -/
def Devices.withCards (d : Devices) (k : Kernel) (visible : Finset ℤ) : Devices :=
  { d with
    driverType := k.driverType
    devices := d.devices ++ visibleCards k.validCards visible
    numDevices := k.validCards.length
    sysCalls := 7 }

/-- A part of a call goes on under a condition on the answers of the kernel, and otherwise stops with
an error; no list changes. -/
structure Passes (x : DeviceProgram Unit) (c : Prop) (d t : Devices) : Prop where
  same : d.SameLists t
  goes : c → call x d = (.ok (), t)
  stops : ¬ c → ∃ s t', call x d = (.error (.status s), t') ∧ d.SameLists t'

/-- Parts one behind another. -/
theorem Passes.bind {x y : DeviceProgram Unit} {c c' : Prop} {d t u : Devices}
    (hx : Passes x c d t) (hy : Passes y c' t u) : Passes (x >>= fun _ => y) (c ∧ c') d u := by
  refine ⟨hx.same.trans hy.same, fun ⟨hc, hc'⟩ => ?_, fun hnot => ?_⟩
  · rw [call_bind_ok (hx.goes hc)]
    exact hy.goes hc'
  · by_cases hc : c
    · obtain ⟨s, t', herror, hsame⟩ := hy.stops fun hc' => hnot ⟨hc, hc'⟩
      refine ⟨s, t', ?_, hx.same.trans hsame⟩
      rw [call_bind_ok (hx.goes hc)]
      exact herror
    · obtain ⟨s, t', herror, hsame⟩ := hx.stops hc
      exact ⟨s, t', call_bind_error herror _, hsame⟩

/-- One system call whose answer is checked. -/
def Kernel.checked (k : Kernel) (p : SysReply → Bool) (error : Status) : DeviceProgram Unit := do
  let reply ← k.call
  validate (p reply) error

section Parts

variable (k : Kernel) (d : Devices)

/-- One more system call. -/
theorem sameLists_sysCall : d.SameLists { d with sysCalls := d.sysCalls + 1 } :=
  ⟨rfl, rfl, rfl, rfl, rfl⟩

theorem passes_checked (p : SysReply → Bool) (error : Status) :
    Passes (k.checked p error) (p (k.reply d.sysCalls) = true) d
      { d with sysCalls := d.sysCalls + 1 } := by
  have hcall : call (k.checked p error) d =
      call (validate (p (k.reply d.sysCalls)) error : DeviceProgram Unit)
        { d with sysCalls := d.sysCalls + 1 } := rfl
  refine ⟨sameLists_sysCall d, fun hc => ?_, fun hc => ?_⟩
  · rw [hcall, hc]
    rfl
  · rw [hcall, Bool.eq_false_of_not_eq_true hc]
    exact ⟨error, _, rfl, sameLists_sysCall d⟩

theorem passes_openFile (error : Status) :
    Passes (k.openFile error) ((k.reply d.sysCalls).ret = true) d
      { d with sysCalls := d.sysCalls + 1 } :=
  passes_checked k d SysReply.ret error

theorem passes_rmCall :
    Passes k.rmCall ((k.reply d.sysCalls).ret = true ∧ (k.reply d.sysCalls).status = 0) d
      { d with sysCalls := d.sysCalls + 1 } := by
  have hcall : call k.rmCall d =
      call (validate (k.reply d.sysCalls).ret .unknown >>= fun _ =>
        validate ((k.reply d.sysCalls).status == 0) .unknown : DeviceProgram Unit)
          { d with sysCalls := d.sysCalls + 1 } := rfl
  have hsame := sameLists_sysCall d
  by_cases hret : (k.reply d.sysCalls).ret = true
  · rw [hret, validate, call_bind_ok (call_require_true _ _)] at hcall
    by_cases hstatus : (k.reply d.sysCalls).status = 0
    · refine ⟨hsame, fun _ => ?_, fun hnot => absurd ⟨hret, hstatus⟩ hnot⟩
      rw [hcall, hstatus]
      rfl
    · refine ⟨hsame, fun h => absurd h.2 hstatus, fun _ => ?_⟩
      rw [hcall, beq_false_of_ne hstatus]
      exact ⟨_, _, rfl, hsame⟩
  · refine ⟨hsame, fun h => absurd h.1 hret, fun _ => ?_⟩
    rw [hcall, Bool.eq_false_of_not_eq_true hret]
    exact ⟨_, _, rfl, hsame⟩

theorem passes_initializeMm (hcalls : d.sysCalls = 4) : Passes k.initializeMm
    ((k.reply 4).ret = true ∧ ((k.reply 5).ret = true ∧ (k.reply 5).status = 0 ∨
      (k.reply 5).status = nvWarnNothingToDo)) d
    { d with sysCalls := 6, driverType := k.driverType } := by
  have hopen := passes_openFile k d .invalidDevice
  have hsame : ∀ t, d.SameLists { d with sysCalls := 6, driverType := t } :=
    fun t => ⟨rfl, rfl, rfl, rfl, rfl⟩
  rw [hcalls] at hopen
  by_cases h₄ : (k.reply 4).ret = true
  swap
  · obtain ⟨s, t, herror, hstop⟩ := hopen.stops h₄
    exact ⟨hsame _, fun h => absurd h.1 h₄, fun _ => ⟨s, t, call_bind_error herror _, hstop⟩⟩
  have hcall : call k.initializeMm d = call (if !(k.reply 5).ret || (k.reply 5).status != 0 then
      if (k.reply 5).status = nvWarnNothingToDo then
        modify fun d => { d with driverType := .nvidiaProprietary }
      else throw (.status .unknown)
    else modify fun d => { d with driverType := .openKernelModules } : DeviceProgram Unit)
      { d with sysCalls := 6 } := by
    rw [Kernel.initializeMm, call_bind_ok (hopen.goes h₄)]
    rfl
  by_cases hok : (k.reply 5).ret = true ∧ (k.reply 5).status = 0
  · have hcheck : (!(k.reply 5).ret || (k.reply 5).status != 0) = false := by simp [hok.1, hok.2]
    refine ⟨hsame _, fun _ => ?_, fun hnot => absurd ⟨h₄, .inl hok⟩ hnot⟩
    rw [hcall, hcheck, Kernel.driverType, if_pos hok]
    rfl
  · have hcheck : (!(k.reply 5).ret || (k.reply 5).status != 0) = true := by
      by_contra hfalse
      simp at hfalse
      exact hok hfalse
    by_cases hwarn : (k.reply 5).status = nvWarnNothingToDo
    · refine ⟨hsame _, fun _ => ?_, fun hnot => absurd ⟨h₄, .inr hwarn⟩ hnot⟩
      rw [hcall, hcheck, if_pos rfl, if_pos hwarn, Kernel.driverType, if_neg hok]
      rfl
    · refine ⟨hsame _, fun h => absurd h.2 (not_or.mpr ⟨hok, hwarn⟩), fun _ => ?_⟩
      rw [hcall, hcheck, if_pos rfl, if_neg hwarn]
      exact ⟨_, _, rfl, rfl, rfl, rfl, rfl, rfl⟩

end Parts

/-- The part of `libreCuInit` in front of the table of cards. -/
def Kernel.connect (k : Kernel) : DeviceProgram Unit := do
  k.openFile .compatNotSupportedOnDevice
  k.openFile .compatNotSupportedOnDevice
  k.rmCall
  let reply ← k.call
  validate (reply.status == 0) .unknown
  k.initializeMm
  let reply ← k.call
  validate reply.ret .unknown

/-- The globals behind that. -/
def Devices.connected (d : Devices) (k : Kernel) : Devices :=
  { d with sysCalls := 7, driverType := k.driverType }

theorem passes_connect (k : Kernel) {d : Devices} (hcalls : d.sysCalls = 0) :
    Passes k.connect k.Lists d (d.connected k) := by
  have hconnect : k.connect = (k.openFile .compatNotSupportedOnDevice >>= fun _ =>
      k.openFile .compatNotSupportedOnDevice >>= fun _ => k.rmCall >>= fun _ =>
        k.checked (fun reply => reply.status == 0) .unknown >>= fun _ => k.initializeMm >>= fun _ =>
          k.checked SysReply.ret .unknown) := by
    simp only [Kernel.connect, Kernel.checked, bind_assoc]
  have hparts := (passes_openFile k d .compatNotSupportedOnDevice).bind <|
    (passes_openFile k _ .compatNotSupportedOnDevice).bind <| (passes_rmCall k _).bind <|
      (passes_checked k _ (fun reply => reply.status == 0) .unknown).bind <|
        (passes_initializeMm k _ (by simp only [hcalls])).bind <|
          passes_checked k _ SysReply.ret .unknown
  rw [← hconnect] at hparts
  simp only [hcalls, beq_iff_eq, and_assoc] at hparts
  unfold Kernel.Lists
  simp only [and_assoc]
  exact hparts

/-- **The first part of a call**: the cards are listed, or nothing is. -/
theorem attempt_cases {d : Devices} (hd : d.librecudaInitialized = false) (a : Attempt) :
    (¬ a.kernel.Lists ∧ ∃ s d', d.attempt a = (.error (.status s), d') ∧ d.SameLists d') ∨
      a.kernel.Lists ∧ d.attempt a =
        match visibleOrdinals a.env a.kernel.validCards.length with
        | none => (.error .exception, d.connected a.kernel)
        | some visible => call (nameDevices a.kernel) (d.withCards a.kernel visible) := by
  obtain ⟨k, env⟩ := a
  have hsplit : call (libreCuInit k env) { d with sysCalls := 0 } = call (k.connect >>= fun _ =>
      match visibleOrdinals env k.validCards.length with
      | none => throw .exception
      | some visible => do
        modify fun d => { d with
          devices := d.devices ++ visibleCards k.validCards visible
          numDevices := k.validCards.length }
        nameDevices k) { d with sysCalls := 0 } := by
    rw [libreCuInit, call_bind, call_get]
    simp only [hd, Bool.not_false, call_onlyIf, if_true, Kernel.connect, Kernel.obtainCards,
      bind_assoc]
    cases visibleOrdinals env k.validCards.length with
    | none => rfl
    | some visible => rfl
  have hpasses := passes_connect k (d := { d with sysCalls := 0 }) rfl
  by_cases hlists : k.Lists
  · refine .inr ⟨hlists, ?_⟩
    rw [Devices.attempt, hsplit, call_bind_ok (hpasses.goes hlists)]
    cases visibleOrdinals env k.validCards.length with
    | none => rfl
    | some visible => rfl
  · obtain ⟨s, d', herror, hsame⟩ := hpasses.stops hlists
    refine .inl ⟨hlists, s, d', ?_, hsame.librecudaInitialized, hsame.numDevices, hsame.devices,
      hsame.deviceInstances, hsame.publicDeviceHandles⟩
    rw [Devices.attempt, hsplit]
    exact call_bind_error herror _

/-! ## The second part -/

/-- Instances are asked for one by one. The kernel can refuse one only if there is one to ask for. -/
theorem wp_obtainInstances (k : Kernel) (cards : List NvIoctlCardInfo) (d : Devices) :
    wp (k.obtainInstances cards)
      (fun _ d' => d' = { d with
        sysCalls := d.sysCalls + cards.length
        deviceInstances := d.deviceInstances ++ cards.map fun card => k.deviceInstance card.gpuId })
      (fun _ d' => cards ≠ [] ∧ d'.librecudaInitialized = d.librecudaInitialized ∧
        d'.devices = d.devices) d := by
  induction cards generalizing d with
  | nil =>
    rw [Kernel.obtainInstances, wp_pure]
    simp
  | cons card rest ih =>
    rw [Kernel.obtainInstances, wp_bind]
    have hpasses := passes_rmCall k d
    by_cases hok : (k.reply d.sysCalls).ret = true ∧ (k.reply d.sysCalls).status = 0
    · rw [wp_of_call (hpasses.goes hok), wp_bind, wp_modify]
      refine wp_mono (ih _) (fun _ d' hd' => ?_) (fun _ d' hd' => ?_)
      · rw [hd']
        simp [Nat.add_assoc, Nat.add_comm 1]
      · exact ⟨List.cons_ne_nil _ _, hd'.2⟩
    · obtain ⟨s, d', herror, hsame⟩ := hpasses.stops hok
      rw [wp_of_call_error herror]
      exact ⟨List.cons_ne_nil _ _, hsame.librecudaInitialized, hsame.devices⟩

/-- Handles are made without the kernel: where that ends, it is behind the instances. -/
theorem wp_createHandles (ordinals : List ℕ) (d : Devices) :
    wp (createHandles ordinals) (fun _ d' => d'.deviceInstances = d.deviceInstances)
      (fun e _ => e = .crash) d := by
  induction ordinals generalizing d with
  | nil =>
    rw [createHandles, wp_pure]
  | cons o rest ih =>
    rw [createHandles, wp_bind, wp_get]
    split
    · rw [wp_throw]
    · rename_i deviceInstance _
      rw [wp_bind, wp_set]
      exact ih { d with publicDeviceHandles := d.publicDeviceHandles ++ [⟨o, deviceInstance⟩] }

/-- **The second part of a call** asks for the instance of every card that is listed, those of
earlier calls included. -/
theorem wp_nameDevices (k : Kernel) (d : Devices) :
    wp (nameDevices k)
      (fun _ d' => d'.deviceInstances =
        d.deviceInstances ++ d.devices.map fun card => k.deviceInstance card.gpuId)
      (fun e d' => e ≠ .crash → d.devices ≠ [] ∧
        d'.librecudaInitialized = d.librecudaInitialized ∧ d'.devices = d.devices) d := by
  rw [nameDevices, wp_bind, wp_get, wp_bind]
  refine wp_mono (wp_obtainInstances k d.devices d) (fun _ d₁ hd₁ => ?_) (fun _ _ h _ => h)
  subst hd₁
  rw [wp_bind, wp_get, wp_bind]
  refine wp_mono (wp_createHandles _ _) (fun _ d₂ hd₂ => ?_) (fun _ _ h hne => absurd h hne)
  rw [wp_modify]
  exact hd₂

/-! ## Sequences of attempts -/

/-- **A call that fails** leaves all lists as they were, if the kernel does not list the cards, and
otherwise a list of cards that is not empty. -/
theorem failing_cases {d d' : Devices} (hd : d.librecudaInitialized = false) {a : Attempt}
    (h : d.failing a = some d') :
    ¬ a.kernel.Lists ∧ d.SameLists d' ∨
      a.kernel.Lists ∧ d'.librecudaInitialized = false ∧ d'.devices ≠ [] := by
  have hfail : ∃ s, d.attempt a = (.error (.status s), d') := by
    unfold Devices.failing at h
    split at h
    · rename_i s _ heq
      obtain rfl := Option.some.inj h
      exact ⟨s, heq⟩
    · cases h
  obtain ⟨s, hfail⟩ := hfail
  rcases attempt_cases hd a with ⟨hlists, _, _, herror, hsame⟩ | ⟨hlists, hattempt⟩
  · obtain rfl := (Prod.ext_iff.mp (hfail.symm.trans herror)).2
    exact .inl ⟨hlists, hsame⟩
  · refine .inr ⟨hlists, ?_⟩
    rw [hattempt] at hfail
    split at hfail
    · cases hfail
    · rename_i visible hvisible
      have hnames := wp_nameDevices a.kernel (d.withCards a.kernel visible)
      rw [wp_of_call_error hfail] at hnames
      obtain ⟨hne, hflag, hdevices⟩ := hnames (by simp)
      exact ⟨hflag.trans hd, hdevices ▸ hne⟩

/-- What a sequence of failing calls leaves. -/
theorem exec_failing {d d' : Devices} {attempts : List Attempt}
    (hd : d.librecudaInitialized = false)
    (h : Runs.exec Devices.failing d attempts = some d') :
    d'.librecudaInitialized = false ∧ ((∀ a ∈ attempts, ¬ a.kernel.Lists) → d.SameLists d') ∧
      ((∃ a ∈ attempts, a.kernel.Lists) ∨ d.devices ≠ [] → d'.devices ≠ []) := by
  induction attempts generalizing d with
  | nil =>
    obtain rfl := Option.some.inj h
    refine ⟨hd, fun _ => ⟨rfl, rfl, rfl, rfl, rfl⟩, ?_⟩
    rintro (⟨a, ha, -⟩ | hne)
    · cases ha
    · exact hne
  | cons a attempts ih =>
    obtain ⟨d₁, hfirst, hrest⟩ := Option.bind_eq_some_iff.mp h
    rcases failing_cases hd hfirst with ⟨hlists, hsame⟩ | ⟨hlists, hflag, hne⟩
    · obtain ⟨hflag, hnone, hsome⟩ := ih (hsame.librecudaInitialized.trans hd) hrest
      refine ⟨hflag, fun hall => ?_, fun hor => hsome ?_⟩
      · exact hsame.trans (hnone fun a ha => hall a (List.mem_cons_of_mem _ ha))
      · rw [hsame.devices]
        refine hor.imp_left ?_
        rintro ⟨b, hb, hblists⟩
        rcases List.mem_cons.mp hb with rfl | hb
        · exact absurd hblists hlists
        · exact ⟨b, hb, hblists⟩
    · obtain ⟨hflag, -, hsome⟩ := ih hflag hrest
      exact ⟨hflag, fun hall => absurd hlists (hall a List.mem_cons_self), fun _ => hsome (.inr hne)⟩

/-- **A retried initialisation ends as one call does, if and only if** no call in front of the last
one gets as far as the instances: then each fails at or in front of the table of cards. -/
theorem retried_as_once_iff {attempts : List Attempt} {last : Attempt} {d d' : Devices}
    (hfail : Runs.exec Devices.failing {} attempts = some d)
    (hlast : d.attempt last = (.ok (), d')) :
    SameAsOnce last d' ↔ ∀ a ∈ attempts, ¬ a.kernel.Lists := by
  obtain ⟨hflag, hnone, hsome⟩ := exec_failing rfl hfail
  obtain ⟨hlists, hattempt⟩ := (attempt_cases hflag last).resolve_left fun h => by
    obtain ⟨-, _, _, herror, -⟩ := h
    cases hlast.symm.trans herror
  obtain ⟨-, honce⟩ := (attempt_cases (d := {}) rfl last).resolve_left fun h => h.1 hlists
  rw [hlast] at hattempt
  cases hvisible : visibleOrdinals last.env last.kernel.validCards.length with
  | none =>
    rw [hvisible] at hattempt
    cases hattempt
  | some visible =>
    rw [hvisible] at hattempt honce
    dsimp only at hattempt honce
    constructor
    · rintro ⟨d₁, hd₁, -, hinstances, -⟩ a ha halists
      -- the cards of the earlier call are asked for once more
      have hagain := wp_nameDevices last.kernel (d.withCards last.kernel visible)
      rw [wp_of_call hattempt.symm] at hagain
      have hfirst := wp_nameDevices last.kernel (({} : Devices).withCards last.kernel visible)
      rw [wp_of_call (honce.symm.trans hd₁)] at hfirst
      have hlength := congrArg List.length (hagain.symm.trans (hinstances.trans hfirst))
      simp only [Devices.withCards, List.length_append, List.length_map, List.length_nil] at hlength
      have hpos := List.length_pos_iff.mpr (hsome (.inl ⟨a, ha, halists⟩))
      omega
    · intro hall
      have hsame := hnone hall
      refine ⟨d', ?_, rfl, rfl, rfl⟩
      have hcards : d.withCards last.kernel visible =
          ({} : Devices).withCards last.kernel visible := by
        rw [Devices.withCards, Devices.withCards, hsame.devices, hsame.deviceInstances,
          hsame.publicDeviceHandles, hsame.librecudaInitialized]
      rw [honce, ← hcards]
      exact hattempt.symm

/-- Two cards, and a kernel that refuses one system call. -/
def refusedAt (n : ℕ) : Attempt :=
  ⟨{ sampleKernel with reply := fun i => { ret := i != n } }, none⟩

/-- Two cards, and a kernel that refuses nothing. -/
def refusedNowhere : Attempt := ⟨sampleKernel, none⟩

/-- The second call, behind one that was refused. -/
def retriedFrom (n : ℕ) : Except Failure Unit × Devices :=
  (({} : Devices).attempt (refusedAt n)).2.attempt refusedNowhere

/-- A call that fails at the table of cards leaves nothing. -/
theorem retried_as_once_iff_sample : SameAsOnce refusedNowhere (retriedFrom 6).2 := by
  have herror : (({} : Devices).attempt (refusedAt 6)).1 = .error (.status .unknown) := by
    decide +kernel
  have hok : (retriedFrom 6).1 = .ok () := by decide +kernel
  have hlast : retriedFrom 6 = (.ok (), (retriedFrom 6).2) := by rw [← hok]
  refine (retried_as_once_iff (exec_cons (failing_of_error herror) []) hlast).mpr fun a ha => ?_
  obtain rfl := List.mem_singleton.mp ha
  decide +kernel

/-- **A retry names the wrong instance**: a call that fails at the second card leaves the instance
of the first one, and the next call gives it to both handles. -/
theorem retry_names_wrong_instance :
    (({} : Devices).attempt (refusedAt 8)).1 = .error (.status .unknown) ∧
      (retriedFrom 8).1 = .ok () ∧
      (retriedFrom 8).2.publicDeviceHandles = [⟨0, 0⟩, ⟨1, 0⟩] ∧
      (({} : Devices).attempt refusedNowhere).2.publicDeviceHandles = [⟨0, 0⟩, ⟨1, 1⟩] ∧
      ¬ SameAsOnce refusedNowhere (retriedFrom 8).2 := by
  have hretried : (retriedFrom 8).2.publicDeviceHandles = [⟨0, 0⟩, ⟨1, 0⟩] := by decide +kernel
  have honce : (({} : Devices).attempt refusedNowhere).2.publicDeviceHandles = [⟨0, 0⟩, ⟨1, 1⟩] := by
    decide +kernel
  refine ⟨by decide +kernel, by decide +kernel, hretried, honce, ?_⟩
  rintro ⟨d₁, hd₁, -, -, hhandles⟩
  rw [hd₁] at honce
  have hsame := hretried.symm.trans (hhandles.trans honce)
  exact absurd hsame (by decide)

end LibreCuda
