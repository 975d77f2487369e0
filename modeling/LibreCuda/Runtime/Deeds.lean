import LibreCuda.Runtime.CopyTasks

/-! # What a stream is asked for

A stream is asked to move buffers and to launch kernels. The operations behind a copy make the
accesses of all its threads, in any order, and yet leave what the copy alone leaves.

* **`Deed.run`** is what a deed does to the memory, and **`Deed.Takes`** says which operations it
  takes.
* **`Deed.Takes.mem_perform`**: the operations of a deed do what the deed does, interleaved in any way.
* **`Deed.Independent.commute`**: actions of deeds that do not meet commute.
* **`Processor.MovesBytes`** is what is asked of the engines for that, and **`Processor.byThreads`**
  are engines that do so. -/

namespace LibreCuda

open Bytes Interleavings Threads

/-! ## Copies that move a buffer -/

section Moves

variable {κ : Type} [DecidableEq κ] {copies : κ → List Copy} {dst src : NvU64} {size : ℕ}

/-- The copies of some threads move a buffer: each byte comes from its own offset, and every byte of
the destination is written. -/
structure Moves (copies : κ → List Copy) (dst src : NvU64) (size : ℕ) : Prop where
  inside : ∀ k, ∀ c ∈ copies k, ∀ j < c.bytes,
    (c.dstAt j - dst).toNat < size ∧ c.srcAt j = c.dstAt j - dst + src
  small : ∀ k, ∀ c ∈ copies k, c.bytes ≤ 2 ^ 64
  covers : ∀ x : NvU64, (x - dst).toNat < size → Writes copies x

/-- The memory behind a copy. -/
def moved (dst src : NvU64) (size : ℕ) (mem : Memory) : Memory := fun x =>
  if (x - dst).toNat < size then mem (x - dst + src) else mem x

/-- **Copies that move a buffer** to another one leave what was in it, in whatever order. -/
theorem Moves.mem (hm : Moves copies dst src size)
    (hdisjoint : Disjoint (span dst size) (span src size)) {l : List (κ × Access)}
    (hl : Complete copies l) (w : Workspace κ) :
    (act (actionsAt l) w).mem = moved dst src size w.mem := by
  have hwrites : ∀ x, Writes copies x → (x - dst).toNat < size := by
    rintro x ⟨k, c, hc, j, hj, rfl⟩
    exact (hm.inside k c hc j hj).1
  have hapart : Apart copies fun x => x - dst + src := by
    refine ⟨fun k c hc j hj => (hm.inside k c hc j hj).2, fun k c hc j hj hw => ?_, hm.small⟩
    obtain ⟨hlt, hsrc⟩ := hm.inside k c hc j hj
    refine Set.disjoint_left.mp hdisjoint (hwrites _ hw) ?_
    rw [hsrc, mem_span, BitVec.add_sub_cancel]
    exact hlt
  funext x
  obtain ⟨hin, hout⟩ := mem_of_complete hapart hl w x
  rw [moved]
  split_ifs with hx
  · exact hin (hm.covers x hx)
  · exact hout fun hw => hx (hwrites x hw)

/-- An access for a copy reads the source and writes the destination. -/
theorem bounds_of_access {c : Copy} {a : Access} (ha : a = .load c ∨ a = .store c)
    (hin : ∀ j < c.bytes, (c.dstAt j - dst).toNat < size ∧ c.srcAt j = c.dstAt j - dst + src) :
    a.reads ⊆ span src size ∧ a.writes ⊆ span dst size := by
  rcases ha with rfl | rfl
  · refine ⟨?_, Set.empty_subset _⟩
    rintro x ⟨j, hj, rfl⟩
    obtain ⟨hlt, hsrc⟩ := hin j hj
    rw [hsrc, mem_span, BitVec.add_sub_cancel]
    exact hlt
  · refine ⟨Set.empty_subset _, fun x hx => ?_⟩
    obtain ⟨j, hj, rfl⟩ := mem_span_iff_exists.mp hx
    exact (hin j hj).1

end Moves

/-! ## What a stream is asked for -/

/-- What is asked of a stream: to move a buffer, on the device or by the engine for transfers, or to
launch a kernel, which is then the task of an operation. -/
inductive Deed
  | copied (dst src size : NvU64) (onDevice async : Bool)
  | launched (n : ℕ) (task : Task) (async : Bool)

/-- What a deed does to the memory, carried out alone. -/
def Deed.run (others : ℕ → Task → List (Memory → Memory)) : Deed → Memory → Memory
  | .copied dst src size _ _, mem => moved dst src size.toNat mem
  | .launched n task _, mem => act (others n task) mem

/-- The operations of a deed, each with its task. -/
def Deed.Takes (programs : NvU64 → Option CopyKernel) : Deed → List (ℕ × Task) → Prop
  | .copied dst src size true _, group => group.map (fun a => a.2.copyLaunch programs) =
      (memcpyKernels size).map fun kernel => some (copyLaunch dst src size true kernel)
  | .copied dst src size false _, group => ∃ n, group = [(n, .copy dst src (size.setWidth 32))]
  | .launched n task _, group => group = [(n, task)] ∧ task.copies programs = false

/-- A copy is between disjoint buffers, below 256 MiB on the device and below 4 GiB for a
transfer. -/
def Deed.Sound : Deed → Prop
  | .copied dst src size onDevice _ =>
    Disjoint (span dst size.toNat) (span src size.toNat) ∧
      size.toNat < if onDevice then 2 ^ 28 else 2 ^ 32
  | .launched .. => True

/-- Deeds that do not meet: a copy writes nothing that another one reads or writes, a kernel ignores
the buffers of a copy, and kernels commute. -/
def Deed.Independent (others : ℕ → Task → List (Memory → Memory)) : Deed → Deed → Prop
  | .copied dst src size _ _, .copied dst' src' size' _ _ =>
    Disjoint (span dst size.toNat) (span src' size'.toNat) ∧
      Disjoint (span dst size.toNat) (span dst' size'.toNat) ∧
        Disjoint (span dst' size'.toNat) (span src size.toNat)
  | .copied dst src size _ _, .launched n task _ =>
    ∀ f ∈ others n task, Ignores f (span src size.toNat) (span dst size.toNat)
  | .launched n task _, .copied dst src size _ _ =>
    ∀ f ∈ others n task, Ignores f (span src size.toNat) (span dst size.toNat)
  | .launched n task _, .launched n' task' _ =>
    ∀ f ∈ others n task, ∀ g ∈ others n' task', Function.Commute f g

/-- What the engines do: a copy makes all accesses of its threads, in any order, and another kernel
changes the memory. -/
structure Processor.MovesBytes (p : Processor (Workspace (ℕ × Worker)))
    (programs : NvU64 → Option CopyKernel) (others : ℕ → Task → List (Memory → Memory)) : Prop where
  reads : p.ReadsArguments programs
  copies : ∀ n task, task.copies programs = true → ∃ l, p.actions n task = actionsAt l ∧
    Complete (fun k : ℕ × Worker => if k.1 = n then task.work programs k.2 else []) l
  others : ∀ n task, task.copies programs = false →
    p.actions n task = (others n task).map Threads.onMemory

section Groups

variable {p : Processor (Workspace (ℕ × Worker))} {programs : NvU64 → Option CopyKernel}
  {others : ℕ → Task → List (Memory → Memory)} {group : List (ℕ × Task)} {dst src size : NvU64}

/-- The copies of the workers of some operations. -/
def groupWork (programs : NvU64 → Option CopyKernel) (group : List (ℕ × Task)) (n : ℕ)
    (w : Worker) : List Copy :=
  ((group.lookup n).map fun task => task.work programs w).getD []

theorem lookup_of_mem (hnodup : (group.map Prod.fst).Nodup) {n : ℕ} {task : Task}
    (h : (n, task) ∈ group) : group.lookup n = some task := by
  induction group with
  | nil => cases h
  | cons a rest ih =>
    obtain ⟨hnot, hrest⟩ := List.nodup_cons.mp hnodup
    rcases List.mem_cons.mp h with rfl | h
    · exact List.lookup_cons_self
    · have hne : n ≠ a.1 := fun heq => hnot (heq ▸ List.mem_map_of_mem h)
      rw [List.lookup_cons, beq_eq_false_iff_ne.mpr hne]
      exact ih hrest h

theorem mem_of_lookup {n : ℕ} {task : Task} (h : group.lookup n = some task) : (n, task) ∈ group := by
  obtain ⟨before, behind, hsplit, -⟩ := List.lookup_eq_some_iff.mp h
  rw [hsplit]
  exact List.mem_append_right _ List.mem_cons_self

/-- Work is done for an operation of the group. -/
theorem exists_of_groupWork {n : ℕ} {w : Worker} {c : Copy} (h : c ∈ groupWork programs group n w) :
    ∃ task, (n, task) ∈ group ∧ c ∈ task.work programs w := by
  unfold groupWork at h
  cases hlookup : group.lookup n with
  | none =>
    rw [hlookup] at h
    cases h
  | some task =>
    rw [hlookup] at h
    exact ⟨task, mem_of_lookup hlookup, h⟩

theorem groupWork_of_mem (hnodup : (group.map Prod.fst).Nodup) {n : ℕ} {task : Task}
    (h : (n, task) ∈ group) (w : Worker) : groupWork programs group n w = task.work programs w := by
  rw [groupWork, lookup_of_mem hnodup h]
  rfl

/-- **The launches of a copy move the buffer**, below 256 MiB. -/
theorem moves_of_launches (hgroup : group.map (fun a => a.2.copyLaunch programs) =
      (memcpyKernels size).map fun kernel => some (copyLaunch dst src size true kernel))
    (hnodup : (group.map Prod.fst).Nodup) (hsmall : size.toNat < 2 ^ 28) :
    Moves (fun k : ℕ × Worker => groupWork programs group k.1 k.2) dst src size.toNat := by
  -- a thread of an operation is one of the launch that the operation is
  have hthread : ∀ k : ℕ × Worker, ∀ c ∈ groupWork programs group k.1 k.2,
      ∃ i, c ∈ memcpyCopies dst src size true i := by
    rintro ⟨n, w⟩ c hc
    obtain ⟨task, hmem, hc⟩ := exists_of_groupWork hc
    have hlaunch : task.copyLaunch programs ∈ group.map fun a => a.2.copyLaunch programs :=
      List.mem_map_of_mem (f := fun a : ℕ × Task => a.2.copyLaunch programs) hmem
    rw [hgroup] at hlaunch
    obtain ⟨kernel, hkernel, heq⟩ := List.mem_map.mp hlaunch
    cases w with
    | thread t =>
      rw [Task.work, ← heq] at hc
      exact ⟨(kernel, t), mem_memcpyCopies.mpr ⟨hkernel, hc⟩⟩
    | engine o =>
      cases task with
      | launch words arguments => cases hc
      | copy dst' src' numBytes => cases heq
  refine ⟨fun k c hc j hj => ?_, fun k c hc => ?_, fun x hx => ?_⟩
  · obtain ⟨i, hc⟩ := hthread k c hc
    refine ⟨(staysInside_of_lt dst src true hsmall i c hc j hj).1, ?_⟩
    rw [← srcAt_sub hc j, BitVec.sub_add_cancel]
  · obtain ⟨i, hc⟩ := hthread k c hc
    obtain ⟨o, bytes, rfl, hfour, -⟩ := exists_copyAt hc
    show bytes ≤ 2 ^ 64
    omega
  · obtain ⟨⟨kernel, t⟩, c, hc, j, hj, heq⟩ := covered_of_lt dst src true
      (show size.toNat < 2 ^ 44 by omega) hx
    obtain ⟨hkernel, hc⟩ := mem_memcpyCopies.mp hc
    have hlaunch : some (copyLaunch dst src size true kernel) ∈
        group.map fun a => a.2.copyLaunch programs := by
      rw [hgroup]
      exact List.mem_map_of_mem (f := fun kernel => some (copyLaunch dst src size true kernel)) hkernel
    obtain ⟨⟨n, task⟩, hmem, htask⟩ := List.mem_map.mp hlaunch
    refine ⟨(n, .thread t), c, ?_, j, hj, ?_⟩
    · show c ∈ groupWork programs group n (.thread t)
      rw [groupWork_of_mem hnodup hmem, Task.work, htask]
      exact hc
    · rw [heq, BitVec.ofNat_toNat, BitVec.setWidth_eq, BitVec.add_comm, BitVec.sub_add_cancel]

/-- **A transfer moves the buffer.** -/
theorem moves_of_transfer (programs : NvU64 → Option CopyKernel) (n : ℕ)
    (hsize : size.toNat < 2 ^ 32) :
    Moves (fun k : ℕ × Worker => groupWork programs [(n, .copy dst src (size.setWidth 32))] k.1 k.2)
      dst src size.toNat := by
  have hnodup : (([(n, .copy dst src (size.setWidth 32))] : List (ℕ × Task)).map Prod.fst).Nodup :=
    List.nodup_singleton n
  -- the engine is given the size in 32 bits
  have hbytes : (size.setWidth 32).toNat = size.toNat := by
    rw [BitVec.toNat_setWidth, Nat.mod_eq_of_lt hsize]
  have hbyte : ∀ k : ℕ × Worker, ∀ c ∈ groupWork programs
      [(n, .copy dst src (size.setWidth 32))] k.1 k.2,
        ∃ o < size.toNat, c = copyByte dst src (BitVec.ofNat 64 o) := by
    rintro ⟨m, w⟩ c hc
    obtain ⟨task, hmem, hc⟩ := exists_of_groupWork hc
    obtain ⟨rfl, rfl⟩ := Prod.mk.inj (List.mem_singleton.mp hmem)
    cases w with
    | thread t => cases hc
    | engine o =>
      rw [Task.work, hbytes] at hc
      split_ifs at hc with ho
      · exact ⟨o, ho, List.mem_singleton.mp hc⟩
      · cases hc
  refine ⟨fun k c hc j hj => ?_, fun k c hc => ?_, fun x hx => ?_⟩
  · obtain ⟨o, ho, rfl⟩ := hbyte k c hc
    obtain rfl : j = 0 := Nat.lt_one_iff.mp hj
    have hdst : (copyByte dst src (BitVec.ofNat 64 o)).dstAt 0 - dst = BitVec.ofNat 64 o := by
      show dst + BitVec.ofNat 64 o + 0#64 - dst = _
      rw [BitVec.add_zero, BitVec.add_comm, BitVec.add_sub_cancel]
    refine ⟨?_, ?_⟩
    · rw [hdst, BitVec.toNat_ofNat]
      omega
    · rw [hdst]
      show src + BitVec.ofNat 64 o + 0#64 = _
      rw [BitVec.add_zero, BitVec.add_comm]
  · obtain ⟨o, -, rfl⟩ := hbyte k c hc
    exact Nat.one_le_two_pow
  · refine ⟨(n, .engine (x - dst).toNat), copyByte dst src (x - dst), ?_, 0, Nat.one_pos, ?_⟩
    · show _ ∈ groupWork programs _ n (.engine (x - dst).toNat)
      rw [groupWork_of_mem hnodup List.mem_cons_self, Task.work, hbytes, if_pos hx,
        BitVec.ofNat_toNat, BitVec.setWidth_eq]
      exact List.mem_cons_self
    · show x = dst + (x - dst) + 0#64
      rw [BitVec.add_zero, BitVec.add_comm, BitVec.sub_add_cancel]

/-- The operations of a copy move the buffer. -/
theorem Deed.Takes.moves {onDevice async : Bool}
    (h : (Deed.copied dst src size onDevice async).Takes programs group)
    (hnodup : (group.map Prod.fst).Nodup)
    (hsound : (Deed.copied dst src size onDevice async).Sound) :
    Moves (fun k : ℕ × Worker => groupWork programs group k.1 k.2) dst src size.toNat := by
  cases onDevice with
  | true => exact moves_of_launches h hnodup hsound.2
  | false =>
    obtain ⟨n, rfl⟩ := h
    exact moves_of_transfer programs n hsound.2

/-- The tasks of a copy are copies. -/
theorem Deed.Takes.copies {onDevice async : Bool}
    (h : (Deed.copied dst src size onDevice async).Takes programs group) {n : ℕ} {task : Task}
    (hmem : (n, task) ∈ group) : task.copies programs = true := by
  cases onDevice with
  | true =>
    have hlaunch : task.copyLaunch programs ∈ group.map fun a => a.2.copyLaunch programs :=
      List.mem_map_of_mem (f := fun a : ℕ × Task => a.2.copyLaunch programs) hmem
    rw [h] at hlaunch
    obtain ⟨kernel, -, heq⟩ := List.mem_map.mp hlaunch
    cases task with
    | launch words arguments =>
      rw [Task.copies, ← heq]
      rfl
    | copy dst' src' numBytes => rfl
  | false =>
    obtain ⟨m, rfl⟩ := h
    obtain ⟨-, rfl⟩ := Prod.mk.inj (List.mem_singleton.mp hmem)
    rfl

/-- **A deed that is carried out**, its operations interleaved in any way. -/
theorem Deed.Takes.mem_perform {d : Deed} (hd : d.Takes programs group)
    (hmoves : p.MovesBytes programs others)
    (hsound : d.Sound) (hnodup : (group.map Prod.fst).Nodup) {log : Log ℕ (Workspace (ℕ × Worker))}
    (hmem : ∀ e ∈ log, e.1 ∈ group.map Prod.fst)
    (hall : ∀ a ∈ group, actionsOf a.1 log = p.actions a.1 a.2) (w : Workspace (ℕ × Worker)) :
    (perform log w).mem = d.run others w.mem := by
  cases d with
  | copied dst src size onDevice async =>
    obtain ⟨l, hl, hcomplete⟩ := @exists_complete _ _ _ _ (groupWork programs group) log fun n => by
        cases hlookup : group.lookup n with
        | none =>
          refine ⟨[], ?_, fun k => ?_⟩
          · have hnone : (log.filter fun e => e.1 = n) = [] := by
              refine List.filter_eq_nil_iff.mpr fun e he => ?_
              simp only [decide_eq_true_eq]
              rintro rfl
              obtain ⟨a, ha, heq⟩ := List.mem_map.mp (hmem e he)
              rw [← heq, lookup_of_mem hnodup (show (a.1, a.2) ∈ group from ha)] at hlookup
              cases hlookup
            rw [hnone]
            rfl
          · simp only [groupWork, hlookup]
            split_ifs
            · rfl
            · rfl
        | some task =>
          have hin := mem_of_lookup hlookup
          obtain ⟨l, hactions, hl⟩ := hmoves.copies n task (hd.copies hin)
          refine ⟨l, (hall (n, task) hin).trans hactions, ?_⟩
          have hwork : (fun k : ℕ × Worker => if k.1 = n then groupWork programs group n k.2 else []) =
              fun k => if k.1 = n then task.work programs k.2 else [] := by
            funext k
            rw [groupWork_of_mem hnodup hin]
          rw [hwork]
          exact hl
    rw [perform, hl]
    exact (hd.moves hnodup hsound).mem hsound.1 hcomplete w
  | launched n task async =>
    obtain ⟨rfl, hother⟩ := hd
    -- everything in the log is of the one operation
    have hself : log.map Prod.snd = actionsOf n log := by
      rw [actionsOf, List.filter_eq_self.mpr fun e he => ?_]
      simpa using hmem e he
    rw [perform, hself, hall _ List.mem_cons_self, hmoves.others n task hother]
    exact mem_act_onMemory _ w

/-- An action of a copy reads the source and writes the destination. -/
theorem Deed.Takes.bounds {onDevice async : Bool}
    (h : (Deed.copied dst src size onDevice async).Takes programs group)
    (hmoves : p.MovesBytes programs others) (hnodup : (group.map Prod.fst).Nodup)
    (hsound : (Deed.copied dst src size onDevice async).Sound) {n : ℕ} {task : Task}
    (hmem : (n, task) ∈ group) {f : Workspace (ℕ × Worker) → Workspace (ℕ × Worker)}
    (hf : f ∈ p.actions n task) : ∃ (k : ℕ × Worker) (a : Access), f = a.act k ∧ k.1 = n ∧
      a.reads ⊆ span src size.toNat ∧ a.writes ⊆ span dst size.toNat := by
  obtain ⟨l, hactions, hl⟩ := hmoves.copies n task (h.copies hmem)
  rw [hactions] at hf
  obtain ⟨a, ha, rfl⟩ := List.mem_map.mp hf
  have hfst := fst_of_complete hl ha
  have haccess : a.2 ∈ Threads.accesses (task.work programs a.1.2) := by
    have hown := (hl a.1).trans (congrArg Threads.accesses (if_pos hfst))
    rw [← hown]
    exact List.mem_map_of_mem (List.mem_filter.mpr ⟨ha, by simp⟩)
  -- the access is for a copy that its worker makes
  obtain ⟨c, hc, hcase⟩ := List.mem_flatMap.mp haccess
  have hmoved := h.moves hnodup hsound
  have hin : c ∈ groupWork programs group a.1.1 a.1.2 := by
    rw [hfst, groupWork_of_mem hnodup hmem]
    exact hc
  refine ⟨a.1, a.2, rfl, hfst, bounds_of_access (by simpa using hcase) ?_⟩
  exact hmoved.inside a.1 c hin

/-- **Actions of deeds that do not meet commute.** -/
theorem Deed.Independent.commute {d d' : Deed} (hind : d.Independent others d')
    (hmoves : p.MovesBytes programs others) {group' : List (ℕ × Task)}
    (hd : d.Takes programs group) (hd' : d'.Takes programs group')
    (hnodup : (group.map Prod.fst).Nodup) (hnodup' : (group'.map Prod.fst).Nodup)
    (hsound : d.Sound) (hsound' : d'.Sound) {n n' : ℕ} {task task' : Task} (hne : n ≠ n')
    (hmem : (n, task) ∈ group) (hmem' : (n', task') ∈ group')
    {f g : Workspace (ℕ × Worker) → Workspace (ℕ × Worker)}
    (hf : f ∈ p.actions n task) (hg : g ∈ p.actions n' task') : Function.Commute f g := by
  cases d with
  | copied dst src size onDevice async =>
    obtain ⟨k, a, rfl, hk, hreads, hwrites⟩ := hd.bounds hmoves hnodup hsound hmem hf
    cases d' with
    | copied dst' src' size' onDevice' async' =>
      obtain ⟨k', b, rfl, hk', hreads', hwrites'⟩ := hd'.bounds hmoves hnodup' hsound' hmem' hg
      obtain ⟨hread, hwrite, hread'⟩ := hind
      refine commute_of_spares (fun heq => hne (hk.symm.trans ((congrArg Prod.fst heq).trans hk')))
        (fun x hx => ?_) fun x hx => ?_
      · exact ⟨fun hx' => Set.disjoint_left.mp hread (hwrites hx) (hreads' hx'),
          fun hx' => Set.disjoint_left.mp hwrite (hwrites hx) (hwrites' hx')⟩
      · exact ⟨fun hx' => Set.disjoint_left.mp hread' (hwrites' hx) (hreads hx'),
          fun hx' => Set.disjoint_left.mp hwrite (hwrites hx') (hwrites' hx)⟩
    | launched m task'' async' =>
      obtain ⟨rfl, hother⟩ := hd'
      obtain ⟨rfl, rfl⟩ := Prod.mk.inj (List.mem_singleton.mp hmem')
      rw [hmoves.others _ _ hother] at hg
      obtain ⟨change, hchange, rfl⟩ := List.mem_map.mp hg
      exact commute_of_ignores (hind change hchange) hreads hwrites
  | launched m task'' async =>
    obtain ⟨rfl, hother⟩ := hd
    obtain ⟨rfl, rfl⟩ := Prod.mk.inj (List.mem_singleton.mp hmem)
    rw [hmoves.others _ _ hother] at hf
    obtain ⟨change, hchange, rfl⟩ := List.mem_map.mp hf
    cases d' with
    | copied dst' src' size' onDevice' async' =>
      obtain ⟨k', b, rfl, -, hreads', hwrites'⟩ := hd'.bounds hmoves hnodup' hsound' hmem' hg
      exact (commute_of_ignores (hind change hchange) hreads' hwrites').symm
    | launched m' task''' async' =>
      obtain ⟨rfl, hother'⟩ := hd'
      obtain ⟨rfl, rfl⟩ := Prod.mk.inj (List.mem_singleton.mp hmem')
      rw [hmoves.others _ _ hother'] at hg
      obtain ⟨change', hchange', rfl⟩ := List.mem_map.mp hg
      exact fun w => congrArg (fun mem => { w with mem := mem })
        (hind change hchange change' hchange' w.mem)

end Groups

/-! ## One thread after another -/

section Threads

variable {programs : NvU64 → Option CopyKernel} {others : ℕ → Task → List (Memory → Memory)}

/-- The threads of a grid, with blocks of `MEMCPY_BLOCK_SIZE` threads. -/
def Dim3.threadIds (grid : Dim3) : List ThreadId :=
  (List.range grid.x.toNat ×ˢ List.range grid.y.toNat ×ˢ List.range grid.z.toNat ×ˢ
    List.range 256).map fun i =>
      ⟨⟨BitVec.ofNat 32 i.1, BitVec.ofNat 32 i.2.1, BitVec.ofNat 32 i.2.2.1⟩,
        BitVec.ofNat 32 i.2.2.2⟩

/-- What works on a task, in order. -/
def Task.workers (programs : NvU64 → Option CopyKernel) : Task → List Worker
  | .launch words arguments => (((Task.launch words arguments).copyLaunch programs).map fun l =>
      l.grid.threadIds.map Worker.thread).getD []
  | .copy _ _ numBytes => (List.range numBytes.toNat).map Worker.engine

/-- Engines that let one thread after another copy. -/
def Processor.byThreads (programs : NvU64 → Option CopyKernel)
    (others : ℕ → Task → List (Memory → Memory)) : Processor (Workspace (ℕ × Worker)) where
  reads words := ((programs (qmdOfWords words).programAddr).map fun kernel =>
    352 + 8 * kernel.numArgs).getD 0
  actions n task :=
    if task.copies programs then
      actionsAt ((task.workers programs).flatMap fun w =>
        (Threads.accesses (task.work programs w)).map fun a => ((n, w), a))
    else (others n task).map Threads.onMemory

theorem nodup_threadIds (grid : Dim3) : grid.threadIds.Nodup := by
  refine List.Nodup.map_on ?_ (List.nodup_range.product (List.nodup_range.product
    (List.nodup_range.product List.nodup_range)))
  rintro ⟨x, y, z, t⟩ h ⟨x', y', z', t'⟩ h' heq
  simp only [List.mem_product, List.mem_range] at h h'
  simp only [ThreadId.mk.injEq, Dim3.mk.injEq] at heq
  have hx := grid.x.isLt
  have hy := grid.y.isLt
  have hz := grid.z.isLt
  have hsame : ∀ {a b : ℕ}, a < 2 ^ 32 → b < 2 ^ 32 → BitVec.ofNat 32 a = BitVec.ofNat 32 b →
      a = b := fun ha hb h => by
    have := congrArg BitVec.toNat h
    rwa [BitVec.toNat_ofNat, BitVec.toNat_ofNat, Nat.mod_eq_of_lt ha, Nat.mod_eq_of_lt hb] at this
  rw [hsame (by omega) (by omega) heq.1.1, hsame (by omega) (by omega) heq.1.2.1,
    hsame (by omega) (by omega) heq.1.2.2, hsame (by omega) (by omega) heq.2]

theorem mem_threadIds {grid : Dim3} {t : ThreadId} (h : t.inGrid grid = true) : t ∈ grid.threadIds := by
  simp only [ThreadId.inGrid, Bool.and_eq_true, decide_eq_true_eq, BitVec.lt_def] at h
  obtain ⟨⟨⟨hx, hy⟩, hz⟩, ht⟩ := h
  refine List.mem_map.mpr ⟨(t.blockIdx.x.toNat, t.blockIdx.y.toNat, t.blockIdx.z.toNat,
    t.threadIdxX.toNat), ?_, ?_⟩
  · simp only [List.mem_product, List.mem_range]
    exact ⟨hx, hy, hz, ht⟩
  · simp

/-- Each of those who copy has its turn. -/
theorem workers_spec (programs : NvU64 → Option CopyKernel) (task : Task) :
    (task.workers programs).Nodup ∧
      ∀ w, task.work programs w ≠ [] → w ∈ task.workers programs := by
  cases task with
  | launch words arguments =>
    cases hl : (Task.launch words arguments).copyLaunch programs with
    | none =>
      rw [Task.workers, hl]
      refine ⟨List.nodup_nil, fun w hw => absurd ?_ hw⟩
      cases w with
      | thread t =>
        rw [Task.work, hl]
        rfl
      | engine o => rfl
    | some l =>
      rw [Task.workers, hl]
      refine ⟨(nodup_threadIds l.grid).map fun _ _ h => Worker.thread.inj h, fun w hw => ?_⟩
      cases w with
      | thread t =>
        rw [Task.work, hl] at hw
        refine List.mem_map_of_mem (mem_threadIds (Classical.byContradiction fun hout => hw ?_))
        exact if_neg hout
      | engine o => exact absurd rfl hw
  | copy dst src numBytes =>
    refine ⟨List.nodup_range.map fun _ _ h => Worker.engine.inj h, fun w hw => ?_⟩
    cases w with
    | thread t => exact absurd rfl hw
    | engine o =>
      refine List.mem_map_of_mem (List.mem_range.mpr (Classical.byContradiction fun hout => hw ?_))
      exact if_neg hout

/-- **These engines move bytes.** -/
theorem movesBytes_byThreads : (Processor.byThreads programs others).MovesBytes programs others := by
  refine ⟨fun words arguments l hl => ?_, fun n task hcopies => ?_, fun n task hcopies => ?_⟩
  · obtain ⟨kernel, hkernel, hl⟩ := Option.bind_eq_some_iff.mp hl
    split_ifs at hl
    obtain rfl := Option.some.inj hl
    show _ ≤ (Option.map _ _).getD 0
    rw [hkernel]
    exact le_rfl
  · obtain ⟨hnodup, hall⟩ := workers_spec programs task
    have hcomplete : Complete (fun k : ℕ × Worker => if k.1 = n then task.work programs k.2 else [])
        (((task.workers programs).map (Prod.mk n)).flatMap fun k => (Threads.accesses
          (if k.1 = n then task.work programs k.2 else [])).map fun a => (k, a)) := by
      refine complete_flatMap (hnodup.map fun _ _ h => (Prod.mk.inj h).2) fun k hk => ?_
      split_ifs at hk with hn
      · exact List.mem_map.mpr ⟨k.2, hall k.2 hk, Prod.ext hn.symm rfl⟩
      · exact absurd rfl hk
    refine ⟨_, if_pos hcopies, ?_⟩
    rw [List.flatMap_map] at hcomplete
    simpa only [if_true] using hcomplete
  · exact if_neg (by rw [hcopies]; exact Bool.false_ne_true)

end Threads

end LibreCuda
