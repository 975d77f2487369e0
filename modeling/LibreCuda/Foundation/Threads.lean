import LibreCuda.Foundation.Bytes
import LibreCuda.Foundation.Runs
import Mathlib.Data.Finset.Dedup
import Mathlib.Data.Fintype.EquivFin

/-! # Threads that copy memory

A family of threads, each with a list of copies to make one after another. A copy loads a few bytes
and then stores them; between the two, and between copies, any other thread may go on.

* **`Machine.step`** lets one thread make its next access.
* **`copied_of_finished`**: when no thread reads what a thread writes, every byte that is written
  holds in the end what was at its source at first, whatever the schedule.
* **`exec_thread`** is how a value spreads otherwise: a thread that runs to its end brings it to
  every address it copies from a set that holds it.
* **`exists_finished`**: finitely many threads can always be run to their end. -/

namespace Threads

open Bytes Runs

/-- Copy some bytes from one address to another. -/
structure Copy where
  dst : BitVec 64
  src : BitVec 64
  bytes : ℕ
  deriving DecidableEq, Repr

/-- The address of a byte that is written. -/
def Copy.dstAt (c : Copy) (j : ℕ) : BitVec 64 := c.dst + BitVec.ofNat 64 j

/-- The address of a byte that is read. -/
def Copy.srcAt (c : Copy) (j : ℕ) : BitVec 64 := c.src + BitVec.ofNat 64 j

/-- What a thread does next. -/
inductive Access
  | load (c : Copy)
  | store (c : Copy)

/-- The accesses of a thread with the given copies. -/
def accesses (copies : List Copy) : List Access := copies.flatMap fun c => [.load c, .store c]

/-- Memory, and what each thread has loaded and has still to do. -/
structure Machine (ι : Type) where
  mem : Memory
  loaded : ι → List (BitVec 8)
  todo : ι → List Access

section Machine

variable {ι : Type} [DecidableEq ι]

/-- One thread makes its next access. -/
def Machine.step (m : Machine ι) (i : ι) : Option (Machine ι) :=
  match m.todo i with
  | [] => none
  | .load c :: rest => some
    { m with
      loaded := Function.update m.loaded i ((List.range c.bytes).map fun j => m.mem (c.srcAt j))
      todo := Function.update m.todo i rest }
  | .store c :: rest => some
    { m with
      mem := store m.mem c.dst (m.loaded i)
      todo := Function.update m.todo i rest }

/-- The threads at their start. -/
def Machine.start (mem : Memory) (copies : ι → List Copy) : Machine ι :=
  ⟨mem, fun _ => [], fun i => accesses (copies i)⟩

/-- Every thread has reached its end. -/
def Machine.Finished (m : Machine ι) : Prop := ∀ i, m.todo i = []

/-- Whole copies: every load is followed by the store of the same copy. -/
def Paired : List Access → Prop
  | [] => True
  | .load c :: .store c' :: rest => c' = c ∧ Paired rest
  | _ => False

theorem paired_accesses (copies : List Copy) : Paired (accesses copies) := by
  induction copies with
  | nil => trivial
  | cons c copies ih => exact ⟨rfl, ih⟩

/-- What a thread has still to do: whole copies, behind the store of one that it has loaded. -/
def Staged (l : List Access) : Prop := Paired l ∨ ∃ c rest, l = .store c :: rest ∧ Paired rest

/-- What a step does: the thread loads what it stores next, or stores what it has loaded. -/
theorem step_cases {m m' : Machine ι} {i : ι} (hstage : Staged (m.todo i))
    (hs : m.step i = some m') :
    (∃ c rest, m.todo i = .load c :: .store c :: rest ∧ Paired rest ∧
      m' = { m with
        loaded := Function.update m.loaded i ((List.range c.bytes).map fun j => m.mem (c.srcAt j))
        todo := Function.update m.todo i (.store c :: rest) }) ∨
    ∃ c rest, m.todo i = .store c :: rest ∧ Paired rest ∧
      m' = { m with
        mem := store m.mem c.dst (m.loaded i)
        todo := Function.update m.todo i rest } := by
  unfold Machine.step at hs
  split at hs
  · cases hs
  · rename_i c rest htodo
    obtain rfl := Option.some.inj hs
    rw [htodo] at hstage
    rcases hstage with hpaired | ⟨c', rest', heq, -⟩
    · cases rest with
      | nil => exact hpaired.elim
      | cons a rest =>
        cases a with
        | load c' => exact hpaired.elim
        | store c' =>
          obtain ⟨rfl, hrest⟩ := hpaired
          exact Or.inl ⟨_, rest, htodo, hrest, rfl⟩
    · cases heq
  · rename_i c rest htodo
    obtain rfl := Option.some.inj hs
    rw [htodo] at hstage
    rcases hstage with hpaired | ⟨c', rest', heq, hrest⟩
    · exact hpaired.elim
    · obtain ⟨-, rfl⟩ := List.cons.inj heq
      exact Or.inr ⟨c, rest, htodo, hrest, rfl⟩

/-- A thread stays between whole copies, or behind a load. -/
theorem staged_step {m m' : Machine ι} {i : ι} (hstage : ∀ k, Staged (m.todo k))
    (hs : m.step i = some m') (k : ι) : Staged (m'.todo k) := by
  rcases step_cases (hstage i) hs with ⟨c, rest, -, hrest, rfl⟩ | ⟨c, rest, -, hrest, rfl⟩
  · show Staged (Function.update m.todo i (.store c :: rest) k)
    rw [Function.update_apply]
    split_ifs
    · exact Or.inr ⟨c, rest, rfl, hrest⟩
    · exact hstage k
  · show Staged (Function.update m.todo i rest k)
    rw [Function.update_apply]
    split_ifs
    · exact Or.inl hrest
    · exact hstage k

/-- A store writes the bytes of its copy. -/
theorem store_dstAt (mem : Memory) (c : Copy) (block : List (BitVec 8)) (x : BitVec 64) :
    (∃ j, ∃ hj : j < block.length, x = c.dstAt j ∧ store mem c.dst block x = block[j]) ∨
      store mem c.dst block x = mem x ∧ ∀ j < block.length, j < 2 ^ 64 → x ≠ c.dstAt j := by
  by_cases hin : (x - c.dst).toNat < block.length
  · refine Or.inl ⟨(x - c.dst).toNat, hin, ?_, store_of_lt hin⟩
    rw [Copy.dstAt, BitVec.ofNat_toNat, BitVec.setWidth_eq, BitVec.add_comm, BitVec.sub_add_cancel]
  · refine Or.inr ⟨store_of_le (Nat.not_lt.mp hin), ?_⟩
    rintro j hj hlt rfl
    refine hin ?_
    rw [Copy.dstAt, BitVec.add_comm, BitVec.add_sub_cancel, BitVec.toNat_ofNat,
      Nat.mod_eq_of_lt hlt]
    exact hj

/-! ## Copies that do not meet -/

section Apart

variable (copies : ι → List Copy)

/-- Some copy writes the byte at an address. -/
def Writes (x : BitVec 64) : Prop := ∃ i, ∃ c ∈ copies i, ∃ j < c.bytes, x = c.dstAt j

/-- Every byte has one source, and no byte is both read and written. -/
structure Apart (source : BitVec 64 → BitVec 64) : Prop where
  source : ∀ i, ∀ c ∈ copies i, ∀ j < c.bytes, c.srcAt j = source (c.dstAt j)
  unwritten : ∀ i, ∀ c ∈ copies i, ∀ j < c.bytes, ¬ Writes copies (c.srcAt j)
  small : ∀ i, ∀ c ∈ copies i, c.bytes ≤ 2 ^ 64

/-- **The invariant**: sources are as they were, a thread has loaded what was at the source of its
copy, and a byte holds what was at its source unless its store is still to come. -/
structure Machine.Sound (mem : Memory) (source : BitVec 64 → BitVec 64) (m : Machine ι) : Prop where
  staged : ∀ i, Staged (m.todo i)
  own : ∀ i c, .load c ∈ m.todo i ∨ .store c ∈ m.todo i → c ∈ copies i
  unread : ∀ i, ∀ c ∈ copies i, ∀ j < c.bytes, m.mem (c.srcAt j) = mem (c.srcAt j)
  loaded : ∀ i c rest, m.todo i = .store c :: rest →
    m.loaded i = (List.range c.bytes).map fun j => mem (source (c.dstAt j))
  written : ∀ x, Writes copies x → m.mem x = mem (source x) ∨
    ∃ i c, .store c ∈ m.todo i ∧ ∃ j < c.bytes, x = c.dstAt j

variable {copies} {mem : Memory} {source : BitVec 64 → BitVec 64} {m m' : Machine ι}

theorem mem_accesses {l : List Copy} {c : Copy} :
    (.load c ∈ accesses l ∨ .store c ∈ accesses l) ↔ c ∈ l := by
  simp [accesses]

omit [DecidableEq ι] in
theorem sound_start : (Machine.start mem copies).Sound copies mem source := by
  refine ⟨fun i => Or.inl (paired_accesses _), fun i c hmem => mem_accesses.mp hmem,
    fun _ _ _ _ _ => rfl, fun i c rest htodo => ?_, fun x hx => Or.inr ?_⟩
  · have hpaired := paired_accesses (copies i)
    rw [show accesses (copies i) = .store c :: rest from htodo] at hpaired
    exact hpaired.elim
  · obtain ⟨i, c, hc, j, hj, rfl⟩ := hx
    refine ⟨i, c, ?_, j, hj, rfl⟩
    show .store c ∈ accesses (copies i)
    simpa [accesses] using hc

/-- **One step** keeps the invariant. -/
theorem Machine.Sound.step (ha : Apart copies source) (h : m.Sound copies mem source) {i : ι}
    (hs : m.step i = some m') : m'.Sound copies mem source := by
  have hstaged := staged_step h.staged hs
  rcases step_cases (h.staged i) hs with ⟨c, rest, htodo, -, rfl⟩ | ⟨c, rest, htodo, hrest, rfl⟩
  · have hc : c ∈ copies i := h.own i c (Or.inl (by rw [htodo]; exact List.mem_cons_self))
    -- what is left of the thread was there before
    have hsub : ∀ k a, a ∈ Function.update m.todo i (.store c :: rest) k → a ∈ m.todo k := by
      intro k a hmem
      rw [Function.update_apply] at hmem
      split_ifs at hmem with hk
      · rw [hk, htodo]
        exact List.mem_cons_of_mem _ hmem
      · exact hmem
    refine ⟨hstaged, fun k a hmem => h.own k a (hmem.imp (hsub k _) (hsub k _)), h.unread,
      fun k c' rest' htodo' => ?_, fun x hx => ?_⟩
    · replace htodo' : Function.update m.todo i (.store c :: rest) k = .store c' :: rest' := htodo'
      show Function.update m.loaded i _ k = _
      rw [Function.update_apply] at htodo' ⊢
      split_ifs at htodo' ⊢ with hk
      · obtain ⟨hfirst, -⟩ := List.cons.inj htodo'
        obtain rfl := Access.store.inj hfirst
        refine List.map_congr_left fun j hj => ?_
        have hj := List.mem_range.mp hj
        rw [h.unread i c hc j hj, ha.source i c hc j hj]
      · exact h.loaded k c' rest' htodo'
    · refine (h.written x hx).imp id ?_
      rintro ⟨k, c', hmem, hj⟩
      refine ⟨k, c', ?_, hj⟩
      show .store c' ∈ Function.update m.todo i (.store c :: rest) k
      rw [Function.update_apply]
      split_ifs with hk
      · rw [hk, htodo] at hmem
        simpa using hmem
      · exact hmem
  · have hc : c ∈ copies i := h.own i c (Or.inr (by rw [htodo]; exact List.mem_cons_self))
    have hloaded := h.loaded i c rest htodo
    have hsub : ∀ k a, a ∈ Function.update m.todo i rest k → a ∈ m.todo k := by
      intro k a hmem
      rw [Function.update_apply] at hmem
      split_ifs at hmem with hk
      · rw [hk, htodo]
        exact List.mem_cons_of_mem _ hmem
      · exact hmem
    -- a byte of the copy gets the value of its source, and no other byte changes
    have hstore : ∀ x, (∃ j < c.bytes, x = c.dstAt j ∧
        store m.mem c.dst (m.loaded i) x = mem (source x)) ∨
        store m.mem c.dst (m.loaded i) x = m.mem x ∧ ∀ j < c.bytes, x ≠ c.dstAt j := by
      intro x
      rcases store_dstAt m.mem c (m.loaded i) x with ⟨j, hj, rfl, hval⟩ | ⟨hval, hout⟩
      · refine Or.inl ⟨j, ?_, rfl, ?_⟩
        · simpa [hloaded] using hj
        · rw [hval]
          simp [hloaded]
      · refine Or.inr ⟨hval, fun j hj => hout j ?_ ?_⟩
        · simpa [hloaded] using hj
        · have hsmall := ha.small i c hc
          omega
    refine ⟨hstaged, fun k a hmem => h.own k a (hmem.imp (hsub k _) (hsub k _)),
      fun k c' hc' j hj => ?_, fun k c' rest' htodo' => ?_, fun x hx => ?_⟩
    · rcases hstore (c'.srcAt j) with ⟨j', hj', heq, -⟩ | ⟨hval, -⟩
      · exact absurd ⟨i, c, hc, j', hj', heq⟩ (ha.unwritten k c' hc' j hj)
      · exact hval.trans (h.unread k c' hc' j hj)
    · replace htodo' : Function.update m.todo i rest k = .store c' :: rest' := htodo'
      rw [Function.update_apply] at htodo'
      split_ifs at htodo' with hk
      · -- behind a store the thread is between whole copies
        rw [htodo'] at hrest
        exact hrest.elim
      · exact h.loaded k c' rest' htodo'
    · show store m.mem c.dst (m.loaded i) x = mem (source x) ∨ _
      rcases hstore x with ⟨_, _, -, hval⟩ | ⟨hval, hout⟩
      · exact Or.inl hval
      · rw [hval]
        refine (h.written x hx).imp id ?_
        rintro ⟨k, c', hmem, j, hj, rfl⟩
        refine ⟨k, c', ?_, j, hj, rfl⟩
        show .store c' ∈ Function.update m.todo i rest k
        rw [Function.update_apply]
        split_ifs with hk
        · rw [hk, htodo, List.mem_cons] at hmem
          rcases hmem with heq | hmem
          · obtain rfl := Access.store.inj heq
            exact absurd rfl (hout j hj)
          · exact hmem
        · exact hmem

/-- **Copies that do not meet**: once all threads have reached their end, every byte that is written
holds what was at its source at first, whatever the schedule. -/
theorem copied_of_finished (ha : Apart copies source) {schedule : List ι}
    (hrun : exec Machine.step (Machine.start mem copies) schedule = some m) (hm : m.Finished)
    {x : BitVec 64} (hx : Writes copies x) : m.mem x = mem (source x) := by
  have hsound : m.Sound copies mem source :=
    (always_of_step (fun _ _ _ h hs => h.step ha hs) sound_start).exec hrun
  refine (hsound.written x hx).resolve_right ?_
  rintro ⟨i, c, hmem, -⟩
  rw [hm i] at hmem
  cases hmem

end Apart

/-! ## One thread after another -/

section Serial

/-- Every thread is between whole copies. -/
def Machine.AtRest (m : Machine ι) (copies : ι → List Copy) : Prop :=
  ∀ i, m.todo i = accesses (copies i)

/-- What some copies write in one of two sets comes from the first one. -/
def Feeds (l : List Copy) (p q : BitVec 64 → Prop) : Prop :=
  ∀ c ∈ l, ∀ j < c.bytes, p (c.dstAt j) ∨ q (c.dstAt j) → p (c.srcAt j)

/-- The addresses of a set hold a value. -/
def Holds (v : BitVec 8) (p : BitVec 64 → Prop) (mem : Memory) : Prop := ∀ x, p x → mem x = v

variable {m : Machine ι} {copies : ι → List Copy} {v : BitVec 8} {p q : BitVec 64 → Prop}

/-- A copy that is fed by a set that holds a value spreads it. -/
theorem holds_copy {mem : Memory} {c : Copy} (hsmall : c.bytes ≤ 2 ^ 64)
    (hfeeds : ∀ j < c.bytes, p (c.dstAt j) ∨ q (c.dstAt j) → p (c.srcAt j)) (hp : Holds v p mem) :
    Holds v p (store mem c.dst ((List.range c.bytes).map fun j => mem (c.srcAt j))) ∧
      ∀ x, q x → (mem x = v ∨ ∃ j < c.bytes, x = c.dstAt j) →
        store mem c.dst ((List.range c.bytes).map fun j => mem (c.srcAt j)) x = v := by
  have hbyte : ∀ x, p x ∨ q x → (mem x = v ∨ ∃ j < c.bytes, x = c.dstAt j) →
      store mem c.dst ((List.range c.bytes).map fun j => mem (c.srcAt j)) x = v := by
    intro x hx hwritten
    rcases store_dstAt mem c ((List.range c.bytes).map fun j => mem (c.srcAt j)) x with
      ⟨j, hj, rfl, hval⟩ | ⟨hval, hout⟩
    · have hj' : j < c.bytes := by simpa using hj
      rw [hval, List.getElem_map, List.getElem_range]
      exact hp _ (hfeeds j hj' hx)
    · rw [hval]
      refine hwritten.resolve_right ?_
      rintro ⟨j, hj, heq⟩
      exact hout j (by simpa using hj) (by omega) heq
  exact ⟨fun x hx => hbyte x (Or.inl hx) (Or.inl (hp x hx)), fun x hx => hbyte x (Or.inr hx)⟩

/-- **A thread that runs to its end** spreads the value it is fed with. -/
theorem exec_thread (hm : m.AtRest copies) (i : ι) (hsmall : ∀ c ∈ copies i, c.bytes ≤ 2 ^ 64) :
    ∃ schedule m', exec Machine.step m schedule = some m' ∧
      m'.AtRest (Function.update copies i []) ∧ ∀ v p q, Feeds (copies i) p q → Holds v p m.mem →
        Holds v p m'.mem ∧ ∀ x, q x → (m.mem x = v ∨ ∃ c ∈ copies i, ∃ j < c.bytes, x = c.dstAt j) →
          m'.mem x = v := by
  generalize hl : copies i = l at hsmall
  induction l generalizing m copies with
  | nil =>
    refine ⟨[], m, rfl, fun k => ?_, fun v p q _ hp => ⟨hp, fun x _ hx => hx.resolve_right ?_⟩⟩
    · rw [hm k, Function.update_apply]
      split_ifs with hk
      · rw [hk, hl]
      · rfl
    · rintro ⟨c, hc, -⟩
      cases hc
  | cons c l ih =>
    have htodo : m.todo i = .load c :: .store c :: accesses l := by
      rw [hm i, hl]
      rfl
    obtain ⟨m₁, hm₁⟩ : ∃ m₁ : Machine ι, m₁ =
        { m with
          mem := store m.mem c.dst ((List.range c.bytes).map fun j => m.mem (c.srcAt j))
          loaded := Function.update m.loaded i ((List.range c.bytes).map fun j => m.mem (c.srcAt j))
          todo := Function.update m.todo i (accesses l) } := ⟨_, rfl⟩
    -- the first copy is one load and one store
    have hload : m.step i = some
        { m with
          loaded := Function.update m.loaded i ((List.range c.bytes).map fun j => m.mem (c.srcAt j))
          todo := Function.update m.todo i (.store c :: accesses l) } := by
      unfold Machine.step
      rw [htodo]
    have hrun : exec Machine.step m [i, i] = some m₁ := by
      rw [exec_cons hload, hm₁]
      simp [exec, Machine.step]
    have hrest : m₁.AtRest (Function.update copies i l) := by
      intro k
      rw [hm₁]
      show Function.update m.todo i (accesses l) k = _
      rw [Function.update_apply, Function.update_apply]
      split_ifs
      · rfl
      · exact hm k
    obtain ⟨schedule, m', hexec, hend, hspread⟩ := ih hrest (Function.update_self ..)
      fun c' hc' => hsmall c' (List.mem_cons_of_mem _ hc')
    refine ⟨[i, i] ++ schedule, m', (exec_append hrun _).trans hexec, ?_, fun v p q hfeeds hp => ?_⟩
    · rw [Function.update_idem] at hend
      exact hend
    · obtain ⟨hp₁, hq₁⟩ := holds_copy (hsmall c List.mem_cons_self) (hfeeds c List.mem_cons_self) hp
      obtain ⟨hp', hq'⟩ := hspread v p q (fun c' hc' => hfeeds c' (List.mem_cons_of_mem _ hc'))
        (by rw [hm₁]; exact hp₁)
      refine ⟨hp', fun x hx hwritten => hq' x hx ?_⟩
      rw [hm₁]
      -- a byte that is stored holds the value by `holds_copy`, and keeps it in the rest
      rcases hwritten with hval | ⟨c', hc', hj⟩
      · exact Or.inl (hq₁ x hx (Or.inl hval))
      · rcases List.mem_cons.mp hc' with rfl | hc'
        · exact Or.inl (hq₁ x hx (Or.inr hj))
        · exact Or.inr ⟨c', hc', hj⟩

/-- Some threads that run to their end one after another. -/
theorem exec_threads (threads : List ι) (hm : m.AtRest copies)
    (hsmall : ∀ i, ∀ c ∈ copies i, c.bytes ≤ 2 ^ 64) :
    ∃ schedule m' copies', exec Machine.step m schedule = some m' ∧ m'.AtRest copies' ∧
      (∀ i, copies' i = [] ∨ i ∉ threads ∧ copies' i = copies i) ∧
      ∀ v p, (∀ i, Feeds (copies i) p p) → Holds v p m.mem → Holds v p m'.mem := by
  induction threads generalizing m copies with
  | nil =>
    exact ⟨[], m, copies, rfl, hm, fun i => Or.inr ⟨List.not_mem_nil, rfl⟩, fun _ _ _ => id⟩
  | cons k threads ih =>
    obtain ⟨schedule₁, m₁, hexec₁, hrest₁, hspread₁⟩ := exec_thread hm k (hsmall k)
    have hless : ∀ i, Function.update copies k [] i = [] ∨
        i ≠ k ∧ Function.update copies k [] i = copies i := by
      intro i
      rw [Function.update_apply]
      split_ifs with hi
      · exact Or.inl rfl
      · exact Or.inr ⟨hi, rfl⟩
    obtain ⟨schedule₂, m₂, copies', hexec₂, hrest₂, hcopies, hspread₂⟩ := ih hrest₁ fun i c hc => by
      rcases hless i with hnil | ⟨-, heq⟩
      · rw [hnil] at hc
        cases hc
      · exact hsmall i c (heq ▸ hc)
    refine ⟨schedule₁ ++ schedule₂, m₂, copies', (exec_append hexec₁ _).trans hexec₂, hrest₂,
      fun i => ?_, fun v p hfeeds hp => ?_⟩
    · rcases hcopies i with hnil | ⟨hnot, heq⟩
      · exact Or.inl hnil
      · rcases hless i with hnil | ⟨hne, hsame⟩
        · exact Or.inl (heq.trans hnil)
        · exact Or.inr ⟨fun hmem => (List.mem_cons.mp hmem).elim hne hnot, heq.trans hsame⟩
    · refine hspread₂ v p (fun i => ?_) (hspread₁ v p p (hfeeds k) hp).1
      rcases hless i with hnil | ⟨-, heq⟩
      · rw [hnil]
        exact fun c hc => by cases hc
      · rw [heq]
        exact hfeeds i

/-- **Finitely many threads can be run to their end**, and keep a value in a set that feeds itself.
-/
theorem exists_finished [Finite ι] (hm : m.AtRest copies)
    (hsmall : ∀ i, ∀ c ∈ copies i, c.bytes ≤ 2 ^ 64) :
    ∃ schedule m', exec Machine.step m schedule = some m' ∧ m'.Finished ∧
      ∀ v p, (∀ i, Feeds (copies i) p p) → Holds v p m.mem → Holds v p m'.mem := by
  have := Fintype.ofFinite ι
  obtain ⟨schedule, m', copies', hexec, hrest, hcopies, hspread⟩ :=
    exec_threads (Finset.univ : Finset ι).toList hm hsmall
  refine ⟨schedule, m', hexec, fun i => ?_, hspread⟩
  have hnil : copies' i = [] := by
    refine (hcopies i).resolve_right fun hnot => hnot.1 ?_
    rw [Finset.mem_toList]
    exact Finset.mem_univ i
  rw [hrest i, hnil]
  rfl

end Serial

end Machine

end Threads
