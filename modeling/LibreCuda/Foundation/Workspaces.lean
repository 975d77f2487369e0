import LibreCuda.Foundation.Interleavings
import LibreCuda.Foundation.Threads

/-! # Copies as actions on a workspace

The accesses of threads that copy memory are actions on the memory and the registers of the threads.
Interleaved in any order they do what the machine of the threads does.

* **`Access.act`** is what an access does, and **`Complete`** says that all accesses of all threads
  have been made, those of a thread in its order.
* **`mem_of_complete`**: where copies do not meet, a byte that is written holds in the end what was
  at its source at first, and no other byte has changed.
* **`commute_of_spares`**, **`commute_of_ignores`**: accesses to different bytes commute, and so does an
  access with a change of the memory that ignores its bytes. -/

namespace Threads

open Bytes Interleavings Runs

/-- Memory, and what each thread has loaded. -/
@[ext] structure Workspace (κ : Type) where
  mem : Memory
  loaded : κ → ℕ → BitVec 8

/-- A change of the memory. -/
def onMemory {κ : Type} (f : Memory → Memory) (w : Workspace κ) : Workspace κ :=
  { w with mem := f w.mem }

/-- Changes of the memory leave what they leave there. -/
theorem mem_act_onMemory {κ : Type} (changes : List (Memory → Memory)) (w : Workspace κ) :
    (act (changes.map onMemory) w).mem = act changes w.mem := by
  induction changes generalizing w with
  | nil => rfl
  | cons f rest ih => exact ih (onMemory f w)

section Workspace

variable {κ : Type} [DecidableEq κ]

/-- What an access of a thread does. -/
def Access.act (k : κ) : Access → Workspace κ → Workspace κ
  | .load c, w => { w with
      loaded := Function.update w.loaded k fun j =>
        if j < c.bytes then w.mem (c.srcAt j) else w.loaded k j }
  | .store c, w => { w with mem := Bytes.store w.mem c.dst ((List.range c.bytes).map (w.loaded k)) }

/-- All accesses of all threads, those of a thread in its order. -/
def Complete (copies : κ → List Copy) (l : List (κ × Access)) : Prop :=
  ∀ k, (l.filter fun a => a.1 = k).map Prod.snd = accesses (copies k)

/-- Accesses of threads as actions. -/
def actionsAt (l : List (κ × Access)) : List (Workspace κ → Workspace κ) :=
  l.map fun a => a.2.act a.1

/-- **One thread after another** makes all accesses, if every thread that copies has its turn. -/
theorem complete_flatMap {threads : List κ} (hnodup : threads.Nodup) {copies : κ → List Copy}
    (hall : ∀ k, copies k ≠ [] → k ∈ threads) :
    Complete copies (threads.flatMap fun k => (accesses (copies k)).map fun a => (k, a)) := by
  have hturn : ∀ k, (((threads.flatMap fun k => (accesses (copies k)).map fun a => (k, a)).filter
      fun a => a.1 = k).map Prod.snd) = if k ∈ threads then accesses (copies k) else [] := fun k => by
    clear hall
    induction threads with
    | nil => rfl
    | cons l rest ih =>
      obtain ⟨hnot, hrest⟩ := List.nodup_cons.mp hnodup
      rw [List.flatMap_cons, List.filter_append, List.map_append, ih hrest, List.filter_map,
        List.map_map]
      by_cases hk : k = l
      · subst hk
        simp [hnot, Function.comp_def]
      · simp [hk, Ne.symm hk, Function.comp_def]
  intro k
  rw [hturn]
  split_ifs with hk
  · rfl
  · rw [Classical.byContradiction fun hne => hk (hall k hne)]
    rfl

/-! ## What the machine does -/

/-- The memory is the same, and what a thread stores next has been loaded. -/
structure Machine.Mirrors (m : Machine κ) (w : Workspace κ) : Prop where
  mem : w.mem = m.mem
  loaded : ∀ k c rest, m.todo k = .store c :: rest →
    m.loaded k = (List.range c.bytes).map (w.loaded k)

/-- **One access** does what a step of its thread does. -/
theorem Machine.Mirrors.step {m : Machine κ} {w : Workspace κ} (hm : m.Mirrors w)
    (hstaged : ∀ k, Staged (m.todo k)) {k : κ} {a : Access} {rest : List Access}
    (htodo : m.todo k = a :: rest) : ∃ m', m.step k = some m' ∧ m'.Mirrors (a.act k w) ∧
      m'.todo = Function.update m.todo k rest := by
  have hother : ∀ {todo : List Access} {l : κ} {c : Copy} {rest' : List Access}, l ≠ k →
      Function.update m.todo k todo l = .store c :: rest' →
        m.loaded l = (List.range c.bytes).map (w.loaded l) := fun hne h => by
    rw [Function.update_of_ne hne] at h
    exact hm.loaded _ _ _ h
  obtain ⟨m', hs⟩ : ∃ m', m.step k = some m' := by
    unfold Machine.step
    rw [htodo]
    cases a with
    | load c => exact ⟨_, rfl⟩
    | store c => exact ⟨_, rfl⟩
  refine ⟨m', hs, ?_⟩
  rcases step_cases (hstaged k) hs with ⟨c, rest', heq, -, rfl⟩ | ⟨c, rest', heq, hpaired, rfl⟩
  · obtain ⟨rfl, rfl⟩ := List.cons.inj (htodo.symm.trans heq)
    refine ⟨⟨hm.mem, fun l c' rest'' h => ?_⟩, rfl⟩
    by_cases hl : l = k
    · subst hl
      replace h : Function.update m.todo l (.store c :: rest') l = .store c' :: rest'' := h
      rw [Function.update_self] at h
      obtain ⟨hc, -⟩ := List.cons.inj h
      obtain rfl := Access.store.inj hc
      simp only [Access.act, Function.update_self, hm.mem]
      exact List.map_congr_left fun j hj => (if_pos (List.mem_range.mp hj)).symm
    · simp only [Access.act, Function.update_of_ne hl]
      exact hother hl h
  · obtain ⟨rfl, rfl⟩ := List.cons.inj (htodo.symm.trans heq)
    refine ⟨⟨?_, fun l c' rest'' h => ?_⟩, rfl⟩
    · simp only [Access.act, hm.mem, hm.loaded k c rest heq]
    · by_cases hl : l = k
      · -- behind a store the thread is between whole copies
        subst hl
        replace h : Function.update m.todo l rest l = .store c' :: rest'' := h
        rw [Function.update_self] at h
        rw [h] at hpaired
        exact hpaired.elim
      · exact hother hl h

/-- **Accesses in any order** do what the machine does with their threads in that order. -/
theorem exec_of_accesses {m : Machine κ} {w : Workspace κ} (hm : m.Mirrors w)
    (hstaged : ∀ k, Staged (m.todo k)) {l : List (κ × Access)}
    (hl : ∀ k, (l.filter fun a => a.1 = k).map Prod.snd = m.todo k) :
    ∃ m', exec Machine.step m (l.map Prod.fst) = some m' ∧ m'.Finished ∧
      (act (actionsAt l) w).mem = m'.mem := by
  induction l generalizing m w with
  | nil => exact ⟨m, rfl, fun k => (hl k).symm, hm.mem⟩
  | cons a l ih =>
    have hfront := hl a.1
    rw [List.filter_cons_of_pos (by simp), List.map_cons] at hfront
    obtain ⟨m', hs, hm', htodo⟩ := hm.step hstaged hfront.symm
    obtain ⟨m'', hexec, hfinished, hmem⟩ := ih hm' (staged_step hstaged hs) fun k => by
      rw [htodo]
      by_cases hk : k = a.1
      · subst hk
        rw [Function.update_self]
      · rw [Function.update_of_ne hk, ← hl k, List.filter_cons_of_neg (by simpa using Ne.symm hk)]
    exact ⟨m'', (exec_cons hs _).trans hexec, hfinished, hmem⟩

/-! ## What is left in the memory -/

/-- A step changes only bytes that some copy writes. -/
theorem Machine.Sound.mem_of_step {m m' : Machine κ} {copies : κ → List Copy} {mem : Memory}
    {source : BitVec 64 → BitVec 64} (h : m.Sound copies mem source) {k : κ}
    (hs : m.step k = some m') {x : BitVec 64} (hx : ¬ Writes copies x) : m'.mem x = m.mem x := by
  rcases step_cases (h.staged k) hs with ⟨c, rest, -, -, rfl⟩ | ⟨c, rest, htodo, -, rfl⟩
  · rfl
  · have hc : c ∈ copies k := h.own k c (Or.inr (by rw [htodo]; exact List.mem_cons_self))
    rcases store_dstAt m.mem c (m.loaded k) x with ⟨j, hj, rfl, -⟩ | ⟨hval, -⟩
    · refine absurd ⟨k, c, hc, j, ?_, rfl⟩ hx
      rw [h.loaded k c rest htodo, List.length_map, List.length_range] at hj
      exact hj
    · exact hval

/-- Bytes that no copy writes stay as they were. -/
theorem mem_of_not_writes {copies : κ → List Copy} {source : BitVec 64 → BitVec 64}
    (ha : Apart copies source) {mem : Memory} {m : Machine κ} {schedule : List κ}
    (hrun : exec Machine.step (Machine.start mem copies) schedule = some m) {x : BitVec 64}
    (hx : ¬ Writes copies x) : m.mem x = mem x := by
  have halways : Always Machine.step
      (fun m => m.Sound copies mem source ∧ m.mem x = mem x) (Machine.start mem copies) schedule :=
    always_of_step (fun _ _ _ h hs => ⟨h.1.step ha hs, (h.1.mem_of_step hs hx).trans h.2⟩)
      ⟨sound_start, rfl⟩
  exact (halways.exec hrun).2

/-- **Copies that do not meet**, in any order: a byte that is written holds what was at its source,
and the others are as they were. -/
theorem mem_of_complete {copies : κ → List Copy} {source : BitVec 64 → BitVec 64}
    (ha : Apart copies source) {l : List (κ × Access)} (hl : Complete copies l) (w : Workspace κ)
    (x : BitVec 64) :
    (Writes copies x → (act (actionsAt l) w).mem x = w.mem (source x)) ∧
      (¬ Writes copies x → (act (actionsAt l) w).mem x = w.mem x) := by
  have hmirrors : (Machine.start w.mem copies).Mirrors w := by
    refine ⟨rfl, fun k c rest htodo => ?_⟩
    have hpaired := paired_accesses (copies k)
    rw [show accesses (copies k) = .store c :: rest from htodo] at hpaired
    exact hpaired.elim
  obtain ⟨m, hrun, hfinished, hmem⟩ :=
    exec_of_accesses hmirrors (fun k => Or.inl (paired_accesses (copies k))) hl
  rw [hmem]
  exact ⟨copied_of_finished ha hrun hfinished, mem_of_not_writes ha hrun⟩

/-! ## Operations of several threads -/

/-- The accesses for one operation are made by its threads. -/
theorem fst_of_complete {ι τ : Type} [DecidableEq ι] [DecidableEq τ] {n : ι} {work : τ → List Copy}
    {l : List ((ι × τ) × Access)}
    (hl : Complete (fun k => if k.1 = n then work k.2 else []) l) {a : (ι × τ) × Access}
    (ha : a ∈ l) : a.1.1 = n := by
  by_contra hne
  have hnone := (hl a.1).trans (congrArg accesses (if_neg hne))
  have hmem : a ∈ l.filter fun b => b.1 = a.1 := List.mem_filter.mpr ⟨ha, by simp⟩
  rw [List.map_eq_nil_iff.mp hnone] at hmem
  cases hmem

/-- **Operations in any order**: where the actions of each are all accesses of its threads, those of
all of them together are all accesses of all threads. -/
theorem exists_complete {ι τ : Type} [DecidableEq ι] [DecidableEq τ] {work : ι → τ → List Copy}
    {log : Log ι (Workspace (ι × τ))}
    (h : ∀ n, ∃ l, (log.filter fun e => e.1 = n).map Prod.snd = actionsAt l ∧
      Complete (fun k => if k.1 = n then work n k.2 else []) l) :
    ∃ l, log.map Prod.snd = actionsAt l ∧ Complete (fun k => work k.1 k.2) l := by
  choose items hitems hcomplete using h
  obtain ⟨l, hl, hof⟩ := exists_items (fun _ (a : (ι × τ) × Access) => a.2.act a.1) hitems
  have hfst : ∀ a ∈ l, a.2.1.1 = a.1 := fun a ha => by
    refine fst_of_complete (hcomplete a.1) ?_
    rw [← hof a.1]
    exact List.mem_map_of_mem (List.mem_filter.mpr ⟨ha, by simp⟩)
  refine ⟨l.map Prod.snd, ?_, fun k => ?_⟩
  · rw [hl, List.map_map, actionsAt, List.map_map]
    rfl
  · -- the accesses of a thread are among those for its operation
    have hone := (hcomplete k.1 k).trans (congrArg accesses (if_pos rfl))
    rw [← hof k.1, List.filter_map, List.map_map, List.filter_filter] at hone
    rw [← hone, List.filter_map, List.map_map]
    congr 1
    refine List.filter_congr fun a ha => ?_
    by_cases hk : a.2.1 = k
    · subst hk
      simp [hfst a ha]
    · simp [hk]

/-! ## Accesses that commute -/

/-- The bytes that an access reads. -/
def Access.reads : Access → Set (BitVec 64)
  | .load c => {x | ∃ j < c.bytes, x = c.srcAt j}
  | .store _ => ∅

/-- The bytes that an access writes. -/
def Access.writes : Access → Set (BitVec 64)
  | .load _ => ∅
  | .store c => span c.dst c.bytes

/-- An access writes nothing that another one reads or writes. -/
def Access.Spares (a b : Access) : Prop := ∀ x ∈ a.writes, x ∉ b.reads ∧ x ∉ b.writes

/-- A change of the memory leaves some bytes alone, and does not depend on the free ones of them. -/
structure Ignores (f : Memory → Memory) (fixed free : Set (BitVec 64)) : Prop where
  keeps : ∀ mem, ∀ x ∈ fixed ∪ free, f mem x = mem x
  blind : ∀ mem mem' : Memory, (∀ x ∉ free, mem x = mem' x) → ∀ x ∉ free, f mem x = f mem' x

/-- What a store leaves at an address. -/
theorem mem_act_store (k : κ) (c : Copy) (w : Workspace κ) (x : BitVec 64) :
    ((Access.store c).act k w).mem x =
      if (x - c.dst).toNat < c.bytes then w.loaded k (x - c.dst).toNat else w.mem x := by
  have hlength : ((List.range c.bytes).map (w.loaded k)).length = c.bytes := by
    rw [List.length_map, List.length_range]
  split_ifs with hx
  · show store w.mem c.dst ((List.range c.bytes).map (w.loaded k)) x = _
    rw [store_of_lt (by rw [hlength]; exact hx), List.getElem_map, List.getElem_range]
  · exact store_of_le (by rw [hlength]; exact Nat.not_lt.mp hx)

/-- What a load leaves in a register. -/
theorem loaded_act_load (k l : κ) (c : Copy) (w : Workspace κ) (j : ℕ) :
    ((Access.load c).act k w).loaded l j =
      if l = k ∧ j < c.bytes then w.mem (c.srcAt j) else w.loaded l j := by
  by_cases hl : l = k
  · subst hl
    simp only [Access.act, Function.update_self, true_and]
  · simp only [Access.act, Function.update_of_ne hl, hl, false_and, if_false]

/-- A load is not disturbed by a store to other bytes. -/
theorem commute_load_store {k l : κ} (hne : k ≠ l) {c d : Copy}
    (h : (Access.store d).Spares (.load c)) :
    Function.Commute ((Access.load c).act k) ((Access.store d).act l) := by
  intro w
  refine Workspace.ext (funext fun x => ?_) (funext fun i => funext fun j => ?_)
  · -- the store has its register from before, which is not the one that is loaded
    have hregister : ∀ j, ((Access.load c).act k w).loaded l j = w.loaded l j := fun j => by
      rw [loaded_act_load, if_neg fun h => hne h.1.symm]
    rw [mem_act_store, hregister]
    exact mem_act_store ..
  · rw [loaded_act_load]
    show _ = ((Access.load c).act k w).loaded i j
    rw [loaded_act_load]
    split_ifs with hi
    · rw [mem_act_store]
      exact if_neg fun hin => (h _ hin).1 ⟨j, hi.2, rfl⟩
    · rfl

/-- **Accesses of two threads commute**, if neither writes what the other one reads or writes. -/
theorem commute_of_spares {k l : κ} (hne : k ≠ l) {a b : Access} (hab : a.Spares b)
    (hba : b.Spares a) : Function.Commute (a.act k) (b.act l) := by
  cases a with
  | load c =>
    cases b with
    | load d =>
      intro w
      refine Workspace.ext rfl (funext fun i => funext fun j => ?_)
      simp only [loaded_act_load]
      -- at most one of the two registers is the one in question
      by_cases hk : i = k ∧ j < c.bytes
      · have hl : ¬ (i = l ∧ j < d.bytes) := fun h => hne (hk.1.symm.trans h.1)
        rw [if_pos hk, if_neg hl, if_pos hk]
        rfl
      · rw [if_neg hk, if_neg hk]
        rfl
    | store d => exact commute_load_store hne hba
  | store c =>
    cases b with
    | load d => exact (commute_load_store hne.symm hab).symm
    | store d =>
      intro w
      refine Workspace.ext (funext fun x => ?_) rfl
      simp only [mem_act_store]
      split_ifs with hc hd
      · exact absurd hd (hab x hc).2
      · rfl
      · rfl
      · rfl

/-- **An access commutes with a change of the memory** that ignores its bytes. -/
theorem commute_of_ignores {k : κ} {f : Memory → Memory} {a : Access} {fixed free : Set (BitVec 64)}
    (hf : Ignores f fixed free) (hreads : a.reads ⊆ fixed) (hwrites : a.writes ⊆ free) :
    Function.Commute (a.act k) (onMemory f) := by
  intro w
  cases a with
  | load c =>
    refine Workspace.ext rfl (funext fun i => funext fun j => ?_)
    show _ = ((Access.load c).act k w).loaded i j
    rw [loaded_act_load, loaded_act_load]
    split_ifs with hi
    · exact hf.keeps _ _ (Or.inl (hreads ⟨j, hi.2, rfl⟩))
    · rfl
  | store c =>
    refine Workspace.ext (funext fun x => ?_) rfl
    have hout : ∀ x ∉ free, ¬ (x - c.dst).toNat < c.bytes := fun x hx hin => hx (hwrites hin)
    show _ = f ((Access.store c).act k w).mem x
    by_cases hfree : x ∈ free
    · rw [hf.keeps _ x (Or.inr hfree), mem_act_store, mem_act_store]
      split_ifs
      · rfl
      · exact hf.keeps _ x (Or.inr hfree)
    · rw [mem_act_store, if_neg (hout x hfree)]
      exact hf.blind _ _ (fun y hy => by rw [mem_act_store, if_neg (hout y hy)]) x hfree

end Workspace

end Threads
