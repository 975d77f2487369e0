import Mathlib.Data.List.Basic
import Mathlib.Logic.Function.Basic

/-! # Rings and circular pages

Two bounded buffers between a producer and a consumer that takes everything in order.

* A **ring** of `n` slots: the `k`-th entry ever sent goes to slot `k % n`. **`Holds`** says that
  the slots hold the entries that are still to be taken. It survives a push exactly while fewer than
  `n` entries are there, and the two positions modulo `n` coincide exactly when none is
  (`mod_eq_iff`).
* A **page** of cells: blocks of any length are written one behind the other, and writing returns to
  the start of the page at the producer's discretion, which begins the next *lap*. **`Block.Clear`**
  says of a block in use that writing has not run into it; **`Block.Clear.disjoint_iff`** says when
  the next write does not. A producer that returns exactly when a block does not fit stays inside
  the page if and only if no block is longer than the page (**`placements_inside_iff`**). -/

namespace Rings

/-! ## Rings -/

section Ring

variable {α ι : Type} {n : ℕ} {slot : ℕ → ι}

/-- The slots hold what was sent from position `taken` on. -/
def Holds (n : ℕ) (slot : ℕ → ι) (cells : ι → α) (sent : List α) (taken : ℕ) : Prop :=
  ∀ k a, taken ≤ k → sent[k]? = some a → cells (slot (k % n)) = a

/-- Positions less than a round apart share a slot only if they are equal. -/
theorem mod_eq_iff {k m : ℕ} (hle : k ≤ m) (hlt : m < k + n) : k % n = m % n ↔ k = m := by
  refine ⟨fun h => ?_, fun h => h ▸ rfl⟩
  have hd : (m - k) % n = 0 := Nat.sub_mod_eq_zero_of_mod_eq h.symm
  rw [Nat.mod_eq_of_lt (by omega)] at hd
  omega

/-- **A push** into a ring with a free slot keeps what the ring holds. -/
theorem Holds.push [DecidableEq ι] (hslot : ∀ i < n, ∀ j < n, slot i = slot j → i = j)
    {cells : ι → α} {sent : List α} {taken : ℕ} (h : Holds n slot cells sent taken)
    (hroom : sent.length < taken + n) (a : α) :
    Holds n slot (Function.update cells (slot (sent.length % n)) a) (sent ++ [a]) taken := by
  intro k b hk hb
  have hn : 0 < n := by
    by_contra hzero
    have hsent : sent.length < taken := by omega
    rw [List.getElem?_eq_none (by simp; omega)] at hb
    cases hb
  rcases Nat.lt_or_ge k sent.length with hlt | hge
  · rw [List.getElem?_append_left hlt] at hb
    have hne : slot (k % n) ≠ slot (sent.length % n) := by
      intro heq
      have hmod := hslot _ (Nat.mod_lt _ hn) _ (Nat.mod_lt _ hn) heq
      have heq := (mod_eq_iff (n := n) (by omega) (by omega)).mp hmod
      omega
    rw [Function.update_of_ne hne]
    exact h k b hk hb
  · rw [List.getElem?_append_right hge] at hb
    have hlast : k = sent.length := by
      obtain ⟨hlt, -⟩ := List.getElem?_eq_some_iff.mp hb
      simp only [List.length_singleton] at hlt
      omega
    subst hlast
    rw [Nat.sub_self] at hb
    obtain rfl := Option.some.inj hb
    exact Function.update_self ..

/-- **A pop** leaves the rest. -/
theorem Holds.pop {cells : ι → α} {sent : List α} {taken : ℕ} (h : Holds n slot cells sent taken) :
    Holds n slot cells sent (taken + 1) :=
  fun k a hk ha => h k a (Nat.le_of_succ_le hk) ha

end Ring

/-! ## Pages -/

/-- A block of a page: where it starts, how long it is and in which lap it was written. -/
structure Block where
  start : ℕ
  length : ℕ
  lap : ℕ
  deriving DecidableEq, Repr

/-- Writing has not run into the block: in the lap of the block it goes on behind it, and in a later
lap it is still in front of it. -/
def Block.Clear (b : Block) (lap idx : ℕ) : Prop :=
  b.lap ≤ lap ∧ (b.lap = lap → b.start + b.length ≤ idx) ∧ (b.lap < lap → idx ≤ b.start)

variable {b : Block} {lap idx n : ℕ}

/-- Writing on in the same lap. -/
theorem Block.Clear.advance (h : b.Clear lap idx) (hahead : b.lap < lap → idx + n ≤ b.start) :
    b.Clear lap (idx + n) :=
  ⟨h.1, fun heq => Nat.le_add_right_of_le (h.2.1 heq), hahead⟩

/-- Beginning the next lap. -/
theorem Block.Clear.wrap (h : b.Clear lap idx) (hahead : n ≤ b.start) : b.Clear (lap + 1) n :=
  ⟨Nat.le_succ_of_le h.1, fun heq => absurd h.1 (by omega), fun _ => hahead⟩

/-- The block that was written last. -/
theorem clear_written (start n lap : ℕ) : (⟨start, n, lap⟩ : Block).Clear lap (start + n) :=
  ⟨Nat.le_refl _, fun _ => Nat.le_refl _, fun h => absurd h (Nat.lt_irrefl _)⟩

/-- **When a write is harmless.** Writing `n` cells from the write index on misses a block in use if
and only if the block, when it is from an earlier lap, starts behind them. -/
theorem Block.Clear.disjoint_iff (h : b.Clear lap idx) (hb : 0 < b.length) :
    (∀ k < n, ∀ l < b.length, idx + k ≠ b.start + l) ↔ (b.lap < lap → idx + n ≤ b.start) := by
  constructor
  · intro hmiss hlap
    have hidx := h.2.2 hlap
    by_contra hlt
    exact hmiss (b.start - idx) (by omega) 0 hb (by omega)
  · intro hahead k hk l hl
    rcases Nat.lt_or_ge b.lap lap with hlap | hlap
    · have := hahead hlap
      omega
    · have := h.2.1 (Nat.le_antisymm h.1 hlap)
      omega

/-- Writing `n` cells from the start of the page on misses a block if and only if it starts behind
them. -/
theorem disjoint_wrap_iff (hb : 0 < b.length) :
    (∀ k < n, ∀ l < b.length, k ≠ b.start + l) ↔ n ≤ b.start := by
  constructor
  · intro hmiss
    by_contra hlt
    exact hmiss b.start (by omega) 0 hb rfl
  · intro hahead k hk l hl
    omega

/-- Where a block of `n` cells goes: behind the write index if it fits there, and to the start of
the page if not. -/
def placeAt (cap idx n : ℕ) : ℕ := if idx + n ≤ cap then idx else 0

/-- Where blocks of these lengths go, one after another, with their lengths. -/
def placements (cap : ℕ) : ℕ → List ℕ → List (ℕ × ℕ)
  | _, [] => []
  | idx, n :: ns => (placeAt cap idx n, n) :: placements cap (placeAt cap idx n + n) ns

/-- The write index behind them. -/
def placedEnd (cap : ℕ) : ℕ → List ℕ → ℕ
  | idx, [] => idx
  | idx, n :: ns => placedEnd cap (placeAt cap idx n + n) ns

/-- A block ends inside the page if and only if it is not longer than the page. -/
theorem placeAt_inside_iff (cap idx n : ℕ) : placeAt cap idx n + n ≤ cap ↔ n ≤ cap := by
  unfold placeAt
  split_ifs
  · omega
  · omega

/-- **All blocks end inside the page** if and only if none is longer than the page. -/
theorem placements_inside_iff (cap idx : ℕ) (ns : List ℕ) :
    (∀ b ∈ placements cap idx ns, b.1 + b.2 ≤ cap) ↔ ∀ n ∈ ns, n ≤ cap := by
  induction ns generalizing idx with
  | nil => simp [placements]
  | cons n ns ih =>
    rw [placements, List.forall_mem_cons, List.forall_mem_cons, ih, placeAt_inside_iff]

/-- The write index stays inside as well. -/
theorem placedEnd_le {cap idx : ℕ} {ns : List ℕ} (hidx : idx ≤ cap) (hns : ∀ n ∈ ns, n ≤ cap) :
    placedEnd cap idx ns ≤ cap := by
  induction ns generalizing idx with
  | nil => exact hidx
  | cons n ns ih =>
    rw [List.forall_mem_cons] at hns
    exact ih ((placeAt_inside_iff cap idx n).mpr hns.1) hns.2

end Rings
