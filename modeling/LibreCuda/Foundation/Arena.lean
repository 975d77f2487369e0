import Mathlib.Data.Nat.Basic
import Mathlib.Data.List.Pairwise

/-! # Arenas

An arena hands out regions one behind another and takes them back all at once. A region is an offset
and a size.

* **`Arena.Handed`**: the regions lie one behind another in the bytes in use, all aligned.
* **`Arena.Handed.alloc`**: handing out one more region, of an aligned size, keeps that.
* **`Arena.Handed.disjoint`**: no two regions share an offset. -/

namespace Arena

/-- The offset is one of a region. -/
def Within (r : ℕ × ℕ) (k : ℕ) : Prop := r.1 ≤ k ∧ k < r.1 + r.2

/-- The regions were handed out one behind another, and `used` bytes are in use. -/
structure Handed (align : ℕ) (regions : List (ℕ × ℕ)) (used : ℕ) : Prop where
  aligned : align ∣ used
  starts : ∀ r ∈ regions, align ∣ r.1
  inside : ∀ r ∈ regions, r.1 + r.2 ≤ used
  behind : regions.Pairwise fun a b => a.1 + a.2 ≤ b.1

variable {align used size : ℕ} {regions : List (ℕ × ℕ)}

/-- A fresh arena. -/
theorem handed_nil (align : ℕ) : Handed align [] 0 :=
  ⟨Nat.dvd_zero align, nofun, nofun, .nil⟩

/-- **One more region**, behind the others. -/
theorem Handed.alloc (h : Handed align regions used) (hsize : align ∣ size) :
    Handed align (regions ++ [(used, size)]) (used + size) := by
  refine ⟨Nat.dvd_add h.aligned hsize, fun r hr => ?_, fun r hr => ?_, ?_⟩
  · rcases List.mem_append.mp hr with hr | hr
    · exact h.starts r hr
    · rw [List.mem_singleton.mp hr]
      exact h.aligned
  · rcases List.mem_append.mp hr with hr | hr
    · exact Nat.le_add_right_of_le (h.inside r hr)
    · rw [List.mem_singleton.mp hr]
  · refine List.pairwise_append.mpr ⟨h.behind, List.pairwise_singleton .., fun a ha b hb => ?_⟩
    rw [List.mem_singleton.mp hb]
    exact h.inside a ha

/-- **The regions are disjoint.** -/
theorem Handed.disjoint (h : Handed align regions used) :
    regions.Pairwise fun a b => ∀ k, ¬ (Within a k ∧ Within b k) :=
  h.behind.imp fun hle _ hk => absurd (Nat.lt_of_lt_of_le hk.1.2 hle) (Nat.not_lt.mpr hk.2.1)

end Arena
