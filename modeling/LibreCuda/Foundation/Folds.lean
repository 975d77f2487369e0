import Mathlib.Data.List.Basic
import Mathlib.Tactic.Common

/-! # Fallible folds

A fold over a list whose rounds can fail. Where what a round comes to depends on the element alone,
the fold succeeds or fails as the elements do, and the first failure is that of the fold.

* **`foldlM_outcome`**, **`mapM_outcome`**: the fold comes to what its elements come to.
* **`forM_eq_error_iff`**: the first failure ends it.
* **`forM_eq_error_iff_takeWhile`**: whether that is one failure rather than another. -/

namespace Folds

variable {σ ε α β : Type}

/-- Whether a computation succeeds, without what it returns. -/
def outcome (x : Except ε α) : Except ε Unit := x.map fun _ => ()

@[simp] theorem outcome_ok (a : α) : outcome (.ok a : Except ε α) = .ok () := rfl

@[simp] theorem outcome_error (e : ε) : outcome (.error e : Except ε α) = .error e := rfl

theorem outcome_eq_ok_iff {x : Except ε α} : outcome x = .ok () ↔ ∃ a, x = .ok a := by
  cases x with
  | ok a => simp
  | error e => simp

theorem outcome_eq_error_iff {x : Except ε α} {e : ε} : outcome x = .error e ↔ x = .error e := by
  cases x with
  | ok a => simp
  | error e' => simp

/-- A computation succeeds where both of its parts do. -/
theorem outcome_bind {x : Except ε α} {f : α → Except ε β} {r : Except ε Unit}
    (h : ∀ a, outcome (f a) = r) : outcome (x >>= f) = (outcome x >>= fun _ => r) := by
  cases x with
  | ok a => exact h a
  | error e => rfl

/-- **A fold comes to what its elements come to.** -/
theorem foldlM_outcome {f : σ → α → Except ε σ} {g : α → Except ε Unit}
    (h : ∀ t a, outcome (f t a) = g a) (l : List α) (t : σ) :
    outcome (l.foldlM f t) = l.forM g := by
  induction l generalizing t with
  | nil => rfl
  | cons a l ih =>
    rw [List.foldlM_cons, outcome_bind fun t' => ih t', h]
    rfl

theorem mapM_outcome (f : α → Except ε β) (l : List α) :
    outcome (l.mapM f) = l.forM fun a => outcome (f a) := by
  induction l with
  | nil => rfl
  | cons a l ih =>
    -- what the first element returns is put in front, and fails nothing
    have hrest : ∀ b, outcome (l.mapM f >>= fun rest => pure (b :: rest)) =
        l.forM fun a => outcome (f a) := by
      intro b
      rw [← ih]
      cases l.mapM f with
      | ok rest => rfl
      | error e => rfl
    rw [List.mapM_cons, outcome_bind hrest]
    rfl

theorem forM_cons_eq (a : α) (l : List α) (g : α → Except ε Unit) :
    (a :: l).forM g = (g a >>= fun _ => l.forM g) := rfl

theorem forM_eq_ok_iff {l : List α} {g : α → Except ε Unit} :
    l.forM g = .ok () ↔ ∀ a ∈ l, g a = .ok () := by
  induction l with
  | nil => exact ⟨fun _ a ha => absurd ha List.not_mem_nil, fun _ => rfl⟩
  | cons a l ih =>
    rw [forM_cons_eq, List.forall_mem_cons, ← ih]
    cases hg : g a with
    | ok u =>
      cases u
      exact (and_iff_right rfl).symm
    | error e => exact ⟨fun h => absurd h (by simp [bind, Except.bind]), fun h => absurd h.1 (by simp)⟩

/-- **The first failure ends the fold.** -/
theorem forM_eq_error_iff {l : List α} {g : α → Except ε Unit} {e : ε} :
    l.forM g = .error e ↔
      ∃ seen a rest, l = seen ++ a :: rest ∧ (∀ b ∈ seen, g b = .ok ()) ∧ g a = .error e := by
  induction l with
  | nil =>
    refine ⟨fun h => absurd h (by simp [pure, Except.pure]), ?_⟩
    rintro ⟨seen, a, rest, hl, -⟩
    simp at hl
  | cons a l ih =>
    rw [forM_cons_eq]
    cases hg : g a with
    | error e' =>
      constructor
      · intro h
        have he : e' = e := Except.error.inj h
        exact ⟨[], a, l, rfl, fun b hb => absurd hb List.not_mem_nil, he ▸ hg⟩
      · rintro ⟨seen, b, rest, hl, hseen, hb⟩
        cases seen with
        | nil =>
          obtain ⟨rfl, -⟩ := List.cons.inj hl
          exact hg.symm.trans hb
        | cons c seen =>
          obtain ⟨rfl, -⟩ := List.cons.inj hl
          exact absurd (hg.symm.trans (hseen a List.mem_cons_self)) (by simp)
    | ok u =>
      refine ih.trans ⟨?_, ?_⟩
      · rintro ⟨seen, b, rest, rfl, hseen, hb⟩
        refine ⟨a :: seen, b, rest, rfl, fun c hc => ?_, hb⟩
        rcases List.mem_cons.mp hc with rfl | hc
        · exact hg
        · exact hseen c hc
      · rintro ⟨seen, b, rest, hl, hseen, hb⟩
        cases seen with
        | nil =>
          obtain ⟨rfl, -⟩ := List.cons.inj hl
          exact absurd (hg.symm.trans hb) (by simp)
        | cons c seen =>
          obtain ⟨rfl, rfl⟩ := List.cons.inj hl
          exact ⟨seen, b, rest, rfl, fun d hd => hseen d (List.mem_cons_of_mem a hd), hb⟩

/-- **A fold ends with one failure rather than another** if there is an element for it in front of
the others. -/
theorem forM_eq_error_iff_takeWhile {l : List α} {g : α → Except ε Unit} {e : ε} {p : α → Bool}
    (h : ∀ a, p a = true ↔ g a = .ok () ∨ g a = .error e) :
    l.forM g = .error e ↔ ∃ a ∈ l.takeWhile p, g a = .error e := by
  induction l with
  | nil =>
    refine ⟨fun hnil => absurd hnil (by simp [pure, Except.pure]), ?_⟩
    rintro ⟨a, ha, -⟩
    exact absurd ha List.not_mem_nil
  | cons a l ih =>
    rw [forM_cons_eq]
    cases hg : g a with
    | ok u =>
      cases u
      have hp : p a = true := (h a).mpr (Or.inl hg)
      rw [List.takeWhile_cons_of_pos hp]
      simp only [List.exists_mem_cons_iff, hg, reduceCtorEq, false_or, ← ih]
      rfl
    | error e' =>
      constructor
      · intro hfirst
        have he : e' = e := Except.error.inj hfirst
        subst he
        have hp : p a = true := (h a).mpr (Or.inr hg)
        rw [List.takeWhile_cons_of_pos hp]
        exact ⟨a, List.mem_cons_self, hg⟩
      · rintro ⟨b, hb, hgb⟩
        -- the element is in what is taken, so that this one is too
        have hp : p a = true := by
          by_contra hnot
          rw [List.takeWhile_cons_of_neg hnot] at hb
          exact absurd hb List.not_mem_nil
        rcases (h a).mp hp with hok | herror
        · rw [hg] at hok
          cases hok
        · rw [hg] at herror
          exact congrArg _ (Except.error.inj herror)

end Folds
