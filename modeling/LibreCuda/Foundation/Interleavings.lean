import Mathlib.Data.List.Basic
import Mathlib.Logic.Function.Conjugate
import Mathlib.Order.Lattice

/-! # Actions that are interleaved

Operations act on a state one action at a time, and the actions of several operations may be
interleaved. A log has the actions in the order they were performed, each with its operation.

* **`perform`** is the state behind a log, and **`actionsOf`** are the actions of one operation.
* **`Serializable`**: an action that comes before one of an earlier operation commutes with it.
* **`perform_eq_serial`**: the state behind a serializable log is the one behind the operations one
  after another.
* **`perform_eq_groups`**: where operations of one group may be interleaved in any way, it is the one
  behind the groups one after another. -/

namespace Interleavings

variable {κ M : Type}

/-- Actions, each with its operation, in the order they were performed. -/
abbrev Log (κ M : Type) : Type := List (κ × (M → M))

/-- Several actions one after another. -/
def act (actions : List (M → M)) (m : M) : M := actions.foldl (fun m f => f m) m

/-- The state behind a log. -/
def perform (log : Log κ M) (m : M) : M := act (log.map Prod.snd) m

@[simp] theorem act_nil (m : M) : act [] m = m := rfl

@[simp] theorem act_cons (f : M → M) (actions : List (M → M)) (m : M) :
    act (f :: actions) m = act actions (f m) := rfl

theorem act_append (a b : List (M → M)) (m : M) : act (a ++ b) m = act b (act a m) :=
  List.foldl_append

@[simp] theorem perform_nil (m : M) : perform ([] : Log κ M) m = m := rfl

@[simp] theorem perform_cons (e : κ × (M → M)) (log : Log κ M) (m : M) :
    perform (e :: log) m = perform log (e.2 m) := rfl

theorem perform_append (a b : Log κ M) (m : M) : perform (a ++ b) m = perform b (perform a m) := by
  rw [perform, List.map_append, act_append]
  rfl

/-- An action may change places with actions it commutes with. -/
theorem act_commute {f : M → M} {actions : List (M → M)} (h : ∀ g ∈ actions, Function.Commute f g)
    (m : M) : act actions (f m) = f (act actions m) := by
  induction actions generalizing m with
  | nil => rfl
  | cons g rest ih =>
    rw [act_cons, act_cons, ← h g List.mem_cons_self m]
    exact ih (fun g' hg' => h g' (List.mem_cons_of_mem g hg')) (g m)

/-- **Some operations may be performed first**, if what comes before them commutes with them. -/
theorem perform_split {log : Log κ M} (p : κ → Prop) [DecidablePred p]
    (h : log.Pairwise fun a b => ¬ p a.1 → p b.1 → Function.Commute a.2 b.2) (m : M) :
    perform log m =
      perform (log.filter fun e => ¬ p e.1) (perform (log.filter fun e => p e.1) m) := by
  induction log generalizing m with
  | nil => rfl
  | cons e rest ih =>
    obtain ⟨hcommute, hrest⟩ := List.pairwise_cons.mp h
    rw [perform_cons, ih hrest]
    by_cases hp : p e.1
    · rw [List.filter_cons_of_neg (by simpa using hp), List.filter_cons_of_pos (by simpa using hp),
        perform_cons]
    · -- the action in front belongs to a later operation, and so commutes with the first ones
      have hall : ∀ g ∈ (rest.filter fun e => p e.1).map Prod.snd, Function.Commute e.2 g := by
        intro g hg
        obtain ⟨e', he', rfl⟩ := List.mem_map.mp hg
        obtain ⟨hmem, hop⟩ := List.mem_filter.mp he'
        exact hcommute e' hmem hp (of_decide_eq_true hop)
      rw [List.filter_cons_of_pos (by simpa using hp), List.filter_cons_of_neg (by simpa using hp),
        perform_cons]
      exact congrArg _ (act_commute hall m)

/-! ## Operations one after another -/

section Serial

variable [LinearOrder κ]

/-- The actions of an operation, in order. -/
def actionsOf (k : κ) (log : Log κ M) : List (M → M) :=
  (log.filter fun e => e.1 = k).map Prod.snd

/-- What comes before an action of an earlier operation commutes with it. -/
def Serializable (log : Log κ M) : Prop :=
  log.Pairwise fun a b => b.1 < a.1 → Function.Commute a.2 b.2

@[simp] theorem actionsOf_nil (k : κ) : actionsOf k ([] : Log κ M) = [] := rfl

theorem actionsOf_append (k : κ) (a b : Log κ M) :
    actionsOf k (a ++ b) = actionsOf k a ++ actionsOf k b := by
  rw [actionsOf, List.filter_append, List.map_append]
  rfl

theorem actionsOf_singleton (k : κ) (e : κ × (M → M)) :
    actionsOf k [e] = if e.1 = k then [e.2] else [] := by
  rw [actionsOf, List.filter_singleton]
  by_cases hk : e.1 = k
  · simp [hk]
  · simp [hk]

/-- The actions of an operation are among those of some operations, if it is one of them. -/
theorem actionsOf_filter {q : κ → Prop} [DecidablePred q] {k : κ} (hk : q k) (log : Log κ M) :
    actionsOf k (log.filter fun e => q e.1) = actionsOf k log := by
  rw [actionsOf, actionsOf, List.filter_filter]
  congr 1
  refine List.filter_congr fun e _ => ?_
  by_cases he : e.1 = k
  · simp [he, hk]
  · simp [he]

/-- **The first operation may be performed first.** -/
theorem perform_first {log : Log κ M} (h : Serializable log) {k : κ} (hfirst : ∀ e ∈ log, k ≤ e.1)
    (m : M) : perform log m = perform (log.filter fun e => e.1 ≠ k) (act (actionsOf k log) m) := by
  refine perform_split (· = k) (h.imp_of_mem fun {a b} ha _ hcommute hne heq => hcommute ?_) m
  exact heq ▸ lt_of_le_of_ne (hfirst a ha) (Ne.symm hne)

/-- **A serializable log leaves what the operations one after another leave.** -/
theorem perform_eq_serial {log : Log κ M} (h : Serializable log) {ops : List κ}
    (hops : ops.Pairwise (· < ·)) (hmem : ∀ e ∈ log, e.1 ∈ ops) (m : M) :
    perform log m = ops.foldl (fun m k => act (actionsOf k log) m) m := by
  induction ops generalizing log m with
  | nil =>
    cases log with
    | nil => rfl
    | cons e rest => exact absurd (hmem e List.mem_cons_self) List.not_mem_nil
  | cons k rest ih =>
    obtain ⟨hlt, hrest⟩ := List.pairwise_cons.mp hops
    have hfirst : ∀ e ∈ log, k ≤ e.1 := fun e he => by
      rcases List.mem_cons.mp (hmem e he) with hk | hk
      · exact hk.ge
      · exact (hlt e.1 hk).le
    have hothers : ∀ e ∈ log.filter fun e => e.1 ≠ k, e.1 ∈ rest := fun e he => by
      obtain ⟨he, hne⟩ := List.mem_filter.mp he
      exact (List.mem_cons.mp (hmem e he)).resolve_left (by simpa using hne)
    have hserial : Serializable (log.filter fun e => e.1 ≠ k) := h.sublist List.filter_sublist
    rw [perform_first h hfirst, ih hserial hrest hothers, List.foldl_cons]
    refine List.foldl_ext _ _ _ fun m l hl => ?_
    rw [@actionsOf_filter _ _ _ (· ≠ k) _ _ (hlt l hl).ne' log]

end Serial

/-! ## Groups of operations -/

section Groups

variable [DecidableEq κ]

/-- **Groups of operations, one after another**: what comes before an operation of an earlier group
commutes with it, if it is of a later one. -/
theorem perform_eq_groups {log : Log κ M} {groups : List (List κ)}
    (hcommute : log.Pairwise fun a b => ∀ (i j : ℕ) (g g' : List κ), i < j → groups[i]? = some g →
      groups[j]? = some g' → a.1 ∈ g' → b.1 ∈ g → Function.Commute a.2 b.2)
    (hdisjoint : groups.Pairwise List.Disjoint) (hmem : ∀ e ∈ log, ∃ g ∈ groups, e.1 ∈ g) (m : M) :
    perform log m = groups.foldl (fun m g => perform (log.filter fun e => e.1 ∈ g) m) m := by
  induction groups generalizing log m with
  | nil =>
    cases log with
    | nil => rfl
    | cons e rest =>
      obtain ⟨g, hg, -⟩ := hmem e List.mem_cons_self
      cases hg
  | cons g rest ih =>
    obtain ⟨hapart, hrest⟩ := List.pairwise_cons.mp hdisjoint
    have hlater : ∀ e ∈ log, e.1 ∉ g → ∃ g' ∈ rest, e.1 ∈ g' := fun e he hnot => by
      obtain ⟨g', hg', hin⟩ := hmem e he
      rcases List.mem_cons.mp hg' with rfl | hg'
      · exact absurd hin hnot
      · exact ⟨g', hg', hin⟩
    have hfirst : log.Pairwise fun a b => a.1 ∉ g → b.1 ∈ g → Function.Commute a.2 b.2 := by
      refine hcommute.imp_of_mem fun {a b} ha _ hab hnot hin => ?_
      obtain ⟨g', hg', hin'⟩ := hlater a ha hnot
      obtain ⟨j, hj⟩ := List.mem_iff_getElem?.mp hg'
      exact hab 0 (j + 1) g g' (Nat.succ_pos j) rfl hj hin' hin
    rw [perform_split (· ∈ g) hfirst, ih ?_ hrest fun e he => ?_, List.foldl_cons]
    · -- a later group has nothing of this one
      refine List.foldl_ext _ _ _ fun m g' hg' => ?_
      rw [List.filter_filter]
      congr 1
      refine List.filter_congr fun e _ => ?_
      by_cases hin : e.1 ∈ g'
      · have hnot : e.1 ∉ g := fun h => hapart g' hg' h hin
        simp [hin, hnot]
      · simp [hin]
    · exact (hcommute.sublist List.filter_sublist).imp fun hab i j g₁ g₂ hlt hi hj =>
        hab (i + 1) (j + 1) g₁ g₂ (Nat.succ_lt_succ hlt) hi hj
    · obtain ⟨he, hnot⟩ := List.mem_filter.mp he
      exact hlater e he (by simpa using hnot)

/-- Items, each with its operation, whose actions are a log. -/
theorem exists_items {A : Type} (action : κ → A → M → M) {log : Log κ M} {items : κ → List A}
    (h : ∀ k, ((log.filter fun e => e.1 = k).map Prod.snd) = (items k).map (action k)) :
    ∃ l : List (κ × A), log = l.map (fun a => (a.1, action a.1 a.2)) ∧
      ∀ k, (l.filter fun a => a.1 = k).map Prod.snd = items k := by
  induction log generalizing items with
  | nil => exact ⟨[], rfl, fun k => (List.map_eq_nil_iff.mp (h k).symm).symm⟩
  | cons e rest ih =>
    obtain ⟨n, f⟩ := e
    have hn := h n
    rw [List.filter_cons_of_pos (by simp), List.map_cons] at hn
    obtain ⟨a, as, hitems, rfl, has⟩ := List.map_eq_cons_iff.mp hn.symm
    obtain ⟨l, hl, hof⟩ := @ih (Function.update items n as) fun k => by
      by_cases hk : k = n
      · subst hk
        rw [Function.update_self]
        exact has.symm
      · rw [Function.update_of_ne hk, ← h k, List.filter_cons_of_neg (by simpa using Ne.symm hk)]
    refine ⟨(n, a) :: l, by rw [hl]; rfl, fun k => ?_⟩
    by_cases hk : k = n
    · subst hk
      rw [List.filter_cons_of_pos (by simp), List.map_cons, hof, Function.update_self, hitems]
    · rw [List.filter_cons_of_neg (by simpa using Ne.symm hk), hof, Function.update_of_ne hk]

end Groups

end Interleavings
