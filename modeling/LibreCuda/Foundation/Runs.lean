import Mathlib.Init

/-! # Runs of a deterministic system

A system is a partial step function: from a state, an event leads to a state or is not possible. A
run is a list of events; it ends early at an event that is not possible.

* **`Always`**: a property holds in every state of a run; **`Meets`**: every step of a run meets a
  condition on the state in front of it and the event.
* **`always_of_meets`**, **`always_iff_meets`** and **`meets_iff`** are the induction rules: what
  one step preserves, or preserves exactly under a condition, a run does. -/

namespace Runs

variable {σ ε : Type} (step : σ → ε → Option σ)

/-- The state behind a run, if all its events are possible. -/
def exec (s : σ) : List ε → Option σ
  | [] => some s
  | e :: es => (step s e).bind fun s' => exec s' es

/-- The property holds in every state of the run. -/
def Always (p : σ → Prop) (s : σ) : List ε → Prop
  | [] => p s
  | e :: es => p s ∧ ∀ s', step s e = some s' → Always p s' es

/-- Every step of the run meets the condition. -/
def Meets (q : σ → ε → Prop) (s : σ) : List ε → Prop
  | [] => True
  | e :: es => ∀ s', step s e = some s' → q s e ∧ Meets q s' es

variable {step} {p p' : σ → Prop} {q q' r : σ → ε → Prop} {s : σ} {es : List ε}

/-- A run whose first event is possible. -/
theorem exec_cons {s' : σ} {e : ε} (h : step s e = some s') (es : List ε) :
    exec step s (e :: es) = exec step s' es := by
  rw [exec, h, Option.bind_some]

/-- A run that goes on behind another one. -/
theorem exec_append {s' : σ} (h : exec step s es = some s') (es' : List ε) :
    exec step s (es ++ es') = exec step s' es' := by
  induction es generalizing s with
  | nil =>
    obtain rfl := Option.some.inj h
    rfl
  | cons e es ih =>
    obtain ⟨t, ht, hrest⟩ := Option.bind_eq_some_iff.mp h
    rw [List.cons_append, exec_cons ht, ih hrest]

theorem Always.head (h : Always step p s es) : p s := by
  cases es with
  | nil => exact h
  | cons e es => exact h.1

/-- What holds in every state holds in the last one. -/
theorem Always.exec {t : σ} (h : Always step p s es) (ht : exec step s es = some t) : p t := by
  induction es generalizing s with
  | nil =>
    obtain rfl := Option.some.inj ht
    exact h
  | cons e es ih =>
    obtain ⟨s', hs', ht'⟩ := Option.bind_eq_some_iff.mp ht
    exact ih (h.2 s' hs') ht'

theorem Always.imp (himp : ∀ s, p s → p' s) (h : Always step p s es) : Always step p' s es := by
  induction es generalizing s with
  | nil => exact himp s h
  | cons e es ih => exact ⟨himp s h.1, fun s' hs' => ih (h.2 s' hs')⟩

theorem Always.and (h : Always step p s es) (h' : Always step p' s es) :
    Always step (fun s => p s ∧ p' s) s es := by
  induction es generalizing s with
  | nil => exact ⟨h, h'⟩
  | cons e es ih => exact ⟨⟨h.1, h'.1⟩, fun s' hs' => ih (h.2 s' hs') (h'.2 s' hs')⟩

theorem Meets.and (h : Meets step q s es) (h' : Meets step q' s es) :
    Meets step (fun s e => q s e ∧ q' s e) s es := by
  induction es generalizing s with
  | nil => trivial
  | cons e es ih =>
    intro s' hs'
    exact ⟨⟨(h s' hs').1, (h' s' hs').1⟩, ih (h s' hs').2 (h' s' hs').2⟩

/-- What the state in front of a step settles. -/
theorem Always.meets (himp : ∀ s e s', p s → step s e = some s' → q s e)
    (h : Always step p s es) : Meets step q s es := by
  induction es generalizing s with
  | nil => trivial
  | cons e es ih => exact fun s' hs' => ⟨himp s e s' h.1 hs', ih (h.2 s' hs')⟩

/-- A condition on the events alone. -/
theorem meets_of_forall {event : ε → Prop} (h : ∀ e ∈ es, event e) :
    Meets step (fun _ e => event e) s es := by
  induction es generalizing s with
  | nil => trivial
  | cons e es ih =>
    exact fun s' _ => ⟨h e List.mem_cons_self, ih fun e he => h e (List.mem_cons_of_mem _ he)⟩

/-- **Invariants.** What every step under the condition preserves holds in every state of a run that
meets it. -/
theorem always_of_meets (hstep : ∀ s e s', p s → q s e → step s e = some s' → p s') (hs : p s)
    (hq : Meets step q s es) : Always step p s es := by
  induction es generalizing s with
  | nil => exact hs
  | cons e es ih =>
    refine ⟨hs, fun s' hs' => ?_⟩
    obtain ⟨hcond, hrest⟩ := hq s' hs'
    exact ih (hstep s e s' hs hcond hs') hrest

/-- An invariant of every step. -/
theorem always_of_step (hstep : ∀ s e s', p s → step s e = some s' → p s') (hs : p s) :
    Always step p s es := by
  induction es generalizing s with
  | nil => exact hs
  | cons e es ih => exact ⟨hs, fun s' hs' => ih (hstep s e s' hs hs')⟩

/-- **Exact conditions, in runs of a kind.** A property that a step of the kind preserves exactly
when it meets the condition holds in every state of such a run if and only if every step of the run
meets it. -/
theorem always_iff_meets_of_meets (hinv : ∀ s e s', p s → r s e → step s e = some s' → p s')
    (hstep : ∀ s e s', p s → p' s → r s e → step s e = some s' → (p' s' ↔ q s e)) (hp : p s)
    (hs : p' s) (hr : Meets step r s es) : Always step p' s es ↔ Meets step q s es := by
  induction es generalizing s with
  | nil => exact iff_of_true hs trivial
  | cons e es ih =>
    constructor
    · rintro ⟨-, hrest⟩ s' hs'
      obtain ⟨hkind, hr'⟩ := hr s' hs'
      have hp' := (hrest s' hs').head
      exact ⟨(hstep s e s' hp hs hkind hs').mp hp',
        (ih (hinv s e s' hp hkind hs') hp' hr').mp (hrest s' hs')⟩
    · intro h
      refine ⟨hs, fun s' hs' => ?_⟩
      obtain ⟨hkind, hr'⟩ := hr s' hs'
      obtain ⟨hcond, hrest⟩ := h s' hs'
      have hp' := (hstep s e s' hp hs hkind hs').mpr hcond
      exact (ih (hinv s e s' hp hkind hs') hp' hr').mpr hrest

/-- **Exact conditions.** A property that a step preserves exactly when it meets the condition holds
in every state of a run if and only if every step of the run meets it. -/
theorem always_iff_meets (hinv : ∀ s e s', p s → step s e = some s' → p s')
    (hstep : ∀ s e s', p s → p' s → step s e = some s' → (p' s' ↔ q s e)) (hp : p s) (hs : p' s) :
    Always step p' s es ↔ Meets step q s es :=
  always_iff_meets_of_meets (r := fun _ _ => True) (fun s e s' hp _ => hinv s e s' hp)
    (fun s e s' hp hs _ => hstep s e s' hp hs) hp hs (meets_of_forall fun _ _ => trivial)

/-- Two conditions that agree wherever an invariant holds, which steps under the second preserve. -/
theorem meets_iff (hiff : ∀ s e s', p s → r s e → step s e = some s' → (q s e ↔ q' s e))
    (hinv : ∀ s e s', p s → r s e → q' s e → step s e = some s' → p s') (hs : p s)
    (hr : Meets step r s es) : Meets step q s es ↔ Meets step q' s es := by
  induction es generalizing s with
  | nil => exact Iff.rfl
  | cons e es ih =>
    refine forall_congr' fun s' => forall_congr' fun hs' => ?_
    obtain ⟨hre, hrest⟩ := hr s' hs'
    rw [hiff s e s' hs hre hs']
    exact and_congr_right fun hq => ih (hinv s e s' hs hre hq hs') hrest

end Runs
