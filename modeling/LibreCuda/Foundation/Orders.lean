import LibreCuda.Foundation.Relays

/-! # What a channel is ordered to do

An engine is told what to do through registers: methods of its channel set them, and a start has the
engine read its order from them. Signals play no part in that.

* **`duties`** is what is left of a stream without its signals.
* **`Engine.orders`** reads the orders of a stream, each with the number of its operation.
* **`Machine.begun`** counts how often an operation has begun. A fetch takes it from the stream to
  there (**`begun_fetch`**), and nothing else changes it. -/

namespace Channels

variable {ι α τ μ ρ ω : Type}

/-! ## Duties -/

section Duties

/-- The command releases or acquires a signal. -/
def Command.signals : Command α τ μ → Bool
  | .release _ _ => true
  | .acquire _ _ => true
  | _ => false

/-- The commands that are no signals. -/
def duties (cmds : List (Command α τ μ)) : List (Command α τ μ) :=
  cmds.filter fun c => !c.signals

/-- The operations that commands begin, in order. -/
def starts (cmds : List (Command α τ μ)) : List ℕ := cmds.filterMap Command.op

@[simp] theorem duties_nil : duties ([] : List (Command α τ μ)) = [] := rfl

@[simp] theorem duties_append (a b : List (Command α τ μ)) :
    duties (a ++ b) = duties a ++ duties b := List.filter_append ..

theorem duties_cons (cmd : Command α τ μ) (rest : List (Command α τ μ)) :
    duties (cmd :: rest) = duties [cmd] ++ duties rest := duties_append [cmd] rest

@[simp] theorem starts_nil : starts ([] : List (Command α τ μ)) = [] := rfl

@[simp] theorem starts_append (a b : List (Command α τ μ)) :
    starts (a ++ b) = starts a ++ starts b := List.filterMap_append

/-- Signals begin nothing. -/
theorem starts_duties (cmds : List (Command α τ μ)) : starts (duties cmds) = starts cmds := by
  induction cmds with
  | nil => rfl
  | cons cmd rest ih =>
    rw [duties_cons, starts_append, ih]
    cases cmd <;> rfl

end Duties

/-! ## Engines -/

/-- An engine: how a method sets its registers, and the order that a start reads from them. -/
structure Engine (μ ρ ω : Type) where
  set : ρ → μ → ρ
  order : ρ → ω

namespace Engine

variable (e : Engine μ ρ ω) (regs : ρ)

/-- The registers behind a command. -/
def step : Command α τ μ → ρ
  | .other m => e.set regs m
  | _ => regs

/-- The registers behind several commands. -/
def after (cmds : List (Command α τ μ)) : ρ := cmds.foldl e.step regs

/-- The orders that commands hand over, each with the number of its operation. -/
def orders (regs : ρ) : List (Command α τ μ) → List (ℕ × ω)
  | [] => []
  | .start n _ :: rest => (n, e.order regs) :: orders regs rest
  | cmd :: rest => orders (e.step regs cmd) rest

@[simp] theorem orders_nil : e.orders regs ([] : List (Command α τ μ)) = [] := rfl

@[simp] theorem orders_start (n : ℕ) (ordered : Bool) (rest : List (Command α τ μ)) :
    e.orders regs (.start n ordered :: rest) = (n, e.order regs) :: e.orders regs rest := rfl

@[simp] theorem orders_other (m : μ) (rest : List (Command α τ μ)) :
    e.orders regs (.other m :: rest) = e.orders (e.set regs m) rest := rfl

theorem orders_append (a b : List (Command α τ μ)) :
    e.orders regs (a ++ b) = e.orders regs a ++ e.orders (e.after regs a) b := by
  induction a generalizing regs with
  | nil => rfl
  | cons cmd rest ih =>
    cases cmd with
    | start n ordered => exact congrArg _ (ih regs)
    | release signal value => exact ih regs
    | acquire signal value => exact ih regs
    | other m => exact ih (e.set regs m)

/-- Every start hands over one order. -/
theorem map_fst_orders (cmds : List (Command α τ μ)) :
    (e.orders regs cmds).map Prod.fst = starts cmds := by
  induction cmds generalizing regs with
  | nil => rfl
  | cons cmd rest ih =>
    cases cmd with
    | start n ordered => exact congrArg _ (ih regs)
    | release signal value => exact ih regs
    | acquire signal value => exact ih regs
    | other m => exact ih (e.set regs m)

/-- The commands hand over the given orders, whatever the registers held before. -/
def Gives (cmds : List (Command α τ μ)) (given : List (ℕ × ω)) : Prop :=
  ∀ regs, e.orders regs cmds = given

variable {e}

theorem gives_nil : e.Gives ([] : List (Command α τ μ)) [] := fun _ => rfl

theorem Gives.append {a b : List (Command α τ μ)} {given more : List (ℕ × ω)}
    (ha : e.Gives a given) (hb : e.Gives b more) : e.Gives (a ++ b) (given ++ more) := by
  intro regs
  rw [e.orders_append, ha, hb]

/-- Commands that begin nothing hand over nothing. -/
theorem gives_of_starts {cmds : List (Command α τ μ)} (h : starts cmds = []) : e.Gives cmds [] := by
  intro regs
  have hmap := e.map_fst_orders regs cmds
  rw [h] at hmap
  exact List.map_eq_nil_iff.mp hmap

end Engine

/-! ## Operations that have begun -/

section Begun

variable [Fintype ι]

/-- How often an operation has begun: it runs, or it has completed. -/
def Machine.begun (m : Machine ι α τ μ) (n : ℕ) : ℕ :=
  ∑ i, (m.channel i).running.count n + m.completed.count n

variable [DecidableEq ι] {m m' : Machine ι α τ μ} {i : ι}

/-- What runs, when it changes on one channel only. -/
theorem sum_running (n : ℕ) (hne : ∀ j, j ≠ i → m'.channel j = m.channel j) :
    ∑ j, (m'.channel j).running.count n + (m.channel i).running.count n =
      ∑ j, (m.channel j).running.count n + (m'.channel i).running.count n := by
  have hothers : ∑ j ∈ Finset.univ.erase i, (m'.channel j).running.count n =
      ∑ j ∈ Finset.univ.erase i, (m.channel j).running.count n :=
    Finset.sum_congr rfl fun j hj => by rw [hne j (Finset.ne_of_mem_erase hj)]
  have hsum := Finset.add_sum_erase Finset.univ (fun j => (m'.channel j).running.count n)
    (Finset.mem_univ i)
  have hsum' := Finset.add_sum_erase Finset.univ (fun j => (m.channel j).running.count n)
    (Finset.mem_univ i)
  omega

/-- Submitting begins nothing. -/
theorem begun_submit (cmds : List (Command α τ μ)) (n : ℕ) : (m.submit i cmds).begun n = m.begun n := by
  have hself : ((m.submit i cmds).channel i).running = (m.channel i).running := by
    simp [Machine.submit]
  have hsum := sum_running n fun j (hj : j ≠ i) => channel_submit_of_ne (m := m) hj cmds
  rw [hself] at hsum
  show _ + m.completed.count n = _ + m.completed.count n
  omega

/-- An operation that completes had begun. -/
theorem begun_finish {k : ℕ} (hf : m.finish i k = some m') (n : ℕ) : m'.begun n = m.begun n := by
  obtain ⟨hk, hc, -, hne, -, hr⟩ := finish_cases hf
  have hsum := sum_running n hne
  rw [hr] at hsum
  rw [Machine.begun, Machine.begun, hc, List.count_cons]
  by_cases hkn : k = n
  · subst hkn
    have hpos := List.count_pos_iff.mpr hk
    rw [List.count_erase_self] at hsum
    rw [if_pos (beq_self_eq_true k)]
    omega
  · rw [List.count_erase_of_ne (Ne.symm hkn)] at hsum
    rw [if_neg (by simpa using hkn)]
    omega

/-- **A fetch takes an operation from the stream and begins it.** -/
theorem begun_fetch [DecidableEq α] [DecidableEq τ] {serial : ι → Bool}
    (hf : m.fetch serial i = some m') (n : ℕ) :
    m'.begun n + (starts (m'.channel i).pending).count n =
      m.begun n + (starts (m.channel i).pending).count n := by
  obtain ⟨cmd, rest, hp, hc, hne, hp', hcmd⟩ := fetch_cases hf
  have hsum := sum_running n hne
  have hstarts : starts (cmd :: rest) = starts [cmd] ++ starts rest := starts_append [cmd] rest
  rw [Machine.begun, Machine.begun, hc, hp, hp', hstarts, List.count_append]
  cases cmd with
  | release signal value =>
    obtain ⟨hidle, hidle', -⟩ := hcmd
    rw [hidle, hidle'] at hsum
    simp only [starts, List.filterMap_cons, Command.op, List.filterMap_nil, List.count_nil]
    omega
  | acquire signal value =>
    rw [hcmd.2.1] at hsum
    simp only [starts, List.filterMap_cons, Command.op, List.filterMap_nil, List.count_nil]
    omega
  | start k ordered =>
    rw [hcmd.2.1, List.count_cons] at hsum
    simp only [starts, List.filterMap_cons, Command.op, List.filterMap_nil, List.count_cons,
      List.count_nil]
    omega
  | other mth =>
    rw [hcmd.1] at hsum
    simp only [starts, List.filterMap_cons, Command.op, List.filterMap_nil, List.count_nil]
    omega

end Begun

end Channels
