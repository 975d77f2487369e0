import LibreCuda.Foundation.Fences
import Mathlib.Algebra.BigOperators.Group.Finset.Piecewise
import Mathlib.Algebra.Order.BigOperators.Group.Finset

/-! # Handing a signal from channel to channel

When several channels raise one signal and wait for it, they block one another for ever as soon as a
release overtakes an acquire of an earlier value. They never do when the signal is handed on like a
baton: one channel raises it, and at most one other waits for the value it will end with.

* **`Flows`** speaks of the commands of one channel: releases rise, every acquire carries the value
  released last, and a release stands behind it.
* **`Gated`** commands wait for a value before they release anything.
* **`Machine.Relay`** is the invariant of the machine: the channel that leads flows, the one that
  follows is gated, and all others are quiet. Every step keeps it, and **`Machine.Relayed.enabled`**
  says that some channel can go on.
* **`Machine.work`** counts the steps that are left. -/

namespace Channels

variable {ι α τ μ : Type}

/-! ## One channel -/

section Flow

variable [DecidableEq α] (sig : α) (num : τ → ℕ)

/-- The value of the signal behind commands that find it at `v`. -/
def settle (v : τ) : List (Command α τ μ) → τ
  | [] => v
  | .release signal value :: rest => settle (if signal = sig then value else v) rest
  | _ :: rest => settle v rest

/-- Some command releases the signal. -/
def Lifts (cmds : List (Command α τ μ)) : Prop := ∃ value, .release sig value ∈ cmds

/-- The command neither releases the signal nor acquires any. -/
def Command.Quiet : Command α τ μ → Prop
  | .release signal _ => signal ≠ sig
  | .acquire _ _ => False
  | _ => True

/-- No command releases the signal or acquires any. -/
def Quiet (cmds : List (Command α τ μ)) : Prop := ∀ c ∈ cmds, c.Quiet sig

/-- Behind the value `v`, every release of the signal is higher than the one before it, and every
acquire is of the signal, carries the value released last and has a release behind it. -/
def Flows (v : τ) : List (Command α τ μ) → Prop
  | [] => True
  | .release signal value :: rest =>
    (signal = sig → num v < num value) ∧ Flows (if signal = sig then value else v) rest
  | .acquire signal value :: rest => signal = sig ∧ value = v ∧ Lifts sig rest ∧ Flows v rest
  | .start _ _ :: rest => Flows v rest
  | .other _ :: rest => Flows v rest

/-- The commands acquire the signal at `v` before they release it, and flow from there. -/
def Gated (v : τ) : List (Command α τ μ) → Prop
  | [] => True
  | .release signal _ :: rest => signal ≠ sig ∧ Gated v rest
  | .acquire signal value :: rest => signal = sig ∧ value = v ∧ Lifts sig rest ∧ Flows sig num v rest
  | .start _ _ :: rest => Gated v rest
  | .other _ :: rest => Gated v rest

variable {sig num}

@[simp] theorem settle_nil (v : τ) : settle sig v ([] : List (Command α τ μ)) = v := rfl

theorem settle_append (v : τ) (a b : List (Command α τ μ)) :
    settle sig v (a ++ b) = settle sig (settle sig v a) b := by
  induction a generalizing v with
  | nil => rfl
  | cons cmd rest ih => cases cmd <;> exact ih _

omit [DecidableEq α] in
@[simp] theorem quiet_nil : Quiet sig ([] : List (Command α τ μ)) := fun _ h => nomatch h

omit [DecidableEq α] in
@[simp] theorem quiet_cons (cmd : Command α τ μ) (rest : List (Command α τ μ)) :
    Quiet sig (cmd :: rest) ↔ cmd.Quiet sig ∧ Quiet sig rest := List.forall_mem_cons

omit [DecidableEq α] in
omit [DecidableEq α] in
theorem lifts_cons (cmd : Command α τ μ) (rest : List (Command α τ μ)) :
    Lifts sig (cmd :: rest) ↔ (∃ value, cmd = .release sig value) ∨ Lifts sig rest := by
  constructor
  · rintro ⟨value, hmem⟩
    rcases List.mem_cons.mp hmem with heq | hmem
    · exact Or.inl ⟨value, heq.symm⟩
    · exact Or.inr ⟨value, hmem⟩
  · rintro (⟨value, rfl⟩ | ⟨value, hmem⟩)
    · exact ⟨value, List.mem_cons_self⟩
    · exact ⟨value, List.mem_cons_of_mem _ hmem⟩

omit [DecidableEq α] in
theorem Lifts.append_right {a : List (Command α τ μ)} (h : Lifts sig a) (b : List (Command α τ μ)) :
    Lifts sig (a ++ b) := by
  obtain ⟨value, hmem⟩ := h
  exact ⟨value, List.mem_append_left b hmem⟩

/-- Quiet commands leave the signal as it is. -/
theorem settle_of_quiet {cmds : List (Command α τ μ)} (h : Quiet sig cmds) (v : τ) :
    settle sig v cmds = v := by
  induction cmds with
  | nil => rfl
  | cons cmd rest ih =>
    obtain ⟨hcmd, hrest⟩ := (quiet_cons cmd rest).mp h
    cases cmd with
    | release signal value =>
      show settle sig (if signal = sig then value else v) rest = v
      rw [if_neg hcmd]
      exact ih hrest
    | acquire signal value => exact hcmd.elim
    | start n ordered => exact ih hrest
    | other m => exact ih hrest

/-- Quiet commands flow from every value. -/
theorem flows_of_quiet {cmds : List (Command α τ μ)} (h : Quiet sig cmds) (v : τ) :
    Flows sig num v cmds := by
  induction cmds with
  | nil => trivial
  | cons cmd rest ih =>
    obtain ⟨hcmd, hrest⟩ := (quiet_cons cmd rest).mp h
    cases cmd with
    | release signal value =>
      show (signal = sig → _) ∧ Flows sig num (if signal = sig then value else v) rest
      rw [if_neg hcmd]
      exact ⟨fun hs => absurd hs hcmd, ih hrest⟩
    | acquire signal value => exact hcmd.elim
    | start n ordered => exact ih hrest
    | other m => exact ih hrest

/-- Quiet commands are gated by every value. -/
theorem gated_of_quiet {cmds : List (Command α τ μ)} (h : Quiet sig cmds) (v : τ) :
    Gated sig num v cmds := by
  induction cmds with
  | nil => trivial
  | cons cmd rest ih =>
    obtain ⟨hcmd, hrest⟩ := (quiet_cons cmd rest).mp h
    cases cmd with
    | release signal value => exact ⟨hcmd, ih hrest⟩
    | acquire signal value => exact hcmd.elim
    | start n ordered => exact ih hrest
    | other m => exact ih hrest

/-- Gated commands flow. -/
theorem flows_of_gated {cmds : List (Command α τ μ)} {v : τ} (h : Gated sig num v cmds) :
    Flows sig num v cmds := by
  induction cmds with
  | nil => trivial
  | cons cmd rest ih =>
    cases cmd with
    | release signal value =>
      show (signal = sig → _) ∧ Flows sig num (if signal = sig then value else v) rest
      rw [if_neg h.1]
      exact ⟨fun hs => absurd hs h.1, ih h.2⟩
    | acquire signal value => exact h
    | start n ordered => exact ih h
    | other m => exact ih h

/-- Commands that flow and do not release the signal are quiet. -/
theorem quiet_of_flows {cmds : List (Command α τ μ)} {v : τ} (h : Flows sig num v cmds)
    (hlifts : ¬ Lifts sig cmds) : Quiet sig cmds := by
  induction cmds generalizing v with
  | nil => exact quiet_nil
  | cons cmd rest ih =>
    rw [lifts_cons, not_or] at hlifts
    refine (quiet_cons cmd rest).mpr ?_
    cases cmd with
    | release signal value => exact ⟨fun hs => hlifts.1 ⟨value, by rw [hs]⟩, ih h.2 hlifts.2⟩
    | acquire signal value => exact absurd h.2.2.1 hlifts.2
    | start n ordered => exact ⟨trivial, ih h hlifts.2⟩
    | other m => exact ⟨trivial, ih h hlifts.2⟩

/-- Gated commands without an acquire are quiet. -/
theorem quiet_of_gated {cmds : List (Command α τ μ)} {v : τ} (h : Gated sig num v cmds)
    (hnone : ∀ signal value, .acquire signal value ∉ cmds) : Quiet sig cmds := by
  induction cmds with
  | nil => exact quiet_nil
  | cons cmd rest ih =>
    have hrest : ∀ signal value, .acquire signal value ∉ rest :=
      fun signal value hmem => hnone signal value (List.mem_cons_of_mem _ hmem)
    refine (quiet_cons cmd rest).mpr ?_
    cases cmd with
    | release signal value => exact ⟨h.1, ih h.2 hrest⟩
    | acquire signal value => exact absurd List.mem_cons_self (hnone signal value)
    | start n ordered => exact ⟨trivial, ih h hrest⟩
    | other m => exact ⟨trivial, ih h hrest⟩

/-- The signal rises along commands that flow. -/
theorem num_le_settle {cmds : List (Command α τ μ)} {v : τ} (h : Flows sig num v cmds) :
    num v ≤ num (settle sig v cmds) := by
  induction cmds generalizing v with
  | nil => exact Nat.le_refl _
  | cons cmd rest ih =>
    cases cmd with
    | release signal value =>
      have hrest : num (if signal = sig then value else v) ≤ _ := ih h.2
      refine le_trans ?_ hrest
      split_ifs with hs
      · exact (h.1 hs).le
      · exact Nat.le_refl _
    | acquire signal value => exact ih h.2.2.2
    | start n ordered => exact ih h
    | other m => exact ih h

/-- It rises properly where the commands release it. -/
theorem num_lt_settle {cmds : List (Command α τ μ)} {v : τ} (h : Flows sig num v cmds)
    (hlifts : Lifts sig cmds) : num v < num (settle sig v cmds) := by
  induction cmds generalizing v with
  | nil => exact nomatch hlifts.choose_spec
  | cons cmd rest ih =>
    cases cmd with
    | release signal value =>
      by_cases hs : signal = sig
      · have hrest : num (if signal = sig then value else v) ≤ _ := num_le_settle h.2
        rw [if_pos hs] at hrest
        exact (h.1 hs).trans_le (by rw [settle, if_pos hs]; exact hrest)
      · have hlifts' := ((lifts_cons _ rest).mp hlifts).resolve_left
          fun ⟨value', heq⟩ => hs (by cases heq; rfl)
        have h2 := h.2
        rw [if_neg hs] at h2
        rw [settle, if_neg hs]
        exact ih h2 hlifts'
    | acquire signal value => exact ih h.2.2.2 h.2.2.1
    | start n ordered =>
      exact ih h (((lifts_cons _ rest).mp hlifts).resolve_left (by rintro ⟨_, ⟨⟩⟩))
    | other m =>
      exact ih h (((lifts_cons _ rest).mp hlifts).resolve_left (by rintro ⟨_, ⟨⟩⟩))

/-- Commands that flow and end where they began are quiet. -/
theorem quiet_of_settle_le {cmds : List (Command α τ μ)} {v : τ} (h : Flows sig num v cmds)
    (hle : num (settle sig v cmds) ≤ num v) : Quiet sig cmds :=
  quiet_of_flows h fun hlifts => absurd (num_lt_settle h hlifts) (Nat.not_lt.mpr hle)

/-- **Commands one behind the other.** -/
theorem Flows.append {a b : List (Command α τ μ)} {v : τ} (ha : Flows sig num v a)
    (hb : Flows sig num (settle sig v a) b) : Flows sig num v (a ++ b) := by
  induction a generalizing v with
  | nil => exact hb
  | cons cmd rest ih =>
    cases cmd with
    | release signal value => exact ⟨ha.1, ih ha.2 hb⟩
    | acquire signal value =>
      exact ⟨ha.1, ha.2.1, ha.2.2.1.append_right b, ih ha.2.2.2 hb⟩
    | start n ordered => exact ih ha hb
    | other m => exact ih ha hb

theorem Gated.append {a b : List (Command α τ μ)} {v : τ} (ha : Gated sig num v a)
    (hb : Flows sig num (settle sig v a) b) (hquiet : Quiet sig a → Gated sig num v b) :
    Gated sig num v (a ++ b) := by
  induction a with
  | nil => exact hquiet quiet_nil
  | cons cmd rest ih =>
    cases cmd with
    | release signal value =>
      have hb' : Flows sig num (settle sig v rest) b := by
        rwa [settle, if_neg ha.1] at hb
      exact ⟨ha.1, ih ha.2 hb' fun hq => hquiet ((quiet_cons _ rest).mpr ⟨ha.1, hq⟩)⟩
    | acquire signal value =>
      exact ⟨ha.1, ha.2.1, ha.2.2.1.append_right b, ha.2.2.2.append hb⟩
    | start n ordered =>
      exact ih ha hb fun hq => hquiet ((quiet_cons _ rest).mpr ⟨trivial, hq⟩)
    | other m =>
      exact ih ha hb fun hq => hquiet ((quiet_cons _ rest).mpr ⟨trivial, hq⟩)

end Flow

section Tail

variable [DecidableEq α] {sig : α} {num : τ → ℕ}

theorem settle_cons (v : τ) (cmd : Command α τ μ) (rest : List (Command α τ μ)) :
    settle sig v (cmd :: rest) = settle sig (settle sig v [cmd]) rest :=
  settle_append v [cmd] rest

/-- What flows flows on behind its first command. -/
theorem Flows.tail {v : τ} {cmd : Command α τ μ} {rest : List (Command α τ μ)}
    (h : Flows sig num v (cmd :: rest)) : Flows sig num (settle sig v [cmd]) rest := by
  cases cmd with
  | release signal value => exact h.2
  | acquire signal value => exact h.2.2.2
  | start n ordered => exact h
  | other m => exact h

/-- A gate is in front or still to come. -/
theorem Gated.cons_cases {v : τ} {cmd : Command α τ μ} {rest : List (Command α τ μ)}
    (h : Gated sig num v (cmd :: rest)) :
    cmd = .acquire sig v ∨ cmd.Quiet sig ∧ Gated sig num v rest := by
  cases cmd with
  | release signal value => exact Or.inr h
  | acquire signal value => exact Or.inl (by rw [h.1, h.2.1])
  | start n ordered => exact Or.inr ⟨trivial, h⟩
  | other m => exact Or.inr ⟨trivial, h⟩

end Tail

/-! ## The machine -/

section Machine

variable [DecidableEq α] (sig : α) (num : τ → ℕ)

/-- **The invariant**: the channel `lead` flows from the value of the signal, the channel `follow`
is gated by the value that `lead` ends with, and nothing else touches the signal. The signal will
end at `v`. -/
structure Machine.Relay (m : Machine ι α τ μ) (lead follow : ι) (v : τ) : Prop where
  ne : lead ≠ follow
  flows : Flows sig num (m.signals sig) (m.channel lead).pending
  gated : Gated sig num (settle sig (m.signals sig) (m.channel lead).pending)
    (m.channel follow).pending
  quiet : ∀ i, i ≠ lead → i ≠ follow → Quiet sig (m.channel i).pending
  ends : settle sig (settle sig (m.signals sig) (m.channel lead).pending)
    (m.channel follow).pending = v

/-- The signal is handed on, and will end at `v`. -/
def Machine.Relayed (m : Machine ι α τ μ) (v : τ) : Prop :=
  ∃ lead follow, m.Relay sig num lead follow v

/-- A channel may be given more commands: nothing else touches the signal any more, or they are
gated, and no other channel waits for it. -/
def Machine.Admits (m : Machine ι α τ μ) (i : ι) (v : τ) (cmds : List (Command α τ μ)) : Prop :=
  (∀ j, j ≠ i → Quiet sig (m.channel j).pending) ∨
    Gated sig num v cmds ∧
      ∀ j, j ≠ i → ∀ signal value, .acquire signal value ∉ (m.channel j).pending

variable {sig num} {m m' : Machine ι α τ μ} {lead follow i : ι} {v : τ}

/-- The signal only rises. -/
theorem Machine.Relay.num_le (h : m.Relay sig num lead follow v) :
    num (m.signals sig) ≤ num v := by
  rw [← h.ends]
  exact (num_le_settle h.flows).trans (num_le_settle (flows_of_gated h.gated))

/-- When the channel that leads is quiet, the one that follows takes over. -/
theorem Machine.Relay.exchange (h : m.Relay sig num lead follow v)
    (hquiet : Quiet sig (m.channel lead).pending) : m.Relay sig num follow lead v := by
  have hgated := h.gated
  have hends := h.ends
  rw [settle_of_quiet hquiet] at hgated hends
  exact ⟨h.ne.symm, flows_of_gated hgated, gated_of_quiet hquiet _,
    fun j hf hl => h.quiet j hl hf, by rw [hends, settle_of_quiet hquiet]⟩

/-- **A signal that has reached the value it will end with is not touched any more.** -/
theorem Machine.Relay.quiet_of_le (h : m.Relay sig num lead follow v)
    (hle : num v ≤ num (m.signals sig)) (j : ι) : Quiet sig (m.channel j).pending := by
  have hfollows := flows_of_gated h.gated
  have hfollow := num_le_settle hfollows
  have hlead := num_le_settle h.flows
  rw [← h.ends] at hle
  by_cases hjl : j = lead
  · subst hjl
    exact quiet_of_settle_le h.flows (hfollow.trans hle)
  by_cases hjf : j = follow
  · subst hjf
    exact quiet_of_settle_le hfollows (hle.trans hlead)
  exact h.quiet j hjl hjf

/-- With all channels quiet the signal is where it will end. -/
theorem Machine.Relay.signal_of_quiet (h : m.Relay sig num lead follow v)
    (hquiet : ∀ j, Quiet sig (m.channel j).pending) : m.signals sig = v := by
  rw [← h.ends, settle_of_quiet (hquiet lead), settle_of_quiet (hquiet follow)]

/-- A machine whose channels are quiet hands on the value its signal has. -/
theorem Machine.relay_of_quiet (hne : lead ≠ follow)
    (hquiet : ∀ j, Quiet sig (m.channel j).pending) :
    m.Relay sig num lead follow (m.signals sig) :=
  ⟨hne, flows_of_quiet (hquiet lead) _, gated_of_quiet (hquiet follow) _, fun j _ _ => hquiet j,
    by rw [settle_of_quiet (hquiet lead), settle_of_quiet (hquiet follow)]⟩

section Steps

variable [DecidableEq ι]

omit [DecidableEq α] in
/-- A completion touches no commands. -/
theorem pending_finish_eq {n : ℕ} (hf : m.finish i n = some m') (j : ι) :
    (m'.channel j).pending = (m.channel j).pending := by
  obtain ⟨-, -, -, hne, hp, -⟩ := finish_cases hf
  by_cases hij : j = i
  · rw [hij, hp]
  · rw [hne j hij]

/-- **A completion hands the signal on as before.** -/
theorem Machine.Relayed.finish {n : ℕ} (h : m.Relayed sig num v) (hf : m.finish i n = some m') :
    m'.Relayed sig num v := by
  obtain ⟨lead, follow, h⟩ := h
  obtain ⟨-, -, hsig, -⟩ := finish_cases hf
  refine ⟨lead, follow, h.ne, ?_, ?_, fun j hl hf' => ?_, ?_⟩
  · rw [hsig, pending_finish_eq hf]
    exact h.flows
  · rw [hsig, pending_finish_eq hf, pending_finish_eq hf]
    exact h.gated
  · rw [pending_finish_eq hf]
    exact h.quiet j hl hf'
  · rw [hsig, pending_finish_eq hf, pending_finish_eq hf]
    exact h.ends

omit [DecidableEq α] in
theorem pending_submit_self (cmds : List (Command α τ μ)) :
    ((m.submit i cmds).channel i).pending = (m.channel i).pending ++ cmds := by
  simp [Machine.submit]

omit [DecidableEq α] in
theorem channel_submit_of_ne {j : ι} (hne : j ≠ i) (cmds : List (Command α τ μ)) :
    (m.submit i cmds).channel j = m.channel j := setChannel_of_ne hne ..

variable [DecidableEq τ] {serial : ι → Bool}

/-- What a fetch does to a signal. -/
theorem signal_fetch_eq (hf : m.fetch serial i = some m') {cmd : Command α τ μ}
    {rest : List (Command α τ μ)} (hp : (m.channel i).pending = cmd :: rest) :
    m'.signals sig = settle sig (m.signals sig) [cmd] := by
  obtain ⟨cmd', rest', hp', -, -, -, hcmd⟩ := fetch_cases hf
  obtain ⟨rfl, rfl⟩ := List.cons.inj (hp.symm.trans hp')
  cases cmd with
  | release signal value =>
    rw [hcmd.2.2]
    by_cases hs : signal = sig
    · rw [hs, Function.update_self, settle, if_pos rfl, settle_nil]
    · rw [Function.update_of_ne (Ne.symm hs), settle, if_neg hs, settle_nil]
  | acquire signal value => rw [hcmd.2.2]; rfl
  | start n ordered => rw [hcmd.2.2]; rfl
  | other m => rw [hcmd.2]; rfl

/-- A fetch of the channel that leads. -/
theorem Machine.Relay.fetch_lead (h : m.Relay sig num lead follow v)
    (hf : m.fetch serial lead = some m') : m'.Relay sig num lead follow v := by
  obtain ⟨cmd, rest, hp, -, hne, hp', -⟩ := fetch_cases hf
  have hsig : m'.signals sig = settle sig (m.signals sig) [cmd] := signal_fetch_eq hf hp
  have hflows := h.flows
  have hgated := h.gated
  have hends := h.ends
  rw [hp] at hflows
  rw [hp, settle_cons, ← hsig, ← hp'] at hgated hends
  rw [← hne follow h.ne.symm] at hgated hends
  refine ⟨h.ne, ?_, hgated, fun j hl hj => ?_, hends⟩
  · rw [hsig, hp']
    exact hflows.tail
  · rw [hne j hl]
    exact h.quiet j hl hj

/-- A fetch that leaves the signal alone, of another channel than the one that leads. -/
theorem Machine.Relay.fetch_quiet (h : m.Relay sig num lead follow v)
    (hf : m.fetch serial i = some m') {cmd : Command α τ μ} {rest : List (Command α τ μ)}
    (hp : (m.channel i).pending = cmd :: rest) (hcmd : cmd.Quiet sig) (hi : i ≠ lead)
    (hgated : i = follow → Gated sig num (settle sig (m.signals sig) (m.channel lead).pending)
      rest) : m'.Relay sig num lead follow v := by
  have hsig : m'.signals sig = m.signals sig := by
    rw [signal_fetch_eq hf hp]
    exact settle_of_quiet ((quiet_cons cmd []).mpr ⟨hcmd, quiet_nil⟩) _
  obtain ⟨cmd', rest', hp₀, -, hne, hp', -⟩ := fetch_cases hf
  obtain ⟨rfl, rfl⟩ := List.cons.inj (hp.symm.trans hp₀)
  have hlead := hne lead hi.symm
  refine ⟨h.ne, ?_, ?_, fun j hl hj => ?_, ?_⟩
  · rw [hsig, hlead]
    exact h.flows
  · rw [hsig, hlead]
    by_cases hfollow : follow = i
    · subst hfollow
      rw [hp']
      exact hgated rfl
    · rw [hne follow hfollow]
      exact h.gated
  · by_cases hji : j = i
    · subst hji
      have hq := h.quiet j hl hj
      rw [hp] at hq
      rw [hp']
      exact ((quiet_cons cmd rest).mp hq).2
    · rw [hne j hji]
      exact h.quiet j hl hj
  · have hends := h.ends
    rw [hsig, hlead, ← hends]
    by_cases hfollow : follow = i
    · subst hfollow
      rw [hp, hp', settle_cons _ cmd,
        settle_of_quiet ((quiet_cons cmd []).mpr ⟨hcmd, quiet_nil⟩)]
    · rw [hne follow hfollow]

/-- **A fetch hands the signal on**: the gate opens only when the channel that leads is done with
the signal, and then the channel that follows takes over. -/
theorem Machine.Relayed.fetch (h : m.Relayed sig num v) (hf : m.fetch serial i = some m') :
    m'.Relayed sig num v := by
  obtain ⟨lead, follow, h⟩ := h
  obtain ⟨cmd, rest, hp, -, -, -, hcmd⟩ := fetch_cases hf
  by_cases hl : i = lead
  · subst hl
    exact ⟨i, follow, h.fetch_lead hf⟩
  by_cases hfollow : i = follow
  · subst hfollow
    have hgated := h.gated
    rw [hp] at hgated
    rcases hgated.cons_cases with rfl | ⟨hquiet, hrest⟩
    · have hlead := quiet_of_settle_le h.flows (congrArg num hcmd.1).ge
      exact ⟨i, lead, (h.exchange hlead).fetch_lead hf⟩
    · exact ⟨lead, i, h.fetch_quiet hf hp hquiet hl fun _ => hrest⟩
  · have hquiet := h.quiet i hl hfollow
    rw [hp] at hquiet
    exact ⟨lead, follow, h.fetch_quiet hf hp ((quiet_cons cmd rest).mp hquiet).1 hl
      fun heq => absurd heq hfollow⟩

end Steps

/-! ## Submitting -/

section Submit

variable [DecidableEq ι] {cmds : List (Command α τ μ)}

/-- The channel that follows may be given more, behind its gate. -/
theorem Machine.Relay.submit_follow (h : m.Relay sig num lead follow v)
    (hflows : Flows sig num v cmds)
    (hgated : Quiet sig (m.channel follow).pending → Gated sig num v cmds) :
    (m.submit follow cmds).Relay sig num lead follow (settle sig v cmds) := by
  have hlead : (m.submit follow cmds).channel lead = m.channel lead :=
    channel_submit_of_ne h.ne cmds
  refine ⟨h.ne, ?_, ?_, fun j hl hj => ?_, ?_⟩
  · rw [hlead]
    exact h.flows
  · rw [hlead, pending_submit_self]
    refine h.gated.append ?_ fun hquiet => ?_
    · show Flows sig num (settle sig (settle sig (m.signals sig) _) _) cmds
      rw [h.ends]
      exact hflows
    · have hv := h.ends
      rw [settle_of_quiet hquiet] at hv
      show Gated sig num (settle sig (m.signals sig) _) cmds
      rw [hv]
      exact hgated hquiet
  · rw [channel_submit_of_ne hj]
    exact h.quiet j hl hj
  · rw [hlead, pending_submit_self, settle_append]
    show settle sig (settle sig (settle sig (m.signals sig) _) _) cmds = _
    rw [h.ends]

/-- The channel that leads may be given more while no other waits for what it ends with. -/
theorem Machine.Relay.submit_lead (h : m.Relay sig num lead follow v)
    (hquiet : Quiet sig (m.channel follow).pending) (hflows : Flows sig num v cmds) :
    (m.submit lead cmds).Relay sig num lead follow (settle sig v cmds) := by
  have hfollow : (m.submit lead cmds).channel follow = m.channel follow :=
    channel_submit_of_ne h.ne.symm cmds
  have hends := h.ends
  rw [settle_of_quiet hquiet] at hends
  refine ⟨h.ne, ?_, ?_, fun j hl hj => ?_, ?_⟩
  · rw [pending_submit_self]
    refine h.flows.append ?_
    rw [hends]
    exact hflows
  · rw [hfollow]
    exact gated_of_quiet hquiet _
  · rw [channel_submit_of_ne hl]
    exact h.quiet j hl hj
  · rw [hfollow, settle_of_quiet hquiet, pending_submit_self, settle_append]
    show settle sig (settle sig (m.signals sig) _) cmds = _
    rw [hends]

/-- When all channels but one are quiet, that one may be taken to lead. -/
theorem Machine.Relay.lead_of_quiet (h : m.Relay sig num lead follow v)
    (hquiet : ∀ j, j ≠ i → Quiet sig (m.channel j).pending) :
    ∃ j, m.Relay sig num i j v := by
  by_cases hl : lead = i
  · exact ⟨follow, hl ▸ h⟩
  by_cases hf : follow = i
  · exact ⟨lead, hf ▸ h.exchange (hquiet lead hl)⟩
  -- neither of the two touches the signal, and so no channel does
  have hall : ∀ j, Quiet sig (m.channel j).pending := fun j => by
    by_cases hj : j = i
    · exact hj ▸ h.quiet i (Ne.symm hl) (Ne.symm hf)
    · exact hquiet j hj
  rw [← h.signal_of_quiet hall]
  exact ⟨lead, Machine.relay_of_quiet (Ne.symm hl) hall⟩

/-- **Submitting commands that flow hands the signal on**, if the machine admits them. -/
theorem Machine.Relayed.submit (h : m.Relayed sig num v) (hflows : Flows sig num v cmds)
    (hadmits : m.Admits sig num i v cmds) :
    (m.submit i cmds).Relayed sig num (settle sig v cmds) := by
  obtain ⟨lead, follow, h⟩ := h
  rcases hadmits with hquiet | ⟨hgated, hnone⟩
  · obtain ⟨j, hj⟩ := h.lead_of_quiet hquiet
    exact ⟨i, j, hj.submit_lead (hquiet j hj.ne.symm) hflows⟩
  by_cases hf : follow = i
  · subst hf
    exact ⟨lead, follow, h.submit_follow hflows fun _ => hgated⟩
  -- the channel that follows does not wait, so it is quiet
  have hfollow := quiet_of_gated h.gated (hnone follow hf)
  by_cases hl : lead = i
  · subst hl
    exact ⟨lead, follow, h.submit_lead hfollow hflows⟩
  · have hi := h.quiet i (Ne.symm hl) (Ne.symm hf)
    have hends := h.ends
    rw [settle_of_quiet hfollow] at hends
    have hrelay : m.Relay sig num lead i v :=
      ⟨hl, h.flows, gated_of_quiet hi _, fun j hjl hji => by
        by_cases hjf : j = follow
        · exact hjf ▸ hfollow
        · exact h.quiet j hjl hjf, by rw [settle_of_quiet hi, hends]⟩
    exact ⟨lead, i, hrelay.submit_follow hflows fun _ => hgated⟩

end Submit

/-! ## What a channel may be given -/

section Admits

/-- A machine admits what it admitted with more pending. -/
theorem Machine.Admits.of_pending {cmds : List (Command α τ μ)}
    (hsub : ∀ j cmd, cmd ∈ (m'.channel j).pending → cmd ∈ (m.channel j).pending)
    (h : m.Admits sig num i v cmds) : m'.Admits sig num i v cmds := by
  refine h.imp (fun hquiet j hj c hc => hquiet j hj c (hsub j c hc)) fun hgated => ?_
  exact ⟨hgated.1, fun j hj signal value hmem => hgated.2 j hj signal value (hsub j _ hmem)⟩

end Admits

/-! ## Going on -/

section Progress

variable [DecidableEq ι] [DecidableEq τ] {serial : ι → Bool}

variable (sig) in
/-- An idle channel executes every command that is not an acquire. -/
theorem fetch_isSome_of_quiet {cmd : Command α τ μ} {rest : List (Command α τ μ)}
    (hp : (m.channel i).pending = cmd :: rest) (hidle : (m.channel i).running = [])
    (hcmd : cmd.Quiet sig ∨ ∃ value, cmd = .release sig value) :
    (m.fetch serial i).isSome = true := by
  unfold Machine.fetch
  rw [hp]
  cases cmd with
  | release signal value => simp [hidle]
  | acquire signal value =>
    rcases hcmd with hcmd | ⟨value', hcmd⟩
    · exact hcmd.elim
    · cases hcmd
  | start n ordered => simp [hidle]
  | other m => rfl

/-- An acquire of the value the signal has is executed. -/
theorem fetch_isSome_of_acquire {signal : α} {value : τ} {rest : List (Command α τ μ)}
    (hp : (m.channel i).pending = .acquire signal value :: rest)
    (hvalue : m.signals signal = value) : (m.fetch serial i).isSome = true := by
  unfold Machine.fetch
  rw [hp]
  simp [hvalue]

/-- What flows from the value of the signal goes on. -/
theorem fetch_isSome_of_flows {cmd : Command α τ μ} {rest : List (Command α τ μ)}
    (hp : (m.channel i).pending = cmd :: rest) (hidle : (m.channel i).running = [])
    (hflows : Flows sig num (m.signals sig) (m.channel i).pending) :
    (m.fetch serial i).isSome = true := by
  rw [hp] at hflows
  cases cmd with
  | release signal value =>
    refine fetch_isSome_of_quiet sig hp hidle ?_
    by_cases hs : signal = sig
    · exact Or.inr ⟨value, by rw [hs]⟩
    · exact Or.inl hs
  | acquire signal value =>
    refine fetch_isSome_of_acquire hp ?_
    rw [hflows.1, hflows.2.1]
  | start n ordered => exact fetch_isSome_of_quiet sig hp hidle (Or.inl trivial)
  | other m => exact fetch_isSome_of_quiet sig hp hidle (Or.inl trivial)

/-- **No deadlock**: a machine whose signal is handed on executes a command or completes an
operation as long as a channel is not drained. -/
theorem Machine.Relayed.enabled (h : m.Relayed sig num v)
    (hleft : ∃ j, ¬ ((m.channel j).pending = [] ∧ (m.channel j).running = [])) :
    ∃ j, (m.fetch serial j).isSome = true ∨ ∃ n, (m.finish j n).isSome = true := by
  obtain ⟨lead, follow, h⟩ := h
  by_cases hrun : ∃ j, (m.channel j).running ≠ []
  · obtain ⟨j, hj⟩ := hrun
    obtain ⟨n, rest, hn⟩ := List.exists_cons_of_ne_nil hj
    refine ⟨j, Or.inr ⟨n, ?_⟩⟩
    unfold Machine.finish
    rw [if_pos (by rw [hn]; exact List.mem_cons_self)]
    rfl
  have hidle : ∀ j, (m.channel j).running = [] := fun j => by
    by_contra hj
    exact hrun ⟨j, hj⟩
  obtain ⟨j, hj⟩ := hleft
  have hpend : (m.channel j).pending ≠ [] := fun hnil => hj ⟨hnil, hidle j⟩
  -- the channel that leads goes on if it can, else the one that follows, else any other
  by_cases hl : (m.channel lead).pending = []
  · by_cases hf : (m.channel follow).pending = []
    · have hjl : j ≠ lead := fun heq => hpend (heq ▸ hl)
      have hjf : j ≠ follow := fun heq => hpend (heq ▸ hf)
      obtain ⟨cmd, rest, hp⟩ := List.exists_cons_of_ne_nil hpend
      have hquiet := h.quiet j hjl hjf
      rw [hp] at hquiet
      exact ⟨j, Or.inl (fetch_isSome_of_quiet sig hp (hidle j)
        (Or.inl ((quiet_cons cmd rest).mp hquiet).1))⟩
    · obtain ⟨cmd, rest, hp⟩ := List.exists_cons_of_ne_nil hf
      have hgated := flows_of_gated h.gated
      rw [hl] at hgated
      exact ⟨follow, Or.inl (fetch_isSome_of_flows hp (hidle follow) hgated)⟩
  · obtain ⟨cmd, rest, hp⟩ := List.exists_cons_of_ne_nil hl
    exact ⟨lead, Or.inl (fetch_isSome_of_flows hp (hidle lead) h.flows)⟩

end Progress

end Machine

/-! ## Operations -/

section Holds

/-- An operation given to a channel waits there, or it runs, or it has completed. -/
def Machine.Holds (m : Machine ι α τ μ) (i : ι) (n : ℕ) (ordered : Bool) : Prop :=
  .start n ordered ∈ (m.channel i).pending ∨ n ∈ (m.channel i).running ∨ n ∈ m.completed

variable [DecidableEq ι] {m m' : Machine ι α τ μ} {i j : ι} {n : ℕ} {ordered : Bool}

theorem Machine.Holds.submit (h : m.Holds i n ordered) (cmds : List (Command α τ μ)) :
    (m.submit j cmds).Holds i n ordered := by
  by_cases hij : i = j
  · subst hij
    have hchannel : (m.submit i cmds).channel i =
      ⟨(m.channel i).pending ++ cmds, (m.channel i).running⟩ := setChannel_self ..
    rw [Machine.Holds, hchannel]
    exact h.imp (List.mem_append_left cmds) id
  · rw [Machine.Holds, channel_submit_of_ne hij]
    exact h

theorem Machine.Holds.finish {k : ℕ} (h : m.Holds i n ordered) (hf : m.finish j k = some m') :
    m'.Holds i n ordered := by
  obtain ⟨hk, hc, -, hne, hp, hr⟩ := finish_cases hf
  rw [Machine.Holds, hc]
  by_cases hij : i = j
  · subst hij
    rw [hp, hr]
    rcases h with hpend | hrun | hdone
    · exact Or.inl hpend
    · by_cases hnk : n = k
      · exact Or.inr (Or.inr (hnk ▸ List.mem_cons_self))
      · exact Or.inr (Or.inl ((List.mem_erase_of_ne hnk).mpr hrun))
    · exact Or.inr (Or.inr (List.mem_cons_of_mem k hdone))
  · rw [hne i hij]
    exact h.imp id (Or.imp id (List.mem_cons_of_mem k))

theorem Machine.Holds.fetch [DecidableEq α] [DecidableEq τ] {serial : ι → Bool}
    (h : m.Holds i n ordered) (hf : m.fetch serial j = some m') : m'.Holds i n ordered := by
  obtain ⟨cmd, rest, hp, hc, hne, hp', hcmd⟩ := fetch_cases hf
  rw [Machine.Holds, hc]
  by_cases hij : i = j
  · subst hij
    rw [Machine.Holds, hp, List.mem_cons] at h
    rw [hp']
    cases cmd with
    | release signal value =>
      -- nothing ran in front of the release
      rcases h with (hcmd' | hpend) | hrun | hdone
      · cases hcmd'
      · exact Or.inl hpend
      · rw [hcmd.1] at hrun
        cases hrun
      · exact Or.inr (Or.inr hdone)
    | acquire signal value =>
      rw [hcmd.2.1]
      exact h.imp (fun hmem => hmem.resolve_left (by rintro ⟨⟩)) id
    | start k o =>
      rw [hcmd.2.1, List.mem_cons]
      rcases h with (hcmd' | hpend) | hrun | hdone
      · cases hcmd'
        exact Or.inr (Or.inl (Or.inl rfl))
      · exact Or.inl hpend
      · exact Or.inr (Or.inl (Or.inr hrun))
      · exact Or.inr (Or.inr hdone)
    | other mth =>
      rw [hcmd.1]
      exact h.imp (fun hmem => hmem.resolve_left (by rintro ⟨⟩)) id
  · rw [hne i hij]
    exact h

end Holds

/-! ## Work -/

section Work

variable [Fintype ι]

/-- The steps that are left: two for a command, since it may begin an operation, and one for an
operation that is running. -/
def Machine.work (m : Machine ι α τ μ) : ℕ :=
  ∑ i, (2 * (m.channel i).pending.length + (m.channel i).running.length)

variable [DecidableEq ι] {m m' : Machine ι α τ μ} {i : ι}

/-- Work is less when one channel has less and the others have the same. -/
theorem work_lt (hne : ∀ j, j ≠ i → m'.channel j = m.channel j)
    (hlt : 2 * (m'.channel i).pending.length + (m'.channel i).running.length <
      2 * (m.channel i).pending.length + (m.channel i).running.length) : m'.work < m.work := by
  refine Finset.sum_lt_sum (fun j _ => ?_) ⟨i, Finset.mem_univ i, hlt⟩
  by_cases hj : j = i
  · subst hj
    exact hlt.le
  · rw [hne j hj]

/-- **A completion is a step less.** -/
theorem work_finish {n : ℕ} (hf : m.finish i n = some m') : m'.work < m.work := by
  obtain ⟨hn, -, -, hne, hp, hr⟩ := finish_cases hf
  refine work_lt hne ?_
  have hpos := List.length_pos_of_mem hn
  rw [hp, hr, List.length_erase_of_mem hn]
  omega

/-- **A fetch is a step less.** -/
theorem work_fetch [DecidableEq α] [DecidableEq τ] {serial : ι → Bool}
    (hf : m.fetch serial i = some m') : m'.work < m.work := by
  obtain ⟨cmd, rest, hp, -, hne, hp', hcmd⟩ := fetch_cases hf
  refine work_lt hne ?_
  have hrun : (m'.channel i).running.length ≤ (m.channel i).running.length + 1 := by
    cases cmd with
    | release signal value => simp [hcmd.2.1]
    | acquire signal value => simp [hcmd.2.1]
    | start n ordered => simp [hcmd.2.1]
    | other m => simp [hcmd.1]
  rw [hp, hp', List.length_cons]
  omega

/-- Submitting adds two steps for each command. -/
theorem work_submit (cmds : List (Command α τ μ)) :
    (m.submit i cmds).work = m.work + 2 * cmds.length := by
  have hself : ∀ j, 2 * ((m.submit i cmds).channel j).pending.length +
      ((m.submit i cmds).channel j).running.length =
      (2 * (m.channel j).pending.length + (m.channel j).running.length) +
        if j = i then 2 * cmds.length else 0 := by
    intro j
    by_cases hj : j = i
    · subst hj
      simp [Machine.submit]
      omega
    · rw [channel_submit_of_ne hj, if_neg hj]
      rfl
  rw [Machine.work, Machine.work, Finset.sum_congr rfl fun j _ => hself j, Finset.sum_add_distrib,
    Finset.sum_ite_eq' Finset.univ i fun _ => 2 * cmds.length, if_pos (Finset.mem_univ i)]

end Work

end Channels
