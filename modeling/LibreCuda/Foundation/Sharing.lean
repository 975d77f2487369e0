import LibreCuda.Foundation.Overlaps
import LibreCuda.Foundation.Relays

/-! # Channels that are shared

Several users submit to the channels of one machine. A channel executes what all of them submitted in
one order, and a release waits until nothing runs on the channel, whoever began it.

* **`Shared.view`** is what one user sees: its own commands, and all signals.
* **`view_fetch`**, **`view_finish`**, **`view_submit`**: a step of the shared machine is a step of
  the machine that one user sees, and disturbs what the others see.
* **`Machine.Disturbed`**: only other signals changed. The invariants of a user survive that. -/

namespace Channels

variable {κ ι α τ μ β : Type}

/-- A channel: what is pending and what runs, each with its user. -/
structure SharedChannel (κ α τ μ : Type) where
  pending : List (κ × Command α τ μ) := []
  running : List (κ × ℕ) := []

/-- The machine: its channels, the signals, and the operations completed so far. -/
structure Shared (κ ι α τ μ : Type) where
  channel : ι → SharedChannel κ α τ μ := fun _ => {}
  signals : α → τ
  completed : List (κ × ℕ) := []

/-! ## Steps -/

section Steps

variable [DecidableEq ι]

/-- Replace a channel. -/
def Shared.setChannel (m : Shared κ ι α τ μ) (i : ι) (c : SharedChannel κ α τ μ) :
    Shared κ ι α τ μ :=
  { m with channel := Function.update m.channel i c }

/-- An operation that is running on a channel completes. -/
def Shared.finish [DecidableEq κ] (m : Shared κ ι α τ μ) (i : ι) (k : κ) (n : ℕ) :
    Option (Shared κ ι α τ μ) :=
  if (k, n) ∈ (m.channel i).running then
    some { m.setChannel i ⟨(m.channel i).pending, (m.channel i).running.erase (k, n)⟩ with
      completed := (k, n) :: m.completed }
  else none

/-- A user appends commands to the stream of a channel. -/
def Shared.submit (m : Shared κ ι α τ μ) (i : ι) (k : κ) (cmds : List (Command α τ μ)) :
    Shared κ ι α τ μ :=
  m.setChannel i ⟨(m.channel i).pending ++ cmds.map (Prod.mk k), (m.channel i).running⟩

/-- Execute the first command of a channel, if it is not blocked. -/
def Shared.fetch [DecidableEq α] [DecidableEq τ] (serial : ι → Bool) (m : Shared κ ι α τ μ)
    (i : ι) : Option (Shared κ ι α τ μ) :=
  match (m.channel i).pending with
  | [] => none
  | (_, .release signal value) :: rest =>
    if (m.channel i).running.isEmpty then
      some { m.setChannel i ⟨rest, []⟩ with signals := Function.update m.signals signal value }
    else none
  | (_, .acquire signal value) :: rest =>
    if m.signals signal = value then some (m.setChannel i ⟨rest, (m.channel i).running⟩) else none
  | (k, .start n _) :: rest =>
    if serial i = true ∧ (m.channel i).running.isEmpty = false then none
    else some (m.setChannel i ⟨rest, (k, n) :: (m.channel i).running⟩)
  | (_, .other _) :: rest => some (m.setChannel i ⟨rest, (m.channel i).running⟩)

end Steps

/-! ## What one user sees -/

section View

variable [DecidableEq κ]

/-- What belongs to a user. -/
def ofUser (k : κ) (l : List (κ × β)) : List β := (l.filter fun x => x.1 = k).map Prod.snd

@[simp] theorem ofUser_nil (k : κ) : ofUser k ([] : List (κ × β)) = [] := rfl

@[simp] theorem ofUser_cons_self (k : κ) (b : β) (l : List (κ × β)) :
    ofUser k ((k, b) :: l) = b :: ofUser k l := by simp [ofUser]

theorem ofUser_cons_of_ne {j k : κ} (h : j ≠ k) (b : β) (l : List (κ × β)) :
    ofUser k ((j, b) :: l) = ofUser k l := by simp [ofUser, h]

theorem ofUser_append (k : κ) (a b : List (κ × β)) :
    ofUser k (a ++ b) = ofUser k a ++ ofUser k b := by
  rw [ofUser, List.filter_append, List.map_append]
  rfl

theorem mem_ofUser {k : κ} {b : β} {l : List (κ × β)} : b ∈ ofUser k l ↔ (k, b) ∈ l := by
  simp only [ofUser, List.mem_map, List.mem_filter, decide_eq_true_eq]
  constructor
  · rintro ⟨⟨j, c⟩, ⟨hmem, rfl⟩, rfl⟩
    exact hmem
  · intro hmem
    exact ⟨(k, b), ⟨hmem, rfl⟩, rfl⟩

theorem ofUser_map_self (k : κ) (bs : List β) : ofUser k (bs.map (Prod.mk k)) = bs := by
  induction bs with
  | nil => rfl
  | cons b rest ih => rw [List.map_cons, ofUser_cons_self, ih]

theorem ofUser_map_of_ne {j k : κ} (h : j ≠ k) (bs : List β) :
    ofUser k (bs.map (Prod.mk j)) = [] := by
  induction bs with
  | nil => rfl
  | cons b rest ih => rw [List.map_cons, ofUser_cons_of_ne h, ih]

/-- What one user has is erased for that user only. -/
theorem ofUser_erase (k j : κ) (n : ℕ) (l : List (κ × ℕ)) :
    ofUser k (l.erase (j, n)) = if j = k then (ofUser k l).erase n else ofUser k l := by
  induction l with
  | nil => rw [List.erase_nil, ofUser_nil, List.erase_nil, ite_self]
  | cons x rest ih =>
    obtain ⟨i, a⟩ := x
    by_cases hx : (i, a) = (j, n)
    · obtain ⟨rfl, rfl⟩ := Prod.mk.inj hx
      rw [List.erase_cons_head]
      split_ifs with hk
      · subst hk
        rw [ofUser_cons_self, List.erase_cons_head]
      · rw [ofUser_cons_of_ne hk]
    · rw [List.erase_cons_tail (by simpa using hx)]
      by_cases hi : i = k
      · subst hi
        rw [ofUser_cons_self, ofUser_cons_self, ih]
        split_ifs with hk
        · subst hk
          have hne : a ≠ n := fun h => hx (by rw [h])
          rw [List.erase_cons_tail (by simpa using hne)]
        · rfl
      · rw [ofUser_cons_of_ne hi, ofUser_cons_of_ne hi, ih]

/-- The machine as one user sees it. -/
def Shared.view (m : Shared κ ι α τ μ) (k : κ) : Machine ι α τ μ where
  channel i := ⟨ofUser k (m.channel i).pending, ofUser k (m.channel i).running⟩
  signals := m.signals
  completed := ofUser k m.completed

end View

/-! ## Disturbances -/

section Disturbed

/-- Nothing of a user changed, nor its signal. -/
structure Machine.Disturbed (sig : α) (m m' : Machine ι α τ μ) : Prop where
  channel : m'.channel = m.channel
  completed : m'.completed = m.completed
  signal : m'.signals sig = m.signals sig

variable {sig : α} {m m' : Machine ι α τ μ}

theorem Machine.Disturbed.eq (h : m.Disturbed sig m') : m' = { m with signals := m'.signals } := by
  obtain ⟨channel, signals, completed⟩ := m'
  obtain ⟨rfl, rfl, -⟩ := h
  rfl

theorem Machine.Done.disturbed {floor n : ℕ} (hd : m.Done floor n) (h : m.Disturbed sig m') :
    m'.Done floor n := by
  rw [h.eq]
  exact hd

theorem Machine.Ahead.disturbed [DecidableEq α] {floor : ℕ} {serial : ι → Bool} {num : τ → ℕ}
    {i : ι} {e : Known} (ha : m.Ahead floor serial sig num i e) (h : m.Disturbed sig m') :
    m'.Ahead floor serial sig num i e := by
  rw [h.eq]
  exact ha

theorem Machine.Sealed.disturbed {serial : ι → Bool} {strict : ℕ → Prop}
    (hs : m.Sealed serial strict) (h : m.Disturbed sig m') : m'.Sealed serial strict := by
  rw [h.eq]
  exact hs

theorem Machine.Overlaps.disturbed {floor : ℕ} {loose : ℕ → Prop} (ho : m.Overlaps floor loose)
    (h : m.Disturbed sig m') : m'.Overlaps floor loose := by
  rw [h.eq]
  exact ho

theorem Machine.Relayed.disturbed [DecidableEq α] {num : τ → ℕ} {v : τ}
    (hr : m.Relayed sig num v) (h : m.Disturbed sig m') : m'.Relayed sig num v := by
  obtain ⟨lead, follow, hrelay⟩ := hr
  refine ⟨lead, follow, hrelay.ne, ?_, ?_, fun i hl hf => ?_, ?_⟩
  · rw [h.signal, h.channel]
    exact hrelay.flows
  · rw [h.signal, h.channel]
    exact hrelay.gated
  · rw [h.channel]
    exact hrelay.quiet i hl hf
  · rw [h.signal, h.channel]
    exact hrelay.ends

theorem Machine.Disturbed.begun [Fintype ι] (h : m.Disturbed sig m') (n : ℕ) :
    m'.begun n = m.begun n := by
  rw [h.eq]
  rfl

end Disturbed

/-! ## Steps as the users see them -/

section Steps

variable [DecidableEq κ] [DecidableEq ι] {m m' : Shared κ ι α τ μ} {i : ι}

/-- A view of a machine with one channel replaced. -/
theorem view_setChannel (m : Shared κ ι α τ μ) (i : ι) (c : SharedChannel κ α τ μ) (k : κ) :
    (m.setChannel i c).view k =
      (m.view k).setChannel i ⟨ofUser k c.pending, ofUser k c.running⟩ := by
  rw [Shared.view, Machine.setChannel]
  congr 1
  funext j
  by_cases hj : j = i
  · subst hj
    simp only [Shared.setChannel, Function.update_self]
  · simp only [Shared.setChannel, Function.update_of_ne hj, Shared.view]

/-- Replacing a channel by one with the same contents for a user. -/
theorem setChannel_eq_self {m : Machine ι α τ μ} {c : Channel α τ μ} (h : c = m.channel i) :
    m.setChannel i c = m := by
  rw [Machine.setChannel, h, Function.update_eq_self]

/-- **A submission** is one for its user, and nothing for the others. -/
theorem view_submit (m : Shared κ ι α τ μ) (i : ι) (j : κ) (cmds : List (Command α τ μ)) (k : κ) :
    (m.submit i j cmds).view k = if j = k then (m.view k).submit i cmds else m.view k := by
  rw [Shared.submit, view_setChannel, ofUser_append]
  split_ifs with hk
  · subst hk
    rw [ofUser_map_self]
    rfl
  · rw [ofUser_map_of_ne hk, List.append_nil]
    exact setChannel_eq_self rfl

/-- **A completion** is one for its user, and nothing for the others. -/
theorem view_finish {j : κ} {n : ℕ} (hf : m.finish i j n = some m') (k : κ) :
    if j = k then (m.view k).finish i n = some (m'.view k) else m'.view k = m.view k := by
  unfold Shared.finish at hf
  split_ifs at hf with hn
  cases hf
  have hview : ({ m.setChannel i ⟨(m.channel i).pending, (m.channel i).running.erase (j, n)⟩ with
      completed := (j, n) :: m.completed } : Shared κ ι α τ μ).view k =
      { (m.setChannel i ⟨(m.channel i).pending, (m.channel i).running.erase (j, n)⟩).view k with
        completed := ofUser k ((j, n) :: m.completed) } := rfl
  rw [hview, view_setChannel, ofUser_erase]
  split_ifs with hk
  · subst hk
    rw [ofUser_cons_self]
    exact if_pos (mem_ofUser.mpr hn)
  · rw [ofUser_cons_of_ne hk]
    have hsame : (m.view k).setChannel i ⟨ofUser k (m.channel i).pending,
      ofUser k (m.channel i).running⟩ = m.view k := setChannel_eq_self rfl
    exact congrArg (fun g : Machine ι α τ μ => { g with completed := ofUser k m.completed }) hsame

variable [DecidableEq α] [DecidableEq τ] {serial : ι → Bool}

/-- Where nothing runs, nothing of a user runs. -/
theorem ofUser_of_isEmpty {l : List (κ × β)} (h : l.isEmpty = true) (k : κ) : ofUser k l = [] := by
  rw [List.isEmpty_iff.mp h]
  rfl

/-- **A fetch** is one for the user whose command it is, and disturbs the others, unless the command
releases their signal. -/
theorem view_fetch (hf : m.fetch serial i = some m') :
    ∃ j cmd rest, (m.channel i).pending = (j, cmd) :: rest ∧
      (m'.channel i).pending = rest ∧ (∀ l, l ≠ i → m'.channel l = m.channel l) ∧
      (m.view j).fetch serial i = some (m'.view j) ∧
      ∀ k, k ≠ j → ∀ sig, (∀ value, cmd ≠ .release sig value) →
        (m.view k).Disturbed sig (m'.view k) := by
  have hchannel : ∀ c : SharedChannel κ α τ μ, ((m.setChannel i c).channel i) = c :=
    fun c => Function.update_self ..
  have hothers : ∀ (c : SharedChannel κ α τ μ) l, l ≠ i → (m.setChannel i c).channel l = m.channel l :=
    fun c l hl => Function.update_of_ne hl ..
  -- what the view of a user has at the head of the channel
  have hview : ∀ {j : κ} {cmd : Command α τ μ} {rest}, (m.channel i).pending = (j, cmd) :: rest →
      ((m.view j).channel i).pending = cmd :: ofUser j rest ∧
        ∀ k, k ≠ j → ((m.view k).channel i).pending = ofUser k rest := by
    intro j cmd rest hp
    refine ⟨?_, fun k hk => ?_⟩
    · show ofUser j (m.channel i).pending = _
      rw [hp, ofUser_cons_self]
    · show ofUser k (m.channel i).pending = _
      rw [hp, ofUser_cons_of_ne hk.symm]
  unfold Shared.fetch at hf
  split at hf
  · cases hf
  · rename_i j signal value rest hp
    split_ifs at hf with hidle
    cases hf
    obtain ⟨hself, hother⟩ := hview hp
    refine ⟨j, .release signal value, rest, hp, by rw [hchannel], hothers _, ?_,
      fun k hk sig hsig => ⟨?_, rfl, ?_⟩⟩
    · have hrunning : ((m.view j).channel i).running = [] := ofUser_of_isEmpty hidle j
      simp only [Machine.fetch, hself, if_pos hrunning]
      congr 1
      rw [← ofUser_nil j (β := ℕ)]
      exact congrArg (fun g : Machine ι α τ μ => { g with
        signals := Function.update m.signals signal value }) (view_setChannel m i ⟨rest, []⟩ j).symm
    · show ((m.setChannel i ⟨rest, []⟩).view k).channel = (m.view k).channel
      rw [view_setChannel, setChannel_eq_self]
      rw [← hother k hk]
      exact congrArg (Channel.mk _) (ofUser_of_isEmpty hidle k).symm
    · have hne : sig ≠ signal := by
        rintro rfl
        exact hsig value rfl
      exact Function.update_of_ne hne ..
  · rename_i j signal value rest hp
    split_ifs at hf with hvalue
    cases hf
    obtain ⟨hself, hother⟩ := hview hp
    refine ⟨j, .acquire signal value, rest, hp, by rw [hchannel], hothers _, ?_,
      fun k hk sig hsig => ?_⟩
    · have hvalue' : (m.view j).signals signal = value := hvalue
      simp only [Machine.fetch, hself, if_pos hvalue']
      rw [view_setChannel]
      rfl
    · rw [view_setChannel, setChannel_eq_self]
      · exact ⟨rfl, rfl, rfl⟩
      · rw [← hother k hk]
        rfl
  · rename_i j n ordered rest hp
    split_ifs at hf with hserial
    cases hf
    obtain ⟨hself, hother⟩ := hview hp
    refine ⟨j, .start n ordered, rest, hp, by rw [hchannel], hothers _, ?_,
      fun k hk sig hsig => ?_⟩
    · have hserial' : ¬ (serial i = true ∧ ((m.view j).channel i).running ≠ []) := by
        rintro ⟨hs, hrunning⟩
        refine hserial ⟨hs, Bool.eq_false_iff.mpr fun hidle => hrunning ?_⟩
        exact ofUser_of_isEmpty hidle j
      simp only [Machine.fetch, hself, if_neg hserial']
      rw [view_setChannel, ofUser_cons_self]
      rfl
    · rw [view_setChannel, setChannel_eq_self]
      · exact ⟨rfl, rfl, rfl⟩
      · rw [← hother k hk, ofUser_cons_of_ne hk.symm]
        rfl
  · rename_i j mth rest hp
    cases hf
    obtain ⟨hself, hother⟩ := hview hp
    refine ⟨j, .other mth, rest, hp, by rw [hchannel], hothers _, ?_, fun k hk sig hsig => ?_⟩
    · simp only [Machine.fetch, hself]
      rw [view_setChannel]
      rfl
    · rw [view_setChannel, setChannel_eq_self]
      · exact ⟨rfl, rfl, rfl⟩
      · rw [← hother k hk]
        rfl

end Steps

/-! ## Going on -/

section Progress

variable [DecidableEq κ] [DecidableEq ι] {m m' : Shared κ ι α τ μ} {i : ι}

/-- Nothing is pending on the channel, and nothing runs. -/
def Shared.Drained (m : Shared κ ι α τ μ) (i : ι) : Prop :=
  (m.channel i).pending = [] ∧ (m.channel i).running = []

omit [DecidableEq ι] in
theorem Shared.Drained.view (h : m.Drained i) (k : κ) : (m.view k).Drained i := by
  refine ⟨?_, ?_⟩
  · show ofUser k (m.channel i).pending = []
    rw [h.1]
    rfl
  · show ofUser k (m.channel i).running = []
    rw [h.2]
    rfl

/-- What runs completes. -/
theorem finish_isSome (h : (m.channel i).running ≠ []) :
    ∃ k n, (m.finish i k n).isSome = true := by
  obtain ⟨⟨k, n⟩, rest, hrunning⟩ := List.exists_cons_of_ne_nil h
  refine ⟨k, n, ?_⟩
  unfold Shared.finish
  rw [if_pos (by rw [hrunning]; exact List.mem_cons_self)]
  rfl

/-- **On an idle channel** the first command is executed if its user's view executes it. -/
theorem fetch_isSome_of_view [DecidableEq α] [DecidableEq τ] {serial : ι → Bool} {k : κ}
    {cmd : Command α τ μ} {rest : List (κ × Command α τ μ)}
    (hp : (m.channel i).pending = (k, cmd) :: rest) (hidle : (m.channel i).running = [])
    (hview : ((m.view k).fetch serial i).isSome = true) : (m.fetch serial i).isSome = true := by
  unfold Shared.fetch
  rw [hp]
  cases cmd with
  | release signal value => simp [hidle]
  | acquire signal value =>
    have hpending : ((m.view k).channel i).pending = .acquire signal value :: ofUser k rest := by
      show ofUser k (m.channel i).pending = _
      rw [hp, ofUser_cons_self]
    unfold Machine.fetch at hview
    rw [hpending] at hview
    have hvalue : m.signals signal = value := by
      by_contra hne
      have hne' : ¬ (m.view k).signals signal = value := hne
      simp only [if_neg hne'] at hview
      cases hview
    simp [hvalue]
  | start n ordered => simp [hidle]
  | other mth => rfl

variable [Fintype ι]

/-- The steps that are left, as for one user. -/
def Shared.work (m : Shared κ ι α τ μ) : ℕ :=
  ∑ i, (2 * (m.channel i).pending.length + (m.channel i).running.length)

omit [DecidableEq κ] in
/-- The work of one channel is replaced. -/
theorem work_setChannel (pending : List (κ × Command α τ μ)) (running : List (κ × ℕ)) :
    (m.setChannel i ⟨pending, running⟩).work +
      (2 * (m.channel i).pending.length + (m.channel i).running.length) =
    m.work + (2 * pending.length + running.length) := by
  have hothers : ∀ j ∈ Finset.univ.erase i,
      2 * ((m.setChannel i ⟨pending, running⟩).channel j).pending.length +
        ((m.setChannel i ⟨pending, running⟩).channel j).running.length =
      2 * (m.channel j).pending.length + (m.channel j).running.length := by
    intro j hj
    have hchannel : (m.setChannel i ⟨pending, running⟩).channel j = m.channel j :=
      Function.update_of_ne (Finset.ne_of_mem_erase hj) ..
    rw [hchannel]
  have hself : (m.setChannel i ⟨pending, running⟩).channel i = ⟨pending, running⟩ :=
    Function.update_self ..
  rw [Shared.work, Shared.work, ← Finset.add_sum_erase _ _ (Finset.mem_univ i),
    ← Finset.add_sum_erase (Finset.univ : Finset ι) _ (Finset.mem_univ i),
    Finset.sum_congr rfl hothers, hself]
  dsimp only
  omega

omit [DecidableEq κ] in
/-- Submitting adds two steps for each command. -/
theorem Shared.work_submit (k : κ) (cmds : List (Command α τ μ)) :
    (m.submit i k cmds).work = m.work + 2 * cmds.length := by
  have hwork := work_setChannel (m := m) (i := i)
    ((m.channel i).pending ++ cmds.map (Prod.mk k)) (m.channel i).running
  rw [List.length_append, List.length_map] at hwork
  rw [Shared.submit]
  omega

/-- A completion is a step less. -/
theorem Shared.work_finish {k : κ} {n : ℕ} (hf : m.finish i k n = some m') : m'.work < m.work := by
  unfold Shared.finish at hf
  split_ifs at hf with hn
  cases hf
  have hwork := work_setChannel (m := m) (i := i)
    (m.channel i).pending ((m.channel i).running.erase (k, n))
  have hpos := List.length_pos_of_mem hn
  rw [List.length_erase_of_mem hn] at hwork
  show (m.setChannel i _).work < m.work
  omega

omit [DecidableEq κ] in
/-- A fetch is a step less. -/
theorem Shared.work_fetch [DecidableEq α] [DecidableEq τ] {serial : ι → Bool}
    (hf : m.fetch serial i = some m') : m'.work < m.work := by
  have hlt : ∀ {x : κ × Command α τ μ} {rest running}, (m.channel i).pending = x :: rest →
      running.length ≤ (m.channel i).running.length + 1 →
        (m.setChannel i ⟨rest, running⟩).work < m.work := by
    intro x rest running hp hrunning
    have hwork := work_setChannel (m := m) (i := i) rest running
    rw [hp, List.length_cons] at hwork
    omega
  unfold Shared.fetch at hf
  split at hf
  · cases hf
  · rename_i hp
    split_ifs at hf
    cases hf
    exact hlt hp (Nat.zero_le _)
  · rename_i hp
    split_ifs at hf
    cases hf
    exact hlt hp (Nat.le_succ _)
  · rename_i hp
    split_ifs at hf
    cases hf
    exact hlt hp (Nat.le_refl _)
  · rename_i hp
    cases hf
    exact hlt hp (Nat.le_succ _)

end Progress

end Channels
