import LibreCuda.Fifo.Ring

/-! # The command pages of a channel

A call of `submitToFifo` copies its words behind the write index of the page, and to the start of
the page when they no longer fit. What the GPU has yet to read may still lie there. The check that
guards the copy is made only at the return to the start, and only looks at the oldest entry of the
ring, whichever page that is in.

* **`PagesSound`** is the invariant: writing has not run into a block the GPU has yet to read.
* **`words_kept_iff`**: no call overwrites such a block if and only if each finds the blocks of
  earlier laps behind the end of its words.
* **`unread_words_overwritten`**: the check lets a call through that overwrites one. -/

namespace LibreCuda

open Rings Runs

/-- Address of a word of a submission. -/
def FifoSystem.wordAt (type : QueueType) (s : FifoSystem) (b : Submission) (k : ℕ) : NvU64 :=
  (s.page type b.stream).wordAddress (b.start + k)

/-- **The claim about a call**: none of the words it copied lies where a word of an entry lies that
was submitted and not fetched. -/
def Intact (type : QueueType) (s : FifoSystem) (e : FifoEvent) : Prop :=
  ∀ s' written, s.step type e = some s' → s'.submitted = s.submitted ++ [written] →
    ∀ b ∈ s.unfetched, ∀ k < written.length, ∀ l < b.length,
      s.wordAt type written k ≠ s.wordAt type b l

/-- The condition: the entries of the page that are still to be fetched and were written in an
earlier lap, or all of them when the call returns to the start of the page, start behind the words
of the call. -/
def FindsRoom (type : QueueType) (s : FifoSystem) : FifoEvent → Prop
  | .submit stream buffer => buffer ≠ [] → ∀ b ∈ s.unfetched, b.stream = stream →
      (s.fits type stream (commandWords buffer).length = true → b.lap < s.lap stream) →
      s.start type stream (commandWords buffer).length + (commandWords buffer).length ≤ b.start
  | .fetch => True

/-- The pages of these streams do not overlap. -/
def PagesApart (type : QueueType) (streams : ℕ → Prop) (s : FifoSystem) : Prop :=
  ∀ i j, streams i → streams j → i ≠ j → ∀ k < maxCmdQueuePageSize, ∀ l < maxCmdQueuePageSize,
    (s.page type i).wordAddress k ≠ (s.page type j).wordAddress l

/-- A call is made by one of these streams, with no more words than a page has. -/
def FitsPage (streams : ℕ → Prop) : FifoEvent → Prop
  | .submit stream buffer =>
    streams stream ∧ (commandWords buffer).length ≤ maxCmdQueuePageSize
  | .fetch => True

/-- **The invariant.** Writing has not run into a block the GPU has yet to read. -/
structure PagesSound (type : QueueType) (streams : ℕ → Prop) (s : FifoSystem) : Prop where
  apart : PagesApart type streams s
  clear : ∀ b ∈ s.unfetched,
    b.Clear (s.lap b.stream) (s.page type b.stream).commandWriteIdx
  inPage : ∀ b ∈ s.unfetched,
    streams b.stream ∧ 0 < b.length ∧ b.start + b.length ≤ maxCmdQueuePageSize

variable {type : QueueType} {streams : ℕ → Prop} {s s' : FifoSystem}

/-! ## What is still to be fetched -/

theorem unfetched_submit {stream n : ℕ} (h : RingSound type s)
    (hsub : Submitted type stream n s s') :
    s'.unfetched = s.unfetched ++ [s.submission type stream n] := by
  rw [FifoSystem.unfetched, hsub.submitted, hsub.fetched,
    List.drop_append_of_le_length h.fetched_le, FifoSystem.unfetched]

theorem unfetched_fetch (hf : LibreCuda.Fetched type s s') :
    ∀ b ∈ s'.unfetched, b ∈ s.unfetched := by
  intro b hb
  rw [FifoSystem.unfetched, hf.submitted, hf.fetched, List.length_append,
    ← List.drop_drop] at hb
  exact List.mem_of_mem_drop hb

/-! ## Addresses -/

/-- The words of a page have addresses of their own. -/
theorem wordAddress_inj (page : CommandQueuePage) {k l : ℕ} (hk : k < maxCmdQueuePageSize)
    (hl : l < maxCmdQueuePageSize) : page.wordAddress k = page.wordAddress l ↔ k = l := by
  refine ⟨fun h => ?_, fun h => h ▸ rfl⟩
  have hoffset : (4 : NvU64) * BitVec.ofNat 64 k = 4 * BitVec.ofNat 64 l :=
    (BitVec.add_right_inj _).mp h
  have hnat := congrArg BitVec.toNat hoffset
  rw [BitVec.toNat_mul, BitVec.toNat_mul, BitVec.toNat_ofNat, BitVec.toNat_ofNat] at hnat
  change 4 * (k % 2 ^ 64) % 2 ^ 64 = 4 * (l % 2 ^ 64) % 2 ^ 64 at hnat
  change k < 0x200000 at hk
  change l < 0x200000 at hl
  omega

/-- Where a call copies its words to stays in the page. -/
theorem start_add_le {stream n : ℕ} (hn : n ≤ maxCmdQueuePageSize) :
    s.start type stream n + n ≤ maxCmdQueuePageSize := by
  rw [FifoSystem.start]
  split_ifs with hfits
  · exact fits_iff.mp hfits
  · rwa [Nat.zero_add]

/-! ## Steps -/

theorem pagesSound_of_fresh (h : s.Fresh type) (ha : PagesApart type streams s) :
    PagesSound type streams s := by
  have hnil : s.unfetched = [] := by
    rw [FifoSystem.unfetched, h.submitted, List.drop_nil]
  refine ⟨ha, fun b hb => ?_, fun b hb => ?_⟩
  · rw [hnil] at hb
    cases hb
  · rw [hnil] at hb
    cases hb

theorem apart_of_space (h : PagesApart type streams s)
    (hspace : ∀ i, (s'.page type i).commandQueueSpace = (s.page type i).commandQueueSpace) :
    PagesApart type streams s' := by
  intro i j hi hj hne k hk l hl
  rw [CommandQueuePage.wordAddress, CommandQueuePage.wordAddress, hspace, hspace]
  exact h i j hi hj hne k hk l hl

theorem Submitted.space_eq {stream n : ℕ} (hsub : Submitted type stream n s s') (i : ℕ) :
    (s'.page type i).commandQueueSpace = (s.page type i).commandQueueSpace := by
  by_cases hi : i = stream
  · rw [hi]
    exact hsub.space
  · rw [hsub.others i hi]

/-- A call that finds room keeps the pages sound. -/
theorem PagesSound.submit {stream : ℕ} {buffer : List MethodCall} (hr : RingSound type s)
    (h : PagesSound type streams s) (hne : buffer ≠ [])
    (hstream : streams stream) (hn : (commandWords buffer).length ≤ maxCmdQueuePageSize)
    (hsub : Submitted type stream (commandWords buffer).length s s')
    (hroom : FindsRoom type s (.submit stream buffer)) : PagesSound type streams s' := by
  have hunfetched := unfetched_submit hr hsub
  refine ⟨apart_of_space h.apart hsub.space_eq, fun b hb => ?_, fun b hb => ?_⟩
  · rw [hunfetched, List.mem_append, List.mem_singleton] at hb
    rcases hb with hb | rfl
    · have hclear := h.clear b hb
      by_cases hi : b.stream = stream
      · have hbehind := hroom hne b hb hi
        rw [hi] at hclear ⊢
        rw [hsub.commandWriteIdx, hsub.lap, Function.update_self]
        rw [FifoSystem.start] at hbehind ⊢
        rw [FifoSystem.writeLap]
        split_ifs at hbehind ⊢ with hfits
        · exact hclear.advance fun hlap => hbehind fun _ => hlap
        · rw [Nat.zero_add] at hbehind ⊢
          exact hclear.wrap (hbehind fun htrue => absurd htrue hfits)
      · rw [hsub.others _ hi, hsub.lap, Function.update_of_ne hi]
        exact hclear
    · show Block.Clear _ (s'.lap stream) (s'.page type stream).commandWriteIdx
      rw [hsub.commandWriteIdx, hsub.lap, Function.update_self]
      exact clear_written ..
  · rw [hunfetched, List.mem_append, List.mem_singleton] at hb
    rcases hb with hb | rfl
    · exact h.inPage b hb
    · refine ⟨hstream, ?_, start_add_le hn⟩
      exact List.length_pos_of_ne_nil fun hnil => hne (commandWords_eq_nil.mp hnil)

/-- Every other step keeps the pages sound. -/
theorem PagesSound.untouched (h : PagesSound type streams s) (hsame : Untouched type s s') :
    PagesSound type streams s' := by
  have hunfetched : s'.unfetched = s.unfetched := by
    rw [FifoSystem.unfetched, hsame.submitted, hsame.fetched, FifoSystem.unfetched]
  refine ⟨apart_of_space h.apart fun i => by rw [hsame.page], fun b hb => ?_, fun b hb => ?_⟩
  · rw [hsame.page, hsame.lap]
    exact h.clear b (hunfetched ▸ hb)
  · exact h.inPage b (hunfetched ▸ hb)

theorem PagesSound.fetch (h : PagesSound type streams s) (hf : LibreCuda.Fetched type s s') :
    PagesSound type streams s' := by
  refine ⟨apart_of_space h.apart fun i => by rw [hf.page], fun b hb => ?_, fun b hb => ?_⟩
  · rw [hf.page, hf.lap]
    exact h.clear b (unfetched_fetch hf b hb)
  · exact h.inPage b (unfetched_fetch hf b hb)

theorem pagesSound_step {e : FifoEvent} (hr : RingSound type s) (h : PagesSound type streams s)
    (hfit : FitsPage streams e) (hroom : FindsRoom type s e) (hstep : s.step type e = some s') :
    PagesSound type streams s' := by
  cases e with
  | submit stream buffer =>
    rcases step_submit hstep with ⟨-, hsame⟩ | ⟨hne, hsub⟩
    · exact h.untouched hsame
    · exact h.submit hr hne hfit.1 hfit.2 hsub hroom
  | fetch => exact h.fetch (step_fetched hstep)

/-- What a call overwrites, in terms of where its words go. -/
theorem intact_submit_iff {stream : ℕ} {buffer : List MethodCall}
    (hstep : s.step type (.submit stream buffer) = some s')
    (hsub : Submitted type stream (commandWords buffer).length s s') :
    Intact type s (.submit stream buffer) ↔
      ∀ b ∈ s.unfetched, ∀ k < (commandWords buffer).length, ∀ l < b.length,
        s.wordAt type (s.submission type stream (commandWords buffer).length) k ≠
          s.wordAt type b l := by
  refine ⟨fun h => h s' _ hstep hsub.submitted, fun h s'' written hs'' hwritten => ?_⟩
  obtain rfl : s'' = s' := Option.some.inj (hs''.symm.trans hstep)
  have hsame := List.append_cancel_left (hwritten.symm.trans hsub.submitted)
  obtain rfl := (List.cons.inj hsame).1
  exact h

/-- **Which calls overwrite nothing**: those that find room. -/
theorem intact_iff {e : FifoEvent} (h : PagesSound type streams s) (hfit : FitsPage streams e)
    (hstep : s.step type e = some s') : Intact type s e ↔ FindsRoom type s e := by
  cases e with
  | submit stream buffer =>
    rcases step_submit hstep with ⟨hempty, hsame⟩ | ⟨hne, hsub⟩
    · refine iff_of_true (fun s'' written hs'' hwritten => ?_) fun hne => absurd hempty hne
      obtain rfl : s'' = s' := Option.some.inj (hs''.symm.trans hstep)
      have hlen := congrArg List.length (hsame.submitted.symm.trans hwritten)
      simp at hlen
    · rw [intact_submit_iff hstep hsub]
      simp only [FindsRoom, hne, ne_eq, not_false_eq_true, true_imp_iff]
      refine forall_congr' fun b => forall_congr' fun hb => ?_
      obtain ⟨hbstream, hblen, hbend⟩ := h.inPage b hb
      have hend : s.start type stream (commandWords buffer).length + _ ≤ _ := start_add_le hfit.2
      have hin : ∀ k < (commandWords buffer).length,
          (s.submission type stream (commandWords buffer).length).start + k <
            maxCmdQueuePageSize := by
        intro k hk
        show s.start type stream (commandWords buffer).length + k < _
        omega
      by_cases hi : b.stream = stream
      · -- two blocks of one page: compare word indices
        have hword : (∀ k < (commandWords buffer).length, ∀ l < b.length,
            s.wordAt type (s.submission type stream (commandWords buffer).length) k ≠
              s.wordAt type b l) ↔
            ∀ k < (commandWords buffer).length, ∀ l < b.length,
              s.start type stream (commandWords buffer).length + k ≠ b.start + l := by
          refine forall₂_congr fun k hk => forall₂_congr fun l hl => not_congr ?_
          rw [FifoSystem.wordAt, FifoSystem.wordAt, hi]
          exact wordAddress_inj _ (hin k hk) (by omega)
        have hclear := h.clear b hb
        rw [hi] at hclear
        rw [hword, FifoSystem.start]
        split_ifs with hfits
        · rw [hclear.disjoint_iff hblen]
          simp [hi, hfits]
        · simp only [Nat.zero_add, hi, hfits, true_imp_iff]
          rw [disjoint_wrap_iff hblen]
          simp
      · refine iff_of_true (fun k hk l hl => ?_) fun hsame => absurd hsame hi
        exact h.apart stream b.stream hfit.1 hbstream (Ne.symm hi) _ (hin k hk) _ (by omega)
  | fetch =>
    refine iff_of_true (fun s'' written hs'' hwritten => ?_) trivial
    obtain rfl : s'' = s' := Option.some.inj (hs''.symm.trans hstep)
    have hlen := congrArg List.length ((step_fetched hstep).submitted.symm.trans hwritten)
    simp at hlen

/-- **No call of a run overwrites words that are still to be fetched if and only if every call finds
room**: in every run, of any number of streams, in which the ring does not overflow and no command
buffer is longer than a page. -/
theorem words_kept_iff (type : QueueType) (streams : ℕ → Prop) (s : FifoSystem)
    (hs : s.Fresh type) (hpages : PagesApart type streams s) (events : List FifoEvent)
    (hfit : ∀ e ∈ events, FitsPage streams e)
    (hslots : Meets (FifoSystem.step type) (FindsSlots type) s events) :
    Meets (FifoSystem.step type) (Intact type) s events ↔
      Meets (FifoSystem.step type) (FindsRoom type) s events := by
  refine meets_iff (p := fun s => (Counters type s ∧ RingSound type s) ∧ PagesSound type streams s)
    (fun s e s' hp hr hstep => intact_iff hp.2 hr.1 hstep) (fun s e s' hp hr hroom hstep => ?_)
    ⟨⟨counters_of_fresh hs, ringSound_of_fresh hs⟩, pagesSound_of_fresh hs hpages⟩
    ((meets_of_forall hfit).and hslots)
  obtain ⟨⟨hc, hring⟩, hpagesSound⟩ := hp
  exact ⟨⟨counters_step hc hstep, (step_ringSound_iff hc hring hstep).mpr hr.2⟩,
    pagesSound_step hring hpagesSound hr.1 hroom hstep⟩

/-- Two streams submit one after the other. -/
theorem words_kept_iff_sample :
    Meets (FifoSystem.step .dma) (Intact .dma) sampleFifo
      [.submit 0 sampleCommence, .submit 1 sampleCommence, .fetch] := by
  have hfresh := fresh_sampleFifo .dma
  have hpages : PagesApart .dma (· < 2) sampleFifo := by
    intro i j hi hj hne k hk l hl heq
    change k < 0x200000 at hk
    change l < 0x200000 at hl
    have hnat := congrArg BitVec.toNat heq
    have hi' : i = 0 ∧ j = 1 ∨ i = 1 ∧ j = 0 := by omega
    rcases hi' with ⟨rfl, rfl⟩ | ⟨rfl, rfl⟩
    · change (0x1101000000 + 4 * (k % 2 ^ 64) % 2 ^ 64) % 2 ^ 64 =
        (0x1103000000 + 4 * (l % 2 ^ 64) % 2 ^ 64) % 2 ^ 64 at hnat
      omega
    · change (0x1103000000 + 4 * (k % 2 ^ 64) % 2 ^ 64) % 2 ^ 64 =
        (0x1101000000 + 4 * (l % 2 ^ 64) % 2 ^ 64) % 2 ^ 64 at hnat
      omega
  have hfit : ∀ e ∈ [.submit 0 sampleCommence, .submit 1 sampleCommence, .fetch],
      FitsPage (· < 2) e := by
    intro e he
    simp only [List.mem_cons, List.not_mem_nil, or_false] at he
    rcases he with rfl | rfl | rfl
    · exact ⟨by decide, by decide⟩
    · exact ⟨by decide, by decide⟩
    · trivial
  refine (words_kept_iff .dma (· < 2) sampleFifo hfresh hpages _ hfit ?_).mpr ?_
  · intro s₁ h₁
    have hsub₁ := ((step_submit h₁).resolve_left fun h => absurd h.1 (by decide)).2
    refine ⟨fun _ => by decide, fun s₂ h₂ => ⟨fun _ => ?_, fun _ _ => ⟨trivial, trivial⟩⟩⟩
    rw [hsub₁.submitted, (counters_step (counters_of_fresh hfresh) h₁).entriesCount]
    exact Nat.lt_of_lt_of_le (by decide : 2 < 0x10000) (Nat.le_add_left _ _)
  · intro s₁ h₁
    have hsub₁ := ((step_submit h₁).resolve_left fun h => absurd h.1 (by decide)).2
    refine ⟨fun _ b hb => absurd hb (List.not_mem_nil), fun s₂ h₂ =>
      ⟨fun _ b hb hstream => ?_, fun _ _ => ⟨trivial, trivial⟩⟩⟩
    have hunfetched := unfetched_submit (ringSound_of_fresh hfresh) hsub₁
    rw [hunfetched] at hb
    obtain rfl := List.mem_singleton.mp hb
    exact absurd hstream (by decide)

/-! ## A run in which the check passes and words are lost -/

/-- Many copies in one command buffer. -/
def sampleCopies (n : ℕ) : List MethodCall := (List.replicate n sampleCommence).flatten

theorem length_sampleCopies (n : ℕ) : (commandWords (sampleCopies n)).length = 15 * n := by
  induction n with
  | zero => rfl
  | succ n ih =>
    rw [sampleCopies, List.replicate_succ, List.flatten_cons, commandWords_append,
      List.length_append]
    change _ + (commandWords (sampleCopies n)).length = _
    rw [ih]
    show 15 + 15 * n = _
    omega

theorem sampleCopies_ne_nil {n : ℕ} (hn : 0 < n) : sampleCopies n ≠ [] := by
  intro h
  have hlen := length_sampleCopies n
  rw [h, commandWords_nil, List.length_nil] at hlen
  omega

-- the buffers are long: only their length is ever looked at
attribute [irreducible] sampleCopies

/-- Two calls that fill the page, a fetch of the first, a short call that returns to the start of
the page, and a call that fits behind it. -/
def overwritingRun : List FifoEvent :=
  [.submit 0 (sampleCopies 69904), .submit 0 (sampleCopies 69904), .fetch,
    .submit 0 (sampleCopies 1000), .submit 0 (sampleCopies 69904)]

/-- A call that fits, made by the first stream. -/
theorem submit_copies {s : FifoSystem} {n : ℕ} (hn : 0 < n) (hc : Counters .dma s) (hr : RingSound .dma s)
    (hslots : s.submitted.length < 10) (hfits : (s.page .dma 0).commandWriteIdx + 15 * n ≤
      maxCmdQueuePageSize) :
    ∃ s', s.step .dma (.submit 0 (sampleCopies n)) = some s' ∧ Counters .dma s' ∧
      RingSound .dma s' ∧ Submitted .dma 0 (15 * n) s s' ∧
      s.start .dma 0 (15 * n) = (s.page .dma 0).commandWriteIdx := by
  have hlen := length_sampleCopies n
  obtain ⟨s', hstep⟩ : ∃ s', s.step .dma (.submit 0 (sampleCopies n)) = some s' :=
    step_of_maySubmit (Or.inl (fits_iff.mpr (hlen ▸ hfits)))
  have hsub := ((step_submit hstep).resolve_left fun h => sampleCopies_ne_nil hn h.1).2
  rw [hlen] at hsub
  refine ⟨s', hstep, counters_step hc hstep, (step_ringSound_iff hc hr hstep).mpr fun _ => ?_, hsub,
    if_pos (fits_iff.mpr hfits)⟩
  rw [hc.entriesCount]
  show _ < _ + 0x10000
  omega

/-- **Overwritten.** All calls of the run succeed. The short one passes the check, since the second
call's words start behind its own; the last one fits in the page, is not checked at all, and
overwrites the words of the second call, which is still to be fetched. -/
theorem unread_words_overwritten :
    (exec (FifoSystem.step .dma) sampleFifo overwritingRun).isSome ∧
      ¬ Meets (FifoSystem.step .dma) (Intact .dma) sampleFifo overwritingRun := by
  have hfresh := fresh_sampleFifo .dma
  obtain ⟨s₁, h₁, hc₁, hr₁, hsub₁, hstart₁⟩ := submit_copies (by decide)
    (counters_of_fresh hfresh) (ringSound_of_fresh hfresh) (by decide)
    (show _ + 15 * 69904 ≤ _ by decide)
  have hidx₁ : (s₁.page .dma 0).commandWriteIdx = 1048560 := by
    rw [hsub₁.commandWriteIdx, hstart₁, hfresh.commandWriteIdx]
  have hlog₁ : s₁.submitted = [sampleFifo.submission .dma 0 (15 * 69904)] := hsub₁.submitted
  obtain ⟨s₂, h₂, hc₂, hr₂, hsub₂, hstart₂⟩ := submit_copies (by decide) hc₁ hr₁ (by rw [hlog₁]; decide)
    (show _ + 15 * 69904 ≤ _ by rw [hidx₁]; decide)
  have hlog₂ := hsub₂.submitted
  rw [hlog₁] at hlog₂
  have hempty₂ : s₂.fetched = [] := hsub₂.fetched.trans hsub₁.fetched
  have hpending : (s₂.fifo .dma).gpGet ≠ (s₂.fifo .dma).gpPut := by
    refine (hr₂.put_ne_get ?_).symm
    rw [hlog₂, hempty₂]
    exact Nat.succ_pos _
  obtain ⟨s₃, h₃⟩ : ∃ s₃, s₂.step .dma .fetch = some s₃ := ⟨_, if_neg hpending⟩
  have hf₃ := step_fetched h₃
  have hc₃ := counters_step hc₂ h₃
  have hr₃ := hr₂.fetch hc₂ hf₃ hc₃
  have hlen₃ : s₃.fetched.length = 1 := by rw [hf₃.fetched, hempty₂]; rfl
  have hlog₃ := hf₃.submitted.trans hlog₂
  have hspace₂ : (s₂.page .dma 0).commandQueueSpace = 0x1101000000 :=
    (hsub₂.space_eq 0).trans (hsub₁.space_eq 0)
  have hpage₃ : s₃.page .dma 0 = s₂.page .dma 0 := by rw [hf₃.page]
  -- the oldest pending entry is that of the second call
  have holdest : (s₃.fifo .dma).ring (s₃.fifo .dma).gpGet =
      gpEntry ((s₁.page .dma 0).wordAddress 1048560) 1048560 := by
    have hget : s₃.submitted[s₃.fetched.length]? =
        some (s₁.submission .dma 0 (15 * 69904)) := by
      rw [hlog₃, hlen₃]
      rfl
    obtain ⟨hlt, hget⟩ := List.getElem?_eq_some_iff.mp hget
    rw [hr₃.oldest hc₃ hlt, hget, FifoSystem.submission, hstart₂, hidx₁]
  obtain ⟨s₄, h₄⟩ : ∃ s₄, s₃.step .dma (.submit 0 (sampleCopies 1000)) = some s₄ := by
    refine step_of_maySubmit (Or.inr ?_)
    rw [length_sampleCopies, GPFifo.mayWrap, holdest, hpage₃, CommandQueuePage.wordAddress,
      CommandQueuePage.wordAddress, hspace₂, hsub₁.space_eq 0, Bool.or_eq_true]
    exact Or.inl (by decide +kernel)
  have hsub₄ := ((step_submit h₄).resolve_left fun h => sampleCopies_ne_nil (by decide) h.1).2
  rw [length_sampleCopies] at hsub₄
  have hidx₂ : (s₂.page .dma 0).commandWriteIdx = 2097120 := by
    rw [hsub₂.commandWriteIdx, hstart₂, hidx₁]
  have hstart₄ : s₃.start .dma 0 (15 * 1000) = 0 := by
    refine if_neg fun hfits => ?_
    have := fits_iff.mp hfits
    rw [hpage₃, hidx₂] at this
    exact absurd this (by decide)
  have hidx₄ : (s₄.page .dma 0).commandWriteIdx = 15000 := by
    rw [hsub₄.commandWriteIdx, hstart₄]
  have hc₄ := counters_step hc₃ h₄
  have hlog₄ := hsub₄.submitted
  rw [hlog₃] at hlog₄
  have hr₄ : RingSound .dma s₄ := by
    refine (step_ringSound_iff hc₃ hr₃ h₄).mpr fun _ => ?_
    rw [hlog₃, hlen₃, hc₃.entriesCount]
    show 3 < 1 + 0x10000
    omega
  obtain ⟨s₅, h₅, -, -, hsub₅, hstart₅⟩ := submit_copies (by decide) hc₄ hr₄
    (by rw [hlog₄]; show 3 < 10; omega) (show _ + 15 * 69904 ≤ _ by rw [hidx₄]; decide)
  refine ⟨?_, fun hmeets => ?_⟩
  · rw [overwritingRun, exec_cons h₁, exec_cons h₂, exec_cons h₃, exec_cons h₄, exec_cons h₅]
    rfl
  · have hintact : Intact .dma s₄ (.submit 0 (sampleCopies 69904)) :=
      ((((hmeets s₁ h₁).2 s₂ h₂).2 s₃ h₃).2 s₄ h₄ |>.2 s₅ h₅).1
    have hlen₄ : s₄.fetched.length = 1 := by rw [hsub₄.fetched, hlen₃]
    have hmem : s₁.submission .dma 0 (15 * 69904) ∈ s₄.unfetched := by
      rw [FifoSystem.unfetched, hlog₄, hlen₄]
      exact List.mem_cons_self
    have hlast : 1033560 < 15 * 69904 := by omega
    have hfirst : 0 < 15 * 69904 := by omega
    refine hintact s₅ _ h₅ hsub₅.submitted _ hmem 1033560 hlast 0 hfirst ?_
    simp only [FifoSystem.wordAt, FifoSystem.submission, hstart₅, hidx₄, hstart₂, hidx₁]

end LibreCuda
