import LibreCuda.Stream.Context

/-! # Contention for the channels

A stream that waits on a channel holds up what other streams have behind it there. That ends in no
deadlock: the copy engine waits for nobody, and with the copy channel drained the compute channel
goes on as that of the one stream does whose command is first on it.

* **`ContextSystem.Flowing`** is the invariant of the streams together.
* **`streams_never_deadlock`**: whatever the order in which the streams and the engines go on, they
  come to an end, with every call returned and everything commenced completed. -/

namespace LibreCuda

open Channels Exec

/-! ## Streams -/

section Streams

variable {s s' : System}

theorem System.Flowing.disturbed {v : NvU64} (hf : s.Flowing v) (h : s.Disturbed s') :
    s'.Flowing v := by
  have hchannel := h.gpu.channel
  refine ⟨?_, fun signal value => ?_, ?_, ?_, fun type commands rest heq => ?_⟩
  · rw [h.timelineSignal]
    exact hf.relayed.disturbed h.gpu
  · rw [hchannel]
    exact hf.waits signal value
  · rw [h.timelineSignal, h.timeline, h.effects, h.commenced]
    exact hf.segments
  · rw [h.effects]
    exact hf.spaced
  · rw [h.timelineSignal, Machine.Admits, hchannel]
    exact hf.admits type commands rest (h.effects ▸ heq)

/-- The set-up hands the timeline on from zero over one to two. -/
theorem System.Created.flowing (hc : s.Created) : s.Flowing 0 := by
  have hready := hc.host.ready
  have hquiet : ∀ type, Quiet s.timelineSignal (s.gpu.channel type).pending := fun type => by
    rw [hc.channels]
    exact quiet_nil
  have hrelay : s.gpu.Relay s.timelineSignal BitVec.toNat .compute .dma
      (s.gpu.signals s.timelineSignal) := Machine.relay_of_quiet (by decide) hquiet
  rw [hc.signal] at hrelay
  obtain ⟨computeClass, htrace⟩ := hready.trace
  refine ⟨⟨_, _, hrelay⟩, fun signal value hmem => ?_, ?_, ?_,
    fun type commands rest _ => Or.inl fun other _ => hquiet other⟩
  · rw [hc.channels] at hmem
    cases hmem
  · obtain ⟨x, y, z, hcompute⟩ :=
      commandsOf_setupComputeCalls computeClass s.host.timeline.timelineSignal
    obtain ⟨w, hdma⟩ := commandsOf_setupDmaCalls s.host.timeline.timelineSignal
    have hflowing := flowing_of_idle hready.idle hready.backlog hready.pending (by
      rw [hready.timelineCtr, hready.timelineSteps]
      rfl)
    rw [hready.timelineCtr] at hflowing
    rw [hc.effects, htrace, hc.commenced]
    simp only [Segments, hcompute, hdma, Flows, settle, System.timelineSignal, if_true, true_and]
    exact ⟨⟨fun _ => by decide, trivial⟩, rfl, ⟨fun _ => by decide, trivial⟩, rfl, hflowing, rfl⟩
  · rw [hc.effects, htrace]
    refine ⟨fun type commands h => ?_, fun type commands h => ?_, trivial⟩
    · cases h
    · cases h

end Streams

/-! ## The invariant -/

section Contexts

variable {κ : Type} [DecidableEq κ] {x x' : ContextSystem κ} {k : κ}

/-- The invariants of the streams, each with its timeline handed on. -/
structure ContextSystem.Flowing (x : ContextSystem κ) : Prop extends x.Regular where
  flowing : ∀ k, x.live k = true → ∃ v, (x.view k).Flowing v

/-- A move of one stream keeps it, if it does for that stream. -/
theorem ContextSystem.Flowing.moves (hf : x.Flowing) (hm : x.Moves k x')
    (hlive : x.live k = true) (hk : ∃ v, (x'.view k).Flowing v) : x'.Flowing := by
  refine ⟨hm.keeps hlive hf.toRegular, fun j hj => ?_⟩
  rw [hm.live] at hj
  rcases eq_or_ne j k with rfl | hne
  · exact hk
  · obtain ⟨v, hv⟩ := hf.flowing j hj
    exact ⟨v, hv.disturbed (hm.others j hne hj)⟩

/-- **Every event at pace keeps the invariant.** -/
theorem ContextSystem.Flowing.step (hf : x.Flowing) {e : ContextEvent κ} (hok : x.Punctual e)
    (hs : x.step e = some x') : x'.Flowing := by
  have hr := hf.toRegular
  cases e with
  | create k va gpGet =>
    have hregular := hr.step hok.1 hs
    rw [ContextSystem.step] at hs
    split_ifs at hs with hlive
    split at hs
    · rename_i h hi
      cases hs
      have hu : x.Unused (x.initialized va gpGet).2.queue := hok.1
      rw [hi] at hu
      refine ⟨hregular, fun j hj => ?_⟩
      rcases eq_or_ne j k with rfl | hne
      · exact ⟨0, (hr.view_created (Bool.eq_false_iff.mpr hlive) hi hu).flowing⟩
      · have hj' : x.live j = true := by
          rwa [ContextSystem.live_created_of_ne hne] at hj
        obtain ⟨v, hv⟩ := hf.flowing j hj'
        exact ⟨v, hv.disturbed (hr.disturbed_created hi hu hne hj')⟩
    · cases hs
  | call k c gpGet =>
    rw [ContextSystem.step] at hs
    split_ifs at hs with hready
    cases hs
    obtain ⟨hlive, heffects⟩ := (Bool.and_eq_true ..).mp hready
    have heffects' := List.isEmpty_iff.mp heffects
    obtain ⟨v, hv⟩ := hf.flowing k hlive
    refine hf.moves (hr.call hlive heffects' hok.1) hlive ⟨v, ?_⟩
    rw [ContextSystem.view_put_self]
    exact hv.call heffects' (hr.regular k hlive).usable hok.2
  | effect k =>
    rw [ContextSystem.step] at hs
    split_ifs at hs with hlive
    obtain ⟨v, hv⟩ := hf.flowing k hlive
    exact hf.moves (hr.effect hlive hs) hlive (hv.effect (ContextSystem.carryOut_cases hs).1)
  | fetch type =>
    obtain ⟨g, hg, rfl⟩ := Option.map_eq_some_iff.mp hs
    obtain ⟨k, hlive, hfetch, hm⟩ := hr.fetch hg
    obtain ⟨v, hv⟩ := hf.flowing k hlive
    exact hf.moves hm hlive ⟨v, hv.fetch hfetch⟩
  | finish type k n =>
    obtain ⟨g, hg, rfl⟩ := Option.map_eq_some_iff.mp hs
    obtain ⟨hlive, hfinish, hm⟩ := hr.finish hg
    obtain ⟨v, hv⟩ := hf.flowing k hlive
    exact hf.moves hm hlive ⟨v, hv.finish hfinish⟩

/-- **The invariant holds in every run at pace** of a new context. -/
theorem ContextSystem.New.flowing (hn : x.New)
    (h : Relation.ReflTransGen (ContextSystem.Next ContextSystem.Punctual) x x') : x'.Flowing := by
  induction h with
  | refl => exact ⟨hn.regular, fun k hk => absurd hk (by rw [hn.live]; exact Bool.false_ne_true)⟩
  | tail _ hnext ih =>
    obtain ⟨e, hok, hs⟩ := hnext
    exact ih.step hok hs

/-! ## Going on -/

/-- An event that is neither a call nor the creation of a stream. -/
def ContextEvent.Internal : ContextEvent κ → Prop
  | .create .. => False
  | .call .. => False
  | _ => True

omit [DecidableEq κ] in
theorem ContextEvent.Internal.punctual [DecidableEq κ] {e : ContextEvent κ} (he : e.Internal)
    (x : ContextSystem κ) : x.Punctual e := by
  cases e with
  | create k va gpGet => exact he.elim
  | call k c gpGet => exact he.elim
  | effect k => exact ⟨trivial, trivial⟩
  | fetch type => exact ⟨trivial, trivial⟩
  | finish type k n => exact ⟨trivial, trivial⟩

/-- **The copy channel goes on**: nothing on it waits for a signal. -/
theorem ContextSystem.Flowing.enabled_dma (hf : x.Flowing) (hleft : ¬ x.gpu.Drained .dma) :
    ∃ e : ContextEvent κ, e.Internal ∧ (x.step e).isSome = true := by
  by_cases hrun : (x.gpu.channel .dma).running = []
  swap
  · obtain ⟨k, n, hfinish⟩ := finish_isSome hrun
    exact ⟨.finish .dma k n, trivial, by rw [ContextSystem.step, Option.isSome_map]; exact hfinish⟩
  have hpend : (x.gpu.channel .dma).pending ≠ [] := fun hnil => hleft ⟨hnil, hrun⟩
  obtain ⟨⟨k, cmd⟩, rest, hp⟩ := List.exists_cons_of_ne_nil hpend
  have hview : ((x.gpu.view k).channel .dma).pending = cmd :: ofUser k rest := by
    show ofUser k (x.gpu.channel .dma).pending = _
    rw [hp, ofUser_cons_self]
  have hidle : ((x.gpu.view k).channel .dma).running = [] := by
    show ofUser k (x.gpu.channel .dma).running = _
    rw [hrun]
    rfl
  obtain ⟨v, hv⟩ := hf.flowing k (hf.toRegular.live_of_pending hview)
  have hcmd : ∀ signal value, cmd ≠ .acquire signal value := by
    rintro signal value rfl
    exact hv.waits signal value (hview ▸ List.mem_cons_self)
  have hfetch : ((x.gpu.view k).fetch serialEngine .dma).isSome = true := by
    unfold Machine.fetch
    rw [hview]
    cases cmd with
    | release signal value => simp [hidle]
    | acquire signal value => exact absurd rfl (hcmd signal value)
    | start n ordered => simp [hidle]
    | other m => rfl
  exact ⟨.fetch .dma, trivial, by
    rw [ContextSystem.step, Option.isSome_map]
    exact fetch_isSome_of_view hp hrun hfetch⟩

/-- **The compute channel goes on** when the copy channel is drained. -/
theorem ContextSystem.Flowing.enabled_compute (hf : x.Flowing) (hdma : x.gpu.Drained .dma)
    (hleft : ¬ x.gpu.Drained .compute) :
    ∃ e : ContextEvent κ, e.Internal ∧ (x.step e).isSome = true := by
  by_cases hrun : (x.gpu.channel .compute).running = []
  swap
  · obtain ⟨k, n, hfinish⟩ := finish_isSome hrun
    exact ⟨.finish .compute k n, trivial, by
      rw [ContextSystem.step, Option.isSome_map]
      exact hfinish⟩
  have hpend : (x.gpu.channel .compute).pending ≠ [] := fun hnil => hleft ⟨hnil, hrun⟩
  obtain ⟨⟨k, cmd⟩, rest, hp⟩ := List.exists_cons_of_ne_nil hpend
  have hview : ((x.gpu.view k).channel .compute).pending = cmd :: ofUser k rest := by
    show ofUser k (x.gpu.channel .compute).pending = _
    rw [hp, ofUser_cons_self]
  have hidle : ((x.gpu.view k).channel .compute).running = [] := by
    show ofUser k (x.gpu.channel .compute).running = _
    rw [hrun]
    rfl
  obtain ⟨v, hv⟩ := hf.flowing k (hf.toRegular.live_of_pending hview)
  have hleft' : ∃ type, ¬ (x.gpu.view k).Drained type := ⟨.compute, fun h => by
    rw [h.1] at hview
    cases hview⟩
  -- the stream whose command is first goes on, and with its copy channel drained it does so here
  have henabled : ∃ type, ((x.gpu.view k).fetch serialEngine type).isSome = true ∨
      ∃ n, ((x.gpu.view k).finish type n).isSome = true := hv.relayed.enabled hleft'
  obtain ⟨type, hfetch | ⟨n, hfinish⟩⟩ := henabled
  · cases type with
    | compute => exact ⟨.fetch .compute, trivial, by
        rw [ContextSystem.step, Option.isSome_map]
        exact fetch_isSome_of_view hp hrun hfetch⟩
    | dma =>
      unfold Machine.fetch at hfetch
      rw [(hdma.view k).1] at hfetch
      cases hfetch
  · obtain ⟨g, hg⟩ := Option.isSome_iff_exists.mp hfinish
    have hmem := (finish_cases hg).1
    cases type with
    | compute =>
      rw [hidle] at hmem
      cases hmem
    | dma =>
      rw [(hdma.view k).2] at hmem
      cases hmem

/-- **No deadlock**: as long as a call has not returned or a channel is not drained, a stream or a
channel can go on. -/
theorem ContextSystem.Flowing.enabled (hf : x.Flowing)
    (hleft : (∃ k, x.live k = true ∧ (x.books k).effects ≠ []) ∨ ∃ type, ¬ x.gpu.Drained type) :
    ∃ e : ContextEvent κ, e.Internal ∧ (x.step e).isSome = true := by
  by_cases hdma : x.gpu.Drained .dma
  swap
  · exact hf.enabled_dma hdma
  by_cases hcompute : x.gpu.Drained .compute
  swap
  · exact hf.enabled_compute hdma hcompute
  have hdrained : ∀ type, x.gpu.Drained type := fun type => by
    cases type
    · exact hcompute
    · exact hdma
  obtain ⟨k, hlive, heffects⟩ := hleft.resolve_right fun ⟨type, hnot⟩ => hnot (hdrained type)
  -- with both channels drained a stream can only go on by itself
  obtain ⟨v, hv⟩ := hf.flowing k hlive
  have heffects' : (x.view k).effects ≠ [] := heffects
  obtain ⟨e, he, hsome⟩ := hv.enabled (Or.inl heffects')
  obtain ⟨s, hs⟩ := Option.isSome_iff_exists.mp hsome
  cases e with
  | call a gpGet => exact he.elim
  | effect =>
    refine ⟨.effect k, trivial, ?_⟩
    rw [ContextSystem.step, if_pos hlive]
    exact (ContextSystem.carryOut_isSome_iff ..).mpr hsome
  | fetch type =>
    obtain ⟨g, hg, -⟩ := step_fetch hs
    have hg' : (x.gpu.view k).fetch serialEngine type = some g := hg
    unfold Machine.fetch at hg'
    rw [((hdrained type).view k).1] at hg'
    cases hg'
  | finish type n =>
    obtain ⟨g, hg, -⟩ := step_finish hs
    have hmem : n ∈ ((x.gpu.view k).channel type).running := (finish_cases hg).1
    rw [((hdrained type).view k).2] at hmem
    cases hmem

/-! ## Coming to an end -/

/-- The steps that are left until the next calls can be made and the channels are drained. -/
def ContextSystem.work (x : ContextSystem κ) (streams : Finset κ) : ℕ :=
  x.gpu.work + ∑ k ∈ streams, ((x.books k).effects.map effectWork).sum

/-- The work of the stream whose effects are replaced. -/
theorem sum_put {streams : Finset κ} (hk : k ∈ streams) (s : System) :
    ∑ j ∈ streams, (((x.put k s).books j).effects.map effectWork).sum +
      ((x.books k).effects.map effectWork).sum =
    ∑ j ∈ streams, ((x.books j).effects.map effectWork).sum + (s.effects.map effectWork).sum := by
  have hself : ((x.put k s).books k).effects = s.effects :=
    congrArg System.effects (ContextSystem.view_put_self s)
  have hothers : ∀ j ∈ streams.erase k, (((x.put k s).books j).effects.map effectWork).sum =
      ((x.books j).effects.map effectWork).sum := by
    intro j hj
    have hbooks : (x.put k s).books j = x.books j :=
      Function.update_of_ne (Finset.ne_of_mem_erase hj) ..
    rw [hbooks]
  rw [← Finset.add_sum_erase _ _ hk, ← Finset.add_sum_erase streams _ hk,
    Finset.sum_congr rfl hothers, hself]
  omega

/-- **Every event that is neither a call nor a creation is a step less.** -/
theorem ContextSystem.work_step {streams : Finset κ} (hall : ∀ k, x.live k = true → k ∈ streams)
    {e : ContextEvent κ} (he : e.Internal) (hs : x.step e = some x') :
    x'.work streams < x.work streams := by
  cases e with
  | create k va gpGet => exact he.elim
  | call k c gpGet => exact he.elim
  | effect k =>
    rw [ContextSystem.step] at hs
    split_ifs at hs with hlive
    have hput := fun s : System => sum_put (x := x) (hall k hlive) s
    rw [ContextSystem.carryOut] at hs
    split at hs
    · cases hs
    · rename_i type commands rest heffects
      cases hs
      have hsum := hput ((x.view k).submit type commands rest)
      have hwork := Shared.work_submit (m := x.gpu) (i := type) k (commandsOf type commands)
      rw [heffects, List.map_cons, List.sum_cons, effectWork] at hsum
      have hrest : ((x.view k).submit type commands rest).effects = rest := rfl
      rw [hrest] at hsum
      show (x.gpu.submit type k (commandsOf type commands)).work + _ < x.gpu.work + _
      rw [hwork]
      show _ + ∑ j ∈ streams, (((x.put k _).books j).effects.map effectWork).sum < _
      omega
    · rename_i signal value rest heffects
      split_ifs at hs
      cases hs
      have hsum := hput ((x.view k).passWait signal value rest)
      rw [heffects, List.map_cons, List.sum_cons, effectWork] at hsum
      have hrest : ((x.view k).passWait signal value rest).effects = rest := rfl
      rw [hrest] at hsum
      show x.gpu.work + ∑ j ∈ streams, (((x.put k _).books j).effects.map effectWork).sum < _
      rw [ContextSystem.work]
      omega
  | fetch type =>
    obtain ⟨g, hg, rfl⟩ := Option.map_eq_some_iff.mp hs
    exact Nat.add_lt_add_right (Shared.work_fetch hg) _
  | finish type k n =>
    obtain ⟨g, hg, rfl⟩ := Option.map_eq_some_iff.mp hs
    exact Nat.add_lt_add_right (Shared.work_finish hg) _

theorem ContextEvent.Internal.live {e : ContextEvent κ} (he : e.Internal)
    (hs : x.step e = some x') : x'.live = x.live := by
  cases e with
  | create k va gpGet => exact he.elim
  | call k c gpGet => exact he.elim
  | effect k =>
    rw [ContextSystem.step] at hs
    split_ifs at hs
    exact (ContextSystem.carryOut_cases hs).2.1
  | fetch type =>
    obtain ⟨g, -, rfl⟩ := Option.map_eq_some_iff.mp hs
    rfl
  | finish type k n =>
    obtain ⟨g, -, rfl⟩ := Option.map_eq_some_iff.mp hs
    rfl

/-- Finitely many streams were created. -/
theorem ContextSystem.New.finite {ok : ContextSystem κ → ContextEvent κ → Prop} (hn : x.New)
    (h : Relation.ReflTransGen (ContextSystem.Next ok) x x') :
    ∃ streams : Finset κ, ∀ k, x'.live k = true → k ∈ streams := by
  induction h with
  | refl => exact ⟨∅, fun k hk => absurd hk (by rw [hn.live]; exact Bool.false_ne_true)⟩
  | tail _ hnext ih =>
    rename_i y z _
    obtain ⟨streams, hall⟩ := ih
    obtain ⟨e, -, hs⟩ := hnext
    by_cases he : e.Internal
    · exact ⟨streams, fun k hk => hall k (he.live hs ▸ hk)⟩
    cases e with
    | create k va gpGet =>
      rw [ContextSystem.step] at hs
      split_ifs at hs
      split at hs
      · cases hs
        refine ⟨insert k streams, fun j hj => ?_⟩
        rcases eq_or_ne j k with rfl | hne
        · exact Finset.mem_insert_self ..
        · rw [ContextSystem.live_created_of_ne hne] at hj
          exact Finset.mem_insert_of_mem (hall j hj)
      · cases hs
    | call k c gpGet =>
      rw [ContextSystem.step] at hs
      split_ifs at hs
      cases hs
      exact ⟨streams, hall⟩
    | effect k => exact absurd trivial he
    | fetch type => exact absurd trivial he
    | finish type k n => exact absurd trivial he

/-- Internal events continue a run at pace, and there are only so many. -/
theorem ContextSystem.Flowing.exec {streams : Finset κ} (hf : x.Flowing)
    (hall : ∀ k, x.live k = true → k ∈ streams) {events : List (ContextEvent κ)}
    (hinternal : ∀ e ∈ events, e.Internal) (h : x.exec events = some x') :
    x'.Flowing ∧ events.length ≤ x.work streams := by
  suffices hle : x'.Flowing ∧ events.length + x'.work streams ≤ x.work streams from
    ⟨hle.1, (Nat.le_add_right _ _).trans hle.2⟩
  induction events generalizing x with
  | nil =>
    cases h
    exact ⟨hf, (Nat.zero_add _).le⟩
  | cons e rest ih =>
    obtain ⟨y, hy, hrest⟩ := Option.bind_eq_some_iff.mp h
    have he := hinternal e List.mem_cons_self
    have hlt := ContextSystem.work_step hall he hy
    have hlive := he.live hy
    obtain ⟨hf', hle⟩ := ih (hf.step (he.punctual x) hy) (fun k hk => hall k (hlive ▸ hk))
      (fun e' he' => hinternal e' (List.mem_cons_of_mem e he')) hrest
    refine ⟨hf', ?_⟩
    rw [List.length_cons]
    omega

/-- A context in which nothing but a call or a creation can happen. -/
def ContextSystem.Resting (x : ContextSystem κ) : Prop :=
  ∀ e : ContextEvent κ, e.Internal → x.step e = none

/-- **A context that rests** has nothing left to do. -/
theorem ContextSystem.Flowing.of_resting (hf : x.Flowing) (hrest : x.Resting) :
    (∀ type, x.gpu.Drained type) ∧ ∀ k, x.live k = true → (x.books k).effects = [] ∧
      (x.gpu.signals (x.view k).timelineSignal).toNat = (x.books k).commenced := by
  have hnone : ¬ ((∃ k, x.live k = true ∧ (x.books k).effects ≠ []) ∨
      ∃ type, ¬ x.gpu.Drained type) := fun hleft => by
    obtain ⟨e, he, hsome⟩ := hf.enabled hleft
    rw [hrest e he] at hsome
    cases hsome
  have hdrained : ∀ type, x.gpu.Drained type := fun type => by
    by_contra hne
    exact hnone (Or.inr ⟨type, hne⟩)
  refine ⟨hdrained, fun k hk => ?_⟩
  have heffects : (x.books k).effects = [] := by
    by_contra hne
    exact hnone (Or.inl ⟨k, hk, hne⟩)
  refine ⟨heffects, ?_⟩
  obtain ⟨v, hv⟩ := hf.flowing k hk
  have hsegments := hv.segments
  rw [show (x.view k).effects = [] from heffects] at hsegments
  obtain ⟨lead, follow, hrelay⟩ := hv.relayed
  have hsignal : x.gpu.signals (x.view k).timelineSignal = v := hrelay.signal_of_quiet fun type => by
    rw [show ((x.view k).gpu.channel type).pending = [] from ((hdrained type).view k).1]
    exact quiet_nil
  rw [hsignal]
  exact hsegments.2

/-- **The streams of a context never deadlock.** In a run that is orderly and at pace, there is a
bound on what the streams and the channels still do without further calls, in any order; and when
they have come to rest, the channels are drained, no call is waiting, and of every stream all
operations that were commenced have completed. The calls are those of `ApiCall`: launches, transfers,
recordings of events, commences and awaits, but not `waitForEvent`. -/
theorem streams_never_deadlock (hn : x.New)
    (h : Relation.ReflTransGen (ContextSystem.Next ContextSystem.Punctual) x x') :
    ∃ bound, ∀ events y, (∀ e ∈ events, ContextEvent.Internal e) → x'.exec events = some y →
      events.length ≤ bound ∧
      (y.Resting → (∀ type, y.gpu.Drained type) ∧ ∀ k, y.live k = true →
        (y.books k).effects = [] ∧ ∀ o ∈ (y.books k).operations,
          o.number ≤ (y.books k).commenced → (k, o.number) ∈ y.gpu.completed) := by
  obtain ⟨streams, hall⟩ := hn.finite h
  refine ⟨x'.work streams, fun events y hinternal hexec => ?_⟩
  obtain ⟨hf, hlength⟩ := (hn.flowing h).exec hall hinternal hexec
  refine ⟨hlength, fun hrest => ?_⟩
  obtain ⟨hdrained, hstreams⟩ := hf.of_resting hrest
  refine ⟨hdrained, fun k hk => ?_⟩
  obtain ⟨heffects, hsignal⟩ := hstreams k hk
  refine ⟨heffects, fun o ho hle => ?_⟩
  have hr := hf.regular k hk
  obtain ⟨c, hknows⟩ := hr.known
  obtain ⟨hfloor, -⟩ := hr.labelled.numbered.bounds ho
  rw [← hsignal] at hle
  exact mem_ofUser.mp (hknows.signal _ hfloor hle)

end Contexts

/-- What is left once both streams of the sample context are commenced. -/
def bothLeft : List (ContextEvent Bool) :=
  [.effect true, .effect false, .fetch .compute, .fetch .compute, .fetch .compute,
    .finish .compute true 3, .fetch .compute, .fetch .compute, .fetch .compute, .fetch .compute,
    .finish .compute false 3, .fetch .compute]

/-- The sample context comes to rest with both launches completed. -/
theorem streams_never_deadlock_sample : (bothCommenced.after bothLeft).live false = true ∧
    ∀ o ∈ ((bothCommenced.after bothLeft).books false).operations,
      (false, o.number) ∈ (bothCommenced.after bothLeft).gpu.completed := by
  have hexec : bothCommenced.exec bothLeft = some (bothCommenced.after bothLeft) := by rfl
  have hinternal : ∀ e ∈ bothLeft, ContextEvent.Internal e := by
    intro e he
    simp only [bothLeft, List.mem_cons, List.not_mem_nil, or_false] at he
    rcases he with rfl | rfl | rfl | rfl | rfl | rfl | rfl | rfl | rfl | rfl | rfl | rfl <;>
      exact trivial
  have heffects : ∀ k, ((bothCommenced.after bothLeft).books k).effects = [] := fun k => by
    cases k <;> rfl
  have hpending : ∀ type, ((bothCommenced.after bothLeft).gpu.channel type).pending = [] :=
    fun type => by cases type <;> rfl
  have hrunning : ∀ type, ((bothCommenced.after bothLeft).gpu.channel type).running = [] :=
    fun type => by cases type <;> rfl
  have hrest : (bothCommenced.after bothLeft).Resting := by
    intro e he
    cases e with
    | create k va gpGet => exact he.elim
    | call k c gpGet => exact he.elim
    | effect k => rw [ContextSystem.step, ContextSystem.carryOut, heffects k, ite_self]
    | fetch type =>
      rw [ContextSystem.step, Shared.fetch, hpending]
      rfl
    | finish type k n =>
      rw [ContextSystem.step, Shared.finish, hrunning, if_neg List.not_mem_nil]
      rfl
  obtain ⟨bound, hbound⟩ := streams_never_deadlock new_sampleContext next_bothCommenced
  obtain ⟨-, hstreams⟩ := (hbound bothLeft _ hinternal hexec).2 hrest
  have hlive : (bothCommenced.after bothLeft).live false = true := by rfl
  refine ⟨hlive, fun o ho => (hstreams false hlive).2 o ho ?_⟩
  have hall : ∀ o ∈ ((bothCommenced.after bothLeft).books false).operations,
      o.number ≤ ((bothCommenced.after bothLeft).books false).commenced := by decide +kernel
  exact hall o ho

end LibreCuda
