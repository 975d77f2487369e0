import Mathlib.Data.List.Basic

/-! # Framed streams

A stream of words is cut into frames by its own words: the first word of a frame tells how many more
belong to it.

* **`parse`** cuts a stream, and fails where a frame would run past its end.
* **`parse_flatten`**: a stream of frames whose first words tell their lengths parses to them. -/

namespace Frames

variable {α : Type*} (count : α → ℕ)

/-- Cut the stream into at most so many frames. -/
def parseFuel : ℕ → List α → Option (List (α × List α))
  | _, [] => some []
  | 0, _ :: _ => none
  | fuel + 1, w :: ws =>
    if count w ≤ ws.length then
      (parseFuel fuel (ws.drop (count w))).map ((w, ws.take (count w)) :: ·)
    else none

/-- Cut the stream into frames. A frame has at least one word. -/
def parse (words : List α) : Option (List (α × List α)) := parseFuel count words.length words

/-- The words of frames. -/
def flatten (frames : List (α × List α)) : List α := frames.flatMap fun f => f.1 :: f.2

variable {count}

theorem parseFuel_flatten {frames : List (α × List α)} (h : ∀ f ∈ frames, count f.1 = f.2.length)
    {fuel : ℕ} (hfuel : (flatten frames).length ≤ fuel) :
    parseFuel count fuel (flatten frames) = some frames := by
  induction frames generalizing fuel with
  | nil => cases fuel <;> rfl
  | cons f frames ih =>
    obtain ⟨hhead, htail⟩ := List.forall_mem_cons.mp h
    -- the first word counts the words of its own frame, so that the cut is where the frame ends
    have hwords : flatten (f :: frames) = f.1 :: (f.2 ++ flatten frames) := rfl
    rw [hwords, List.length_cons, List.length_append] at hfuel
    obtain ⟨fuel, rfl⟩ : ∃ k, fuel = k + 1 := ⟨fuel - 1, by omega⟩
    rw [hwords, parseFuel, hhead, if_pos (by rw [List.length_append]; omega), List.drop_left,
      List.take_left, ih htail (by omega)]
    rfl

/-- **A well-framed stream parses to its frames.** -/
theorem parse_flatten {frames : List (α × List α)} (h : ∀ f ∈ frames, count f.1 = f.2.length) :
    parse count (flatten frames) = some frames :=
  parseFuel_flatten h (Nat.le_refl _)

end Frames
