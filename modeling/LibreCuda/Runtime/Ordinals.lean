import LibreCuda.Runtime.Devices

/-! # Ordinals in the environment

`CUDA_VISIBLE_DEVICES` is meant as a list of ordinals with commas between them. The loop that reads
it takes an entry for a number if `stoi` uses it to its end. An entry that is no number ends the
loop with an exception, and one that only starts with a number is never left again.

* **`readEntries`** is the loop of `parseOrdinals`, entry by entry.
* **`ordinals_read_iff`**: when the ordinals read are those of the entries that are numbers.
* **`stray_entry_swallows_next`**: a stray character makes the loop lose the entries behind it. -/

namespace LibreCuda

/-! ## Entries -/

/-- The number of an entry that is one to its end. -/
def entryNumber (entry : List Char) : Option ℤ :=
  (stoi entry).bind fun parsed => if parsed.2 = entry.length then some parsed.1 else none

/-- The ordinals that the entries denote. -/
def ordinalsOf (entries : List (List Char)) : Finset ℤ := (entries.filterMap entryNumber).toFinset

/-- An entry is the first one that is no number to its end. -/
structure FirstStray (entries front : List (List Char)) (entry : List Char)
    (rest : List (List Char)) : Prop where
  split : entries = front ++ entry :: rest
  whole : ∀ e ∈ front, (entryNumber e).isSome = true
  stray : entryNumber entry = none

/-- **When entries are read right**: all of them are numbers; or the first one that is none starts
with a number, which is that of another entry as well, and the entries behind it that are numbers
have no others than this one and those in front. -/
def ReadsRight (entries : List (List Char)) : Prop :=
  (∀ e ∈ entries, (entryNumber e).isSome = true) ∨
    ∃ front entry rest, FirstStray entries front entry rest ∧
      ∃ parsed ∈ stoi entry, parsed.1 ∈ ordinalsOf (front ++ rest) ∧
        ordinalsOf rest ⊆ insert parsed.1 (ordinalsOf front)

@[simp] theorem ordinalsOf_nil : ordinalsOf [] = ∅ := rfl

@[simp] theorem ordinalsOf_append (a b : List (List Char)) :
    ordinalsOf (a ++ b) = ordinalsOf a ∪ ordinalsOf b := by
  simp [ordinalsOf]

theorem ordinalsOf_cons_of_some {entry : List Char} {number : ℤ}
    (h : entryNumber entry = some number) (rest : List (List Char)) :
    ordinalsOf (entry :: rest) = insert number (ordinalsOf rest) := by
  simp [ordinalsOf, h]

theorem ordinalsOf_cons_of_none {entry : List Char} (h : entryNumber entry = none)
    (rest : List (List Char)) : ordinalsOf (entry :: rest) = ordinalsOf rest := by
  simp [ordinalsOf, h]

/-- A number to the end is all that `stoi` reads. -/
theorem entryNumber_eq_some {entry : List Char} {number : ℤ} :
    entryNumber entry = some number ↔ stoi entry = some (number, entry.length) := by
  rw [entryNumber, Option.bind_eq_some_iff]
  constructor
  · rintro ⟨⟨value, used⟩, hstoi, hused⟩
    split at hused
    · rename_i hend
      obtain rfl := Option.some.inj hused
      rw [hstoi, ← hend]
    · cases hused
  · intro hstoi
    exact ⟨_, hstoi, if_pos rfl⟩

/-- All entries are numbers, or there is a first one that is none. -/
theorem whole_or_firstStray (entries : List (List Char)) :
    (∀ e ∈ entries, (entryNumber e).isSome = true) ∨
      ∃ front entry rest, FirstStray entries front entry rest := by
  induction entries with
  | nil => exact .inl nofun
  | cons e entries ih =>
    cases he : entryNumber e with
    | none => exact .inr ⟨[], e, entries, rfl, nofun, he⟩
    | some number =>
      have hsome : (entryNumber e).isSome = true := by rw [he]; rfl
      rcases ih with hall | ⟨front, entry, rest, hsplit, hwhole, hstray⟩
      · exact .inl (List.forall_mem_cons.mpr ⟨hsome, hall⟩)
      · refine .inr ⟨e :: front, entry, rest, ?_, List.forall_mem_cons.mpr ⟨hsome, hwhole⟩, hstray⟩
        rw [hsplit, List.cons_append]

/-! ## How far a number reaches -/

section Prefix

variable {s : List Char}

/-- The text behind white space. -/
def unspaced (s : List Char) : List Char := s.drop (s.takeWhile isSpace).length

/-- The length of a sign in front. -/
def signLength (body : List Char) : ℕ :=
  if body.head? = some '-' ∨ body.head? = some '+' then 1 else 0

/-- The text behind a sign. -/
def unsigned (body : List Char) : List Char :=
  if body.head? = some '-' ∨ body.head? = some '+' then body.tail else body

/-- The number in front of a text behind white space. -/
def signedValue (body : List Char) : ℤ :=
  if body.head? = some '-' then -digitsValue ((unsigned body).takeWhile Char.isDigit)
  else digitsValue ((unsigned body).takeWhile Char.isDigit)

/-- How far `stoi` reads. -/
def numberEnd (s : List Char) : ℕ :=
  (s.takeWhile isSpace).length + signLength (unspaced s) +
    ((unsigned (unspaced s)).takeWhile Char.isDigit).length

theorem stoi_eq (s : List Char) : stoi s =
    if (unsigned (unspaced s)).takeWhile Char.isDigit = [] ∨
      signedValue (unspaced s) < -2 ^ 31 ∨ 2 ^ 31 ≤ signedValue (unspaced s) then none
    else some (signedValue (unspaced s), numberEnd s) := rfl

/-- The parts of a text. -/
theorem length_eq_of_ne_nil (h : unspaced s ≠ []) :
    s.length = (s.takeWhile isSpace).length + signLength (unspaced s) +
      (unsigned (unspaced s)).length := by
  have hspace := (List.takeWhile_prefix (l := s) isSpace).length_le
  have hbody : (unspaced s).length = s.length - (s.takeWhile isSpace).length := List.length_drop ..
  have hpos := List.length_pos_iff.mpr h
  unfold unsigned signLength
  split_ifs
  · rw [List.length_tail]
    omega
  · omega

theorem unspaced_append (h : unspaced s ≠ []) (t : List Char) :
    (s ++ t).takeWhile isSpace = s.takeWhile isSpace ∧ unspaced (s ++ t) = unspaced s ++ t := by
  have hspace : (s.takeWhile isSpace).length ≠ s.length := by
    intro hall
    rw [unspaced, hall, List.drop_length] at h
    exact h rfl
  have htake : (s ++ t).takeWhile isSpace = s.takeWhile isSpace := by
    rw [List.takeWhile_append, if_neg hspace]
  refine ⟨htake, ?_⟩
  rw [unspaced, htake, List.drop_append_of_le_length (List.takeWhile_prefix _).length_le]
  rfl

theorem head?_append {body : List Char} (h : body ≠ []) (t : List Char) :
    (body ++ t).head? = body.head? := by
  obtain ⟨c, rest, rfl⟩ := List.exists_cons_of_ne_nil h
  rfl

theorem unsigned_append {body : List Char} (h : body ≠ []) (t : List Char) :
    unsigned (body ++ t) = unsigned body ++ t := by
  rw [unsigned, head?_append h, unsigned]
  split_ifs
  · exact List.tail_append_of_ne_nil h
  · rfl

/-- **What stands behind a number does not change it**, unless the number ends with the text. -/
theorem stoi_append {parsed : ℤ × ℕ} (h : stoi s = some parsed) (hused : parsed.2 ≠ s.length)
    (t : List Char) : stoi (s ++ t) = some parsed := by
  rw [stoi_eq] at h ⊢
  split at h
  · cases h
  rename_i hgood
  obtain rfl := Option.some.inj h
  have hbody : unspaced s ≠ [] := by
    intro hnil
    rw [hnil] at hgood
    exact hgood (.inl rfl)
  obtain ⟨hspace, hunspaced⟩ := unspaced_append hbody t
  have hdigits : ((unsigned (unspaced s)) ++ t).takeWhile Char.isDigit =
      (unsigned (unspaced s)).takeWhile Char.isDigit := by
    rw [List.takeWhile_append, if_neg]
    intro hall
    refine hused ?_
    rw [length_eq_of_ne_nil hbody, ← hall]
    rfl
  have hunsigned : (unsigned (unspaced (s ++ t))).takeWhile Char.isDigit =
      (unsigned (unspaced s)).takeWhile Char.isDigit := by
    rw [hunspaced, unsigned_append hbody, hdigits]
  have hhead : (unspaced (s ++ t)).head? = (unspaced s).head? := by
    rw [hunspaced, head?_append hbody]
  have hvalue : signedValue (unspaced (s ++ t)) = signedValue (unspaced s) := by
    rw [signedValue, signedValue, hunsigned, hhead]
  have hend : numberEnd (s ++ t) = numberEnd s := by
    rw [numberEnd, numberEnd, signLength, signLength, hspace, hunsigned, hhead]
  rw [hunsigned, hvalue, hend, if_neg hgood]

/-- No more is used than there is. -/
theorem used_le {parsed : ℤ × ℕ} (h : stoi s = some parsed) : parsed.2 ≤ s.length := by
  rw [stoi_eq] at h
  split at h
  · cases h
  rename_i hgood
  obtain rfl := Option.some.inj h
  have hbody : unspaced s ≠ [] := by
    intro hnil
    rw [hnil] at hgood
    exact hgood (.inl rfl)
  rw [length_eq_of_ne_nil hbody]
  exact Nat.add_le_add_left (List.takeWhile_prefix _).length_le _

end Prefix

/-! ## The loop, entry by entry -/

/-- The loop of `parseOrdinals`. What was read since `current_start` is `token`. -/
def readEntries (token : List Char) (visible : Finset ℤ) : List (List Char) → Option (Finset ℤ)
  | [] => some visible
  | [entry] => (stoi (token ++ entry)).map fun parsed => insert parsed.1 visible
  | entry :: next :: rest =>
    match stoi (token ++ entry) with
    | none => none
    | some (parsed, pos) =>
      if pos ≠ (token ++ entry).length then
        readEntries (token ++ entry ++ [',']) visible (next :: rest)
      else readEntries [] (insert parsed visible) (next :: rest)

/-- A character in front of the first entry may be read already. -/
theorem readEntries_modifyHead (token : List Char) (visible : Finset ℤ) (c : Char)
    (entries : List (List Char)) (hne : entries ≠ []) :
    readEntries token visible (entries.modifyHead (List.cons c)) =
      readEntries (token ++ [c]) visible entries := by
  obtain ⟨entry, rest, rfl⟩ := List.exists_cons_of_ne_nil hne
  cases rest with
  | nil => simp [readEntries]
  | cons next rest => simp [readEntries]

/-- **The loop over the characters is one over the entries.** -/
theorem parseOrdinals_eq (token value : List Char) (visible : Finset ℤ) :
    parseOrdinals token visible value = readEntries token visible (value.splitOn ',') := by
  induction value generalizing token visible with
  | nil => simp [parseOrdinals, readEntries]
  | cons c rest ih =>
    rw [parseOrdinals, List.splitOn_eq_splitOnP, List.splitOnP_cons_eq_if_modifyHead]
    have hne : rest.splitOn ',' ≠ [] := List.splitOn_ne_nil _ _
    by_cases hc : c = ','
    · subst hc
      obtain ⟨next, others, hsplit⟩ := List.exists_cons_of_ne_nil hne
      simp only [beq_self_eq_true, if_true, ih, ← List.splitOn_eq_splitOnP, hsplit]
      rewrite [readEntries, List.append_nil]
      cases stoi token with
      | none => rfl
      | some parsed => rfl
    · rw [if_neg hc, if_neg (by simpa using hc), ih, ← List.splitOn_eq_splitOnP,
        readEntries_modifyHead _ _ _ _ hne]

/-- Numbers are taken up one by one. -/
theorem readEntries_whole {front : List (List Char)} (hfront : ∀ e ∈ front, (entryNumber e).isSome = true)
    {rest : List (List Char)} (hrest : rest ≠ []) (visible : Finset ℤ) :
    readEntries [] visible (front ++ rest) = readEntries [] (ordinalsOf front ∪ visible) rest := by
  induction front generalizing visible with
  | nil => simp
  | cons e front ih =>
    obtain ⟨he, hfront⟩ := List.forall_mem_cons.mp hfront
    obtain ⟨number, hnumber⟩ := Option.isSome_iff_exists.mp he
    obtain ⟨next, others, hnext⟩ := List.exists_cons_of_ne_nil
      (List.append_ne_nil_of_right_ne_nil front hrest)
    have hstoi := entryNumber_eq_some.mp hnumber
    have hih := ih hfront (insert number visible)
    rw [hnext] at hih
    rw [List.cons_append, hnext, readEntries, List.nil_append, hstoi]
    dsimp only
    rw [if_neg (not_not.mpr rfl), hih, ordinalsOf_cons_of_some hnumber, Finset.union_insert,
      Finset.insert_union]

/-- **What is no number to its end is never left**: the loop ends with the number it starts with. -/
theorem readEntries_skips {token : List Char} {parsed : ℤ × ℕ} {entries : List (List Char)}
    (hentries : entries ≠ []) (htoken : stoi token = some parsed)
    (hused : parsed.2 ≠ token.length) (visible : Finset ℤ) :
    readEntries token visible entries = some (insert parsed.1 visible) := by
  induction entries generalizing token with
  | nil => exact absurd rfl hentries
  | cons entry rest ih =>
    have hlt : parsed.2 < token.length := Nat.lt_of_le_of_ne (used_le htoken) hused
    have hstoi := stoi_append htoken hused entry
    cases rest with
    | nil => rw [readEntries, hstoi, Option.map_some]
    | cons next rest =>
      have hne : parsed.2 ≠ (token ++ entry).length := by
        rw [List.length_append]
        omega
      have hcomma : parsed.2 ≠ (token ++ entry ++ [',']).length := by
        rw [List.length_append, List.length_append]
        omega
      rw [readEntries, hstoi]
      dsimp only
      rw [if_pos hne]
      exact ih (List.cons_ne_nil _ _) (stoi_append hstoi hne _) hcomma

/-- The first entry that is no number decides what is read. -/
theorem readEntries_stray {entry : List Char} (hstray : entryNumber entry = none)
    (rest : List (List Char)) (visible : Finset ℤ) :
    readEntries [] visible (entry :: rest) =
      (stoi entry).map fun parsed => insert parsed.1 visible := by
  cases rest with
  | nil => rfl
  | cons next rest =>
    rw [readEntries, List.nil_append]
    cases hstoi : stoi entry with
    | none => rfl
    | some parsed =>
      have hused : parsed.2 ≠ entry.length := by
        intro hend
        rw [entryNumber, hstoi, Option.bind_some, if_pos hend] at hstray
        cases hstray
      have hcomma : parsed.2 ≠ (entry ++ [',']).length := by
        have := used_le hstoi
        rw [List.length_append, List.length_singleton]
        omega
      dsimp only
      rw [if_pos hused, readEntries_skips (List.cons_ne_nil _ _) (stoi_append hstoi hused _) hcomma,
        Option.map_some]

/-- What the loop reads, if all entries are numbers. -/
theorem readEntries_all {entries : List (List Char)} (hentries : entries ≠ [])
    (hall : ∀ e ∈ entries, (entryNumber e).isSome = true) :
    readEntries [] ∅ entries = some (ordinalsOf entries) := by
  obtain ⟨front, last, hconcat⟩ := (List.eq_nil_or_concat entries).resolve_left hentries
  rw [List.concat_eq_append] at hconcat
  subst hconcat
  obtain ⟨number, hnumber⟩ := Option.isSome_iff_exists.mp (hall last (by simp))
  have hlast : ordinalsOf [last] = {number} := ordinalsOf_cons_of_some hnumber []
  rw [readEntries_whole (fun e he => hall e (List.mem_append_left _ he)) (List.cons_ne_nil _ _),
    readEntries, List.nil_append, entryNumber_eq_some.mp hnumber, Option.map_some,
    ordinalsOf_append, hlast, Finset.union_empty, Finset.union_comm, Finset.insert_eq]

/-- What it reads, if one is none. -/
theorem readEntries_firstStray {entries front rest : List (List Char)} {entry : List Char}
    (h : FirstStray entries front entry rest) : readEntries [] ∅ entries =
      (stoi entry).map fun parsed => insert parsed.1 (ordinalsOf front) := by
  rw [h.split, readEntries_whole h.whole (List.cons_ne_nil _ _), readEntries_stray h.stray,
    Finset.union_empty]

/-! ## The variable -/

/-- **The ordinals of the variable are those its entries denote, if and only if** the entries are
read right. -/
theorem ordinals_read_iff (value : List Char) (numGpus : ℕ) :
    visibleOrdinals (some value) numGpus = some (ordinalsOf (value.splitOn ',')) ↔
      ReadsRight (value.splitOn ',') := by
  show parseOrdinals [] ∅ value = _ ↔ _
  rw [parseOrdinals_eq]
  have hne : value.splitOn ',' ≠ [] := List.splitOn_ne_nil _ _
  generalize value.splitOn ',' = entries at hne ⊢
  -- the number the loop ends with, against those of the entries
  have hset : ∀ {front entry rest} {parsed : ℤ × ℕ}, FirstStray entries front entry rest →
      (insert parsed.1 (ordinalsOf front) = ordinalsOf entries ↔
        parsed.1 ∈ ordinalsOf (front ++ rest) ∧
          ordinalsOf rest ⊆ insert parsed.1 (ordinalsOf front)) := by
    intro front entry rest parsed h
    rw [h.split, ordinalsOf_append, ordinalsOf_append, ordinalsOf_cons_of_none h.stray]
    constructor
    · intro heq
      rw [← heq]
      refine ⟨Finset.mem_insert_self .., ?_⟩
      rw [heq]
      exact Finset.subset_union_right
    · rintro ⟨hmem, hsub⟩
      refine Finset.Subset.antisymm (Finset.insert_subset hmem Finset.subset_union_left) ?_
      exact Finset.union_subset (Finset.subset_insert ..) hsub
  constructor
  · intro hread
    rcases whole_or_firstStray entries with hall | ⟨front, entry, rest, hstray⟩
    · exact .inl hall
    · rw [readEntries_firstStray hstray, Option.map_eq_some_iff] at hread
      obtain ⟨parsed, hparsed, heq⟩ := hread
      exact .inr ⟨front, entry, rest, hstray, parsed, hparsed, (hset hstray).mp heq⟩
  · rintro (hall | ⟨front, entry, rest, hstray, parsed, hparsed, hcond⟩)
    · exact readEntries_all hne hall
    · rw [readEntries_firstStray hstray, Option.mem_def.mp hparsed, Option.map_some,
        (hset hstray).mpr hcond]

/-- **A stray character swallows the entries behind it**: of `0,1x,2` the loop reads 0 and 1. An
empty variable, which hides all devices, ends it with an exception. -/
theorem stray_entry_swallows_next :
    visibleOrdinals (some "0,1x,2".toList) 3 = some {0, 1} ∧
      ordinalsOf ("0,1x,2".toList.splitOn ',') = {0, 2} ∧
      visibleOrdinals (some "0,1x,2".toList) 3 ≠ some (ordinalsOf ("0,1x,2".toList.splitOn ',')) ∧
      visibleOrdinals (some "".toList) 3 = none ∧ ordinalsOf ("".toList.splitOn ',') = ∅ := by
  refine ⟨by decide +kernel, by decide +kernel, by decide +kernel, by decide +kernel,
    by decide +kernel⟩

end LibreCuda
