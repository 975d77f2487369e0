import LibreCuda.Foundation.Folds
import LibreCuda.Module.Records

/-! # Malformed metadata

The loops over `.nv.info` and `.nv.info.<f>` read up to three words from an offset of which they
know only that it is inside the section. This file is about where they read, and about the other
ways in which the loop over the sections follows what it is given.

* **`attributeReads_within_iff`**: when the loop over `.nv.info.<f>` reads inside the section.
* **`metadata_rejected_iff`**: when malformed metadata is rejected. -/

namespace LibreCuda

open Bytes Folds

/-! ## Where the loops read -/

/-- The offsets of the words that the loop over `.nv.info` reads: three in each line. -/
def infoReads (size : NvU64) : List ℕ :=
  (infoOffsets size).flatMap fun off => [off, off + 4, off + 8]

/-- The offsets of the words that the loop over `.nv.info.<f>` reads: the headers, and the third
word of every parameter. -/
def attributeReads (data : ℕ → NvU8) (size : ℕ) : ℕ → ℕ → List ℕ
  | 0, _ => []
  | rounds + 1, off =>
    if size ≤ off then []
    else
      let key := wordAt data off
      match attributeStep key with
      | .stop => [off]
      | .fail => [off]
      | .advance bytes =>
        off :: (if attributeType key = eiattrKparamInfo then [off + 8] else []) ++
          attributeReads data size rounds (off + bytes)

/-- The offsets of the words that the loop over the sections reads in a section. -/
def Section.metadataReads (s : Section) : List ℕ :=
  match sectionKind s.name with
  | .info => infoReads s.size
  | .functionInfo _ => attributeReads s.data s.size.toNat s.size.toNat 0
  | _ => []

/-- The lines that the loop comes to end inside the section: it is made up of whole lines, or has room
for all that start at an offset that an `int` holds. -/
def LinesFit (size : ℕ) : Prop := 12 ∣ size ∨ 12 * maxInfoLines ≤ size

/-- **The loop over `.nv.info`** reads inside the section if the lines it comes to end there. -/
theorem infoReads_within_iff (size : NvU64) :
    (∀ off ∈ infoReads size, off + 4 ≤ size.toNat) ↔ LinesFit size.toNat := by
  have hlines : infoLines size = min ((size.toNat + 11) / 12) 178956971 := rfl
  rw [infoReads, infoOffsets_eq, List.flatMap_map, LinesFit, maxInfoLines]
  constructor
  · intro h
    by_contra hfit
    -- the last line is begun, but its third word is behind the end
    have hlast := h (12 * (infoLines size - 1) + 8) (by
      refine List.mem_flatMap.mpr ⟨infoLines size - 1, List.mem_range.mpr (by omega), ?_⟩
      simp)
    omega
  · intro hfit off hoff
    obtain ⟨line, hline, hoff⟩ := List.mem_flatMap.mp hoff
    have hlt := List.mem_range.mp hline
    simp only [List.mem_cons, List.not_mem_nil, or_false] at hoff
    omega

/-! ## Blocks of records -/

/-- The first word of a block. -/
def headerOf (block : List NvU8) : NvU32 := wordAt (fun i => (block[i]?).getD 0) 0

/-- A record as the loop takes it: its header tells the loop to go on behind it. -/
def LoopRecord (block : List NvU8) : Prop :=
  4 ≤ block.length ∧ attributeStep (headerOf block) = .advance block.length

instance (block : List NvU8) : Decidable (LoopRecord block) := inferInstanceAs (Decidable (_ ∧ _))

/-- A block in which the loop ends: an empty one, or one with a header that the loop stops at,
refuses, or that announces more than there is, of which the loop reads what is there. -/
inductive EndsLoop (block : List NvU8) : Prop
  | none (nil : block = [])
  | stop (header : 4 ≤ block.length) (step : attributeStep (headerOf block) = .stop)
  | fail (header : 4 ≤ block.length) (step : attributeStep (headerOf block) = .fail)
  | cut (n : ℕ) (header : 4 ≤ block.length) (step : attributeStep (headerOf block) = .advance n)
    (long : block.length < n)
    (param : attributeType (headerOf block) = eiattrKparamInfo → 12 ≤ block.length)

/-- A block of records, with an end. -/
def RecordsWithin (block : List NvU8) : Prop :=
  ∃ (records : List (List NvU8)) (last : List NvU8), block = records.flatten ++ last ∧
    (∀ r ∈ records, LoopRecord r) ∧ EndsLoop last

theorem headerOf_take {block : List NvU8} {n : ℕ} (h : 4 ≤ n) :
    headerOf (block.take n) = headerOf block := by
  have hbyte : ∀ i < 4, (block.take n)[i]? = block[i]? := fun i hi =>
    List.getElem?_take_of_lt (Nat.lt_of_lt_of_le hi h)
  simp only [headerOf, wordAt, hbyte (0 + 3) (by decide), hbyte (0 + 2) (by decide),
    hbyte (0 + 1) (by decide), hbyte 0 (by decide)]

/-- The loop takes four words for a parameter. -/
theorem attributeStep_kparam {key : NvU32} (h : attributeType key = eiattrKparamInfo) :
    attributeStep key = .advance 16 := by
  have hend : key ≠ 0xffffffff := by
    rintro rfl
    exact absurd h (by decide)
  rw [attributeStep, if_neg hend, h]
  rfl

/-- The header of a block is read at its start. -/
theorem wordAt_of_block {data : ℕ → NvU8} {off : ℕ} {block : List NvU8}
    (hdata : HoldsAt data off block) (h : 4 ≤ block.length) : wordAt data off = headerOf block := by
  have hword := wordAt_of_holdsAt_block (k := 0) hdata (by omega)
  rwa [Nat.add_zero] at hword

section Reads

variable {data : ℕ → NvU8} {size rounds off : ℕ}

theorem attributeReads_end (h : size ≤ off) : attributeReads data size rounds off = [] := by
  cases rounds with
  | zero => rfl
  | succ rounds => rw [attributeReads, if_pos h]

theorem attributeReads_succ (h : off < size) : attributeReads data size (rounds + 1) off =
    match attributeStep (wordAt data off) with
    | .stop => [off]
    | .fail => [off]
    | .advance bytes =>
      off :: (if attributeType (wordAt data off) = eiattrKparamInfo then [off + 8] else []) ++
        attributeReads data size rounds (off + bytes) := by
  rw [attributeReads, if_neg (Nat.not_le.mpr h)]

/-- Where the loop reads inside the section, its block is one of records. -/
theorem recordsWithin_of_reads {block : List NvU8} (hdata : HoldsAt data off block)
    (hsize : size = off + block.length) (hrounds : block.length ≤ rounds)
    (h : ∀ o ∈ attributeReads data size rounds off, o + 4 ≤ size) : RecordsWithin block := by
  induction rounds generalizing off block with
  | zero =>
    have hnil : block = [] := List.length_eq_zero_iff.mp (by omega)
    exact ⟨[], block, rfl, fun r hr => absurd hr List.not_mem_nil, .none hnil⟩
  | succ rounds ih =>
    by_cases hnil : block = []
    · exact ⟨[], block, rfl, fun r hr => absurd hr List.not_mem_nil, .none hnil⟩
    have hlt : off < size := by
      have := List.length_pos_iff.mpr hnil
      omega
    rw [attributeReads_succ hlt] at h
    have hfirst : off + 4 ≤ size := by
      cases hstep : attributeStep (wordAt data off) with
      | stop => exact h off (by simp [hstep])
      | fail => exact h off (by simp [hstep])
      | advance n => exact h off (by simp [hstep])
    have hheader : 4 ≤ block.length := by omega
    have hword := wordAt_of_block hdata hheader
    rw [hword] at h
    cases hstep : attributeStep (headerOf block) with
    | stop => exact ⟨[], block, rfl, fun r hr => absurd hr List.not_mem_nil, .stop hheader hstep⟩
    | fail => exact ⟨[], block, rfl, fun r hr => absurd hr List.not_mem_nil, .fail hheader hstep⟩
    | advance n =>
      simp only [hstep] at h
      by_cases hlong : block.length < n
      · refine ⟨[], block, rfl, fun r hr => absurd hr List.not_mem_nil,
          .cut n hheader hstep hlong fun htype => ?_⟩
        have hthird := h (off + 8) (by simp [htype])
        omega
      · -- a whole record, and the loop behind it
        have hword := four_le_of_advance hstep
        have hsplit : block = block.take n ++ block.drop n := (List.take_append_drop n block).symm
        have htake : (block.take n).length = n := by
          rw [List.length_take]
          omega
        obtain ⟨-, hbehind⟩ := holdsAt_append.mp (hsplit ▸ hdata)
        rw [htake] at hbehind
        have hdrop : (block.drop n).length = block.length - n := List.length_drop
        obtain ⟨records, last, hrest, hrecords, hlast⟩ := ih hbehind (by omega) (by omega)
          fun o ho => h o (List.mem_append_right _ ho)
        refine ⟨block.take n :: records, last, ?_, fun r hr => ?_, hlast⟩
        · rw [List.flatten_cons, List.append_assoc, ← hrest]
          exact hsplit
        · rcases List.mem_cons.mp hr with rfl | hr
          · refine ⟨htake.symm ▸ hword, ?_⟩
            rw [headerOf_take hword, htake]
            exact hstep
          · exact hrecords r hr

/-- The loop reads inside a block in which it ends. -/
theorem reads_of_endsLoop {last : List NvU8} (hlast : EndsLoop last)
    (hdata : HoldsAt data off last) (hsize : size = off + last.length) :
    ∀ o ∈ attributeReads data size rounds off, o + 4 ≤ size := by
  intro o ho
  cases rounds with
  | zero => cases ho
  | succ rounds =>
    cases hlast with
    | none nil =>
      rw [attributeReads_end (by rw [hsize, nil]; exact Nat.le_refl _)] at ho
      cases ho
    | stop header step =>
      rw [attributeReads_succ (by omega), wordAt_of_block hdata header, step] at ho
      rw [List.mem_singleton.mp ho]
      omega
    | fail header step =>
      rw [attributeReads_succ (by omega), wordAt_of_block hdata header, step] at ho
      rw [List.mem_singleton.mp ho]
      omega
    | cut n header step long param =>
      rw [attributeReads_succ (by omega), wordAt_of_block hdata header, step] at ho
      simp only [attributeReads_end (show size ≤ off + n by omega), List.append_nil] at ho
      rcases List.mem_cons.mp ho with rfl | ho
      · omega
      · split_ifs at ho with htype
        · have hthird := param htype
          rw [List.mem_singleton.mp ho]
          omega
        · cases ho

/-- The loop reads inside a block of records. -/
theorem reads_of_recordsWithin {records : List (List NvU8)} {last : List NvU8}
    (hrecords : ∀ r ∈ records, LoopRecord r) (hlast : EndsLoop last)
    (hdata : HoldsAt data off (records.flatten ++ last))
    (hsize : size = off + (records.flatten ++ last).length) :
    ∀ o ∈ attributeReads data size rounds off, o + 4 ≤ size := by
  induction records generalizing off rounds with
  | nil => exact reads_of_endsLoop hlast hdata hsize
  | cons r records ih =>
    obtain ⟨hheader, hstep⟩ := hrecords r List.mem_cons_self
    rw [List.flatten_cons, List.append_assoc] at hdata hsize
    rw [List.length_append] at hsize
    obtain ⟨hhead, hrest⟩ := holdsAt_append.mp hdata
    cases rounds with
    | zero => exact fun o ho => absurd ho List.not_mem_nil
    | succ rounds =>
      intro o ho
      rw [attributeReads_succ (by omega), wordAt_of_block hhead hheader, hstep] at ho
      rcases List.mem_append.mp ho with ho | ho
      · rcases List.mem_cons.mp ho with rfl | ho
        · omega
        · split_ifs at ho with htype
          · -- the third word of a parameter is inside its four words
            have hlength : r.length = 16 := by
              have hadvance := hstep.symm.trans (attributeStep_kparam htype)
              exact AttributeStep.advance.inj hadvance
            rw [List.mem_singleton.mp ho]
            omega
          · cases ho
      · exact ih (fun r' hr' => hrecords r' (List.mem_cons_of_mem r hr')) hrest (by omega) o ho

end Reads

/-- **The loop over `.nv.info.<f>`** reads inside the section if that is made up of records as the
loop takes them. -/
theorem attributeReads_within_iff (s : Section) :
    (∀ off ∈ attributeReads s.data s.size.toNat s.size.toNat 0, off + 4 ≤ s.size.toNat) ↔
      RecordsWithin s.bytes := by
  obtain ⟨hdata, hsize⟩ := Section.holdsAt_of_bytes (s := s) rfl
  constructor
  · intro h
    exact recordsWithin_of_reads hdata (by omega) (by omega) h
  · rintro ⟨records, last, hbytes, hrecords, hlast⟩
    rw [hbytes] at hdata hsize
    exact reads_of_recordsWithin hrecords hlast hdata (by omega)

/-! ## The symbols of relocations -/

section Symbols

variable (sections : List Section)

/-- The symbol of an entry of a relocation section, where both can be read. -/
def entrySymbol (e : Option RelocEntry) : Option ElfSymbol :=
  e.bind fun entry => (symbolsOf sections)[entry.symbol.toNat]?

/-- Every symbol that the loop looks up is in a section that exists. It looks up those in front of
the first entry that cannot be read, if the section has the name of one with relocations. -/
def Section.SymbolsResolve (s : Section) : Prop :=
  s.type = shtRel ∨ s.type = shtRela → (∃ name, relocTarget s = .ok name) →
    ∀ e ∈ s.relocs.takeWhile fun e => (entrySymbol sections e).isSome,
      ∀ sym, entrySymbol sections e = some sym → sym.sectionIndex.toNat < sections.length

theorem outcome_relocInfo (target : NvU64) (e : Option RelocEntry) :
    outcome (relocInfo sections target e) =
      match entrySymbol sections e with
      | none => .error (.status .invalidImage)
      | some sym =>
        if sym.sectionIndex.toNat < sections.length then .ok () else .error .crash := by
  cases e with
  | none => rfl
  | some entry =>
    rw [relocInfo, entrySymbol, Option.bind_some]
    cases hsym : (symbolsOf sections)[entry.symbol.toNat]? with
    | none => rfl
    | some sym =>
      dsimp only
      split_ifs with hlt
      · rw [List.getElem?_eq_getElem hlt]
        rfl
      · rw [List.getElem?_eq_none (Nat.not_lt.mp hlt)]
        rfl

/-- The relocations of a section come to what its entries come to. -/
theorem outcome_sectionRelocs (s : Section) : outcome (sectionRelocs sections s) =
    if s.type = shtRel ∨ s.type = shtRela then
      match relocTarget s with
      | .ok _ => s.relocs.forM fun e => outcome (relocInfo sections 0 e)
      | .error e => .error e
    else .ok () := by
  rw [sectionRelocs]
  split_ifs
  · cases hname : relocTarget s with
    | error e => rfl
    | ok name =>
      have hround : ∀ e, outcome (relocInfo sections (sectionAddress sections name) e) =
          outcome (relocInfo sections 0 e) := by
        intro e
        rw [outcome_relocInfo, outcome_relocInfo]
      simp only [← hround]
      exact mapM_outcome _ _
  · rfl

theorem relocTarget_error {s : Section} {f : Failure} (h : relocTarget s = .error f) :
    f = .status .invalidImage := by
  rw [relocTarget] at h
  split_ifs at h with htype hname hname
  · cases h
    rfl
  · cases h
    rfl

/-- The loop goes on behind an entry, or crashes at it, where it looks up its symbol. -/
theorem isSome_entrySymbol_iff (e : Option RelocEntry) : (entrySymbol sections e).isSome = true ↔
    outcome (relocInfo sections 0 e) = .ok () ∨ outcome (relocInfo sections 0 e) = .error .crash := by
  rw [outcome_relocInfo]
  cases entrySymbol sections e with
  | none => simp
  | some sym =>
    by_cases hlt : sym.sectionIndex.toNat < sections.length
    · simp [hlt]
    · simp [hlt]

/-- It crashes where the section of the symbol does not exist. -/
theorem outcome_relocInfo_crash_iff (e : Option RelocEntry) :
    outcome (relocInfo sections 0 e) = .error .crash ↔
      ∃ sym, entrySymbol sections e = some sym ∧ ¬ sym.sectionIndex.toNat < sections.length := by
  rw [outcome_relocInfo]
  cases entrySymbol sections e with
  | none => simp
  | some sym =>
    by_cases hlt : sym.sectionIndex.toNat < sections.length
    · simp [hlt]
    · simp [hlt, Nat.not_lt.mp hlt]

/-- **A relocation section crashes** the loader exactly where one of its symbols does not resolve.
-/
theorem sectionRelocs_crash_iff (s : Section) :
    sectionRelocs sections s = .error .crash ↔ ¬ s.SymbolsResolve sections := by
  rw [← outcome_eq_error_iff, outcome_sectionRelocs, Section.SymbolsResolve]
  by_cases htype : s.type = shtRel ∨ s.type = shtRela
  swap
  · rw [if_neg htype]
    exact ⟨fun h => absurd h (by simp), fun h => absurd (fun htype' => absurd htype' htype) h⟩
  rw [if_pos htype]
  cases hname : relocTarget s with
  | error f =>
    obtain rfl := relocTarget_error hname
    refine ⟨fun h => absurd h (by simp), fun h => absurd (fun _ hok => ?_) h⟩
    obtain ⟨name, hok⟩ := hok
    cases hok
  | ok name =>
    -- the entries whose symbols are looked up are those in front of the first unreadable one
    have hcrash := forM_eq_error_iff_takeWhile (l := s.relocs) (isSome_entrySymbol_iff sections)
    refine hcrash.trans ⟨?_, fun hnot => ?_⟩
    · rintro ⟨e, he, hbad⟩ hresolve
      obtain ⟨sym, hsym, hge⟩ := (outcome_relocInfo_crash_iff sections e).mp hbad
      exact hge (hresolve htype ⟨name, rfl⟩ e he sym hsym)
    · by_contra hnone
      refine hnot fun _ _ e he sym hsym => ?_
      by_contra hge
      exact hnone ⟨e, he, (outcome_relocInfo_crash_iff sections e).mpr ⟨sym, hsym, hge⟩⟩

/-- A relocation section that fails is refused, or crashes the loader. -/
theorem sectionRelocs_error {s : Section} {f : Failure} (h : sectionRelocs sections s = .error f) :
    f = .status .invalidImage ∨ f = .crash := by
  rw [← outcome_eq_error_iff, outcome_sectionRelocs] at h
  split_ifs at h
  cases hname : relocTarget s with
  | error f' =>
    rw [hname] at h
    exact Or.inl ((Except.error.inj h).symm.trans (relocTarget_error hname))
  | ok name =>
    simp only [hname] at h
    obtain ⟨seen, e, rest, -, -, he⟩ := forM_eq_error_iff.mp h
    rw [outcome_relocInfo] at he
    cases hsym : entrySymbol sections e with
    | none =>
      simp only [hsym] at he
      exact Or.inl (Except.error.inj he).symm
    | some sym =>
      simp only [hsym] at he
      split_ifs at he
      exact Or.inr (Except.error.inj he).symm

end Symbols

/-! ## The loop over the sections -/

/-- Whether the attributes of a function are accepted does not depend on what is known of it. -/
theorem outcome_parseAttributes (data : ℕ → NvU8) (size rounds off : ℕ) (a a' : FunctionAttributes) :
    outcome (parseAttributes data size rounds off a) =
      outcome (parseAttributes data size rounds off a') := by
  induction rounds generalizing off a a' with
  | zero => rfl
  | succ rounds ih =>
    rw [parseAttributes, parseAttributes]
    split_ifs
    · rfl
    · cases hstep : attributeStep (wordAt data off) with
      | stop => simp only [hstep, outcome_ok]
      | fail => simp only [hstep, outcome_error]
      | advance n =>
        simp only [hstep]
        exact ih _ _ _

theorem parseAttributes_error {data : ℕ → NvU8} {size rounds off : ℕ} {a : FunctionAttributes}
    {f : Failure} (h : parseAttributes data size rounds off a = .error f) :
    f = .status .invalidImage := by
  induction rounds generalizing off a with
  | zero => cases h
  | succ rounds ih =>
    rw [parseAttributes] at h
    split_ifs at h
    cases hstep : attributeStep (wordAt data off) with
    | stop => simp [hstep] at h
    | fail =>
      simp only [hstep] at h
      exact (Except.error.inj h).symm
    | advance n =>
      simp only [hstep] at h
      exact ih h

section Scan

variable (sections : List Section) (s : Section)

/-- What a round of the loop comes to. -/
def Section.outcome : Except Failure Unit :=
  Folds.outcome (sectionRelocs sections s) >>= fun _ =>
    match sectionKind s.name with
    | .constant rest => if (stoi rest).isSome then .ok () else .error .exception
    | .functionInfo _ => Folds.outcome (s.functionAttributes {})
    | _ => .ok ()

/-- The loader refuses the image for this section: for its relocations, or for its attributes. -/
def Section.Refused : Prop :=
  sectionRelocs sections s = .error (.status .invalidImage) ∨
    ∃ f, sectionKind s.name = .functionInfo f ∧
      s.functionAttributes {} = .error (.status .invalidImage)

/-- The name and the contents of a section are what the loop takes them for: a constant bank has a
number that is an `int`, the lines of the table for the whole image fit, and the table for a
function is made up of records. -/
structure Section.MetadataFits : Prop where
  constant : ∀ rest, sectionKind s.name = .constant rest → (stoi rest).isSome = true
  info : sectionKind s.name = .info → LinesFit s.size.toNat
  functionInfo : ∀ f, sectionKind s.name = .functionInfo f → RecordsWithin s.bytes

/-- The loop reads inside the sections whose contents are what it takes them for. -/
theorem metadataReads_within_iff : (∀ off ∈ s.metadataReads, off + 4 ≤ s.size.toNat) ↔
    (sectionKind s.name = .info → LinesFit s.size.toNat) ∧
      ∀ f, sectionKind s.name = .functionInfo f → RecordsWithin s.bytes := by
  unfold Section.metadataReads
  cases hkind : sectionKind s.name with
  | info =>
    rw [infoReads_within_iff]
    exact ⟨fun h => ⟨fun _ => h, fun f hf => absurd hf (by simp)⟩, fun h => h.1 rfl⟩
  | functionInfo f =>
    rw [attributeReads_within_iff]
    exact ⟨fun h => ⟨fun hf => absurd hf (by simp), fun _ _ => h⟩, fun h => h.2 f rfl⟩
  | _ => simp

end Scan

variable {image : ElfImage} {moduleGpuVa : NvU64}

theorem outcome_scanSection (t : FunctionTables) (s : Section) :
    outcome (t.scanSection image moduleGpuVa s) = s.outcome image.sections := by
  unfold FunctionTables.scanSection Section.outcome
  cases hrelocs : sectionRelocs image.sections s with
  | error f => rfl
  | ok relocs =>
    show outcome (FunctionTables.addSection _ image moduleGpuVa s) = _
    rw [outcome_ok]
    unfold FunctionTables.addSection
    cases hkind : sectionKind s.name with
    | constant rest =>
      cases hnr : stoi rest with
      | none => simp [hnr, bind, Except.bind]
      | some p => simp [hnr, bind, Except.bind]
    | functionInfo f =>
      have hsame := outcome_parseAttributes s.data s.size.toNat s.size.toNat 0 (t.attributes f) {}
      show outcome (s.functionAttributes (t.attributes f) >>= _) = outcome (s.functionAttributes {})
      unfold Section.functionAttributes
      rw [← hsame]
      cases parseAttributes s.data s.size.toNat s.size.toNat 0 (t.attributes f) with
      | error e => rfl
      | ok a => rfl
    | _ => rfl

/-- **A round that fails** crashes, throws or refuses the image. -/
theorem outcome_error_cases {sections : List Section} {s : Section} {f : Failure}
    (h : s.outcome sections = .error f) :
    (f = .crash ∧ ¬ s.SymbolsResolve sections) ∨
      (f = .exception ∧ (∃ relocs, sectionRelocs sections s = .ok relocs) ∧
        ∃ rest, sectionKind s.name = .constant rest ∧ (stoi rest).isSome = false) ∨
      (f = .status .invalidImage ∧ s.Refused sections) := by
  unfold Section.outcome at h
  cases hrelocs : sectionRelocs sections s with
  | error f' =>
    rw [hrelocs] at h
    obtain rfl : f' = f := Except.error.inj h
    rcases sectionRelocs_error sections hrelocs with rfl | rfl
    · exact Or.inr (Or.inr ⟨rfl, Or.inl hrelocs⟩)
    · exact Or.inl ⟨rfl, (sectionRelocs_crash_iff sections s).mp hrelocs⟩
  | ok relocs =>
    rw [hrelocs] at h
    cases hkind : sectionKind s.name with
    | constant rest =>
      cases hnr : (stoi rest).isSome with
      | true => simp [hkind, hnr, bind, Except.bind] at h
      | false =>
        simp only [hkind, hnr, bind, Except.bind] at h
        exact Or.inr (Or.inl ⟨(Except.error.inj h).symm, ⟨relocs, rfl⟩, rest, rfl, hnr⟩)
    | functionInfo g =>
      simp only [hkind] at h
      have hparse := outcome_eq_error_iff.mp h
      obtain rfl := parseAttributes_error hparse
      exact Or.inr (Or.inr ⟨rfl, Or.inr ⟨g, hkind, hparse⟩⟩)
    | shared g => simp [hkind, bind, Except.bind] at h
    | text g => simp [hkind, bind, Except.bind] at h
    | info => simp [hkind, bind, Except.bind] at h
    | other => simp [hkind, bind, Except.bind] at h

theorem Section.Refused.outcome_eq {sections : List Section} {s : Section} (h : s.Refused sections) :
    s.outcome sections ≠ .ok () := by
  unfold Section.outcome
  rcases h with h | ⟨f, hkind, hparse⟩
  · rw [h]
    simp [bind, Except.bind]
  · rw [hkind, hparse]
    cases sectionRelocs sections s with
    | error e => simp [bind, Except.bind]
    | ok relocs => simp [bind, Except.bind]

/-- The loop passes a list of sections if every one of them comes to nothing bad. -/
theorem foldlM_scanSection_iff {seen : List Section} :
    (∃ t, seen.foldlM (FunctionTables.scanSection image moduleGpuVa) {} = .ok t) ↔
      ∀ s ∈ seen, s.outcome image.sections = .ok () := by
  rw [← outcome_eq_ok_iff, foldlM_outcome outcome_scanSection, forM_eq_ok_iff]

/-- Malformed metadata is rejected: the loop ends, or refuses the image, and in every section that
it comes to, it reads inside. -/
structure MetadataRejected (image : ElfImage) (moduleGpuVa : NvU64) : Prop where
  outcome : (∃ tables, scanSections image moduleGpuVa = .ok tables) ∨
    scanSections image moduleGpuVa = .error (.status .invalidImage)
  reads : ∀ seen s rest, image.sections = seen ++ s :: rest →
    (∃ t, seen.foldlM (FunctionTables.scanSection image moduleGpuVa) {} = .ok t) →
    (∃ relocs, sectionRelocs image.sections s = .ok relocs) →
    ∀ off ∈ s.metadataReads, off + 4 ≤ s.size.toNat

/-- **Malformed metadata is rejected if and only if** in every section up to the first that is
refused, the symbols resolve, and the name and the contents are what the loop takes them for. -/
theorem metadata_rejected_iff (image : ElfImage) (moduleGpuVa : NvU64) :
    MetadataRejected image moduleGpuVa ↔
      ∀ seen s rest, image.sections = seen ++ s :: rest →
        (∀ t ∈ seen, ¬ t.Refused image.sections) →
        s.SymbolsResolve image.sections ∧
          ((∃ relocs, sectionRelocs image.sections s = .ok relocs) → s.MetadataFits) := by
  have hscan : outcome (scanSections image moduleGpuVa) =
      image.sections.forM (Section.outcome image.sections) := foldlM_outcome outcome_scanSection _ _
  constructor
  · intro hrejected seen s rest hsplit hseen
    -- the first section that fails is refused
    have hfirst : ∀ seen' s' rest', image.sections = seen' ++ s' :: rest' →
        (∀ b ∈ seen', b.outcome image.sections = .ok ()) → ∀ f,
        s'.outcome image.sections = .error f → f = .status .invalidImage := by
      intro seen' s' rest' hsplit' hseen' f hf
      have herror := forM_eq_error_iff.mpr ⟨seen', s', rest', hsplit', hseen', hf⟩
      rw [← hscan, outcome_eq_error_iff] at herror
      rcases hrejected.outcome with ⟨tables, hok⟩ | hrefused
      · exact absurd (herror.symm.trans hok) (by simp)
      · exact Except.error.inj (herror.symm.trans hrefused)
    -- the sections in front are not refused, and nothing else can stop the loop
    have hpassed : ∀ b ∈ seen, b.outcome image.sections = .ok () := by
      have hall : seen.forM (Section.outcome image.sections) = .ok () := by
        cases hforM : seen.forM (Section.outcome image.sections) with
        | ok u => rfl
        | error f =>
          obtain ⟨seen', b, rest', rfl, hseen', hb⟩ := forM_eq_error_iff.mp hforM
          have hf := hfirst seen' b (rest' ++ s :: rest) (by rw [hsplit]; simp) hseen' f hb
          rcases outcome_error_cases hb with ⟨rfl, -⟩ | ⟨rfl, -⟩ | ⟨-, hrefused⟩
          · cases hf
          · cases hf
          · exact absurd hrefused (hseen b (by simp))
      exact forM_eq_ok_iff.mp hall
    refine ⟨?_, fun hrelocs => ?_⟩
    · by_contra hresolve
      have hcrash : s.outcome image.sections = .error .crash := by
        rw [Section.outcome, (sectionRelocs_crash_iff _ s).mpr hresolve]
        rfl
      cases hfirst seen s rest hsplit hpassed _ hcrash
    · have hreads := hrejected.reads seen s rest hsplit (foldlM_scanSection_iff.mpr hpassed) hrelocs
      obtain ⟨hinfo, hfunctionInfo⟩ := (metadataReads_within_iff s).mp hreads
      refine ⟨fun name hkind => ?_, hinfo, hfunctionInfo⟩
      by_contra hnr
      have hthrow : s.outcome image.sections = .error .exception := by
        obtain ⟨relocs, hrelocs⟩ := hrelocs
        rw [Section.outcome, hrelocs, hkind]
        simp [bind, Except.bind, hnr]
      cases hfirst seen s rest hsplit hpassed _ hthrow
  · intro hfits
    have hnot : ∀ {seen : List Section}, (∀ b ∈ seen, b.outcome image.sections = .ok ()) →
        ∀ b ∈ seen, ¬ b.Refused image.sections := fun hseen b hb hrefused =>
      hrefused.outcome_eq (hseen b hb)
    refine ⟨?_, fun seen s rest hsplit hseen hrelocs => ?_⟩
    · cases hall : scanSections image moduleGpuVa with
      | ok tables => exact Or.inl ⟨tables, rfl⟩
      | error f =>
        rw [hall, outcome_error] at hscan
        obtain ⟨seen, s, rest, hsplit, hseen, hs⟩ := forM_eq_error_iff.mp hscan.symm
        obtain ⟨hresolve, hmetadata⟩ := hfits seen s rest hsplit (hnot hseen)
        rcases outcome_error_cases hs with ⟨-, hcrash⟩ | ⟨-, hrelocs, name, hkind, hnr⟩ | ⟨rfl, -⟩
        · exact absurd hresolve hcrash
        · exact absurd ((hmetadata hrelocs).constant name hkind) (by simp [hnr])
        · exact Or.inr rfl
    · have hpassed := foldlM_scanSection_iff.mp hseen
      have hmetadata := (hfits seen s rest hsplit (hnot hpassed)).2 hrelocs
      exact (metadataReads_within_iff s).mpr ⟨hmetadata.info, hmetadata.functionInfo⟩

theorem MetadataRejected.outcome_ne (h : MetadataRejected image moduleGpuVa) (f : Failure)
    (hf : f ≠ .status .invalidImage) :
    Folds.outcome (scanSections image moduleGpuVa) ≠ .error f := by
  rcases h.outcome with ⟨tables, hok⟩ | hrefused
  · rw [hok]
    simp
  · rw [hrefused, outcome_error]
    exact fun heq => hf (Except.error.inj heq).symm

/-- A section of attributes without a word that means anything. -/
def blankSection (name : String) (size : NvU64) : Section where
  name := name.toList
  type := 0x70000000 -- `SHT_CUDA_INFO`
  size := size

/-- An image with that section only. -/
def blankImage (name : String) (size : NvU64) : ElfImage := ⟨64, [blankSection name size]⟩

/-- An image with a relocation against a symbol of a section that does not exist. -/
def danglingImage : ElfImage where
  sectionEntrySize := 64
  sections := [{ name := ".symtab".toList, type := shtSymtab, symbols := [⟨"k".toList, 0, 0xfff1⟩] },
    { name := ".rel.text.k".toList, type := shtRel, relocs := [some ⟨0, 0, 0x2, 0⟩] }]

/-- **Malformed metadata is followed**: a constant bank without a number throws, a line that is cut
short is read behind the end of its section, and a relocation against an absolute symbol crashes. -/
theorem malformed_metadata_followed :
    ¬ MetadataRejected (blankImage ".nv.constants" 0) 0 ∧
      ¬ MetadataRejected (blankImage ".nv.info" 4) 0 ∧ ¬ MetadataRejected danglingImage 0 := by
  refine ⟨fun h => ?_, fun h => ?_, fun h => ?_⟩
  · exact h.outcome_ne .exception (by decide) (by decide +kernel)
  · have hreads := h.reads [] (blankSection ".nv.info" 4) [] rfl ⟨{}, rfl⟩ ⟨[], by decide +kernel⟩
    exact absurd (hreads 8 (by decide +kernel)) (by decide)
  · exact h.outcome_ne .crash (by decide) (by decide +kernel)

end LibreCuda
