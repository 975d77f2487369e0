import LibreCuda.Module.Parameters
import Mathlib.Data.List.TakeWhile

/-! # Records of attributes

A section `.nv.info.<f>` is a sequence of records: a header, and behind a header of format 4 as many
bytes as its upper half says. The loader steps by a fixed number of words for each kind of record
instead.

* **`AttributeRecord`** is one record.
* **`parseAttributes_of_inStep`**: where the fixed lengths are the encoded ones, the loader collects
  the parameters up to the first `EIATTR_EXIT_INSTR_OFFSETS`.
* **`attributes_collected_iff`**: only there. -/

namespace LibreCuda

open Bytes

/-! ## Well-formed sections -/

/-- The low byte of a header. -/
def attributeFormat (key : NvU32) : NvU8 := key.setWidth 8

/-- One record: a header, and the payload that a header of format 4 announces. -/
structure AttributeRecord where
  header : NvU32
  payload : List NvU8
  length_payload : payload.length =
    if attributeFormat header = 4 then (attributeOther header).toNat else 0

namespace AttributeRecord

/-- The format and the attribute. -/
def type (r : AttributeRecord) : NvU32 := attributeType r.header

/-- The switch has a case for the record. -/
def Known (r : AttributeRecord) : Prop :=
  r.type ∈ eiattrExitInstrOffsets :: attributeWordLens.map Prod.fst

/-- The bytes of a record. -/
def bytes (r : AttributeRecord) : List NvU8 := ofWord r.header ++ r.payload

/-- The parameter that an `EIATTR_KPARAM_INFO` describes, in the second word of its payload. -/
def paramInfo (r : AttributeRecord) : KernelParamInfo :=
  let word := wordAt (fun i => (r.payload[i]?).getD 0) 4
  { paramIndex := word.setWidth 16, paramOffset := (word >>> 16).setWidth 16 }

/-- The fixed length of the record is its encoded length. That of
`EIATTR_S2RCTAID_INSTR_OFFSETS` is not fixed. -/
def InStep (r : AttributeRecord) : Prop :=
  r.type = eiattrS2rctaidInstrOffsets ∨
    (attributeWordLens.lookup r.type).map (4 * ·) = some (4 + r.payload.length)

/-- Two records that differ in what they hold only. -/
def SameKind (r r' : AttributeRecord) : Prop :=
  r.type = r'.type ∧ r.payload.length = r'.payload.length

end AttributeRecord

/-- The records before the first `EIATTR_EXIT_INSTR_OFFSETS`. -/
def beforeExit (records : List AttributeRecord) : List AttributeRecord :=
  records.takeWhile fun r => r.type != eiattrExitInstrOffsets

/-- What records add to what is known of a function: all their parameters, and the total size that
the last of them has. -/
def FunctionAttributes.collected (a : FunctionAttributes) (records : List AttributeRecord) :
    FunctionAttributes where
  paramInfos := a.paramInfos ++
    (records.filter fun r => r.type == eiattrKparamInfo).map AttributeRecord.paramInfo
  paramTotalSize := (((records.filter fun r => r.type == eiattrCbankParamSize).getLast?).map
    fun r => (attributeOther r.header).setWidth 64).getD a.paramTotalSize

/-- The section of the records of a function, all of kinds that the switch has a case for. -/
structure Section.IsInfoOf (s : Section) (f : Name) (records : List AttributeRecord) : Prop where
  function_ne : f ≠ []
  name : s.name = nvInfoOf ++ f
  known : ∀ r ∈ records, r.Known
  bytes : s.bytes = records.flatMap AttributeRecord.bytes

/-- The loader accepts the section and collects its parameters. -/
def Section.Collects (s : Section) (f : Name) (records : List AttributeRecord) : Prop :=
  ∀ (image : ElfImage) (moduleGpuVa : NvU64) (t : FunctionTables),
    t.addSection image moduleGpuVa s = .ok { t with
      attributes := Function.update t.attributes f
        ((t.attributes f).collected (beforeExit records)) }

/-! ## Rounds of the loop -/

section Rounds

variable {data : ℕ → NvU8} {size off : ℕ} {a : FunctionAttributes}

theorem parseAttributes_end (h : size ≤ off) : parseAttributes data size size off a = .ok a := by
  cases size with
  | zero => rfl
  | succ k => rw [parseAttributes, if_pos h]

/-- A round over a record with a case. -/
theorem parseAttributes_advance {n : ℕ} (h : off < size)
    (hstep : attributeStep (wordAt data off) = .advance n) :
    parseAttributes data size size off a = parseAttributes data size size (off + n)
      (a.add (wordAt data off) (wordAt data (off + 8))) := by
  obtain ⟨k, rfl⟩ : ∃ k, size = k + 1 := ⟨size - 1, by omega⟩
  have hword := four_le_of_advance hstep
  rw [parseAttributes_rounds data (k + 1) (a.add _ _) (show k + 1 ≤ off + n + k by omega)
    (Nat.le_succ k), parseAttributes, if_neg (by omega)]
  simp only [hstep]

theorem parseAttributes_stop (h : off < size) (hstep : attributeStep (wordAt data off) = .stop) :
    parseAttributes data size size off a = .ok a := by
  obtain ⟨k, rfl⟩ : ∃ k, size = k + 1 := ⟨size - 1, by omega⟩
  rw [parseAttributes, if_neg (by omega)]
  simp only [hstep]

theorem parseAttributes_fail (h : off < size) (hstep : attributeStep (wordAt data off) = .fail) :
    parseAttributes data size size off a = .error (.status .invalidImage) := by
  obtain ⟨k, rfl⟩ : ∃ k, size = k + 1 := ⟨size - 1, by omega⟩
  rw [parseAttributes, if_neg (by omega)]
  simp only [hstep]

end Rounds

/-! ## Steps over records -/

theorem setWidth_attributeType (key : NvU32) : (attributeType key).setWidth 8 = key.setWidth 8 := by
  have hmask : (0xffff : NvU32).setWidth 8 = BitVec.allOnes 8 := by decide
  rw [attributeType, BitVec.setWidth_and, hmask, BitVec.and_allOnes]

/-- The kinds of records have format 1, 3 or 4. -/
theorem format_of_known {type : NvU32}
    (h : type ∈ eiattrExitInstrOffsets :: attributeWordLens.map Prod.fst) :
    type.setWidth 8 ∈ ([1, 3, 4] : List NvU8) := by
  have hformats : ∀ p ∈ attributeWordLens, p.1.setWidth 8 ∈ ([1, 3, 4] : List NvU8) := by decide
  rcases List.mem_cons.mp h with rfl | hmem
  · decide
  · obtain ⟨p, hp, rfl⟩ := List.mem_map.mp hmem
    exact hformats p hp

/-- **A word that does not begin with a format is refused.** -/
theorem attributeStep_fail {key : NvU32} (h : attributeFormat key ∉ ([1, 3, 4, 0xff] : List NvU8)) :
    attributeStep key = .fail := by
  have hformat : ∀ type ∈ eiattrExitInstrOffsets :: attributeWordLens.map Prod.fst,
      attributeType key ≠ type := by
    rintro _ hmem rfl
    have hlow := format_of_known hmem
    rw [setWidth_attributeType] at hlow
    refine h ?_
    simp only [List.mem_cons] at hlow ⊢
    tauto
  have hend : key ≠ 0xffffffff := by
    rintro rfl
    exact h (by decide)
  have hexit := hformat _ List.mem_cons_self
  have hlookup : attributeWordLens.lookup (attributeType key) = none := by
    rw [List.lookup_eq_none_iff]
    intro p hp
    simpa using hformat p.1 (List.mem_cons_of_mem _ (List.mem_map_of_mem hp))
  rw [attributeStep, if_neg hend, if_neg hexit, hlookup]

namespace AttributeRecord

@[simp] theorem length_bytes (r : AttributeRecord) : r.bytes.length = 4 + r.payload.length := by
  rw [bytes, List.length_append, length_ofWord]

theorem length_payload_lt (r : AttributeRecord) : r.payload.length < 2 ^ 16 := by
  rw [r.length_payload]
  split
  · rw [attributeOther, BitVec.toNat_ushiftRight, Nat.shiftRight_eq_div_pow]
    have := r.header.isLt
    omega
  · decide

theorem header_ne_end {r : AttributeRecord} (h : r.Known) : r.header ≠ 0xffffffff := by
  intro heq
  have hknown := format_of_known h
  rw [type, setWidth_attributeType, heq] at hknown
  exact absurd hknown (by decide)

theorem attributeStep_exit {r : AttributeRecord} (hknown : r.Known)
    (h : r.type = eiattrExitInstrOffsets) : attributeStep r.header = .stop := by
  rw [attributeStep, if_neg (header_ne_end hknown)]
  exact if_pos h

/-- The fixed lengths are of one to four words. -/
theorem words_of_lookup {type : NvU32} {words : ℕ}
    (h : attributeWordLens.lookup type = some words) : words ≤ 4 ∧ 1 ≤ words := by
  have hlens : ∀ p ∈ attributeWordLens, p.2 ≤ 4 ∧ 1 ≤ p.2 := by decide
  obtain ⟨front, rest, hsplit, -⟩ := List.lookup_eq_some_iff.mp h
  exact hlens (type, words) (by rw [hsplit]; simp)

theorem lookup_of_not_exit {r : AttributeRecord} (hknown : r.Known)
    (h : r.type ≠ eiattrExitInstrOffsets) : ∃ words, attributeWordLens.lookup r.type = some words := by
  have hmem : r.type ∈ attributeWordLens.map Prod.fst := by
    rcases List.mem_cons.mp hknown with heq | hmem
    · exact absurd heq h
    · exact hmem
  by_contra hnone
  have hlookup := Option.eq_none_iff_forall_ne_some.mpr (not_exists.mp hnone)
  obtain ⟨p, hp, heq⟩ := List.mem_map.mp hmem
  have := List.lookup_eq_none_iff.mp hlookup p hp
  rw [heq] at this
  simp at this

/-- The step over a record. -/
theorem attributeStep_header {r : AttributeRecord} {words : ℕ} (hknown : r.Known)
    (h : r.type ≠ eiattrExitInstrOffsets) (hwords : attributeWordLens.lookup r.type = some words) :
    attributeStep r.header = .advance (words * 4 +
      if r.type = eiattrS2rctaidInstrOffsets then (attributeOther r.header).toNat else 0) := by
  unfold type at h hwords ⊢
  rw [attributeStep, if_neg (header_ne_end hknown), if_neg h, hwords]

/-- **The loop steps over a record that is in step.** -/
theorem attributeStep_inStep {r : AttributeRecord} (hknown : r.Known)
    (h : r.type ≠ eiattrExitInstrOffsets) (hstep : r.InStep) : attributeStep r.header = .advance r.bytes.length := by
  obtain ⟨words, hwords⟩ := lookup_of_not_exit hknown h
  rw [attributeStep_header hknown h hwords, length_bytes]
  by_cases hs2r : r.type = eiattrS2rctaidInstrOffsets
  · have hformat : attributeFormat r.header = 4 := by
      rw [attributeFormat, ← setWidth_attributeType]
      show r.type.setWidth 8 = 4
      rw [hs2r]
      rfl
    have hone : words = 1 := by
      rw [hs2r] at hwords
      exact (Option.some.inj hwords).symm
    rw [if_pos hs2r, r.length_payload, if_pos hformat, hone]
  · have hfixed := hstep.resolve_left hs2r
    rw [hwords, Option.map_some] at hfixed
    rw [if_neg hs2r, Nat.add_zero, Nat.mul_comm, Option.some.inj hfixed]

/-- The loop steps over another record by at most four words, and not to its end. -/
theorem attributeStep_outOfStep {r : AttributeRecord} (hknown : r.Known)
    (h : r.type ≠ eiattrExitInstrOffsets) (hstep : ¬r.InStep) :
    ∃ n, attributeStep r.header = .advance n ∧ 4 ≤ n ∧ n ≤ 16 ∧ n ≠ r.bytes.length := by
  obtain ⟨words, hwords⟩ := lookup_of_not_exit hknown h
  obtain ⟨hle, hone⟩ := words_of_lookup hwords
  obtain ⟨hs2r, hfixed⟩ := not_or.mp hstep
  rw [hwords, Option.map_some, Option.some.injEq] at hfixed
  refine ⟨words * 4, ?_, by omega, by omega, ?_⟩
  · rw [attributeStep_header hknown h hwords, if_neg hs2r, Nat.add_zero]
  · rw [length_bytes]
    omega

end AttributeRecord

/-! ## Runs over sections -/

/-- The second word of the payload, where it is long enough. -/
theorem paramInfo_of_holdsAt {r : AttributeRecord} {data : ℕ → NvU8} {off : ℕ}
    (hdata : HoldsAt data off r.bytes) (hlength : 8 ≤ r.payload.length) :
    r.paramInfo = { paramIndex := (wordAt data (off + 8)).setWidth 16
                    paramOffset := (wordAt data (off + 8) >>> 16).setWidth 16 } := by
  have hbyte : ∀ j < 4, (r.payload[4 + j]?).getD 0 = data (off + 8 + j) := by
    intro j hj
    have hpayload := (holdsAt_append.mp hdata).2 (4 + j) (by omega)
    rw [length_ofWord] at hpayload
    rw [List.getElem?_eq_getElem (by omega), Option.getD_some, ← hpayload]
    congr 1
    omega
  have hword : wordAt (fun i => (r.payload[i]?).getD 0) 4 = wordAt data (off + 8) := by
    have h0 := hbyte 0 (by decide)
    simp only [Nat.add_zero] at h0
    simp only [wordAt, h0, hbyte 1 (by decide), hbyte 2 (by decide), hbyte 3 (by decide)]
  rw [AttributeRecord.paramInfo, hword]

/-- The parameters of a function after one more record. -/
theorem FunctionAttributes.collected_cons (a : FunctionAttributes) (r : AttributeRecord)
    (records : List AttributeRecord) :
    a.collected (r :: records) = (if r.type = eiattrCbankParamSize then
      { a with paramTotalSize := (attributeOther r.header).setWidth 64 }
    else if r.type = eiattrKparamInfo then { a with paramInfos := a.paramInfos ++ [r.paramInfo] }
    else a).collected records := by
  unfold FunctionAttributes.collected
  rw [List.filter_cons, List.filter_cons]
  by_cases hsize : r.type = eiattrCbankParamSize
  · have hne : (eiattrCbankParamSize == eiattrKparamInfo) = false := by decide
    simp only [hsize, hne, beq_self_eq_true, if_true, Bool.false_eq_true, if_false,
      List.getLast?_cons, Option.map_some, Option.getD_some]
    cases (records.filter fun r => r.type == eiattrCbankParamSize).getLast? <;> rfl
  · by_cases hinfo : r.type = eiattrKparamInfo
    · have hne : (eiattrKparamInfo == eiattrCbankParamSize) = false := by decide
      rw [if_neg hsize, if_pos hinfo]
      simp [hinfo, hne]
    · rw [if_neg hsize, if_neg hinfo]
      simp [hsize, hinfo]

theorem inStep_kparam {r : AttributeRecord} (h : r.type = eiattrKparamInfo) (hstep : r.InStep) :
    r.payload.length = 12 := by
  rcases hstep with hs2r | hfixed
  · rw [h] at hs2r
    exact absurd hs2r (by decide)
  · rw [h] at hfixed
    have hlen : 4 * 4 = 4 + r.payload.length := Option.some.inj hfixed
    omega

/-- A round of the loop over a record in step adds what the record holds. -/
theorem collected_add {r : AttributeRecord} {data : ℕ → NvU8} {off : ℕ} (a : FunctionAttributes)
    (hdata : HoldsAt data off r.bytes) (hstep : r.InStep) (records : List AttributeRecord) :
    (a.add r.header (wordAt data (off + 8))).collected records = a.collected (r :: records) := by
  rw [FunctionAttributes.collected_cons]
  by_cases hinfo : r.type = eiattrKparamInfo
  · rw [paramInfo_of_holdsAt hdata (by rw [inStep_kparam hinfo hstep]; decide)]
    rfl
  · rw [if_neg hinfo, FunctionAttributes.add]
    unfold AttributeRecord.type at hinfo
    rw [if_neg hinfo]
    rfl

/-- **Where all records are in step**, the loop collects those before the first
`EIATTR_EXIT_INSTR_OFFSETS`. -/
theorem parseAttributes_of_inStep {data : ℕ → NvU8} {size off : ℕ} (a : FunctionAttributes)
    {records : List AttributeRecord} (hknown : ∀ r ∈ records, r.Known)
    (hdata : HoldsAt data off (records.flatMap AttributeRecord.bytes))
    (hsize : size = off + (records.flatMap AttributeRecord.bytes).length)
    (hstep : ∀ r ∈ beforeExit records, r.InStep) :
    parseAttributes data size size off a = .ok (a.collected (beforeExit records)) := by
  induction records generalizing off a with
  | nil =>
    rw [parseAttributes_end (by rw [hsize]; exact Nat.le_refl _)]
    show _ = Except.ok { a with paramInfos := a.paramInfos ++ [] }
    rw [List.append_nil]
  | cons r records ih =>
    rw [List.flatMap_cons] at hdata hsize
    rw [List.length_append] at hsize
    obtain ⟨hhead, htail⟩ := holdsAt_append.mp hdata
    have hlength := r.length_bytes
    have hheader : wordAt data off = r.header := wordAt_of_holdsAt (holdsAt_append.mp hhead).1
    have hknownHead := hknown r List.mem_cons_self
    by_cases hexit : r.type = eiattrExitInstrOffsets
    · have hbefore : beforeExit (r :: records) = [] := by
        simp [beforeExit, hexit]
      rw [hbefore, parseAttributes_stop (by omega)
        (by rw [hheader]; exact r.attributeStep_exit hknownHead hexit)]
      show _ = Except.ok { a with paramInfos := a.paramInfos ++ [] }
      rw [List.append_nil]
    · have hbefore : beforeExit (r :: records) = r :: beforeExit records := by
        simp [beforeExit, hexit]
      rw [hbefore] at hstep ⊢
      have hstepHead := hstep r List.mem_cons_self
      rw [parseAttributes_advance (by omega)
        (by rw [hheader]; exact r.attributeStep_inStep hknownHead hexit hstepHead), hheader,
        ih _ (fun r' hr' => hknown r' (List.mem_cons_of_mem r hr')) htail (by omega)
          (fun r' hr' => hstep r' (List.mem_cons_of_mem r hr')),
        collected_add a hhead hstepHead]

/-! ## Sections that are refused -/

namespace AttributeRecord

/-- The record with zeros for its payload. -/
def zeroed (r : AttributeRecord) : AttributeRecord where
  header := r.header
  payload := List.replicate r.payload.length 0
  length_payload := by rw [List.length_replicate, r.length_payload]

/-- An `EIATTR_KPARAM_INFO` of the length that the loader steps by. -/
def kparam : AttributeRecord where
  header := 0xc1704
  payload := List.replicate 12 0
  length_payload := by decide

theorem inStep_of_kind {r r' : AttributeRecord} (h : r'.SameKind r) (hstep : r.InStep) :
    r'.InStep := by
  obtain ⟨htype, hlength⟩ := h
  rwa [InStep, htype, hlength]

end AttributeRecord

/-- A section of attributes with some bytes. -/
def infoSection (name : Name) (block : List NvU8) : Section where
  name := name
  type := 0x70000000 -- `SHT_CUDA_INFO`
  size := BitVec.ofNat 64 block.length
  data := fun i => (block[i]?).getD 0

theorem bytes_infoSection {name : Name} {block : List NvU8} (h : block.length < 2 ^ 64) :
    (infoSection name block).bytes = block := by
  have hsize : (infoSection name block).size.toNat = block.length := by
    rw [infoSection, BitVec.toNat_ofNat, Nat.mod_eq_of_lt h]
  refine List.ext_getElem (by rw [Section.length_bytes, hsize]) fun i hi hi' => ?_
  simp only [Section.bytes, List.getElem_map, List.getElem_range]
  show (block[i]?).getD 0 = block[i]
  rw [List.getElem?_eq_getElem hi', Option.getD_some]

/-- A section has its bytes from its start on. -/
theorem Section.holdsAt_of_bytes {s : Section} {block : List NvU8} (h : s.bytes = block) :
    HoldsAt s.data 0 block ∧ s.size.toNat = block.length := by
  subst h
  refine ⟨fun i hi => ?_, s.length_bytes.symm⟩
  rw [Nat.zero_add]
  simp [Section.bytes]

/-- A record out of step leads the loop into zeros, or into the record behind it. -/
theorem format_behind_outOfStep (r : AttributeRecord) {n : ℕ} (hle : 4 ≤ n) (hn : n ≤ 16)
    (hne : n ≠ r.bytes.length) :
    ∃ h : n < (r.zeroed.bytes ++ AttributeRecord.kparam.bytes).length,
      (r.zeroed.bytes ++ AttributeRecord.kparam.bytes)[n] ∉ ([1, 3, 4, 0xff] : List NvU8) := by
  have hzeroed : r.zeroed.bytes.length = 4 + r.payload.length := by
    rw [AttributeRecord.length_bytes]
    exact congrArg (4 + ·) List.length_replicate
  have hkparam : AttributeRecord.kparam.bytes.length = 16 := rfl
  rw [AttributeRecord.length_bytes] at hne
  have hlt : n < (r.zeroed.bytes ++ AttributeRecord.kparam.bytes).length := by
    rw [List.length_append]
    omega
  refine ⟨hlt, ?_⟩
  by_cases hin : n < r.zeroed.bytes.length
  · have hzero : r.zeroed.bytes[n] = 0 := by
      have hheader : (ofWord r.header).length ≤ n := hle
      refine (List.getElem_append_right hheader).trans ?_
      exact List.getElem_replicate _
    rw [List.getElem_append_left hin, hzero]
    decide
  · have hbytes : ∀ d (hd : d < AttributeRecord.kparam.bytes.length), 0 < d →
        AttributeRecord.kparam.bytes[d] ∉ ([1, 3, 4, 0xff] : List NvU8) := by decide
    rw [List.getElem_append_right (by omega)]
    exact hbytes _ _ (by omega)

/-- **A section is refused** that begins with a record out of step. -/
theorem addSection_outOfStep {r : AttributeRecord} (hknown : r.Known)
    (h : r.type ≠ eiattrExitInstrOffsets) (hstep : ¬r.InStep) {f : Name} (hf : f ≠ [])
    (image : ElfImage) (moduleGpuVa : NvU64) (t : FunctionTables) :
    let s := infoSection (nvInfoOf ++ f) (r.zeroed.bytes ++ AttributeRecord.kparam.bytes)
    s.IsInfoOf f [r.zeroed, .kparam] ∧
      t.addSection image moduleGpuVa s = .error (.status .invalidImage) := by
  obtain ⟨n, hadvance, hle, hn, hne⟩ := r.attributeStep_outOfStep hknown h hstep
  obtain ⟨hlt, hformat⟩ := format_behind_outOfStep r hle hn hne
  have hpayload := r.length_payload_lt
  intro s
  have hbytes : s.bytes = r.zeroed.bytes ++ AttributeRecord.kparam.bytes := bytes_infoSection (by
    rw [List.length_append, AttributeRecord.length_bytes]
    show 4 + (List.replicate r.payload.length (0 : NvU8)).length + 16 < 2 ^ 64
    rw [List.length_replicate]
    omega)
  have hflat : [r.zeroed, AttributeRecord.kparam].flatMap AttributeRecord.bytes =
      r.zeroed.bytes ++ AttributeRecord.kparam.bytes := by
    rw [List.flatMap_cons, List.flatMap_cons, List.flatMap_nil, List.append_nil]
  refine ⟨⟨hf, rfl, ?_, hbytes.trans hflat.symm⟩, ?_⟩
  · intro r' hr'
    rcases List.mem_pair.mp hr' with rfl | rfl
    · exact hknown
    · show _ ∈ _
      decide
  · obtain ⟨hdata, hsize⟩ := Section.holdsAt_of_bytes hbytes
    have hname : sectionKind s.name = .functionInfo f := sectionKind_functionInfo hf
    have hheader : wordAt s.data 0 = r.header :=
      wordAt_of_holdsAt (holdsAt_append.mp (holdsAt_append.mp hdata).1).1
    have hparse : s.functionAttributes (t.attributes f) = .error (.status .invalidImage) := by
      have hlow : attributeFormat (wordAt s.data (0 + n)) ∉ ([1, 3, 4, 0xff] : List NvU8) := by
        rw [attributeFormat, setWidth_wordAt, hdata n hlt]
        exact hformat
      rw [Section.functionAttributes, hsize,
        parseAttributes_advance (by omega) (by rw [hheader]; exact hadvance),
        parseAttributes_fail (by omega) (attributeStep_fail hlow)]
    unfold FunctionTables.addSection
    rw [hname]
    simp only [hparse]
    rfl

/-! ## Sections that are read -/

/-- **The attribute parser respects the boundaries of records, if and only if** its fixed lengths are
the encoded ones: the sections made up of records of the kinds that a section has before its first
`EIATTR_EXIT_INSTR_OFFSETS`, and of records in step, are all accepted and give the parameters they
hold, whatever their payloads, exactly when all these kinds are in step. -/
theorem attributes_collected_iff (records : List AttributeRecord) (hknown : ∀ r ∈ records, r.Known) :
    (∀ (s : Section) (f : Name) (records' : List AttributeRecord), s.IsInfoOf f records' →
      (∀ r' ∈ beforeExit records', r'.InStep ∨ ∃ r ∈ beforeExit records, r'.SameKind r) →
      s.Collects f records') ↔ ∀ r ∈ beforeExit records, r.InStep := by
  constructor
  · intro hcollects r hr
    by_contra hstep
    have hexit : r.type ≠ eiattrExitInstrOffsets := by
      simpa using List.mem_takeWhile_imp hr
    have hmem : r ∈ records := (List.takeWhile_prefix _).subset hr
    obtain ⟨hinfo, herror⟩ := addSection_outOfStep (hknown r hmem) hexit hstep
      (List.cons_ne_nil 'f' []) ⟨0, []⟩ 0 {}
    have hok := hcollects _ ['f'] _ hinfo (fun r' hr' => ?_) ⟨0, []⟩ 0 {}
    · rw [herror] at hok
      cases hok
    · rcases List.mem_pair.mp ((List.takeWhile_prefix _).subset hr') with rfl | rfl
      · exact .inr ⟨r, hr, rfl, List.length_replicate⟩
      · exact .inl (.inr (by decide))
  · intro hsteps s f records' hinfo hkinds image moduleGpuVa t
    have hsteps' : ∀ r' ∈ beforeExit records', r'.InStep := by
      intro r' hr'
      rcases hkinds r' hr' with hstep | ⟨r, hr, hkind⟩
      · exact hstep
      · exact AttributeRecord.inStep_of_kind hkind (hsteps r hr)
    obtain ⟨hdata, hsize⟩ := Section.holdsAt_of_bytes hinfo.bytes
    have hparse : s.functionAttributes (t.attributes f) =
        .ok ((t.attributes f).collected (beforeExit records')) :=
      parseAttributes_of_inStep _ hinfo.known hdata (by rw [hsize, Nat.zero_add]) hsteps'
    unfold FunctionTables.addSection
    rw [hinfo.name, sectionKind_functionInfo hinfo.function_ne]
    simp only [hparse]
    rfl

/-- The records of a function that refers to two external symbols. -/
def twoExterns : List AttributeRecord :=
  [⟨0x80f04, ofWords [5, 6], by decide⟩, ⟨0x41903, [], by decide⟩,
    ⟨0xc1704, ofWords [0, 0, 0x11f000], by decide⟩]

theorem attributes_collected_iff_sample :
    (∀ (s : Section) (f : Name) (records' : List AttributeRecord), s.IsInfoOf f records' →
      (∀ r' ∈ beforeExit records', r'.InStep ∨ ∃ r ∈ beforeExit twoExterns.tail, r'.SameKind r) →
      s.Collects f records') ↔ ∀ r ∈ beforeExit twoExterns.tail, r.InStep :=
  attributes_collected_iff twoExterns.tail (by unfold AttributeRecord.Known; decide)

/-- The second external symbol is taken for a header, and the image is refused. -/
theorem second_extern_refused : ∃ (s : Section) (f : Name) (records : List AttributeRecord),
    s.IsInfoOf f records ∧ ¬s.Collects f records := by
  refine ⟨infoSection (nvInfoOf ++ ['f']) (twoExterns.flatMap AttributeRecord.bytes), ['f'],
    twoExterns, ⟨by decide, rfl, by unfold AttributeRecord.Known; decide,
      bytes_infoSection (by decide)⟩, fun hcollects => ?_⟩
  have hparse : Section.functionAttributes
      (infoSection (nvInfoOf ++ ['f']) (twoExterns.flatMap AttributeRecord.bytes)) {} =
        .error (.status .invalidImage) := by decide +kernel
  have hok := hcollects ⟨0, []⟩ 0 {}
  have hname : sectionKind (infoSection (nvInfoOf ++ ['f'])
      (twoExterns.flatMap AttributeRecord.bytes)).name = .functionInfo ['f'] :=
    sectionKind_functionInfo (List.cons_ne_nil 'f' [])
  unfold FunctionTables.addSection at hok
  rw [hname] at hok
  simp only [hparse] at hok
  cases hok

end LibreCuda
