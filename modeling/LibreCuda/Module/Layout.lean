import LibreCuda.Module.SharedMemory

/-! # The rebuilt image holds every section where it says

Sections with an address of their own are copied there; the others are appended, each behind
padding, and get the address of their copy.

* **`laidOut_of_placeSections`**: what the loop over the sections establishes, by induction on it;
  the room that the sections with fixed addresses need is there from the start.
* **`layout_holds_sections`**: the laws of the layout, and that functions are uploaded where their
  records say. -/

namespace LibreCuda

open Bytes

/-! ## Ranges of sections -/

/-- The section is appended, and gets an address. -/
def Section.floats (s : Section) : Bool := s.isUploaded && s.address == 0

/-- The end of a section. -/
def Section.endAddress (s : Section) : ℕ := s.address.toNat + s.size.toNat

/-- The section covers the byte of the image. -/
def Section.Covers (s : Section) (k : ℕ) : Prop := s.address.toNat ≤ k ∧ k < s.endAddress

/-- Two sections share no byte of the image. -/
def Section.Apart (s t : Section) : Prop := ∀ k, s.Covers k → ¬ t.Covers k

/-- The alignment the loader gives a section. -/
def Section.alignment (s : Section) : ℕ := max s.addrAlign.toNat 128

/-- The alignment is 0 or a power of two below 2^32. -/
def Section.AlignedByPower (s : Section) : Prop :=
  s.addrAlign = 0 ∨ ∃ k < 32, s.addrAlign.toNat = 2 ^ k

/-- The image holds the data of the section at its address. -/
def Section.HeldIn (s : Section) (image : List NvU8) : Prop :=
  ∀ i < s.size.toNat, image[s.address.toNat + i]? = some (s.data i)

/-- Sections that lie one behind the other are apart. -/
theorem Section.apart_of_le {s t : Section} (h : s.endAddress ≤ t.address.toNat) : s.Apart t := by
  intro k hs ht
  have hlt := hs.2
  have hle := ht.1
  omega

theorem Section.Apart.symm {s t : Section} (h : s.Apart t) : t.Apart s :=
  fun k ht hs => h k hs ht

theorem Section.getElem?_bytes (s : Section) {i : ℕ} (hi : i < s.size.toNat) :
    s.bytes[i]? = some (s.data i) := by
  rw [Section.bytes, List.getElem?_map, List.getElem?_range hi, Option.map_some]

/-- A section with a fixed address does not get another one. -/
theorem Section.not_floats {s : Section} (h : s.isFixed = true) : s.floats = false := by
  unfold Section.isFixed at h
  unfold Section.floats
  cases s.isUploaded <;> simp_all

/-- How long the image is behind a section: one that floats is appended behind padding. -/
def lengthBehind (n : ℕ) (s : Section) : ℕ :=
  if s.floats then n + (numPaddingBytes s.addrAlign n).toNat + s.size.toNat else n

/-- **How long the image of a list of sections is**, in a vector of any size. -/
def imageLength (sections : List Section) : ℕ :=
  sections.foldl lengthBehind (numBytesFixed sections).toNat

theorem le_lengthBehind (n : ℕ) (s : Section) : n ≤ lengthBehind n s := by
  unfold lengthBehind
  split_ifs
  · omega
  · exact le_rfl

/-! ## Padding -/

/-- **The padding aligns** what is appended behind it. The difference wraps, and a power of two
divides what it wraps at. -/
theorem dvd_add_numPaddingBytes {s : Section} (h : s.AlignedByPower) {n : ℕ} (hn : n < 2 ^ 63) :
    s.alignment ∣ n + (numPaddingBytes s.addrAlign n).toNat := by
  obtain ⟨k, hk, hpower⟩ : ∃ k < 32, s.alignment = 2 ^ k := by
    rcases h with hzero | ⟨k, hk, hpower⟩
    · refine ⟨7, by omega, ?_⟩
      rw [Section.alignment, hzero]
      rfl
    · by_cases hsmall : k ≤ 7
      · refine ⟨7, by omega, ?_⟩
        rw [Section.alignment, hpower]
        exact max_eq_right (Nat.pow_le_pow_right (by omega) hsmall)
      · refine ⟨k, hk, ?_⟩
        rw [Section.alignment, hpower]
        exact max_eq_left (Nat.pow_le_pow_right (n := 2) (by omega) (show 7 ≤ k by omega))
  have hwidth : s.addrAlign.toNat < 2 ^ 32 := by
    have hle : s.addrAlign.toNat ≤ s.alignment := le_max_left _ _
    have hlt : 2 ^ k < 2 ^ 32 := Nat.pow_lt_pow_right (by omega) hk
    omega
  have halign : ((maxOf (s.addrAlign.setWidth 32) (128 : NvU32)).setWidth 64 : NvU64).toNat =
      s.alignment := by
    rw [BitVec.toNat_setWidth_of_le (by decide), toNat_maxOf, BitVec.toNat_setWidth,
      Nat.mod_eq_of_lt hwidth]
    rfl
  have hdvd : s.alignment ∣ 2 ^ 64 := by
    rw [hpower]
    exact Nat.pow_dvd_pow 2 (by omega)
  have hn' : n % 2 ^ 64 = n := Nat.mod_eq_of_lt (by omega)
  rw [numPaddingBytes, BitVec.toNat_umod, BitVec.toNat_sub, halign, BitVec.toNat_ofNat, hn',
    Nat.mod_mod_of_dvd _ hdvd]
  apply Nat.dvd_of_mod_eq_zero
  rw [Nat.add_mod_mod, show n + (2 ^ 64 - n + s.alignment) = 2 ^ 64 + s.alignment by omega,
    Nat.add_mod_right]
  exact Nat.mod_eq_zero_of_dvd hdvd

/-! ## One round of the loop -/

section Rounds

variable {image image' : List NvU8} {s s' : Section}

/-- Overwriting changes the bytes of the block only. -/
theorem overwrite_eq_ok {idx : ℕ} {bytes : List NvU8} (h : overwrite image idx bytes = .ok image') :
    image'.length = image.length ∧ idx + bytes.length ≤ image.length ∧
      (∀ k < bytes.length, image'[idx + k]? = bytes[k]?) ∧
      ∀ k, k < idx ∨ idx + bytes.length ≤ k → image'[k]? = image[k]? := by
  rw [overwrite] at h
  split_ifs at h with hfits
  · cases h
    have hidx : (image.take idx).length = idx := by
      rw [List.length_take]
      omega
    refine ⟨?_, hfits, fun k hk => ?_, fun k hk => ?_⟩
    · simp only [List.length_append, List.length_take, List.length_drop]
      omega
    · rw [List.append_assoc, List.getElem?_append_right (by omega), hidx, Nat.add_sub_cancel_left,
        List.getElem?_append_left hk]
    · rcases hk with hk | hk
      · rw [List.append_assoc, List.getElem?_append_left (by omega), List.getElem?_take_of_lt hk]
      · rw [List.getElem?_append_right (by rw [List.length_append]; omega), List.length_append, hidx,
          List.getElem?_drop, Nat.add_sub_cancel' hk]

theorem SectionPlaced.length_eq (h : SectionPlaced image s image' s') :
    image'.length = lengthBehind image.length s := by
  unfold lengthBehind
  cases h with
  | skipped uploaded => rw [if_neg (by simp [Section.floats, uploaded])]
  | fixed image' fixed copied =>
    rw [if_neg (by rw [Section.not_floats fixed]; exact Bool.false_ne_true)]
    exact (overwrite_eq_ok copied).1
  | appended uploaded address fits =>
    rw [if_pos (by simp [Section.floats, uploaded, address]), List.length_append,
      List.length_append, List.length_replicate, Section.length_bytes]

/-- A round never shrinks the image. -/
theorem SectionPlaced.length_le (h : SectionPlaced image s image' s') :
    image.length ≤ image'.length := by
  rw [h.length_eq]
  exact le_lengthBehind _ s

/-- A round changes the bytes of a section with a fixed address only. -/
theorem SectionPlaced.getElem?_eq (h : SectionPlaced image s image' s') {k : ℕ}
    (hk : k < image.length) (hfree : s.isFixed = true → ¬ s.Covers k) : image'[k]? = image[k]? := by
  cases h with
  | skipped => rfl
  | fixed image' fixed copied =>
    refine (overwrite_eq_ok copied).2.2.2 k ?_
    rw [Section.length_bytes]
    have hfree := hfree fixed
    unfold Section.Covers Section.endAddress at hfree
    omega
  | appended => rw [List.append_assoc, List.getElem?_append_left hk]

/-- A section that floats is placed behind what there is, up to the end of the image. -/
theorem SectionPlaced.of_floats (h : SectionPlaced image s image' s') (hs : s.floats = true) :
    image.length ≤ s'.address.toNat ∧ s'.endAddress = image'.length ∧ s'.HeldIn image' := by
  cases h with
  | skipped uploaded =>
    rw [Section.floats, uploaded] at hs
    cases hs
  | fixed image' fixed copied =>
    rw [Section.not_floats fixed] at hs
    cases hs
  | appended uploaded address fits =>
    obtain ⟨pad, hpad⟩ : ∃ pad, pad = (numPaddingBytes s.addrAlign image.length).toNat := ⟨_, rfl⟩
    rw [← hpad] at fits ⊢
    have haddress : (BitVec.ofNat 64 (image.length + pad)).toNat = image.length + pad := by
      rw [BitVec.toNat_ofNat, Nat.mod_eq_of_lt (by omega)]
    have hlength : (image ++ List.replicate pad 0).length = image.length + pad := by
      rw [List.length_append, List.length_replicate]
    refine ⟨?_, ?_, fun i hi => ?_⟩
    · show _ ≤ (BitVec.ofNat 64 (image.length + pad)).toNat
      omega
    · show (BitVec.ofNat 64 (image.length + pad)).toNat + s.size.toNat = _
      rw [haddress, List.length_append, hlength, Section.length_bytes]
    · show (image ++ List.replicate pad 0 ++ s.bytes)[(BitVec.ofNat 64 (image.length + pad)).toNat +
        i]? = some (s.data i)
      rw [haddress, List.getElem?_append_right (by omega), hlength, Nat.add_sub_cancel_left]
      exact s.getElem?_bytes hi

/-- It is aligned. -/
theorem SectionPlaced.dvd_of_floats (h : SectionPlaced image s image' s') (hs : s.floats = true)
    (halign : s.AlignedByPower) : s.alignment ∣ s'.address.toNat := by
  cases h with
  | skipped uploaded =>
    rw [Section.floats, uploaded] at hs
    cases hs
  | fixed image' fixed copied =>
    rw [Section.not_floats fixed] at hs
    cases hs
  | appended uploaded address fits =>
    show _ ∣ (BitVec.ofNat 64 _).toNat
    rw [BitVec.toNat_ofNat, Nat.mod_eq_of_lt (by omega)]
    exact dvd_add_numPaddingBytes halign (by omega)

/-- A section with a fixed address is placed there. -/
theorem SectionPlaced.of_fixed (h : SectionPlaced image s image' s') (hs : s.isFixed = true) :
    s' = s ∧ s.HeldIn image' := by
  cases h with
  | skipped uploaded =>
    rw [Section.isFixed, uploaded] at hs
    cases hs
  | fixed image' fixed copied =>
    refine ⟨rfl, fun i hi => ?_⟩
    rw [(overwrite_eq_ok copied).2.2.1 i (by rwa [Section.length_bytes])]
    exact s.getElem?_bytes hi
  | appended uploaded address =>
    rw [Section.isFixed, address, Bool.and_eq_true] at hs
    exact absurd hs.2 (by decide)

end Rounds

/-! ## The loop -/

/-- **What the loop over the sections establishes.** Indices tell sections of the list apart, and
relate each to itself with its address. -/
structure LaidOut (sections : List Section) (image : List NvU8) (placed : List Section) : Prop where
  aligned : ∀ (i : ℕ) (s p : Section), sections[i]? = some s → placed[i]? = some p →
    s.floats = true → s.alignment ∣ p.address.toNat
  beyond : ∀ (i j : ℕ) (s p f : Section), sections[i]? = some s → placed[i]? = some p →
    s.floats = true → sections[j]? = some f → f.isFixed = true → f.endAddress ≤ p.address.toNat
  apart : ∀ (i j : ℕ) (s p t q : Section), sections[i]? = some s → placed[i]? = some p →
    s.floats = true → sections[j]? = some t → placed[j]? = some q → t.isUploaded = true → i ≠ j →
      p.Apart q
  held : ∀ (i : ℕ) (s p : Section), sections[i]? = some s → placed[i]? = some p →
    s.floats = true → p.HeldIn image
  fixed : ∀ (i : ℕ) (s p : Section), sections[i]? = some s → placed[i]? = some p →
    s.isFixed = true →
    (∀ (j : ℕ) (t : Section), sections[j]? = some t → t.isFixed = true → j ≠ i → s.Apart t) →
      p = s ∧ p.HeldIn image

section Loop

variable {image image' : List NvU8} {sections placed : List Section}

/-- **Frame**: the loop changes the bytes of sections with fixed addresses only. -/
theorem getElem?_of_placeSections (h : placeSections image sections = .ok (image', placed)) {k : ℕ}
    (hk : k < image.length) (hfree : ∀ s ∈ sections, s.isFixed = true → ¬ s.Covers k) :
    image'[k]? = image[k]? := by
  induction sections generalizing image placed with
  | nil =>
    cases h
    rfl
  | cons s rest ih =>
    obtain ⟨image₁, s', rest', hplace, hrest, rfl⟩ := placeSections_cons_eq_ok h
    have hround := sectionPlaced_of_ok hplace
    rw [ih hrest (Nat.lt_of_lt_of_le hk hround.length_le) fun t ht =>
      hfree t (List.mem_cons_of_mem s ht)]
    exact hround.getElem?_eq hk (hfree s List.mem_cons_self)

/-- What the image holds stays there where no section with a fixed address is copied to. -/
theorem Section.HeldIn.of_placeSections {p : Section} (hp : p.HeldIn image)
    (h : placeSections image sections = .ok (image', placed)) (hend : p.endAddress ≤ image.length)
    (hapart : ∀ t ∈ sections, t.isFixed = true → p.Apart t) : p.HeldIn image' := by
  intro i hi
  have hlt : p.address.toNat + i < p.endAddress := by
    unfold Section.endAddress
    omega
  rw [getElem?_of_placeSections h (by omega) fun t ht hfixed =>
    hapart t ht hfixed _ ⟨Nat.le_add_right _ _, hlt⟩]
  exact hp i hi

/-- Where the loop puts a section that floats: behind what there was, and with its data. -/
theorem floats_of_placeSections
    (hroom : ∀ s ∈ sections, s.isFixed = true → s.endAddress ≤ image.length)
    (h : placeSections image sections = .ok (image', placed)) {i : ℕ} {s p : Section}
    (hs : sections[i]? = some s) (hp : placed[i]? = some p) (hfloats : s.floats = true) :
    image.length ≤ p.address.toNat ∧ p.HeldIn image' := by
  induction sections generalizing image placed i with
  | nil => cases hs
  | cons t rest ih =>
    obtain ⟨image₁, t', rest', hplace, hrest, rfl⟩ := placeSections_cons_eq_ok h
    have hround := sectionPlaced_of_ok hplace
    have hroom' : ∀ s ∈ rest, s.isFixed = true → s.endAddress ≤ image.length := fun s hs =>
      hroom s (List.mem_cons_of_mem t hs)
    cases i with
    | zero =>
      obtain rfl := Option.some.inj hs
      obtain rfl := Option.some.inj hp
      obtain ⟨hle, hend, hheld⟩ := hround.of_floats hfloats
      refine ⟨hle, hheld.of_placeSections hrest hend.le fun f hf hfixed => ?_⟩
      exact (Section.apart_of_le ((hroom' f hf hfixed).trans hle)).symm
    | succ i =>
      obtain ⟨hle, hheld⟩ := ih (fun s hs hfixed => (hroom' s hs hfixed).trans hround.length_le) hrest
        hs hp
      exact ⟨hround.length_le.trans hle, hheld⟩

/-- And aligned. -/
theorem dvd_of_placeSections (halign : ∀ s ∈ sections, s.AlignedByPower)
    (h : placeSections image sections = .ok (image', placed)) {i : ℕ} {s p : Section}
    (hs : sections[i]? = some s) (hp : placed[i]? = some p) (hfloats : s.floats = true) :
    s.alignment ∣ p.address.toNat := by
  induction sections generalizing image placed i with
  | nil => cases hs
  | cons t rest ih =>
    obtain ⟨image₁, t', rest', hplace, hrest, rfl⟩ := placeSections_cons_eq_ok h
    cases i with
    | zero =>
      obtain rfl := Option.some.inj hs
      obtain rfl := Option.some.inj hp
      exact (sectionPlaced_of_ok hplace).dvd_of_floats hfloats (halign t List.mem_cons_self)
    | succ i => exact ih (fun s hs => halign s (List.mem_cons_of_mem t hs)) hrest hs hp

/-- Sections that float lie in the order of the list. -/
theorem ordered_of_placeSections
    (hroom : ∀ s ∈ sections, s.isFixed = true → s.endAddress ≤ image.length)
    (h : placeSections image sections = .ok (image', placed)) {i j : ℕ} {s p t q : Section}
    (hs : sections[i]? = some s) (hp : placed[i]? = some p) (hfloats : s.floats = true)
    (ht : sections[j]? = some t) (hq : placed[j]? = some q) (hfloats' : t.floats = true)
    (hlt : i < j) : p.endAddress ≤ q.address.toNat := by
  induction sections generalizing image placed i j with
  | nil => cases hs
  | cons u rest ih =>
    obtain ⟨image₁, u', rest', hplace, hrest, rfl⟩ := placeSections_cons_eq_ok h
    have hround := sectionPlaced_of_ok hplace
    have hroom' : ∀ s ∈ rest, s.isFixed = true → s.endAddress ≤ image₁.length :=
      fun s hs hfixed => (hroom s (List.mem_cons_of_mem u hs) hfixed).trans hround.length_le
    obtain ⟨j, rfl⟩ : ∃ k, j = k + 1 := ⟨j - 1, by omega⟩
    cases i with
    | zero =>
      obtain rfl := Option.some.inj hs
      obtain rfl := Option.some.inj hp
      rw [(hround.of_floats hfloats).2.1]
      exact (floats_of_placeSections hroom' hrest ht hq hfloats').1
    | succ i => exact ih hroom' hrest hs hp ht hq (by omega)

/-- Where the loop puts a section with a fixed address. -/
theorem fixed_of_placeSections
    (hroom : ∀ s ∈ sections, s.isFixed = true → s.endAddress ≤ image.length)
    (h : placeSections image sections = .ok (image', placed)) {i : ℕ} {s p : Section}
    (hs : sections[i]? = some s) (hp : placed[i]? = some p) (hfixed : s.isFixed = true) :
    p = s ∧ ((∀ j t, sections[j]? = some t → t.isFixed = true → j ≠ i → s.Apart t) →
      p.HeldIn image') := by
  induction sections generalizing image placed i with
  | nil => cases hs
  | cons t rest ih =>
    obtain ⟨image₁, t', rest', hplace, hrest, rfl⟩ := placeSections_cons_eq_ok h
    have hround := sectionPlaced_of_ok hplace
    cases i with
    | zero =>
      obtain rfl := Option.some.inj hs
      obtain rfl := Option.some.inj hp
      obtain ⟨rfl, hheld⟩ := hround.of_fixed hfixed
      refine ⟨rfl, fun hapart => hheld.of_placeSections hrest
        ((hroom _ List.mem_cons_self hfixed).trans hround.length_le) fun u hu hfixed' => ?_⟩
      obtain ⟨j, hj⟩ := List.mem_iff_getElem?.mp hu
      exact hapart (j + 1) u hj hfixed' (by omega)
    | succ i =>
      obtain ⟨hsame, hheld⟩ := ih (fun s hs hfixed =>
        (hroom s (List.mem_cons_of_mem t hs) hfixed).trans hround.length_le) hrest hs hp
      refine ⟨hsame, fun hapart => hheld fun j u hu hfixed' hne => ?_⟩
      exact hapart (j + 1) u hu hfixed' (by omega)

/-- **A section that floats shares no byte** with any other one that is uploaded. -/
theorem apart_of_placeSections
    (hroom : ∀ s ∈ sections, s.isFixed = true → s.endAddress ≤ image.length)
    (h : placeSections image sections = .ok (image', placed)) {i j : ℕ} {s p t q : Section}
    (hs : sections[i]? = some s) (hp : placed[i]? = some p) (hfloats : s.floats = true)
    (ht : sections[j]? = some t) (hq : placed[j]? = some q) (huploaded : t.isUploaded = true)
    (hne : i ≠ j) : p.Apart q := by
  by_cases hzero : t.address = 0
  · have hfloats' : t.floats = true := by
      rw [Section.floats, huploaded, hzero]
      rfl
    rcases Nat.lt_or_gt_of_ne hne with hlt | hgt
    · exact Section.apart_of_le (ordered_of_placeSections hroom h hs hp hfloats ht hq hfloats' hlt)
    · exact (Section.apart_of_le
        (ordered_of_placeSections hroom h ht hq hfloats' hs hp hfloats hgt)).symm
  · have hfixed : t.isFixed = true := by
      rw [Section.isFixed, huploaded, bne_iff_ne.mpr hzero]
      rfl
    obtain ⟨rfl, -⟩ := fixed_of_placeSections hroom h ht hq hfixed
    have hle := (hroom _ (List.mem_of_getElem? ht) hfixed).trans
      (floats_of_placeSections hroom h hs hp hfloats).1
    exact (Section.apart_of_le hle).symm

/-- **The loop lays the sections out**, in an image with room for those with fixed addresses. -/
theorem laidOut_of_placeSections (halign : ∀ s ∈ sections, s.AlignedByPower)
    (hroom : ∀ s ∈ sections, s.isFixed = true → s.endAddress ≤ image.length)
    (h : placeSections image sections = .ok (image', placed)) : LaidOut sections image' placed where
  aligned := fun _ _ _ hs hp hfloats => dvd_of_placeSections halign h hs hp hfloats
  beyond := fun _ _ _ _ f hs hp hfloats hf hfixed =>
    (hroom f (List.mem_of_getElem? hf) hfixed).trans
      (floats_of_placeSections hroom h hs hp hfloats).1
  held := fun _ _ _ hs hp hfloats => (floats_of_placeSections hroom h hs hp hfloats).2
  fixed := fun _ _ _ hs hp hfixed hapart =>
    ⟨(fixed_of_placeSections hroom h hs hp hfixed).1,
      (fixed_of_placeSections hroom h hs hp hfixed).2 hapart⟩
  apart := fun _ _ _ _ _ _ hs hp hfloats ht hq huploaded hne =>
    apart_of_placeSections hroom h hs hp hfloats ht hq huploaded hne

/-- The room that is there from the start. -/
theorem endAddress_le_numBytesFixed
    (hfits : ∀ s ∈ sections, s.isFixed = true → s.endAddress < 2 ^ 64) :
    ∀ s ∈ sections, s.isFixed = true → s.endAddress ≤ (numBytesFixed sections).toNat := by
  suffices hfold : ∀ n : NvU64, n.toNat ≤ (sections.foldl (fun n s =>
      if s.isFixed then maxOf n (s.address + s.size) else n) n).toNat ∧
      ∀ s ∈ sections, s.isFixed = true → s.endAddress ≤ (sections.foldl (fun n s =>
        if s.isFixed then maxOf n (s.address + s.size) else n) n).toNat from (hfold 0).2
  induction sections with
  | nil => exact fun n => ⟨le_rfl, fun s hs => absurd hs List.not_mem_nil⟩
  | cons t rest ih =>
    intro n
    rw [List.foldl_cons]
    obtain ⟨hle, hrest⟩ := ih (fun s hs => hfits s (List.mem_cons_of_mem t hs))
      (if t.isFixed then maxOf n (t.address + t.size) else n)
    constructor
    · refine Nat.le_trans ?_ hle
      split_ifs
      · rw [toNat_maxOf]
        exact le_max_left _ _
      · exact le_rfl
    · intro s hs hfixed
      rcases List.mem_cons.mp hs with rfl | hs
      · refine Nat.le_trans ?_ hle
        have hend := hfits s List.mem_cons_self hfixed
        unfold Section.endAddress at hend ⊢
        rw [if_pos hfixed, toNat_maxOf, BitVec.toNat_add, Nat.mod_eq_of_lt hend]
        exact le_max_right _ _
      · exact hrest s hs hfixed

theorem le_foldl_lengthBehind (sections : List Section) (n : ℕ) :
    n ≤ sections.foldl lengthBehind n := by
  induction sections generalizing n with
  | nil => exact le_rfl
  | cons s rest ih => exact (le_lengthBehind n s).trans (ih _)

/-- A round throws where the image would outgrow what a vector can hold, and stays in it. -/
theorem placeSection_cases {s : Section}
    (hroom : s.isFixed = true → s.endAddress ≤ image.length) :
    placeSection image s = .error .exception ∧ 2 ^ 63 ≤ lengthBehind image.length s ∨
      ∃ image' s', placeSection image s = .ok (image', s') := by
  unfold placeSection
  split_ifs with huploaded haddress
  · exact Or.inr ⟨_, _, rfl⟩
  · have hfixed : s.isFixed = true := by
      rw [Section.isFixed, bne_iff_ne.mpr haddress, Bool.and_true]
      simpa using huploaded
    have hend := hroom hfixed
    refine Or.inr ?_
    rw [overwrite, if_pos (by rw [Section.length_bytes]; exact hend)]
    exact ⟨_, _, rfl⟩
  · have hfloats : s.floats = true := by
      rw [Section.floats, not_not.mp haddress]
      simpa using huploaded
    rw [lengthBehind, if_pos hfloats]
    obtain ⟨pad, hpad⟩ : ∃ pad, pad = (numPaddingBytes s.addrAlign image.length).toNat := ⟨_, rfl⟩
    have htake : image.take (image.length + pad) = image := List.take_of_length_le (by omega)
    rw [← hpad, resize, htake, Nat.add_sub_cancel_left]
    split_ifs with hsize
    · simp only [bind, Except.bind, pushBack, List.length_append, List.length_replicate,
        Section.length_bytes]
      split_ifs with hfits
      · exact Or.inr ⟨_, _, rfl⟩
      · exact Or.inl ⟨rfl, Nat.not_lt.mp hfits⟩
    · exact Or.inl ⟨rfl, by omega⟩

/-- The loop throws where the image would outgrow what a vector can hold, and stays in it. -/
theorem placeSections_cases (hroom : ∀ s ∈ sections, s.isFixed = true →
    s.endAddress ≤ image.length) :
    placeSections image sections = .error .exception ∧
        2 ^ 63 ≤ sections.foldl lengthBehind image.length ∨
      ∃ image' placed, placeSections image sections = .ok (image', placed) := by
  induction sections generalizing image with
  | nil => exact Or.inr ⟨image, [], rfl⟩
  | cons s rest ih =>
    rw [List.foldl_cons]
    rcases placeSection_cases (hroom s List.mem_cons_self) with ⟨herror, hlong⟩ |
      ⟨image₁, s', hplace⟩
    · refine Or.inl ⟨?_, hlong.trans (le_foldl_lengthBehind rest _)⟩
      rw [placeSections, herror]
      rfl
    · have hround := sectionPlaced_of_ok hplace
      have hroom₁ : ∀ t ∈ rest, t.isFixed = true → t.endAddress ≤ image₁.length :=
        fun t ht hfixed => (hroom t (List.mem_cons_of_mem s ht) hfixed).trans hround.length_le
      rcases ih hroom₁ with ⟨herror, hlong⟩ | ⟨image', rest', hrest⟩
      · refine Or.inl ⟨?_, hround.length_eq ▸ hlong⟩
        rw [placeSections, hplace]
        simp [herror, bind, Except.bind]
      · refine Or.inr ⟨image', s' :: rest', ?_⟩
        rw [placeSections, hplace]
        simp [hrest, bind, Except.bind]

/-- **The rebuilt image is laid out**, unless it does not fit in a vector. -/
theorem laidOut_of_rebuildImage (halign : ∀ s ∈ sections, s.AlignedByPower)
    (hfits : ∀ s ∈ sections, s.isFixed = true → s.endAddress < 2 ^ 64) :
    rebuildImage sections = .error .exception ∧ 2 ^ 63 ≤ imageLength sections ∨
      ∃ image placed, rebuildImage sections = .ok (image, placed) ∧
        LaidOut sections image placed := by
  have hroom := endAddress_le_numBytesFixed hfits
  rw [rebuildImage, resize, List.take_nil, List.nil_append, List.length_nil, Nat.sub_zero,
    imageLength]
  split_ifs with hsize
  · have hroom' : ∀ s ∈ sections, s.isFixed = true →
        s.endAddress ≤ (List.replicate (numBytesFixed sections).toNat (0 : NvU8)).length := by
      rw [List.length_replicate]
      exact hroom
    rcases placeSections_cases hroom' with ⟨herror, hlong⟩ | ⟨image, placed, h⟩
    · rw [List.length_replicate] at hlong
      exact Or.inl ⟨herror, hlong⟩
    · exact Or.inr ⟨image, placed, h, laidOut_of_placeSections halign hroom' h⟩
  · exact Or.inl ⟨rfl, (Nat.not_lt.mp hsize).trans (le_foldl_lengthBehind sections _)⟩
/-- A vector holds the image. -/
theorem length_lt_of_rebuildImage (h : rebuildImage sections = .ok (image, placed)) :
    image.length < 2 ^ 63 := by
  obtain ⟨hsize, hplace⟩ := rebuildImage_eq_ok h
  suffices hloop : ∀ {sections placed : List Section} {image image' : List NvU8},
      image.length < 2 ^ 63 → placeSections image sections = .ok (image', placed) →
        image'.length < 2 ^ 63 by
    refine hloop ?_ hplace
    rw [List.length_replicate]
    exact hsize
  intro sections
  induction sections with
  | nil =>
    intro placed image image' hlt hplace
    cases hplace
    exact hlt
  | cons s rest ih =>
    intro placed image image' hlt hplace
    obtain ⟨image₁, s', rest', hround, hrest, rfl⟩ := placeSections_cons_eq_ok hplace
    refine ih ?_ hrest
    cases sectionPlaced_of_ok hround with
    | skipped => exact hlt
    | fixed image₁ fixed copied =>
      rw [(overwrite_eq_ok copied).1]
      exact hlt
    | appended uploaded address fits =>
      rw [List.length_append, List.length_append, List.length_replicate, Section.length_bytes]
      exact fits

end Loop

/-! ## The functions of a module -/

/-- No section asks for a relocation. -/
def ElfImage.NoRelocations (image : ElfImage) : Prop :=
  ∀ s ∈ image.sections, s.type = shtRel ∨ s.type = shtRela → s.relocs = []

section Functions

variable {image : ElfImage} {moduleGpuVa : NvU64} {tables : FunctionTables}

/-- Without entries in relocation sections, there is nothing to apply. -/
theorem relocs_of_scan (hnone : image.NoRelocations)
    (h : scanSections image moduleGpuVa = .ok tables) : tables.relocs = [] := by
  refine scanSections_induction (fun _ t => t.relocs = []) rfl (fun seen s t t' hs ht hscan => ?_) h
  obtain ⟨relocs, hrelocs, hadd⟩ := scanSection_eq_ok hscan
  have hempty : relocs = [] := by
    rw [sectionRelocs] at hrelocs
    split_ifs at hrelocs with htype
    · rw [hnone s hs htype] at hrelocs
      cases htarget : relocTarget s with
      | error e => simp [htarget, bind, Except.bind] at hrelocs
      | ok target =>
        simp only [htarget, bind, Except.bind, List.mapM_nil] at hrelocs
        cases hrelocs
        rfl
    · cases hrelocs
      rfl
  cases hadd with
  | _ =>
    show t.relocs ++ relocs = []
    rw [ht, hempty]
    rfl

/-- What the tables have of a function whose section was seen. -/
structure FunctionTables.Knows (t : FunctionTables) (moduleGpuVa : NvU64) (s : Section) (f : Name) :
    Prop where
  name : f ∈ t.functionNames
  addr : t.functionAddrs f = moduleGpuVa + s.address
  regs : t.functionRegs f = s.info >>> 24
  size : t.functionSizes f = s.size

/-- **The tables know the function of every section with code**, if no two sections have a name. -/
theorem knows_of_scan (hnames : (image.sections.map Section.name).Nodup)
    (h : scanSections image moduleGpuVa = .ok tables) {s : Section} (hs : s ∈ image.sections)
    {f : Name} (hkind : sectionKind s.name = .text f) : tables.Knows moduleGpuVa s f := by
  suffices hall : (image.sections.map Section.name).Nodup → ∀ s ∈ image.sections, ∀ f,
      sectionKind s.name = .text f → tables.Knows moduleGpuVa s f from hall hnames s hs f hkind
  refine scanSections_induction (fun seen t => (seen.map Section.name).Nodup → ∀ s ∈ seen, ∀ f,
    sectionKind s.name = .text f → t.Knows moduleGpuVa s f) ?_ ?_ h
  · intro _ s hs
    exact absurd hs List.not_mem_nil
  · intro seen u t t' _ ih hscan hnodup s hs f hkind
    obtain ⟨relocs, -, hadd⟩ := scanSection_eq_ok hscan
    rw [List.map_append, List.nodup_append] at hnodup
    obtain ⟨hseen, -, hnew⟩ := hnodup
    rcases List.mem_append.mp hs with hs | hs
    · have hknows := ih hseen s hs f hkind
      cases hadd with
      | text g hg =>
        -- the name of the section tells the function apart from those seen before
        have hne : f ≠ g := by
          rintro rfl
          refine hnew s.name (List.mem_map_of_mem hs) u.name (by simp) ?_
          rw [name_of_text hkind, name_of_text hg]
        refine ⟨?_, ?_, ?_, ?_⟩
        · show f ∈ if g ∈ t.functionNames then t.functionNames else t.functionNames ++ [g]
          split_ifs
          · exact hknows.name
          · exact List.mem_append_left _ hknows.name
        · exact (Function.update_of_ne hne _ _).trans hknows.addr
        · exact (Function.update_of_ne hne _ _).trans hknows.regs
        · exact (Function.update_of_ne hne _ _).trans hknows.size
      | _ => exact ⟨hknows.name, hknows.addr, hknows.regs, hknows.size⟩
    · obtain rfl := List.mem_singleton.mp hs
      cases hadd with
      | text g hg =>
        obtain rfl : f = g := SectionKind.text.inj (hkind.symm.trans hg)
        refine ⟨?_, Function.update_self .., Function.update_self .., Function.update_self ..⟩
        show f ∈ if f ∈ t.functionNames then t.functionNames else t.functionNames ++ [f]
        split_ifs with hmem
        · exact hmem
        · exact List.mem_append_right _ (List.mem_singleton_self f)
      | shared g hg => cases hkind.symm.trans hg
      | constant rest nr used hg => cases hkind.symm.trans hg
      | info hg => cases hkind.symm.trans hg
      | functionInfo g a hg => cases hkind.symm.trans hg
      | other hg => cases hkind.symm.trans hg

end Functions

/-- Each section has a place. -/
theorem exists_placed {sections placed : List Section}
    (h : List.Forall₂ Section.SameBut sections placed) {i : ℕ} {s : Section}
    (hs : sections[i]? = some s) : ∃ p, placed[i]? = some p ∧ s.SameBut p := by
  induction h generalizing i with
  | nil => cases hs
  | cons hsame _ ih =>
    cases i with
    | zero =>
      obtain rfl := Option.some.inj hs
      exact ⟨_, rfl, hsame⟩
    | succ i => exact ih hs

/-- The layout adds no relocations. -/
theorem ElfImage.NoRelocations.of_sameBut {image : ElfImage} (hnone : image.NoRelocations)
    {placed : List Section} (h : List.Forall₂ Section.SameBut image.sections placed) :
    ElfImage.NoRelocations { image with sections := placed } := by
  intro p hp htype
  obtain ⟨i, hi⟩ := List.mem_iff_getElem?.mp hp
  have hlt : i < image.sections.length := by
    rw [h.length_eq]
    exact (List.getElem?_eq_some_iff.mp hi).1
  obtain ⟨q, hq, hsame⟩ := exists_placed h (List.getElem?_eq_getElem hlt)
  obtain rfl := Option.some.inj (hi.symm.trans hq)
  rw [hsame.type] at htype
  rw [hsame.relocs]
  exact hnone _ (List.getElem_mem hlt) htype

/-- The functions of a module that was loaded without relocations are uploaded at their addresses.
-/
theorem uploaded_of_load {image : ElfImage} (hnames : (image.sections.map Section.name).Nodup)
    (hnone : image.NoRelocations) {h h' : Host} {m : LibreCUmodule}
    (hload : Exec.call (libreCuModuleLoadData (some image)) h = (.ok m, h')) {i : ℕ} {s : Section}
    (hs : image.sections[i]? = some s)
    (hheld : ∀ (rebuilt : List NvU8) (placed : List Section) (p : Section),
      rebuildImage image.sections = .ok (rebuilt, placed) → placed[i]? = some p → p.HeldIn rebuilt)
    {f : Name} (hname : s.name = text ++ f) (hf : f ≠ []) :
    (∃ g ∈ m.functions, g.name = String.ofList f) ∧
      ∀ g ∈ m.functions, g.name = String.ofList f → g.functionSize = s.size ∧
        ∀ k < g.functionSize.toNat, h'.mem (g.funcVaAddr + BitVec.ofNat 64 k) = s.data k := by
  obtain ⟨loaded, mem, hmem⟩ := uploaded_of_ok hload
  have hall := sameBut_of_rebuildImage loaded.rebuild
  obtain ⟨p, hp, hsame⟩ := exists_placed hall hs
  have hkind : sectionKind p.name = .text f := by
    rw [hsame.name, hname]
    exact sectionKind_text hf
  have hknows : loaded.tables.Knows m.moduleVaAddr p f := by
    refine knows_of_scan ?_ loaded.scan (List.mem_of_getElem? hp) hkind
    show (loaded.sections.map Section.name).Nodup
    rw [names_of_sameBut hall]
    exact hnames
  -- nothing is patched
  have hpatched : loaded.patched = loaded.rebuilt := by
    have hpatch := loaded.patch
    rw [relocs_of_scan (hnone.of_sameBut hall) loaded.scan] at hpatch
    exact (Except.ok.inj hpatch).symm
  rw [hpatched] at hmem
  have hlength := length_lt_of_rebuildImage loaded.rebuild
  refine ⟨⟨loaded.tables.function f, ?_, rfl⟩, fun g hg hgname => ?_⟩
  · rw [loaded.functions]
    exact List.mem_map_of_mem hknows.name
  · rw [loaded.functions] at hg
    obtain ⟨f', -, rfl⟩ := List.mem_map.mp hg
    obtain rfl : f' = f := by
      have htoList := congrArg String.toList hgname
      rwa [FunctionTables.function, String.toList_ofList, String.toList_ofList] at htoList
    refine ⟨hknows.size.trans hsame.size, fun k hk => ?_⟩
    have hk' : k < p.size.toNat := by
      rw [← hknows.size]
      exact hk
    have hbyte := hheld _ _ p loaded.rebuild hp k hk'
    have hlt := (List.getElem?_eq_some_iff.mp hbyte).1
    have hoffset : (loaded.tables.functionAddrs f' + BitVec.ofNat 64 k - m.moduleVaAddr).toNat =
        p.address.toNat + k := by
      rw [hknows.addr, BitVec.add_assoc, BitVec.add_comm, BitVec.add_sub_cancel, BitVec.toNat_add,
        BitVec.toNat_ofNat]
      omega
    show h'.mem (loaded.tables.functionAddrs f' + BitVec.ofNat 64 k) = s.data k
    rw [hmem, store, hoffset, hbyte, Option.getD_some, hsame.data]

/-- **The rebuilt image holds every section where it says**, for every list of sections with
distinct names, alignments that are 0 or powers of two, and ends of fixed sections that do not
overflow. The layout phase ends with the sections laid out, or throws because an image of 2^63 bytes
or more does not fit in a vector; and in a module that was loaded without relocations, every function
is uploaded at its address. -/
theorem layout_holds_sections {image : ElfImage} (hnames : (image.sections.map Section.name).Nodup)
    (halign : ∀ s ∈ image.sections, s.AlignedByPower)
    (hfits : ∀ s ∈ image.sections, s.isFixed = true → s.endAddress < 2 ^ 64) :
    (rebuildImage image.sections = .error .exception ∧ 2 ^ 63 ≤ imageLength image.sections ∨
      ∃ rebuilt placed, rebuildImage image.sections = .ok (rebuilt, placed) ∧
        LaidOut image.sections rebuilt placed) ∧
    ∀ (h h' : Host) (m : LibreCUmodule),
      Exec.call (libreCuModuleLoadData (some image)) h = (.ok m, h') → image.NoRelocations →
      ∀ (i : ℕ) (s : Section) (f : Name), image.sections[i]? = some s → s.isUploaded = true →
        (s.isFixed = true → ∀ (j : ℕ) (t : Section), image.sections[j]? = some t →
          t.isFixed = true → j ≠ i → s.Apart t) → s.name = text ++ f → f ≠ [] →
        (∃ g ∈ m.functions, g.name = String.ofList f) ∧
          ∀ g ∈ m.functions, g.name = String.ofList f → g.functionSize = s.size ∧
            ∀ k < g.functionSize.toNat, h'.mem (g.funcVaAddr + BitVec.ofNat 64 k) = s.data k := by
  have hlaid := laidOut_of_rebuildImage halign hfits
  refine ⟨hlaid, fun h h' m hload hnone i s f hs huploaded hapart hname hf => ?_⟩
  refine uploaded_of_load hnames hnone hload hs (fun rebuilt placed p hrebuild hp => ?_) hname hf
  rcases hlaid with ⟨herror, -⟩ | ⟨rebuilt', placed', hrebuild', hlaid⟩
  · cases herror.symm.trans hrebuild
  · obtain ⟨rfl, rfl⟩ := Prod.mk.inj (Except.ok.inj (hrebuild.symm.trans hrebuild'))
    by_cases hzero : s.address = 0
    · refine hlaid.held i s p hs hp ?_
      rw [Section.floats, huploaded, hzero]
      rfl
    · have hfixed : s.isFixed = true := by
        rw [Section.isFixed, huploaded, bne_iff_ne.mpr hzero]
        rfl
      exact (hlaid.fixed i s p hs hp hfixed (hapart hfixed)).2

/-! ## An image that is laid out -/

/-- The code of a kernel. -/
def laidOutText : Section :=
  { name := ".text.k".toList, type := shtProgbits, size := 8, addrAlign := 32,
    data := fun i => BitVec.ofNat 8 (i + 1) }

/-- An image with a section at an address of its own in front of the code of a kernel. -/
def laidOutImage : ElfImage where
  sectionEntrySize := 64
  sections := [{ name := ".data".toList, type := shtProgbits, address := 0x100, size := 4 },
    laidOutText]

/-- The record of that kernel: the code lies behind the other section, aligned to 128 bytes. -/
def laidOutKernel : LibreCUFunction where
  name := "k"
  funcVaAddr := uvmHeapStart + 0x180
  sharedMem := 0
  numRegisters := 0
  localMemReq := 0
  functionSize := 8
  constants := []
  paramInfo := []

/-- The image is laid out, and the kernel is uploaded at its address. -/
theorem layout_holds_sections_sample :
    (∃ rebuilt placed, rebuildImage laidOutImage.sections = .ok (rebuilt, placed) ∧
      LaidOut laidOutImage.sections rebuilt placed) ∧
    ∀ k < 8, (Exec.call (libreCuModuleLoadData (some laidOutImage)) loadHost).2.mem
      (laidOutKernel.funcVaAddr + BitVec.ofNat 64 k) = laidOutText.data k := by
  have haligned : ∀ s ∈ laidOutImage.sections, s.AlignedByPower := by
    intro s hs
    rcases List.mem_cons.mp hs with rfl | hs
    · exact Or.inr ⟨0, by decide, rfl⟩
    · obtain rfl := List.mem_singleton.mp hs
      exact Or.inr ⟨5, by decide, rfl⟩
  have hnone : laidOutImage.NoRelocations := by
    intro s hs _
    rcases List.mem_cons.mp hs with rfl | hs
    · rfl
    · obtain rfl := List.mem_singleton.mp hs
      rfl
  have hload : Exec.call (libreCuModuleLoadData (some laidOutImage)) loadHost =
      (.ok ⟨[laidOutKernel], uvmHeapStart⟩,
        (Exec.call (libreCuModuleLoadData (some laidOutImage)) loadHost).2) := by
    have hok : (Exec.call (libreCuModuleLoadData (some laidOutImage)) loadHost).1 =
        .ok ⟨[laidOutKernel], uvmHeapStart⟩ := by decide +kernel
    rw [← hok]
  have hnames : (laidOutImage.sections.map Section.name).Nodup := by decide
  have hfits : ∀ s ∈ laidOutImage.sections, s.isFixed = true → s.endAddress < 2 ^ 64 := by decide
  obtain ⟨hlaid, huploaded⟩ := layout_holds_sections hnames haligned hfits
  have hsmall : ¬ 2 ^ 63 ≤ imageLength laidOutImage.sections := by decide +kernel
  refine ⟨hlaid.resolve_left fun hthrown => hsmall hthrown.2, fun k hk => ?_⟩
  have hfunction := huploaded loadHost _ _ hload hnone 1 laidOutText ['k'] rfl rfl
    (fun hfixed => absurd hfixed (by decide)) rfl (by decide)
  exact (hfunction.2 laidOutKernel List.mem_cons_self rfl).2 k hk

end LibreCuda
