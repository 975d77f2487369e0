import LibreCuda.Module.Relocations

/-! # Storage of symbols

A relocation writes the address of a symbol: that of the section it is defined in, and its offset
there. Only the sections that are uploaded get an address of their own; every other section keeps the
one of its header, which is 0 in most images, and so are the bytes that are uploaded first.

* **`own_storage_iff`**: when the symbols of an accepted image have storage of their own.
* **`variable_aliases_code`**: a variable without initial value is not given any. -/

namespace LibreCuda

open Bytes Exec

/-! ## Symbols and their sections -/

/-- An address is written for an entry, that of a symbol, which is defined in a section that is not
empty. -/
structure RelocRefers (sections : List Section) (e : RelocEntry) (sym : ElfSymbol) (s : Section) :
    Prop where
  known : e.type ∈ relocTypes
  symbol : (symbolsOf sections)[e.symbol.toNat]? = some sym
  definedIn : sections[sym.sectionIndex.toNat]? = some s
  nonempty : 0 < s.size.toNat

/-- Some entry refers to a symbol in the section with a number. -/
def Referred (sections : List Section) (i : ℕ) : Prop :=
  ∃ a ∈ relocSites sections, ∃ sym s, RelocRefers sections a.2 sym s ∧ sym.sectionIndex.toNat = i

instance (sections : List Section) (i : ℕ) : Decidable (Referred sections i) :=
  decidable_of_iff (∃ a ∈ relocSites sections, a.2.type ∈ relocTypes ∧
    ∃ sym ∈ (symbolsOf sections)[a.2.symbol.toNat]?,
      ∃ s ∈ sections[sym.sectionIndex.toNat]?, 0 < s.size.toNat ∧ sym.sectionIndex.toNat = i)
    ⟨fun ⟨a, ha, htype, sym, hsym, s, hs, hpos, hi⟩ => ⟨a, ha, sym, s, ⟨htype, hsym, hs, hpos⟩, hi⟩,
      fun ⟨a, ha, sym, s, ⟨htype, hsym, hs, hpos⟩, hi⟩ => ⟨a, ha, htype, sym, hsym, s, hs, hpos, hi⟩⟩

/-- The address of the symbol in the image is the offset in its section. -/
theorem RelocRefers.symbolAddress_eq {sections : List Section} {e : RelocEntry} {sym : ElfSymbol}
    {s : Section} (h : RelocRefers sections e sym s) :
    symbolAddress sections e = some (s.address + sym.value) := by
  rw [symbolAddress, h.symbol, Option.bind_eq_bind, Option.bind_some, h.definedIn]
  rfl

/-- Where a byte of a section is in the memory of its module. -/
def Section.byteVa (s : Section) (moduleGpuVa : NvU64) (k : ℕ) : NvU64 :=
  moduleGpuVa + s.address + BitVec.ofNat 64 k

/-- **Symbols have storage of their own**: the addresses that are written for them are inside the
memory of the module, and a byte of a section that relocations refer to is at the address of no
other byte, be it of such a section or of one that is uploaded. -/
structure ElfImage.OwnStorage (image : ElfImage) (moduleGpuVa size : NvU64) : Prop where
  inside : ∀ a ∈ relocSites image.placed, ∀ sym s, RelocRefers image.placed a.2 sym s →
    ∀ symbol, symbolAddress image.placed a.2 = some symbol →
      moduleGpuVa + symbol ∈ span moduleGpuVa size.toNat
  apart : ∀ (i j : ℕ) (s t : Section), image.placed[i]? = some s → image.placed[j]? = some t →
    Referred image.placed i → Referred image.placed j ∨ t.isUploaded = true →
    ∀ k < s.size.toNat, ∀ l < t.size.toNat,
      s.byteVa moduleGpuVa k = t.byteVa moduleGpuVa l → i = j ∧ k = l

/-- The size of the rebuilt image. -/
def ElfImage.rebuiltSize (image : ElfImage) : ℕ :=
  match rebuildImage image.sections with
  | .ok (rebuilt, _) => rebuilt.length
  | .error _ => 0

/-- **When they do.** A symbol is inside a section that is uploaded, or at least inside the memory of
the module; a section with a fixed address shares no byte with another one; and a section that is
not uploaded has an address in its header that is free. -/
structure ElfImage.StorageSound (image : ElfImage) : Prop where
  inside : ∀ a ∈ relocSites image.placed, ∀ sym s, RelocRefers image.placed a.2 sym s →
    s.isUploaded = true ∧ sym.value.toNat ≤ s.size.toNat ∨
      (s.address + sym.value).toNat < (allocatedSize image.rebuiltSize).toNat
  fixed : ∀ (i j : ℕ) (s t : Section), image.sections[i]? = some s → image.sections[j]? = some t →
    Referred image.placed i → s.isFixed = true → t.isFixed = true → i ≠ j → s.Apart t
  other : ∀ (i j : ℕ) (s t : Section), image.placed[i]? = some s → image.placed[j]? = some t →
    Referred image.placed i → s.isUploaded = false →
    Referred image.placed j ∨ t.isUploaded = true → i ≠ j →
      Disjoint (span s.address s.size.toNat) (span t.address t.size.toNat)

/-! ## Sections of an accepted image -/

section Accepted

variable {sections placed : List Section} {image image' : List NvU8}

/-- A section that is uploaded ends in the image. -/
theorem SectionPlaced.endAddress_le {s s' : Section} (h : SectionPlaced image s image' s')
    (hs : s.isUploaded = true) : s'.endAddress ≤ image'.length := by
  by_cases hfixed : s.isFixed = true
  · cases h with
    | skipped uploaded =>
      rw [uploaded] at hs
      cases hs
    | fixed image' fixed copied =>
      obtain ⟨hlength, hfits, -⟩ := overwrite_eq_ok copied
      rw [Section.length_bytes] at hfits
      rw [hlength]
      exact hfits
    | appended uploaded address =>
      rw [Section.isFixed, address, Bool.and_eq_true] at hfixed
      exact absurd hfixed.2 (by decide)
  · have hfloats : s.floats = true := by
      rw [Section.isFixed, hs, Bool.true_and, bne_iff_ne, not_not] at hfixed
      rw [Section.floats, hs, hfixed]
      rfl
    exact (h.of_floats hfloats).2.1.le

theorem length_le_of_placeSections (h : placeSections image sections = .ok (image', placed)) :
    image.length ≤ image'.length := by
  induction sections generalizing image placed with
  | nil =>
    cases h
    exact le_rfl
  | cons s rest ih =>
    obtain ⟨image₁, s', rest', hplace, hrest, rfl⟩ := placeSections_cons_eq_ok h
    exact (sectionPlaced_of_ok hplace).length_le.trans (ih hrest)

/-- **Every section that is uploaded ends in the rebuilt image.** -/
theorem endAddress_le_of_placeSections (h : placeSections image sections = .ok (image', placed))
    {i : ℕ} {s p : Section} (hs : sections[i]? = some s) (hp : placed[i]? = some p)
    (huploaded : s.isUploaded = true) : p.endAddress ≤ image'.length := by
  induction sections generalizing image placed i with
  | nil => cases hs
  | cons t rest ih =>
    obtain ⟨image₁, t', rest', hplace, hrest, rfl⟩ := placeSections_cons_eq_ok h
    cases i with
    | zero =>
      obtain rfl := Option.some.inj hs
      obtain rfl := Option.some.inj hp
      exact ((sectionPlaced_of_ok hplace).endAddress_le huploaded).trans
        (length_le_of_placeSections hrest)
    | succ i => exact ih hrest hs hp

/-- A section keeps a fixed address, and so does one that is not uploaded. -/
theorem eq_of_placeSections (h : placeSections image sections = .ok (image', placed)) {i : ℕ}
    {s p : Section} (hs : sections[i]? = some s) (hp : placed[i]? = some p)
    (hfloats : s.floats = false) : p = s := by
  induction sections generalizing image placed i with
  | nil => cases hs
  | cons t rest ih =>
    obtain ⟨image₁, t', rest', hplace, hrest, rfl⟩ := placeSections_cons_eq_ok h
    cases i with
    | zero =>
      obtain rfl := Option.some.inj hs
      obtain rfl := Option.some.inj hp
      cases sectionPlaced_of_ok hplace with
      | skipped => rfl
      | fixed => rfl
      | appended uploaded address =>
        rw [Section.floats, uploaded, address] at hfloats
        cases hfloats
    | succ i => exact ih hrest hs hp

/-- Each place is that of a section. -/
theorem exists_section (h : List.Forall₂ Section.SameBut sections placed) {i : ℕ} {p : Section}
    (hp : placed[i]? = some p) : ∃ s, sections[i]? = some s ∧ s.SameBut p := by
  induction h generalizing i with
  | nil => cases hp
  | cons hsame _ ih =>
    cases i with
    | zero =>
      obtain rfl := Option.some.inj hp
      exact ⟨_, rfl, hsame⟩
    | succ i => exact ih hp

/-- The layout does not change what is uploaded. -/
theorem Section.SameBut.isUploaded {s p : Section} (h : s.SameBut p) :
    p.isUploaded = s.isUploaded := by
  rw [Section.isUploaded, Section.isUploaded, h.type]

/-- In a rebuilt image there is room for the sections with fixed addresses. -/
theorem room_of_rebuildImage (h : rebuildImage sections = .ok (image, placed)) :
    ∀ s ∈ sections, s.isFixed = true →
      s.endAddress ≤ (List.replicate (numBytesFixed sections).toNat (0 : NvU8)).length := by
  obtain ⟨-, hplace⟩ := rebuildImage_eq_ok h
  have hlength := length_lt_of_rebuildImage h
  rw [List.length_replicate]
  refine endAddress_le_numBytesFixed fun s hs hfixed => ?_
  obtain ⟨i, hi⟩ := List.mem_iff_getElem?.mp hs
  obtain ⟨p, hp, -⟩ := exists_placed (sameBut_of_placeSections hplace) hi
  obtain rfl := eq_of_placeSections hplace hi hp (Section.not_floats hfixed)
  have hend := endAddress_le_of_placeSections hplace hi hp (Bool.and_eq_true_iff.mp hfixed).1
  omega

/-- **Sections of an accepted image that are uploaded are apart**, unless both have fixed addresses.
-/
theorem apart_of_rebuildImage (h : rebuildImage sections = .ok (image, placed)) {i j : ℕ}
    {s p t q : Section} (hs : sections[i]? = some s) (hp : placed[i]? = some p)
    (ht : sections[j]? = some t) (hq : placed[j]? = some q) (hup : s.isUploaded = true)
    (huq : t.isUploaded = true) (hne : i ≠ j)
    (hfixed : s.isFixed = true → t.isFixed = true → s.Apart t) : p.Apart q := by
  obtain ⟨-, hplace⟩ := rebuildImage_eq_ok h
  have hroom := room_of_rebuildImage h
  have hfloats : ∀ u : Section, u.isUploaded = true → u.isFixed = false → u.floats = true := by
    intro u hu hu'
    rw [Section.isFixed, hu, Bool.true_and, bne_eq_false_iff_eq] at hu'
    rw [Section.floats, hu, hu']
    rfl
  cases hsf : s.isFixed with
  | false => exact apart_of_placeSections hroom hplace hs hp (hfloats s hup hsf) ht hq huq hne
  | true =>
    cases htf : t.isFixed with
    | false =>
      exact (apart_of_placeSections hroom hplace ht hq (hfloats t huq htf) hs hp hup hne.symm).symm
    | true =>
      rw [eq_of_placeSections hplace hs hp (Section.not_floats hsf),
        eq_of_placeSections hplace ht hq (Section.not_floats htf)]
      exact hfixed hsf htf

end Accepted

/-! ## The memory of a module -/

theorem rebuiltSize_of_rebuildImage {image : ElfImage} {rebuilt : List NvU8} {placed : List Section}
    (h : rebuildImage image.sections = .ok (rebuilt, placed)) :
    image.rebuiltSize = rebuilt.length := by
  rw [ElfImage.rebuiltSize, h]

/-- The size asked for is whole pages, with one behind the image. -/
theorem toNat_allocatedSize {n : ℕ} (h : n < 2 ^ 63) :
    (allocatedSize n).toNat = (n + 4095) / 4096 * 4096 + 4096 := by
  have hn : (BitVec.ofNat 64 n).toNat = n := by
    rw [BitVec.toNat_ofNat, Nat.mod_eq_of_lt (by omega)]
  have hround := toNat_roundUp (BitVec.ofNat 64 n) (0x1000 : NvU64) (by decide)
    (by rw [hn]; show n + 4096 < _; omega)
  rw [hn] at hround
  show (roundUp (BitVec.ofNat 64 n) 0x1000 + 0x1000).toNat = _
  rw [BitVec.toNat_add, hround]
  show ((n + 4096 - 1) / 4096 * 4096 + 4096) % 2 ^ 64 = _
  omega

/-- An allocation takes no more than that. -/
theorem gpuAllocSize_allocatedSize {n : ℕ} (h : n < 2 ^ 63) :
    gpuAllocSize (allocatedSize n) false = allocatedSize n := by
  have hsize := toNat_allocatedSize h
  have hround := toNat_roundUp (allocatedSize n) (gpuAllocAlignment false) (by decide)
    (by rw [hsize]; show _ + 4096 < _; omega)
  apply BitVec.eq_of_toNat_eq
  show (roundUp (allocatedSize n) (gpuAllocAlignment false)).toNat = _
  rw [hround, hsize]
  show (_ + 4096 - 1) / 4096 * 4096 = _
  omega

/-- **The memory allocated for a module** is what the heap pointer moved over. -/
theorem heap_of_ok {image : ElfImage} {m : LibreCUmodule} {h h' : Host}
    (hload : call (libreCuModuleLoadData (some image)) h = (.ok m, h')) :
    h'.vm.uvmVaddr - m.moduleVaAddr = allocatedSize image.rebuiltSize := by
  suffices hwp : wp (libreCuModuleLoadData (some image)) (fun m h' =>
      h'.vm.uvmVaddr - m.moduleVaAddr = allocatedSize image.rebuiltSize) (fun _ _ => True) h from
    (wp_of_call hload).mp hwp
  rw [libreCuModuleLoadData, wp_bind, wp_ofExcept]
  refine ⟨fun r hr => ?_, fun _ _ => trivial⟩
  have hlength := length_lt_of_rebuildImage hr
  rw [wp_bind, wp_onVm]
  refine wp_mono (wp_gpuAlloc _ false true h.vm) (fun p v hv => ?_) (fun _ _ _ => trivial)
  rw [wp_bind, wp_ofExcept]
  refine ⟨fun tables _ => ?_, fun _ _ => trivial⟩
  rw [wp_bind, wp_modify, wp_bind, wp_ofExcept]
  refine ⟨fun bytes _ => ?_, fun _ _ => trivial⟩
  rw [wp_bind, wp_modify, wp_pure]
  show v.uvmVaddr - p.1 = _
  rw [hv.2.uvmVaddr, gpuAllocSize_allocatedSize hlength, rebuiltSize_of_rebuildImage hr,
    BitVec.add_comm, BitVec.add_sub_cancel]

/-! ## Storage of an accepted image -/

/-- Sections that end below the end of memory are apart if they have no address in common. -/
theorem Section.apart_iff_disjoint {s t : Section} (hs : s.endAddress ≤ 2 ^ 64)
    (ht : t.endAddress ≤ 2 ^ 64) :
    s.Apart t ↔ Disjoint (span s.address s.size.toNat) (span t.address t.size.toNat) := by
  unfold Section.endAddress at hs ht
  have hspan : ∀ u : Section, u.address.toNat + u.size.toNat ≤ 2 ^ 64 → ∀ x : NvU64,
      x ∈ span u.address u.size.toNat ↔ u.Covers x.toNat := by
    intro u hu x
    have hadd := @mem_span_add_iff 0#64 x u.address.toNat u.size.toNat hu
    rw [BitVec.zero_add, BitVec.ofNat_toNat, BitVec.setWidth_eq, BitVec.sub_zero] at hadd
    exact hadd
  rw [Set.disjoint_left]
  constructor
  · intro hapart x hx hx'
    exact hapart x.toNat ((hspan s hs x).mp hx) ((hspan t ht x).mp hx')
  · intro hdisjoint k hk hk'
    have hlt : k < 2 ^ 64 := by
      have := hk.2
      unfold Section.endAddress at this
      omega
    have hx : (BitVec.ofNat 64 k).toNat = k := by
      rw [BitVec.toNat_ofNat, Nat.mod_eq_of_lt hlt]
    refine hdisjoint (a := BitVec.ofNat 64 k) ((hspan s hs _).mpr ?_) ((hspan t ht _).mpr ?_)
    · rw [hx]
      exact hk
    · rw [hx]
      exact hk'

/-- The module is everywhere in memory alike. -/
theorem byteVa_eq_iff (s t : Section) (moduleGpuVa : NvU64) (k l : ℕ) :
    s.byteVa moduleGpuVa k = t.byteVa moduleGpuVa l ↔
      s.address + BitVec.ofNat 64 k = t.address + BitVec.ofNat 64 l := by
  rw [Section.byteVa, Section.byteVa, BitVec.add_assoc, BitVec.add_assoc]
  constructor
  · intro heq
    have hsub := congrArg (fun x => x - moduleGpuVa) heq
    simpa [BitVec.add_comm moduleGpuVa] using hsub
  · intro heq
    rw [heq]

section Rebuilt

variable {image : ElfImage} {rebuilt : List NvU8} {placed : List Section}

/-- Sections of an accepted image that are uploaded are apart if they have no address in
common. -/
theorem apart_iff_of_rebuildImage (h : rebuildImage image.sections = .ok (rebuilt, placed))
    {i j : ℕ} {s p t q : Section} (hs : image.sections[i]? = some s) (hp : placed[i]? = some p)
    (ht : image.sections[j]? = some t) (hq : placed[j]? = some q) (hsu : s.isUploaded = true)
    (htu : t.isUploaded = true) :
    p.Apart q ↔ Disjoint (span p.address p.size.toNat) (span q.address q.size.toNat) := by
  have hplace := (rebuildImage_eq_ok h).2
  have hlength := length_lt_of_rebuildImage h
  have hpend := endAddress_le_of_placeSections hplace hs hp hsu
  have hqend := endAddress_le_of_placeSections hplace ht hq htu
  exact Section.apart_iff_disjoint (by omega) (by omega)

/-- A symbol inside a section that is uploaded is inside the memory of the module. -/
theorem symbol_lt_of_rebuildImage (h : rebuildImage image.sections = .ok (rebuilt, placed)) {i : ℕ}
    {p : Section} (hp : placed[i]? = some p) (huploaded : p.isUploaded = true) {value : NvU64}
    (hvalue : value.toNat ≤ p.size.toNat) :
    (p.address + value).toNat < (allocatedSize image.rebuiltSize).toNat := by
  obtain ⟨s, hs, hsame⟩ := exists_section (sameBut_of_rebuildImage h) hp
  have hend := endAddress_le_of_placeSections (rebuildImage_eq_ok h).2 hs hp
    (hsame.isUploaded.symm.trans huploaded)
  unfold Section.endAddress at hend
  have hlength := length_lt_of_rebuildImage h
  rw [rebuiltSize_of_rebuildImage h, toNat_allocatedSize hlength, BitVec.toNat_add]
  omega

/-- A section with a fixed address is placed there. -/
theorem placed_fixed (h : rebuildImage image.sections = .ok (rebuilt, placed)) {i : ℕ} {s : Section}
    (hs : image.sections[i]? = some s) (hfixed : s.isFixed = true) : placed[i]? = some s := by
  obtain ⟨p, hp, -⟩ := exists_placed (sameBut_of_rebuildImage h) hs
  rwa [eq_of_placeSections (rebuildImage_eq_ok h).2 hs hp (Section.not_floats hfixed)] at hp

/-- Sections that have storage of their own have no address in common. -/
theorem ElfImage.OwnStorage.disjoint {moduleGpuVa size : NvU64}
    (hown : image.OwnStorage moduleGpuVa size) {i j : ℕ} {s t : Section}
    (hs : image.placed[i]? = some s) (ht : image.placed[j]? = some t)
    (hi : Referred image.placed i) (hj : Referred image.placed j ∨ t.isUploaded = true)
    (hne : i ≠ j) : Disjoint (span s.address s.size.toNat) (span t.address t.size.toNat) := by
  rw [disjoint_span_iff]
  intro k hk l hl heq
  exact hne (hown.apart i j s t hs ht hi hj k hk l hl ((byteVa_eq_iff ..).mpr heq)).1

/-- Sections of a sound image have no address in common. -/
theorem ElfImage.StorageSound.disjoint (hsound : image.StorageSound)
    (h : rebuildImage image.sections = .ok (rebuilt, placed)) {i j : ℕ} {s t : Section}
    (hs : image.placed[i]? = some s) (ht : image.placed[j]? = some t)
    (hi : Referred image.placed i) (hj : Referred image.placed j ∨ t.isUploaded = true)
    (hne : i ≠ j) : Disjoint (span s.address s.size.toNat) (span t.address t.size.toNat) := by
  cases hsu : s.isUploaded with
  | false => exact hsound.other i j s t hs ht hi hsu hj hne
  | true =>
    cases htu : t.isUploaded with
    | false =>
      -- the condition names the section that is not uploaded first
      have hj' : Referred image.placed j := by
        rcases hj with hj | hj
        · exact hj
        · exact absurd (htu.symm.trans hj) (by decide)
      exact (hsound.other j i t s ht hs hj' htu (.inr hsu) hne.symm).symm
    | true =>
      rw [placed_of_rebuildImage h] at hs ht
      obtain ⟨s₀, hs₀, hsame⟩ := exists_section (sameBut_of_rebuildImage h) hs
      obtain ⟨t₀, ht₀, hsame'⟩ := exists_section (sameBut_of_rebuildImage h) ht
      have hsu₀ := hsame.isUploaded.symm.trans hsu
      have htu₀ := hsame'.isUploaded.symm.trans htu
      rw [← apart_iff_of_rebuildImage h hs₀ hs ht₀ ht hsu₀ htu₀]
      exact apart_of_rebuildImage h hs₀ hs ht₀ ht hsu₀ htu₀ hne fun hsf htf =>
        hsound.fixed i j s₀ t₀ hs₀ ht₀ hi hsf htf hne

/-- A byte of a section is at its address only. -/
theorem byte_eq_of_address_eq (s : Section) {k l : ℕ} (hk : k < s.size.toNat) (hl : l < s.size.toNat)
    (heq : s.address + BitVec.ofNat 64 k = s.address + BitVec.ofNat 64 l) : k = l := by
  have hsize := s.size.isLt
  have hbytes := congrArg (fun x : NvU64 => (x - s.address).toNat) heq
  rwa [toNat_add_sub_self _ (by omega), toNat_add_sub_self _ (by omega)] at hbytes

/-- Storage of their own needs the condition. -/
theorem ElfImage.OwnStorage.sound {moduleGpuVa : NvU64}
    (hown : image.OwnStorage moduleGpuVa (allocatedSize image.rebuiltSize))
    (h : rebuildImage image.sections = .ok (rebuilt, placed)) : image.StorageSound := by
  refine ⟨fun a ha sym s hrefers => .inr ?_, fun i j s t hs ht hi hsf htf hne => ?_,
    fun i j s t hs ht hi _ hj hne => hown.disjoint hs ht hi hj hne⟩
  · have hinside := hown.inside a ha sym s hrefers _ hrefers.symbolAddress_eq
    rwa [mem_span, BitVec.add_comm, BitVec.add_sub_cancel] at hinside
  · have hsu := (Bool.and_eq_true_iff.mp hsf).1
    have htu := (Bool.and_eq_true_iff.mp htf).1
    have hp := placed_fixed h hs hsf
    have hq := placed_fixed h ht htf
    rw [apart_iff_of_rebuildImage h hs hp ht hq hsu htu]
    rw [← placed_of_rebuildImage h] at hp hq
    exact hown.disjoint hp hq hi (.inr htu) hne

/-- The condition gives them storage of their own. -/
theorem ElfImage.StorageSound.own (hsound : image.StorageSound)
    (h : rebuildImage image.sections = .ok (rebuilt, placed)) (moduleGpuVa : NvU64) :
    image.OwnStorage moduleGpuVa (allocatedSize image.rebuiltSize) := by
  refine ⟨fun a ha sym s hrefers symbol hsymbol => ?_,
    fun i j s t hs ht hi hj k hk l hl heq => ?_⟩
  · obtain rfl := Option.some.inj (hrefers.symbolAddress_eq.symm.trans hsymbol)
    rw [mem_span, BitVec.add_comm, BitVec.add_sub_cancel]
    rcases hsound.inside a ha sym s hrefers with ⟨huploaded, hvalue⟩ | hinside
    · have hs := hrefers.definedIn
      rw [placed_of_rebuildImage h] at hs
      exact symbol_lt_of_rebuildImage h hs huploaded hvalue
    · exact hinside
  · rw [byteVa_eq_iff] at heq
    by_cases hij : i = j
    · subst hij
      obtain rfl := Option.some.inj (hs.symm.trans ht)
      exact ⟨rfl, byte_eq_of_address_eq s hk hl heq⟩
    · have hdisjoint := hsound.disjoint h hs ht hi hj hij
      exact absurd heq (disjoint_span_iff.mp hdisjoint k hk l hl)

end Rebuilt

/-- **Symbols have storage of their own, if and only if** each section that relocations refer to is
uploaded without meeting another one of a fixed address, or has a free address in its header, and
each symbol is inside its section or at least in the memory of the module. -/
theorem own_storage_iff {image : ElfImage} {m : LibreCUmodule} {h h' : Host}
    (hload : call (libreCuModuleLoadData (some image)) h = (.ok m, h')) :
    image.OwnStorage m.moduleVaAddr (h'.vm.uvmVaddr - m.moduleVaAddr) ↔ image.StorageSound := by
  obtain ⟨rebuilt, placed, tables, patched, hrebuild, -, -, -⟩ := (loaded_of_ok hload).some
  rw [heap_of_ok hload]
  constructor
  · intro hown
    exact hown.sound hrebuild
  · intro hsound
    exact hsound.own hrebuild m.moduleVaAddr

/-! ## Variables of a kernel -/

/-- An image with 16 bytes of code, whose second half is the address of a variable of four bytes in a
section of some type. -/
def variableImage (type : NvU32) : ElfImage where
  sectionEntrySize := 64
  sections := [{ name := ".text.k".toList, type := shtProgbits, size := 16 },
    { name := ".nv.global".toList, type := type, size := 4 },
    { name := ".symtab".toList, type := shtSymtab, symbols := [⟨"counter".toList, 0, 1⟩] },
    { name := ".rel.text.k".toList, type := shtRel, relocs := [some ⟨8, 0, 0x2, 0⟩] }]

/-- Load that image. -/
def loadVariable (type : NvU32) : Except Failure LibreCUmodule × Host :=
  call (libreCuModuleLoadData (some (variableImage type))) loadHost

/-- A variable with an initial value has storage of its own. -/
theorem own_storage_iff_sample : (variableImage shtProgbits).OwnStorage uvmHeapStart
    ((loadVariable shtProgbits).2.vm.uvmVaddr - uvmHeapStart) := by
  have hok : (loadVariable shtProgbits).1 = .ok ⟨[relocKernel], uvmHeapStart⟩ := by decide +kernel
  have hload : loadVariable shtProgbits =
      (.ok ⟨[relocKernel], uvmHeapStart⟩, (loadVariable shtProgbits).2) := by
    rw [← hok]
  have hsymbols : ∀ a ∈ relocSites (variableImage shtProgbits).placed,
      ∀ sym ∈ (symbolsOf (variableImage shtProgbits).placed)[a.2.symbol.toNat]?,
        ∀ s ∈ (variableImage shtProgbits).placed[sym.sectionIndex.toNat]?,
          s.isUploaded = true ∧ sym.value.toNat ≤ s.size.toNat := by
    decide +kernel
  have hfloat : ∀ s ∈ (variableImage shtProgbits).sections, s.isFixed = false := by decide
  refine (own_storage_iff hload).mpr ⟨fun a ha sym s hrefers => .inl ?_, ?_, ?_⟩
  · exact hsymbols a ha sym hrefers.symbol s hrefers.definedIn
  · intro i j s t hs _ _ hfixed
    exact absurd hfixed (by rw [hfloat s (List.mem_of_getElem? hs)]; decide)
  · rintro i j s t hs - ⟨a, ha, sym, u, hrefers, rfl⟩ hsu
    have huploaded := (hsymbols a ha sym hrefers.symbol s hs).1
    exact absurd (hsu.symm.trans huploaded) (by decide)

/-- **A variable without initial value aliases the code**: its section is not uploaded, its address
stays 0, and that is where the code is. -/
theorem variable_aliases_code :
    (loadVariable shtNobits).1 = .ok ⟨[relocKernel], uvmHeapStart⟩ ∧
      ¬ (variableImage shtNobits).OwnStorage uvmHeapStart
        ((loadVariable shtNobits).2.vm.uvmVaddr - uvmHeapStart) := by
  refine ⟨by decide +kernel, fun hown => ?_⟩
  have hreferred : Referred (variableImage shtNobits).placed 1 := by decide +kernel
  have hcode : ∃ t ∈ (variableImage shtNobits).placed[0]?,
      t.address = 0 ∧ t.isUploaded = true ∧ t.size = 16 := by decide +kernel
  have hvariable : ∃ s ∈ (variableImage shtNobits).placed[1]?, s.address = 0 ∧ s.size = 4 := by
    decide +kernel
  obtain ⟨t, ht, htaddress, huploaded, htsize⟩ := hcode
  obtain ⟨s, hs, hsaddress, hssize⟩ := hvariable
  have hsame := hown.apart 1 0 s t hs ht hreferred (.inr huploaded) 0 (by rw [hssize]; decide) 0
    (by rw [htsize]; decide) (by rw [byteVa_eq_iff, hsaddress, htaddress])
  exact absurd hsame.1 (by decide)

end LibreCuda
