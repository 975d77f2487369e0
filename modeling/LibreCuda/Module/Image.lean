import LibreCuda.Driver.State
import LibreCuda.Foundation.Bytes

/-! # Images and their layout

An ELF image as the reader of `libreCuModuleLoadData` reports it: the accessors the loader uses are
fields, and whatever the reader makes of a malformed file is a value of them. The loader rebuilds
the image from its `PROGBITS` sections and gives the relocatable ones their addresses.

* **`rebuildImage`** is that layout. -/

namespace LibreCuda

/-- A name in the image (`std::string`). -/
abbrev Name : Type := List Char

/-- One relocation, as `relocation_section_accessor::get_entry` reports it. -/
structure RelocEntry where
  offset : NvU64
  symbol : NvU32
  type : NvU32
  addend : NvU64 := 0

/-- One symbol, as `symbol_section_accessor::get_symbol` reports it. -/
structure ElfSymbol where
  name : Name
  value : NvU64
  sectionIndex : NvU16

/-- One section. `get_data()[i]` is `data i`. -/
structure Section where
  name : Name
  type : NvU32
  address : NvU64 := 0
  size : NvU64 := 0
  addrAlign : NvU64 := 1
  info : NvU32 := 0
  data : ℕ → NvU8 := fun _ => 0
  /-- The entries of a relocation section; `none` is one that cannot be read. -/
  relocs : List (Option RelocEntry) := []
  /-- The entries of a symbol table. -/
  symbols : List ElfSymbol := []

/-- A parsed image. -/
structure ElfImage where
  /-- `get_section_entry_size()`: the size of an entry of the section header table. -/
  sectionEntrySize : NvU16
  sections : List Section

def shtProgbits : NvU32 := 1
def shtSymtab : NvU32 := 2
def shtRela : NvU32 := 4
def shtNobits : NvU32 := 8
def shtRel : NvU32 := 9

/-- Bytes `0 … size - 1` of a section. -/
def Section.bytes (s : Section) : List NvU8 := (List.range s.size.toNat).map s.data

/-! ## Layout -/

/-- The section is copied to the image. -/
def Section.isUploaded (s : Section) : Bool := s.type == shtProgbits

/-- The section is copied to an address of its own. -/
def Section.isFixed (s : Section) : Bool := s.isUploaded && s.address != 0

/-- `num_bytes_fixed`: the end of the last section with a fixed address. The sums wrap. -/
def numBytesFixed (sections : List Section) : NvU64 :=
  sections.foldl (fun n s => if s.isFixed then maxOf n (s.address + s.size) else n) 0

/-- `std::vector<uint8_t>::resize`, which throws beyond `max_size()`. -/
def resize (image : List NvU8) (size : ℕ) : Except Failure (List NvU8) :=
  if size < 2 ^ 63 then .ok (image.take size ++ List.replicate (size - image.length) 0)
  else .error .exception

/-- Overwrite a vector from an index on; writing past its end is undefined. -/
def overwrite (image : List NvU8) (idx : ℕ) (bytes : List NvU8) : Except Failure (List NvU8) :=
  if idx + bytes.length ≤ image.length then
    .ok (image.take idx ++ bytes ++ image.drop (idx + bytes.length))
  else .error .crash

/-- `std::vector<uint8_t>::push_back` of all bytes, which throws beyond `max_size()`. -/
def pushBack (image bytes : List NvU8) : Except Failure (List NvU8) :=
  if image.length + bytes.length < 2 ^ 63 then .ok (image ++ bytes) else .error .exception

/-- `num_padding_bytes` behind `n` bytes. -/
def numPaddingBytes (addrAlign : NvU64) (n : ℕ) : NvU64 :=
  let align := maxOf (addrAlign.setWidth 32) 128
  (align.setWidth 64 - BitVec.ofNat 64 n) % align.setWidth 64

/-- One round of the loop that copies the sections: a section with a fixed address is copied there,
another one behind what there is, and gets the address of its copy. -/
def placeSection (image : List NvU8) (s : Section) : Except Failure (List NvU8 × Section) :=
  if !s.isUploaded then .ok (image, s)
  else if s.address ≠ 0 then do
    let image ← overwrite image s.address.toNat s.bytes
    .ok (image, s)
  else do
    let image ← resize image (image.length + (numPaddingBytes s.addrAlign image.length).toNat)
    let image ← pushBack image s.bytes
    .ok (image, { s with address := BitVec.ofNat 64 image.length - s.size })

/-- The loop that copies the sections. -/
def placeSections (image : List NvU8) : List Section → Except Failure (List NvU8 × List Section)
  | [] => .ok (image, [])
  | s :: rest => do
    let (image, s) ← placeSection image s
    let (image, rest) ← placeSections image rest
    .ok (image, s :: rest)

/-- The rebuilt image, and the sections with their addresses in it. -/
def rebuildImage (sections : List Section) : Except Failure (List NvU8 × List Section) := do
  let image ← resize [] (numBytesFixed sections).toNat
  placeSections image sections

/-- `allocated_size`: whole pages, and one more. -/
def allocatedSize (rebuiltImageSize : ℕ) : NvU64 :=
  ceilDiv (BitVec.ofNat 64 rebuiltImageSize) 0x1000 * 0x1000 + 0x1000

/-! ## What the layout leaves alone -/

/-- A section as it was, but for its address. -/
structure Section.SameBut (s s' : Section) : Prop where
  name : s'.name = s.name
  type : s'.type = s.type
  size : s'.size = s.size
  info : s'.info = s.info
  data : s'.data = s.data
  relocs : s'.relocs = s.relocs
  symbols : s'.symbols = s.symbols

theorem Section.SameBut.refl (s : Section) : s.SameBut s := ⟨rfl, rfl, rfl, rfl, rfl, rfl, rfl⟩

/-- What one round of the loop does: nothing, a copy to a fixed address, or padding and a copy
behind it. -/
inductive SectionPlaced (image : List NvU8) (s : Section) : List NvU8 → Section → Prop
  | skipped (uploaded : s.isUploaded = false) : SectionPlaced image s image s
  | fixed (image' : List NvU8) (fixed : s.isFixed = true)
    (copied : overwrite image s.address.toNat s.bytes = .ok image') : SectionPlaced image s image' s
  | appended (uploaded : s.isUploaded = true) (address : s.address = 0)
    (fits : image.length + (numPaddingBytes s.addrAlign image.length).toNat + s.size.toNat < 2 ^ 63) :
    SectionPlaced image s
      (image ++ List.replicate (numPaddingBytes s.addrAlign image.length).toNat 0 ++ s.bytes)
      { s with address :=
          BitVec.ofNat 64 (image.length + (numPaddingBytes s.addrAlign image.length).toNat) }

@[simp] theorem Section.length_bytes (s : Section) : s.bytes.length = s.size.toNat := by
  simp [Section.bytes]

theorem sectionPlaced_of_ok {image image' : List NvU8} {s s' : Section}
    (h : placeSection image s = .ok (image', s')) : SectionPlaced image s image' s' := by
  unfold placeSection at h
  split_ifs at h with huploaded haddress
  · cases h
    exact .skipped (by simpa using huploaded)
  · cases hover : overwrite image s.address.toNat s.bytes with
    | error e => simp [hover, bind, Except.bind] at h
    | ok image₁ =>
      simp only [hover, bind, Except.bind, Except.ok.injEq, Prod.mk.injEq] at h
      obtain ⟨rfl, rfl⟩ := h
      have hnonzero : (s.address != 0) = true := bne_iff_ne.mpr haddress
      refine .fixed _ ?_ hover
      rw [Section.isFixed, hnonzero, Bool.and_true]
      simpa using huploaded
  · obtain ⟨pad, hpad⟩ : ∃ pad, pad = (numPaddingBytes s.addrAlign image.length).toNat := ⟨_, rfl⟩
    rw [← hpad] at h
    have htake : image.take (image.length + pad) = image := List.take_of_length_le (by omega)
    rw [resize, htake, Nat.add_sub_cancel_left] at h
    split_ifs at h with hsize
    · simp only [bind, Except.bind, pushBack, List.length_append, List.length_replicate,
        Section.length_bytes] at h
      split_ifs at h with hfits
      · simp only [Except.ok.injEq, Prod.mk.injEq] at h
        obtain ⟨rfl, rfl⟩ := h
        have haddress' : BitVec.ofNat 64 (image.length + pad + s.size.toNat) - s.size =
            BitVec.ofNat 64 (image.length + pad) := by
          rw [BitVec.ofNat_add, BitVec.ofNat_toNat, BitVec.setWidth_eq, BitVec.add_sub_cancel]
        simp only [List.length_append, List.length_replicate, Section.length_bytes]
        rw [haddress', hpad]
        refine .appended (by simpa using huploaded) (by simpa using haddress) ?_
        rw [← hpad]
        exact hfits
    · cases h

theorem sameBut_of_placeSection {image image' : List NvU8} {s s' : Section}
    (h : placeSection image s = .ok (image', s')) : s.SameBut s' := by
  cases sectionPlaced_of_ok h with
  | skipped => exact .refl s
  | fixed => exact .refl s
  | appended => exact ⟨rfl, rfl, rfl, rfl, rfl, rfl, rfl⟩

/-- The first section was placed, and the others behind it. -/
theorem placeSections_cons_eq_ok {image image' : List NvU8} {s : Section}
    {rest sections' : List Section}
    (h : placeSections image (s :: rest) = .ok (image', sections')) :
    ∃ image₁ s' rest', placeSection image s = .ok (image₁, s') ∧
      placeSections image₁ rest = .ok (image', rest') ∧ sections' = s' :: rest' := by
  rw [placeSections] at h
  cases hplace : placeSection image s with
  | error e => simp [hplace, bind, Except.bind] at h
  | ok p =>
    obtain ⟨image₁, s'⟩ := p
    cases hrest : placeSections image₁ rest with
    | error e => simp [hplace, hrest, bind, Except.bind] at h
    | ok q =>
      obtain ⟨image₂, rest'⟩ := q
      simp only [hplace, hrest, bind, Except.bind, Except.ok.injEq, Prod.mk.injEq] at h
      obtain ⟨rfl, rfl⟩ := h
      exact ⟨image₁, s', rest', rfl, hrest, rfl⟩

/-- **The layout changes nothing of the sections but their addresses.** -/
theorem sameBut_of_placeSections {image image' : List NvU8} {sections sections' : List Section}
    (h : placeSections image sections = .ok (image', sections')) :
    List.Forall₂ Section.SameBut sections sections' := by
  induction sections generalizing image image' sections' with
  | nil =>
    cases h
    exact .nil
  | cons s rest ih =>
    obtain ⟨image₁, s', rest', hplace, hrest, rfl⟩ := placeSections_cons_eq_ok h
    exact .cons (sameBut_of_placeSection hplace) (ih hrest)

/-- The layout keeps everything that does not depend on the addresses. -/
theorem map_of_sameBut {α : Type} {g : Section → α}
    (hg : ∀ {s placed : Section}, s.SameBut placed → g placed = g s)
    {sections placed : List Section} (h : List.Forall₂ Section.SameBut sections placed) :
    placed.map g = sections.map g := by
  induction h with
  | nil => rfl
  | cons hs _ ih => rw [List.map_cons, List.map_cons, hg hs, ih]

/-- The layout keeps the names. -/
theorem names_of_sameBut {sections placed : List Section}
    (h : List.Forall₂ Section.SameBut sections placed) :
    placed.map Section.name = sections.map Section.name :=
  map_of_sameBut (fun hs => hs.name) h

/-- The sections are placed in an image with room for those with fixed addresses. -/
theorem rebuildImage_eq_ok {sections sections' : List Section} {image : List NvU8}
    (h : rebuildImage sections = .ok (image, sections')) :
    (numBytesFixed sections).toNat < 2 ^ 63 ∧
      placeSections (List.replicate (numBytesFixed sections).toNat 0) sections =
        .ok (image, sections') := by
  rw [rebuildImage, resize, List.take_nil, List.nil_append, List.length_nil, Nat.sub_zero] at h
  split_ifs at h with hsize
  · exact ⟨hsize, h⟩
  · cases h

theorem sameBut_of_rebuildImage {sections sections' : List Section} {image : List NvU8}
    (h : rebuildImage sections = .ok (image, sections')) :
    List.Forall₂ Section.SameBut sections sections' :=
  sameBut_of_placeSections (rebuildImage_eq_ok h).2

/-- The sections at their addresses in the rebuilt image. -/
def ElfImage.placed (image : ElfImage) : List Section :=
  match rebuildImage image.sections with
  | .ok (_, placed) => placed
  | .error _ => image.sections

theorem placed_of_rebuildImage {image : ElfImage} {rebuilt : List NvU8} {placed : List Section}
    (h : rebuildImage image.sections = .ok (rebuilt, placed)) : image.placed = placed := by
  rw [ElfImage.placed, h]

end LibreCuda
