import LibreCuda.Foundation.Patches
import LibreCuda.Module.Layout
import LibreCuda.Module.SharedMemory

/-! # Relocations

A relocation is a patch of the rebuilt image. The loader checks where a patch starts, and applies it
without a look at where it ends.

* **`applyRelocs_eq_ok`**: the loop is `Patch.applyAll`.
* **`relocation_writes_inside_iff`**: when no patch reaches behind the image.
* **`relocs_of_sites`**: what the loader makes of the entries of the image.
* **`relocations_applied_iff`**: when all of them are applied. -/

namespace LibreCuda

open Bytes Exec

/-! ## Patches -/

/-- How far behind its location a type of relocation writes, and which bytes of the value. -/
def relocShape (type : NvU32) : Option (ℕ × (NvU64 → List NvU8)) :=
  if type = 0x2 then some (0, bytesOf64)
  else if type = 0x38 then some (4, fun value => ofWord (lo32 value))
  else if type = 0x39 then some (4, fun value => ofWord (hi32 value))
  else none

/-- The patch of a value at a location; a type that the loader does not know has an empty one. -/
def relocPatch (location : ℕ) (type : NvU32) (value : NvU64) : Patch NvU8 :=
  match relocShape type with
  | none => ⟨location, []⟩
  | some (displacement, bytes) => ⟨location + displacement, bytes value⟩

/-- The patch that the loader applies. -/
def RelocInfo.patch (r : RelocInfo) (moduleGpuVa : NvU64) : Patch NvU8 :=
  relocPatch r.applyImageOffset.toNat r.typ (moduleGpuVa + r.relSymOffset)

/-- The types of relocations that the loader knows. -/
def relocTypes : List NvU32 := [0x2, 0x38, 0x39]

theorem mem_relocTypes {type : NvU32} :
    type ∈ relocTypes ↔ type = 0x2 ∨ type = 0x38 ∨ type = 0x39 := by
  rw [relocTypes, List.mem_cons, List.mem_cons, List.mem_singleton]

/-- All known types write up to the same byte. -/
theorem stop_relocPatch {type : NvU32} (h : type ∈ relocTypes) (location : ℕ) (value : NvU64) :
    (relocPatch location type value).stop = location + 8 := by
  rcases mem_relocTypes.mp h with rfl | rfl | rfl
  · rfl
  · rfl
  · rfl

theorem relocShape_eq_none {type : NvU32} (h : type ∉ relocTypes) : relocShape type = none := by
  rw [mem_relocTypes, not_or, not_or] at h
  rw [relocShape, if_neg h.1, if_neg h.2.1, if_neg h.2.2]

theorem relocPatch_unknown {type : NvU32} (h : type ∉ relocTypes) (location : ℕ) (value : NvU64) :
    relocPatch location type value = ⟨location, []⟩ := by
  rw [relocPatch, relocShape_eq_none h]

/-- An empty patch changes nothing. -/
theorem overwrite_nil {image : List NvU8} {idx : ℕ} (h : idx ≤ image.length) :
    overwrite image idx [] = .ok image := by
  rw [overwrite, List.length_nil, Nat.add_zero, if_pos h, List.append_nil, List.take_append_drop]

variable {moduleGpuVa : NvU64} {image patched : List NvU8}

/-- **A round of the loop** checks where the patch starts, and applies it. -/
theorem applyReloc_eq (r : RelocInfo) :
    applyReloc moduleGpuVa image r =
      if image.length ≤ r.applyImageOffset.toNat then .error (.status .invalidImage)
      else if (r.patch moduleGpuVa).stop ≤ image.length then
        .ok ((r.patch moduleGpuVa).apply image)
      else .error .crash := by
  have hover : ∀ p : Patch NvU8, overwrite image p.start p.block =
      if p.stop ≤ image.length then .ok (p.apply image) else .error .crash := fun _ => rfl
  rw [← hover]
  unfold applyReloc
  split_ifs with hoff h2 h38 h39
  · rfl
  · rw [RelocInfo.patch, h2]
    rfl
  · rw [RelocInfo.patch, h38]
    rfl
  · rw [RelocInfo.patch, h39]
    rfl
  · -- the switch has no default case: an unknown type writes nothing
    have hunknown : r.typ ∉ relocTypes := by
      rw [mem_relocTypes]
      rintro (h | h | h)
      · exact h2 h
      · exact h38 h
      · exact h39 h
    rw [RelocInfo.patch, relocPatch_unknown hunknown]
    exact (overwrite_nil (Nat.le_of_lt (Nat.not_le.mp hoff))).symm

/-- The loop, with one more relocation in front. -/
theorem applyRelocs_cons (r : RelocInfo) (relocs : List RelocInfo) :
    applyRelocs moduleGpuVa image (r :: relocs) =
      (applyReloc moduleGpuVa image r).bind fun image => applyRelocs moduleGpuVa image relocs := by
  rw [applyRelocs, List.foldlM_cons]
  rfl

/-- **The loop applies all patches** if they start in the image and end there. -/
theorem applyRelocs_eq_ok {relocs : List RelocInfo}
    (h : applyRelocs moduleGpuVa image relocs = .ok patched) :
    (∀ r ∈ relocs, r.applyImageOffset.toNat < image.length ∧
      (r.patch moduleGpuVa).stop ≤ image.length) ∧
    patched = Patch.applyAll image (relocs.map fun r => r.patch moduleGpuVa) := by
  induction relocs generalizing image with
  | nil =>
    cases h
    exact ⟨fun r hr => absurd hr List.not_mem_nil, rfl⟩
  | cons r relocs ih =>
    rw [applyRelocs_cons, applyReloc_eq] at h
    split_ifs at h with hoff hfits
    · cases h
    · obtain ⟨hall, rfl⟩ := ih h
      rw [Patch.length_apply hfits] at hall
      refine ⟨fun r' hr' => ?_, rfl⟩
      rcases List.mem_cons.mp hr' with rfl | hr'
      · exact ⟨by omega, hfits⟩
      · exact hall r' hr'
    · cases h

/-- **No relocation writes outside the image, if and only if** of those that the loop comes to,
which are those in front of the first one that starts outside, every one of a type that the loader
knows has eight bytes of the image behind its location. -/
theorem relocation_writes_inside_iff (moduleGpuVa : NvU64) (image : List NvU8)
    (relocs : List RelocInfo) :
    (applyRelocs moduleGpuVa image relocs = .error (.status .invalidImage) ∨
      ∃ patched, applyRelocs moduleGpuVa image relocs = .ok patched) ↔
    ∀ r ∈ relocs.takeWhile fun r => decide (r.applyImageOffset.toNat < image.length),
      r.typ ∈ relocTypes → r.applyImageOffset.toNat + 8 ≤ image.length := by
  induction relocs generalizing image with
  | nil => exact ⟨fun _ r hr => absurd hr List.not_mem_nil, fun _ => Or.inr ⟨image, rfl⟩⟩
  | cons r relocs ih =>
    rw [applyRelocs_cons, applyReloc_eq]
    by_cases hoff : image.length ≤ r.applyImageOffset.toNat
    · rw [if_pos hoff, List.takeWhile_cons_of_neg (by simpa using hoff)]
      exact ⟨fun _ r hr => absurd hr List.not_mem_nil, fun _ => Or.inl rfl⟩
    · rw [if_neg hoff, List.takeWhile_cons_of_pos (by simpa using hoff)]
      by_cases hfits : (r.patch moduleGpuVa).stop ≤ image.length
      · rw [if_pos hfits]
        have hrest := ih ((r.patch moduleGpuVa).apply image)
        rw [Patch.length_apply hfits] at hrest
        refine hrest.trans ⟨fun hall r' hr' htype => ?_, fun hall r' hr' => ?_⟩
        · rcases List.mem_cons.mp hr' with rfl | hr'
          · rwa [RelocInfo.patch, stop_relocPatch htype] at hfits
          · exact hall r' hr' htype
        · exact hall r' (List.mem_cons_of_mem r hr')
      · rw [if_neg hfits]
        refine ⟨fun hend => ?_, fun hall => ?_⟩
        · rcases hend with hend | ⟨_, hend⟩
          · cases hend
          · cases hend
        · -- a patch that does not fit is one of a known type, an empty one always fits
          by_cases htype : r.typ ∈ relocTypes
          · refine absurd (hall r List.mem_cons_self htype) fun hle => hfits ?_
            rw [RelocInfo.patch, stop_relocPatch htype]
            exact hle
          · rw [RelocInfo.patch, relocPatch_unknown htype] at hfits
            exact absurd (Nat.le_of_not_le hoff) hfits

/-- An image with 12 bytes of code and a relocation in the last four. -/
def lastWordImage (type : NvU32) : ElfImage where
  sectionEntrySize := 64
  sections := [{ name := ".text.k".toList, type := shtProgbits, size := 12 },
    { name := ".symtab".toList, type := shtSymtab, symbols := [⟨"k".toList, 0, 0⟩] },
    { name := ".rel.text.k".toList, type := shtRel, relocs := [some ⟨8, 0, type, 0⟩] }]

/-- **A patch at the end writes behind the image**, for every type the loader knows. -/
theorem last_patch_outside :
    applyRelocs uvmHeapStart (List.replicate 12 0) [⟨8, 0, 0x2⟩] = .error .crash ∧
      (call (libreCuModuleLoadData (some (lastWordImage 0x2))) loadHost).1 = .error .crash ∧
      (call (libreCuModuleLoadData (some (lastWordImage 0x38))) loadHost).1 = .error .crash ∧
      (call (libreCuModuleLoadData (some (lastWordImage 0x39))) loadHost).1 = .error .crash :=
  ⟨by decide +kernel, by decide +kernel, by decide +kernel, by decide +kernel⟩

/-! ## The entries of an image -/

/-- The entries of the relocation sections, in the order of the loop, each with its section. -/
def relocSites (sections : List Section) : List (Section × RelocEntry) :=
  sections.flatMap fun s =>
    if s.type = shtRel ∨ s.type = shtRela then (s.relocs.filterMap id).map fun e => (s, e) else []

/-- The section that a relocation section is for: the first one with its name. -/
def Section.relocSection (s : Section) (sections : List Section) : Option Section :=
  match relocTarget s with
  | .ok name => sections.find? fun t => t.name == name
  | .error _ => none

/-- The address of a symbol in the image. -/
def symbolAddress (sections : List Section) (e : RelocEntry) : Option NvU64 := do
  let sym ← (symbolsOf sections)[e.symbol.toNat]?
  let s ← sections[sym.sectionIndex.toNat]?
  pure (s.address + sym.value)

/-- The addend of an entry; only those of `SHT_RELA` have one. -/
def Section.addend (s : Section) (e : RelocEntry) : NvU64 := if s.type = shtRela then e.addend else 0

/-- Where in the image an entry is to be applied. -/
def Section.location (t : Section) (e : RelocEntry) : ℕ := (t.address + e.offset).toNat

/-- An entry refers to a section of the rebuilt image that it is inside of, by a type that the
loader knows, and to a symbol with an address. -/
structure RelocResolves (sections : List Section) (s : Section) (e : RelocEntry) (t : Section)
    (symbol : NvU64) : Prop where
  target : s.relocSection sections = some t
  uploaded : t.isUploaded = true
  inside : e.offset.toNat + 8 ≤ t.size.toNat
  known : e.type ∈ relocTypes
  symbol : symbolAddress sections e = some symbol

/-- An entry is applied: it resolves, and the module in memory has the address of the symbol and the
addend at its location. -/
def RelocApplied (sections : List Section) (moduleGpuVa : NvU64) (mem : Memory)
    (a : Section × RelocEntry) : Prop :=
  ∃ t symbol, RelocResolves sections a.1 a.2 t symbol ∧
    let p := relocPatch (t.location a.2) a.2.type (moduleGpuVa + symbol + a.1.addend a.2)
    HoldsAt (load mem moduleGpuVa) p.start p.block

/-- An entry resolves, and its addend changes nothing of what its type patches. -/
def RelocSupported (sections : List Section) (moduleGpuVa : NvU64) (a : Section × RelocEntry) :
    Prop :=
  ∃ t symbol, RelocResolves sections a.1 a.2 t symbol ∧
    relocPatch (t.location a.2) a.2.type (moduleGpuVa + symbol + a.1.addend a.2) =
      relocPatch (t.location a.2) a.2.type (moduleGpuVa + symbol)

/-- No two entries patch a byte in common. -/
def RelocsApart (sections : List Section) : Prop :=
  (relocSites sections).Pairwise fun a b => ∀ t u, a.1.relocSection sections = some t →
    b.1.relocSection sections = some u →
    (relocPatch (t.location a.2) a.2.type 0).Apart (relocPatch (u.location b.2) b.2.type 0)

/-- What the loader makes of an entry. -/
def RelocRead (sections : List Section) (a : Section × RelocEntry) (r : RelocInfo) : Prop :=
  ∃ name symbol, relocTarget a.1 = .ok name ∧ symbolAddress sections a.2 = some symbol ∧
    r = ⟨sectionAddress sections name + a.2.offset, symbol, a.2.type⟩

/-- An entry that the loader accepts can be read, and its symbol has an address. -/
theorem relocInfo_eq_ok {sections : List Section} {target : NvU64} {e : Option RelocEntry}
    {r : RelocInfo} (h : relocInfo sections target e = .ok r) :
    ∃ entry symbol, e = some entry ∧ symbolAddress sections entry = some symbol ∧
      r = ⟨target + entry.offset, symbol, entry.type⟩ := by
  cases e with
  | none => cases h
  | some entry =>
    rw [relocInfo] at h
    cases hsym : (symbolsOf sections)[entry.symbol.toNat]? with
    | none => simp [hsym] at h
    | some sym =>
      cases hs : sections[sym.sectionIndex.toNat]? with
      | none => simp [hsym, hs] at h
      | some s =>
        simp only [hsym, hs, Except.ok.injEq] at h
        refine ⟨entry, s.address + sym.value, rfl, ?_, h.symm⟩
        rw [symbolAddress, hsym, Option.bind_eq_bind, Option.bind_some, hs]
        rfl

/-- The entries of one section. -/
theorem mapM_relocInfo_eq_ok {sections : List Section} {s : Section} {name : Name}
    (hname : relocTarget s = .ok name) {entries : List (Option RelocEntry)} {relocs : List RelocInfo}
    (h : entries.mapM (relocInfo sections (sectionAddress sections name)) = .ok relocs) :
    List.Forall₂ (RelocRead sections) ((entries.filterMap id).map fun e => (s, e)) relocs := by
  induction entries generalizing relocs with
  | nil =>
    cases h
    exact .nil
  | cons e entries ih =>
    rw [List.mapM_cons] at h
    cases hr : relocInfo sections (sectionAddress sections name) e with
    | error f => simp [hr, bind, Except.bind] at h
    | ok r =>
      cases hrest : entries.mapM (relocInfo sections (sectionAddress sections name)) with
      | error f => simp [hr, hrest, bind, Except.bind] at h
      | ok rest =>
        simp only [hr, hrest, bind, Except.bind, pure, Except.pure, Except.ok.injEq] at h
        obtain ⟨entry, symbol, rfl, hsymbol, rfl⟩ := relocInfo_eq_ok hr
        rw [← h]
        exact .cons ⟨name, symbol, hname, hsymbol, rfl⟩ (ih hrest)

/-- **What the loader makes of the entries of an image**, in their order. -/
theorem relocs_of_sites {image : ElfImage} {tables : FunctionTables}
    (h : scanSections image moduleGpuVa = .ok tables) :
    List.Forall₂ (RelocRead image.sections) (relocSites image.sections) tables.relocs := by
  refine scanSections_induction
    (fun seen t => List.Forall₂ (RelocRead image.sections) (relocSites seen) t.relocs) .nil
    (fun seen s t t' _ ht hscan => ?_) h
  obtain ⟨relocs, hrelocs, hadd⟩ := scanSection_eq_ok hscan
  have hnew : List.Forall₂ (RelocRead image.sections) (relocSites [s]) relocs := by
    rw [relocSites, List.flatMap_singleton]
    rw [sectionRelocs] at hrelocs
    split_ifs at hrelocs with htype
    · rw [if_pos htype]
      cases hname : relocTarget s with
      | error f => simp [hname, bind, Except.bind] at hrelocs
      | ok name =>
        rw [hname] at hrelocs
        exact mapM_relocInfo_eq_ok hname hrelocs
    · cases hrelocs
      rw [if_neg htype]
      exact .nil
  have hall : List.Forall₂ (RelocRead image.sections) (relocSites (seen ++ [s]))
      (t.relocs ++ relocs) := by
    rw [relocSites, List.flatMap_append]
    exact List.rel_append ht hnew
  cases hadd with
  | _ => exact hall

/-! ## The uploaded image -/

/-- A patch has its start and its length from the location and the type. -/
theorem relocPatch_congr (location : ℕ) (type : NvU32) (value value' : NvU64) :
    (relocPatch location type value).start = (relocPatch location type value').start ∧
      (relocPatch location type value).block.length =
        (relocPatch location type value').block.length := by
  by_cases htype : type ∈ relocTypes
  · rcases mem_relocTypes.mp htype with rfl | rfl | rfl
    · exact ⟨rfl, rfl⟩
    · exact ⟨rfl, rfl⟩
    · exact ⟨rfl, rfl⟩
  · rw [relocPatch_unknown htype, relocPatch_unknown htype]
    exact ⟨rfl, rfl⟩

theorem covers_relocPatch (location : ℕ) (type : NvU32) (value value' : NvU64) (k : ℕ) :
    (relocPatch location type value).Covers k ↔ (relocPatch location type value').Covers k := by
  obtain ⟨hstart, hlength⟩ := relocPatch_congr location type value value'
  rw [Patch.Covers, Patch.Covers, Patch.stop, Patch.stop, hstart, hlength]

/-- What the uploaded image holds is in memory. -/
theorem holdsAt_store_iff {mem : Memory} {p : Patch NvU8} (hstop : p.stop ≤ patched.length)
    (hlength : patched.length < 2 ^ 64) :
    HoldsAt (load (store mem moduleGpuVa patched) moduleGpuVa) p.start p.block ↔
      p.HoldsIn patched := by
  have hbyte : ∀ i < p.block.length,
      patched[p.start + i]? = some (load (store mem moduleGpuVa patched) moduleGpuVa (p.start + i)) := by
    intro i hi
    unfold Patch.stop at hstop
    have hlt : p.start + i < patched.length := by omega
    have hoffset : (moduleGpuVa + BitVec.ofNat 64 (p.start + i) - moduleGpuVa).toNat =
        p.start + i := by
      rw [BitVec.add_comm, BitVec.add_sub_cancel, BitVec.toNat_ofNat, Nat.mod_eq_of_lt (by omega)]
    rw [load, store, hoffset, List.getElem?_eq_getElem hlt, Option.getD_some]
  constructor
  · intro h i hi
    rw [hbyte i hi, h i hi, List.getElem?_eq_getElem hi]
  · intro h i hi
    have heq := (hbyte i hi).symm.trans (h i hi)
    rw [List.getElem?_eq_getElem hi] at heq
    exact Option.some.inj heq

/-- Elements that correspond to elements that are related pairwise. -/
theorem pairwise_of_forall₂ {α β : Type} {R : α → β → Prop} {S : α → α → Prop} {T : β → β → Prop}
    {l : List α} {l' : List β} (h : List.Forall₂ R l l') (hl : l.Pairwise S)
    (himp : ∀ a ∈ l, ∀ b ∈ l, ∀ x y, R a x → R b y → S a b → T x y) : l'.Pairwise T := by
  induction h with
  | nil => exact .nil
  | @cons a x l l' hax hrest ih =>
    rw [List.pairwise_cons] at hl
    refine List.pairwise_cons.mpr ⟨fun y hy => ?_, ih hl.2 fun b hb c hc =>
      himp b (List.mem_cons_of_mem a hb) c (List.mem_cons_of_mem a hc)⟩
    obtain ⟨i, hi, rfl⟩ := List.mem_iff_getElem.mp hy
    have hi' : i < l.length := by rwa [hrest.length_eq]
    have hmem : l[i] ∈ l := List.getElem_mem hi'
    exact himp a List.mem_cons_self _ (List.mem_cons_of_mem a hmem) x _ hax
      (hrest.get hi' hi) (hl.1 _ hmem)

section Sites

variable {sections : List Section} {a : Section × RelocEntry} {r : RelocInfo} {t : Section}

/-- The patch of an entry whose section exists. -/
theorem RelocRead.patch_eq (h : RelocRead sections a r)
    (ht : a.1.relocSection sections = some t) {symbol : NvU64}
    (hsymbol : symbolAddress sections a.2 = some symbol) :
    r.patch moduleGpuVa =
      relocPatch (t.location a.2) a.2.type (moduleGpuVa + symbol) := by
  obtain ⟨name, symbol', hname, hsymbol', rfl⟩ := h
  obtain rfl := Option.some.inj (hsymbol'.symm.trans hsymbol)
  rw [Section.relocSection, hname] at ht
  have haddress : sectionAddress sections name = t.address := by
    simp only [sectionAddress, ht, Option.map_some, Option.getD_some]
  rw [RelocInfo.patch, haddress]
  rfl

/-- **Every patch of an accepted image is in it**, where all entries have sections and no two of
them overlap. -/
theorem holdsIn_of_applied {relocs : List RelocInfo}
    (hread : List.Forall₂ (RelocRead sections) (relocSites sections) relocs)
    (happly : applyRelocs moduleGpuVa image relocs = .ok patched) (hapart : RelocsApart sections)
    (htargets : ∀ a ∈ relocSites sections, ∃ t, a.1.relocSection sections = some t)
    (ha : a ∈ relocSites sections) (ht : a.1.relocSection sections = some t) {symbol : NvU64}
    (hsymbol : symbolAddress sections a.2 = some symbol) :
    (relocPatch (t.location a.2) a.2.type (moduleGpuVa + symbol)).stop ≤ patched.length ∧
      (relocPatch (t.location a.2) a.2.type (moduleGpuVa + symbol)).HoldsIn patched := by
  obtain ⟨hfits, rfl⟩ := applyRelocs_eq_ok happly
  have hstops : ∀ p ∈ relocs.map fun r => r.patch moduleGpuVa, p.stop ≤ image.length := by
    intro p hp
    obtain ⟨r, hr, rfl⟩ := List.mem_map.mp hp
    exact (hfits r hr).2
  -- the patches overlap no more than the entries they are made of
  have hpairwise : (relocs.map fun r => r.patch moduleGpuVa).Pairwise Patch.Apart := by
    rw [List.pairwise_map]
    refine pairwise_of_forall₂ hread hapart fun b hb c hc x y hx hy hbc => ?_
    obtain ⟨u, hu⟩ := htargets b hb
    obtain ⟨v, hv⟩ := htargets c hc
    obtain ⟨-, symbolB, -, hsymbolB, -⟩ := id hx
    obtain ⟨-, symbolC, -, hsymbolC, -⟩ := id hy
    rw [hx.patch_eq hu hsymbolB, hy.patch_eq hv hsymbolC]
    intro k hk hk'
    exact hbc u v hu hv k ((covers_relocPatch ..).mp hk) ((covers_relocPatch ..).mp hk')
  obtain ⟨i, hi, rfl⟩ := List.mem_iff_getElem.mp ha
  have hi' : i < relocs.length := by rwa [← hread.length_eq]
  have hreloc : RelocRead sections (relocSites sections)[i] relocs[i] := hread.get hi hi'
  have hmem : relocPatch (t.location (relocSites sections)[i].2) (relocSites sections)[i].2.type
      (moduleGpuVa + symbol) ∈ relocs.map fun r => r.patch moduleGpuVa := by
    rw [← hreloc.patch_eq ht hsymbol]
    exact List.mem_map_of_mem (List.getElem_mem hi')
  rw [Patch.length_applyAll hstops]
  exact ⟨hstops _ hmem, Patch.holds_of_applyAll hstops hpairwise hmem⟩

end Sites

/-- The layout keeps the entries of the relocation sections. -/
theorem map_snd_relocSites (image : ElfImage) :
    (relocSites image.placed).map Prod.snd = (relocSites image.sections).map Prod.snd := by
  have hentries : ∀ sections : List Section, (relocSites sections).map Prod.snd =
      (sections.map fun s => if s.type = shtRel ∨ s.type = shtRela then s.relocs.filterMap id
        else []).flatten := by
    intro sections
    rw [relocSites, List.map_flatMap, List.flatMap_def]
    congr 1
    refine List.map_congr_left fun s _ => ?_
    split_ifs
    · rw [List.map_map]
      exact List.map_id _
    · rfl
  rw [hentries, hentries, ElfImage.placed]
  split
  · rename_i rebuilt placed hrebuild
    rw [map_of_sameBut (fun hs => by rw [hs.type, hs.relocs]) (sameBut_of_rebuildImage hrebuild)]
  · rfl

/-- A module is loaded to the next address of the heap. -/
theorem moduleVaAddr_of_ok {image : ElfImage} {m : LibreCUmodule} {h h' : Host}
    (hload : call (libreCuModuleLoadData (some image)) h = (.ok m, h')) :
    m.moduleVaAddr = h.vm.nextVa (gpuAllocAlignment false) := by
  suffices hwp : wp (libreCuModuleLoadData (some image))
      (fun m _ => m.moduleVaAddr = h.vm.nextVa (gpuAllocAlignment false)) (fun _ _ => True) h from
    (wp_of_call hload).mp hwp
  rw [libreCuModuleLoadData, wp_bind, wp_ofExcept]
  refine ⟨fun r _ => ?_, fun _ _ => trivial⟩
  rw [wp_bind, wp_onVm]
  refine wp_mono (wp_gpuAlloc _ false true h.vm) (fun p v hv => ?_) (fun _ _ _ => trivial)
  rw [wp_bind, wp_ofExcept]
  refine ⟨fun tables _ => ?_, fun _ _ => trivial⟩
  rw [wp_bind, wp_modify, wp_bind, wp_ofExcept]
  refine ⟨fun bytes _ => ?_, fun _ _ => trivial⟩
  rw [wp_bind, wp_modify, wp_pure]
  exact hv.1

/-- **The relocations of an accepted image are all applied, if and only if** each of its entries is
for a section of the rebuilt image that has room for it, of a type that the loader knows, and with
an addend that changes nothing of what the type patches. -/
theorem relocations_applied_iff {image : ElfImage} {m : LibreCUmodule} {h h' : Host}
    (hload : call (libreCuModuleLoadData (some image)) h = (.ok m, h'))
    (hapart : RelocsApart image.placed) :
    (∀ a ∈ relocSites image.placed, RelocApplied image.placed m.moduleVaAddr h'.mem a) ↔
      ∀ a ∈ relocSites image.placed,
        RelocSupported image.placed (h.vm.nextVa (gpuAllocAlignment false)) a := by
  obtain ⟨loaded, mem, hmem⟩ := uploaded_of_ok hload
  rw [← moduleVaAddr_of_ok hload, hmem]
  obtain ⟨rebuilt, placed, tables, patched, hrebuild, hscan, hpatch, -⟩ := loaded
  obtain rfl := placed_of_rebuildImage hrebuild
  have hread := relocs_of_sites hscan
  have hlength : patched.length < 2 ^ 64 := by
    obtain ⟨hfits, rfl⟩ := applyRelocs_eq_ok hpatch
    rw [Patch.length_applyAll fun p hp => ?_]
    · exact Nat.lt_trans (length_lt_of_rebuildImage hrebuild) (by decide)
    · obtain ⟨r, hr, rfl⟩ := List.mem_map.mp hp
      exact (hfits r hr).2
  constructor
  · intro happlied a ha
    have htargets : ∀ b ∈ relocSites image.placed, ∃ t, b.1.relocSection image.placed = some t :=
      fun b hb => let ⟨t, _, hresolves, _⟩ := happlied b hb; ⟨t, hresolves.target⟩
    obtain ⟨t, symbol, hresolves, hholds⟩ := happlied a ha
    obtain ⟨hstop, hheld⟩ := holdsIn_of_applied hread hpatch hapart htargets ha hresolves.target
      hresolves.symbol
    obtain ⟨hstart, hblock⟩ := relocPatch_congr (t.location a.2) a.2.type
      (m.moduleVaAddr + symbol + a.1.addend a.2) (m.moduleVaAddr + symbol)
    -- memory has both the patch that was applied and the one that should be, at one place
    refine ⟨t, symbol, hresolves, Patch.eq_of_holdsIn ?_ hheld hstart hblock⟩
    refine (holdsAt_store_iff ?_ hlength).mp hholds
    rw [Patch.stop, hstart, hblock]
    exact hstop
  · intro hsupported a ha
    have htargets : ∀ b ∈ relocSites image.placed, ∃ t, b.1.relocSection image.placed = some t :=
      fun b hb => let ⟨t, _, hresolves, _⟩ := hsupported b hb; ⟨t, hresolves.target⟩
    obtain ⟨t, symbol, hresolves, hsame⟩ := hsupported a ha
    obtain ⟨hstop, hheld⟩ := holdsIn_of_applied hread hpatch hapart htargets ha hresolves.target
      hresolves.symbol
    refine ⟨t, symbol, hresolves, ?_⟩
    show HoldsAt _ (Patch.start _) (Patch.block _)
    rw [hsame]
    exact (holdsAt_store_iff hstop hlength).mpr hheld

/-- One relocation of the code of a kernel. -/
def relocTable (type : NvU32) (addend : NvU64) : Section where
  name := ".rela.text.k".toList
  type := shtRela
  relocs := [some ⟨8, 0, type, addend⟩]

/-- An image with 16 bytes of code and that relocation. -/
def relocImage (type : NvU32) (addend : NvU64) : ElfImage where
  sectionEntrySize := 64
  sections := [{ name := ".text.k".toList, type := shtProgbits, size := 16 },
    { name := ".symtab".toList, type := shtSymtab, symbols := [⟨"k".toList, 0, 0⟩] },
    relocTable type addend]

/-- The record of its kernel. -/
def relocKernel : LibreCUFunction where
  name := "k"
  funcVaAddr := uvmHeapStart
  sharedMem := 0
  numRegisters := 0
  localMemReq := 0
  functionSize := 16
  constants := []
  paramInfo := []

/-- Load that image. -/
def loadReloc (type : NvU32) (addend : NvU64) : Except Failure LibreCUmodule × Host :=
  call (libreCuModuleLoadData (some (relocImage type addend))) loadHost

theorem relocSites_relocImage (type : NvU32) (addend : NvU64) :
    ∃ a, relocSites (relocImage type addend).placed = [a] ∧ a.2 = ⟨8, 0, type, addend⟩ :=
  List.map_eq_singleton_iff.mp (map_snd_relocSites (relocImage type addend))

theorem relocsApart_relocImage (type : NvU32) (addend : NvU64) :
    RelocsApart (relocImage type addend).placed := by
  obtain ⟨a, hsites, -⟩ := relocSites_relocImage type addend
  rw [RelocsApart, hsites]
  exact List.pairwise_singleton _ _

theorem relocations_applied_iff_sample :
    (∀ a ∈ relocSites (relocImage 0x2 0).placed,
        RelocApplied (relocImage 0x2 0).placed uvmHeapStart (loadReloc 0x2 0).2.mem a) ↔
      ∀ a ∈ relocSites (relocImage 0x2 0).placed,
        RelocSupported (relocImage 0x2 0).placed
          (loadHost.vm.nextVa (gpuAllocAlignment false)) a :=
  @relocations_applied_iff (relocImage 0x2 0) ⟨[relocKernel], uvmHeapStart⟩ loadHost
    (loadReloc 0x2 0).2 (Prod.ext (by decide +kernel) rfl) (relocsApart_relocImage 0x2 0)

/-- **A relocation of an unknown type is skipped**, and the image is accepted. -/
theorem unknown_relocation_skipped :
    (loadReloc 0x5 0).1 = .ok ⟨[relocKernel], uvmHeapStart⟩ ∧
      RelocsApart (relocImage 0x5 0).placed ∧
      ∃ a ∈ relocSites (relocImage 0x5 0).placed,
        ¬ RelocApplied (relocImage 0x5 0).placed uvmHeapStart (loadReloc 0x5 0).2.mem a := by
  obtain ⟨a, hsites, ha⟩ := relocSites_relocImage 0x5 0
  refine ⟨by decide +kernel, relocsApart_relocImage 0x5 0, a, ?_, ?_⟩
  · rw [hsites]
    exact List.mem_singleton_self a
  · rintro ⟨t, symbol, hresolves, -⟩
    have hknown := hresolves.known
    rw [ha] at hknown
    exact absurd hknown (by decide)

end LibreCuda
