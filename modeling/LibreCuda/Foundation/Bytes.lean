import Mathlib.Data.BitVec
import Mathlib.Data.Set.Lattice
import Mathlib.Order.CompletePartialOrder

/-! # Byte memory

A flat memory addressed by 64-bit words, little-endian words as bytes, and the store of a block of
bytes: a load inside the block reads the block, a load outside reads the old memory. Addresses wrap,
so an offset is the difference of two addresses. -/

namespace Bytes

/-- A flat byte memory. -/
abbrev Memory : Type := BitVec 64 → BitVec 8

/-- Bytes of a 32-bit word, least significant first. -/
def ofWord (w : BitVec 32) : List (BitVec 8) :=
  [w.extractLsb' 0 8, w.extractLsb' 8 8, w.extractLsb' 16 8, w.extractLsb' 24 8]

/-- Bytes of a block of words. -/
def ofWords (ws : List (BitVec 32)) : List (BitVec 8) := ws.flatMap ofWord

/-- The 32-bit word at offset `o` of a byte sequence. -/
def wordAt (bytes : ℕ → BitVec 8) (o : ℕ) : BitVec 32 :=
  bytes (o + 3) ++ bytes (o + 2) ++ bytes (o + 1) ++ bytes o

/-- Write a block of bytes at an address. -/
def store (mem : Memory) (addr : BitVec 64) (block : List (BitVec 8)) : Memory :=
  fun x => (block[(x - addr).toNat]?).getD (mem x)

/-- The bytes from an address on. -/
def load (mem : Memory) (addr : BitVec 64) : ℕ → BitVec 8 := fun i => mem (addr + BitVec.ofNat 64 i)

/-- The addresses of a block of bytes. -/
def span (addr : BitVec 64) (size : ℕ) : Set (BitVec 64) := {x | (x - addr).toNat < size}

@[simp] theorem mem_span {addr x : BitVec 64} {size : ℕ} :
    x ∈ span addr size ↔ (x - addr).toNat < size := Iff.rfl

/-- Distances to an address behind another one. -/
theorem toNat_sub_add (x addr : BitVec 64) (o : ℕ) :
    (x - (addr + BitVec.ofNat 64 o)).toNat = (2 ^ 64 - o % 2 ^ 64 + (x - addr).toNat) % 2 ^ 64 := by
  have hsub : x - (addr + BitVec.ofNat 64 o) = x - addr - BitVec.ofNat 64 o := by
    rw [BitVec.sub_eq_add_neg, BitVec.sub_eq_add_neg, BitVec.sub_eq_add_neg, BitVec.neg_add,
      BitVec.sub_eq_add_neg, BitVec.add_assoc]
  rw [hsub, BitVec.toNat_sub, BitVec.toNat_ofNat]

theorem toNat_add_sub_self (addr : BitVec 64) {o : ℕ} (h : o < 2 ^ 64) :
    (addr + BitVec.ofNat 64 o - addr).toNat = o := by
  rw [BitVec.add_comm, BitVec.add_sub_cancel, BitVec.toNat_ofNat, Nat.mod_eq_of_lt h]

/-- A block inside a block, by offsets. -/
theorem mem_span_of_add {addr x : BitVec 64} {o size size' : ℕ} (hle : o + size ≤ size')
    (h : x ∈ span (addr + BitVec.ofNat 64 o) size) : x ∈ span addr size' := by
  rw [mem_span, toNat_sub_add] at h
  rw [mem_span]
  have hlt := (x - addr).isLt
  omega

/-- A block that does not wrap, by distances to an address in front of it. -/
theorem mem_span_add_iff {addr x : BitVec 64} {o size : ℕ} (h : o + size ≤ 2 ^ 64) :
    x ∈ span (addr + BitVec.ofNat 64 o) size ↔
      o ≤ (x - addr).toNat ∧ (x - addr).toNat < o + size := by
  rw [mem_span, toNat_sub_add]
  have hlt := (x - addr).isLt
  omega

/-- The addresses of a block, one by one. -/
theorem mem_span_iff_exists {addr x : BitVec 64} {size : ℕ} :
    x ∈ span addr size ↔ ∃ k < size, x = addr + BitVec.ofNat 64 k := by
  constructor
  · intro h
    refine ⟨(x - addr).toNat, h, ?_⟩
    rw [BitVec.ofNat_toNat, BitVec.setWidth_eq, BitVec.add_comm, BitVec.sub_add_cancel]
  · rintro ⟨k, hk, rfl⟩
    rw [mem_span, BitVec.add_comm, BitVec.add_sub_cancel, BitVec.toNat_ofNat]
    exact Nat.lt_of_le_of_lt (Nat.mod_le _ _) hk

/-- Blocks have no address in common if no two of their bytes are at one. -/
theorem disjoint_span_iff {addr addr' : BitVec 64} {size size' : ℕ} :
    Disjoint (span addr size) (span addr' size') ↔
      ∀ k < size, ∀ l < size', addr + BitVec.ofNat 64 k ≠ addr' + BitVec.ofNat 64 l := by
  rw [Set.disjoint_left]
  constructor
  · intro h k hk l hl heq
    exact h (mem_span_iff_exists.mpr ⟨k, hk, rfl⟩) (mem_span_iff_exists.mpr ⟨l, hl, heq⟩)
  · intro h x hx hx'
    obtain ⟨k, hk, rfl⟩ := mem_span_iff_exists.mp hx
    obtain ⟨l, hl, heq⟩ := mem_span_iff_exists.mp hx'
    exact h k hk l hl heq

@[simp] theorem length_ofWord (w : BitVec 32) : (ofWord w).length = 4 := rfl

@[simp] theorem ofWords_nil : ofWords [] = [] := rfl

@[simp] theorem ofWords_cons (w : BitVec 32) (ws : List (BitVec 32)) :
    ofWords (w :: ws) = ofWord w ++ ofWords ws := rfl

@[simp] theorem length_ofWords (ws : List (BitVec 32)) : (ofWords ws).length = 4 * ws.length := by
  induction ws with
  | nil => rfl
  | cons w ws ih =>
    rw [ofWords_cons, List.length_append, length_ofWord, ih, List.length_cons]
    omega

theorem ofWords_append (ws vs : List (BitVec 32)) : ofWords (ws ++ vs) = ofWords ws ++ ofWords vs :=
  List.flatMap_append

/-- Bytes of a word that is put together from bytes. -/
theorem ofWord_append (a b c d : BitVec 8) : ofWord (d ++ c ++ b ++ a) = [a, b, c, d] := by
  simp only [ofWord, List.cons.injEq, and_true]
  refine ⟨?_, ?_, ?_, ?_⟩ <;>
  · ext i hi
    simp only [BitVec.getElem_extractLsb', BitVec.getLsbD_append]
    grind

/-- Bytes of the words of a byte sequence. -/
theorem ofWords_wordAt (bytes : ℕ → BitVec 8) (n : ℕ) :
    ofWords ((List.range n).map fun k => wordAt bytes (4 * k)) = (List.range (4 * n)).map bytes := by
  induction n with
  | zero => rfl
  | succ n ih =>
    have hrange : List.range (4 * (n + 1)) =
        List.range (4 * n) ++ [4 * n, 4 * n + 1, 4 * n + 2, 4 * n + 3] := by
      rw [show 4 * (n + 1) = 4 * n + 1 + 1 + 1 + 1 by omega, List.range_succ, List.range_succ,
        List.range_succ, List.range_succ]
      simp
    rw [List.range_succ, List.map_append, ofWords_append, ih, hrange, List.map_append]
    congr 1
    show ofWord (wordAt bytes (4 * n)) ++ [] = _
    rw [List.append_nil, wordAt, ofWord_append]
    rfl

/-- **Frame**: a store changes the addresses of the block only. -/
theorem store_of_not_mem_span {mem : Memory} {addr x : BitVec 64} {block : List (BitVec 8)}
    (h : x ∉ span addr block.length) : store mem addr block x = mem x := by
  rw [mem_span, Nat.not_lt] at h
  rw [store, List.getElem?_eq_none h, Option.getD_none]

/-- A load outside the block reads the old memory. -/
theorem store_of_le {mem : Memory} {addr x : BitVec 64} {block : List (BitVec 8)}
    (h : block.length ≤ (x - addr).toNat) : store mem addr block x = mem x :=
  store_of_not_mem_span (Nat.not_lt.mpr h)

/-- A load inside the block reads the block. -/
theorem store_of_lt {mem : Memory} {addr x : BitVec 64} {block : List (BitVec 8)}
    (h : (x - addr).toNat < block.length) : store mem addr block x = block[(x - addr).toNat] := by
  rw [store, List.getElem?_eq_getElem h, Option.getD_some]

/-- No bytes change nothing. -/
theorem store_nil (mem : Memory) (addr : BitVec 64) : store mem addr [] = mem := rfl

/-- **Two blocks, one behind the other**, are stored as one. -/
theorem store_append {mem : Memory} {addr : BitVec 64} {block block' : List (BitVec 8)}
    (h : block.length + block'.length ≤ 2 ^ 64) :
    store (store mem addr block) (addr + BitVec.ofNat 64 block.length) block' =
      store mem addr (block ++ block') := by
  funext x
  have hdistance := toNat_sub_add x addr block.length
  by_cases hfront : (x - addr).toNat < block.length
  · rw [store_of_le (by rw [hdistance]; omega), store_of_lt hfront, store,
      List.getElem?_append_left hfront, List.getElem?_eq_getElem hfront, Option.getD_some]
  · have hback : (x - (addr + BitVec.ofNat 64 block.length)).toNat =
        (x - addr).toNat - block.length := by
      have hlt := (x - addr).isLt
      rw [hdistance]
      omega
    rw [store, hback, store_of_le (Nat.not_lt.mp hfront), store,
      List.getElem?_append_right (Nat.not_lt.mp hfront)]

/-- The bytes of the words of a block. -/
theorem getElem?_ofWords {ws : List (BitVec 32)} {k j : ℕ} (hj : j < 4) :
    (ofWords ws)[4 * k + j]? = (ws[k]?).bind fun w => (ofWord w)[j]? := by
  induction ws generalizing k with
  | nil => simp
  | cons w ws ih =>
    cases k with
    | zero =>
      rw [ofWords_cons, List.getElem?_append_left (by rw [length_ofWord]; omega)]
      simp
    | succ k =>
      rw [ofWords_cons, List.getElem?_append_right (by rw [length_ofWord]; omega), length_ofWord,
        show 4 * (k + 1) + j - 4 = 4 * k + j by omega, ih, List.getElem?_cons_succ]

/-- A word put together from its bytes. -/
theorem append_ofWord (w : BitVec 32) :
    w.extractLsb' 24 8 ++ w.extractLsb' 16 8 ++ w.extractLsb' 8 8 ++ w.extractLsb' 0 8 = w := by
  ext i hi
  simp only [BitVec.getElem_append, BitVec.getElem_extractLsb']
  grind

theorem ofWord_injective {w v : BitVec 32} (h : ofWord w = ofWord v) : w = v := by
  simp only [ofWord, List.cons.injEq, and_true] at h
  obtain ⟨h0, h1, h2, h3⟩ := h
  rw [← append_ofWord w, h0, h1, h2, h3, append_ofWord v]

/-- Words are determined by their bytes. -/
theorem ofWords_injective {ws vs : List (BitVec 32)} (h : ofWords ws = ofWords vs) : ws = vs := by
  induction ws generalizing vs with
  | nil =>
    cases vs with
    | nil => rfl
    | cons v vs => cases h
  | cons w ws ih =>
    cases vs with
    | nil => cases h
    | cons v vs =>
      rw [ofWords_cons, ofWords_cons] at h
      obtain ⟨hw, hws⟩ := List.append_inj h rfl
      rw [ofWord_injective hw, ih hws]

/-! ## Blocks in a byte sequence -/

/-- A byte sequence has a block of bytes at an offset. -/
def HoldsAt (bytes : ℕ → BitVec 8) (o : ℕ) (block : List (BitVec 8)) : Prop :=
  ∀ i (hi : i < block.length), bytes (o + i) = block[i]

/-- A block in two parts. -/
theorem holdsAt_append {bytes : ℕ → BitVec 8} {o : ℕ} {block block' : List (BitVec 8)} :
    HoldsAt bytes o (block ++ block') ↔
      HoldsAt bytes o block ∧ HoldsAt bytes (o + block.length) block' := by
  constructor
  · intro h
    refine ⟨fun i hi => ?_, fun i hi => ?_⟩
    · rw [h i (by rw [List.length_append]; omega), List.getElem_append_left hi]
    · rw [Nat.add_assoc, h (block.length + i) (by rw [List.length_append]; omega),
        List.getElem_append_right (by omega)]
      congr 1
      omega
  · rintro ⟨hfront, hback⟩ i hi
    rw [List.length_append] at hi
    by_cases hlt : i < block.length
    · rw [List.getElem_append_left hlt, hfront i hlt]
    · rw [List.getElem_append_right (by omega), ← hback (i - block.length) (by omega)]
      congr 1
      omega

/-- A word that a byte sequence has at an offset. -/
theorem wordAt_of_holdsAt {bytes : ℕ → BitVec 8} {o : ℕ} {w : BitVec 32}
    (h : HoldsAt bytes o (ofWord w)) : wordAt bytes o = w := by
  have h0 := h 0 (by rw [length_ofWord]; decide)
  rw [Nat.add_zero] at h0
  rw [wordAt, h0, h 1 (by rw [length_ofWord]; decide), h 2 (by rw [length_ofWord]; decide),
    h 3 (by rw [length_ofWord]; decide)]
  exact append_ofWord w

/-- A word inside a block. -/
theorem wordAt_of_holdsAt_block {bytes : ℕ → BitVec 8} {o k : ℕ} {block : List (BitVec 8)}
    (h : HoldsAt bytes o block) (hk : k + 4 ≤ block.length) :
    wordAt bytes (o + k) = wordAt (fun i => (block[i]?).getD 0) k := by
  have hbyte : ∀ i < 4, bytes (o + k + i) = (block[k + i]?).getD 0 := by
    intro i hi
    have hlt : k + i < block.length := by omega
    rw [Nat.add_assoc, h _ hlt, List.getElem?_eq_getElem hlt, Option.getD_some]
  have h0 := hbyte 0 (by decide)
  rw [Nat.add_zero, Nat.add_zero] at h0
  rw [wordAt, h0, hbyte 1 (by decide), hbyte 2 (by decide), hbyte 3 (by decide)]
  rfl

/-- The least significant byte of a word comes first. -/
theorem setWidth_wordAt (bytes : ℕ → BitVec 8) (o : ℕ) : (wordAt bytes o).setWidth 8 = bytes o := by
  ext i hi
  simp only [wordAt, BitVec.getElem_setWidth, BitVec.getLsbD_append]
  grind

/-- **A stored block of words reads back word by word.** -/
theorem wordAt_load_store {mem : Memory} {addr : BitVec 64} {ws : List (BitVec 32)} {k : ℕ}
    (hk : k < ws.length) (hsize : 4 * ws.length < 2 ^ 64) :
    wordAt (load (store mem addr (ofWords ws)) addr) (4 * k) = ws[k] := by
  refine wordAt_of_holdsAt fun j hj => ?_
  rw [length_ofWord] at hj
  have hoff : (addr + BitVec.ofNat 64 (4 * k + j) - addr).toNat = 4 * k + j :=
    toNat_add_sub_self addr (by omega)
  rw [load, store, hoff, getElem?_ofWords hj, List.getElem?_eq_getElem hk, Option.bind_some,
    List.getElem?_eq_getElem (by rw [length_ofWord]; exact hj), Option.getD_some]

end Bytes
