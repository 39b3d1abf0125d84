import CloneScout.Digest.Sha1
import Mathlib.Data.List.Basic
import Mathlib.Data.Nat.Find
import Mathlib.Tactic.Ring

/-!
# The standard of the digest

SHA-1 as its standard defines it, on messages of bits: padding to a multiple of 512 bits, blocks of
sixteen words, a schedule of eighty words, eighty rounds with functions and constants of their own,
and intermediate digests that are added up. All words have 32 bits, and addition wraps around. The
bytes put behind a message are the bits that the standard puts there, and the words of a block of
bytes are the words of the block of its bits.
-/

namespace CloneScout.Sha1.Standard

/-! ## Bits -/

abbrev Bits := List Bool

/-- The lowest `width` bits of a number, the highest first. -/
def bits (width n : Nat) : Bits := (List.range width).map fun i => n.testBit (width - 1 - i)

/-- The number with the given bits, the highest first. -/
def number (t : Bits) : Nat := t.foldl (fun n b => 2 * n + b.toNat) 0

/-- A message of bytes as a message of bits. -/
def message (m : Text) : Bits := m.flatMap fun b => bits 8 b.toNat

/-! ## Preprocessing -/

theorem exists_zeros (l : Nat) : ∃ k, (l + 1 + k) % 512 = 448 :=
  ⟨(448 + 512 - (l + 1) % 512) % 512, by omega⟩

/-- The smallest number of zeros that leaves room for the length in the last block. -/
def zeros (l : Nat) : Nat := Nat.find (exists_zeros l)

/-- A set bit, zeros, and the length of the message in 64 bits. -/
def padded (t : Bits) : Bits :=
  t ++ [true] ++ List.replicate (zeros t.length) false ++ bits 64 t.length

/-- Word `j` of block `i`. -/
def blockWord (t : Bits) (i j : Nat) : UInt32 :=
  UInt32.ofNat (number ((t.drop (512 * i + 32 * j)).take 32))

/-! ## Functions and constants -/

/-- Circular left shift. -/
def rotate (n : Nat) (x : UInt32) : UInt32 := ⟨x.toBitVec.rotateLeft n⟩

def choose (x y z : UInt32) : UInt32 := (x &&& y) ^^^ (~~~x &&& z)

def parity (x y z : UInt32) : UInt32 := x ^^^ y ^^^ z

def majority (x y z : UInt32) : UInt32 := (x &&& y) ^^^ (x &&& z) ^^^ (y &&& z)

/-- The function of round `t`. -/
def function (t : Nat) : UInt32 → UInt32 → UInt32 → UInt32 :=
  if t ≤ 19 then choose else if t ≤ 39 then parity else if t ≤ 59 then majority else parity

/-- The constant of round `t`. -/
def constant (t : Nat) : UInt32 :=
  if t ≤ 19 then 0x5a827999
  else if t ≤ 39 then 0x6ed9eba1
  else if t ≤ 59 then 0x8f1bbcdc
  else 0xca62c1d6

/-! ## Computation -/

/-- Word `t` of the schedule of a block with the words `w`. -/
def schedule (w : Nat → UInt32) (t : Nat) : UInt32 :=
  if t < 16 then w t
  else
    rotate 1 (schedule w (t - 3) ^^^ schedule w (t - 8) ^^^ schedule w (t - 14) ^^^
      schedule w (t - 16))

/-- One round on the working variables. -/
def round (w : Nat → UInt32) (s : Words) (t : Nat) : Words where
  a := rotate 5 s.a + function t s.b s.c s.d + s.e + constant t + schedule w t
  b := s.a
  c := rotate 30 s.b
  d := s.c
  e := s.d

/-- The intermediate digest behind a block with the words `w`. -/
def compress (h : Words) (w : Nat → UInt32) : Words :=
  let s := (List.range 80).foldl (round w) h
  ⟨s.a + h.a, s.b + h.b, s.c + h.c, s.d + h.d, s.e + h.e⟩

/-- The initial digest. -/
def start : Words := ⟨0x67452301, 0xefcdab89, 0x98badcfe, 0x10325476, 0xc3d2e1f0⟩

/-- The digest of a message. -/
def digest (t : Bits) : Words :=
  let p := padded t
  (List.range (p.length / 512)).foldl (fun h i => compress h (blockWord p i)) start

/-! ## Text -/

/-- A word as eight hexadecimal digits in lower case. -/
def wordText (w : UInt32) : Text :=
  (List.range 8).map fun i => (utf8 "0123456789abcdef").getD (w.toNat / 16 ^ (7 - i) % 16) 0

/-- The digest of a message of bytes in hexadecimal. -/
def hex (m : Text) : Text :=
  let h := digest (message m)
  wordText h.a ++ wordText h.b ++ wordText h.c ++ wordText h.d ++ wordText h.e

end CloneScout.Sha1.Standard

namespace CloneScout.Sha1

open Standard (Bits bits number message)

namespace Standard

/-! ## Bits and numbers -/

theorem length_bits (width n : Nat) : (bits width n).length = width := by simp [bits]

theorem bits_succ (width n : Nat) : bits (width + 1) n = bits width (n / 2) ++ [n.testBit 0] := by
  rw [bits, List.range_succ, List.map_append, List.map_singleton, bits]
  congr 1
  · refine List.map_congr_left fun i hi => ?_
    have hi : i < width := List.mem_range.mp hi
    have hplace : width + 1 - 1 - i = width - 1 - i + 1 := by omega
    rw [hplace, Nat.testBit_add_one]
  · rw [Nat.add_sub_cancel, Nat.sub_self]

theorem bits_add (width k n : Nat) :
    bits (width + k) n = bits width (n / 2 ^ k) ++ bits k n := by
  induction k generalizing n with
  | zero => simp [bits]
  | succ k ih =>
    rw [← Nat.add_assoc, bits_succ, ih, bits_succ k, Nat.div_div_eq_div_mul, Nat.pow_succ,
      Nat.mul_comm 2, List.append_assoc]

theorem bits_mod (width n : Nat) : bits width (n % 2 ^ width) = bits width n := by
  refine List.map_congr_left fun i hi => ?_
  have hi : i < width := List.mem_range.mp hi
  rw [Nat.testBit_mod_two_pow, decide_eq_true (by omega), Bool.true_and]

theorem number_concat (t : Bits) (b : Bool) : number (t ++ [b]) = 2 * number t + b.toNat := by
  rw [number, List.foldl_append]
  rfl

theorem number_append_bits (t : Bits) {width n : Nat} (hn : n < 2 ^ width) :
    number (t ++ bits width n) = number t * 2 ^ width + n := by
  induction width generalizing n with
  | zero =>
    obtain rfl : n = 0 := by simpa using hn
    simp [bits]
  | succ width ih =>
    rw [Nat.pow_succ] at hn
    have hbit : (n.testBit 0).toNat = n % 2 := by
      rw [Nat.testBit_zero]
      rcases Nat.mod_two_eq_zero_or_one n with h | h <;> simp [h]
    rw [bits_succ, ← List.append_assoc, number_concat, ih (by omega), hbit, Nat.pow_succ]
    have hparts := Nat.div_add_mod n 2
    calc 2 * (number t * 2 ^ width + n / 2) + n % 2
        = number t * (2 ^ width * 2) + (2 * (n / 2) + n % 2) := by ring
      _ = number t * (2 ^ width * 2) + n := by rw [hparts]

/-! ## Messages of bytes -/

theorem message_append (s t : Text) : message (s ++ t) = message s ++ message t :=
  List.flatMap_append

theorem length_message (t : Text) : (message t).length = 8 * t.length := by
  induction t with
  | nil => rfl
  | cons b t ih =>
    show (bits 8 b.toNat ++ message t).length = _
    rw [List.length_append, length_bits, ih, List.length_cons]
    ring

theorem drop_message (k : Nat) (t : Text) : (message t).drop (8 * k) = message (t.drop k) := by
  by_cases hk : k ≤ t.length
  · have hsplit : message t = message (t.take k) ++ message (t.drop k) := by
      rw [← message_append, List.take_append_drop]
    refine hsplit ▸ List.drop_left' ?_
    rw [length_message, List.length_take, Nat.min_eq_left hk]
  · rw [List.drop_eq_nil_of_le, List.drop_eq_nil_of_le (by omega)]
    · rfl
    · rw [length_message]
      omega

theorem take_message (k : Nat) (t : Text) : (message t).take (8 * k) = message (t.take k) := by
  by_cases hk : k ≤ t.length
  · have hsplit : message t = message (t.take k) ++ message (t.drop k) := by
      rw [← message_append, List.take_append_drop]
    refine hsplit ▸ List.take_left' ?_
    rw [length_message, List.length_take, Nat.min_eq_left hk]
  · rw [List.take_of_length_le, List.take_of_length_le (by omega)]
    rw [length_message]
    omega

/-! ## Padding -/

theorem message_replicate_zero (n : Nat) :
    message (List.replicate n 0) = List.replicate (8 * n) false := by
  induction n with
  | zero => rfl
  | succ n ih =>
    have hzero : bits 8 (0 : UInt8).toNat = List.replicate 8 false := by decide
    show bits 8 (0 : UInt8).toNat ++ message (List.replicate n 0) = _
    rw [ih, hzero, ← List.replicate_add]
    congr 1
    ring

/-- The bytes of a number, the highest first, have its bits. -/
theorem message_bytes (k n : Nat) :
    message ((List.range k).map fun j => UInt8.ofNat (n / 256 ^ (k - 1 - j))) = bits (8 * k) n := by
  induction k generalizing n with
  | zero => rfl
  | succ k ih =>
    have hfirst : ∀ j ∈ List.range k, UInt8.ofNat (n / 256 ^ (k + 1 - 1 - j)) =
        UInt8.ofNat (n / 256 / 256 ^ (k - 1 - j)) := by
      intro j hj
      have hj : j < k := List.mem_range.mp hj
      have hplace : k + 1 - 1 - j = k - 1 - j + 1 := by omega
      rw [hplace, Nat.pow_succ', Nat.div_div_eq_div_mul]
    have hlast : message [UInt8.ofNat n] = bits 8 n := by
      show bits 8 (UInt8.ofNat n).toNat ++ [] = _
      rw [List.append_nil, UInt8.toNat_ofNat']
      exact bits_mod 8 n
    rw [List.range_succ, List.map_append, List.map_singleton, message_append,
      List.map_congr_left hfirst, ih]
    rw [Nat.add_sub_cancel, Nat.sub_self, Nat.pow_zero, Nat.div_one, hlast, Nat.mul_succ, bits_add]
    rfl

theorem zeros_eq (bytes : Nat) : zeros (8 * bytes) = 7 + 8 * ((119 - bytes % 64) % 64) := by
  rw [zeros, Nat.find_eq_iff]
  constructor
  · omega
  · intro k hk
    omega

/-- What is put behind the bytes of a message is what the standard puts behind its bits. -/
theorem padded_message (m : Text) : padded (message m) = message (m ++ padding m.length) := by
  have hlength : message (lengthBytes m.length) = bits 64 (8 * m.length) := by
    rw [← message_bytes 8, Nat.mul_comm 8]
    rfl
  have hmark : bits 8 (0x80 : UInt8).toNat = true :: List.replicate 7 false := by decide
  have hpadding : message (padding m.length) =
      true :: List.replicate (zeros (8 * m.length)) false ++ bits 64 (8 * m.length) := by
    rw [padding, message_append, hlength, zeros_eq, List.replicate_add]
    congr 1
    show bits 8 (0x80 : UInt8).toNat ++ message (List.replicate _ 0) = _
    rw [message_replicate_zero, hmark]
    rfl
  rw [padded, message_append, hpadding, length_message]
  simp only [List.append_assoc, List.cons_append, List.nil_append]

end Standard

open Standard (blockWord length_message)

/-- The padded message consists of whole blocks. -/
theorem length_padding (n : Nat) : (n + (padding n).length) % 64 = 0 := by
  have hlength : (padding n).length = 1 + (119 - n % 64) % 64 + 8 := by
    simp only [padding, lengthBytes, List.length_append, List.length_cons, List.length_replicate,
      List.length_map, List.length_range]
    omega
  omega

/-! ## Words -/

/-- The word of some bytes. -/
def wordOf (t : Text) : UInt32 := UInt32.ofNat (number (message t))

theorem word_eq_wordOf (b0 b1 b2 b3 : UInt8) : word b0 b1 b2 b3 = wordOf [b0, b1, b2, b3] := by
  have h0 := b0.toNat_lt
  have h1 := b1.toNat_lt
  have h2 := b2.toNat_lt
  have h3 := b3.toNat_lt
  -- the bytes stand in places of their own, so joining them adds them
  have hvalue : (word b0 b1 b2 b3).toNat =
      ((b0.toNat * 256 + b1.toNat) * 256 + b2.toNat) * 256 + b3.toNat := by
    have hshift {b : UInt8} {k : Nat} (hb : b.toNat < 256) (hk : k ≤ 24) :
        b.toNat <<< k % 2 ^ 32 = b.toNat <<< k := by
      refine Nat.mod_eq_of_lt ?_
      rw [Nat.shiftLeft_eq]
      calc b.toNat * 2 ^ k < 256 * 2 ^ k := Nat.mul_lt_mul_of_pos_right hb (Nat.two_pow_pos k)
        _ ≤ 256 * 2 ^ 24 := Nat.mul_le_mul_left _ (Nat.pow_le_pow_right (by decide) hk)
        _ = 2 ^ 32 := by decide
    have hplaces : (word b0 b1 b2 b3).toNat =
        b0.toNat <<< 24 ||| b1.toNat <<< 16 ||| b2.toNat <<< 8 ||| b3.toNat := by
      rw [word]
      simp only [UInt32.toNat_or, UInt32.toNat_shiftLeft, UInt8.toNat_toUInt32]
      rw [show (24 : UInt32).toNat % 32 = 24 from rfl, show (16 : UInt32).toNat % 32 = 16 from rfl,
        show (8 : UInt32).toNat % 32 = 8 from rfl, hshift h0 (by decide), hshift h1 (by decide),
        hshift h2 (by decide)]
    rw [hplaces, Nat.or_assoc, Nat.or_assoc,
      ← Nat.shiftLeft_add_eq_or_of_lt (i := 8) (b := b3.toNat) (by omega),
      ← Nat.shiftLeft_add_eq_or_of_lt (i := 16) (by rw [Nat.shiftLeft_eq]; omega),
      ← Nat.shiftLeft_add_eq_or_of_lt (i := 24) (by simp only [Nat.shiftLeft_eq]; omega)]
    simp only [Nat.shiftLeft_eq]
    ring
  have hbytes : message [b0, b1, b2, b3] =
      (([] ++ bits 8 b0.toNat) ++ bits 8 b1.toNat ++ bits 8 b2.toNat) ++ bits 8 b3.toNat := by
    simp [message]
  have hnumber : number (message [b0, b1, b2, b3]) =
      ((b0.toNat * 256 + b1.toNat) * 256 + b2.toNat) * 256 + b3.toNat := by
    rw [hbytes, Standard.number_append_bits _ h3, Standard.number_append_bits _ h2,
      Standard.number_append_bits _ h1, Standard.number_append_bits _ h0]
    simp [number]
  rw [wordOf, hnumber, ← hvalue, UInt32.ofNat_toNat]

theorem words_eq (t : Text) :
    words t = (List.range (t.length / 4)).map fun j => wordOf ((t.drop (4 * j)).take 4) := by
  fun_induction words t with
  | case1 b0 b1 b2 b3 rest ih =>
    have hlength : (b0 :: b1 :: b2 :: b3 :: rest).length / 4 = rest.length / 4 + 1 := by
      simp only [List.length_cons]
      omega
    rw [hlength, List.range_succ_eq_map, List.map_cons, List.map_map, ih, word_eq_wordOf]
    rfl
  | case2 t hshort =>
    have hlength : t.length < 4 := by
      by_contra hlong
      match t, hlong with
      | b0 :: b1 :: b2 :: b3 :: rest, _ => exact hshort b0 b1 b2 b3 rest rfl
      | [], h => exact h (by decide)
      | [_], h => exact h (by simp)
      | [_, _], h => exact h (by simp)
      | [_, _, _], h => exact h (by simp)
    rw [Nat.div_eq_of_lt hlength]
    rfl

/-- Block `i` of a text. -/
def block (t : Text) (i : Nat) : Text := (t.drop (64 * i)).take 64

theorem words_block {t : Text} {i : Nat} (h : 64 * i + 64 ≤ t.length) :
    words (block t i) = (List.range 16).map (blockWord (message t) i) := by
  have hlength : (block t i).length = 64 := by
    rw [block, List.length_take, List.length_drop]
    omega
  rw [words_eq, hlength]
  refine List.map_congr_left fun j hj => ?_
  have hj : j < 16 := List.mem_range.mp hj
  have hpart : ((block t i).drop (4 * j)).take 4 = (t.drop (64 * i + 4 * j)).take 4 := by
    rw [block, List.drop_take, List.take_take, List.drop_drop]
    congr 1
    omega
  have hplace : 512 * i + 32 * j = 8 * (64 * i + 4 * j) := by omega
  rw [hpart, blockWord, hplace, Standard.drop_message, wordOf]
  exact congrArg (fun t => UInt32.ofNat (number t)) (Standard.take_message 4 _).symm

end CloneScout.Sha1
