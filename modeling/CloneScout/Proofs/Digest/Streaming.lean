import CloneScout.Proofs.Digest.Standard

/-!
# Digests of messages

Compression follows the standard word by word and round by round. A message may be taken in piece by
piece: what was taken in is compressed as far as it makes whole blocks, and the rest waits. So the
digest does not depend on how the message is cut, and it is the digest of the standard.
-/

namespace CloneScout.Sha1

open Standard (bits message blockWord)

/-! ## Compression -/

theorem rotl_eq_rotate {n : Nat} (hn : n = 1 ∨ n = 5 ∨ n = 30) (x : UInt32) :
    rotl x (UInt32.ofNat n) = Standard.rotate n x := by
  apply UInt32.toBitVec_inj.mp
  rcases hn with rfl | rfl | rfl <;> rfl

theorem choose_eq (b c d : UInt32) : (b &&& c) ||| (~~~b &&& d) = Standard.choose b c d := by
  apply UInt32.toBitVec_inj.mp
  rw [Standard.choose]
  ext i hi
  simp only [UInt32.toBitVec_or, UInt32.toBitVec_and, UInt32.toBitVec_not, UInt32.toBitVec_xor,
    BitVec.getElem_or, BitVec.getElem_and, BitVec.getElem_not, BitVec.getElem_xor]
  cases b.toBitVec[i] <;> simp

theorem majority_eq (b c d : UInt32) :
    (b &&& c) ||| (b &&& d) ||| (c &&& d) = Standard.majority b c d := by
  apply UInt32.toBitVec_inj.mp
  rw [Standard.majority]
  ext i hi
  simp only [UInt32.toBitVec_or, UInt32.toBitVec_and, UInt32.toBitVec_xor, BitVec.getElem_or,
    BitVec.getElem_and, BitVec.getElem_xor]
  cases b.toBitVec[i] <;> cases c.toBitVec[i] <;> simp

theorem round_eq (t : Nat) (b c d : UInt32) :
    round t b c d = (Standard.function t b c d, Standard.constant t) := by
  rw [round, Standard.function, Standard.constant, choose_eq, majority_eq]
  simp only [Nat.lt_succ_iff]
  split
  · rfl
  split
  · rfl
  split
  · rfl
  · rfl

theorem rounds_eq (w : Nat → UInt32) (i n : Nat) (s : Words) :
    rounds i ((List.range' i n).map (Standard.schedule w)) s =
      (List.range' i n).foldl (Standard.round w) s := by
  induction n generalizing i s with
  | zero => rfl
  | succ n ih =>
    rw [List.range'_succ, List.map_cons, List.foldl_cons, rounds, round_eq, ← ih]
    rw [Standard.round, ← rotl_eq_rotate (.inr (.inl rfl)), ← rotl_eq_rotate (.inr (.inr rfl))]
    rfl

/-- The words of the schedule before word `t`, the latest first. -/
def latest (w : Nat → UInt32) (t : Nat) : List UInt32 :=
  ((List.range t).map (Standard.schedule w)).reverse

theorem getD_latest (w : Nat → UInt32) {t k : Nat} (hk : k < t) :
    (latest w t).getD k 0 = Standard.schedule w (t - (k + 1)) := by
  have hlength : k < (latest w t).length := by simpa [latest] using hk
  rw [List.getD_eq_getElem?_getD, List.getElem?_eq_getElem hlength, Option.getD_some]
  simp only [latest, List.getElem_reverse, List.getElem_map, List.getElem_range, List.length_map,
    List.length_range]
  congr 1
  omega

theorem extend_latest (w : Nat → UInt32) (n : Nat) {t : Nat} (ht : 16 ≤ t) :
    extend n (latest w t) = latest w (t + n) := by
  induction n generalizing t with
  | zero => rfl
  | succ n ih =>
    have hnext : Standard.schedule w t = rotl (Standard.schedule w (t - 3) ^^^
        Standard.schedule w (t - 8) ^^^ Standard.schedule w (t - 14) ^^^
        Standard.schedule w (t - 16)) 1 := by
      rw [Standard.schedule, if_neg (by omega), ← rotl_eq_rotate (.inl rfl)]
      rfl
    have hcons : Standard.schedule w t :: latest w t = latest w (t + 1) := by
      rw [latest, latest, List.range_succ, List.map_append, List.reverse_append]
      rfl
    rw [extend, getD_latest w (by omega), getD_latest w (by omega), getD_latest w (by omega),
      getD_latest w (by omega)]
    rw [← hnext, hcons, ih (by omega)]
    congr 1
    omega

theorem schedule_eq {b : Text} {w : Nat → UInt32} (h : words b = (List.range 16).map w) :
    schedule b = (List.range 80).map (Standard.schedule w) := by
  have hfirst : (List.range 16).map w = (List.range 16).map (Standard.schedule w) := by
    refine List.map_congr_left fun t ht => ?_
    rw [Standard.schedule, if_pos (List.mem_range.mp ht)]
  rw [schedule, h, hfirst]
  show (extend 64 (latest w 16)).reverse = _
  rw [extend_latest w 64 (Nat.le_refl 16), latest, List.reverse_reverse]

theorem compress_eq {b : Text} {w : Nat → UInt32} (h : words b = (List.range 16).map w)
    (s : Words) : compress s b = Standard.compress s w := by
  have hrounds := rounds_eq w 0 80 s
  rw [← List.range_eq_range'] at hrounds
  rw [compress, schedule_eq h, hrounds, Standard.compress]
  simp only [UInt32.add_comm]

/-! ## Blocks after blocks -/

theorem compressBlocks_add (m n : Nat) (s : Words) (t : Text) :
    compressBlocks (m + n) s t = compressBlocks n (compressBlocks m s t) (t.drop (64 * m)) := by
  induction m generalizing s t with
  | zero => rw [Nat.zero_add]; rfl
  | succ m ih =>
    rw [Nat.succ_add, compressBlocks, compressBlocks, ih, List.drop_drop]
    congr 2
    omega

theorem compressBlocks_eq_foldl (n : Nat) (s : Words) (t : Text) :
    compressBlocks n s t = (List.range n).foldl (fun s i => compress s (block t i)) s := by
  induction n with
  | zero => rfl
  | succ n ih =>
    rw [compressBlocks_add, ih, List.range_succ, List.foldl_append]
    rfl

theorem compressBlocks_append {n : Nat} (s : Words) {t : Text} (h : 64 * n ≤ t.length) (u : Text) :
    compressBlocks n s (t ++ u) = compressBlocks n s t := by
  rw [compressBlocks_eq_foldl, compressBlocks_eq_foldl]
  refine List.foldl_ext _ _ s fun s i hi => ?_
  have hi : i < n := List.mem_range.mp hi
  rw [block, block, List.drop_append_of_le_length (by omega),
    List.take_append_of_le_length (by rw [List.length_drop]; omega)]

/-- What is left of a text behind its whole blocks. -/
def remainder (t : Text) : Text := t.drop (t.length / 64 * 64)

theorem length_remainder (t : Text) : (remainder t).length = t.length % 64 := by
  rw [remainder, List.length_drop]
  omega

theorem whole_append (t u : Text) :
    (t ++ u).length / 64 = t.length / 64 + (remainder t ++ u).length / 64 := by
  rw [List.length_append, List.length_append, length_remainder]
  omega

theorem drop_append_remainder (t u : Text) :
    (t ++ u).drop (64 * (t.length / 64)) = remainder t ++ u := by
  rw [List.drop_append_of_le_length (by omega), remainder, Nat.mul_comm]

/-- The whole blocks of a text may be compressed before the rest is there. -/
theorem compressAll_append (s : Words) (t u : Text) :
    compressAll s (t ++ u) = compressAll (compressAll s t) (remainder t ++ u) := by
  rw [compressAll, whole_append, compressBlocks_add, drop_append_remainder,
    compressBlocks_append s (by omega)]
  rfl

theorem remainder_append (t u : Text) : remainder (t ++ u) = remainder (remainder t ++ u) := by
  rw [remainder, whole_append, Nat.add_mul, ← List.drop_drop, Nat.mul_comm (t.length / 64),
    drop_append_remainder]
  rfl

/-! ## Pieces -/

namespace Hasher

/-- What a hasher has taken in. -/
structure Took (m : Text) (h : Hasher) : Prop where
  words : h.words = compressAll initial m
  pending : h.pending = remainder m
  length : h.length = m.length

variable {h : Hasher} {m : Text}

theorem took_nil : Took [] {} := ⟨rfl, rfl, rfl⟩

theorem Took.update (ht : h.Took m) (piece : Text) : (h.update piece).Took (m ++ piece) where
  words := by
    rw [compressAll_append, ← ht.words, ← ht.pending]
    rfl
  pending := by
    rw [remainder_append, ← ht.pending]
    rfl
  length := by
    rw [List.length_append, ← ht.length]
    rfl

theorem Took.updates (ht : h.Took m) (pieces : List Text) :
    (pieces.foldl Hasher.update h).Took (m ++ pieces.flatten) := by
  induction pieces generalizing h m with
  | nil => simpa using ht
  | cons piece pieces ih =>
    rw [List.foldl_cons, List.flatten_cons, ← List.append_assoc]
    exact ih (ht.update piece)

theorem Took.finish (ht : h.Took m) : h.finish = hex m := by
  rw [Hasher.finish, ht.words, ht.pending, ht.length, ← compressAll_append]
  rfl

end Hasher

/-! ## The digest of the standard -/

theorem wordHex_eq (w : UInt32) : wordHex w = Standard.wordText w := by
  have hdigit (n : Nat) :
      Text.hexDigit n = (utf8 "0123456789abcdef").getD (n % 16) 0 := by
    have hall : ∀ d < 16, Text.hexDigit d = (utf8 "0123456789abcdef").getD d 0 := by decide
    have hmod : Text.hexDigit n = Text.hexDigit (n % 16) := by simp [Text.hexDigit]
    rw [hmod]
    exact hall _ (Nat.mod_lt n (by decide))
  show Text.hexDigit _ :: Text.hexDigit _ :: Text.hexDigit _ :: Text.hexDigit _ ::
    Text.hexDigit _ :: Text.hexDigit _ :: Text.hexDigit _ :: Text.hexDigit _ :: [] = _
  simp only [hdigit]
  rfl

theorem compressAll_padding (m : Text) :
    compressAll initial (m ++ padding m.length) = Standard.digest (message m) := by
  have hwhole := length_padding m.length
  generalize hp : m ++ padding m.length = p
  have hlength : p.length % 64 = 0 := by rw [← hp, List.length_append, hwhole]
  have hblocks : (Standard.padded (message m)).length / 512 = p.length / 64 := by
    rw [Standard.padded_message, hp, Standard.length_message]
    omega
  rw [Standard.digest, hblocks, Standard.padded_message, hp, compressAll, compressBlocks_eq_foldl]
  refine List.foldl_ext _ _ initial fun s i hi => ?_
  have hi : i < p.length / 64 := List.mem_range.mp hi
  exact compress_eq (words_block (by omega)) s

theorem hex_eq_standard (m : Text) : hex m = Standard.hex m := by
  rw [hex, compressAll_padding, Words.hex]
  simp only [wordHex_eq]
  rfl

/-- However a message is cut into pieces, taking them in one after the other gives the digest of the
standard, in hexadecimal, and so does taking in the whole message at once. The bytes of the length
leave out what is above 64 bits. -/
theorem finish_pieces (pieces : List Text) :
    (pieces.foldl Hasher.update {}).finish = Standard.hex pieces.flatten ∧
      (pieces.foldl Hasher.update {}).finish = hex pieces.flatten := by
  have htook := Hasher.took_nil.updates pieces
  rw [List.nil_append] at htook
  constructor
  · rw [htook.finish, hex_eq_standard]
  · exact htook.finish

example : (([utf8 "a", [], utf8 "bc"].foldl Hasher.update {}).finish) =
    utf8 "a9993e364706816aba3e25717850c26c9cd0d89d" := by
  decide +kernel

end CloneScout.Sha1
