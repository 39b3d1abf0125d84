import CloneScout.Text.Basic

/-!
# SHA-1

The digest of a message, by the standard: pad the message to blocks of 64 bytes, compress block
after block into five words, and write the words big-endian. A `Hasher` takes the message in pieces.
-/

namespace CloneScout.Sha1

/-- The five words that blocks are compressed into. -/
structure Words where
  a : UInt32
  b : UInt32
  c : UInt32
  d : UInt32
  e : UInt32
  deriving DecidableEq, Repr

def initial : Words := ⟨0x67452301, 0xEFCDAB89, 0x98BADCFE, 0x10325476, 0xC3D2E1F0⟩

/-- Rotation to the left, for `0 < n < 32`. -/
def rotl (x : UInt32) (n : UInt32) : UInt32 := (x <<< n) ||| (x >>> (32 - n))

/-- Four bytes as a big-endian word. -/
def word (b0 b1 b2 b3 : UInt8) : UInt32 :=
  (b0.toUInt32 <<< 24) ||| (b1.toUInt32 <<< 16) ||| (b2.toUInt32 <<< 8) ||| b3.toUInt32

/-- The words of a block. -/
def words : Text → List UInt32
  | b0 :: b1 :: b2 :: b3 :: rest => word b0 b1 b2 b3 :: words rest
  | _ => []

/-- Extends the schedule by `n` words, each the rotated sum of the words 3, 8, 14 and 16 back. The
schedule is kept with its latest word first. -/
def extend : (n : Nat) → (latest : List UInt32) → List UInt32
  | 0, ws => ws
  | n + 1, ws =>
    let w := rotl (ws.getD 2 0 ^^^ ws.getD 7 0 ^^^ ws.getD 13 0 ^^^ ws.getD 15 0) 1
    extend n (w :: ws)

/-- The eighty words of a block's schedule. -/
def schedule (block : Text) : List UInt32 := (extend 64 (words block).reverse).reverse

/-- The round function and constant of round `i`. -/
def round (i : Nat) (b c d : UInt32) : UInt32 × UInt32 :=
  if i < 20 then ((b &&& c) ||| (~~~b &&& d), 0x5A827999)
  else if i < 40 then (b ^^^ c ^^^ d, 0x6ED9EBA1)
  else if i < 60 then ((b &&& c) ||| (b &&& d) ||| (c &&& d), 0x8F1BBCDC)
  else (b ^^^ c ^^^ d, 0xCA62C1D6)

/-- Runs the rounds from `i` on, one for each word of the schedule. -/
def rounds : (i : Nat) → List UInt32 → Words → Words
  | _, [], s => s
  | i, w :: ws, s =>
    let (f, k) := round i s.b s.c s.d
    rounds (i + 1) ws ⟨rotl s.a 5 + f + s.e + k + w, s.a, rotl s.b 30, s.c, s.d⟩

/-- Compresses one block of 64 bytes. -/
def compress (s : Words) (block : Text) : Words :=
  let r := rounds 0 (schedule block) s
  ⟨s.a + r.a, s.b + r.b, s.c + r.c, s.d + r.d, s.e + r.e⟩

/-- The length of a message in bits, as eight bytes. -/
def lengthBytes (bytes : Nat) : Text :=
  (List.range 8).map fun j => UInt8.ofNat (bytes * 8 / Nat.pow 256 (7 - j))

/-- What is put behind a message of the given length: one set bit, zeros up to eight bytes before a
block boundary, the length. -/
def padding (bytes : Nat) : Text :=
  0x80 :: List.replicate ((119 - bytes % 64) % 64) 0 ++ lengthBytes bytes

/-- The first `n` blocks of a text, compressed one after the other. -/
def compressBlocks : (n : Nat) → Words → Text → Words
  | 0, s, _ => s
  | n + 1, s, t => compressBlocks n (compress s (t.take 64)) (t.drop 64)

/-- Compresses the whole blocks of a text. -/
def compressAll (s : Words) (t : Text) : Words := compressBlocks (t.length / 64) s t

def wordHex (w : UInt32) : Text := Text.hex 8 w.toNat

/-- The words of a digest in hexadecimal. -/
def Words.hex (s : Words) : Text :=
  wordHex s.a ++ wordHex s.b ++ wordHex s.c ++ wordHex s.d ++ wordHex s.e

/-- The digest of a message in hexadecimal. -/
def hex (message : Text) : Text :=
  (compressAll initial (message ++ padding message.length)).hex

/-- A digest under way: the words so far, the bytes of the block that is not full yet, and the
number of bytes taken in. -/
structure Hasher where
  words : Words := initial
  pending : Text := []
  length : Nat := 0

namespace Hasher

/-- Takes in a piece of the message. -/
def update (h : Hasher) (piece : Text) : Hasher :=
  let t := h.pending ++ piece
  { words := compressAll h.words t
    pending := t.drop (t.length / 64 * 64)
    length := h.length + piece.length }

/-- The digest of everything taken in. -/
def finish (h : Hasher) : Text :=
  (compressAll h.words (h.pending ++ padding h.length)).hex

end Hasher

end CloneScout.Sha1
