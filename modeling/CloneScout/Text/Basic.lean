/-!
# Text as bytes

Source files, paths and messages are byte sequences here. Nothing assumes that they are valid UTF-8,
and every offset counts bytes.
-/

namespace CloneScout

/-- A text is a sequence of bytes. -/
abbrev Text := List UInt8

/-- The UTF-8 bytes of a string. -/
def utf8 (s : String) : Text := s.toUTF8.data.toList

/-- The byte of an ASCII character. -/
def ascii (c : Char) : UInt8 := c.val.toUInt8

namespace Text

/-- What holds of all bytes of a text is decided byte by byte along the text. -/
instance decidableForallMem (t : Text) (p : UInt8 → Prop) [DecidablePred p] :
    Decidable (∀ b ∈ t, p b) :=
  List.decidableBAll p t

/-! ## Byte classes, on ASCII only -/

def isDigit (b : UInt8) : Bool := ascii '0' ≤ b && b ≤ ascii '9'

def isLower (b : UInt8) : Bool := ascii 'a' ≤ b && b ≤ ascii 'z'

def isUpper (b : UInt8) : Bool := ascii 'A' ≤ b && b ≤ ascii 'Z'

def isLetter (b : UInt8) : Bool := isLower b || isUpper b

def toLower (b : UInt8) : UInt8 := if isUpper b then b + 32 else b

/-- Blank, tab, line feed, vertical tab, form feed and carriage return. -/
def isSpace (b : UInt8) : Bool := b = ascii ' ' || (9 ≤ b && b ≤ 13)

/-- The value of a hexadecimal digit of either case. -/
def hexValue (b : UInt8) : Option Nat :=
  if isDigit b then some (b.toNat - 48)
  else if ascii 'a' ≤ b && b ≤ ascii 'f' then some (b.toNat - 87)
  else if ascii 'A' ≤ b && b ≤ ascii 'F' then some (b.toNat - 55)
  else none

/-! ## Numerals -/

/-- The decimal numeral of a natural number. -/
def ofNat (n : Nat) : Text := (Nat.toDigits 10 n).map ascii

/-- The decimal numeral of an integer, with a leading minus sign below zero. -/
def ofInt : Int → Text
  | .ofNat n => ofNat n
  | .negSucc n => ascii '-' :: ofNat (n + 1)

/-- The hexadecimal digit of `n % 16`, in lower case. -/
def hexDigit (n : Nat) : UInt8 :=
  let d := n % 16
  if d < 10 then UInt8.ofNat (48 + d) else UInt8.ofNat (87 + d)

/-- The lowest `width` hexadecimal digits of `n`, highest first. -/
def hex : (width : Nat) → (n : Nat) → Text
  | 0, _ => []
  | width + 1, n => hexDigit (n / Nat.pow 16 width) :: hex width n

/-- The value of a run of decimal digits, read onto `acc`. -/
def natOfDigits (acc : Nat) : Text → Nat
  | [] => acc
  | b :: rest => natOfDigits (acc * 10 + (b.toNat - 48)) rest

/-! ## Order, search and joining -/

/-- Texts compare byte by byte, and a proper initial segment comes first. -/
def cmp : Text → Text → Ordering
  | [], [] => .eq
  | [], _ :: _ => .lt
  | _ :: _, [] => .gt
  | a :: as, b :: bs => if a < b then .lt else if b < a then .gt else cmp as bs

def le (a b : Text) : Bool := cmp a b != .gt

/-- What follows `start` at the beginning of a text. -/
def strip? : (start : Text) → Text → Option Text
  | [], t => some t
  | _ :: _, [] => none
  | p :: ps, b :: t => if p = b then strip? ps t else none

def startsWith (t start : Text) : Bool := (strip? start t).isSome

def endsWith (t tail : Text) : Bool := startsWith t.reverse tail.reverse

/-- The parts of a list of texts with `sep` between them. -/
def join (sep : Text) : List Text → Text
  | [] => []
  | [t] => t
  | t :: u :: rest => t ++ sep ++ join sep (u :: rest)

/-- The texts between the occurrences of `sep`, at least one. -/
def splitOn (sep : UInt8) : Text → List Text
  | [] => [[]]
  | b :: t =>
    if b = sep then [] :: splitOn sep t
    else
      match splitOn sep t with
      | [] => [[b]]
      | first :: rest => (b :: first) :: rest

/-- Replaces every occurrence of `key`, found from left to right without overlap, by `value`. The
search goes on behind what was replaced; `skip` counts the bytes of an occurrence still to drop. -/
def replaceFrom (key value : Text) : (skip : Nat) → Text → Text
  | _, [] => []
  | skip + 1, _ :: t => replaceFrom key value skip t
  | 0, b :: t =>
    if startsWith (b :: t) key then value ++ replaceFrom key value (key.length - 1) t
    else b :: replaceFrom key value 0 t

/-- Replaces every occurrence of a nonempty `key` by `value`. -/
def replaceAll (key value t : Text) : Text := replaceFrom key value 0 t

/-- Cuts blanks, tabs, carriage returns and line feeds off both ends. -/
def trimWith (drop : UInt8 → Bool) (t : Text) : Text :=
  ((t.dropWhile drop).reverse.dropWhile drop).reverse

end Text

/-- Two numbers in order. -/
def natCmp (a b : Nat) : Ordering := if a < b then .lt else if b < a then .gt else .eq

end CloneScout
