import CloneScout.Number.Word
import CloneScout.Text.Basic

/-!
# Values of a settings file

A small part of TOML: strings in double or single quotes, 64-bit integers, booleans, and arrays that
hold only strings or only integers. A value is read off the front of a text; what follows it is the
reader's second result.
-/

namespace CloneScout.Toml

inductive Value where
  | str (text : Text)
  | int (n : Int)
  | bool (b : Bool)
  | strs (texts : List Text)
  | ints (ns : List Int)
  deriving DecidableEq, Repr

namespace Value

/-- The text of a value as it is shown to a person: strings bare, arrays in brackets. -/
def render : Value → Text
  | str t => t
  | int n => Text.ofInt n
  | bool b => utf8 (if b then "true" else "false")
  | strs ts => utf8 "[" ++ Text.join (utf8 ", ") ts ++ utf8 "]"
  | ints ns => utf8 "[" ++ Text.join (utf8 ", ") (ns.map Text.ofInt) ++ utf8 "]"

end Value

/-- Why a line of a settings file cannot be read. -/
inductive Fault where
  | header
  | afterHeader
  | sectionName
  | noEquals
  | key
  | noValue
  | unsupported (word : Text)
  | escape (byte : UInt8)
  | openString
  | openArray
  | mixedArray
  | arrayItem
  | separator
  | afterValue
  deriving DecidableEq, Repr

def Fault.message : Fault → Text
  | .header => utf8 "invalid section header"
  | .afterHeader => utf8 "unexpected characters after section header"
  | .sectionName => utf8 "invalid section name"
  | .noEquals => utf8 "expected '='"
  | .key => utf8 "invalid key"
  | .noValue => utf8 "missing value"
  | .unsupported w => utf8 "unsupported value '" ++ w ++ utf8 "'"
  | .escape b => utf8 "invalid escape '\\" ++ [b] ++ utf8 "' in string"
  | .openString => utf8 "unterminated string"
  | .openArray => utf8 "unterminated array"
  | .mixedArray => utf8 "array values must be all strings or all integers"
  | .arrayItem => utf8 "array values must be strings or integers"
  | .separator => utf8 "expected ',' or ']' in array"
  | .afterValue => utf8 "unexpected characters after value"

/-! ## Layout -/

def lineFeed : UInt8 := ascii '\n'

/-- Blank, tab and carriage return. -/
def isBlank (b : UInt8) : Bool := b = ascii ' ' || b = ascii '\t' || b = ascii '\r'

/-- Cuts blanks and line feeds off both ends. -/
def trim (t : Text) : Text := t.trimWith fun b => isBlank b || b = lineFeed

/-- Drops what may stand between the parts of an array: blanks, line feeds, and comments from `#` to
the end of their line. -/
def skipLayout : (inComment : Bool) → Text → Text
  | _, [] => []
  | true, b :: t => skipLayout (b ≠ lineFeed) t
  | false, b :: t =>
    if isBlank b || b = lineFeed then skipLayout false t
    else if b = ascii '#' then skipLayout true t
    else b :: t

theorem length_skipLayout_le (c : Bool) (t : Text) : (skipLayout c t).length ≤ t.length := by
  induction t generalizing c with
  | nil => cases c <;> simp [skipLayout]
  | cons b t ih =>
    cases c with
    | true => exact Nat.le_succ_of_le (ih _)
    | false =>
      simp only [skipLayout]
      split
      · exact Nat.le_succ_of_le (ih _)
      · split
        · exact Nat.le_succ_of_le (ih _)
        · exact Nat.le_refl _

/-! ## Strings -/

/-- The byte that a letter behind a backslash stands for. -/
def escapeOf (b : UInt8) : Option UInt8 :=
  if b = ascii 'n' then some lineFeed
  else if b = ascii 't' then some (ascii '\t')
  else if b = ascii 'r' then some (ascii '\r')
  else if b = ascii '"' || b = ascii '\\' then some b
  else none

/-- Reads a string up to its closing quote. It may not hold a line feed; a backslash escapes the
next byte between double quotes and stands for itself between single ones. -/
def readString (quote : UInt8) : Text → Except Fault (Text × Text)
  | [] => .error .openString
  | b :: t =>
    if b = lineFeed then .error .openString
    else if b = quote then .ok ([], t)
    else if quote = ascii '\'' || b ≠ ascii '\\' then
      (readString quote t).map fun r => (b :: r.1, r.2)
    else
      match t with
      | [] => .error .openString
      | e :: t =>
        match escapeOf e with
        | none => .error (.escape e)
        | some c => (readString quote t).map fun r => (c :: r.1, r.2)

theorem length_readString_le {quote : UInt8} {t : Text} {r : Text × Text}
    (h : readString quote t = .ok r) : r.2.length ≤ t.length := by
  fun_induction readString quote t generalizing r with
  | case1 | case2 | case5 | case6 => cases h
  | case3 => cases h; simp
  | case4 b t _ _ _ ih =>
    cases hs : readString quote t with
    | error e => simp [hs, Except.map] at h
    | ok s =>
      simp only [hs, Except.map, Except.ok.injEq] at h
      have := ih hs
      rw [← h]
      exact Nat.le_succ_of_le this
  | case7 b _ _ _ e t c _ ih =>
    cases hs : readString quote t with
    | error e => simp [hs, Except.map] at h
    | ok s =>
      simp only [hs, Except.map, Except.ok.injEq] at h
      have := ih hs
      rw [← h]
      simp only [List.length_cons]
      omega

/-! ## Words: booleans and integers -/

/-- A bare word ends before a blank, a line feed, a comma, a closing bracket or a comment. -/
def endsWord (b : UInt8) : Bool :=
  isBlank b || b = lineFeed || b = ascii ',' || b = ascii ']' || b = ascii '#'

/-- The value of decimal digits, in which `_` may stand between two digits. -/
def readDigits : (acc : Nat) → (behindDigit : Bool) → Text → Option Nat
  | acc, behindDigit, [] => if behindDigit then some acc else none
  | acc, behindDigit, b :: t =>
    if b = ascii '_' then if behindDigit then readDigits acc false t else none
    else if Text.isDigit b then readDigits (acc * 10 + (b.toNat - 48)) true t
    else none

/-- The signed decimal integer that a word spells, if it fits into 64 bits. -/
def readInt (word : Text) : Option Int :=
  let value : Option Int :=
    match word with
    | [] => none
    | b :: t =>
      if b = ascii '-' then (readDigits 0 false t).map fun n => -(n : Int)
      else if b = ascii '+' then (readDigits 0 false t).map fun n => (n : Int)
      else (readDigits 0 false word).map fun n => (n : Int)
  value.filter Word.fitsLong

/-- The value that a bare word spells. -/
def readWord (word : Text) : Except Fault Value :=
  if word = utf8 "true" then .ok (.bool true)
  else if word = utf8 "false" then .ok (.bool false)
  else
    match readInt word with
    | some n => .ok (.int n)
    | none => .error (if word = [] then .noValue else .unsupported word)

/-! ## Values -/

/-- Reads a value that is not an array. -/
def readSingle (t : Text) : Except Fault (Value × Text) :=
  match t with
  | [] => .error .noValue
  | b :: rest =>
    if b = ascii '"' || b = ascii '\'' then
      (readString b rest).map fun r => (.str r.1, r.2)
    else
      (readWord (t.takeWhile fun b => !endsWord b)).map fun v =>
        (v, t.dropWhile fun b => !endsWord b)

theorem length_readSingle_le {t : Text} {r : Value × Text} (h : readSingle t = .ok r) :
    r.2.length ≤ t.length := by
  unfold readSingle at h
  split at h
  · cases h
  · next b rest =>
    split at h
    · cases hs : readString b rest with
      | error e => simp [hs, Except.map] at h
      | ok s =>
        simp only [hs, Except.map, Except.ok.injEq] at h
        subst h
        exact Nat.le_succ_of_le (length_readString_le hs)
    · cases hw : readWord ((b :: rest).takeWhile fun b => !endsWord b) with
      | error e => simp [hw, Except.map] at h
      | ok v =>
        simp only [hw, Except.map, Except.ok.injEq] at h
        subst h
        exact (List.dropWhile_suffix _).length_le

/-- Adds an item to an array. An array holds strings only or integers only, and the empty one takes
either. -/
def Value.push (row item : Value) : Except Fault Value :=
  match row, item with
  | .strs ts, .str t => .ok (.strs (ts ++ [t]))
  | .strs [], .int n => .ok (.ints [n])
  | .ints ns, .int n => .ok (.ints (ns ++ [n]))
  | _, .str _ => .error .mixedArray
  | _, .int _ => .error .mixedArray
  | _, _ => .error .arrayItem

/-- Reads the rest of an array behind the items of `row`, up to its closing bracket. A last comma is
allowed. An array inside an array is read for its own faults before it is refused. -/
def readItems (row : Value) (t : Text) : Except Fault (Value × Text) :=
  match hskip : skipLayout false t with
  | [] => .error .openArray
  | b :: rest =>
    have hrest : rest.length < t.length := by
      have := length_skipLayout_le false t
      rw [hskip] at this
      exact this
    if b = ascii ']' then .ok (row, rest)
    else if b = ascii '[' then
      match readItems (.strs []) rest with
      | .error e => .error e
      | .ok _ => .error .arrayItem
    else
      match hitem : readSingle (b :: rest) with
      | .error e => .error e
      | .ok (item, tail) =>
        have htail : tail.length ≤ rest.length + 1 := length_readSingle_le hitem
        match row.push item with
        | .error e => .error e
        | .ok row =>
          match hsep : skipLayout false tail with
          | [] => .error .separator
          | c :: next =>
            have hnext : next.length < tail.length := by
              have := length_skipLayout_le false tail
              rw [hsep] at this
              exact this
            if c = ascii ',' then readItems row next
            else if c = ascii ']' then .ok (row, next)
            else .error .separator
termination_by t.length

/-- Reads any value. -/
def readValue (t : Text) : Except Fault (Value × Text) :=
  match t with
  | [] => .error .noValue
  | b :: rest => if b = ascii '[' then readItems (.strs []) rest else readSingle (b :: rest)

/-- Reads what stands behind an equals sign: one value, then nothing but blanks and a comment. -/
def Value.ofText (t : Text) : Except Fault Value :=
  match readValue (t.dropWhile isBlank) with
  | .error e => .error e
  | .ok (v, rest) =>
    match rest.dropWhile isBlank with
    | [] => .ok v
    | b :: _ => if b = ascii '#' then .ok v else .error .afterValue

end CloneScout.Toml
