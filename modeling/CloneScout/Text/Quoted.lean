import CloneScout.Text.Utf8
import CloneScout.Text.Printable

/-!
# Quoted literals

A text or a byte string written as a literal: in single quotes unless it holds single quotes and no
double quote, with escapes for the quote in use, the backslash and everything that is not printable.
-/

namespace CloneScout.Quoted

/-- The quote that surrounds a literal. -/
def quoteFor (t : Text) : UInt8 :=
  if t.contains (ascii '\'') && !t.contains (ascii '"') then ascii '"' else ascii '\''

/-- The escape of a code point by number, in the shortest of the three widths. -/
def numberEscape (cp : Nat) : Text :=
  if cp < 0x100 then utf8 "\\x" ++ Text.hex 2 cp
  else if cp < 0x10000 then utf8 "\\u" ++ Text.hex 4 cp
  else utf8 "\\U" ++ Text.hex 8 cp

/-- What tab, line feed and carriage return are written as. -/
def layoutEscape? (cp : Nat) : Option Text :=
  if cp = 9 then some (utf8 "\\t")
  else if cp = 10 then some (utf8 "\\n")
  else if cp = 13 then some (utf8 "\\r")
  else none

/-- One code point inside a literal quoted by `quote`. -/
def codePoint (quote : UInt8) (cp : Nat) : Text :=
  if cp = quote.toNat || cp = 0x5C then [ascii '\\', UInt8.ofNat cp]
  else
    match layoutEscape? cp with
    | some t => t
    | none => if Printable.isPrintable cp then Utf8.encode cp else numberEscape cp

/-- A text as a literal. A byte outside every UTF-8 form is taken for the code point of its value.
-/
def text (t : Text) : Text :=
  let quote := quoteFor t
  quote :: (Utf8.decodeWith UInt8.toNat t).flatMap (codePoint quote) ++ [quote]

/-- One byte inside a byte literal quoted by `quote`. -/
def byte (quote : UInt8) (b : UInt8) : Text :=
  if b = quote || b = ascii '\\' then [ascii '\\', b]
  else
    match layoutEscape? b.toNat with
    | some t => t
    | none => if b < 0x20 || 0x7F ≤ b then utf8 "\\x" ++ Text.hex 2 b.toNat else [b]

/-- A byte string as a literal. -/
def bytes (t : Text) : Text :=
  let quote := quoteFor t
  ascii 'b' :: quote :: t.flatMap (byte quote) ++ [quote]

end CloneScout.Quoted
