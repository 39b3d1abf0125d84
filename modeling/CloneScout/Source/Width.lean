import CloneScout.Text.Utf8

/-!
# Display width

Columns that a text takes on a terminal: two for Hangul, CJK and full-width forms, none for control
and combining characters, one for everything else. A tab counts as one column.
-/

namespace CloneScout.Width

/-- Closed ranges of code points that take two columns. -/
def wideRanges : List (Nat × Nat) :=
  [(0x1100, 0x115F), (0x2E80, 0xA4CF), (0xAC00, 0xD7A3), (0xF900, 0xFAFF), (0xFF00, 0xFF60),
    (0xFFE0, 0xFFE6)]

def codePoint (cp : Nat) : Nat :=
  if cp = 9 then 1
  else if cp < 32 || (0x7F ≤ cp && cp < 0xA0) then 0
  else if 0x300 ≤ cp && cp ≤ 0x36F then 0
  else if wideRanges.any fun r => r.1 ≤ cp && cp ≤ r.2 then 2
  else 1

/-- The width of a text. Bytes outside every UTF-8 form take one column each. -/
def text (t : Text) : Nat :=
  (Utf8.decodeWith (fun _ => 0xFFFD) t).foldl (fun width cp => width + codePoint cp) 0

end CloneScout.Width
