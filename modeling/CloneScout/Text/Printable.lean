import CloneScout.Text.Basic

/-!
# Printable code points

A code point is printable unless it is a control or format character, a separator other than the
blank, a surrogate, private, or beyond the last plane in use.
-/

namespace CloneScout.Printable

/-- The closed ranges of code points that are written as escapes, in increasing order. -/
def escapedRanges : List (Nat × Nat) :=
  [(0x00, 0x1F), (0x7F, 0xA0), (0xAD, 0xAD), (0x600, 0x605), (0x61C, 0x61C), (0x6DD, 0x6DD),
    (0x70F, 0x70F), (0x8E2, 0x8E2), (0x1680, 0x1680), (0x180E, 0x180E), (0x2000, 0x200F),
    (0x2028, 0x202F), (0x205F, 0x206F), (0x3000, 0x3000), (0xD800, 0xF8FF), (0xFEFF, 0xFEFF),
    (0xFFF9, 0xFFFB), (0xFFFE, 0xFFFF), (0x110BD, 0x110BD), (0x110CD, 0x110CD),
    (0x1BCA0, 0x1BCA3), (0x1D173, 0x1D17A), (0xE0001, 0xE0001), (0xE0020, 0xE007F)]

def isPrintable (cp : Nat) : Bool :=
  cp < 0xF0000 && !escapedRanges.any fun r => r.1 ≤ cp && cp ≤ r.2

end CloneScout.Printable
