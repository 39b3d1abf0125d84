/-!
# Machine words

Line numbers and counts are unsigned words of 32 bits and start again from zero beyond the largest.
The integers of settings files are signed words of 64 bits.
-/

namespace CloneScout.Word

/-- How many unsigned words there are. -/
def count : Nat := 4294967296

/-- The word that a number becomes. -/
def wrap (n : Nat) : Nat := n % count

/-- The number has a word of its own. -/
def fits (n : Nat) : Bool := n < count

/-- The least number beyond the signed words of 64 bits. -/
def longBound : Int := 9223372036854775808

/-- The integer is a signed word of 64 bits. -/
def fitsLong (n : Int) : Bool := -longBound ≤ n && n < longBound

end CloneScout.Word
