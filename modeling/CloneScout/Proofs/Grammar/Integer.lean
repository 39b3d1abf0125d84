import CloneScout.Grammar.Expr
import CloneScout.Proofs.Number.Limbs
import CloneScout.Proofs.Token.Numeral.Kinds
import CloneScout.Tree.Dump

/-!
# Integer literals keep their value

An integer literal denotes a number. The parser reads the token as this number, without a fault, and
writes it as its decimal numeral. Limbs compute the same numeral.
-/

namespace CloneScout

open Token (Kind)
open Token.Numeral
open Radix (IsNumeral Denotes valueOf marks)

/-! ## What integer literals denote -/

namespace Token.Numeral

theorem Digits.isNumeral {isDigit : UInt8 → Bool} {base : Nat} {t : Text} (ht : Digits isDigit t)
    (h : ∀ b, isDigit b = true → b ≠ ascii '_' ∧ ∃ d ∈ Text.hexValue b, d < base) :
    IsNumeral base t := by
  obtain ⟨b, r, rfl, hb⟩ := ht.head
  refine ⟨fun c hc => ?_, b, List.mem_cons_self, (h b hb).1⟩
  rcases ht.mem hc with hunder | hdigit
  · exact .inl hunder
  · obtain ⟨-, d, hd, hlt⟩ := h c hdigit
    exact .inr ⟨d, hlt, Radix.hexValue_eq_some_iff.mp hd⟩

theorem Decimal.isNumeral {t : Text} (ht : Decimal t) : IsNumeral 10 t := by
  refine Digits.isNumeral ht fun b hb => ?_
  obtain ⟨hunder, hvalue, hlt, -⟩ := Radix.digit_facts hb
  exact ⟨hunder, _, hvalue, hlt⟩

/-- Every mark selects a base, and asks for the digits of this base. -/
theorem exists_base {mark : UInt8} {isDigit : UInt8 → Bool} (hmark : (mark, isDigit) ∈ bases) :
    ∃ base, (mark, base) ∈ marks ∧
      ∀ b, isDigit b = true → b ≠ ascii '_' ∧ ∃ d ∈ Text.hexValue b, d < base := by
  have hhex : ∀ b : UInt8, Number.isHex b = true → b ≠ ascii '_' ∧
      ∃ d ∈ Text.hexValue b, d < 16 := Token.forall_byte (by decide +kernel)
  have hoctal : ∀ b : UInt8, Number.isOctal b = true → b ≠ ascii '_' ∧
      ∃ d ∈ Text.hexValue b, d < 8 := Token.forall_byte (by decide +kernel)
  have hbinary : ∀ b : UInt8, Number.isBinary b = true → b ≠ ascii '_' ∧
      ∃ d ∈ Text.hexValue b, d < 2 := Token.forall_byte (by decide +kernel)
  simp only [bases, List.mem_cons, Prod.mk.injEq, List.not_mem_nil, or_false] at hmark
  rcases hmark with ⟨rfl, rfl⟩ | ⟨rfl, rfl⟩ | ⟨rfl, rfl⟩ | ⟨rfl, rfl⟩ | ⟨rfl, rfl⟩ | ⟨rfl, rfl⟩
  · exact ⟨16, by decide, hhex⟩
  · exact ⟨16, by decide, hhex⟩
  · exact ⟨8, by decide, hoctal⟩
  · exact ⟨8, by decide, hoctal⟩
  · exact ⟨2, by decide, hbinary⟩
  · exact ⟨2, by decide, hbinary⟩

theorem IsBased.denotes {t : Text} (h : IsBased t) : ∃ v, Denotes t v := by
  cases h with
  | plain hmark ht =>
    obtain ⟨base, hbase, hdigits⟩ := exists_base hmark
    exact ⟨_, .based hbase (ht.isNumeral hdigits)⟩
  | @underscore mark isDigit t hmark ht =>
    obtain ⟨base, hbase, hdigits⟩ := exists_base hmark
    obtain ⟨hbytes, b, hb, hne⟩ := ht.isNumeral hdigits
    refine ⟨_, .based hbase ⟨?_, b, List.mem_cons_of_mem _ hb, hne⟩⟩
    exact List.forall_mem_cons.mpr ⟨.inl rfl, hbytes⟩

/-- Every integer literal denotes a number. -/
theorem IsLiteral.denotes {t : Text} (h : IsLiteral .intLit t) : ∃ v, Denotes t v := by
  cases h with
  | based h => exact h.denotes
  | whole h => exact ⟨_, .decimal (Decimal.isNumeral (isWhole_decimal h))⟩

end Token.Numeral

/-! ## Integers in limbs -/

namespace Limbs

/-- A digit string is computed in limbs to the numeral of what it denotes. -/
theorem parse?_isNumeral {base : UInt32} (hbase : base.toNat ≤ limit) {t : Text}
    (h : IsNumeral base.toNat t) :
    ∃ ls, parse? base t = some ls ∧ ls.toText = utf8 (toString (valueOf base.toNat t)) ∧
      (ls.isZero = true ↔ valueOf base.toNat t = 0) := by
  have hrel := parse?_represents hbase t
  rw [Radix.parse?_eq, if_pos h] at hrel
  generalize parse? base t = found at hrel ⊢
  cases hrel with
  | some hls => exact ⟨_, rfl, by rw [toText_eq hls, Text.ofNat_eq_utf8], isZero_iff hls⟩

theorem parse?_not_isNumeral {base : UInt32} (hbase : base.toNat ≤ limit) {t : Text}
    (h : ¬ IsNumeral base.toNat t) : parse? base t = none := by
  have hrel := parse?_represents hbase t
  rw [Radix.parse?_eq, if_neg h] at hrel
  generalize parse? base t = found at hrel ⊢
  cases hrel with
  | none => rfl

theorem parseLiteral?_denotes {t : Text} {v : Nat} (h : Denotes t v) :
    ∃ ls, parseLiteral? t = some ls ∧ ls.toText = utf8 (toString v) := by
  have hrel := parseLiteral?_represents t
  rw [h.parseLiteral?] at hrel
  generalize parseLiteral? t = found at hrel ⊢
  cases hrel with
  | some hls => exact ⟨_, rfl, by rw [toText_eq hls, Text.ofNat_eq_utf8]⟩

end Limbs

/-! ## Integers in the parser -/

theorem Cursor.peek_mem {c : Cursor} (h : c.kind ≠ .eof) : c.peek ∈ c.tokens := by
  unfold Cursor.kind Cursor.peek Cursor.get at *
  cases hget : c.tokens[c.pos + 0]? with
  | some t => exact Array.mem_of_getElem? hget
  | none =>
    rw [hget, Option.getD_none, final] at h
    rw [Option.getD_none, final]
    cases hback : c.tokens.back? with
    | some t => exact Array.mem_of_back? hback
    | none =>
      rw [hback] at h
      exact absurd rfl h

namespace Token

/-- The tokens of a source text or of a field in a string. -/
inductive AreCut : Array Token → Prop where
  | source (source : Text) : AreCut (lex source).1
  | field (offset line : Nat) (part : Text) : AreCut (lexField offset line part).1

theorem AreCut.areLiterals {ts : Array Token} (h : AreCut ts) : AreLiterals ts := by
  cases h with
  | source source => exact areLiterals_lex source
  | field offset line part => exact areLiterals_lexField offset line part

end Token

namespace Grammar

theorem run_number_of_denotes {s : State} (hkind : s.cursor.kind = .intLit) {v : Nat}
    (hv : Denotes s.cursor.peek.lexeme v) :
    ∃ x, number.run s = (.constant x (.int v), { s with cursor := s.cursor.bump }) := by
  have hpeek : s.cursor.peek.kind = .intLit := hkind
  have hbump (f : Token → Parser Expr) :
      (bump >>= f).run s = (f s.cursor.peek).run { s with cursor := s.cursor.bump } := rfl
  refine ⟨extentBetween s.cursor.peek s.cursor.bump.prev, ?_⟩
  unfold number
  rw [hbump, hpeek]
  dsimp only
  rw [hv.parseLiteral?]
  rfl

/-- In a base from two to 10 ^ 9 exactly the digit strings are read, and the limbs are written as the
decimal numeral of the number that the string denotes; they are zero if the number is. So an integer
token is read without a fault, and stands for the one number that it denotes. -/
theorem integer_values :
    (∀ base : UInt32, 2 ≤ base.toNat → base.toNat ≤ 1000000000 → ∀ t : Text,
      (IsNumeral base.toNat t →
        ∃ ls, Limbs.parse? base t = some ls ∧
          ls.toText = utf8 (toString (valueOf base.toNat t)) ∧
          (ls.isZero = true ↔ valueOf base.toNat t = 0)) ∧
      (¬ IsNumeral base.toNat t → Limbs.parse? base t = none)) ∧
    ∀ s : State, Token.AreCut s.cursor.tokens → s.cursor.kind = .intLit →
      ∃ v, (∀ n, Denotes s.cursor.peek.lexeme n ↔ n = v) ∧
        (∃ ls, Limbs.parseLiteral? s.cursor.peek.lexeme = some ls ∧
          ls.toText = utf8 (toString v)) ∧
        (∃ x, number.run s = (.constant x (.int v), { s with cursor := s.cursor.bump })) ∧
        Dump.constant (.int v) = .atom (utf8 (toString v)) := by
  constructor
  · intro base _ hhigh t
    exact ⟨Limbs.parse?_isNumeral hhigh, Limbs.parse?_not_isNumeral hhigh⟩
  · intro s hcut hkind
    have hmem : s.cursor.peek ∈ s.cursor.tokens := Cursor.peek_mem (by rw [hkind]; decide)
    have hpeek : s.cursor.peek.kind = .intLit := hkind
    have hliteral := hcut.areLiterals _ hmem (by rw [hpeek]; decide)
    rw [hpeek] at hliteral
    obtain ⟨v, hv⟩ := hliteral.denotes
    refine ⟨v, fun n => ⟨fun hn => hn.unique hv, ?_⟩, Limbs.parseLiteral?_denotes hv,
      run_number_of_denotes hkind hv, ?_⟩
    · rintro rfl
      exact hv
    · rw [Dump.constant, Text.ofNat_eq_utf8]

/-- A parser in front of an octal literal. -/
def integerSample : State :=
  { cursor := { tokens := (Token.lex (utf8 "0O_7_50\n")).1 }, maxErrors := 20, diags := #[] }

theorem integer_values_octal :
    (∃ ls, Limbs.parse? 16 (utf8 "_00fF_") = some ls ∧
      ls.toText = utf8 (toString (valueOf 16 (utf8 "_00fF_"))) ∧
      (ls.isZero = true ↔ valueOf 16 (utf8 "_00fF_") = 0)) ∧
    Limbs.parse? 16 (utf8 "_0g") = none ∧
    ∃ v, (∀ n, Denotes integerSample.cursor.peek.lexeme n ↔ n = v) ∧
      (∃ ls, Limbs.parseLiteral? integerSample.cursor.peek.lexeme = some ls ∧
        ls.toText = utf8 (toString v)) ∧
      (∃ x, number.run integerSample =
        (.constant x (.int v), { integerSample with cursor := integerSample.cursor.bump })) ∧
      Dump.constant (.int v) = .atom (utf8 (toString v)) :=
  ⟨(integer_values.1 16 (by decide) (by decide) (utf8 "_00fF_")).1 (by decide),
    (integer_values.1 16 (by decide) (by decide) (utf8 "_0g")).2 (by decide),
    integer_values.2 integerSample (.source (utf8 "0O_7_50\n")) (by decide +kernel)⟩

end Grammar

end CloneScout
