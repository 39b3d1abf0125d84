import CloneScout.Proofs.Text.Utf8
import CloneScout.Text.Quoted
import Mathlib.Algebra.Group.Nat.Defs

/-!
# Quoted literals can be read back

Between its quotes a literal is a sequence of code points, each in a written form that shows where
it ends. So a literal in front of any other text determines the text that it was written from, and
where it ends.
-/

namespace CloneScout

/-! ## Hexadecimal digits -/

namespace Text

/-- The number that hexadecimal digits stand for, read onto `acc`. -/
def natOfHex (acc : Nat) (t : Text) : Nat :=
  t.foldl (fun acc b => acc * 16 + (hexValue b).getD 0) acc

theorem hexValue_hexDigit (n : Nat) : hexValue (hexDigit n) = some (n % 16) := by
  have h : ∀ d < 16, hexValue (hexDigit d) = some (d % 16) := by decide
  have hdigit : hexDigit n = hexDigit (n % 16) := by simp [hexDigit]
  rw [hdigit, h _ (Nat.mod_lt n (by decide)), Nat.mod_mod]

theorem length_hex (width n : Nat) : (hex width n).length = width := by
  induction width with
  | zero => rfl
  | succ width ih => rw [hex, List.length_cons, ih]

theorem natOfHex_hex (acc width n : Nat) :
    natOfHex acc (hex width n) = acc * 16 ^ width + n % 16 ^ width := by
  induction width generalizing acc with
  | zero => simp [hex, natOfHex, Nat.mod_one]
  | succ width ih =>
    rw [hex, natOfHex, List.foldl_cons, hexValue_hexDigit, Option.getD_some]
    show natOfHex (acc * 16 + n / 16 ^ width % 16) (hex width n) = _
    rw [ih, Nat.pow_succ, Nat.mod_mul]
    grind

end Text

namespace Quoted

/-! ## Reading a code point -/

/-- The code point that is written behind a backslash, and what follows it. -/
def escaped? : Text → Option (Nat × Text)
  | [] => none
  | m :: t =>
    if m = ascii 'x' then some (Text.natOfHex 0 (t.take 2), t.drop 2)
    else if m = ascii 'u' then some (Text.natOfHex 0 (t.take 4), t.drop 4)
    else if m = ascii 'U' then some (Text.natOfHex 0 (t.take 8), t.drop 8)
    else if m = ascii 't' then some (9, t)
    else if m = ascii 'n' then some (10, t)
    else if m = ascii 'r' then some (13, t)
    else some (m.toNat, t)

/-- The code point in front of a text, and what follows it. -/
def point? : Text → Option (Nat × Text)
  | [] => none
  | b :: t =>
    if b = ascii '\\' then escaped? t
    else (Utf8.form? b t).map fun f => (f.1, t.drop f.2)

/-- The byte in front of a text, and what follows it. -/
def byte? : Text → Option (Nat × Text)
  | [] => none
  | b :: t => if b = ascii '\\' then escaped? t else some (b.toNat, t)

/-- The quotes that surround literals. -/
def IsQuote (q : UInt8) : Prop := q = ascii '\'' ∨ q = ascii '"'

theorem isQuote_quoteFor (t : Text) : IsQuote (quoteFor t) := by
  unfold quoteFor
  split
  · exact .inr rfl
  · exact .inl rfl

theorem escaped?_hex {m : UInt8} {width : Nat} (n : Nat) (r : Text)
    (h : (m = ascii 'x' ∧ width = 2) ∨ (m = ascii 'u' ∧ width = 4) ∨ (m = ascii 'U' ∧ width = 8)) :
    escaped? (m :: (Text.hex width n ++ r)) = some (n % 16 ^ width, r) := by
  have hlength := Text.length_hex width n
  have htake : (Text.hex width n ++ r).take width = Text.hex width n := by
    rw [List.take_append_of_le_length (by omega), List.take_of_length_le (by omega)]
  have hdrop : (Text.hex width n ++ r).drop width = r := by
    rw [List.drop_append_of_le_length (by omega), List.drop_of_length_le (by omega),
      List.nil_append]
  have hvalue := Text.natOfHex_hex 0 width n
  rw [Nat.zero_mul, Nat.zero_add] at hvalue
  rcases h with ⟨rfl, rfl⟩ | ⟨rfl, rfl⟩ | ⟨rfl, rfl⟩
  · rw [escaped?, if_pos rfl, htake, hdrop, hvalue]
  · rw [escaped?, if_neg (by decide), if_pos rfl, htake, hdrop, hvalue]
  · rw [escaped?, if_neg (by decide), if_neg (by decide), if_pos rfl, htake, hdrop, hvalue]

theorem numberEscape_eq {cp : Nat} (h : cp < 0x110000) (r : Text) :
    ∃ t, numberEscape cp = ascii '\\' :: t ∧ escaped? (t ++ r) = some (cp, r) := by
  have hx : utf8 "\\x" = [ascii '\\', ascii 'x'] := by decide
  have hu : utf8 "\\u" = [ascii '\\', ascii 'u'] := by decide
  have hU : utf8 "\\U" = [ascii '\\', ascii 'U'] := by decide
  unfold numberEscape
  split
  next hlt =>
    refine ⟨ascii 'x' :: Text.hex 2 cp, by rw [hx]; rfl, ?_⟩
    rw [List.cons_append, escaped?_hex cp r (.inl ⟨rfl, rfl⟩),
      Nat.mod_eq_of_lt (show cp < 16 ^ 2 from hlt)]
  next =>
    split
    next hlt =>
      refine ⟨ascii 'u' :: Text.hex 4 cp, by rw [hu]; rfl, ?_⟩
      rw [List.cons_append, escaped?_hex cp r (.inr (.inl ⟨rfl, rfl⟩)),
        Nat.mod_eq_of_lt (show cp < 16 ^ 4 from hlt)]
    next =>
      refine ⟨ascii 'U' :: Text.hex 8 cp, by rw [hU]; rfl, ?_⟩
      rw [List.cons_append, escaped?_hex cp r (.inr (.inr ⟨rfl, rfl⟩)), Nat.mod_eq_of_lt (by omega)]

theorem layoutEscape?_eq {cp : Nat} {t : Text} (h : layoutEscape? cp = some t) (r : Text) :
    ∃ u, t = ascii '\\' :: u ∧ escaped? (u ++ r) = some (cp, r) := by
  have ht : utf8 "\\t" = [ascii '\\', ascii 't'] := by decide
  have hn : utf8 "\\n" = [ascii '\\', ascii 'n'] := by decide
  have hr : utf8 "\\r" = [ascii '\\', ascii 'r'] := by decide
  unfold layoutEscape? at h
  split at h
  next hcp =>
    obtain rfl := Option.some.inj h
    exact ⟨[ascii 't'], ht, by rw [hcp]; rfl⟩
  next =>
    split at h
    next hcp =>
      obtain rfl := Option.some.inj h
      exact ⟨[ascii 'n'], hn, by rw [hcp]; rfl⟩
    next =>
      split at h
      next hcp =>
        obtain rfl := Option.some.inj h
        exact ⟨[ascii 'r'], hr, by rw [hcp]; rfl⟩
      next => exact absurd h (by simp)

/-- A quote or a backslash behind a backslash stands for itself. -/
theorem escaped?_self {b : UInt8} (h : IsQuote b ∨ b = ascii '\\') (r : Text) :
    escaped? (b :: r) = some (b.toNat, r) := by
  rcases h with (rfl | rfl) | rfl <;> rfl

/-- The written form of a code point starts with a backslash or is its UTF-8 form. -/
theorem codePoint_cases {q : UInt8} (hq : IsQuote q) {cp : Nat} (h : cp < 0x110000) (r : Text) :
    (∃ t, codePoint q cp = ascii '\\' :: t ∧ escaped? (t ++ r) = some (cp, r)) ∨
      (codePoint q cp = Utf8.encode cp ∧ cp ≠ q.toNat ∧ cp ≠ 0x5C) := by
  unfold codePoint
  split
  next hself =>
    simp only [Bool.or_eq_true, decide_eq_true_eq] at hself
    have hcp : UInt8.ofNat cp = q ∧ cp = q.toNat ∨ UInt8.ofNat cp = ascii '\\' ∧ cp = 0x5C := by
      rcases hself with rfl | rfl
      · exact .inl ⟨UInt8.ofNat_toNat, rfl⟩
      · exact .inr ⟨rfl, rfl⟩
    refine .inl ⟨[UInt8.ofNat cp], rfl, ?_⟩
    rcases hcp with ⟨hb, hval⟩ | ⟨hb, hval⟩
    · rw [hb, hval]
      exact escaped?_self (.inl hq) r
    · rw [hb, hval]
      exact escaped?_self (.inr rfl) r
  next hself =>
    simp only [Bool.or_eq_true, decide_eq_true_eq, not_or] at hself
    split
    next t ht => exact .inl (layoutEscape?_eq ht r)
    next =>
      split
      · exact .inr ⟨rfl, hself⟩
      · exact .inl (numberEscape_eq h r)

theorem point?_codePoint {q : UInt8} (hq : IsQuote q) {cp : Nat} (h : cp < 0x110000) (r : Text) :
    point? (codePoint q cp ++ r) = some (cp, r) := by
  rcases codePoint_cases hq h r with ⟨t, ht, hread⟩ | ⟨henc, -, hne⟩
  · rw [ht, List.cons_append, point?, if_pos rfl, hread]
  · obtain ⟨b, tail, hform, hread⟩ := Utf8.form?_encode h r
    have hb : b ≠ ascii '\\' := by
      rintro rfl
      -- a form that starts with an ASCII byte is that byte
      obtain ⟨b', tail', hform', -, -, hascii⟩ := Utf8.encode_eq_cons h
      rw [hform] at hform'
      obtain ⟨rfl, rfl⟩ := List.cons.inj hform'
      exact hne (hascii (by decide)).2.symm
    rw [henc, hform, List.cons_append, point?, if_neg hb, hread]
    simp

/-- The written form of a code point is not empty and does not start with the quote. -/
theorem codePoint_eq_cons {q : UInt8} (hq : IsQuote q) {cp : Nat} (h : cp < 0x110000) :
    ∃ b tail, codePoint q cp = b :: tail ∧ b ≠ q := by
  rcases codePoint_cases hq h [] with ⟨t, ht, -⟩ | ⟨henc, hne, -⟩
  · exact ⟨_, _, ht, by rcases hq with rfl | rfl <;> decide⟩
  · obtain ⟨b, tail, hform, -, -, hascii⟩ := Utf8.encode_eq_cons h
    refine ⟨b, tail, by rw [henc, hform], ?_⟩
    rintro rfl
    exact hne (hascii (by rcases hq with rfl | rfl <;> decide)).2.symm

/-! ## Reading a literal -/

section

variable {α : Type}

/-- Items whose written forms can be read one by one, followed by a mark that starts none of them,
are determined by what is written. -/
theorem flatMap_append_inj {write : α → Text} (read : Text → Option (α × Text)) {q : UInt8}
    {as as' : List α} {r r' : Text}
    (hread : ∀ a ∈ as ++ as', ∀ r, read (write a ++ r) = some (a, r))
    (hhead : ∀ a ∈ as ++ as', ∃ b tail, write a = b :: tail ∧ b ≠ q)
    (h : as.flatMap write ++ q :: r = as'.flatMap write ++ q :: r') : as = as' ∧ r = r' := by
  induction as generalizing as' with
  | nil =>
    cases as' with
    | nil => simpa using h
    | cons a' as' =>
      obtain ⟨b, tail, hb, hne⟩ := hhead a' (by simp)
      rw [List.flatMap_nil, List.nil_append, List.flatMap_cons, hb] at h
      exact absurd (List.cons.inj h).1 (Ne.symm hne)
  | cons a as ih =>
    cases as' with
    | nil =>
      obtain ⟨b, tail, hb, hne⟩ := hhead a (by simp)
      rw [List.flatMap_nil, List.nil_append, List.flatMap_cons, hb] at h
      exact absurd (List.cons.inj h).1 hne
    | cons a' as' =>
      rw [List.flatMap_cons, List.flatMap_cons, List.append_assoc, List.append_assoc] at h
      have hfirst := hread a (by simp) (as.flatMap write ++ q :: r)
      rw [h, hread a' (by simp)] at hfirst
      obtain ⟨rfl, hrest⟩ := Prod.mk.inj (Option.some.inj hfirst)
      obtain ⟨rfl, rfl⟩ := ih (fun b hb => hread b (by grind)) (fun b hb => hhead b (by grind))
        hrest.symm
      exact ⟨rfl, rfl⟩

end

theorem text_eq {t : Text} {cps : List Nat} (h : ∀ cp ∈ cps, cp < 0x110000)
    (ht : t = cps.flatMap Utf8.encode) :
    text t = quoteFor t :: (cps.flatMap (codePoint (quoteFor t)) ++ [quoteFor t]) := by
  have hdecode : Utf8.decodeWith UInt8.toNat t = cps := by
    rw [ht, Utf8.decodeWith_flatMap_encode _ h]
  rw [text]
  simp only [hdecode, List.cons_append]

/-- A literal in front of a text determines what it was written from. -/
theorem text_append_inj {t t' r r' : Text} (ht : Utf8.IsEncoded t) (ht' : Utf8.IsEncoded t')
    (h : text t ++ r = text t' ++ r') : t = t' ∧ r = r' := by
  obtain ⟨cps, hcps, hflat⟩ := ht
  obtain ⟨cps', hcps', hflat'⟩ := ht'
  rw [text_eq hcps hflat, text_eq hcps' hflat', List.cons_append, List.cons_append] at h
  obtain ⟨hquote, hbody⟩ := List.cons.inj h
  have hq := isQuote_quoteFor t
  rw [← hquote, List.append_assoc, List.append_assoc] at hbody
  have hall : ∀ cp ∈ cps ++ cps', cp < 0x110000 := by
    intro cp hcp
    exact (List.mem_append.mp hcp).elim (hcps cp) (hcps' cp)
  obtain ⟨hsame, hrest⟩ := flatMap_append_inj point?
    (fun cp hcp r => point?_codePoint hq (hall cp hcp) r)
    (fun cp hcp => codePoint_eq_cons hq (hall cp hcp)) hbody
  exact ⟨by rw [hflat, hflat', hsame], hrest⟩

/-! ## Byte strings -/

theorem byte_cases {q : UInt8} (hq : IsQuote q) (b : UInt8) (r : Text) :
    (∃ t, byte q b = ascii '\\' :: t ∧ escaped? (t ++ r) = some (b.toNat, r)) ∨
      (byte q b = [b] ∧ b ≠ q ∧ b ≠ ascii '\\') := by
  have hx : utf8 "\\x" = [ascii '\\', ascii 'x'] := by decide
  unfold byte
  split
  next hself =>
    simp only [Bool.or_eq_true, decide_eq_true_eq] at hself
    refine .inl ⟨[b], rfl, ?_⟩
    rcases hself with rfl | rfl
    · exact escaped?_self (.inl hq) r
    · exact escaped?_self (.inr rfl) r
  next hself =>
    simp only [Bool.or_eq_true, decide_eq_true_eq, not_or] at hself
    split
    next t ht => exact .inl (layoutEscape?_eq ht r)
    next =>
      split
      · refine .inl ⟨ascii 'x' :: Text.hex 2 b.toNat, by rw [hx]; rfl, ?_⟩
        rw [List.cons_append, escaped?_hex _ r (.inl ⟨rfl, rfl⟩),
          Nat.mod_eq_of_lt (show b.toNat < 16 ^ 2 from b.toNat_lt)]
      · exact .inr ⟨rfl, hself⟩

theorem byte?_byte {q : UInt8} (hq : IsQuote q) (b : UInt8) (r : Text) :
    byte? (byte q b ++ r) = some (b.toNat, r) := by
  rcases byte_cases hq b r with ⟨t, ht, hread⟩ | ⟨hb, -, hne⟩
  · rw [ht, List.cons_append, byte?, if_pos rfl, hread]
  · rw [hb, List.cons_append, byte?, if_neg hne, List.nil_append]

theorem byte_eq_cons {q : UInt8} (hq : IsQuote q) (b : UInt8) :
    ∃ c tail, byte q b = c :: tail ∧ c ≠ q := by
  rcases byte_cases hq b [] with ⟨t, ht, -⟩ | ⟨hb, hne, -⟩
  · exact ⟨_, _, ht, by rcases hq with rfl | rfl <;> decide⟩
  · exact ⟨b, [], hb, hne⟩

theorem bytes_eq (t : Text) :
    bytes t = ascii 'b' :: quoteFor t :: (t.flatMap (byte (quoteFor t)) ++ [quoteFor t]) := rfl

theorem bytes_append_inj {t t' r r' : Text} (h : bytes t ++ r = bytes t' ++ r') :
    t = t' ∧ r = r' := by
  rw [bytes_eq, bytes_eq, List.cons_append, List.cons_append, List.cons_append,
    List.cons_append] at h
  obtain ⟨hquote, hbody⟩ := List.cons.inj (List.cons.inj h).2
  have hq := isQuote_quoteFor t
  rw [← hquote, List.append_assoc, List.append_assoc] at hbody
  have hread (b : UInt8) (r : Text) :
      (byte? (byte (quoteFor t) b ++ r)).map (fun f => (UInt8.ofNat f.1, f.2)) = some (b, r) := by
    rw [byte?_byte hq b r, Option.map_some, UInt8.ofNat_toNat]
  exact flatMap_append_inj (fun t => (byte? t).map fun f => (UInt8.ofNat f.1, f.2))
    (fun b _ r => hread b r) (fun b _ => byte_eq_cons hq b) hbody

end Quoted

end CloneScout
