import CloneScout.Proofs.Text.Quoted
import CloneScout.Proofs.Token.Scanning
import CloneScout.Proofs.Token.StringLiteral

/-!
# Quoted texts as string tokens

A quoted text is cut as one string token in front of a blank, and the token stands for the text it
was written from. The same holds for byte strings. Between the quotes stand pieces, each of which the
lexer passes over and each of which is resolved on its own.
-/

namespace CloneScout

namespace StringLiteral

/-! ## Pieces of a body -/

/-- A byte that neither ends a string nor has a meaning of its own there. -/
def IsPlain (quote b : UInt8) : Prop := b ≠ ascii '\\' ∧ b ≠ 10 ∧ b ≠ quote

/-- The search for the closing quote of a string goes past a part of its body. -/
def Passes (quote : UInt8) (t : Text) : Prop :=
  ∀ n r, Token.Lexer.stringBody quote false n (t ++ r) =
    Token.Lexer.stringBody quote false (n + t.length) r

theorem passes_plain {quote : UInt8} {t : Text} (h : ∀ b ∈ t, IsPlain quote b) :
    Passes quote t := by
  intro n r
  induction t generalizing n with
  | nil => rfl
  | cons b t ih =>
    obtain ⟨⟨hslash, hfeed, hquote⟩, ht⟩ := List.forall_mem_cons.mp h
    have hstep : Token.Lexer.stringBody quote false n (b :: (t ++ r)) =
        Token.Lexer.stringBody quote false (n + 1) (t ++ r) := by
      rw [Token.Lexer.stringBody.eq_def]
      simp [hslash, hfeed, hquote]
    rw [List.cons_append, hstep, ih ht, List.length_cons]
    congr 1
    omega

/-- A backslash takes the next byte with it. -/
theorem passes_escaped {quote mark : UInt8} {digits : Text} (h : ∀ b ∈ digits, IsPlain quote b) :
    Passes quote (ascii '\\' :: mark :: digits) := by
  intro n r
  have hstep : Token.Lexer.stringBody quote false n (ascii '\\' :: mark :: (digits ++ r)) =
      Token.Lexer.stringBody quote false (n + 2) (digits ++ r) := by
    rw [Token.Lexer.stringBody.eq_def]
    rfl
  rw [List.cons_append, List.cons_append, hstep, passes_plain h, List.length_cons,
    List.length_cons]
  congr 1
  omega

/-- A part of a string's body, with what it stands for. -/
inductive Spells (isBytes : Bool) (quote : UInt8) : Text → Text → Prop where
  | plain {t : Text} (h : ∀ b ∈ t, IsPlain quote b) : Spells isBytes quote t t
  | escaped {mark : UInt8} {digits out : Text} (hdigits : ∀ b ∈ digits, IsPlain quote b)
      (h : ∀ t, escape isBytes mark (digits ++ t) = (out, digits.length + 1)) :
      Spells isBytes quote (ascii '\\' :: mark :: digits) out

namespace Spells

variable {isBytes : Bool} {quote : UInt8} {written out : Text}

theorem simple {mark : UInt8} (h : ∀ t, escape isBytes mark t = (out, 1)) :
    Spells isBytes quote [ascii '\\', mark] out :=
  .escaped (List.forall_mem_nil _) h

theorem unescape (h : Spells isBytes quote written out) (t : Text) :
    unescapeFrom isBytes 0 (written ++ t) = out ++ unescapeFrom isBytes 0 t := by
  cases h with
  | plain hplain => exact unescapeFrom_append_plain isBytes (fun b hb => (hplain b hb).1) t
  | @escaped mark digits out hdigits hescape =>
    show (escape isBytes mark (digits ++ t)).1 ++
      unescapeFrom isBytes (escape isBytes mark (digits ++ t)).2 (mark :: (digits ++ t)) = _
    rw [hescape]
    show out ++ unescapeFrom isBytes (digits.length + 1) (mark :: (digits ++ t)) = _
    rw [unescapeFrom_eq_drop, List.drop_succ_cons, List.drop_left]

theorem passes (h : Spells isBytes quote written out) : Passes quote written := by
  cases h with
  | plain hplain => exact passes_plain hplain
  | escaped hdigits _ => exact passes_escaped hdigits

end Spells

/-! ## Escapes by number -/

theorem foldlM_hex (width n v₀ : Nat) :
    (Text.hex width n).foldlM (fun v b => (Text.hexValue b).map fun d => v * 16 + d) v₀ =
      some (v₀ * 16 ^ width + n % 16 ^ width) := by
  induction width generalizing v₀ with
  | zero => simp [Text.hex, Nat.mod_one]
  | succ width ih =>
    rw [Text.hex, List.foldlM_cons, Text.hexValue_hexDigit]
    show (Text.hex width n).foldlM _ (v₀ * 16 + n / 16 ^ width % 16) = _
    rw [ih, Nat.pow_succ, Nat.mod_mul]
    grind

theorem hexPrefix?_hex {width n : Nat} (h : n < 16 ^ width) (t : Text) :
    hexPrefix? width (Text.hex width n ++ t) = some n := by
  have hlength := Text.length_hex width n
  have htake : (Text.hex width n ++ t).take width = Text.hex width n := by
    rw [List.take_append_of_le_length (by omega), List.take_of_length_le (by omega)]
  simp only [hexPrefix?, htake]
  rw [if_pos hlength, foldlM_hex, Nat.zero_mul, Nat.zero_add, Nat.mod_eq_of_lt h]

/-- Hexadecimal digits are neither quotes nor backslashes. -/
theorem isPlain_hex {quote : UInt8} (hq : Quoted.IsQuote quote) (width n : Nat) :
    ∀ b ∈ Text.hex width n, IsPlain quote b := by
  have hall : ∀ d < 16, ∀ q ∈ [ascii '\'', ascii '"'], Text.hexDigit d ≠ ascii '\\' ∧
      Text.hexDigit d ≠ 10 ∧ Text.hexDigit d ≠ q := by decide
  have hdigit (m : Nat) : IsPlain quote (Text.hexDigit m) := by
    have hmod : Text.hexDigit m = Text.hexDigit (m % 16) := by simp [Text.hexDigit]
    rw [hmod]
    exact hall _ (Nat.mod_lt _ (by decide)) quote (by rcases hq with rfl | rfl <;> simp)
  induction width with
  | zero => exact fun _ hb => absurd hb List.not_mem_nil
  | succ width ih =>
    rw [Text.hex]
    exact List.forall_mem_cons.mpr ⟨hdigit _, ih⟩

end StringLiteral

namespace Quoted

open StringLiteral

variable {quote : UInt8}

theorem spells_self (isBytes : Bool) {b : UInt8} (h : IsQuote b ∨ b = ascii '\\') :
    Spells isBytes quote [ascii '\\', b] [b] := by
  refine .simple fun t => ?_
  rcases h with (rfl | rfl) | rfl <;> rfl

theorem spells_layout (isBytes : Bool) {n : Nat} {t : Text} (h : layoutEscape? n = some t) :
    Spells isBytes quote t [UInt8.ofNat n] ∧ n < 0x80 := by
  have ht : utf8 "\\t" = [ascii '\\', ascii 't'] := by decide
  have hn : utf8 "\\n" = [ascii '\\', ascii 'n'] := by decide
  have hr : utf8 "\\r" = [ascii '\\', ascii 'r'] := by decide
  unfold layoutEscape? at h
  split at h
  next hcp =>
    obtain rfl := Option.some.inj h
    rw [ht, hcp]
    exact ⟨.simple fun _ => rfl, by decide⟩
  next =>
    split at h
    next hcp =>
      obtain rfl := Option.some.inj h
      rw [hn, hcp]
      exact ⟨.simple fun _ => rfl, by decide⟩
    next =>
      split at h
      next hcp =>
        obtain rfl := Option.some.inj h
        rw [hr, hcp]
        exact ⟨.simple fun _ => rfl, by decide⟩
      next => exact absurd h (by simp)

/-- An escape by hexadecimal digits stands for the number that they denote. -/
theorem spells_number (isBytes : Bool) (hq : IsQuote quote) {mark : UInt8} {width n : Nat}
    (hmark : simpleEscape? mark = none ∧ isOctal mark = false)
    (h : ∀ t, hexEscape? isBytes mark (Text.hex width n ++ t) = some (n, width)) :
    Spells isBytes quote (ascii '\\' :: mark :: Text.hex width n) (scalar isBytes n) := by
  refine .escaped (isPlain_hex hq width n) fun t => ?_
  rw [escape, hmark.1]
  simp only [hmark.2, Bool.false_eq_true, if_false, h, Text.length_hex]

theorem hexEscape?_x (isBytes : Bool) {n : Nat} (h : n < 0x100) (t : Text) :
    hexEscape? isBytes (ascii 'x') (Text.hex 2 n ++ t) = some (n, 2) := by
  rw [hexEscape?, if_pos rfl, hexPrefix?_hex h, Option.map_some]

theorem spells_numberEscape (hq : IsQuote quote) {cp : Nat} (h : cp < 0x110000) :
    Spells false quote (numberEscape cp) (Utf8.encode cp) := by
  have hx : utf8 "\\x" = [ascii '\\', ascii 'x'] := by decide
  have hu : utf8 "\\u" = [ascii '\\', ascii 'u'] := by decide
  have hU : utf8 "\\U" = [ascii '\\', ascii 'U'] := by decide
  unfold numberEscape
  split
  next hlt =>
    rw [hx]
    exact spells_number false hq (by decide) (hexEscape?_x false hlt)
  next =>
    split
    next hlt =>
      rw [hu]
      refine spells_number false hq (by decide) fun t => ?_
      rw [hexEscape?, if_neg (by decide), if_neg (by decide), if_pos rfl,
        hexPrefix?_hex hlt, Option.map_some]
    next =>
      have hbound : cp < 16 ^ 8 := Nat.lt_trans h (by decide)
      rw [hU]
      refine spells_number false hq (by decide) fun t => ?_
      rw [hexEscape?, if_neg (by decide), if_neg (by decide), if_neg (by decide), if_pos rfl,
        hexPrefix?_hex hbound, Option.bind_some, if_pos (by omega)]

/-- The UTF-8 form of a code point that is not escaped. -/
theorem isPlain_encode (hq : IsQuote quote) {cp : Nat} (h : cp < 0x110000)
    (hself : ¬ cp = quote.toNat ∧ ¬ cp = 0x5C) (hfeed : cp ≠ 10) :
    ∀ b ∈ Utf8.encode cp, IsPlain quote b := by
  obtain ⟨first, tail, hform, -, hcont, hfirst⟩ := Utf8.encode_eq_cons h
  intro b hb
  -- A byte of the form that is ASCII is the code point itself.
  have hvalue (hlow : b < 0x80) : b.toNat = cp := by
    rw [hform] at hb
    rcases List.mem_cons.mp hb with rfl | hb
    · exact (hfirst hlow).2
    · exact absurd (hcont b hb) (by simp [Utf8.isContinuation_of_lt hlow])
  refine ⟨?_, ?_, ?_⟩
  · rintro rfl
    exact hself.2 (hvalue (by decide)).symm
  · rintro rfl
    exact hfeed (hvalue (by decide)).symm
  · rintro rfl
    exact hself.1 (hvalue (by rcases hq with rfl | rfl <;> decide)).symm

/-- What a code point is written as stands for the code point. -/
theorem spells_codePoint (hq : IsQuote quote) {cp : Nat} (h : cp < 0x110000) :
    Spells false quote (codePoint quote cp) (Utf8.encode cp) := by
  have hascii (hlow : cp < 0x80) : Utf8.encode cp = [UInt8.ofNat cp] := by
    rw [Utf8.encode, if_pos hlow]
  unfold codePoint
  split
  next hself =>
    simp only [Bool.or_eq_true, decide_eq_true_eq] at hself
    have hb : IsQuote (UInt8.ofNat cp) ∨ UInt8.ofNat cp = ascii '\\' := by
      rcases hself with rfl | rfl
      · rw [UInt8.ofNat_toNat]
        exact .inl hq
      · exact .inr rfl
    have hlow : cp < 0x80 := by
      rcases hself with rfl | rfl
      · rcases hq with rfl | rfl <;> decide
      · decide
    rw [hascii hlow]
    exact spells_self false hb
  next hself =>
    simp only [Bool.or_eq_true, decide_eq_true_eq, not_or] at hself
    split
    next t ht =>
      obtain ⟨hspells, hlow⟩ := spells_layout false ht
      rw [hascii hlow]
      exact hspells
    next hlayout =>
      split
      · refine .plain (isPlain_encode hq h hself ?_)
        rintro rfl
        exact absurd hlayout (by decide)
      · exact spells_numberEscape hq h

theorem spells_byte (hq : IsQuote quote) (b : UInt8) : Spells true quote (byte quote b) [b] := by
  have hx : utf8 "\\x" = [ascii '\\', ascii 'x'] := by decide
  unfold byte
  split
  next hself =>
    simp only [Bool.or_eq_true, decide_eq_true_eq] at hself
    refine spells_self true ?_
    rcases hself with rfl | rfl
    · exact .inl hq
    · exact .inr rfl
  next hself =>
    simp only [Bool.or_eq_true, decide_eq_true_eq, not_or] at hself
    split
    next t ht =>
      rw [← UInt8.ofNat_toNat (x := b)]
      exact (spells_layout true ht).1
    next hlayout =>
      split
      · rw [hx]
        have hspells := spells_number true hq (by decide) (hexEscape?_x true b.toNat_lt)
        rwa [scalar, if_pos rfl, UInt8.ofNat_toNat] at hspells
      · refine .plain fun c hc => ?_
        obtain rfl := List.mem_singleton.mp hc
        refine ⟨hself.2, ?_, hself.1⟩
        rintro rfl
        exact absurd hlayout (by decide)

end Quoted

namespace StringLiteral

/-! ## Bodies -/

section

variable {α : Type} {isBytes : Bool} {quote : UInt8} {write mean : α → Text}

theorem unescape_flatMap {as : List α}
    (h : ∀ a ∈ as, Spells isBytes quote (write a) (mean a)) :
    unescape isBytes (as.flatMap write) = as.flatMap mean := by
  unfold unescape
  induction as with
  | nil => rfl
  | cons a as ih =>
    obtain ⟨hfirst, hrest⟩ := List.forall_mem_cons.mp h
    rw [List.flatMap_cons, List.flatMap_cons, hfirst.unescape, ih hrest]

/-- The closing quote is found behind the pieces of a body. -/
theorem stringBody_flatMap (hq : Quoted.IsQuote quote) {as : List α}
    (h : ∀ a ∈ as, Passes quote (write a)) (n : Nat) (r : Text) :
    Token.Lexer.stringBody quote false n (as.flatMap write ++ quote :: r) =
      (n + (as.flatMap write).length + 1, true) := by
  induction as generalizing n with
  | nil =>
    rw [Token.Lexer.stringBody.eq_def]
    rcases hq with rfl | rfl <;> rfl
  | cons a as ih =>
    obtain ⟨hfirst, hrest⟩ := List.forall_mem_cons.mp h
    rw [List.flatMap_cons, List.append_assoc, hfirst, ih hrest, List.length_append]
    congr 2
    omega

end

/-! ## Literals as written -/

/-- A string literal as it is written: letters, one quote or three, and the body between the
quotes. -/
structure Written where
  letters : Text
  quote : UInt8
  triple : Bool
  body : Text

namespace Written

def quotes (w : Written) : Text := List.replicate (if w.triple then 3 else 1) w.quote

def text (w : Written) : Text := w.letters ++ (w.quotes ++ (w.body ++ w.quotes))

/-- In front of a text the literal is one string token. -/
structure IsToken (w : Written) (r : Text) : Prop where
  marks : w.letters = [] ∨ Token.Lexer.isStringPrefix w.letters = true
  quoted : Quoted.IsQuote w.quote
  closed : Token.Lexer.stringBody w.quote w.triple 0 (w.body ++ (w.quotes ++ r)) =
    (w.body.length + w.quotes.length, true)
  opened : Text.startsWith (w.quotes ++ (w.body ++ (w.quotes ++ r)))
    [w.quote, w.quote, w.quote] = w.triple

variable {w : Written} {r : Text}

theorem isQuote (h : w.IsToken r) : StringLiteral.isQuote w.quote = true := by
  rcases h.quoted with hq | hq <;> rw [hq] <;> decide

theorem quotes_eq_cons (w : Written) : ∃ qs, w.quotes = w.quote :: qs := by
  unfold quotes
  cases w.triple
  · exact ⟨[], rfl⟩
  · exact ⟨[w.quote, w.quote], rfl⟩

/-- The letters of a literal are letters. -/
theorem isIdentStart_of_mem (h : w.IsToken r) :
    ∀ b ∈ w.letters, Token.isIdentStart b = true := by
  have hall : ∀ b : UInt8, Text.toLower b ∈ utf8 "rbuf" → Token.isIdentStart b = true :=
    Token.forall_byte (by decide +kernel)
  intro b hb
  rcases h.marks with hnil | hprefix
  · rw [hnil] at hb
    exact absurd hb List.not_mem_nil
  · refine hall b ?_
    rw [Token.Lexer.isStringPrefix, List.contains_iff_mem] at hprefix
    have hmem := List.mem_map_of_mem (f := Text.toLower) hb
    have hletters : ∀ t ∈ [utf8 "r", utf8 "b", utf8 "u", utf8 "f", utf8 "rb", utf8 "br", utf8 "rf",
        utf8 "fr"], ∀ c ∈ t, c ∈ utf8 "rbuf" := by decide
    exact hletters _ hprefix _ hmem

theorem not_isQuote_of_mem (h : w.IsToken r) : ∀ b ∈ w.letters, StringLiteral.isQuote b = false := by
  have hall : ∀ b : UInt8, Token.isIdentStart b = true → StringLiteral.isQuote b = false :=
    Token.forall_byte (by decide +kernel)
  exact fun b hb => hall b (isIdentStart_of_mem h b hb)

/-- What the parser makes of a literal that ends the text. -/
theorem parts_text (h : w.IsToken []) :
    parts w.text =
      { raw := (w.letters.map Text.toLower).contains (ascii 'r')
        bytes := (w.letters.map Text.toLower).contains (ascii 'b')
        marked := (w.letters.map Text.toLower).contains (ascii 'u')
        formatted := (w.letters.map Text.toLower).contains (ascii 'f')
        body := w.body
        offset := w.letters.length + w.quotes.length } := by
  obtain ⟨qs, hqs⟩ := w.quotes_eq_cons
  have hopened : Text.startsWith (w.quotes ++ (w.body ++ w.quotes)) [w.quote, w.quote, w.quote] =
      w.triple := by simpa using h.opened
  have hcut : w.text.takeWhile (fun b => !StringLiteral.isQuote b) = w.letters := by
    rw [text, hqs, List.cons_append]
    exact takeWhile_letters (not_isQuote_of_mem h) (isQuote h)
  have hrest : w.text.drop w.letters.length = w.quotes ++ (w.body ++ w.quotes) := List.drop_left
  have hhead : (w.quotes ++ (w.body ++ w.quotes)).headD 0 = w.quote := by rw [hqs]; rfl
  have hwidth : (if 6 ≤ (w.quotes ++ (w.body ++ w.quotes)).length && w.triple then 3 else 1) =
      w.quotes.length := by
    cases htriple : w.triple <;> simp [quotes, htriple]
  have hlength : (w.quotes ++ (w.body ++ w.quotes)).length - 2 * w.quotes.length =
      w.body.length := by
    simp only [List.length_append]
    omega
  simp only [parts, hcut, List.length_map, hrest, hhead, hopened, hwidth, hlength,
    List.drop_left, List.take_left]

end Written

/-- A quote is not the first of three if the body does not go on with it. -/
theorem startsWith_of_single {quote : UInt8} {body r : Text} (hbody : ∀ b ∈ body.head?, b ≠ quote)
    (hr : ∀ b ∈ r.head?, b ≠ quote) :
    Text.startsWith (quote :: (body ++ quote :: r)) [quote, quote, quote] = false := by
  rw [Bool.eq_false_iff, Ne, Text.startsWith_iff]
  rintro ⟨t, ht⟩
  have hbehind := (List.cons.inj ht).2
  cases body with
  | nil =>
    have hbehind := (List.cons.inj hbehind).2
    cases r with
    | nil => exact nomatch hbehind
    | cons b r => exact hr b rfl (List.cons.inj hbehind).1.symm
  | cons b body => exact hbody b rfl (List.cons.inj hbehind).1.symm

/-- A string token in single quotes, with its letters and its body. A blank or the end of the text
ends it, no matter how long it is. -/
structure IsLiteral (letters : Text) (quote : UInt8) (body : Text) : Prop where
  marks : letters = [] ∨ letters = [ascii 'b']
  quoted : Quoted.IsQuote quote
  closed : ∀ r, Token.Lexer.stringBody quote false 0 (body ++ quote :: r) = (body.length + 1, true)
  single : ∀ b ∈ body.head?, b ≠ quote

namespace IsLiteral

variable {letters body : Text} {quote : UInt8}

theorem isToken (h : IsLiteral letters quote body) {r : Text} (hr : ∀ b ∈ r.head?, b ≠ quote) :
    (⟨letters, quote, false, body⟩ : Written).IsToken r where
  marks := h.marks.imp id fun hb =>
    (congrArg Token.Lexer.isStringPrefix hb).trans (by decide)
  quoted := h.quoted
  closed := h.closed r
  opened := startsWith_of_single h.single hr

/-- What the parser makes of the token. -/
theorem parts_eq (h : IsLiteral letters quote body) :
    (parts (letters ++ quote :: (body ++ [quote]))).raw = false ∧
      (parts (letters ++ quote :: (body ++ [quote]))).bytes = !letters.isEmpty ∧
      (parts (letters ++ quote :: (body ++ [quote]))).marked = false ∧
      (parts (letters ++ quote :: (body ++ [quote]))).formatted = false ∧
      (parts (letters ++ quote :: (body ++ [quote]))).body = body := by
  have hparts := Written.parts_text (h.isToken (r := []) (by simp))
  have htext : (⟨letters, quote, false, body⟩ : Written).text =
      letters ++ quote :: (body ++ [quote]) := rfl
  rw [htext] at hparts
  rw [hparts]
  rcases h.marks with rfl | rfl <;> exact ⟨rfl, rfl, rfl, rfl, rfl⟩

end IsLiteral

end StringLiteral

namespace Token.Lexer

open StringLiteral

/-- A literal is cut as one token. -/
theorem goes_written {v : View} {w : Written} {r : Text} (hstart : v.atLineStart = false)
    (hrest : v.rest = w.text ++ r) (h : w.IsToken r) :
    Goes v (v.took ⟨.stringLit, w.text⟩ r) := by
  obtain ⟨qs, hqs⟩ := w.quotes_eq_cons
  have hsplit : w.text ++ r = w.letters ++ (w.quotes ++ (w.body ++ (w.quotes ++ r))) := by
    simp only [Written.text, List.append_assoc]
  have hstring (s : Lexer) (hs : s.view = v) :
      (s.string w.letters.length).view = v.took ⟨.stringLit, w.text⟩ r := by
    have hrest' : s.rest = w.text ++ r := by rw [← hrest, ← hs]; rfl
    have hdrop : s.rest.drop w.letters.length = w.quotes ++ (w.body ++ (w.quotes ++ r)) := by
      rw [hrest', hsplit, List.drop_left]
    have hhead : (w.quotes ++ (w.body ++ (w.quotes ++ r))).headD 0 = w.quote := by rw [hqs]; rfl
    have hopener : (w.quotes ++ (w.body ++ (w.quotes ++ r))).take (if w.triple then 3 else 1) =
        w.quotes := List.take_left' (by simp [Written.quotes])
    have hlength : w.letters.length + w.quotes.length + (w.body.length + w.quotes.length) =
        w.text.length := by
      simp only [Written.text, List.length_append]
      omega
    simp only [Lexer.string, hdrop, hhead, h.opened, hopener, List.drop_left, h.closed, if_true]
    rw [hlength, view_take hrest', hs]
  have hshorter : (v.took ⟨.stringLit, w.text⟩ r).rest.length < v.rest.length := by
    rw [hrest, hsplit, hqs]
    simp only [View.took, List.length_append, List.length_cons]
    omega
  have hquote : isQuote w.quote = true := Written.isQuote h
  cases hletters : w.letters with
  | nil =>
    refine .item (b := w.quote) hstart (by rw [hrest, hsplit, hletters, hqs]; rfl) hshorter
      fun s hs => ?_
    have hitem : s.item w.quote = s.string 0 := by
      rcases h.quoted with hq | hq <;> rw [hq] <;> simp [Lexer.item] <;> rfl
    rw [hitem]
    simpa [hletters] using hstring s hs
  | cons b ls =>
    refine .item hstart (by rw [hrest, hsplit, hletters]; rfl) hshorter fun s hs => ?_
    have hrest' : s.rest = w.letters ++ (w.quotes ++ (w.body ++ (w.quotes ++ r))) := by
      rw [← hsplit, ← hrest, ← hs]
      rfl
    have hpart : isIdentPart w.quote = false := by
      rcases h.quoted with hq | hq <;> rw [hq] <;> decide
    have hstarts := Written.isIdentStart_of_mem h
    have htake : s.rest.takeWhile isIdentPart = w.letters := by
      rw [hrest', List.takeWhile_append_of_pos
        (fun c hc => by simp [isIdentPart, hstarts c hc]), hqs, List.cons_append,
        List.takeWhile_cons_of_neg (by simp [hpart]), List.append_nil]
    have hmarks : isStringPrefix w.letters = true :=
      h.marks.resolve_left (by rw [hletters]; exact List.cons_ne_nil _ _)
    have hitem : s.item b = s.string w.letters.length := by
      rw [item_of_isIdentStart (hstarts b (by rw [hletters]; exact List.mem_cons_self)),
        Lexer.word, htake, hrest', List.drop_left, hqs]
      exact if_pos (by simp [hquote, hmarks])
    rw [hitem]
    exact hstring s hs

/-- A string is cut in front of a blank. -/
theorem goes_literal {v : View} {letters body r : Text} {quote : UInt8}
    (hstart : v.atLineStart = false)
    (hrest : v.rest = letters ++ quote :: (body ++ [quote]) ++ r)
    (h : IsLiteral letters quote body) (hr : Number.Stops r) :
    Goes v (v.took ⟨.stringLit, letters ++ quote :: (body ++ [quote])⟩ r) := by
  refine goes_written (w := ⟨letters, quote, false, body⟩) hstart hrest (h.isToken fun b hb => ?_)
  rw [hr b hb]
  rcases h.quoted with rfl | rfl <;> decide

end Token.Lexer

/-! ## Quoted texts -/

namespace Quoted

open StringLiteral

theorem head_codePoints {quote : UInt8} (hq : IsQuote quote) {cps : List Nat}
    (hcps : ∀ cp ∈ cps, cp < 0x110000) : ∀ b ∈ (cps.flatMap (codePoint quote)).head?, b ≠ quote := by
  intro b hb
  cases cps with
  | nil => exact absurd hb (by simp)
  | cons cp cps =>
    obtain ⟨first, tail, hfirst, hne⟩ := codePoint_eq_cons hq (hcps cp List.mem_cons_self)
    rw [List.flatMap_cons, hfirst, List.cons_append, List.head?_cons] at hb
    exact Option.some.inj hb ▸ hne

/-- Letters, quote and body of a quoted text. -/
theorem exists_text {t : Text} (h : Utf8.IsEncoded t) :
    ∃ body, text t = quoteFor t :: (body ++ [quoteFor t]) ∧ IsLiteral [] (quoteFor t) body ∧
      unescape false body = t := by
  obtain ⟨cps, hcps, ht⟩ := h
  have hq := isQuote_quoteFor t
  have hspells : ∀ cp ∈ cps, Spells false (quoteFor t) (codePoint (quoteFor t) cp)
      (Utf8.encode cp) := fun cp hcp => spells_codePoint hq (hcps cp hcp)
  refine ⟨cps.flatMap (codePoint (quoteFor t)), text_eq hcps ht, ⟨.inl rfl, hq, fun r => ?_, ?_⟩, ?_⟩
  · rw [stringBody_flatMap hq fun cp hcp => (hspells cp hcp).passes, Nat.zero_add]
  · exact head_codePoints hq hcps
  · rw [unescape_flatMap hspells, ← ht]

theorem exists_bytes (t : Text) :
    ∃ body, bytes t = [ascii 'b'] ++ quoteFor t :: (body ++ [quoteFor t]) ∧
      IsLiteral [ascii 'b'] (quoteFor t) body ∧ unescape true body = t := by
  have hq := isQuote_quoteFor t
  have hspells : ∀ b ∈ t, Spells true (quoteFor t) (byte (quoteFor t) b) [b] :=
    fun b _ => spells_byte hq b
  refine ⟨t.flatMap (byte (quoteFor t)), bytes_eq t, ⟨.inr rfl, hq, fun r => ?_, ?_⟩, ?_⟩
  · rw [stringBody_flatMap hq fun b hb => (hspells b hb).passes, Nat.zero_add]
  · intro c hc
    cases ht : t with
    | nil => rw [ht] at hc; exact absurd hc (by simp)
    | cons b rest =>
      obtain ⟨first, tail, hfirst, hne⟩ := byte_eq_cons hq b
      rw [show t.flatMap (byte (quoteFor t)) = byte (quoteFor t) b ++ rest.flatMap
        (byte (quoteFor t)) by rw [← List.flatMap_cons, ← ht], hfirst, List.cons_append,
        List.head?_cons] at hc
      rw [← ht]
      exact Option.some.inj hc ▸ hne
  · rw [unescape_flatMap hspells]
    simp

end Quoted

end CloneScout
