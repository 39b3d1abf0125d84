import CloneScout.Proofs.Number.Numeral
import CloneScout.Proofs.Text.Basic
import CloneScout.Token.Lexer

/-!
# How tokens are cut

What the lexer does next depends on the unread text, the open indentations and brackets and the
place in the line, but not on offsets and line numbers. Each kind of token has a lemma that says how
it is cut from a text that starts with it.
-/

namespace CloneScout

/-- What a parser looks at in a token. -/
structure Lexeme where
  kind : Token.Kind
  text : Text
  deriving DecidableEq, Repr

/-- The lexeme of a keyword or a sign. -/
def Lexeme.ofKind (k : Token.Kind) : Lexeme := ⟨k, k.text⟩

/-- The end of a line. -/
def Lexeme.newline : Lexeme := ⟨.newline, [10]⟩

def Lexeme.indent : Lexeme := ⟨.indent, []⟩

def Lexeme.dedent : Lexeme := ⟨.dedent, []⟩

/-- The end of the text. -/
def Lexeme.eof : Lexeme := ⟨.eof, []⟩

def Token.toLexeme (t : Token) : Lexeme := ⟨t.kind, t.lexeme⟩

namespace Token

/-- An identifier that is no keyword. -/
structure IsName (t : Text) : Prop where
  start : ∃ b ∈ t.head?, isIdentStart b = true
  parts : ∀ b ∈ t, isIdentPart b = true
  kind : Kind.ofWord t = .ident

/-- A property of all bytes. -/
theorem forall_byte {P : UInt8 → Prop} (h : ∀ n < 256, P (UInt8.ofNat n)) (b : UInt8) : P b := by
  have hb := h b.toNat b.toNat_lt
  rwa [UInt8.ofNat_toNat] at hb

namespace Lexer

/-! ## The state of the lexer without offsets and lines -/

structure View where
  rest : Text
  indents : List Nat
  /-- The kinds of the open brackets, the innermost first. -/
  stack : List Kind
  atLineStart : Bool
  lineHasTokens : Bool
  embedded : Bool
  found : List Lexeme
  diags : Array Diagnostic

def view (s : Lexer) : View where
  rest := s.rest
  indents := s.indents
  stack := s.brackets.map Token.kind
  atLineStart := s.atLineStart
  lineHasTokens := s.lineHasTokens
  embedded := s.embedded
  found := s.tokens.toList.map Token.toLexeme
  diags := s.diags

/-- Steps take the lexer from one state to the other, with a byte read in each. -/
def Goes (v v' : View) : Prop :=
  ∀ s : Lexer, s.view = v → ∃ s' k, s'.view = v' ∧ k + v'.rest.length ≤ v.rest.length ∧
    ∀ n, (run (n + k) s).view = (run n s').view

theorem Goes.refl (v : View) : Goes v v := fun s hs => ⟨s, 0, hs, by omega, fun _ => rfl⟩

theorem Goes.trans {v v' v'' : View} (h : Goes v v') (h' : Goes v' v'') : Goes v v'' := by
  intro s hs
  obtain ⟨s', k, hs', hk, hrun⟩ := h s hs
  obtain ⟨s'', k', hs'', hk', hrun'⟩ := h' s' hs'
  refine ⟨s'', k' + k, hs'', by omega, fun n => ?_⟩
  rw [← Nat.add_assoc, hrun, hrun']

theorem Goes.step {v v' : View} (hlt : v'.rest.length < v.rest.length)
    (h : ∀ s : Lexer, s.view = v → ∃ s', s'.view = v' ∧ s.step = (s', true)) : Goes v v' := by
  intro s hs
  obtain ⟨s', hs', hstep⟩ := h s hs
  refine ⟨s', 1, hs', by omega, fun n => ?_⟩
  rw [run, hstep]

/-- Away from the start of a line a step reads one item. -/
theorem Goes.item {v v' : View} {b : UInt8} {t : Text} (hstart : v.atLineStart = false)
    (hrest : v.rest = b :: t) (hlt : v'.rest.length < v.rest.length)
    (h : ∀ s : Lexer, s.view = v → (s.item b).view = v') : Goes v v' := by
  refine .step hlt fun s hs => ⟨s.item b, h s hs, ?_⟩
  have hstart' : s.atLineStart = false := by rw [← hstart, ← hs]; rfl
  have hrest' : s.rest = b :: t := by rw [← hrest, ← hs]; rfl
  simp [Lexer.step, hstart', hrest']

/-! ## Single tokens -/

/-- The state behind a token. -/
def View.took (v : View) (w : Lexeme) (r : Text) : View :=
  { v with rest := r, lineHasTokens := true, found := v.found ++ [w] }

theorem view_take {s : Lexer} {k : Kind} {t r : Text} (h : s.rest = t ++ r) :
    (s.take k t.length).view = s.view.took ⟨k, t⟩ r := by
  simp [view, View.took, Lexer.take, advance, push, tokenOf, Token.toLexeme, h]

theorem view_advance {s : Lexer} {t r : Text} (h : s.rest = t ++ r) :
    (s.advance t.length).view = { s.view with rest := r } := by
  simp [view, advance, h]

theorem goes_blank {v : View} {r : Text} (hstart : v.atLineStart = false)
    (hrest : v.rest = ascii ' ' :: r) : Goes v { v with rest := r } := by
  refine .item hstart hrest (by rw [hrest]; simp) fun s hs => ?_
  have hrest' : s.rest = [ascii ' '] ++ r := by
    rw [List.singleton_append, ← hrest, ← hs]
    rfl
  have hitem : s.item (ascii ' ') = s.advance 1 := by
    rw [Lexer.item, if_pos (by decide)]
  rw [hitem, ← hs]
  exact view_advance hrest'

/-- The first byte of a word makes it none of the other items. -/
theorem item_of_isIdentStart {s : Lexer} {b : UInt8} (h : isIdentStart b = true) :
    s.item b = s.word := by
  have hall : ∀ b : UInt8, isIdentStart b = true → isBlank b = false ∧ b ≠ ascii '#' ∧
      b ≠ ascii '\\' ∧ b ≠ 10 ∧ Text.isDigit b = false ∧ b ≠ ascii '.' :=
    forall_byte (by decide +kernel)
  obtain ⟨hblank, hhash, hback, hfeed, hdigit, hdot⟩ := hall b h
  simp [Lexer.item, hblank, hhash, hback, hfeed, hdigit, hdot, h]

/-- The text does not go on with a word or a string. -/
def Parts (r : Text) : Prop := ∀ b ∈ r.head?, isIdentPart b = false ∧ isQuote b = false

theorem goes_word {v : View} {b : UInt8} {t r : Text} (hstart : v.atLineStart = false)
    (hrest : v.rest = b :: t ++ r) (hfirst : isIdentStart b = true)
    (hparts : ∀ c ∈ b :: t, isIdentPart c = true) (hr : Parts r) :
    Goes v (v.took ⟨Kind.ofWord (b :: t), b :: t⟩ r) := by
  refine .item hstart hrest (by
    rw [hrest]
    simp only [View.took, List.length_cons, List.length_append]
    omega) fun s hs => ?_
  have hrest' : s.rest = b :: t ++ r := by rw [← hrest, ← hs]; rfl
  have htake : s.rest.takeWhile isIdentPart = b :: t := by
    rw [hrest', List.takeWhile_append_of_pos hparts]
    cases r with
    | nil => simp
    | cons c r => rw [List.takeWhile_cons_of_neg (by simp [(hr c rfl).1]), List.append_nil]
  have hquoted : ((s.rest.drop (b :: t).length).head?.any isQuote) = false := by
    rw [hrest', List.drop_left]
    cases r with
    | nil => rfl
    | cons c r => simpa using (hr c rfl).2
  rw [item_of_isIdentStart hfirst, Lexer.word, htake]
  simp only [hquoted, Bool.false_and, Bool.false_eq_true, if_false]
  rw [view_take hrest', hs]

theorem goes_name {v : View} {t r : Text} (hstart : v.atLineStart = false)
    (hrest : v.rest = t ++ r) (ht : IsName t) (hr : Parts r) : Goes v (v.took ⟨.ident, t⟩ r) := by
  obtain ⟨b, hb, hfirst⟩ := ht.start
  obtain ⟨t', rfl⟩ := List.head?_eq_some_iff.mp hb
  have hgo := goes_word hstart hrest hfirst ht.parts hr
  rwa [ht.kind] at hgo

theorem goes_keyword {v : View} {k : Kind} {r : Text} (hstart : v.atLineStart = false)
    (hrest : v.rest = k.text ++ r) (hk : k ∈ Kind.keywords) (hr : Parts r) :
    Goes v (v.took (.ofKind k) r) := by
  have hall : ∀ k ∈ Kind.keywords, (∃ b ∈ k.text.head?, isIdentStart b = true) ∧
      (∀ b ∈ k.text, isIdentPart b = true) ∧ Kind.ofWord k.text = k := by decide +kernel
  obtain ⟨⟨b, hb, hfirst⟩, hparts, hkind⟩ := hall k hk
  obtain ⟨t, ht⟩ := List.head?_eq_some_iff.mp hb
  rw [ht] at hrest hparts hkind
  have hgo := goes_word hstart hrest hfirst hparts hr
  rwa [hkind, ← ht] at hgo

theorem goes_int {v : View} {n : Nat} {r : Text} (hstart : v.atLineStart = false)
    (hrest : v.rest = Text.ofNat n ++ r) (hr : Number.Stops r) :
    Goes v (v.took ⟨.intLit, Text.ofNat n⟩ r) := by
  obtain ⟨b, t, ht⟩ := List.exists_cons_of_ne_nil (Text.ofNat_ne_nil n)
  have hdigit : Text.isDigit b = true := Text.isDigit_of_mem_ofNat (by rw [ht]; simp)
  have hall : ∀ b : UInt8, Text.isDigit b = true → isBlank b = false ∧ b ≠ ascii '#' ∧
      b ≠ ascii '\\' ∧ b ≠ 10 := forall_byte (by decide +kernel)
  obtain ⟨hblank, hhash, hback, hfeed⟩ := hall b hdigit
  have hfirst : v.rest = b :: (t ++ r) := by rw [hrest, ht]; rfl
  refine .item hstart hfirst (by
    rw [hrest, ht]
    simp only [View.took, List.length_cons, List.length_append]
    omega) fun s hs => ?_
  have hrest' : s.rest = Text.ofNat n ++ r := by rw [← hrest, ← hs]; rfl
  have hitem : s.item b = s.number := by
    simp [Lexer.item, hblank, hhash, hback, hfeed, hdigit]
  rw [hitem, Lexer.number, hrest', Number.scan_ofNat n hr]
  simp only [Bool.false_eq_true, if_false]
  rw [view_take hrest', hs]

/-! ## Signs and brackets -/

/-- The open brackets behind a sign, if it closes the innermost one or none. -/
def tracked (k : Kind) (stack : List Kind) : Option (List Kind) :=
  if k.isOpening then some (k :: stack)
  else
    match k.opening?, stack with
    | none, _ => some stack
    | some opening, top :: below => if top = opening then some below else none
    | some _, [] => none

theorem tracked_plain {k : Kind} (h : k.isOpening = false ∧ k.opening? = none)
    (stack : List Kind) : tracked k stack = some stack := by
  unfold tracked
  simp only [h.1, h.2, Bool.false_eq_true, if_false]

theorem tracked_opening {k : Kind} (h : k.isOpening = true) (stack : List Kind) :
    tracked k stack = some (k :: stack) :=
  if_pos h

theorem tracked_closing {k opening : Kind} (h : k.isOpening = false)
    (hmatch : k.opening? = some opening) (stack : List Kind) :
    tracked k (opening :: stack) = some stack := by
  unfold tracked
  simp only [h, hmatch, Bool.false_eq_true, if_false, if_true]

theorem view_track {s : Lexer} {t : Token} {stack : List Kind}
    (h : tracked t.kind s.view.stack = some stack) :
    (s.track t).view = { s.view with stack } := by
  have hstack : s.view.stack = s.brackets.map Token.kind := rfl
  unfold tracked at h
  unfold track
  split
  next hopening =>
    rw [if_pos hopening, hstack] at h
    obtain rfl := Option.some.inj h
    rfl
  next hopening =>
    rw [if_neg hopening, hstack] at h
    cases hclose : t.kind.opening? with
    | none =>
      rw [hclose] at h
      obtain rfl := Option.some.inj h
      rfl
    | some opening =>
      rw [hclose] at h
      cases hbrackets : s.brackets with
      | nil => rw [hbrackets] at h; simp at h
      | cons top below =>
        rw [hbrackets] at h
        simp only [List.map_cons] at h
        split at h
        next htop =>
          obtain rfl := Option.some.inj h
          simp only [if_pos htop]
          simp [view]
        next => simp at h

/-- The text behind a sign does not go on with it: neither is it part of a longer sign nor does a
number start with it. -/
def EndsBefore (k : Kind) (r : Text) : Prop :=
  ∀ b ∈ r.head?, Text.isDigit b = false ∧ ∀ j ∈ Kind.signs, ¬ k.text ++ [b] <+: j.text

theorem sign?_append {k : Kind} {r : Text} (hk : k ∈ Kind.signs) (hr : EndsBefore k r) :
    Kind.sign? (k.text ++ r) = some (k.text, k) := by
  have hown : ∀ k ∈ Kind.signs, Kind.sign? k.text = some (k.text, k) := by decide +kernel
  -- a sign at the start of the text is one at the start of `k`
  have hsame : ∀ j ∈ Kind.signs,
      Text.startsWith (k.text ++ r) j.text = Text.startsWith k.text j.text := by
    intro j hj
    rw [Bool.eq_iff_iff, Text.startsWith_iff, Text.startsWith_iff]
    constructor
    · intro hjr
      rcases List.prefix_or_prefix_of_prefix hjr (List.prefix_append k.text r) with h | ⟨u, hu⟩
      · exact h
      · rw [← hu, List.prefix_append_right_inj] at hjr
        cases u with
        | nil =>
          rewrite [← hu, List.append_nil]
          exact List.prefix_rfl
        | cons b u =>
          obtain ⟨r', rfl⟩ := hjr
          refine absurd ?_ ((hr b rfl).2 j hj)
          rw [← hu]
          exact ⟨u, by simp⟩
    · exact fun h => h.trans (List.prefix_append k.text r)
  rw [← hown k hk, Kind.sign?, Kind.sign?, ← List.head?_filter, ← List.head?_filter]
  refine congrArg List.head? (List.filter_congr fun e he => ?_)
  obtain ⟨j, hj, rfl⟩ := List.mem_map.mp he
  exact hsame j hj

theorem goes_sign {v : View} {k : Kind} {r : Text} {stack : List Kind}
    (hstart : v.atLineStart = false) (hrest : v.rest = k.text ++ r) (hk : k ∈ Kind.signs)
    (hr : EndsBefore k r) (hstack : tracked k v.stack = some stack) :
    Goes v { v.took (.ofKind k) r with stack } := by
  have hall : ∀ k ∈ Kind.signs, ∃ b ∈ k.text.head?, isBlank b = false ∧ b ≠ ascii '#' ∧
      b ≠ ascii '\\' ∧ b ≠ 10 ∧ Text.isDigit b = false ∧ isIdentStart b = false ∧
      isQuote b = false ∧ k.text.tail.head?.any Text.isDigit = false := by
    decide +kernel
  obtain ⟨b, hb, hblank, hhash, hback, hfeed, hno, hident, hquote, hnext⟩ := hall k hk
  obtain ⟨t, ht⟩ := List.head?_eq_some_iff.mp hb
  rw [ht, List.tail_cons] at hnext
  have hfirst : v.rest = b :: (t ++ r) := by rw [hrest, ht]; rfl
  refine .item hstart hfirst (by
    rw [hrest, ht]
    simp only [View.took, List.length_cons, List.length_append]
    omega) fun s hs => ?_
  have hrest' : s.rest = k.text ++ r := by rw [← hrest, ← hs]; rfl
  have hbehind : (s.rest.drop 1).head?.any Text.isDigit = false := by
    rw [hrest', ht, List.cons_append, List.drop_one, List.tail_cons]
    cases t with
    | nil =>
      cases r with
      | nil => rfl
      | cons c r => exact (hr c rfl).1
    | cons c t => exact hnext
  have hitem : s.item b = s.sign := by
    simp only [Lexer.item, hblank, hhash, hback, hfeed, hno, hident, hquote, hbehind,
      Bool.and_false, Bool.or_false, Bool.false_eq_true, if_false]
  have htake : (s.take k k.text.length).view = v.took (.ofKind k) r := by
    rw [view_take hrest', hs]
    rfl
  rw [hitem, Lexer.sign, hrest', sign?_append hk hr]
  have htracked : tracked (s.tokenOf k k.text.length).kind (s.take k k.text.length).view.stack =
      some stack := by
    rw [htake]
    exact hstack
  rw [view_track htracked, htake]

end Lexer

end Token

end CloneScout
