import CloneScout.Token.Basic

/-!
# A place in a sequence of tokens

The sequence ends with its `eof` token. Whoever looks beyond the end sees that token again.
-/

namespace CloneScout

/-- The token is an identifier with the given spelling. -/
def Token.isWord (t : Token) (word : Text) : Bool := t.kind = .ident && t.lexeme = word

structure Cursor where
  tokens : Array Token
  pos : Nat := 0

namespace Cursor

/-- The last token of the sequence. -/
def final (c : Cursor) : Token := c.tokens.back?.getD ⟨.eof, ⟨0, 0⟩, [], 1, 1⟩

def get (c : Cursor) (i : Nat) : Token := (c.tokens[i]?).getD c.final

/-- The token `k` places ahead. -/
def peek (c : Cursor) (k : Nat := 0) : Token := c.get (c.pos + k)

/-- The token `k` places ahead, or behind if `k` is negative. -/
def look (c : Cursor) (k : Int) : Token :=
  match (c.pos : Int) + k with
  | .ofNat i => c.get i
  | .negSucc _ => c.final

def kind (c : Cursor) (k : Nat := 0) : Token.Kind := (c.peek k).kind

/-- The token read last; at the start the first token. -/
def prev (c : Cursor) : Token := if c.pos = 0 then c.peek else c.get (c.pos - 1)

def bump (c : Cursor) : Cursor := if c.pos < c.tokens.size then { c with pos := c.pos + 1 } else c

/-- Goes past the next token if it is of the given kind. -/
def eat (c : Cursor) (k : Token.Kind) : Bool × Cursor :=
  if c.kind = k then (true, c.bump) else (false, c)

/-- The token `k` places ahead is an identifier with the given spelling. -/
def atWord (c : Cursor) (word : Text) (k : Nat := 0) : Bool := (c.peek k).isWord word

/-- The tokens from the next one on. -/
def upcoming (c : Cursor) : List Token := (c.tokens.extract c.pos c.tokens.size).toList

/-- How many tokens are left, the `eof` token included. -/
def remaining (c : Cursor) : Nat := c.tokens.size - c.pos

/-! ## Recovery -/

/-- Goes behind the next line end, at most `n` tokens further. The end of a block stops it. -/
def skipLineWithin : (n : Nat) → Cursor → Cursor
  | 0, c => c
  | n + 1, c =>
    match c.kind with
    | .eof => c
    | .indent => c
    | .dedent => c
    | .newline => c.bump
    | _ => skipLineWithin n c.bump

def skipLine (c : Cursor) : Cursor := skipLineWithin c.remaining c

/-- How many brackets of each shape are open. -/
structure Nesting where
  parens : Nat := 0
  brackets : Nat := 0
  braces : Nat := 0
  deriving DecidableEq, Repr

/-- Counts a token; a closing bracket without an open one of its shape counts nothing. -/
def Nesting.count (n : Nesting) : Token.Kind → Nesting
  | .lparen => { n with parens := n.parens + 1 }
  | .rparen => { n with parens := n.parens - 1 }
  | .lbracket => { n with brackets := n.brackets + 1 }
  | .rbracket => { n with brackets := n.brackets - 1 }
  | .lbrace => { n with braces := n.braces + 1 }
  | .rbrace => { n with braces := n.braces - 1 }
  | _ => n

/-- Goes to the next token of one of the given kinds outside brackets, at most `n` tokens further. A
line end stops it everywhere. -/
def skipToWithin (stops : List Token.Kind) : (n : Nat) → Nesting → Cursor → Cursor
  | 0, _, c => c
  | n + 1, nesting, c =>
    let k := c.kind
    if k = .eof || (nesting = {} && stops.contains k) || k = .newline then c
    else skipToWithin stops n (nesting.count k) c.bump

def skipTo (stops : List Token.Kind) (c : Cursor) : Cursor := skipToWithin stops c.remaining {} c

end Cursor

end CloneScout
