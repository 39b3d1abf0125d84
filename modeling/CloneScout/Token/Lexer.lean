import CloneScout.Diagnostic.Basic
import CloneScout.Number.Word
import CloneScout.Token.Number

/-!
# Tokens of a source text

The text is cut into tokens from left to right. Line feeds inside brackets and behind a backslash do
not end a line; blank lines and comment lines leave no token; a change of indentation leaves
`indent` and `dedent` tokens. The text of a replacement field inside a string is cut the same way,
as if it stood in brackets.
-/

namespace CloneScout.Token

/-- The lexer between two tokens: the unread text and its offset and line, the open indentations and
brackets with the innermost first, and what was found. -/
structure Lexer where
  rest : Text
  pos : Nat
  line : Nat
  indents : List Nat := [0]
  brackets : List Token := []
  atLineStart : Bool
  lineHasTokens : Bool := false
  /-- The text is a replacement field: line feeds are blanks. -/
  embedded : Bool
  tokens : Array Token := #[]
  diags : Array Diagnostic := #[]

namespace Lexer

/-- The line that is reached behind a text. -/
def lineAfter (line : Nat) (t : Text) : Nat := Word.wrap (line + t.count 10)

/-- Skips `n` bytes and counts their line feeds. -/
def advance (n : Nat) (s : Lexer) : Lexer :=
  { s with
    rest := s.rest.drop n
    pos := s.pos + n
    line := lineAfter s.line (s.rest.take n) }

def push (t : Token) (s : Lexer) : Lexer := { s with tokens := s.tokens.push t }

def report (code : Diagnostic.Code) (span : Span) (arg : Text) (s : Lexer) : Lexer :=
  { s with diags := s.diags.push (.errorAt code span arg) }

/-- The empty token of the given kind at the current offset. -/
def emptyToken (kind : Kind) (s : Lexer) : Token :=
  ⟨kind, ⟨s.pos, s.pos⟩, [], s.line, s.line⟩

/-- The token made of the next `n` bytes. -/
def tokenOf (kind : Kind) (n : Nat) (s : Lexer) : Token :=
  let lexeme := s.rest.take n
  ⟨kind, ⟨s.pos, s.pos + n⟩, lexeme, s.line, lineAfter s.line lexeme⟩

/-- Puts out the next `n` bytes as a token. -/
def take (kind : Kind) (n : Nat) (s : Lexer) : Lexer :=
  { (s.push (s.tokenOf kind n)).advance n with lineHasTokens := true }

/-! ## Indentation -/

/-- Blanks, tabs, form feeds and carriage returns may stand between tokens. -/
def isBlank (b : UInt8) : Bool := b = ascii ' ' || b = 9 || b = 12 || b = 13

/-- The column behind leading blanks: a tab goes to the next multiple of eight, a form feed back to
zero, a carriage return counts nothing. -/
def column (col : Nat) : Text → Nat
  | [] => col
  | b :: t =>
    if b = ascii ' ' then column (col + 1) t
    else if b = 9 then column ((col / 8 + 1) * 8) t
    else if b = 12 then column 0 t
    else if b = 13 then column col t
    else col

/-- Bytes of a backslash and the line end behind it. -/
def continuation? (t : Text) : Option Nat :=
  match t with
  | b :: 10 :: _ => if b = ascii '\\' then some 2 else none
  | b :: 13 :: 10 :: _ => if b = ascii '\\' then some 3 else none
  | _ => none

/-- Bytes up to the end of the line. -/
def toLineEnd (t : Text) : Nat := (t.takeWhile (· ≠ 10)).length

/-- Closes every indentation deeper than `col`, with a token for each. -/
def closeIndents (col : Nat) : List Nat → Lexer → List Nat × Lexer
  | [], s => ([], s)
  | top :: below, s =>
    if col < top then closeIndents col below (s.push (s.emptyToken .dedent)) else (top :: below, s)

/-- Opens or closes indentations so that the innermost is `col`. A column between two open ones is
reported and opened. -/
def indentTo (col : Nat) (s : Lexer) : Lexer :=
  let top := s.indents.headD 0
  if top < col then
    { s.push (s.emptyToken .indent) with indents := col :: s.indents }
  else
    let (indents, s) := closeIndents col s.indents s
    if indents.headD 0 = col then { s with indents }
    else
      { s.report .inconsistentDedent ⟨s.pos, s.pos + 1⟩ [] with indents := col :: indents }

/-- What the start of a line amounts to. -/
inductive LineStart where
  /-- The line was skipped, or the text ended. -/
  | skipped (s : Lexer)
  /-- A token follows, or the end of the text behind a comment. -/
  | content (s : Lexer)

/-- Handles the start of a line outside brackets. A comment that ends the text without a line feed
counts as content in its column. -/
def lineStart (s : Lexer) : LineStart :=
  let col := column 0 s.rest
  let s := s.advance (s.rest.takeWhile isBlank).length
  if s.rest.isEmpty then .skipped s
  else
    let s := if s.rest.head? = some (ascii '#') then s.advance (toLineEnd s.rest) else s
    if s.rest.head? = some 10 then .skipped (s.advance 1)
    else
      match continuation? s.rest with
      | some n => .skipped (s.advance n)
      | none => .content (indentTo col { s with atLineStart := false })

/-! ## Strings -/

/-- One or two letters of either case in front of a quote: `r`, `b`, `u`, `f`, or `r` with `b` or
`f`. -/
def isStringPrefix (word : Text) : Bool :=
  let w := word.map Text.toLower
  [utf8 "r", utf8 "b", utf8 "u", utf8 "f", utf8 "rb", utf8 "br", utf8 "rf", utf8 "fr"].contains w

/-- Bytes of a string behind its opening quote, and whether the closing quote was found. A backslash
takes the next byte with it. A line feed ends a string of single quotes and is not part of it. -/
def stringBody (quote : UInt8) (triple : Bool) : (read : Nat) → Text → Nat × Bool
  | read, [] => (read, false)
  | read, b :: t =>
    if b = ascii '\\' then
      match t with
      | [] => (read + 1, false)
      | _ :: u => stringBody quote triple (read + 2) u
    else if b = 10 && !triple then (read, false)
    else if b ≠ quote then stringBody quote triple (read + 1) t
    else if !triple then (read + 1, true)
    else if Text.startsWith t [quote, quote] then (read + 3, true)
    else stringBody quote triple (read + 1) t

/-- Puts out the string whose quote stands behind a letter part of the given length. -/
def string (letters : Nat) (s : Lexer) : Lexer :=
  let t := s.rest.drop letters
  let quote := t.headD 0
  let triple := Text.startsWith t [quote, quote, quote]
  let opener := t.take (if triple then 3 else 1)
  let (n, closed) := stringBody quote triple 0 (t.drop opener.length)
  let length := letters + opener.length + n
  if closed then s.take .stringLit length
  else (s.report .unterminatedString ⟨s.pos, s.pos + length⟩ opener).take .error length

/-! ## Other tokens -/

def isQuote (b : UInt8) : Bool := b = ascii '"' || b = ascii '\''

def number (s : Lexer) : Lexer :=
  let n := Number.scan s.rest
  if n.bad then
    (s.report .invalidNumber ⟨s.pos, s.pos + n.length⟩ (s.rest.take n.length)).take .error n.length
  else s.take n.kind n.length

/-- An identifier, a keyword, or a string with letters in front. -/
def word (s : Lexer) : Lexer :=
  let w := s.rest.takeWhile isIdentPart
  let quoted := (s.rest.drop w.length).head?.any isQuote
  if quoted && isStringPrefix w then s.string w.length else s.take (Kind.ofWord w) w.length

/-- Opens or closes a bracket; a closing bracket that does not match the innermost open one is
reported and closes nothing. -/
def track (t : Token) (s : Lexer) : Lexer :=
  if t.kind.isOpening then { s with brackets := t :: s.brackets }
  else
    match t.kind.opening? with
    | none => s
    | some opening =>
      match s.brackets with
      | top :: below =>
        if top.kind = opening then { s with brackets := below }
        else s.report .unmatchedBracket t.span t.lexeme
      | [] => s.report .unmatchedBracket t.span t.lexeme

/-- A sign; anything else is one unknown character with its continuation bytes. -/
def sign (s : Lexer) : Lexer :=
  let (kind, n) :=
    match Kind.sign? s.rest with
    | some (spelling, kind) => (kind, spelling.length)
    | none => (.unknownPunct, 1 + ((s.rest.drop 1).takeWhile Utf8.isContinuation).length)
  track (s.tokenOf kind n) (s.take kind n)

/-- A line feed between tokens. It ends the line outside brackets. -/
def lineFeed (s : Lexer) : Lexer :=
  let t : Token := ⟨.newline, ⟨s.pos, s.pos + 1⟩, [10], s.line, s.line⟩
  let after := s.advance 1
  if s.brackets.isEmpty && !s.embedded then
    let after := if s.lineHasTokens then after.push t else after
    { after with lineHasTokens := false, atLineStart := true }
  else after

/-- Reads one token or what stands between tokens. The unread text is not empty and starts with `b`.
-/
def item (b : UInt8) (s : Lexer) : Lexer :=
  let next := (s.rest.drop 1).head?
  if isBlank b then s.advance 1
  else if b = ascii '#' then s.advance (toLineEnd s.rest)
  else if b = ascii '\\' then
    match continuation? s.rest with
    | some n => s.advance n
    | none => (s.report .strayBackslash ⟨s.pos, s.pos + 1⟩ []).advance 1
  else if b = 10 then s.lineFeed
  else if Text.isDigit b || (b = ascii '.' && next.any Text.isDigit) then s.number
  else if isIdentStart b then s.word
  else if isQuote b then s.string 0
  else s.sign

/-- One step, and whether to go on. -/
def step (s : Lexer) : Lexer × Bool :=
  let read (s : Lexer) : Lexer × Bool :=
    match s.rest with
    | [] => (s, false)
    | b :: _ => (s.item b, true)
  if s.atLineStart && s.brackets.isEmpty then
    match s.lineStart with
    | .skipped s => (s, !s.rest.isEmpty)
    | .content s => read s
  else read s

/-- Steps on until the text ends. Every step before that reads at least one byte, so as many steps
as there are bytes, and one more, suffice. -/
def run : (steps : Nat) → Lexer → Lexer
  | 0, s => s
  | steps + 1, s =>
    match s.step with
    | (s, true) => run steps s
    | (s, false) => s

/-- Reports the brackets still open, the outermost first. -/
def reportOpen (s : Lexer) : Lexer :=
  { s.brackets.foldr (fun t s => s.report .unmatchedBracket t.span t.lexeme) s with brackets := [] }

/-- Ends the last line and closes every indentation. -/
def finishLines (s : Lexer) : Lexer :=
  let s := if s.lineHasTokens then s.push (s.emptyToken .newline) else s
  s.indents.dropLast.foldl (fun s _ => s.push (s.emptyToken .dedent)) s

/-- Ends the text. -/
def finish (s : Lexer) : Array Token × Array Diagnostic :=
  ((s.push (s.emptyToken .eof)).tokens, s.diags)

end Lexer

/-- The diagnostic for the first byte outside every UTF-8 form. -/
def invalidUtf8 (source : Text) (offset : Nat) : Diagnostic :=
  { severity := .fatal
    code := .invalidUtf8
    location := some ⟨0, ⟨offset, offset + 1⟩⟩
    args := [Text.ofNat offset, (Text.hex 2 (source.getD offset 0).toNat).map fun b =>
      if Text.isLower b then b - 32 else b] }

def byteOrderMark : Text := [0xEF, 0xBB, 0xBF]

/-- Where reading of a source text starts: behind a byte order mark. -/
def Lexer.start (source : Text) : Lexer :=
  let mark := if Text.startsWith source byteOrderMark then 3 else 0
  { rest := source.drop mark, pos := mark, line := 1, atLineStart := true, embedded := false }

/-- The tokens of a source text and the diagnostics about them. Of a text that is not valid UTF-8
only the end is read. -/
def lex (source : Text) : Array Token × Array Diagnostic :=
  match Utf8.firstInvalid 0 source with
  | some offset =>
    let stop : Lexer :=
      { rest := [], pos := source.length, line := 1, atLineStart := true, embedded := false }
    (stop.finish.1, #[invalidUtf8 source offset])
  | none => ((Lexer.start source).run (source.length + 1)).reportOpen.finishLines.finish

/-- The tokens of a part of a source text, read like text in brackets. The part starts at the given
offset and line of the source. -/
def lexField (offset line : Nat) (part : Text) : Array Token × Array Diagnostic :=
  let start : Lexer := { rest := part, pos := offset, line, atLineStart := false, embedded := true }
  (start.run (part.length + 1)).reportOpen.finish

end CloneScout.Token
