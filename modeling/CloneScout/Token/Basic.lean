import CloneScout.Source.Basic

/-!
# Tokens

The kinds of tokens of Python source text. A keyword or a sign is spelled like the name of its kind,
so the tables of keywords and signs are read off the names.
-/

namespace CloneScout

namespace Token

inductive Kind where
  | eof
  | error
  | newline
  | indent
  | dedent
  | ident
  | intLit
  | floatLit
  | imagLit
  | stringLit
  | kwFalse
  | kwNone
  | kwTrue
  | kwAnd
  | kwAs
  | kwAssert
  | kwAsync
  | kwAwait
  | kwBreak
  | kwClass
  | kwContinue
  | kwDef
  | kwDel
  | kwElif
  | kwElse
  | kwExcept
  | kwFinally
  | kwFor
  | kwFrom
  | kwGlobal
  | kwIf
  | kwImport
  | kwIn
  | kwIs
  | kwLambda
  | kwNonlocal
  | kwNot
  | kwOr
  | kwPass
  | kwRaise
  | kwReturn
  | kwTry
  | kwWhile
  | kwWith
  | kwYield
  | lparen
  | rparen
  | lbracket
  | rbracket
  | lbrace
  | rbrace
  | comma
  | colon
  | semicolon
  | dot
  | ellipsis
  | at
  | arrow
  | assign
  | walrus
  | plus
  | minus
  | star
  | starStar
  | slash
  | slashSlash
  | percent
  | shiftLeft
  | shiftRight
  | amp
  | pipe
  | caret
  | tilde
  | lt
  | gt
  | ltEq
  | gtEq
  | eqEq
  | bangEq
  | plusAssign
  | minusAssign
  | starAssign
  | starStarAssign
  | slashAssign
  | slashSlashAssign
  | percentAssign
  | atAssign
  | shiftLeftAssign
  | shiftRightAssign
  | ampAssign
  | pipeAssign
  | caretAssign
  | unknownPunct
  deriving DecidableEq, Repr

namespace Kind

def name : Kind → String
  | .eof => "eof"
  | .error => "error"
  | .newline => "newline"
  | .indent => "indent"
  | .dedent => "dedent"
  | .ident => "identifier"
  | .intLit => "int_lit"
  | .floatLit => "float_lit"
  | .imagLit => "imag_lit"
  | .stringLit => "string_lit"
  | .kwFalse => "False"
  | .kwNone => "None"
  | .kwTrue => "True"
  | .kwAnd => "and"
  | .kwAs => "as"
  | .kwAssert => "assert"
  | .kwAsync => "async"
  | .kwAwait => "await"
  | .kwBreak => "break"
  | .kwClass => "class"
  | .kwContinue => "continue"
  | .kwDef => "def"
  | .kwDel => "del"
  | .kwElif => "elif"
  | .kwElse => "else"
  | .kwExcept => "except"
  | .kwFinally => "finally"
  | .kwFor => "for"
  | .kwFrom => "from"
  | .kwGlobal => "global"
  | .kwIf => "if"
  | .kwImport => "import"
  | .kwIn => "in"
  | .kwIs => "is"
  | .kwLambda => "lambda"
  | .kwNonlocal => "nonlocal"
  | .kwNot => "not"
  | .kwOr => "or"
  | .kwPass => "pass"
  | .kwRaise => "raise"
  | .kwReturn => "return"
  | .kwTry => "try"
  | .kwWhile => "while"
  | .kwWith => "with"
  | .kwYield => "yield"
  | .lparen => "("
  | .rparen => ")"
  | .lbracket => "["
  | .rbracket => "]"
  | .lbrace => "\x7b"
  | .rbrace => "\x7d"
  | .comma => ","
  | .colon => ":"
  | .semicolon => ";"
  | .dot => "."
  | .ellipsis => "..."
  | .at => "@"
  | .arrow => "->"
  | .assign => "="
  | .walrus => ":="
  | .plus => "+"
  | .minus => "-"
  | .star => "*"
  | .starStar => "**"
  | .slash => "/"
  | .slashSlash => "//"
  | .percent => "%"
  | .shiftLeft => "<<"
  | .shiftRight => ">>"
  | .amp => "&"
  | .pipe => "|"
  | .caret => "^"
  | .tilde => "~"
  | .lt => "<"
  | .gt => ">"
  | .ltEq => "<="
  | .gtEq => ">="
  | .eqEq => "=="
  | .bangEq => "!="
  | .plusAssign => "+="
  | .minusAssign => "-="
  | .starAssign => "*="
  | .starStarAssign => "**="
  | .slashAssign => "/="
  | .slashSlashAssign => "//="
  | .percentAssign => "%="
  | .atAssign => "@="
  | .shiftLeftAssign => "<<="
  | .shiftRightAssign => ">>="
  | .ampAssign => "&="
  | .pipeAssign => "|="
  | .caretAssign => "^="
  | .unknownPunct => "unknown_punct"

/-- The name of a kind as text. -/
def text (k : Kind) : Text := utf8 k.name

def keywords : List Kind :=
  [.kwFalse, .kwNone, .kwTrue, .kwAnd, .kwAs, .kwAssert, .kwAsync, .kwAwait, .kwBreak, .kwClass,
    .kwContinue, .kwDef, .kwDel, .kwElif, .kwElse, .kwExcept, .kwFinally, .kwFor, .kwFrom,
    .kwGlobal, .kwIf, .kwImport, .kwIn, .kwIs, .kwLambda, .kwNonlocal, .kwNot, .kwOr, .kwPass,
    .kwRaise, .kwReturn, .kwTry, .kwWhile, .kwWith, .kwYield]

/-- Augmented assignments. -/
def augmented : List Kind :=
  [.plusAssign, .minusAssign, .starAssign, .starStarAssign, .slashAssign, .slashSlashAssign,
    .percentAssign, .atAssign, .shiftLeftAssign, .shiftRightAssign, .ampAssign, .pipeAssign,
    .caretAssign]

/-- Signs, with a longer sign before its initial segments. -/
def signs : List Kind :=
  [.starStarAssign, .slashSlashAssign, .shiftRightAssign, .shiftLeftAssign, .ellipsis,
    .arrow, .walrus, .starStar, .slashSlash, .shiftLeft, .shiftRight, .ltEq, .gtEq, .eqEq, .bangEq,
    .plusAssign, .minusAssign, .starAssign, .slashAssign, .percentAssign, .atAssign, .ampAssign,
    .pipeAssign, .caretAssign,
    .lparen, .rparen, .lbracket, .rbracket, .lbrace, .rbrace, .comma, .colon, .semicolon, .dot, .at,
    .assign, .plus, .minus, .star, .slash, .percent, .amp, .pipe, .caret, .tilde, .lt, .gt]

def spelled (kinds : List Kind) : List (Text × Kind) := kinds.map fun k => (k.text, k)

def keywordTable : List (Text × Kind) := spelled keywords

def signTable : List (Text × Kind) := spelled signs

/-- The kind of a word: a keyword or a plain identifier. -/
def ofWord (word : Text) : Kind := (keywordTable.lookup word).getD .ident

/-- The first sign of the table that a text starts with. -/
def sign? (t : Text) : Option (Text × Kind) := signTable.find? fun s => Text.startsWith t s.1

def isAugmented (k : Kind) : Bool := augmented.contains k

/-- How tightly a binary operator binds; all of these associate to the left. -/
def precedence? : Kind → Option Nat
  | .pipe => some 10
  | .caret => some 20
  | .amp => some 30
  | .shiftLeft => some 40
  | .shiftRight => some 40
  | .plus => some 50
  | .minus => some 50
  | .star => some 60
  | .slash => some 60
  | .slashSlash => some 60
  | .percent => some 60
  | .at => some 60
  | _ => none

def isOpening (k : Kind) : Bool := k = .lparen || k = .lbracket || k = .lbrace

def isClosing (k : Kind) : Bool := k = .rparen || k = .rbracket || k = .rbrace

/-- The opening bracket that a closing bracket matches. -/
def opening? : Kind → Option Kind
  | .rparen => some .lparen
  | .rbracket => some .lbracket
  | .rbrace => some .lbrace
  | _ => none

end Kind

end Token

/-- A token: its kind, where it stands, its text, and the lines of its first and last byte. -/
structure Token where
  kind : Token.Kind
  span : Span
  lexeme : Text
  line : Nat
  endLine : Nat
  deriving DecidableEq, Repr

/-- The token text for a message: the lexeme, or the name of the kind if there is no lexeme. -/
def Token.shown (t : Token) : Text := if t.lexeme.isEmpty then t.kind.text else t.lexeme

end CloneScout
