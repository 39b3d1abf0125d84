import CloneScout.Diagnostic.Message

/-!
# Diagnostics on the terminal

A headline with severity, code and message, then the place in the file and the marked line, alone or
with lines around it.
-/

namespace CloneScout.Diagnostic

def blanks (n : Nat) : Text := List.replicate n (ascii ' ')

def carets (n : Nat) : Text := List.replicate n (ascii '^')

def newline : Text := [10]

def headline (d : Diagnostic) (l : Language) : Text :=
  utf8 d.severity.name ++ utf8 "[" ++ utf8 d.code.name ++ utf8 "]: " ++ d.message l ++ newline

/-- The line that names file, line and column. -/
def place (loc : Location) (m : SourceMap) : Text :=
  let lc := m.lineCol loc.file loc.span.lo
  utf8 " --> " ++ m.name loc.file ++ utf8 ":" ++ Text.ofNat lc.line ++ utf8 ":" ++
    Text.ofNat lc.col ++ newline ++ utf8 "  |\n"

/-- A diagnostic with its own line. -/
def render (d : Diagnostic) (l : Language) (m : SourceMap) : Text :=
  match d.location with
  | none => d.headline l
  | some loc =>
    let e := m.excerpt loc.file loc.span
    d.headline l ++ place loc m ++
      Text.ofNat e.line ++ utf8 " | " ++ e.text ++ newline ++
      utf8 "  | " ++ blanks e.before ++ carets e.width ++ newline

/-- The lines of a block, numbered from `number` in a column of the given width; `caret` counts the
lines down to the marked one. -/
def blockLines (b : ExcerptBlock) (width : Nat) : (number : Nat) → (i : Nat) → List Text → Text
  | _, _, [] => []
  | number, i, line :: rest =>
    let numeral := Text.ofNat number
    let mark :=
      if i = b.caret then
        utf8 "  " ++ blanks width ++ utf8 " | " ++ blanks b.before ++ carets b.width ++ newline
      else []
    utf8 "  " ++ blanks (width - numeral.length) ++ numeral ++ utf8 " | " ++ line ++ newline ++
      mark ++ blockLines b width (number + 1) (i + 1) rest

/-- A diagnostic with `context` lines around its own line. -/
def renderContext (d : Diagnostic) (l : Language) (m : SourceMap) (context : Nat) : Text :=
  match d.location with
  | none => d.headline l
  | some loc =>
    let b := m.excerptBlock loc.file loc.span context
    let width := (Text.ofNat (b.firstLine + b.lines.length - 1)).length
    d.headline l ++ place loc m ++ blockLines b width b.firstLine 0 b.lines

end CloneScout.Diagnostic
