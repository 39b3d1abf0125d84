import CloneScout.Number.Word
import CloneScout.Source.Width

/-!
# Source files and excerpts

Files are kept by number. An offset is turned into a line and a column, and a span into the text of
its line with the columns to underline, alone or with lines of context around it.
-/

namespace CloneScout

/-- A range of bytes, from `lo` up to but not including `hi`. -/
structure Span where
  lo : Nat
  hi : Nat
  deriving DecidableEq, Repr

/-- The smallest span around two spans. -/
def Span.join (a b : Span) : Span := ⟨min a.lo b.lo, max a.hi b.hi⟩

structure SourceFile where
  name : Text
  content : Text
  deriving DecidableEq, Repr

/-- A line and a column, both counted from one. -/
structure LineCol where
  line : Nat
  col : Nat
  deriving DecidableEq, Repr

/-- One line and the columns to underline: `before` columns are skipped, `width` are marked. -/
structure Excerpt where
  text : Text
  line : Nat
  before : Nat
  width : Nat
  deriving DecidableEq, Repr

/-- The column of an excerpt's mark, counted from one. -/
def Excerpt.col (e : Excerpt) : Nat := e.before + 1

/-- Consecutive lines; the mark is under the line number `caret` of them, counted from zero. -/
structure ExcerptBlock where
  firstLine : Nat
  lines : List Text
  caret : Nat
  before : Nat
  width : Nat
  deriving DecidableEq, Repr

namespace SourceFile

/-- The lines of a file, without their line feeds; one more than there are line feeds. -/
def lines (f : SourceFile) : List Text := Text.splitOn 10 f.content

/-- Where the lines of a file start: at its first byte, and behind each line feed. -/
def lineStarts (f : SourceFile) : List Nat :=
  0 :: f.content.zipIdx.filterMap fun (b, offset) => if b = 10 then some (offset + 1) else none

/-- The number of the line that holds an offset, counted from zero: the line before the first one
that starts behind the offset. -/
def lineIndex (f : SourceFile) (offset : Nat) : Nat :=
  f.lineStarts.findIdx (offset < ·) - 1

/-- What stands on the line of an offset before it. -/
def lineHead (f : SourceFile) (offset : Nat) : Text :=
  ((f.content.take offset).reverse.takeWhile (· ≠ 10)).reverse

def lineCol (f : SourceFile) (offset : Nat) : LineCol :=
  ⟨f.lineIndex offset + 1, Width.text (f.lineHead offset) + 1⟩

/-- The line where a span starts, with the part of the span on that line. -/
def excerpt (f : SourceFile) (span : Span) : Excerpt :=
  let lo := min span.lo f.content.length
  let index := f.lineIndex lo
  let line := f.lines.getD index []
  let head := f.lineHead lo
  let marked := (line.drop head.length).take (span.hi - lo)
  { text := line
    line := index + 1
    before := Width.text head
    width := max 1 (Width.text marked) }

/-- The line where a span starts with up to `context` lines on either side. A context so large that
the sum of both exceeds a word shows fewer lines behind. -/
def excerptBlock (f : SourceFile) (span : Span) (context : Nat) : ExcerptBlock :=
  let e := f.excerpt span
  let index := e.line - 1
  let lines := f.lines
  let first := index - context
  let last := min (lines.length - 1) (Word.wrap (index + context))
  { firstLine := first + 1
    lines := (lines.drop first).take (last + 1 - first)
    caret := index - first
    before := e.before
    width := e.width }

end SourceFile

/-- Source files by number, from zero. -/
structure SourceMap where
  files : Array SourceFile := #[]

namespace SourceMap

def add (m : SourceMap) (name content : Text) : SourceMap :=
  { files := m.files.push ⟨name, content⟩ }

def name (m : SourceMap) (file : Nat) : Text :=
  (m.files[file]?).elim (utf8 "<unknown>") SourceFile.name

def content (m : SourceMap) (file : Nat) : Text := (m.files[file]?).elim [] SourceFile.content

def lineCol (m : SourceMap) (file offset : Nat) : LineCol :=
  (m.files[file]?).elim ⟨1, 1⟩ fun f => f.lineCol offset

def excerpt (m : SourceMap) (file : Nat) (span : Span) : Excerpt :=
  (m.files[file]?).elim ⟨[], 1, 0, 1⟩ fun f => f.excerpt span

def excerptBlock (m : SourceMap) (file : Nat) (span : Span) (context : Nat) : ExcerptBlock :=
  (m.files[file]?).elim ⟨1, [], 0, 0, 1⟩ fun f => f.excerptBlock span context

end SourceMap

end CloneScout
