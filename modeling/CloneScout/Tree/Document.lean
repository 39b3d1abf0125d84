import CloneScout.Text.Quoted
import CloneScout.Text.Rope

/-!
# Documents

A document is what is written of a tree: nodes with named fields, lists and leaves. With `named`
every field carries its name; without it a field carries its name only behind a field that was left
out. The text is built as a rope and laid out once.
-/

namespace CloneScout

inductive Document where
  /-- A number or word that is written as it is. -/
  | atom (t : Text)
  /-- A text in quotes. -/
  | quoted (t : Text)
  /-- A byte string in quotes. -/
  | bytes (t : Text)
  | list (items : List Document)
  /-- A node with its fields in order, some of them left out. -/
  | node (kind : String) (fields : List (String × Option Document))

namespace Document

/-- A node without fields. -/
def bare (kind : String) : Document := .node kind []

mutual

def rope (named : Bool) : Document → Rope
  | .atom t => .text t
  | .quoted t => .text (Quoted.text t)
  | .bytes t => .text (Quoted.bytes t)
  | .list items =>
    .text (utf8 "[") ++ Rope.join (utf8 ", ") (ropes named items) ++ .text (utf8 "]")
  | .node kind fs =>
    .text (utf8 kind ++ utf8 "(") ++ Rope.join (utf8 ", ") (fieldRopes named named fs) ++
      .text (utf8 ")")

def ropes (named : Bool) : List Document → List Rope
  | [] => []
  | d :: rest => rope named d :: ropes named rest

/-- The fields of a node that are present; `shown` holds where they need their names. -/
def fieldRopes (named : Bool) : (shown : Bool) → List (String × Option Document) → List Rope
  | _, [] => []
  | _, (_, none) :: rest => fieldRopes named true rest
  | shown, (label, some value) :: rest =>
    (if shown then .text (utf8 label ++ utf8 "=") ++ rope named value else rope named value) ::
      fieldRopes named shown rest

end

/-- The text of a document. -/
def toText (named : Bool) (d : Document) : Text := (rope named d).toText

end Document

end CloneScout
