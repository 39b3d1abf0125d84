import CloneScout.Proofs.Text.Split
import CloneScout.Proofs.Text.Quoted
import CloneScout.Tree.Document

/-!
# Documents can be read back

A text in quotes shows where it ends, a list and a node are closed by a bracket, and a number or
word ends before a comma or a closing bracket. So a document is determined by its text, whatever
stands behind it, as long as its leaves and names are words and what a node shows of its fields
determines them. No text in quotes can stand for structure.
-/

namespace CloneScout

namespace Text

/-- The bytes that numbers, kinds of nodes and names of fields are made of. -/
def isWordByte (b : UInt8) : Bool := isLetter b || isDigit b || (utf8 "._+-").contains b

/-- A number, a kind of nodes or a name of fields. -/
def IsBare (t : Text) : Prop := t ≠ [] ∧ ∀ b ∈ t, isWordByte b = true

instance (t : Text) : Decidable (IsBare t) := inferInstanceAs (Decidable (_ ∧ _))

/-- A word starts with one of its bytes, whatever stands behind it. -/
theorem IsBare.head?_ne {s : Text} (hs : IsBare s) {b : UInt8} (hb : isWordByte b = false)
    (t : Text) : (s ++ t).head? ≠ some b := by
  obtain ⟨c, s, rfl⟩ := List.exists_cons_of_ne_nil hs.1
  intro hhead
  obtain rfl := Option.some.inj (show some c = some b from hhead)
  exact absurd (hs.2 c (by simp)) (by rw [hb]; decide)

/-- The text does not go on with a word. -/
def Breaks (t : Text) : Prop := ∀ b ∈ t.head?, isWordByte b = false

theorem breaks_cons {b : UInt8} {t : Text} (h : isWordByte b = false) : Breaks (b :: t) := by
  intro c hc
  obtain rfl : b = c := by simpa using hc
  exact h

/-- A word in front of a text that does not go on with one is its longest beginning of bytes of
words. -/
theorem takeWhile_isWordByte {s t : Text} (hs : ∀ b ∈ s, isWordByte b = true) (ht : Breaks t) :
    (s ++ t).takeWhile isWordByte = s := by
  rw [List.takeWhile_append_of_pos hs]
  cases t with
  | nil => simp
  | cons b t => rw [List.takeWhile_cons_of_neg (by simp [ht b rfl]), List.append_nil]

theorem word_append_inj {s s' t t' : Text} (hs : ∀ b ∈ s, isWordByte b = true)
    (hs' : ∀ b ∈ s', isWordByte b = true) (ht : Breaks t) (ht' : Breaks t')
    (h : s ++ t = s' ++ t') : s = s' ∧ t = t' := by
  have hsame : s = s' := by
    rw [← takeWhile_isWordByte hs ht, h, takeWhile_isWordByte hs' ht']
  subst hsame
  exact ⟨rfl, List.append_cancel_left h⟩

end Text

theorem utf8_injective {s s' : String} (h : utf8 s = utf8 s') : s = s' := by
  have hdata : s.toUTF8.data = s'.toUTF8.data := Array.toList_inj.mp h
  exact String.toByteArray_inj.mp (ByteArray.ext hdata)

namespace Document

/-! ## Texts without ropes -/

/-- The fields that are present. -/
def present (fs : List (String × Option Document)) : List (String × Document) :=
  fs.filterMap fun f => f.2.map fun v => (f.1, v)

/-- A field with its name in front. -/
def fieldText (f : String × Document) : Text := utf8 f.1 ++ utf8 "=" ++ f.2.toText true

/-- The fields that are present, with their names where those are `shown` and behind a field that is
left out. -/
def parts : (shown : Bool) → List (String × Option Document) → List (Option String × Document)
  | _, [] => []
  | _, (_, none) :: rest => parts true rest
  | shown, (label, some v) :: rest => (if shown then some label else none, v) :: parts shown rest

/-- A field with its name in front if that is shown. -/
def partText (named : Bool) (p : Option String × Document) : Text :=
  p.1.elim [] (fun label => utf8 label ++ utf8 "=") ++ p.2.toText named

section

variable (named : Bool)

theorem toText_ropes (items : List Document) :
    (ropes named items).map Rope.toText = items.map (toText named) := by
  induction items with
  | nil => rfl
  | cons d items ih => rw [ropes, List.map_cons, ih, List.map_cons, toText]

theorem toText_fieldRopes (shown : Bool) (fs : List (String × Option Document)) :
    (fieldRopes named shown fs).map Rope.toText = (parts shown fs).map (partText named) := by
  induction fs generalizing shown with
  | nil => rfl
  | cons f fs ih =>
    obtain ⟨label, value⟩ := f
    cases value with
    | none => rw [fieldRopes, ih, parts]
    | some v =>
      rw [fieldRopes, List.map_cons, ih, parts, List.map_cons]
      cases shown <;> simp [partText, toText]

theorem toText_atom (t : Text) : (atom t).toText named = t := by simp [toText, rope]

theorem toText_quoted (t : Text) : (quoted t).toText named = Quoted.text t := by simp [toText, rope]

theorem toText_bytes (t : Text) : (Document.bytes t).toText named = Quoted.bytes t := by
  simp [toText, rope]

theorem toText_list (items : List Document) :
    (list items).toText named =
      utf8 "[" ++ (Text.join (utf8 ", ") (items.map (toText named)) ++ utf8 "]") := by
  simp [toText, rope, toText_ropes]

theorem toText_parts (kind : String) (fs : List (String × Option Document)) :
    (node kind fs).toText named =
      utf8 kind ++
        (utf8 "(" ++ (Text.join (utf8 ", ") ((parts named fs).map (partText named)) ++ utf8 ")")) := by
  simp [toText, rope, toText_fieldRopes]

end

/-- Where every field carries its name nothing is shown of those that are left out. -/
theorem parts_true (fs : List (String × Option Document)) :
    parts true fs = (present fs).map fun f => (some f.1, f.2) := by
  induction fs with
  | nil => rfl
  | cons f fs ih =>
    obtain ⟨label, value⟩ := f
    cases value with
    | none => rw [parts, ih]; rfl
    | some v => rw [parts, ih]; rfl

theorem toText_node (kind : String) (fs : List (String × Option Document)) :
    (node kind fs).toText true =
      utf8 kind ++
        (utf8 "(" ++ (Text.join (utf8 ", ") ((present fs).map fieldText) ++ utf8 ")")) := by
  rw [toText_parts, parts_true, List.map_map]
  rfl

/-! ## Documents that can be read back -/

/-- A list of keyword arguments is never the first of the fields that are present. -/
def Led (fs : List (String × Option Document)) : Prop :=
  "keywords" ∈ fs.map Prod.fst → ∃ label v rest, fs = (label, some v) :: rest ∧ label ≠ "keywords"

mutual

/-- Numbers, kinds and names of fields are words and texts in quotes are sequences of code points.
Where there are no `gaps` every field is present. -/
def Readable (gaps : Bool) : Document → Prop
  | .atom t => t.IsBare
  | .quoted t => Utf8.IsEncoded t
  | .bytes _ => True
  | .list items => AllReadable gaps items
  | .node kind fs => (utf8 kind).IsBare ∧ Led fs ∧ FieldsReadable gaps fs

def AllReadable (gaps : Bool) : List Document → Prop
  | [] => True
  | d :: rest => Readable gaps d ∧ AllReadable gaps rest

def FieldsReadable (gaps : Bool) : List (String × Option Document) → Prop
  | [] => True
  | (_, none) :: rest => gaps = true ∧ FieldsReadable gaps rest
  | (label, some v) :: rest =>
    (utf8 label).IsBare ∧ Readable gaps v ∧ FieldsReadable gaps rest

end

/-- What stands behind a part of a document: the next part, or the bracket that closes the whole. -/
def Ends (r : Text) : Prop := ∀ b ∈ r.head?, b = ascii ',' ∨ b = ascii ')' ∨ b = ascii ']'

theorem ends_cons {b : UInt8} {r : Text} (h : b = ascii ',' ∨ b = ascii ')' ∨ b = ascii ']') :
    Ends (b :: r) := by
  intro c hc
  obtain rfl : b = c := by simpa using hc
  exact h

/-! ### The word that a document starts with -/

/-- The word in front of a document. -/
def word : Document → Text
  | .atom t => t
  | .quoted _ => []
  | .bytes _ => [ascii 'b']
  | .list _ => []
  | .node kind _ => utf8 kind

/-- The text behind that word. -/
def rest (named : Bool) : Document → Text
  | .atom _ => []
  | .quoted t => Quoted.text t
  | .bytes t => (Quoted.bytes t).tail
  | .list items => utf8 "[" ++ (Text.join (utf8 ", ") (items.map (toText named)) ++ utf8 "]")
  | .node _ fs =>
    utf8 "(" ++ (Text.join (utf8 ", ") ((parts named fs).map (partText named)) ++ utf8 ")")

theorem toText_eq (named : Bool) (d : Document) : d.toText named = d.word ++ d.rest named := by
  cases d with
  | atom t => rw [toText_atom, word, rest, List.append_nil]
  | quoted t => rw [toText_quoted]; rfl
  | bytes t => rw [toText_bytes]; rfl
  | list items => rw [toText_list]; rfl
  | node kind fs => rw [toText_parts, word, rest]

theorem isWordByte_word {gaps : Bool} {d : Document} (h : d.Readable gaps) :
    ∀ b ∈ d.word, Text.isWordByte b = true := by
  cases d with
  | atom t => exact h.2
  | quoted t => simp [word]
  | bytes t => simp only [word, List.mem_singleton, forall_eq]; decide
  | list items => simp [word]
  | node kind fs => exact h.1.2

/-- The forms of documents. -/
inductive Form where
  | atom
  | quoted
  | bytes
  | list
  | node
  deriving DecidableEq

def form : Document → Form
  | .atom _ => .atom
  | .quoted _ => .quoted
  | .bytes _ => .bytes
  | .list _ => .list
  | .node _ _ => .node

/-- The form of a document as its first word and the byte behind that show it. -/
def formOf (w : Text) (b : Option UInt8) : Form :=
  if b = some (ascii '(') then .node
  else if b = some (ascii '[') then .list
  else if b = some (ascii '\'') ∨ b = some (ascii '"') then (if w = [] then .quoted else .bytes)
  else .atom

theorem formOf_quote (w : Text) {q : UInt8} (hq : Quoted.IsQuote q) :
    formOf w (some q) = if w = [] then .quoted else .bytes := by
  rcases hq with rfl | rfl <;> rfl

theorem head?_quotedText (t r : Text) :
    (Quoted.text t ++ r).head? = some (Quoted.quoteFor t) := rfl

theorem head?_quotedBytes (t r : Text) :
    ((Quoted.bytes t).tail ++ r).head? = some (Quoted.quoteFor t) := rfl

theorem formOf_eq (named : Bool) (d : Document) {r : Text} (hr : Ends r) :
    formOf d.word (d.rest named ++ r).head? = d.form := by
  cases d with
  | atom t =>
    rw [rest, List.nil_append, form]
    rcases hb : r.head? with _ | b
    · rfl
    · rcases hr b hb with rfl | rfl | rfl <;> rfl
  | quoted t =>
    rw [rest, head?_quotedText, formOf_quote _ (Quoted.isQuote_quoteFor t)]
    rfl
  | bytes t =>
    rw [rest, head?_quotedBytes, formOf_quote _ (Quoted.isQuote_quoteFor t)]
    rfl
  | list items => rfl
  | node kind fs => rfl

/-- What can stand behind the word in front of a document. -/
theorem mem_head?_rest (named : Bool) (d : Document) {r : Text} (hr : Ends r) {b : UInt8}
    (hb : b ∈ (d.rest named ++ r).head?) : b ∈ utf8 ",)](['\"" := by
  have hquote {q : UInt8} (hq : Quoted.IsQuote q) : q ∈ utf8 ",)](['\"" := by
    rcases hq with rfl | rfl <;> decide
  cases d with
  | atom t => rcases hr b hb with rfl | rfl | rfl <;> decide
  | quoted t =>
    obtain rfl := Option.some.inj ((head?_quotedText t r).symm.trans hb)
    exact hquote (Quoted.isQuote_quoteFor t)
  | bytes t =>
    obtain rfl := Option.some.inj ((head?_quotedBytes t r).symm.trans hb)
    exact hquote (Quoted.isQuote_quoteFor t)
  | list items =>
    obtain rfl := Option.some.inj (show some (ascii '[') = some b from hb)
    decide
  | node kind fs =>
    obtain rfl := Option.some.inj (show some (ascii '(') = some b from hb)
    decide

theorem breaks_rest (named : Bool) (d : Document) {r : Text} (hr : Ends r) :
    (d.rest named ++ r).Breaks := by
  have hall : ∀ b ∈ utf8 ",)](['\"", Text.isWordByte b = false := by decide
  exact fun b hb => hall b (mem_head?_rest named d hr hb)

/-- A document is not taken for one with a name in front. -/
theorem toText_ne_label {gaps : Bool} {d : Document} (hd : d.Readable gaps) (named : Bool)
    {label : String} (hlabel : (utf8 label).IsBare) {r : Text} (hr : Ends r) (t : Text) :
    d.toText named ++ r ≠ utf8 label ++ (utf8 "=" ++ t) := by
  intro h
  rw [toText_eq, List.append_assoc] at h
  obtain ⟨-, hrest⟩ := Text.word_append_inj (isWordByte_word hd) hlabel.2 (breaks_rest named d hr)
    (Text.breaks_cons (by decide)) h
  have hequals : ascii '=' ∈ (d.rest named ++ r).head? := by
    rw [hrest]
    rfl
  exact absurd (mem_head?_rest named d hr hequals) (by decide)

/-! ### Parts between commas -/

section

variable {α : Type} {write : α → Text}

/-- The text of a part, in front of anything that can stand behind it, determines the part. -/
def Determined (write : α → Text) (a a' : α) : Prop :=
  ∀ r r' : Text, Ends r → Ends r' → write a ++ r = write a' ++ r' → a = a' ∧ r = r'

/-- Parts are kept apart by commas, and a bracket closes the whole. -/
theorem delimits_comma {close : UInt8} (hclose : close = ascii ')' ∨ close = ascii ']') :
    Text.Delimits (utf8 ", ") (fun r => r.head? = some close) Ends where
  next _ := ends_cons (.inl rfl)
  stop r hr b hb := by
    obtain rfl := Option.some.inj (hr.symm.trans hb)
    exact .inr hclose
  apart r hr hsep := by
    obtain ⟨t, rfl⟩ := hsep
    obtain rfl := Option.some.inj hr
    rcases hclose with h | h <;> exact absurd h (by decide)

theorem ends_flatMap {as : List α} {close : UInt8} (r : Text)
    (hclose : close = ascii ')' ∨ close = ascii ']') :
    Ends (as.flatMap (fun a => utf8 ", " ++ write a) ++ close :: r) :=
  (delimits_comma hclose).follows rfl as

/-- Parts with commas between them and a bracket behind them. -/
theorem join_inj {as as' : List α} {close : UInt8} {r r' : Text}
    (hclose : close = ascii ')' ∨ close = ascii ']')
    (hstart : ∀ a ∈ as ++ as', ∀ t, (write a ++ t).head? ≠ some close)
    (hwrite : ∀ a ∈ as, ∀ a' ∈ as', Determined write a a')
    (h : Text.join (utf8 ", ") (as.map write) ++ close :: r =
      Text.join (utf8 ", ") (as'.map write) ++ close :: r') : as = as' ∧ r = r' := by
  obtain ⟨hparts, hrest⟩ := (delimits_comma hclose).join_inj rfl rfl hstart hwrite h
  exact ⟨hparts, (List.cons.inj hrest).2⟩

end

/-! ### Unique reading -/

theorem allReadable_iff {gaps : Bool} {items : List Document} :
    AllReadable gaps items ↔ ∀ d ∈ items, d.Readable gaps := by
  induction items with
  | nil => simp [AllReadable]
  | cons d items ih => rw [AllReadable, ih, List.forall_mem_cons]

theorem FieldsReadable.of_mem_parts {gaps : Bool} {fs : List (String × Option Document)}
    (h : FieldsReadable gaps fs) {shown : Bool} {p : Option String × Document}
    (hp : p ∈ parts shown fs) : (∀ label ∈ p.1, (utf8 label).IsBare) ∧ p.2.Readable gaps := by
  induction fs generalizing shown with
  | nil => exact absurd hp (by simp [parts])
  | cons g fs ih =>
    obtain ⟨label, value⟩ := g
    cases value with
    | none => exact ih h.2 hp
    | some v =>
      rcases List.mem_cons.mp hp with rfl | hp
      · refine ⟨fun l hl => ?_, h.2.1⟩
        cases shown with
        | true => exact Option.some.inj hl ▸ h.1
        | false => exact nomatch hl
      · exact ih h.2.2 hp

theorem FieldsReadable.of_mem {gaps : Bool} {fs : List (String × Option Document)}
    (h : FieldsReadable gaps fs) {f : String × Document} (hf : f ∈ present fs) :
    (utf8 f.1).IsBare ∧ f.2.Readable gaps := by
  have hpart : (some f.1, f.2) ∈ parts true fs := by
    rw [parts_true]
    exact List.mem_map_of_mem hf
  obtain ⟨hlabel, hvalue⟩ := h.of_mem_parts hpart
  exact ⟨hlabel f.1 rfl, hvalue⟩

/-- A part that can be left out is readable where it is present. -/
def OptReadable (o : Option Document) : Prop := ∀ d ∈ o, d.Readable true

theorem fieldsReadable_cons {label : String} (hlabel : (utf8 label).IsBare) {o : Option Document}
    {fs : List (String × Option Document)} :
    FieldsReadable true ((label, o) :: fs) ↔ OptReadable o ∧ FieldsReadable true fs := by
  cases o <;> simp [FieldsReadable, OptReadable, hlabel]

/-- Where there are no gaps nothing is lost with the fields that are not present. -/
theorem eq_of_present_eq {fs fs' : List (String × Option Document)} (h : FieldsReadable false fs)
    (h' : FieldsReadable false fs') (hsame : present fs = present fs') : fs = fs' := by
  have hall {gs : List (String × Option Document)} (hg : FieldsReadable false gs) :
      (present gs).map (fun f => (f.1, some f.2)) = gs := by
    induction gs with
    | nil => rfl
    | cons g gs ih =>
      obtain ⟨label, value⟩ := g
      cases value with
      | none => exact absurd hg.1 (by decide)
      | some v => exact congrArg ((label, some v) :: ·) (ih hg.2.2)
  rw [← hall h, hsame, hall h']

/-- No document starts with a closing bracket. -/
theorem head?_toText {gaps : Bool} {d : Document} (h : d.Readable gaps) (named : Bool)
    {close : UInt8} (hclose : close = ascii ')' ∨ close = ascii ']') (t : Text) :
    (d.toText named ++ t).head? ≠ some close := by
  have hbreak : Text.isWordByte close = false := by rcases hclose with rfl | rfl <;> decide
  have hquote {q : UInt8} (hq : Quoted.IsQuote q) : some q ≠ some close := by
    rcases hq with rfl | rfl <;> rcases hclose with rfl | rfl <;> decide
  cases d with
  | atom s =>
    rw [toText_atom]
    exact Text.IsBare.head?_ne h hbreak t
  | quoted s =>
    rw [toText_quoted, head?_quotedText]
    exact hquote (Quoted.isQuote_quoteFor s)
  | bytes s =>
    rw [toText_bytes]
    show some (ascii 'b') ≠ some close
    rcases hclose with rfl | rfl <;> decide
  | list items =>
    rw [toText_list]
    show some (ascii '[') ≠ some close
    rcases hclose with rfl | rfl <;> decide
  | node kind fs =>
    rw [toText_parts, List.append_assoc]
    exact h.1.head?_ne hbreak _

/-- The name of a field ends at the equals sign behind it. -/
theorem determined_part {named gaps : Bool} {p p' : Option String × Document}
    (hp : (∀ label ∈ p.1, (utf8 label).IsBare) ∧ p.2.Readable gaps)
    (hp' : (∀ label ∈ p'.1, (utf8 label).IsBare) ∧ p'.2.Readable gaps)
    (h : Determined (toText named) p.2 p'.2) : Determined (partText named) p p' := by
  intro r r' hr hr' heq
  obtain ⟨label, v⟩ := p
  obtain ⟨label', v'⟩ := p'
  cases label with
  | none =>
    cases label' with
    | none =>
      obtain ⟨hvalue, rfl⟩ := h r r' hr hr' heq
      exact ⟨Prod.ext rfl hvalue, rfl⟩
    | some label' =>
      simp only [partText, Option.elim, List.nil_append, List.append_assoc] at heq
      exact absurd heq (toText_ne_label hp.2 named (hp'.1 label' rfl) hr _)
  | some label =>
    cases label' with
    | none =>
      simp only [partText, Option.elim, List.nil_append, List.append_assoc] at heq
      exact absurd heq.symm (toText_ne_label hp'.2 named (hp.1 label rfl) hr' _)
    | some label' =>
      simp only [partText, Option.elim, List.append_assoc] at heq
      have hbreak (t : Text) : (utf8 "=" ++ t).Breaks := Text.breaks_cons (by decide)
      obtain ⟨hname, hrest⟩ := Text.word_append_inj (hp.1 label rfl).2 (hp'.1 label' rfl).2
        (hbreak _) (hbreak _) heq
      obtain ⟨hvalue, rfl⟩ := h r r' hr hr' (List.append_cancel_left hrest)
      exact ⟨Prod.ext (congrArg some (utf8_injective hname)) hvalue, rfl⟩

/-- Readable documents in which the parts that a node shows determine all its fields. -/
structure Legible (named gaps : Bool) (P : Document → Prop) : Prop where
  readable {d : Document} : P d → d.Readable gaps
  items {items : List Document} : P (.list items) → ∀ d ∈ items, P d
  parts {kind : String} {fs : List (String × Option Document)} :
    P (.node kind fs) → ∀ p ∈ parts named fs, P p.2
  fields {kind : String} {fs fs' : List (String × Option Document)} :
    P (.node kind fs) → P (.node kind fs') → Document.parts named fs = Document.parts named fs' →
      fs = fs'

namespace Legible

variable {named gaps : Bool} {P : Document → Prop}

/-- A node ends with the bracket that closes it, so anything may stand behind it. -/
theorem node_append_inj (hP : Legible named gaps P) {kind kind' : String}
    {fs fs' : List (String × Option Document)} (hd : P (.node kind fs)) (hd' : P (.node kind' fs'))
    (hparts : ∀ p ∈ Document.parts named fs, ∀ {d' : Document}, P d' →
      Determined (toText named) p.2 d') {r r' : Text}
    (h : (node kind fs).toText named ++ r = (node kind' fs').toText named ++ r') :
    node kind fs = node kind' fs' ∧ r = r' := by
  have hread := hP.readable hd
  have hread' := hP.readable hd'
  have hall : ∀ p ∈ Document.parts named fs ++ Document.parts named fs',
      (∀ label ∈ p.1, (utf8 label).IsBare) ∧ p.2.Readable gaps := by
    intro p hp
    exact (List.mem_append.mp hp).elim hread.2.2.of_mem_parts hread'.2.2.of_mem_parts
  have hstart : ∀ p ∈ Document.parts named fs ++ Document.parts named fs', ∀ t,
      (partText named p ++ t).head? ≠ some (ascii ')') := by
    intro p hp t
    obtain ⟨_ | label, v⟩ := p
    · exact head?_toText (hall _ hp).2 named (.inl rfl) t
    · simp only [partText, Option.elim, List.append_assoc]
      exact ((hall _ hp).1 label rfl).head?_ne (by decide) _
  have hbreak (t : Text) : (utf8 "(" ++ t).Breaks := Text.breaks_cons (by decide)
  simp only [toText_parts, List.append_assoc] at h
  obtain ⟨hkind, hrest⟩ := Text.word_append_inj hread.1.2 hread'.1.2 (hbreak _) (hbreak _) h
  obtain rfl := utf8_injective hkind
  obtain ⟨hsame, rfl⟩ := join_inj (.inl rfl) hstart
    (fun p hp p' hp' => determined_part (hall p (by simp [hp])) (hall p' (by simp [hp']))
      (hparts p hp (hP.parts hd' p' hp')))
    (List.append_cancel_left hrest)
  exact ⟨congrArg (node kind) (hP.fields hd hd' hsame), rfl⟩

mutual

/-- A document in front of the rest of a document is determined by its text. -/
theorem determined_toText (hP : Legible named gaps P) {d : Document} (hd : P d) {d' : Document}
    (hd' : P d') : Determined (toText named) d d' := by
  intro r r' hr hr' h
  have hread := hP.readable hd
  have hread' := hP.readable hd'
  have hparts := h
  rw [toText_eq, toText_eq, List.append_assoc, List.append_assoc] at hparts
  obtain ⟨hword, hrest⟩ := Text.word_append_inj (isWordByte_word hread) (isWordByte_word hread')
    (breaks_rest named d hr) (breaks_rest named d' hr') hparts
  have hform : d.form = d'.form := by
    rw [← formOf_eq named d hr, ← formOf_eq named d' hr', hword, hrest]
  cases d with
  | atom t =>
    cases d' with
    | atom t' => exact ⟨congrArg atom hword, hrest⟩
    | _ => exact absurd hform (by simp [form])
  | quoted t =>
    cases d' with
    | quoted t' =>
      obtain ⟨rfl, rfl⟩ := Quoted.text_append_inj hread hread' hrest
      exact ⟨rfl, rfl⟩
    | _ => exact absurd hform (by simp [form])
  | bytes t =>
    cases d' with
    | bytes t' =>
      obtain ⟨rfl, rfl⟩ := Quoted.bytes_append_inj (congrArg (ascii 'b' :: ·) hrest)
      exact ⟨rfl, rfl⟩
    | _ => exact absurd hform (by simp [form])
  | list items =>
    cases d' with
    | list items' =>
      have hall : ∀ a ∈ items ++ items', P a := by
        intro a ha
        exact (List.mem_append.mp ha).elim (hP.items hd a) (hP.items hd' a)
      simp only [rest, List.append_assoc] at hrest
      obtain ⟨rfl, rfl⟩ := join_inj (.inr rfl)
        (fun a ha => head?_toText (hP.readable (hall a ha)) named (.inr rfl))
        (fun a ha a' ha' => determined_items hP items (hP.items hd) a ha (hall a' (by simp [ha'])))
        (List.append_cancel_left hrest)
      exact ⟨rfl, rfl⟩
    | _ => exact absurd hform (by simp [form])
  | node kind fs =>
    cases d' with
    | node kind' fs' =>
      exact hP.node_append_inj hd hd' (determined_parts hP fs named (hP.parts hd)) h
    | _ => exact absurd hform (by simp [form])

theorem determined_items (hP : Legible named gaps P) : ∀ items : List Document,
    (∀ a ∈ items, P a) → ∀ a ∈ items, ∀ {a' : Document}, P a' → Determined (toText named) a a'
  | [], _, _, ha => absurd ha (by simp)
  | d :: items, h, a, ha => by
    rcases List.mem_cons.mp ha with heq | ha
    · rw [heq]
      exact determined_toText hP (h d List.mem_cons_self)
    · exact determined_items hP items (fun a ha => h a (List.mem_cons_of_mem d ha)) a ha

theorem determined_parts (hP : Legible named gaps P) :
    ∀ (fs : List (String × Option Document)) (shown : Bool), (∀ p ∈ Document.parts shown fs, P p.2) → ∀ p ∈ Document.parts shown fs,
      ∀ {d' : Document}, P d' → Determined (toText named) p.2 d'
  | [], _, _, _, hp => absurd hp (by simp [Document.parts])
  | (_, none) :: fs, _, h, p, hp => determined_parts hP fs true h p hp
  | (label, some v) :: fs, shown, h, p, hp => by
    rcases List.mem_cons.mp hp with heq | hp
    · rw [heq]
      exact determined_toText hP (h _ List.mem_cons_self)
    · exact determined_parts hP fs shown (fun p hp => h p (List.mem_cons_of_mem _ hp)) p hp

end

theorem eq_of_toText_eq (hP : Legible named gaps P) {d d' : Document} (hd : P d) (hd' : P d')
    (h : d.toText named = d'.toText named) : d = d' := by
  have hends : Ends [] := by simp [Ends]
  have happend : d.toText named ++ [] = d'.toText named ++ [] := by rw [h]
  exact (hP.determined_toText hd hd' [] [] hends hends happend).1

/-- A node is determined by its text, whatever stands behind it. -/
theorem append_inj_of_form (hP : Legible named gaps P) {d d' : Document} (hd : P d) (hd' : P d')
    (hform : d.form = .node) (hform' : d'.form = .node) {r r' : Text}
    (h : d.toText named ++ r = d'.toText named ++ r') : d = d' ∧ r = r' := by
  cases d with
  | node kind fs =>
    cases d' with
    | node kind' fs' =>
      exact hP.node_append_inj hd hd' (hP.determined_parts fs named (hP.parts hd)) h
    | _ => exact nomatch hform'
  | _ => exact nomatch hform

end Legible

/-- Where every field is present and carries its name nothing is lost. -/
theorem legible_readable : Legible true false (Readable false) where
  readable h := h
  items h := allReadable_iff.mp h
  parts h _ hp := (h.2.2.of_mem_parts hp).2
  fields {_ fs fs'} h h' hsame := by
    rw [parts_true, parts_true, List.map_inj_right fun f g hfg => ?_] at hsame
    · exact eq_of_present_eq h.2.2 h'.2.2 hsame
    · rw [Prod.mk.injEq, Option.some.injEq] at hfg
      exact Prod.ext hfg.1 hfg.2

/-! ## What a document shows -/

/-- An empty list of keyword arguments. -/
def isNoKeywords (label : String) : Document → Bool
  | .list [] => label = "keywords"
  | _ => false

theorem isNoKeywords_of_ne {label : String} (h : label ≠ "keywords") (d : Document) :
    isNoKeywords label d = false := by
  unfold isNoKeywords
  split
  · exact decide_eq_false h
  · rfl

theorem eq_of_isNoKeywords {label : String} {d : Document} (h : isNoKeywords label d = true) :
    label = "keywords" ∧ d = .list [] := by
  unfold isNoKeywords at h
  split at h
  · exact ⟨of_decide_eq_true h, rfl⟩
  · exact absurd h (by decide)

mutual

/-- The document without the fields that are left out and with texts in quotes as `f` shows them.
Where it is `brief` empty lists of keyword arguments are left out too. -/
def shown (f : Text → Text) (brief : Bool) : Document → Document
  | .atom t => .atom t
  | .quoted t => .quoted (f t)
  | .bytes t => .bytes (f t)
  | .list items => .list (shownItems f brief items)
  | .node kind fs => .node kind (shownFields f brief fs)

def shownItems (f : Text → Text) (brief : Bool) : List Document → List Document
  | [] => []
  | d :: rest => shown f brief d :: shownItems f brief rest

def shownFields (f : Text → Text) (brief : Bool) :
    List (String × Option Document) → List (String × Option Document)
  | [] => []
  | (_, none) :: rest => shownFields f brief rest
  | (label, some v) :: rest =>
    if brief && isNoKeywords label v then shownFields f brief rest
    else (label, some (shown f brief v)) :: shownFields f brief rest

end

variable {f : Text → Text} {brief : Bool}

/-- What a field shows. -/
def shownField (f : Text → Text) (brief : Bool) (label : String) : Option Document → Option Document
  | none => none
  | some v => if brief && isNoKeywords label v then none else some (shown f brief v)

theorem shownFields_cons (label : String) (o : Option Document)
    (fs : List (String × Option Document)) :
    shownFields f brief ((label, o) :: fs) =
      match shownField f brief label o with
      | none => shownFields f brief fs
      | some v => (label, some v) :: shownFields f brief fs := by
  cases o with
  | none => rfl
  | some v =>
    rw [shownFields, shownField]
    split <;> rfl

theorem label_mem_of_mem_shownFields {fs : List (String × Option Document)}
    {g : String × Option Document} (h : g ∈ shownFields f brief fs) : g.1 ∈ fs.map Prod.fst := by
  induction fs with
  | nil => exact absurd h (by simp [shownFields])
  | cons x fs ih =>
    obtain ⟨label, o⟩ := x
    rw [shownFields_cons] at h
    rw [List.map_cons, List.mem_cons]
    split at h
    · exact .inr (ih h)
    · rcases List.mem_cons.mp h with rfl | h
      · exact .inl rfl
      · exact .inr (ih h)

theorem Led.shownFields {fs : List (String × Option Document)} (h : Led fs) :
    Led (shownFields f brief fs) := by
  intro hmem
  obtain ⟨g, hg, hlabel⟩ := List.mem_map.mp hmem
  obtain ⟨label, v, rest, rfl, hne⟩ := h (hlabel ▸ label_mem_of_mem_shownFields hg)
  have hno := isNoKeywords_of_ne hne v
  refine ⟨label, v.shown f brief, Document.shownFields f brief rest, ?_, hne⟩
  rw [Document.shownFields, hno, Bool.and_false, if_neg (by decide)]

mutual

theorem readable_shown (hf : ∀ t, Utf8.IsEncoded t → Utf8.IsEncoded (f t)) {gaps : Bool} :
    ∀ {d : Document}, d.Readable gaps → (d.shown f brief).Readable false
  | .atom _, h => h
  | .quoted t, h => hf t h
  | .bytes _, _ => trivial
  | .list _, h => readable_shownItems hf h
  | .node _ _, h => ⟨h.1, h.2.1.shownFields, readable_shownFields hf h.2.2⟩

theorem readable_shownItems (hf : ∀ t, Utf8.IsEncoded t → Utf8.IsEncoded (f t)) {gaps : Bool} :
    ∀ {items : List Document}, AllReadable gaps items →
      AllReadable false (shownItems f brief items)
  | [], _ => trivial
  | _ :: _, h => ⟨readable_shown hf h.1, readable_shownItems hf h.2⟩

theorem readable_shownFields (hf : ∀ t, Utf8.IsEncoded t → Utf8.IsEncoded (f t)) {gaps : Bool} :
    ∀ {fs : List (String × Option Document)}, FieldsReadable gaps fs →
      FieldsReadable false (shownFields f brief fs)
  | [], _ => trivial
  | (_, none) :: _, h => by
    rw [shownFields]
    exact readable_shownFields hf h.2
  | (_, some _) :: _, h => by
    rw [shownFields]
    split
    · exact readable_shownFields hf h.2.2
    · exact ⟨h.1, readable_shown hf h.2.1, readable_shownFields hf h.2.2⟩

end

mutual

/-- A field that is left out leaves no trace in the text. -/
theorem toText_shown : ∀ d : Document, (d.shown id false).toText true = d.toText true
  | .atom _ => rfl
  | .quoted _ => rfl
  | .bytes _ => rfl
  | .list items => by rw [shown, toText_list, toText_list, toText_shownItems]
  | .node _ fs => by rw [shown, toText_node, toText_node, fieldText_shownFields]

theorem toText_shownItems : ∀ items : List Document,
    (shownItems id false items).map (toText true) = items.map (toText true)
  | [] => rfl
  | d :: items => by
    rw [shownItems, List.map_cons, toText_shown d, toText_shownItems items, List.map_cons]

theorem fieldText_shownFields : ∀ fs : List (String × Option Document),
    (present (shownFields id false fs)).map fieldText = (present fs).map fieldText
  | [] => rfl
  | (_, none) :: fs => fieldText_shownFields fs
  | (label, some v) :: fs => by
    have hfirst : fieldText (label, v.shown id false) = fieldText (label, v) := by
      rw [fieldText, fieldText, toText_shown v]
    show fieldText (label, v.shown id false) :: (present (shownFields id false fs)).map fieldText =
      fieldText (label, v) :: (present fs).map fieldText
    rw [hfirst, fieldText_shownFields fs]

end

/-- Two documents with the same text show the same, but for the fields that are left out. -/
theorem shown_eq_of_toText_eq {gaps : Bool} {d d' : Document} (hd : d.Readable gaps)
    (hd' : d'.Readable gaps) (h : d.toText true = d'.toText true) :
    d.shown id false = d'.shown id false := by
  have htext : (d.shown id false).toText true = (d'.shown id false).toText true := by
    rw [toText_shown, toText_shown, h]
  exact legible_readable.eq_of_toText_eq (readable_shown (fun _ h => h) hd)
    (readable_shown (fun _ h => h) hd') htext

/-! ### Fields one by one -/

/-- Fields with different names do not stand in for each other. -/
theorem shownFields_cons_inj {label : String} {o o' : Option Document}
    {fs fs' : List (String × Option Document)} (hl : label ∉ fs.map Prod.fst)
    (hl' : label ∉ fs'.map Prod.fst) :
    shownFields f brief ((label, o) :: fs) = shownFields f brief ((label, o') :: fs') ↔
      shownField f brief label o = shownField f brief label o' ∧
        shownFields f brief fs = shownFields f brief fs' := by
  rw [shownFields_cons, shownFields_cons]
  rcases shownField f brief label o with _ | v <;> rcases shownField f brief label o' with _ | v'
  · simp
  · refine ⟨fun h => ?_, fun h => absurd h.1 (by simp)⟩
    have hmem : (label, some v') ∈ shownFields f brief fs := by
      rw [show shownFields f brief fs = _ from h]
      exact List.mem_cons_self
    exact absurd (label_mem_of_mem_shownFields hmem) hl
  · refine ⟨fun h => ?_, fun h => absurd h.1 (by simp)⟩
    have hmem : (label, some v) ∈ shownFields f brief fs' := by
      rw [show shownFields f brief fs' = _ from h.symm]
      exact List.mem_cons_self
    exact absurd (label_mem_of_mem_shownFields hmem) hl'
  · simp

/-- Two parts that show the same, or are both left out. -/
def Alike (f : Text → Text) (brief : Bool) : Option Document → Option Document → Prop
  | none, none => True
  | some d, some d' => d.shown f brief = d'.shown f brief
  | _, _ => False

/-- Fields in the same order that show the same. -/
def FieldsAlike (f : Text → Text) (brief : Bool) :
    List (String × Option Document) → List (String × Option Document) → Prop
  | [], [] => True
  | (_, o) :: fs, (_, o') :: fs' => Alike f brief o o' ∧ FieldsAlike f brief fs fs'
  | _, _ => False

/-- Only lists of keyword arguments are left out where they are empty, so no two fields but those
are alike when one is left out. -/
theorem alike_of_shownField {label : String} {o o' : Option Document}
    (hkw : label = "keywords" → o.isSome ∧ o'.isSome)
    (h : shownField f brief label o = shownField f brief label o') : Alike f brief o o' := by
  have hno {v : Document} (hv : (brief && isNoKeywords label v) = true) :
      label = "keywords" ∧ v = .list [] :=
    eq_of_isNoKeywords (Bool.and_eq_true_iff.mp hv).2
  cases o with
  | none =>
    cases o' with
    | none => trivial
    | some v' =>
      rw [shownField, shownField] at h
      split at h
      next hv => exact absurd (hkw (hno hv).1).1 (by simp)
      next => exact absurd h (by simp)
  | some v =>
    cases o' with
    | none =>
      rw [shownField, shownField] at h
      split at h
      next hv => exact absurd (hkw (hno hv).1).2 (by simp)
      next => exact absurd h (by simp)
    | some v' =>
      rw [shownField, shownField] at h
      show v.shown f brief = v'.shown f brief
      split at h
      next hv =>
        split at h
        next hv' => rw [(hno hv).2, (hno hv').2]
        next => exact absurd h (by simp)
      next =>
        split at h
        next => exact absurd h (by simp)
        next => exact Option.some.inj h

/-- Nodes that show the same have fields that show the same, one by one. -/
theorem fieldsAlike_of_shown {kind kind' : String} {fs fs' : List (String × Option Document)}
    (h : (node kind fs).shown f brief = (node kind' fs').shown f brief)
    (hlabels : (fs.map Prod.fst).Nodup := by simp)
    (hsame : fs'.map Prod.fst = fs.map Prod.fst := by rfl)
    (hkw : ∀ g ∈ fs ++ fs', g.1 = "keywords" → g.2.isSome := by simp) :
    FieldsAlike f brief fs fs' := by
  have hfields : shownFields f brief fs = shownFields f brief fs' := by
    rw [shown, shown] at h
    exact (Document.node.inj h).2
  clear h
  induction fs generalizing fs' with
  | nil =>
    obtain rfl : fs' = [] := by simpa using hsame
    trivial
  | cons g fs ih =>
    obtain ⟨label, o⟩ := g
    cases fs' with
    | nil => exact absurd hsame (by simp)
    | cons g' fs' =>
      obtain ⟨label', o'⟩ := g'
      obtain ⟨rfl, hrest⟩ : label' = label ∧ fs'.map Prod.fst = fs.map Prod.fst := by
        simpa using hsame
      obtain ⟨hnot, hnodup⟩ := List.nodup_cons.mp hlabels
      rw [shownFields_cons_inj hnot (hrest ▸ hnot)] at hfields
      refine ⟨alike_of_shownField (fun hl => ?_) hfields.1, ih hnodup hrest (fun g hg => ?_) hfields.2⟩
      · exact ⟨hkw (label', o) (by simp) hl, hkw (label', o') (by simp) hl⟩
      · exact hkw g (by grind)

/-- A node is known by the word in front of it. -/
theorem word_shown (d : Document) : (d.shown f brief).word = d.word := by
  cases d <;> simp [shown, word]

end Document

end CloneScout
