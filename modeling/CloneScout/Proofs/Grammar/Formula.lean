import CloneScout.Proofs.Grammar.Operands
import CloneScout.Proofs.Tree.Outline

/-!
# Formulas

Expressions made of names, whole numbers, operators, attributes, subscripts and calls, and their
words with parentheses exactly where an operand binds less tightly than its place asks for. The
words of a formula are legible up to its rank.
-/

namespace CloneScout

/-- A name. -/
abbrev Identifier := { t : Text // Token.IsName t }

mutual

inductive Formula where
  | name (id : Identifier)
  | int (value : Nat)
  | binary (left : Formula) (op : BinaryOp) (right : Formula)
  | unary (op : UnaryOp) (operand : Formula)
  | boolean (op : BoolOp) (first second : Formula) (rest : List Formula)
  | compare (left : Formula) (tests : Tests)
  | conditional (test body orelse : Formula)
  | attribute (value : Formula) (id : Identifier)
  | subscript (value index : Formula)
  | call (func : Formula) (args : List Formula)

/-- One or more comparisons in a row. -/
inductive Tests where
  | last (op : CompareOp) (right : Formula)
  | more (op : CompareOp) (right : Formula) (rest : Tests)

end

/-! ## Operators -/

/-- The sign of a binary operator. -/
def BinaryOp.kind : BinaryOp → Token.Kind
  | .add => .plus
  | .sub => .minus
  | .mult => .star
  | .matMult => .at
  | .div => .slash
  | .mod => .percent
  | .pow => .starStar
  | .shiftLeft => .shiftLeft
  | .shiftRight => .shiftRight
  | .bitOr => .pipe
  | .bitXor => .caret
  | .bitAnd => .amp
  | .floorDiv => .slashSlash

/-- How tightly a binary operator binds. -/
def BinaryOp.rank : BinaryOp → Nat
  | .bitOr => 10
  | .bitXor => 20
  | .bitAnd => 30
  | .shiftLeft => 40
  | .shiftRight => 40
  | .add => 50
  | .sub => 50
  | .mult => 60
  | .matMult => 60
  | .div => 60
  | .mod => 60
  | .floorDiv => 60
  | .pow => 80

/-- Powers bind to the right, and their exponent may have a sign; all other operators bind to the
left. -/
def BinaryOp.leftRank : BinaryOp → Nat
  | .pow => 90
  | op => op.rank

def BinaryOp.rightRank : BinaryOp → Nat
  | .pow => 70
  | op => op.rank + 1

def UnaryOp.kind : UnaryOp → Token.Kind
  | .invert => .tilde
  | .not => .kwNot
  | .plus => .plus
  | .minus => .minus

def UnaryOp.rank : UnaryOp → Nat
  | .not => 4
  | _ => 70

def BoolOp.kind : BoolOp → Token.Kind
  | .and => .kwAnd
  | .or => .kwOr

def BoolOp.rank : BoolOp → Nat
  | .and => 3
  | .or => 2

namespace Formula

open Lexeme (ofKind)
open Grammar

def rank : Formula → Nat
  | .name _ => 90
  | .int _ => 90
  | .binary _ op _ => op.rank
  | .unary op _ => op.rank
  | .boolean op _ _ _ => op.rank
  | .compare _ _ => 5
  | .conditional _ _ _ => 1
  | .attribute _ _ => 90
  | .subscript _ _ => 90
  | .call _ _ => 90

/-! ## Words -/

/-- The words of an operand, in parentheses if it binds less tightly than its place asks for. -/
def enclose (rank : Nat) (operand : Formula) (ws : List Lexeme) : List Lexeme :=
  if operand.rank < rank then ofKind .lparen :: (ws ++ [ofKind .rparen]) else ws

mutual

def words : Formula → List Lexeme
  | .name id => [⟨.ident, id.1⟩]
  | .int value => [⟨.intLit, Text.ofNat value⟩]
  | .binary left op right =>
    enclose op.leftRank left (words left) ++
      ofKind op.kind :: enclose op.rightRank right (words right)
  | .unary op operand => ofKind op.kind :: enclose op.rank operand (words operand)
  | .boolean op first second rest =>
    enclose (op.rank + 1) first (words first) ++
      (enclose (op.rank + 1) second (words second) :: operands (op.rank + 1) rest).flatMap
        fun ws => ofKind op.kind :: ws
  | .compare left tests => enclose 6 left (words left) ++ testWords tests
  | .conditional test body orelse =>
    enclose 2 body (words body) ++
      ofKind .kwIf :: (enclose 2 test (words test) ++ ofKind .kwElse :: words orelse)
  | .attribute value id => enclose 90 value (words value) ++ [ofKind .dot, ⟨.ident, id.1⟩]
  | .subscript value index =>
    enclose 90 value (words value) ++ ofKind .lbracket :: (words index ++ [ofKind .rbracket])
  | .call func args =>
    enclose 90 func (words func) ++
      ofKind .lparen :: (argumentWords (operands 1 args) ++ [ofKind .rparen])

def operands (rank : Nat) : List Formula → List (List Lexeme)
  | [] => []
  | t :: rest => enclose rank t (words t) :: operands rank rest

def testWords : Tests → List Lexeme
  | .last op right => (compareWords op).map ofKind ++ enclose 6 right (words right)
  | .more op right rest =>
    (compareWords op).map ofKind ++ (enclose 6 right (words right) ++ testWords rest)

end

/-- The words with one blank between any two of them. -/
def text (t : Formula) : Text := Text.join (utf8 " ") (t.words.map Lexeme.text)

example : text (.binary (.unary .minus (.int 1)) .pow (.unary .minus (.binary (.int 2) .sub (.int 3)))) =
    utf8 "( - 1 ) ** - ( 2 - 3 )" := by decide +kernel

/-! ## Trees -/

mutual

def toExpr : Formula → Expr
  | .name id => .name .blank id.1 .load
  | .int value => .constant .blank (.int value)
  | .binary left op right => .binary .blank (toExpr left) op (toExpr right)
  | .unary op operand => .unary .blank op (toExpr operand)
  | .boolean op first second rest =>
    .boolean .blank op (toExpr first :: toExpr second :: toExprs rest)
  | .compare left tests => .compare .blank (toExpr left) (testOps tests) (testExprs tests)
  | .conditional test body orelse => .conditional .blank (toExpr test) (toExpr body) (toExpr orelse)
  | .attribute value id => .attribute .blank (toExpr value) id.1 .load
  | .subscript value index => .subscript .blank (toExpr value) (toExpr index) .load
  | .call func args => .call .blank (toExpr func) (toExprs args) []

def toExprs : List Formula → List Expr
  | [] => []
  | t :: rest => toExpr t :: toExprs rest

def testOps : Tests → List CompareOp
  | .last op _ => [op]
  | .more op _ rest => op :: testOps rest

def testExprs : Tests → List Expr
  | .last _ right => [toExpr right]
  | .more _ right rest => toExpr right :: testExprs rest

end

/-! ## Reading the words of a formula -/

theorem one_le_rank (t : Formula) : 1 ≤ t.rank := by
  cases t with
  | binary left op right => cases op <;> simp [rank, BinaryOp.rank]
  | unary op operand => cases op <;> simp [rank, UnaryOp.rank]
  | boolean op first second rest => cases op <;> simp [rank, BoolOp.rank]
  | _ => simp [rank]

theorem opens_append {rank : Nat} {ws : List Lexeme} (h : Opens rank ws) (vs : List Lexeme) :
    Opens rank (ws ++ vs) := by
  obtain ⟨w, us, rfl, hw⟩ := h
  exact ⟨w, us ++ vs, rfl, hw⟩

/-- An operand can be read at the rank that its place asks for. -/
theorem legible_enclose {t : Formula} {ws : List Lexeme} {d : Document} (h : Legible t.rank ws d)
    (rank : Nat) (hrank : rank ≤ 90) : Legible rank (enclose rank t ws) d := by
  unfold enclose
  split
  · have hplain : ∀ w ∈ ofKind .lparen :: (ws ++ [ofKind .rparen]),
        w.kind ≠ .walrus ∧ w.kind ≠ .assign := by
      intro w hw
      simp only [List.mem_cons, List.mem_append, List.not_mem_nil, or_false] at hw
      rcases hw with rfl | hw | rfl
      · decide
      · exact h.plain w hw
      · decide
    refine (Legible.of_trails hplain (trails_parenthesized (h.mono t.one_le_rank)) ?_).mono hrank
    exact ⟨ofKind .lparen, _, rfl, rfl⟩
  · exact h.mono (by omega)

/-- The words hold no sign of an assignment. -/
abbrev Plain (ws : List Lexeme) : Prop := ∀ w ∈ ws, w.kind ≠ .walrus ∧ w.kind ≠ .assign

theorem plain_append {ws vs : List Lexeme} (hws : Plain ws) (hvs : Plain vs) : Plain (ws ++ vs) :=
  fun w hw => (List.mem_append.mp hw).elim (hws w) (hvs w)

theorem plain_cons {k : Token.Kind} (hk : k ≠ .walrus ∧ k ≠ .assign) {ws : List Lexeme}
    (hws : Plain ws) : Plain (ofKind k :: ws) := by
  intro w hw
  rcases List.mem_cons.mp hw with rfl | hw
  · exact hk
  · exact hws w hw

theorem plain_nil : Plain [] := fun _ hw => nomatch hw

theorem plain_compareWords (op : CompareOp) : Plain ((compareWords op).map ofKind) := by
  cases op <;> decide

theorem plain_argumentWords {parts : List (List Lexeme)} (h : ∀ ws ∈ parts, Plain ws) :
    Plain (argumentWords parts) := by
  induction parts with
  | nil => exact plain_nil
  | cons ws parts ih =>
    have hrest := ih fun ws hws => h ws (List.mem_cons_of_mem _ hws)
    cases parts with
    | nil => exact h ws List.mem_cons_self
    | cons vs parts =>
      exact plain_append (h ws List.mem_cons_self) (plain_cons (by decide) hrest)

theorem plain_flatMap {k : Token.Kind} (hk : k ≠ .walrus ∧ k ≠ .assign)
    {parts : List (List Lexeme)} (h : ∀ ws ∈ parts, Plain ws) :
    Plain (parts.flatMap fun ws => ofKind k :: ws) := by
  intro w hw
  obtain ⟨ws, hws, hw⟩ := List.mem_flatMap.mp hw
  exact plain_cons hk (h ws hws) w hw

theorem binaryOp?_kind {op : BinaryOp} (h : op ≠ .pow) :
    binaryOp? op.kind = some op ∧ op.kind.precedence? = some op.rank ∧ op.leftRank = op.rank ∧
      op.rightRank = op.rank + 1 ∧ 6 ≤ op.rank ∧ op.rank < 70 := by
  cases op <;> first | exact absurd rfl h | exact ⟨rfl, rfl, rfl, rfl, by decide, by decide⟩

theorem legible_binary {left right : Formula} {op : BinaryOp}
    (hl : Legible left.rank left.words (Dump.expr left.toExpr))
    (hr : Legible right.rank right.words (Dump.expr right.toExpr)) :
    Legible (Formula.binary left op right).rank (words (.binary left op right))
      (Dump.expr (toExpr (.binary left op right))) := by
  have hplainOp : op.kind ≠ .walrus ∧ op.kind ≠ .assign := by cases op <;> decide
  have hl' := legible_enclose hl op.leftRank (by cases op <;> decide)
  have hr' := legible_enclose hr op.rightRank (by cases op <;> decide)
  have hplain : Plain (words (.binary left op right)) :=
    plain_append hl'.plain (plain_cons hplainOp hr'.plain)
  by_cases hpow : op = .pow
  · subst hpow
    exact .of_power hplain (scans_power hl' hr' .blank) (opens_append (hl'.opens.mono (by decide)) _)
  · obtain ⟨hop, hp, hleft, hright, hsix, hseventy⟩ := binaryOp?_kind hpow
    rw [hleft] at hl'
    rw [hright] at hr'
    refine .of_sums hplain hsix hseventy (fun floor hfloor => ?_) ?_
    · rw [words, hleft, hright]
      exact sums_binary hop hp hl' hr' .blank hfloor
    · rw [words, hleft]
      exact opens_append hl'.opens _

theorem legible_unary {operand : Formula} {op : UnaryOp}
    (h : Legible operand.rank operand.words (Dump.expr operand.toExpr)) :
    Legible (Formula.unary op operand).rank (words (.unary op operand))
      (Dump.expr (toExpr (.unary op operand))) := by
  have hplainOp : op.kind ≠ .walrus ∧ op.kind ≠ .assign := by cases op <;> decide
  have hopens : op.kind.opens op.rank = true := by cases op <;> decide
  have h' := legible_enclose h op.rank (by cases op <;> decide)
  have hplain : Plain (words (.unary op operand)) := plain_cons hplainOp h'.plain
  have hfirst : Opens op.rank (words (.unary op operand)) := ⟨ofKind op.kind, _, rfl, hopens⟩
  cases op with
  | not => exact .of_inversion hplain (scans_inversion h' .blank) hfirst
  | _ => exact .of_factor hplain (scans_factor rfl h' .blank) hfirst

/-- The words of operands with their documents. -/
def parts (rank : Nat) (ts : List Formula) : List (List Lexeme × Document) :=
  ts.map fun t => (enclose rank t t.words, Dump.expr t.toExpr)

theorem operands_eq (rank : Nat) (ts : List Formula) :
    operands rank ts = (parts rank ts).map Prod.fst := by
  induction ts with
  | nil => rfl
  | cons t ts ih => rw [operands, ih]; rfl

theorem toExprs_eq (rank : Nat) (ts : List Formula) :
    (parts rank ts).map Prod.snd = (toExprs ts).map Dump.expr := by
  induction ts with
  | nil => rfl
  | cons t ts ih =>
    rw [toExprs, List.map_cons, ← ih]
    rfl

theorem legible_parts {ts : List Formula}
    (h : ∀ t ∈ ts, Legible t.rank t.words (Dump.expr t.toExpr)) (rank : Nat) (hrank : rank ≤ 90) :
    ∀ p ∈ parts rank ts, Legible rank p.1 p.2 := by
  intro p hp
  obtain ⟨t, ht, rfl⟩ := List.mem_map.mp hp
  exact legible_enclose (h t ht) rank hrank

theorem legible_boolean {first second : Formula} {rest : List Formula} {op : BoolOp}
    (h : ∀ t ∈ first :: second :: rest, Legible t.rank t.words (Dump.expr t.toExpr)) :
    Legible (Formula.boolean op first second rest).rank (words (.boolean op first second rest))
      (Dump.expr (toExpr (.boolean op first second rest))) := by
  have hplainOp : op.kind ≠ .walrus ∧ op.kind ≠ .assign := by cases op <;> decide
  have hparts := legible_parts h (op.rank + 1) (by cases op <;> decide)
  have hdocs := toExprs_eq (op.rank + 1) (first :: second :: rest)
  have hwords : words (.boolean op first second rest) = joinedWords op.kind
      (enclose (op.rank + 1) first first.words, Dump.expr first.toExpr)
      (parts (op.rank + 1) (second :: rest)) := by
    rw [words, joinedWords, operands_eq, List.flatMap_def, List.flatMap_def]
    simp [parts, Function.comp_def]
  have hplain : Plain (words (.boolean op first second rest)) := by
    rw [words, operands_eq]
    refine plain_append (hparts _ List.mem_cons_self).plain (plain_flatMap hplainOp ?_)
    intro ws hws
    obtain ⟨p, hp, rfl⟩ := List.mem_map.mp
      (show ws ∈ (parts (op.rank + 1) (second :: rest)).map Prod.fst from hws)
    exact (hparts p (List.mem_cons_of_mem _ hp)).plain
  have hopens : Opens op.rank (words (.boolean op first second rest)) :=
    opens_append ((hparts _ List.mem_cons_self).opens.mono (by omega)) _
  rw [hwords] at hplain hopens ⊢
  cases op with
  | and =>
    exact .of_conjunction hplain (scans_boolean .conjunction .inversion
      (fun _ => rfl) rfl rfl hparts hdocs .blank) hopens
  | or =>
    exact .of_disjunction hplain (scans_boolean .disjunction .conjunction
      (fun _ => rfl) rfl rfl hparts hdocs .blank) hopens

theorem legible_conditional {test body orelse : Formula}
    (htest : Legible test.rank test.words (Dump.expr test.toExpr))
    (hbody : Legible body.rank body.words (Dump.expr body.toExpr))
    (horelse : Legible orelse.rank orelse.words (Dump.expr orelse.toExpr)) :
    Legible 1 (words (.conditional test body orelse))
      (Dump.expr (toExpr (.conditional test body orelse))) := by
  have htest' := legible_enclose htest 2 (by decide)
  have hbody' := legible_enclose hbody 2 (by decide)
  refine .of_expression ?_
    (scans_conditional htest' hbody' (horelse.mono orelse.one_le_rank) .blank)
    (opens_append (hbody'.opens.mono (by decide)) _)
  exact plain_append hbody'.plain (plain_cons (by decide)
    (plain_append htest'.plain (plain_cons (by decide) horelse.plain)))

theorem legible_attribute {value : Formula} {id : Identifier}
    (h : Legible value.rank value.words (Dump.expr value.toExpr)) :
    Legible 90 (words (.attribute value id)) (Dump.expr (toExpr (.attribute value id))) := by
  have h' := legible_enclose h 90 (by decide)
  refine .of_trails ?_ (trails_attribute h' id.1 .blank) (opens_append h'.opens _)
  refine plain_append h'.plain (plain_cons (by decide) ?_)
  simp [Plain]

theorem legible_subscript {value index : Formula}
    (h : Legible value.rank value.words (Dump.expr value.toExpr))
    (hindex : Legible index.rank index.words (Dump.expr index.toExpr)) :
    Legible 90 (words (.subscript value index)) (Dump.expr (toExpr (.subscript value index))) := by
  have h' := legible_enclose h 90 (by decide)
  refine .of_trails ?_ (trails_subscript h' (hindex.mono index.one_le_rank) .blank)
    (opens_append h'.opens _)
  exact plain_append h'.plain (plain_cons (by decide)
    (plain_append hindex.plain (plain_cons (by decide) plain_nil)))

theorem legible_call {func : Formula} {args : List Formula}
    (h : Legible func.rank func.words (Dump.expr func.toExpr))
    (hargs : ∀ t ∈ args, Legible t.rank t.words (Dump.expr t.toExpr)) :
    Legible 90 (words (.call func args)) (Dump.expr (toExpr (.call func args))) := by
  have h' := legible_enclose h 90 (by decide)
  have hparts := legible_parts hargs 1 (by decide)
  have hwords : words (.call func args) = enclose 90 func func.words ++
      ofKind .lparen :: (argumentWords ((parts 1 args).map Prod.fst) ++ [ofKind .rparen]) := by
    rw [words, operands_eq]
  rw [hwords]
  refine .of_trails ?_ (trails_call h' hparts (toExprs_eq 1 args) .blank) (opens_append h'.opens _)
  refine plain_append h'.plain (plain_cons (by decide)
    (plain_append (plain_argumentWords fun ws hws => ?_) (plain_cons (by decide) plain_nil)))
  obtain ⟨p, hp, rfl⟩ := List.mem_map.mp hws
  exact (hparts p hp).plain

/-- What a row of comparisons compares with. -/
def compared : Tests → List Compared
  | .last op right => [(op, enclose 6 right right.words, Dump.expr right.toExpr)]
  | .more op right rest => (op, enclose 6 right right.words, Dump.expr right.toExpr) :: compared rest

theorem compared_eq_cons (tests : Tests) : ∃ c cs, compared tests = c :: cs := by
  cases tests <;> exact ⟨_, _, rfl⟩

theorem testWords_eq (tests : Tests) : testWords tests = (compared tests).flatMap Compared.words := by
  cases tests with
  | last op right => simp [testWords, compared, Compared.words]
  | more op right rest =>
    rw [testWords, testWords_eq rest, compared, List.flatMap_cons, Compared.words, List.append_assoc]

theorem testOps_eq (tests : Tests) : (compared tests).map Prod.fst = testOps tests := by
  cases tests with
  | last op right => rfl
  | more op right rest => rw [testOps, ← testOps_eq rest]; rfl

theorem testExprs_eq (tests : Tests) :
    (compared tests).map (fun c => c.2.2) = (testExprs tests).map Dump.expr := by
  cases tests with
  | last op right => rfl
  | more op right rest =>
    rw [testExprs, List.map_cons, ← testExprs_eq rest]
    rfl

theorem legible_compare {left : Formula} {tests : Tests}
    (h : Legible left.rank left.words (Dump.expr left.toExpr))
    (htests : ∀ c ∈ compared tests, Legible 6 c.2.1 c.2.2) :
    Legible 5 (words (.compare left tests)) (Dump.expr (toExpr (.compare left tests))) := by
  have h' := legible_enclose h 6 (by decide)
  have hexprs := testExprs_eq tests
  rw [words, testWords_eq, toExpr, ← testOps_eq]
  obtain ⟨c, cs, hcs⟩ := compared_eq_cons tests
  rw [hcs] at htests hexprs ⊢
  refine .of_comparison ?_ (scans_comparison h' htests hexprs .blank)
    (opens_append (h'.opens.mono (by decide)) _)
  refine plain_append h'.plain fun w hw => ?_
  obtain ⟨c', hc', hw⟩ := List.mem_flatMap.mp hw
  exact plain_append (plain_compareWords c'.1) (htests c' hc').plain w hw

mutual

theorem legible (t : Formula) : Legible t.rank t.words (Dump.expr t.toExpr) := by
  cases t with
  | name id =>
    refine .of_trails ?_ (trails_name id.1 .blank) ⟨_, _, rfl, rfl⟩
    simp [words]
  | int value =>
    refine .of_trails ?_ (trails_int value .blank) ⟨_, _, rfl, rfl⟩
    simp [words]
  | binary left op right => exact legible_binary (legible left) (legible right)
  | unary op operand => exact legible_unary (legible operand)
  | boolean op first second rest =>
    have hfirst := legible first
    have hsecond := legible second
    have hrest := legible_all rest
    refine legible_boolean fun t ht => ?_
    rcases List.mem_cons.mp ht with rfl | ht
    · exact hfirst
    · rcases List.mem_cons.mp ht with rfl | ht
      · exact hsecond
      · exact hrest t ht
  | compare left tests => exact legible_compare (legible left) (legible_tests tests)
  | conditional test body orelse =>
    exact legible_conditional (legible test) (legible body) (legible orelse)
  | «attribute» value id => exact legible_attribute (legible value)
  | subscript value index => exact legible_subscript (legible value) (legible index)
  | call func args => exact legible_call (legible func) (legible_all args)

theorem legible_all (ts : List Formula) :
    ∀ t ∈ ts, Legible t.rank t.words (Dump.expr t.toExpr) := by
  cases ts with
  | nil => exact fun _ ht => nomatch ht
  | cons t ts =>
    have hfirst := legible t
    have hrest := legible_all ts
    intro t' ht'
    rcases List.mem_cons.mp ht' with rfl | ht'
    · exact hfirst
    · exact hrest t' ht'

theorem legible_tests (tests : Tests) : ∀ c ∈ compared tests, Legible 6 c.2.1 c.2.2 := by
  cases tests with
  | last op right =>
    intro c hc
    obtain rfl := List.mem_singleton.mp hc
    exact legible_enclose (legible right) 6 (by decide)
  | more op right rest =>
    intro c hc
    rcases List.mem_cons.mp hc with rfl | hc
    · exact legible_enclose (legible right) 6 (by decide)
    · exact legible_tests rest c hc

end

end Formula

end CloneScout
