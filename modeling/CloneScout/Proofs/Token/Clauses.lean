import CloneScout.Proofs.Token.Places
import CloneScout.Proofs.Tree.Ranges
import CloneScout.Token.Cursor

/-!
# Clauses of a tree and in a sequence of tokens

A grammar asks for something in most lists of a statement: a statement in every block, a case in a
`match`, names in an import. Only the lists of `else` and `finally` may be empty, where there is no
such word. The clauses of a tree are the lists of these that hold a statement, in the order of the
source.

Among tokens, the words `elif` and `finally` open a clause wherever they stand, and an `else` opens
one at the head of a line. The clauses in front of a cursor grow by at most one with each token that
it goes past.
-/

namespace CloneScout

/-- A part of a statement that a source may leave out. -/
inductive Clause where
  /-- What an `else` or an `elif` opens. -/
  | orelse
  /-- What a `finally` opens. -/
  | finalbody
  deriving DecidableEq, Repr

namespace Clauses

mutual

/-- The clauses of a statement and of all statements in it. -/
def stmt : Stmt → List Clause
  | .function _ _ _ _ body _ _ => stmts body
  | .classDef _ _ _ _ body _ => stmts body
  | .forLoop _ _ _ _ body orelse => stmts body ++ part .orelse orelse
  | .whileLoop _ _ body orelse => stmts body ++ part .orelse orelse
  | .branch _ _ body orelse => stmts body ++ part .orelse orelse
  | .withBlock _ _ _ body => stmts body
  | .matchBlock _ _ cs => cases cs
  | .tryBlock _ _ body hs orelse finalbody =>
    stmts body ++ handlers hs ++ part .orelse orelse ++ part .finalbody finalbody
  | _ => []

def stmts : List Stmt → List Clause
  | [] => []
  | s :: rest => stmt s ++ stmts rest

/-- The clauses of a list that is a clause itself if it holds a statement. -/
def part (c : Clause) : List Stmt → List Clause
  | [] => []
  | s :: rest => c :: (stmt s ++ stmts rest)

def handlers : List Handler → List Clause
  | [] => []
  | .mk _ _ body :: rest => stmts body ++ handlers rest

def cases : List MatchCase → List Clause
  | [] => []
  | .mk _ _ body :: rest => stmts body ++ cases rest

end

theorem stmts_append (ss ts : List Stmt) : stmts (ss ++ ts) = stmts ss ++ stmts ts := by
  induction ss with
  | nil => rfl
  | cons s rest ih => rw [List.cons_append, stmts, stmts, ih, List.append_assoc]

theorem stmts_singleton (s : Stmt) : stmts [s] = stmt s := List.append_nil _

theorem part_of_ne_nil (c : Clause) {ss : List Stmt} (h : ss ≠ []) :
    part c ss = c :: stmts ss := by
  cases ss with
  | nil => exact absurd rfl h
  | cons s rest => rfl

theorem handlers_eq_flatMap (hs : List Handler) : handlers hs = stmts (hs.flatMap Handler.body) := by
  induction hs with
  | nil => rfl
  | cons h rest ih =>
    obtain ⟨type, name, body⟩ := h
    rw [handlers, ih, List.flatMap_cons, stmts_append, Handler.body]

theorem cases_eq_flatMap (cs : List MatchCase) : cases cs = stmts (cs.flatMap MatchCase.body) := by
  induction cs with
  | nil => rfl
  | cons c rest ih =>
    obtain ⟨p, guard, body⟩ := c
    rw [cases, ih, List.flatMap_cons, stmts_append, MatchCase.body]

theorem stmt_of_simple {s : Stmt} (h : s.isCompound = false) : stmt s = [] := by
  cases s <;> first | rfl | exact Bool.noConfusion h

end Clauses

/-! ## Lists that a grammar asks for -/

namespace Node

/-- Every block that a statement cannot do without holds a statement, and a `match` has a case. -/
def Embodied : Node → Prop
  | .stmt (.function _ _ _ _ body _ _) => body ≠ []
  | .stmt (.classDef _ _ _ _ body _) => body ≠ []
  | .stmt (.forLoop _ _ _ _ body _) => body ≠ []
  | .stmt (.whileLoop _ _ body _) => body ≠ []
  | .stmt (.branch _ _ body _) => body ≠ []
  | .stmt (.withBlock _ _ _ body) => body ≠ []
  | .stmt (.matchBlock _ _ cases) => cases ≠ [] ∧ ∀ c ∈ cases, c.body ≠ []
  | .stmt (.tryBlock _ _ body handlers _ _) => body ≠ [] ∧ ∀ h ∈ handlers, h.body ≠ []
  | _ => True

/-- A statement that imports modules, deletes targets or declares names has some. -/
def Listed : Node → Prop
  | .stmt (.importNames _ names) => names ≠ []
  | .stmt (.delete _ targets) => targets ≠ []
  | .stmt (.global _ names) => names ≠ []
  | .stmt (.nonlocal _ names) => names ≠ []
  | _ => True

/-- An import from a module imports something. -/
def ImportsNames : Node → Prop
  | .stmt (.importFrom _ _ names _) => names ≠ []
  | _ => True

/-- A `with` has an item. -/
def HasItems : Node → Prop
  | .stmt (.withBlock _ _ items _) => items ≠ []
  | _ => True

end Node

end CloneScout

namespace CloneScout

namespace Token

/-- The clause that a token opens behind one of kind `before`. An `else` that does not stand at the
head of a line belongs to a conditional expression. -/
def Kind.clause? (before k : Kind) : Option Clause :=
  match k with
  | .kwElif => some .orelse
  | .kwElse => if before.isLayout then some .orelse else none
  | .kwFinally => some .finalbody
  | _ => none

/-- The clauses that tokens open behind a token of kind `before`. -/
def clausesFrom : (before : Kind) → List Kind → List Clause
  | _, [] => []
  | before, k :: rest => (before.clause? k).toList ++ clausesFrom k rest

/-- The clauses that the tokens of a text open. The first one stands at the head of a line. -/
def clauses (ks : List Kind) : List Clause := clausesFrom .newline ks

theorem clausesFrom_concat (before k : Kind) (ks : List Kind) : clausesFrom before (ks ++ [k]) =
    clausesFrom before ks ++ ((ks.getLast?.getD before).clause? k).toList := by
  induction ks generalizing before with
  | nil => simp [clausesFrom]
  | cons k' rest ih => simp [clausesFrom, ih, List.getLast?_cons]

end Token

namespace Cursor

/-! ## Clauses in front of a cursor -/

/-- The kinds of the tokens in front of the next one. -/
def passed (c : Cursor) : List Token.Kind := (c.tokens.toList.take c.pos).map Token.kind

/-- The clauses that the tokens in front of the next one open. -/
def clauses (c : Cursor) : List Clause := Token.clauses c.passed

/-- The kind of the token in front of the next one. The first token stands at the head of a line. -/
def before (c : Cursor) : Token.Kind := c.passed.getLast?.getD .newline

variable {c : Cursor}

theorem bump_of_size_le (h : c.tokens.size ≤ c.pos) : c.bump = c :=
  if_neg (Nat.not_lt.mpr h)

theorem passed_bump (h : c.pos < c.tokens.size) : c.bump.passed = c.passed ++ [c.kind] := by
  have hkind : c.kind = c.tokens[c.pos].kind := by
    show (c.get c.pos).kind = _
    rw [get, Array.getElem?_eq_getElem h, Option.getD_some]
  rw [bump, if_pos h, hkind]
  show (c.tokens.toList.take (c.pos + 1)).map Token.kind = _
  rw [List.take_add_one, List.map_append, Array.getElem?_toList, Array.getElem?_eq_getElem h]
  rfl

theorem clauses_bump (h : c.pos < c.tokens.size) :
    c.bump.clauses = c.clauses ++ (c.before.clause? c.kind).toList := by
  rw [clauses, passed_bump h]
  exact Token.clausesFrom_concat _ _ _

theorem before_bump (h : c.pos < c.tokens.size) : c.bump.before = c.kind := by
  rw [before, passed_bump h, List.getLast?_append_of_ne_nil _ (List.cons_ne_nil _ _)]
  rfl

/-- The head of a line stands behind a token that lays out lines, at the end of the tokens too. -/
theorem isLayout_before_bump (c : Cursor) : c.bump.before.isLayout = c.kind.isLayout := by
  rcases Nat.lt_or_ge c.pos c.tokens.size with hlt | hge
  · rw [before_bump hlt]
  · have hkind : c.kind = c.final.kind := by
      show (c.get c.pos).kind = _
      rw [get, Array.getElem?_eq_none hge]
      rfl
    rw [bump_of_size_le hge, before, passed, List.take_of_length_le (by simpa using hge), hkind,
      final, ← Array.getLast?_toList, List.getLast?_map]
    cases c.tokens.toList.getLast? <;> rfl

theorem clauses_bump_of_none (h : c.before.clause? c.kind = none) : c.bump.clauses = c.clauses := by
  rcases Nat.lt_or_ge c.pos c.tokens.size with hlt | hge
  · rw [clauses_bump hlt, h, Option.toList_none, List.append_nil]
  · rw [bump_of_size_le hge]

/-- At the end of the tokens all clauses have been passed. -/
theorem clauses_of_eof {ts : Array Token} {eof : Token} (htokens : c.tokens = ts.push eof)
    (hother : ∀ t ∈ ts, t.kind ≠ .eof) (heof : eof.kind = .eof) (hkind : c.kind = .eof) :
    c.clauses = Token.clauses (c.tokens.toList.map Token.kind) := by
  have hpos : ts.size ≤ c.pos := by
    refine Nat.le_of_not_lt fun hlt => ?_
    have hget : c.kind = ts[c.pos].kind := by
      show (c.get c.pos).kind = _
      rw [get, htokens, Array.getElem?_push_lt hlt, Option.getD_some]
    exact hother _ (Array.getElem_mem hlt) (hget ▸ hkind)
  rw [clauses, passed, htokens, Array.toList_push]
  rcases Nat.eq_or_lt_of_le hpos with heq | hlt
  · rw [← heq, ← Array.length_toList, List.take_left, List.map_append, List.map_singleton, heof]
    rw [Token.clauses, Token.clauses, Token.clausesFrom_concat]
    exact (List.append_nil _).symm
  · rw [List.take_of_length_le (by simpa using Nat.succ_le_of_lt hlt)]

/-! ## Phrases -/

/-- The kinds of the tokens from the place `i` on start with `ks`. -/
def Shows (c : Cursor) : (i : Nat) → List Token.Kind → Prop
  | _, [] => True
  | i, k :: rest => (c.get i).kind = k ∧ Shows c (i + 1) rest

/-- Nowhere stand tokens of the kinds `ks` in a row. -/
def Misses (c : Cursor) (ks : List Token.Kind) : Prop := ∀ i, ¬ c.Shows i ks

theorem Misses.of_tokens {c' : Cursor} {ks : List Token.Kind} (h : c.Misses ks)
    (htokens : c'.tokens = c.tokens) : c'.Misses ks := by
  obtain ⟨tokens, pos⟩ := c
  obtain ⟨tokens', pos'⟩ := c'
  obtain rfl : tokens' = tokens := htokens
  have hshows (ks : List Token.Kind) (i : Nat) :
      Shows ⟨tokens', pos⟩ i ks ↔ Shows ⟨tokens', pos'⟩ i ks := by
    induction ks generalizing i with
    | nil => rfl
    | cons k rest ih => exact and_congr Iff.rfl (ih (i + 1))
  exact fun i hi => h i ((hshows ks i).mpr hi)

/-- A cursor sees a phrase only where it stands among the tokens. -/
theorem misses_of_not_infix {ks : List Token.Kind} (hfinal : c.final.kind = .eof)
    (heof : Token.Kind.eof ∉ ks) (h : ¬ ks <:+: c.tokens.toList.map Token.kind) : c.Misses ks := by
  have hstarts (i : Nat) (hi : c.Shows i ks) : ks <+: (c.tokens.toList.map Token.kind).drop i := by
    clear h
    induction ks generalizing i with
    | nil => exact List.nil_prefix
    | cons k rest ih =>
      obtain ⟨hne, hrest⟩ := List.ne_and_not_mem_of_not_mem_cons heof
      obtain ⟨hkind, hi⟩ := hi
      rcases Nat.lt_or_ge i c.tokens.size with hlt | hge
      · have hlen : i < (c.tokens.toList.map Token.kind).length := by simpa using hlt
        have hget : (c.tokens.toList.map Token.kind)[i] = k := by
          rw [← hkind, get, Array.getElem?_eq_getElem hlt]
          simp
        rw [List.drop_eq_getElem_cons hlen, hget, List.prefix_cons_inj]
        exact ih hrest (i + 1) hi
      · rw [get, Array.getElem?_eq_none hge] at hkind
        exact absurd (hfinal.symm.trans hkind) hne
  exact fun i hi => h ((hstarts i hi).isInfix.trans (List.drop_suffix i _).isInfix)

end Cursor

end CloneScout
