import CloneScout.Proofs.Tree.Every

/-!
# Line ranges of statements

A statement goes from one line to another. In a well-placed tree the ranges of the statements of one
list are in order, and the range of a statement lies in the range of the statement around it. The
second can fail where a compound statement holds no statement at all.
-/

namespace CloneScout

/-! ## Statements in a statement -/

def Handler.body : Handler → List Stmt
  | .mk _ _ body => body

def MatchCase.body : MatchCase → List Stmt
  | .mk _ _ body => body

/-- The lists of statements in a statement, in the order of the source. -/
def Stmt.lists : Stmt → List (List Stmt)
  | .function _ _ _ _ body _ _ => [body]
  | .classDef _ _ _ _ body _ => [body]
  | .forLoop _ _ _ _ body orelse => [body, orelse]
  | .whileLoop _ _ body orelse => [body, orelse]
  | .branch _ _ body orelse => [body, orelse]
  | .withBlock _ _ _ body => [body]
  | .matchBlock _ _ cases => cases.map MatchCase.body
  | .tryBlock _ _ body handlers orelse finalbody =>
    body :: (handlers.map Handler.body ++ [orelse, finalbody])
  | _ => []

/-- The statements of all lists in a statement, one after the other. -/
def Stmt.inner (s : Stmt) : List Stmt := s.lists.flatten

/-- A statement that has blocks, or cases with blocks. -/
def Stmt.isCompound : Stmt → Bool
  | .function .. => true
  | .classDef .. => true
  | .forLoop .. => true
  | .whileLoop .. => true
  | .branch .. => true
  | .withBlock .. => true
  | .matchBlock .. => true
  | .tryBlock .. => true
  | _ => false

namespace Every

variable {P : Node → Prop}

theorem handlers_iff_body (he : ∀ e, P (.expr e)) {hs : List Handler} :
    handlers P hs ↔ ∀ s, ∀ h ∈ hs, s ∈ h.body → stmt P s := by
  rw [handlers_iff, forall_comm]
  refine forall_congr' fun h => ?_
  obtain ⟨type, name, body⟩ := h
  simp only [handlers, optExpr_of_forall he, true_and, and_true, stmts_iff]
  exact forall_comm

theorem cases_iff_body (he : ∀ e, P (.expr e)) (hp : ∀ p, P (.pattern p)) {cs : List MatchCase} :
    cases P cs ↔ ∀ s, ∀ c ∈ cs, s ∈ c.body → stmt P s := by
  rw [cases_iff, forall_comm]
  refine forall_congr' fun c => ?_
  obtain ⟨p, guard, body⟩ := c
  simp only [cases, pattern_of_forall he hp, optExpr_of_forall he, true_and, and_true, stmts_iff]
  exact forall_comm

/-- A property of statements holds everywhere in a statement if it holds of the statement and
everywhere in the statements inside. -/
theorem stmt_iff_inner (he : ∀ e, P (.expr e)) (hp : ∀ p, P (.pattern p)) {s : Stmt} :
    stmt P s ↔ P (.stmt s) ∧ ∀ c ∈ s.inner, stmt P c := by
  cases s <;>
    simp [stmt, Stmt.inner, Stmt.lists, expr_of_forall he, exprs_of_forall he,
      optExpr_of_forall he, keywords_of_forall he, params_of_forall he, withItems_of_forall he,
      stmts_iff, handlers_iff_body he, cases_iff_body he hp, or_imp, forall_and]

end Every

/-! ## Ranges -/

/-- The lines of the one extent lie between the lines of the other. -/
def Extent.Within (x y : Extent) : Prop := y.line ≤ x.line ∧ x.endLine ≤ y.endLine

/-- The last line is not in front of the first. Lines are counted from one. -/
def Extent.IsRange (x : Extent) : Prop := 1 ≤ x.line ∧ x.line ≤ x.endLine

/-- The statements have ranges, and none starts in front of the line where an earlier one ends. -/
structure InOrder (ss : List Stmt) : Prop where
  range : ∀ s ∈ ss, s.extent.IsRange
  pairwise : ss.Pairwise fun a b => a.extent.endLine ≤ b.extent.line

namespace InOrder

variable {ss ts : List Stmt}

theorem nil : InOrder [] := ⟨by simp, .nil⟩

theorem sublist (h : InOrder ss) (hsub : ts.Sublist ss) : InOrder ts :=
  ⟨fun s hs => h.range s (hsub.subset hs), h.pairwise.sublist hsub⟩

theorem sorted (h : InOrder ss) : ss.Pairwise fun a b => a.extent.line ≤ b.extent.line := by
  refine h.pairwise.imp_of_mem fun {a b} ha _ hab => ?_
  exact Nat.le_trans (h.range a ha).2 hab

end InOrder

namespace Node

/-- A statement has a range, and the statements inside are in order and start no earlier than what
is around them. -/
def Ordered : Node → Prop
  | .module m => InOrder m.body
  | .stmt s => s.extent.IsRange ∧ InOrder s.inner ∧ ∀ c ∈ s.inner, s.extent.line ≤ c.extent.line
  | _ => True

/-- The ranges of the statements inside lie in the range of what is around them. -/
def Nested : Node → Prop
  | .module m => ∀ c ∈ m.body, c.extent.Within m.extent
  | .stmt s => ∀ c ∈ s.inner, c.extent.Within s.extent
  | _ => True

/-- A compound statement holds a statement. -/
def Filled : Node → Prop
  | .stmt s => s.isCompound = true → s.inner ≠ []
  | _ => True

end Node

end CloneScout
