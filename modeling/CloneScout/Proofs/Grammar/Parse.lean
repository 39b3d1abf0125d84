import CloneScout.Grammar.Parse
import CloneScout.Proofs.Grammar.Stmt

/-!
# Source texts without a fault give lawful trees

The rules are steady and lawful however often they may come back to each other, and so are the
readers of replacement fields however deep they may lie in one another. Hence the tree of a source
text that is read without a fault is lawful everywhere.
-/

namespace CloneScout.Grammar

/-! ## The circle of rules -/

/-- What is read for a goal is lawful. -/
def Goal.IsLawful : (g : Goal) → g.Result → Prop
  | .expression => Expr.IsLawful
  | .disjunction => Expr.IsLawful
  | .inversion => Expr.IsLawful
  | .arithmetic _ => Expr.IsLawful
  | .factor => Expr.IsLawful
  | .pattern => Pattern.IsLawful
  | .statement => fun found => ∀ s ∈ found, s.IsLawful
  | .branch => Stmt.IsLawful

/-- A steady reader of replacement fields. -/
class FieldReader.Steady (field : FieldReader) : Prop where
  steady (t : Token) (offset line : Nat) (text : Text) :
    Grammar.Steady (field t offset line text)

/-- A reader of replacement fields that reads lawful expressions. -/
def FieldReader.Lawful (field : FieldReader) : Prop :=
  ∀ (t : Token) (offset line : Nat) {text : Text}, Utf8.IsEncoded text →
    Finds (field t offset line text) Expr.IsLawful

theorem Rules.Lawful.of_goals {r : Rules} (hrecur : ∀ g, Finds (r.recur g) g.IsLawful)
    (hfield : FieldReader.Lawful r.field) : r.Lawful where
  expression := hrecur .expression
  disjunction := hrecur .disjunction
  inversion := hrecur .inversion
  arithmetic floor := hrecur (.arithmetic floor)
  factor := hrecur .factor
  pattern := hrecur .pattern
  statement := hrecur .statement
  branch := hrecur .branch
  field := hfield

instance steady_exhausted (g : Goal) : Steady (exhausted g) := by
  unfold exhausted
  exact .auto

theorem finds_exhausted (g : Goal) : Finds (exhausted g) g.IsLawful := fun _ =>
  .skip fun _ _ => .bind (Q := fun _ _ => False) .unexpected fun _ _ h => h.elim

instance steady_rule (r : Rules) [r.Steady] (g : Goal) : Steady (rule r g) := by
  cases g <;> (unfold rule; infer_instance)

theorem finds_rule {r : Rules} [r.Steady] (hr : r.Lawful) (g : Goal) :
    Finds (rule r g) g.IsLawful := by
  cases g with
  | expression => exact finds_expression hr
  | disjunction => exact finds_disjunction hr
  | inversion => exact finds_inversion hr
  | arithmetic floor => exact finds_arithmetic hr floor
  | factor => exact finds_factor hr
  | pattern => exact finds_pattern hr
  | statement => exact finds_statement hr
  | branch => exact finds_branchStatement hr

section

variable (field : FieldReader) [hsteady : field.Steady]

instance steady_runGoal (n : Nat) (g : Goal) : Steady (runGoal field n g) := by
  induction n generalizing g with
  | zero => exact steady_exhausted g
  | succ n ih =>
    have hrules : Rules.Steady ⟨runGoal field n, field⟩ := ⟨ih, hsteady.steady⟩
    exact steady_rule ⟨runGoal field n, field⟩ g

instance steady_within (n : Nat) : Rules.Steady ⟨runGoal field n, field⟩ :=
  ⟨steady_runGoal field n, hsteady.steady⟩

instance steady_rulesFor (c : Cursor) : (rulesFor field c).Steady := steady_within field _

variable {field}

theorem finds_runGoal (hfield : field.Lawful) (n : Nat) (g : Goal) :
    Finds (runGoal field n g) g.IsLawful := by
  induction n generalizing g with
  | zero => exact finds_exhausted g
  | succ n ih => exact finds_rule (.of_goals ih hfield) g

theorem lawful_rulesFor (hfield : field.Lawful) (c : Cursor) : (rulesFor field c).Lawful :=
  .of_goals (finds_runGoal hfield _) hfield

/-! ## Replacement fields -/

instance steady_wholeExpression : Steady (wholeExpression field) := by
  unfold wholeExpression
  exact .auto

theorem finds_wholeExpression (hfield : field.Lawful) :
    Finds (wholeExpression field) Expr.IsLawful := by
  intro s
  unfold wholeExpression
  refine .skip fun s' s₁ => .skip fun first s₂ => ?_
  split
  · exact .pure ⟨trivial, trivial⟩
  · refine (finds_yieldOrStar (lawful_rulesFor hfield _)).bind fun e he s₃ => ?_
    refine .skip fun atEnd s₄ => ?_
    split
    · exact .pure he
    · exact .skip fun _ s₅ => .pure ⟨trivial, trivial⟩

end

theorem State.fresh_forField (s : State) (offset line : Nat) (text : Text) :
    (s.forField offset line text).Fresh :=
  ⟨rfl, rfl, rfl, rfl⟩

theorem State.clean_forField {s : State} {offset line : Nat} {text : Text}
    (h : (s.forField offset line text).Clean) :
    s.Clean ∧ Diagnostic.Clean (Token.lexField offset line text).2 :=
  Diagnostic.clean_append.mp h

theorem State.clean_absorb {s sub : State} : (s.absorb sub).Clean ↔ sub.Clean := Iff.rfl

/-- A parser takes over from the parser of a field. -/
theorem State.leads_absorb {s sub : State} {offset line : Nat} {text : Text}
    (h : (s.forField offset line text).Leads sub) : s.Leads (s.absorb sub) := by
  have hclean (hsub : sub.Clean) : s.Clean := (clean_forField (h.clean hsub)).1
  refine ⟨rfl, Nat.le_refl _, fun hs hsub => ?_, hclean, fun hs => by simp [absorb, hs]⟩
  have hfresh : s.Fresh := hs (hclean hsub)
  have hcapped : sub.capped = false := (h.sound (fun _ => s.fresh_forField _ _ _) hsub).capped
  exact ⟨by simp [absorb, hfresh.aborted, hcapped], hfresh.capped, hfresh.seen, hfresh.latest⟩

theorem run_fieldReader (depth : Nat) (t : Token) (offset line : Nat) (text : Text) (s : State) :
    (fieldReader (depth + 1) t offset line text).run s =
      (((wholeExpression (fieldReader depth)).run (s.forField offset line text)).1,
        s.absorb ((wholeExpression (fieldReader depth)).run (s.forField offset line text)).2) :=
  rfl

theorem Gives.of_run {α : Type} {s : State} {x : Parser α} {Q : α → State → Prop} {r : α × State}
    (h : Gives s x Q) (hrun : x.run s = r) (hs : s.Good) (hclean : r.2.Clean) : Q r.1 r.2 := by
  subst hrun
  exact h.holds hs hclean

instance steady_fieldReader (depth : Nat) : (fieldReader depth).Steady := by
  induction depth with
  | zero => exact ⟨fun t _ _ _ => by unfold fieldReader; exact .auto⟩
  | succ depth ih =>
    refine ⟨fun t offset line text => ⟨fun s => ?_⟩⟩
    rw [run_fieldReader]
    exact State.leads_absorb (steady_wholeExpression.leads (s.forField offset line text))

theorem lawful_fieldReader (depth : Nat) : (fieldReader depth).Lawful := by
  induction depth with
  | zero =>
    intro t offset line text _ s
    unfold fieldReader
    exact .fault
  | succ depth ih =>
    intro t offset line text htext s
    refine ⟨fun hs hclean => ?_⟩
    rw [run_fieldReader] at hclean ⊢
    rw [State.clean_absorb] at hclean
    have hsteady : Steady (wholeExpression (fieldReader depth)) := inferInstance
    have hlex := (State.clean_forField ((hsteady.leads _).clean hclean)).2
    have hgood : (s.forField offset line text).Good :=
      { s.fresh_forField offset line text with tokens := Token.lexField_lawful htext hlex }
    dsimp only
    generalize hrun : (wholeExpression (fieldReader depth)).run (s.forField offset line text) = r
      at hclean ⊢
    exact (finds_wholeExpression ih _).of_run hrun hgood hclean

/-! ## Modules -/

instance steady_moduleBody (r : Rules) [r.Steady] : Steady (moduleBody r) := by
  unfold moduleBody; exact .auto

theorem finds_moduleBody {r : Rules} [r.Steady] (hr : r.Lawful) :
    Finds (moduleBody r) fun found => ∀ s ∈ found, Stmt.IsLawful s := by
  refine Finds.collect (by simp) fun s => .skip fun aborted s₁ => .skip fun eof s₂ => ?_
  split
  · exact .pure (by simp)
  · refine .skip fun newline s₃ => .skip fun dedent s₄ => ?_
    split
    · exact .skip fun _ s₅ => .pure (by simp)
    · refine .skip fun before s₅ => hr.statement.bind fun found hfound s₆ => ?_
      refine .skip fun after s₇ => .skip fun eof s₈ => ?_
      dsimp only
      split
      · exact .skip fun _ s₉ => .skip fun _ s₁₀ => .pure hfound
      · exact .pure hfound

/-- A parser that has given up before it starts reads no statement. -/
theorem moduleBody_of_aborted {s : State} (r : Rules) (h : s.aborted = true) :
    ((moduleBody r).run s).1 = [] := by
  simp [moduleBody, collect, loop, iterate, isAborted, h]
  rfl

instance steady_wholeModule : Steady wholeModule := by unfold wholeModule; exact .auto

theorem finds_wholeModule : Finds wholeModule (Every.module Node.Lawful) := by
  intro s
  unfold wholeModule
  refine .skip fun s' s₁ => .skip fun first s₂ => ?_
  refine (finds_moduleBody (lawful_rulesFor (lawful_fieldReader _) _)).bind fun body hbody s₃ => ?_
  exact .skip fun _ s₄ => .pure ⟨trivial, Every.stmts_iff.mpr hbody⟩

end CloneScout.Grammar

namespace CloneScout.Parsed

/-- The tree of a text that is read without a fault is lawful. -/
theorem lawful_module {source : Text} {maxErrors : Nat}
    (h : (ofSource source maxErrors).ok = true) :
    Every.module Node.Lawful (ofSource source maxErrors).module := by
  rw [ok, Bool.and_eq_true, decide_eq_true_eq] at h
  let start : Grammar.State :=
    { cursor := { tokens := (Token.lex source).1 }, maxErrors, diags := (Token.lex source).2
      aborted := ({ diags := (Token.lex source).2 } : Bag).hasCode .invalidUtf8 }
  have hclean : (Grammar.wholeModule.run start).2.Clean := h.1
  have hlex : Diagnostic.Clean (Token.lex source).2 :=
    (Grammar.steady_wholeModule.leads start).clean hclean
  show Every.module Node.Lawful (Grammar.wholeModule.run start).1
  cases haborted : start.aborted with
  | false =>
    refine (Grammar.finds_wholeModule start).holds ?_ hclean
    exact ⟨⟨haborted, rfl, rfl, rfl⟩, Token.lex_lawful hlex⟩
  | true =>
    have hbody : (Grammar.wholeModule.run start).1.body = [] :=
      Grammar.moduleBody_of_aborted _ haborted
    refine ⟨trivial, ?_⟩
    rw [hbody]
    trivial

end CloneScout.Parsed
