import CloneScout.Proofs.Grammar.Parse
import CloneScout.Proofs.Grammar.Ranges.Stmt

/-!
# Ranges of the statements of a source

The rules find their statements in order however often they come back to each other: a rule that
comes back too often reports a fault. So in the tree of a source that is read without a fault every
list of statements is in order, and where each compound statement holds a statement the ranges are
nested.
-/

namespace CloneScout.Grammar

/-! ## The circle of rules -/

instance keeps_exhausted (g : Goal) : Keeps (exhausted g) := by
  unfold exhausted
  exact .auto

theorem keeps_rule (r : Rules) [r.Keeps] {g : Goal} (h : g ≠ .statement ∧ g ≠ .branch) :
    Keeps (rule r g) := by
  cases g with
  | statement => exact absurd rfl h.1
  | branch => exact absurd rfl h.2
  | _ => unfold rule; infer_instance

section

variable {field : FieldReader}

theorem keeps_within (hfield : ∀ t offset line text, Keeps (field t offset line text)) (n : Nat) :
    Rules.Keeps ⟨runGoal field n, field⟩ := by
  refine ⟨?_, hfield⟩
  induction n with
  | zero => exact fun g _ => keeps_exhausted g
  | succ n ih =>
    have hrules : Rules.Keeps ⟨runGoal field n, field⟩ := ⟨ih, hfield⟩
    exact fun g h => keeps_rule ⟨runGoal field n, field⟩ h

theorem placing_within [hsteady : field.Steady]
    (hfield : ∀ t offset line text, Keeps (field t offset line text)) (n : Nat) :
    Rules.Placing ⟨runGoal field n, field⟩ := by
  induction n with
  | zero =>
    -- A rule that comes back too often ends with a fault.
    have hfault {g : Goal} {Q : g.Result → State → Prop} (s : State) : Gives s (exhausted g) Q :=
      .skip fun _ _ => .bind (Q := fun _ _ => False) .unexpected fun _ _ h => h.elim
    exact ⟨fun s _ => hfault s, fun s _ => hfault s⟩
  | succ n ih =>
    have := keeps_within hfield n
    exact ⟨fills_statement ih, places_branchStatement ih⟩

end

/-! ## Replacement fields -/

theorem State.lastLine_absorb (s sub : State) : (s.absorb sub).lastLine = s.lastLine := rfl

theorem State.errors_absorb (s sub : State) : (s.absorb sub).errors = s.errors + sub.errors := rfl

theorem State.errors_forField (s : State) (offset line : Nat) (text : Text) :
    (s.forField offset line text).errors = 0 :=
  rfl

/-- The parser of a field has a state of its own. -/
instance keeps_fieldReader (depth : Nat) (t : Token) (offset line : Nat) (text : Text) :
    Keeps (fieldReader depth t offset line text) := by
  induction depth generalizing t offset line text with
  | zero =>
    unfold fieldReader
    exact .auto
  | succ depth ih =>
    have hrules (c : Cursor) : (rulesFor (fieldReader depth) c).Keeps := keeps_within ih _
    have hwhole : Keeps (wholeExpression (fieldReader depth)) := by
      unfold wholeExpression
      exact .auto
    refine ⟨fun s => ?_, fun s hclean => ?_⟩
    · rw [run_fieldReader, State.lastLine_absorb]
    · rw [run_fieldReader] at hclean ⊢
      rw [State.clean_absorb] at hclean
      obtain ⟨hsub, herrors⟩ := hwhole.errors (s.forField offset line text) hclean
      refine ⟨(State.clean_forField hsub).1, ?_⟩
      rw [State.errors_absorb, herrors, State.errors_forField, Nat.add_zero]

theorem placing_rulesFor (c : Cursor) : (rulesFor (fieldReader fieldDepth) c).Placing :=
  placing_within (keeps_fieldReader fieldDepth) _

/-! ## Modules -/

theorem places_moduleBody {r : Rules} [r.Steady] (hr : r.Placing) :
    Places (fun found => found) (moduleBody r) := by
  intro s hs
  unfold moduleBody
  refine (Gives.collect (c := .auto) (g := fun st => [st]) (N := fun _ => False) (fun s hs => ?_) hs).mono
    fun found s' h => by simpa using h
  refine .onward (c := fun _ => .auto) hs.found fun aborted s₁ h => ?_
  refine .onward (c := fun _ => .auto) h fun eof s₂ h => ?_
  split
  · exact .pure (by simpa using h)
  · refine .onward (c := fun _ => .auto) h fun newline s₃ h => ?_
    refine .onward (c := fun _ => .auto) h fun dedent s₄ h => ?_
    split
    · exact .onward h fun _ s₅ h => .pure (by simpa using h)
    · refine .onward (c := fun _ => .auto) h fun before s₅ h => ?_
      refine .placing (c := fun _ => .auto) h hr.statement.places fun found s₆ h => ?_
      refine .onward (c := fun _ => .auto) h fun after s₇ h => .onward h fun eof s₈ h => ?_
      dsimp only
      split
      · exact .bind (Q := fun _ _ => False) .unexpected fun _ _ h => h.elim
      · exact .pure (by simpa using h)

/-- What is found in a module. Its range ends with the simple statement read last. -/
theorem gives_wholeModule {s : State} (hs : s.Placed) : Gives s wholeModule fun m s' =>
    Found s m.body s' s'.line ∧ m.extent.line = 1 ∧ m.extent.endLine = s'.lastLine := by
  unfold wholeModule
  refine .onward hs.found fun s₁ s₂ h => .onward h fun first s₃ h => ?_
  refine .placing h (places_moduleBody (placing_rulesFor _)) fun body s₄ h => ?_
  refine .bind .get fun s₅ s₆ hget => ?_
  obtain ⟨rfl, rfl⟩ := hget
  exact .pure ⟨h, rfl, rfl⟩

namespace Found

variable {s s' : State} {m : Module} {n : Nat}

theorem ordered_module (h : Found s m.body s' n) : Every.module Node.Ordered m :=
  ⟨h.inOrder, Every.stmts_iff.mpr h.ordered⟩

theorem nested_module (h : Found s m.body s' n) (hline : m.extent.line = 1)
    (hend : m.extent.endLine = s'.lastLine) (hfilled : Every.module Node.Filled m) :
    Every.module Node.Nested m := by
  have hstmts := Every.stmts_iff.mp hfilled.2
  refine ⟨fun c hc => ⟨?_, ?_⟩, Every.stmts_iff.mpr fun c hc => (h.nested c hc (hstmts c hc)).1⟩
  · rw [hline]
    exact (h.inOrder.range c hc).1
  · rw [hend]
    exact (h.nested c hc (hstmts c hc)).2

theorem filled_module (h : Found s m.body s' n) (hsolid : s.cursor.Solid) :
    Every.module Node.Filled m :=
  ⟨trivial, Every.stmts_iff.mpr (h.filled hsolid)⟩

end Found

end CloneScout.Grammar

namespace CloneScout.Parsed

/-- The statements of a source that is read without a fault lie in order. Their ranges are nested if
every compound statement holds a statement, and that is so unless the source ends in a comment. -/
theorem ranges_module {source : Text} {maxErrors : Nat}
    (h : (ofSource source maxErrors).ok = true)
    (hfits : Word.fits (lineOf source source.length) = true) :
    Every.module Node.Ordered (ofSource source maxErrors).module ∧
      (Every.module Node.Filled (ofSource source maxErrors).module →
        Every.module Node.Nested (ofSource source maxErrors).module) ∧
      (¬ Token.Lexer.EndsInComment (Token.Lexer.start source).rest →
        Every.module Node.Filled (ofSource source maxErrors).module) := by
  rw [ok, Bool.and_eq_true, decide_eq_true_eq] at h
  let start : Grammar.State :=
    { cursor := { tokens := (Token.lex source).1 }, maxErrors, diags := (Token.lex source).2
      aborted := ({ diags := (Token.lex source).2 } : Bag).hasCode .invalidUtf8 }
  have hclean : (Grammar.wholeModule.run start).2.Clean := h.1
  have hlex : Diagnostic.Clean (Token.lex source).2 :=
    (Grammar.steady_wholeModule.leads start).clean hclean
  show Every.module Node.Ordered (Grammar.wholeModule.run start).1 ∧
    (Every.module Node.Filled (Grammar.wholeModule.run start).1 →
      Every.module Node.Nested (Grammar.wholeModule.run start).1) ∧
    (_ → Every.module Node.Filled (Grammar.wholeModule.run start).1)
  cases haborted : start.aborted with
  | false =>
    have hgood : start.Good := ⟨⟨haborted, rfl, rfl, rfl⟩, Token.lex_lawful hlex⟩
    have hplaced : start.Placed :=
      ⟨Token.lined_lex (Token.isValid_of_lex hlex) hfits 0, Nat.zero_le _⟩
    obtain ⟨hfound, hline, hend⟩ := (Grammar.gives_wholeModule hplaced).holds hgood hclean
    exact ⟨hfound.ordered_module, hfound.nested_module hline hend, fun hcomment =>
      hfound.filled_module ((Token.indented_lex hlex hcomment).solid 0)⟩
  | true =>
    have hbody : (Grammar.wholeModule.run start).1.body = [] :=
      Grammar.moduleBody_of_aborted _ haborted
    have hevery {P : Node → Prop} (hmodule : P (.module (Grammar.wholeModule.run start).1)) :
        Every.module P (Grammar.wholeModule.run start).1 := by
      refine ⟨hmodule, ?_⟩
      rw [hbody]
      trivial
    refine ⟨hevery ?_, fun _ => hevery ?_, fun _ => hevery trivial⟩
    · rw [Node.Ordered, hbody]
      exact .nil
    · rw [Node.Nested, hbody]
      simp

end CloneScout.Parsed
