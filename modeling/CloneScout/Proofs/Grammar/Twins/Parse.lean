import CloneScout.Proofs.Grammar.Parse
import CloneScout.Proofs.Grammar.Twins.Stmt

/-!
# Source texts side by side

The circle of rules finds agreeing trees in both runs however often the rules may come back to each
other, and so do the readers of replacement fields, which cut their text anew at another place.
Hence two source texts whose tokens differ only in where they stand are both free of faults or both
not, and their trees agree. A text beside itself gives the shape of every tree that is read without
a fault.
-/

set_option synthInstance.maxSize 1000

namespace CloneScout.Grammar

variable {A : Nat → Nat → Prop}

/-! ## The circle of rules -/

/-- What two runs find for a goal agrees. -/
def Goal.Agree (A : Nat → Nat → Prop) : (g : Goal) → g.Result → g.Result → Prop
  | .expression => Expr.AgreeFrom A
  | .disjunction => Expr.AgreeFrom A
  | .inversion => Expr.AgreeFrom A
  | .arithmetic _ => Expr.AgreeFrom A
  | .factor => Expr.AgreeFrom A
  | .pattern => Pattern.Agree
  | .statement => Stmt.AgreeAll
  | .branch => Stmt.Agree

/-- A reader of replacement fields that does not care where a field stands. -/
def FieldReader.Twin (field : FieldReader) : Prop :=
  ∀ (A : Nat → Nat → Prop) (t t' : Token) (offset offset' line line' : Nat) (text : Text),
    Twins A (field t offset line text) (field t' offset' line' text) (Expr.Agree .load)

theorem Rules.Twin.of_goals {r : Rules}
    (hrecur : ∀ g, Twins A (r.recur g) (r.recur g) (g.Agree A))
    (hlayout : ∀ s s', s.cursor.kind.isLayout = true →
      Both A s s' (r.recur .expression) (r.recur .expression) fun _ _ => False)
    (hfield : FieldReader.Twin r.field) : r.Twin A where
  expression := hrecur .expression
  layout := hlayout _ _
  disjunction := hrecur .disjunction
  inversion := hrecur .inversion
  arithmetic floor := hrecur (.arithmetic floor)
  factor := hrecur .factor
  pattern := hrecur .pattern
  statement := hrecur .statement
  branch := hrecur .branch
  field := hfield A

theorem both_exhausted {s s' : State} (g : Goal) {R : g.Result → g.Result → Prop} :
    Both A s s' (exhausted g) (exhausted g) R :=
  .stall fun _ _ => .unexpected

theorem twins_rule {r : Rules} [r.Steady] (hA : OneToOne A) (hr : r.Twin A) (g : Goal) :
    Twins A (rule r g) (rule r g) (g.Agree A) := by
  cases g with
  | expression => exact twins_expression hr
  | disjunction => exact twins_disjunction hr
  | inversion => exact twins_inversion hr
  | arithmetic floor => exact twins_arithmetic hr floor
  | factor => exact twins_factor hr
  | pattern => exact twins_pattern hr
  | statement => exact twins_statement hA hr
  | branch => exact twins_branchStatement hA hr

variable {field : FieldReader} [field.Steady]

theorem both_runGoal_of_isLayout {s s' : State} (h : s.cursor.kind.isLayout = true) (n : Nat) :
    Both A s s' (runGoal field n .expression) (runGoal field n .expression) fun _ _ => False := by
  cases n with
  | zero => exact both_exhausted _
  | succ n => exact both_expression_of_isLayout h

theorem twins_runGoal (hA : OneToOne A) (hfield : field.Twin) (n : Nat) (g : Goal) :
    Twins A (runGoal field n g) (runGoal field n g) (g.Agree A) := by
  induction n generalizing g with
  | zero => exact fun s s' => both_exhausted g
  | succ n ih =>
    exact twins_rule hA (.of_goals ih (fun s s' h => both_runGoal_of_isLayout h n) hfield) g

theorem twin_rulesFor (hA : OneToOne A) (hfield : field.Twin) (c : Cursor) :
    (rulesFor field c).Twin A :=
  .of_goals (twins_runGoal hA hfield _) (fun _ _ h => both_runGoal_of_isLayout h _) hfield

omit [field.Steady] in
theorem State.Alike.rulesFor_eq {s s' : State} (h : s.Alike A s') :
    rulesFor field s.cursor = rulesFor field s'.cursor := by
  rw [rulesFor, rulesFor, h.size_eq]

/-! ## Replacement fields -/

theorem twins_wholeExpression (hA : OneToOne A) (hfield : field.Twin) :
    Twins A (wholeExpression field) (wholeExpression field) (Expr.Agree .load) := by
  intro s s'
  unfold wholeExpression
  refine .get fun hs => .peek fun _ => ?_
  rw [hs.fresh.aborted, hs.fresh'.aborted, ← hs.rulesFor_eq]
  refine .ite (fun h => nomatch h) fun _ => ?_
  refine (twins_yieldOrStar (twin_rulesFor hA hfield _)).bind fun e e' he s₁ s₁' => ?_
  exact .at? (fun _ => .pure he.toAgree) fun _ => .unexpected

/-- The parsers of a field that has no fault in itself start alike. -/
theorem State.Alike.forField {s s' : State} (h : s.Alike A s') (offset offset' line line' : Nat)
    (text : Text) : ¬ (s.forField offset line text).Clean ∧ ¬ (s'.forField offset' line' text).Clean ∨
      (s.forField offset line text).Alike (Token.Shift offset offset')
        (s'.forField offset' line' text) := by
  obtain ⟨htokens, hiff⟩ := Token.lexField_shifted offset offset' line line' text
  by_cases hclean : Diagnostic.Clean (Token.lexField offset line text).2
  · refine .inr ⟨?_, ?_, s.fresh_forField .., s'.fresh_forField .., rfl, htokens, rfl, rfl⟩
    · exact Diagnostic.clean_append.mpr ⟨h.clean, hclean⟩
    · exact Diagnostic.clean_append.mpr ⟨h.clean', hiff.mp hclean⟩
  · refine .inl ⟨fun hfield => hclean (clean_forField hfield).2, fun hfield => ?_⟩
    exact hclean (hiff.mpr (clean_forField hfield).2)

/-- Parsers that take over from the parsers of a field go on alike. -/
theorem State.Alike.absorb {B : Nat → Nat → Prop} {s s' sub sub' : State} (h : s.Alike A s')
    (hsub : sub.Alike B sub') : (s.absorb sub).Alike A (s'.absorb sub') where
  clean := hsub.clean
  clean' := hsub.clean'
  fresh := ⟨by simp [State.absorb, h.fresh.aborted, hsub.fresh.capped], h.fresh.capped,
    h.fresh.seen, h.fresh.latest⟩
  fresh' := ⟨by simp [State.absorb, h.fresh'.aborted, hsub.fresh'.capped], h.fresh'.capped,
    h.fresh'.seen, h.fresh'.latest⟩
  pos := h.pos
  tokens := h.tokens
  errors := by simp [State.absorb, h.errors, hsub.errors]
  errors' := by simp [State.absorb, h.errors', hsub.errors']

theorem twin_fieldReader (depth : Nat) : (fieldReader depth).Twin := by
  induction depth with
  | zero => exact fun A t t' offset offset' line line' text s s' => .fault
  | succ depth ih =>
    intro A t t' offset offset' line line' text s s'
    refine ⟨fun hs => ?_⟩
    rw [run_fieldReader, run_fieldReader]
    have hsteady : Steady (wholeExpression (fieldReader depth)) := inferInstance
    have hleads := (hsteady.leads (s.forField offset line text)).clean
    have hleads' := (hsteady.leads (s'.forField offset' line' text)).clean
    have hwhole := (twins_wholeExpression (Token.oneToOne_shift offset offset') ih
      (s.forField offset line text) (s'.forField offset' line' text)).ends
    generalize (wholeExpression (fieldReader depth)).run (s.forField offset line text) = found
      at hleads hwhole ⊢
    generalize (wholeExpression (fieldReader depth)).run (s'.forField offset' line' text) = found'
      at hleads' hwhole ⊢
    dsimp only
    rw [State.clean_absorb, State.clean_absorb]
    rcases hs.forField offset offset' line line' text with ⟨hx, hy⟩ | hstart
    · exact .inl ⟨fun h => hx (hleads h), fun h => hy (hleads' h)⟩
    · exact (hwhole hstart).imp_right fun hend => ⟨hs.absorb hend.1, hend.2⟩

/-! ## Modules -/

theorem twins_moduleBody {r : Rules} [r.Steady] (hr : r.Twin A) :
    Twins A (moduleBody r) (moduleBody r) Stmt.AgreeAll := by
  refine .collect .nil fun s s' => .isAborted (.at? (fun _ => .pure ⟨.nil, rfl⟩) fun _ => ?_)
  have hskip : Both A s s' (do let _ ← bump; return ([], true)) (do let _ ← bump; return ([], true))
      fun (found found' : List Stmt × Bool) =>
        Stmt.AgreeAll found.1 found'.1 ∧ found.2 = found'.2 :=
    .skip_bump fun s₁ s₁' => .pure ⟨.nil, rfl⟩
  refine .at? (fun _ => ?_) fun _ => .at? (fun _ => hskip) fun _ => ?_
  · exact .at? (fun _ => hskip) fun _ => hskip
  · refine .get fun hs => hr.statement.bind fun found found' hfound s₁ s₁' => .get fun hs₁ => ?_
    rw [hs.pos, hs₁.pos]
    refine (twins_at .eof).bind fun atEnd atEnd' h s₂ s₂' => ?_
    subst h
    exact .ite (fun _ => .unexpected) fun _ => .pure ⟨hfound, rfl⟩

theorem twins_wholeModule (hA : OneToOne A) :
    Twins A wholeModule wholeModule fun m m' => Stmt.AgreeAll m.body m'.body := by
  intro s s'
  unfold wholeModule
  refine .get fun hs => .peek fun _ => ?_
  rw [← hs.rulesFor_eq]
  have hrules := twin_rulesFor hA (twin_fieldReader fieldDepth) s.cursor
  exact (twins_moduleBody hrules).bind fun body body' hbody s₁ s₁' => .get fun _ => .pure hbody

end CloneScout.Grammar

namespace CloneScout.Parsed

open Grammar (State)

/-- The state in which the parser of a source text starts. -/
def start (source : Text) (maxErrors : Nat) : State where
  cursor := { tokens := (Token.lex source).1 }
  maxErrors := maxErrors
  diags := (Token.lex source).2
  aborted := ({ diags := (Token.lex source).2 } : Bag).hasCode .invalidUtf8

variable {source source' : Text} {maxErrors maxErrors' : Nat}

theorem clean_of_ok (h : (ofSource source maxErrors).ok = true) :
    (Grammar.wholeModule.run (start source maxErrors)).2.Clean := by
  rw [ok, Bool.and_eq_true, decide_eq_true_eq] at h
  exact h.1

theorem ok_iff (hstart : (start source maxErrors).Fresh) : (ofSource source maxErrors).ok = true ↔
    (Grammar.wholeModule.run (start source maxErrors)).2.Clean := by
  refine ⟨clean_of_ok, fun hclean => ?_⟩
  have haborted : (Grammar.wholeModule.run (start source maxErrors)).2.aborted = false :=
    ((Grammar.steady_wholeModule.leads _).sound (fun _ => hstart) hclean).aborted
  rw [ok, Bool.and_eq_true, decide_eq_true_eq]
  refine ⟨hclean, ?_⟩
  show (!(Grammar.wholeModule.run (start source maxErrors)).2.aborted) = true
  rw [haborted]
  rfl

theorem alike_start {A : Nat → Nat → Prop}
    (htokens : List.Forall₂ (Token.Alike A) (Token.lex source).1.toList (Token.lex source').1.toList)
    (hclean : (start source maxErrors).Clean) (hclean' : (start source' maxErrors').Clean)
    (haborted : (start source maxErrors).aborted = false)
    (haborted' : (start source' maxErrors').aborted = false) :
    (start source maxErrors).Alike A (start source' maxErrors') :=
  ⟨hclean, hclean', ⟨haborted, rfl, rfl, rfl⟩, ⟨haborted', rfl, rfl, rfl⟩, rfl, htokens, rfl, rfl⟩

/-- Parsers that start alike both find a fault or both find none, and then their trees agree. -/
theorem agree_ofSource {A : Nat → Nat → Prop} (hA : OneToOne A)
    (h : (start source maxErrors).Alike A (start source' maxErrors')) :
    (ofSource source maxErrors).ok = (ofSource source' maxErrors').ok ∧
      ((ofSource source maxErrors).ok = true → Stmt.AgreeAll (ofSource source maxErrors).module.body
        (ofSource source' maxErrors').module.body) := by
  rw [Bool.eq_iff_iff, ok_iff h.fresh, ok_iff h.fresh']
  rcases (Grammar.twins_wholeModule hA _ _).ends h with ⟨hx, hy⟩ | ⟨hend, hbody⟩
  · exact ⟨iff_of_false hx hy, fun hclean => absurd hclean hx⟩
  · exact ⟨iff_of_true hend.clean hend.clean', fun _ => hbody⟩

/-- A text that is read without a fault agrees with itself. -/
theorem agree_self (h : (ofSource source maxErrors).ok = true) :
    Stmt.AgreeAll (ofSource source maxErrors).module.body
      (ofSource source maxErrors).module.body := by
  have hclean : (start source maxErrors).Clean :=
    (Grammar.steady_wholeModule.leads _).clean (clean_of_ok h)
  cases haborted : (start source maxErrors).aborted with
  | true =>
    have hbody : (ofSource source maxErrors).module.body = [] :=
      Grammar.moduleBody_of_aborted _ haborted
    rw [hbody]
    exact .nil
  | false =>
    have hself : ∀ t ∈ (Token.lex source).1.toList, t.Alike Eq t :=
      fun t _ => ⟨rfl, fun _ => rfl, fun _ => rfl⟩
    have hstart : (start source maxErrors).Alike Eq (start source maxErrors) :=
      alike_start (List.forall₂_same.mpr hself) hclean hclean haborted haborted
    have heq : OneToOne Eq := by
      rintro a _ b _ rfl rfl
      rfl
    exact (agree_ofSource heq hstart).2 h

/-- The tree of a text that is read without a fault is well formed: nothing in it could not be read,
every node records the use of its place, and lists that belong together have matching lengths. -/
theorem wellFormed_module (h : (ofSource source maxErrors).ok = true) :
    WellFormed.Tree (ofSource source maxErrors).module :=
  ⟨(agree_self h).formed⟩

/-- Targets inside a loop head, a deletion and a replacement field. -/
theorem wellFormed_module_targets :
    let source := utf8 "for *a, b.c in d or e:\n del [f, g[h]]\nk = f'\x7b(m := n)\x7d'\n"
    (ofSource source 1).ok = true ∧ WellFormed.Tree (ofSource source 1).module := by
  intro source
  have hok : (ofSource source 1).ok = true := by decide +kernel
  have hformed := wellFormed_module hok
  exact ⟨hok, hformed⟩

end CloneScout.Parsed
