import CloneScout.Grammar.Strings
import CloneScout.Proofs.Grammar.State
import CloneScout.Proofs.Token.Fields
import Mathlib.Logic.Relation

/-!
# Moves of a parser

All that a parser ever does to its state is one of a few moves: it leaves tokens behind, reports a
fault, gives up, notes that it does not come to an end or where a statement ends, or takes a string
token and reads its replacement fields, each at most once. Every rule of the grammar is a sequence
of moves, so what every move preserves holds behind every rule.
-/

namespace CloneScout.Grammar

variable {α β σ : Type} {field : FieldReader}

/-! ## Moves -/

/-- The parser reads replacement fields of the token `t`, one after the other. It may leave fields
out, and may report faults between them. -/
inductive State.Visits (field : FieldReader) (t : Token) : List (Nat × Text) → State → State → Prop
  | done (s : State) : Visits field t [] s s
  | report {fs : List (Nat × Text)} {s s' : State} (code : Diagnostic.Code) (span : Span) (arg : Text)
      (h : Visits field t fs (s.report code span arg) s') : Visits field t fs s s'
  | read {p : Nat × Text} {fs : List (Nat × Text)} {s s' : State}
      (h : Visits field t fs ((field t p.1 (lineAt t p.1) p.2).run s).2 s') :
      Visits field t (p :: fs) s s'
  | leave {p : Nat × Text} {fs : List (Nat × Text)} {s s' : State} (h : Visits field t fs s s') :
      Visits field t (p :: fs) s s'

/-- What a parser can do at once. -/
inductive State.Move (field : FieldReader) (s : State) : State → Prop
  | onward {c : Cursor} (h : Onward s.cursor c) : Move field s { s with cursor := c }
  | report (code : Diagnostic.Code) (span : Span) (arg : Text) :
      Move field s (s.report code span arg)
  | giveUp : Move field s s.giveUp
  | stall : Move field s s.stall
  | close (line offset : Nat) : Move field s { s with lastLine := line, lastOffset := offset }
  /-- A string token is taken, and its fields are read. -/
  | string {s' : State} (h : s.cursor.kind = .stringLit)
      (hvisits : Visits field s.cursor.peek s.cursor.peek.fields
        { s with cursor := s.cursor.bump } s') : Move field s s'

/-- Moves one after the other. -/
def State.Moves (field : FieldReader) : State → State → Prop :=
  Relation.ReflTransGen (State.Move field)

namespace State.Visits

variable {t : Token} {fs gs : List (Nat × Text)} {s s' s'' : State}

theorem append (h : Visits field t fs s s') (h' : Visits field t gs s' s'') :
    Visits field t (fs ++ gs) s s'' := by
  induction h with
  | done => exact h'
  | report code span arg _ ih => exact .report code span arg (ih h')
  | read _ ih => exact .read (ih h')
  | leave _ ih => exact .leave (ih h')

theorem leaveAll (h : Visits field t fs s s') (gs : List (Nat × Text)) :
    Visits field t (gs ++ fs) s s' := by
  induction gs with
  | nil => exact h
  | cons p gs ih => exact .leave ih

end State.Visits

/-! ## Parsers of moves -/

/-- A parser that does nothing but moves. -/
class Walks (field : FieldReader) (x : Parser α) : Prop where
  moves (s : State) : s.Moves field (x.run s).2

theorem Walks.of_move {x : Parser α} (h : ∀ s : State, s.Move field (x.run s).2) : Walks field x :=
  ⟨fun s => .single (h s)⟩

/-- A parser that only looks. -/
theorem Walks.of_eq {x : Parser α} (h : ∀ s : State, (x.run s).2 = s) : Walks field x :=
  ⟨fun s => by rw [h s]; exact .refl⟩

instance walks_pure (a : α) : Walks field (pure a) := .of_eq fun _ => rfl

instance walks_bind (x : Parser α) (f : α → Parser β) [hx : Walks field x]
    [hf : ∀ a, Walks field (f a)] : Walks field (x >>= f) :=
  ⟨fun s => (hx.moves s).trans ((hf _).moves _)⟩

instance walks_map (f : α → β) (x : Parser α) [hx : Walks field x] : Walks field (f <$> x) :=
  ⟨fun s => hx.moves s⟩

instance walks_ite (c : Prop) [Decidable c] (x y : Parser α) [Walks field x] [Walks field y] :
    Walks field (if c then x else y) := by
  split <;> infer_instance

instance walks_get : Walks field (get : Parser State) := .of_eq fun _ => rfl

instance walks_peek (k : Nat) : Walks field (peek k) := .of_eq fun _ => rfl

instance walks_kind (k : Nat) : Walks field (kind k) := .of_eq fun _ => rfl

instance walks_at (k : Token.Kind) : Walks field (at? k) := .of_eq fun _ => rfl

instance walks_isAborted : Walks field isAborted := .of_eq fun _ => rfl

instance walks_extentFrom (t : Token) : Walks field (extentFrom t) := .of_eq fun _ => rfl

instance walks_closeCompound (t : Token) : Walks field (closeCompound t) := .of_eq fun _ => rfl

instance walks_errorHere : Walks field errorHere := .of_eq fun _ => rfl

instance walks_closeStatement (t : Token) : Walks field (closeStatement t) :=
  .of_move fun _ => .close _ _

instance walks_report (code : Diagnostic.Code) (span : Span) (arg : Text) :
    Walks field (report code span arg) :=
  .of_move fun _ => .report code span arg

instance walks_abort : Walks field abort := .of_move fun _ => .giveUp

instance walks_stall : Walks field stall := .of_move fun _ => .stall

theorem walks_moveCursor {f : Cursor → Cursor} (h : ∀ c, Onward c (f c)) :
    Walks field (moveCursor f) :=
  .of_move fun s => .onward (h s.cursor)

instance walks_bump : Walks field bump := by
  have : Walks field (moveCursor Cursor.bump) := walks_moveCursor onward_bump
  unfold bump
  infer_instance

instance walks_recoverToNewline : Walks field recoverToNewline := walks_moveCursor onward_skipLine

instance walks_recoverTo (stops : List Token.Kind) : Walks field (recoverTo stops) :=
  walks_moveCursor (onward_skipTo stops)

instance walks_eat (k : Token.Kind) : Walks field (eat k) := by unfold eat; infer_instance

instance walks_expect (k : Token.Kind) : Walks field (expect k) := by
  unfold expect
  dsimp only
  infer_instance

instance walks_close (k : Token.Kind) : Walks field (close k) := by unfold close; infer_instance

instance walks_unexpected : Walks field unexpected := by unfold unexpected; infer_instance

instance walks_iterate (body : σ → Parser (σ × Bool)) [∀ a, Walks field (body a)] (n : Nat)
    (a : σ) : Walks field (iterate body n a) := by
  induction n generalizing a with
  | zero =>
    unfold iterate
    infer_instance
  | succ n ih =>
    unfold iterate
    infer_instance

instance walks_loop (start : σ) (body : σ → Parser (σ × Bool)) [∀ a, Walks field (body a)] :
    Walks field (loop start body) := by
  unfold loop
  infer_instance

instance walks_collect (start : List α) (body : Parser (List α × Bool)) [Walks field body] :
    Walks field (collect start body) := by
  unfold collect
  infer_instance

instance walks_collectAfter (sep : Token.Kind) (start : List α) (item : Parser α)
    [Walks field item] : Walks field (collectAfter sep start item) := by
  unfold collectAfter
  infer_instance

instance walks_collectCommas (start : List α) (stops : Parser Bool) (item : Parser α)
    [Walks field stops] [Walks field item] : Walks field (collectCommas start stops item) := by
  unfold collectCommas
  infer_instance

instance walks_mapM (f : α → Parser β) [∀ a, Walks field (f a)] (l : List α) :
    Walks field (l.mapM f) := by
  induction l with
  | nil =>
    rw [List.mapM_nil]
    infer_instance
  | cons a l ih =>
    rw [List.mapM_cons]
    infer_instance

/-- Sequences, branches, cases and repetitions of moves are moves. -/
theorem Walks.auto {x : Parser α} (h : Walks field x := by
    repeat' (first
      | infer_instance
      | with_reducible refine @walks_bind _ _ _ _ _ ?_ fun _ => ?_
      | with_reducible refine @walks_loop _ _ _ _ fun _ => ?_
      | with_reducible refine @walks_collect _ _ _ _ ?_
      | with_reducible refine @walks_mapM _ _ _ _ (fun _ => ?_) _
      | split
      | dsimp only)) : Walks field x :=
  h

/-! ## The fields of a string token -/

/-- A parser that reads replacement fields of the token `t`. -/
structure Through (field : FieldReader) (t : Token) (fs : List (Nat × Text)) (x : Parser α) :
    Prop where
  visits (s : State) : s.Visits field t fs (x.run s).2

namespace Through

variable {t : Token} {fs gs : List (Nat × Text)}

theorem bind {x : Parser α} {f : α → Parser β} (hx : Through field t fs x)
    (hf : ∀ a, Through field t gs (f a)) : Through field t (fs ++ gs) (x >>= f) :=
  ⟨fun s => (hx.visits s).append ((hf _).visits _)⟩

/-- A part that reads no field. -/
theorem past {x : Parser α} {f : α → Parser β} (hx : Through field t [] x)
    (hf : ∀ a, Through field t gs (f a)) : Through field t gs (x >>= f) :=
  hx.bind hf

theorem pure (a : α) : Through field t [] (pure a : Parser α) := ⟨fun s => .done s⟩

theorem report (code : Diagnostic.Code) (span : Span) (arg : Text) :
    Through field t [] (Grammar.report code span arg) :=
  ⟨fun _ => .report code span arg (.done _)⟩

theorem read (p : Nat × Text) : Through field t [p] (field t p.1 (lineAt t p.1) p.2) :=
  ⟨fun _ => .read (.done _)⟩

theorem leave {x : Parser α} (h : Through field t fs x) (gs : List (Nat × Text)) :
    Through field t (gs ++ fs) x :=
  ⟨fun s => (h.visits s).leaveAll gs⟩

theorem mapM {f : α → Parser β} {g : α → List (Nat × Text)} (h : ∀ a, Through field t (g a) (f a))
    (l : List α) : Through field t (l.flatMap g) (l.mapM f) := by
  induction l with
  | nil =>
    rw [List.mapM_nil]
    exact pure _
  | cons a l ih =>
    rw [List.mapM_cons]
    refine (h a).bind fun b => ?_
    have hrest : Through field t (l.flatMap g ++ []) (do
        let bs ← l.mapM f
        Pure.pure (b :: bs)) := ih.bind fun bs => pure _
    rwa [List.append_nil] at hrest

/-- A fault that is reported only under a condition. -/
theorem reportIf {c : Prop} [Decidable c] {code : Diagnostic.Code} {span : Span} {arg : Text}
    {f : Unit → Parser α} (h : ∀ u, Through field t gs (f u)) :
    Through field t gs (if c then Grammar.report code span arg >>= f else f ()) := by
  split
  · exact (report code span arg).past h
  · exact h ()

theorem reportUnless {c : Prop} [Decidable c] {code : Diagnostic.Code} {span : Span} {arg : Text}
    {f : Unit → Parser α} (h : ∀ u, Through field t gs (f u)) :
    Through field t gs (if c then f () else Grammar.report code span arg >>= f) := by
  split
  · exact h ()
  · exact (report code span arg).past h

/-- A field that is read, or reported and left out. -/
theorem readUnless {c : Prop} [Decidable c] {code : Diagnostic.Code} {span : Span} {arg : Text}
    {e : Expr} {p : Nat × Text} {f : Expr → Parser α} (h : ∀ e, Through field t gs (f e)) :
    Through field t (p :: gs)
      (if c then Grammar.report code span arg >>= fun _ => Pure.pure e >>= f
        else field t p.1 (lineAt t p.1) p.2 >>= f) := by
  split
  · exact (report code span arg).past fun _ => ((pure e).past h).leave [p]
  · exact (read p).bind h

end Through

section

variable {r : Rules} {t : Token} (hfield : r.field = field)

include hfield

theorem through_fieldPieces {base : Nat} {formatPieces : Nat → Text → Parser (List Piece)}
    {g : Nat → Text → List (Nat × Text)}
    (hformat : ∀ n text, Through field t (g n text) (formatPieces n text)) (f : Template.Field) :
    Through field t ((base + f.offset, f.expr) ::
      f.format.elim [] fun p => g (base + p.1) p.2) (fieldPieces r t base formatPieces f) := by
  unfold fieldPieces
  dsimp only
  rw [hfield]
  refine .readUnless fun value => .reportIf fun _ => ?_
  cases f.format with
  | none => exact .past (.pure _) fun spec => .reportUnless fun _ => .pure _
  | some p =>
    show Through field t (g (base + p.1) p.2) _
    rw [← List.append_nil (g _ _)]
    refine (hformat _ _).bind fun pieces => .past (.pure _) fun spec => ?_
    exact .reportUnless fun _ => .pure _

theorem through_templatePieces (raw : Bool) (levels base : Nat) (template : Text) :
    Through field t (Template.fields raw levels base template)
      (templatePieces r t raw levels base template) := by
  induction levels generalizing base template with
  | zero => exact (Through.report _ _ _).past fun _ => .pure _
  | succ levels ih =>
    unfold templatePieces
    rw [← List.append_nil (Template.fields ..)]
    refine Through.bind ?_ fun pieces => .pure _
    refine Through.mapM (fun segment => ?_) _
    cases segment with
    | literal lit => exact .pure _
    | stray => exact (Through.report _ _ _).past fun _ => .pure _
    | field f => exact through_fieldPieces hfield (ih · ·) f

theorem through_tokenPieces :
    Through field t t.fields (tokenPieces r t (StringLiteral.parts t.lexeme)) := by
  unfold tokenPieces Token.fields
  dsimp only
  split
  · exact through_templatePieces hfield _ _ _ _
  · exact .pure _

/-- A string token is taken, and its fields are read, in one move. -/
theorem walks_stringTokens : Walks field (stringTokens r) := by
  have hbody : Walks field (do
      if !(← isAborted) && (← at? .stringLit) then
        let t ← bump
        let parts := StringLiteral.parts t.lexeme
        return ([(parts, ← tokenPieces r t parts)], true)
      else return ([], false)) := by
    refine ⟨fun s => ?_⟩
    show s.Moves field ((if (!s.aborted && decide (s.cursor.kind = Token.Kind.stringLit)) = true
      then _ else _ : Parser (List (StringLiteral.Parts × List Piece) × Bool)).run s).2
    split
    · next hstart =>
      rw [Bool.and_eq_true, decide_eq_true_eq] at hstart
      exact .single (.string hstart.2 ((through_tokenPieces hfield).visits _))
    · exact .refl
  unfold stringTokens
  infer_instance

end

end CloneScout.Grammar
