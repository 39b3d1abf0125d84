import CloneScout.Proofs.Grammar.Halts.Stmt
import CloneScout.Proofs.Grammar.Fields
import CloneScout.Proofs.Grammar.Twins.Parse
import CloneScout.Proofs.Token.Moves

/-!
# Parsing comes to an end

The bound on how often the rules come back to each other is never reached: a rule of expressions
comes back only with fewer tokens left, and a rule of statements to a rule of expressions at most
once before that. So no parser of a source text or of a replacement field stalls, and that of a
source text has given up or reached the end.
-/

namespace CloneScout.Grammar

variable {k : Nat}

/-! ## The circle of rules -/

/-- The reader of replacement fields ends, whatever is left around the field. -/
class FieldReader.Halts (field : FieldReader) : Prop where
  halts (k : Nat) (t : Token) (offset line : Nat) (text : Text) :
    Grammar.Halts k (field t offset line text)

section

variable (r : Rules) [r.Steady] [r.HaltsFields] [r.Below k]

/-- The rule of an expression or pattern ends if the rules that it comes back to do with fewer
tokens. -/
theorem halts_rule {g : Goal} (hg : g.isBlock = false) : Halts (k + 1) (rule r g) := by
  unfold rule
  cases g with
  | statement => nomatch hg
  | branch => nomatch hg
  | _ => dsimp only; infer_instance

omit [r.HaltsFields] in
/-- The rule of a statement may come back to expressions before it has taken a token. -/
theorem halts_rule_statement [r.Below (k + 1)] [r.BlocksBelow k] :
    Halts (k + 1) (rule r .statement) :=
  halts_statement

omit [r.HaltsFields] in
theorem ahead_rule_branch [r.BlocksBelow k] : Ahead (k + 1) (rule r .branch) :=
  ahead_branchStatement

end

instance haltsFields_within (field : FieldReader) [hhalts : field.Halts] (n : Nat) :
    Rules.HaltsFields ⟨runGoal field n, field⟩ :=
  ⟨hhalts.halts⟩

/-- With `n` returns to each other the rules end, from every state in which `n` is more than twice
the number of tokens left, and one more in front of a statement. A branch starts with its word. -/
def Adequate (field : FieldReader) (n : Nat) : Prop :=
  ∀ g s, s.cursor.Closed → s.stalled = false → 2 * s.cursor.remaining + g.isBlock.toNat < n →
    (g = .branch → s.cursor.kind ≠ .eof) → ((runGoal field n g).run s).2.stalled = false

section

variable {field : FieldReader}

theorem Adequate.below {n : Nat} (hn : Adequate field n) (hk : 2 * k ≤ n + 1) :
    Rules.Below ⟨runGoal field n, field⟩ k := by
  refine ⟨fun g hg => ⟨fun {s} h => hn g s h.closed h.unstalled ?_ ?_⟩⟩
  · have := h.left
    rw [hg, Bool.toNat_false]
    omega
  · rintro rfl
    nomatch hg

theorem Adequate.blocksBelow {n : Nat} (hn : Adequate field n) (hk : 2 * k ≤ n) :
    Rules.BlocksBelow ⟨runGoal field n, field⟩ k := by
  have hless {s : State} (h : s.Fit k) : 2 * s.cursor.remaining + 1 < n := by
    have := h.left
    omega
  exact ⟨⟨fun {s} h => hn .statement s h.closed h.unstalled (hless h) (nomatch ·)⟩,
    ⟨fun {s} h hkind => hn .branch s h.closed h.unstalled (hless h) fun _ => hkind⟩⟩

variable [field.Steady] [field.Halts]

theorem adequate (n : Nat) : Adequate field n := by
  induction n with
  | zero => exact fun g s _ _ hn => absurd hn (Nat.not_lt_zero _)
  | succ n ih =>
    intro g s hclosed hstalled hn hbranch
    have hfit : s.Fit (s.cursor.remaining + 1) := ⟨hclosed, Nat.lt_succ_self _, hstalled⟩
    have hbelow : Rules.Below ⟨runGoal field n, field⟩ s.cursor.remaining := ih.below (by omega)
    rw [runGoal]
    cases hg : g.isBlock with
    | false => exact (halts_rule _ hg).unstalled hfit
    | true =>
      rw [hg, Bool.toNat_true] at hn
      have hbelow' : Rules.Below ⟨runGoal field n, field⟩ (s.cursor.remaining + 1) :=
        ih.below (by omega)
      have hblocks : Rules.BlocksBelow ⟨runGoal field n, field⟩ s.cursor.remaining :=
        ih.blocksBelow (by omega)
      cases g with
      | statement => exact (halts_rule_statement _).unstalled hfit
      | branch => exact (ahead_rule_branch _).unstalled hfit (hbranch rfl)
      | _ => cases hg

instance below_rulesFor (c : Cursor) : (rulesFor field c).Below (c.tokens.size + 1) :=
  (adequate _).below (by omega)

instance blocksBelow_rulesFor (c : Cursor) : (rulesFor field c).BlocksBelow (c.tokens.size + 1) :=
  (adequate _).blocksBelow (by omega)

theorem State.fit_size {s : State} (hclosed : s.cursor.Closed) (hstalled : s.stalled = false) :
    s.Fit (s.cursor.tokens.size + 1) :=
  ⟨hclosed, Nat.lt_succ_of_le (Nat.sub_le _ _), hstalled⟩

/-! ## Replacement fields -/

theorem unstalled_wholeExpression {s : State} (hclosed : s.cursor.Closed)
    (hstalled : s.stalled = false) : ((wholeExpression field).run s).2.stalled = false := by
  have hrest : Halts (s.cursor.tokens.size + 1) (do
      let first ← peek
      if s.aborted then return .error (tokenExtent first)
      else
        let e ← yieldOrStar (rulesFor field s.cursor)
        if ← at? .eof then return e
        else
          unexpected
          return .error (tokenExtent first)) := .auto
  exact hrest.unstalled (s.fit_size hclosed hstalled)

end

theorem closed_lexField (offset line : Nat) (text : Text) (pos : Nat) :
    Cursor.Closed ⟨(Token.lexField offset line text).1, pos⟩ :=
  Cursor.closed_push _ rfl _

theorem closed_lex (source : Text) (pos : Nat) : Cursor.Closed ⟨(Token.lex source).1, pos⟩ := by
  unfold Token.lex
  split <;> exact Cursor.closed_push _ rfl _

instance halts_fieldReader (depth : Nat) : (fieldReader depth).Halts := by
  induction depth with
  | zero => exact ⟨fun k t _ _ _ => by unfold fieldReader; exact .auto⟩
  | succ depth ih =>
    refine ⟨fun k t offset line text => ⟨fun {s} h => ?_⟩⟩
    rw [run_fieldReader]
    show (s.stalled || _) = false
    rw [h.unstalled, Bool.false_or]
    have hstart : (s.forField offset line text).cursor = ⟨(Token.lexField offset line text).1, 0⟩ :=
      rfl
    have hclosed : (s.forField offset line text).cursor.Closed := by
      rw [hstart]
      exact closed_lexField ..
    have hstalled : (s.forField offset line text).stalled = false := rfl
    exact unstalled_wholeExpression hclosed hstalled

/-! ## Modules -/

instance halts_moduleBody (r : Rules) [r.Steady] [r.BlocksBelow k] : Halts k (moduleBody r) := by
  unfold moduleBody
  refine .collect .auto fun c hc => .still fun aborted => .at? ?_
  split
  · exact .stop Bool.false_ne_true
  · next hinside =>
    simp only [Bool.or_eq_true, decide_eq_true_eq, not_or] at hinside
    refine .at? (.at? ?_)
    split
    · exact .left (takes_bump c hc hinside.2)
    · refine .get fun before hbefore => .otherwise hc hinside.2 fun found => ?_
      refine .get fun after hafter => .at? ?_
      rw [hbefore, hafter, if_pos (by simp [hinside])]
      exact .still fun _ => .left (takes_bump c hc hinside.2)

/-- From a state the round goes on or leads to one with the property. -/
def Last {σ : Type} (P : State → Prop) (s : State) (x : Parser (σ × Bool)) : Prop :=
  (x.run s).1.2 = false → P (x.run s).2

namespace Last

variable {α σ : Type} {P : State → Prop} {s : State}

theorem stop {a : σ} (h : P s) : Last P s (pure (a, false)) := fun _ => h

theorem goOn {a : σ} : Last P s (pure (a, true)) := fun h => nomatch h

theorem bind {x : Parser α} {f : α → Parser (σ × Bool)} (hf : ∀ a s, Last P s (f a)) :
    Last P s (x >>= f) :=
  fun h => hf (x.run s).1 (x.run s).2 h

theorem isAborted {f : Bool → Parser (σ × Bool)} (hf : Last P s (f s.aborted)) :
    Last P s (isAborted >>= f) :=
  hf

theorem at? {kd : Token.Kind} {f : Bool → Parser (σ × Bool)}
    (hf : Last P s (f (decide (s.cursor.kind = kd)))) : Last P s (at? kd >>= f) :=
  hf

/-- A loop that does not stall ends with a round that says so. -/
theorem iterate {body : σ → Parser (σ × Bool)} (hbody : ∀ a s, Last P s (body a)) (n : Nat) (a : σ)
    (h : ((iterate body n a).run s).2.stalled = false) : P ((iterate body n a).run s).2 := by
  induction n generalizing a s with
  | zero => nomatch h
  | succ n ih =>
    have hround := hbody a s
    rw [run_iterate] at h ⊢
    split
    · next hmore =>
      rw [if_pos hmore] at h
      split
      · next hless =>
        rw [if_pos hless] at h
        exact ih _ h
      · next hless =>
        rw [if_neg hless] at h
        nomatch h
    · next hmore => exact hround (by simpa using hmore)

theorem collect {start : List α} {body : Parser (List α × Bool)} (hbody : ∀ s, Last P s body)
    (h : ((collect start body).run s).2.stalled = false) : P ((collect start body).run s).2 := by
  have hround (found : List α) (s : State) :
      Last P s (body >>= fun round => pure (round.1.reverse ++ found, round.2)) :=
    hbody s
  exact iterate hround (s.cursor.remaining + 1) start.reverse h

end Last

/-- A parser of statements that does not stall has given up or reached the end. -/
theorem last_moduleBody (r : Rules) {s : State} (h : ((moduleBody r).run s).2.stalled = false) :
    ((moduleBody r).run s).2.aborted = true ∨ ((moduleBody r).run s).2.cursor.kind = .eof := by
  unfold moduleBody at h ⊢
  refine Last.collect (P := fun s => s.aborted = true ∨ s.cursor.kind = .eof)
    (fun s => .isAborted (.at? ?_)) h
  split
  · next hend => exact .stop (by simpa using hend)
  · refine .bind fun newline _ => .bind fun dedent _ => ?_
    split
    · exact .bind fun _ _ => .goOn
    · refine .bind fun before _ => .bind fun found _ => .bind fun after _ => .bind fun eof _ => ?_
      split
      · exact .bind fun _ _ => .bind fun _ _ => .goOn
      · exact .goOn

/-- The state behind a module is that behind its body. -/
theorem run_wholeModule_snd (s : State) : (wholeModule.run s).2 =
    ((moduleBody (rulesFor (fieldReader fieldDepth) s.cursor)).run s).2 := by
  have hrun (body : Cursor → Parser (List Stmt)) : (StateT.run (do
      let s ← get
      let first ← peek
      let found ← body s.cursor
      return ({ extent := ⟨first.span, 1, (← get).lastLine⟩, body := found } : Module)) s).2 =
        ((body s.cursor).run s).2 :=
    rfl
  exact hrun fun c => moduleBody (rulesFor (fieldReader fieldDepth) c)

/-- A parser of a source text does not stall. -/
theorem unstalled_wholeModule {s : State} (hclosed : s.cursor.Closed)
    (hstalled : s.stalled = false) : (wholeModule.run s).2.stalled = false := by
  rw [run_wholeModule_snd]
  exact (halts_moduleBody _).unstalled (s.fit_size hclosed hstalled)

end CloneScout.Grammar

namespace CloneScout.Parsed

open Grammar (State Goal runGoal rulesFor fieldReader checkedReader moduleBody wholeModule)

/-- Lexing and parsing come to an end by themselves, whatever the source text is.

* A step of a lexer reads at least one byte or is the last one, and as many steps as there are
  bytes, and one more, reach the end of every text.
* The replacement fields that a parser asks for are those of string tokens in view. They are shorter
  than the token, and the segments of a template do not depend on how many steps are allowed.
* Recovery from a fault does not depend on how many steps are allowed either.
* The rules end before they have come back to each other more than twice for each token left. Once a
  loop has gone on without a token, or the rules have come back too often, the state shows it ever
  after.
* The parser of the source text does not stall, and in the end it has given up or reached the end.
-/
theorem halts_ofSource (source : Text) (maxErrors : Nat) :
    (∀ s : Token.Lexer, (s.step.2 = true → s.pos < s.step.1.pos) ∧
      (s.step.2 = false → s.step.1.rest = []) ∧ (s.run (s.rest.length + 1)).rest = []) ∧
    (∀ depth c, moduleBody (rulesFor (checkedReader depth) c) =
      moduleBody (rulesFor (fieldReader depth) c)) ∧
    (∀ t : Token, ∀ p ∈ t.fields, p.2.length < t.lexeme.length) ∧
    (∀ raw n t, t.length ≤ n → Template.segmentsFrom raw n 0 [] t = Template.segments raw t) ∧
    (∀ (c : Cursor) (n : Nat) (stops : List Token.Kind), c.Closed → c.remaining ≤ n →
      Cursor.skipLineWithin n c = c.skipLine ∧ Cursor.skipToWithin stops n {} c = c.skipTo stops) ∧
    (∀ (depth n : Nat) (g : Goal) (s : State),
      (s.stalled = true → ((runGoal (fieldReader depth) n g).run s).2.stalled = true) ∧
      (s.stalled = false → s.cursor.Closed → 2 * s.cursor.remaining + g.isBlock.toNat < n →
        (g = .branch → s.cursor.kind ≠ .eof) →
        ((runGoal (fieldReader depth) n g).run s).2.stalled = false)) ∧
    let s := (wholeModule.run (start source maxErrors)).2
    (ofSource source maxErrors).aborted = s.aborted ∧ s.stalled = false ∧
      (s.aborted = true ∨ s.cursor.kind = .eof) := by
  refine ⟨fun s => ?_, Grammar.moduleBody_checkedReader,
    fun t p hp => Token.length_lt_of_mem_fields hp, fun raw n t hn => Template.segmentsFrom_eq hn (Nat.le_refl _), fun c n stops hc hn => ?_,
    fun depth n g s => ⟨fun hs => ?_, fun hs hc hn hbranch => ?_⟩, ?_⟩
  · have hstep := Token.Lexer.moves_step s
    exact ⟨hstep.2.1, hstep.2.2, Token.Lexer.rest_run_eq_nil (Nat.lt_succ_self _)⟩
  · exact ⟨Cursor.skipLineWithin_eq hc hn (Nat.le_refl _),
      Cursor.skipToWithin_eq hc hn (Nat.le_refl _)⟩
  · exact ((Grammar.steady_runGoal (fieldReader depth) n g).leads s).stalled hs
  · exact Grammar.adequate n g s hc hs hn hbranch
  · have hstalled : (wholeModule.run (start source maxErrors)).2.stalled = false :=
      Grammar.unstalled_wholeModule (Grammar.closed_lex source 0) rfl
    refine ⟨rfl, hstalled, ?_⟩
    rw [Grammar.run_wholeModule_snd] at hstalled ⊢
    exact Grammar.last_moduleBody _ hstalled

/-- Brackets that stay open, a block that is missing and nested fields. -/
theorem halts_ofSource_faulty :
    ∃ source, source = utf8 "if (x[:\nf'\x7ba:\x7bb\x7d\x7d' 3\n" ∧
      (ofSource source 20).ok = false ∧
      ((runGoal (fieldReader 1) (2 * (start source 20).cursor.remaining + 2) .statement).run
        (start source 20)).2.stalled = false := by
  obtain ⟨source, hsource⟩ :
      ∃ source, source = utf8 "if (x[:\nf'\x7ba:\x7bb\x7d\x7d' 3\n" := ⟨_, rfl⟩
  have hfaulty : (ofSource source 20).ok = false := by rw [hsource]; decide +kernel
  obtain ⟨-, -, -, -, -, hrules, -⟩ := halts_ofSource source 20
  refine ⟨source, hsource, hfaulty, (hrules 1 _ .statement (start source 20)).2 rfl ?_ ?_ ?_⟩
  · exact Grammar.closed_lex source 0
  · exact Nat.lt_succ_self _
  · exact fun h => nomatch h

end CloneScout.Parsed
