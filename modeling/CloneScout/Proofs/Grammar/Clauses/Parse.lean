import CloneScout.Proofs.Grammar.Clauses.Compound
import CloneScout.Proofs.Grammar.Halts.Parse
import CloneScout.Proofs.Grammar.Ranges.Parse
import CloneScout.Proofs.Token.Ledger

/-!
# What a source holds that is read without a fault

The rules go past the clauses of their statements however often they come back to each other, and a
module ends where the tokens do. So the clauses of its tree are those that the tokens open, and its
lists hold what a grammar asks for, as far as the tokens show it.
-/

namespace CloneScout.Grammar

/-! ## The circle of rules -/

instance stays_exhausted (g : Goal) : Stays (exhausted g) :=
  ⟨fun s => by unfold exhausted; exact .auto⟩

theorem stays_rule (r : Rules) [r.Stays] [r.Steady] {g : Goal} (h : g ≠ .statement ∧ g ≠ .branch) :
    Stays (rule r g) := by
  cases g with
  | statement => exact absurd rfl h.1
  | branch => exact absurd rfl h.2
  | _ => unfold rule; infer_instance

section

variable {field : FieldReader} [hsteady : field.Steady]

theorem stays_within (hfield : ∀ t offset line text, Stays (field t offset line text)) (n : Nat) :
    Rules.Stays ⟨runGoal field n, field⟩ := by
  refine ⟨?_, hfield⟩
  induction n with
  | zero => exact fun g _ => stays_exhausted g
  | succ n ih =>
    have hrules : Rules.Stays ⟨runGoal field n, field⟩ := ⟨ih, hfield⟩
    exact fun g h => stays_rule ⟨runGoal field n, field⟩ h

theorem reads_within (hstays : ∀ t offset line text, Stays (field t offset line text))
    (hkeeps : ∀ t offset line text, Keeps (field t offset line text)) (n : Nat) :
    Rules.Reads ⟨runGoal field n, field⟩ := by
  induction n with
  | zero =>
    -- A rule that comes back too often ends with a fault.
    have hfault {g : Goal} {Q : g.Result → State → Prop} (s : State) : Gives s (exhausted g) Q :=
      .skip fun _ _ => .bind (Q := fun _ _ => False) .unexpected fun _ _ h => h.elim
    exact ⟨fun s => hfault s, fun s _ => hfault s⟩
  | succ n ih =>
    have := stays_within hstays n
    have := keeps_within hkeeps n
    refine ⟨fun s => whole_statement ih, fun s hkind => ?_⟩
    exact gives_branchStatement ih (.opens (by rw [hkind]; rfl))

end

theorem State.cursor_absorb (s sub : State) : (s.absorb sub).cursor = s.cursor := rfl

/-- The parser of a field has a cursor of its own. -/
instance stays_fieldReader (depth : Nat) (t : Token) (offset line : Nat) (text : Text) :
    Stays (fieldReader depth t offset line text) := by
  have hsteady := (steady_fieldReader depth).steady t offset line text
  refine ⟨fun s => ⟨hsteady.leads s, fun _ _ _ => ?_⟩⟩
  cases depth with
  | zero =>
    have hstill : Still (fieldReader 0 t offset line text) := by unfold fieldReader; infer_instance
    rw [hstill.cursor]
    exact .refl _
  | succ depth =>
    rw [run_fieldReader, State.cursor_absorb]
    exact .refl _

theorem reads_rulesFor (c : Cursor) : (rulesFor (fieldReader fieldDepth) c).Reads :=
  reads_within (stays_fieldReader fieldDepth) (keeps_fieldReader fieldDepth) _

/-! ## Modules -/

theorem gives_moduleBody {r : Rules} [r.Steady] (hr : r.Reads) {s : State} :
    Gives s (moduleBody r) fun ss s' =>
      Read s (Clauses.stmts ss) ss s' ∧ (s'.stalled = true ∨ s'.cursor.kind = .eof) := by
  unfold moduleBody
  refine .gather (c := .auto) (T := fun s ss s' => Read s (Clauses.stmts ss) ss s')
    (E := fun s' => s'.cursor.kind = .eof) (fun h h' => ?_) (fun h => h.stall) fun s => ?_
  · rw [Clauses.stmts_append]
    exact h.trans h'
  refine .bind .isAborted fun aborted s₁ haborted => .bind (.at? .eof) fun eof s₂ heof => ?_
  obtain ⟨rfl, rfl⟩ := haborted
  obtain ⟨rfl, heof⟩ := heof
  split
  · next hstop => exact .pure ⟨.refl _, fun _ => heof.mp (by simpa using hstop)⟩
  · refine .bind (.at? .newline) fun newline s₃ hnewline => ?_
    refine .bind (.at? .dedent) fun dedent s₄ hdedent => ?_
    obtain ⟨rfl, hnewline⟩ := hnewline
    obtain ⟨rfl, hdedent⟩ := hdedent
    split
    · next hlayout =>
      rw [Bool.or_eq_true, hnewline, hdedent] at hlayout
      refine .bind .bumped fun t s₅ ht => .pure ⟨?_, Bool.noConfusion⟩
      obtain ⟨-, rfl⟩ := ht
      exact (Read.refl s₄).bump (by rcases hlayout with h | h <;> (rw [h]; rfl))
    · refine .bind .get fun before s₅ hget => .bind (hr.statement s₅) fun found s₆ h => ?_
      refine .bind .get fun after s₇ hget' => .bind (.at? .eof) fun eof s₈ heof' => ?_
      obtain ⟨rfl, rfl⟩ := hget
      obtain ⟨rfl, rfl⟩ := hget'
      obtain ⟨rfl, -⟩ := heof'
      dsimp only
      split
      · exact .bind (Q := fun _ _ => False) .unexpected fun _ _ h => h.elim
      · exact .pure ⟨h.read, Bool.noConfusion⟩

theorem gives_wholeModule_read {s : State} : Gives s wholeModule fun m s' =>
    Read s (Clauses.stmts m.body) m.body s' ∧ (s'.stalled = true ∨ s'.cursor.kind = .eof) := by
  unfold wholeModule
  refine .bind .get fun start s₁ hget => .bind (.peek 0) fun first s₂ hfirst => ?_
  obtain ⟨rfl, rfl⟩ := hget
  obtain ⟨rfl, -⟩ := hfirst
  refine .bind (gives_moduleBody (reads_rulesFor _)) fun body s₃ h => ?_
  refine .bind .get fun last s₄ hget => .pure ?_
  obtain ⟨rfl, rfl⟩ := hget
  exact h

/-- A parser that has given up before it starts has given up in the end. -/
theorem aborted_moduleBody {s : State} (r : Rules) (h : s.aborted = true) :
    ((moduleBody r).run s).2.aborted = true := by
  simp [moduleBody, collect, loop, iterate, isAborted, h]
  exact h

theorem worded_lex {source : Text} (h : Utf8.isValid source = true) :
    Worded (Token.lex source).1 := by
  obtain ⟨s, hmoves, -, hlex⟩ := Token.lex_eq_finish h
  have hworded : Worded s.tokens := by
    refine hmoves.preserves (P := fun s => Worded s.tokens) (fun s s' hs hmove => ?_)
      fun t ht => absurd ht (Array.not_mem_empty t)
    have hpush {t : Token} (ht : t.kind.isLayout = false → t.lexeme ≠ []) :
        Worded (s.tokens.push t) := fun u hu =>
      (Array.mem_push.mp hu).elim (hs u) fun heq => heq ▸ ht
    cases hmove with
    | keep _ _ _ tokens => exact tokens ▸ hs
    | skip rest gap => exact hs
    | stray rest => exact hs
    | take hkind hpos hlength =>
      refine hpush fun _ hnil => ?_
      have hlen := congrArg List.length hnil
      rw [Token.Lexer.tokenOf, List.length_take, List.length_nil] at hlen
      omega
    | newline rest => exact hpush Bool.noConfusion
    | mark hkind heof => exact hpush fun hword => Bool.noConfusion (hword.symm.trans hkind)
  rw [hlex]
  intro t ht hkind
  rcases Array.mem_push.mp ht with ht | rfl
  · exact hworded t ht hkind
  · exact Bool.noConfusion hkind

end CloneScout.Grammar

namespace CloneScout.Parsed

open Grammar (Demand Proper wholeModule)

/-- A source that is read without a fault is one that the parser takes up. -/
theorem good_start {source : Text} {maxErrors : Nat} (h : (ofSource source maxErrors).ok = true) :
    (start source maxErrors).Good ∧ (wholeModule.run (start source maxErrors)).2.Clean := by
  rw [ok, Bool.and_eq_true, decide_eq_true_eq, Bool.not_eq_true'] at h
  have hclean : (wholeModule.run (start source maxErrors)).2.Clean := h.1
  have hgoing : (wholeModule.run (start source maxErrors)).2.aborted = false := h.2
  refine ⟨⟨⟨?_, rfl, rfl, rfl⟩, Token.lex_lawful ?_⟩, hclean⟩
  · refine Bool.eq_false_iff.mpr fun haborted => ?_
    rw [Grammar.run_wholeModule_snd, Grammar.aborted_moduleBody _ haborted] at hgoing
    cases hgoing
  · exact (Grammar.steady_wholeModule.leads (start source maxErrors)).clean hclean

/-- In the tree of a source that is read without a fault the lists of a statement that a grammar
asks something for hold something, as far as the tokens show it to the parser.

* An `import`, a `del`, a `global` and a `nonlocal` always have something in their lists.
* If something stands behind every indentation, and so if the source does not end in a comment, every
  block and every `match` holds something. The words `else`, `elif` and `finally` that open a part of
  a statement are the parts of the tree that hold a statement, in their order.
* An import from a module imports something if nowhere `()` stands behind `import`.
* A `with` has an item if nowhere `():` stands behind `with`.
-/
theorem lists_ofSource {source : Text} {maxErrors : Nat}
    (h : (ofSource source maxErrors).ok = true) :
    let m := (ofSource source maxErrors).module
    let ks := Token.kinds source
    Every.module Node.Listed m ∧
      (Token.Indented (Token.lex source).1 →
        Every.module Node.Embodied m ∧ Clauses.stmts m.body = Token.clauses ks) ∧
      (¬ Token.Lexer.EndsInComment (Token.Lexer.start source).rest →
        Token.Indented (Token.lex source).1) ∧
      (¬ [.kwImport, .lparen, .rparen] <:+: ks → Every.module Node.ImportsNames m) ∧
      (¬ [.kwWith, .lparen, .rparen, .colon] <:+: ks → Every.module Node.HasItems m) := by
  intro m ks
  obtain ⟨hgood, hclean⟩ := good_start h
  have hlex : Diagnostic.Clean (Token.lex source).2 :=
    (Grammar.steady_wholeModule.leads (start source maxErrors)).clean hclean
  have hclosed : (start source maxErrors).cursor.Closed := Grammar.closed_lex source 0
  obtain ⟨hread, hend⟩ := Grammar.gives_wholeModule_read.holds hgood hclean
  have hmet (d : Demand) (hseen : d.Seen (start source maxErrors).cursor) : Every.module d.Met m :=
    ⟨by cases d <;> trivial, Every.stmts_iff.mpr (hread.met d hseen)⟩
  refine ⟨hmet .names trivial, fun hindented => ⟨hmet .blocks (hindented.solid 0), ?_⟩,
    Token.indented_lex hlex, fun hnone => hmet .imports ?_, fun hnone => hmet .items ?_⟩
  · have hvalid := Token.isValid_of_lex hlex
    have hproper : Proper (start source maxErrors).cursor :=
      ⟨hindented.solid 0, Grammar.worded_lex hvalid, hclosed⟩
    have hstalled := Grammar.unstalled_wholeModule hclosed (s := start source maxErrors) rfl
    obtain ⟨-, ts, eof, htokens, hother, -⟩ := Token.lex_ordered hvalid
    have heof : eof.kind = .eof := by
      have hfinal : (Cursor.final ⟨(Token.lex source).1, 0⟩).kind = .eof := hclosed
      rwa [htokens, Cursor.final, Array.back?_push] at hfinal
    -- The parser stops at the end mark, with all clauses behind it.
    have hall := hread.clauses hproper hstalled
    rw [Cursor.clauses_of_eof (hread.leads.tokens.trans htokens) hother heof
      (hend.resolve_left (ne_true_of_eq_false hstalled)), hread.leads.tokens] at hall
    exact hall.symm
  · exact Cursor.misses_of_not_infix hclosed (by decide) hnone
  · exact Cursor.misses_of_not_infix hclosed (by decide) hnone

/-- Branches, an exception and a context, all with something in them. -/
theorem lists_ofSource_parts :
    let source := utf8 ("if a:\n b\nelif c if d else e:\n import f\n" ++
      "else:\n try:\n  del g\n finally:\n  with h:\n   from i import j\n")
    let p := ofSource source 64
    p.ok = true ∧ Every.module Node.Listed p.module ∧ Every.module Node.Embodied p.module ∧
      Every.module Node.ImportsNames p.module ∧ Every.module Node.HasItems p.module ∧
      Clauses.stmts p.module.body = [.orelse, .orelse, .finalbody] := by
  intro source p
  have hok : p.ok = true := by decide +kernel
  obtain ⟨hlisted, hembodied, hindented, himports, hitems⟩ := lists_ofSource hok
  have hcomment : ¬ Token.Lexer.EndsInComment (Token.Lexer.start source).rest := by
    unfold Token.Lexer.EndsInComment
    decide +kernel
  obtain ⟨hblocks, hclauses⟩ := hembodied (hindented hcomment)
  refine ⟨hok, hlisted, hblocks, himports (by decide +kernel), hitems (by decide +kernel), ?_⟩
  rw [hclauses]
  decide +kernel

/-- A comment that ends the source takes the place of a block, and an import from a module and a
`with` are read with nothing between their parentheses. -/
theorem not_lists_ofSource :
    (let p := ofSource (utf8 "if a:\n # c") 64
     p.ok = true ∧ ¬ Every.module Node.Embodied p.module) ∧
    (let p := ofSource (utf8 "from a import ()\n") 64
     p.ok = true ∧ ¬ Every.module Node.ImportsNames p.module) ∧
    (let p := ofSource (utf8 "with (): pass\n") 64
     p.ok = true ∧ ¬ Every.module Node.HasItems p.module) := by
  have hfirst {P : Node → Prop} {m : Module} {st : Stmt} (hbody : m.body = [st])
      (h : Every.module P m) : P (.stmt st) := by
    have hst := Every.stmts_iff.mp h.2 st (by rw [hbody]; exact List.mem_singleton_self st)
    rw [Every.stmt.eq_def] at hst
    exact hst.1
  refine ⟨?_, ?_, ?_⟩
  all_goals
    intro p
    refine ⟨by decide +kernel, fun h => ?_⟩
  · obtain ⟨x, test, hbody⟩ : ∃ x test, p.module.body = [.branch x test [] []] := ⟨_, _, rfl⟩
    exact hfirst hbody h rfl
  · obtain ⟨x, source, level, hbody⟩ : ∃ x source level,
        p.module.body = [.importFrom x source [] level] := ⟨_, _, _, rfl⟩
    exact hfirst hbody h rfl
  · obtain ⟨x, isAsync, body, hbody⟩ : ∃ x isAsync body,
        p.module.body = [.withBlock x isAsync [] body] := ⟨_, _, _, rfl⟩
    exact hfirst hbody h rfl

end CloneScout.Parsed
