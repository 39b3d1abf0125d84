import CloneScout.Proofs.Grammar.Halts
import CloneScout.Proofs.Grammar.Ranges.Expr
import CloneScout.Proofs.Grammar.Stmt

/-!
# Ranges of the statements that are read

A simple statement ends with the token read last, and a compound one with the last simple statement
in it. So each rule finds its statements behind those found before, if the rules that it comes back
to do.
-/

namespace CloneScout.Grammar

-- The rules are long, and so are the instances that they are steady.
set_option synthInstance.maxSize 2000

variable {s s₀ : State} {ss : List Stmt} {r : Rules} [r.Keeps]

/-! ## Simple statements -/

instance keeps_simpleTarget (code : Diagnostic.Code) (e : Expr) : Keeps (simpleTarget code e) := by
  unfold simpleTarget; exact .auto

instance closes_annotated (first : Token) (target : Expr) :
    Closes first (annotated r first target) := by
  unfold annotated; exact .auto

instance closes_augmented (first : Token) (target : Expr) (op : BinaryOp) :
    Closes first (augmented r first target op) := by
  unfold augmented; exact .auto

instance closes_assignment (first : Token) (target : Expr) :
    Closes first (assignment r first target) := by
  unfold assignment; exact .auto

theorem simple_expressionStatement : Simple (expressionStatement r) := by
  unfold expressionStatement
  exact .peek fun _ => .auto

theorem simple_returnStatement : Simple (returnStatement r) := by
  unfold returnStatement
  exact .bump fun _ => .auto

theorem simple_raiseStatement : Simple (raiseStatement r) := by
  unfold raiseStatement
  exact .bump fun _ => .auto

theorem simple_deleteStatement : Simple (deleteStatement r) := by
  unfold deleteStatement
  exact .bump fun _ => .auto

theorem simple_assertStatement : Simple (assertStatement r) := by
  unfold assertStatement
  exact .bump fun _ => .auto

instance keeps_nameList : Keeps nameList := by unfold nameList; exact .auto

instance keeps_moduleName : Keeps moduleName := by unfold moduleName; exact .auto

instance keeps_asName : Keeps asName := by unfold asName; exact .auto

theorem simple_importStatement : Simple importStatement := by
  unfold importStatement
  exact .bump fun _ => .auto

instance keeps_importLevel : Keeps importLevel := by unfold importLevel; exact .auto

instance keeps_importedNames (inParens : Bool) : Keeps (importedNames inParens) := by
  unfold importedNames; exact .auto

instance keeps_importedList : Keeps importedList := by unfold importedList; exact .auto

theorem simple_importFromStatement : Simple importFromStatement := by
  unfold importFromStatement
  exact .bump fun _ => .auto

theorem simple_wordStatement {make : Extent → Stmt}
    (h : ∀ x, (make x).isCompound = false ∧ (make x).extent = x) : Simple (wordStatement make) := by
  unfold wordStatement
  exact .bump fun _ => .done h

theorem simple_simpleStatement : Simple (simpleStatement r) := by
  unfold simpleStatement
  refine .kind fun k => ?_
  split
  · exact simple_wordStatement fun _ => ⟨rfl, rfl⟩
  · exact simple_wordStatement fun _ => ⟨rfl, rfl⟩
  · exact simple_wordStatement fun _ => ⟨rfl, rfl⟩
  · exact simple_returnStatement
  · exact simple_raiseStatement
  · exact simple_deleteStatement
  · exact simple_assertStatement
  · exact .bump fun _ => .auto
  · exact .bump fun _ => .auto
  · exact simple_importStatement
  · exact simple_importFromStatement
  · exact simple_expressionStatement

/-! ## Lines of simple statements -/

theorem Gives.eaten (k : Token.Kind) : Gives s (Grammar.eat k) fun b s' =>
    (b = true ↔ s.cursor.kind = k) ∧
      s' = if b = true then { s with cursor := s.cursor.bump } else s := by
  refine ⟨fun _ _ => ?_⟩
  rw [run_eat]
  split
  · next hkind => exact ⟨⟨fun _ => hkind, fun _ => rfl⟩, rfl⟩
  · next hkind => exact ⟨⟨nofun, fun h => absurd h hkind⟩, rfl⟩

namespace Found

variable {s' : State}

/-- Behind the next token everything that ends with it has come to an end. -/
theorem behind (h : Found s ss s' s'.cursor.peek.endLine) :
    Found s ss { s' with cursor := s'.cursor.bump } s'.cursor.bump.peek.line := by
  have hline : s'.cursor.peek.endLine ≤ s'.cursor.bump.peek.line := h.lined.endLine_bump
  exact {
    h with
    onward := h.onward.trans (onward_bump _)
    lined := h.lined.of_tokens (tokens_bump _)
    line := Nat.le_refl _
    lastLine := ⟨h.lastLine.1, Nat.le_trans h.lastLine.2 hline⟩
    bounds := fun c hc => ⟨(h.bounds c hc).1, Nat.le_trans (h.bounds c hc).2 hline⟩ }

theorem atEnd (h : Found s ss s' s'.cursor.peek.endLine) (hkind : s'.cursor.kind = .eof) :
    Found s ss s' s'.line := by
  have hline : s'.cursor.peek.endLine = s'.line := h.lined.eof hkind
  rwa [hline] at h

theorem upTo (h : Found s ss s' s'.line) : Found s ss s' s'.cursor.peek.endLine := by
  have hline : s'.line ≤ s'.cursor.peek.endLine := (h.lined.range _).2
  exact {
    h with
    line := hline
    lastLine := ⟨h.lastLine.1, Nat.le_trans h.lastLine.2 hline⟩
    bounds := fun c hc => ⟨(h.bounds c hc).1, Nat.le_trans (h.bounds c hc).2 hline⟩ }

end Found

variable [r.Steady]

/-- Behind a semicolon the statements end in front of the next token, else with it. -/
theorem gives_semicolons (hs : s.Placed) : Gives s (semicolons r) fun found s' =>
    Found s found.1 s' s'.cursor.peek.endLine ∧ found.1 ≠ [] ∧ found.2 = .clean := by
  unfold semicolons
  refine .loop (I := fun found s' => Found s found.1 s' s'.line ∧ found.1 ≠ [] ∧ found.2 = .clean)
    (fun ⟨found, _⟩ s₁ h => ?_) fun _ s₁ ⟨h, hrest⟩ => ⟨h.upTo.stall, hrest⟩
  have hfound : Found s found s₁ s₁.line := by
    rcases h with ⟨hstart, rfl⟩ | h
    · cases hstart
      exact hs.found
    · exact h.1
  refine .bind .isAborted fun aborted s₂ haborted => ?_
  obtain ⟨rfl, rfl⟩ := haborted
  rw [if_neg (by simp)]
  refine .bind .get fun before s₃ hget => ?_
  obtain ⟨rfl, rfl⟩ := hget
  refine .bind (simple_simpleStatement.gives hfound.placed) fun st s₄ ⟨hst, herrors⟩ => ?_
  have hadded := hfound.trans hst
  refine .bind .get fun after s₅ hget => ?_
  obtain ⟨rfl, rfl⟩ := hget
  -- Where nothing is reported no fault is counted, so the line does not end as faulty.
  rw [if_neg (by simpa using herrors)]
  refine .bind (.eaten .semicolon) fun semicolon s₆ hsemicolon => ?_
  cases semicolon with
  | true =>
    obtain ⟨-, rfl⟩ := hsemicolon
    -- The next statement starts behind the semicolon, if there is one.
    have hbehind := hadded.behind
    refine .bind (.kind 0) fun k s₇ hk => .bind (.kind 0) fun k' s₈ hk' => .pure ?_
    obtain ⟨rfl, -⟩ := hk
    obtain ⟨rfl, -⟩ := hk'
    cases !(k = .newline || k' = .eof) with
    | true => exact ⟨hbehind, by simp, rfl⟩
    | false => exact ⟨Found.upTo hbehind, by simp, rfl⟩
  | false =>
    obtain ⟨-, rfl⟩ := hsemicolon
    exact .pure ⟨hadded, by simp, rfl⟩

theorem fills_simpleLine : Fills (fun found => found) (simpleLine r) := by
  intro s hs
  unfold simpleLine
  refine .bind (gives_semicolons hs) fun ⟨found, lineEnd⟩ s₁ ⟨h, hfull, hend⟩ => ?_
  dsimp only at h hfull hend ⊢
  rw [hend]
  refine .bind (.eaten .newline) fun newline s₂ hnewline => ?_
  cases newline with
  | true =>
    obtain ⟨-, rfl⟩ := hnewline
    exact .pure ⟨h.behind, fun _ => hfull⟩
  | false =>
    obtain ⟨-, rfl⟩ := hnewline
    refine .bind (.at? .eof) fun eof s₃ heof => .bind .isAborted fun aborted s₄ haborted => ?_
    obtain ⟨rfl, heof⟩ := heof
    obtain ⟨rfl, rfl⟩ := haborted
    rw [Bool.or_false]
    split
    -- The last token has one line, so what may reach it ends in front of it.
    · next hkind => exact .pure ⟨h.atEnd (heof.mp hkind), fun _ => hfull⟩
    · exact .skip fun t s₅ => .fault

/-! ## Blocks -/

/-- The rules to come back to find the statements that they give. -/
structure Rules.Placing (r : Rules) : Prop where
  statement : Fills (fun found => found) r.statement
  branch : Places (fun st => [st]) r.branch

/-- A part at the end of a rule that has found nothing before. -/
theorem Gives.after {α : Type} {g : α → List Stmt} {x : Parser α} (h : Found s₀ [] s s.line)
    (hx : Gives s x fun a s' => Found s (g a) s' s'.line ∧ (s.cursor.Solid → g a ≠ [])) :
    Gives s x fun a s' => Found s₀ (g a) s' s'.line ∧ (s₀.cursor.Solid → g a ≠ []) :=
  hx.mono fun _ _ h' => ⟨h.trans h'.1, fun hsolid => h'.2 (hsolid.of_tokens h.onward.tokens)⟩

theorem Fills.after {α : Type} {g : α → List Stmt} {x : Parser α} (hx : Fills g x)
    (h : Found s₀ [] s s.line) :
    Gives s x fun a s' => Found s₀ (g a) s' s'.line ∧ (s₀.cursor.Solid → g a ≠ []) :=
  .after h (hx s h.placed)

/-- Something stands behind the indentation of a block. -/
theorem Gives.indented : Gives s (Grammar.eat .indent) fun b s' =>
    b = true → s.cursor.Solid → s'.cursor.Solid ∧ s'.cursor.kind.isLayout = false := by
  refine (Gives.eaten .indent).mono fun b s' ⟨hkind, hs'⟩ hb hsolid => ?_
  rw [if_pos hb] at hs'
  subst hs'
  refine ⟨hsolid.of_tokens (tokens_bump _), ?_⟩
  show (s.cursor.bump.peek 0).kind.isLayout = false
  rw [peek_bump]
  exact hsolid s.cursor.pos (hkind.mp hb)

/-- A round of a loop over the lines of a block. Unless the next token is layout, the round goes on to
the line. -/
theorem gives_line {α : Type} {g : α → List Stmt} {line : Parser (List α × Bool)} [Steady line]
    (hs : s.Placed) (hline : ∀ s₁, Found s [] s₁ s₁.line → Gives s₁ line fun r s' =>
      Found s (r.1.flatMap g) s' s'.line ∧ (s.cursor.Solid → r.1.flatMap g ≠ [])) :
    Gives s (do
      if (← isAborted) || (← at? .dedent) || (← at? .eof) then return ([], false)
      else if ← eat .newline then return ([], true)
      else line) fun r s' => Found s (r.1.flatMap g) s' s'.line ∧
        (s.cursor.Solid ∧ s.cursor.kind.isLayout = false → r.1.flatMap g ≠ []) := by
  refine .seq .isAborted fun aborted s₁ haborted => ?_
  refine .seq (.at? .dedent) fun dedent s₂ hdedent => .seq (.at? .eof) fun eof s₃ heof => ?_
  obtain ⟨rfl, rfl⟩ := haborted
  obtain ⟨rfl, hdedent⟩ := hdedent
  obtain ⟨rfl, heof⟩ := heof
  have hlayout {k : Token.Kind} (hkind : s₃.cursor.kind = k) (hk : k.isLayout = true)
      (hfirst : s₃.cursor.Solid ∧ s₃.cursor.kind.isLayout = false) : False := by
    rw [hkind, hk] at hfirst
    exact nomatch hfirst.2
  split
  · next hstop =>
    rw [Bool.false_or, Bool.or_eq_true, hdedent, heof] at hstop
    exact .pure ⟨hs.found, fun hfirst _ => hstop.elim (hlayout · rfl hfirst) (hlayout · rfl hfirst)⟩
  · refine .along hs.found (.eat .newline) fun newline s₄ hnewline h => ?_
    split
    · next htrue => exact .pure ⟨h, fun hfirst _ => hlayout (hnewline.1.mp htrue) rfl hfirst⟩
    · exact (hline s₄ h).mono fun r s' h' => ⟨h'.1, fun hfirst => h'.2 hfirst.1⟩

omit [r.Keeps] in
theorem gives_blockBody (hr : r.Placing) (hs : s.Placed) : Gives s (blockBody r) fun found s' =>
    Found s found s' s'.line ∧
      (s.cursor.Solid ∧ s.cursor.kind.isLayout = false → found ≠ []) := by
  unfold blockBody
  refine (Gives.collect (g := fun st => [st])
    (N := fun s => s.cursor.Solid ∧ s.cursor.kind.isLayout = false) (fun s hs => ?_) hs).mono
    fun found s' h => by simpa using h
  refine gives_line hs fun s₁ h => ?_
  refine .onward h fun before s₂ h => .seq (hr.statement.after h) fun found s₃ ⟨h, hfound⟩ => ?_
  refine .onward h fun after s₄ h => .onward h fun eof s₅ h => .onward h fun dedent s₆ h => ?_
  split
  -- A round that takes no token ends with a report.
  · exact .seq (Q := fun _ _ => False) .unexpected fun _ _ h => h.elim
  · exact .pure (by simpa using ⟨h, hfound⟩)

theorem fills_block (hr : r.Placing) : Fills (fun found => found) (block r) := by
  intro s hs
  unfold block
  refine .seq .isAborted fun aborted s₁ haborted => ?_
  obtain ⟨rfl, rfl⟩ := haborted
  rw [if_neg (by simp)]
  refine .onward hs.found fun newline s₂ h₂ => ?_
  split
  · refine .along h₂ .indented fun indent s₃ hindent h₃ => ?_
    split
    · next htrue =>
      refine .seq (gives_blockBody hr h₃.placed) fun body s₄ ⟨h₄, hbody⟩ => ?_
      refine .onward (h₃.trans h₄) fun _ s₅ h₅ => .pure ⟨h₅, fun hsolid => ?_⟩
      exact hbody (hindent htrue (hsolid.of_tokens h₂.onward.tokens))
    · exact .past fun t s₄ => .fault inferInstance
  · exact fills_simpleLine.after h₂

/-- The statements of a block behind a colon. -/
theorem fills_suite (hr : r.Placing) : Fills (fun found => found) (suite r) := by
  intro s hs
  unfold suite
  exact .expected hs.found fun s₁ h => (fills_block hr).after h

theorem places_elseSuite (hr : r.Placing) : Places (fun found => found) (elseSuite r) := by
  intro s hs
  unfold elseSuite
  refine .onward hs.found fun isElse s₁ h => ?_
  split
  · exact ((fills_suite hr).after h).mono fun _ _ h => h.1
  · exact .pure h

/-! ## Branches and loops -/

theorem places_branchStatement (hr : r.Placing) : Places (fun st => [st]) (branchStatement r) := by
  intro s hs
  unfold branchStatement
  dsimp only
  refine .along hs.found .bump fun first s₁ hfirst h => .onward h fun test s₂ h => ?_
  refine .filling h (fills_suite hr) fun body s₃ h hbody => .onward h fun isElif s₄ h => ?_
  have hclose {orelse : List Stmt} {s₅ : State} (h : Found s (body ++ orelse) s₅ s₅.line) :
      Gives s₅ (do return Stmt.branch (← closeCompound first) test body orelse)
        fun st s' => Found s [st] s' s'.line :=
    .compound h hfirst.1 (by simp_all) (by simp [Stmt.inner, Stmt.lists]) fun _ => ⟨rfl, rfl⟩
  split
  · exact .placing h hr.branch fun branch s₅ h => hclose h
  · exact .placing h (places_elseSuite hr) fun orelse s₅ h => hclose h

theorem places_whileStatement (hr : r.Placing) : Places (fun st => [st]) (whileStatement r) := by
  intro s hs
  unfold whileStatement
  refine .along hs.found .bump fun first s₁ hfirst h => .onward h fun test s₂ h => ?_
  refine .filling h (fills_suite hr) fun body s₃ h hbody => ?_
  refine .placing h (places_elseSuite hr) fun orelse s₄ h => ?_
  exact .compound h hfirst.1 (by simp_all) (by simp [Stmt.inner, Stmt.lists]) fun _ => ⟨rfl, rfl⟩

/-- The loop starts with its `for`, or with the token in front of it. -/
theorem gives_forStatement (hr : r.Placing) {isAsync : Option Token} (h : Found s₀ [] s s.line)
    (hfirst : isAsync.getD s.cursor.peek = s₀.cursor.peek) :
    Gives s (forStatement r isAsync) fun st s' => Found s₀ [st] s' s'.line := by
  unfold forStatement
  dsimp only
  refine .along h .bump fun word s₁ hword h => .onward h fun target s₂ h => ?_
  refine .onward h fun target s₃ h => .expected h fun s₄ h => ?_
  rw [if_pos rfl]
  refine .onward h fun iter s₅ h => .filling h (fills_suite hr) fun body s₆ h hbody => ?_
  refine .placing h (places_elseSuite hr) fun orelse s₇ h => ?_
  exact .compound h (hword.1 ▸ hfirst) (by simp_all) (by simp [Stmt.inner, Stmt.lists])
    fun _ => ⟨rfl, rfl⟩

/-! ## Contexts and exceptions -/

instance keeps_withItem : Keeps (withItem r) := by unfold withItem; exact .auto

instance keeps_withItems : Keeps (withItems r) := by unfold withItems; exact .auto

theorem gives_withStatement (hr : r.Placing) {isAsync : Option Token} (h : Found s₀ [] s s.line)
    (hfirst : isAsync.getD s.cursor.peek = s₀.cursor.peek) :
    Gives s (withStatement r isAsync) fun st s' => Found s₀ [st] s' s'.line := by
  unfold withStatement
  refine .along h .bump fun word s₁ hword h => .onward h fun items s₂ h => ?_
  refine .filling h (fills_suite hr) fun body s₃ h hbody => ?_
  exact .compound h (hword.1 ▸ hfirst) hbody (by simp [Stmt.inner, Stmt.lists]) fun _ => ⟨rfl, rfl⟩

instance keeps_handlerType : Keeps (handlerType r) := by unfold handlerType; exact .auto

theorem places_handler (hr : r.Placing) : Places (fun h => h.1.body) (handler r) := by
  intro s hs
  unfold handler
  refine .onward hs.found fun _ s₁ h => .onward h fun isStar s₂ h => .onward h fun bare s₃ h => ?_
  split
  · exact .placing h (fills_suite hr).places fun body s₄ h => .pure h
  · refine .onward h fun type s₄ h => .onward h fun name s₅ h => ?_
    exact .placing h (fills_suite hr).places fun body s₆ h => .pure h

theorem places_tryStatement (hr : r.Placing) : Places (fun st => [st]) (tryStatement r) := by
  intro s hs
  unfold tryStatement
  dsimp only
  refine .along hs.found .bump fun first s₁ hfirst h₁ => ?_
  refine .filling h₁ (fills_suite hr) fun body s₂ h₂ hbody => ?_
  refine .seq (.collect (g := fun h => h.1.body) (N := fun _ => False) (fun s hs => ?_) h₂.placed)
    fun found s₃ h₃ => ?_
  · refine .onward hs.found fun aborted s₁ h => .onward h fun isExcept s₂ h => ?_
    split
    · exact .placing h (places_handler hr) fun h s₃ h' => .pure (by simpa using h')
    · exact .pure (by simpa using h)
  · have h := h₂.trans h₃.1
    have hclose {orelse final ss : List Stmt} {s' : State} (h : Found s ss s' s'.line)
        (hss : ss = body ++ found.flatMap (·.1.body) ++ orelse ++ final) : Gives s' (do
          let x ← closeCompound first
          return Stmt.tryBlock x (found.any (·.2)) body (found.map (·.1)) orelse final)
          fun st s' => Found s [st] s' s'.line :=
      .compound h hfirst.1 (by simp_all)
        (by simp [hss, Stmt.inner, Stmt.lists, List.flatMap, Function.comp_def]) fun _ => ⟨rfl, rfl⟩
    have hnone {s' : State} : Gives s' (pure []) fun (ss : List Stmt) _ => ss = [] := .pure rfl
    split
    -- Without a handler there is a `finally` or a report.
    · refine .along h hnone fun orelse s₄ horelse h => .onward h fun isFinally s₅ h => ?_
      split
      · exact .placing h (fills_suite hr).places fun final s₆ h => hclose h (by simp [horelse])
      · exact .past fun t s₆ => .fault inferInstance
    · refine .placing h (places_elseSuite hr) fun orelse s₄ h => .onward h fun isFinally s₅ h => ?_
      split
      · exact .placing h (fills_suite hr).places fun final s₆ h => hclose h rfl
      · exact .along h hnone fun final s₆ hfinal h => hclose h (by simp [hfinal])

/-! ## Matches -/

instance keeps_atMatch : Keeps atMatch := by unfold atMatch; exact .auto

instance keeps_matchSubject : Keeps (matchSubject r) := by unfold matchSubject; exact .auto

theorem fills_matchCase (hr : r.Placing) : Fills MatchCase.body (matchCase r) := by
  intro s hs
  unfold matchCase
  dsimp only
  refine .onward hs.found fun _ s₁ h => .onward h fun p s₂ h => .onward h fun isIf s₃ h => ?_
  split
  · refine .onward h fun guard s₄ h => ?_
    exact .filling h (fills_suite hr) fun body s₅ h hbody => .pure ⟨h, hbody⟩
  · refine .onward h fun guard s₄ h => ?_
    exact .filling h (fills_suite hr) fun body s₅ h hbody => .pure ⟨h, hbody⟩

theorem gives_matchCases (hr : r.Placing) (hs : s.Placed) : Gives s (matchCases r) fun cs s' =>
    Found s (cs.flatMap MatchCase.body) s' s'.line ∧
      (s.cursor.Solid ∧ s.cursor.kind.isLayout = false → cs.flatMap MatchCase.body ≠ []) := by
  unfold matchCases
  refine .collect (N := fun s => s.cursor.Solid ∧ s.cursor.kind.isLayout = false)
    (fun s hs => gives_line hs fun s₁ h => ?_) hs
  refine .onward h fun state s₂ h => ?_
  split
  · refine .filling h (fills_matchCase hr) fun c s₃ h hc => .pure ?_
    simpa using ⟨h, hc⟩
  · exact .past fun t s₃ => .fault inferInstance

theorem fills_matchBlock (hr : r.Placing) :
    Fills (List.flatMap MatchCase.body) (matchBlock r) := by
  intro s hs
  unfold matchBlock
  dsimp only
  refine .expected hs.found fun s₁ h₁ => ?_
  rw [if_pos rfl]
  refine .along h₁ .indented fun indent s₂ hindent h₂ => ?_
  split
  · next htrue =>
    refine .seq (gives_matchCases hr h₂.placed) fun cs s₃ ⟨h₃, hcs⟩ => ?_
    refine .onward (h₂.trans h₃) fun _ s₄ h₄ => .pure ⟨h₄, fun hsolid => ?_⟩
    exact hcs (hindent htrue (hsolid.of_tokens h₁.onward.tokens))
  · exact .past fun t s₃ => .fault inferInstance

theorem places_matchStatement (hr : r.Placing) : Places (fun st => [st]) (matchStatement r) := by
  intro s hs
  unfold matchStatement
  dsimp only
  refine .along hs.found .bump fun first s₁ hfirst h => .onward h fun subject s₂ h => ?_
  refine .expected h fun s₃ h => ?_
  rw [if_pos rfl]
  refine .filling h (fills_matchBlock hr) fun cs s₄ h hcs => ?_
  exact .compound h hfirst.1 hcs (by simp [Stmt.inner, Stmt.lists, List.flatMap])
    fun _ => ⟨rfl, rfl⟩

/-! ## Functions and classes -/

instance keeps_definedName : Keeps definedName := by unfold definedName; exact .auto

/-- The function starts with its `def`, or with the token in front of it. -/
theorem gives_functionStatement (hr : r.Placing) {isAsync : Option Token} (decorators : List Expr)
    (h : Found s₀ [] s s.line) (hfirst : isAsync.getD s.cursor.peek = s₀.cursor.peek) :
    Gives s (functionStatement r isAsync decorators) fun st s' => Found s₀ [st] s' s'.line := by
  unfold functionStatement
  dsimp only
  refine .along h .bump fun word s₁ hword h => .onward h fun name s₂ h => ?_
  refine .expected h fun s₃ h => ?_
  rw [if_pos rfl]
  refine .onward h fun params s₄ h => .expected h fun s₅ h => ?_
  rw [if_pos rfl, pure_bind]
  refine .onward h fun arrow s₆ h => ?_
  have hclose {returns : Option Expr} {s' : State} (h : Found s₀ [] s' s'.line) : Gives s' (do
      let body ← suite r
      return Stmt.function (← closeCompound (isAsync.getD word)) isAsync.isSome name params body
        decorators returns) fun st s' => Found s₀ [st] s' s'.line :=
    .filling h (fills_suite hr) fun body s₇ h hbody =>
      .compound h (hword.1 ▸ hfirst) hbody (by simp [Stmt.inner, Stmt.lists]) fun _ => ⟨rfl, rfl⟩
  split
  · exact .onward h fun returns s₇ h => hclose h
  · exact .onward h fun returns s₇ h => hclose h

theorem places_classStatement (hr : r.Placing) (decorators : List Expr) :
    Places (fun st => [st]) (classStatement r decorators) := by
  intro s hs
  unfold classStatement
  dsimp only
  refine .along hs.found .bump fun first s₁ hfirst h => .onward h fun name s₂ h => ?_
  have hclose {bases : List Expr} {keywords : List Keyword} {s' : State}
      (h : Found s [] s' s'.line) : Gives s' (do
        let body ← suite r
        return Stmt.classDef (← closeCompound first) name bases keywords body decorators)
        fun st s' => Found s [st] s' s'.line :=
    .filling h (fills_suite hr) fun body s₇ h hbody =>
      .compound h hfirst.1 hbody (by simp [Stmt.inner, Stmt.lists]) fun _ => ⟨rfl, rfl⟩
  refine .onward h fun opened s₃ h => ?_
  split
  · refine .onward h fun found s₄ h => .expected h fun s₅ h => ?_
    rw [if_pos rfl, pure_bind]
    exact hclose h
  · rw [pure_bind]
    exact hclose h

/-- One statement as a list. -/
theorem Gives.single {x : Parser Stmt} [Steady x]
    (h : Gives s x fun st s' => Found s₀ [st] s' s'.line) :
    Gives s (do return [← x]) fun found s' => Found s₀ found s' s'.line ∧
      (s₀.cursor.Solid → found ≠ []) :=
  .seq h fun _ _ h => .pure ⟨h, by simp⟩

theorem fills_decoratedStatement (hr : r.Placing) :
    Fills (fun found => found) (decoratedStatement r) := by
  intro s hs
  unfold decoratedStatement
  refine .onward hs.found fun decorators s₁ h => .seq (.peek 0) fun t s₂ ht => ?_
  obtain ⟨rfl, rfl, -⟩ := ht
  split
  · exact .after h (.single (gives_functionStatement hr decorators h.placed.found rfl))
  · split
    · exact .after h (.single (places_classStatement hr decorators s₂ h.placed))
    · refine .seq (.kind 1) fun next s₃ hnext => ?_
      obtain ⟨rfl, -⟩ := hnext
      split
      · refine .after h (.onward h.placed.found fun _ s₄ h => ?_)
        exact .single (gives_functionStatement hr decorators h rfl)
      · exact .fault

theorem fills_asyncStatement (hr : r.Placing) :
    Fills (fun found => found) (asyncStatement r) := by
  intro s hs
  unfold asyncStatement
  refine .bind (.peek 0) fun t s₁ ht => .bind (.kind 1) fun next s₂ hnext => ?_
  obtain ⟨rfl, rfl, -⟩ := ht
  obtain ⟨rfl, -⟩ := hnext
  split
  · exact .onward hs.found fun _ s₃ h => .single (gives_functionStatement hr [] h rfl)
  · exact .onward hs.found fun _ s₃ h => .single (gives_forStatement hr h rfl)
  · exact .onward hs.found fun _ s₃ h => .single (gives_withStatement hr h rfl)
  · exact .fault

omit [r.Keeps] in
theorem fills_strayBlock : Fills (fun found => found) (strayBlock r) :=
  fun _ _ => .past fun _ _ => .fault inferInstance

/-- A statement, or a line of them, stands where it was read. -/
theorem fills_statement (hr : r.Placing) : Fills (fun found => found) (statement r) := by
  intro s hs
  unfold statement
  refine .bind .isAborted fun aborted s₁ haborted => ?_
  obtain ⟨rfl, rfl⟩ := haborted
  rw [if_neg (by simp)]
  refine .bind (.kind 0) fun k s₂ hk => ?_
  obtain ⟨rfl, -⟩ := hk
  split
  · exact fills_strayBlock s₂ hs
  · exact .single (places_branchStatement hr s₂ hs)
  · exact .single (places_whileStatement hr s₂ hs)
  · exact .single (gives_forStatement hr hs.found rfl)
  · exact .single (gives_withStatement hr hs.found rfl)
  · exact .single (places_tryStatement hr s₂ hs)
  · exact .single (gives_functionStatement hr [] hs.found rfl)
  · exact .single (places_classStatement hr [] s₂ hs)
  · exact fills_decoratedStatement hr s₂ hs
  · exact fills_asyncStatement hr s₂ hs
  · refine .onward hs.found fun isMatch s₃ h => ?_
    split
    · exact .after h (.single (places_matchStatement hr s₃ h.placed))
    · exact fills_simpleLine.after h

end CloneScout.Grammar
