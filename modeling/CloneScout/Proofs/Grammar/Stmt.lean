import CloneScout.Grammar.Stmt
import CloneScout.Proofs.Grammar.Pattern

/-!
# Statements are lawful

Each rule of statements is steady and reads a lawful tree if the rules that it comes back to do.
-/

namespace CloneScout

namespace Text

theorem IsWord.nil : IsWord [] := ⟨.nil, by simp⟩

theorem IsPath.append {s t : Text} (hs : IsPath s) (ht : IsPath t) : IsPath (s ++ t) :=
  ⟨hs.1.append ht.1, List.forall_mem_append.mpr ⟨hs.2, ht.2⟩⟩

theorem IsPath.dot : IsPath [ascii '.'] := ⟨.ascii (by decide), by simp⟩

theorem IsPath.flatten {ts : List Text} (h : ∀ t ∈ ts, IsPath t) : IsPath ts.flatten := by
  induction ts with
  | nil => exact IsWord.nil.isPath
  | cons t ts ih =>
    obtain ⟨ht, hts⟩ := List.forall_mem_cons.mp h
    exact ht.append (ih hts)

end Text

namespace Grammar

variable {r : Rules} [r.Steady]

/-! ## Assignments -/

theorem isSimple_mark {ctx : Context} {e : Expr} (h : Target.isSimple e = true) :
    Target.isSimple (Target.mark ctx e) = true := by
  cases e <;> first | rfl | exact absurd h (by simp [Target.isSimple])

instance steady_simpleTarget (code : Diagnostic.Code) (e : Expr) :
    Steady (simpleTarget code e) := by
  unfold simpleTarget; exact .auto

theorem finds_simpleTarget {code : Diagnostic.Code} {e : Expr} (h : e.IsLawful) :
    Finds (simpleTarget code e) fun e => e.IsLawful ∧ Target.isSimple e = true := by
  intro s
  unfold simpleTarget
  dsimp only
  split
  · next hsimple => exact .pure ⟨lawful_mark _ h, isSimple_mark hsimple⟩
  · exact .fault

instance steady_annotated (first : Token) (target : Expr) : Steady (annotated r first target) := by
  unfold annotated; exact .auto

theorem finds_annotated (hr : r.Lawful) {first : Token} {target : Expr} (h : target.IsLawful) :
    Finds (annotated r first target) Stmt.IsLawful := by
  intro s
  unfold annotated
  dsimp only
  refine .skip fun _ s₁ => (finds_simpleTarget h).bind fun target htarget s₂ => ?_
  refine hr.expression.bind fun hint hhint s₃ => .skip fun assign s₄ => ?_
  split
  · refine (finds_some (finds_yieldOrStar hr)).bind fun value hvalue s₅ => ?_
    exact .skip fun x s₆ => .pure ⟨trivial, htarget.1, hhint, hvalue⟩
  · refine finds_none.bind fun value hvalue s₅ => .skip fun x s₆ => .pure ?_
    exact ⟨trivial, htarget.1, hhint, hvalue⟩

instance steady_augmented (first : Token) (target : Expr) (op : BinaryOp) :
    Steady (augmented r first target op) := by
  unfold augmented; exact .auto

theorem finds_augmented (hr : r.Lawful) {first : Token} {target : Expr} {op : BinaryOp}
    (h : target.IsLawful) : Finds (augmented r first target op) Stmt.IsLawful := by
  intro s
  unfold augmented
  refine .skip fun _ s₁ => (finds_simpleTarget h).bind fun target htarget s₂ => ?_
  refine (finds_yieldOrStar hr).bind fun value hvalue s₃ => .skip fun x s₄ => .pure ?_
  exact ⟨htarget.2, htarget.1, hvalue⟩

instance steady_assignment (first : Token) (target : Expr) :
    Steady (assignment r first target) := by
  unfold assignment; exact .auto

theorem finds_assignment (hr : r.Lawful) {first : Token} {target : Expr} (h : target.IsLawful) :
    Finds (assignment r first target) Stmt.IsLawful := by
  intro s
  unfold assignment
  refine (Finds.collectAfter (by simpa using h) (finds_yieldOrStar hr)).bind fun all hall s₁ => ?_
  refine Finds.bind (Q := fun es => ∀ e ∈ es, Expr.IsLawful e) ?_ fun targets htargets s₂ => ?_
  · exact Finds.mapM fun e he => finds_markTarget (hall e (List.dropLast_subset _ he))
  · refine .skip fun x s₃ => .pure ⟨trivial, Every.exprs_iff.mpr htargets, ?_⟩
    cases hlast : all.getLast? with
    | none => exact h
    | some e => exact hall e (List.mem_of_getLast? hlast)

instance steady_expressionStatement : Steady (expressionStatement r) := by
  unfold expressionStatement; exact .auto

theorem finds_expressionStatement (hr : r.Lawful) :
    Finds (expressionStatement r) Stmt.IsLawful := by
  intro s
  unfold expressionStatement
  refine .skip fun first s₁ => (finds_yieldOrStar hr).bind fun e he s₂ => .skip fun k s₃ => ?_
  split
  · exact finds_augmented hr he s₃
  · split
    · exact finds_annotated hr he s₃
    · split
      · exact finds_assignment hr he s₃
      · exact .skip fun x s₄ => .pure ⟨trivial, he⟩

/-! ## Other simple statements -/

instance steady_returnStatement : Steady (returnStatement r) := by
  unfold returnStatement; exact .auto

theorem finds_returnStatement (hr : r.Lawful) : Finds (returnStatement r) Stmt.IsLawful := by
  intro s
  unfold returnStatement
  dsimp only
  refine .skip fun first s₁ => .skip fun k s₂ => ?_
  split
  · refine (finds_some (finds_starExpressions hr)).bind fun value hvalue s₃ => ?_
    exact .skip fun x s₄ => .pure ⟨trivial, hvalue⟩
  · exact finds_none.bind fun value hvalue s₃ => .skip fun x s₄ => .pure ⟨trivial, hvalue⟩

instance steady_raiseStatement : Steady (raiseStatement r) := by unfold raiseStatement; exact .auto

theorem finds_raiseStatement (hr : r.Lawful) : Finds (raiseStatement r) Stmt.IsLawful := by
  intro s
  unfold raiseStatement
  dsimp only
  refine .skip fun first s₁ => .skip fun k s₂ => ?_
  split
  · refine hr.expression.bind fun exc hexc s₃ => .skip fun isFrom s₄ => ?_
    split
    · refine (finds_some hr.expression).bind fun cause hcause s₅ => ?_
      exact .skip fun x s₆ => .pure ⟨trivial, hexc, hcause⟩
    · refine finds_none.bind fun cause hcause s₅ => .skip fun x s₆ => .pure ?_
      exact ⟨trivial, hexc, hcause⟩
  · exact .skip fun x s₃ => .pure ⟨trivial, trivial, trivial⟩

instance steady_deleteStatement : Steady (deleteStatement r) := by
  unfold deleteStatement; exact .auto

theorem finds_deleteStatement (hr : r.Lawful) : Finds (deleteStatement r) Stmt.IsLawful := by
  intro s
  unfold deleteStatement
  dsimp only
  refine .skip fun first s₁ => ?_
  refine Finds.bind (Q := fun es => ∀ e ∈ es, Expr.IsLawful e) ?_ fun targets htargets s₂ => ?_
  · refine Finds.collect (by simp) fun s => .skip fun k s₁ => ?_
    split
    · refine (hr.arithmetic 0).bind fun e he s₂ => (finds_markTarget he).bind fun e he s₃ => ?_
      exact .skip fun comma s₄ => .pure (by simpa using he)
    · exact .pure (by simp)
  · have hdelete (s : State) : Gives s (do return .delete (← closeStatement first) targets)
        fun s _ => Stmt.IsLawful s :=
      .skip fun x _ => .pure ⟨trivial, Every.exprs_iff.mpr htargets⟩
    split
    · exact .skip fun _ s₃ => hdelete s₃
    · exact hdelete s₂

instance steady_assertStatement : Steady (assertStatement r) := by
  unfold assertStatement; exact .auto

theorem finds_assertStatement (hr : r.Lawful) : Finds (assertStatement r) Stmt.IsLawful := by
  intro s
  unfold assertStatement
  dsimp only
  refine .skip fun first s₁ => hr.expression.bind fun test htest s₂ => .skip fun comma s₃ => ?_
  split
  · refine (finds_some hr.expression).bind fun message hmessage s₄ => .skip fun x s₅ => .pure ?_
    exact ⟨trivial, htest, hmessage⟩
  · refine finds_none.bind fun message hmessage s₄ => .skip fun x s₅ => .pure ?_
    exact ⟨trivial, htest, hmessage⟩

/-! ## Names and imports -/

instance steady_nameList : Steady nameList := by unfold nameList; exact .auto

theorem finds_nameList : Finds nameList fun names => ∀ id ∈ names, Text.IsWord id := by
  refine Finds.collect (by simp) fun s => ?_
  exact .identifier fun t ht s₁ => .skip fun comma s₂ => .pure (by simpa using ht)

instance steady_moduleName : Steady moduleName := by unfold moduleName; exact .auto

theorem finds_moduleName : Finds moduleName Text.IsPath := by
  intro s
  unfold moduleName
  refine .bind (.at? .ident) fun b s₁ hb => ?_
  obtain ⟨rfl, hb⟩ := hb
  split
  · next htrue =>
    refine .bind (.bump_of_kind (hb.mp htrue)) fun first s₂ hfirst => ?_
    refine Finds.bind (Q := fun ts => ∀ t ∈ ts, Text.IsPath t) ?_ fun rest hrest s₃ => .pure ?_
    · refine Finds.collect (by simp) fun s => ?_
      refine .bind (.kind 0) fun k s₁ hk => .bind (.kind 1) fun next s₂ hnext => ?_
      obtain ⟨rfl, -⟩ := hk
      obtain ⟨rfl, rfl⟩ := hnext
      split
      · next hcond =>
        rw [Bool.and_eq_true, decide_eq_true_eq, decide_eq_true_eq] at hcond
        refine .bind .bump fun dot s₃ hdot => ?_
        have hident : s₃.cursor.kind = .ident := by
          rw [Cursor.kind, hdot.2.2 0]
          exact hcond.2
        refine .bind (.bump_of_kind hident) fun t s₄ ht => .pure ?_
        have hpath := Text.IsPath.dot.append (ht.2.ident ht.1).isPath
        simpa using hpath
      · exact .pure (by simp)
    · exact (hfirst.2.ident hfirst.1).isPath.append (Text.IsPath.flatten hrest)
  · exact .pure Text.IsWord.nil.isPath

instance steady_asName : Steady asName := by unfold asName; exact .auto

theorem finds_asName : Finds asName fun id => ∀ t ∈ id, Text.IsWord t := by
  intro s
  unfold asName
  refine .skip fun isAs s₁ => ?_
  split
  · exact .identifier fun t ht s₂ => .pure (by simpa using ht)
  · exact .pure (by simp)

instance steady_importStatement : Steady importStatement := by unfold importStatement; exact .auto

theorem finds_importStatement : Finds importStatement Stmt.IsLawful := by
  intro s
  unfold importStatement
  refine .skip fun first s₁ => ?_
  refine Finds.bind (Q := fun names => ∀ a ∈ names, a.Lawful) ?_ fun names hnames s₂ => ?_
  · refine Finds.collect (by simp) fun s => .skip fun t s₁ => ?_
    refine finds_moduleName.bind fun name hname s₂ => ?_
    split
    · exact .fault
    · refine finds_asName.bind fun renamed hrenamed s₃ => .skip fun comma s₄ => .pure ?_
      have halias : Alias.Lawful ⟨name, renamed⟩ := ⟨hname, hrenamed⟩
      simpa using halias
  · exact .skip fun x s₃ => .pure ⟨hnames, trivial⟩

instance steady_importLevel : Steady importLevel := by unfold importLevel; exact .auto

instance steady_importedNames (inParens : Bool) : Steady (importedNames inParens) := by
  unfold importedNames; exact .auto

theorem finds_importedNames (inParens : Bool) :
    Finds (importedNames inParens) fun names => ∀ a ∈ names, a.Lawful := by
  refine Finds.collect (by simp) fun s => ?_
  refine .bind (.peek 0) fun t s₁ ht => ?_
  obtain ⟨rfl, rfl, ht⟩ := ht
  split
  · exact .pure (by simp)
  · refine .bind (.expect .ident) fun b s₂ hb => ?_
    rw [if_pos hb.1]
    refine finds_asName.bind fun renamed hrenamed s₃ => .skip fun comma s₄ => .pure ?_
    have halias : Alias.Lawful ⟨s₁.cursor.peek.lexeme, renamed⟩ :=
      ⟨(ht.ident hb.2).isPath, hrenamed⟩
    simpa using halias

theorem isPath_star : Text.IsPath Token.Kind.star.text :=
  ⟨.of_ascii (by decide), fun b hb => .inr (.inr (by
    have hall : ∀ b ∈ Token.Kind.star.text, b = ascii '*' := by decide
    exact hall b hb))⟩

instance steady_importedList : Steady importedList := by unfold importedList; exact .auto

theorem finds_importedList : Finds importedList fun names => ∀ a ∈ names, a.Lawful := by
  intro s
  unfold importedList
  dsimp only
  refine .bind (.at? .star) fun b s₁ hb => ?_
  obtain ⟨rfl, hb⟩ := hb
  split
  · next htrue =>
    refine .bind (.bump_of_kind (hb.mp htrue)) fun t s₂ ht => .pure ?_
    have halias : Alias.Lawful ⟨t.lexeme, none⟩ :=
      ⟨by rw [ht.2.star ht.1]; exact isPath_star, by simp⟩
    simpa using halias
  · refine .skip fun inParens s₂ => (finds_importedNames inParens).bind fun names hnames s₃ => ?_
    split
    · exact .skip fun _ s₄ => .pure hnames
    · exact .pure hnames

instance steady_importFromStatement : Steady importFromStatement := by
  unfold importFromStatement; exact .auto

theorem finds_importFromStatement : Finds importFromStatement Stmt.IsLawful := by
  intro s
  unfold importFromStatement
  dsimp only
  refine .skip fun first s₁ => .skip fun level s₂ => .skip fun t s₃ => ?_
  refine finds_moduleName.bind fun name hname s₄ => ?_
  have hsource : ∀ t ∈ (if name.isEmpty then none else some name), Text.IsPath t := by
    split
    · simp
    · simpa using hname
  split
  · exact .fault
  · refine .bind (.expect .kwImport) fun b s₅ hb => ?_
    rw [if_pos hb.1]
    refine finds_importedList.bind fun names hnames s₆ => .skip fun x s₇ => .pure ?_
    exact ⟨⟨hsource, hnames⟩, trivial⟩

instance steady_wordStatement (make : Extent → Stmt) : Steady (wordStatement make) := by
  unfold wordStatement; exact .auto

theorem finds_wordStatement {make : Extent → Stmt} (h : ∀ x, (make x).IsLawful) :
    Finds (wordStatement make) Stmt.IsLawful :=
  fun _ => .skip fun _ _ => .skip fun x _ => .pure (h x)

instance steady_simpleStatement : Steady (simpleStatement r) := by
  unfold simpleStatement; exact .auto

theorem finds_simpleStatement (hr : r.Lawful) : Finds (simpleStatement r) Stmt.IsLawful := by
  intro s
  unfold simpleStatement
  refine .skip fun k s₁ => ?_
  split
  · refine finds_wordStatement ?_ s₁
    exact fun _ => ⟨trivial, trivial⟩
  · refine finds_wordStatement ?_ s₁
    exact fun _ => ⟨trivial, trivial⟩
  · refine finds_wordStatement ?_ s₁
    exact fun _ => ⟨trivial, trivial⟩
  · exact finds_returnStatement hr s₁
  · exact finds_raiseStatement hr s₁
  · exact finds_deleteStatement hr s₁
  · exact finds_assertStatement hr s₁
  · refine .skip fun first s₂ => finds_nameList.bind fun names hnames s₃ => ?_
    exact .skip fun x s₄ => .pure ⟨hnames, trivial⟩
  · refine .skip fun first s₂ => finds_nameList.bind fun names hnames s₃ => ?_
    exact .skip fun x s₄ => .pure ⟨hnames, trivial⟩
  · exact finds_importStatement s₁
  · exact finds_importFromStatement s₁
  · exact finds_expressionStatement hr s₁

/-! ## Blocks -/

instance steady_semicolons : Steady (semicolons r) := by unfold semicolons; exact .auto

theorem finds_semicolons (hr : r.Lawful) :
    Finds (semicolons r) fun found => ∀ s ∈ found.1, Stmt.IsLawful s := by
  refine Finds.loop (by simp) fun ⟨found, _⟩ hfound s => ?_
  refine .skip fun aborted s₁ => ?_
  split
  · exact .pure hfound
  · refine .skip fun before s₂ => (finds_simpleStatement hr).bind fun stmt hstmt s₃ => ?_
    have hadded : ∀ s ∈ found ++ [stmt], Stmt.IsLawful s :=
      List.forall_mem_append.mpr ⟨hfound, by simpa using hstmt⟩
    refine .skip fun after s₄ => ?_
    split
    · exact .pure hadded
    · refine .skip fun semicolon s₅ => ?_
      split
      · exact .skip fun k s₆ => .skip fun k' s₇ => .pure hadded
      · exact .pure hadded

instance steady_simpleLine : Steady (simpleLine r) := by unfold simpleLine; exact .auto

theorem finds_simpleLine (hr : r.Lawful) :
    Finds (simpleLine r) fun found => ∀ s ∈ found, Stmt.IsLawful s := by
  intro s
  unfold simpleLine
  refine (finds_semicolons hr).bind fun ⟨found, lineEnd⟩ hfound s₁ => ?_
  dsimp only at hfound ⊢
  split
  · exact .skip fun _ s₂ => .pure hfound
  · refine .skip fun newline s₂ => ?_
    split
    · exact .pure hfound
    · refine .skip fun eof s₃ => .skip fun aborted s₄ => ?_
      split
      · exact .pure hfound
      · exact .skip fun t s₅ => .fault

instance steady_blockBody : Steady (blockBody r) := by unfold blockBody; exact .auto

theorem finds_blockBody (hr : r.Lawful) :
    Finds (blockBody r) fun found => ∀ s ∈ found, Stmt.IsLawful s := by
  refine Finds.collect (by simp) fun s => ?_
  refine .skip fun aborted s₁ => .skip fun dedent s₂ => .skip fun eof s₃ => ?_
  split
  · exact .pure (by simp)
  · refine .skip fun newline s₄ => ?_
    split
    · exact .pure (by simp)
    · refine .skip fun before s₅ => hr.statement.bind fun found hfound s₆ => ?_
      refine .skip fun after s₇ => .skip fun eof s₈ => .skip fun dedent s₉ => ?_
      dsimp only
      split
      · exact .skip fun _ s₁₀ => .skip fun _ s₁₁ => .pure hfound
      · exact .pure hfound

instance steady_block : Steady (block r) := by unfold block; exact .auto

theorem finds_block (hr : r.Lawful) :
    Finds (block r) fun found => ∀ s ∈ found, Stmt.IsLawful s := by
  intro s
  unfold block
  refine .skip fun aborted s₁ => ?_
  split
  · exact .pure (by simp)
  · refine .skip fun newline s₂ => ?_
    split
    · refine .skip fun indent s₃ => ?_
      split
      · exact (finds_blockBody hr).bind fun body hbody s₄ => .skip fun _ s₅ => .pure hbody
      · exact .skip fun t s₄ => .fault
    · exact finds_simpleLine hr s₂

instance steady_suite : Steady (suite r) := by unfold suite; exact .auto

/-- The statements of a block are lawful. -/
theorem finds_suite (hr : r.Lawful) : Finds (suite r) (Every.stmts Node.Lawful) := by
  intro s
  unfold suite
  refine .bind (.expect .colon) fun colon s₁ hcolon => ?_
  rw [if_pos hcolon.1]
  exact (finds_block hr s₁).mono fun body _ hbody => Every.stmts_iff.mpr hbody

instance steady_elseSuite : Steady (elseSuite r) := by unfold elseSuite; exact .auto

theorem finds_elseSuite (hr : r.Lawful) : Finds (elseSuite r) (Every.stmts Node.Lawful) := by
  intro s
  unfold elseSuite
  refine .skip fun isElse s₁ => ?_
  split
  · exact finds_suite hr s₁
  · exact .pure trivial

/-! ## Branches and loops -/

instance steady_branchStatement : Steady (branchStatement r) := by
  unfold branchStatement; exact .auto

theorem finds_branchStatement (hr : r.Lawful) : Finds (branchStatement r) Stmt.IsLawful := by
  intro s
  unfold branchStatement
  dsimp only
  refine .skip fun first s₁ => (finds_named hr).bind fun test htest s₂ => ?_
  refine (finds_suite hr).bind fun body hbody s₃ => .skip fun isElif s₄ => ?_
  split
  · refine hr.branch.bind fun branch hbranch s₅ => ?_
    refine .bind (.pure (Q := fun orelse _ => orelse = [branch]) rfl) fun orelse s₆ horelse => ?_
    refine .skip fun x s₇ => .pure ⟨trivial, htest, hbody, ?_⟩
    rw [horelse]
    exact ⟨hbranch, trivial⟩
  · refine (finds_elseSuite hr).bind fun orelse horelse s₅ => .skip fun x s₆ => .pure ?_
    exact ⟨trivial, htest, hbody, horelse⟩

instance steady_whileStatement : Steady (whileStatement r) := by unfold whileStatement; exact .auto

theorem finds_whileStatement (hr : r.Lawful) : Finds (whileStatement r) Stmt.IsLawful := by
  intro s
  unfold whileStatement
  refine .skip fun first s₁ => (finds_named hr).bind fun test htest s₂ => ?_
  refine (finds_suite hr).bind fun body hbody s₃ => ?_
  refine (finds_elseSuite hr).bind fun orelse horelse s₄ => .skip fun x s₅ => .pure ?_
  exact ⟨trivial, htest, hbody, horelse⟩

instance steady_forStatement (isAsync : Option Token) : Steady (forStatement r isAsync) := by
  unfold forStatement; exact .auto

theorem finds_forStatement (hr : r.Lawful) (isAsync : Option Token) :
    Finds (forStatement r isAsync) Stmt.IsLawful := by
  intro s
  unfold forStatement
  dsimp only
  refine .skip fun word s₁ => (finds_starTargets hr).bind fun target htarget s₂ => ?_
  refine (finds_markTarget htarget).bind fun target htarget s₃ => ?_
  refine .bind (.expect .kwIn) fun isIn s₄ hin => ?_
  rw [if_pos hin.1]
  refine (finds_starExpressions hr).bind fun iter hiter s₅ => ?_
  refine (finds_suite hr).bind fun body hbody s₆ => ?_
  refine (finds_elseSuite hr).bind fun orelse horelse s₇ => .skip fun x s₈ => .pure ?_
  exact ⟨trivial, htarget, hiter, hbody, horelse⟩

/-! ## Contexts and exceptions -/

instance steady_withItem : Steady (withItem r) := by unfold withItem; exact .auto

theorem finds_withItem (hr : r.Lawful) :
    Finds (withItem r) fun w => w.context.IsLawful ∧ Every.optExpr Node.Lawful w.target := by
  intro s
  unfold withItem
  refine hr.expression.bind fun context hcontext s₁ => .skip fun isAs s₂ => ?_
  split
  · refine .skip fun first s₃ => (finds_starTarget hr).bind fun target htarget s₄ => ?_
    exact (finds_markTarget htarget).bind fun target htarget s₅ => .pure ⟨hcontext, htarget⟩
  · exact .pure ⟨hcontext, trivial⟩

instance steady_withItems : Steady (withItems r) := by unfold withItems; exact .auto

theorem finds_withItems (hr : r.Lawful) : Finds (withItems r) (Every.withItems Node.Lawful) := by
  intro s
  unfold withItems
  refine .skip fun paren s₁ => .skip fun state s₂ => ?_
  split
  · refine .skip fun _ s₃ => ?_
    refine Finds.bind (Q := Every.withItems Node.Lawful) ?_ fun items hitems s₄ => ?_
    · refine Finds.collect (by simp) fun s => ?_
      refine .skip fun aborted s₁ => .skip fun closed s₂ => .skip fun eof s₃ => ?_
      split
      · exact .pure (by simp)
      · refine (finds_withItem hr).bind fun item hitem s₄ => .skip fun comma s₅ => .pure ?_
        simpa using hitem
    · exact .skip fun _ s₅ => .pure hitems
  · refine Finds.collect (by simp) (fun s => ?_) .auto s₂
    refine (finds_withItem hr).bind fun item hitem s₁ => .skip fun aborted s₂ => ?_
    split
    · exact .pure (by simpa using hitem)
    · exact .skip fun comma s₃ => .pure (by simpa using hitem)

instance steady_withStatement (isAsync : Option Token) : Steady (withStatement r isAsync) := by
  unfold withStatement; exact .auto

theorem finds_withStatement (hr : r.Lawful) (isAsync : Option Token) :
    Finds (withStatement r isAsync) Stmt.IsLawful := by
  intro s
  unfold withStatement
  refine .skip fun word s₁ => (finds_withItems hr).bind fun items hitems s₂ => ?_
  refine (finds_suite hr).bind fun body hbody s₃ => .skip fun x s₄ => .pure ?_
  exact ⟨trivial, hitems, hbody⟩

instance steady_handlerType : Steady (handlerType r) := by unfold handlerType; exact .auto

theorem finds_handlerType (hr : r.Lawful) : Finds (handlerType r) Expr.IsLawful := by
  intro s
  unfold handlerType
  refine hr.expression.bind fun head hhead s₁ => .skip fun comma s₂ => ?_
  split
  · exact .skip fun elts s₃ => .fault
  · exact .pure hhead

/-- An `except` clause is lawful, and its name is a word. -/
def HandlerFound.IsLawful (found : Handler × Bool) : Prop :=
  Every.handlers Node.Lawful [found.1] ∧ ∀ id ∈ found.1.name, id.IsWord

instance steady_handler : Steady (handler r) := by unfold handler; exact .auto

theorem finds_handler (hr : r.Lawful) : Finds (handler r) HandlerFound.IsLawful := by
  intro s
  unfold handler
  refine .skip fun _ s₁ => .skip fun isStar s₂ => .skip fun bare s₃ => ?_
  split
  · refine (finds_suite hr).bind fun body hbody s₄ => .pure ⟨⟨trivial, hbody, trivial⟩, ?_⟩
    simp [Handler.name]
  · refine (finds_handlerType hr).bind fun type htype s₄ => finds_asName.bind fun name hname s₅ => ?_
    exact (finds_suite hr).bind fun body hbody s₆ => .pure ⟨⟨htype, hbody, trivial⟩, hname⟩

instance steady_tryStatement : Steady (tryStatement r) := by unfold tryStatement; exact .auto

theorem finds_tryStatement (hr : r.Lawful) : Finds (tryStatement r) Stmt.IsLawful := by
  intro s
  unfold tryStatement
  dsimp only
  refine .skip fun first s₁ => (finds_suite hr).bind fun body hbody s₂ => ?_
  refine Finds.bind (Q := fun found => ∀ h ∈ found, HandlerFound.IsLawful h) ?_
    fun found hfound s₃ => ?_
  · refine Finds.collect (by simp) fun s => .skip fun aborted s₁ => .skip fun isExcept s₂ => ?_
    split
    · exact (finds_handler hr).bind fun h hh s₃ => .pure (by simpa using hh)
    · exact .pure (by simp)
  · have hnames : ∀ h ∈ found.map (·.1), ∀ id ∈ h.name, id.IsWord := by
      intro h hh
      obtain ⟨f, hf, rfl⟩ := List.mem_map.mp hh
      exact (hfound f hf).2
    have hhandlers : Every.handlers Node.Lawful (found.map (·.1)) := by
      refine Every.handlers_iff.mpr fun h hh => ?_
      obtain ⟨f, hf, rfl⟩ := List.mem_map.mp hh
      exact (hfound f hf).1
    have hempty : Finds (pure []) (Every.stmts Node.Lawful) := .pure trivial
    have hclose {orelse final : List Stmt} (ho : Every.stmts Node.Lawful orelse)
        (hf : Every.stmts Node.Lawful final) (s : State) :
        Gives s (do
          let x ← closeCompound first
          return Stmt.tryBlock x (found.any (·.2)) body (found.map (·.1)) orelse final)
          fun s _ => s.IsLawful :=
      .skip fun x _ => .pure ⟨hnames, hbody, hhandlers, ho, hf⟩
    split
    -- Without a handler there is a `finally` or a report.
    · refine hempty.bind fun orelse horelse s₄ => .skip fun isFinally s₅ => ?_
      split
      · exact (finds_suite hr).bind fun final hfinal s₆ => hclose horelse hfinal s₆
      · exact .skip fun t s₆ => .fault
    · refine (finds_elseSuite hr).bind fun orelse horelse s₄ => .skip fun isFinally s₅ => ?_
      split
      · exact (finds_suite hr).bind fun final hfinal s₆ => hclose horelse hfinal s₆
      · exact hempty.bind fun final hfinal s₆ => hclose horelse hfinal s₆

/-! ## Matches -/

instance steady_atMatch : Steady atMatch := by unfold atMatch; exact .auto

instance steady_matchSubject : Steady (matchSubject r) := by unfold matchSubject; exact .auto

theorem finds_matchSubject (hr : r.Lawful) : Finds (matchSubject r) Expr.IsLawful := by
  intro s
  unfold matchSubject
  refine .skip fun first s₁ => (finds_starNamed hr).bind fun head hhead s₂ => ?_
  refine .skip fun comma s₃ => ?_
  split
  · refine (Finds.collectCommas (by simpa using hhead) (finds_starNamed hr)).bind
      fun elts helts s₄ => .skip fun x s₅ => .pure ?_
    exact ⟨trivial, Every.exprs_iff.mpr helts⟩
  · exact .pure hhead

instance steady_matchCase : Steady (matchCase r) := by unfold matchCase; exact .auto

theorem finds_matchCase (hr : r.Lawful) :
    Finds (matchCase r) fun c => Every.cases Node.Lawful [c] := by
  intro s
  unfold matchCase
  dsimp only
  refine .skip fun _ s₁ => (finds_patterns hr).bind fun p hp s₂ => .skip fun isIf s₃ => ?_
  split
  · refine (finds_some (finds_named hr)).bind fun guard hguard s₄ => ?_
    exact (finds_suite hr).bind fun body hbody s₅ => .pure ⟨hp, hguard, hbody, trivial⟩
  · refine finds_none.bind fun guard hguard s₄ => ?_
    exact (finds_suite hr).bind fun body hbody s₅ => .pure ⟨hp, hguard, hbody, trivial⟩

instance steady_matchCases : Steady (matchCases r) := by unfold matchCases; exact .auto

theorem finds_matchCases (hr : r.Lawful) : Finds (matchCases r) (Every.cases Node.Lawful) := by
  refine Finds.mono (Finds.collect (by simp) fun s => ?_) fun cs hcs => Every.cases_iff.mpr hcs
  refine .skip fun aborted s₁ => .skip fun dedent s₂ => .skip fun eof s₃ => ?_
  split
  · exact .pure (by simp)
  · refine .skip fun newline s₄ => ?_
    split
    · exact .pure (by simp)
    · refine .skip fun state s₅ => ?_
      split
      · exact (finds_matchCase hr).bind fun c hc s₆ => .pure (by simpa using hc)
      · exact .skip fun t s₆ => .fault

instance steady_matchBlock : Steady (matchBlock r) := by unfold matchBlock; exact .auto

theorem finds_matchBlock (hr : r.Lawful) : Finds (matchBlock r) (Every.cases Node.Lawful) := by
  intro s
  unfold matchBlock
  dsimp only
  refine .bind (.expect .newline) fun newline s₁ hnewline => ?_
  rw [if_pos hnewline.1]
  refine .skip fun indent s₂ => ?_
  split
  · exact (finds_matchCases hr).bind fun cs hcs s₃ => .skip fun _ s₄ => .pure hcs
  · exact .skip fun t s₃ => .fault

instance steady_matchStatement : Steady (matchStatement r) := by unfold matchStatement; exact .auto

theorem finds_matchStatement (hr : r.Lawful) : Finds (matchStatement r) Stmt.IsLawful := by
  intro s
  unfold matchStatement
  dsimp only
  refine .skip fun first s₁ => (finds_matchSubject hr).bind fun subject hsubject s₂ => ?_
  refine .bind (.expect .colon) fun colon s₃ hcolon => ?_
  rw [if_pos hcolon.1]
  refine (finds_matchBlock hr).bind fun cs hcs s₄ => .skip fun x s₅ => .pure ?_
  exact ⟨trivial, hsubject, hcs⟩

/-! ## Functions and classes -/

instance steady_definedName : Steady definedName := by unfold definedName; exact .auto

theorem finds_definedName : Finds definedName Text.IsWord :=
  fun _ => .identifier fun _ ht _ => .pure ht

theorem lawful_function {x : Extent} {isAsync : Bool} {id : Text} {ps : Params} {body : List Stmt}
    {decorators : List Expr} {returns : Option Expr} (hid : id.IsWord) (hps : ps.IsLawful)
    (hbody : Every.stmts Node.Lawful body) (hdecorators : Every.exprs Node.Lawful decorators)
    (hreturns : Every.optExpr Node.Lawful returns) :
    (Stmt.function x isAsync id ps body decorators returns).IsLawful := by
  cases ps
  exact ⟨⟨hid, hps.1⟩, hps.2, hbody, hdecorators, hreturns⟩

instance steady_functionStatement (isAsync : Option Token) (decorators : List Expr) :
    Steady (functionStatement r isAsync decorators) := by
  unfold functionStatement; exact .auto

theorem finds_functionStatement (hr : r.Lawful) (isAsync : Option Token) {decorators : List Expr}
    (h : Every.exprs Node.Lawful decorators) :
    Finds (functionStatement r isAsync decorators) Stmt.IsLawful := by
  intro s
  unfold functionStatement
  dsimp only
  refine .skip fun word s₁ => finds_definedName.bind fun name hname s₂ => ?_
  refine .bind (.expect .lparen) fun opened s₃ hopened => ?_
  rw [if_pos hopened.1]
  refine (finds_parameters hr _ _).bind fun ps hps s₄ => ?_
  refine .bind (.expect .rparen) fun closed s₅ hclosed => ?_
  rw [if_pos hclosed.1]
  have hclose {returns : Option Expr} (h' : Every.optExpr Node.Lawful returns) (s : State) :
      Gives s (do
        let body ← suite r
        return Stmt.function (← closeCompound (isAsync.getD word)) isAsync.isSome name ps body
          decorators returns) fun s _ => s.IsLawful :=
    (finds_suite hr).bind fun body hbody _ => .skip fun x _ =>
      .pure (lawful_function hname hps hbody h h')
  rw [pure_bind]
  refine .skip fun arrow s₆ => ?_
  split
  · exact (finds_some hr.expression).bind fun returns hreturns s₇ => hclose hreturns s₇
  · exact finds_none.bind fun returns hreturns s₇ => hclose hreturns s₇

instance steady_classStatement (decorators : List Expr) : Steady (classStatement r decorators) := by
  unfold classStatement; exact .auto

theorem finds_classStatement (hr : r.Lawful) {decorators : List Expr}
    (h : Every.exprs Node.Lawful decorators) :
    Finds (classStatement r decorators) Stmt.IsLawful := by
  intro s
  unfold classStatement
  dsimp only
  refine .skip fun first s₁ => finds_definedName.bind fun name hname s₂ => ?_
  have hclose {found : List Expr × List Keyword} (hfound : ArgumentLists.IsLawful found)
      (s : State) : Gives s (do
        let body ← suite r
        return Stmt.classDef (← closeCompound first) name found.1 found.2 body decorators)
        fun s _ => s.IsLawful :=
    (finds_suite hr).bind fun body hbody _ => .skip fun x _ =>
      .pure ⟨⟨hname, hfound.2.2⟩, hfound.1, hfound.2.1, hbody, h⟩
  refine .skip fun opened s₃ => ?_
  split
  · refine (finds_arguments hr).bind fun found hfound s₄ => ?_
    refine .bind (.expect .rparen) fun closed s₅ hclosed => ?_
    rw [if_pos hclosed.1, pure_bind]
    exact hclose hfound s₅
  · rw [pure_bind]
    have hempty : ArgumentLists.IsLawful ([], []) := ⟨trivial, trivial, by simp⟩
    exact hclose hempty s₃

theorem undecorated : Every.exprs Node.Lawful [] := trivial

/-- One statement as a list. -/
theorem finds_single {x : Parser Stmt} [Steady x] (h : Finds x Stmt.IsLawful) :
    Finds (do return [← x]) fun found => ∀ s ∈ found, Stmt.IsLawful s :=
  fun _ => h.bind fun stmt hstmt _ => .pure (by simpa using hstmt)

instance steady_decoratedStatement : Steady (decoratedStatement r) := by
  unfold decoratedStatement; exact .auto

theorem finds_decoratedStatement (hr : r.Lawful) :
    Finds (decoratedStatement r) fun found => ∀ s ∈ found, Stmt.IsLawful s := by
  intro s
  unfold decoratedStatement
  refine Finds.bind (Q := fun es => ∀ e ∈ es, Expr.IsLawful e) ?_ fun ds hds s₁ => ?_
  · refine Finds.collect (by simp) fun s => .skip fun aborted s₁ => .skip fun isAt s₂ => ?_
    split
    · refine .skip fun _ s₃ => (finds_named hr).bind fun e he s₄ => ?_
      refine .bind (.expect .newline) fun newline s₅ hnewline => ?_
      rw [if_pos hnewline.1]
      exact .pure (by simpa using he)
    · exact .pure (by simp)
  · have hdecorators : Every.exprs Node.Lawful ds := Every.exprs_iff.mpr hds
    refine .skip fun t s₂ => ?_
    split
    · exact finds_single (finds_functionStatement hr none hdecorators) s₂
    · split
      · exact finds_single (finds_classStatement hr hdecorators) s₂
      · refine .skip fun next s₃ => ?_
        split
        · exact .skip fun _ s₄ => finds_single (finds_functionStatement hr _ hdecorators) s₄
        · exact .fault

instance steady_asyncStatement : Steady (asyncStatement r) := by unfold asyncStatement; exact .auto

theorem finds_asyncStatement (hr : r.Lawful) :
    Finds (asyncStatement r) fun found => ∀ s ∈ found, Stmt.IsLawful s := by
  intro s
  unfold asyncStatement
  refine .skip fun t s₁ => .skip fun next s₂ => ?_
  split
  · exact .skip fun _ s₃ => finds_single (finds_functionStatement hr _ undecorated) s₃
  · exact .skip fun _ s₃ => finds_single (finds_forStatement hr _) s₃
  · exact .skip fun _ s₃ => finds_single (finds_withStatement hr _) s₃
  · exact .fault

instance steady_strayBlock : Steady (strayBlock r) := by unfold strayBlock; exact .auto

theorem finds_strayBlock :
    Finds (strayBlock r) fun found => ∀ s ∈ found, Stmt.IsLawful s :=
  fun _ => .skip fun _ _ => .fault

instance steady_statement : Steady (statement r) := by unfold statement; exact .auto

/-- A statement, or a line of them, is lawful. -/
theorem finds_statement (hr : r.Lawful) :
    Finds (statement r) fun found => ∀ s ∈ found, Stmt.IsLawful s := by
  intro s
  unfold statement
  refine .skip fun aborted s₁ => ?_
  split
  · exact .pure (by simp)
  · refine .skip fun k s₂ => ?_
    split
    · exact finds_strayBlock s₂
    · exact finds_single (finds_branchStatement hr) s₂
    · exact finds_single (finds_whileStatement hr) s₂
    · exact finds_single (finds_forStatement hr none) s₂
    · exact finds_single (finds_withStatement hr none) s₂
    · exact finds_single (finds_tryStatement hr) s₂
    · exact finds_single (finds_functionStatement hr none undecorated) s₂
    · exact finds_single (finds_classStatement hr undecorated) s₂
    · exact finds_decoratedStatement hr s₂
    · exact finds_asyncStatement hr s₂
    · refine .skip fun isMatch s₃ => ?_
      split
      · exact finds_single (finds_matchStatement hr) s₃
      · exact finds_simpleLine hr s₃

end Grammar

end CloneScout
