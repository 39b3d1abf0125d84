import CloneScout.Proofs.Grammar.Clauses.Stmt

/-!
# Clauses of compound statements

The word of a clause is read behind the block in front of it, and the clause has a block of its own,
so it is one of the tree as well. An `elif` is a statement in the `else` part that it opens.
-/

namespace CloneScout.Grammar

-- The rules are long, and so are the instances that they are steady.
set_option synthInstance.maxSize 2000

variable {s s₀ : State} {cs : List Clause} {ss : List Stmt} {r : Rules} [r.Steady] [r.Stays]
  [r.Keeps]

/-! ## Blocks of a statement -/

/-- A block that a statement cannot do without. -/
theorem Gives.blocking {β : Type} {f : List Stmt → Parser β} [∀ body, Steady (f body)]
    {R : β → State → Prop} (hr : r.Reads) (h : Read s₀ cs ss s)
    (hf : ∀ body s', Read s₀ (cs ++ Clauses.stmts body) (ss ++ body) s' → s'.Rests →
      (s₀.cursor.Solid → body ≠ []) → Gives s' (f body) R) :
    Gives s (suite r >>= f) R :=
  .seq (whole_suite hr) fun body s' h' => hf body s' (h.trans h'.read) h'.rests
    fun hs => h'.filled (h.solid hs)

/-- A block behind the word that opens a clause. -/
theorem gives_part (hr : r.Reads) {c : Clause} {s₁ : State} (h : Read s [c] [] s₁) :
    Gives s₁ (suite r) fun ss s' => Read s (Clauses.part c ss) ss s' ∧ s'.Rests := by
  refine (whole_suite hr).mono fun ss s' h' => ⟨(h.trans h'.read).of_eq fun hs => ?_, h'.rests⟩
  exact (Clauses.part_of_ne_nil c (h'.filled (h.solid hs))).symm

theorem gives_elseSuite (hr : r.Reads) (hrests : s.Rests) : Gives s (elseSuite r) fun ss s' =>
    Read s (Clauses.part .orelse ss) ss s' ∧ s'.Rests := by
  unfold elseSuite
  refine .seq (.eaten .kwElse) fun isElse s₁ hElse => ?_
  obtain ⟨hkind, rfl⟩ := hElse
  split
  · next htrue => exact gives_part hr (.opensElse hrests (hkind.mp htrue))
  · exact .pure ⟨.refl s, hrests⟩

/-! ## Branches and loops -/

/-- A branch whose first word has opened the clauses `cs`. -/
theorem gives_branchStatement (hr : r.Reads)
    (h : Read s cs [] { s with cursor := s.cursor.bump }) :
    Gives s (branchStatement r) fun st s' =>
      Read s (cs ++ Clauses.stmts [st]) [st] s' ∧ s'.Rests := by
  unfold branchStatement
  refine .seq .bumped fun first s₁ hfirst => ?_
  obtain ⟨-, rfl⟩ := hfirst
  refine .mono ?_ fun st s' (h' : Whole _ [st] s') => ⟨h.trans h'.read, h'.rests⟩
  refine .running (.refl _) (Stays.runs _) fun test s₂ h => ?_
  refine .blocking hr h fun body s₃ h hrests hbody => ?_
  -- An `elif` is the first word of the branch that it opens, an `else` stands in front of a block.
  refine .seq (.at? .kwElif) fun isElif s₄ hElif => ?_
  obtain ⟨rfl, hElif⟩ := hElif
  have hclose {orelse : List Stmt} {s₅ : State}
      (h' : Read s₄ (Clauses.part .orelse orelse) orelse s₅ ∧ s₅.Rests) :
      Gives s₅ (do return Stmt.branch (← closeCompound first) test body orelse)
        fun st s' => Whole { s with cursor := s.cursor.bump } [st] s' :=
    .done (h.trans h'.1) h'.2 (by simp [Stmt.inner, Stmt.lists]) (fun _ => rfl)
      fun d x hd => by cases d <;> first | exact hbody hd | trivial
  split
  · next htrue => exact .seq (hr.branch s₄ (hElif.mp htrue)) fun branch s₅ h => hclose h
  · exact .seq (gives_elseSuite hr hrests) fun orelse s₅ h => hclose h

theorem whole_whileStatement (hr : r.Reads) (hkind : s.cursor.kind = .kwWhile) :
    Gives s (whileStatement r) fun st s' => Whole s [st] s' := by
  unfold whileStatement
  refine .word (hkind ▸ rfl) fun first s₁ h _ => .running h (Stays.runs _) fun test s₂ h => ?_
  refine .blocking hr h fun body s₃ h hrests hbody => ?_
  refine .seq (gives_elseSuite hr hrests) fun orelse s₄ horelse => ?_
  obtain ⟨h', hrests⟩ := horelse
  exact .done (h.trans h') hrests (by simp [Stmt.inner, Stmt.lists]) (fun _ => rfl)
    fun d x hd => by cases d <;> first | exact hbody hd | trivial

theorem whole_forStatement (hr : r.Reads) {isAsync : Option Token}
    (hkind : s.cursor.kind = .kwFor) :
    Gives s (forStatement r isAsync) fun st s' => Whole s [st] s' := by
  unfold forStatement
  dsimp only
  refine .word (hkind ▸ rfl) fun word s₁ h _ => .running h (Stays.runs _) fun target s₂ h => ?_
  refine .running h (Stays.runs _) fun target s₃ h => .requiring h (fun _ => rfl) fun s₄ h _ _ => ?_
  rw [if_pos rfl]
  refine .running h (Stays.runs _) fun iter s₅ h => ?_
  refine .blocking hr h fun body s₆ h hrests hbody => ?_
  refine .seq (gives_elseSuite hr hrests) fun orelse s₇ horelse => ?_
  obtain ⟨h', hrests⟩ := horelse
  exact .done (h.trans h') hrests (by simp [Stmt.inner, Stmt.lists]) (fun _ => rfl)
    fun d x hd => by cases d <;> first | exact hbody hd | trivial

/-! ## Contexts -/

theorem peek_of_upcoming {c : Cursor} {t : Token} {j : Nat} (h : c.upcoming[j]? = some t) :
    c.peek j = t := by
  rw [Cursor.upcoming, Array.getElem?_toList, Array.getElem?_extract] at h
  split at h
  · rw [Cursor.peek, Cursor.get, h, Option.getD_some]
  · cases h

/-- Parentheses with nothing between them belong to the statement only in front of a colon. -/
theorem kind_of_closesBeforeColon {c : Cursor} (hcloses : closesBeforeColon 0 c.upcoming = true)
    (hopen : c.kind = .lparen) (hclose : c.kind 1 = .rparen) : c.kind 2 = .colon := by
  have hkind {j : Nat} {t : Token} (h : c.upcoming[j]? = some t) : c.kind j = t.kind :=
    congrArg Token.kind (peek_of_upcoming h)
  rcases hupcoming : c.upcoming with _ | ⟨t, _ | ⟨t', _ | ⟨t'', rest⟩⟩⟩
  all_goals rw [hupcoming] at hcloses hkind
  · exact Bool.noConfusion hcloses
  · rw [hkind (j := 0) rfl] at hopen
    simp [closesBeforeColon, hopen, Token.Kind.isOpening] at hcloses
  · rw [hkind (j := 0) rfl] at hopen
    rw [hkind (j := 1) rfl] at hclose
    simp [closesBeforeColon, hopen, hclose, Token.Kind.isOpening, Token.Kind.isClosing] at hcloses
  · rw [hkind (j := 0) rfl] at hopen
    rw [hkind (j := 1) rfl] at hclose
    rw [hkind (j := 2) rfl]
    simpa [closesBeforeColon, hopen, hclose, Token.Kind.isOpening, Token.Kind.isClosing]
      using hcloses

omit [r.Stays] [r.Keeps] in
/-- There are items, unless the parentheses for them close at once in front of the colon. -/
theorem gives_withItems
    (h : ¬ (s.cursor.kind = .lparen ∧ s.cursor.kind 1 = .rparen ∧ s.cursor.kind 2 = .colon)) :
    Gives s (withItems r) fun items _ => items ≠ [] := by
  unfold withItems
  refine .seq (.at? .lparen) fun paren s₁ hparen => .seq .get fun s₂ s₃ hget => ?_
  obtain ⟨rfl, hparen⟩ := hparen
  obtain ⟨rfl, rfl⟩ := hget
  split
  · next hcloses =>
    rw [Bool.and_eq_true, hparen] at hcloses
    refine .seq .bumped fun t s₄ hbump => ?_
    obtain ⟨-, rfl⟩ := hbump
    -- A loop without a round that finds an item stops where it starts.
    refine .seq (Q := fun items s' => items = [] → s'.cursor.kind = .rparen →
      s₃.cursor.bump.kind = .rparen) ?_ fun items s₅ hitems => ?_
    · refine (Gives.gather (T := fun s items s' => items = [] →
        s'.cursor.kind = .rparen → s.cursor.kind = .rparen) (E := fun _ => True)
        (fun h h' => ?_) (fun h => h) fun s => ?_).mono fun _ _ h => h.1
      · intro hnone hclosed
        obtain ⟨hleft, hright⟩ := List.append_eq_nil_iff.mp hnone
        exact h hleft (h' hright hclosed)
      · refine .seq .isAborted fun aborted s₁ haborted => ?_
        refine .seq (.at? .rparen) fun closed s₂ hclosed => .seq (.at? .eof) fun eof s₃ heof => ?_
        obtain ⟨-, rfl⟩ := haborted
        obtain ⟨rfl, -⟩ := hclosed
        obtain ⟨rfl, -⟩ := heof
        split
        · exact .pure ⟨fun _ h => h, fun _ => trivial⟩
        · exact .past fun item s₄ => .past fun more s₅ => .pure ⟨by simp, fun _ => trivial⟩
    · refine .seq (.expect .rparen) fun closed s₆ hclosed => .pure fun hnone => ?_
      have hclose := hitems hnone hclosed.2
      rw [kind_bump] at hclose
      exact h ⟨hcloses.1, hclose, kind_of_closesBeforeColon hcloses.2 hcloses.1 hclose⟩
  · refine (Gives.gather (T := fun _ items _ => items ≠ []) (E := fun _ => True)
      (fun h _ => by simp [h]) (fun h => h) fun s => ?_).mono fun _ _ h => h.1
    refine .past fun item s₄ => .past fun aborted s₅ => ?_
    split
    · exact .pure ⟨by simp, fun _ => trivial⟩
    · exact .past fun more s₆ => .pure ⟨by simp, fun _ => trivial⟩

theorem whole_withStatement (hr : r.Reads) {isAsync : Option Token}
    (hkind : s.cursor.kind = .kwWith) :
    Gives s (withStatement r isAsync) fun st s' => Whole s [st] s' := by
  unfold withStatement
  dsimp only
  refine .word (hkind ▸ rfl) fun word s₁ h hcursor => ?_
  refine .runningTo (Q := fun items _ => Demand.items.Seen s.cursor → items ≠ []) h (Stays.runs _)
    ?_ fun items s₂ hitems h => ?_
  · by_cases hparens :
        s₁.cursor.kind = .lparen ∧ s₁.cursor.kind 1 = .rparen ∧ s₁.cursor.kind 2 = .colon
    · refine ⟨fun _ _ hd => ?_⟩
      rw [hcursor, kind_bump, kind_bump, kind_bump] at hparens
      exact absurd ⟨hkind, hparens.1, hparens.2.1, hparens.2.2, trivial⟩ (hd s.cursor.pos)
    · exact (gives_withItems hparens).mono fun items _ h _ => h
  · refine .blocking hr h fun body s₃ h hrests hbody => ?_
    exact .done h hrests (by simp [Stmt.inner, Stmt.lists]) (fun _ => rfl)
      fun d x hd => by cases d <;> first | exact hbody hd | exact hitems hd | trivial

/-! ## Exceptions -/

theorem whole_handler (hr : r.Reads) (hkind : s.cursor.kind = .kwExcept) :
    Gives s (handler r) fun h s' => Whole s h.1.body s' := by
  unfold handler
  have hbody {s₁ : State} {type : Option Expr} {name : Option Text} {isStar : Bool}
      (h : Read s [] [] s₁) : Gives s₁ (do
        let body ← suite r
        return (Handler.mk type name body, isStar)) fun h s' => Whole s h.1.body s' :=
    .seq (whole_suite hr) fun body s₂ h' => .pure (.after h h')
  refine .word (hkind ▸ rfl) fun t s₁ h _ => .running h (.eat rfl) fun isStar s₂ h => ?_
  refine .seq (.at? .colon) fun bare s₃ hbare => ?_
  obtain ⟨rfl, -⟩ := hbare
  split
  · exact hbody h
  · refine .running h (Stays.runs _) fun type s₄ h => .running h (Stays.runs _) fun name s₅ h => ?_
    exact hbody h

theorem gives_handlers (hr : r.Reads) : Gives s (collect [] do
      if !(← isAborted) && (← at? .kwExcept) then return ([← handler r], true)
      else return ([], false)) fun found s' =>
    Parts (fun h : Handler × Bool => h.1.body) s found s' ∧ (s.Rests → s'.Rests) := by
  refine (Gives.gather (T := fun s found s' =>
    Parts (fun h : Handler × Bool => h.1.body) s found s' ∧ (s.Rests → s'.Rests)) (E := fun _ => True)
    (fun h h' => ⟨h.1.append h'.1, fun hs => h'.2 (h.2 hs)⟩)
    (fun h => ⟨h.1.stall, fun _ => .inl rfl⟩) fun s => ?_).mono fun _ _ h => h.1
  refine .seq .isAborted fun aborted s₁ haborted => .seq (.at? .kwExcept) fun found s₂ hfound => ?_
  obtain ⟨rfl, rfl⟩ := haborted
  obtain ⟨rfl, hfound⟩ := hfound
  rw [Bool.not_false, Bool.true_and]
  split
  · next htrue =>
    refine .seq (whole_handler hr (hfound.mp htrue)) fun h s₃ h' => .pure ?_
    exact ⟨⟨⟨by simpa using h'.read, by simpa using h'.filled⟩, fun _ => h'.rests⟩, fun _ => trivial⟩
  · exact .pure ⟨⟨.refl _, id⟩, fun _ => trivial⟩

theorem whole_tryStatement (hr : r.Reads) (hkind : s.cursor.kind = .kwTry) :
    Gives s (tryStatement r) fun st s' => Whole s [st] s' := by
  unfold tryStatement
  dsimp only
  refine .word (hkind ▸ rfl) fun first s₁ h _ => .blocking hr h fun body s₂ h hrests hbody => ?_
  refine .seq (gives_handlers hr) fun found s₃ hread => ?_
  obtain ⟨hfound, hrests'⟩ := hread
  have hhandlers := h.trans hfound.read
  have hclose {orelse final : List Stmt} {s₄ s₅ : State}
      (horelse : Read s₃ (Clauses.part .orelse orelse) orelse s₄)
      (hfinal : Read s₄ (Clauses.part .finalbody final) final s₅ ∧ s₅.Rests) : Gives s₅ (do
        let x ← closeCompound first
        return Stmt.tryBlock x (found.any (·.2)) body (found.map (·.1)) orelse final)
        fun st s' => Whole s [st] s' := by
    refine .done ((hhandlers.trans horelse).trans hfinal.1) hfinal.2 (fun _ => ?_) (fun _ => ?_)
      fun d x hd => ?_
    · simp [Stmt.inner, Stmt.lists, List.flatMap, Function.comp_def]
    · rw [Clauses.stmt, Clauses.handlers_eq_flatMap, List.flatMap_map]
      rfl
    · cases d with
      | blocks => exact ⟨hbody hd, List.forall_mem_map.mpr (hfound.full (h.solid hd))⟩
      | _ => trivial
  have hfinally {orelse : List Stmt} {s₄ : State}
      (horelse : Read s₃ (Clauses.part .orelse orelse) orelse s₄)
      (hword : s₄.cursor.kind = .kwFinally) : Gives { s₄ with cursor := s₄.cursor.bump } (do
        let final ← suite r
        let x ← closeCompound first
        return Stmt.tryBlock x (found.any (·.2)) body (found.map (·.1)) orelse final)
        fun st s' => Whole s [st] s' :=
    .seq (gives_part hr (.opens (by rw [hword]; rfl))) fun final s₅ h => hclose horelse h
  split
  -- Without a handler there is a `finally` or a report.
  · refine .seq (.pure (Q := fun orelse s' => orelse = [] ∧ s' = s₃) ⟨rfl, rfl⟩)
      fun orelse s₄ horelse => ?_
    obtain ⟨rfl, rfl⟩ := horelse
    refine .seq (.eaten .kwFinally) fun isFinally s₅ hword => ?_
    obtain ⟨hword, rfl⟩ := hword
    split
    · next htrue => exact hfinally (.refl s₄) (hword.mp htrue)
    · exact .past fun t s₆ => .fault inferInstance
  · refine .seq (gives_elseSuite hr (hrests' hrests)) fun orelse s₄ hread => ?_
    obtain ⟨horelse, hrests⟩ := hread
    refine .seq (.eaten .kwFinally) fun isFinally s₅ hword => ?_
    obtain ⟨hword, rfl⟩ := hword
    split
    · next htrue => exact hfinally horelse (hword.mp htrue)
    · refine .seq (.pure (Q := fun final s' => final = [] ∧ s' = s₄) ⟨rfl, rfl⟩)
        fun final s₆ hnone => ?_
      obtain ⟨rfl, rfl⟩ := hnone
      exact hclose horelse ⟨.refl s₆, hrests⟩

/-! ## Matches -/

theorem kind_of_atWord {c : Cursor} {word : Text} (h : c.atWord word = true) : c.kind = .ident := by
  rw [Cursor.atWord, Token.isWord, Bool.and_eq_true, decide_eq_true_eq] at h
  exact h.1

theorem whole_matchCase (hr : r.Reads) (hword : s.cursor.atWord (utf8 "case") = true) :
    Gives s (matchCase r) fun c s' => Whole s c.body s' := by
  unfold matchCase
  dsimp only
  have hbody {s₁ : State} {p : Pattern} {guard : Option Expr} (h : Read s [] [] s₁) :
      Gives s₁ (do
        let body ← suite r
        return MatchCase.mk p guard body) fun c s' => Whole s c.body s' :=
    .seq (whole_suite hr) fun body s₂ h' => .pure (.after h h')
  refine .word (kind_of_atWord hword ▸ rfl) fun t s₁ h _ => ?_
  refine .running h (Stays.runs _) fun p s₂ h => .running h (.eat rfl) fun isIf s₃ h => ?_
  split
  · exact .running h (.map (Stays.runs _)) fun guard s₄ h => hbody h
  · exact .running h (Stays.runs _) fun guard s₄ h => hbody h

theorem gives_matchCases_read (hr : r.Reads) : Gives s (matchCases r) fun cs s' =>
    (Parts MatchCase.body s cs s' ∧ (s.InLine → cs ≠ [])) ∧
      (s'.stalled = true ∨ s'.cursor.kind = .dedent ∨ s'.cursor.kind = .eof) := by
  unfold matchCases
  refine gives_lines (gives_round fun s => ?_)
  refine .seq .get fun s₁ s₂ hget => ?_
  obtain ⟨rfl, rfl⟩ := hget
  split
  · next hword =>
    refine .seq (whole_matchCase hr hword) fun c s₃ h => .pure ?_
    exact ⟨⟨by simpa using h.read, by simpa using h.filled⟩, by simp, rfl⟩
  · exact .past fun t s₃ => .fault inferInstance

theorem gives_matchBlock (hr : r.Reads) : Gives s (matchBlock r) fun cs s' =>
    (Read s (Clauses.cases cs) (cs.flatMap MatchCase.body) s' ∧ s'.Rests) ∧
      (s.cursor.Solid → cs ≠ [] ∧ ∀ c ∈ cs, c.body ≠ []) := by
  unfold matchBlock
  dsimp only
  refine .requiring (.refl s) (fun _ => rfl) fun s₁ h₁ _ _ => ?_
  rw [if_pos rfl]
  refine .eating h₁ (fun _ => rfl) (fun hindent h₂ => ?_)
    fun _ => .past fun t s₂ => .fault inferInstance
  rw [if_pos rfl]
  refine .seq (gives_matchCases_read hr) fun cs s₃ hread => ?_
  obtain ⟨⟨h, hsome⟩, hend⟩ := hread
  refine (Gives.dedented (h₂.trans h.read) hend).mono fun cs' s₄ h₄ => ?_
  obtain ⟨rfl, hread, hrests⟩ := h₄
  refine ⟨⟨by rwa [Clauses.cases_eq_flatMap], hrests⟩,
    fun hsolid => ⟨hsome ⟨h₂.solid hsolid, ?_⟩, ?_⟩⟩
  · show (Cursor.kind _ 0).isLayout = false
    rw [kind_bump]
    exact h₁.solid hsolid _ hindent
  · exact h.full (h₂.solid hsolid)

theorem whole_matchStatement (hr : r.Reads) (hkind : s.cursor.kind = .ident) :
    Gives s (matchStatement r) fun st s' => Whole s [st] s' := by
  unfold matchStatement
  dsimp only
  refine .word (hkind ▸ rfl) fun first s₁ h _ => .running h (Stays.runs _) fun subject s₂ h => ?_
  refine .requiring h (fun _ => rfl) fun s₃ h _ _ => ?_
  rw [if_pos rfl]
  refine .seq (gives_matchBlock hr) fun cs s₄ hread => ?_
  obtain ⟨⟨h', hrests⟩, hcases⟩ := hread
  exact .done (h.trans h') hrests (by simp [Stmt.inner, Stmt.lists, List.flatMap]) (fun _ => rfl)
    fun d x hd => by cases d <;> first | exact hcases (h.solid hd) | trivial

/-! ## Functions and classes -/

theorem whole_functionStatement (hr : r.Reads) {isAsync : Option Token} {decorators : List Expr}
    (hkind : s.cursor.kind = .kwDef) : Gives s (functionStatement r isAsync decorators)
      fun st s' => Whole s [st] s' := by
  unfold functionStatement
  dsimp only
  refine .word (hkind ▸ rfl) fun word s₁ h _ => .running h (Stays.runs _) fun name s₂ h => ?_
  refine .requiring h (fun _ => rfl) fun s₃ h _ _ => ?_
  rw [if_pos rfl]
  refine .running h (Stays.runs _) fun params s₄ h => .requiring h (fun _ => rfl) fun s₅ h _ _ => ?_
  rw [if_pos rfl, pure_bind]
  have hclose {returns : Option Expr} {s' : State} (h : Read s [] [] s') : Gives s' (do
      let body ← suite r
      return Stmt.function (← closeCompound (isAsync.getD word)) isAsync.isSome name params body
        decorators returns) fun st s' => Whole s [st] s' :=
    .blocking hr h fun body s₇ h hrests hbody =>
      .done h hrests (by simp [Stmt.inner, Stmt.lists]) (fun _ => rfl)
        fun d x hd => by cases d <;> first | exact hbody hd | trivial
  refine .running h (.eat rfl) fun arrow s₆ h => ?_
  split
  · exact .running h (.map (Stays.runs _)) fun returns s₇ h => hclose h
  · exact .running h (Stays.runs _) fun returns s₇ h => hclose h

theorem whole_classStatement (hr : r.Reads) {decorators : List Expr}
    (hkind : s.cursor.kind = .kwClass) : Gives s (classStatement r decorators)
      fun st s' => Whole s [st] s' := by
  unfold classStatement
  dsimp only
  refine .word (hkind ▸ rfl) fun first s₁ h _ => .running h (Stays.runs _) fun name s₂ h => ?_
  have hclose {bases : List Expr} {keywords : List Keyword} {s' : State}
      (h : Read s [] [] s') : Gives s' (do
        let body ← suite r
        return Stmt.classDef (← closeCompound first) name bases keywords body decorators)
        fun st s' => Whole s [st] s' :=
    .blocking hr h fun body s₇ h hrests hbody =>
      .done h hrests (by simp [Stmt.inner, Stmt.lists]) (fun _ => rfl)
        fun d x hd => by cases d <;> first | exact hbody hd | trivial
  refine .running h (.eat rfl) fun opened s₃ h => ?_
  split
  · refine .running h (Stays.runs _) fun found s₄ h => .requiring h (fun _ => rfl) fun s₅ h _ _ => ?_
    rw [if_pos rfl, pure_bind]
    exact hclose h
  · rw [pure_bind]
    exact hclose h

/-! ## Any statement -/

/-- One statement as a list, behind what was read before it. -/
theorem Gives.alone {x : Parser Stmt} [Steady x] (h : Read s₀ [] [] s)
    (hx : Gives s x fun st s' => Whole s [st] s') : Gives s (do return [← x]) (Whole s₀) :=
  .seq hx fun _ _ h' => .pure (.after h h')

omit [r.Keeps] in
theorem gives_decorators : Gives s (collect [] do
      if !(← isAborted) && (← at? .at) then
        let _ ← bump
        let e ← named r
        unless ← expect .newline do recoverToNewline
        return ([e], true)
      else return ([], false)) fun _ s' => Read s [] [] s' := by
  refine (Gives.gather (T := fun s _ s' => Read s [] [] s') (E := fun _ => True)
    (fun h h' => h.trans h') (fun h => h.stall) fun s => ?_).mono fun _ _ h => h.1
  refine .seq .isAborted fun aborted s₁ haborted => .seq (.at? .at) fun found s₂ hfound => ?_
  obtain ⟨rfl, rfl⟩ := haborted
  obtain ⟨rfl, hfound⟩ := hfound
  rw [Bool.not_false, Bool.true_and]
  split
  · next htrue =>
    refine .word (hfound.mp htrue ▸ rfl) fun t s₃ h _ => .running h (Stays.runs _) fun e s₄ h => ?_
    refine .requiring h (fun _ => rfl) fun s₅ h _ _ => ?_
    rw [if_pos rfl]
    exact .pure ⟨h, fun _ => trivial⟩
  · exact .pure ⟨.refl _, fun _ => trivial⟩

theorem whole_decoratedStatement (hr : r.Reads) : Gives s (decoratedStatement r) (Whole s) := by
  unfold decoratedStatement
  refine .seq gives_decorators fun decorators s₁ h => .seq (.peek 0) fun t s₂ ht => ?_
  obtain ⟨rfl, rfl, -⟩ := ht
  split
  · next hkind => exact .alone h (whole_functionStatement hr hkind)
  · split
    · next hkind => exact .alone h (whole_classStatement hr hkind)
    · refine .seq (.kind 1) fun next s₃ hnext => ?_
      obtain ⟨rfl, rfl⟩ := hnext
      split
      · next hboth =>
        obtain ⟨hasync, hdef⟩ : s₃.cursor.kind = .kwAsync ∧ s₃.cursor.kind 1 = .kwDef := by
          rwa [Bool.and_eq_true, decide_eq_true_eq, decide_eq_true_eq] at hboth
        refine .word (hasync ▸ rfl) fun word s₄ h' hcursor => ?_
        refine .alone (h.trans h') (whole_functionStatement hr ?_)
        rw [hcursor, kind_bump, hdef]
      · exact .fault inferInstance

theorem whole_asyncStatement (hr : r.Reads) (hkind : s.cursor.kind = .kwAsync) :
    Gives s (asyncStatement r) (Whole s) := by
  unfold asyncStatement
  refine .bind (.peek 0) fun t s₁ ht => .bind (.kind 1) fun next s₂ hnext => ?_
  obtain ⟨rfl, rfl, -⟩ := ht
  obtain ⟨rfl, hnext⟩ := hnext
  have hword {k : Token.Kind} {s' : State} (hcursor : s'.cursor = s₂.cursor.bump)
      (hnext : s₂.cursor.kind 1 = k) : s'.cursor.kind = k := by
    rwa [hcursor, kind_bump]
  split
  · exact .word (hkind ▸ rfl) fun _ s₃ h hcursor =>
      .alone h (whole_functionStatement hr (hword hcursor hnext.symm))
  · exact .word (hkind ▸ rfl) fun _ s₃ h hcursor =>
      .alone h (whole_forStatement hr (hword hcursor hnext.symm))
  · exact .word (hkind ▸ rfl) fun _ s₃ h hcursor =>
      .alone h (whole_withStatement hr (hword hcursor hnext.symm))
  · exact .fault inferInstance

/-- A statement, or a line of them, is read up to its end with all its clauses. -/
theorem whole_statement (hr : r.Reads) : Gives s (statement r) (Whole s) := by
  unfold statement
  refine .bind .isAborted fun aborted s₁ haborted => ?_
  obtain ⟨rfl, rfl⟩ := haborted
  rw [if_neg (by simp)]
  refine .bind (.kind 0) fun k s₂ hk => ?_
  obtain ⟨rfl, hkind⟩ := hk
  split
  · exact .past fun t s₃ => .fault inferInstance
  · have hword := (Read.refl s₂).bump (by rw [← hkind]; rfl)
    refine .seq (gives_branchStatement hr hword) fun st s₃ h => .pure ?_
    exact ⟨h.1, h.2, fun _ => List.cons_ne_nil _ _⟩
  · exact .alone (.refl _) (whole_whileStatement hr hkind.symm)
  · exact .alone (.refl _) (whole_forStatement hr hkind.symm)
  · exact .alone (.refl _) (whole_withStatement hr hkind.symm)
  · exact .alone (.refl _) (whole_tryStatement hr hkind.symm)
  · exact .alone (.refl _) (whole_functionStatement hr hkind.symm)
  · exact .alone (.refl _) (whole_classStatement hr hkind.symm)
  · exact whole_decoratedStatement hr
  · exact whole_asyncStatement hr hkind.symm
  · refine .seq (Q := fun b s' => s' = s₂ ∧ (b = true → s₂.cursor.kind = .ident)) ?_
      fun isMatch s₃ hmatch => ?_
    · unfold atMatch
      refine .seq .get fun before s₃ hget => .pure ?_
      obtain ⟨rfl, rfl⟩ := hget
      refine ⟨rfl, fun h => ?_⟩
      rw [Bool.and_eq_true, Bool.and_eq_true] at h
      exact kind_of_atWord h.1.1
    · obtain ⟨rfl, hword⟩ := hmatch
      split
      · next htrue => exact .alone (.refl _) (whole_matchStatement hr (hword htrue))
      · exact whole_simpleLine

end CloneScout.Grammar
