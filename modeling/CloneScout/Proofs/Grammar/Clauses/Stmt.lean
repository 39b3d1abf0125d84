import CloneScout.Proofs.Grammar.Clauses

/-!
# Clauses of the statements that are read

Each rule goes past the clauses of the statements that it finds, if the rules that it comes back to
do. A list that a grammar asks something for is read by a loop whose first round finds something,
unless the look at the tokens in front of it says otherwise.
-/

namespace CloneScout.Grammar

-- The rules are long, and so are the instances that they are steady.
set_option synthInstance.maxSize 2000

variable {s s₀ : State} {cs : List Clause} {ss : List Stmt} {r : Rules} [r.Steady]

/-! ## Simple statements -/

/-- The statement has no list that a grammar asks something for. -/
def Bare (x : Parser Stmt) : Prop := ∀ (s : State) (d : Demand), d.Met (.stmt (x.run s).1)

namespace Bare

theorem done {st : Stmt} (h : ∀ d : Demand, d.Met (.stmt st)) : Bare (pure st) := fun _ => h

theorem bind {α : Type} {x : Parser α} {f : α → Parser Stmt} (hf : ∀ a, Bare (f a)) :
    Bare (x >>= f) :=
  fun s => hf (x.run s).1 (x.run s).2

theorem auto {x : Parser Stmt} (h : Bare x := by
    repeat' (first
      | with_reducible refine .bind fun _ => ?_
      | split
      | dsimp only
      | exact .done fun d => by cases d <;> trivial)) : Bare x :=
  h

theorem gives {x : Parser Stmt} (h : Bare x) : Gives s x fun st _ => ∀ d : Demand,
    d.Seen s.cursor → d.Met (.stmt st) :=
  ⟨fun _ _ d _ => h s d⟩

end Bare

/-- The end of a simple statement of which something is asked. -/
theorem Gives.listed {first : Token} {make : Extent → Stmt}
    (hmake : ∀ (d : Demand) x, d.Met (.stmt (make x))) :
    Gives s (closeStatement first >>= fun x => Pure.pure (make x)) fun st _ =>
      ∀ d : Demand, d.Met (.stmt st) :=
  ⟨fun _ _ d => hmake d _⟩

theorem gives_nameList : Gives s nameList fun names _ => names ≠ [] := by
  unfold nameList
  refine (Gives.gather (T := fun _ names _ => names ≠ []) (E := fun _ => True)
    (fun h _ => by simp [h]) (fun h => h) fun s => ?_).mono fun _ _ h => h.1
  refine .past fun t s₁ => .seq (.expect .ident) fun found s₂ hfound => ?_
  rw [if_pos hfound.1]
  exact .past fun more s₃ => .pure ⟨by simp, fun _ => trivial⟩

theorem gives_deleteStatement : Gives s (deleteStatement r) fun st _ =>
    ∀ d : Demand, d.Met (.stmt st) := by
  unfold deleteStatement
  refine .past fun first s₁ => .past fun targets s₂ => ?_
  dsimp only
  split
  · exact .seq (Q := fun _ _ => False) .unexpected fun _ _ h => h.elim
  · next hsome =>
    have htargets : targets ≠ [] := by simpa using hsome
    exact .listed fun d x => by cases d <;> trivial

theorem gives_importStatement : Gives s importStatement fun st _ =>
    ∀ d : Demand, d.Met (.stmt st) := by
  unfold importStatement
  refine .past fun first s₁ => .seq (Q := fun names _ => names ≠ []) ?_ fun names s₂ hnames => ?_
  · refine (Gives.gather (T := fun _ names _ => names ≠ []) (E := fun _ => True)
      (fun h _ => by simp [h]) (fun h => h) fun s => ?_).mono fun _ _ h => h.1
    refine .past fun t s₁ => .past fun name s₂ => ?_
    split
    · exact .fault inferInstance
    · exact .past fun renamed s₃ => .past fun more s₄ => .pure ⟨by simp, fun _ => trivial⟩
  · exact .listed fun d x => by cases d <;> trivial

/-- Names are imported, unless the parentheses for them close at once. -/
theorem gives_importedNames {inParens : Bool} (h : inParens = true → s.cursor.kind ≠ .rparen) :
    Gives s (importedNames inParens) fun names _ => names ≠ [] := by
  unfold importedNames
  refine (Gives.gather
    (T := fun s names _ => (inParens = true → s.cursor.kind ≠ .rparen) → names ≠ [])
    (E := fun _ => True) (fun hleft _ hfirst => by simp [hleft hfirst]) (fun h => h)
    fun s => ?_).mono fun _ _ hnames => hnames.1 h
  refine .seq (.peek 0) fun t s₁ ht => ?_
  obtain ⟨rfl, rfl, -⟩ := ht
  split
  · next hclosed =>
    rw [Bool.and_eq_true, decide_eq_true_eq] at hclosed
    exact .pure ⟨fun hopen => absurd hclosed.2 (hopen hclosed.1), fun _ => trivial⟩
  · refine .seq (.expect .ident) fun found s₂ hfound => ?_
    rw [if_pos hfound.1]
    exact .past fun renamed s₃ => .past fun more s₄ => .pure ⟨fun _ => by simp, fun _ => trivial⟩

theorem gives_importedList (h : s.cursor.kind = .lparen → s.cursor.kind 1 ≠ .rparen) :
    Gives s importedList fun names _ => names ≠ [] := by
  unfold importedList
  refine .seq (.at? .star) fun star s₁ hstar => ?_
  obtain ⟨rfl, hstar⟩ := hstar
  split
  · exact .past fun t s₂ => .pure (by simp)
  · refine .seq (.eaten .lparen) fun inParens s₂ hparen => ?_
    refine .seq (gives_importedNames ?_) fun names s₃ hnames => ?_
    · rintro rfl
      obtain ⟨hkind, rfl⟩ := hparen
      rw [if_pos rfl, kind_bump]
      exact h (hkind.mp rfl)
    · dsimp only
      split
      · exact .past fun _ s₄ => .pure hnames
      · exact .pure hnames

variable [r.Stays] [r.Keeps]

omit [r.Steady] [r.Stays] [r.Keeps] in
theorem gives_importFromStatement (hkind : s.cursor.kind = .kwFrom) :
    Gives s importFromStatement fun st _ => ∀ d : Demand, d.Seen s.cursor → d.Met (.stmt st) := by
  unfold importFromStatement
  refine .word (hkind ▸ rfl) fun first s₁ h _ => .running h (Stays.runs _) fun level s₂ h => ?_
  refine .running h (Stays.runs _) fun t s₃ h => .running h (Stays.runs _) fun name s₄ h₄ => ?_
  dsimp only
  split
  · exact .fault inferInstance
  · refine .requiring h₄ (fun _ => rfl) fun s₅ h₅ hcursor himport => ?_
    rw [if_pos rfl]
    have hmet {names : List Alias} {source : Option Text} {s' : State}
        (hnames : Demand.imports.Seen s.cursor → names ≠ []) : Gives s' (do
          return Stmt.importFrom (← closeStatement first) source names level) fun st _ =>
            ∀ d : Demand, d.Seen s.cursor → d.Met (.stmt st) :=
      ⟨fun _ _ d hd => by cases d <;> first | trivial | exact hnames hd⟩
    -- The parentheses do not close at once if the tokens nowhere show an import of nothing.
    by_cases hparens : s₅.cursor.kind = .lparen ∧ s₅.cursor.kind 1 = .rparen
    · refine .past fun names s₆ => hmet fun hd => ?_
      rw [hcursor, kind_bump, kind_bump] at hparens
      exact absurd ⟨himport, hparens.1, hparens.2, trivial⟩
        (Cursor.Misses.of_tokens hd h₄.leads.tokens s₄.cursor.pos)
    · exact .seq (gives_importedList fun hopen hclose => hparens ⟨hopen, hclose⟩)
        fun names s₆ hnames => hmet fun _ => hnames

omit [r.Stays] [r.Keeps] in
/-- A simple statement has what is asked of it. -/
theorem met_simpleStatement : Gives s (simpleStatement r) fun st _ =>
    ∀ d : Demand, d.Seen s.cursor → d.Met (.stmt st) := by
  have hall {x : Parser Stmt} (h : Gives s x fun st _ => ∀ d : Demand, d.Met (.stmt st)) :
      Gives s x fun st _ => ∀ d : Demand, d.Seen s.cursor → d.Met (.stmt st) :=
    h.mono fun _ _ h d _ => h d
  have hword {make : Extent → Stmt} (h : ∀ (d : Demand) x, d.Met (.stmt (make x))) :
      Bare (wordStatement make) :=
    .bind fun _ => .bind fun x => .done fun d => h d x
  unfold simpleStatement
  refine .bind (.kind 0) fun k s₁ hk => ?_
  obtain ⟨rfl, rfl⟩ := hk
  split
  · exact (hword fun d x => by cases d <;> trivial).gives
  · exact (hword fun d x => by cases d <;> trivial).gives
  · exact (hword fun d x => by cases d <;> trivial).gives
  · exact (show Bare (returnStatement r) by unfold returnStatement; exact .auto).gives
  · exact (show Bare (raiseStatement r) by unfold raiseStatement; exact .auto).gives
  · exact hall gives_deleteStatement
  · exact (show Bare (assertStatement r) by unfold assertStatement; exact .auto).gives
  · exact hall (.past fun first s₂ => .seq gives_nameList fun names s₃ hnames =>
      .listed fun d x => by cases d <;> trivial)
  · exact hall (.past fun first s₂ => .seq gives_nameList fun names s₃ hnames =>
      .listed fun d x => by cases d <;> trivial)
  · exact hall gives_importStatement
  · next hkind => exact gives_importFromStatement hkind
  · exact (show Bare (expressionStatement r) by
      unfold expressionStatement annotated augmented assignment; exact .auto).gives

omit [r.Steady] [r.Stays] in
theorem simple_of_clean : Gives s (simpleStatement r) fun st s' =>
    st.isCompound = false ∧ s'.errors = s.errors := by
  refine ⟨fun _ hclean => ?_⟩
  obtain ⟨y, hrun, hy⟩ := simple_simpleStatement (r := r) s
  rw [hrun] at hclean ⊢
  exact ⟨hy.simple s, (hy.errors s hclean).2⟩

/-! ## Lines of simple statements -/

theorem gives_semicolons_read : Gives s (semicolons r) fun found s' =>
    Read s (Clauses.stmts found.1) found.1 s' ∧ found.1 ≠ [] ∧ found.2 = .clean := by
  unfold semicolons
  refine .loop (I := fun found s' =>
    Read s (Clauses.stmts found.1) found.1 s' ∧ found.1 ≠ [] ∧ found.2 = .clean)
    (fun ⟨found, _⟩ s₁ h => ?_) fun _ s₁ ⟨h, hrest⟩ => ⟨h.stall, hrest⟩
  have hfound : Read s (Clauses.stmts found) found s₁ := by
    rcases h with ⟨hstart, rfl⟩ | h
    · cases hstart
      exact .refl _
    · exact h.1
  refine .seq .isAborted fun aborted s₂ haborted => ?_
  obtain ⟨rfl, rfl⟩ := haborted
  rw [if_neg (by simp)]
  refine .seq .get fun before s₃ hget => ?_
  obtain ⟨rfl, rfl⟩ := hget
  refine .runningTo hfound (Stays.runs _) (simple_of_clean.and met_simpleStatement)
    fun st s₄ ⟨⟨hsimple, herrors⟩, hmet⟩ h₄ => ?_
  have hadded : Read s (Clauses.stmts (found ++ [st])) (found ++ [st]) s₄ := by
    rw [Clauses.stmts_append]
    exact h₄.simple hsimple fun d hd => hmet d (hd.of_tokens hfound.leads.tokens)
  refine .seq .get fun after s₅ hget => ?_
  obtain ⟨rfl, rfl⟩ := hget
  rw [if_neg (by simpa using herrors)]
  refine .eating hadded (fun _ => rfl) (fun _ h₅ => ?_) fun _ => ?_
  · refine .seq (.kind 0) fun k s₆ hk => .seq (.kind 0) fun k' s₇ hk' => .pure ?_
    obtain ⟨rfl, -⟩ := hk
    obtain ⟨rfl, -⟩ := hk'
    rw [Bool.cond_self]
    exact ⟨h₅, by simp, rfl⟩
  · exact .pure ⟨hadded, by simp, rfl⟩

theorem whole_simpleLine : Gives s (simpleLine r) (Whole s) := by
  unfold simpleLine
  refine .bind gives_semicolons_read fun p s₁ hread => ?_
  obtain ⟨found, lineEnd⟩ := p
  obtain ⟨h, hfull, hend⟩ := hread
  dsimp only at h hfull hend ⊢
  rw [hend]
  refine .eating h (fun _ => rfl) (fun hnewline h₂ => ?_) fun _ => ?_
  · exact .pure ⟨h₂, State.rests_bump (hnewline ▸ rfl), fun _ => hfull⟩
  · refine .seq (.at? .eof) fun eof s₂ heof => .seq .isAborted fun aborted s₃ haborted => ?_
    obtain ⟨rfl, heof⟩ := heof
    obtain ⟨rfl, rfl⟩ := haborted
    rw [Bool.or_false]
    split
    · next hkind => exact .pure ⟨h, .inr (.inl (heof.mp hkind)), fun _ => hfull⟩
    · exact .past fun t s₄ => .fault inferInstance

/-! ## Blocks -/

/-- The rules to come back to go past the clauses of the statements that they give. -/
structure Rules.Reads (r : Rules) : Prop where
  statement (s : State) : Gives s r.statement (Whole s)
  branch (s : State) (h : s.cursor.kind = .kwElif) : Gives s r.branch fun st s' =>
    Read s (Clauses.part .orelse [st]) [st] s' ∧ s'.Rests

/-- Items were read between the two states, each with the statements in it. -/
structure Parts {α : Type} (g : α → List Stmt) (s : State) (as : List α) (s' : State) : Prop where
  read : Read s (Clauses.stmts (as.flatMap g)) (as.flatMap g) s'
  full : s.cursor.Solid → ∀ a ∈ as, g a ≠ []

namespace Parts

variable {α : Type} {g : α → List Stmt} {s' s'' : State} {as bs : List α}

theorem refl (s : State) : Parts g s [] s := ⟨.refl s, by simp⟩

theorem append (h : Parts g s as s') (h' : Parts g s' bs s'') : Parts g s (as ++ bs) s'' := by
  refine ⟨?_, fun hs => List.forall_mem_append.mpr ⟨h.full hs, h'.full (h.read.solid hs)⟩⟩
  rw [List.flatMap_append, Clauses.stmts_append]
  exact h.read.trans h'.read

theorem stall (h : Parts g s as s') : Parts g s as s'.stall := ⟨h.read.stall, h.full⟩

end Parts

/-- The next token is no line end and no end of a block. -/
def State.InLine (s : State) : Prop := s.cursor.Solid ∧ s.cursor.kind.isLayout = false

/-- A round of a loop over the lines of a block, which ends with the block. -/
theorem gives_round {α : Type} {g : α → List Stmt} {line : Parser (List α × Bool)} [Steady line]
    (hline : ∀ s, Gives s line fun r s' =>
      Parts g s r.1 s' ∧ (s.cursor.Solid → r.1 ≠ []) ∧ r.2 = true) (s : State) : Gives s (do
      if (← isAborted) || (← at? .dedent) || (← at? .eof) then return ([], false)
      else if ← eat .newline then return ([], true)
      else line) fun r s' => (Parts g s r.1 s' ∧ (s.InLine → r.1 ≠ [])) ∧
        (r.2 = false → s'.cursor.kind = .dedent ∨ s'.cursor.kind = .eof) := by
  refine .seq .isAborted fun aborted s₁ haborted => ?_
  refine .seq (.at? .dedent) fun dedent s₂ hdedent => .seq (.at? .eof) fun eof s₃ heof => ?_
  obtain ⟨rfl, rfl⟩ := haborted
  obtain ⟨rfl, hdedent⟩ := hdedent
  obtain ⟨rfl, heof⟩ := heof
  have hlayout {k : Token.Kind} (hkind : s₃.cursor.kind = k) (hk : k.isLayout = true)
      (hfirst : s₃.InLine) : False :=
    Bool.false_ne_true (hfirst.2.symm.trans (hkind ▸ hk))
  split
  · next hstop =>
    rw [Bool.false_or, Bool.or_eq_true, hdedent, heof] at hstop
    exact .pure ⟨⟨.refl _, fun hfirst => (hstop.elim (hlayout · rfl hfirst)
      (hlayout · rfl hfirst)).elim⟩, fun _ => hstop⟩
  · refine .eating (.refl s₃) (fun _ => rfl) (fun hnewline h => ?_) fun _ => ?_
    · exact .pure ⟨⟨⟨h, by simp⟩, fun hfirst => (hlayout hnewline rfl hfirst).elim⟩,
        Bool.noConfusion⟩
    · exact (hline s₃).mono fun r s' ⟨hparts, hsome, hgo⟩ =>
        ⟨⟨hparts, fun hfirst => hsome hfirst.1⟩,
          fun hstop => Bool.noConfusion (hgo.symm.trans hstop)⟩

/-- The lines of a block up to its end. -/
theorem gives_lines {α : Type} {g : α → List Stmt} {body : Parser (List α × Bool)} [Steady body]
    (hbody : ∀ s, Gives s body fun r s' => (Parts g s r.1 s' ∧ (s.InLine → r.1 ≠ [])) ∧
      (r.2 = false → s'.cursor.kind = .dedent ∨ s'.cursor.kind = .eof)) :
    Gives s (collect [] body) fun as s' => (Parts g s as s' ∧ (s.InLine → as ≠ [])) ∧
        (s'.stalled = true ∨ s'.cursor.kind = .dedent ∨ s'.cursor.kind = .eof) :=
  .gather (T := fun s as s' => Parts g s as s' ∧ (s.InLine → as ≠ []))
    (E := fun s' => s'.cursor.kind = .dedent ∨ s'.cursor.kind = .eof)
    (fun h h' => ⟨h.1.append h'.1, fun hs => by simp [h.2 hs]⟩) (fun h => ⟨h.1.stall, h.2⟩) hbody

/-- Behind its lines a block has come to its end. -/
theorem Gives.dedented {s' : State} {β : Type} {cs : List Clause} {ss : List Stmt} {b : β}
    (h : Read s cs ss s')
    (hend : s'.stalled = true ∨ s'.cursor.kind = .dedent ∨ s'.cursor.kind = .eof) :
    Gives s' (do
      let _ ← Grammar.eat .dedent
      return b) fun b' s'' => b' = b ∧ Read s cs ss s'' ∧ s''.Rests := by
  refine .eating h (fun _ => rfl) (fun hdedent h => ?_) fun hother => ?_
  · exact .pure ⟨rfl, h, State.rests_bump (hdedent ▸ rfl)⟩
  · refine .pure ⟨rfl, h, ?_⟩
    rcases hend with hstalled | hdedent | heof
    · exact .inl hstalled
    · exact absurd hdedent hother
    · exact .inr (.inl heof)

omit [r.Stays] [r.Keeps] in
theorem gives_blockBody_read (hr : r.Reads) : Gives s (blockBody r) fun ss s' =>
    (Read s (Clauses.stmts ss) ss s' ∧ (s.InLine → ss ≠ [])) ∧
      (s'.stalled = true ∨ s'.cursor.kind = .dedent ∨ s'.cursor.kind = .eof) := by
  unfold blockBody
  refine (gives_lines (g := fun st => [st]) (gives_round fun s => ?_)).mono fun ss s' h =>
    ⟨⟨by simpa using h.1.1.read, h.1.2⟩, h.2⟩
  refine .seq .get fun before s₁ hget => .seq (hr.statement s₁) fun found s₂ h => ?_
  refine .seq .get fun after s₃ hget' => .seq (.at? .eof) fun eof s₄ heof => ?_
  refine .seq (.at? .dedent) fun dedent s₅ hdedent => ?_
  obtain ⟨rfl, rfl⟩ := hget
  obtain ⟨rfl, rfl⟩ := hget'
  obtain ⟨rfl, -⟩ := heof
  obtain ⟨rfl, -⟩ := hdedent
  dsimp only
  split
  · exact .seq (Q := fun _ _ => False) .unexpected fun _ _ h => h.elim
  · exact .pure ⟨⟨by simpa using h.read, by simp⟩, h.filled, rfl⟩

theorem whole_block (hr : r.Reads) : Gives s (block r) (Whole s) := by
  unfold block
  refine .seq .isAborted fun aborted s₁ haborted => ?_
  obtain ⟨rfl, rfl⟩ := haborted
  rw [if_neg (by simp)]
  refine .eating (.refl s₁) (fun _ => rfl) (fun _ h₂ => ?_) fun _ => whole_simpleLine
  rw [if_pos rfl]
  refine .eating h₂ (fun _ => rfl) (fun hindent h₃ => ?_)
    fun _ => .past fun t s₄ => .fault inferInstance
  rw [if_pos rfl]
  refine .seq (gives_blockBody_read hr) fun ss s₄ hread => ?_
  obtain ⟨⟨h, hfilled⟩, hend⟩ := hread
  refine (Gives.dedented (h₃.trans h) hend).mono fun ss' s₅ h => ?_
  obtain ⟨rfl, hread, hrests⟩ := h
  -- No layout stands behind the indentation, so the first round finds a statement.
  refine ⟨hread, hrests, fun hsolid => hfilled ⟨h₃.solid hsolid, ?_⟩⟩
  show (Cursor.kind _ 0).isLayout = false
  rw [kind_bump]
  exact h₂.solid hsolid _ hindent

/-- A colon and a block. -/
theorem whole_suite (hr : r.Reads) : Gives s (suite r) (Whole s) := by
  unfold suite
  refine .requiring (.refl s) (fun _ => rfl) fun s₁ h _ _ => ?_
  rw [if_pos rfl]
  exact (whole_block hr).mono fun ss s₂ h₂ => .after h h₂

end CloneScout.Grammar
