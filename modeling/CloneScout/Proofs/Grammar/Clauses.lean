import CloneScout.Proofs.Grammar.Inline.Rules
import CloneScout.Proofs.Grammar.Ranges.Stmt

/-!
# Statements and the clauses that open them

A rule of statements goes past the clauses of the statements that it finds, in their order. `Read`
says so of the statements found between two states, and that their lists hold what a grammar asks
for, as far as the tokens do not hide that from the parser. A clause opens at the head of a line, so
a rule that looks for one has to be there: `Rests` says that a block has come to its end.
-/

namespace CloneScout.Grammar

variable {α β : Type}

/-! ## What is asked of a tree -/

/-- What a grammar asks of the lists in a statement. -/
inductive Demand where
  | blocks
  | names
  | imports
  | items

namespace Demand

/-- A node has what is asked for. -/
def Met : Demand → Node → Prop
  | .blocks => Node.Embodied
  | .names => Node.Listed
  | .imports => Node.ImportsNames
  | .items => Node.HasItems

/-- Tokens in which the parser sees whether there is what is asked for. It takes an indentation for
the start of a block, and brackets behind an `import` or a `with` for a list. -/
def Seen : Demand → Cursor → Prop
  | .blocks, c => c.Solid
  | .names, _ => True
  | .imports, c => c.Misses [.kwImport, .lparen, .rparen]
  | .items, c => c.Misses [.kwWith, .lparen, .rparen, .colon]

theorem Seen.of_tokens {d : Demand} {c c' : Cursor} (h : d.Seen c)
    (htokens : c'.tokens = c.tokens) : d.Seen c' := by
  cases d with
  | blocks => exact Cursor.Solid.of_tokens h htokens
  | names => trivial
  | imports => exact Cursor.Misses.of_tokens h htokens
  | items => exact Cursor.Misses.of_tokens h htokens

theorem met_expr (d : Demand) (e : Expr) : d.Met (.expr e) := by cases d <;> trivial

theorem met_pattern (d : Demand) (p : Pattern) : d.Met (.pattern p) := by cases d <;> trivial

end Demand

/-! ## Between two states -/

/-- Something stands behind every indentation, words have texts, and the end is marked. -/
structure Proper (c : Cursor) : Prop where
  solid : c.Solid
  words : Worded c.tokens
  closed : c.Closed

theorem Proper.of_tokens {c c' : Cursor} (h : Proper c) (htokens : c'.tokens = c.tokens) :
    Proper c' :=
  ⟨h.solid.of_tokens htokens, by rw [htokens]; exact h.words, h.closed.of_tokens htokens⟩

/-- The parser stands at the head of a line or at the end of the tokens, unless it has stalled. -/
def State.Rests (s : State) : Prop :=
  s.stalled = true ∨ s.cursor.kind = .eof ∨ s.cursor.before.isLayout = true

theorem State.rests_bump {s : State} (h : s.cursor.kind.isLayout = true) :
    State.Rests { s with cursor := s.cursor.bump } :=
  .inr (.inr ((Cursor.isLayout_before_bump _).trans h))

/-- Between the two states the parser goes past the clauses `cs` and finds the statements `ss`. -/
structure Read (s : State) (cs : List Clause) (ss : List Stmt) (s' : State) : Prop where
  leads : s.Leads s'
  clauses (h : Proper s.cursor) (hstalled : s'.stalled = false) :
    s'.cursor.clauses = s.cursor.clauses ++ cs
  met (d : Demand) (h : d.Seen s.cursor) : ∀ c ∈ ss, Every.stmt d.Met c

namespace Read

variable {s s' s'' : State} {cs cs' : List Clause} {ss ts : List Stmt}

theorem refl (s : State) : Read s [] [] s :=
  ⟨.refl s, fun _ _ => (List.append_nil _).symm, by simp⟩

theorem trans (h : Read s cs ss s') (h' : Read s' cs' ts s'') :
    Read s (cs ++ cs') (ss ++ ts) s'' where
  leads := h.leads.trans h'.leads
  clauses hs hstalled := by
    have hmid : s'.stalled = false :=
      Bool.eq_false_iff.mpr fun hs' => Bool.noConfusion (hstalled.symm.trans (h'.leads.stalled hs'))
    rw [h'.clauses (hs.of_tokens h.leads.tokens) hstalled, h.clauses hs hmid, List.append_assoc]
  met d hd := List.forall_mem_append.mpr
    ⟨h.met d hd, h'.met d (hd.of_tokens h.leads.tokens)⟩

theorem solid (h : Read s cs ss s') (hs : s.cursor.Solid) : s'.cursor.Solid :=
  hs.of_tokens h.leads.tokens

/-- The clauses need be the right ones only where the parser sees what is in its blocks. -/
theorem of_eq (h : Read s cs ss s') (hcs : s.cursor.Solid → cs = cs') : Read s cs' ss s' :=
  ⟨h.leads, fun hs hstalled => hcs hs.solid ▸ h.clauses hs hstalled, h.met⟩

theorem stall (h : Read s cs ss s') : Read s cs ss s'.stall :=
  ⟨h.leads.trans (steady_stall.leads s'), fun _ hstalled => Bool.noConfusion hstalled, h.met⟩

/-- A compound statement with the clauses and the statements in it. -/
theorem compound (h : Read s cs ss s') {st : Stmt} (hinner : st.inner = ss)
    (hcs : Clauses.stmt st = cs) (hmet : ∀ d : Demand, d.Seen s.cursor → d.Met (.stmt st)) :
    Read s (Clauses.stmt st) [st] s' := by
  refine ⟨h.leads, hcs ▸ h.clauses, fun d hd => ?_⟩
  rw [List.forall_mem_singleton, Every.stmt_iff_inner d.met_expr d.met_pattern, hinner]
  exact ⟨hmet d hd, h.met d hd⟩

/-- A simple statement. -/
theorem simple (h : Read s cs ss s') {st : Stmt} (hsimple : st.isCompound = false)
    (hmet : ∀ d : Demand, d.Seen s.cursor → d.Met (.stmt st)) :
    Read s (cs ++ Clauses.stmts [st]) (ss ++ [st]) s' := by
  have hinner : st.inner = [] := by cases st <;> first | rfl | exact Bool.noConfusion hsimple
  rw [Clauses.stmts_singleton, Clauses.stmt_of_simple hsimple, List.append_nil]
  refine ⟨h.leads, h.clauses, fun d hd => List.forall_mem_append.mpr ⟨h.met d hd, ?_⟩⟩
  rw [List.forall_mem_singleton, Every.stmt_iff_inner d.met_expr d.met_pattern, hinner]
  exact ⟨hmet d hd, by simp⟩

/-- A token that opens no clause. -/
theorem bump (h : Read s cs ss s')
    (hkind : s'.cursor.before.clause? s'.cursor.kind = none) :
    Read s cs ss { s' with cursor := s'.cursor.bump } := by
  have hstep : Read s' [] [] { s' with cursor := s'.cursor.bump } :=
    ⟨steady_bump.leads s', fun _ _ => by
      rw [List.append_nil]
      exact Cursor.clauses_bump_of_none hkind, by simp⟩
  simpa using h.trans hstep

/-- A token that opens a clause. -/
theorem opens {c : Clause} (hkind : s.cursor.before.clause? s.cursor.kind = some c) :
    Read s [c] [] { s with cursor := s.cursor.bump } := by
  refine ⟨steady_bump.leads s, fun hs _ => ?_, by simp⟩
  have hlt : s.cursor.pos < s.cursor.tokens.size :=
    hs.closed.pos_lt fun heof => by rw [heof] at hkind; cases hkind
  show s.cursor.bump.clauses = _
  rw [Cursor.clauses_bump hlt, hkind]
  rfl

/-- At the head of a line an `else` opens a clause. -/
theorem opensElse (hrests : s.Rests) (hkind : s.cursor.kind = .kwElse) :
    Read s [.orelse] [] { s with cursor := s.cursor.bump } := by
  rcases hrests with hstalled | heof | hbefore
  · exact ⟨steady_bump.leads s,
      fun _ hgoing => Bool.noConfusion (hgoing.symm.trans hstalled), by simp⟩
  · rw [heof] at hkind
    cases hkind
  · refine opens ?_
    rw [hkind]
    exact if_pos hbefore

/-- A part that stays on the line. -/
theorem along (h : Read s cs ss s') (hleads : s'.Leads s'')
    (hinline : Worded s'.cursor.tokens → Inline s'.cursor s''.cursor) : Read s cs ss s'' := by
  have hstep : Read s' [] [] s'' :=
    ⟨hleads, fun hs _ => by rw [List.append_nil]; exact (hinline hs.words).clauses, by simp⟩
  simpa using h.trans hstep

end Read

/-- The statements `ss` were read between the two states up to the end of a line or a block. -/
structure Whole (s : State) (ss : List Stmt) (s' : State) : Prop where
  read : Read s (Clauses.stmts ss) ss s'
  rests : s'.Rests
  filled : s.cursor.Solid → ss ≠ []

theorem Whole.after {s s' s'' : State} {ss : List Stmt} (h : Read s [] [] s')
    (h' : Whole s' ss s'') : Whole s ss s'' :=
  ⟨h.trans h'.read, h'.rests, fun hs => h'.filled (h.solid hs)⟩

/-! ## Walking a rule -/

namespace Gives

variable {s s₀ : State} {cs : List Clause} {ss : List Stmt} {x : Parser α} {f : α → Parser β}
  {R : β → State → Prop}

section Steady

variable [∀ a, Steady (f a)]

/-- A part that stays on the line, of which something is known. -/
theorem runningTo {Q : α → State → Prop} (h : Read s₀ cs ss s) (hruns : Runs s x)
    (hx : Gives s x Q) (hf : ∀ a s', Q a s' → Read s₀ cs ss s' → Gives s' (f a) R) :
    Gives s (x >>= f) R := by
  refine ⟨fun hs hclean => ?_⟩
  have hmid : (x.run s).2.Clean := (Steady.leads (x := f (x.run s).1) _).clean hclean
  have hread := h.along hruns.leads fun hwords => hruns.inline hs hwords hmid
  exact (hf _ _ (hx.holds hs hmid) hread).holds (hs.of_leads hruns.leads hmid) hclean

/-- A part that stays on the line. -/
theorem running (h : Read s₀ cs ss s) (hruns : Runs s x)
    (hf : ∀ a s', Read s₀ cs ss s' → Gives s' (f a) R) : Gives s (x >>= f) R :=
  .runningTo (Q := fun _ _ => True) h hruns ⟨fun _ _ => trivial⟩ fun a s' _ => hf a s'

end Steady

/-- A token that has to be there is there. -/
theorem requiring {k : Token.Kind} {f : Bool → Parser β} [∀ b, Steady (f b)] (h : Read s₀ cs ss s)
    (hk : ∀ before : Token.Kind, before.clause? k = none)
    (hf : ∀ s', Read s₀ cs ss s' → s'.cursor = s.cursor.bump → s.cursor.kind = k →
      Gives s' (f true) R) : Gives s (Grammar.expect k >>= f) R := by
  refine .seq (.taken k) fun b s' hb => ?_
  obtain ⟨rfl, hkind, rfl⟩ := hb
  exact hf _ (h.bump (hkind ▸ hk _)) rfl hkind

/-- A token that opens no clause is taken if it is there. -/
theorem eating {k : Token.Kind} {f : Bool → Parser β} [∀ b, Steady (f b)] (h : Read s₀ cs ss s)
    (hk : ∀ before : Token.Kind, before.clause? k = none)
    (htrue : s.cursor.kind = k → Read s₀ cs ss { s with cursor := s.cursor.bump } →
      Gives { s with cursor := s.cursor.bump } (f true) R)
    (hfalse : s.cursor.kind ≠ k → Gives s (f false) R) : Gives s (Grammar.eat k >>= f) R := by
  refine .seq (.eaten k) fun b s' ⟨hkind, hs'⟩ => ?_
  cases b with
  | true =>
    subst hs'
    exact htrue (hkind.mp rfl) (h.bump (hkind.mp rfl ▸ hk _))
  | false =>
    subst hs'
    exact hfalse fun hk => Bool.noConfusion (hkind.mpr hk)

/-- The next token, whose kind is known, is taken. -/
theorem bumped : Gives s Grammar.bump fun t s' =>
    t = s.cursor.peek ∧ s' = { s with cursor := s.cursor.bump } :=
  ⟨fun _ _ => ⟨rfl, rfl⟩⟩

/-- The word that a statement starts with. -/
theorem word {f : Token → Parser β} [∀ t, Steady (f t)] (hfree : s.cursor.kind.isFree = true)
    (hf : ∀ t s', Read s [] [] s' → s'.cursor = s.cursor.bump → Gives s' (f t) R) :
    Gives s (Grammar.bump >>= f) R := by
  refine .seq bumped fun t s' ht => ?_
  obtain ⟨-, rfl⟩ := ht
  exact hf t _ ((Read.refl s).bump (Token.Kind.clause?_of_isFree hfree _)) rfl

/-- The end of a compound statement. -/
theorem done {first : Token} {make : Extent → Stmt} (h : Read s₀ cs ss s) (hrests : s.Rests)
    (hinner : ∀ x, (make x).inner = ss) (hcs : ∀ x, Clauses.stmt (make x) = cs)
    (hmet : ∀ (d : Demand) x, d.Seen s₀.cursor → d.Met (.stmt (make x))) :
    Gives s (closeCompound first >>= fun x => Pure.pure (make x)) fun st s' => Whole s₀ [st] s' := by
  refine ⟨fun _ _ => ⟨?_, hrests, fun _ => List.cons_ne_nil _ _⟩⟩
  rw [Clauses.stmts_singleton]
  exact h.compound (hinner _) (hcs _) fun d => hmet d _

/-- A loop that collects items, each round behind the one before. -/
theorem gather {T : State → List α → State → Prop} {E : State → Prop}
    {body : Parser (List α × Bool)} [c : Steady body]
    (htrans : ∀ {s s' s'' : State} {as bs : List α}, T s as s' → T s' bs s'' → T s (as ++ bs) s'')
    (hstall : ∀ {s s' : State} {as : List α}, T s as s' → T s as s'.stall)
    (hbody : ∀ s, Gives s body fun r s' => T s r.1 s' ∧ (r.2 = false → E s')) :
    Gives s (Grammar.collect [] body) fun as s' => T s as s' ∧ (s'.stalled = true ∨ E s') := by
  unfold Grammar.collect
  -- The loop keeps its items in reverse order.
  refine .seq (Q := fun found s' => T s found.reverse s' ∧ (s'.stalled = true ∨ E s'))
    (.loop (I := fun found s' => T s found.reverse s') (fun found s₁ h => ?_)
      fun found s₁ h => ⟨hstall h, .inl rfl⟩)
    fun found s₁ h => .pure h
  refine .seq (hbody s₁) fun ⟨more, go⟩ s₂ ⟨hmore, hend⟩ => .pure ?_
  have hfound : T s (more.reverse ++ found).reverse s₂ := by
    rw [List.reverse_append, List.reverse_reverse]
    rcases h with ⟨rfl, rfl⟩ | h
    · simpa using hmore
    · exact htrans h hmore
  cases go with
  | true => exact hfound
  | false => exact ⟨hfound, .inr (hend rfl)⟩

end Gives

end CloneScout.Grammar
