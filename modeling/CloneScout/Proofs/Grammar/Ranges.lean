import CloneScout.Proofs.Grammar.State
import CloneScout.Proofs.Token.Indents
import CloneScout.Proofs.Token.Order
import CloneScout.Proofs.Tree.Ranges

/-!
# Where statements end

A parser remembers the last line of the simple statement read last, and a compound statement ends
there. Rules of expressions and patterns close no statement, so they leave that line alone; a rule
of statements moves it on, and never beyond the line of the next token. `Keeps` is for the former.
`Found` says where the statements lie that were found between two states of the latter, and a rule
is proved by walking its text with the rules `onward`, `placing` and `compound`.
-/

namespace CloneScout.Grammar

variable {α β σ : Type}

/-! ## Parsers that close no statement -/

/-- A parser that leaves the end of the last statement alone. If it ends without a report it has
counted no fault. -/
class Keeps (x : Parser α) : Prop where
  lastLine (s : State) : (x.run s).2.lastLine = s.lastLine
  errors (s : State) (h : (x.run s).2.Clean) : s.Clean ∧ (x.run s).2.errors = s.errors

namespace State

theorem lastLine_addFault (s : State) (code : Diagnostic.Code) (span : Span) (arg : Text) :
    (s.addFault code span arg).lastLine = s.lastLine := by
  unfold addFault
  dsimp only
  split
  · rfl
  · split <;> rfl

theorem lastLine_report (s : State) (code : Diagnostic.Code) (span : Span) (arg : Text) :
    (s.report code span arg).lastLine = s.lastLine := by
  unfold State.report
  dsimp only
  split
  · rfl
  · split
    · rfl
    · rw [lastLine_addFault]

theorem errors_report {s : State} {code : Diagnostic.Code} {span : Span} {arg : Text}
    (h : (s.report code span arg).Clean) :
    s.Clean ∧ (s.report code span arg).errors = s.errors := by
  refine ⟨(s.leads_report code span arg).clean h, ?_⟩
  unfold State.report at h ⊢
  dsimp only at h ⊢
  split
  · rfl
  · next hnew =>
    rw [if_neg hnew] at h
    split
    · rfl
    · next hother =>
      rw [if_neg hother] at h
      exact absurd h (not_clean_addFault _ _ _ _)

end State

/-- A parser that changes neither the end of the last statement nor what was reported. -/
theorem Keeps.of_eq {x : Parser α} (hlast : ∀ s, (x.run s).2.lastLine = s.lastLine)
    (hdiags : ∀ s, (x.run s).2.diags = s.diags) (herrors : ∀ s, (x.run s).2.errors = s.errors) :
    Keeps x :=
  ⟨hlast, fun s h => ⟨by unfold State.Clean at h ⊢; rwa [← hdiags s], herrors s⟩⟩

instance keeps_pure (a : α) : Keeps (pure a) := .of_eq (fun _ => rfl) (fun _ => rfl) fun _ => rfl

instance keeps_bind (x : Parser α) (f : α → Parser β) [hx : Keeps x] [hf : ∀ a, Keeps (f a)] :
    Keeps (x >>= f) :=
  ⟨fun s => ((hf _).lastLine _).trans (hx.lastLine s), fun s h => by
    obtain ⟨hclean, herrors⟩ := (hf _).errors _ h
    obtain ⟨hclean', herrors'⟩ := hx.errors s hclean
    exact ⟨hclean', herrors.trans herrors'⟩⟩

instance keeps_map (f : α → β) (x : Parser α) [hx : Keeps x] : Keeps (f <$> x) :=
  ⟨fun s => hx.lastLine s, fun s h => hx.errors s h⟩

instance keeps_ite (c : Prop) [Decidable c] (x y : Parser α) [Keeps x] [Keeps y] :
    Keeps (if c then x else y) := by
  split <;> infer_instance

instance keeps_get : Keeps (get : Parser State) := .of_eq (fun _ => rfl) (fun _ => rfl) fun _ => rfl

instance keeps_peek (k : Nat) : Keeps (peek k) := .of_eq (fun _ => rfl) (fun _ => rfl) fun _ => rfl

instance keeps_kind (k : Nat) : Keeps (kind k) := .of_eq (fun _ => rfl) (fun _ => rfl) fun _ => rfl

instance keeps_at (k : Token.Kind) : Keeps (at? k) :=
  .of_eq (fun _ => rfl) (fun _ => rfl) fun _ => rfl

instance keeps_isAborted : Keeps isAborted := .of_eq (fun _ => rfl) (fun _ => rfl) fun _ => rfl

instance keeps_extentFrom (t : Token) : Keeps (extentFrom t) :=
  .of_eq (fun _ => rfl) (fun _ => rfl) fun _ => rfl

instance keeps_errorHere : Keeps errorHere := .of_eq (fun _ => rfl) (fun _ => rfl) fun _ => rfl

instance keeps_abort : Keeps abort := .of_eq (fun _ => rfl) (fun _ => rfl) fun _ => rfl

instance keeps_stall : Keeps stall := .of_eq (fun _ => rfl) (fun _ => rfl) fun _ => rfl

instance keeps_moveCursor (f : Cursor → Cursor) : Keeps (moveCursor f) :=
  .of_eq (fun _ => rfl) (fun _ => rfl) fun _ => rfl

instance keeps_bump : Keeps bump := by
  unfold bump
  infer_instance

instance keeps_recoverToNewline : Keeps recoverToNewline := keeps_moveCursor _

instance keeps_recoverTo (stops : List Token.Kind) : Keeps (recoverTo stops) := keeps_moveCursor _

instance keeps_eat (k : Token.Kind) : Keeps (eat k) := by
  unfold eat
  infer_instance

instance keeps_report (code : Diagnostic.Code) (span : Span) (arg : Text) :
    Keeps (report code span arg) :=
  ⟨fun s => s.lastLine_report code span arg, fun _ h => State.errors_report h⟩

instance keeps_expect (k : Token.Kind) : Keeps (expect k) := by
  unfold expect
  dsimp only
  infer_instance

instance keeps_close (k : Token.Kind) : Keeps (close k) := by
  unfold close
  infer_instance

instance keeps_unexpected : Keeps unexpected := by
  unfold unexpected
  infer_instance

instance keeps_iterate (body : σ → Parser (σ × Bool)) [∀ a, Keeps (body a)] (n : Nat) (a : σ) :
    Keeps (iterate body n a) := by
  induction n generalizing a with
  | zero =>
    unfold iterate
    infer_instance
  | succ n ih =>
    unfold iterate
    infer_instance

instance keeps_loop (start : σ) (body : σ → Parser (σ × Bool)) [∀ a, Keeps (body a)] :
    Keeps (loop start body) := by
  unfold loop
  infer_instance

instance keeps_collect (start : List α) (body : Parser (List α × Bool)) [Keeps body] :
    Keeps (collect start body) := by
  unfold collect
  infer_instance

instance keeps_collectAfter (sep : Token.Kind) (start : List α) (item : Parser α) [Keeps item] :
    Keeps (collectAfter sep start item) := by
  unfold collectAfter
  infer_instance

instance keeps_collectCommas (start : List α) (stops : Parser Bool) (item : Parser α)
    [Keeps stops] [Keeps item] : Keeps (collectCommas start stops item) := by
  unfold collectCommas
  infer_instance

instance keeps_mapM (f : α → Parser β) [∀ a, Keeps (f a)] (l : List α) : Keeps (l.mapM f) := by
  induction l with
  | nil =>
    rw [List.mapM_nil]
    infer_instance
  | cons a l ih =>
    rw [List.mapM_cons]
    infer_instance

/-- Sequences, branches, cases and repetitions of parsers that close no statement. -/
theorem Keeps.auto {x : Parser α} (h : Keeps x := by
    repeat' (first
      | infer_instance
      | with_reducible refine @keeps_bind _ _ _ _ ?_ fun _ => ?_
      | with_reducible refine @keeps_map _ _ _ _ ?_
      | with_reducible refine @keeps_loop _ _ _ fun _ => ?_
      | with_reducible refine @keeps_collect _ _ _ ?_
      | with_reducible refine @keeps_mapM _ _ _ (fun _ => ?_) _
      | split
      | dsimp only)) : Keeps x :=
  h

/-! ## Lines of tokens -/

end Grammar

namespace Cursor

variable {c c' : Cursor}

namespace Lined

theorem peek_mono (h : c.Lined) (honward : Grammar.Onward c c') :
    c.peek.line ≤ c'.peek.line := by
  obtain ⟨tokens, pos⟩ := c
  obtain ⟨tokens', pos'⟩ := c'
  obtain ⟨htokens, hpos⟩ := honward
  obtain rfl : tokens' = tokens := htokens
  exact h.line_mono hpos

theorem endLine_bump (h : c.Lined) : c.peek.endLine ≤ c.bump.peek.line := by
  rw [Grammar.peek_bump]
  exact h.order (Nat.lt_succ_self c.pos)

/-- Whatever was read from the next token on, if anything, ends no later than the next one then. -/
theorem endLine_between (h : c.Lined) (honward : Grammar.Onward c c') :
    (Grammar.extentBetween c.peek c'.prev).line = c.peek.line ∧
      c.peek.line ≤ (Grammar.extentBetween c.peek c'.prev).endLine ∧
      (Grammar.extentBetween c.peek c'.prev).endLine ≤ c'.peek.endLine := by
  obtain ⟨tokens, pos⟩ := c
  obtain ⟨tokens', pos'⟩ := c'
  obtain ⟨htokens, hpos⟩ := honward
  obtain rfl : tokens' = tokens := htokens
  have hrange (i : Nat) := h.range i
  have horder {i j : Nat} (hij : i < j) := h.order hij
  have hfirst :
      (Cursor.get ⟨tokens', pos⟩ pos).endLine ≤ (Cursor.get ⟨tokens', pos⟩ pos').endLine := by
    rcases Nat.eq_or_lt_of_le hpos with heq | hlt
    · rw [show pos' = pos from heq.symm]
    · exact Nat.le_trans (horder hlt) (hrange pos').2
  have hlast :
      (Cursor.prev ⟨tokens', pos'⟩).endLine ≤ (Cursor.get ⟨tokens', pos⟩ pos').endLine := by
    unfold Cursor.prev
    split
    · exact Nat.le_refl _
    · next hne => exact Nat.le_trans (horder (Nat.sub_one_lt hne)) (hrange pos').2
  have hline : (Cursor.get ⟨tokens', pos⟩ pos).line ≤ (Cursor.get ⟨tokens', pos⟩ pos).endLine :=
    (hrange pos).2
  unfold Grammar.extentBetween
  split
  · exact ⟨rfl, hline, hfirst⟩
  · exact ⟨rfl, Nat.le_max_right _ _, Nat.max_le.mpr ⟨hlast, Nat.le_trans hline hfirst⟩⟩

end Lined

end Cursor

namespace Grammar

variable {α β σ : Type}

namespace State

/-- The line of the next token. -/
def line (s : State) : Nat := s.cursor.peek.line

/-- The tokens are in the order of their lines, and the last statement ends in front of the next
token. -/
structure Placed (s : State) : Prop where
  lined : s.cursor.Lined
  lastLine : s.lastLine ≤ s.line

/-- The parser goes on and closes no statement. -/
structure Passes (s s' : State) : Prop where
  onward : Onward s.cursor s'.cursor
  lastLine : s'.lastLine = s.lastLine

end State

theorem passes_run (x : Parser α) [hsteady : Steady x] [hkeeps : Keeps x] (s : State) :
    s.Passes (x.run s).2 :=
  ⟨⟨(hsteady.leads s).tokens, (hsteady.leads s).pos⟩, hkeeps.lastLine s⟩

/-! ## Statements between two states -/

/-- The statements `ss` were found between the states `s` and `s'` and reach up to line `n`. When
every compound statement holds a statement, each of them ends with a simple one, so they are nested
and end in front of the last line that the parser remembers. -/
structure Found (s : State) (ss : List Stmt) (s' : State) (n : Nat) : Prop where
  onward : Onward s.cursor s'.cursor
  lined : s'.cursor.Lined
  line : s'.line ≤ n
  lastLine : s.lastLine ≤ s'.lastLine ∧ s'.lastLine ≤ n
  inOrder : InOrder ss
  bounds : ∀ c ∈ ss, s.line ≤ c.extent.line ∧ c.extent.endLine ≤ n
  ordered : ∀ c ∈ ss, Every.stmt Node.Ordered c
  nested : ∀ c ∈ ss, Every.stmt Node.Filled c →
    Every.stmt Node.Nested c ∧ c.extent.endLine ≤ s'.lastLine
  filled : s.cursor.Solid → ∀ c ∈ ss, Every.stmt Node.Filled c

namespace Found

variable {s s' s'' : State} {ss ts : List Stmt} {n : Nat}

theorem start (h : Found s ss s' n) : s.cursor.Lined := h.lined.of_tokens h.onward.tokens.symm

theorem placed (h : Found s ss s' s'.line) : s'.Placed := ⟨h.lined, h.lastLine.2⟩

theorem nil (h : s.Placed) (hpasses : s.Passes s') : Found s [] s' s'.line where
  onward := hpasses.onward
  lined := h.lined.of_tokens hpasses.onward.tokens
  line := Nat.le_refl _
  lastLine := by
    rw [hpasses.lastLine]
    exact ⟨Nat.le_refl _, Nat.le_trans h.lastLine (h.lined.peek_mono hpasses.onward)⟩
  inOrder := .nil
  bounds := by simp
  ordered := by simp
  nested := by simp
  filled := by simp

/-- What is found later stands behind what was found before. -/
theorem trans (h : Found s ss s' s'.line) (h' : Found s' ts s'' n) : Found s (ss ++ ts) s'' n where
  onward := h.onward.trans h'.onward
  lined := h'.lined
  line := h'.line
  lastLine := ⟨Nat.le_trans h.lastLine.1 h'.lastLine.1, h'.lastLine.2⟩
  inOrder := by
    refine ⟨List.forall_mem_append.mpr ⟨h.inOrder.range, h'.inOrder.range⟩, ?_⟩
    -- The line between the two states stands between the statements of both.
    refine List.pairwise_append.mpr ⟨h.inOrder.pairwise, h'.inOrder.pairwise, fun a ha b hb => ?_⟩
    exact Nat.le_trans (h.bounds a ha).2 (h'.bounds b hb).1
  bounds := by
    have hline : s.line ≤ s'.line := h.start.peek_mono h.onward
    have hn : s'.line ≤ n := Nat.le_trans (h.lined.peek_mono h'.onward) h'.line
    refine List.forall_mem_append.mpr ⟨fun c hc => ?_, fun c hc => ?_⟩
    · exact ⟨(h.bounds c hc).1, Nat.le_trans (h.bounds c hc).2 hn⟩
    · exact ⟨Nat.le_trans hline (h'.bounds c hc).1, (h'.bounds c hc).2⟩
  ordered := List.forall_mem_append.mpr ⟨h.ordered, h'.ordered⟩
  nested := by
    refine List.forall_mem_append.mpr ⟨fun c hc hfilled => ?_, h'.nested⟩
    obtain ⟨hnested, hend⟩ := h.nested c hc hfilled
    exact ⟨hnested, Nat.le_trans hend h'.lastLine.1⟩
  filled hsolid := List.forall_mem_append.mpr
    ⟨h.filled hsolid, h'.filled (hsolid.of_tokens h.onward.tokens)⟩

theorem pass (h : Found s ss s' s'.line) (hpasses : s'.Passes s'') : Found s ss s'' s''.line := by
  have := h.trans (.nil h.placed hpasses)
  rwa [List.append_nil] at this

theorem stall (h : Found s ss s' n) : Found s ss s'.stall n := { h with }

/-- A compound statement that ends with the simple statement read last. -/
theorem compound (h : Found s ss s' s'.line) {st : Stmt} (hinner : st.inner = ss)
    (hcompound : st.isCompound = true) (hline : st.extent.line = s.line)
    (hend : st.extent.endLine = max s'.lastLine s.line) (hfilled : s.cursor.Solid → ss ≠ []) :
    Found s [st] s' s'.line := by
  have hs : s.cursor.Lined := h.start
  have hrange : st.extent.IsRange := by
    rw [Extent.IsRange, hline, hend]
    exact ⟨(hs.range _).1, Nat.le_max_right _ _⟩
  have hless : s.line ≤ s'.line := hs.peek_mono h.onward
  -- A property of statements holds everywhere in the new one if it does so in the parts of it.
  have hevery {P : Node → Prop} (he : ∀ e, P (.expr e)) (hp : ∀ p, P (.pattern p))
      (htop : P (.stmt st)) (hss : ∀ c ∈ ss, Every.stmt P c) : Every.stmt P st :=
    (Every.stmt_iff_inner he hp).mpr ⟨htop, by rwa [hinner]⟩
  refine ⟨h.onward, h.lined, Nat.le_refl _, h.lastLine, ⟨by simpa using hrange, by simp⟩, ?_, ?_,
    ?_, ?_⟩
  · simp only [List.forall_mem_singleton]
    exact ⟨Nat.le_of_eq hline.symm, by rw [hend]; exact Nat.max_le.mpr ⟨h.lastLine.2, hless⟩⟩
  · rw [List.forall_mem_singleton]
    refine hevery (fun _ => trivial) (fun _ => trivial)
      ⟨hrange, by rw [hinner]; exact h.inOrder, ?_⟩ h.ordered
    rw [hinner, hline]
    exact fun c hc => (h.bounds c hc).1
  · rw [List.forall_mem_singleton]
    intro hfull
    obtain ⟨hnode, hparts⟩ := (Every.stmt_iff_inner (fun _ => trivial) fun _ => trivial).mp hfull
    rw [hinner] at hparts
    have hpart (c : Stmt) (hc : c ∈ ss) := h.nested c hc (hparts c hc)
    refine ⟨hevery (fun _ => trivial) (fun _ => trivial) ?_ fun c hc => (hpart c hc).1, ?_⟩
    · show ∀ c ∈ st.inner, _
      rw [hinner]
      intro c hc
      refine ⟨by rw [hline]; exact (h.bounds c hc).1, ?_⟩
      rw [hend]
      exact Nat.le_trans (hpart c hc).2 (Nat.le_max_left _ _)
    -- A statement inside ends no later than the last simple one, so that ends behind the first line.
    · obtain ⟨c, hc⟩ := List.exists_mem_of_ne_nil ss (hinner ▸ hnode hcompound)
      rw [hend]
      refine Nat.max_le.mpr ⟨Nat.le_refl _, ?_⟩
      calc s.line ≤ c.extent.line := (h.bounds c hc).1
        _ ≤ c.extent.endLine := (h.inOrder.range c hc).2
        _ ≤ s'.lastLine := (hpart c hc).2
  · intro hsolid
    rw [List.forall_mem_singleton]
    refine hevery (fun _ => trivial) (fun _ => trivial) (fun _ => ?_) (h.filled hsolid)
    rw [hinner]
    exact hfilled hsolid

/-- A simple statement that ends with the token read last. -/
theorem simple (hs : s.Placed) (honward : Onward s.cursor s'.cursor) {st : Stmt}
    (hsimple : st.isCompound = false)
    (hextent : st.extent = extentBetween s.cursor.peek s'.cursor.prev)
    (hlast : s'.lastLine = st.extent.endLine) : Found s [st] s' s'.cursor.peek.endLine := by
  have hinner : st.inner = [] := by cases st <;> first | rfl | nomatch hsimple
  obtain ⟨hline, hle, hend⟩ := hs.lined.endLine_between honward
  rw [← hextent] at hline hle hend
  have hlined : s'.cursor.Lined := hs.lined.of_tokens honward.tokens
  have hrange : st.extent.IsRange := by
    rw [Extent.IsRange, hline]
    exact ⟨(hs.lined.range _).1, hle⟩
  have hevery {P : Node → Prop} (he : ∀ e, P (.expr e)) (hp : ∀ p, P (.pattern p))
      (htop : P (.stmt st)) : Every.stmt P st :=
    (Every.stmt_iff_inner he hp).mpr ⟨htop, by simp [hinner]⟩
  refine ⟨honward, hlined, (hlined.range _).2, ⟨?_, hlast ▸ hend⟩,
    ⟨by simpa using hrange, by simp⟩, ?_, ?_, ?_, ?_⟩
  · rw [hlast]
    exact Nat.le_trans hs.lastLine hle
  · rw [List.forall_mem_singleton]
    exact ⟨Nat.le_of_eq hline.symm, hend⟩
  · rw [List.forall_mem_singleton]
    exact hevery (fun _ => trivial) (fun _ => trivial)
      ⟨hrange, by rw [hinner]; exact .nil, by simp [hinner]⟩
  · rw [List.forall_mem_singleton]
    intro _
    refine ⟨hevery (fun _ => trivial) (fun _ => trivial) ?_, Nat.le_of_eq hlast.symm⟩
    simp [Node.Nested, hinner]
  · intro _
    rw [List.forall_mem_singleton]
    exact hevery (fun _ => trivial) (fun _ => trivial) (by simp [Node.Filled, hsimple])

end Found

theorem State.Placed.found {s : State} (h : s.Placed) : Found s [] s s.line :=
  .nil h ⟨.refl _, rfl⟩

/-! ## Simple statements -/

/-- A parser that ends with a simple statement from the token `first` on, which it closes. -/
class Closes (first : Token) (x : Parser Stmt) : Prop where
  simple (s : State) : (x.run s).1.isCompound = false
  extent (s : State) : (x.run s).1.extent = extentBetween first (x.run s).2.cursor.prev
  lastLine (s : State) : (x.run s).2.lastLine = (x.run s).1.extent.endLine
  errors (s : State) (h : (x.run s).2.Clean) : s.Clean ∧ (x.run s).2.errors = s.errors

namespace Closes

variable {first : Token}

theorem done {make : Extent → Stmt} (h : ∀ x, (make x).isCompound = false ∧ (make x).extent = x) :
    Closes first (closeStatement first >>= fun x => pure (make x)) where
  simple _ := (h _).1
  extent _ := (h _).2
  lastLine _ := congrArg Extent.endLine (h _).2.symm
  errors _ hclean := ⟨hclean, rfl⟩

theorem bind {x : Parser α} {f : α → Parser Stmt} [hx : Keeps x] (hf : ∀ a, Closes first (f a)) :
    Closes first (x >>= f) where
  simple _ := (hf _).simple _
  extent _ := (hf _).extent _
  lastLine _ := (hf _).lastLine _
  errors s hclean := by
    obtain ⟨hmid, herrors⟩ := (hf _).errors _ hclean
    obtain ⟨hstart, herrors'⟩ := hx.errors s hmid
    exact ⟨hstart, herrors.trans herrors'⟩

/-- Parts that close no statement, and a simple statement at the end. -/
theorem auto {x : Parser Stmt} (h : Closes first x := by
    repeat' (first
      | with_reducible refine .done fun _ => ⟨rfl, rfl⟩
      | with_reducible refine @Closes.bind _ _ _ _ .auto fun _ => ?_
      | split
      | infer_instance
      | dsimp only)) : Closes first x :=
  h

end Closes

/-- A parser that reads a simple statement from the next token on. -/
def Simple (x : Parser Stmt) : Prop :=
  ∀ s, ∃ y : Parser Stmt, x.run s = y.run s ∧ Closes s.cursor.peek y

namespace Simple

theorem peek {f : Token → Parser Stmt} (hf : ∀ t, Closes t (f t)) : Simple (peek >>= f) :=
  fun s => ⟨f s.cursor.peek, rfl, hf _⟩

theorem bump {f : Token → Parser Stmt} (hf : ∀ t, Closes t (f t)) : Simple (bump >>= f) :=
  fun s => ⟨Grammar.bump >>= fun _ => f s.cursor.peek, rfl, .bind fun _ => hf _⟩

theorem kind {f : Token.Kind → Parser Stmt} (hf : ∀ k, Simple (f k)) : Simple (kind >>= f) :=
  fun s => hf _ s

theorem gives {x : Parser Stmt} [hsteady : Steady x] (hx : Simple x) {s : State} (hs : s.Placed) :
    Gives s x fun st s' => Found s [st] s' s'.cursor.peek.endLine ∧ s'.errors = s.errors := by
  refine ⟨fun _ hclean => ?_⟩
  have hleads := hsteady.leads s
  obtain ⟨y, hrun, hy⟩ := hx s
  rw [hrun] at hclean hleads ⊢
  exact ⟨.simple hs ⟨hleads.tokens, hleads.pos⟩ (hy.simple s) (hy.extent s) (hy.lastLine s),
    (hy.errors s hclean).2⟩

end Simple

/-! ## Walking a rule -/

/-- The parser finds the statements in what it gives. -/
def Places (g : α → List Stmt) (x : Parser α) : Prop :=
  ∀ s, s.Placed → Gives s x fun a s' => Found s (g a) s' s'.line

/-- The parser finds the statements in what it gives, and there are some if something stands behind
every indentation. -/
def Fills (g : α → List Stmt) (x : Parser α) : Prop :=
  ∀ s, s.Placed →
    Gives s x fun a s' => Found s (g a) s' s'.line ∧ (s.cursor.Solid → g a ≠ [])

theorem Fills.places {g : α → List Stmt} {x : Parser α} (h : Fills g x) : Places g x :=
  fun s hs => (h s hs).mono fun _ _ h => h.1

namespace Gives

variable {s₀ s : State} {ss : List Stmt} {x : Parser α} {f : α → Parser β} {R : β → State → Prop}

theorem and {Q Q' : α → State → Prop} (h : Gives s x Q) (h' : Gives s x Q') :
    Gives s x fun a s' => Q a s' ∧ Q' a s' :=
  ⟨fun hs hclean => ⟨h.holds hs hclean, h'.holds hs hclean⟩⟩

section Steady

variable [Steady x] [c : ∀ a, Steady (f a)]

/-- A part that closes no statement, of which something is known. -/
theorem along {Q : α → State → Prop} [Keeps x] (h : Found s₀ ss s s.line) (hx : Gives s x Q)
    (hf : ∀ a s', Q a s' → Found s₀ ss s' s'.line → Gives s' (f a) R) : Gives s (x >>= f) R :=
  .seq (hx.and ⟨fun _ _ => h.pass (passes_run x s)⟩) fun a s' hq => hf a s' hq.1 hq.2

/-- A part that closes no statement. -/
theorem onward [Keeps x] (h : Found s₀ ss s s.line)
    (hf : ∀ a s', Found s₀ ss s' s'.line → Gives s' (f a) R) : Gives s (x >>= f) R :=
  .along (Q := fun _ _ => True) h ⟨fun _ _ => trivial⟩ fun a s' _ => hf a s'

/-- A part that finds statements. -/
theorem placing {g : α → List Stmt} (h : Found s₀ ss s s.line) (hx : Places g x)
    (hf : ∀ a s', Found s₀ (ss ++ g a) s' s'.line → Gives s' (f a) R) : Gives s (x >>= f) R :=
  .seq (hx s h.placed) fun a s' h' => hf a s' (h.trans h')

theorem filling {g : α → List Stmt} (h : Found s₀ ss s s.line) (hx : Fills g x)
    (hf : ∀ a s', Found s₀ (ss ++ g a) s' s'.line → (s₀.cursor.Solid → g a ≠ []) →
      Gives s' (f a) R) : Gives s (x >>= f) R :=
  .seq (hx s h.placed) fun a s' h' => hf a s' (h.trans h'.1) fun hsolid =>
    h'.2 (hsolid.of_tokens h.onward.tokens)

end Steady

/-- A token that has to be there is there. -/
theorem expected {k : Token.Kind} {f : Bool → Parser β} [∀ b, Steady (f b)]
    (h : Found s₀ ss s s.line) (hf : ∀ s', Found s₀ ss s' s'.line → Gives s' (f true) R) :
    Gives s (Grammar.expect k >>= f) R :=
  .along h (.expect k) fun b s' hb h' => by rw [hb.1]; exact hf s' h'

/-- The end of a compound statement. -/
theorem compound {first : Token} {make : Extent → Stmt} (h : Found s₀ ss s s.line)
    (hfirst : first = s₀.cursor.peek) (hfilled : s₀.cursor.Solid → ss ≠ [])
    (hinner : ∀ x, (make x).inner = ss)
    (hmake : ∀ x, (make x).isCompound = true ∧ (make x).extent = x) :
    Gives s (closeCompound first >>= fun x => Pure.pure (make x)) fun st s' =>
      Found s₀ [st] s' s'.line := by
  refine ⟨fun _ _ => ?_⟩
  subst hfirst
  refine h.compound (hinner _) (hmake _).1 ?_ ?_ hfilled
  · exact congrArg Extent.line (hmake _).2
  · exact congrArg Extent.endLine (hmake _).2

/-! ### Loops -/

variable {I J : σ → State → Prop} {body : σ → Parser (σ × Bool)}

/-- A loop goes on with `I` and stops with `J`. -/
theorem loop {start : σ} [∀ a, Steady (body a)]
    (hround : ∀ a s', (a = start ∧ s' = s) ∨ I a s' →
      Gives s' (body a) fun r s' => cond r.2 (I r.1 s') (J r.1 s'))
    (hstall : ∀ a s, I a s → J a s.stall) : Gives s (loop start body) J := by
  have hstop (a : σ) (s : State) (h : I a s) :
      Gives s (stall >>= fun _ => Pure.pure a) J := ⟨fun _ _ => hstall a s h⟩
  -- Rounds behind a round that goes on.
  have hnext (n : Nat) (hrest : ∀ a s, I a s → Gives s (iterate body n a) J) (a : σ) (s : State)
      (h : Gives s (body a) fun r s' => cond r.2 (I r.1 s') (J r.1 s')) :
      Gives s (iterate body (n + 1) a) J := by
    unfold iterate
    refine .bind .get (fun before s₁ hget => ?_) inferInstance inferInstance
    obtain ⟨rfl, rfl⟩ := hget
    refine .bind h (fun ⟨b, more⟩ s₂ h₂ => ?_) inferInstance inferInstance
    cases more with
    | false => exact .pure h₂
    | true =>
      refine .bind .get (fun behind s₃ hget => ?_) inferInstance inferInstance
      obtain ⟨rfl, rfl⟩ := hget
      split
      · exact hrest b _ h₂
      · exact hstop b _ h₂
  have hiterate (n : Nat) : ∀ a s, I a s → Gives s (iterate body n a) J := by
    induction n with
    | zero => exact hstop
    | succ n ih => exact fun a s h => hnext n ih a s (hround a s (.inr h))
  refine .bind .get (fun before s₁ hget => ?_) inferInstance inferInstance
  obtain ⟨rfl, rfl⟩ := hget
  exact hnext _ (hiterate _) _ _ (hround _ _ (.inl ⟨rfl, rfl⟩))

/-- A loop that collects items with statements. There are some if the first round finds some. -/
theorem collect {g : α → List Stmt} {N : State → Prop} {body : Parser (List α × Bool)}
    [c : Steady body] (hbody : ∀ s, s.Placed → Gives s body fun r s' =>
      Found s (r.1.flatMap g) s' s'.line ∧ (N s → r.1.flatMap g ≠ []))
    (hs : s.Placed) : Gives s (collect [] body) fun as s' =>
      Found s (as.flatMap g) s' s'.line ∧ (N s → as.flatMap g ≠ []) := by
  let K (found : List α) (s' : State) : Prop :=
    Found s (found.reverse.flatMap g) s' s'.line ∧ (N s → found.reverse.flatMap g ≠ [])
  unfold Grammar.collect
  refine .bind (Q := K) (.loop (I := K) (fun found s₁ h => ?_) fun found s₁ h => ?_)
    (fun found s₁ h => .pure h) inferInstance inferInstance
  · have hplaced : s₁.Placed := by
      rcases h with ⟨-, rfl⟩ | h
      · exact hs
      · exact h.1.placed
    refine .bind (hbody s₁ hplaced) (fun ⟨more, go⟩ s₂ h' => .pure ?_) inferInstance inferInstance
    rw [Bool.cond_self]
    rcases h with ⟨rfl, rfl⟩ | h
    · simpa [K] using h'
    · refine ⟨by simpa using h.1.trans h'.1, fun hn => ?_⟩
      simpa using fun hnil => absurd hnil (by simpa using h.2 hn)
  · exact ⟨h.1.stall, h.2⟩

end Gives

end CloneScout.Grammar
