import CloneScout.Grammar.State
import CloneScout.Proofs.Token.Lexer

/-!
# Parsers that end without a fault

A parser never takes a report back, so if nothing is reported at its end then nothing was reported
at any time before. `Steady` says this of one parser, and `Gives` says what a parser finds under the
assumption that nothing is reported at its end: then every branch that reports a fault drops out.
-/

namespace CloneScout.Grammar

/-! ## States -/

namespace State

/-- Nothing is reported. -/
def Clean (s : State) : Prop := Diagnostic.Clean s.diags

/-- The parser has met no fault, so it reports the first one that it meets. -/
structure Fresh (s : State) : Prop where
  aborted : s.aborted = false
  capped : s.capped = false
  seen : s.seen = []
  latest : s.latest = none

/-- A parser that has reported nothing has met no fault. -/
def Sound (s : State) : Prop := s.Clean → s.Fresh

/-- What is true of the state behind a parser by the state in front of it. -/
structure Leads (s s' : State) : Prop where
  tokens : s'.cursor.tokens = s.cursor.tokens
  pos : s.cursor.pos ≤ s'.cursor.pos
  sound : s.Sound → s'.Sound
  clean : s'.Clean → s.Clean
  stalled : s.stalled = true → s'.stalled = true

theorem Leads.refl (s : State) : s.Leads s := ⟨rfl, Nat.le_refl _, id, id, id⟩

theorem Leads.trans {s s' s'' : State} (h : s.Leads s') (h' : s'.Leads s'') : s.Leads s'' :=
  ⟨h'.tokens.trans h.tokens, Nat.le_trans h.pos h'.pos, fun hs => h'.sound (h.sound hs),
    fun hs => h.clean (h'.clean hs), fun hs => h'.stalled (h.stalled hs)⟩

/-- A step that changes only the place in the tokens and the end of the last statement. -/
theorem Leads.of_eq {s s' : State} (htokens : s'.cursor.tokens = s.cursor.tokens)
    (hpos : s.cursor.pos ≤ s'.cursor.pos) (hdiags : s'.diags = s.diags) (haborted : s'.aborted = s.aborted)
    (hcapped : s'.capped = s.capped) (hseen : s'.seen = s.seen) (hlatest : s'.latest = s.latest)
    (hstalled : s.stalled = true → s'.stalled = true) : s.Leads s' := by
  refine ⟨htokens, hpos, fun hs hclean => ?_, fun hclean => ?_, hstalled⟩
  · obtain ⟨h1, h2, h3, h4⟩ := hs (show Diagnostic.Clean s.diags by rw [← hdiags]; exact hclean)
    exact ⟨haborted.trans h1, hcapped.trans h2, hseen.trans h3, hlatest.trans h4⟩
  · show Diagnostic.Clean s.diags
    rw [← hdiags]
    exact hclean

/-! ## Faults -/

theorem not_clean_addFault (s : State) (code : Diagnostic.Code) (span : Span) (arg : Text) :
    ¬ (s.addFault code span arg).Clean := by
  unfold addFault
  dsimp only
  split
  · exact Diagnostic.not_clean_push_errorAt _ _ _ _
  · split
    · intro h
      exact Diagnostic.not_clean_push_errorAt _ _ _ _ (Diagnostic.clean_push.mp h).1
    · exact Diagnostic.not_clean_push_errorAt _ _ _ _

/-- The first fault is reported. -/
theorem Fresh.not_clean_report {s : State} (h : s.Fresh) (code : Diagnostic.Code) (span : Span)
    (arg : Text) : ¬ (s.report code span arg).Clean := by
  unfold State.report
  rw [if_neg (by simp [h.aborted, h.seen]), if_neg (by simp [h.latest])]
  exact not_clean_addFault _ _ _ _

theorem cursor_addFault (s : State) (code : Diagnostic.Code) (span : Span) (arg : Text) :
    (s.addFault code span arg).cursor = s.cursor := by
  unfold addFault
  dsimp only
  split
  · rfl
  · split <;> rfl

theorem cursor_report (s : State) (code : Diagnostic.Code) (span : Span) (arg : Text) :
    (s.report code span arg).cursor = s.cursor := by
  unfold State.report
  dsimp only
  split
  · rfl
  · split
    · rfl
    · rw [cursor_addFault]

theorem stalled_addFault (s : State) (code : Diagnostic.Code) (span : Span) (arg : Text) :
    (s.addFault code span arg).stalled = s.stalled := by
  unfold addFault
  dsimp only
  split
  · rfl
  · split <;> rfl

theorem stalled_report (s : State) (code : Diagnostic.Code) (span : Span) (arg : Text) :
    (s.report code span arg).stalled = s.stalled := by
  unfold State.report
  dsimp only
  split
  · rfl
  · split
    · rfl
    · rw [stalled_addFault]

theorem leads_report (s : State) (code : Diagnostic.Code) (span : Span) (arg : Text) :
    s.Leads (s.report code span arg) := by
  have hcursor := s.cursor_report code span arg
  have hclean : (s.report code span arg).Clean → s.Clean := by
    unfold State.report
    dsimp only
    split
    · exact id
    · split
      · exact id
      · exact fun h => absurd h (not_clean_addFault _ _ _ _)
  exact ⟨by rw [hcursor], Nat.le_of_eq (by rw [hcursor]),
    fun hs h => absurd h ((hs (hclean h)).not_clean_report _ _ _), hclean,
    fun h => (s.stalled_report code span arg).trans h⟩

/-- Giving up behind a report. -/
theorem leads_report_giveUp (s : State) (code : Diagnostic.Code) (span : Span) (arg : Text) :
    s.Leads (s.report code span arg).giveUp := by
  obtain ⟨htokens, hpos, -, hclean, hstalled⟩ := leads_report s code span arg
  exact ⟨htokens, hpos, fun hs h => absurd h ((hs (hclean h)).not_clean_report _ _ _), hclean,
    hstalled⟩

end State

/-! ## Cursors -/

/-- The same tokens from a place that is not before. -/
structure Onward (c c' : Cursor) : Prop where
  tokens : c'.tokens = c.tokens
  pos : c.pos ≤ c'.pos

theorem Onward.refl (c : Cursor) : Onward c c := ⟨rfl, Nat.le_refl _⟩

theorem Onward.trans {c c' c'' : Cursor} (h : Onward c c') (h' : Onward c' c'') : Onward c c'' :=
  ⟨h'.tokens.trans h.tokens, Nat.le_trans h.pos h'.pos⟩

theorem onward_bump (c : Cursor) : Onward c c.bump := by
  unfold Cursor.bump
  split
  · exact ⟨rfl, Nat.le_succ _⟩
  · exact .refl c

theorem tokens_bump (c : Cursor) : c.bump.tokens = c.tokens := (onward_bump c).tokens

theorem onward_skipLine (c : Cursor) : Onward c c.skipLine := by
  have h (n : Nat) (c : Cursor) : Onward c (Cursor.skipLineWithin n c) := by
    induction n generalizing c with
    | zero => exact .refl c
    | succ n ih =>
      rw [Cursor.skipLineWithin]
      split
      · exact .refl c
      · exact .refl c
      · exact .refl c
      · exact onward_bump c
      · exact (onward_bump c).trans (ih c.bump)
  exact h _ c

theorem onward_skipTo (stops : List Token.Kind) (c : Cursor) : Onward c (c.skipTo stops) := by
  have h (n : Nat) (nesting : Cursor.Nesting) (c : Cursor) :
      Onward c (Cursor.skipToWithin stops n nesting c) := by
    induction n generalizing nesting c with
    | zero => exact .refl c
    | succ n ih =>
      rw [Cursor.skipToWithin]
      split
      · exact .refl c
      · exact (onward_bump c).trans (ih _ c.bump)
  exact h _ _ c

theorem lawful_get {c : Cursor} (h : ∀ t ∈ c.tokens, t.Lawful) (i : Nat) : (c.get i).Lawful := by
  unfold Cursor.get
  cases hi : c.tokens[i]? with
  | some t => exact h t (Array.mem_of_getElem? hi)
  | none =>
    show c.final.Lawful
    unfold Cursor.final
    cases hback : c.tokens.back? with
    | some t => exact h t (Array.mem_of_back? hback)
    | none => exact .of_kind (by simp)

/-- Behind the next token everything is one place nearer. -/
theorem peek_bump (c : Cursor) (k : Nat) : c.bump.peek k = c.peek (k + 1) := by
  unfold Cursor.bump
  split
  · show c.get (c.pos + 1 + k) = c.get (c.pos + (k + 1))
    rw [Nat.add_right_comm, Nat.add_assoc]
  · next hpos =>
    -- beyond the end every place shows the last token
    have hnone (i : Nat) (hi : c.pos ≤ i) : c.get i = c.final := by
      unfold Cursor.get
      rw [Array.getElem?_eq_none (by omega)]
      rfl
    show c.get (c.pos + k) = c.get (c.pos + (k + 1))
    rw [hnone _ (by omega), hnone _ (by omega)]

/-! ## Steady parsers -/

variable {α β σ : Type}

/-- A parser that takes no report and no mark back, meets no fault silently and leaves the tokens
alone. -/
class Steady (x : Parser α) : Prop where
  leads (s : State) : s.Leads (x.run s).2

instance steady_pure (a : α) : Steady (pure a) := ⟨fun s => .refl s⟩

instance steady_bind (x : Parser α) (f : α → Parser β) [Steady x] [∀ a, Steady (f a)] :
    Steady (x >>= f) :=
  ⟨fun s => (Steady.leads (x := x) s).trans (Steady.leads (x := f _) _)⟩

instance steady_map (f : α → β) (x : Parser α) [Steady x] : Steady (f <$> x) :=
  ⟨fun s => Steady.leads (x := x) s⟩

instance steady_ite (c : Prop) [Decidable c] (x y : Parser α) [Steady x] [Steady y] :
    Steady (if c then x else y) := by
  split <;> infer_instance

instance steady_get : Steady (get : Parser State) := ⟨fun s => .refl s⟩

instance steady_peek (k : Nat) : Steady (peek k) := ⟨fun s => .refl s⟩

instance steady_kind (k : Nat) : Steady (kind k) := ⟨fun s => .refl s⟩

instance steady_at (k : Token.Kind) : Steady (at? k) := ⟨fun s => .refl s⟩

instance steady_isAborted : Steady isAborted := ⟨fun s => .refl s⟩

instance steady_extentFrom (t : Token) : Steady (extentFrom t) := ⟨fun s => .refl s⟩

instance steady_closeCompound (t : Token) : Steady (closeCompound t) := ⟨fun s => .refl s⟩

instance steady_closeStatement (t : Token) : Steady (closeStatement t) :=
  ⟨fun _ => .of_eq rfl (Nat.le_refl _) rfl rfl rfl rfl rfl id⟩

instance steady_errorHere : Steady errorHere := ⟨fun s => .refl s⟩

theorem steady_moveCursor {f : Cursor → Cursor} (h : ∀ c, Onward c (f c)) :
    Steady (moveCursor f) :=
  ⟨fun s => .of_eq (h s.cursor).tokens (h s.cursor).pos rfl rfl rfl rfl rfl id⟩

instance steady_bump : Steady bump := by
  have := steady_moveCursor onward_bump
  unfold bump
  infer_instance

instance steady_recoverToNewline : Steady recoverToNewline := steady_moveCursor onward_skipLine

instance steady_recoverTo (stops : List Token.Kind) : Steady (recoverTo stops) :=
  steady_moveCursor (onward_skipTo stops)

instance steady_eat (k : Token.Kind) : Steady (eat k) := by
  unfold eat
  infer_instance

instance steady_report (code : Diagnostic.Code) (span : Span) (arg : Text) :
    Steady (report code span arg) :=
  ⟨fun s => s.leads_report code span arg⟩

/-- Giving up is steady only behind a report. -/
instance steady_report_abort (code : Diagnostic.Code) (span : Span) (arg : Text)
    (f : Unit → Parser α) [∀ a, Steady (f a)] :
    Steady (report code span arg >>= fun _ => abort >>= f) :=
  ⟨fun s => (s.leads_report_giveUp code span arg).trans (Steady.leads (x := f ()) _)⟩

instance steady_expect (k : Token.Kind) : Steady (expect k) := by
  unfold expect
  dsimp only
  infer_instance

instance steady_close (k : Token.Kind) : Steady (close k) := by
  unfold close
  infer_instance

instance steady_unexpected : Steady unexpected := by
  unfold unexpected
  infer_instance

instance steady_stall : Steady stall :=
  ⟨fun _ => .of_eq rfl (Nat.le_refl _) rfl rfl rfl rfl rfl fun _ => rfl⟩

instance steady_iterate (body : σ → Parser (σ × Bool)) [∀ a, Steady (body a)] (n : Nat) (a : σ) :
    Steady (iterate body n a) := by
  induction n generalizing a with
  | zero =>
    unfold iterate
    infer_instance
  | succ n ih =>
    unfold iterate
    infer_instance

instance steady_loop (start : σ) (body : σ → Parser (σ × Bool)) [∀ a, Steady (body a)] :
    Steady (loop start body) := by
  unfold loop
  infer_instance

instance steady_collect (start : List α) (body : Parser (List α × Bool)) [Steady body] :
    Steady (collect start body) := by
  unfold collect
  infer_instance

instance steady_collectAfter (sep : Token.Kind) (start : List α) (item : Parser α) [Steady item] :
    Steady (collectAfter sep start item) := by
  unfold collectAfter
  infer_instance

instance steady_collectCommas (start : List α) (stops : Parser Bool) (item : Parser α)
    [Steady stops] [Steady item] : Steady (collectCommas start stops item) := by
  unfold collectCommas
  infer_instance

instance steady_mapM (f : α → Parser β) [∀ a, Steady (f a)] (l : List α) :
    Steady (l.mapM f) := by
  induction l with
  | nil =>
    rw [List.mapM_nil]
    infer_instance
  | cons a l ih =>
    rw [List.mapM_cons]
    infer_instance

/-- Sequences, branches, cases and repetitions of steady parsers are steady. -/
theorem Steady.auto {x : Parser α} (h : Steady x := by
    repeat' (first
      | infer_instance
      | with_reducible refine @steady_report_abort _ _ _ _ _ fun _ => ?_
      | with_reducible refine @steady_bind _ _ _ _ ?_ fun _ => ?_
      | with_reducible refine @steady_loop _ _ _ fun _ => ?_
      | with_reducible refine @steady_collect _ _ _ ?_
      | with_reducible refine @steady_mapM _ _ _ (fun _ => ?_) _
      | split
      | dsimp only)) : Steady x :=
  h

/-! ## What a parser gives -/

/-- The parser has met no fault and its tokens are lawful. -/
structure State.Good (s : State) : Prop extends State.Fresh s where
  tokens : ∀ t ∈ s.cursor.tokens, t.Lawful

/-- From a good state the parser finds a value with the property, unless it reports a fault. -/
structure Gives (s : State) (x : Parser α) (Q : α → State → Prop) : Prop where
  holds : s.Good → (x.run s).2.Clean → Q (x.run s).1 (x.run s).2

/-- The value that the parser finds has the property wherever it starts, unless it reports a
fault. -/
def Finds (x : Parser α) (Q : α → Prop) : Prop := ∀ s, Gives s x fun a _ => Q a

theorem State.Good.of_leads {s s' : State} (h : s.Good) (hl : s.Leads s') (hclean : s'.Clean) :
    s'.Good := by
  have hfresh : s'.Fresh := hl.sound (fun _ => h.toFresh) hclean
  exact { hfresh with tokens := by rw [hl.tokens]; exact h.tokens }

namespace Gives

theorem pure {s : State} {a : α} {Q : α → State → Prop} (h : Q a s) : Gives s (pure a) Q :=
  ⟨fun _ _ => h⟩

theorem bind {s : State} {x : Parser α} {f : α → Parser β} {Q : α → State → Prop}
    {R : β → State → Prop} (hx : Gives s x Q) (hf : ∀ a s', Q a s' → Gives s' (f a) R)
    (hfirst : Steady x := by exact .auto)
    (hsteady : ∀ a, Steady (f a) := by exact fun _ => .auto) : Gives s (x >>= f) R := by
  refine ⟨fun hs hclean => ?_⟩
  have hmid : (x.run s).2.Clean := ((hsteady (x.run s).1).leads _).clean hclean
  exact (hf _ _ (hx.holds hs hmid)).holds (hs.of_leads (Steady.leads s) hmid) hclean

/-- A part whose value is of no interest. -/
theorem skip {s : State} {x : Parser α} {f : α → Parser β} {R : β → State → Prop}
    (hf : ∀ a s', Gives s' (f a) R) (hfirst : Steady x := by exact .auto)
    (hsteady : ∀ a, Steady (f a) := by exact fun _ => .auto) : Gives s (x >>= f) R :=
  bind (Q := fun _ _ => True) ⟨fun _ _ => trivial⟩ (fun a s' _ => hf a s') hfirst hsteady

/-- A part of which something is known, with a rest that is steady by instances. -/
theorem seq {s : State} {x : Parser α} {f : α → Parser β} {Q : α → State → Prop}
    {R : β → State → Prop} [Steady x] [∀ a, Steady (f a)] (hx : Gives s x Q)
    (hf : ∀ a s', Q a s' → Gives s' (f a) R) : Gives s (x >>= f) R :=
  .bind hx hf inferInstance inferInstance

/-- A part whose value is of no interest, with a rest that is steady by instances. -/
theorem past {s : State} {x : Parser α} {f : α → Parser β} {R : β → State → Prop} [Steady x]
    [∀ a, Steady (f a)] (hf : ∀ a s', Gives s' (f a) R) : Gives s (x >>= f) R :=
  .skip hf inferInstance inferInstance

theorem mono {s : State} {x : Parser α} {Q R : α → State → Prop} (hx : Gives s x Q)
    (h : ∀ a s', Q a s' → R a s') : Gives s x R :=
  ⟨fun hs hclean => h _ _ (hx.holds hs hclean)⟩

theorem map {s : State} {f : α → β} {x : Parser α} {Q : α → State → Prop} {R : β → State → Prop}
    (hx : Gives s x Q) (h : ∀ a s', Q a s' → R (f a) s') : Gives s (f <$> x) R :=
  ⟨fun hs hclean => h _ _ (hx.holds hs hclean)⟩

/-! ### Tokens -/

theorem get {s : State} : Gives s get fun a s' => a = s ∧ s' = s := ⟨fun _ _ => ⟨rfl, rfl⟩⟩

theorem isAborted {s : State} : Gives s isAborted fun b s' => b = false ∧ s' = s :=
  ⟨fun hs _ => ⟨hs.aborted, rfl⟩⟩

theorem peek {s : State} (k : Nat) :
    Gives s (peek k) fun t s' => s' = s ∧ t = s.cursor.peek k ∧ t.Lawful :=
  ⟨fun hs _ => ⟨rfl, rfl, lawful_get hs.tokens _⟩⟩

theorem kind {s : State} (k : Nat) : Gives s (kind k) fun a s' => s' = s ∧ a = s.cursor.kind k :=
  ⟨fun _ _ => ⟨rfl, rfl⟩⟩

theorem at? {s : State} (k : Token.Kind) :
    Gives s (at? k) fun b s' => s' = s ∧ (b = true ↔ s.cursor.kind = k) :=
  ⟨fun _ _ => ⟨rfl, decide_eq_true_iff⟩⟩

theorem bump {s : State} : Gives s bump fun t s' =>
    t = s.cursor.peek ∧ t.Lawful ∧ ∀ k, s'.cursor.peek k = s.cursor.peek (k + 1) :=
  ⟨fun hs _ => ⟨rfl, lawful_get hs.tokens _, fun k => peek_bump s.cursor k⟩⟩

/-- A fault leaves nothing to show. -/
theorem report {s : State} {code : Diagnostic.Code} {span : Span} {arg : Text}
    {Q : Unit → State → Prop} : Gives s (report code span arg) Q :=
  ⟨fun hs hclean => (hs.not_clean_report code span arg hclean).elim⟩

/-- Behind a fault there is nothing to show. -/
theorem fault {s : State} {code : Diagnostic.Code} {span : Span} {arg : Text} {f : Unit → Parser α}
    {Q : α → State → Prop} (hsteady : ∀ a, Steady (f a) := by exact fun _ => .auto) :
    Gives s (Grammar.report code span arg >>= f) Q :=
  bind (Q := fun _ _ => False) report (fun _ _ h => h.elim) inferInstance hsteady

theorem report_abort {s : State} {code : Diagnostic.Code} {span : Span} {arg : Text}
    {f : Unit → Parser α} [∀ a, Steady (f a)] {Q : α → State → Prop} :
    Gives s (Grammar.report code span arg >>= fun _ => abort >>= f) Q := by
  refine ⟨fun hs hclean => ?_⟩
  have hmid := (Steady.leads (x := f ()) (s.report code span arg).giveUp).clean hclean
  exact (hs.not_clean_report code span arg hmid).elim

theorem unexpected {s : State} {Q : Unit → State → Prop} : Gives s unexpected Q :=
  skip (fun _ _ => report) inferInstance inferInstance

theorem eat {s : State} (k : Token.Kind) :
    Gives s (eat k) fun b s' => (b = true ↔ s.cursor.kind = k) ∧ (b = false → s' = s) := by
  unfold Grammar.eat
  refine bind (at? k) (fun b s₁ h => ?_) inferInstance inferInstance
  obtain ⟨rfl, hb⟩ := h
  split
  · next htrue =>
    exact skip (fun _ s₂ => pure (by simp [hb.mp htrue])) inferInstance inferInstance
  · next hfalse => exact pure ⟨by simpa [hb] using hfalse, fun _ => rfl⟩

theorem expect {s : State} (k : Token.Kind) :
    Gives s (expect k) fun b _ => b = true ∧ s.cursor.kind = k := by
  unfold Grammar.expect
  refine bind isAborted (fun aborted s₁ h => ?_) inferInstance inferInstance
  obtain ⟨rfl, rfl⟩ := h
  rw [if_neg (by simp)]
  refine bind (eat k) (fun b s₂ h => ?_) inferInstance inferInstance
  split
  · next htrue => exact pure ⟨rfl, h.1.mp htrue⟩
  · refine skip (fun got s₃ => ?_) inferInstance inferInstance
    split
    · exact report_abort
    · exact fault inferInstance

/-- The next token is taken, and its kind is known. -/
theorem bump_of_kind {s : State} {k : Token.Kind} (h : s.cursor.kind = k) :
    Gives s Grammar.bump fun t _ => t.kind = k ∧ t.Lawful :=
  bump.mono fun t _ ht => ⟨by rw [ht.1]; exact h, ht.2.1⟩

/-- An identifier that has to be there is there. -/
theorem identifier {s : State} {f g : Token → Parser α} {Q : α → State → Prop}
    [∀ t, Steady (f t)] [∀ t, Steady (g t)]
    (hf : ∀ t, t.lexeme.IsWord → ∀ s', Gives s' (f t) Q) :
    Gives s (Grammar.peek >>= fun t => Grammar.expect .ident >>= fun b =>
      if b = true then f t else g t) Q := by
  refine bind (peek 0) (fun t s₁ ht => ?_) inferInstance inferInstance
  refine bind (expect .ident) (fun b s₂ hb => ?_) inferInstance inferInstance
  obtain ⟨rfl, rfl, ht⟩ := ht
  rw [if_pos hb.1]
  exact hf _ (ht.ident hb.2) s₂

/-- A bracket that has to be there is there. -/
theorem close {s : State} (k : Token.Kind) : Gives s (close k) fun _ _ => s.cursor.kind = k := by
  unfold Grammar.close
  refine bind (expect k) (fun b s₁ h => ?_) inferInstance inferInstance
  rw [if_pos h.1]
  exact pure h.2

end Gives

namespace Finds

variable {Q : α → Prop} {R : β → Prop}

theorem pure {a : α} (h : Q a) : Finds (pure a) Q := fun _ => .pure h

theorem bind {s : State} {x : Parser α} {f : α → Parser β} {R : β → State → Prop}
    (hx : Finds x Q) (hf : ∀ a, Q a → ∀ s', Gives s' (f a) R)
    (hfirst : Steady x := by exact .auto)
    (hsteady : ∀ a, Steady (f a) := by exact fun _ => .auto) : Gives s (x >>= f) R :=
  .bind (hx s) (fun a s' ha => hf a ha s') hfirst hsteady

theorem mono {Q' : α → Prop} {x : Parser α} (hx : Finds x Q) (h : ∀ a, Q a → Q' a) : Finds x Q' :=
  fun s => (hx s).mono fun a _ => h a

theorem map {f : α → β} {x : Parser α} (hx : Finds x Q) (h : ∀ a, Q a → R (f a)) :
    Finds (f <$> x) R :=
  fun s => (hx s).map fun a _ => h a

/-- What holds at the start of a loop and is kept by each round holds at the end. -/
theorem loop {I : σ → Prop} {start : σ} {body : σ → Parser (σ × Bool)} (hstart : I start)
    (hbody : ∀ a, I a → Finds (body a) fun r => I r.1)
    (hsteady : ∀ a, Steady (body a) := by exact fun _ => .auto) : Finds (loop start body) I := by
  have hiterate (n : Nat) (a : σ) (ha : I a) : Finds (iterate body n a) I := by
    induction n generalizing a with
    | zero => exact fun s => .skip (fun _ s₁ => .pure ha) inferInstance inferInstance
    | succ n ih =>
      intro s
      unfold iterate
      refine .skip (fun before s₁ => ?_) inferInstance inferInstance
      refine bind (hbody a ha) (fun ⟨b, more⟩ hb s₂ => ?_) inferInstance inferInstance
      dsimp only
      split
      · exact .pure hb
      · refine .skip (fun behind s₃ => ?_) inferInstance inferInstance
        split
        · exact ih b hb s₃
        · exact .skip (fun _ s₄ => .pure hb) inferInstance inferInstance
  intro s
  exact .skip (fun _ s₁ => hiterate _ _ hstart s₁) inferInstance inferInstance

theorem collect {start : List α} {body : Parser (List α × Bool)} (hstart : ∀ a ∈ start, Q a)
    (hbody : Finds body fun r => ∀ a ∈ r.1, Q a) (hsteady : Steady body := by exact .auto) :
    Finds (collect start body) fun as => ∀ a ∈ as, Q a := by
  intro s
  unfold Grammar.collect
  refine bind (Q := fun found => ∀ a ∈ found, Q a) ?_ (fun found hfound s₁ => ?_) inferInstance
    inferInstance
  · refine loop (by simpa using hstart) (fun found hfound s₁ => ?_) inferInstance
    refine bind hbody (fun r hr s₂ => .pure fun a ha => ?_) hsteady inferInstance
    rcases List.mem_append.mp ha with ha | ha
    · exact hr a (List.mem_reverse.mp ha)
    · exact hfound a ha
  · exact .pure (by simpa using hfound)

theorem collectAfter {sep : Token.Kind} {start : List α} {item : Parser α} [Steady item]
    (hstart : ∀ a ∈ start, Q a) (hitem : Finds item Q) :
    Finds (collectAfter sep start item) fun as => ∀ a ∈ as, Q a := by
  refine collect hstart (fun s => .skip (fun more s₁ => ?_) inferInstance inferInstance)
    inferInstance
  split
  · exact bind hitem (fun a ha s₂ => .pure (by simpa using ha)) inferInstance inferInstance
  · exact .pure (by simp)

theorem collectCommas {start : List α} {stops : Parser Bool} {item : Parser α} [Steady stops]
    [Steady item] (hstart : ∀ a ∈ start, Q a) (hitem : Finds item Q) :
    Finds (collectCommas start stops item) fun as => ∀ a ∈ as, Q a := by
  refine collect hstart (fun s => .skip (fun more s₁ => ?_) inferInstance inferInstance)
    inferInstance
  split
  · refine .skip (fun stop s₂ => ?_) inferInstance inferInstance
    split
    · exact .pure (by simp)
    · exact bind hitem (fun a ha s₃ => .pure (by simpa using ha)) inferInstance inferInstance
  · exact .pure (by simp)

theorem mapM {f : α → Parser β} {l : List α} [∀ a, Steady (f a)]
    (h : ∀ a ∈ l, Finds (f a) R) : Finds (l.mapM f) fun bs => ∀ b ∈ bs, R b := by
  induction l with
  | nil =>
    rw [List.mapM_nil]
    exact pure (by simp)
  | cons a l ih =>
    obtain ⟨ha, hl⟩ := List.forall_mem_cons.mp h
    rw [List.mapM_cons]
    intro s
    refine bind ha (fun b hb s₁ => ?_) inferInstance inferInstance
    refine bind (ih hl) (fun bs hbs s₂ => .pure ?_) inferInstance inferInstance
    exact List.forall_mem_cons.mpr ⟨hb, hbs⟩

/-- One item that reports a fault is enough. -/
theorem mapM_of_false {f : α → Parser β} {l : List α} [∀ a, Steady (f a)]
    (h : ∃ a ∈ l, Finds (f a) fun _ => False) : Finds (l.mapM f) fun _ => False := by
  induction l with
  | nil => simp at h
  | cons a l ih =>
    rw [List.mapM_cons]
    intro s
    obtain ⟨c, hc, hfalse⟩ := h
    rcases List.mem_cons.mp hc with rfl | hc
    · exact bind hfalse (fun _ h _ => h.elim) inferInstance inferInstance
    · refine .skip (fun _ s₁ => ?_) inferInstance inferInstance
      exact bind (ih ⟨c, hc, hfalse⟩) (fun _ h _ => h.elim) inferInstance inferInstance

end Finds

end CloneScout.Grammar
