import CloneScout.Proofs.Grammar.Fields
import CloneScout.Proofs.Grammar.Halts
import CloneScout.Proofs.Token.Clauses

/-!
# Parsers that stay on a line

Unless it reports a fault, a rule of expressions takes no token that lays out lines, and no word that
opens a clause: the `else` of a conditional expression stands behind other words of the line.
`Runs` says this of a parser from one state on, so that the kinds of the next tokens may be known
there, and `Stays` says it of a parser wherever it starts.
-/

namespace CloneScout

/-- Tokens that neither lay out lines nor open a clause. -/
def Token.Kind.isFree (k : Token.Kind) : Bool :=
  !(k.isLayout || k = .kwElif || k = .kwElse || k = .kwFinally)

theorem Token.Kind.clause?_of_isFree {k : Token.Kind} (h : k.isFree = true) (before : Token.Kind) :
    before.clause? k = none := by
  cases k <;> first | rfl | exact Bool.noConfusion h

theorem Token.Kind.isLayout_of_isFree {k : Token.Kind} (h : k.isFree = true) :
    k.isLayout = false := by
  cases k <;> first | rfl | exact Bool.noConfusion h

/-- What is looked up by the kind of a token and found only for free ones. -/
theorem Token.Kind.isFree_of_some {α : Type} {o : Token.Kind → Option α} {k : Token.Kind} {a : α}
    (hk : o k = some a) (hnewline : o .newline = none := by rfl)
    (hindent : o .indent = none := by rfl) (hdedent : o .dedent = none := by rfl)
    (heof : o .eof = none := by rfl) (helif : o .kwElif = none := by rfl)
    (helse : o .kwElse = none := by rfl) (hfinally : o .kwFinally = none := by rfl) :
    k.isFree = true := by
  refine Decidable.byContradiction fun hfree => ?_
  have hmem : k ∈ [newline, indent, dedent, eof, kwElif, kwElse, kwFinally] := by
    cases k <;> first | exact absurd rfl hfree | decide
  have hnone : ∀ k ∈ [newline, indent, dedent, eof, kwElif, kwElse, kwFinally], o k = none := by
    simp [*]
  rw [hnone k hmem] at hk
  cases hk

namespace Grammar

/-- Every word and sign has a text. -/
def Worded (ts : Array Token) : Prop := ∀ t ∈ ts, t.kind.isLayout = false → t.lexeme ≠ []

theorem lexeme_peek_ne_nil {c : Cursor} (h : Worded c.tokens) (hkind : c.kind.isLayout = false) :
    c.peek.lexeme ≠ [] := by
  refine h _ (peek_mem fun heof => ?_) hkind
  rw [heof] at hkind
  cases hkind

theorem kind_peek (c : Cursor) (j : Nat) : (c.peek j).kind = c.kind j := rfl

theorem kind_bump (c : Cursor) (j : Nat) : c.bump.kind j = c.kind (j + 1) :=
  congrArg Token.kind (peek_bump c j)

/-- Going past tokens of a line. An `else` among them stands behind other words of the line. -/
inductive Inline : Cursor → Cursor → Prop
  | refl (c : Cursor) : Inline c c
  | bump {c c' : Cursor} (h : Inline c c')
      (hkind : c'.kind.isFree = true ∨ c'.kind = .kwElse ∧ c'.before.isLayout = false) :
      Inline c c'.bump

namespace Inline

variable {c c' c'' : Cursor}

theorem one (hkind : c.kind.isFree = true) : Inline c c.bump := (refl c).bump (.inl hkind)

theorem trans (h : Inline c c') (h' : Inline c' c'') : Inline c c'' := by
  induction h' with
  | refl => exact h
  | bump _ hkind ih => exact ih.bump hkind

theorem before (h : Inline c c') (hbefore : c.before.isLayout = false) :
    c'.before.isLayout = false := by
  induction h with
  | refl => exact hbefore
  | bump _ hkind ih =>
    rw [Cursor.isLayout_before_bump]
    rcases hkind with hfree | ⟨helse, -⟩
    · exact Token.Kind.isLayout_of_isFree hfree
    · rw [helse]
      rfl

/-- No clause is opened on the way. -/
theorem clauses (h : Inline c c') : c'.clauses = c.clauses := by
  induction h with
  | refl => rfl
  | @bump c' _ hkind ih =>
    refine (Cursor.clauses_bump_of_none ?_).trans ih
    rcases hkind with hfree | ⟨helse, hbefore⟩
    · exact Token.Kind.clause?_of_isFree hfree _
    · rw [helse]
      exact if_neg (by simp [hbefore])

end Inline

variable {α β σ : Type} {s : State}

/-- From the given state the parser goes on along the line, unless it reports a fault. -/
structure Runs (s : State) (x : Parser α) : Prop where
  leads : s.Leads (x.run s).2
  inline (hs : s.Good) (hwords : Worded s.cursor.tokens) (hclean : (x.run s).2.Clean) :
    Inline s.cursor (x.run s).2.cursor

/-- A parser that goes on along the line wherever it starts, unless it reports a fault. -/
class Stays (x : Parser α) : Prop where
  runs (s : State) : Runs s x

instance stays_still (x : Parser α) [hx : Still x] [hsteady : Steady x] : Stays x :=
  ⟨fun s => ⟨hsteady.leads s, fun _ _ _ => by rw [hx.cursor]; exact .refl _⟩⟩

instance stays_stall : Stays stall :=
  ⟨fun s => ⟨steady_stall.leads s, fun _ _ _ => .refl _⟩⟩

namespace Runs

theorem bind {x : Parser α} {f : α → Parser β} (hx : Runs s x) (hf : ∀ a s', Runs s' (f a)) :
    Runs s (x >>= f) := by
  have hrest := hf (x.run s).1 (x.run s).2
  refine ⟨hx.leads.trans hrest.leads, fun hs hwords hclean => ?_⟩
  have hmid := hrest.leads.clean hclean
  have hwords' : Worded (x.run s).2.cursor.tokens := by rwa [hx.leads.tokens]
  exact (hx.inline hs hwords hmid).trans
    (hrest.inline (hs.of_leads hx.leads hmid) hwords' hclean)

/-- The rest needs what is known of the value in front of it. -/
theorem given {x : Parser α} {f : α → Parser β} {Q : α → Prop} (hx : Runs s x)
    (hgives : Worded s.cursor.tokens → Gives s x fun a _ => Q a) (hf : ∀ a s', Q a → Runs s' (f a))
    (hsteady : ∀ a, Steady (f a) := by exact fun _ => .auto) : Runs s (x >>= f) := by
  have hrest := (hsteady (x.run s).1).leads (x.run s).2
  refine ⟨hx.leads.trans hrest, fun hs hwords hclean => ?_⟩
  have hmid := hrest.clean hclean
  have hvalue := (hgives hwords).holds hs hmid
  have hwords' : Worded (x.run s).2.cursor.tokens := by rwa [hx.leads.tokens]
  exact (hx.inline hs hwords hmid).trans
    ((hf _ _ hvalue).inline (hs.of_leads hx.leads hmid) hwords' hclean)

theorem map {f : α → β} {x : Parser α} (hx : Runs s x) : Runs s (f <$> x) :=
  ⟨hx.leads, hx.inline⟩

/-! ### Looking at tokens -/

theorem peek {j : Nat} {f : Token → Parser α} (hf : Runs s (f (s.cursor.peek j))) :
    Runs s (peek j >>= f) :=
  ⟨hf.leads, hf.inline⟩

theorem kind {j : Nat} {f : Token.Kind → Parser α} (hf : Runs s (f (s.cursor.kind j))) :
    Runs s (kind j >>= f) :=
  ⟨hf.leads, hf.inline⟩

theorem at? {k : Token.Kind} {f : Bool → Parser α} (hf : Runs s (f (s.cursor.kind = k))) :
    Runs s (at? k >>= f) :=
  ⟨hf.leads, hf.inline⟩

theorem get {f : State → Parser α} (hf : Runs s (f s)) : Runs s (get >>= f) :=
  ⟨hf.leads, hf.inline⟩

theorem isAborted {f : Bool → Parser α} (hf : Runs s (f s.aborted)) : Runs s (isAborted >>= f) :=
  ⟨hf.leads, hf.inline⟩

theorem extentFrom {t : Token} {f : Extent → Parser α}
    (hf : Runs s (f (extentBetween t s.cursor.prev))) : Runs s (extentFrom t >>= f) :=
  ⟨hf.leads, hf.inline⟩

/-! ### Taking tokens -/

theorem bump {f : Token → Parser α} (hkind : s.cursor.kind.isFree = true)
    (hf : Runs { s with cursor := s.cursor.bump } (f s.cursor.peek)) : Runs s (bump >>= f) := by
  have hleads := (steady_bump).leads s
  refine ⟨hleads.trans hf.leads, fun hs hwords hclean => ?_⟩
  have hgood := hs.of_leads hleads (hf.leads.clean hclean)
  have hwords' : Worded s.cursor.bump.tokens := by rwa [tokens_bump]
  exact (Inline.one hkind).trans (hf.inline hgood hwords' hclean)

theorem eat {k : Token.Kind} (hk : k.isFree = true) : Runs s (eat k) := by
  refine ⟨(steady_eat k).leads s, fun _ _ _ => ?_⟩
  rw [run_eat]
  split
  · next hkind => exact Inline.one (hkind ▸ hk)
  · exact .refl _

/-- A token that is taken if it is there, and then the rest. -/
theorem eaten {k : Token.Kind} {f : Bool → Parser α} (hk : k.isFree = true)
    (htrue : s.cursor.kind = k → Runs { s with cursor := s.cursor.bump } (f true))
    (hfalse : s.cursor.kind ≠ k → Runs s (f false)) : Runs s (Grammar.eat k >>= f) := by
  by_cases hkind : s.cursor.kind = k
  · have hrest : (Grammar.eat k >>= f).run s =
        (Grammar.bump >>= fun _ => f true).run s := by
      rw [run_bind, run_eat, if_pos hkind]
      rfl
    obtain ⟨hleads, hinline⟩ := bump (f := fun _ => f true) (hkind ▸ hk) (htrue hkind)
    exact ⟨hrest ▸ hleads, hrest ▸ hinline⟩
  · have hrest : (Grammar.eat k >>= f).run s = (f false).run s := by
      rw [run_bind, run_eat, if_neg hkind]
    obtain ⟨hleads, hinline⟩ := hfalse hkind
    exact ⟨hrest ▸ hleads, hrest ▸ hinline⟩

end Runs

/-- A token that has to be there is taken, unless there is a fault. -/
theorem Gives.taken (k : Token.Kind) : Gives s (Grammar.expect k) fun b s' =>
    b = true ∧ s.cursor.kind = k ∧ s' = { s with cursor := s.cursor.bump } := by
  refine ⟨fun hs hclean => ?_⟩
  obtain ⟨htrue, hkind⟩ := (Gives.expect k).holds hs hclean
  refine ⟨htrue, hkind, ?_⟩
  unfold Grammar.expect
  show (StateT.run (if s.aborted = true then _ else _ : Parser Bool) s).2 = _
  rw [if_neg (by simp [hs.aborted]), run_bind, run_eat, if_pos hkind, if_pos rfl]
  rfl

namespace Runs

/-- A token that has to be there is taken before the rest. -/
theorem expect {k : Token.Kind} {f : Bool → Parser α} (hk : k.isFree = true)
    (htrue : ∀ s', Runs s' (f true)) (hfalse : Steady (f false) := by exact .auto) :
    Runs s (expect k >>= f) := by
  have hleads := (steady_expect k).leads s
  have hrest : (((Grammar.expect k).run s).2).Leads ((Grammar.expect k >>= f).run s).2 := by
    rw [run_bind]
    cases ((Grammar.expect k).run s).1 with
    | true => exact (htrue _).leads
    | false => exact hfalse.leads _
  refine ⟨hleads.trans hrest, fun hs hwords hclean => ?_⟩
  have hmid := hrest.clean hclean
  -- Without a fault the token was there, so only the rest behind `true` counts.
  obtain ⟨hb, hkind, hstate⟩ := (Gives.taken k).holds hs hmid
  have hgood := hs.of_leads hleads hmid
  have hwords' : Worded ((Grammar.expect k).run s).2.cursor.tokens := by rwa [hleads.tokens]
  rw [run_bind, hb] at hclean ⊢
  refine Inline.trans ?_ ((htrue _).inline hgood hwords' hclean)
  rw [hstate]
  exact Inline.one (hkind ▸ hk)

/-- An `else` that has to be there is taken behind other words of the line. -/
theorem expectElse {x : Parser α} {f : α → Bool → Parser β}
    (hbefore : s.cursor.before.isLayout = false) (hx : Runs s x)
    (htrue : ∀ a s', Runs s' (f a true))
    (hfalse : ∀ a, Steady (f a false) := by exact fun _ => .auto) :
    Runs s (x >>= fun a => Grammar.expect .kwElse >>= f a) := by
  have hrest (a : α) (s' : State) : (((Grammar.expect .kwElse).run s').2).Leads
      ((Grammar.expect .kwElse >>= f a).run s').2 := by
    rw [run_bind]
    cases ((Grammar.expect .kwElse).run s').1 with
    | true => exact (htrue _ _).leads
    | false => exact (hfalse _).leads _
  have hleads := (steady_expect .kwElse).leads (x.run s).2
  refine ⟨hx.leads.trans (hleads.trans (hrest _ _)), fun hs hwords hclean => ?_⟩
  have hafter := (hrest _ _).clean hclean
  have hmid := hleads.clean hafter
  have hgood := hs.of_leads hx.leads hmid
  obtain ⟨hb, hkind, hstate⟩ := (Gives.taken .kwElse).holds hgood hafter
  have hinline := hx.inline hs hwords hmid
  have hwords' : Worded ((Grammar.expect .kwElse).run (x.run s).2).2.cursor.tokens := by
    rwa [hleads.tokens, hx.leads.tokens]
  rw [run_bind, run_bind, hb] at hclean ⊢
  refine Inline.trans ?_ ((htrue _ _).inline (hgood.of_leads hleads hafter) hwords' hclean)
  rw [hstate]
  exact hinline.bump (.inr ⟨hkind, hinline.before hbefore⟩)

theorem close {k : Token.Kind} (hk : k.isFree = true) : Runs s (close k) := by
  unfold Grammar.close
  refine .expect hk (fun s' => ?_) inferInstance
  rw [if_pos rfl]
  exact Stays.runs _

/-- Behind a fault there is nothing to show. -/
theorem fault {code : Diagnostic.Code} {span : Span} {arg : Text} {f : Unit → Parser α}
    (hf : ∀ a, Steady (f a) := by exact fun _ => .auto) : Runs s (report code span arg >>= f) :=
  ⟨(steady_bind _ _).leads s, fun hs _ =>
    (Gives.fault (Q := fun _ s' => Inline s.cursor s'.cursor) hf).holds hs⟩

/-! ### Repetition -/

theorem iterate {body : σ → Parser (σ × Bool)} (hbody : ∀ a s, Runs s (body a)) (n : Nat) (a : σ) :
    Runs s (iterate body n a) := by
  induction n generalizing a s with
  | zero =>
    exact .bind (Stays.runs s) fun _ s₁ => Stays.runs s₁
  | succ n ih =>
    unfold Grammar.iterate
    refine .bind (Stays.runs _) fun before s₁ => .bind (hbody a s₁) fun round s₂ => ?_
    dsimp only
    split
    · exact Stays.runs _
    · refine .bind (Stays.runs _) fun behind s₃ => ?_
      split
      · exact ih _
      · exact .bind (Stays.runs s₃) fun _ s₄ => Stays.runs s₄

theorem loop {start : σ} {body : σ → Parser (σ × Bool)} (hbody : ∀ a s, Runs s (body a)) :
    Runs s (loop start body) := by
  unfold Grammar.loop
  exact .bind (Stays.runs _) fun before s₁ => iterate hbody _ _

theorem collect {start : List α} {body : Parser (List α × Bool)} (hbody : ∀ s, Runs s body) :
    Runs s (collect start body) := by
  unfold Grammar.collect
  exact .bind (.loop fun found s₁ => .bind (hbody s₁) fun round s₂ => Stays.runs _)
    fun found s₁ => Stays.runs _

theorem collectAfter {sep : Token.Kind} {start : List α} {item : Parser α}
    (hsep : sep.isFree = true) (hitem : ∀ s, Runs s item) : Runs s (collectAfter sep start item) := by
  unfold Grammar.collectAfter
  refine .collect fun s₁ => .bind (.eat hsep) fun more s₂ => ?_
  split
  · exact .bind (hitem s₂) fun a s₃ => Stays.runs _
  · exact Stays.runs _

theorem collectCommas {start : List α} {stops : Parser Bool} {item : Parser α}
    (hstops : ∀ s, Runs s stops) (hitem : ∀ s, Runs s item) :
    Runs s (collectCommas start stops item) := by
  unfold Grammar.collectCommas
  refine .collect fun s₁ => .bind (.eat rfl) fun more s₂ => ?_
  split
  · refine .bind (hstops s₂) fun stop s₃ => ?_
    split
    · exact Stays.runs _
    · exact .bind (hitem s₃) fun a s₄ => Stays.runs _
  · exact Stays.runs _

theorem mapM {f : α → Parser β} {l : List α} (hf : ∀ a s, Runs s (f a)) : Runs s (l.mapM f) := by
  induction l generalizing s with
  | nil =>
    rw [List.mapM_nil]
    exact Stays.runs _
  | cons a l ih =>
    rw [List.mapM_cons]
    exact .bind (hf a s) fun b s₁ => .bind ih fun bs s₂ => Stays.runs _

/-! ### Automation -/

/-- Sequences, branches, cases and repetitions of parsers that stay on the line. A token that is
taken without a check is known from what the parser has seen before. -/
theorem auto {x : Parser α} (h : Runs s x := by
    repeat' (first
      | with_reducible exact Stays.runs _
      | with_reducible exact .eat (by decide)
      | with_reducible exact .close (by first | decide | assumption)
      | with_reducible refine .peek ?_
      | with_reducible refine .kind ?_
      | with_reducible refine .at? ?_
      | with_reducible refine .get ?_
      | with_reducible refine .isAborted ?_
      | with_reducible refine .extentFrom ?_
      | with_reducible refine .bump ?_ ?_
      | with_reducible refine .expect (by decide) fun _ => ?_
      | with_reducible refine .fault
      | with_reducible refine .map ?_
      | with_reducible refine .loop fun _ _ => ?_
      | with_reducible refine .collect fun _ => ?_
      | with_reducible refine .collectAfter (by decide) fun _ => ?_
      | with_reducible refine .collectCommas (fun _ => ?_) fun _ => ?_
      | with_reducible refine .mapM fun _ _ => ?_
      | rw [if_pos rfl]
      | with_reducible refine .bind ?_ fun _ _ => ?_
      | split
      | dsimp only
      | assumption
      | exact Token.Kind.isFree_of_some (by assumption)
      | (simp_all [kind_peek, kind_bump, Token.Kind.isFree, Token.Kind.isLayout]; done)
      | (simp only [Bool.and_eq_true, decide_eq_true_eq] at *
         simp_all [kind_peek, kind_bump, Token.Kind.isFree, Token.Kind.isLayout]; done))) :
    Runs s x :=
  h

end Runs

end Grammar

end CloneScout
