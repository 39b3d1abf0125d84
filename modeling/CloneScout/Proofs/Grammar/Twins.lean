import CloneScout.Proofs.Grammar.State
import CloneScout.Proofs.Token.Places

/-!
# Two parsers side by side

Two runs of a parser are compared on token sequences that differ only in where their tokens stand and
in how lines are laid out. Either both runs report a fault, or both go on alike and find values that
belong together. `Both` says this of two parsers in given states and `Twins` in all states; there is
one rule for each way in which parsers are put together.
-/

namespace CloneScout.Grammar

variable {α β γ δ σ τ : Type} {A : Nat → Nat → Prop}

/-! ## States -/

/-- Two parsers that have met no fault and stand at the same place of alike tokens. -/
structure State.Alike (A : Nat → Nat → Prop) (s s' : State) : Prop where
  clean : s.Clean
  clean' : s'.Clean
  fresh : s.Fresh
  fresh' : s'.Fresh
  pos : s.cursor.pos = s'.cursor.pos
  tokens : List.Forall₂ (Token.Alike A) s.cursor.tokens.toList s'.cursor.tokens.toList
  errors : s.errors = 0
  errors' : s'.errors = 0

theorem alike_eof (A : Nat → Nat → Prop) {t : Token} (h : t.kind = .eof) : t.Alike A t :=
  ⟨rfl, fun hk => absurd hk (by rw [h]; decide), fun hk => absurd hk (by rw [h]; decide)⟩

namespace State.Alike

variable {s s' : State}

theorem size_eq (h : s.Alike A s') : s.cursor.tokens.size = s'.cursor.tokens.size :=
  h.tokens.length_eq

theorem remaining_eq (h : s.Alike A s') : s.cursor.remaining = s'.cursor.remaining := by
  rw [Cursor.remaining, Cursor.remaining, h.size_eq, h.pos]

theorem final (h : s.Alike A s') : s.cursor.final.Alike A s'.cursor.final := by
  have htokens := h.tokens
  rw [Cursor.final, Cursor.final, ← Array.getLast?_toList, ← Array.getLast?_toList]
  generalize s.cursor.tokens.toList = ts at htokens ⊢
  generalize s'.cursor.tokens.toList = ts' at htokens ⊢
  rw [← List.head?_reverse, ← List.head?_reverse]
  have hreverse := List.rel_reverse htokens
  generalize ts.reverse = us at hreverse ⊢
  generalize ts'.reverse = us' at hreverse ⊢
  cases hreverse with
  | nil => exact alike_eof A rfl
  | cons ht _ => exact ht

theorem get (h : s.Alike A s') (i : Nat) : (s.cursor.get i).Alike A (s'.cursor.get i) := by
  rw [Cursor.get, Cursor.get]
  by_cases hi : i < s.cursor.tokens.size
  · have hi' : i < s'.cursor.tokens.size := by rw [← h.size_eq]; exact hi
    rw [Array.getElem?_eq_getElem hi, Array.getElem?_eq_getElem hi']
    exact List.Forall₂.get h.tokens hi hi'
  · rw [Array.getElem?_eq_none (by omega), Array.getElem?_eq_none (by have := h.size_eq; omega)]
    exact h.final

theorem peek (h : s.Alike A s') (k : Nat) : (s.cursor.peek k).Alike A (s'.cursor.peek k) := by
  rw [Cursor.peek, Cursor.peek, h.pos]
  exact h.get _

theorem kind_eq (h : s.Alike A s') (k : Nat) : s.cursor.kind k = s'.cursor.kind k := (h.peek k).kind

theorem upcoming (h : s.Alike A s') :
    List.Forall₂ (Token.Alike A) s.cursor.upcoming s'.cursor.upcoming := by
  rw [Cursor.upcoming, Cursor.upcoming, Array.toList_extract, Array.toList_extract, List.extract,
    List.extract, h.pos, h.size_eq]
  exact List.forall₂_take _ (List.forall₂_drop _ h.tokens)

/-- Both parsers go on to the same place. -/
theorem goto (h : s.Alike A s') {c c' : Cursor} (hc : Onward s.cursor c) (hc' : Onward s'.cursor c')
    (hpos : c.pos = c'.pos) :
    State.Alike A { s with cursor := c } { s' with cursor := c' } where
  clean := h.clean
  clean' := h.clean'
  fresh := ⟨h.fresh.aborted, h.fresh.capped, h.fresh.seen, h.fresh.latest⟩
  fresh' := ⟨h.fresh'.aborted, h.fresh'.capped, h.fresh'.seen, h.fresh'.latest⟩
  pos := hpos
  tokens := by
    show List.Forall₂ _ c.tokens.toList c'.tokens.toList
    rw [hc.tokens, hc'.tokens]
    exact h.tokens
  errors := h.errors
  errors' := h.errors'

theorem pos_bump (h : s.Alike A s') : s.cursor.bump.pos = s'.cursor.bump.pos := by
  rw [Cursor.bump, Cursor.bump, h.size_eq, h.pos]
  split
  · rfl
  · exact h.pos

theorem bump (h : s.Alike A s') :
    State.Alike A { s with cursor := s.cursor.bump } { s' with cursor := s'.cursor.bump } :=
  h.goto (onward_bump _) (onward_bump _) h.pos_bump

theorem pos_skipTo (h : s.Alike A s') (stops : List Token.Kind) :
    (s.cursor.skipTo stops).pos = (s'.cursor.skipTo stops).pos := by
  have hwithin (n : Nat) (nesting : Cursor.Nesting) (s s' : State) (h : s.Alike A s') :
      (Cursor.skipToWithin stops n nesting s.cursor).pos =
        (Cursor.skipToWithin stops n nesting s'.cursor).pos := by
    induction n generalizing nesting s s' with
    | zero => exact h.pos
    | succ n ih =>
      rw [Cursor.skipToWithin, Cursor.skipToWithin, h.kind_eq 0]
      split
      · exact h.pos
      · exact ih _ _ _ h.bump
  rw [Cursor.skipTo, Cursor.skipTo, h.remaining_eq]
  exact hwithin _ _ s s' h

end State.Alike

/-- Behind a token the token read last is this one. -/
theorem prev_bump (c : Cursor) : c.bump.prev = c.peek := by
  unfold Cursor.bump
  split
  · rfl
  · next hpos =>
    -- beyond the end every place shows the last token, and so does the last place
    show (if c.pos = 0 then c.peek else c.get (c.pos - 1)) = c.get (c.pos + 0)
    split
    · rfl
    · have hnone : c.get (c.pos + 0) = c.final := by
        rw [Cursor.get, Array.getElem?_eq_none (by omega)]
        rfl
      rw [hnone, Cursor.get]
      by_cases hlast : c.pos - 1 < c.tokens.size
      · have hindex : c.pos - 1 = c.tokens.size - 1 := by omega
        rw [Cursor.final, Array.back?_eq_getElem?, hindex, Array.getElem?_eq_getElem (by omega)]
        rfl
      · rw [Array.getElem?_eq_none (by omega)]
        rfl

/-! ## Both runs -/

/-- From these states both parsers report a fault, or both go on alike and find values that belong
together. -/
structure Both (A : Nat → Nat → Prop) (s s' : State) (x : Parser α) (y : Parser β)
    (R : α → β → Prop) : Prop where
  ends : s.Alike A s' → ¬ (x.run s).2.Clean ∧ ¬ (y.run s').2.Clean ∨
    (x.run s).2.Alike A (y.run s').2 ∧ R (x.run s).1 (y.run s').1

/-- From all alike states both parsers report a fault, or both go on alike and find values that
belong together. -/
def Twins (A : Nat → Nat → Prop) (x : Parser α) (y : Parser β) (R : α → β → Prop) : Prop :=
  ∀ s s', Both A s s' x y R

namespace Both

variable {s s' : State} {x : Parser α} {y : Parser β} {f : α → Parser γ} {g : β → Parser δ}
  {Q : α → β → Prop} {R : γ → δ → Prop}

theorem pure {a : α} {b : β} (h : Q a b) : Both A s s' (pure a) (pure b) Q :=
  ⟨fun hs => .inr ⟨hs, h⟩⟩

theorem bind (hx : Both A s s' x y Q) (hf : ∀ a b, Q a b → ∀ s s', Both A s s' (f a) (g b) R)
    [p : ∀ a, Steady (f a)] [q : ∀ b, Steady (g b)] :
    Both A s s' (x >>= f) (y >>= g) R := by
  refine ⟨fun hs => ?_⟩
  rcases hx.ends hs with ⟨hx, hy⟩ | ⟨hs₁, hq⟩
  · exact .inl ⟨fun h => hx (((p _).leads _).clean h),
      fun h => hy (((q _).leads _).clean h)⟩
  · exact (hf _ _ hq _ _).ends hs₁

theorem pure_bind {a : α} {b : β} (h : Both A s s' (f a) (g b) R) :
    Both A s s' (Pure.pure a >>= f) (Pure.pure b >>= g) R :=
  h

/-- Nothing is left to show behind a fault. -/
theorem stop (hx : Both A s s' x y fun _ _ => False)
    [p : ∀ a, Steady (f a)] [q : ∀ b, Steady (g b)] :
    Both A s s' (x >>= f) (y >>= g) R :=
  hx.bind (fun _ _ h => h.elim)

theorem mono {Q' : α → β → Prop} (hx : Both A s s' x y Q) (h : ∀ a b, Q a b → Q' a b) :
    Both A s s' x y Q' :=
  ⟨fun hs => (hx.ends hs).imp_right fun hq => ⟨hq.1, h _ _ hq.2⟩⟩

theorem ite {c : Prop} [Decidable c] {x₁ x₂ : Parser α} {y₁ y₂ : Parser β}
    (hyes : c → Both A s s' x₁ y₁ Q) (hno : ¬ c → Both A s s' x₂ y₂ Q) :
    Both A s s' (if c then x₁ else x₂) (if c then y₁ else y₂) Q := by
  split
  · next hc => exact hyes hc
  · next hc => exact hno hc

/-! ### Looking at the state -/

theorem get {f : State → Parser γ} {g : State → Parser δ}
    (h : s.Alike A s' → Both A s s' (f s) (g s') R) : Both A s s' (get >>= f) (get >>= g) R :=
  ⟨fun hs => (h hs).ends hs⟩

theorem peek {k : Nat} {f : Token → Parser γ} {g : Token → Parser δ}
    (h : (s.cursor.peek k).Alike A (s'.cursor.peek k) →
      Both A s s' (f (s.cursor.peek k)) (g (s'.cursor.peek k)) R) :
    Both A s s' (Grammar.peek k >>= f) (Grammar.peek k >>= g) R :=
  ⟨fun hs => (h (hs.peek k)).ends hs⟩

theorem kind {k : Nat} {f : Token.Kind → Parser γ} {g : Token.Kind → Parser δ}
    (h : Both A s s' (f (s.cursor.kind k)) (g (s.cursor.kind k)) R) :
    Both A s s' (Grammar.kind k >>= f) (Grammar.kind k >>= g) R := by
  refine ⟨fun hs => ?_⟩
  have hrun : (Grammar.kind k >>= g).run s' = (g (s.cursor.kind k)).run s' := by
    rw [hs.kind_eq k]
    rfl
  rw [hrun]
  exact h.ends hs

theorem at? {k : Token.Kind} {f : Bool → Parser γ} {g : Bool → Parser δ}
    (hyes : s.cursor.kind = k → Both A s s' (f true) (g true) R)
    (hno : s.cursor.kind ≠ k → Both A s s' (f false) (g false) R) :
    Both A s s' (Grammar.at? k >>= f) (Grammar.at? k >>= g) R := by
  show Both A s s' (Grammar.kind >>= fun k' => f (decide (k' = k)))
    (Grammar.kind >>= fun k' => g (decide (k' = k))) R
  refine kind ?_
  by_cases hk : s.cursor.kind = k
  · rw [decide_eq_true hk]
    exact hyes hk
  · rw [decide_eq_false hk]
    exact hno hk

theorem isAborted {f : Bool → Parser γ} {g : Bool → Parser δ}
    (h : Both A s s' (f false) (g false) R) :
    Both A s s' (Grammar.isAborted >>= f) (Grammar.isAborted >>= g) R := by
  refine ⟨fun hs => ?_⟩
  have hrun : (Grammar.isAborted >>= f).run s = (f s.aborted).run s := rfl
  have hrun' : (Grammar.isAborted >>= g).run s' = (g s'.aborted).run s' := rfl
  rw [hrun, hrun', hs.fresh.aborted, hs.fresh'.aborted]
  exact h.ends hs

/-! ### Taking tokens -/

theorem bump {f : Token → Parser γ} {g : Token → Parser δ}
    (h : (s.cursor.peek).Alike A (s'.cursor.peek) → ∀ s₁ s₁', s₁.cursor.prev = s.cursor.peek →
      s₁'.cursor.prev = s'.cursor.peek → Both A s₁ s₁' (f s.cursor.peek) (g s'.cursor.peek) R) :
    Both A s s' (bump >>= f) (bump >>= g) R :=
  ⟨fun hs => (h (hs.peek 0) _ _ (prev_bump s.cursor) (prev_bump s'.cursor)).ends hs.bump⟩

/-- A token whose text is of no interest. -/
theorem skip_bump {f : Token → Parser γ} {g : Token → Parser δ}
    (h : ∀ s₁ s₁', Both A s₁ s₁' (f s.cursor.peek) (g s'.cursor.peek) R) :
    Both A s s' (Grammar.bump >>= f) (Grammar.bump >>= g) R :=
  bump fun _ s₁ s₁' _ _ => h s₁ s₁'

/-- A token is taken in front of others that have been looked at. -/
theorem bump_ahead {f : Token → Parser γ} {g : Token → Parser δ}
    (h : ∀ s₁ s₁', (∀ k, s₁.cursor.kind k = s.cursor.kind (k + 1)) →
      Both A s₁ s₁' (f s.cursor.peek) (g s'.cursor.peek) R) :
    Both A s s' (Grammar.bump >>= f) (Grammar.bump >>= g) R :=
  ⟨fun hs => (h _ _ fun k => congrArg Token.kind (peek_bump s.cursor k)).ends hs.bump⟩

theorem eat {k : Token.Kind} {f : Bool → Parser γ} {g : Bool → Parser δ}
    (hyes : s.cursor.kind = k → ∀ s₁ s₁', Both A s₁ s₁' (f true) (g true) R)
    (hno : s.cursor.kind ≠ k → Both A s s' (f false) (g false) R) :
    Both A s s' (eat k >>= f) (eat k >>= g) R := by
  have heat {ε : Type} (f : Bool → Parser ε) : Grammar.eat k >>= f = Grammar.at? k >>= fun b =>
      if b = true then Grammar.bump >>= fun _ => f true else f false := by
    unfold Grammar.eat
    simp only [bind_assoc]
    congr 1
    funext b
    cases b <;> simp
  rw [heat, heat]
  exact at? (fun hk => skip_bump (hyes hk)) hno

/-- A fault ends both runs. -/
theorem fault {code : Diagnostic.Code} {span span' : Span} {arg arg' : Text}
    {f : Unit → Parser γ} {g : Unit → Parser δ}
    [p : ∀ a, Steady (f a)] [q : ∀ b, Steady (g b)] :
    Both A s s' (report code span arg >>= f) (report code span' arg' >>= g) R :=
  ⟨fun hs => .inl ⟨fun h => hs.fresh.not_clean_report _ _ _ (((p _).leads _).clean h),
    fun h => hs.fresh'.not_clean_report _ _ _ (((q _).leads _).clean h)⟩⟩

theorem report {code : Diagnostic.Code} {span span' : Span} {arg arg' : Text}
    {Q : Unit → Unit → Prop} :
    Both A s s' (report code span arg) (Grammar.report code span' arg') Q :=
  ⟨fun hs => .inl ⟨hs.fresh.not_clean_report _ _ _, hs.fresh'.not_clean_report _ _ _⟩⟩

theorem fault_abort {code : Diagnostic.Code} {span span' : Span} {arg arg' : Text}
    {f : Unit → Parser γ} {g : Unit → Parser δ}
    [p : ∀ a, Steady (f a)] [q : ∀ b, Steady (g b)] :
    Both A s s' (Grammar.report code span arg >>= fun _ => abort >>= f)
      (Grammar.report code span' arg' >>= fun _ => abort >>= g) R :=
  ⟨fun hs => .inl ⟨fun h => hs.fresh.not_clean_report _ _ _
      (((p ()).leads (s.report code span arg).giveUp).clean h),
    fun h => hs.fresh'.not_clean_report _ _ _
      (((q ()).leads (s'.report code span' arg').giveUp).clean h)⟩⟩

theorem unexpected {f : Unit → Parser γ} {g : Unit → Parser δ}
    [p : ∀ a, Steady (f a)] [q : ∀ b, Steady (g b)] :
    Both A s s' (unexpected >>= f) (Grammar.unexpected >>= g) R :=
  ⟨fun hs => .inl ⟨fun h => hs.fresh.not_clean_report _ _ _ (((p _).leads _).clean h),
    fun h => hs.fresh'.not_clean_report _ _ _ (((q _).leads _).clean h)⟩⟩

/-- A token that has to be there is there. -/
theorem expect {k : Token.Kind} {f : Bool → Parser γ} {g : Bool → Parser δ}
    (h : s.cursor.kind = k → ∀ s₁ s₁', Both A s₁ s₁' (f true) (g true) R)
    [p : ∀ a, Steady (f a)] [q : ∀ b, Steady (g b)] :
    Both A s s' (expect k >>= f) (expect k >>= g) R := by
  have hx : Both A s s' (Grammar.expect k) (Grammar.expect k)
      fun a b => a = true ∧ b = true ∧ s.cursor.kind = k := by
    unfold Grammar.expect
    refine isAborted (ite (fun h => nomatch h) fun _ => eat (fun hk s₁ s₁' => ?_) fun _ => ?_)
    · exact ite (fun _ => pure ⟨rfl, rfl, hk⟩) fun h => absurd rfl h
    · refine ite (fun h => nomatch h) fun _ => peek fun ht => ?_
      rw [ht.kind]
      exact ite (fun _ => fault_abort) fun _ => fault
  refine hx.bind fun a b hab s₁ s₁' => ?_
  obtain ⟨rfl, rfl, hk⟩ := hab
  exact h hk s₁ s₁'

/-- A bracket that has to be there is there. -/
theorem close {k : Token.Kind} {f : Unit → Parser γ} {g : Unit → Parser δ}
    (h : ∀ s₁ s₁', Both A s₁ s₁' (f ()) (g ()) R)
    [p : ∀ a, Steady (f a)] [q : ∀ b, Steady (g b)] :
    Both A s s' (close k >>= f) (close k >>= g) R := by
  have hx : Both A s s' (Grammar.close k) (Grammar.close k) fun _ _ => True := by
    unfold Grammar.close
    exact expect fun _ s₁ s₁' => ite (fun _ => pure trivial) fun h => absurd rfl h
  exact hx.bind fun _ _ _ s₁ s₁' => h s₁ s₁'

theorem recoverTo {stops : List Token.Kind} {f : Unit → Parser γ} {g : Unit → Parser δ}
    (h : ∀ s₁ s₁', Both A s₁ s₁' (f ()) (g ()) R) :
    Both A s s' (recoverTo stops >>= f) (Grammar.recoverTo stops >>= g) R :=
  ⟨fun hs => (h _ _).ends (hs.goto (onward_skipTo stops s.cursor) (onward_skipTo stops s'.cursor)
    (hs.pos_skipTo stops))⟩

theorem stall {f : Unit → Parser γ} {g : Unit → Parser δ}
    (h : ∀ s₁ s₁', Both A s₁ s₁' (f ()) (g ()) R) :
    Both A s s' (stall >>= f) (Grammar.stall >>= g) R := by
  refine ⟨fun hs => (h _ _).ends ?_⟩
  exact { hs with
    fresh := ⟨hs.fresh.aborted, hs.fresh.capped, hs.fresh.seen, hs.fresh.latest⟩
    fresh' := ⟨hs.fresh'.aborted, hs.fresh'.capped, hs.fresh'.seen, hs.fresh'.latest⟩ }

/-! ### Extents -/

theorem extent {t t' : Token} {f : Extent → Parser γ} {g : Extent → Parser δ}
    (h : ∀ x x', Both A s s' (f x) (g x') R) :
    Both A s s' (extentFrom t >>= f) (extentFrom t' >>= g) R :=
  ⟨fun hs => (h _ _).ends hs⟩

theorem lo_extentBetween (t : Token) : (extentBetween t t).span.lo = t.span.lo := by
  unfold extentBetween
  split
  · rfl
  · exact Nat.min_self _

/-- The extent of the token read last starts where the token does. -/
theorem extent_prev {t t' : Token} {f : Extent → Parser γ} {g : Extent → Parser δ}
    (hprev : s.cursor.prev = t) (hprev' : s'.cursor.prev = t')
    (h : ∀ x x', x.span.lo = t.span.lo → x'.span.lo = t'.span.lo → Both A s s' (f x) (g x') R) :
    Both A s s' (extentFrom t >>= f) (extentFrom t' >>= g) R := by
  refine ⟨fun hs => ?_⟩
  subst hprev hprev'
  exact (h _ _ (lo_extentBetween _) (lo_extentBetween _)).ends hs

theorem closeStatement {t t' : Token} {f : Extent → Parser γ} {g : Extent → Parser δ}
    (h : ∀ x x' s₁ s₁', Both A s₁ s₁' (f x) (g x') R) :
    Both A s s' (closeStatement t >>= f) (Grammar.closeStatement t' >>= g) R := by
  refine ⟨fun hs => (h _ _ _ _).ends ?_⟩
  exact { hs with
    fresh := ⟨hs.fresh.aborted, hs.fresh.capped, hs.fresh.seen, hs.fresh.latest⟩
    fresh' := ⟨hs.fresh'.aborted, hs.fresh'.capped, hs.fresh'.seen, hs.fresh'.latest⟩ }

theorem closeCompound {t t' : Token} {f : Extent → Parser γ} {g : Extent → Parser δ}
    (h : ∀ x x', Both A s s' (f x) (g x') R) :
    Both A s s' (closeCompound t >>= f) (Grammar.closeCompound t' >>= g) R :=
  ⟨fun hs => (h _ _).ends hs⟩

end Both

namespace Twins

variable {x : Parser α} {y : Parser β} {f : α → Parser γ} {g : β → Parser δ} {Q : α → β → Prop}
  {R : γ → δ → Prop}

theorem bind {s s' : State} (hx : Twins A x y Q)
    (hf : ∀ a b, Q a b → ∀ s s', Both A s s' (f a) (g b) R)
    [p : ∀ a, Steady (f a)] [q : ∀ b, Steady (g b)] :
    Both A s s' (x >>= f) (y >>= g) R :=
  (hx s s').bind hf

theorem mono {Q' : α → β → Prop} (hx : Twins A x y Q) (h : ∀ a b, Q a b → Q' a b) :
    Twins A x y Q' :=
  fun s s' => (hx s s').mono h

theorem map {p : α → γ} {q : β → δ} (hx : Twins A x y Q) (h : ∀ a b, Q a b → R (p a) (q b)) :
    Twins A (p <$> x) (q <$> y) R :=
  fun s s' => ⟨fun hs => ((hx s s').ends hs).imp_right fun hq => ⟨hq.1, h _ _ hq.2⟩⟩

end Twins

/-! ## Repetition -/

section

variable {I : σ → τ → Prop} {start : σ} {start' : τ} {body : σ → Parser (σ × Bool)}
  {body' : τ → Parser (τ × Bool)}

/-- A round of a loop, and further ones if it says that more follows. -/
theorem Both.round {s s' : State} {n : Nat} {a : σ} {b : τ}
    (hbody : Both A s s' (body a) (body' b) fun r r' => I r.1 r'.1 ∧ r.2 = r'.2)
    (h : ∀ a b, I a b → Twins A (iterate body n a) (iterate body' n b) I)
    [p : ∀ a, Steady (body a)] [q : ∀ b, Steady (body' b)] :
    Both A s s' (iterate body (n + 1) a) (iterate body' (n + 1) b) I := by
  unfold Grammar.iterate
  refine .get fun hs => hbody.bind fun ⟨a, more⟩ ⟨b, more'⟩ hr s₁ s₁' => ?_
  obtain ⟨hab, rfl⟩ := hr
  refine .ite (fun _ => .pure hab) fun _ => .get fun hs₁ => ?_
  rw [hs.remaining_eq, hs₁.remaining_eq]
  exact .ite (fun _ => h a b hab s₁ s₁') fun _ => .stall fun s₂ s₂' => .pure hab

theorem Twins.iterate [∀ a, Steady (body a)] [∀ b, Steady (body' b)]
    (hbody : ∀ a b, I a b → Twins A (body a) (body' b) fun r r' => I r.1 r'.1 ∧ r.2 = r'.2)
    (n : Nat) {a : σ} {b : τ} (h : I a b) : Twins A (iterate body n a) (iterate body' n b) I := by
  induction n generalizing a b with
  | zero => exact fun s s' => .stall fun s₁ s₁' => .pure h
  | succ n ih => exact fun s s' => .round (hbody a b h s s') fun a b hab => ih hab

/-- What holds behind the first round and is kept by each further one holds at the end. -/
theorem Both.loop_once {s s' : State}
    (hfirst : Both A s s' (body start) (body' start') fun r r' => I r.1 r'.1 ∧ r.2 = r'.2)
    (hbody : ∀ a b, I a b → Twins A (body a) (body' b) fun r r' => I r.1 r'.1 ∧ r.2 = r'.2)
    [p : ∀ a, Steady (body a)] [q : ∀ b, Steady (body' b)] :
    Both A s s' (loop start body) (loop start' body') I := by
  unfold Grammar.loop
  refine .get fun hs => ?_
  rw [hs.remaining_eq]
  exact .round hfirst fun a b hab => Twins.iterate hbody _ hab

theorem Both.loop {s s' : State} (hstart : I start start')
    (hbody : ∀ a b, I a b → Twins A (body a) (body' b) fun r r' => I r.1 r'.1 ∧ r.2 = r'.2)
    [p : ∀ a, Steady (body a)] [q : ∀ b, Steady (body' b)] :
    Both A s s' (loop start body) (loop start' body') I :=
  .loop_once (hbody start start' hstart s s') hbody

end

section

variable {Q : α → β → Prop} {start : List α} {start' : List β}

/-- What holds behind the first round and is kept by each further one holds at the end. -/
theorem Both.collect_once {s s' : State} {body : Parser (List α × Bool)} {body' : Parser (List β × Bool)}
    {I : List α → List β → Prop}
    (hfirst : Both A s s' body body' fun r r' => I (start ++ r.1) (start' ++ r'.1) ∧ r.2 = r'.2)
    (hbody : ∀ as bs, I as bs →
      Twins A body body' fun r r' => I (as ++ r.1) (bs ++ r'.1) ∧ r.2 = r'.2)
    [p : Steady body] [q : Steady body'] :
    Both A s s' (collect start body) (collect start' body') I := by
  unfold Grammar.collect
  refine Both.bind (Q := fun (as : List α) (bs : List β) => I as.reverse bs.reverse) ?_ fun as bs h s₁ s₁' => .pure h
  have hround {as : List α} {bs : List β} {s s' : State}
      (h : Both A s s' body body' fun r r' =>
        I (as.reverse ++ r.1) (bs.reverse ++ r'.1) ∧ r.2 = r'.2) :
      Both A s s'
        (body >>= fun r => Pure.pure (r.1.reverse ++ as, r.2))
        (body' >>= fun r => Pure.pure (r.1.reverse ++ bs, r.2))
        fun r r' => I r.1.reverse r'.1.reverse ∧ r.2 = r'.2 :=
    h.bind fun r r' hr s₁ s₁' => .pure (by simpa using hr)
  refine Both.loop_once (I := fun (as : List α) (bs : List β) => I as.reverse bs.reverse) ?_ fun as bs h s₁ s₁' => ?_
  · exact hround (by simpa using hfirst)
  · exact hround (hbody _ _ h s₁ s₁')

theorem Twins.collect {body : Parser (List α × Bool)} {body' : Parser (List β × Bool)}
    (hstart : List.Forall₂ Q start start')
    (hbody : Twins A body body' fun r r' => List.Forall₂ Q r.1 r'.1 ∧ r.2 = r'.2)
    [p : Steady body] [q : Steady body'] :
    Twins A (collect start body) (collect start' body') (List.Forall₂ Q) := by
  have hround (as : List α) (bs : List β) (h : List.Forall₂ Q as bs) :
      Twins A body body' fun r r' => List.Forall₂ Q (as ++ r.1) (bs ++ r'.1) ∧ r.2 = r'.2 :=
    hbody.mono fun r r' hr => ⟨List.rel_append h hr.1, hr.2⟩
  exact fun s s' => Both.collect_once (hround _ _ hstart s s') hround

theorem Both.collect {s s' : State} {body : Parser (List α × Bool)}
    {body' : Parser (List β × Bool)} (hstart : List.Forall₂ Q start start')
    (hbody : Twins A body body' fun r r' => List.Forall₂ Q r.1 r'.1 ∧ r.2 = r'.2)
    [p : Steady body] [q : Steady body'] :
    Both A s s' (collect start body) (collect start' body') (List.Forall₂ Q) :=
  Twins.collect hstart hbody s s'

variable {item : Parser α} {item' : Parser β} [Steady item] [Steady item']

theorem Twins.collectAfter {sep : Token.Kind} (hstart : List.Forall₂ Q start start')
    (hitem : Twins A item item' Q) :
    Twins A (collectAfter sep start item) (collectAfter sep start' item') (List.Forall₂ Q) := by
  refine Twins.collect hstart fun s s' => .eat (fun _ s₁ s₁' => ?_) fun _ => ?_
  · exact hitem.bind fun a b h s₂ s₂' => .pure ⟨.cons h .nil, rfl⟩
  · exact .pure ⟨.nil, rfl⟩

/-- A separator that is next has an item behind it. -/
theorem Both.collectAfter {s s' : State} {sep : Token.Kind} (hnext : s.cursor.kind = sep)
    (hstart : List.Forall₂ Q start start') (hitem : Twins A item item' Q) :
    Both A s s' (collectAfter sep start item) (collectAfter sep start' item')
      fun as bs => List.Forall₂ Q as bs ∧ start.length < as.length := by
  refine Both.collect_once (.eat (fun _ s₁ s₁' => ?_) fun hno => absurd hnext hno)
    fun as bs hinv s₁ s₁' => .eat (fun _ s₂ s₂' => ?_) fun _ => ?_
  · refine hitem.bind fun a b h s₂ s₂' => .pure ⟨⟨?_, ?_⟩, rfl⟩
    · exact List.rel_append hstart (.cons h .nil)
    · simp
  · refine hitem.bind fun a b h s₂ s₂' => .pure ⟨⟨?_, ?_⟩, rfl⟩
    · exact List.rel_append hinv.1 (.cons h .nil)
    · rw [List.length_append]
      exact Nat.lt_add_right _ hinv.2
  · exact .pure ⟨by simpa using hinv, rfl⟩

theorem Twins.collectCommas {stops stops' : Parser Bool} [Steady stops] [Steady stops']
    (hstart : List.Forall₂ Q start start') (hstops : Twins A stops stops' Eq)
    (hitem : Twins A item item' Q) :
    Twins A (collectCommas start stops item) (collectCommas start' stops' item')
      (List.Forall₂ Q) := by
  refine Twins.collect hstart fun s s' => .eat (fun _ s₁ s₁' => ?_) fun _ => ?_
  · refine hstops.bind fun stop stop' h s₂ s₂' => ?_
    subst h
    refine .ite (fun _ => .pure ⟨.nil, rfl⟩) fun _ => ?_
    exact hitem.bind fun a b h s₂ s₂' => .pure ⟨.cons h .nil, rfl⟩
  · exact .pure ⟨.nil, rfl⟩

end

theorem Twins.mapM {P : α → β → Prop} {R : γ → δ → Prop} {f : α → Parser γ} {g : β → Parser δ}
    [∀ a, Steady (f a)] [∀ b, Steady (g b)] {as : List α} {bs : List β}
    (h : List.Forall₂ P as bs) (hf : ∀ a b, P a b → Twins A (f a) (g b) R) :
    Twins A (as.mapM f) (bs.mapM g) (List.Forall₂ R) := by
  induction h with
  | nil =>
    rw [List.mapM_nil, List.mapM_nil]
    exact fun s s' => .pure .nil
  | cons hab _ ih =>
    rw [List.mapM_cons, List.mapM_cons]
    intro s s'
    exact (hf _ _ hab).bind fun c d hcd s₁ s₁' => ih.bind fun cs ds hcs s₂ s₂' =>
      .pure (.cons hcd hcs)

end CloneScout.Grammar
