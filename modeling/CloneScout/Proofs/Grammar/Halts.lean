import CloneScout.Proofs.Grammar.State

/-!
# Parsers that come to an end by themselves

A parser marks its state as stalled when a loop goes on without taking a token, or when the rules
come back to each other more often than their bound allows. `Halts` says that this does not happen
as long as fewer than a given number of tokens are left. A rule that may come back to another rule
only with fewer tokens has to take one before, and it can take one only if the next token is not the
`eof` token. `Ahead` is for parsers that start with such a token, `Takes` for those that take it in
any case, and `Advances` for the rounds of a loop, which take a token unless they are the last one.
-/

namespace CloneScout.Cursor

/-! ## Places before the end -/

/-- The last token is the `eof` token, so that is the only one to be seen at the end. -/
def Closed (c : Cursor) : Prop := c.final.kind = .eof

variable {c c' : Cursor}

theorem Closed.of_tokens (h : c.Closed) (htokens : c'.tokens = c.tokens) : c'.Closed := by
  unfold Closed final at h ⊢
  rw [htokens]
  exact h

theorem closed_push (ts : Array Token) {t : Token} (h : t.kind = .eof) (pos : Nat) :
    Closed ⟨ts.push t, pos⟩ := by
  unfold Closed final
  rw [Array.back?_push]
  exact h

/-- Only before the end of the tokens there is another token than `eof`. -/
theorem Closed.pos_lt (h : c.Closed) (hkind : c.kind ≠ .eof) : c.pos < c.tokens.size := by
  rcases Nat.lt_or_ge c.pos c.tokens.size with hlt | hge
  · exact hlt
  · refine absurd ?_ hkind
    show (c.get c.pos).kind = .eof
    rw [Cursor.get, Array.getElem?_eq_none hge]
    exact h

theorem Closed.remaining_bump (h : c.Closed) (hkind : c.kind ≠ .eof) :
    c.bump.remaining < c.remaining := by
  have hpos := h.pos_lt hkind
  rw [bump, if_pos hpos]
  show c.tokens.size - (c.pos + 1) < c.tokens.size - c.pos
  omega

theorem remaining_le (htokens : c'.tokens = c.tokens) (hpos : c.pos ≤ c'.pos) :
    c'.remaining ≤ c.remaining := by
  rw [remaining, remaining, htokens]
  omega

theorem remaining_lt (htokens : c'.tokens = c.tokens) (hpos : c.pos < c'.pos)
    (hlt : c.pos < c.tokens.size) : c'.remaining < c.remaining := by
  rw [remaining, remaining, htokens]
  omega

/-! ## Recovery -/

theorem Closed.remaining_pos (h : c.Closed) (hkind : c.kind ≠ .eof) : 0 < c.remaining :=
  Nat.lt_of_le_of_lt (Nat.zero_le _) (h.remaining_bump hkind)

theorem Closed.bump (h : c.Closed) : c.bump.Closed := h.of_tokens (Grammar.tokens_bump c)

/-- Any two bounds that the tokens left do not exceed lead to the same end of the line. -/
theorem skipLineWithin_eq (hc : c.Closed) {n m : Nat} (hn : c.remaining ≤ n)
    (hm : c.remaining ≤ m) : skipLineWithin n c = skipLineWithin m c := by
  induction n generalizing m c with
  | zero =>
    have hkind : c.kind = .eof :=
      Decidable.byContradiction fun h => absurd (hc.remaining_pos h) (by omega)
    cases m <;> simp [skipLineWithin, hkind]
  | succ n ih =>
    by_cases hkind : c.kind = .eof
    · cases m <;> simp [skipLineWithin, hkind]
    · have hless := hc.remaining_bump hkind
      cases m with
      | zero => omega
      | succ m =>
        rw [skipLineWithin, skipLineWithin, ih hc.bump (m := m) (by omega) (by omega)]

/-- Any two bounds that the tokens left do not exceed lead to the same token. -/
theorem skipToWithin_eq {stops : List Token.Kind} (hc : c.Closed) {n m : Nat} {nesting : Nesting}
    (hn : c.remaining ≤ n) (hm : c.remaining ≤ m) :
    skipToWithin stops n nesting c = skipToWithin stops m nesting c := by
  induction n generalizing m c nesting with
  | zero =>
    have hkind : c.kind = .eof :=
      Decidable.byContradiction fun h => absurd (hc.remaining_pos h) (by omega)
    cases m <;> simp [skipToWithin, hkind]
  | succ n ih =>
    by_cases hkind : c.kind = .eof
    · cases m <;> simp [skipToWithin, hkind]
    · have hless := hc.remaining_bump hkind
      cases m with
      | zero => omega
      | succ m =>
        rw [skipToWithin, skipToWithin, ih hc.bump (m := m) (by omega) (by omega)]

end CloneScout.Cursor

namespace CloneScout.Grammar

variable {α β σ : Type} {k : Nat}

/-! ## Parsers that end -/

/-- The parser has not stalled, its tokens end with `eof`, and fewer than `k` of them are left. -/
structure State.Fit (k : Nat) (s : State) : Prop where
  closed : s.cursor.Closed
  left : s.cursor.remaining < k
  unstalled : s.stalled = false

/-- With fewer than `k` tokens left the parser comes to an end by itself. -/
class Halts (k : Nat) (x : Parser α) : Prop where
  unstalled {s : State} (h : s.Fit k) : (x.run s).2.stalled = false

/-- With fewer than `k` tokens left, the next one of them not `eof`, the parser comes to an end by
itself. -/
class Ahead (k : Nat) (x : Parser α) : Prop where
  unstalled {s : State} (h : s.Fit k) (hkind : s.cursor.kind ≠ .eof) : (x.run s).2.stalled = false

/-- A parser that only looks at its tokens. -/
class Still (x : Parser α) : Prop where
  cursor (s : State) : (x.run s).2.cursor = s.cursor
  stalled (s : State) : (x.run s).2.stalled = s.stalled

/-- A parser that tells whether the next token is one that it looks for, which is not `eof`. -/
class Looks (x : Parser Bool) : Prop extends Still x where
  ahead {s : State} (htrue : (x.run s).1 = true) : s.cursor.kind ≠ .eof

/-- From the given place the parser takes a token, unless its result fails the condition. -/
def Spends (c : Cursor) (x : Parser α) (Q : α → Prop) : Prop :=
  ∀ s, s.cursor = c → Q (x.run s).1 → (x.run s).2.cursor.remaining < c.remaining

/-- A parser that takes a token if there is one. -/
abbrev Takes (x : Parser α) : Prop := ∀ c, c.Closed → c.kind ≠ .eof → Spends c x fun _ => True

/-- A round of a loop that takes a token or is the last one. -/
abbrev Advances (x : Parser (σ × Bool)) : Prop := ∀ c, c.Closed → Spends c x (·.2 = true)

/-- A parser that tells whether it has taken a token. -/
structure Guards (x : Parser Bool) : Prop where
  taken {s : State} (h : s.cursor.Closed) (htrue : (x.run s).1 = true) :
    (x.run s).2.cursor.remaining < s.cursor.remaining
  kept {s : State} (hfalse : (x.run s).1 = false) : (x.run s).2.cursor = s.cursor

namespace State

variable {s s' : State}

theorem Leads.closed (h : s.Leads s') (hs : s.cursor.Closed) : s'.cursor.Closed :=
  hs.of_tokens h.tokens

theorem Leads.remaining (h : s.Leads s') : s'.cursor.remaining ≤ s.cursor.remaining :=
  Cursor.remaining_le h.tokens h.pos

theorem Fit.after (h : s.Fit k) (hl : s.Leads s') (hs : s'.stalled = false) : s'.Fit k :=
  ⟨hl.closed h.closed, Nat.lt_of_le_of_lt hl.remaining h.left, hs⟩

theorem Fit.of_still {x : Parser α} [hx : Still x] (h : s.Fit k) : (x.run s).2.Fit k :=
  ⟨by rw [hx.cursor]; exact h.closed, by rw [hx.cursor]; exact h.left,
    (hx.stalled s).trans h.unstalled⟩

theorem Fit.weaken (h : s.Fit k) : s.Fit (k + 1) :=
  ⟨h.closed, Nat.lt_succ_of_lt h.left, h.unstalled⟩

theorem Fit.bump (h : s.Fit (k + 1)) (hkind : s.cursor.kind ≠ .eof) :
    State.Fit k { s with cursor := s.cursor.bump } :=
  ⟨h.closed.bump, Nat.lt_of_lt_of_le (h.closed.remaining_bump hkind) (Nat.le_of_lt_succ h.left),
    h.unstalled⟩

end State

/-! ### Parsers that only look -/

instance still_pure (a : α) : Still (pure a) := ⟨fun _ => rfl, fun _ => rfl⟩

instance still_bind (x : Parser α) (f : α → Parser β) [hx : Still x] [hf : ∀ a, Still (f a)] :
    Still (x >>= f) :=
  ⟨fun s => ((hf _).cursor _).trans (hx.cursor s), fun s => ((hf _).stalled _).trans (hx.stalled s)⟩

instance still_map (f : α → β) (x : Parser α) [hx : Still x] : Still (f <$> x) :=
  ⟨fun s => hx.cursor s, fun s => hx.stalled s⟩

instance still_ite (c : Prop) [Decidable c] (x y : Parser α) [Still x] [Still y] :
    Still (if c then x else y) := by
  split <;> infer_instance

instance still_get : Still (get : Parser State) := ⟨fun _ => rfl, fun _ => rfl⟩

instance still_peek (j : Nat) : Still (peek j) := ⟨fun _ => rfl, fun _ => rfl⟩

instance still_kind (j : Nat) : Still (kind j) := ⟨fun _ => rfl, fun _ => rfl⟩

instance still_at (kd : Token.Kind) : Still (at? kd) := ⟨fun _ => rfl, fun _ => rfl⟩

instance still_isAborted : Still isAborted := ⟨fun _ => rfl, fun _ => rfl⟩

instance still_abort : Still abort := ⟨fun _ => rfl, fun _ => rfl⟩

instance still_extentFrom (t : Token) : Still (extentFrom t) := ⟨fun _ => rfl, fun _ => rfl⟩

instance still_closeStatement (t : Token) : Still (closeStatement t) := ⟨fun _ => rfl, fun _ => rfl⟩

instance still_closeCompound (t : Token) : Still (closeCompound t) := ⟨fun _ => rfl, fun _ => rfl⟩

instance still_errorHere : Still errorHere := ⟨fun _ => rfl, fun _ => rfl⟩

instance still_report (code : Diagnostic.Code) (span : Span) (arg : Text) :
    Still (report code span arg) :=
  ⟨fun s => s.cursor_report code span arg, fun s => s.stalled_report code span arg⟩

instance still_unexpected : Still unexpected := by
  unfold unexpected
  infer_instance

theorem looks_at {kd : Token.Kind} (hkd : kd ≠ .eof) : Looks (at? kd) :=
  ⟨fun htrue => (of_decide_eq_true htrue : _ = kd) ▸ hkd⟩

/-! ### Parsers that end -/

instance halts_still (x : Parser α) [hx : Still x] : Halts k x :=
  ⟨fun {s} h => (hx.stalled s).trans h.unstalled⟩

instance halts_moveCursor (f : Cursor → Cursor) : Halts k (moveCursor f) := ⟨fun h => h.unstalled⟩

instance halts_bump : Halts k bump := ⟨fun h => h.unstalled⟩

instance halts_recoverToNewline : Halts k recoverToNewline := halts_moveCursor _

instance halts_recoverTo (stops : List Token.Kind) : Halts k (recoverTo stops) := halts_moveCursor _

namespace Halts

theorem bind {x : Parser α} {f : α → Parser β} (hx : Halts k x) (hf : ∀ a, Halts k (f a))
    (hsteady : Steady x := by exact .auto) : Halts k (x >>= f) :=
  ⟨fun {s} h => (hf (x.run s).1).unstalled (h.after (hsteady.leads s) (hx.unstalled h))⟩

/-- Giving up is no obstacle. -/
theorem still {x : Parser α} {f : α → Parser β} [Still x] (hf : ∀ a, Halts k (f a)) :
    Halts k (x >>= f) :=
  ⟨fun h => (hf _).unstalled h.of_still⟩

theorem map {f : α → β} {x : Parser α} (hx : Halts k x) : Halts k (f <$> x) :=
  ⟨fun h => hx.unstalled h⟩

theorem mapM {f : α → Parser β} {l : List α} (hf : ∀ a, Halts k (f a))
    (hsteady : ∀ a, Steady (f a) := by exact fun _ => .auto) : Halts k (l.mapM f) := by
  induction l with
  | nil =>
    rw [List.mapM_nil]
    infer_instance
  | cons a l ih =>
    rw [List.mapM_cons]
    exact .bind (hf a) fun b => .bind ih fun bs => inferInstance

theorem weaken {x : Parser α} (hx : Halts (k + 1) x) : Halts k x := ⟨fun h => hx.unstalled h.weaken⟩

end Halts

instance halts_bind (x : Parser α) (f : α → Parser β) [Steady x] [hx : Halts k x]
    [hf : ∀ a, Halts k (f a)] : Halts k (x >>= f) :=
  .bind hx hf inferInstance

instance halts_map (f : α → β) (x : Parser α) [hx : Halts k x] : Halts k (f <$> x) := .map hx

instance halts_ite (c : Prop) [Decidable c] (x y : Parser α) [Halts k x] [Halts k y] :
    Halts k (if c then x else y) := by
  split <;> infer_instance

instance halts_mapM (f : α → Parser β) (l : List α) [∀ a, Steady (f a)]
    [hf : ∀ a, Halts k (f a)] : Halts k (l.mapM f) :=
  .mapM hf inferInstance

/-! ### Behind a token -/

instance ahead_of_halts (x : Parser α) [hx : Halts k x] : Ahead k x := ⟨fun h _ => hx.unstalled h⟩

namespace Ahead

theorem bind {x : Parser α} {f : α → Parser β} (hx : Ahead k x) (hf : ∀ a, Halts k (f a))
    (hsteady : Steady x := by exact .auto) : Ahead k (x >>= f) :=
  ⟨fun {s} h hkind => (hf _).unstalled (h.after (hsteady.leads s) (hx.unstalled h hkind))⟩

theorem still {x : Parser α} {f : α → Parser β} [hx : Still x] (hf : ∀ a, Ahead k (f a)) :
    Ahead k (x >>= f) :=
  ⟨fun {s} h hkind => (hf _).unstalled h.of_still (by rwa [← hx.cursor s] at hkind)⟩

theorem map {f : α → β} {x : Parser α} (hx : Ahead k x) : Ahead k (f <$> x) :=
  ⟨fun h hkind => hx.unstalled h hkind⟩

/-- Behind a token that it has taken, a parser may do what needs fewer tokens. -/
theorem bump {f : Token → Parser α} (hf : ∀ t, Halts k (f t)) : Ahead (k + 1) (bump >>= f) :=
  ⟨fun h hkind => (hf _).unstalled (h.bump hkind)⟩

theorem weaken {x : Parser α} (hx : Ahead (k + 1) x) : Ahead k x :=
  ⟨fun h hkind => hx.unstalled h.weaken hkind⟩

end Ahead

/-! ### Parsers that tell whether they took a token -/

theorem run_bind (x : Parser α) (f : α → Parser β) (s : State) :
    (x >>= f).run s = (f (x.run s).1).run (x.run s).2 :=
  rfl

theorem run_eat (kd : Token.Kind) (s : State) : (eat kd).run s =
    if s.cursor.kind = kd then (true, { s with cursor := s.cursor.bump }) else (false, s) := by
  unfold eat
  show StateT.run (if decide (s.cursor.kind = kd) = true then _ else _ : Parser Bool) s = _
  by_cases h : s.cursor.kind = kd
  · rw [if_pos h, if_pos (decide_eq_true h)]
    rfl
  · rw [if_neg h, if_neg (by simpa using h)]
    rfl

instance halts_eat (kd : Token.Kind) : Halts k (eat kd) := by
  refine ⟨fun {s} h => ?_⟩
  rw [run_eat]
  split <;> exact h.unstalled

theorem guards_eat {kd : Token.Kind} (hkd : kd ≠ .eof) : Guards (eat kd) := by
  refine ⟨fun {s} hclosed htrue => ?_, fun {s} hfalse => ?_⟩
  · rw [run_eat] at htrue ⊢
    split
    · next hkind => exact hclosed.remaining_bump (hkind ▸ hkd)
    · next hkind => simp [hkind] at htrue
  · rw [run_eat] at hfalse ⊢
    split
    · next hkind => simp [hkind] at hfalse
    · rfl

namespace Guards

theorem false : Guards (pure false) := ⟨fun _ h => (nomatch h), fun _ => rfl⟩

theorem still {x : Parser α} {f : α → Parser Bool} [hx : Still x] (hf : ∀ a, Guards (f a)) :
    Guards (x >>= f) := by
  refine ⟨fun {s} hclosed htrue => ?_, fun {s} hfalse => ?_⟩
  · have htaken := (hf (x.run s).1).taken (s := (x.run s).2) (by rwa [hx.cursor]) htrue
    rwa [hx.cursor] at htaken
  · exact ((hf (x.run s).1).kept hfalse).trans (hx.cursor s)

theorem ite {c : Prop} [Decidable c] {x y : Parser Bool} (hx : Guards x) (hy : Guards y) :
    Guards (if c then x else y) := by
  split
  · exact hx
  · exact hy

theorem orElse {x y : Parser Bool} (hx : Guards x) (hy : Guards y) :
    Guards (x >>= fun b => if b = true then pure true else y) := by
  refine ⟨fun {s} hclosed htrue => ?_, fun {s} hfalse => ?_⟩
  · rw [run_bind] at htrue ⊢
    cases hb : (x.run s).1 with
    | true => exact hx.taken hclosed hb
    | false =>
      have hkept := hx.kept hb
      rw [hb, if_neg (by simp)] at htrue
      have htaken := hy.taken (by rwa [hkept]) htrue
      rwa [hkept] at htaken
  · rw [run_bind] at hfalse ⊢
    cases hb : (x.run s).1 with
    | true =>
      rw [hb, if_pos rfl] at hfalse
      nomatch hfalse
    | false =>
      rw [hb, if_neg (by simp)] at hfalse
      exact (hy.kept hfalse).trans (hx.kept hb)

end Guards

theorem guards_expect {kd : Token.Kind} (hkd : kd ≠ .eof) : Guards (expect kd) := by
  unfold expect
  dsimp only
  refine .still fun aborted => .ite .false (.orElse (guards_eat hkd) (.still fun got => .ite ?_ ?_))
  · exact .still fun _ => .still fun _ => .false
  · exact .still fun _ => .false

/-- Only behind the token of a guard a parser may do what needs fewer tokens. -/
theorem Halts.guard {x : Parser Bool} {f : Bool → Parser α} [hsteady : Steady x]
    [hx : Halts (k + 1) x] (hguard : Guards x) (htrue : Halts k (f true))
    (hfalse : Halts (k + 1) (f false)) : Halts (k + 1) (x >>= f) := by
  refine ⟨fun {s} h => ?_⟩
  rw [run_bind]
  have hafter := h.after (hsteady.leads s) (hx.unstalled h)
  cases hb : (x.run s).1 with
  | true =>
    have hless := hguard.taken h.closed hb
    refine htrue.unstalled { hafter with left := ?_ }
    have := h.left
    omega
  | false => exact hfalse.unstalled hafter

theorem Ahead.guard {x : Parser Bool} {f : Bool → Parser α} [hsteady : Steady x]
    [hx : Halts (k + 1) x] (hguard : Guards x) (htrue : Halts k (f true))
    (hfalse : Ahead (k + 1) (f false)) : Ahead (k + 1) (x >>= f) := by
  refine ⟨fun {s} h hkind => ?_⟩
  rw [run_bind]
  have hafter := h.after (hsteady.leads s) (hx.unstalled h)
  cases hb : (x.run s).1 with
  | true =>
    have hless := hguard.taken h.closed hb
    refine htrue.unstalled { hafter with left := ?_ }
    have := h.left
    omega
  | false => exact hfalse.unstalled hafter (by rwa [hguard.kept hb])

/-! ### Repetition -/

theorem run_iterate (body : σ → Parser (σ × Bool)) (n : Nat) (a : σ) (s : State) :
    (iterate body (n + 1) a).run s =
      if ((body a).run s).1.2 = true then
        if ((body a).run s).2.cursor.remaining < s.cursor.remaining then
          (iterate body n ((body a).run s).1.1).run ((body a).run s).2
        else (((body a).run s).1.1, ((body a).run s).2.stall)
      else (((body a).run s).1.1, ((body a).run s).2) := by
  have hround (found : (σ × Bool) × State) (hfound : found = (body a).run s) :
      (iterate body (n + 1) a).run s =
        StateT.run (if (!found.1.2) = true then pure found.1.1
          else do
            if (← get).cursor.remaining < s.cursor.remaining then iterate body n found.1.1
            else
              stall
              return found.1.1) found.2 := by
    subst hfound
    rfl
  rw [hround _ rfl]
  cases ((body a).run s).1.2 with
  | false => rfl
  | true =>
    rw [if_neg (by simp), if_pos rfl, run_bind]
    split
    · next hless => exact (if_pos hless).symm
    · next hless => exact (if_neg hless).symm

theorem halts_iterate {body : σ → Parser (σ × Bool)} (hsteady : ∀ a, Steady (body a))
    (hbody : ∀ a, Halts k (body a)) (hadvances : ∀ a, Advances (body a)) (n : Nat) (a : σ)
    {s : State} (h : s.Fit k) (hn : s.cursor.remaining < n) : ((iterate body n a).run s).2.stalled = false := by
  induction n generalizing a s with
  | zero => omega
  | succ n ih =>
    have hafter := h.after ((hsteady a).leads s) ((hbody a).unstalled h)
    have hturn := hadvances a s.cursor h.closed s rfl
    rw [run_iterate]
    split
    · next hmore =>
      have hless := hturn hmore
      rw [if_pos hless]
      exact ih _ hafter (by omega)
    · exact hafter.unstalled

theorem Halts.loop {start : σ} {body : σ → Parser (σ × Bool)} (hbody : ∀ a, Halts k (body a))
    (hadvances : ∀ a, Advances (body a))
    (hsteady : ∀ a, Steady (body a) := by exact fun _ => .auto) : Halts k (loop start body) :=
  ⟨fun h => halts_iterate hsteady hbody hadvances _ _ h (Nat.lt_succ_self _)⟩

theorem Halts.collect {start : List α} {body : Parser (List α × Bool)} (hbody : Halts k body)
    (hadvances : Advances body) (hsteady : Steady body := by exact .auto) :
    Halts k (collect start body) := by
  unfold Grammar.collect
  refine .bind (.loop (fun found => .bind hbody fun more => inferInstance) fun found => ?_)
    fun found => inferInstance
  exact hadvances

/-! ### Rounds of a loop -/

theorem takes_bump : Takes bump := by
  rintro c hc hkind s rfl -
  exact hc.remaining_bump hkind

namespace Spends

variable {c : Cursor} {Q : β → Prop}

theorem stop {b : β} (h : ¬ Q b) : Spends c (pure b) Q := fun _ _ hb => absurd hb h

/-- A token is taken before the rest. -/
theorem left {x : Parser α} {f : α → Parser β} (hx : Spends c x fun _ => True)
    (hsteady : ∀ a, Steady (f a) := by exact fun _ => .auto) : Spends c (x >>= f) Q :=
  fun s hs _ => Nat.lt_of_le_of_lt ((hsteady _).leads _).remaining (hx s hs trivial)

theorem still {x : Parser α} {f : α → Parser β} [hx : Still x] (hf : ∀ a, Spends c (f a) Q) :
    Spends c (x >>= f) Q :=
  fun s hs hQ => hf _ _ ((hx.cursor s).trans hs) hQ

/-- A token is taken behind whatever comes first. -/
theorem bind {x : Parser α} {f : α → Parser β} (hc : c.Closed)
    (hf : ∀ a c, Cursor.Closed c → Spends c (f a) Q) (hsteady : Steady x := by exact .auto) :
    Spends c (x >>= f) Q := by
  rintro s rfl hQ
  have hleads := hsteady.leads s
  exact Nat.lt_of_lt_of_le (hf _ _ (hleads.closed hc) _ rfl hQ) hleads.remaining

/-- A token is taken behind what comes first if that has not taken any. -/
theorem otherwise {x : Parser α} {f : α → Parser β} (hc : c.Closed) (hkind : c.kind ≠ .eof)
    (hf : ∀ a, Spends c (f a) Q) (hx : Steady x := by exact .auto)
    (hsteady : ∀ a, Steady (f a) := by exact fun _ => .auto) : Spends c (x >>= f) Q := by
  rintro s rfl hQ
  obtain ⟨htokens, hpos, -⟩ := hx.leads s
  rcases Nat.eq_or_lt_of_le hpos with hsame | hless
  · have hcursor : (x.run s).2.cursor = s.cursor := by
      generalize (x.run s).2.cursor = c' at htokens hsame
      cases c'
      exact congr (congrArg Cursor.mk htokens) hsame.symm
    exact hf _ _ hcursor hQ
  · exact Nat.lt_of_le_of_lt ((hsteady _).leads _).remaining
      (Cursor.remaining_lt htokens hless (hc.pos_lt hkind))

theorem look {x : Parser Bool} {f : Bool → Parser β} (hlooks : Looks x)
    (htrue : c.kind ≠ .eof → Spends c (f true) Q) (hfalse : Spends c (f false) Q) :
    Spends c (x >>= f) Q := by
  rintro s rfl hQ
  have hcursor := hlooks.cursor s
  rw [run_bind] at hQ ⊢
  cases hb : (x.run s).1 with
  | true =>
    rw [hb] at hQ
    exact htrue (hlooks.ahead hb) _ hcursor hQ
  | false =>
    rw [hb] at hQ
    exact hfalse _ hcursor hQ

theorem at? {kd : Token.Kind} {f : Bool → Parser β} (hf : Spends c (f (decide (c.kind = kd))) Q) :
    Spends c (at? kd >>= f) Q := by
  rintro s rfl hQ
  exact hf s rfl hQ

theorem get {f : State → Parser β} (hf : ∀ s, s.cursor = c → Spends c (f s) Q) :
    Spends c (get >>= f) Q :=
  fun s hs hQ => hf s hs s hs hQ

theorem kind {f : Token.Kind → Parser β} (hf : Spends c (f c.kind) Q) :
    Spends c (kind >>= f) Q := by
  rintro s rfl hQ
  exact hf s rfl hQ

theorem guard {x : Parser Bool} {f : Bool → Parser β} (hc : c.Closed) (hguard : Guards x)
    (hfalse : Spends c (f false) Q) (htrue : Steady (f true) := by exact .auto) :
    Spends c (x >>= f) Q := by
  rintro s rfl hQ
  rw [run_bind] at hQ ⊢
  cases hb : (x.run s).1 with
  | true => exact Nat.lt_of_le_of_lt (htrue.leads _).remaining (hguard.taken hc hb)
  | false =>
    rw [hb] at hQ
    exact hfalse _ (hguard.kept hb) hQ

/-- Whether there is another round is told by the guard. -/
theorem guard_last {x : Parser Bool} {a : σ} (hc : c.Closed) (hguard : Guards x) :
    Spends c (x >>= fun more => pure (a, more)) (·.2 = true) := by
  rintro s rfl hmore
  exact hguard.taken hc hmore

end Spends

/-! ### Looking at the next token -/

namespace Halts

theorem look {x : Parser Bool} {f : Bool → Parser α} (hlooks : Looks x) (htrue : Ahead k (f true))
    (hfalse : Halts k (f false)) : Halts k (x >>= f) := by
  refine ⟨fun {s} h => ?_⟩
  rw [run_bind]
  cases hb : (x.run s).1 with
  | true => exact htrue.unstalled h.of_still (by rw [hlooks.cursor]; exact hlooks.ahead hb)
  | false => exact hfalse.unstalled h.of_still

theorem peek {f : Token → Parser α} (hahead : ∀ t, t.kind ≠ .eof → Ahead k (f t))
    (heof : ∀ t, t.kind = .eof → Halts k (f t)) : Halts k (peek >>= f) := by
  refine ⟨fun {s} h => ?_⟩
  show ((f s.cursor.peek).run s).2.stalled = false
  by_cases hkind : s.cursor.kind = .eof
  · exact (heof _ hkind).unstalled h
  · exact (hahead _ hkind).unstalled h hkind

theorem kind {f : Token.Kind → Parser α} (hahead : ∀ kd, kd ≠ .eof → Ahead k (f kd))
    (heof : Halts k (f .eof)) : Halts k (kind >>= f) := by
  refine ⟨fun {s} h => ?_⟩
  show ((f s.cursor.kind).run s).2.stalled = false
  by_cases hkind : s.cursor.kind = .eof
  · rw [hkind]
    exact heof.unstalled h
  · exact (hahead _ hkind).unstalled h hkind

end Halts

/-! ### Automation -/

/-- Rounds that end with a guard, or take a token behind one. -/
theorem Advances.auto {x : Parser (σ × Bool)} (h : Advances x := by
    intro c hc
    repeat' (first
      | exact .stop Bool.false_ne_true
      | with_reducible exact .guard_last hc (guards_eat (by decide))
      | with_reducible refine .guard hc (guards_eat (by decide)) ?_
      | with_reducible refine .guard hc (guards_expect (by decide)) ?_
      | with_reducible refine .look (looks_at (by decide)) (fun hkind => ?_) ?_
      | with_reducible exact .left (takes_bump _ hc hkind)
      | with_reducible refine .still fun _ => ?_
      | with_reducible refine .bind hc fun _ c hc => ?_
      | rw [Bool.and_false, if_neg Bool.false_ne_true]
      | rw [if_neg Bool.false_ne_true]
      | rw [if_pos rfl]
      | split
      | dsimp only)) : Advances x :=
  h

theorem Halts.collectAfter {sep : Token.Kind} {start : List α} {item : Parser α}
    (hsep : sep ≠ .eof) (hitem : Halts k item) (hsteady : Steady item := by exact .auto) :
    Halts k (collectAfter sep start item) := by
  unfold Grammar.collectAfter
  refine .collect (.bind inferInstance fun found => ?_)
    fun c hc => .guard hc (guards_eat hsep) (.stop Bool.false_ne_true)
  split
  · exact .bind hitem fun a => inferInstance
  · infer_instance

/-- Sequences, branches, cases and repetitions of parsers that end. -/
theorem Halts.auto {x : Parser α} (h : Halts k x := by
    repeat' (first
      | infer_instance
      | with_reducible refine .still fun _ => ?_
      | with_reducible refine .bind ?_ fun _ => ?_
      | with_reducible refine .map ?_
      | with_reducible refine .loop (fun _ => ?_) fun _ => Advances.auto
      | with_reducible refine .collect ?_ Advances.auto
      | with_reducible refine .mapM fun _ => ?_
      | with_reducible refine .collectAfter (by decide) ?_
      | split
      | dsimp only)) : Halts k x :=
  h

/-- Like `Halts.auto`, for parsers that look whether there is a token to take. -/
theorem Halts.step {x : Parser α} (h : Halts (k + 1) x := by
    repeat' (first
      | infer_instance
      | exact .weaken inferInstance
      | with_reducible refine .guard (guards_eat (by decide)) ?_ ?_
      | with_reducible refine .guard (guards_expect (by decide)) ?_ ?_
      | with_reducible refine .look (looks_at (by decide)) ?_ ?_
      | with_reducible refine .peek (fun _ _ => ?_) fun _ _ => ?_
      | with_reducible refine .kind (fun _ _ => ?_) ?_
      | with_reducible refine .bump fun _ => ?_
      | with_reducible refine .still fun _ => ?_
      | with_reducible refine .bind ?_ fun _ => ?_
      | with_reducible refine .map ?_
      | with_reducible refine .loop (fun _ => ?_) fun _ => Advances.auto
      | with_reducible refine .collect ?_ Advances.auto
      | with_reducible refine .collectAfter (by decide) ?_
      | rw [Bool.and_false, if_neg Bool.false_ne_true]
      | rw [if_neg Bool.false_ne_true]
      | rw [if_pos rfl]
      | split
      | dsimp only
      | (exfalso; simp_all; done))) : Halts (k + 1) x :=
  h

instance halts_expect (kd : Token.Kind) : Halts k (expect kd) := by unfold expect; exact .auto

instance halts_close (kd : Token.Kind) : Halts k (close kd) := by unfold close; exact .auto

instance halts_collectCommas (start : List α) (stops : Parser Bool) (item : Parser α)
    [Steady stops] [Steady item] [Halts k stops] [Halts k item] :
    Halts k (collectCommas start stops item) := by
  unfold collectCommas
  exact .auto

end CloneScout.Grammar
