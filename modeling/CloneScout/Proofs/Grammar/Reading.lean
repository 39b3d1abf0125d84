import CloneScout.Proofs.Grammar.State
import CloneScout.Proofs.Token.Scanning

/-!
# What a parser reads

A parser that meets no fault goes from one sequence of tokens ahead to a shorter one and reports
nothing. What it reads depends on the kinds and the texts of the tokens alone. Each parser that takes
tokens has a rule here, and a loop is read round by round.
-/

namespace CloneScout

namespace Grammar

variable {α β σ : Type}

/-- The parser has not given up and has the given tokens ahead. -/
structure State.At (s : State) (us : List Lexeme) : Prop where
  aborted : s.aborted = false
  ahead : s.cursor.upcoming.map Token.toLexeme = us

/-- What a parser without a fault leaves as it was. -/
structure State.Kept (s s' : State) : Prop where
  tokens : s'.cursor.tokens = s.cursor.tokens
  diags : s'.diags = s.diags
  errors : s'.errors = s.errors

theorem State.Kept.refl (s : State) : s.Kept s := ⟨rfl, rfl, rfl⟩

theorem State.Kept.trans {s s' s'' : State} (h : s.Kept s') (h' : s'.Kept s'') : s.Kept s'' :=
  ⟨h'.tokens.trans h.tokens, h'.diags.trans h.diags, h'.errors.trans h.errors⟩

/-- With the tokens `us` ahead the parser goes on until `vs` are ahead, reports nothing and finds a
value with the property. -/
def Reads (x : Parser α) (us vs : List Lexeme) (Q : α → Prop) : Prop :=
  ∀ s : State, s.At us → ∃ a s', x.run s = (a, s') ∧ s'.At vs ∧ s.Kept s' ∧ Q a

/-! ## Places in a sequence of tokens -/

namespace State.At

variable {s : State} {w v : Lexeme} {us : List Lexeme}

theorem upcoming_eq (c : Cursor) : c.upcoming = c.tokens.toList.drop c.pos := by
  simp [Cursor.upcoming, List.take_of_length_le]

theorem length_eq (h : s.At us) : s.cursor.remaining = us.length := by
  rw [← h.ahead, List.length_map, upcoming_eq, List.length_drop, Array.length_toList,
    Cursor.remaining]

theorem toLexeme_peek (h : s.At us) {k : Nat} (hk : us[k]? = some w) :
    (s.cursor.peek k).toLexeme = w := by
  rw [← h.ahead, upcoming_eq, List.getElem?_map, List.getElem?_drop, Array.getElem?_toList] at hk
  obtain ⟨t, ht, rfl⟩ := Option.map_eq_some_iff.mp hk
  rw [Cursor.peek, Cursor.get, ht, Option.getD_some]

theorem kind_eq (h : s.At us) {k : Nat} (hk : us[k]? = some w) : s.cursor.kind k = w.kind :=
  congrArg Lexeme.kind (h.toLexeme_peek hk)

theorem bump (h : s.At (w :: us)) : State.At { s with cursor := s.cursor.bump } us := by
  have hpos : s.cursor.pos < s.cursor.tokens.size := by
    have hlength := h.length_eq
    rw [Cursor.remaining, List.length_cons] at hlength
    omega
  refine ⟨h.aborted, ?_⟩
  have htail := congrArg List.tail h.ahead
  rw [upcoming_eq, ← List.map_tail, List.tail_drop, List.tail_cons] at htail
  rw [Cursor.bump, if_pos hpos, upcoming_eq]
  exact htail

end State.At

/-! ## Rules -/

namespace Reads

variable {w v : Lexeme} {us vs ws : List Lexeme} {Q R : α → Prop}

theorem pure {a : α} (h : Q a) : Reads (pure a) us us Q :=
  fun s hs => ⟨a, s, rfl, hs, .refl s, h⟩

theorem bind {x : Parser α} {f : α → Parser β} {P : α → Prop} {Q : β → Prop}
    (hx : Reads x us vs P) (hf : ∀ a, P a → Reads (f a) vs ws Q) : Reads (x >>= f) us ws Q := by
  intro s hs
  obtain ⟨a, s', hrun, hs', hkept, ha⟩ := hx s hs
  obtain ⟨b, s'', hrun', hs'', hkept', hb⟩ := hf a ha s' hs'
  refine ⟨b, s'', ?_, hs'', hkept.trans hkept', hb⟩
  show (f (x.run s).1).run (x.run s).2 = (b, s'')
  rw [hrun, hrun']

theorem mono {x : Parser α} (hx : Reads x us vs Q) (h : ∀ a, Q a → R a) : Reads x us vs R := by
  intro s hs
  obtain ⟨a, s', hrun, hs', hkept, ha⟩ := hx s hs
  exact ⟨a, s', hrun, hs', hkept, h a ha⟩

/-- A parser that is known to find one value is followed by the rest for this value. -/
theorem seq {x : Parser α} {f : α → Parser β} {a : α} {Q : β → Prop} (hx : Reads x us vs (· = a))
    (hf : Reads (f a) vs ws Q) : Reads (x >>= f) us ws Q :=
  hx.bind fun _ ha => ha ▸ hf

/-- What a parser finds without looking at the result. -/
theorem skip {x : Parser α} {f : α → Parser β} {P : α → Prop} {Q : β → Prop}
    (hx : Reads x us vs P) (hf : ∀ a, Reads (f a) vs ws Q) : Reads (x >>= f) us ws Q :=
  hx.bind fun a _ => hf a

theorem get {f : State → Parser β} {Q : β → Prop}
    (hf : ∀ s : State, s.At us → Reads (f s) us vs Q) : Reads (get >>= f) us vs Q :=
  fun s hs => hf s hs s hs

/-- A parser that is watched: what follows may compare the states before and behind it. -/
theorem watch {x : Parser α} {f : State → α → State → Parser β} {P : α → Prop} {Q : β → Prop}
    (hx : Reads x us vs P)
    (hf : ∀ s a s', s.At us → s'.At vs → s.Kept s' → P a → Reads (f s a s') vs ws Q) :
    Reads (do let s ← MonadState.get; let a ← x; let s' ← MonadState.get; f s a s') us ws Q := by
  intro s hs
  obtain ⟨a, s', hrun, hs', hkept, ha⟩ := hx s hs
  obtain ⟨b, s'', hrun', hs'', hkept', hb⟩ := hf s a s' hs hs' hkept ha s' hs'
  refine ⟨b, s'', ?_, hs'', hkept.trans hkept', hb⟩
  show (f s (x.run s).1 (x.run s).2).run (x.run s).2 = (b, s'')
  rw [hrun, hrun']

theorem isAborted : Reads isAborted us us (· = false) :=
  fun s hs => ⟨s.aborted, s, rfl, hs, .refl s, hs.aborted⟩

theorem peek : Reads (peek 0) (w :: us) (w :: us) (·.toLexeme = w) :=
  fun s hs => ⟨_, s, rfl, hs, .refl s, hs.toLexeme_peek rfl⟩

theorem kind : Reads (kind 0) (w :: us) (w :: us) (· = w.kind) :=
  fun s hs => ⟨_, s, rfl, hs, .refl s, hs.kind_eq rfl⟩

theorem kind_one : Reads (Grammar.kind 1) (w :: v :: us) (w :: v :: us) (· = v.kind) :=
  fun s hs => ⟨_, s, rfl, hs, .refl s, hs.kind_eq rfl⟩

/-- Beyond the tokens ahead some token is seen again. -/
theorem kind_any (k : Nat) : Reads (Grammar.kind k) us us (fun _ => True) :=
  fun s hs => ⟨_, s, rfl, hs, .refl s, trivial⟩

theorem at? {k : Token.Kind} {b : Bool} (h : decide (w.kind = k) = b) :
    Reads (at? k) (w :: us) (w :: us) (· = b) :=
  kind.seq (.pure h)

theorem bump : Reads bump (w :: us) us (·.toLexeme = w) :=
  fun s hs => ⟨s.cursor.peek, _, rfl, hs.bump, ⟨tokens_bump _, rfl, rfl⟩, hs.toLexeme_peek rfl⟩

theorem eat (k : Token.Kind) (t : Text) : Reads (eat k) (⟨k, t⟩ :: us) us (· = true) :=
  (at? (decide_eq_true rfl)).seq (bump.skip fun _ => .pure rfl)

theorem eat_not {k : Token.Kind} (h : w.kind ≠ k) :
    Reads (Grammar.eat k) (w :: us) (w :: us) (· = false) :=
  (at? (decide_eq_false h)).seq (.pure rfl)

theorem expect (k : Token.Kind) (t : Text) : Reads (expect k) (⟨k, t⟩ :: us) us (· = true) :=
  isAborted.seq ((eat k t).seq (.pure rfl))

theorem close (k : Token.Kind) (t : Text) : Reads (close k) (⟨k, t⟩ :: us) us (fun _ => True) :=
  (expect k t).seq (.pure trivial)

theorem extentFrom (t : Token) : Reads (extentFrom t) us us (fun _ => True) :=
  fun s hs => ⟨_, s, rfl, hs, .refl s, trivial⟩

theorem closeStatement (t : Token) : Reads (closeStatement t) us us (fun _ => True) :=
  fun _ hs => ⟨_, _, rfl, ⟨hs.aborted, hs.ahead⟩, ⟨rfl, rfl, rfl⟩, trivial⟩

theorem closeCompound (t : Token) : Reads (closeCompound t) us us (fun _ => True) :=
  fun s hs => ⟨_, s, rfl, hs, .refl s, trivial⟩

end Reads

/-! ## Loops -/

/-- One round, and the further ones if it says that more follows and has taken a token. -/
theorem iterate_succ (body : σ → Parser (σ × Bool)) (n : Nat) (a : σ) (s : State) :
    (iterate body (n + 1) a).run s =
      (let r := (body a).run s
      if r.1.2 then
        if r.2.cursor.remaining < s.cursor.remaining then (iterate body n r.1.1).run r.2
        else (r.1.1, r.2.stall)
      else (r.1.1, r.2)) := by
  rcases hr : (body a).run s with ⟨⟨b, more⟩, s'⟩
  have hrun : (iterate body (n + 1) a).run s =
      (if !more then (Pure.pure b : Parser σ).run s'
      else if s'.cursor.remaining < s.cursor.remaining then (iterate body n b).run s'
      else (b, s'.stall)) := by
    rw [iterate]
    show ((let r := (body a).run s
      (if !r.1.2 then (Pure.pure r.1.1 : Parser σ)
      else do
        let behind ← get
        if behind.cursor.remaining < s.cursor.remaining then iterate body n r.1.1
        else do stall; return r.1.1).run r.2) : σ × State) = _
    rw [hr]
    cases more with
    | false => rfl
    | true =>
      show ((if s'.cursor.remaining < s.cursor.remaining then iterate body n b
        else do stall; return b).run s' : σ × State) = _
      split <;> rfl
  rw [hrun]
  cases more with
  | false => rfl
  | true => rfl

/-- Rounds of a loop take the parser from `us` to `vs`, from a value with one property to a value
with another, with a token taken in each. -/
def Turns (body : σ → Parser (σ × Bool)) (us vs : List Lexeme) (P Q : σ → Prop) : Prop :=
  ∀ (s : State) (a : σ), s.At us → P a → ∃ b s' k, k + vs.length ≤ us.length ∧
    (∀ n, (iterate body (n + k) a).run s = (iterate body n b).run s') ∧ s'.At vs ∧
    s.Kept s' ∧ Q b

namespace Turns

variable {body : σ → Parser (σ × Bool)} {us vs ws : List Lexeme} {P Q R : σ → Prop}

theorem refl (h : ∀ a, P a → Q a) : Turns body us us P Q :=
  fun s a hs ha => ⟨a, s, 0, by omega, fun _ => rfl, hs, .refl s, h a ha⟩

theorem trans (h : Turns body us vs P Q) (h' : Turns body vs ws Q R) : Turns body us ws P R := by
  intro s a hs ha
  obtain ⟨b, s', k, hk, hrun, hs', hkept, hb⟩ := h s a hs ha
  obtain ⟨c, s'', k', hk', hrun', hs'', hkept', hc⟩ := h' s' b hs' hb
  refine ⟨c, s'', k' + k, by omega, fun n => ?_, hs'', hkept.trans hkept', hc⟩
  rw [← Nat.add_assoc, hrun, hrun']

/-- One round. -/
theorem single (h : ∀ a, P a → Reads (body a) us vs fun r => r.2 = true ∧ Q r.1)
    (hlt : vs.length < us.length) : Turns body us vs P Q := by
  intro s a hs ha
  obtain ⟨⟨b, more⟩, s', hrun, hs', hkept, hmore, hb⟩ := h a ha s hs
  refine ⟨b, s', 1, by omega, fun n => ?_, hs', hkept, hb⟩
  have htook : s'.cursor.remaining < s.cursor.remaining := by
    rw [hs'.length_eq, hs.length_eq]
    exact hlt
  obtain rfl : more = true := hmore
  rw [iterate_succ, hrun]
  simp only [htook, if_true]

theorem step (h : Turns body us vs P Q)
    (hround : ∀ a, Q a → Reads (body a) vs ws fun r => r.2 = true ∧ R r.1)
    (hlt : ws.length < vs.length) : Turns body us ws P R :=
  h.trans (single hround hlt)

end Turns

/-- Rounds of a loop take the parser from `us` to `vs`, and the last of them ends the loop. -/
def Loops (body : σ → Parser (σ × Bool)) (us ws : List Lexeme) (P R : σ → Prop) : Prop :=
  ∃ vs Q, Turns body us vs P Q ∧ ∀ a, Q a → Reads (body a) vs ws fun r => r.2 = false ∧ R r.1

namespace Loops

variable {body : σ → Parser (σ × Bool)} {us vs ws : List Lexeme} {P Q R : σ → Prop}

theorem last (h : ∀ a, P a → Reads (body a) us ws fun r => r.2 = false ∧ R r.1) :
    Loops body us ws P R :=
  ⟨us, P, .refl fun _ => id, h⟩

theorem trans (h : Turns body us vs P Q) (hrest : Loops body vs ws Q R) : Loops body us ws P R := by
  obtain ⟨us', Q', hturns, hlast⟩ := hrest
  exact ⟨us', Q', h.trans hturns, hlast⟩

theorem round (h : ∀ a, P a → Reads (body a) us vs fun r => r.2 = true ∧ Q r.1)
    (hlt : vs.length < us.length) (hrest : Loops body vs ws Q R) : Loops body us ws P R :=
  .trans (.single h hlt) hrest

end Loops

theorem Reads.loop {body : σ → Parser (σ × Bool)} {us ws : List Lexeme} {P R : σ → Prop} {start : σ}
    (hstart : P start) (h : Loops body us ws P R) : Reads (Grammar.loop start body) us ws R := by
  intro s hs
  obtain ⟨vs, Q, hturns, hlast⟩ := h
  obtain ⟨b, s', k, hk, hrun, hs', hkept, hb⟩ := hturns s start hs hstart
  obtain ⟨⟨c, more⟩, s'', hrun', hs'', hkept', hmore, hc⟩ := hlast b hb s' hs'
  refine ⟨c, s'', ?_, hs'', hkept.trans hkept', hc⟩
  show (iterate body (s.cursor.remaining + 1) start).run s = (c, s'')
  -- the rounds leave at least one repetition for the last one
  obtain ⟨n, hn⟩ : ∃ n, s.cursor.remaining + 1 = n + 1 + k := by
    have hlength := hs.length_eq
    exact ⟨us.length - k, by omega⟩
  rw [hn, hrun]
  obtain rfl : more = false := hmore
  rw [iterate_succ, hrun']
  rfl

/-! ## Collecting -/

/-- One round of a collecting loop. -/
def collectRound (body : Parser (List α × Bool)) (found : List α) : Parser (List α × Bool) := do
  let (more, go) ← body
  return (more.reverse ++ found, go)

/-- Rounds of a collecting loop take the parser from `us` to `vs` and find items with the property. -/
def Collects (body : Parser (List α × Bool)) (us vs : List Lexeme) (Q : List α → Prop) : Prop :=
  ∀ before : List α, Turns (collectRound body) us vs (· = before) fun found =>
    ∃ items, found = items.reverse ++ before ∧ Q items

namespace Collects

variable {body : Parser (List α × Bool)} {us vs ws : List Lexeme} {P Q : List α → Prop}

theorem nil (h : Q []) : Collects body us us Q :=
  fun before => .refl fun found hfound => ⟨[], by rw [hfound]; rfl, h⟩

theorem cons {R : List α → Prop} (hround : Reads body us vs fun r => r.2 = true ∧ P r.1)
    (hlt : vs.length < us.length) (hrest : Collects body vs ws Q)
    (h : ∀ xs ys, P xs → Q ys → R (xs ++ ys)) : Collects body us ws R := by
  intro before s found hs hfound
  have hfirst : Turns (collectRound body) us vs (· = before) fun found =>
      ∃ xs, found = xs.reverse ++ before ∧ P xs := by
    refine .single (fun found hfound => ?_) hlt
    exact hround.bind fun r hr => .pure ⟨hr.1, r.1, by rw [hfound], hr.2⟩
  obtain ⟨b, s', k, hk, hrun, hs', hkept, xs, rfl, hxs⟩ := hfirst s found hs hfound
  obtain ⟨c, s'', k', hk', hrun', hs'', hkept', ys, rfl, hys⟩ := hrest _ s' _ hs' rfl
  refine ⟨ys.reverse ++ (xs.reverse ++ before), s'', k' + k, by omega, fun n => ?_, hs'',
    hkept.trans hkept', xs ++ ys, ?_, h xs ys hxs hys⟩
  · rw [← Nat.add_assoc, hrun, hrun']
  · rw [List.reverse_append, List.append_assoc]

end Collects

theorem Reads.collect {body : Parser (List α × Bool)} {us vs : List Lexeme} {Q : List α → Prop}
    {start : List α} (h : Collects body us vs Q)
    (hlast : Reads body vs vs fun r => r = ([], false)) :
    Reads (Grammar.collect start body) us vs fun items => ∃ xs, items = start ++ xs ∧ Q xs := by
  have hloop : Reads (Grammar.loop start.reverse (collectRound body)) us vs fun found =>
      ∃ xs, found = xs.reverse ++ start.reverse ∧ Q xs := by
    refine Reads.loop (P := (· = start.reverse)) rfl (.trans (h start.reverse) (.last ?_))
    exact fun found hfound => hlast.seq (.pure ⟨rfl, hfound⟩)
  refine hloop.bind fun found hfound => ?_
  obtain ⟨xs, rfl, hxs⟩ := hfound
  exact .pure ⟨xs, by simp, hxs⟩

end Grammar

end CloneScout
