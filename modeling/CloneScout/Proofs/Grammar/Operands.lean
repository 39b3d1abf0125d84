import CloneScout.Proofs.Grammar.Levels
import CloneScout.Proofs.Number.Numeral

/-!
# How operations are read

One lemma for each operation: if its operands are legible up to the ranks that the grammar asks for,
the operation is read at its own level.
-/

namespace CloneScout

namespace Grammar

open Lexeme (ofKind)

variable {ws vs : List Lexeme} {d : Document}

/-! ## Atoms -/

/-- An atom with nothing behind it. -/
theorem trails_of_atom (h : ∀ (field : FieldReader) (n : Nat) (w : Lexeme) (us : List Lexeme),
    ws.length ≤ n + 1 → Reads (atom (rules field n)) (ws ++ w :: us) (w :: us) (Dump.expr · = d)) :
    Trails ws d :=
  fun field n w us _ hn => ⟨w :: us, (Dump.expr · = d), h field n w us hn, .refl fun _ => id⟩

theorem trails_name (id : Text) (x : Extent) :
    Trails [⟨.ident, id⟩] (Dump.expr (.name x id .load)) := by
  refine trails_of_atom fun field n w us _ => Reads.peek.bind fun t ht => ?_
  have hkind : t.kind = .ident := congrArg Lexeme.kind ht
  have htext : t.lexeme = id := congrArg Lexeme.text ht
  rw [hkind]
  refine Reads.bump.bind fun _ _ => (Reads.extentFrom t).bind fun x' _ => .pure ?_
  rw [htext]
  rfl

theorem trails_int (value : Nat) (x : Extent) :
    Trails [⟨.intLit, Text.ofNat value⟩] (Dump.expr (.constant x (.int value))) := by
  refine trails_of_atom fun field n w us _ => Reads.peek.bind fun t ht => ?_
  have hkind : t.kind = .intLit := congrArg Lexeme.kind ht
  rw [hkind]
  refine Reads.bump.bind fun t' ht' => ?_
  have hkind' : t'.kind = .intLit := congrArg Lexeme.kind ht'
  have htext' : t'.lexeme = Text.ofNat value := congrArg Lexeme.text ht'
  rw [hkind', htext', Radix.parseLiteral?_ofNat]
  exact (Reads.extentFrom t').bind fun x' _ => .pure rfl

/-- An expression that is no assignment is not taken for one. -/
theorem Legible.named (h : Legible 1 ws d) (field : FieldReader) {n : Nat} (hn : ws.length ≤ n + 1)
    {w : Lexeme} (us : List Lexeme) (hend : w.kind.attach < 1) (hwalrus : w.kind ≠ .walrus) :
    Reads (named (rules field (n + 1))) (ws ++ w :: us) (w :: us) (Dump.expr · = d) := by
  obtain ⟨v, vs, rfl, -⟩ := h.opens
  obtain ⟨u, us', hnext, hu⟩ : ∃ u us', vs ++ w :: us = u :: us' ∧ u.kind ≠ .walrus := by
    cases vs with
    | nil => exact ⟨w, us, rfl, hwalrus⟩
    | cons u vs => exact ⟨u, vs ++ w :: us, rfl, (h.plain u (by simp)).1⟩
  have hread := h.scans .expression (by decide) field n w us hn hend
  rw [List.cons_append, hnext] at hread ⊢
  refine Reads.kind.seq (Reads.kind_one.seq ?_)
  rw [if_neg (by simp [hu])]
  exact hread

theorem reads_atComprehension_no {w : Lexeme} {us : List Lexeme}
    (h : w.kind ≠ .kwFor ∧ w.kind ≠ .kwAsync) :
    Reads atComprehension (w :: us) (w :: us) (· = false) := by
  refine Reads.kind.seq ?_
  have hfor : decide (w.kind = .kwFor) = false := decide_eq_false h.1
  have hasync : decide (w.kind = .kwAsync) = false := decide_eq_false h.2
  simp only [hfor]
  refine Reads.kind.seq ((Reads.kind_any 1).bind fun k _ => ?_)
  exact .pure (by simp [hasync])

theorem Opens.kind_ne {rank : Nat} {v : Lexeme} (h : v.kind.opens rank = true) {k : Token.Kind}
    (hk : k.opens rank = false) : v.kind ≠ k := by
  rintro rfl
  rw [hk] at h
  exact absurd h (by decide)

/-- An expression in parentheses stands for itself. -/
theorem Legible.parenthesized (h : Legible 1 ws d) {field : FieldReader} {n : Nat}
    (hn : ws.length ≤ n + 1) (us : List Lexeme) :
    Reads (parenthesized (rules field (n + 1))) (ofKind .lparen :: (ws ++ ofKind .rparen :: us)) us
      (Dump.expr · = d) := by
  have hnamed := h.named field (w := ofKind .rparen) hn us (by decide) (by decide)
  obtain ⟨v, vs, rfl, hv⟩ := h.opens
  have hclose : v.kind ≠ .rparen := Opens.kind_ne hv (by decide)
  have hyield : v.kind ≠ .kwYield := Opens.kind_ne hv (by decide)
  have hstar : v.kind ≠ .star := Opens.kind_ne hv (by decide)
  have hhead : Reads (starNamed (rules field (n + 1))) (v :: vs ++ ofKind .rparen :: us)
      (ofKind .rparen :: us) (Dump.expr · = d) :=
    (Reads.at? (decide_eq_false hstar)).seq hnamed
  refine Reads.bump.bind fun first _ => (Reads.eat_not hclose).seq ?_
  refine (Reads.at? (decide_eq_false hyield)).seq (hhead.bind fun a ha => ?_)
  refine (reads_atComprehension_no (by decide)).seq ?_
  refine (Reads.at? (decide_eq_false (by decide))).seq ?_
  exact (Reads.close .rparen _).bind fun _ _ => .pure ha

theorem trails_parenthesized (h : Legible 1 ws d) :
    Trails (ofKind .lparen :: (ws ++ [ofKind .rparen])) d := by
  refine trails_of_atom fun field n w us hn => ?_
  rw [List.length_cons, List.length_append, List.length_singleton] at hn
  obtain ⟨m, rfl⟩ : ∃ m, n = m + 1 := ⟨n - 1, by omega⟩
  rw [List.cons_append, List.append_assoc, List.singleton_append]
  refine Reads.peek.bind fun t ht => ?_
  have hkind : t.kind = .lparen := congrArg Lexeme.kind ht
  rw [hkind]
  exact h.parenthesized (by omega) (w :: us)

/-! ## Attributes, subscripts and calls -/

theorem exprs_eq_map (es : List Expr) : Dump.exprs es = es.map Dump.expr := by
  induction es with
  | nil => rfl
  | cons e es ih => rw [Dump.exprs, ih, List.map_cons]

theorem trails_attribute {e : Expr} (h : Legible 90 ws (Dump.expr e)) (id : Text) (x : Extent) :
    Trails (ws ++ [ofKind .dot, ⟨.ident, id⟩]) (Dump.expr (.attribute x e id .load)) := by
  intro field n w us first hn
  rw [List.length_append, List.length_cons, List.length_singleton] at hn
  obtain ⟨vs, P, hatom, hturns⟩ := h.trails (by decide) field n (ofKind .dot)
    (⟨.ident, id⟩ :: w :: us) first (by omega)
  rw [List.append_assoc]
  refine ⟨vs, P, hatom, hturns.step (fun base hbase => ?_) (by simp)⟩
  refine Reads.isAborted.seq (Reads.kind.seq (Reads.bump.bind fun _ _ => ?_))
  refine Reads.peek.bind fun t ht => (Reads.expect .ident id).seq ?_
  refine (Reads.extentFrom first).bind fun x' _ => .pure ⟨rfl, ?_⟩
  have htext : t.lexeme = id := congrArg Lexeme.text ht
  simp only [Dump.expr, htext, hbase]

/-- The index behind an opening bracket. -/
theorem Legible.subscriptIndex (h : Legible 1 ws d) (field : FieldReader) {n : Nat}
    (hn : ws.length ≤ n + 1) (us : List Lexeme) :
    Reads (subscriptIndex (rules field (n + 1))) (ws ++ ofKind .rbracket :: us)
      (ofKind .rbracket :: us) (Dump.expr · = d) := by
  have hnamed := h.named field (w := ofKind .rbracket) hn us (by decide) (by decide)
  obtain ⟨v, vs, rfl, hv⟩ := h.opens
  have hstar : v.kind ≠ .star := Opens.kind_ne hv (by decide)
  have hcolon : v.kind ≠ .colon := Opens.kind_ne hv (by decide)
  have hitem : Reads (subscriptItem (rules field (n + 1))) (v :: vs ++ ofKind .rbracket :: us)
      (ofKind .rbracket :: us) (Dump.expr · = d) := by
    refine Reads.peek.bind fun first hfirst => ?_
    have hkind : first.kind = v.kind := congrArg Lexeme.kind hfirst
    rw [hkind, if_neg hstar, if_neg hcolon]
    have hlower : Reads (some <$> Grammar.named (rules field (n + 1)))
        (v :: vs ++ ofKind .rbracket :: us) (ofKind .rbracket :: us)
        (fun lower => ∃ a, lower = some a ∧ Dump.expr a = d) :=
      hnamed.bind fun a ha => .pure ⟨a, rfl, ha⟩
    refine hlower.bind fun lower hsome => ?_
    obtain ⟨a, rfl, ha⟩ := hsome
    exact (Reads.at? (decide_eq_false (by decide))).seq (.pure ha)
  refine Reads.peek.bind fun _ _ => hitem.bind fun a ha => ?_
  exact (Reads.at? (decide_eq_false (by decide))).seq (.pure ha)

theorem trails_subscript {e i : Expr} (h : Legible 90 ws (Dump.expr e))
    (hindex : Legible 1 vs (Dump.expr i)) (x : Extent) :
    Trails (ws ++ ofKind .lbracket :: (vs ++ [ofKind .rbracket]))
      (Dump.expr (.subscript x e i .load)) := by
  intro field n w us first hn
  simp only [List.length_append, List.length_cons, List.length_nil] at hn
  obtain ⟨m, rfl⟩ : ∃ m, n = m + 1 := ⟨n - 1, by omega⟩
  have hinside := hindex.subscriptIndex field (n := m) (by omega) (w :: us)
  obtain ⟨us', P, hatom, hturns⟩ := h.trails (by decide) field (m + 1) (ofKind .lbracket)
    (vs ++ ofKind .rbracket :: w :: us) first (by omega)
  simp only [List.append_assoc, List.cons_append, List.nil_append]
  refine ⟨us', P, hatom, hturns.step (fun base hbase => ?_) (by simp; omega)⟩
  refine Reads.isAborted.seq (Reads.kind.seq (Reads.bump.bind fun _ _ => ?_))
  refine hinside.bind fun index hindex => (Reads.close .rbracket _).bind fun _ _ => ?_
  refine (Reads.extentFrom first).bind fun x' _ => .pure ⟨rfl, ?_⟩
  simp only [Dump.expr, hbase, hindex]

/-- The arguments of a call, with a comma behind all but the last. -/
def argumentWords : List (List Lexeme) → List Lexeme
  | [] => []
  | [ws] => ws
  | ws :: rest => ws ++ ofKind .comma :: argumentWords rest

/-- One argument, and whether a comma follows. -/
def argumentRound (r : Rules) (a : Arguments) : Parser (Arguments × Bool) := do
  if (← isAborted) || (← at? .rparen) || (← at? .eof) then return (a, false)
  else
    let a ← argument r (← peek) a
    return (a, ← eat .comma)

/-- The arguments so far are positional and have the given documents. -/
def Arguments.Shows (ds : List Document) (a : Arguments) : Prop :=
  a.args.reverse.map Dump.expr = ds ∧ a.keywords = [] ∧ a.seenKeyword = false ∧ a.seenUnpack = false

/-- A positional argument. -/
theorem Legible.argument (h : Legible 1 ws d) (field : FieldReader) {n : Nat}
    (hn : ws.length ≤ n + 1) {w : Lexeme} (us : List Lexeme)
    (hw : w.kind = .comma ∨ w.kind = .rparen) {ds : List Document} {a : Arguments}
    (ha : a.Shows ds) {t : Token} (ht : ∃ v vs, ws = v :: vs ∧ t.toLexeme = v) :
    Reads (argument (rules field (n + 1)) t a) (ws ++ w :: us) (w :: us)
      (Arguments.Shows (ds ++ [d])) := by
  have hnot {k : Token.Kind} (hk : k ≠ .comma ∧ k ≠ .rparen) : w.kind ≠ k := by
    rintro rfl
    exact hw.elim hk.1 hk.2
  have hnamed := h.named field (w := w) hn us (by rcases hw with hw | hw <;> rw [hw] <;> decide)
    (hnot (by decide))
  obtain ⟨v, vs, rfl, hv⟩ := h.opens
  obtain ⟨v', vs', hvs, ht⟩ := ht
  obtain ⟨rfl, rfl⟩ := List.cons.inj hvs
  have hkind : t.kind = v.kind := congrArg Lexeme.kind ht
  obtain ⟨u, us', hnext, hu⟩ : ∃ u us', vs ++ w :: us = u :: us' ∧ u.kind ≠ .assign := by
    cases vs with
    | nil => exact ⟨w, us, rfl, hnot (by decide)⟩
    | cons u vs => exact ⟨u, vs ++ w :: us, rfl, (h.plain u (by simp)).2⟩
  unfold Grammar.argument
  rw [hkind, if_neg (Opens.kind_ne hv (by decide)), if_neg (Opens.kind_ne hv (by decide))]
  rw [List.cons_append, hnext] at hnamed ⊢
  refine Reads.kind_one.seq ?_
  rw [if_neg (by simp [hu])]
  refine hnamed.bind fun value hvalue => ?_
  refine (reads_atComprehension_no ⟨hnot (by decide), hnot (by decide)⟩).seq ?_
  obtain ⟨hargs, hkeywords, hseen, hunpack⟩ := ha
  rw [hseen, hunpack]
  refine .pure ⟨?_, hkeywords, hseen, hunpack⟩
  simp [Arguments.addArg, hargs, hvalue]

/-- One round for an argument; the comma behind it is taken. -/
theorem reads_argumentRound (h : Legible 1 ws d) (field : FieldReader) {n : Nat}
    (hn : ws.length ≤ n + 1) {w : Lexeme} {us us' : List Lexeme}
    (hw : w.kind = .comma ∨ w.kind = .rparen) {ds : List Document} {a : Arguments}
    (ha : a.Shows ds) {more : Bool} (hcomma : Reads (eat .comma) (w :: us) us' (· = more)) :
    Reads (argumentRound (rules field (n + 1)) a) (ws ++ w :: us) us'
      fun r => r.2 = more ∧ r.1.Shows (ds ++ [d]) := by
  have hargument {t : Token} := h.argument field hn us hw ha (t := t)
  obtain ⟨v, vs, rfl, hv⟩ := h.opens
  refine Reads.isAborted.seq ?_
  refine (Reads.at? (decide_eq_false (Opens.kind_ne hv (by decide)))).seq ?_
  refine (Reads.at? (decide_eq_false (Opens.kind_ne hv (by decide)))).seq ?_
  refine Reads.peek.bind fun t ht => ?_
  refine (hargument ⟨v, vs, rfl, ht⟩).bind fun a' ha' => ?_
  exact hcomma.seq (.pure ⟨rfl, ha'⟩)

theorem loops_arguments (field : FieldReader) {n : Nat} (us : List Lexeme)
    {parts : List (List Lexeme × Document)} (h : ∀ p ∈ parts, Legible 1 p.1 p.2)
    (hn : (argumentWords (parts.map Prod.fst)).length ≤ n + 1) (ds : List Document) :
    Loops (argumentRound (rules field (n + 1)))
      (argumentWords (parts.map Prod.fst) ++ ofKind .rparen :: us) (ofKind .rparen :: us)
      (Arguments.Shows ds) (Arguments.Shows (ds ++ parts.map Prod.snd)) := by
  induction parts generalizing ds with
  | nil =>
    refine .last fun a ha => Reads.isAborted.seq ?_
    refine (Reads.at? (decide_eq_true rfl)).seq ((Reads.at? (decide_eq_false (by decide))).seq ?_)
    exact .pure ⟨rfl, by simpa using ha⟩
  | cons p parts ih =>
    have hfirst := h p List.mem_cons_self
    cases parts with
    | nil =>
      refine .last fun a ha => ?_
      exact reads_argumentRound hfirst field hn (.inr rfl) ha (Reads.eat_not (by decide))
    | cons q parts =>
      have hwords : argumentWords ((p :: q :: parts).map Prod.fst) =
          p.1 ++ ofKind .comma :: argumentWords ((q :: parts).map Prod.fst) := rfl
      rw [hwords] at hn ⊢
      rw [List.length_append, List.length_cons] at hn
      rw [List.append_assoc, List.cons_append]
      have hcomma : Reads (eat .comma)
          (ofKind .comma :: (argumentWords ((q :: parts).map Prod.fst) ++ ofKind .rparen :: us))
          (argumentWords ((q :: parts).map Prod.fst) ++ ofKind .rparen :: us) (· = true) :=
        Reads.eat .comma _
      have hround (a : Arguments) (ha : a.Shows ds) :=
        reads_argumentRound hfirst field (n := n) (by omega) (.inl rfl) ha hcomma
      have hrest := ih (fun p hp => h p (List.mem_cons_of_mem _ hp)) (by omega) (ds ++ [p.2])
      rw [List.append_assoc, List.singleton_append] at hrest
      exact .round hround (by simp; omega) hrest

theorem trails_call {e : Expr} {parts : List (List Lexeme × Document)} {args : List Expr}
    (h : Legible 90 ws (Dump.expr e)) (hparts : ∀ p ∈ parts, Legible 1 p.1 p.2)
    (hargs : parts.map Prod.snd = args.map Dump.expr) (x : Extent) :
    Trails (ws ++ ofKind .lparen :: (argumentWords (parts.map Prod.fst) ++ [ofKind .rparen]))
      (Dump.expr (.call x e args [])) := by
  intro field n w us first hn
  simp only [List.length_append, List.length_cons, List.length_nil] at hn
  obtain ⟨m, rfl⟩ : ∃ m, n = m + 1 := by
    obtain ⟨v, vs, rfl, -⟩ := h.opens
    rw [List.length_cons] at hn
    exact ⟨n - 1, by omega⟩
  obtain ⟨us', P, hatom, hturns⟩ := h.trails (by decide) field (m + 1) (ofKind .lparen)
    (argumentWords (parts.map Prod.fst) ++ ofKind .rparen :: w :: us) first (by omega)
  simp only [List.append_assoc, List.cons_append, List.nil_append]
  refine ⟨us', P, hatom, hturns.step (fun base hbase => ?_) (by simp; omega)⟩
  refine Reads.isAborted.seq (Reads.kind.seq (Reads.bump.bind fun _ _ => ?_))
  have hinside : Reads (arguments (rules field (m + 1)))
      (argumentWords (parts.map Prod.fst) ++ ofKind .rparen :: w :: us)
      (ofKind .rparen :: w :: us) (fun p => p.1.map Dump.expr = args.map Dump.expr ∧ p.2 = []) := by
    have hstart : Arguments.Shows [] {} := ⟨rfl, rfl, rfl, rfl⟩
    refine (Reads.loop hstart (loops_arguments field (w :: us) hparts (by omega) [])).bind ?_
    rintro a ⟨hshown, hkeywords, -, -⟩
    refine .pure ⟨?_, by rw [hkeywords]; rfl⟩
    rw [← hargs]
    exact hshown
  refine hinside.bind fun p hp => (Reads.close .rparen _).bind fun _ _ => ?_
  refine (Reads.extentFrom first).bind fun x' _ => .pure ⟨rfl, ?_⟩
  simp only [Dump.expr, hbase, hp.2, exprs_eq_map, hp.1]

/-! ## Powers, signs and binary operators -/

/-- No token binds as tightly as signs. -/
theorem attach_lt_of_lt {k : Token.Kind} (h : k.attach < 80) : k.attach < 70 := by
  revert h
  unfold Token.Kind.attach
  split
  all_goals try (intro h; omega)
  cases hp : Token.Kind.precedence? k with
  | none => simp
  | some p =>
    have hle := (attach_of_precedence hp).2.2
    simp only [Option.getD_some]
    omega

theorem scans_power {base exponent : Expr} (h : Legible 90 ws (Dump.expr base))
    (hexponent : Legible 70 vs (Dump.expr exponent)) (x : Extent) :
    Scans .power (ws ++ ofKind .starStar :: vs) (Dump.expr (.binary x base .pow exponent)) := by
  intro field n w us hn hend
  rw [List.length_append, List.length_cons] at hn
  obtain ⟨m, rfl⟩ : ∃ m, n = m + 1 := by
    obtain ⟨v, vs', rfl, -⟩ := h.opens
    obtain ⟨u, us', rfl, -⟩ := hexponent.opens
    rw [List.length_cons, List.length_cons] at hn
    exact ⟨n - 1, by omega⟩
  have hprimary := h.scans .primary (by decide) field (m + 1) (ofKind .starStar) (vs ++ w :: us)
    (by omega) (by decide)
  have hright := hexponent.scans .factor (by decide) field m w us (by omega) (attach_lt_of_lt hend)
  rw [List.append_assoc, List.cons_append]
  obtain ⟨v, vs', rfl, hv⟩ := h.opens
  refine Reads.peek.bind fun first _ => ?_
  refine Reads.bind ((Reads.at? (decide_eq_false (Opens.kind_ne hv (by decide)))).seq hprimary)
    fun a ha => ?_
  refine (Reads.eat .starStar _).seq (hright.bind fun b hb => ?_)
  refine (Reads.extentFrom first).bind fun x' _ => .pure ?_
  simp only [Dump.expr, ha, hb]

theorem scans_factor {op : UnaryOp} {k : Token.Kind} (hop : unaryOp? k = some op) {operand : Expr}
    (h : Legible 70 ws (Dump.expr operand)) (x : Extent) :
    Scans .factor (ofKind k :: ws) (Dump.expr (.unary x op operand)) := by
  intro field n w us hn hend
  rw [List.length_cons] at hn
  obtain ⟨m, rfl⟩ : ∃ m, n = m + 1 := by
    obtain ⟨v, vs', rfl, -⟩ := h.opens
    rw [List.length_cons] at hn
    exact ⟨n - 1, by omega⟩
  have hoperand := h.scans .factor (by decide) field m w us (by omega) hend
  refine Reads.peek.bind fun first hfirst => ?_
  have hkind : first.kind = k := congrArg Lexeme.kind hfirst
  rw [hkind, hop]
  refine Reads.bump.bind fun _ _ => hoperand.bind fun a ha => ?_
  refine (Reads.extentFrom first).bind fun x' _ => .pure ?_
  simp only [Dump.expr, ha]

theorem operator?_eq_some {floor p : Nat} {op : BinaryOp} {k : Token.Kind}
    (hop : binaryOp? k = some op) (hp : k.precedence? = some p) (hfloor : floor ≤ p) :
    operator? floor k = some (op, p) := by
  simp [operator?, hop, hp, hfloor]

/-- Operators that bind alike associate to the left. -/
theorem sums_binary {op : BinaryOp} {k : Token.Kind} {p : Nat} (hop : binaryOp? k = some op)
    (hp : k.precedence? = some p) {left right : Expr} (h : Legible p ws (Dump.expr left))
    (hright : Legible (p + 1) vs (Dump.expr right)) (x : Extent) {floor : Nat}
    (hfloor : (Level.arithmetic floor).rank ≤ p) :
    Sums floor p (ws ++ ofKind k :: vs) (Dump.expr (.binary x left op right)) := by
  obtain ⟨hattach, hten, hsixty⟩ := attach_of_precedence hp
  intro field n w us first hn hlt hend
  rw [List.length_append, List.length_cons] at hn
  obtain ⟨m, rfl⟩ : ∃ m, n = m + 1 := by
    obtain ⟨v, vs', rfl, -⟩ := h.opens
    obtain ⟨u, us', rfl, -⟩ := hright.opens
    rw [List.length_cons, List.length_cons] at hn
    exact ⟨n - 1, by omega⟩
  have hrank : (Level.arithmetic (p + 1)).rank = p + 1 := by
    simp only [Level.rank]
    omega
  have hoperand := hright.scans (.arithmetic (p + 1)) (by omega) field m w us (by omega) (by omega)
  obtain ⟨us', P, hfactor, hturns⟩ := h.sums floor hfloor field (m + 1) (ofKind k) (vs ++ w :: us)
    first (by omega) (show k.attach < 70 by omega) (show k.attach ≤ p by omega)
  rw [List.append_assoc, List.cons_append]
  refine ⟨us', P, hfactor, hturns.step (fun a ha => ?_)
    (by simp only [List.length_cons, List.length_append]; omega)⟩
  refine Reads.kind.seq (Reads.isAborted.seq ?_)
  have hle : floor ≤ p := by
    simp only [Level.rank] at hfloor
    omega
  rw [show (ofKind k).kind = k from rfl, operator?_eq_some hop hp hle]
  refine Reads.bump.bind fun _ _ => hoperand.bind fun b hb => ?_
  refine (Reads.extentFrom first).bind fun x' _ => .pure ⟨rfl, ?_⟩
  simp only [Dump.expr, ha, hb]

/-! ## Comparisons -/

/-- The words of a comparison. -/
def compareWords : CompareOp → List Token.Kind
  | .eq => [.eqEq]
  | .notEq => [.bangEq]
  | .lt => [.lt]
  | .ltEq => [.ltEq]
  | .gt => [.gt]
  | .gtEq => [.gtEq]
  | .is => [.kwIs]
  | .isNot => [.kwIs, .kwNot]
  | .isIn => [.kwIn]
  | .notIn => [.kwNot, .kwIn]

section

variable (h : Legible 6 ws d) (field : FieldReader) {n : Nat} (hn : ws.length ≤ n + 1) {w : Lexeme}
  (us : List Lexeme) (hend : w.kind.attach < 6)

include h hn hend

theorem reads_compareOperand (op : CompareOp) :
    Reads (do return ([(op, ← Grammar.arithmetic (rules field n) 0)], true)) (ws ++ w :: us)
      (w :: us) fun r => r.2 = true ∧ ∃ a, r.1 = [(op, a)] ∧ Dump.expr a = d :=
  (h.scans (.arithmetic 0) (by decide) field n w us hn (by simpa [Level.rank] using hend)).bind
    fun a ha => .pure ⟨rfl, a, rfl, ha⟩

/-- A comparison of one word. -/
theorem reads_compareRound_one {op : CompareOp} {k : Token.Kind}
    (hop : ∀ next, next ≠ .kwNot → compareOp? k next = some (op, 1)) :
    Reads (compareRound (rules field n)) (ofKind k :: (ws ++ w :: us)) (w :: us)
      fun r => r.2 = true ∧ ∃ a, r.1 = [(op, a)] ∧ Dump.expr a = d := by
  have hoperand := reads_compareOperand h field hn us hend op
  obtain ⟨v, vs, rfl, hv⟩ := h.opens
  refine Reads.kind.seq (Reads.kind_one.seq (Reads.isAborted.seq ?_))
  rw [show (ofKind k).kind = k from rfl, hop v.kind (Opens.kind_ne hv (by decide))]
  exact Reads.bump.bind fun _ _ => hoperand

/-- A comparison of two words. -/
theorem reads_compareRound_two {op : CompareOp} {k k' : Token.Kind}
    (hop : compareOp? k k' = some (op, 2)) :
    Reads (compareRound (rules field n)) (ofKind k :: ofKind k' :: (ws ++ w :: us)) (w :: us)
      fun r => r.2 = true ∧ ∃ a, r.1 = [(op, a)] ∧ Dump.expr a = d := by
  have hoperand := reads_compareOperand h field hn us hend op
  refine Reads.kind.seq (Reads.kind_one.seq (Reads.isAborted.seq ?_))
  rw [show (ofKind k).kind = k from rfl, show (ofKind k').kind = k' from rfl, hop]
  exact Reads.bump.bind fun _ _ => Reads.bump.bind fun _ _ => hoperand

theorem reads_compareRound (op : CompareOp) :
    Reads (compareRound (rules field n)) ((compareWords op).map ofKind ++ (ws ++ w :: us)) (w :: us)
      fun r => r.2 = true ∧ ∃ a, r.1 = [(op, a)] ∧ Dump.expr a = d := by
  cases op with
  | isNot => exact reads_compareRound_two h field hn us hend rfl
  | notIn => exact reads_compareRound_two h field hn us hend rfl
  | is => exact reads_compareRound_one h field hn us hend fun next hnext => if_neg hnext
  | _ => exact reads_compareRound_one h field hn us hend fun _ _ => rfl

end

/-- What a comparison compares with, in order: the comparison, the words of the operand and its
document. -/
abbrev Compared := CompareOp × List Lexeme × Document

def Compared.words (c : Compared) : List Lexeme := (compareWords c.1).map ofKind ++ c.2.1

theorem attach_compareWords (op : CompareOp) :
    ∃ k ks, compareWords op = k :: ks ∧ k.attach = 5 := by
  cases op <;> exact ⟨_, _, rfl, rfl⟩

theorem collects_compared (field : FieldReader) {n : Nat} {w : Lexeme} (us : List Lexeme)
    (hend : w.kind.attach < 5) {cs : List Compared} (h : ∀ c ∈ cs, Legible 6 c.2.1 c.2.2)
    (hn : (cs.flatMap Compared.words).length ≤ n + 1) :
    Collects (compareRound (rules field n)) (cs.flatMap Compared.words ++ w :: us) (w :: us)
      fun found => found.map Prod.fst = cs.map Prod.fst ∧
        found.map (fun p => Dump.expr p.2) = cs.map (fun c => c.2.2) := by
  induction cs with
  | nil => exact .nil ⟨rfl, rfl⟩
  | cons c cs ih =>
    rw [List.flatMap_cons, List.length_append, Compared.words, List.length_append] at hn
    have hrest := ih (fun c hc => h c (List.mem_cons_of_mem _ hc)) (by omega)
    -- behind the operand stands the next comparison or the end
    obtain ⟨v, vs, hnext, hv⟩ : ∃ v vs, cs.flatMap Compared.words ++ w :: us = v :: vs ∧
        v.kind.attach < 6 := by
      cases cs with
      | nil => exact ⟨w, us, rfl, by omega⟩
      | cons c' cs =>
        obtain ⟨k, ks, hks, hk⟩ := attach_compareWords c'.1
        rw [List.flatMap_cons, Compared.words, hks]
        exact ⟨ofKind k, _, rfl, show k.attach < 6 by omega⟩
    have hround := reads_compareRound (h c List.mem_cons_self) field (n := n) (by omega) vs hv c.1
    rw [← hnext] at hround
    rw [List.flatMap_cons, Compared.words, List.append_assoc, List.append_assoc]
    refine .cons (P := fun xs => ∃ a, xs = [(c.1, a)] ∧ Dump.expr a = c.2.2) hround ?_ hrest ?_
    · obtain ⟨k, ks, hks, -⟩ := attach_compareWords c.1
      simp only [hks, List.map_cons, List.length_append, List.length_cons]
      omega
    · rintro xs ys ⟨a, rfl, ha⟩ ⟨hops, hdocs⟩
      simp [hops, hdocs, ha]

theorem scans_comparison {left : Expr} {c : Compared} {cs : List Compared} {operands : List Expr}
    (h : Legible 6 ws (Dump.expr left)) (hcs : ∀ c' ∈ c :: cs, Legible 6 c'.2.1 c'.2.2)
    (hdocs : (c :: cs).map (fun c => c.2.2) = operands.map Dump.expr) (x : Extent) :
    Scans .comparison (ws ++ (c :: cs).flatMap Compared.words)
      (Dump.expr (.compare x left ((c :: cs).map Prod.fst) operands)) := by
  intro field n w us hn hend
  rw [List.length_append] at hn
  have hcollects := collects_compared field us hend hcs (n := n) (by omega)
  obtain ⟨k, ks, hks, hk⟩ := attach_compareWords c.1
  have hleft := h.scans (.arithmetic 0) (by decide) field n (ofKind k)
    (ks.map ofKind ++ (c.2.1 ++ (cs.flatMap Compared.words ++ w :: us))) (by omega)
    (show k.attach < 6 by omega)
  have hwords : (c :: cs).flatMap Compared.words ++ w :: us =
      ofKind k :: (ks.map ofKind ++ (c.2.1 ++ (cs.flatMap Compared.words ++ w :: us))) := by
    simp [Compared.words, hks]
  rw [← hwords] at hleft
  rw [List.append_assoc]
  obtain ⟨v, vs', rfl, hv⟩ := h.opens
  refine Reads.peek.bind fun first _ => hleft.bind fun a ha => ?_
  refine (Reads.collect hcollects (reads_compareRound_end hend)).bind fun found hfound => ?_
  obtain ⟨xs, hxs, hops, hvalues⟩ := hfound
  rw [List.nil_append] at hxs
  subst hxs
  cases found with
  | nil => simp at hops
  | cons y ys =>
    refine (Reads.extentFrom first).bind fun x' _ => .pure ?_
    simp only [Dump.expr, ha, exprs_eq_map, hops, List.map_map]
    rw [← hdocs, ← hvalues]
    rfl

/-! ## Boolean operators and conditional expressions -/

theorem scans_inversion {operand : Expr} (h : Legible 4 ws (Dump.expr operand)) (x : Extent) :
    Scans .inversion (ofKind .kwNot :: ws) (Dump.expr (.unary x .not operand)) := by
  intro field n w us hn hend
  rw [List.length_cons] at hn
  obtain ⟨m, rfl⟩ : ∃ m, n = m + 1 := by
    obtain ⟨v, vs', rfl, -⟩ := h.opens
    rw [List.length_cons] at hn
    exact ⟨n - 1, by omega⟩
  have hoperand := h.scans .inversion (by decide) field m w us (by omega) hend
  refine (Reads.at? (decide_eq_true rfl)).seq (Reads.bump.bind fun first _ => ?_)
  refine hoperand.bind fun a ha => (Reads.extentFrom first).bind fun x' _ => .pure ?_
  simp only [Dump.expr, ha]

/-- Further operands, each behind the operator. -/
theorem collects_operands {word : Token.Kind} {operand : Parser Expr} {w : Lexeme}
    (us : List Lexeme) {parts : List (List Lexeme × Document)}
    (h : ∀ p ∈ parts, ∀ v vs, v.kind = word ∨ v = w →
      Reads operand (p.1 ++ v :: vs) (v :: vs) (Dump.expr · = p.2)) :
    Collects (do if ← eat word then return ([← operand], true) else return ([], false))
      (parts.flatMap (fun p => ofKind word :: p.1) ++ w :: us) (w :: us)
      (fun found => found.map Dump.expr = parts.map Prod.snd) := by
  induction parts with
  | nil => exact .nil rfl
  | cons p parts ih =>
    have hrest := ih fun p hp => h p (List.mem_cons_of_mem _ hp)
    obtain ⟨v, vs, hnext, hv⟩ : ∃ v vs,
        parts.flatMap (fun p => ofKind word :: p.1) ++ w :: us = v :: vs ∧
          (v.kind = word ∨ v = w) := by
      cases parts with
      | nil => exact ⟨w, us, rfl, .inr rfl⟩
      | cons q parts => exact ⟨ofKind word, _, rfl, .inl rfl⟩
    have hoperand := h p List.mem_cons_self v vs hv
    rw [← hnext] at hoperand
    rw [List.flatMap_cons, List.append_assoc, List.cons_append]
    refine .cons (P := fun xs => xs.map Dump.expr = [p.2]) ?_
      (by simp only [List.length_cons, List.length_append]; omega) hrest ?_
    · exact (Reads.eat word _).seq (hoperand.bind fun a ha => .pure ⟨rfl, by simpa using ha⟩)
    · intro xs ys hxs hys
      rw [List.map_append, hxs, hys, List.map_cons, List.singleton_append]

theorem reads_boolean {op : BoolOp} {word : Token.Kind} {operand : Parser Expr} {w : Lexeme}
    (us : List Lexeme) (hw : w.kind ≠ word) {p q : List Lexeme × Document}
    {parts : List (List Lexeme × Document)} {values : List Expr} (hne : p.1 ≠ [])
    (h : ∀ p' ∈ p :: q :: parts, ∀ v vs, v.kind = word ∨ v = w →
      Reads operand (p'.1 ++ v :: vs) (v :: vs) (Dump.expr · = p'.2))
    (hdocs : (p :: q :: parts).map Prod.snd = values.map Dump.expr) (x : Extent) :
    Reads (boolean op word operand)
      (p.1 ++ ((q :: parts).flatMap (fun p => ofKind word :: p.1) ++ w :: us)) (w :: us)
      (Dump.expr · = Dump.expr (.boolean x op values)) := by
  have hhead := h p List.mem_cons_self (ofKind word)
    (q.1 ++ (parts.flatMap (fun p => ofKind word :: p.1) ++ w :: us)) (.inl rfl)
  have hcollects := collects_operands us fun p' hp' => h p' (List.mem_cons_of_mem _ hp')
  have hlast : Reads (do if ← eat word then return ([← operand], true) else return ([], false))
      (w :: us) (w :: us) fun r => r = ([], false) :=
    (Reads.eat_not hw).seq (.pure rfl)
  have hwords : (q :: parts).flatMap (fun p => ofKind word :: p.1) ++ w :: us =
      ofKind word :: (q.1 ++ (parts.flatMap (fun p => ofKind word :: p.1) ++ w :: us)) := by
    simp
  rw [← hwords] at hhead
  obtain ⟨v, vs, hv⟩ := List.exists_cons_of_ne_nil hne
  rw [hv, List.cons_append] at hhead ⊢
  refine Reads.peek.bind fun first _ => hhead.bind fun a ha => ?_
  rw [hwords]
  refine (Reads.at? (decide_eq_true rfl)).seq ?_
  rw [← hwords]
  refine (Reads.collect hcollects hlast).bind fun found hfound => ?_
  obtain ⟨xs, rfl, hxs⟩ := hfound
  refine (Reads.extentFrom first).bind fun x' _ => .pure ?_
  have hvalues : ([a] ++ xs).map Dump.expr = values.map Dump.expr := by
    simp only [← hdocs, List.map_append, List.map_cons, List.map_nil, hxs, ha]
    rfl
  simp only [Dump.expr, exprs_eq_map, hvalues]

/-- The words of operands joined by one word. -/
def joinedWords (word : Token.Kind) (p : List Lexeme × Document)
    (parts : List (List Lexeme × Document)) : List Lexeme :=
  p.1 ++ parts.flatMap fun p => ofKind word :: p.1

theorem length_le_joinedWords {word : Token.Kind} {p : List Lexeme × Document}
    {parts : List (List Lexeme × Document)} {p' : List Lexeme × Document} (h : p' ∈ p :: parts) :
    p'.1.length ≤ (joinedWords word p parts).length := by
  rw [joinedWords, List.length_append]
  rcases List.mem_cons.mp h with rfl | h
  · omega
  · obtain ⟨before, behind, rfl⟩ := List.append_of_mem h
    simp only [List.flatMap_append, List.flatMap_cons, List.length_append, List.length_cons]
    omega

/-- A boolean operator of one level joins operands of the next. -/
theorem scans_boolean {op : BoolOp} {word : Token.Kind} (lv inner : Level)
    (hparser : ∀ r, lv.parser r = boolean op word (inner.parser r)) (hword : word.attach = lv.rank)
    (hrank : inner.rank = lv.rank + 1) {p q : List Lexeme × Document}
    {parts : List (List Lexeme × Document)} {values : List Expr}
    (h : ∀ p' ∈ p :: q :: parts, Legible inner.rank p'.1 p'.2)
    (hdocs : (p :: q :: parts).map Prod.snd = values.map Dump.expr) (x : Extent) :
    Scans lv (joinedWords word p (q :: parts)) (Dump.expr (.boolean x op values)) := by
  intro field n w us hn hend
  have hw : w.kind ≠ word := by
    intro hk
    rw [hk] at hend
    omega
  have hne : p.1 ≠ [] := by
    obtain ⟨v, vs, hv, -⟩ := (h p List.mem_cons_self).opens
    rw [hv]
    simp
  rw [hparser, joinedWords, List.append_assoc]
  refine reads_boolean us hw hne (fun p' hp' v vs hv => ?_) hdocs x
  have hlength := Nat.le_trans (length_le_joinedWords hp') hn
  refine (h p' hp').scans inner (Nat.le_refl _) field n v vs hlength ?_
  rcases hv with hv | rfl
  · rw [hv]
    omega
  · omega

theorem scans_conditional {ts bs os : List Lexeme} {test body orelse : Expr}
    (htest : Legible 2 ts (Dump.expr test)) (hbody : Legible 2 bs (Dump.expr body))
    (horelse : Legible 1 os (Dump.expr orelse)) (x : Extent) :
    Scans .expression (bs ++ ofKind .kwIf :: (ts ++ ofKind .kwElse :: os))
      (Dump.expr (.conditional x test body orelse)) := by
  intro field n w us hn hend
  simp only [List.length_append, List.length_cons] at hn
  obtain ⟨m, rfl⟩ : ∃ m, n = m + 1 := ⟨n - 1, by omega⟩
  have hreadBody := hbody.scans .disjunction (by decide) field (m + 1) (ofKind .kwIf)
    (ts ++ ofKind .kwElse :: (os ++ w :: us)) (by omega) (by decide)
  have hreadTest := htest.scans .disjunction (by decide) field (m + 1) (ofKind .kwElse)
    (os ++ w :: us) (by omega) (by decide)
  have hreadElse := horelse.scans .expression (by decide) field m w us (by omega) hend
  simp only [List.append_assoc, List.cons_append]
  obtain ⟨v, vs, rfl, hv⟩ := hbody.opens
  refine Reads.peek.bind fun first hfirst => Reads.isAborted.seq ?_
  rw [if_neg (by decide), if_neg (not_kwLambda_of_opens hfirst hv)]
  refine hreadBody.bind fun b hb => (Reads.eat .kwIf _).seq (hreadTest.bind fun t ht => ?_)
  refine (Reads.expect .kwElse _).seq (hreadElse.bind fun o ho => ?_)
  refine (Reads.extentFrom first).bind fun x' _ => .pure ?_
  simp only [Dump.expr, hb, ht, ho]

end Grammar

end CloneScout
