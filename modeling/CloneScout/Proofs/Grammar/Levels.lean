import CloneScout.Grammar.Parse
import CloneScout.Proofs.Grammar.Reading
import CloneScout.Tree.Dump

/-!
# Levels of expressions

The rules of expressions are levels: each takes operands from the level above and joins them by the
operators that bind as it does. A token that follows an expression attaches to it at the level of
its operator and ends it at every level above. What one level reads all lower levels read, in front
of a token that ends it there.
-/

namespace CloneScout

/-- How tightly a token binds to the expression in front of it; zero if it does not go on with the
expression. -/
def Token.Kind.attach (k : Token.Kind) : Nat :=
  match k with
  | .dot => 90
  | .lparen => 90
  | .lbracket => 90
  | .starStar => 80
  | .eqEq => 5
  | .bangEq => 5
  | .lt => 5
  | .ltEq => 5
  | .gt => 5
  | .gtEq => 5
  | .kwIn => 5
  | .kwNot => 5
  | .kwIs => 5
  | .kwAnd => 3
  | .kwOr => 2
  | .kwIf => 1
  | k => k.precedence?.getD 0

/-- Tokens that an expression made of operators starts with, if it binds at least as tightly as the
rank. -/
def Token.Kind.opens (rank : Nat) (k : Token.Kind) : Bool :=
  match k with
  | .ident => true
  | .intLit => true
  | .stringLit => true
  | .lparen => true
  | .plus => rank ≤ 70
  | .minus => rank ≤ 70
  | .tilde => rank ≤ 70
  | .kwNot => rank ≤ 4
  | _ => false

namespace Grammar

/-- The rules that come back to each other at most `n` times. -/
def rules (field : FieldReader) (n : Nat) : Rules := ⟨runGoal field n, field⟩

inductive Level where
  | expression
  | disjunction
  | conjunction
  | inversion
  | comparison
  | arithmetic (floor : Nat)
  | factor
  | power
  | primary

namespace Level

def parser (r : Rules) : Level → Parser Expr
  | .expression => Grammar.expression r
  | .disjunction => Grammar.disjunction r
  | .conjunction => Grammar.conjunction r
  | .inversion => Grammar.inversion r
  | .comparison => Grammar.comparison r
  | .arithmetic floor => Grammar.arithmetic r floor
  | .factor => Grammar.factor r
  | .power => Grammar.power r
  | .primary => Grammar.primary r

/-- A token that binds less tightly ends an expression of the level. -/
def rank : Level → Nat
  | .expression => 1
  | .disjunction => 2
  | .conjunction => 3
  | .inversion => 4
  | .comparison => 5
  | .arithmetic floor => min 70 (max floor 6)
  | .factor => 70
  | .power => 80
  | .primary => 90

end Level

/-- The level reads the tokens as an expression with the given document, in front of any token that
ends it. The rules need not come back to each other more often than there are tokens. -/
def Scans (lv : Level) (ws : List Lexeme) (d : Document) : Prop :=
  ∀ (field : FieldReader) (n : Nat) (w : Lexeme) (us : List Lexeme), ws.length ≤ n + 1 →
    w.kind.attach < lv.rank →
    Reads (lv.parser (rules field n)) (ws ++ w :: us) (w :: us) (Dump.expr · = d)

/-- The tokens start an expression that binds at least as tightly as the rank. -/
def Opens (rank : Nat) (ws : List Lexeme) : Prop := ∃ w vs, ws = w :: vs ∧ w.kind.opens rank = true

/-! ## Calls, subscripts and attributes -/

/-- An atom and what trails it make the expression, whatever follows. -/
def Trails (ws : List Lexeme) (d : Document) : Prop :=
  ∀ (field : FieldReader) (n : Nat) (w : Lexeme) (us : List Lexeme) (first : Token),
    ws.length ≤ n + 1 →
    ∃ vs P, Reads (atom (rules field n)) (ws ++ w :: us) vs P ∧
      Turns (trailer (rules field n) first) vs (w :: us) P (Dump.expr · = d)

/-- A token that starts no trailer ends the primary. -/
theorem reads_trailer_end {r : Rules} {first : Token} {base : Expr} {w : Lexeme} {us : List Lexeme}
    (h : w.kind.attach < 90) :
    Reads (trailer r first base) (w :: us) (w :: us) fun p => p = (base, false) := by
  refine Reads.isAborted.seq (Reads.kind.seq ?_)
  split
  · simp [*, Token.Kind.attach] at h
  · simp [*, Token.Kind.attach] at h
  · simp [*, Token.Kind.attach] at h
  · exact .pure rfl

theorem reads_primary {r : Rules} {v w : Lexeme} {vs us : List Lexeme} {Q : Expr → Prop}
    (h : ∀ first, ∃ vs' P, Reads (atom r) (v :: vs) vs' P ∧
      Turns (trailer r first) vs' (w :: us) P Q) (hend : w.kind.attach < 90) :
    Reads (primary r) (v :: vs) (w :: us) Q := by
  refine Reads.peek.bind fun first _ => ?_
  obtain ⟨vs', P, hatom, hturns⟩ := h first
  refine hatom.bind fun e he => Reads.loop he (.trans hturns (.last fun e he => ?_))
  exact (reads_trailer_end hend).mono fun p hp => by rw [hp]; exact ⟨rfl, he⟩

theorem Trails.primary {ws : List Lexeme} {d : Document} (h : Trails ws d) {rank : Nat}
    (hopens : Opens rank ws) : Scans .primary ws d := by
  intro field n w us hn hend
  obtain ⟨v, vs, rfl, -⟩ := hopens
  exact reads_primary (fun first => h field n w us first hn) hend

/-! ## Powers and signs -/

section

variable {r : Rules} {v w : Lexeme} {vs us : List Lexeme} {Q : Expr → Prop}

theorem reads_power (h : Reads (primary r) (v :: vs) (w :: us) Q) {rank : Nat}
    (hv : v.kind.opens rank = true) (hend : w.kind.attach < 80) :
    Reads (power r) (v :: vs) (w :: us) Q := by
  have hstar : w.kind ≠ .starStar := by
    intro hk
    simp [hk, Token.Kind.attach] at hend
  have hawait : v.kind ≠ .kwAwait := by
    intro hk
    simp [hk, Token.Kind.opens] at hv
  have hbase : Reads (awaited r) (v :: vs) (w :: us) Q := (Reads.at? (decide_eq_false hawait)).seq h
  refine Reads.peek.bind fun first _ => hbase.bind fun e he => ?_
  exact (Reads.eat_not hstar).seq (.pure he)

theorem reads_factor (h : Reads (power r) (v :: vs) (w :: us) Q) (hv : v.kind.opens 80 = true) :
    Reads (factor r) (v :: vs) (w :: us) Q := by
  refine Reads.peek.bind fun first hfirst => ?_
  have hsign : unaryOp? first.kind = none := by
    rw [show first.kind = v.kind from congrArg Lexeme.kind hfirst]
    unfold unaryOp?
    split <;> simp_all [Token.Kind.opens]
  rw [hsign]
  exact h

end

theorem Scans.power {ws : List Lexeme} {d : Document} (h : Scans .primary ws d) {rank : Nat}
    (hopens : Opens rank ws) : Scans .power ws d := by
  intro field n w us hn hend
  obtain ⟨v, vs, rfl, hv⟩ := hopens
  exact reads_power (h field n w us hn (Nat.lt_trans hend (by decide))) hv hend

theorem Scans.factor {ws : List Lexeme} {d : Document} (h : Scans .power ws d)
    (hopens : Opens 80 ws) : Scans .factor ws d := by
  intro field n w us hn hend
  obtain ⟨v, vs, rfl, hv⟩ := hopens
  exact reads_factor (h field n w us hn (Nat.lt_trans hend (by decide))) hv

/-! ## Binary operators -/

/-- One operator and its right operand. -/
def operatorRound (r : Rules) (floor : Nat) (first : Token) (left : Expr) :
    Parser (Expr × Bool) := do
  match operator? floor (← kind), ← isAborted with
  | some (op, p), false =>
    let _ ← bump
    let right ← r.arithmetic (p + 1)
    return (.binary (← extentFrom first) left op right, true)
  | _, _ => return (left, false)

/-- A factor and the operators behind it make the expression, in front of a token that binds less
tightly than signs and at most as tightly as the rank. -/
def Sums (floor rank : Nat) (ws : List Lexeme) (d : Document) : Prop :=
  ∀ (field : FieldReader) (n : Nat) (w : Lexeme) (us : List Lexeme) (first : Token),
    ws.length ≤ n + 1 → w.kind.attach < 70 → w.kind.attach ≤ rank →
    ∃ vs P, Reads (Grammar.factor (rules field n)) (ws ++ w :: us) vs P ∧
      Turns (operatorRound (rules field n) floor first) vs (w :: us) P (Dump.expr · = d)

theorem Scans.sums {ws : List Lexeme} {d : Document} (h : Scans .factor ws d) (floor rank : Nat) :
    Sums floor rank ws d := by
  intro field n w us first hn hend _
  exact ⟨w :: us, (Dump.expr · = d), h field n w us hn hend, .refl fun _ => id⟩

theorem attach_of_precedence {k : Token.Kind} {p : Nat} (h : k.precedence? = some p) :
    k.attach = p ∧ 10 ≤ p ∧ p ≤ 60 := by
  cases k <;> simp [Token.Kind.precedence?] at h <;>
    simp [Token.Kind.attach, Token.Kind.precedence?, ← h]

theorem operator?_eq_none {floor : Nat} {k : Token.Kind} (h : k.attach < max floor 6) :
    operator? floor k = none := by
  unfold operator?
  split
  next op p _ hp =>
    obtain ⟨hattach, hten, -⟩ := attach_of_precedence hp
    exact if_neg (by omega)
  next => rfl

theorem reads_arithmetic {r : Rules} {v w : Lexeme} {vs us : List Lexeme} {Q : Expr → Prop}
    {floor : Nat} (h : ∀ first, ∃ vs' P, Reads (Grammar.factor r) (v :: vs) vs' P ∧
      Turns (operatorRound r floor first) vs' (w :: us) P Q)
    (hend : w.kind.attach < max floor 6) :
    Reads (Grammar.arithmetic r floor) (v :: vs) (w :: us) Q := by
  refine Reads.peek.bind fun first _ => Reads.isAborted.seq ?_
  obtain ⟨vs', P, hfactor, hturns⟩ := h first
  refine hfactor.bind fun e he => Reads.loop he (.trans hturns (.last fun e he => ?_))
  refine Reads.kind.seq (Reads.isAborted.seq ?_)
  rw [operator?_eq_none hend]
  exact .pure ⟨rfl, he⟩

theorem Sums.arithmetic {floor rank : Nat} {ws : List Lexeme} {d : Document}
    (h : Sums floor rank ws d) (hrank : (Level.arithmetic floor).rank ≤ rank + 1)
    (hopens : Opens 6 ws) : Scans (.arithmetic floor) ws d := by
  intro field n w us hn hend
  simp only [Level.rank] at hend hrank
  obtain ⟨v, vs, rfl, -⟩ := hopens
  exact reads_arithmetic (fun first => h field n w us first hn (by omega) (by omega)) (by omega)

/-! ## Comparisons -/

/-- One comparison and its right operand. -/
def compareRound (r : Rules) : Parser (List (CompareOp × Expr) × Bool) := do
  match compareOp? (← kind) (← kind 1), ← isAborted with
  | some (op, n), false =>
    let _ ← bump
    if n = 2 then
      let _ ← bump
    return ([(op, ← Grammar.arithmetic r 0)], true)
  | _, _ => return ([], false)

theorem compareOp?_eq_none {k : Token.Kind} (h : k.attach < 5) (next : Token.Kind) :
    compareOp? k next = none := by
  unfold compareOp?
  split <;> simp_all [Token.Kind.attach]

theorem reads_compareRound_end {r : Rules} {w : Lexeme} {us : List Lexeme}
    (h : w.kind.attach < 5) :
    Reads (compareRound r) (w :: us) (w :: us) fun p => p = ([], false) := by
  refine Reads.kind.seq ((Reads.kind_any 1).bind fun next _ => Reads.isAborted.seq ?_)
  rw [compareOp?_eq_none h]
  exact .pure rfl

theorem reads_comparison {r : Rules} {v w : Lexeme} {vs us : List Lexeme} {Q : Expr → Prop}
    (h : Reads (Grammar.arithmetic r 0) (v :: vs) (w :: us) Q) (hend : w.kind.attach < 5) :
    Reads (Grammar.comparison r) (v :: vs) (w :: us) Q := by
  refine Reads.peek.bind fun first _ => h.bind fun e he => ?_
  have hnone : Collects (compareRound r) (w :: us) (w :: us) (· = []) := .nil rfl
  refine (Reads.collect hnone (reads_compareRound_end hend)).bind fun rest hrest => ?_
  obtain ⟨xs, rfl, rfl⟩ := hrest
  exact .pure he

theorem Scans.comparison {ws : List Lexeme} {d : Document} (h : Scans (.arithmetic 0) ws d)
    (hopens : Opens 6 ws) : Scans .comparison ws d := by
  intro field n w us hn hend
  obtain ⟨v, vs, rfl, -⟩ := hopens
  exact reads_comparison (h field n w us hn (Nat.lt_trans hend (by decide))) hend

/-! ## Boolean operators and conditional expressions -/

theorem reads_inversion {r : Rules} {v w : Lexeme} {vs us : List Lexeme} {Q : Expr → Prop}
    (h : Reads (Grammar.comparison r) (v :: vs) (w :: us) Q) (hv : v.kind.opens 5 = true) :
    Reads (Grammar.inversion r) (v :: vs) (w :: us) Q := by
  have hnot : v.kind ≠ .kwNot := by
    intro hk
    simp [hk, Token.Kind.opens] at hv
  exact (Reads.at? (decide_eq_false hnot)).seq h

theorem Scans.inversion {ws : List Lexeme} {d : Document} (h : Scans .comparison ws d)
    (hopens : Opens 5 ws) : Scans .inversion ws d := by
  intro field n w us hn hend
  obtain ⟨v, vs, rfl, hv⟩ := hopens
  exact reads_inversion (h field n w us hn (Nat.lt_trans hend (by decide))) hv

/-- An operand without the operator behind it. -/
theorem reads_boolean_end {op : BoolOp} {word : Token.Kind} {operand : Parser Expr} {v w : Lexeme}
    {vs us : List Lexeme} {Q : Expr → Prop} (h : Reads operand (v :: vs) (w :: us) Q)
    (hword : w.kind ≠ word) : Reads (boolean op word operand) (v :: vs) (w :: us) Q :=
  Reads.peek.bind fun _ _ => h.bind fun _ he =>
    (Reads.at? (decide_eq_false hword)).seq (.pure he)

theorem Scans.conjunction {ws : List Lexeme} {d : Document} (h : Scans .inversion ws d)
    {rank : Nat} (hopens : Opens rank ws) : Scans .conjunction ws d := by
  intro field n w us hn hend
  have hword : w.kind ≠ .kwAnd := by
    intro hk
    simp [hk, Token.Kind.attach, Level.rank] at hend
  obtain ⟨v, vs, rfl, -⟩ := hopens
  exact reads_boolean_end (h field n w us hn (Nat.lt_trans hend (by decide))) hword

theorem Scans.disjunction {ws : List Lexeme} {d : Document} (h : Scans .conjunction ws d)
    {rank : Nat} (hopens : Opens rank ws) : Scans .disjunction ws d := by
  intro field n w us hn hend
  have hword : w.kind ≠ .kwOr := by
    intro hk
    simp [hk, Token.Kind.attach, Level.rank] at hend
  obtain ⟨v, vs, rfl, -⟩ := hopens
  exact reads_boolean_end (h field n w us hn (Nat.lt_trans hend (by decide))) hword

theorem not_kwLambda_of_opens {rank : Nat} {first : Token} {v : Lexeme} (hfirst : first.toLexeme = v)
    (hv : v.kind.opens rank = true) : first.kind ≠ .kwLambda := by
  intro hk
  rw [← hfirst] at hv
  simp [Token.toLexeme, hk, Token.Kind.opens] at hv

theorem reads_expression {r : Rules} {v w : Lexeme} {vs us : List Lexeme} {Q : Expr → Prop}
    (h : Reads (Grammar.disjunction r) (v :: vs) (w :: us) Q) {rank : Nat}
    (hv : v.kind.opens rank = true) (hend : w.kind.attach < 1) :
    Reads (Grammar.expression r) (v :: vs) (w :: us) Q := by
  have hif : w.kind ≠ .kwIf := by
    intro hk
    simp [hk, Token.Kind.attach] at hend
  refine Reads.peek.bind fun first hfirst => Reads.isAborted.seq ?_
  rw [if_neg (by decide), if_neg (not_kwLambda_of_opens hfirst hv)]
  exact h.bind fun e he => (Reads.eat_not hif).seq (.pure he)

theorem Scans.expression {ws : List Lexeme} {d : Document} (h : Scans .disjunction ws d)
    {rank : Nat} (hopens : Opens rank ws) : Scans .expression ws d := by
  intro field n w us hn hend
  obtain ⟨v, vs, rfl, hv⟩ := hopens
  exact reads_expression (h field n w us hn (Nat.lt_trans hend (by decide))) hv hend

/-- An atom that nothing goes on with is an expression. -/
theorem reads_expression_atom {r : Rules} {v w : Lexeme} {vs us : List Lexeme} {Q : Expr → Prop}
    (h : Reads (atom r) (v :: vs) (w :: us) Q) (hv : ∀ rank ≤ 90, v.kind.opens rank = true)
    (hend : w.kind.attach = 0) : Reads (Grammar.expression r) (v :: vs) (w :: us) Q := by
  have hprimary : Reads (primary r) (v :: vs) (w :: us) Q :=
    reads_primary (fun _ => ⟨w :: us, Q, h, .refl fun _ => id⟩) (by omega)
  have hfactor : Reads (Grammar.factor r) (v :: vs) (w :: us) Q :=
    reads_factor (reads_power hprimary (hv 80 (by decide)) (by omega)) (hv 80 (by decide))
  have hsum : Reads (Grammar.arithmetic r 0) (v :: vs) (w :: us) Q :=
    reads_arithmetic (fun _ => ⟨w :: us, Q, hfactor, .refl fun _ => id⟩) (by omega)
  have hword {k : Token.Kind} (hk : 0 < k.attach) : w.kind ≠ k := by
    rintro rfl
    omega
  have hinversion : Reads (Grammar.inversion r) (v :: vs) (w :: us) Q :=
    reads_inversion (reads_comparison hsum (by omega)) (hv 5 (by decide))
  have hdisjunction : Reads (Grammar.disjunction r) (v :: vs) (w :: us) Q :=
    reads_boolean_end (reads_boolean_end hinversion (hword (by decide))) (hword (by decide))
  exact reads_expression hdisjunction (hv 5 (by decide)) (by omega)

/-! ## Tokens that can be read at all levels up to a rank -/

/-- All levels up to the rank read the tokens as an expression with the given document. -/
structure Legible (rank : Nat) (ws : List Lexeme) (d : Document) : Prop where
  opens : Opens rank ws
  plain : ∀ w ∈ ws, w.kind ≠ .walrus ∧ w.kind ≠ .assign
  scans (lv : Level) (h : lv.rank ≤ rank) : Scans lv ws d
  sums (floor : Nat) (h : (Level.arithmetic floor).rank ≤ rank) : Sums floor rank ws d
  trails (h : 90 ≤ rank) : Trails ws d

theorem Opens.mono {rank rank' : Nat} {ws : List Lexeme} (h : Opens rank ws) (hle : rank' ≤ rank) :
    Opens rank' ws := by
  obtain ⟨w, vs, rfl, hw⟩ := h
  refine ⟨w, vs, rfl, ?_⟩
  revert hw
  unfold Token.Kind.opens
  split <;> simp only [decide_eq_true_eq, imp_self] <;> omega

namespace Legible

variable {rank rank' : Nat} {ws : List Lexeme} {d : Document}

theorem mono (h : Legible rank ws d) (hle : rank' ≤ rank) : Legible rank' ws d where
  opens := h.opens.mono hle
  plain := h.plain
  scans lv hlv := h.scans lv (by omega)
  sums floor hfloor field n w us first hn hend hw :=
    h.sums floor (by omega) field n w us first hn hend (by omega)
  trails hninety := h.trails (by omega)

/-- What further levels read is legible up to a higher rank. -/
theorem raise (h : Legible rank ws d) (hopens : Opens rank' ws)
    (hscans : ∀ lv : Level, rank < lv.rank → lv.rank ≤ rank' → Scans lv ws d)
    (hsums : ∀ floor, (Level.arithmetic floor).rank ≤ rank' → Sums floor rank' ws d)
    (htrails : 90 ≤ rank' → Trails ws d) : Legible rank' ws d where
  opens := hopens
  plain := h.plain
  scans lv hlv := by
    by_cases hlow : lv.rank ≤ rank
    · exact h.scans lv hlow
    · exact hscans lv (by omega) hlv
  sums := hsums
  trails := htrails

section

variable (hplain : ∀ w ∈ ws, w.kind ≠ .walrus ∧ w.kind ≠ .assign)

include hplain

theorem of_expression (h : Scans .expression ws d) (hopens : Opens 1 ws) : Legible 1 ws d where
  opens := hopens
  plain := hplain
  scans lv hlv := by
    cases lv with
    | expression => exact h
    | _ => simp only [Level.rank] at hlv; omega
  sums floor hfloor := by simp only [Level.rank] at hfloor; omega
  trails hninety := by omega

theorem of_disjunction (h : Scans .disjunction ws d) (hopens : Opens 2 ws) : Legible 2 ws d := by
  refine (of_expression hplain (h.expression hopens) (hopens.mono (by decide))).raise hopens
    (fun lv hlow hlv => ?_) (fun floor hfloor => ?_) (by omega)
  · cases lv with
    | disjunction => exact h
    | _ => simp only [Level.rank] at hlow hlv; omega
  · simp only [Level.rank] at hfloor; omega

theorem of_conjunction (h : Scans .conjunction ws d) (hopens : Opens 3 ws) : Legible 3 ws d := by
  refine (of_disjunction hplain (h.disjunction hopens) (hopens.mono (by decide))).raise hopens
    (fun lv hlow hlv => ?_) (fun floor hfloor => ?_) (by omega)
  · cases lv with
    | conjunction => exact h
    | _ => simp only [Level.rank] at hlow hlv; omega
  · simp only [Level.rank] at hfloor; omega

theorem of_inversion (h : Scans .inversion ws d) (hopens : Opens 4 ws) : Legible 4 ws d := by
  refine (of_conjunction hplain (h.conjunction hopens) (hopens.mono (by decide))).raise hopens
    (fun lv hlow hlv => ?_) (fun floor hfloor => ?_) (by omega)
  · cases lv with
    | inversion => exact h
    | _ => simp only [Level.rank] at hlow hlv; omega
  · simp only [Level.rank] at hfloor; omega

theorem of_comparison (h : Scans .comparison ws d) (hopens : Opens 5 ws) : Legible 5 ws d := by
  refine (of_inversion hplain (h.inversion hopens) (hopens.mono (by decide))).raise hopens
    (fun lv hlow hlv => ?_) (fun floor hfloor => ?_) (by omega)
  · cases lv with
    | comparison => exact h
    | _ => simp only [Level.rank] at hlow hlv; omega
  · simp only [Level.rank] at hfloor; omega

theorem of_sums {rank : Nat} (hsix : 6 ≤ rank) (hlt : rank < 70)
    (h : ∀ floor, (Level.arithmetic floor).rank ≤ rank → Sums floor rank ws d)
    (hopens : Opens rank ws) : Legible rank ws d := by
  have harithmetic (floor : Nat) (hfloor : (Level.arithmetic floor).rank ≤ rank) :
      Scans (.arithmetic floor) ws d :=
    (h floor hfloor).arithmetic (by omega) (hopens.mono hsix)
  have hzero : Scans (.arithmetic 0) ws d := harithmetic 0 (by simpa [Level.rank] using hsix)
  refine (of_comparison hplain (hzero.comparison (hopens.mono hsix)) (hopens.mono (by omega))).raise
    hopens (fun lv hlow hlv => ?_) h (by omega)
  cases lv with
  | arithmetic floor => exact harithmetic floor hlv
  | _ => simp only [Level.rank] at hlow hlv; omega

theorem of_factor (h : Scans .factor ws d) (hopens : Opens 70 ws) : Legible 70 ws d := by
  have hsums := of_sums hplain (by decide) (by decide)
    (fun floor _ => h.sums floor 69) (hopens.mono (by decide))
  refine hsums.raise hopens (fun lv hlow hlv => ?_) (fun floor _ => h.sums floor 70) (by omega)
  cases lv with
  | factor => exact h
  | arithmetic floor =>
    refine (h.sums floor 70).arithmetic ?_ (hopens.mono (by decide))
    omega
  | _ => simp only [Level.rank] at hlow hlv; omega

theorem of_power (h : Scans .power ws d) (hopens : Opens 80 ws) : Legible 80 ws d := by
  have hfactor := h.factor hopens
  refine (of_factor hplain hfactor (hopens.mono (by decide))).raise hopens
    (fun lv hlow hlv => ?_) (fun floor _ => hfactor.sums floor 80) (by omega)
  cases lv with
  | power => exact h
  | _ => simp only [Level.rank] at hlow hlv; omega

theorem of_trails (h : Trails ws d) (hopens : Opens 90 ws) : Legible 90 ws d := by
  have hprimary := h.primary hopens
  have hpower := hprimary.power hopens
  have hfactor := hpower.factor (hopens.mono (by decide))
  refine (of_power hplain hpower (hopens.mono (by decide))).raise hopens
    (fun lv hlow hlv => ?_) (fun floor _ => hfactor.sums floor 90) (fun _ => h)
  cases lv with
  | primary => exact hprimary
  | _ => simp only [Level.rank] at hlow hlv; omega

end

end Legible

end Grammar

end CloneScout
