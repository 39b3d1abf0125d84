import CloneScout.Proofs.Token.Brackets

/-!
# Indentations of a source text

Each indentation that is open was entered with a token or with a report of a column that no open
indentation has, and each that is closed leaves a token. At the end of the text all but the outermost
one are closed, so the tokens that close indentations are as many as those that open one and those
reports together. Between a bracket and the one that closes it no line begins or ends.
-/

namespace CloneScout.Token

open Ledger (Entries)

/-! ## Indentations of a ledger -/

/-- The indentations that were opened or reported are those that were closed and those that are
open, but for the outermost one. -/
structure Ledger.Level (l : Ledger) : Prop where
  outermost : 0 ∈ l.indents
  paid : l.kinds.count .dedent + l.indents.length =
    l.kinds.count .indent + l.codes.count .inconsistentDedent + 1
  before : ∀ front, front <+: l.kinds →
    front.count .dedent ≤ front.count .indent + l.codes.count .inconsistentDedent

namespace Ledger.Level

variable {l l' : Ledger}

/-- A token is entered behind the others. -/
theorem enter (h : l.Level) {k : Kind} (hkinds : l'.kinds = l.kinds ++ [k])
    (hcodes : l'.codes.count .inconsistentDedent = l.codes.count .inconsistentDedent)
    (houtermost : 0 ∈ l'.indents)
    (hpaid : (l.kinds ++ [k]).count .dedent + l'.indents.length =
      (l.kinds ++ [k]).count .indent + l.codes.count .inconsistentDedent + 1) : l'.Level := by
  have hpositive := List.length_pos_of_mem houtermost
  refine ⟨houtermost, by rw [hkinds, hcodes, hpaid], fun front hfront => ?_⟩
  rw [hkinds] at hfront
  rw [hcodes]
  rcases List.prefix_concat_iff.mp hfront with rfl | hfront
  · omega
  · exact h.before front hfront

/-- A token that neither opens nor closes an indentation. -/
theorem enter_other (h : l.Level) {k : Kind} (hindent : k ≠ .indent) (hdedent : k ≠ .dedent)
    (hkinds : l'.kinds = l.kinds ++ [k]) (hindents : l'.indents = l.indents)
    (hcodes : l'.codes.count .inconsistentDedent = l.codes.count .inconsistentDedent) :
    l'.Level := by
  refine h.enter hkinds hcodes (hindents ▸ h.outermost) ?_
  rw [hindents]
  have hcount : (l.kinds ++ [k]).count .dedent = l.kinds.count .dedent ∧
      (l.kinds ++ [k]).count .indent = l.kinds.count .indent := by
    simp [List.count_append, hindent, hdedent]
  have hpaid := h.paid
  omega

theorem entry (h : l.Level) (hentry : l.Entry l') : l'.Level := by
  have hpaid := h.paid
  have hnote {c : Diagnostic.Code} (hc : c ≠ .inconsistentDedent) :
      (l.codes ++ [c]).count .inconsistentDedent = l.codes.count .inconsistentDedent := by
    simp [List.count_append, hc]
  have hne {k : Kind} (hk : k.isLayout = false) : k ≠ .indent ∧ k ≠ .dedent :=
    ⟨fun heq => Bool.false_ne_true (hk.symm.trans (heq ▸ rfl)),
      fun heq => Bool.false_ne_true (hk.symm.trans (heq ▸ rfl))⟩
  cases hentry with
  | token plain => exact h.enter_other (hne plain.1).1 (hne plain.1).2 rfl rfl rfl
  | fault other =>
    have hsame : (l.note _).codes.count .inconsistentDedent = _ := hnote other.2
    exact ⟨h.outermost, by rw [hsame]; exact hpaid, by rw [hsame]; exact h.before⟩
  | opening opens =>
    have hk := (Kind.opening?_of_isOpening opens).2.2
    exact h.enter_other (hne hk).1 (hne hk).2 rfl rfl rfl
  | closing closes innermost =>
    have hk := (Kind.isClosing_of_opening? closes).2.2
    exact h.enter_other (hne hk).1 (hne hk).2 rfl rfl rfl
  | unmatched closes other =>
    have hk := (Kind.isClosing_of_opening? closes).2.2
    exact h.enter_other (hne hk).1 (hne hk).2 rfl rfl (hnote (by decide))
  | newline outside => exact h.enter_other (by decide) (by decide) rfl rfl rfl
  | @indent col outside deeper =>
    refine h.enter rfl rfl (List.mem_cons_of_mem _ h.outermost) ?_
    show (l.kinds ++ [Kind.indent]).count .dedent + (col :: l.indents).length = _
    rw [List.count_append, List.count_append, List.length_cons,
      show [Kind.indent].count .dedent = 0 from rfl, show [Kind.indent].count .indent = 1 from rfl]
    omega
  | @dedent top below outside innermost positive =>
    -- the outermost indentation is not closed: its column is 0
    have houtermost : 0 ∈ below := by
      have hmem := h.outermost
      rw [innermost] at hmem
      exact (List.mem_cons.mp hmem).resolve_left (by omega)
    rw [innermost, List.length_cons] at hpaid
    refine h.enter rfl rfl houtermost ?_
    show (l.kinds ++ [Kind.dedent]).count .dedent + below.length = _
    rw [List.count_append, List.count_append,
      show [Kind.dedent].count .dedent = 1 from rfl, show [Kind.dedent].count .indent = 0 from rfl]
    omega
  | @misfit col outside =>
    have hmore : (l.codes ++ [Diagnostic.Code.inconsistentDedent]).count .inconsistentDedent =
        l.codes.count .inconsistentDedent + 1 := by simp [List.count_append]
    refine ⟨List.mem_cons_of_mem _ h.outermost, ?_, fun front hfront => ?_⟩
    · show l.kinds.count .dedent + (col :: l.indents).length =
        l.kinds.count .indent + (l.codes ++ [Diagnostic.Code.inconsistentDedent]).count .inconsistentDedent + 1
      rw [List.length_cons]
      omega
    · show front.count .dedent ≤
        front.count .indent + (l.codes ++ [Diagnostic.Code.inconsistentDedent]).count .inconsistentDedent
      have hbefore := h.before front hfront
      omega

theorem entries (h : l.Level) (hentries : l.Entries l') : l'.Level :=
  hentries.preserves (fun _ _ h hentry => h.entry hentry) h

theorem start : Ledger.Level ⟨[], [], [0], []⟩ := by
  refine ⟨List.mem_singleton_self 0, rfl, fun front hfront => ?_⟩
  rw [List.prefix_nil.mp hfront]
  exact Nat.le_refl _

end Ledger.Level

/-- The tokens that close indentations are as many as those that open one and the reports of columns
that no open indentation has. In front of no token are there more of the former. -/
theorem dedents_lex {source : Text} (h : Utf8.isValid source = true) :
    (kinds source).count .dedent =
      (kinds source).count .indent + (codes source).count .inconsistentDedent ∧
    ∀ front, front <+: kinds source →
      front.count .dedent ≤ front.count .indent + (codes source).count .inconsistentDedent := by
  obtain ⟨l, last, hentries, hlast, hkinds, hcodes⟩ := exists_entries h
  have hlevel := Ledger.Level.start.entries hentries
  have hpaid := hlevel.paid
  have hpositive := List.length_pos_of_mem hlevel.outermost
  have hreports : (codes source).count .inconsistentDedent = l.codes.count .inconsistentDedent := by
    rw [hcodes, List.count_append, List.count_replicate, if_neg (by decide), Nat.add_zero]
  have hlasts : last.count .dedent = 0 ∧ last.count .indent = 0 := by
    rcases hlast with rfl | rfl <;> exact ⟨rfl, rfl⟩
  -- the indentations that are open at the end are closed there
  obtain ⟨closed, hsplit, hclosed⟩ : ∃ closed, kinds source = l.kinds ++ closed ∧
      closed.count .dedent = l.indents.length - 1 ∧ closed.count .indent = 0 := by
    refine ⟨last ++ List.replicate (l.indents.length - 1) .dedent ++ [.eof], by simp [hkinds], ?_⟩
    simp [List.count_append, List.count_replicate, hlasts]
  rw [hreports, hsplit, List.count_append, List.count_append, hclosed.1, hclosed.2]
  refine ⟨by omega, fun front hfront => ?_⟩
  rcases List.prefix_or_prefix_of_prefix hfront (List.prefix_append l.kinds closed) with hl | hl
  · exact hlevel.before front hl
  · obtain ⟨behind, rfl⟩ := hl
    have hle := ((List.prefix_append_right_inj l.kinds).mp hfront).sublist.count_le .dedent
    rw [List.count_append, List.count_append]
    omega

/-! ## Between brackets -/

/-- The bracket `o` is closed by the token `c`, with the tokens `inner` between the two: behind
none of these is it closed. -/
structure Matches (o : Kind) (inner : List Kind) (c : Kind) : Prop where
  opens : o.isOpening = true
  stays : ∀ n ≤ inner.length, openFrom [o] (inner.take n) ≠ []
  closes : openFrom [o] (inner ++ [c]) = []

section

variable {o c : Kind} {inner : List Kind}

/-- What is open below the innermost bracket stays open. -/
theorem openBehind_append {stack : List Kind} (h : stack ≠ []) (k : Kind) (below : List Kind) :
    openBehind (stack ++ below) k = openBehind stack k ++ below := by
  obtain ⟨top, stack, rfl⟩ := List.exists_cons_of_ne_nil h
  unfold openBehind
  rw [List.cons_append, List.head?_cons, List.head?_cons, List.tail_cons, List.tail_cons]
  split
  · rfl
  · split <;> rfl

/-- As long as a bracket is open, so is what was open in front of it. -/
theorem Matches.openFrom_take (h : Matches o inner c) (below : List Kind) {n : Nat}
    (hn : n ≤ inner.length) :
    openFrom (o :: below) (inner.take n) = openFrom [o] (inner.take n) ++ below := by
  induction n with
  | zero => rfl
  | succ n ih =>
    rw [List.take_add_one, List.getElem?_eq_getElem hn, Option.toList_some, openFrom_concat,
      openFrom_concat, ih (Nat.le_of_succ_le hn),
      openBehind_append (h.stays n (Nat.le_of_succ_le hn))]

theorem Matches.isLayout_eq_false (h : Matches o inner c) : c.isLayout = false := by
  by_contra hlayout
  rw [Bool.not_eq_false] at hlayout
  have hopen := h.closes
  rw [openFrom_concat, openBehind_of_not_isBracket (Kind.isBracket_of_isLayout hlayout)] at hopen
  refine h.stays inner.length (Nat.le_refl _) ?_
  rw [List.take_length]
  exact hopen

/-- Brackets that close nothing in front of the tokens leave what is open below as it is. -/
theorem openFrom_of_closedBy {stack stack' ks : List Kind} (h : closedBy stack ks = some stack')
    (below : List Kind) : openFrom (stack ++ below) ks = stack' ++ below := by
  induction ks generalizing stack with
  | nil =>
    obtain rfl := Option.some.inj h
    rfl
  | cons k ks ih =>
    rw [closedBy] at h
    split at h
    · cases h
    · next hhits =>
      have hbehind : openBehind (stack ++ below) k = openBehind stack k ++ below := by
        rcases bracket_cases stack k with hother | hopening | ⟨o, rest, hcloses, rfl⟩ | hmisses
        · rw [openBehind_of_not_isBracket hother, openBehind_of_not_isBracket hother]
        · rw [openBehind_of_isOpening hopening, openBehind_of_isOpening hopening, List.cons_append]
        · rw [List.cons_append, openBehind_of_closes hcloses, openBehind_of_closes hcloses]
        · exact absurd hmisses hhits
      show openFrom (openBehind (stack ++ below) k) ks = _
      rw [hbehind, ih h]

/-- A bracket is closed by its counterpart behind well nested brackets. -/
theorem matches_of_nested (ho : o.isOpening = true) (hc : c.opening? = some o)
    (h : Nested (inner.filter Kind.isBracket)) : Matches o inner c := by
  have hclosed := h.closedBy []
  rw [closedBy_filter] at hclosed
  refine ⟨ho, fun n _ => ?_, ?_⟩
  · -- the tokens in front of the counterpart close no bracket but those that they open
    have hsplit := hclosed
    rw [← List.take_append_drop n inner, closedBy_append, Option.bind_eq_some_iff] at hsplit
    obtain ⟨stack, hstack, -⟩ := hsplit
    rw [← List.nil_append [o], openFrom_of_closedBy hstack [o]]
    exact List.append_ne_nil_of_right_ne_nil _ (List.cons_ne_nil o [])
  · rw [openFrom_concat, ← List.nil_append [o], openFrom_of_closedBy hclosed [o], List.nil_append,
      openBehind_of_closes hc]

end

/-- No line begins or ends between a bracket and the one that closes it. -/
theorem isLayout_eq_false_of_matches {source : Text} (h : Utf8.isValid source = true)
    {front inner behind : List Kind} {o c : Kind}
    (hkinds : kinds source = front ++ o :: (inner ++ c :: behind)) (hmatch : Matches o inner c) :
    ∀ k ∈ inner, k.isLayout = false := by
  obtain ⟨l, last, htracked, hlast, hl, -⟩ := exists_tracked h
  intro k hk
  by_contra hlayout
  rw [Bool.not_eq_false] at hlayout
  obtain ⟨before, after, rfl⟩ := List.append_of_mem hk
  have hsplit : l.kinds ++ last = (front ++ o :: before) ++ k :: (after ++ c :: behind) := by
    rw [← hl, hkinds]
    simp
  rcases List.append_eq_append_iff.mp hsplit with ⟨mid, hmid, hend⟩ | ⟨mid, hmid, hend⟩
  · -- what is put out at the end of the text contains no bracket
    have hc : c ∈ last := by rw [hend]; simp
    exact absurd (hmatch.isLayout_eq_false.symm.trans (hlast c hc)) Bool.false_ne_true
  · cases mid with
    | nil =>
      have hc : c ∈ last := by rw [← List.nil_append last, ← hend]; simp
      exact absurd (hmatch.isLayout_eq_false.symm.trans (hlast c hc)) Bool.false_ne_true
    | cons k' mid =>
      -- a bracket is open in front of the token
      obtain ⟨rfl, -⟩ := List.cons.inj hend
      have hnone := htracked.outside _ k mid hmid hlayout
      have hopen := hmatch.openFrom_take (openFrom [] front) (n := before.length) (by simp)
      rw [List.take_left] at hopen
      rw [openFrom_append, show openFrom (openFrom [] front) (o :: before) =
        openFrom (openBehind (openFrom [] front) o) before from rfl,
        openBehind_of_isOpening hmatch.opens, hopen] at hnone
      have hstays := hmatch.stays before.length (by simp)
      rw [List.take_left] at hstays
      exact hstays (List.append_eq_nil_iff.mp hnone).1

/-- The tokens that close indentations are as many as those that open one and the reports of columns
that no open indentation has; without such a report they are balanced. No line or indentation begins
or ends between a bracket and the one that closes it. -/
theorem indentation_lex {source : Text} (h : Utf8.isValid source = true) :
    (kinds source).count .dedent =
        (kinds source).count .indent + (codes source).count .inconsistentDedent ∧
      (.inconsistentDedent ∉ codes source →
        (kinds source).count .dedent = (kinds source).count .indent ∧
          ∀ front, front <+: kinds source → front.count .dedent ≤ front.count .indent) ∧
      ∀ front inner behind o c, kinds source = front ++ o :: (inner ++ c :: behind) →
        Matches o inner c → .newline ∉ inner ∧ .indent ∉ inner ∧ .dedent ∉ inner := by
  obtain ⟨htotal, hfront⟩ := dedents_lex h
  refine ⟨htotal, fun hnone => ?_, fun front inner behind o c hkinds hmatch => ?_⟩
  · have hzero := List.count_eq_zero_of_not_mem hnone
    rw [hzero] at htotal hfront
    exact ⟨htotal, hfront⟩
  · have hinner := isLayout_eq_false_of_matches h hkinds hmatch
    have hnot {k : Kind} (hlayout : k.isLayout = true) : k ∉ inner := fun hk =>
      Bool.false_ne_true ((hinner k hk).symm.trans hlayout)
    exact ⟨hnot rfl, hnot rfl, hnot rfl⟩

/-- A line that goes on in brackets, with a column in front of the last line that no open indentation
has, and without such a line. -/
theorem indentation_lex_bracketed :
    ((kinds (utf8 "if a:\n  f(\n b)\n c\n")).count .dedent = 2 ∧
      (kinds (utf8 "if a:\n  f(\n b)\n c\n")).count .indent = 1 ∧
      (codes (utf8 "if a:\n  f(\n b)\n c\n")).count .inconsistentDedent = 1 ∧
      Kind.newline ∉ [Kind.ident]) ∧
    (kinds (utf8 "if a:\n  f(\n b)\n")).count .dedent =
      (kinds (utf8 "if a:\n  f(\n b)\n")).count .indent := by
  have hvalid : Utf8.isValid (utf8 "if a:\n  f(\n b)\n c\n") = true := by decide +kernel
  have hvalid' : Utf8.isValid (utf8 "if a:\n  f(\n b)\n") = true := by decide +kernel
  obtain ⟨htotal, -, hinner⟩ := indentation_lex hvalid
  obtain ⟨-, hbalanced, -⟩ := indentation_lex hvalid'
  have hindent : (kinds (utf8 "if a:\n  f(\n b)\n c\n")).count .indent = 1 := by decide +kernel
  have hreport : (codes (utf8 "if a:\n  f(\n b)\n c\n")).count .inconsistentDedent = 1 := by
    decide +kernel
  have hmatch : Matches .lparen [.ident] .rparen := matches_of_nested rfl rfl .nil
  rw [hindent, hreport] at htotal
  refine ⟨⟨htotal, hindent, hreport, ?_⟩, (hbalanced (by decide +kernel)).1⟩
  exact (hinner [.kwIf, .ident, .colon, .newline, .indent, .ident] [.ident]
    [.newline, .dedent, .ident, .newline, .dedent, .eof] .lparen .rparen (by decide +kernel) hmatch).1

end CloneScout.Token
