import CloneScout.Proofs.Token.Ledger

/-!
# Brackets of a source text

A closing bracket closes the innermost open bracket if it is its counterpart, and is reported
otherwise; brackets that are open at the end of the text are reported too. So there are as many
reports as closing brackets that fit nothing and brackets that stay open, and there is none exactly
if the brackets are well nested.
-/

namespace CloneScout.Token

open Ledger (Entries)

/-! ## Open brackets -/

/-- The brackets that are open behind a token, the innermost first. A closing bracket closes the
innermost one if it is its counterpart, and else nothing. -/
def openBehind (stack : List Kind) (k : Kind) : List Kind :=
  if k.isOpening then k :: stack
  else if k.isClosing && k.opening? = stack.head? then stack.tail
  else stack

/-- The brackets that are open behind tokens, with those of `stack` open in front of them. -/
def openFrom (stack : List Kind) (ks : List Kind) : List Kind := ks.foldl openBehind stack

/-- The token is a closing bracket that is not the counterpart of the innermost open bracket. -/
def Misses (stack : List Kind) (k : Kind) : Prop := k.isClosing = true ∧ k.opening? ≠ stack.head?

instance (stack : List Kind) (k : Kind) : Decidable (Misses stack k) :=
  inferInstanceAs (Decidable (k.isClosing = true ∧ k.opening? ≠ stack.head?))

/-- How many closing brackets are not the counterpart of the innermost bracket that is open in front
of them. -/
def misses (ks : List Kind) : Nat :=
  (List.range ks.length).countP fun i => (ks[i]?).any fun k => Misses (openFrom [] (ks.take i)) k

/-- Brackets that are well nested: each opening one is followed by its counterpart, with well nested
brackets between the two. -/
inductive Nested : List Kind → Prop where
  | nil : Nested []
  | pair {o c : Kind} {inner behind : List Kind} (opens : o.isOpening = true)
      (closes : c.opening? = some o) (hinner : Nested inner) (hbehind : Nested behind) :
      Nested (o :: (inner ++ c :: behind))

section

variable {k o c : Kind} {stack ks : List Kind}

theorem openBehind_of_isOpening (h : k.isOpening = true) : openBehind stack k = k :: stack :=
  if_pos h

theorem openBehind_of_not_isBracket (h : k.isBracket = false) : openBehind stack k = stack := by
  unfold Kind.isBracket at h
  rw [Bool.or_eq_false_iff] at h
  simp [openBehind, h.1, h.2]

theorem openBehind_of_closes (h : c.opening? = some o) : openBehind (o :: stack) c = stack := by
  obtain ⟨hclosing, hopening, -⟩ := Kind.isClosing_of_opening? h
  simp [openBehind, hclosing, hopening, h]

theorem openBehind_of_misses (h : Misses stack k) : openBehind stack k = stack := by
  obtain ⟨o, ho⟩ := Kind.opening?_of_isClosing h.1
  obtain ⟨-, hopening, -⟩ := Kind.isClosing_of_opening? ho
  simp [openBehind, hopening, h.2]

theorem not_misses_of_closes (h : c.opening? = some o) : ¬ Misses (o :: stack) c :=
  fun hmisses => hmisses.2 (by rw [h, List.head?_cons])

theorem not_misses_of_isOpening (h : k.isOpening = true) : ¬ Misses stack k := fun hmisses => by
  have hclosing := (Kind.opening?_of_isOpening h).2.1
  exact Bool.false_ne_true (hclosing.symm.trans hmisses.1)

theorem not_misses_of_not_isBracket (h : k.isBracket = false) : ¬ Misses stack k := fun hmisses => by
  unfold Kind.isBracket at h
  rw [Bool.or_eq_false_iff] at h
  exact Bool.false_ne_true (h.2.symm.trans hmisses.1)

/-- A token is no bracket, opens a bracket, closes the innermost one or misses it. -/
theorem bracket_cases (stack : List Kind) (k : Kind) :
    k.isBracket = false ∨ k.isOpening = true ∨
      (∃ o below, k.opening? = some o ∧ stack = o :: below) ∨ Misses stack k := by
  by_cases hopening : k.isOpening = true
  · exact .inr (.inl hopening)
  by_cases hclosing : k.isClosing = true
  · obtain ⟨o, ho⟩ := Kind.opening?_of_isClosing hclosing
    cases stack with
    | nil => exact .inr (.inr (.inr ⟨hclosing, by simp [ho]⟩))
    | cons top below =>
      by_cases hmatch : o = top
      · exact .inr (.inr (.inl ⟨o, below, ho, by rw [hmatch]⟩))
      · exact .inr (.inr (.inr ⟨hclosing, by simpa [ho] using hmatch⟩))
  · exact .inl (by simp [Kind.isBracket, hopening, hclosing])

theorem openFrom_append (stack ks ls : List Kind) :
    openFrom stack (ks ++ ls) = openFrom (openFrom stack ks) ls :=
  List.foldl_append

theorem openFrom_concat (stack ks : List Kind) (k : Kind) :
    openFrom stack (ks ++ [k]) = openBehind (openFrom stack ks) k :=
  openFrom_append stack ks [k]

theorem misses_concat (ks : List Kind) (k : Kind) :
    misses (ks ++ [k]) = misses ks + if Misses (openFrom [] ks) k then 1 else 0 := by
  have hbefore : ∀ i ∈ List.range ks.length,
      (((ks ++ [k])[i]?).any fun k' => decide (Misses (openFrom [] ((ks ++ [k]).take i)) k')) =
        ((ks[i]?).any fun k' => decide (Misses (openFrom [] (ks.take i)) k')) := by
    intro i hi
    have hlt := List.mem_range.mp hi
    rw [List.getElem?_append_left hlt, List.take_append_of_le_length (Nat.le_of_lt hlt)]
  have hlast : (ks ++ [k])[ks.length]? = some k := List.getElem?_concat_length
  have htake : (ks ++ [k]).take ks.length = ks := List.take_left
  unfold misses
  rw [List.length_append, List.length_singleton, List.range_succ, List.countP_append,
    List.countP_congr fun i hi => by rw [hbefore i hi], List.countP_singleton, hlast, htake]
  simp

/-! ### Well nested brackets -/

/-- The open brackets behind tokens, if each closing bracket closes the innermost one. -/
def closedBy : List Kind → List Kind → Option (List Kind)
  | stack, [] => some stack
  | stack, k :: ks => if Misses stack k then none else closedBy (openBehind stack k) ks

theorem closedBy_append (stack ks ls : List Kind) :
    closedBy stack (ks ++ ls) = (closedBy stack ks).bind fun stack => closedBy stack ls := by
  induction ks generalizing stack with
  | nil => rfl
  | cons k ks ih =>
    rw [List.cons_append, closedBy, closedBy]
    split
    · rfl
    · exact ih _

/-- No closing bracket misses exactly if each closes the innermost bracket. -/
theorem closedBy_eq_some_iff (ks stack' : List Kind) :
    closedBy [] ks = some stack' ↔ misses ks = 0 ∧ openFrom [] ks = stack' := by
  -- A closing bracket is held against what is open in front of it, so the last one is taken off.
  induction ks using List.reverseRecOn generalizing stack' with
  | nil => simp [closedBy, misses, openFrom]
  | append_singleton ks k ih =>
    have hlast (stack : List Kind) : closedBy stack [k] =
        if Misses stack k then none else some (openBehind stack k) := rfl
    rw [closedBy_append, misses_concat, openFrom_concat, Option.bind_eq_some_iff]
    constructor
    · rintro ⟨stack, hstack, hk⟩
      obtain ⟨hnone, rfl⟩ := (ih stack).mp hstack
      rw [hlast] at hk
      split at hk
      · cases hk
      · next hhits =>
        rw [if_neg hhits]
        exact ⟨hnone, Option.some.inj hk⟩
    · rintro ⟨hnone, rfl⟩
      have hhits : ¬ Misses (openFrom [] ks) k := fun hmisses => by
        rw [if_pos hmisses] at hnone
        omega
      rw [if_neg hhits] at hnone
      refine ⟨_, (ih _).mpr ⟨hnone, rfl⟩, ?_⟩
      rw [hlast, if_neg hhits]

theorem closedBy_filter (stack ks : List Kind) :
    closedBy stack (ks.filter Kind.isBracket) = closedBy stack ks := by
  induction ks generalizing stack with
  | nil => rfl
  | cons k ks ih =>
    cases hk : k.isBracket with
    | true => rw [List.filter_cons_of_pos hk, closedBy, closedBy, ih]
    | false =>
      rw [List.filter_cons_of_neg (by simp [hk]), closedBy,
        if_neg (not_misses_of_not_isBracket hk), openBehind_of_not_isBracket hk, ih]

/-- Well nested brackets leave the open brackets as they are. -/
theorem Nested.closedBy (h : Nested ks) (stack : List Kind) : closedBy stack ks = some stack := by
  induction h generalizing stack with
  | nil => rfl
  | @pair o c inner behind opens closes _ _ ihinner ihbehind =>
    rw [Token.closedBy, if_neg (not_misses_of_isOpening opens), openBehind_of_isOpening opens,
      closedBy_append, ihinner, Option.bind_some, Token.closedBy,
      if_neg (not_misses_of_closes closes), openBehind_of_closes closes, ihbehind]

theorem Nested.append {ls : List Kind} (h : Nested ks) (h' : Nested ls) : Nested (ks ++ ls) := by
  induction h with
  | nil => exact h'
  | @pair o c inner behind opens closes hinner _ _ ihbehind =>
    rw [List.cons_append, List.append_assoc, List.cons_append]
    exact .pair opens closes hinner ihbehind

/-- The counterparts of open brackets in their order, with well nested brackets around them. -/
inductive Closes : List Kind → List Kind → Prop where
  | nil {ks : List Kind} (h : Nested ks) : Closes [] ks
  | cons {o c : Kind} {stack inner behind : List Kind} (closes : c.opening? = some o)
      (hinner : Nested inner) (hbehind : Closes stack behind) :
      Closes (o :: stack) (inner ++ c :: behind)

theorem Closes.after (h : Closes stack ks) {front : List Kind} (hfront : Nested front) :
    Closes stack (front ++ ks) := by
  cases h with
  | nil h => exact .nil (hfront.append h)
  | cons closes hinner hbehind =>
    rw [← List.append_assoc]
    exact .cons closes (hfront.append hinner) hbehind

theorem closes_of_closedBy (hbrackets : ∀ k ∈ ks, k.isBracket = true)
    (h : closedBy stack ks = some []) : Closes stack ks := by
  induction ks generalizing stack with
  | nil =>
    obtain rfl := Option.some.inj h
    exact .nil .nil
  | cons k ks ih =>
    obtain ⟨hk, hks⟩ := List.forall_mem_cons.mp hbrackets
    rw [closedBy] at h
    split at h
    · cases h
    · next hhits =>
      have hrest := ih hks h
      rcases bracket_cases stack k with hother | hopening | ⟨o, below, hcloses, rfl⟩ | hmisses
      · exact absurd (hother.symm.trans hk) Bool.false_ne_true
      · -- what closes this bracket stands behind well nested brackets
        rw [openBehind_of_isOpening hopening] at hrest
        obtain _ | ⟨closes, hinner, hbehind⟩ := hrest
        have hpair := hbehind.after (.pair hopening closes hinner .nil)
        simpa using hpair
      · rw [openBehind_of_closes hcloses] at hrest
        exact .cons hcloses .nil hrest
      · exact absurd hmisses hhits

/-- Brackets are well nested exactly if none misses and none stays open. -/
theorem nested_iff (ks : List Kind) :
    Nested (ks.filter Kind.isBracket) ↔ misses ks = 0 ∧ openFrom [] ks = [] := by
  rw [← closedBy_eq_some_iff, ← closedBy_filter]
  constructor
  · exact fun h => h.closedBy []
  · intro h
    obtain hnested | _ := closes_of_closedBy (fun k hk => (List.mem_filter.mp hk).2) h
    exact hnested

end

/-! ## Brackets of a ledger -/

/-- The open brackets are those that the tokens leave open, and each closing bracket that misses is
reported. Lines are laid out only where no bracket is open. -/
structure Ledger.Tracked (l : Ledger) : Prop where
  stack : l.stack = openFrom [] l.kinds
  misses : l.codes.count .unmatchedBracket = misses l.kinds
  outside : ∀ before k behind, l.kinds = before ++ k :: behind → k.isLayout = true →
    openFrom [] before = []

namespace Ledger.Tracked

variable {l l' : Ledger}

/-- A token is entered behind the others. -/
theorem enter (h : l.Tracked) {k : Kind} (hoff : k.isLayout = true → l.stack = [])
    {stack : List Kind} (hstack : stack = openBehind l.stack k) {n : Nat}
    (hmisses : n = l.codes.count .unmatchedBracket + if Misses l.stack k then 1 else 0)
    (hkinds : l'.kinds = l.kinds ++ [k]) (hstack' : l'.stack = stack)
    (hcodes : l'.codes.count .unmatchedBracket = n) : l'.Tracked where
  stack := by rw [hstack', hstack, hkinds, openFrom_concat, ← h.stack]
  misses := by rw [hcodes, hmisses, hkinds, misses_concat, ← h.stack, h.misses]
  outside := by
    intro before k' behind hsplit hlayout
    rw [hkinds] at hsplit
    rcases List.append_eq_append_iff.mp hsplit with ⟨mid, hbefore, hmid⟩ | ⟨mid, hl, hmid⟩
    · -- the split is at the new token
      obtain ⟨rfl, hmid⟩ : mid = [] ∧ [k] = k' :: behind := by
        cases mid with
        | nil => exact ⟨rfl, by simpa using hmid⟩
        | cons _ _ => simp at hmid
      obtain ⟨rfl, -⟩ := List.cons.inj hmid
      rw [hbefore, List.append_nil, ← h.stack]
      exact hoff hlayout
    · cases mid with
      | nil =>
        obtain ⟨rfl, -⟩ := List.cons.inj hmid
        rw [List.append_nil] at hl
        rw [← hl, ← h.stack]
        exact hoff hlayout
      | cons k'' mid =>
        obtain ⟨rfl, -⟩ := List.cons.inj hmid
        exact h.outside before _ mid hl hlayout

theorem entry (h : l.Tracked) (hentry : l.Entry l') : l'.Tracked := by
  have hplain {k : Kind} (hbracket : k.isBracket = false) :
      l.stack = openBehind l.stack k ∧ l.codes.count .unmatchedBracket =
        l.codes.count .unmatchedBracket + if Misses l.stack k then 1 else 0 :=
    ⟨(openBehind_of_not_isBracket hbracket).symm, by
      rw [if_neg (not_misses_of_not_isBracket hbracket), Nat.add_zero]⟩
  have hlayout {k : Kind} (hk : k.isLayout = true) (houtside : l.stack = [])
      (hkinds : l'.kinds = l.kinds ++ [k]) (hstack : l'.stack = l.stack)
      (hcodes : l'.codes = l.codes) : l'.Tracked := by
    obtain ⟨hsame, hnone⟩ := hplain (Kind.isBracket_of_isLayout hk)
    exact h.enter (fun _ => houtside) hsame hnone hkinds hstack (by rw [hcodes])
  have hnot {k : Kind} (hk : k.isLayout = false) {P : Prop} (hlayout : k.isLayout = true) : P :=
    absurd (hk.symm.trans hlayout) Bool.false_ne_true
  have hnote {c : Diagnostic.Code} (hc : c ≠ .unmatchedBracket) :
      (l.codes ++ [c]).count .unmatchedBracket = l.codes.count .unmatchedBracket := by
    simp [List.count_append, hc]
  -- Each entry is held against `openBehind` and `Misses`; layout comes only with no bracket open.
  cases hentry with
  | token plain =>
    obtain ⟨hsame, hnone⟩ := hplain plain.2
    exact h.enter (hnot plain.1) hsame hnone rfl rfl rfl
  | fault other => exact ⟨h.stack, (hnote other.1).trans h.misses, h.outside⟩
  | @opening k opens =>
    have hnone : l.codes.count .unmatchedBracket =
        l.codes.count .unmatchedBracket + if Misses l.stack k then 1 else 0 := by
      rw [if_neg (not_misses_of_isOpening opens), Nat.add_zero]
    exact h.enter (hnot (Kind.opening?_of_isOpening opens).2.2)
      (openBehind_of_isOpening opens).symm hnone rfl rfl rfl
  | @closing k o below closes innermost =>
    have hnone : l.codes.count .unmatchedBracket =
        l.codes.count .unmatchedBracket + if Misses l.stack k then 1 else 0 := by
      rw [innermost, if_neg (not_misses_of_closes closes), Nat.add_zero]
    exact h.enter (hnot (Kind.isClosing_of_opening? closes).2.2)
      (by rw [innermost, openBehind_of_closes closes]) hnone rfl rfl rfl
  | @unmatched k o closes other =>
    have hmisses : Misses l.stack k :=
      ⟨(Kind.isClosing_of_opening? closes).1, by rw [closes]; exact other.symm⟩
    refine h.enter (hnot (Kind.isClosing_of_opening? closes).2.2)
      (openBehind_of_misses hmisses).symm (n := l.codes.count .unmatchedBracket + 1)
      (by rw [if_pos hmisses]) rfl rfl ?_
    show (l.codes ++ [_]).count _ = _
    rw [List.count_append, List.count_singleton_self]
  | newline outside => exact hlayout rfl outside rfl rfl rfl
  | indent outside deeper => exact hlayout rfl outside rfl rfl rfl
  | dedent outside innermost positive => exact hlayout rfl outside rfl rfl rfl
  | misfit outside => exact ⟨h.stack, (hnote (by decide)).trans h.misses, h.outside⟩

theorem entries (h : l.Tracked) (hentries : l.Entries l') : l'.Tracked :=
  hentries.preserves (fun _ _ h hentry => h.entry hentry) h

theorem start : Ledger.Tracked ⟨[], [], [0], []⟩ :=
  ⟨rfl, rfl, fun before k behind hsplit => by simp at hsplit⟩

end Ledger.Tracked

/-- What the lexer puts out at the end of a text leaves the brackets as they are. -/
theorem openFrom_layout {ks : List Kind} (h : ∀ k ∈ ks, k.isLayout = true) (stack : List Kind) :
    openFrom stack ks = stack := by
  induction ks generalizing stack with
  | nil => rfl
  | cons k ks ih =>
    obtain ⟨hk, hks⟩ := List.forall_mem_cons.mp h
    show openFrom (openBehind stack k) ks = stack
    rw [openBehind_of_not_isBracket (Kind.isBracket_of_isLayout hk), ih hks]

theorem misses_append_layout (ks : List Kind) {ls : List Kind} (h : ∀ k ∈ ls, k.isLayout = true) :
    misses (ks ++ ls) = misses ks := by
  induction ls using List.reverseRecOn with
  | nil => rw [List.append_nil]
  | append_singleton ls k ih =>
    have hk : k.isLayout = true := h k (by simp)
    rw [← List.append_assoc, misses_concat,
      if_neg (not_misses_of_not_isBracket (Kind.isBracket_of_isLayout hk)),
      ih fun k hk => h k (List.mem_append_left _ hk), Nat.add_zero]

/-- The tokens in front of the end of a text, with their ledger, and what the lexer adds there. -/
theorem exists_tracked {source : Text} (h : Utf8.isValid source = true) :
    ∃ (l : Ledger) (last : List Kind), l.Tracked ∧ (∀ k ∈ last, k.isLayout = true) ∧
      kinds source = l.kinds ++ last ∧
      codes source = l.codes ++ List.replicate l.stack.length .unmatchedBracket := by
  obtain ⟨l, newline, hentries, hnewline, hkinds, hcodes⟩ := exists_entries h
  refine ⟨l, newline ++ List.replicate (l.indents.length - 1) .dedent ++ [.eof],
    Ledger.Tracked.start.entries hentries, ?_, by rw [hkinds]; simp, hcodes⟩
  intro k hk
  simp only [List.mem_append, List.mem_replicate, List.mem_singleton] at hk
  rcases hk with (hk | ⟨-, rfl⟩) | rfl
  · rcases hnewline with rfl | rfl
    · exact absurd hk List.not_mem_nil
    · obtain rfl := List.mem_singleton.mp hk
      rfl
  · rfl
  · rfl

/-- Of the brackets of a text one is reported exactly if they are not well nested. There is a report
for each closing bracket that is not the counterpart of the innermost open one, and for each bracket
that stays open. -/
theorem unmatched_lex {source : Text} (h : Utf8.isValid source = true) :
    (.unmatchedBracket ∈ codes source ↔ ¬ Nested ((kinds source).filter Kind.isBracket)) ∧
      (codes source).count .unmatchedBracket =
        misses (kinds source) + (openFrom [] (kinds source)).length := by
  obtain ⟨l, last, htracked, hlast, hkinds, hcodes⟩ := exists_tracked h
  have hopen : openFrom [] (kinds source) = l.stack := by
    rw [hkinds, openFrom_append, openFrom_layout hlast, htracked.stack]
  have hmisses : misses (kinds source) = misses l.kinds := by
    rw [hkinds, misses_append_layout _ hlast]
  have hcount : (codes source).count .unmatchedBracket =
      misses (kinds source) + (openFrom [] (kinds source)).length := by
    rw [hcodes, List.count_append, List.count_replicate_self, htracked.misses, hmisses, hopen]
  refine ⟨?_, hcount⟩
  rw [← List.count_pos_iff, hcount, nested_iff, ← List.length_eq_zero_iff]
  omega

/-- A closing bracket that fits nothing, one that is the wrong one, and a bracket that stays open. -/
theorem unmatched_lex_crossed :
    let source := utf8 ")\n(a]\n"
    (Diagnostic.Code.unmatchedBracket ∈ codes source ↔
      ¬ Nested ((kinds source).filter Kind.isBracket)) ∧
      (kinds source).filter Kind.isBracket = [.rparen, .lparen, .rbracket] ∧
      misses (kinds source) = 2 ∧ openFrom [] (kinds source) = [.lparen] ∧
      (codes source).count .unmatchedBracket = 3 := by
  intro source
  have hvalid : Utf8.isValid source = true := by decide +kernel
  obtain ⟨hiff, hcount⟩ := unmatched_lex hvalid
  have hmisses : misses (kinds source) = 2 := by decide +kernel
  have hopen : openFrom [] (kinds source) = [.lparen] := by decide +kernel
  refine ⟨hiff, by decide +kernel, hmisses, hopen, ?_⟩
  rw [hcount, hmisses, hopen]
  rfl

end CloneScout.Token
