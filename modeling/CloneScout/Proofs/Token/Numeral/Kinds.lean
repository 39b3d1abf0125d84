import CloneScout.Proofs.Token.Indents
import CloneScout.Proofs.Token.Numeral.Longest

/-!
# Numeric tokens are literals

Only numbers become tokens of a numeric kind, and a number that is no literal becomes a faulty
token. So in the tokens of a source text, and of a field in a string, every token of a numeric kind
is a literal of this kind.
-/

namespace CloneScout.Token

namespace Numeral

/-- The kinds of numeric literals. -/
def literalKinds : List Kind := [.intLit, .floatLit, .imagLit]

/-- Tokens of a numeric kind are literals of this kind. -/
def AreLiterals (ts : Array Token) : Prop :=
  ∀ t ∈ ts, t.kind ∈ literalKinds → IsLiteral t.kind t.lexeme

theorem AreLiterals.push {ts : Array Token} {t : Token} (h : AreLiterals ts)
    (ht : t.kind ∈ literalKinds → IsLiteral t.kind t.lexeme) : AreLiterals (ts.push t) := by
  intro u hu hkind
  rcases Array.mem_push.mp hu with hu | rfl
  · exact h u hu hkind
  · exact ht hkind

theorem AreLiterals.push_other {ts : Array Token} {t : Token} (h : AreLiterals ts)
    (ht : t.kind ∉ literalKinds) : AreLiterals (ts.push t) :=
  h.push fun hkind => absurd hkind ht

theorem not_mem_literalKinds_of_isLayout {k : Kind} (h : k.isLayout = true) : k ∉ literalKinds := by
  have hall : ∀ k ∈ literalKinds, k.isLayout = false := by decide
  intro hk
  rw [hall k hk] at h
  nomatch h

theorem ofWord_not_mem_literalKinds (w : Text) : Kind.ofWord w ∉ literalKinds := by
  have htable : ∀ e ∈ Kind.keywordTable, e.2 ∉ literalKinds := by decide +kernel
  unfold Kind.ofWord
  cases hlook : Kind.keywordTable.lookup w with
  | none => decide
  | some k =>
    obtain ⟨before, behind, hsplit, -⟩ := List.lookup_eq_some_iff.mp hlook
    exact htable (w, k) (by rw [hsplit]; simp)

end Numeral

open Numeral

namespace Lexer

variable {s : Lexer}

/-! ## Items -/

theorem areLiterals_number (h : AreLiterals s.tokens) (hstart : StartsNumber s.rest) :
    AreLiterals s.number.tokens := by
  obtain ⟨k, p, hlongest⟩ := exists_isLongest hstart
  have hscan := hlongest.scan hstart
  unfold number
  dsimp only
  split at hscan
  · rw [if_pos hscan]
    exact h.push_other (t := s.tokenOf .error _) (by decide : Kind.error ∉ literalKinds)
  · rw [hscan, if_neg Bool.false_ne_true]
    refine h.push (t := s.tokenOf k p.length) fun _ => ?_
    show IsLiteral k (s.rest.take p.length)
    rw [← List.prefix_iff_eq_take.mp hlongest.front]
    exact hlongest.literal

theorem areLiterals_string (h : AreLiterals s.tokens) (letters : Nat) :
    AreLiterals (s.string letters).tokens := by
  unfold string
  dsimp only
  generalize (s.rest.drop letters).take _ = opener
  split
  · exact h.push_other (t := s.tokenOf .stringLit _) (by decide : Kind.stringLit ∉ literalKinds)
  · exact h.push_other (t := s.tokenOf .error _) (by decide : Kind.error ∉ literalKinds)

theorem areLiterals_word (h : AreLiterals s.tokens) : AreLiterals s.word.tokens := by
  unfold word
  dsimp only
  split
  · exact areLiterals_string h _
  · exact h.push_other (t := s.tokenOf (Kind.ofWord _) _) (ofWord_not_mem_literalKinds _)

theorem areLiterals_sign (h : AreLiterals s.tokens) : AreLiterals s.sign.tokens := by
  have htable : ∀ e ∈ Kind.signTable, e.2 ∉ literalKinds := by decide +kernel
  have htrack {kind : Kind} (hkind : kind ∉ literalKinds) (n : Nat) :
      AreLiterals (track (s.tokenOf kind n) (s.take kind n)).tokens := by
    rw [(track_stays (s.tokenOf kind n) (s.take kind n)).1]
    exact h.push_other (t := s.tokenOf kind n) hkind
  unfold sign
  cases hsign : Kind.sign? s.rest with
  | none => exact htrack (by decide) _
  | some found => exact htrack (htable _ (List.mem_of_find?_eq_some hsign)) _

theorem areLiterals_lineFeed (h : AreLiterals s.tokens) : AreLiterals s.lineFeed.tokens := by
  unfold lineFeed
  dsimp only
  split
  · split
    · exact h.push_other (not_mem_literalKinds_of_isLayout rfl)
    · exact h
  · exact h

theorem areLiterals_item {b : UInt8} {t : Text} (hrest : s.rest = b :: t)
    (h : AreLiterals s.tokens) : AreLiterals (s.item b).tokens := by
  by_cases hfeed : b = 10
  · have hitem : s.item b = s.lineFeed := by rw [hfeed]; rfl
    rw [hitem]
    exact areLiterals_lineFeed h
  by_cases hstarts : Starts b
  · obtain ⟨hblank, hmark, hbackslash, -⟩ := hstarts
    unfold item
    dsimp only
    rw [if_neg (by simp [hblank]), if_neg hmark, if_neg hbackslash, if_neg hfeed]
    split
    · next hnumber =>
      refine areLiterals_number h ?_
      rw [hrest, List.drop_one, List.tail_cons, Bool.or_eq_true, Bool.and_eq_true,
        decide_eq_true_eq] at hnumber
      rcases hnumber with hdigit | ⟨rfl, hmore⟩
      · exact .inl ⟨b, t, hrest, hdigit⟩
      · obtain ⟨c, hc, hdigit⟩ := (Option.any_eq_true _ _).mp hmore
        obtain ⟨r, rfl⟩ := List.head?_eq_some_iff.mp hc
        exact .inr ⟨c, r, hrest, hdigit⟩
    split
    · exact areLiterals_word h
    split
    · exact areLiterals_string h 0
    · exact areLiterals_sign h
  · rw [(item_stays hstarts hfeed).1]
    exact h

/-! ## Lines -/

theorem areLiterals_closeIndents (col : Nat) (indents : List Nat) (h : AreLiterals s.tokens) :
    AreLiterals (closeIndents col indents s).2.tokens := by
  induction indents generalizing s with
  | nil => exact h
  | cons top below ih =>
    unfold closeIndents
    split
    · exact ih (h.push_other (not_mem_literalKinds_of_isLayout rfl))
    · exact h

theorem areLiterals_indentTo (col : Nat) (h : AreLiterals s.tokens) :
    AreLiterals (indentTo col s).tokens := by
  have hclosed := areLiterals_closeIndents col s.indents h
  unfold indentTo
  dsimp only
  split
  · exact h.push_other (not_mem_literalKinds_of_isLayout rfl)
  · split
    · exact hclosed
    · exact hclosed

theorem areLiterals_lineStart (h : AreLiterals s.tokens) :
    AreLiterals s.lineStart.lexer.tokens := by
  have hleads := lineLeads s
  generalize s.lineStart = next at hleads
  cases hleads with
  | skipped tokens =>
    rw [LineStart.lexer, tokens]
    exact h
  | comment col tokens =>
    refine areLiterals_indentTo col ?_
    rw [tokens]
    exact h
  | content col tokens =>
    refine areLiterals_indentTo col ?_
    rw [tokens]
    exact h

/-! ## Runs -/

theorem areLiterals_step (h : AreLiterals s.tokens) : AreLiterals s.step.1.tokens := by
  have hread {s : Lexer} (h : AreLiterals s.tokens) : AreLiterals s.readItem.1.tokens := by
    unfold readItem
    split
    · exact h
    · next hrest => exact areLiterals_item hrest h
  have hline := areLiterals_lineStart h
  rw [step_eq]
  split
  · split
    · next s' hs' =>
      rw [hs'] at hline
      exact hline
    · next s' hs' =>
      rw [hs'] at hline
      exact hread hline
  · exact hread h

theorem areLiterals_run (steps : Nat) (h : AreLiterals s.tokens) :
    AreLiterals (s.run steps).tokens := by
  induction steps generalizing s with
  | zero => exact h
  | succ steps ih =>
    have hstep := areLiterals_step h
    rw [run]
    split
    · next s' hs' =>
      rw [hs'] at hstep
      exact ih hstep
    · next s' hs' =>
      rw [hs'] at hstep
      exact hstep

theorem areLiterals_reportOpen (h : AreLiterals s.tokens) : AreLiterals s.reportOpen.tokens := by
  have hfold (l : List Token) :
      (l.foldr (fun t s => s.report .unmatchedBracket t.span t.lexeme) s).tokens = s.tokens := by
    induction l with
    | nil => rfl
    | cons _ l ih => exact ih
  show AreLiterals (s.brackets.foldr _ s).tokens
  rw [hfold]
  exact h

theorem areLiterals_finishLines (h : AreLiterals s.tokens) : AreLiterals s.finishLines.tokens := by
  have hfold (l : List Nat) {s : Lexer} (h : AreLiterals s.tokens) :
      AreLiterals (l.foldl (fun s _ => s.push (s.emptyToken .dedent)) s).tokens := by
    induction l generalizing s with
    | nil => exact h
    | cons _ l ih => exact ih (h.push_other (not_mem_literalKinds_of_isLayout rfl))
  unfold finishLines
  dsimp only
  refine hfold _ ?_
  split
  · exact h.push_other (not_mem_literalKinds_of_isLayout rfl)
  · exact h

theorem areLiterals_finish (h : AreLiterals s.tokens) : AreLiterals s.finish.1 :=
  h.push_other (not_mem_literalKinds_of_isLayout rfl)

end Lexer

theorem areLiterals_lex (source : Text) : AreLiterals (lex source).1 := by
  have hempty : AreLiterals #[] := fun t ht => absurd ht (Array.not_mem_empty t)
  unfold lex
  split
  · exact Lexer.areLiterals_finish hempty
  · exact Lexer.areLiterals_finish
      (Lexer.areLiterals_finishLines (Lexer.areLiterals_reportOpen (Lexer.areLiterals_run _ hempty)))

theorem areLiterals_lexField (offset line : Nat) (part : Text) :
    AreLiterals (lexField offset line part).1 := by
  have hempty : AreLiterals #[] := fun t ht => absurd ht (Array.not_mem_empty t)
  exact Lexer.areLiterals_finish (Lexer.areLiterals_reportOpen (Lexer.areLiterals_run _ hempty))

end CloneScout.Token
