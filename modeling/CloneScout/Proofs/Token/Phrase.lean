import CloneScout.Proofs.Token.Literal
import CloneScout.Proofs.Token.Moves

/-!
# Words with blanks between them

Names, whole numbers, string literals, keywords and signs that are written with one blank between any
two of them are cut into just these tokens, and nothing is reported if their brackets match.
-/

namespace CloneScout

/-- Tokens that a blank separates from what stands around them. -/
inductive Lexeme.IsWord : Lexeme → Prop where
  | name {t : Text} (h : Token.IsName t) : IsWord ⟨.ident, t⟩
  | int (n : Nat) : IsWord ⟨.intLit, Text.ofNat n⟩
  | keyword {k : Token.Kind} (h : k ∈ Token.Kind.keywords) : IsWord (.ofKind k)
  | sign {k : Token.Kind} (h : k ∈ Token.Kind.signs) : IsWord (.ofKind k)
  | literal {letters body : Text} {quote : UInt8}
      (h : StringLiteral.IsLiteral letters quote body) :
      IsWord ⟨.stringLit, letters ++ quote :: (body ++ [quote])⟩

namespace Token

/-- The open brackets behind words, if no bracket among them is closed by another. -/
def trackedAll : List Lexeme → List Kind → Option (List Kind)
  | [], stack => some stack
  | w :: ws, stack => (Lexer.tracked w.kind stack).bind (trackedAll ws)

/-- Words whose brackets match. -/
structure Phrase (ws : List Lexeme) : Prop where
  words : ∀ w ∈ ws, w.IsWord
  balanced : ∀ stack, trackedAll ws stack = some stack

namespace Phrase

theorem nil : Phrase [] := ⟨fun _ hw => absurd hw List.not_mem_nil, fun _ => rfl⟩

theorem trackedAll_append {ws vs : List Lexeme} {stack mid : List Kind}
    (h : trackedAll ws stack = some mid) : trackedAll (ws ++ vs) stack = trackedAll vs mid := by
  induction ws generalizing stack with
  | nil =>
    obtain rfl := Option.some.inj h
    rfl
  | cons w ws ih =>
    rw [List.cons_append, trackedAll]
    rw [trackedAll] at h
    obtain ⟨next, hnext, h⟩ := Option.bind_eq_some_iff.mp h
    rw [hnext, Option.bind_some, ih h]

theorem append {ws vs : List Lexeme} (hws : Phrase ws) (hvs : Phrase vs) : Phrase (ws ++ vs) := by
  refine ⟨fun w hw => ?_, fun stack => ?_⟩
  · rcases List.mem_append.mp hw with hw | hw
    · exact hws.words w hw
    · exact hvs.words w hw
  · rw [trackedAll_append (hws.balanced stack), hvs.balanced]

/-- A word that is no bracket. -/
theorem cons {w : Lexeme} {ws : List Lexeme} (hw : w.IsWord)
    (hplain : w.kind.isOpening = false ∧ w.kind.opening? = none) (hws : Phrase ws) :
    Phrase (w :: ws) := by
  refine ⟨fun u hu => ?_, fun stack => ?_⟩
  · rcases List.mem_cons.mp hu with rfl | hu
    · exact hw
    · exact hws.words u hu
  · rw [trackedAll, Lexer.tracked_plain hplain, Option.bind_some, hws.balanced]

/-- Words in brackets. -/
theorem enclosed {o c : Kind} {ws : List Lexeme} (ho : o ∈ Kind.signs) (hc : c ∈ Kind.signs)
    (hopen : o.isOpening = true) (hclose : c.isOpening = false) (hmatch : c.opening? = some o)
    (hws : Phrase ws) : Phrase (.ofKind o :: (ws ++ [.ofKind c])) := by
  refine ⟨fun u hu => ?_, fun stack => ?_⟩
  · simp only [List.mem_cons, List.mem_append, List.not_mem_nil, or_false] at hu
    rcases hu with rfl | hu | rfl
    · exact .sign ho
    · exact hws.words u hu
    · exact .sign hc
  · have hlast : trackedAll [.ofKind c] (o :: stack) = some stack := by
      rw [trackedAll, Lexeme.ofKind, Lexer.tracked_closing hclose hmatch]
      rfl
    rw [trackedAll, Lexeme.ofKind, Lexer.tracked_opening hopen, Option.bind_some,
      trackedAll_append (hws.balanced _), hlast]

end Phrase

namespace Lexer

theorem parts_of_stops {r : Text} (h : Number.Stops r) : Parts r := by
  intro b hb
  rw [h b hb]
  decide

theorem endsBefore_of_stops {k : Kind} (hk : k ∈ Kind.signs) {r : Text} (h : Number.Stops r) :
    EndsBefore k r := by
  intro b hb
  have hall : ∀ k ∈ Kind.signs, ∀ j ∈ Kind.signs, ¬ k.text ++ [ascii ' '] <+: j.text := by
    decide +kernel
  rw [h b hb]
  exact ⟨by decide, hall k hk⟩

theorem goes_isWord {v : View} {w : Lexeme} {r : Text} {stack : List Kind}
    (hstart : v.atLineStart = false) (hrest : v.rest = w.text ++ r) (hw : w.IsWord)
    (hr : Number.Stops r) (hstack : tracked w.kind v.stack = some stack) :
    Goes v { v.took w r with stack } := by
  have hsame : w.kind.isOpening = false ∧ w.kind.opening? = none → stack = v.stack := by
    intro hplain
    rw [tracked_plain hplain] at hstack
    exact (Option.some.inj hstack).symm
  cases hw with
  | name ht =>
    rw [hsame ⟨rfl, rfl⟩]
    exact goes_name hstart hrest ht (parts_of_stops hr)
  | int n =>
    rw [hsame ⟨rfl, rfl⟩]
    exact goes_int hstart hrest hr
  | keyword hk =>
    have hall : ∀ k ∈ Kind.keywords, k.isOpening = false ∧ k.opening? = none := by decide
    rw [hsame (hall _ hk)]
    exact goes_keyword hstart hrest hk (parts_of_stops hr)
  | sign hk => exact goes_sign hstart hrest hk (endsBefore_of_stops hk hr) hstack
  | literal h =>
    rw [hsame ⟨rfl, rfl⟩]
    exact goes_literal hstart hrest h hr

/-- Words with blanks between them are cut one by one. -/
theorem goes_words {ws : List Lexeme} (hws : ∀ w ∈ ws, w.IsWord) {v : View} {stack : List Kind}
    (hstart : v.atLineStart = false) (hrest : v.rest = Text.join (utf8 " ") (ws.map Lexeme.text))
    (hstack : trackedAll ws v.stack = some stack) :
    ∃ v', Goes v v' ∧ v'.rest = [] ∧ v'.stack = stack ∧ v'.atLineStart = false ∧
      v'.found = v.found ++ ws ∧ v'.diags = v.diags := by
  induction ws generalizing v with
  | nil => exact ⟨v, .refl v, hrest, Option.some.inj hstack, hstart, by simp, rfl⟩
  | cons w ws ih =>
    obtain ⟨mid, hmid, hstack⟩ := Option.bind_eq_some_iff.mp hstack
    have hw := hws w List.mem_cons_self
    cases ws with
    | nil =>
      have hrest' : v.rest = w.text ++ [] := by rw [hrest, List.append_nil]; rfl
      have hgo := goes_isWord hstart hrest' hw (fun _ hb => nomatch hb) hmid
      exact ⟨_, hgo, rfl, Option.some.inj hstack, hstart, rfl, rfl⟩
    | cons u us =>
      let r := Text.join (utf8 " ") ((u :: us).map Lexeme.text)
      have hrest' : v.rest = w.text ++ (ascii ' ' :: r) := by
        rw [hrest]
        simp only [List.map_cons, Text.join, List.append_assoc]
        rfl
      have hstops : Number.Stops (ascii ' ' :: r) := by
        intro b hb
        exact (Option.some.inj hb).symm
      have hfirst := goes_isWord hstart hrest' hw hstops hmid
      have hblank := goes_blank (v := { v.took w (ascii ' ' :: r) with stack := mid }) hstart rfl
      obtain ⟨v', hgo, hend, hstack', hstart', hfound, hdiags⟩ := ih
        (fun u hu => hws u (List.mem_cons_of_mem _ hu))
        (v := { v.took w r with stack := mid }) hstart rfl hstack
      refine ⟨v', hfirst.trans (hblank.trans hgo), hend, hstack', hstart', ?_, hdiags⟩
      rw [hfound]
      simp [View.took]

/-- At the end of the text nothing happens any more. -/
theorem step_of_rest_eq_nil {s : Lexer} (h : s.rest = []) :
    ∃ s', s'.view = s.view ∧ s.step = (s', false) := by
  have hadvance : (s.advance 0).view = s.view := by simp [view, advance]
  have hrest : (s.advance 0).rest = [] := by simp [advance, h]
  by_cases hline : (s.atLineStart && s.brackets.isEmpty) = true
  · have hskipped : s.lineStart = .skipped (s.advance 0) := by
      simp only [lineStart, h, List.takeWhile_nil, List.length_nil, hrest, List.isEmpty_nil, if_true]
    refine ⟨s.advance 0, hadvance, ?_⟩
    rw [Lexer.step, if_pos hline, hskipped]
    simp [hrest]
  · refine ⟨s, rfl, ?_⟩
    rw [Lexer.step, if_neg hline]
    simp only [h]

/-- The lexer ends in the state that its steps lead to at the end of the text. -/
theorem view_run {v v' : View} (h : Goes v v') (hend : v'.rest = []) {s : Lexer}
    (hs : s.view = v) : (s.run (s.rest.length + 1)).view = v' := by
  obtain ⟨s', k, hs', hk, hrun⟩ := h s hs
  have hrest : s.rest.length = v.rest.length := by rw [← hs]; rfl
  have hrest' : s'.rest = [] := by rw [← hend, ← hs']; rfl
  obtain ⟨s'', hs'', hstep⟩ := step_of_rest_eq_nil hrest'
  obtain ⟨n, hn⟩ : ∃ n, s.rest.length + 1 = n + 1 + k := ⟨s.rest.length - k, by omega⟩
  rw [hn, hrun, run, hstep, hs'', hs']

/-! ## The end of the text -/

theorem reportOpen_eq {s : Lexer} (h : s.view.stack = []) : s.reportOpen = s := by
  have hbrackets : s.brackets = [] := List.map_eq_nil_iff.mp h
  rw [reportOpen, hbrackets, List.foldr_nil, ← hbrackets]

theorem toLexeme_finish (s : Lexer) :
    s.finish.1.toList.map toLexeme = s.view.found ++ [.eof] ∧ s.finish.2 = s.view.diags := by
  refine ⟨?_, rfl⟩
  rw [finish, push, Array.toList_push, List.map_append]
  rfl

end Lexer

/-- The tokens of a text through which the lexer goes up to its end. -/
theorem lexField_of_goes {offset line : Nat} {t : Text} {v : Lexer.View}
    (h : Lexer.Goes (Lexer.startField offset line t).view v) (hend : v.rest = [])
    (hstack : v.stack = []) :
    (lexField offset line t).1.toList.map toLexeme = v.found ++ [.eof] ∧
      (lexField offset line t).2 = v.diags := by
  have hview : ((Lexer.startField offset line t).run (t.length + 1)).view = v :=
    Lexer.view_run h hend rfl
  generalize hlast : (Lexer.startField offset line t).run (t.length + 1) = s at hview
  have hlex : lexField offset line t = s.finish := by
    show ((Lexer.startField offset line t).run (t.length + 1)).reportOpen.finish = s.finish
    rw [hlast, Lexer.reportOpen_eq (by rw [hview, hstack])]
  rw [hlex, s.toLexeme_finish.1, s.toLexeme_finish.2, hview]
  exact ⟨rfl, rfl⟩

/-- The tokens of a phrase written with blanks between the words. -/
theorem lexField_join {ws : List Lexeme} (h : Phrase ws) (offset line : Nat) :
    ((lexField offset line (Text.join (utf8 " ") (ws.map Lexeme.text))).1.toList.map toLexeme =
      ws ++ [.eof]) ∧
    (lexField offset line (Text.join (utf8 " ") (ws.map Lexeme.text))).2 = #[] := by
  obtain ⟨v, hgo, hend, hstack, -, hfound, hdiags⟩ := Lexer.goes_words h.words
    (v := (Lexer.startField offset line (Text.join (utf8 " ") (ws.map Lexeme.text))).view) rfl rfl
    (h.balanced [])
  obtain ⟨htokens, hreports⟩ := lexField_of_goes hgo hend hstack
  rw [htokens, hreports, hfound, hdiags]
  exact ⟨rfl, rfl⟩

/-- A literal is the only token of its text. -/
theorem lexField_written {w : StringLiteral.Written} (h : w.IsToken []) (offset line : Nat) :
    (lexField offset line w.text).1.toList.map toLexeme = [⟨.stringLit, w.text⟩, .eof] ∧
      (lexField offset line w.text).2 = #[] := by
  have hgo := Lexer.goes_written (v := (Lexer.startField offset line w.text).view) rfl
    (List.append_nil _).symm h
  exact lexField_of_goes hgo rfl rfl

end Token

end CloneScout
