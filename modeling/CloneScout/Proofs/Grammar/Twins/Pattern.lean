import CloneScout.Proofs.Grammar.Pattern
import CloneScout.Proofs.Grammar.Twins.Expr

/-!
# Patterns side by side

Each rule of patterns finds agreeing trees in both runs if the rules that it comes back to do.
-/

set_option linter.unusedSectionVars false
set_option synthInstance.maxSize 1000

namespace CloneScout.Grammar

variable {A : Nat → Nat → Prop} {r : Rules} [r.Steady]

/-! ## Values -/

theorem both_dottedName {s s' : State} (hk : s.cursor.kind = .ident) :
    Both A s s' dottedName dottedName (Expr.AgreeFrom A) := by
  unfold dottedName
  refine .bump fun ht s₁ s₁' hprev hprev' => .extent_prev hprev hprev' fun x x' hx hx' => ?_
  rw [lexeme_eq ht hk rfl]
  refine .loop (.name _ ?_) fun base base' hbase s s' => .eat (fun _ s₂ s₂' => ?_) fun _ => ?_
  · rw [hx, hx']
    exact ht.start (by rw [show s.cursor.peek.kind = _ from hk]; rfl)
  · refine .peek fun ht => .expect fun hk s₃ s₃' => .extent fun y y' => ?_
    rw [lexeme_eq ht hk rfl]
    exact .pure ⟨.attribute _ hbase.toAgree, rfl⟩
  · exact .pure ⟨hbase, rfl⟩

theorem isLayout_of_isNumber {k : Token.Kind} (h : isNumber k = true) : k.isLayout = false := by
  simp only [isNumber, Bool.or_eq_true, decide_eq_true_eq] at h
  rcases h with (rfl | rfl) | rfl <;> rfl

/-- A number that is missing is reported, so a number is found. -/
theorem twins_signedNumber : Twins A signedNumber? signedNumber? fun a a' =>
    ∃ e e', a = some e ∧ a' = some e' ∧ e.Agree .load e' := by
  intro s s'
  unfold signedNumber?
  refine .peek fun ht => ?_
  rw [ht.kind]
  refine .ite (fun _ => .skip_bump fun s₁ s₁' => .peek fun ht => ?_) fun _ => .ite (fun hn => ?_) fun _ => ?_
  · rw [ht.kind]
    refine .ite (fun hn => ?_) fun _ => .fault
    have hnumber : Both A s₁ s₁' number number (Expr.AgreeFrom A) :=
      both_number (isLayout_of_isNumber (by rw [show s₁.cursor.kind = _ from ht.kind]; exact hn))
    refine hnumber.bind fun e e' he s₂ s₂' => .extent fun x x' => .pure ⟨_, _, rfl, rfl, ?_⟩
    exact (Expr.AgreeFrom.unary (A := A) _ he.toAgree).toAgree
  · have hnumber : Both A s s' number number (Expr.AgreeFrom A) :=
      both_number (isLayout_of_isNumber (by rw [show s.cursor.kind = _ from ht.kind]; exact hn))
    exact hnumber.bind fun e e' he s₂ s₂' => .pure ⟨e, e', rfl, rfl, he.toAgree⟩
  · exact .fault

theorem twins_complexNumber : Twins A complexNumber complexNumber (Expr.Agree .load) := by
  intro s s'
  unfold complexNumber
  refine .peek fun _ => Both.bind (p := fun _ => by split <;> infer_instance)
    (q := fun _ => by split <;> infer_instance) (twins_signedNumber _ _)
    fun a a' ha s₁ s₁' => ?_
  obtain ⟨real, real', rfl, rfl, hreal⟩ := ha
  refine .peek fun ht => .kind ?_
  rw [ht.kind]
  refine .ite (fun hcond => .bump_ahead fun s₂ s₂' hnext => ?_) fun _ => .pure hreal
  rw [Bool.and_eq_true, decide_eq_true_eq] at hcond
  have hnumber : Both A s₂ s₂' number number (Expr.AgreeFrom A) :=
    both_number (by rw [hnext 0, hcond.2]; rfl)
  exact hnumber.bind fun e e' he s₃ s₃' => .extent fun x x' =>
    .pure (Expr.AgreeFrom.binary (A := A) _ hreal he.toAgree).toAgree

theorem twins_patternValue (hr : r.Twin A) :
    Twins A (patternValue r) (patternValue r) (Expr.Agree .load) := by
  intro s s'
  unfold patternValue
  refine .kind ?_
  split
  · exact (twins_strings hr s s').mono fun _ _ h => h.toAgree
  · exact (twins_atom hr s s').mono fun _ _ h => h.toAgree
  · exact (twins_atom hr s s').mono fun _ _ h => h.toAgree
  · exact (twins_atom hr s s').mono fun _ _ h => h.toAgree
  · next hk => exact (both_dottedName hk).mono fun _ _ h => h.toAgree
  · exact twins_complexNumber s s'

/-! ## Patterns in brackets -/

theorem twins_sequencePattern (hr : r.Twin A) (first first' : Token) (closing : Token.Kind) :
    Twins A (sequencePattern r first closing) (sequencePattern r first' closing) Pattern.Agree := by
  intro s s'
  unfold sequencePattern
  refine .skip_bump fun s₁ s₁' => ?_
  refine Both.bind
    (p := fun _ => @steady_bind _ _ _ _ inferInstance fun _ => by split <;> infer_instance)
    (q := fun _ => @steady_bind _ _ _ _ inferInstance fun _ => by split <;> infer_instance)
    (Both.loop (I := fun (p p' : List Pattern × Bool) =>
      List.Forall₂ Pattern.Agree p.1 p'.1 ∧ p.2 = p'.2) ⟨.nil, rfl⟩
      fun ⟨items, comma⟩ ⟨items', comma'⟩ hitems s s' => ?_)
    fun ⟨items, comma⟩ ⟨items', comma'⟩ hitems s₂ s₂' => ?_
  · obtain ⟨hitems, rfl⟩ := hitems
    refine .isAborted (.at? (fun _ => ?_) fun _ => .at? (fun _ => ?_) fun _ => ?_)
    · exact .at? (fun _ => .pure ⟨⟨hitems, rfl⟩, rfl⟩) fun _ => .pure ⟨⟨hitems, rfl⟩, rfl⟩
    · exact .pure ⟨⟨hitems, rfl⟩, rfl⟩
    · refine hr.pattern.bind fun p p' hp s₃ s₃' => ?_
      have hmore := List.rel_append hitems (.cons hp .nil)
      exact .eat (fun _ s₄ s₄' => .pure ⟨⟨hmore, rfl⟩, rfl⟩) fun _ => .pure ⟨⟨hmore, rfl⟩, rfl⟩
  · obtain ⟨hitems, rfl⟩ := hitems
    refine .close (p := fun _ => by split <;> infer_instance)
      (q := fun _ => by split <;> infer_instance) fun s₃ s₃' => ?_
    generalize (closing = .rparen && !comma) = grouped
    -- only a single pattern without a comma stays as it is
    cases hitems with
    | nil => exact .extent fun x x' => .pure (.sequence .nil)
    | cons hp hrest =>
      cases hrest with
      | nil =>
        cases grouped with
        | true => exact .pure hp
        | false => exact .extent fun x x' => .pure (.sequence (.cons hp .nil))
      | cons hq hrest => exact .extent fun x x' => .pure (.sequence (.cons hp (.cons hq hrest)))

theorem twins_mappingEntry (hr : r.Twin A) :
    Twins A (mappingEntry r) (mappingEntry r) PatternEntry.Agree := by
  intro s s'
  unfold mappingEntry
  refine (twins_patternValue hr).bind fun key key' hkey s₁ s₁' => .expect fun _ s₂ s₂' => ?_
  exact hr.pattern.bind fun p p' hp s₃ s₃' => .pure (.mk hkey hp)

theorem twins_mappingPattern (hr : r.Twin A) (first first' : Token) :
    Twins A (mappingPattern r first) (mappingPattern r first') Pattern.Agree := by
  intro s s'
  unfold mappingPattern
  refine .skip_bump fun s₁ s₁' => ?_
  refine (Both.loop (I := fun (p p' : List PatternEntry × Option Text) =>
    List.Forall₂ PatternEntry.Agree p.1 p'.1 ∧ p.2 = p'.2) ⟨.nil, rfl⟩
    fun ⟨entries, rest⟩ ⟨entries', rest'⟩ h s s' => ?_).bind
    fun ⟨entries, rest⟩ ⟨entries', rest'⟩ h s₂ s₂' => ?_
  · obtain ⟨h, rfl⟩ := h
    have hcomma {es es' : List PatternEntry} (h : List.Forall₂ PatternEntry.Agree es es')
        (rest : Option Text) (s s' : State) :
        Both A s s' (do return ((es, rest), ← eat .comma)) (do return ((es', rest), ← eat .comma))
          fun p p' => (List.Forall₂ PatternEntry.Agree p.1.1 p'.1.1 ∧ p.1.2 = p'.1.2) ∧ p.2 = p'.2 :=
      .eat (fun _ s s' => .pure ⟨⟨h, rfl⟩, rfl⟩) fun _ => .pure ⟨⟨h, rfl⟩, rfl⟩
    refine .isAborted (.at? (fun _ => ?_) fun _ => .at? (fun _ => ?_) fun _ =>
      .eat (fun _ s₃ s₃' => ?_) fun _ => ?_)
    · exact .at? (fun _ => .pure ⟨⟨h, rfl⟩, rfl⟩) fun _ => .pure ⟨⟨h, rfl⟩, rfl⟩
    · exact .pure ⟨⟨h, rfl⟩, rfl⟩
    · refine .peek fun ht => .expect fun hk s₄ s₄' => ?_
      rw [lexeme_eq ht hk rfl]
      exact hcomma h _ s₄ s₄'
    · exact (twins_mappingEntry hr).bind fun e e' he s₃ s₃' =>
        hcomma (List.rel_append h (.cons he .nil)) _ s₃ s₃'
  · obtain ⟨h, rfl⟩ := h
    exact .close fun s₃ s₃' => .extent fun x x' => .pure (.mapping _ h)

theorem twins_classPattern (hr : r.Twin A) (first first' : Token) {cls cls' : Expr}
    (hcls : cls.Agree .load cls') :
    Twins A (classPattern r first cls) (classPattern r first' cls') Pattern.Agree := by
  intro s s'
  unfold classPattern
  refine .skip_bump fun s₁ s₁' => ?_
  refine (Both.loop (I := fun (p p' : List Pattern × List PatternKeyword) =>
    List.Forall₂ Pattern.Agree p.1 p'.1 ∧ List.Forall₂ PatternKeyword.Agree p.2 p'.2) ⟨.nil, .nil⟩
    fun ⟨positional, keywords⟩ ⟨positional', keywords'⟩ h s s' => ?_).bind
    fun ⟨positional, keywords⟩ ⟨positional', keywords'⟩ h s₂ s₂' => ?_
  · have hcomma {ps ps' : List Pattern} {ks ks' : List PatternKeyword}
        (hps : List.Forall₂ Pattern.Agree ps ps') (hks : List.Forall₂ PatternKeyword.Agree ks ks')
        (s s' : State) :
        Both A s s' (do return ((ps, ks), ← eat .comma)) (do return ((ps', ks'), ← eat .comma))
          fun p p' => (List.Forall₂ Pattern.Agree p.1.1 p'.1.1 ∧
            List.Forall₂ PatternKeyword.Agree p.1.2 p'.1.2) ∧ p.2 = p'.2 :=
      .eat (fun _ s s' => .pure ⟨⟨hps, hks⟩, rfl⟩) fun _ => .pure ⟨⟨hps, hks⟩, rfl⟩
    refine .peek fun ht => .isAborted ?_
    rw [ht.kind, isEmpty_eq_of_forall₂ h.2]
    refine .ite (fun _ => .pure ⟨h, rfl⟩) fun _ => .kind (.ite (fun hcond => ?_) fun _ => ?_)
    · rw [Bool.and_eq_true, decide_eq_true_eq] at hcond
      refine .skip_bump fun s₃ s₃' => .skip_bump fun s₄ s₄' => ?_
      rw [lexeme_eq ht (ht.kind.trans hcond.1) rfl]
      exact hr.pattern.bind fun p p' hp s₅ s₅' =>
        hcomma h.1 (List.rel_append h.2 (.cons (.mk hp) .nil)) s₅ s₅'
    · refine .ite (fun _ => ?_) fun _ => .fault
      exact hr.pattern.bind fun p p' hp s₃ s₃' =>
        hcomma (List.rel_append h.1 (.cons hp .nil)) h.2 s₃ s₃'
  · exact .close fun s₃ s₃' => .extent fun x x' => .pure (.cls hcls h.1 h.2)

/-! ## Single patterns -/

theorem twins_namePattern (hr : r.Twin A) {s s' : State}
    (ht : s.cursor.peek.Alike A s'.cursor.peek) (hk : s.cursor.kind = .ident) :
    Both A s s' (namePattern r s.cursor.peek) (namePattern r s'.cursor.peek) Pattern.Agree := by
  unfold namePattern
  refine .kind (.ite (fun _ => ?_) fun _ => .skip_bump fun s₁ s₁' => ?_)
  · refine (twins_patternValue hr).bind fun v v' hv s₁ s₁' => .at? (fun _ => ?_) fun _ => ?_
    · exact twins_classPattern hr _ _ hv s₁ s₁'
    · exact .extent fun x x' => .pure (.value hv)
  · rw [lexeme_eq ht hk rfl]
    exact .extent fun x x' => .pure (.capture _)

theorem twins_starPattern (first first' : Token) :
    Twins A (starPattern first) (starPattern first') Pattern.Agree := by
  intro s s'
  unfold starPattern
  refine .skip_bump fun s₁ s₁' => .peek fun ht => .expect fun hk s₂ s₂' => ?_
  rw [lexeme_eq ht hk rfl]
  exact .extent fun x x' => .pure (.star _)

theorem twins_singletonPattern (first first' : Token) (value : Singleton) :
    Twins A (singletonPattern first value) (singletonPattern first' value) Pattern.Agree := by
  intro s s'
  unfold singletonPattern
  exact .skip_bump fun s₁ s₁' => .extent fun x x' => .pure (.singleton value)

theorem twins_closedPattern (hr : r.Twin A) :
    Twins A (closedPattern r) (closedPattern r) Pattern.Agree := by
  intro s s'
  unfold closedPattern
  refine .peek fun ht => .isAborted ?_
  simp only [Bool.false_eq_true, ↓reduceIte]
  rw [ht.kind]
  split
  · exact twins_singletonPattern _ _ _ s s'
  · exact twins_singletonPattern _ _ _ s s'
  · exact twins_singletonPattern _ _ _ s s'
  · exact twins_starPattern _ _ s s'
  · exact twins_sequencePattern hr _ _ _ s s'
  · exact twins_sequencePattern hr _ _ _ s s'
  · exact twins_mappingPattern hr _ _ s s'
  · next hk => exact twins_namePattern hr ht (ht.kind.trans hk)
  · refine .ite (fun _ => ?_) fun _ => .fault
    exact (twins_patternValue hr).bind fun v v' hv s₁ s₁' => .extent fun x x' => .pure (.value hv)

theorem twins_orPattern (hr : r.Twin A) :
    Twins A (orPattern r) (orPattern r) Pattern.Agree := by
  intro s s'
  unfold orPattern
  refine .peek fun _ => (twins_closedPattern hr).bind fun p p' hp s₁ s₁' => ?_
  refine .at? (fun _ => ?_) fun _ => .pure hp
  exact (Twins.collectAfter (.cons hp .nil) (twins_closedPattern hr)).bind
    fun ps ps' hps s₂ s₂' => .extent fun x x' => .pure (.or hps)

theorem twins_pattern (hr : r.Twin A) : Twins A (pattern r) (pattern r) Pattern.Agree := by
  intro s s'
  unfold pattern
  refine .peek fun _ => (twins_orPattern hr).bind fun p p' hp s₁ s₁' => ?_
  refine .eat (fun _ s₂ s₂' => .peek fun ht => .expect fun hk s₃ s₃' => ?_) fun _ => .pure hp
  simp only [↓reduceIte]
  rw [lexeme_eq ht hk rfl]
  exact .ite (fun _ => .fault) fun _ => .extent fun x x' => .pure (.as _ hp)

theorem twins_patterns (hr : r.Twin A) : Twins A (patterns r) (patterns r) Pattern.Agree := by
  intro s s'
  unfold patterns
  refine .peek fun _ => hr.pattern.bind fun p p' hp s₁ s₁' => .at? (fun _ => ?_) fun _ => .pure hp
  exact (Twins.collectCommas (.cons hp .nil) (by exact fun _ _ => .kind (.kind (.pure rfl)))
    hr.pattern).bind fun ps ps' hps s₂ s₂' => .extent fun x x' => .pure (.sequence hps)

end CloneScout.Grammar
