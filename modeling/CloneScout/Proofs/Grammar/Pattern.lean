import CloneScout.Grammar.Pattern
import CloneScout.Proofs.Grammar.Expr

/-!
# Patterns are lawful

Each rule of patterns is steady and reads a lawful tree if the rules that it comes back to do.
-/

namespace CloneScout.Grammar

variable {r : Rules} [r.Steady]

/-! ## Values -/

instance steady_dottedName : Steady dottedName := by unfold dottedName; exact .auto

/-- A name with attributes, where an identifier is next. -/
theorem gives_dottedName {s : State} (hk : s.cursor.kind = .ident) :
    Gives s dottedName fun e _ => e.IsLawful := by
  unfold dottedName
  refine .bind (.bump_of_kind hk) fun first s₁ hfirst => .skip fun x s₂ => ?_
  refine Finds.loop ⟨hfirst.2.ident hfirst.1, trivial⟩ (fun base hbase s₃ => ?_) (fun _ => .auto) s₂
  refine .skip fun dot s₄ => ?_
  split
  · exact .identifier fun t ht s₅ => .skip fun x s₆ => .pure ⟨ht, hbase⟩
  · exact .pure hbase

instance steady_signedNumber : Steady signedNumber? := by unfold signedNumber?; exact .auto

theorem finds_signedNumber : Finds signedNumber? (Every.optExpr Node.Lawful) := by
  intro s
  unfold signedNumber?
  refine .skip fun first s₁ => ?_
  split
  · refine .skip fun _ s₂ => .skip fun t s₃ => ?_
    split
    · refine finds_number.bind fun operand hoperand s₄ => .skip fun x s₅ => .pure ?_
      exact ⟨trivial, hoperand⟩
    · exact .fault
  · split
    · exact finds_number.bind fun e he s₂ => .pure he
    · exact .fault

instance steady_complexNumber : Steady complexNumber := by unfold complexNumber; exact .auto

theorem finds_complexNumber : Finds complexNumber Expr.IsLawful := by
  intro s
  unfold complexNumber
  refine .skip fun first s₁ => finds_signedNumber.bind fun real hreal s₂ => ?_
  split
  · exact ⟨fun _ _ => ⟨trivial, trivial⟩⟩
  · refine .skip fun sign s₃ => .skip fun next s₄ => ?_
    split
    · refine .skip fun _ s₅ => finds_number.bind fun imaginary himaginary s₆ => ?_
      exact .skip fun x s₇ => .pure ⟨trivial, hreal, himaginary⟩
    · exact .pure hreal

instance steady_patternValue : Steady (patternValue r) := by unfold patternValue; exact .auto

theorem finds_patternValue (hr : r.Lawful) : Finds (patternValue r) Expr.IsLawful := by
  intro s
  unfold patternValue
  refine .bind (.kind 0) fun k s₁ hk => ?_
  obtain ⟨rfl, rfl⟩ := hk
  split
  · exact finds_strings hr s₁
  · exact finds_atom hr s₁
  · exact finds_atom hr s₁
  · exact finds_atom hr s₁
  · next hk => exact gives_dottedName hk
  · exact finds_complexNumber s₁

/-! ## Patterns in brackets -/

instance steady_sequencePattern (first : Token) (closing : Token.Kind) :
    Steady (sequencePattern r first closing) := by
  unfold sequencePattern; exact .auto

theorem finds_sequencePattern (hr : r.Lawful) {first : Token} {closing : Token.Kind} :
    Finds (sequencePattern r first closing) Pattern.IsLawful := by
  intro s
  unfold sequencePattern
  refine .skip fun _ s₁ => ?_
  refine Finds.bind (Q := fun found => ∀ p ∈ found.1, Pattern.IsLawful p) ?_
    fun ⟨items, sawComma⟩ hitems s₂ => ?_
  · refine Finds.loop (by simp) fun ⟨items, sawComma⟩ hitems s => ?_
    refine .skip fun aborted s₁ => .skip fun closed s₂ => .skip fun eof s₃ => ?_
    split
    · exact .pure hitems
    · refine hr.pattern.bind fun p hp s₄ => .skip fun comma s₅ => .pure ?_
      exact List.forall_mem_append.mpr ⟨hitems, by simpa using hp⟩
  · refine .skip fun _ s₃ => ?_
    dsimp only at hitems ⊢
    split
    · exact .pure (hitems _ (by simp))
    · exact .skip fun x s₄ => .pure ⟨trivial, Every.patterns_iff.mpr hitems⟩

instance steady_mappingEntry : Steady (mappingEntry r) := by unfold mappingEntry; exact .auto

theorem finds_mappingEntry (hr : r.Lawful) :
    Finds (mappingEntry r) fun e => Every.patternEntries Node.Lawful [e] := by
  intro s
  unfold mappingEntry
  refine (finds_patternValue hr).bind fun key hkey s₁ => ?_
  refine .bind (.expect .colon) fun colon s₂ hcolon => ?_
  rw [if_pos hcolon.1]
  exact hr.pattern.bind fun p hp s₃ => .pure ⟨hkey, hp, trivial⟩

instance steady_mappingPattern (first : Token) : Steady (mappingPattern r first) := by
  unfold mappingPattern; exact .auto

theorem finds_mappingPattern (hr : r.Lawful) {first : Token} :
    Finds (mappingPattern r first) Pattern.IsLawful := by
  intro s
  unfold mappingPattern
  dsimp only
  refine .skip fun _ s₁ => ?_
  refine Finds.bind (Q := fun found => (∀ e ∈ found.1, Every.patternEntries Node.Lawful [e]) ∧
    ∀ id ∈ found.2, Text.IsWord id) ?_ fun ⟨entries, rest⟩ hfound s₂ => ?_
  · refine Finds.loop (by simp) fun ⟨entries, rest⟩ hfound s => ?_
    refine .skip fun aborted s₁ => .skip fun closed s₂ => .skip fun eof s₃ => ?_
    split
    · exact .pure hfound
    · refine .skip fun isRest s₄ => ?_
      split
      · refine .bind (.peek 0) fun t s₅ ht => .bind (.expect .ident) fun b s₆ hb => ?_
        obtain ⟨rfl, rfl, ht⟩ := ht
        refine .skip fun comma s₇ => .pure ⟨hfound.1, ?_⟩
        rw [if_pos hb.1]
        simpa using ht.ident hb.2
      · refine (finds_mappingEntry hr).bind fun e he s₅ => .skip fun comma s₆ => .pure ?_
        exact ⟨List.forall_mem_append.mpr ⟨hfound.1, by simpa using he⟩, hfound.2⟩
  · refine .skip fun _ s₃ => .skip fun x s₄ => .pure ?_
    exact ⟨hfound.2, Every.patternEntries_iff.mpr hfound.1⟩

instance steady_classPattern (first : Token) (cls : Expr) : Steady (classPattern r first cls) := by
  unfold classPattern; exact .auto

theorem finds_classPattern (hr : r.Lawful) {first : Token} {cls : Expr} (hcls : cls.IsLawful) :
    Finds (classPattern r first cls) Pattern.IsLawful := by
  intro s
  unfold classPattern
  dsimp only
  refine .skip fun _ s₁ => ?_
  refine Finds.bind (Q := fun found => (∀ p ∈ found.1, Pattern.IsLawful p) ∧
    ∀ k ∈ found.2, Every.patternKeywords Node.Lawful [k] ∧ k.attr.IsWord) ?_
    fun ⟨positional, keywords⟩ hfound s₂ => ?_
  · refine Finds.loop (by simp) fun ⟨positional, keywords⟩ hfound s => ?_
    refine .bind (.peek 0) fun t s₁ ht => .skip fun aborted s₂ => ?_
    split
    · exact .pure hfound
    · refine .skip fun next s₃ => ?_
      split
      · next hcond =>
        rw [Bool.and_eq_true, decide_eq_true_eq] at hcond
        refine .skip fun _ s₄ => .skip fun _ s₅ => hr.pattern.bind fun p hp s₆ => ?_
        refine .skip fun comma s₇ => .pure ⟨hfound.1, List.forall_mem_append.mpr ⟨hfound.2, ?_⟩⟩
        have hkeyword : Every.patternKeywords Node.Lawful [.mk t.lexeme p] := ⟨hp, trivial⟩
        simpa using ⟨hkeyword, ht.2.2.ident hcond.1⟩
      · have hpositional (s : State) : Gives s (do
            let p ← r.pattern
            return ((positional ++ [p], keywords), ← eat .comma)) fun found _ =>
              (∀ p ∈ found.1.1, Pattern.IsLawful p) ∧
                ∀ k ∈ found.1.2, Every.patternKeywords Node.Lawful [k] ∧ k.attr.IsWord :=
          hr.pattern.bind fun p hp _ => .skip fun comma _ =>
            .pure ⟨List.forall_mem_append.mpr ⟨hfound.1, by simpa using hp⟩, hfound.2⟩
        split
        · exact hpositional s₃
        · exact .fault
  · refine .skip fun _ s₃ => .skip fun x s₄ => .pure ?_
    exact ⟨fun k hk => (hfound.2 k hk).2, hcls, Every.patterns_iff.mpr hfound.1,
      Every.patternKeywords_iff.mpr fun k hk => (hfound.2 k hk).1⟩

/-! ## Patterns -/

theorem lawful_as {x : Extent} {id : Option Text} (h : ∀ t ∈ id, Text.IsWord t) :
    (Pattern.as x none id).IsLawful :=
  ⟨h, trivial⟩

instance steady_namePattern (first : Token) : Steady (namePattern r first) := by
  unfold namePattern; exact .auto

theorem finds_namePattern (hr : r.Lawful) {first : Token} (hfirst : first.lexeme.IsWord) :
    Finds (namePattern r first) Pattern.IsLawful := by
  intro s
  unfold namePattern
  dsimp only
  refine .skip fun next s₁ => ?_
  split
  · refine (finds_patternValue hr).bind fun value hvalue s₂ => .skip fun isClass s₃ => ?_
    split
    · exact finds_classPattern hr hvalue s₃
    · exact .skip fun x s₄ => .pure ⟨trivial, hvalue⟩
  · refine .skip fun _ s₂ => .skip fun x s₃ => .pure (lawful_as ?_)
    split
    · simp
    · simpa using hfirst

instance steady_starPattern (first : Token) : Steady (starPattern first) := by
  unfold starPattern; exact .auto

theorem finds_starPattern {first : Token} : Finds (starPattern first) Pattern.IsLawful := by
  intro s
  unfold starPattern
  dsimp only
  refine .skip fun _ s₁ => .bind (.peek 0) fun t s₂ ht => .bind (.expect .ident) fun b s₃ hb => ?_
  obtain ⟨rfl, rfl, ht⟩ := ht
  refine .skip fun x s₄ => .pure ⟨?_, trivial⟩
  show ∀ id ∈ _, Text.IsWord id
  rw [if_pos hb.1]
  split
  · simp
  · simpa using ht.ident hb.2

instance steady_singletonPattern (first : Token) (value : Singleton) :
    Steady (singletonPattern first value) := by
  unfold singletonPattern; exact .auto

instance steady_closedPattern : Steady (closedPattern r) := by unfold closedPattern; exact .auto

theorem finds_closedPattern (hr : r.Lawful) : Finds (closedPattern r) Pattern.IsLawful := by
  intro s
  unfold closedPattern
  refine .bind (.peek 0) fun first s₁ hfirst => .skip fun aborted s₂ => ?_
  have hsingleton (value : Singleton) (s : State) :
      Gives s (singletonPattern first value) fun p _ => p.IsLawful :=
    .skip fun _ _ => .skip fun x _ => .pure ⟨trivial, trivial⟩
  split
  · exact .skip fun x s₃ => .pure ⟨trivial, trivial⟩
  · split
    · exact hsingleton _ s₂
    · exact hsingleton _ s₂
    · exact hsingleton _ s₂
    · exact finds_starPattern s₂
    · exact finds_sequencePattern hr s₂
    · exact finds_sequencePattern hr s₂
    · exact finds_mappingPattern hr s₂
    · next hk => exact finds_namePattern hr (hfirst.2.2.ident hk) s₂
    · split
      · refine (finds_patternValue hr).bind fun value hvalue s₃ => .skip fun x s₄ => .pure ?_
        exact ⟨trivial, hvalue⟩
      · exact .fault

instance steady_orPattern : Steady (orPattern r) := by unfold orPattern; exact .auto

theorem finds_orPattern (hr : r.Lawful) : Finds (orPattern r) Pattern.IsLawful := by
  intro s
  unfold orPattern
  refine .skip fun first s₁ => (finds_closedPattern hr).bind fun head hhead s₂ => ?_
  refine .skip fun pipe s₃ => ?_
  split
  · refine (Finds.collectAfter (by simpa using hhead) (finds_closedPattern hr)).bind
      fun items hitems s₄ => .skip fun x s₅ => .pure ?_
    exact ⟨trivial, Every.patterns_iff.mpr hitems⟩
  · exact .pure hhead

instance steady_pattern : Steady (pattern r) := by unfold pattern; exact .auto

theorem finds_pattern (hr : r.Lawful) : Finds (pattern r) Pattern.IsLawful := by
  intro s
  unfold pattern
  dsimp only
  refine .skip fun first s₁ => (finds_orPattern hr).bind fun inner hinner s₂ => ?_
  refine .skip fun isAs s₃ => ?_
  split
  · refine .identifier fun t ht s₄ => ?_
    split
    · exact .fault
    · exact .skip fun x s₅ => .pure ⟨by simpa [Node.Lawful] using ht, hinner⟩
  · exact .pure hinner

instance steady_patterns : Steady (patterns r) := by unfold patterns; exact .auto

theorem finds_patterns (hr : r.Lawful) : Finds (patterns r) Pattern.IsLawful := by
  intro s
  unfold patterns
  refine .skip fun first s₁ => hr.pattern.bind fun head hhead s₂ => .skip fun comma s₃ => ?_
  split
  · refine (Finds.collectCommas (by simpa using hhead) hr.pattern).bind
      fun items hitems s₄ => .skip fun x s₅ => .pure ?_
    exact ⟨trivial, Every.patterns_iff.mpr hitems⟩
  · exact .pure hhead

end CloneScout.Grammar
