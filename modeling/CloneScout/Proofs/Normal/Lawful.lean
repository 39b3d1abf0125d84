import CloneScout.Proofs.Tree.Lawful

/-!
# The normal form of a lawful tree is lawful

Normal forms have the names of the tree or fixed words, its constants or a fixed text, and default
values where the tree has them. So what is true of every lawful tree is true of its normal form, and
what is true of the constants of the tree is true of those of its normal form if it is true of that
text.
-/

namespace CloneScout

/-- What constants are, apart from all other nodes. -/
def Node.Holds (Q : Constant → Prop) : Node → Prop
  | .expr (.constant _ c) => Q c
  | _ => True

theorem Node.Holds.imp {Q Q' : Constant → Prop} (h : ∀ c, Q c → Q' c) {n : Node} (hn : n.Holds Q) :
    n.Holds Q' := by
  unfold Node.Holds at hn ⊢
  split
  next => exact h _ hn
  next => trivial

theorem Node.holds_of_forall {Q : Constant → Prop} (h : ∀ c, Q c) (n : Node) : n.Holds Q := by
  unfold Node.Holds
  split
  next => exact h _
  next => trivial

/-- The node is lawful and its constant has the property. -/
def Node.LawfulWith (Q : Constant → Prop) (n : Node) : Prop := n.Lawful ∧ n.Holds Q

namespace Normal

variable {cfg : Config}

/-! ## Single nodes -/

theorem isWord_variableWord : variableWord.IsWord := ⟨.of_ascii (by decide), by decide⟩

theorem isWord_attributeWord : attributeWord.IsWord := ⟨.of_ascii (by decide), by decide⟩

theorem isWord_name (target : Bool) {id : Text} (h : id.IsWord) : (name cfg target id).IsWord := by
  unfold name
  split
  · exact isWord_variableWord
  · exact h

theorem isWord_attr (target : Bool) {id : Text} (h : id.IsWord) : (attr cfg target id).IsWord := by
  unfold attr
  split
  · exact isWord_attributeWord
  · exact h

theorem lawful_constant {c : Constant} (h : c.Lawful) : (constant cfg c).Lawful := by
  have hword : Utf8.IsEncoded constantWord := .of_ascii (by decide)
  unfold constant
  split
  · split
    · exact hword
    · exact hword
  · exact h

theorem arg_keywords (cfg : Config) (ks : List Keyword) :
    (keywords cfg ks).map Keyword.arg = ks.map Keyword.arg := by
  induction ks with
  | nil => rfl
  | cons k ks ih =>
    obtain ⟨arg, value⟩ := k
    rw [keywords, List.map_cons, ih, List.map_cons, Keyword.arg, Keyword.arg]

/-- Keyword arguments keep their names. -/
theorem isWord_keywords {ks : List Keyword} (h : ∀ k ∈ ks, ∀ id ∈ k.arg, id.IsWord) :
    ∀ k ∈ keywords cfg ks, ∀ id ∈ k.arg, id.IsWord := by
  intro k hk
  have hmem : k.arg ∈ ks.map Keyword.arg := by
    rw [← arg_keywords cfg]
    exact List.mem_map_of_mem hk
  obtain ⟨k', hk', harg⟩ := List.mem_map.mp hmem
  rw [← harg]
  exact h k' hk'

theorem name_param (q : Param) : (param cfg q).name = q.name := by
  cases q
  rfl

theorem isSome_default_param (q : Param) :
    (param cfg q).default.isSome = q.default.isSome := by
  obtain ⟨id, hint, _ | value⟩ := q <;> rfl

theorem paramList_eq_map (qs : List Param) : paramList cfg qs = qs.map (param cfg) := by
  induction qs with
  | nil => rfl
  | cons q qs ih => rw [paramList, ih, List.map_cons]

theorem optParam_eq_map (q : Option Param) : optParam cfg q = q.map (param cfg) := by
  cases q <;> rfl

/-- Parameters keep their names, and have default values where they had them. -/
theorem lawful_parameters {posOnly plain : List Param} {star : Option Param} {kwOnly : List Param}
    {doubleStar : Option Param} (h : Params.Lawful posOnly plain star kwOnly doubleStar) :
    Params.Lawful (paramList cfg posOnly) (paramList cfg plain) (optParam cfg star)
      (paramList cfg kwOnly) (optParam cfg doubleStar) := by
  have hnone {q : Option Param} (hq : ∀ p ∈ q, p.default = none) :
      ∀ p ∈ optParam cfg q, p.default = none := by
    intro p hp
    rw [optParam_eq_map] at hp
    obtain ⟨r, hr, rfl⟩ := Option.map_eq_some_iff.mp hp
    have hsome : (param cfg r).default.isSome = r.default.isSome := isSome_default_param r
    rw [hq r hr] at hsome
    simpa using hsome
  constructor
  · intro p hp
    have hmem : p ∈ (posOnly ++ plain ++ star.toList ++ kwOnly ++ doubleStar.toList).map
        (param cfg) := by
      simpa [paramList_eq_map, optParam_eq_map, Option.toList_map] using hp
    obtain ⟨q, hq, rfl⟩ := List.mem_map.mp hmem
    rw [name_param]
    exact h.names q hq
  · rw [paramList_eq_map, paramList_eq_map, ← List.map_append, List.pairwise_map]
    refine h.defaults.imp fun hpq => ?_
    rw [isSome_default_param, isSome_default_param]
    exact hpq
  · exact hnone h.star
  · exact hnone h.doubleStar

/-! ## Expressions -/

section

variable {Q Q' : Constant → Prop}

/-- Constants with one property become constants with another. -/
def Carries (cfg : Config) (Q Q' : Constant → Prop) : Prop := ∀ c, Q c → Q' (constant cfg c)

theorem every_unary {x : Extent} {op : UnaryOp} {operand : Expr}
    (h : Every.expr (Node.LawfulWith Q) operand) :
    Every.expr (Node.LawfulWith Q) (unary x op operand) := by
  unfold unary
  split
  · split
    · simp only [Every.expr] at h ⊢
      exact ⟨⟨trivial, trivial⟩, h.2⟩
    · exact ⟨⟨trivial, trivial⟩, h⟩
  · exact ⟨⟨trivial, trivial⟩, h⟩

theorem every_binary {x : Extent} {op : BinaryOp} {left right normalLeft normalRight : Expr}
    (hl : Every.expr (Node.LawfulWith Q) normalLeft)
    (hr : Every.expr (Node.LawfulWith Q) normalRight) :
    Every.expr (Node.LawfulWith Q) (binary x op left right normalLeft normalRight) := by
  unfold binary
  split
  · exact ⟨⟨trivial, trivial⟩, hr, hl⟩
  · exact ⟨⟨trivial, trivial⟩, hl, hr⟩

theorem every_load {e : Expr} (h : Every.expr (Node.LawfulWith Q) e) :
    Every.expr (Node.LawfulWith Q) (load e) := by
  cases e <;> exact h

mutual

theorem every_expr (hc : Carries cfg Q Q') (target : Bool) {e : Expr}
    (h : Every.expr (Node.LawfulWith Q) e) :
    Every.expr (Node.LawfulWith Q') (expr cfg target e) := by
  cases e with
  | binary x left op right =>
    exact every_binary (every_expr hc false h.2.1) (every_expr hc false h.2.2)
  | unary x op operand => exact every_unary (every_expr hc false h.2)
  | lambda x ps body =>
    refine ⟨⟨?_, trivial⟩, every_params hc h.2.1, every_expr hc false h.2.2⟩
    obtain ⟨posOnly, plain, star, kwOnly, doubleStar⟩ := ps
    exact lawful_parameters h.1.1
  | call x func args kws =>
    exact ⟨⟨isWord_keywords h.1.1, trivial⟩, every_expr hc true h.2.1, every_exprs hc h.2.2.1,
      every_keywords hc h.2.2.2⟩
  | constant x c => exact ⟨⟨lawful_constant h.1.1, hc c h.1.2⟩, trivial⟩
  | «attribute» x value id ctx =>
    exact ⟨⟨isWord_attr target h.1.1, trivial⟩, every_expr hc target h.2⟩
  | name x id ctx => exact ⟨⟨isWord_name target h.1.1, trivial⟩, trivial⟩
  | _ =>
    simp only [Every.expr] at h
    simp [expr, Every.expr, Node.LawfulWith, Node.Lawful, Node.Holds, h, every_expr hc,
      every_exprs hc, every_optExpr hc, every_entries hc, every_comprehensions hc]

theorem every_exprs (hc : Carries cfg Q Q') {es : List Expr}
    (h : Every.exprs (Node.LawfulWith Q) es) : Every.exprs (Node.LawfulWith Q') (exprs cfg es) := by
  cases es with
  | nil => trivial
  | cons e es => exact ⟨every_expr hc false h.1, every_exprs hc h.2⟩

theorem every_optExpr (hc : Carries cfg Q Q') {e : Option Expr}
    (h : Every.optExpr (Node.LawfulWith Q) e) :
    Every.optExpr (Node.LawfulWith Q') (optExpr cfg e) := by
  cases e with
  | none => trivial
  | some e => exact every_expr hc false h

theorem every_entries (hc : Carries cfg Q Q') : ∀ {es : List Entry},
    Every.entries (Node.LawfulWith Q) es → Every.entries (Node.LawfulWith Q') (dictEntries cfg es)
  | [], _ => trivial
  | .pair _ _ :: _, h =>
    ⟨every_expr hc false h.1, every_expr hc false h.2.1, every_entries hc h.2.2⟩
  | .unpack _ :: _, h => ⟨every_expr hc false h.1, every_entries hc h.2⟩

theorem every_keywords (hc : Carries cfg Q Q') : ∀ {ks : List Keyword},
    Every.keywords (Node.LawfulWith Q) ks → Every.keywords (Node.LawfulWith Q') (keywords cfg ks)
  | [], _ => trivial
  | .mk _ _ :: _, h => ⟨every_expr hc false h.1, every_keywords hc h.2⟩

theorem every_comprehensions (hc : Carries cfg Q Q') : ∀ {gs : List Comprehension},
    Every.comprehensions (Node.LawfulWith Q) gs →
    Every.comprehensions (Node.LawfulWith Q') (comprehensions cfg gs)
  | [], _ => trivial
  | .mk _ _ _ _ :: _, h =>
    ⟨every_expr hc false h.1, every_expr hc false h.2.1, every_exprs hc h.2.2.1,
      every_comprehensions hc h.2.2.2⟩

theorem every_param (hc : Carries cfg Q Q') : ∀ {q : Param},
    Every.param (Node.LawfulWith Q) q → Every.param (Node.LawfulWith Q') (param cfg q)
  | .mk _ _ _, h => by
    refine ⟨?_, every_optExpr hc h.2⟩
    split
    · trivial
    · exact every_optExpr hc h.1

theorem every_optParam (hc : Carries cfg Q Q') {q : Option Param}
    (h : Every.optParam (Node.LawfulWith Q) q) :
    Every.optParam (Node.LawfulWith Q') (optParam cfg q) := by
  cases q with
  | none => trivial
  | some q => exact every_param hc h

theorem every_paramList (hc : Carries cfg Q Q') {qs : List Param}
    (h : Every.paramList (Node.LawfulWith Q) qs) :
    Every.paramList (Node.LawfulWith Q') (paramList cfg qs) := by
  cases qs with
  | nil => trivial
  | cons q qs => exact ⟨every_param hc h.1, every_paramList hc h.2⟩

theorem every_params (hc : Carries cfg Q Q') : ∀ {ps : Params},
    Every.params (Node.LawfulWith Q) ps → Every.params (Node.LawfulWith Q') (params cfg ps)
  | .mk _ _ _ _ _, h =>
    ⟨every_paramList hc h.1, every_paramList hc h.2.1, every_optParam hc h.2.2.1,
      every_paramList hc h.2.2.2.1, every_optParam hc h.2.2.2.2⟩

end

/-! ## Patterns -/

theorem attr_patternKeywords (cfg : Config) (ks : List PatternKeyword) :
    (patternKeywords cfg ks).map PatternKeyword.attr = ks.map PatternKeyword.attr := by
  induction ks with
  | nil => rfl
  | cons k ks ih =>
    obtain ⟨attr, p⟩ := k
    rw [patternKeywords, List.map_cons, ih, List.map_cons, PatternKeyword.attr,
      PatternKeyword.attr]

mutual

theorem every_pattern (hc : Carries cfg Q Q') {p : Pattern}
    (h : Every.pattern (Node.LawfulWith Q) p) :
    Every.pattern (Node.LawfulWith Q') (pattern cfg p) := by
  cases p with
  | mapping x entries rest => exact ⟨⟨h.1.1, trivial⟩, every_patternEntries hc h.2⟩
  | cls x cls ps kws =>
    refine ⟨⟨?_, trivial⟩, every_expr hc false h.2.1, every_patterns hc h.2.2.1,
      every_patternKeywords hc h.2.2.2⟩
    intro k hk
    have hmem : k.attr ∈ kws.map PatternKeyword.attr := by
      rw [← attr_patternKeywords cfg]
      exact List.mem_map_of_mem hk
    obtain ⟨k', hk', hattr⟩ := List.mem_map.mp hmem
    rw [← hattr]
    exact h.1.1 k' hk'
  | star x id => exact ⟨⟨h.1.1, trivial⟩, trivial⟩
  | as x p id => exact ⟨⟨h.1.1, trivial⟩, every_optPattern hc h.2⟩
  | _ =>
    simp only [Every.pattern] at h
    simp [pattern, Every.pattern, Node.LawfulWith, Node.Lawful, Node.Holds, h, every_expr hc,
      every_patterns hc]

theorem every_patterns (hc : Carries cfg Q Q') {ps : List Pattern}
    (h : Every.patterns (Node.LawfulWith Q) ps) :
    Every.patterns (Node.LawfulWith Q') (patterns cfg ps) := by
  cases ps with
  | nil => trivial
  | cons p ps => exact ⟨every_pattern hc h.1, every_patterns hc h.2⟩

theorem every_optPattern (hc : Carries cfg Q Q') {p : Option Pattern}
    (h : Every.optPattern (Node.LawfulWith Q) p) :
    Every.optPattern (Node.LawfulWith Q') (optPattern cfg p) := by
  cases p with
  | none => trivial
  | some p => exact every_pattern hc h

theorem every_patternEntries (hc : Carries cfg Q Q') : ∀ {es : List PatternEntry},
    Every.patternEntries (Node.LawfulWith Q) es →
    Every.patternEntries (Node.LawfulWith Q') (patternEntries cfg es)
  | [], _ => trivial
  | .mk _ _ :: _, h =>
    ⟨every_expr hc false h.1, every_pattern hc h.2.1, every_patternEntries hc h.2.2⟩

theorem every_patternKeywords (hc : Carries cfg Q Q') : ∀ {ks : List PatternKeyword},
    Every.patternKeywords (Node.LawfulWith Q) ks →
    Every.patternKeywords (Node.LawfulWith Q') (patternKeywords cfg ks)
  | [], _ => trivial
  | .mk _ _ :: _, h => ⟨every_pattern hc h.1, every_patternKeywords hc h.2⟩

end

/-! ## Statements -/

theorem name_handlers (cfg : Config) (hs : List Handler) :
    (handlers cfg hs).map Handler.name = hs.map Handler.name := by
  induction hs with
  | nil => rfl
  | cons k hs ih =>
    obtain ⟨type, id, body⟩ := k
    rw [handlers, List.map_cons, ih, List.map_cons, Handler.name, Handler.name]

theorem every_withItems (hc : Carries cfg Q Q') {ws : List WithItem}
    (h : Every.withItems (Node.LawfulWith Q) ws) :
    Every.withItems (Node.LawfulWith Q') (ws.map (withItem cfg)) := by
  intro v hv
  obtain ⟨w, hw, rfl⟩ := List.mem_map.mp hv
  exact ⟨every_expr hc false (h w hw).1, every_optExpr hc (h w hw).2⟩

mutual

theorem every_stmt (hc : Carries cfg Q Q') {s : Stmt} (h : Every.stmt (Node.LawfulWith Q) s) :
    Every.stmt (Node.LawfulWith Q') (stmt cfg s) := by
  cases s with
  | function x isAsync id ps body decorators returns =>
    have hbody := every_stmts hc h.2.2.1
    refine ⟨⟨?_, trivial⟩, every_params hc h.2.1, ?_, every_exprs hc h.2.2.2.1, ?_⟩
    · obtain ⟨posOnly, plain, star, kwOnly, doubleStar⟩ := ps
      exact ⟨h.1.1.1, lawful_parameters h.1.1.2⟩
    · split
      · exact Every.stmts_iff.mpr fun s hs => Every.stmts_iff.mp hbody s (List.mem_of_mem_drop hs)
      · exact hbody
    · split
      · trivial
      · exact every_optExpr hc h.2.2.2.2
  | classDef x id bases kws body decorators =>
    exact ⟨⟨⟨h.1.1.1, isWord_keywords h.1.1.2⟩, trivial⟩, every_exprs hc h.2.1,
      every_keywords hc h.2.2.1, every_stmts hc h.2.2.2.1, every_exprs hc h.2.2.2.2⟩
  | augAssign x target op value =>
    have htarget := every_expr hc false h.2.1
    exact ⟨⟨trivial, trivial⟩, ⟨htarget, trivial⟩,
      every_binary (every_load htarget) (every_expr hc false h.2.2)⟩
  | tryBlock x isStar body hs orelse finalbody =>
    refine ⟨⟨?_, trivial⟩, every_stmts hc h.2.1, every_handlers hc h.2.2.1,
      every_stmts hc h.2.2.2.1, every_stmts hc h.2.2.2.2⟩
    intro k hk
    have hmem : k.name ∈ hs.map Handler.name := by
      rw [← name_handlers cfg]
      exact List.mem_map_of_mem hk
    obtain ⟨k', hk', hname⟩ := List.mem_map.mp hmem
    rw [← hname]
    exact h.1.1 k' hk'
  | importNames x names => exact ⟨⟨h.1.1, trivial⟩, trivial⟩
  | importFrom x source names level => exact ⟨⟨h.1.1, trivial⟩, trivial⟩
  | global x names => exact ⟨⟨h.1.1, trivial⟩, trivial⟩
  | «nonlocal» x names => exact ⟨⟨h.1.1, trivial⟩, trivial⟩
  | _ =>
    simp only [Every.stmt] at h
    simp [stmt, Every.stmt, Node.LawfulWith, Node.Lawful, Node.Holds, h, every_expr hc,
      every_exprs hc, every_optExpr hc, every_withItems hc, every_stmts hc, every_cases hc]

theorem every_stmts (hc : Carries cfg Q Q') {ss : List Stmt}
    (h : Every.stmts (Node.LawfulWith Q) ss) : Every.stmts (Node.LawfulWith Q') (stmts cfg ss) := by
  cases ss with
  | nil => trivial
  | cons s ss => exact ⟨every_stmt hc h.1, every_stmts hc h.2⟩

theorem every_handlers (hc : Carries cfg Q Q') : ∀ {hs : List Handler},
    Every.handlers (Node.LawfulWith Q) hs → Every.handlers (Node.LawfulWith Q') (handlers cfg hs)
  | [], _ => trivial
  | .mk _ _ _ :: _, h =>
    ⟨every_optExpr hc h.1, every_stmts hc h.2.1, every_handlers hc h.2.2⟩

theorem every_cases (hc : Carries cfg Q Q') : ∀ {cs : List MatchCase},
    Every.cases (Node.LawfulWith Q) cs → Every.cases (Node.LawfulWith Q') (cases cfg cs)
  | [], _ => trivial
  | .mk _ _ _ :: _, h =>
    ⟨every_pattern hc h.1, every_optExpr hc h.2.1, every_stmts hc h.2.2.1, every_cases hc h.2.2.2⟩

end

end

end Normal

end CloneScout
