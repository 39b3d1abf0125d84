import CloneScout.Proofs.Tree.Faithful

/-!
# Texts without names of fields

Nodes of one kind have the same fields in the same order, and a field carries its name behind one
that is left out. So the names of the other fields can be left out as well: expressions and patterns
with the same text differ in nothing but extents and the spelling of floating-point numbers.
-/

namespace CloneScout

namespace Document

/-! ## Kinds of nodes and their fields -/

/-- The fields of the kinds of nodes in expressions and patterns. Kinds without fields are not
listed. -/
def schema : List (String × List String) :=
  [("BoolOp", ["op", "values"]), ("NamedExpr", ["target", "value"]),
    ("BinOp", ["left", "op", "right"]), ("UnaryOp", ["op", "operand"]),
    ("Lambda", ["args", "body"]), ("IfExp", ["test", "body", "orelse"]),
    ("Dict", ["keys", "values"]), ("Set", ["elts"]), ("ListComp", ["elt", "generators"]),
    ("SetComp", ["elt", "generators"]), ("DictComp", ["key", "value", "generators"]),
    ("GeneratorExp", ["elt", "generators"]), ("Await", ["value"]), ("Yield", ["value"]),
    ("YieldFrom", ["value"]), ("Compare", ["left", "ops", "comparators"]),
    ("Call", ["func", "args", "keywords"]),
    ("FormattedValue", ["value", "conversion", "format_spec"]), ("JoinedStr", ["values"]),
    ("Constant", ["value", "kind"]), ("Attribute", ["value", "attr", "ctx"]),
    ("Subscript", ["value", "slice", "ctx"]), ("Starred", ["value", "ctx"]),
    ("Name", ["id", "ctx"]), ("List", ["elts", "ctx"]), ("Tuple", ["elts", "ctx"]),
    ("Slice", ["lower", "upper", "step"]), ("keyword", ["arg", "value"]),
    ("comprehension", ["target", "iter", "ifs", "is_async"]), ("arg", ["arg", "annotation"]),
    ("arguments", ["posonlyargs", "args", "vararg", "kwonlyargs", "kw_defaults", "kwarg",
      "defaults"]),
    ("MatchValue", ["value"]), ("MatchSingleton", ["value"]), ("MatchSequence", ["patterns"]),
    ("MatchMapping", ["keys", "patterns", "rest"]),
    ("MatchClass", ["cls", "patterns", "kwd_attrs", "kwd_patterns"]), ("MatchStar", ["name"]),
    ("MatchAs", ["pattern", "name"]), ("MatchOr", ["patterns"])]

def labels (kind : String) : List String := (schema.lookup kind).getD []

theorem nodup_labels (kind : String) : (labels kind).Nodup := by
  have hall : ∀ entry ∈ schema, entry.2.Nodup := by decide
  rw [labels]
  cases hlookup : schema.lookup kind with
  | none => exact List.nodup_nil
  | some ls =>
    obtain ⟨before, after, hschema, -⟩ := List.lookup_eq_some_iff.mp hlookup
    exact hall (kind, ls) (by rw [hschema]; simp)

mutual

/-- Every node has the fields of its kind, in their order. -/
def Conforms : Document → Prop
  | .list items => AllConform items
  | .node kind fs => fs.map Prod.fst = labels kind ∧ FieldsConform fs
  | _ => True

def AllConform : List Document → Prop
  | [] => True
  | d :: rest => Conforms d ∧ AllConform rest

def FieldsConform : List (String × Option Document) → Prop
  | [] => True
  | (_, none) :: rest => FieldsConform rest
  | (_, some v) :: rest => Conforms v ∧ FieldsConform rest

end

/-- A part that can be left out conforms where it is present. -/
def OptConforms (o : Option Document) : Prop := ∀ d ∈ o, d.Conforms

theorem optConforms_some {d : Document} : OptConforms (some d) ↔ d.Conforms := by
  simp [OptConforms]

theorem fieldsConform_cons {label : String} {o : Option Document}
    {fs : List (String × Option Document)} :
    FieldsConform ((label, o) :: fs) ↔ OptConforms o ∧ FieldsConform fs := by
  cases o <;> simp [FieldsConform, OptConforms]

theorem allConform_iff {items : List Document} : AllConform items ↔ ∀ d ∈ items, d.Conforms := by
  induction items with
  | nil => simp [AllConform]
  | cons d items ih => rw [AllConform, ih, List.forall_mem_cons]

theorem FieldsConform.of_mem_parts {fs : List (String × Option Document)} (h : FieldsConform fs)
    {shown : Bool} {p : Option String × Document} (hp : p ∈ parts shown fs) : p.2.Conforms := by
  induction fs generalizing shown with
  | nil => exact absurd hp (by simp [parts])
  | cons g fs ih =>
    obtain ⟨label, value⟩ := g
    cases value with
    | none => exact ih h hp
    | some v =>
      rcases List.mem_cons.mp hp with rfl | hp
      · exact h.1
      · exact ih h.2 hp

/-! ## Fields from what a node shows of them -/

/-- Behind a field that is left out every field carries its name. -/
theorem label_of_mem_parts {fs : List (String × Option Document)} {p : Option String × Document}
    (hp : p ∈ parts true fs) : ∃ label ∈ fs.map Prod.fst, p.1 = some label := by
  induction fs with
  | nil => exact absurd hp (by simp [parts])
  | cons g fs ih =>
    obtain ⟨label, value⟩ := g
    have hrest (hp : p ∈ parts true fs) :
        ∃ l ∈ ((label, value) :: fs).map Prod.fst, p.1 = some l := by
      obtain ⟨l, hl, heq⟩ := ih hp
      exact ⟨l, List.mem_cons_of_mem _ hl, heq⟩
    cases value with
    | none => exact hrest hp
    | some v =>
      rcases List.mem_cons.mp hp with rfl | hp
      · exact ⟨label, List.mem_cons_self, rfl⟩
      · exact hrest hp

/-- A field that is left out is not taken for one that is present. -/
theorem parts_ne_cons {label : String} {v : Document} {fs fs' : List (String × Option Document)}
    {shown : Bool} (hlabel : label ∉ fs.map Prod.fst) :
    parts true fs ≠ parts shown ((label, some v) :: fs') := by
  intro h
  rw [parts] at h
  have hmem : (if shown then some label else none, v) ∈ parts true fs := by
    rw [h]
    exact List.mem_cons_self
  obtain ⟨l, hl, heq⟩ := label_of_mem_parts hmem
  cases shown with
  | true => exact hlabel (Option.some.inj heq ▸ hl)
  | false => exact nomatch heq

theorem fields_eq_of_parts_eq {shown : Bool} {fs fs' : List (String × Option Document)}
    (hsame : fs'.map Prod.fst = fs.map Prod.fst) (hnodup : (fs.map Prod.fst).Nodup)
    (h : parts shown fs = parts shown fs') : fs = fs' := by
  induction fs generalizing shown fs' with
  | nil => exact (List.map_eq_nil_iff.mp hsame).symm
  | cons g fs ih =>
    obtain ⟨label, o⟩ := g
    cases fs' with
    | nil => exact nomatch hsame
    | cons g' fs' =>
      obtain ⟨label', o'⟩ := g'
      obtain ⟨rfl, hrest⟩ : label' = label ∧ fs'.map Prod.fst = fs.map Prod.fst :=
        List.cons.inj hsame
      obtain ⟨hnot, hrestNodup⟩ := List.nodup_cons.mp hnodup
      cases o with
      | none =>
        cases o' with
        | none => rw [ih hrest hrestNodup h]
        | some v' => exact absurd h (parts_ne_cons hnot)
      | some v =>
        cases o' with
        | none => exact absurd h.symm (parts_ne_cons (hrest ▸ hnot))
        | some v' =>
          obtain ⟨hfirst, htail⟩ := List.cons.inj h
          rw [(Prod.mk.inj hfirst).2, ih hrest hrestNodup htail]

/-- Where nodes have the fields of their kind no names are needed. -/
theorem legible_conforms : Legible false true fun d => d.Readable true ∧ d.Conforms where
  readable h := h.1
  items h d hd := ⟨allReadable_iff.mp h.1 d hd, allConform_iff.mp h.2 d hd⟩
  parts h _ hp := ⟨(h.1.2.2.of_mem_parts hp).2, h.2.2.of_mem_parts hp⟩
  fields {kind fs fs'} h h' hparts := by
    have hnodup : (fs.map Prod.fst).Nodup := by
      rw [h.2.1]
      exact nodup_labels kind
    exact fields_eq_of_parts_eq (h'.2.1.trans h.2.1.symm) hnodup hparts

end Document

namespace Dump

open Document (Conforms AllConform FieldsConform OptConforms optConforms_some fieldsConform_cons)

/-! ## Trees -/

theorem conforms_optWord (t : Option Text) : OptConforms (t.map Document.quoted) := by
  cases t <;> simp [OptConforms, Conforms]

theorem conforms_constant (c : Constant) : (constant c).Conforms := by cases c <;> trivial

theorem conforms_mark (c : Constant) : OptConforms (mark c) := by
  unfold mark
  split <;> simp [OptConforms, Conforms]

theorem conforms_conversion (c : Option Conversion) : (conversion c).Conforms := by
  rcases c with _ | _ | _ | _ <;> trivial

theorem conforms_singleton (c : Singleton) : (singleton c).Conforms := by cases c <;> trivial

theorem conforms_context (c : Context) : (Document.bare c.label).Conforms := by
  cases c <;> exact ⟨by decide, trivial⟩

theorem conforms_boolOp (op : BoolOp) : (Document.bare op.label).Conforms := by
  cases op <;> exact ⟨by decide, trivial⟩

theorem conforms_binaryOp (op : BinaryOp) : (Document.bare op.label).Conforms := by
  cases op <;> exact ⟨by decide, trivial⟩

theorem conforms_unaryOp (op : UnaryOp) : (Document.bare op.label).Conforms := by
  cases op <;> exact ⟨by decide, trivial⟩

theorem conforms_compareOps (ops : List CompareOp) :
    AllConform (ops.map fun op => Document.bare op.label) := by
  refine Document.allConform_iff.mpr fun d hd => ?_
  obtain ⟨op, -, rfl⟩ := List.mem_map.mp hd
  cases op <;> exact ⟨by decide, trivial⟩

mutual

theorem conforms_expr (e : Expr) : (expr e).Conforms := by
  cases e <;> refine ⟨rfl, ?_⟩ <;>
    simp [fieldsConform_cons, FieldsConform, Conforms, conforms_constant, conforms_mark,
      conforms_conversion, conforms_context, conforms_boolOp, conforms_binaryOp, conforms_unaryOp,
      conforms_compareOps, conforms_expr, conforms_exprs, conforms_optExpr, conforms_keys,
      conforms_values, conforms_keywords, conforms_comprehensions, conforms_params]

theorem conforms_exprs (es : List Expr) : AllConform (exprs es) := by
  cases es with
  | nil => trivial
  | cons e es => exact ⟨conforms_expr e, conforms_exprs es⟩

theorem conforms_optExpr (e : Option Expr) : OptConforms (optExpr e) := by
  cases e with
  | none => exact fun d hd => nomatch hd
  | some e => exact optConforms_some.mpr (conforms_expr e)

theorem conforms_keys : ∀ es : List Entry, AllConform (keys es)
  | [] => trivial
  | .pair key _ :: es => ⟨conforms_expr key, conforms_keys es⟩
  | .unpack _ :: es => ⟨trivial, conforms_keys es⟩

theorem conforms_values : ∀ es : List Entry, AllConform (values es)
  | [] => trivial
  | .pair _ value :: es => ⟨conforms_expr value, conforms_values es⟩
  | .unpack value :: es => ⟨conforms_expr value, conforms_values es⟩

theorem conforms_keywords : ∀ ks : List Keyword, AllConform (keywords ks)
  | [] => trivial
  | .mk arg value :: ks => by
    refine ⟨⟨rfl, ?_⟩, conforms_keywords ks⟩
    exact fieldsConform_cons.mpr ⟨conforms_optWord arg, conforms_expr value, trivial⟩

theorem conforms_comprehensions : ∀ gs : List Comprehension, AllConform (comprehensions gs)
  | [] => trivial
  | .mk target iter conditions isAsync :: gs => by
    refine ⟨⟨rfl, ?_⟩, conforms_comprehensions gs⟩
    exact ⟨conforms_expr target, conforms_expr iter, conforms_exprs conditions, trivial, trivial⟩

theorem conforms_param : ∀ q : Param, (param q).Conforms
  | .mk _ hint _ =>
    ⟨rfl, trivial, fieldsConform_cons.mpr ⟨conforms_optExpr hint, trivial⟩⟩

theorem conforms_optParam (q : Option Param) : OptConforms (optParam q) := by
  cases q with
  | none => exact fun d hd => nomatch hd
  | some q => exact optConforms_some.mpr (conforms_param q)

theorem conforms_paramList (qs : List Param) : AllConform (paramList qs) := by
  cases qs with
  | nil => trivial
  | cons q qs => exact ⟨conforms_param q, conforms_paramList qs⟩

theorem conforms_defaults : ∀ qs : List Param, AllConform (defaults qs)
  | [] => trivial
  | .mk _ _ none :: qs => by
    rw [defaults]
    exact conforms_defaults qs
  | .mk _ _ (some value) :: qs => ⟨conforms_expr value, conforms_defaults qs⟩

theorem conforms_kwDefaults : ∀ qs : List Param, AllConform (kwDefaults qs)
  | [] => trivial
  | .mk _ _ none :: qs => ⟨trivial, conforms_kwDefaults qs⟩
  | .mk _ _ (some value) :: qs => ⟨conforms_expr value, conforms_kwDefaults qs⟩

theorem conforms_params : ∀ ps : Params, (params ps).Conforms
  | .mk posOnly plain star kwOnly doubleStar => by
    have hdefaults : AllConform (defaults posOnly ++ defaults plain) := by
      refine Document.allConform_iff.mpr fun d hd => ?_
      rcases List.mem_append.mp hd with hd | hd
      · exact Document.allConform_iff.mp (conforms_defaults posOnly) d hd
      · exact Document.allConform_iff.mp (conforms_defaults plain) d hd
    refine ⟨rfl, conforms_paramList posOnly, conforms_paramList plain, ?_⟩
    refine fieldsConform_cons.mpr ⟨conforms_optParam star, conforms_paramList kwOnly,
      conforms_kwDefaults kwOnly, ?_⟩
    exact fieldsConform_cons.mpr ⟨conforms_optParam doubleStar, hdefaults, trivial⟩

end

theorem conforms_words (ts : List Text) : (words ts).Conforms := by
  refine Document.allConform_iff.mpr fun d hd => ?_
  obtain ⟨t, -, rfl⟩ := List.mem_map.mp hd
  trivial

mutual

theorem conforms_pattern (p : Pattern) : (pattern p).Conforms := by
  cases p <;> refine ⟨rfl, ?_⟩ <;>
    simp [fieldsConform_cons, FieldsConform, Conforms, conforms_singleton, conforms_optWord,
      conforms_words, conforms_expr, conforms_patterns, conforms_optPattern, conforms_patternKeys,
      conforms_patternValues, conforms_keywordPatterns]

theorem conforms_patterns (ps : List Pattern) : AllConform (patterns ps) := by
  cases ps with
  | nil => trivial
  | cons p ps => exact ⟨conforms_pattern p, conforms_patterns ps⟩

theorem conforms_optPattern (p : Option Pattern) : OptConforms (optPattern p) := by
  cases p with
  | none => exact fun d hd => nomatch hd
  | some p => exact optConforms_some.mpr (conforms_pattern p)

theorem conforms_patternKeys : ∀ es : List PatternEntry, AllConform (patternKeys es)
  | [] => trivial
  | .mk key _ :: es => ⟨conforms_expr key, conforms_patternKeys es⟩

theorem conforms_patternValues : ∀ es : List PatternEntry, AllConform (patternValues es)
  | [] => trivial
  | .mk _ p :: es => ⟨conforms_pattern p, conforms_patternValues es⟩

theorem conforms_keywordPatterns : ∀ ks : List PatternKeyword, AllConform (keywordPatterns ks)
  | [] => trivial
  | .mk _ p :: ks => ⟨conforms_pattern p, conforms_keywordPatterns ks⟩

end

/-! ## Expressions and patterns with the same text -/

theorem keepsNames_id : KeepsNames id := fun _ _ => rfl

/-- Expressions with the same text without names of fields are the same but for extents and the
spelling of floating-point numbers. -/
theorem spelled_eq_of_exprText_eq {e e' : Expr} (he : Every.expr Node.Lawful e)
    (he' : Every.expr Node.Lawful e') (h : exprText false e = exprText false e') (p : Place) :
    (Outline.spelled id).expr p e = (Outline.spelled id).expr p e' := by
  have hsame : expr e = expr e' :=
    Document.legible_conforms.eq_of_toText_eq ⟨readable_expr he, conforms_expr e⟩
      ⟨readable_expr he', conforms_expr e'⟩ h
  have hshown : (expr e).shown id false = (expr e').shown id false := by rw [hsame]
  exact expr_eq keepsNames_id he he' p hshown

/-- The same for patterns. -/
theorem spelled_eq_of_patternText_eq {p p' : Pattern} (hp : Every.pattern Node.Lawful p)
    (hp' : Every.pattern Node.Lawful p') (h : patternText false p = patternText false p') :
    (Outline.spelled id).pattern p = (Outline.spelled id).pattern p' := by
  have hsame : pattern p = pattern p' :=
    Document.legible_conforms.eq_of_toText_eq ⟨readable_pattern hp, conforms_pattern p⟩
      ⟨readable_pattern hp', conforms_pattern p'⟩ h
  have hshown : (pattern p).shown id false = (pattern p').shown id false := by rw [hsame]
  exact pattern_eq keepsNames_id hp hp' hshown

end Dump

end CloneScout
