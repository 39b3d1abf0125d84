import CloneScout.Proofs.Grammar.Parse
import CloneScout.Proofs.Tree.Outline
import CloneScout.Proofs.Tree.Readable

/-!
# The document of a tree is faithful

Two lawful trees whose documents show the same are equal but for extents and the spelling of
floating-point numbers. With all fields named the same text is the same document, so two modules
with the same text differ in nothing else.
-/

namespace CloneScout

open Document (shown shownItems Alike FieldsAlike fieldsAlike_of_shown word_shown)

/-! ## Constants -/

/-- A constant as it is written out: the shortest text of a floating-point number, and texts and
byte strings as `f` shows them. -/
def Constant.spelled (f : Text → Text) : Constant → Constant
  | .float digits => .float (Shortest.text (FloatLiteral.value digits))
  | .imaginary digits => .imaginary (Shortest.imaginary (FloatLiteral.value digits))
  | .text value marked => .text (f value) marked
  | .bytes value => .bytes (f value)
  | c => c

namespace Dump

variable {f : Text → Text} {brief : Bool}

/-- Which of the unquoted constants a text is. -/
def atomIndex (t : Text) : Nat :=
  if t = utf8 "None" then 0
  else if t = utf8 "True" then 1
  else if t = utf8 "False" then 2
  else if t = utf8 "Ellipsis" then 3
  else if t.all Text.isDigit then 4
  else if t.getLast? = some (ascii 'j') then 6
  else 5

/-- A text without capital letters is none of the words that stand for constants. -/
theorem atomIndex_of_number {t : Text} (h : ∀ b ∈ t, Text.isUpper b = false) :
    atomIndex t = if t.all Text.isDigit then 4 else if t.getLast? = some (ascii 'j') then 6 else 5 := by
  have hne {s : String} (hs : ∃ b ∈ utf8 s, Text.isUpper b = true) : t ≠ utf8 s := by
    rintro rfl
    obtain ⟨b, hb, hupper⟩ := hs
    exact absurd hupper (by rw [h b hb]; decide)
  rw [atomIndex, if_neg (hne (by decide)), if_neg (hne (by decide)), if_neg (hne (by decide)),
    if_neg (hne (by decide))]

theorem isUpper_of_isDigit {b : UInt8} (h : Text.isDigit b = true) : Text.isUpper b = false := by
  have hnine : ascii '9' < ascii 'A' := by decide
  rw [Text.isDigit, Bool.and_eq_true, decide_eq_true_eq, decide_eq_true_eq] at h
  rw [Text.isUpper, Bool.and_eq_false_iff]
  refine .inl (decide_eq_false fun hA => ?_)
  exact absurd (UInt8.lt_of_lt_of_le hnine hA) (UInt8.not_lt.mpr h.2)

theorem isUpper_of_isMark {b : UInt8} (h : Shortest.isMark b = true) : Text.isUpper b = false := by
  have hmark : ∀ c ∈ utf8 ".+-einfa", Text.isUpper c = false := by decide
  rw [Shortest.isMark, Bool.or_eq_true] at h
  rcases h with h | h
  · exact isUpper_of_isDigit h
  · exact hmark b (List.contains_iff_mem.mp h)

theorem atomIndex_ofNat (n : Nat) : atomIndex (Text.ofNat n) = 4 := by
  have hdigits : (Text.ofNat n).all Text.isDigit = true :=
    List.all_eq_true.mpr fun b hb => Text.isDigit_of_mem_ofNat hb
  rw [atomIndex_of_number fun b hb => isUpper_of_isDigit (Text.isDigit_of_mem_ofNat hb),
    if_pos hdigits]

theorem atomIndex_float (v : Binary64) : atomIndex (Shortest.text v) = 5 := by
  obtain ⟨hmarks, b, hb, hno⟩ := Shortest.isFloat_text v
  have hdigits : ¬ (Shortest.text v).all Text.isDigit = true := by
    intro hall
    exact absurd (List.all_eq_true.mp hall b hb) (by rw [hno]; decide)
  have hj : (Shortest.text v).getLast? ≠ some (ascii 'j') := by
    intro hlast
    exact absurd (hmarks _ (List.mem_of_getLast? hlast)) (by decide)
  rw [atomIndex_of_number fun b hb => isUpper_of_isMark (hmarks b hb), if_neg hdigits, if_neg hj]

theorem atomIndex_imaginary (v : Binary64) : atomIndex (Shortest.imaginary v) = 6 := by
  obtain ⟨t, ht, hmarks⟩ := Shortest.imaginary_eq v
  have hj : ∀ b ∈ utf8 "j", Text.isUpper b = false ∧ Text.isDigit b = false := by decide
  have hlast : (Shortest.imaginary v).getLast? = some (ascii 'j') := by
    rw [ht, List.getLast?_append]
    rfl
  have hdigits : ¬ (Shortest.imaginary v).all Text.isDigit = true := by
    intro hall
    exact absurd (List.all_eq_true.mp hall _ (List.mem_of_getLast? hlast)) (by decide)
  rw [atomIndex_of_number, if_neg hdigits, if_pos hlast]
  intro b hb
  rw [ht] at hb
  exact (List.mem_append.mp hb).elim (fun hb => isUpper_of_isMark (hmarks b hb)) fun hb => (hj b hb).1

/-- Which of the constants a document is. -/
def constantIndex : Document → Nat
  | .atom t => atomIndex t
  | .quoted _ => 7
  | _ => 8

theorem constantIndex_shown (c : Constant) :
    constantIndex ((constant c).shown f brief) = c.ctorIdx := by
  cases c with
  | int n => exact atomIndex_ofNat n
  | float digits => exact atomIndex_float _
  | imaginary digits => exact atomIndex_imaginary _
  | _ => rfl

theorem constant_eq_of_shown {c c' : Constant}
    (h : (constant c).shown f brief = (constant c').shown f brief)
    (hmark : Alike f brief (mark c) (mark c')) : c.spelled f = c'.spelled f := by
  have hindex : c.ctorIdx = c'.ctorIdx := by
    rw [← constantIndex_shown c, h, constantIndex_shown]
  cases c <;> cases c' <;> try (simp [Constant.ctorIdx] at hindex; done)
  case int.int n n' => exact congrArg Constant.int (Text.ofNat_injective (Document.atom.inj h))
  case float.float digits digits' => exact congrArg Constant.float (Document.atom.inj h)
  case imaginary.imaginary digits digits' =>
    exact congrArg Constant.imaginary (Document.atom.inj h)
  case text.text value marked value' marked' =>
    have hvalue : f value = f value' := Document.quoted.inj h
    have hmarked : marked = marked' := by
      cases marked <;> cases marked' <;> first | rfl | exact absurd hmark id
    rw [Constant.spelled, Constant.spelled, hvalue, hmarked]
  case bytes.bytes value value' =>
    have hvalue : f value = f value' := Document.bytes.inj h
    rw [Constant.spelled, Constant.spelled, hvalue]
  all_goals rfl

/-! ## Other leaves -/

theorem eq_of_shown_bare {kind kind' : String}
    (h : (Document.bare kind).shown f brief = (Document.bare kind').shown f brief) :
    kind = kind' :=
  (Document.node.inj h).1

theorem context_eq {c c' : Context} (h : c.label = c'.label) : c = c' := by
  cases c <;> cases c' <;> simp_all [Context.label]

theorem boolOp_eq {op op' : BoolOp} (h : op.label = op'.label) : op = op' := by
  cases op <;> cases op' <;> simp_all [BoolOp.label]

theorem binaryOp_eq {op op' : BinaryOp} (h : op.label = op'.label) : op = op' := by
  cases op <;> cases op' <;> simp_all [BinaryOp.label]

theorem unaryOp_eq {op op' : UnaryOp} (h : op.label = op'.label) : op = op' := by
  cases op <;> cases op' <;> simp_all [UnaryOp.label]

theorem compareOp_eq {op op' : CompareOp} (h : op.label = op'.label) : op = op' := by
  cases op <;> cases op' <;> simp_all [CompareOp.label]

theorem compareOps_eq : ∀ {ops ops' : List CompareOp},
    shownItems f brief (ops.map fun op => .bare op.label) =
      shownItems f brief (ops'.map fun op => .bare op.label) → ops = ops'
  | [], [], _ => rfl
  | op :: ops, op' :: ops', h => by
    obtain ⟨hop, hops⟩ := List.cons.inj h
    rw [compareOp_eq (eq_of_shown_bare hop), compareOps_eq hops]

theorem flag_eq {b b' : Bool} (h : (flag b).shown f brief = (flag b').shown f brief) : b = b' := by
  have htext := Document.atom.inj h
  cases b <;> cases b' <;> first | rfl | exact absurd htext (by decide)

theorem conversion_eq {c c' : Option Conversion}
    (h : (conversion c).shown f brief = (conversion c').shown f brief) : c = c' := by
  rcases c with _ | _ | _ | _ <;> rcases c' with _ | _ | _ | _ <;>
    first | rfl | exact absurd (Document.atom.inj h) (by decide)

theorem singleton_eq {c c' : Singleton}
    (h : (singleton c).shown f brief = (singleton c').shown f brief) : c = c' := by
  cases c <;> cases c' <;> first | rfl | exact absurd (Document.atom.inj h) (by decide)

/-- The way texts are shown does not touch names. -/
def KeepsNames (f : Text → Text) : Prop := ∀ t : Text, t.IsPath → f t = t

theorem word_eq (hf : KeepsNames f) {t t' : Text} (ht : t.IsPath) (ht' : t'.IsPath)
    (h : (Document.quoted t).shown f brief = (Document.quoted t').shown f brief) : t = t' := by
  rw [← hf t ht, ← hf t' ht']
  exact Document.quoted.inj h

theorem optWord_eq (hf : KeepsNames f) {t t' : Option Text} (ht : ∀ id ∈ t, id.IsPath)
    (ht' : ∀ id ∈ t', id.IsPath)
    (h : Alike f brief (t.map Document.quoted) (t'.map Document.quoted)) : t = t' := by
  cases t with
  | none =>
    cases t' with
    | none => rfl
    | some id' => exact h.elim
  | some id =>
    cases t' with
    | none => exact h.elim
    | some id' => exact congrArg some (word_eq hf (ht id rfl) (ht' id' rfl) h)

theorem words_eq (hf : KeepsNames f) : ∀ {ts ts' : List Text}, (∀ t ∈ ts, t.IsPath) →
    (∀ t ∈ ts', t.IsPath) →
    shownItems f brief (ts.map Document.quoted) = shownItems f brief (ts'.map Document.quoted) →
    ts = ts'
  | [], [], _, _, _ => rfl
  | t :: ts, t' :: ts', ht, ht', h => by
    obtain ⟨hword, hwords⟩ := List.cons.inj h
    rw [word_eq hf (ht t (by simp)) (ht' t' (by simp)) hword,
      words_eq hf (fun u hu => ht u (by simp [hu])) (fun u hu => ht' u (by simp [hu])) hwords]

end Dump

/-- Everything but extents and the spelling of constants. -/
def Outline.spelled (f : Text → Text) : Outline := { constant := Constant.spelled f }

namespace Dump

variable {f : Text → Text} {brief : Bool}

open Outline (spelled)

/-! ## Expressions -/

theorem word_expr (e : Expr) : (expr e).word = utf8 e.label := by cases e <;> rfl

/-- Expressions that show the same are of one kind. -/
theorem label_eq_of_shown {e e' : Expr} (h : (expr e).shown f brief = (expr e').shown f brief) :
    e.label = e'.label := by
  apply utf8_injective
  rw [← word_expr, ← word_expr, ← word_shown (expr e), h, word_shown]

/-- An expression is no bare word. -/
theorem expr_ne_atom (e : Expr) (t : Text) :
    (expr e).shown f brief ≠ (Document.atom t).shown f brief := by
  cases e <;> exact fun h => nomatch h

/-! ### Default values -/

/-- Parameters one by one have default values that show the same. -/
def DefaultsAlike (f : Text → Text) (brief : Bool) : List Param → List Param → Prop
  | [], [] => True
  | q :: qs, q' :: qs' =>
    Alike f brief (optExpr q.default) (optExpr q'.default) ∧ DefaultsAlike f brief qs qs'
  | _, _ => False

theorem length_shownItems (items : List Document) :
    (shownItems f brief items).length = items.length := by
  induction items with
  | nil => rfl
  | cons d items ih => rw [shownItems, List.length_cons, List.length_cons, ih]

theorem length_paramList (qs : List Param) : (paramList qs).length = qs.length := by
  induction qs with
  | nil => rfl
  | cons q qs ih => rw [paramList, List.length_cons, List.length_cons, ih]

theorem length_eq_of_shown {qs qs' : List Param}
    (h : shownItems f brief (paramList qs) = shownItems f brief (paramList qs')) :
    qs.length = qs'.length := by
  rw [← length_paramList qs, ← length_shownItems (paramList qs), h, length_shownItems,
    length_paramList]

theorem defaults_append (qs rs : List Param) : defaults (qs ++ rs) = defaults qs ++ defaults rs := by
  induction qs with
  | nil => rfl
  | cons q qs ih =>
    obtain ⟨id, hint, _ | value⟩ := q
    · exact ih
    · rw [List.cons_append, defaults, ih, defaults, List.cons_append]

theorem length_defaults_le (qs : List Param) : (defaults qs).length ≤ qs.length := by
  induction qs with
  | nil => exact Nat.le_refl 0
  | cons q qs ih =>
    obtain ⟨id, hint, _ | value⟩ := q
    · exact Nat.le_succ_of_le ih
    · exact Nat.succ_le_succ ih

theorem length_defaults_of_forall {qs : List Param} (h : ∀ q ∈ qs, q.default.isSome) :
    (defaults qs).length = qs.length := by
  induction qs with
  | nil => rfl
  | cons q qs ih =>
    obtain ⟨id, hint, _ | value⟩ := q
    · exact absurd (h _ List.mem_cons_self) (by simp [Param.default])
    · exact congrArg Nat.succ (ih fun r hr => h r (List.mem_cons_of_mem _ hr))

/-- Where default values come last their number tells which parameters have one. -/
theorem defaultsAlike_of_shown {qs qs' : List Param} (hlength : qs.length = qs'.length)
    (hqs : qs.Pairwise fun p q => p.default.isSome → q.default.isSome)
    (hqs' : qs'.Pairwise fun p q => p.default.isSome → q.default.isSome)
    (h : shownItems f brief (defaults qs) = shownItems f brief (defaults qs')) :
    DefaultsAlike f brief qs qs' := by
  induction qs generalizing qs' with
  | nil =>
    obtain rfl := List.eq_nil_of_length_eq_zero hlength.symm
    trivial
  | cons q qs ih =>
    cases qs' with
    | nil => exact absurd hlength (by simp)
    | cons q' qs' =>
      obtain ⟨hq, hrest⟩ := List.pairwise_cons.mp hqs
      obtain ⟨hq', hrest'⟩ := List.pairwise_cons.mp hqs'
      have htail : qs.length = qs'.length := by simpa using hlength
      -- a first default value means that all parameters have one, and no list has fewer
      have hcount {rs rs' : List Param} {v : Expr} (hrs' : ∀ r ∈ rs', r.default.isSome)
          (hlen : rs.length = rs'.length)
          (hsame : shownItems f brief (defaults rs) =
            shownItems f brief (expr v :: defaults rs')) : False := by
        have hnumber := congrArg List.length hsame
        rw [length_shownItems, length_shownItems, List.length_cons,
          length_defaults_of_forall hrs'] at hnumber
        have := length_defaults_le rs
        omega
      obtain ⟨id, hint, _ | value⟩ := q <;> obtain ⟨id', hint', _ | value'⟩ := q'
      · exact ⟨trivial, ih htail hrest hrest' h⟩
      · exact (hcount (fun r hr => hq' r hr rfl) htail h).elim
      · exact (hcount (fun r hr => hq r hr rfl) htail.symm h.symm).elim
      · obtain ⟨hvalue, hvalues⟩ := List.cons.inj h
        exact ⟨hvalue, ih htail hrest hrest' hvalues⟩

theorem defaultsAlike_of_append {qs qs' rs rs' : List Param} (hlength : qs.length = qs'.length)
    (h : DefaultsAlike f brief (qs ++ rs) (qs' ++ rs')) :
    DefaultsAlike f brief qs qs' ∧ DefaultsAlike f brief rs rs' := by
  induction qs generalizing qs' with
  | nil =>
    obtain rfl := List.eq_nil_of_length_eq_zero hlength.symm
    exact ⟨trivial, h⟩
  | cons q qs ih =>
    cases qs' with
    | nil => exact absurd hlength (by simp)
    | cons q' qs' =>
      obtain ⟨hfirst, hrest⟩ := ih (by simpa using hlength) h.2
      exact ⟨⟨h.1, hfirst⟩, hrest⟩

theorem defaultsAlike_of_kwDefaults {qs qs' : List Param}
    (h : shownItems f brief (kwDefaults qs) = shownItems f brief (kwDefaults qs')) :
    DefaultsAlike f brief qs qs' := by
  induction qs generalizing qs' with
  | nil =>
    cases qs' with
    | nil => trivial
    | cons q' qs' => obtain ⟨id', hint', _ | value'⟩ := q' <;> exact absurd h (by simp [kwDefaults, shownItems])
  | cons q qs ih =>
    cases qs' with
    | nil => obtain ⟨id, hint, _ | value⟩ := q <;> exact absurd h (by simp [kwDefaults, shownItems])
    | cons q' qs' =>
      obtain ⟨id, hint, _ | value⟩ := q <;> obtain ⟨id', hint', _ | value'⟩ := q' <;>
        obtain ⟨hvalue, hrest⟩ := List.cons.inj h
      · exact ⟨trivial, ih hrest⟩
      · exact absurd hvalue.symm (expr_ne_atom value' _)
      · exact absurd hvalue (expr_ne_atom value _)
      · exact ⟨hvalue, ih hrest⟩

/-! ### Trees -/

theorem expr_binary (p : Place) (x : Extent) (left : Expr) (op : BinaryOp) (right : Expr) :
    (spelled f).expr p (.binary x left op right) =
      .binary .blank ((spelled f).expr p.inner left) op ((spelled f).expr p.inner right) := rfl

mutual

theorem expr_eq (hf : KeepsNames f) {e e' : Expr} (he : Every.expr Node.Lawful e)
    (he' : Every.expr Node.Lawful e') (p : Place)
    (h : (expr e).shown f brief = (expr e').shown f brief) :
    (spelled f).expr p e = (spelled f).expr p e' := by
  have hlabel := label_eq_of_shown h
  cases e <;> cases e' <;> try (simp [Expr.label] at hlabel; done)
  case error.error => rfl
  case boolean.boolean _ op values _ op' values' =>
    obtain ⟨hop, hvalues, -⟩ := fieldsAlike_of_shown h
    rw [Outline.expr, Outline.expr, boolOp_eq (eq_of_shown_bare hop),
      exprs_eq hf he.2 he'.2 p.inner (Document.list.inj hvalues)]
  case named.named _ target value _ target' value' =>
    obtain ⟨htarget, hvalue, -⟩ := fieldsAlike_of_shown h
    rw [Outline.expr, Outline.expr, expr_eq hf he.2.1 he'.2.1 p.inner htarget,
      expr_eq hf he.2.2 he'.2.2 p.inner hvalue]
  case binary.binary _ left op right _ left' op' right' =>
    obtain ⟨hleft, hop, hright, -⟩ := fieldsAlike_of_shown h
    rw [expr_binary, expr_binary, expr_eq hf he.2.1 he'.2.1 p.inner hleft,
      binaryOp_eq (eq_of_shown_bare hop), expr_eq hf he.2.2 he'.2.2 p.inner hright]
  case unary.unary _ op operand _ op' operand' =>
    obtain ⟨hop, hoperand, -⟩ := fieldsAlike_of_shown h
    rw [Outline.expr, Outline.expr, unaryOp_eq (eq_of_shown_bare hop),
      expr_eq hf he.2 he'.2 p.inner hoperand]
  case lambda.lambda _ ps body _ ps' body' =>
    obtain ⟨hps, hbody, -⟩ := fieldsAlike_of_shown h
    rw [Outline.expr, Outline.expr,
      params_eq hf (Node.Lawful.lambda he.1) (Node.Lawful.lambda he'.1) he.2.1 he'.2.1 p.inner hps,
      expr_eq hf he.2.2 he'.2.2 p.inner hbody]
  case conditional.conditional _ test body orelse _ test' body' orelse' =>
    obtain ⟨htest, hbody, horelse, -⟩ := fieldsAlike_of_shown h
    rw [Outline.expr, Outline.expr, expr_eq hf he.2.1 he'.2.1 p.inner htest,
      expr_eq hf he.2.2.1 he'.2.2.1 p.inner hbody, expr_eq hf he.2.2.2 he'.2.2.2 p.inner horelse]
  case dict.dict _ es _ es' =>
    obtain ⟨hkeys, hvalues, -⟩ := fieldsAlike_of_shown h
    rw [Outline.expr, Outline.expr, entries_eq hf he.2 he'.2 p.inner (Document.list.inj hkeys)
      (Document.list.inj hvalues)]
  case set.set _ elts _ elts' =>
    obtain ⟨helts, -⟩ := fieldsAlike_of_shown h
    rw [Outline.expr, Outline.expr, exprs_eq hf he.2 he'.2 p.inner (Document.list.inj helts)]
  case listComp.listComp _ elt gens _ elt' gens' =>
    obtain ⟨helt, hgens, -⟩ := fieldsAlike_of_shown h
    rw [Outline.expr, Outline.expr, expr_eq hf he.2.1 he'.2.1 p.inner helt,
      comprehensions_eq hf he.2.2 he'.2.2 p.inner (Document.list.inj hgens)]
  case setComp.setComp _ elt gens _ elt' gens' =>
    obtain ⟨helt, hgens, -⟩ := fieldsAlike_of_shown h
    rw [Outline.expr, Outline.expr, expr_eq hf he.2.1 he'.2.1 p.inner helt,
      comprehensions_eq hf he.2.2 he'.2.2 p.inner (Document.list.inj hgens)]
  case dictComp.dictComp _ key value gens _ key' value' gens' =>
    obtain ⟨hkey, hvalue, hgens, -⟩ := fieldsAlike_of_shown h
    rw [Outline.expr, Outline.expr, expr_eq hf he.2.1 he'.2.1 p.inner hkey,
      expr_eq hf he.2.2.1 he'.2.2.1 p.inner hvalue,
      comprehensions_eq hf he.2.2.2 he'.2.2.2 p.inner (Document.list.inj hgens)]
  case generator.generator _ elt gens _ elt' gens' =>
    obtain ⟨helt, hgens, -⟩ := fieldsAlike_of_shown h
    rw [Outline.expr, Outline.expr, expr_eq hf he.2.1 he'.2.1 p.inner helt,
      comprehensions_eq hf he.2.2 he'.2.2 p.inner (Document.list.inj hgens)]
  case await.await _ value _ value' =>
    obtain ⟨hvalue, -⟩ := fieldsAlike_of_shown h
    rw [Outline.expr, Outline.expr, expr_eq hf he.2 he'.2 p.inner hvalue]
  case yield.yield _ value _ value' =>
    obtain ⟨hvalue, -⟩ := fieldsAlike_of_shown h
    rw [Outline.expr, Outline.expr, optExpr_eq hf he.2 he'.2 p.inner hvalue]
  case yieldFrom.yieldFrom _ value _ value' =>
    obtain ⟨hvalue, -⟩ := fieldsAlike_of_shown h
    rw [Outline.expr, Outline.expr, expr_eq hf he.2 he'.2 p.inner hvalue]
  case compare.compare _ left ops comparators _ left' ops' comparators' =>
    obtain ⟨hleft, hops, hcomparators, -⟩ := fieldsAlike_of_shown h
    rw [Outline.expr, Outline.expr, expr_eq hf he.2.1 he'.2.1 p.inner hleft,
      compareOps_eq (Document.list.inj hops),
      exprs_eq hf he.2.2 he'.2.2 p.inner (Document.list.inj hcomparators)]
  case call.call _ func args kws _ func' args' kws' =>
    obtain ⟨hfunc, hargs, hkws, -⟩ := fieldsAlike_of_shown h
    rw [Outline.expr, Outline.expr, expr_eq hf he.2.1 he'.2.1 p.addressed hfunc,
      exprs_eq hf he.2.2.1 he'.2.2.1 p.inner (Document.list.inj hargs),
      keywords_eq hf he.1 he'.1 he.2.2.2 he'.2.2.2 p.inner (Document.list.inj hkws)]
  case formatted.formatted _ value conv spec _ value' conv' spec' =>
    obtain ⟨hvalue, hconv, hspec, -⟩ := fieldsAlike_of_shown h
    rw [Outline.expr, Outline.expr, expr_eq hf he.2.1 he'.2.1 p.inner hvalue,
      conversion_eq hconv, optExpr_eq hf he.2.2 he'.2.2 p.inner hspec]
  case joined.joined _ values _ values' =>
    obtain ⟨hvalues, -⟩ := fieldsAlike_of_shown h
    rw [Outline.expr, Outline.expr, exprs_eq hf he.2 he'.2 p.inner (Document.list.inj hvalues)]
  case constant.constant _ c _ c' =>
    obtain ⟨hvalue, hmark, -⟩ := fieldsAlike_of_shown h
    exact congrArg (Expr.constant .blank) (constant_eq_of_shown hvalue hmark)
  case attribute.attribute _ value attr ctx _ value' attr' ctx' =>
    obtain ⟨hvalue, hattr, hctx, -⟩ := fieldsAlike_of_shown h
    have hid : attr = attr' := word_eq hf (Text.IsWord.isPath he.1) (Text.IsWord.isPath he'.1) hattr
    rw [Outline.expr, Outline.expr, expr_eq hf he.2 he'.2 p hvalue, hid,
      context_eq (eq_of_shown_bare hctx)]
  case subscript.subscript _ value index ctx _ value' index' ctx' =>
    obtain ⟨hvalue, hindex, hctx, -⟩ := fieldsAlike_of_shown h
    rw [Outline.expr, Outline.expr, expr_eq hf he.2.1 he'.2.1 p.inner hvalue,
      expr_eq hf he.2.2 he'.2.2 p.inner hindex, context_eq (eq_of_shown_bare hctx)]
  case starred.starred _ value ctx _ value' ctx' =>
    obtain ⟨hvalue, hctx, -⟩ := fieldsAlike_of_shown h
    rw [Outline.expr, Outline.expr, expr_eq hf he.2 he'.2 p.inner hvalue,
      context_eq (eq_of_shown_bare hctx)]
  case name.name _ id ctx _ id' ctx' =>
    obtain ⟨hid, hctx, -⟩ := fieldsAlike_of_shown h
    have hid : id = id' := word_eq hf (Text.IsWord.isPath he.1) (Text.IsWord.isPath he'.1) hid
    rw [Outline.expr, Outline.expr, hid, context_eq (eq_of_shown_bare hctx)]
  case list.list _ elts ctx _ elts' ctx' =>
    obtain ⟨helts, hctx, -⟩ := fieldsAlike_of_shown h
    rw [Outline.expr, Outline.expr, exprs_eq hf he.2 he'.2 p.inner (Document.list.inj helts),
      context_eq (eq_of_shown_bare hctx)]
  case tuple.tuple _ elts ctx _ elts' ctx' =>
    obtain ⟨helts, hctx, -⟩ := fieldsAlike_of_shown h
    rw [Outline.expr, Outline.expr, exprs_eq hf he.2 he'.2 p.inner (Document.list.inj helts),
      context_eq (eq_of_shown_bare hctx)]
  case slice.slice _ lower upper step _ lower' upper' step' =>
    obtain ⟨hlower, hupper, hstep, -⟩ := fieldsAlike_of_shown h
    rw [Outline.expr, Outline.expr, optExpr_eq hf he.2.1 he'.2.1 p.inner hlower,
      optExpr_eq hf he.2.2.1 he'.2.2.1 p.inner hupper,
      optExpr_eq hf he.2.2.2 he'.2.2.2 p.inner hstep]
termination_by structural e

theorem exprs_eq (hf : KeepsNames f) : ∀ {es es' : List Expr}, Every.exprs Node.Lawful es →
    Every.exprs Node.Lawful es' → ∀ p : Place,
    shownItems f brief (exprs es) = shownItems f brief (exprs es') →
    (spelled f).exprs p es = (spelled f).exprs p es'
  | [], [], _, _, _, _ => rfl
  | _ :: _, _ :: _, he, he', p, h => by
    obtain ⟨hfirst, hrest⟩ := List.cons.inj h
    rw [Outline.exprs, Outline.exprs, expr_eq hf he.1 he'.1 p hfirst,
      exprs_eq hf he.2 he'.2 p hrest]
termination_by structural es => es

theorem optExpr_eq (hf : KeepsNames f) : ∀ {e e' : Option Expr}, Every.optExpr Node.Lawful e →
    Every.optExpr Node.Lawful e' → ∀ p : Place, Alike f brief (optExpr e) (optExpr e') →
    (spelled f).optExpr p e = (spelled f).optExpr p e'
  | none, none, _, _, _, _ => rfl
  | none, some _, _, _, _, h => h.elim
  | some _, none, _, _, _, h => h.elim
  | some _, some _, he, he', p, h => congrArg some (expr_eq hf he he' p h)
termination_by structural e => e

theorem entries_eq (hf : KeepsNames f) : ∀ {es es' : List Entry}, Every.entries Node.Lawful es →
    Every.entries Node.Lawful es' → ∀ p : Place,
    shownItems f brief (keys es) = shownItems f brief (keys es') →
    shownItems f brief (values es) = shownItems f brief (values es') →
    (spelled f).entries p es = (spelled f).entries p es'
  | [], [], _, _, _, _, _ => rfl
  | [], .pair _ _ :: _, _, _, _, h, _ => nomatch h
  | [], .unpack _ :: _, _, _, _, h, _ => nomatch h
  | .pair _ _ :: _, [], _, _, _, h, _ => nomatch h
  | .unpack _ :: _, [], _, _, _, h, _ => nomatch h
  | .pair _ _ :: _, .pair _ _ :: _, he, he', p, hkeys, hvalues => by
    obtain ⟨hkey, hkeys⟩ := List.cons.inj hkeys
    obtain ⟨hvalue, hvalues⟩ := List.cons.inj hvalues
    rw [Outline.entries, Outline.entries, expr_eq hf he.1 he'.1 p hkey,
      expr_eq hf he.2.1 he'.2.1 p hvalue, entries_eq hf he.2.2 he'.2.2 p hkeys hvalues]
  | .unpack _ :: _, .unpack _ :: _, he, he', p, hkeys, hvalues => by
    obtain ⟨hvalue, hvalues⟩ := List.cons.inj hvalues
    rw [Outline.entries, Outline.entries, expr_eq hf he.1 he'.1 p hvalue,
      entries_eq hf he.2 he'.2 p (List.cons.inj hkeys).2 hvalues]
  | .pair key _ :: _, .unpack _ :: _, _, _, _, hkeys, _ =>
    absurd (List.cons.inj hkeys).1 (expr_ne_atom key _)
  | .unpack _ :: _, .pair key _ :: _, _, _, _, hkeys, _ =>
    absurd (List.cons.inj hkeys).1.symm (expr_ne_atom key _)
termination_by structural es => es

theorem keywords_eq (hf : KeepsNames f) : ∀ {ks ks' : List Keyword},
    (∀ k ∈ ks, ∀ id ∈ k.arg, id.IsWord) → (∀ k ∈ ks', ∀ id ∈ k.arg, id.IsWord) →
    Every.keywords Node.Lawful ks → Every.keywords Node.Lawful ks' → ∀ p : Place,
    shownItems f brief (keywords ks) = shownItems f brief (keywords ks') →
    (spelled f).keywords p ks = (spelled f).keywords p ks'
  | [], [], _, _, _, _, _, _ => rfl
  | [], .mk _ _ :: _, _, _, _, _, _, h => nomatch h
  | .mk _ _ :: _, [], _, _, _, _, _, h => nomatch h
  | .mk arg _ :: _, .mk arg' _ :: _, hargs, hargs', hk, hk', p, h => by
    obtain ⟨hfirst, hrest⟩ := List.cons.inj h
    obtain ⟨harg, hvalue, -⟩ := fieldsAlike_of_shown hfirst
    have hid : arg = arg' := optWord_eq hf
      (fun id hid => Text.IsWord.isPath (hargs _ List.mem_cons_self id hid))
      (fun id hid => Text.IsWord.isPath (hargs' _ List.mem_cons_self id hid)) harg
    rw [Outline.keywords, Outline.keywords, hid, expr_eq hf hk.1 hk'.1 p hvalue,
      keywords_eq hf (fun k hm => hargs k (List.mem_cons_of_mem _ hm))
        (fun k hm => hargs' k (List.mem_cons_of_mem _ hm)) hk.2 hk'.2 p hrest]
termination_by structural ks => ks

theorem comprehensions_eq (hf : KeepsNames f) : ∀ {gs gs' : List Comprehension},
    Every.comprehensions Node.Lawful gs → Every.comprehensions Node.Lawful gs' → ∀ p : Place,
    shownItems f brief (comprehensions gs) = shownItems f brief (comprehensions gs') →
    (spelled f).comprehensions p gs = (spelled f).comprehensions p gs'
  | [], [], _, _, _, _ => rfl
  | [], .mk _ _ _ _ :: _, _, _, _, h => nomatch h
  | .mk _ _ _ _ :: _, [], _, _, _, h => nomatch h
  | .mk _ _ _ _ :: _, .mk _ _ _ _ :: _, hg, hg', p, h => by
    obtain ⟨hfirst, hrest⟩ := List.cons.inj h
    obtain ⟨htarget, hiter, hifs, hasync, -⟩ := fieldsAlike_of_shown hfirst
    rw [Outline.comprehensions, Outline.comprehensions, expr_eq hf hg.1 hg'.1 p htarget,
      expr_eq hf hg.2.1 hg'.2.1 p hiter,
      exprs_eq hf hg.2.2.1 hg'.2.2.1 p (Document.list.inj hifs), flag_eq hasync,
      comprehensions_eq hf hg.2.2.2 hg'.2.2.2 p hrest]
termination_by structural gs => gs

theorem param_eq (hf : KeepsNames f) : ∀ {q q' : Param}, q.name.IsWord → q'.name.IsWord →
    Every.param Node.Lawful q → Every.param Node.Lawful q' → ∀ p : Place,
    (param q).shown f brief = (param q').shown f brief →
    Alike f brief (optExpr q.default) (optExpr q'.default) →
    (spelled f).param p q = (spelled f).param p q'
  | .mk id hint _, .mk id' hint' _, hname, hname', hq, hq', p, h, hdefault => by
    obtain ⟨hid, hhint, -⟩ := fieldsAlike_of_shown h
    have hid : id = id' := word_eq hf hname.isPath hname'.isPath hid
    rw [Outline.param, Outline.param, hid, optExpr_eq hf hq.1 hq'.1 p hhint,
      optExpr_eq hf hq.2 hq'.2 p hdefault]
termination_by structural q => q

/-- The collectors of further arguments have no default values. -/
theorem optParam_eq (hf : KeepsNames f) : ∀ {q q' : Option Param}, (∀ r ∈ q, r.name.IsWord) →
    (∀ r ∈ q', r.name.IsWord) → (∀ r ∈ q, r.default = none) → (∀ r ∈ q', r.default = none) →
    Every.optParam Node.Lawful q → Every.optParam Node.Lawful q' → ∀ p : Place,
    Alike f brief (optParam q) (optParam q') →
    (spelled f).optParam p q = (spelled f).optParam p q'
  | none, none, _, _, _, _, _, _, _, _ => rfl
  | none, some _, _, _, _, _, _, _, _, h => h.elim
  | some _, none, _, _, _, _, _, _, _, h => h.elim
  | some r, some r', hname, hname', hnone, hnone', hq, hq', p, h => by
    have hdefault : Alike f brief (optExpr r.default) (optExpr r'.default) := by
      rw [hnone r rfl, hnone' r' rfl]
      trivial
    exact congrArg some (param_eq hf (hname r rfl) (hname' r' rfl) hq hq' p h hdefault)
termination_by structural q => q

theorem paramList_eq (hf : KeepsNames f) : ∀ {qs qs' : List Param}, (∀ q ∈ qs, q.name.IsWord) →
    (∀ q ∈ qs', q.name.IsWord) → Every.paramList Node.Lawful qs →
    Every.paramList Node.Lawful qs' → ∀ p : Place,
    shownItems f brief (paramList qs) = shownItems f brief (paramList qs') →
    DefaultsAlike f brief qs qs' → (spelled f).paramList p qs = (spelled f).paramList p qs'
  | [], [], _, _, _, _, _, _, _ => rfl
  | q :: _, q' :: _, hname, hname', hq, hq', p, h, hdefaults => by
    obtain ⟨hfirst, hrest⟩ := List.cons.inj h
    rw [Outline.paramList, Outline.paramList,
      param_eq hf (hname q List.mem_cons_self) (hname' q' List.mem_cons_self) hq.1 hq'.1 p hfirst
        hdefaults.1,
      paramList_eq hf (fun r hr => hname r (List.mem_cons_of_mem _ hr))
        (fun r hr => hname' r (List.mem_cons_of_mem _ hr)) hq.2 hq'.2 p hrest hdefaults.2]
termination_by structural qs => qs

theorem params_eq (hf : KeepsNames f) : ∀ {ps ps' : Params}, ps.WellFormed → ps'.WellFormed →
    Every.params Node.Lawful ps → Every.params Node.Lawful ps' → ∀ p : Place,
    (params ps).shown f brief = (params ps').shown f brief →
    (spelled f).params p ps = (spelled f).params p ps'
  | .mk posOnly plain star kwOnly doubleStar, .mk posOnly' plain' star' kwOnly' doubleStar',
      hlaw, hlaw', hps, hps', p, h => by
    obtain ⟨hposOnly, hplain, hstar, hkwOnly, hkwDefaults, hdoubleStar, hdefaults, -⟩ :=
      fieldsAlike_of_shown h
    have hposOnly := Document.list.inj hposOnly
    have hplain := Document.list.inj hplain
    have hkwOnly := Document.list.inj hkwOnly
    have hlength := length_eq_of_shown hposOnly
    have hpositional : DefaultsAlike f brief (posOnly ++ plain) (posOnly' ++ plain') := by
      refine defaultsAlike_of_shown ?_ (Params.Lawful.defaults hlaw) (Params.Lawful.defaults hlaw') ?_
      · rw [List.length_append, List.length_append, hlength, length_eq_of_shown hplain]
      · rw [defaults_append, defaults_append]
        exact Document.list.inj hdefaults
    obtain ⟨hfirst, hsecond⟩ := defaultsAlike_of_append hlength hpositional
    have hname := Params.Lawful.names hlaw
    have hname' := Params.Lawful.names hlaw'
    simp only [List.mem_append, Option.mem_toList, or_imp, forall_and] at hname hname'
    rw [Outline.params, Outline.params,
      paramList_eq hf hname.1.1.1.1 hname'.1.1.1.1 hps.1 hps'.1 p hposOnly hfirst,
      paramList_eq hf hname.1.1.1.2 hname'.1.1.1.2 hps.2.1 hps'.2.1 p hplain hsecond,
      optParam_eq hf hname.1.1.2 hname'.1.1.2 hlaw.star hlaw'.star hps.2.2.1 hps'.2.2.1 p hstar,
      paramList_eq hf hname.1.2 hname'.1.2 hps.2.2.2.1 hps'.2.2.2.1 p hkwOnly
        (defaultsAlike_of_kwDefaults (Document.list.inj hkwDefaults)),
      optParam_eq hf hname.2 hname'.2 hlaw.doubleStar hlaw'.doubleStar hps.2.2.2.2 hps'.2.2.2.2 p
        hdoubleStar]
termination_by structural ps => ps

end

/-! ## Patterns -/

theorem word_pattern (p : Pattern) : (pattern p).word = utf8 p.label := by cases p <;> rfl

theorem patternLabel_eq_of_shown {p p' : Pattern}
    (h : (pattern p).shown f brief = (pattern p').shown f brief) : p.label = p'.label := by
  apply utf8_injective
  rw [← word_pattern, ← word_pattern, ← word_shown (pattern p), h, word_shown]

mutual

theorem pattern_eq (hf : KeepsNames f) {p p' : Pattern} (hp : Every.pattern Node.Lawful p)
    (hp' : Every.pattern Node.Lawful p')
    (h : (pattern p).shown f brief = (pattern p').shown f brief) :
    (spelled f).pattern p = (spelled f).pattern p' := by
  have hlabel := patternLabel_eq_of_shown h
  cases p <;> cases p' <;> try (simp [Pattern.label] at hlabel; done)
  case error.error => rfl
  case value.value _ value _ value' =>
    obtain ⟨hvalue, -⟩ := fieldsAlike_of_shown h
    rw [Outline.pattern, Outline.pattern, expr_eq hf hp.2 hp'.2 .shown hvalue]
  case singleton.singleton _ value _ value' =>
    obtain ⟨hvalue, -⟩ := fieldsAlike_of_shown h
    rw [Outline.pattern, Outline.pattern, singleton_eq hvalue]
  case sequence.sequence _ ps _ ps' =>
    obtain ⟨hps, -⟩ := fieldsAlike_of_shown h
    rw [Outline.pattern, Outline.pattern, patterns_eq hf hp.2 hp'.2 (Document.list.inj hps)]
  case mapping.mapping _ es rest _ es' rest' =>
    obtain ⟨hkeys, hvalues, hrest, -⟩ := fieldsAlike_of_shown h
    have hid : rest = rest' := optWord_eq hf (fun id hid => Text.IsWord.isPath (hp.1 id hid))
      (fun id hid => Text.IsWord.isPath (hp'.1 id hid)) hrest
    rw [Outline.pattern, Outline.pattern, hid, patternEntries_eq hf hp.2 hp'.2
      (Document.list.inj hkeys) (Document.list.inj hvalues)]
  case cls.cls _ cls ps kws _ cls' ps' kws' =>
    obtain ⟨hcls, hps, hattrs, hkws, -⟩ := fieldsAlike_of_shown h
    rw [Outline.pattern, Outline.pattern, expr_eq hf hp.2.1 hp'.2.1 .shown hcls,
      patterns_eq hf hp.2.2.1 hp'.2.2.1 (Document.list.inj hps),
      patternKeywords_eq hf hp.1 hp'.1 hp.2.2.2 hp'.2.2.2 (Document.list.inj hattrs)
        (Document.list.inj hkws)]
  case star.star _ id _ id' =>
    obtain ⟨hid, -⟩ := fieldsAlike_of_shown h
    have hid : id = id' := optWord_eq hf (fun t ht => Text.IsWord.isPath (hp.1 t ht))
      (fun t ht => Text.IsWord.isPath (hp'.1 t ht)) hid
    rw [Outline.pattern, Outline.pattern, hid]
  case as.as _ p id _ p' id' =>
    obtain ⟨hpattern, hid, -⟩ := fieldsAlike_of_shown h
    have hid : id = id' := optWord_eq hf (fun t ht => Text.IsWord.isPath (hp.1 t ht))
      (fun t ht => Text.IsWord.isPath (hp'.1 t ht)) hid
    rw [Outline.pattern, Outline.pattern, hid, optPattern_eq hf hp.2 hp'.2 hpattern]
  case or.or _ ps _ ps' =>
    obtain ⟨hps, -⟩ := fieldsAlike_of_shown h
    rw [Outline.pattern, Outline.pattern, patterns_eq hf hp.2 hp'.2 (Document.list.inj hps)]
termination_by structural p

theorem patterns_eq (hf : KeepsNames f) : ∀ {ps ps' : List Pattern},
    Every.patterns Node.Lawful ps → Every.patterns Node.Lawful ps' →
    shownItems f brief (patterns ps) = shownItems f brief (patterns ps') →
    (spelled f).patterns ps = (spelled f).patterns ps'
  | [], [], _, _, _ => rfl
  | _ :: _, _ :: _, hp, hp', h => by
    obtain ⟨hfirst, hrest⟩ := List.cons.inj h
    rw [Outline.patterns, Outline.patterns, pattern_eq hf hp.1 hp'.1 hfirst,
      patterns_eq hf hp.2 hp'.2 hrest]
termination_by structural ps => ps

theorem optPattern_eq (hf : KeepsNames f) : ∀ {p p' : Option Pattern},
    Every.optPattern Node.Lawful p → Every.optPattern Node.Lawful p' →
    Alike f brief (optPattern p) (optPattern p') →
    (spelled f).optPattern p = (spelled f).optPattern p'
  | none, none, _, _, _ => rfl
  | none, some _, _, _, h => h.elim
  | some _, none, _, _, h => h.elim
  | some _, some _, hp, hp', h => congrArg some (pattern_eq hf hp hp' h)
termination_by structural p => p

theorem patternEntries_eq (hf : KeepsNames f) : ∀ {es es' : List PatternEntry},
    Every.patternEntries Node.Lawful es → Every.patternEntries Node.Lawful es' →
    shownItems f brief (patternKeys es) = shownItems f brief (patternKeys es') →
    shownItems f brief (patternValues es) = shownItems f brief (patternValues es') →
    (spelled f).patternEntries es = (spelled f).patternEntries es'
  | [], [], _, _, _, _ => rfl
  | [], .mk _ _ :: _, _, _, h, _ => nomatch h
  | .mk _ _ :: _, [], _, _, h, _ => nomatch h
  | .mk _ _ :: _, .mk _ _ :: _, he, he', hkeys, hvalues => by
    obtain ⟨hkey, hkeys⟩ := List.cons.inj hkeys
    obtain ⟨hvalue, hvalues⟩ := List.cons.inj hvalues
    rw [Outline.patternEntries, Outline.patternEntries, expr_eq hf he.1 he'.1 .shown hkey,
      pattern_eq hf he.2.1 he'.2.1 hvalue, patternEntries_eq hf he.2.2 he'.2.2 hkeys hvalues]
termination_by structural es => es

theorem patternKeywords_eq (hf : KeepsNames f) : ∀ {ks ks' : List PatternKeyword},
    (∀ k ∈ ks, k.attr.IsWord) → (∀ k ∈ ks', k.attr.IsWord) →
    Every.patternKeywords Node.Lawful ks → Every.patternKeywords Node.Lawful ks' →
    shownItems f brief ((patternAttrs ks).map .quoted) =
      shownItems f brief ((patternAttrs ks').map .quoted) →
    shownItems f brief (keywordPatterns ks) = shownItems f brief (keywordPatterns ks') →
    (spelled f).patternKeywords ks = (spelled f).patternKeywords ks'
  | [], [], _, _, _, _, _, _ => rfl
  | [], .mk _ _ :: _, _, _, _, _, h, _ => nomatch h
  | .mk _ _ :: _, [], _, _, _, _, h, _ => nomatch h
  | .mk attr _ :: _, .mk attr' _ :: _, hattr, hattr', hk, hk', hattrs, hpatterns => by
    obtain ⟨hid, hattrs⟩ := List.cons.inj hattrs
    obtain ⟨hpattern, hpatterns⟩ := List.cons.inj hpatterns
    have hid : attr = attr' := word_eq hf (Text.IsWord.isPath (hattr _ List.mem_cons_self))
      (Text.IsWord.isPath (hattr' _ List.mem_cons_self)) hid
    rw [Outline.patternKeywords, Outline.patternKeywords, hid, pattern_eq hf hk.1 hk'.1 hpattern,
      patternKeywords_eq hf (fun k hm => hattr k (List.mem_cons_of_mem _ hm))
        (fun k hm => hattr' k (List.mem_cons_of_mem _ hm)) hk.2 hk'.2 hattrs hpatterns]
termination_by structural ks => ks

end

/-! ## Statements -/

theorem word_stmt (s : Stmt) : (stmt s).word = utf8 s.label := by cases s <;> rfl

theorem stmtLabel_eq_of_shown {s s' : Stmt}
    (h : (stmt s).shown f brief = (stmt s').shown f brief) : s.label = s'.label := by
  apply utf8_injective
  rw [← word_stmt, ← word_stmt, ← word_shown (stmt s), h, word_shown]

theorem ite_eq_false {b : Bool} {s t u : String} (hs : s ≠ u) (ht : t ≠ u) :
    ((if b = true then s else t) = u) = False := by
  cases b <;> simp [hs, ht]

theorem eq_ite_false {b : Bool} {s t u : String} (hs : u ≠ s) (ht : u ≠ t) :
    (u = if b = true then s else t) = False := by
  cases b <;> simp [hs, ht]

/-- Two kinds tell a flag. -/
theorem flag_eq_of_ite {b b' : Bool} {s t : String} (hne : s ≠ t)
    (h : (if b = true then s else t) = if b' = true then s else t) : b = b' := by
  cases b <;> cases b' <;> simp_all

theorem withItems_eq (hf : KeepsNames f) : ∀ {ws ws' : List WithItem},
    Every.withItems Node.Lawful ws → Every.withItems Node.Lawful ws' →
    shownItems f brief (ws.map withItem) = shownItems f brief (ws'.map withItem) →
    ws.map (spelled f).withItem = ws'.map (spelled f).withItem
  | [], [], _, _, _ => rfl
  | w :: ws, w' :: ws', hw, hw', h => by
    obtain ⟨hfirst, hrest⟩ := List.cons.inj h
    obtain ⟨hcontext, htarget, -⟩ := fieldsAlike_of_shown hfirst
    obtain ⟨hc, ht⟩ := hw w List.mem_cons_self
    obtain ⟨hc', ht'⟩ := hw' w' List.mem_cons_self
    rw [List.map_cons, List.map_cons, Outline.withItem, Outline.withItem,
      expr_eq hf hc hc' .free hcontext, optExpr_eq hf ht ht' .free htarget,
      withItems_eq hf (fun v hv => hw v (List.mem_cons_of_mem _ hv))
        (fun v hv => hw' v (List.mem_cons_of_mem _ hv)) hrest]

theorem importedNames_eq (hf : KeepsNames f) : ∀ {as as' : List Alias}, (∀ a ∈ as, a.Lawful) →
    (∀ a ∈ as', a.Lawful) →
    shownItems f brief (as.map importedName) = shownItems f brief (as'.map importedName) → as = as'
  | [], [], _, _, _ => rfl
  | a :: as, a' :: as', ha, ha', h => by
    obtain ⟨hfirst, hrest⟩ := List.cons.inj h
    obtain ⟨hname, hasName, -⟩ := fieldsAlike_of_shown hfirst
    obtain ⟨hn, hw⟩ := ha a List.mem_cons_self
    obtain ⟨hn', hw'⟩ := ha' a' List.mem_cons_self
    have hname : a.name = a'.name := word_eq hf hn hn' hname
    have hasName : a.asName = a'.asName := optWord_eq hf (fun id hid => (hw id hid).isPath)
      (fun id hid => (hw' id hid).isPath) hasName
    have hfirst : a = a' := by
      obtain ⟨name, asName⟩ := a
      obtain ⟨name', asName'⟩ := a'
      exact congr (congrArg Alias.mk hname) hasName
    rw [hfirst, importedNames_eq hf (fun b hb => ha b (List.mem_cons_of_mem _ hb))
      (fun b hb => ha' b (List.mem_cons_of_mem _ hb)) hrest]

mutual

theorem stmt_eq (hf : KeepsNames f) {s s' : Stmt} (hs : Every.stmt Node.Lawful s)
    (hs' : Every.stmt Node.Lawful s') (h : (stmt s).shown f brief = (stmt s').shown f brief) :
    (spelled f).stmt s = (spelled f).stmt s' := by
  have hlabel := stmtLabel_eq_of_shown h
  cases s <;> cases s' <;> 
    try (simp [Stmt.label, ite_eq_false, eq_ite_false] at hlabel; done)
  case function.function _ isAsync id ps body decorators returns
      _ isAsync' id' ps' body' decorators' returns' =>
    obtain ⟨hid, hps, hbody, hdecorators, hreturns, -⟩ := fieldsAlike_of_shown h
    have hasync : isAsync = isAsync' := flag_eq_of_ite (by decide) hlabel
    obtain ⟨hword, hparams⟩ := Node.Lawful.function hs.1
    obtain ⟨hword', hparams'⟩ := Node.Lawful.function hs'.1
    have hid : id = id' := word_eq hf hword.isPath hword'.isPath hid
    rw [Outline.stmt, Outline.stmt, hasync, hid,
      params_eq hf hparams hparams' hs.2.1 hs'.2.1 .free hps,
      stmts_eq hf hs.2.2.1 hs'.2.2.1 (Document.list.inj hbody),
      exprs_eq hf hs.2.2.2.1 hs'.2.2.2.1 .free (Document.list.inj hdecorators),
      optExpr_eq hf hs.2.2.2.2 hs'.2.2.2.2 .free hreturns]
  case classDef.classDef _ id bases kws body decorators _ id' bases' kws' body' decorators' =>
    obtain ⟨hid, hbases, hkws, hbody, hdecorators, -⟩ := fieldsAlike_of_shown h
    have hid : id = id' :=
      word_eq hf (Text.IsWord.isPath hs.1.1) (Text.IsWord.isPath hs'.1.1) hid
    rw [Outline.stmt, Outline.stmt, hid,
      exprs_eq hf hs.2.1 hs'.2.1 .free (Document.list.inj hbases),
      keywords_eq hf hs.1.2 hs'.1.2 hs.2.2.1 hs'.2.2.1 .free (Document.list.inj hkws),
      stmts_eq hf hs.2.2.2.1 hs'.2.2.2.1 (Document.list.inj hbody),
      exprs_eq hf hs.2.2.2.2 hs'.2.2.2.2 .free (Document.list.inj hdecorators)]
  case ret.ret _ value _ value' =>
    obtain ⟨hvalue, -⟩ := fieldsAlike_of_shown h
    rw [Outline.stmt, Outline.stmt, optExpr_eq hf hs.2 hs'.2 .free hvalue]
  case delete.delete _ targets _ targets' =>
    obtain ⟨htargets, -⟩ := fieldsAlike_of_shown h
    rw [Outline.stmt, Outline.stmt, exprs_eq hf hs.2 hs'.2 .free (Document.list.inj htargets)]
  case assign.assign _ targets value _ targets' value' =>
    obtain ⟨htargets, hvalue, -⟩ := fieldsAlike_of_shown h
    rw [Outline.stmt, Outline.stmt, exprs_eq hf hs.2.1 hs'.2.1 .free (Document.list.inj htargets),
      expr_eq hf hs.2.2 hs'.2.2 .free hvalue]
  case augAssign.augAssign _ target op value _ target' op' value' =>
    obtain ⟨htarget, hop, hvalue, -⟩ := fieldsAlike_of_shown h
    rw [Outline.stmt, Outline.stmt, expr_eq hf hs.2.1 hs'.2.1 .free htarget,
      binaryOp_eq (eq_of_shown_bare hop), expr_eq hf hs.2.2 hs'.2.2 .free hvalue]
  case annAssign.annAssign _ target hint value simple _ target' hint' value' simple' =>
    obtain ⟨htarget, hhint, hvalue, hsimple, -⟩ := fieldsAlike_of_shown h
    rw [Outline.stmt, Outline.stmt, expr_eq hf hs.2.1 hs'.2.1 .free htarget,
      expr_eq hf hs.2.2.1 hs'.2.2.1 .free hhint, optExpr_eq hf hs.2.2.2 hs'.2.2.2 .free hvalue,
      flag_eq hsimple]
  case forLoop.forLoop _ isAsync target iter body orelse _ isAsync' target' iter' body' orelse' =>
    obtain ⟨htarget, hiter, hbody, horelse, -⟩ := fieldsAlike_of_shown h
    have hasync : isAsync = isAsync' := flag_eq_of_ite (by decide) hlabel
    rw [Outline.stmt, Outline.stmt, hasync, expr_eq hf hs.2.1 hs'.2.1 .free htarget,
      expr_eq hf hs.2.2.1 hs'.2.2.1 .free hiter,
      stmts_eq hf hs.2.2.2.1 hs'.2.2.2.1 (Document.list.inj hbody),
      stmts_eq hf hs.2.2.2.2 hs'.2.2.2.2 (Document.list.inj horelse)]
  case whileLoop.whileLoop _ test body orelse _ test' body' orelse' =>
    obtain ⟨htest, hbody, horelse, -⟩ := fieldsAlike_of_shown h
    rw [Outline.stmt, Outline.stmt, expr_eq hf hs.2.1 hs'.2.1 .free htest,
      stmts_eq hf hs.2.2.1 hs'.2.2.1 (Document.list.inj hbody),
      stmts_eq hf hs.2.2.2 hs'.2.2.2 (Document.list.inj horelse)]
  case branch.branch _ test body orelse _ test' body' orelse' =>
    obtain ⟨htest, hbody, horelse, -⟩ := fieldsAlike_of_shown h
    rw [Outline.stmt, Outline.stmt, expr_eq hf hs.2.1 hs'.2.1 .free htest,
      stmts_eq hf hs.2.2.1 hs'.2.2.1 (Document.list.inj hbody),
      stmts_eq hf hs.2.2.2 hs'.2.2.2 (Document.list.inj horelse)]
  case withBlock.withBlock _ isAsync items body _ isAsync' items' body' =>
    obtain ⟨hitems, hbody, -⟩ := fieldsAlike_of_shown h
    have hasync : isAsync = isAsync' := flag_eq_of_ite (by decide) hlabel
    rw [Outline.stmt, Outline.stmt, hasync,
      withItems_eq hf hs.2.1 hs'.2.1 (Document.list.inj hitems),
      stmts_eq hf hs.2.2 hs'.2.2 (Document.list.inj hbody)]
  case matchBlock.matchBlock _ subject cs _ subject' cs' =>
    obtain ⟨hsubject, hcases, -⟩ := fieldsAlike_of_shown h
    rw [Outline.stmt, Outline.stmt, expr_eq hf hs.2.1 hs'.2.1 .free hsubject,
      cases_eq hf hs.2.2 hs'.2.2 (Document.list.inj hcases)]
  case raise.raise _ exc cause _ exc' cause' =>
    obtain ⟨hexc, hcause, -⟩ := fieldsAlike_of_shown h
    rw [Outline.stmt, Outline.stmt, optExpr_eq hf hs.2.1 hs'.2.1 .free hexc,
      optExpr_eq hf hs.2.2 hs'.2.2 .free hcause]
  case tryBlock.tryBlock _ isStar body hdls orelse finalbody
      _ isStar' body' hdls' orelse' finalbody' =>
    obtain ⟨hbody, hhandlers, horelse, hfinal, -⟩ := fieldsAlike_of_shown h
    have hstar : isStar = isStar' := flag_eq_of_ite (by decide) hlabel
    rw [Outline.stmt, Outline.stmt, hstar,
      stmts_eq hf hs.2.1 hs'.2.1 (Document.list.inj hbody),
      handlers_eq hf hs.1 hs'.1 hs.2.2.1 hs'.2.2.1 (Document.list.inj hhandlers),
      stmts_eq hf hs.2.2.2.1 hs'.2.2.2.1 (Document.list.inj horelse),
      stmts_eq hf hs.2.2.2.2 hs'.2.2.2.2 (Document.list.inj hfinal)]
  case assertion.assertion _ test message _ test' message' =>
    obtain ⟨htest, hmessage, -⟩ := fieldsAlike_of_shown h
    rw [Outline.stmt, Outline.stmt, expr_eq hf hs.2.1 hs'.2.1 .free htest,
      optExpr_eq hf hs.2.2 hs'.2.2 .free hmessage]
  case importNames.importNames _ names _ names' =>
    obtain ⟨hnames, -⟩ := fieldsAlike_of_shown h
    rw [Outline.stmt, Outline.stmt, importedNames_eq hf hs.1 hs'.1 (Document.list.inj hnames)]
  case importFrom.importFrom _ source names level _ source' names' level' =>
    obtain ⟨hsource, hnames, hlevel, -⟩ := fieldsAlike_of_shown h
    rw [Outline.stmt, Outline.stmt, optWord_eq hf hs.1.1 hs'.1.1 hsource,
      importedNames_eq hf hs.1.2 hs'.1.2 (Document.list.inj hnames),
      Text.ofNat_injective (Document.atom.inj hlevel)]
  case global.global _ names _ names' =>
    obtain ⟨hnames, -⟩ := fieldsAlike_of_shown h
    rw [Outline.stmt, Outline.stmt, words_eq hf (fun t ht => Text.IsWord.isPath (hs.1 t ht))
      (fun t ht => Text.IsWord.isPath (hs'.1 t ht)) (Document.list.inj hnames)]
  case nonlocal.nonlocal _ names _ names' =>
    obtain ⟨hnames, -⟩ := fieldsAlike_of_shown h
    rw [Outline.stmt, Outline.stmt, words_eq hf (fun t ht => Text.IsWord.isPath (hs.1 t ht))
      (fun t ht => Text.IsWord.isPath (hs'.1 t ht)) (Document.list.inj hnames)]
  case expr.expr _ value _ value' =>
    obtain ⟨hvalue, -⟩ := fieldsAlike_of_shown h
    rw [Outline.stmt, Outline.stmt, expr_eq hf hs.2 hs'.2 .free hvalue]
  all_goals rfl
termination_by structural s

theorem stmts_eq (hf : KeepsNames f) : ∀ {ss ss' : List Stmt}, Every.stmts Node.Lawful ss →
    Every.stmts Node.Lawful ss' →
    shownItems f brief (stmts ss) = shownItems f brief (stmts ss') →
    (spelled f).stmts ss = (spelled f).stmts ss'
  | [], [], _, _, _ => rfl
  | _ :: _, _ :: _, hs, hs', h => by
    obtain ⟨hfirst, hrest⟩ := List.cons.inj h
    rw [Outline.stmts, Outline.stmts, stmt_eq hf hs.1 hs'.1 hfirst, stmts_eq hf hs.2 hs'.2 hrest]
termination_by structural ss => ss

theorem handlers_eq (hf : KeepsNames f) : ∀ {hs hs' : List Handler},
    (∀ k ∈ hs, ∀ id ∈ k.name, id.IsWord) → (∀ k ∈ hs', ∀ id ∈ k.name, id.IsWord) →
    Every.handlers Node.Lawful hs → Every.handlers Node.Lawful hs' →
    shownItems f brief (handlers hs) = shownItems f brief (handlers hs') →
    (spelled f).handlers hs = (spelled f).handlers hs'
  | [], [], _, _, _, _, _ => rfl
  | [], .mk _ _ _ :: _, _, _, _, _, h => nomatch h
  | .mk _ _ _ :: _, [], _, _, _, _, h => nomatch h
  | .mk _ id _ :: _, .mk _ id' _ :: _, hname, hname', hh, hh', h => by
    obtain ⟨hfirst, hrest⟩ := List.cons.inj h
    obtain ⟨htype, hid, hbody, -⟩ := fieldsAlike_of_shown hfirst
    have hid : id = id' := optWord_eq hf
      (fun t ht => Text.IsWord.isPath (hname _ List.mem_cons_self t ht))
      (fun t ht => Text.IsWord.isPath (hname' _ List.mem_cons_self t ht)) hid
    rw [Outline.handlers, Outline.handlers, optExpr_eq hf hh.1 hh'.1 .shown htype, hid,
      stmts_eq hf hh.2.1 hh'.2.1 (Document.list.inj hbody),
      handlers_eq hf (fun k hm => hname k (List.mem_cons_of_mem _ hm))
        (fun k hm => hname' k (List.mem_cons_of_mem _ hm)) hh.2.2 hh'.2.2 hrest]
termination_by structural hs => hs

theorem cases_eq (hf : KeepsNames f) : ∀ {cs cs' : List MatchCase}, Every.cases Node.Lawful cs →
    Every.cases Node.Lawful cs' →
    shownItems f brief (cases cs) = shownItems f brief (cases cs') →
    (spelled f).cases cs = (spelled f).cases cs'
  | [], [], _, _, _ => rfl
  | [], .mk _ _ _ :: _, _, _, h => nomatch h
  | .mk _ _ _ :: _, [], _, _, h => nomatch h
  | .mk _ _ _ :: _, .mk _ _ _ :: _, hc, hc', h => by
    obtain ⟨hfirst, hrest⟩ := List.cons.inj h
    obtain ⟨hpattern, hguard, hbody, -⟩ := fieldsAlike_of_shown hfirst
    rw [Outline.cases, Outline.cases, pattern_eq hf hc.1 hc'.1 hpattern,
      optExpr_eq hf hc.2.1 hc'.2.1 .free hguard,
      stmts_eq hf hc.2.2.1 hc'.2.2.1 (Document.list.inj hbody), cases_eq hf hc.2.2.2 hc'.2.2.2 hrest]
termination_by structural cs => cs

end

end Dump

open Outline (spelled)

/-- Two modules of faultless sources with the same text are equal but for extents and for the
spelling of floating-point and imaginary numbers that are written out alike. -/
theorem spelled_module_eq_of_moduleText_eq {source source' : Text} {maxErrors maxErrors' : Nat}
    (hok : (Parsed.ofSource source maxErrors).ok = true)
    (hok' : (Parsed.ofSource source' maxErrors').ok = true)
    (h : Dump.moduleText true (Parsed.ofSource source maxErrors).module =
      Dump.moduleText true (Parsed.ofSource source' maxErrors').module) :
    (spelled id).module (Parsed.ofSource source maxErrors).module =
      (spelled id).module (Parsed.ofSource source' maxErrors').module := by
  have hm := Parsed.lawful_module hok
  have hm' := Parsed.lawful_module hok'
  have hshown := Document.shown_eq_of_toText_eq (Dump.readable_module hm)
    (Dump.readable_module hm') h
  obtain ⟨hbody, -⟩ := fieldsAlike_of_shown hshown
  have hkeeps : Dump.KeepsNames id := fun _ _ => rfl
  rw [Outline.module, Outline.module,
    Dump.stmts_eq hkeeps hm.2 hm'.2 (Document.list.inj hbody)]

/-- Other extents, parentheses, quotes and digits, but the same text. -/
theorem spelled_module_eq_respelled :
    let p := Parsed.ofSource (utf8 "def f(a, b=1.50):\n    return g(a, 'it', k=2j)[0]\n") 64
    let p' := Parsed.ofSource (utf8 "def f(a, b = 15e-1):\n  return (g(a, \"it\", k=2.0j)[(0)])\n") 64
    p.ok = true ∧ p'.ok = true ∧
      p.module.body.map Stmt.extent ≠ p'.module.body.map Stmt.extent ∧
      Dump.moduleText true p.module = Dump.moduleText true p'.module ∧
      (spelled id).module p.module = (spelled id).module p'.module := by
  intro p p'
  have hok : p.ok = true := by decide +kernel
  have hok' : p'.ok = true := by decide +kernel
  have htext : Dump.moduleText true p.module = Dump.moduleText true p'.module := by
    decide +kernel
  exact ⟨hok, hok', by decide +kernel, htext, spelled_module_eq_of_moduleText_eq hok hok' htext⟩

end CloneScout
