import CloneScout.Proofs.Number.Numeral
import CloneScout.Proofs.Tree.Document
import CloneScout.Proofs.Tree.Lawful

/-!
# Trees have readable documents

The document of a lawful tree can be read back: its numbers, kinds and names of fields are words,
and what stands in quotes is a sequence of code points.
-/

namespace CloneScout

open Document (Readable AllReadable FieldsReadable OptReadable Led fieldsReadable_cons)

/-! ## Leaves -/

theorem Text.isBare_ofNat (n : Nat) : (Text.ofNat n).IsBare := by
  refine ⟨Text.ofNat_ne_nil n, fun b hb => ?_⟩
  rw [Text.isWordByte, Text.isDigit_of_mem_ofNat hb]
  simp

namespace Shortest

theorem isWordByte_of_isMark {b : UInt8} (h : isMark b = true) : Text.isWordByte b = true := by
  have hletter : ∀ c ∈ utf8 ".+-einfa", Text.isWordByte c = true := by decide
  rw [isMark, Bool.or_eq_true] at h
  rcases h with h | h
  · rw [Text.isWordByte, h]
    simp
  · exact hletter b (List.contains_iff_mem.mp h)

theorem isBare_text (v : Binary64) : (text v).IsBare := by
  obtain ⟨hall, b, hb, -⟩ := isFloat_text v
  exact ⟨List.ne_nil_of_mem hb, fun c hc => isWordByte_of_isMark (hall c hc)⟩

theorem isBare_imaginary (v : Binary64) : (imaginary v).IsBare := by
  obtain ⟨t, ht, hall⟩ := imaginary_eq v
  have hj : ∀ c ∈ utf8 "j", Text.isWordByte c = true := by decide
  rw [ht]
  refine ⟨fun hnil => ?_, fun b hb => ?_⟩
  · exact absurd (List.append_eq_nil_iff.mp hnil).2 (by decide)
  · exact (List.mem_append.mp hb).elim (fun hb => isWordByte_of_isMark (hall b hb)) (hj b)

end Shortest

namespace Dump

theorem readable_flag (b : Bool) : (flag b).Readable true := by
  cases b
  · exact show (utf8 "0").IsBare by decide
  · exact show (utf8 "1").IsBare by decide

theorem readable_conversion (c : Option Conversion) : (conversion c).Readable true := by
  rcases c with _ | _ | _ | _
  · exact show (utf8 "-1").IsBare by decide
  · exact show (utf8 "115").IsBare by decide
  · exact show (utf8 "114").IsBare by decide
  · exact show (utf8 "97").IsBare by decide

theorem readable_singleton (c : Singleton) : (singleton c).Readable true := by
  cases c
  · exact show (utf8 "None").IsBare by decide
  · exact show (utf8 "True").IsBare by decide
  · exact show (utf8 "False").IsBare by decide

theorem readable_constant {c : Constant} (h : c.Lawful) : (constant c).Readable true := by
  cases c with
  | none => exact show (utf8 "None").IsBare by decide
  | true => exact show (utf8 "True").IsBare by decide
  | false => exact show (utf8 "False").IsBare by decide
  | ellipsis => exact show (utf8 "Ellipsis").IsBare by decide
  | int n => exact Text.isBare_ofNat n
  | float digits => exact Shortest.isBare_text _
  | imaginary digits => exact Shortest.isBare_imaginary _
  | text value marked => exact h
  | bytes value => trivial

theorem readable_words {ts : List Text} (h : ∀ t ∈ ts, Utf8.IsEncoded t) :
    (words ts).Readable true := by
  refine Document.allReadable_iff.mpr fun d hd => ?_
  obtain ⟨t, ht, rfl⟩ := List.mem_map.mp hd
  exact h t ht

theorem readable_optWord {t : Option Text} (h : ∀ id ∈ t, Utf8.IsEncoded id) :
    OptReadable (t.map Document.quoted) := by
  intro d hd
  cases t with
  | none => exact absurd hd (by simp)
  | some id =>
    obtain rfl : Document.quoted id = d := by simpa using hd
    exact h id rfl

theorem readable_mark (c : Constant) : OptReadable (mark c) := by
  intro d hd
  unfold mark at hd
  split at hd
  · obtain rfl : Document.quoted (utf8 "u") = d := by simpa using hd
    exact Utf8.IsEncoded.of_ascii (by decide)
  · exact absurd hd (by simp)

/-! ### Kinds -/

theorem isBare_context (c : Context) : (utf8 c.label).IsBare := by cases c <;> decide

theorem isBare_boolOp (op : BoolOp) : (utf8 op.label).IsBare := by cases op <;> decide

theorem isBare_binaryOp (op : BinaryOp) : (utf8 op.label).IsBare := by cases op <;> decide

theorem isBare_unaryOp (op : UnaryOp) : (utf8 op.label).IsBare := by cases op <;> decide

theorem isBare_compareOp (op : CompareOp) : (utf8 op.label).IsBare := by cases op <;> decide

theorem readable_compareOps (ops : List CompareOp) :
    AllReadable true (ops.map fun op => Document.node op.label []) := by
  refine Document.allReadable_iff.mpr fun d hd => ?_
  obtain ⟨op, -, rfl⟩ := List.mem_map.mp hd
  exact ⟨isBare_compareOp op, by simp [Led], trivial⟩

end Dump

/-- All parameters in the order in which they are written. -/
def Params.all : Params → List Param
  | .mk posOnly plain star kwOnly doubleStar =>
    posOnly ++ plain ++ star.toList ++ kwOnly ++ doubleStar.toList

/-- The parameters are lawful, apart from the nodes in them. -/
def Params.WellFormed : Params → Prop
  | .mk posOnly plain star kwOnly doubleStar => Params.Lawful posOnly plain star kwOnly doubleStar

theorem Params.WellFormed.names {ps : Params} (h : ps.WellFormed) : ∀ p ∈ ps.all, p.name.IsWord := by
  cases ps
  exact Params.Lawful.names h

namespace Node

theorem Lawful.lambda {x : Extent} {ps : Params} {body : Expr}
    (h : Node.Lawful (.expr (.lambda x ps body))) : ps.WellFormed := by
  cases ps
  exact h

theorem Lawful.function {x : Extent} {isAsync : Bool} {id : Text} {ps : Params} {body : List Stmt}
    {decorators : List Expr} {returns : Option Expr}
    (h : Node.Lawful (.stmt (.function x isAsync id ps body decorators returns))) :
    id.IsWord ∧ ps.WellFormed := by
  cases ps
  exact h

end Node

namespace Dump

/-! ## Expressions -/

mutual

theorem readable_expr {e : Expr} (h : Every.expr Node.Lawful e) : (expr e).Readable true := by
  cases e with
  | constant _ c =>
    simp only [Every.expr, Node.Lawful] at h
    simp +decide [expr, Readable, Led, fieldsReadable_cons, FieldsReadable,
      readable_constant h.1, readable_mark]
  | name _ id ctx =>
    have hid : Utf8.IsEncoded id := h.1.1
    simp +decide [expr, Readable, Led, FieldsReadable, Document.bare, hid,
      isBare_context]
  | «attribute» _ value attr ctx =>
    simp only [Every.expr, Node.Lawful] at h
    have hattr : Utf8.IsEncoded attr := h.1.1
    simp +decide [expr, Readable, Led, FieldsReadable, Document.bare,
      hattr, readable_expr h.2, isBare_context]
  | call _ func args kws =>
    simp only [Every.expr, Node.Lawful] at h
    simp +decide [expr, Readable, Led, FieldsReadable, readable_expr,
      readable_exprs, readable_keywords h.1, h]
  | lambda _ ps body =>
    have hnames := (Node.Lawful.lambda h.1).names
    simp only [Every.expr] at h
    simp +decide [expr, Readable, Led, FieldsReadable,
      readable_expr, readable_params hnames, h]
  | _ =>
    simp only [Every.expr] at h
    simp +decide [expr, Readable, Led, fieldsReadable_cons, FieldsReadable, Document.bare, h,
      isBare_boolOp, isBare_binaryOp, isBare_unaryOp, isBare_context, readable_compareOps,
      readable_conversion, readable_expr, readable_exprs, readable_optExpr, readable_keys,
      readable_values, readable_comprehensions]

theorem readable_exprs {es : List Expr} (h : Every.exprs Node.Lawful es) :
    AllReadable true (exprs es) := by
  cases es with
  | nil => trivial
  | cons e es => exact ⟨readable_expr h.1, readable_exprs h.2⟩

theorem readable_optExpr {e : Option Expr} (h : Every.optExpr Node.Lawful e) :
    OptReadable (optExpr e) := by
  intro d hd
  cases e with
  | none => exact absurd hd (by simp [optExpr])
  | some e =>
    obtain rfl : expr e = d := by simpa [optExpr] using hd
    exact readable_expr h

theorem readable_keys : ∀ {es : List Entry}, Every.entries Node.Lawful es →
    AllReadable true (keys es)
  | [], _ => trivial
  | .pair _ _ :: _, h => ⟨readable_expr h.1, readable_keys h.2.2⟩
  | .unpack _ :: _, h => ⟨show (utf8 "None").IsBare by decide, readable_keys h.2⟩

theorem readable_values : ∀ {es : List Entry}, Every.entries Node.Lawful es →
    AllReadable true (values es)
  | [], _ => trivial
  | .pair _ _ :: _, h => ⟨readable_expr h.2.1, readable_values h.2.2⟩
  | .unpack _ :: _, h => ⟨readable_expr h.1, readable_values h.2⟩

theorem readable_keywords : ∀ {ks : List Keyword}, (∀ k ∈ ks, ∀ id ∈ k.arg, id.IsWord) →
    Every.keywords Node.Lawful ks → AllReadable true (keywords ks)
  | [], _, _ => trivial
  | .mk arg value :: _, hargs, h => by
    have harg : ∀ id ∈ arg, Utf8.IsEncoded id := fun id hid =>
      (hargs _ List.mem_cons_self id hid).1
    refine ⟨?_, readable_keywords (fun k hk => hargs k (List.mem_cons_of_mem _ hk)) h.2⟩
    simp +decide [Readable, Led, fieldsReadable_cons, FieldsReadable,
      readable_optWord harg, readable_expr h.1]

theorem readable_comprehensions : ∀ {gs : List Comprehension},
    Every.comprehensions Node.Lawful gs → AllReadable true (comprehensions gs)
  | [], _ => trivial
  | .mk _ _ _ isAsync :: _, h => by
    simp only [Every.comprehensions] at h
    simp +decide [comprehensions, AllReadable, Readable, Led,
      FieldsReadable, readable_flag, readable_expr, readable_exprs, readable_comprehensions, h]

theorem readable_param : ∀ {q : Param}, q.name.IsWord → Every.param Node.Lawful q →
    (param q).Readable true
  | .mk id hint _, hname, h => by
    have hid : Utf8.IsEncoded id := hname.1
    simp only [Every.param] at h
    simp +decide [param, Readable, Led, fieldsReadable_cons, FieldsReadable, hid,
      readable_optExpr h.1]

theorem readable_optParam {q : Option Param} (hname : ∀ p ∈ q, p.name.IsWord)
    (h : Every.optParam Node.Lawful q) : OptReadable (optParam q) := by
  intro d hd
  cases q with
  | none => exact absurd hd (by simp [optParam])
  | some q =>
    obtain rfl : param q = d := by simpa [optParam] using hd
    exact readable_param (hname q rfl) h

theorem readable_paramList {qs : List Param} (hname : ∀ p ∈ qs, p.name.IsWord)
    (h : Every.paramList Node.Lawful qs) : AllReadable true (paramList qs) := by
  cases qs with
  | nil => trivial
  | cons q qs =>
    exact ⟨readable_param (hname q List.mem_cons_self) h.1,
      readable_paramList (fun p hp => hname p (List.mem_cons_of_mem q hp)) h.2⟩

theorem readable_defaults : ∀ {qs : List Param}, Every.paramList Node.Lawful qs →
    AllReadable true (defaults qs)
  | [], _ => trivial
  | .mk _ _ none :: _, h => by
    rw [defaults]
    exact readable_defaults h.2
  | .mk _ _ (some _) :: _, h => ⟨readable_expr h.1.2, readable_defaults h.2⟩

theorem readable_kwDefaults : ∀ {qs : List Param}, Every.paramList Node.Lawful qs →
    AllReadable true (kwDefaults qs)
  | [], _ => trivial
  | .mk _ _ none :: _, h => ⟨show (utf8 "None").IsBare by decide, readable_kwDefaults h.2⟩
  | .mk _ _ (some _) :: _, h => ⟨readable_expr h.1.2, readable_kwDefaults h.2⟩

theorem readable_params : ∀ {ps : Params}, (∀ p ∈ ps.all, p.name.IsWord) →
    Every.params Node.Lawful ps → (params ps).Readable true
  | .mk posOnly plain star kwOnly doubleStar, hname, h => by
    simp only [Every.params] at h
    simp only [Params.all, List.mem_append, Option.mem_toList, or_imp, forall_and] at hname
    obtain ⟨⟨⟨⟨hposOnly, hplain⟩, hstar⟩, hkwOnly⟩, hdoubleStar⟩ := hname
    have hdefaults : AllReadable true (defaults posOnly ++ defaults plain) := by
      refine Document.allReadable_iff.mpr fun d hd => ?_
      rcases List.mem_append.mp hd with hd | hd
      · exact Document.allReadable_iff.mp (readable_defaults h.1) d hd
      · exact Document.allReadable_iff.mp (readable_defaults h.2.1) d hd
    simp +decide [params, Readable, Led, fieldsReadable_cons, FieldsReadable,
      hdefaults, readable_kwDefaults h.2.2.2.1, readable_paramList hposOnly h.1,
      readable_paramList hplain h.2.1, readable_paramList hkwOnly h.2.2.2.1,
      readable_optParam hstar h.2.2.1, readable_optParam hdoubleStar h.2.2.2.2]

end

/-! ## Patterns -/

theorem patternAttrs_eq_map (ks : List PatternKeyword) :
    patternAttrs ks = ks.map PatternKeyword.attr := by
  induction ks with
  | nil => rfl
  | cons k ks ih =>
    obtain ⟨attr, p⟩ := k
    rw [patternAttrs, ih, List.map_cons, PatternKeyword.attr]

mutual

theorem readable_pattern {p : Pattern} (h : Every.pattern Node.Lawful p) :
    (pattern p).Readable true := by
  cases p with
  | mapping _ entries rest =>
    simp only [Every.pattern, Node.Lawful] at h
    have hrest : OptReadable (rest.map Document.quoted) :=
      readable_optWord fun id hid => (h.1 id hid).1
    simp +decide [pattern, Readable, Led, fieldsReadable_cons, FieldsReadable, hrest,
      readable_patternKeys, readable_patternValues, h]
  | cls _ cls ps kws =>
    simp only [Every.pattern, Node.Lawful] at h
    have hattrs : ∀ t ∈ patternAttrs kws, Utf8.IsEncoded t := by
      intro t ht
      rw [patternAttrs_eq_map] at ht
      obtain ⟨k, hk, rfl⟩ := List.mem_map.mp ht
      exact (h.1 k hk).1
    simp +decide [pattern, Readable, Led, FieldsReadable, readable_expr, readable_patterns,
      readable_words hattrs, readable_keywordPatterns, h]
  | star _ id =>
    simp only [Every.pattern, Node.Lawful] at h
    have hid : OptReadable (id.map Document.quoted) :=
      readable_optWord fun t ht => (h.1 t ht).1
    simp +decide [pattern, Readable, Led, fieldsReadable_cons, FieldsReadable, hid]
  | as _ p id =>
    simp only [Every.pattern, Node.Lawful] at h
    have hid : OptReadable (id.map Document.quoted) :=
      readable_optWord fun t ht => (h.1 t ht).1
    simp +decide [pattern, Readable, Led, fieldsReadable_cons, FieldsReadable, hid,
      readable_optPattern h.2]
  | _ =>
    simp only [Every.pattern] at h
    simp +decide [pattern, Readable, Led, FieldsReadable, Document.bare, h, readable_singleton,
      readable_expr, readable_patterns]

theorem readable_patterns {ps : List Pattern} (h : Every.patterns Node.Lawful ps) :
    AllReadable true (patterns ps) := by
  cases ps with
  | nil => trivial
  | cons p ps => exact ⟨readable_pattern h.1, readable_patterns h.2⟩

theorem readable_optPattern {p : Option Pattern} (h : Every.optPattern Node.Lawful p) :
    OptReadable (optPattern p) := by
  intro d hd
  cases p with
  | none => exact absurd hd (by simp [optPattern])
  | some p =>
    obtain rfl : pattern p = d := by simpa [optPattern] using hd
    exact readable_pattern h

theorem readable_patternKeys : ∀ {es : List PatternEntry}, Every.patternEntries Node.Lawful es →
    AllReadable true (patternKeys es)
  | [], _ => trivial
  | .mk _ _ :: _, h => ⟨readable_expr h.1, readable_patternKeys h.2.2⟩

theorem readable_patternValues : ∀ {es : List PatternEntry},
    Every.patternEntries Node.Lawful es → AllReadable true (patternValues es)
  | [], _ => trivial
  | .mk _ _ :: _, h => ⟨readable_pattern h.2.1, readable_patternValues h.2.2⟩

theorem readable_keywordPatterns : ∀ {ks : List PatternKeyword},
    Every.patternKeywords Node.Lawful ks → AllReadable true (keywordPatterns ks)
  | [], _ => trivial
  | .mk _ _ :: _, h => ⟨readable_pattern h.1, readable_keywordPatterns h.2⟩

end

/-! ## Statements -/

theorem readable_withItem {w : WithItem} (hcontext : Every.expr Node.Lawful w.context)
    (htarget : Every.optExpr Node.Lawful w.target) : (withItem w).Readable true := by
  simp +decide [withItem, Readable, Led, fieldsReadable_cons, FieldsReadable, readable_expr hcontext,
    readable_optExpr htarget]

theorem readable_withItems {items : List WithItem} (h : Every.withItems Node.Lawful items) :
    AllReadable true (items.map withItem) := by
  refine Document.allReadable_iff.mpr fun d hd => ?_
  obtain ⟨w, hw, rfl⟩ := List.mem_map.mp hd
  exact readable_withItem (h w hw).1 (h w hw).2

theorem readable_importedNames {names : List Alias} (h : ∀ a ∈ names, a.Lawful) :
    AllReadable true (names.map importedName) := by
  refine Document.allReadable_iff.mpr fun d hd => ?_
  obtain ⟨a, ha, rfl⟩ := List.mem_map.mp hd
  have hname : Utf8.IsEncoded a.name := (h a ha).1.1
  have hasName : OptReadable (a.asName.map Document.quoted) :=
    readable_optWord fun id hid => ((h a ha).2 id hid).1
  simp +decide [importedName, Readable, Led, fieldsReadable_cons, FieldsReadable, hname, hasName]

mutual

theorem readable_stmt {s : Stmt} (h : Every.stmt Node.Lawful s) : (stmt s).Readable true := by
  cases s with
  | function _ isAsync id ps body decorators returns =>
    obtain ⟨hid, hparams⟩ := Node.Lawful.function h.1
    have hid : Utf8.IsEncoded id := hid.1
    simp only [Every.stmt] at h
    cases isAsync <;>
      simp +decide [stmt, Readable, Led, fieldsReadable_cons, FieldsReadable, hid,
        readable_params hparams.names, readable_exprs, readable_optExpr, readable_stmts, h]
  | classDef _ id bases kws body decorators =>
    simp only [Every.stmt, Node.Lawful] at h
    have hid : Utf8.IsEncoded id := h.1.1.1
    simp +decide [stmt, Readable, Led, FieldsReadable, hid, readable_exprs, readable_keywords h.1.2,
      readable_stmts, h]
  | forLoop _ isAsync target iter body orelse =>
    simp only [Every.stmt] at h
    cases isAsync <;>
      simp +decide [stmt, Readable, Led, FieldsReadable, readable_expr, readable_stmts, h]
  | withBlock _ isAsync items body =>
    simp only [Every.stmt] at h
    cases isAsync <;>
      simp +decide [stmt, Readable, Led, FieldsReadable, readable_withItems, readable_stmts, h]
  | tryBlock _ isStar body hs orelse finalbody =>
    simp only [Every.stmt, Node.Lawful] at h
    cases isStar <;>
      simp +decide [stmt, Readable, Led, FieldsReadable, readable_handlers h.1, readable_stmts, h]
  | importNames _ names =>
    simp only [Every.stmt, Node.Lawful] at h
    simp +decide [stmt, Readable, Led, FieldsReadable, readable_importedNames h.1]
  | importFrom _ source names level =>
    simp only [Every.stmt, Node.Lawful] at h
    have hsource : OptReadable (source.map Document.quoted) :=
      readable_optWord fun t ht => (h.1.1 t ht).1
    simp +decide [stmt, Readable, Led, fieldsReadable_cons, FieldsReadable, hsource,
      readable_importedNames h.1.2, Text.isBare_ofNat]
  | global _ names =>
    simp only [Every.stmt, Node.Lawful] at h
    simp +decide [stmt, Readable, Led, FieldsReadable, readable_words fun t ht => (h.1 t ht).1]
  | «nonlocal» _ names =>
    simp only [Every.stmt, Node.Lawful] at h
    simp +decide [stmt, Readable, Led, FieldsReadable, readable_words fun t ht => (h.1 t ht).1]
  | _ =>
    simp only [Every.stmt] at h
    simp +decide [stmt, Readable, Led, fieldsReadable_cons, FieldsReadable, Document.bare,
      isBare_binaryOp, readable_flag, readable_expr, readable_exprs, readable_optExpr,
      readable_stmts, readable_cases, h]

theorem readable_stmts {ss : List Stmt} (h : Every.stmts Node.Lawful ss) :
    AllReadable true (stmts ss) := by
  cases ss with
  | nil => trivial
  | cons s ss => exact ⟨readable_stmt h.1, readable_stmts h.2⟩

theorem readable_handlers : ∀ {hs : List Handler}, (∀ hdl ∈ hs, ∀ id ∈ hdl.name, id.IsWord) →
    Every.handlers Node.Lawful hs → AllReadable true (handlers hs)
  | [], _, _ => trivial
  | .mk _ id _ :: _, hnames, h => by
    have hid : OptReadable (id.map Document.quoted) :=
      readable_optWord fun t ht => (hnames _ List.mem_cons_self t ht).1
    simp only [Every.handlers] at h
    refine ⟨?_, readable_handlers (fun k hk => hnames k (List.mem_cons_of_mem _ hk)) h.2.2⟩
    simp +decide [Readable, Led, fieldsReadable_cons, FieldsReadable, hid, readable_optExpr h.1,
      readable_stmts h.2.1]

theorem readable_cases : ∀ {cs : List MatchCase}, Every.cases Node.Lawful cs →
    AllReadable true (cases cs)
  | [], _ => trivial
  | .mk _ _ _ :: _, h => by
    simp only [Every.cases] at h
    refine ⟨?_, readable_cases h.2.2.2⟩
    simp +decide [Readable, Led, fieldsReadable_cons, FieldsReadable, readable_pattern,
      readable_optExpr, readable_stmts, h]

end

theorem readable_module {m : Module} (h : Every.module Node.Lawful m) :
    (module m).Readable true := by
  simp +decide [module, Readable, Led, FieldsReadable, AllReadable, readable_stmts h.2]

end Dump

end CloneScout
