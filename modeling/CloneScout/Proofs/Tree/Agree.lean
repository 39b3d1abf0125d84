import CloneScout.Proofs.Normal.Outline
import CloneScout.Proofs.Tree.WellFormed
import Mathlib.Data.List.Forall2

/-!
# Trees that agree

Two trees agree if the first is well formed and they differ in nothing but extents. For each kind of
node there is a lemma that builds agreeing nodes from agreeing parts. For a reader of assignments the
place of a bare name matters too: `AgreeFrom` says that names start at places that belong together.
-/

namespace CloneScout

open Outline (plain swap_plain)

variable {x x' : Extent}

/-! ## Expressions and their parts -/

/-- The first expression is well formed in a place of the given use, and the two differ in nothing but
extents. -/
structure Expr.Agree (use : Context) (e e' : Expr) : Prop where
  formed : WellFormed.expr use e
  outline (p : Place) : plain.expr p e = plain.expr p e'

/-- Where a name starts; other expressions start nowhere. -/
def Expr.nameStart? : Expr → Option Nat
  | .name x _ _ => some x.span.lo
  | _ => none

/-- The expressions agree, and if they are names then their offsets belong together. -/
structure Expr.AgreeFrom (A : Nat → Nat → Prop) (e e' : Expr) : Prop extends
    Expr.Agree .load e e' where
  start : Option.Rel A e.nameStart? e'.nameStart?

/-- Lists whose members agree one by one. -/
abbrev Expr.AgreeAll (use : Context) : List Expr → List Expr → Prop :=
  List.Forall₂ (Expr.Agree use)

abbrev Expr.AgreeOpt (use : Context) : Option Expr → Option Expr → Prop :=
  Option.Rel (Expr.Agree use)

inductive Entry.Agree : Entry → Entry → Prop where
  | pair {k k' v v' : Expr} (hk : k.Agree .load k') (hv : v.Agree .load v') :
    Agree (.pair k v) (.pair k' v')
  | unpack {v v' : Expr} (hv : v.Agree .load v') : Agree (.unpack v) (.unpack v')

inductive Keyword.Agree : Keyword → Keyword → Prop where
  | mk {arg : Option Text} {v v' : Expr} (hv : v.Agree .load v') : Agree (.mk arg v) (.mk arg v')

inductive Comprehension.Agree : Comprehension → Comprehension → Prop where
  | mk {target target' iter iter' : Expr} {conditions conditions' : List Expr} {isAsync : Bool}
      (ht : target.Agree .store target') (hi : iter.Agree .load iter')
      (hc : Expr.AgreeAll .load conditions conditions') :
    Agree (.mk target iter conditions isAsync) (.mk target' iter' conditions' isAsync)

inductive Param.Agree : Param → Param → Prop where
  | mk {id : Text} {hint hint' value value' : Option Expr} (hh : Expr.AgreeOpt .load hint hint')
      (hv : Expr.AgreeOpt .load value value') : Agree (.mk id hint value) (.mk id hint' value')

inductive Params.Agree : Params → Params → Prop where
  | mk {posOnly posOnly' plain plain' kwOnly kwOnly' : List Param}
      {star star' doubleStar doubleStar' : Option Param}
      (hpos : List.Forall₂ Param.Agree posOnly posOnly')
      (hplain : List.Forall₂ Param.Agree plain plain') (hstar : Option.Rel Param.Agree star star')
      (hkw : List.Forall₂ Param.Agree kwOnly kwOnly')
      (hdouble : Option.Rel Param.Agree doubleStar doubleStar') :
    Agree (.mk posOnly plain star kwOnly doubleStar) (.mk posOnly' plain' star' kwOnly' doubleStar')

/-! ### Lists of parts -/

section

variable {p : Place}

theorem Expr.AgreeAll.formed {use : Context} {es es' : List Expr} (h : AgreeAll use es es') :
    WellFormed.exprs use es := by
  induction h with
  | nil => trivial
  | cons h _ ih => exact ⟨h.formed, ih⟩

theorem Expr.AgreeAll.outline {use : Context} {es es' : List Expr} (h : AgreeAll use es es') :
    plain.exprs p es = plain.exprs p es' := by
  induction h with
  | nil => rfl
  | cons h _ ih => rw [Outline.exprs, h.outline, ih, Outline.exprs]

theorem Expr.AgreeOpt.formed {use : Context} {e e' : Option Expr} (h : AgreeOpt use e e') :
    WellFormed.optExpr use e := by
  cases h with
  | none => trivial
  | some h => exact h.formed

theorem Expr.AgreeOpt.outline {use : Context} {e e' : Option Expr} (h : AgreeOpt use e e') :
    plain.optExpr p e = plain.optExpr p e' := by
  cases h with
  | none => rfl
  | some h => rw [Outline.optExpr, h.outline, Outline.optExpr]

theorem Entry.Agree.all {es es' : List Entry} (h : List.Forall₂ Entry.Agree es es') :
    WellFormed.entries es ∧ plain.entries p es = plain.entries p es' := by
  induction h with
  | nil => exact ⟨trivial, rfl⟩
  | cons h _ ih =>
    cases h with
    | pair hk hv =>
      exact ⟨⟨hk.formed, hv.formed, ih.1⟩, by simp [Outline.entries, hk.outline, hv.outline, ih.2]⟩
    | unpack hv => exact ⟨⟨hv.formed, ih.1⟩, by simp [Outline.entries, hv.outline, ih.2]⟩

theorem Keyword.Agree.all {ks ks' : List Keyword} (h : List.Forall₂ Keyword.Agree ks ks') :
    WellFormed.keywords ks ∧ plain.keywords p ks = plain.keywords p ks' := by
  induction h with
  | nil => exact ⟨trivial, rfl⟩
  | cons h _ ih =>
    obtain ⟨hv⟩ := h
    exact ⟨⟨hv.formed, ih.1⟩, by simp [Outline.keywords, hv.outline, ih.2]⟩

theorem Comprehension.Agree.all {gs gs' : List Comprehension}
    (h : List.Forall₂ Comprehension.Agree gs gs') :
    WellFormed.comprehensions gs ∧ plain.comprehensions p gs = plain.comprehensions p gs' := by
  induction h with
  | nil => exact ⟨trivial, rfl⟩
  | cons h _ ih =>
    obtain ⟨ht, hi, hc⟩ := h
    refine ⟨⟨ht.formed, hi.formed, Expr.AgreeAll.formed hc, ih.1⟩, ?_⟩
    simp [Outline.comprehensions, ht.outline, hi.outline, Expr.AgreeAll.outline hc, ih.2]

theorem Param.Agree.formed {q q' : Param} (h : q.Agree q') : WellFormed.param q := by
  obtain ⟨hh, hv⟩ := h
  exact ⟨Expr.AgreeOpt.formed hh, Expr.AgreeOpt.formed hv⟩

theorem Param.Agree.outline {q q' : Param} (h : q.Agree q') :
    plain.param p q = plain.param p q' := by
  obtain ⟨hh, hv⟩ := h
  simp [Outline.param, Expr.AgreeOpt.outline hh, Expr.AgreeOpt.outline hv]

theorem Param.Agree.all {qs qs' : List Param} (h : List.Forall₂ Param.Agree qs qs') :
    WellFormed.paramList qs ∧ plain.paramList p qs = plain.paramList p qs' := by
  induction h with
  | nil => exact ⟨trivial, rfl⟩
  | cons h _ ih => exact ⟨⟨h.formed, ih.1⟩, by simp [Outline.paramList, h.outline, ih.2]⟩

theorem Param.Agree.opt {q q' : Option Param} (h : Option.Rel Param.Agree q q') :
    WellFormed.optParam q ∧ plain.optParam p q = plain.optParam p q' := by
  cases h with
  | none => exact ⟨trivial, rfl⟩
  | some h => exact ⟨h.formed, by simp [Outline.optParam, h.outline]⟩

theorem Params.Agree.formed {ps ps' : Params} (h : ps.Agree ps') : WellFormed.params ps := by
  obtain ⟨hpos, hplain, hstar, hkw, hdouble⟩ := h
  refine ⟨WellFormed.length_kwDefaults _, ?_, (Param.Agree.all (p := .free) hpos).1,
    (Param.Agree.all (p := .free) hplain).1, (Param.Agree.opt (p := .free) hstar).1,
    (Param.Agree.all (p := .free) hkw).1, (Param.Agree.opt (p := .free) hdouble).1⟩
  rw [List.length_append]
  exact Nat.add_le_add (WellFormed.length_defaults_le _) (WellFormed.length_defaults_le _)

theorem Params.Agree.outline {ps ps' : Params} (h : ps.Agree ps') :
    plain.params p ps = plain.params p ps' := by
  obtain ⟨hpos, hplain, hstar, hkw, hdouble⟩ := h
  simp [Outline.params, (Param.Agree.all hpos).2, (Param.Agree.all hplain).2,
    (Param.Agree.opt hstar).2, (Param.Agree.all hkw).2, (Param.Agree.opt hdouble).2]

end

/-! ### Nodes -/

namespace Expr.AgreeFrom

variable {A : Nat → Nat → Prop} {a a' b b' c c' : Expr} {es es' : List Expr}
  {gs gs' : List Comprehension}

/-- An expression that is no name. -/
theorem of_agree (h : a.Agree .load a') (hstart : a.nameStart? = none)
    (hstart' : a'.nameStart? = none) : a.AgreeFrom A a' :=
  ⟨h, by rw [hstart, hstart']; exact .none⟩

theorem boolean (op : BoolOp) (hlength : 2 ≤ es.length) (h : AgreeAll .load es es') :
    AgreeFrom A (.boolean x op es) (.boolean x' op es') :=
  of_agree ⟨⟨rfl, hlength, h.formed⟩, fun _ => by simp [Outline.expr, h.outline]⟩ rfl rfl

theorem named (ha : a.Agree .store a') (hb : b.Agree .load b') :
    AgreeFrom A (.named x a b) (.named x' a' b') :=
  of_agree ⟨⟨rfl, ha.formed, hb.formed⟩, fun _ => by simp [Outline.expr, ha.outline, hb.outline]⟩
    rfl rfl

theorem binary (op : BinaryOp) (ha : a.Agree .load a') (hb : b.Agree .load b') :
    AgreeFrom A (.binary x a op b) (.binary x' a' op b') :=
  of_agree ⟨⟨rfl, ha.formed, hb.formed⟩,
    fun _ => by simp [Outline.expr, swap_plain, ha.outline, hb.outline]⟩ rfl rfl

theorem unary (op : UnaryOp) (ha : a.Agree .load a') :
    AgreeFrom A (.unary x op a) (.unary x' op a') :=
  of_agree ⟨⟨rfl, ha.formed⟩, fun _ => by simp [Outline.expr, ha.outline]⟩ rfl rfl

theorem lambda {ps ps' : Params} (hp : ps.Agree ps') (ha : a.Agree .load a') :
    AgreeFrom A (.lambda x ps a) (.lambda x' ps' a') :=
  of_agree ⟨⟨rfl, hp.formed, ha.formed⟩, fun _ => by simp [Outline.expr, hp.outline, ha.outline]⟩
    rfl rfl

theorem conditional (ha : a.Agree .load a') (hb : b.Agree .load b') (hc : c.Agree .load c') :
    AgreeFrom A (.conditional x a b c) (.conditional x' a' b' c') :=
  of_agree ⟨⟨rfl, ha.formed, hb.formed, hc.formed⟩,
    fun _ => by simp [Outline.expr, ha.outline, hb.outline, hc.outline]⟩ rfl rfl

theorem dict {ds ds' : List Entry} (h : List.Forall₂ Entry.Agree ds ds') :
    AgreeFrom A (.dict x ds) (.dict x' ds') :=
  of_agree ⟨⟨rfl, WellFormed.length_keys ds, (Entry.Agree.all (p := .free) h).1⟩,
    fun _ => by simp [Outline.expr, (Entry.Agree.all h).2]⟩ rfl rfl

theorem set (h : AgreeAll .load es es') : AgreeFrom A (.set x es) (.set x' es') :=
  of_agree ⟨⟨rfl, h.formed⟩, fun _ => by simp [Outline.expr, h.outline]⟩ rfl rfl

theorem listComp (ha : a.Agree .load a') (hg : List.Forall₂ Comprehension.Agree gs gs') :
    AgreeFrom A (.listComp x a gs) (.listComp x' a' gs') :=
  of_agree ⟨⟨rfl, ha.formed, (Comprehension.Agree.all (p := .free) hg).1⟩,
    fun _ => by simp [Outline.expr, ha.outline, (Comprehension.Agree.all hg).2]⟩ rfl rfl

theorem setComp (ha : a.Agree .load a') (hg : List.Forall₂ Comprehension.Agree gs gs') :
    AgreeFrom A (.setComp x a gs) (.setComp x' a' gs') :=
  of_agree ⟨⟨rfl, ha.formed, (Comprehension.Agree.all (p := .free) hg).1⟩,
    fun _ => by simp [Outline.expr, ha.outline, (Comprehension.Agree.all hg).2]⟩ rfl rfl

theorem dictComp (ha : a.Agree .load a') (hb : b.Agree .load b')
    (hg : List.Forall₂ Comprehension.Agree gs gs') :
    AgreeFrom A (.dictComp x a b gs) (.dictComp x' a' b' gs') :=
  of_agree ⟨⟨rfl, ha.formed, hb.formed, (Comprehension.Agree.all (p := .free) hg).1⟩,
    fun _ => by simp [Outline.expr, ha.outline, hb.outline, (Comprehension.Agree.all hg).2]⟩ rfl rfl

theorem generator (ha : a.Agree .load a') (hg : List.Forall₂ Comprehension.Agree gs gs') :
    AgreeFrom A (.generator x a gs) (.generator x' a' gs') :=
  of_agree ⟨⟨rfl, ha.formed, (Comprehension.Agree.all (p := .free) hg).1⟩,
    fun _ => by simp [Outline.expr, ha.outline, (Comprehension.Agree.all hg).2]⟩ rfl rfl

theorem await (ha : a.Agree .load a') : AgreeFrom A (.await x a) (.await x' a') :=
  of_agree ⟨⟨rfl, ha.formed⟩, fun _ => by simp [Outline.expr, ha.outline]⟩ rfl rfl

theorem yield {v v' : Option Expr} (hv : AgreeOpt .load v v') :
    AgreeFrom A (.yield x v) (.yield x' v') :=
  of_agree ⟨⟨rfl, hv.formed⟩, fun _ => by simp [Outline.expr, hv.outline]⟩ rfl rfl

theorem yieldFrom (ha : a.Agree .load a') : AgreeFrom A (.yieldFrom x a) (.yieldFrom x' a') :=
  of_agree ⟨⟨rfl, ha.formed⟩, fun _ => by simp [Outline.expr, ha.outline]⟩ rfl rfl

theorem compare {ops : List CompareOp} (ha : a.Agree .load a') (h : AgreeAll .load es es')
    (hlength : ops.length = es.length) (hpos : 1 ≤ ops.length) :
    AgreeFrom A (.compare x a ops es) (.compare x' a' ops es') :=
  of_agree ⟨⟨rfl, hlength, hpos, ha.formed, h.formed⟩,
    fun _ => by simp [Outline.expr, ha.outline, h.outline]⟩ rfl rfl

theorem call {ks ks' : List Keyword} (ha : a.Agree .load a') (h : AgreeAll .load es es')
    (hk : List.Forall₂ Keyword.Agree ks ks') :
    AgreeFrom A (.call x a es ks) (.call x' a' es' ks') :=
  of_agree ⟨⟨rfl, ha.formed, h.formed, (Keyword.Agree.all (p := .free) hk).1⟩,
    fun _ => by simp [Outline.expr, ha.outline, h.outline, (Keyword.Agree.all hk).2]⟩ rfl rfl

theorem formatted (conversion : Option Conversion) {spec spec' : Option Expr}
    (ha : a.Agree .load a') (hs : AgreeOpt .load spec spec') :
    AgreeFrom A (.formatted x a conversion spec) (.formatted x' a' conversion spec') :=
  of_agree ⟨⟨rfl, ha.formed, hs.formed⟩, fun _ => by simp [Outline.expr, ha.outline, hs.outline]⟩
    rfl rfl

theorem joined (h : AgreeAll .load es es') : AgreeFrom A (.joined x es) (.joined x' es') :=
  of_agree ⟨⟨rfl, h.formed⟩, fun _ => by simp [Outline.expr, h.outline]⟩ rfl rfl

theorem constant (value : Constant) : AgreeFrom A (.constant x value) (.constant x' value) :=
  of_agree ⟨rfl, fun _ => rfl⟩ rfl rfl

theorem «attribute» (attr : Text) (ha : a.Agree .load a') :
    AgreeFrom A (.attribute x a attr .load) (.attribute x' a' attr .load) :=
  of_agree ⟨⟨rfl, ha.formed⟩, fun _ => by simp [Outline.expr, ha.outline]⟩ rfl rfl

theorem subscript (ha : a.Agree .load a') (hb : b.Agree .load b') :
    AgreeFrom A (.subscript x a b .load) (.subscript x' a' b' .load) :=
  of_agree ⟨⟨rfl, ha.formed, hb.formed⟩, fun _ => by simp [Outline.expr, ha.outline, hb.outline]⟩
    rfl rfl

theorem starred (ha : a.Agree .load a') : AgreeFrom A (.starred x a .load) (.starred x' a' .load) :=
  of_agree ⟨⟨rfl, ha.formed⟩, fun _ => by simp [Outline.expr, ha.outline]⟩ rfl rfl

theorem name (id : Text) (h : A x.span.lo x'.span.lo) :
    AgreeFrom A (.name x id .load) (.name x' id .load) :=
  ⟨⟨rfl, fun _ => rfl⟩, .some h⟩

theorem list (h : AgreeAll .load es es') : AgreeFrom A (.list x es .load) (.list x' es' .load) :=
  of_agree ⟨⟨rfl, h.formed⟩, fun _ => by simp [Outline.expr, h.outline]⟩ rfl rfl

theorem tuple (h : AgreeAll .load es es') : AgreeFrom A (.tuple x es .load) (.tuple x' es' .load) :=
  of_agree ⟨⟨rfl, h.formed⟩, fun _ => by simp [Outline.expr, h.outline]⟩ rfl rfl

theorem slice {u u' v v' w w' : Option Expr} (hu : AgreeOpt .load u u') (hv : AgreeOpt .load v v')
    (hw : AgreeOpt .load w w') : AgreeFrom A (.slice x u v w) (.slice x' u' v' w') :=
  of_agree ⟨⟨rfl, hu.formed, hv.formed, hw.formed⟩,
    fun _ => by simp [Outline.expr, hu.outline, hv.outline, hw.outline]⟩ rfl rfl

end Expr.AgreeFrom

/-! ## Targets -/

namespace Target

theorem describe_plain (p : Place) (e : Expr) : describe (plain.expr p e) = describe e := by
  cases e <;> simp [Outline.expr, swap_plain, describe]

theorem isSimple_plain (p : Place) (e : Expr) : isSimple (plain.expr p e) = isSimple e := by
  cases e <;> simp [Outline.expr, swap_plain, isSimple]

mutual

theorem fault?_plain (use : Context) (p : Place) (e : Expr) :
    fault? use (plain.expr p e) = fault? use e := by
  have hdescribe := describe_plain p e
  cases e <;> simp_all [Outline.expr, swap_plain, fault?, fault?_plain use _ _, firstFault?_plain]

theorem firstFault?_plain (use : Context) (p : Place) (es : List Expr) :
    firstFault? use (plain.exprs p es) = firstFault? use es := by
  cases es <;> simp [Outline.exprs, firstFault?, fault?_plain use p _, firstFault?_plain use p _]

end

mutual

theorem mark_plain (use : Context) (p : Place) (e : Expr) :
    plain.expr p (mark use e) = mark use (plain.expr p e) := by
  cases e with
  | starred x value ctx =>
    simp only [Outline.expr, mark]
    split
    · rfl
    · rw [Outline.expr, mark_plain use p.inner value]
  | list x elts ctx => simp [Outline.expr, mark, markAll_plain use p.inner elts]
  | tuple x elts ctx => simp [Outline.expr, mark, markAll_plain use p.inner elts]
  | _ => simp [Outline.expr, swap_plain, mark]

theorem markAll_plain (use : Context) (p : Place) (es : List Expr) :
    plain.exprs p (markAll use es) = markAll use (plain.exprs p es) := by
  cases es with
  | nil => rfl
  | cons e es => simp [Outline.exprs, markAll, mark_plain use p e, markAll_plain use p es]

end

theorem nameStart?_mark (use : Context) (e : Expr) : (mark use e).nameStart? = e.nameStart? := by
  cases e with
  | starred x value ctx =>
    rw [mark]
    split <;> rfl
  | _ => simp [mark, Expr.nameStart?]

end Target

namespace Expr.Agree

variable {use : Context} {e e' : Expr}

theorem isSimple_eq (h : e.Agree use e') : Target.isSimple e = Target.isSimple e' := by
  rw [← Target.isSimple_plain .free e, h.outline, Target.isSimple_plain]

theorem fault?_eq (h : e.Agree .load e') : Target.fault? use e = Target.fault? use e' := by
  rw [← Target.fault?_plain use .free e, h.outline, Target.fault?_plain]

/-- What can be a target agrees as a target. -/
theorem mark (h : e.Agree .load e') (hfault : Target.fault? use e = none) :
    (Target.mark use e).Agree use (Target.mark use e') :=
  ⟨WellFormed.expr_mark h.formed hfault, fun p => by
    rw [Target.mark_plain, h.outline, Target.mark_plain]⟩

theorem mark_of_isSimple (h : e.Agree .load e') (hsimple : Target.isSimple e = true) :
    (Target.mark use e).Agree use (Target.mark use e') :=
  ⟨WellFormed.expr_mark_of_isSimple h.formed hsimple, fun p => by
    rw [Target.mark_plain, h.outline, Target.mark_plain]⟩

end Expr.Agree

/-! ## Patterns -/

structure Pattern.Agree (p p' : Pattern) : Prop where
  formed : WellFormed.pattern p
  outline : plain.pattern p = plain.pattern p'

inductive PatternEntry.Agree : PatternEntry → PatternEntry → Prop where
  | mk {k k' : Expr} {p p' : Pattern} (hk : k.Agree .load k') (hp : p.Agree p') :
    Agree (.mk k p) (.mk k' p')

inductive PatternKeyword.Agree : PatternKeyword → PatternKeyword → Prop where
  | mk {attr : Text} {p p' : Pattern} (hp : p.Agree p') : Agree (.mk attr p) (.mk attr p')

theorem PatternEntry.Agree.all {es es' : List PatternEntry}
    (h : List.Forall₂ PatternEntry.Agree es es') :
    WellFormed.patternEntries es ∧ plain.patternEntries es = plain.patternEntries es' := by
  induction h with
  | nil => exact ⟨trivial, rfl⟩
  | cons h _ ih =>
    obtain ⟨hk, hp⟩ := h
    exact ⟨⟨hk.formed, hp.formed, ih.1⟩,
      by simp [Outline.patternEntries, hk.outline, hp.outline, ih.2]⟩

theorem PatternKeyword.Agree.all {ks ks' : List PatternKeyword}
    (h : List.Forall₂ PatternKeyword.Agree ks ks') :
    WellFormed.patternKeywords ks ∧ plain.patternKeywords ks = plain.patternKeywords ks' := by
  induction h with
  | nil => exact ⟨trivial, rfl⟩
  | cons h _ ih =>
    obtain ⟨hp⟩ := h
    exact ⟨⟨hp.formed, ih.1⟩, by simp [Outline.patternKeywords, hp.outline, ih.2]⟩

namespace Pattern.Agree

variable {p p' : Pattern} {ps ps' : List Pattern}

theorem all (h : List.Forall₂ Pattern.Agree ps ps') :
    WellFormed.patterns ps ∧ plain.patterns ps = plain.patterns ps' := by
  induction h with
  | nil => exact ⟨trivial, rfl⟩
  | cons h _ ih => exact ⟨⟨h.formed, ih.1⟩, by simp [Outline.patterns, h.outline, ih.2]⟩

theorem value {e e' : Expr} (h : e.Agree .load e') : Agree (.value x e) (.value x' e') :=
  ⟨h.formed, by simp [Outline.pattern, h.outline]⟩

theorem singleton (value : Singleton) : Agree (.singleton x value) (.singleton x' value) :=
  ⟨trivial, rfl⟩

theorem sequence (h : List.Forall₂ Pattern.Agree ps ps') :
    Agree (.sequence x ps) (.sequence x' ps') :=
  ⟨(all h).1, by simp [Outline.pattern, (all h).2]⟩

theorem mapping {es es' : List PatternEntry} (rest : Option Text)
    (h : List.Forall₂ PatternEntry.Agree es es') :
    Agree (.mapping x es rest) (.mapping x' es' rest) :=
  ⟨⟨WellFormed.length_patternKeys es, (PatternEntry.Agree.all h).1⟩,
    by simp [Outline.pattern, (PatternEntry.Agree.all h).2]⟩

theorem cls {e e' : Expr} {ks ks' : List PatternKeyword} (he : e.Agree .load e')
    (hp : List.Forall₂ Pattern.Agree ps ps') (hk : List.Forall₂ PatternKeyword.Agree ks ks') :
    Agree (.cls x e ps ks) (.cls x' e' ps' ks') :=
  ⟨⟨WellFormed.length_patternAttrs ks, he.formed, (all hp).1, (PatternKeyword.Agree.all hk).1⟩,
    by simp [Outline.pattern, he.outline, (all hp).2, (PatternKeyword.Agree.all hk).2]⟩

theorem star (name : Option Text) : Agree (.star x name) (.star x' name) := ⟨trivial, rfl⟩

theorem capture (name : Option Text) : Agree (.as x none name) (.as x' none name) := ⟨trivial, rfl⟩

theorem as (name : Option Text) (h : p.Agree p') :
    Agree (.as x (some p) name) (.as x' (some p') name) :=
  ⟨h.formed, by simp [Outline.pattern, Outline.optPattern, h.outline]⟩

theorem or (h : List.Forall₂ Pattern.Agree ps ps') : Agree (.or x ps) (.or x' ps') :=
  ⟨(all h).1, by simp [Outline.pattern, (all h).2]⟩

end Pattern.Agree

/-! ## Statements -/

structure Stmt.Agree (s s' : Stmt) : Prop where
  formed : WellFormed.stmt s
  outline : plain.stmt s = plain.stmt s'

/-- Blocks whose statements agree one by one. -/
abbrev Stmt.AgreeAll : List Stmt → List Stmt → Prop := List.Forall₂ Stmt.Agree

theorem Stmt.AgreeAll.formed {ss ss' : List Stmt} (h : AgreeAll ss ss') : WellFormed.stmts ss := by
  induction h with
  | nil => trivial
  | cons h _ ih => exact ⟨h.formed, ih⟩

theorem Stmt.AgreeAll.outline {ss ss' : List Stmt} (h : AgreeAll ss ss') :
    plain.stmts ss = plain.stmts ss' := by
  induction h with
  | nil => rfl
  | cons h _ ih => rw [Outline.stmts, h.outline, ih, Outline.stmts]

inductive WithItem.Agree : WithItem → WithItem → Prop where
  | mk {context context' : Expr} {target target' : Option Expr} (hc : context.Agree .load context')
      (ht : Expr.AgreeOpt .store target target') : Agree ⟨context, target⟩ ⟨context', target'⟩

inductive Handler.Agree : Handler → Handler → Prop where
  | mk {type type' : Option Expr} {name : Option Text} {body body' : List Stmt}
      (ht : Expr.AgreeOpt .load type type') (hb : Stmt.AgreeAll body body') :
    Agree (.mk type name body) (.mk type' name body')

inductive MatchCase.Agree : MatchCase → MatchCase → Prop where
  | mk {p p' : Pattern} {guard guard' : Option Expr} {body body' : List Stmt} (hp : p.Agree p')
      (hg : Expr.AgreeOpt .load guard guard') (hb : Stmt.AgreeAll body body') :
    Agree (.mk p guard body) (.mk p' guard' body')

theorem WithItem.Agree.all {ws ws' : List WithItem} (h : List.Forall₂ WithItem.Agree ws ws') :
    (∀ w ∈ ws, WellFormed.withItem w) ∧ ws.map plain.withItem = ws'.map plain.withItem := by
  induction h with
  | nil => exact ⟨fun w hw => absurd hw List.not_mem_nil, rfl⟩
  | cons h _ ih =>
    obtain ⟨hc, ht⟩ := h
    exact ⟨List.forall_mem_cons.mpr ⟨⟨hc.formed, Expr.AgreeOpt.formed ht⟩, ih.1⟩,
      by simp [Outline.withItem, hc.outline, Expr.AgreeOpt.outline ht, ih.2]⟩

theorem Handler.Agree.all {hs hs' : List Handler} (h : List.Forall₂ Handler.Agree hs hs') :
    WellFormed.handlers hs ∧ plain.handlers hs = plain.handlers hs' := by
  induction h with
  | nil => exact ⟨trivial, rfl⟩
  | cons h _ ih =>
    obtain ⟨ht, hb⟩ := h
    exact ⟨⟨Expr.AgreeOpt.formed ht, Stmt.AgreeAll.formed hb, ih.1⟩,
      by simp [Outline.handlers, Expr.AgreeOpt.outline ht, Stmt.AgreeAll.outline hb, ih.2]⟩

theorem MatchCase.Agree.all {cs cs' : List MatchCase} (h : List.Forall₂ MatchCase.Agree cs cs') :
    WellFormed.cases cs ∧ plain.cases cs = plain.cases cs' := by
  induction h with
  | nil => exact ⟨trivial, rfl⟩
  | cons h _ ih =>
    obtain ⟨hp, hg, hb⟩ := h
    exact ⟨⟨hp.formed, Expr.AgreeOpt.formed hg, Stmt.AgreeAll.formed hb, ih.1⟩, by
      simp [Outline.cases, hp.outline, Expr.AgreeOpt.outline hg, Stmt.AgreeAll.outline hb, ih.2]⟩

namespace Stmt.Agree

variable {a a' b b' : Expr} {u u' v v' : Option Expr} {es es' : List Expr} {ss ss' ts ts' : List Stmt}

theorem function (isAsync : Bool) (name : Text) {ps ps' : Params} (hp : ps.Agree ps')
    (hs : AgreeAll ss ss') (hd : Expr.AgreeAll .load es es') (hv : Expr.AgreeOpt .load v v') :
    Agree (.function x isAsync name ps ss es v) (.function x' isAsync name ps' ss' es' v') :=
  ⟨⟨hp.formed, hs.formed, hd.formed, hv.formed⟩,
    by simp [Outline.stmt, hp.outline, hs.outline, hd.outline, hv.outline]⟩

theorem classDef (name : Text) {bs bs' : List Expr} {ks ks' : List Keyword}
    (hb : Expr.AgreeAll .load bs bs') (hk : List.Forall₂ Keyword.Agree ks ks')
    (hs : AgreeAll ss ss') (hd : Expr.AgreeAll .load es es') :
    Agree (.classDef x name bs ks ss es) (.classDef x' name bs' ks' ss' es') :=
  ⟨⟨hb.formed, (Keyword.Agree.all (p := .free) hk).1, hs.formed, hd.formed⟩,
    by simp [Outline.stmt, hb.outline, (Keyword.Agree.all hk).2, hs.outline, hd.outline]⟩

theorem ret (hv : Expr.AgreeOpt .load v v') : Agree (.ret x v) (.ret x' v') :=
  ⟨hv.formed, by simp [Outline.stmt, hv.outline]⟩

theorem delete (h : Expr.AgreeAll .delete es es') : Agree (.delete x es) (.delete x' es') :=
  ⟨h.formed, by simp [Outline.stmt, h.outline]⟩

theorem assign (h : Expr.AgreeAll .store es es') (ha : a.Agree .load a') :
    Agree (.assign x es a) (.assign x' es' a') :=
  ⟨⟨h.formed, ha.formed⟩, by simp [Outline.stmt, h.outline, ha.outline]⟩

theorem augAssign (op : BinaryOp) (ha : a.Agree .store a') (hb : b.Agree .load b') :
    Agree (.augAssign x a op b) (.augAssign x' a' op b') :=
  ⟨⟨ha.formed, hb.formed⟩, by simp [Outline.stmt, ha.outline, hb.outline]⟩

theorem annAssign (simple : Bool) (ha : a.Agree .store a') (hb : b.Agree .load b')
    (hv : Expr.AgreeOpt .load v v') :
    Agree (.annAssign x a b v simple) (.annAssign x' a' b' v' simple) :=
  ⟨⟨ha.formed, hb.formed, hv.formed⟩,
    by simp [Outline.stmt, ha.outline, hb.outline, hv.outline]⟩

theorem forLoop (isAsync : Bool) (ha : a.Agree .store a') (hb : b.Agree .load b')
    (hs : AgreeAll ss ss') (ht : AgreeAll ts ts') :
    Agree (.forLoop x isAsync a b ss ts) (.forLoop x' isAsync a' b' ss' ts') :=
  ⟨⟨ha.formed, hb.formed, hs.formed, ht.formed⟩,
    by simp [Outline.stmt, ha.outline, hb.outline, hs.outline, ht.outline]⟩

theorem whileLoop (ha : a.Agree .load a') (hs : AgreeAll ss ss') (ht : AgreeAll ts ts') :
    Agree (.whileLoop x a ss ts) (.whileLoop x' a' ss' ts') :=
  ⟨⟨ha.formed, hs.formed, ht.formed⟩, by simp [Outline.stmt, ha.outline, hs.outline, ht.outline]⟩

theorem branch (ha : a.Agree .load a') (hs : AgreeAll ss ss') (ht : AgreeAll ts ts') :
    Agree (.branch x a ss ts) (.branch x' a' ss' ts') :=
  ⟨⟨ha.formed, hs.formed, ht.formed⟩, by simp [Outline.stmt, ha.outline, hs.outline, ht.outline]⟩

theorem withBlock (isAsync : Bool) {ws ws' : List WithItem}
    (hw : List.Forall₂ WithItem.Agree ws ws') (hs : AgreeAll ss ss') :
    Agree (.withBlock x isAsync ws ss) (.withBlock x' isAsync ws' ss') :=
  ⟨⟨(WithItem.Agree.all hw).1, hs.formed⟩,
    by simp only [Outline.stmt, (WithItem.Agree.all hw).2, hs.outline]⟩

theorem matchBlock {cs cs' : List MatchCase} (ha : a.Agree .load a')
    (hc : List.Forall₂ MatchCase.Agree cs cs') :
    Agree (.matchBlock x a cs) (.matchBlock x' a' cs') :=
  ⟨⟨ha.formed, (MatchCase.Agree.all hc).1⟩,
    by simp [Outline.stmt, ha.outline, (MatchCase.Agree.all hc).2]⟩

theorem raise (hu : Expr.AgreeOpt .load u u') (hv : Expr.AgreeOpt .load v v') :
    Agree (.raise x u v) (.raise x' u' v') :=
  ⟨⟨hu.formed, hv.formed⟩, by simp [Outline.stmt, hu.outline, hv.outline]⟩

theorem tryBlock (isStar : Bool) {hs hs' : List Handler} {us us' : List Stmt}
    (hh : List.Forall₂ Handler.Agree hs hs') (hb : AgreeAll ss ss') (ht : AgreeAll ts ts')
    (hu : AgreeAll us us') :
    Agree (.tryBlock x isStar ss hs ts us) (.tryBlock x' isStar ss' hs' ts' us') :=
  ⟨⟨hb.formed, (Handler.Agree.all hh).1, ht.formed, hu.formed⟩,
    by simp [Outline.stmt, hb.outline, (Handler.Agree.all hh).2, ht.outline, hu.outline]⟩

theorem assertion (ha : a.Agree .load a') (hv : Expr.AgreeOpt .load v v') :
    Agree (.assertion x a v) (.assertion x' a' v') :=
  ⟨⟨ha.formed, hv.formed⟩, by simp [Outline.stmt, ha.outline, hv.outline]⟩

theorem expr (ha : a.Agree .load a') : Agree (.expr x a) (.expr x' a') :=
  ⟨ha.formed, by simp [Outline.stmt, ha.outline]⟩

end Stmt.Agree

end CloneScout
