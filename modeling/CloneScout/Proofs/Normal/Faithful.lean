import CloneScout.Proofs.Normal.Lawful
import CloneScout.Proofs.Tree.Faithful
import CloneScout.Proofs.Tree.Stable

/-!
# What the text of a normal form tells

Two statements whose normal forms have the same text have the same normal form, but for extents,
the spelling of floating-point numbers and one more thing: the stable form of a text loses the bytes
`, keywords=[]` inside text constants and byte strings too, so these bytes in a constant do not
show. Where no constant holds them, or where constants are irrelevant, the texts tell everything.
-/

namespace CloneScout

open Text (emptyKeywords pruned)
open Outline (spelled)

/-! ## Constants without the bytes of empty lists of keywords -/

/-- The constant does not hold the bytes of an empty list of keywords. -/
def Constant.Keyless : Constant → Prop
  | .text value _ => ¬ emptyKeywords <:+: value
  | .bytes value => ¬ emptyKeywords <:+: value
  | _ => True

theorem pruned_eq_self {t : Text} (h : ¬ emptyKeywords <:+: t) : pruned t = t := by
  induction t with
  | nil => rfl
  | cons b t ih =>
    have hstart : ¬ emptyKeywords <+: b :: t := fun hp => h hp.isInfix
    have hrest : ¬ emptyKeywords <:+: t := fun hi => h (hi.trans (List.suffix_cons b t).isInfix)
    rw [Text.pruned_cons_of_not_prefix hstart, ih hrest]

theorem Constant.Keyless.spelled_eq {c : Constant} (h : c.Keyless) :
    c.spelled pruned = c.spelled id := by
  cases c with
  | text value marked => rw [Constant.spelled, Constant.spelled, pruned_eq_self h, id]
  | bytes value => rw [Constant.spelled, Constant.spelled, pruned_eq_self h, id]
  | _ => rfl

/-- The word that stands for constants holds no such bytes. -/
theorem keyless_normal {cfg : Normal.Config} :
    Normal.Carries cfg (fun c => cfg.constants = true ∨ c.Keyless) Constant.Keyless := by
  have hword : ¬ emptyKeywords <:+: Normal.constantWord := by decide
  intro c hc
  unfold Normal.constant
  split
  next => split <;> exact hword
  next hoff => exact hc.resolve_left hoff

namespace Outline

/-! ## Outlines that spell the constants alike -/

section

variable {f g : Text → Text}

/-- Both ways of showing texts show the constant alike. -/
def Agrees (f g : Text → Text) : Node → Prop := Node.Holds fun c => c.spelled f = c.spelled g

@[simp]
theorem name_spelled (f : Text → Text) (p : Place) (id : Text) : (spelled f).name p id = id := rfl

@[simp]
theorem constant_spelled (f : Text → Text) (c : Constant) :
    (spelled f).constant c = c.spelled f := rfl

@[simp]
theorem swap_spelled (f : Text → Text) (op : BinaryOp) (left right : Expr) :
    (spelled f).swap op left right = false := rfl

@[simp]
theorem hints_spelled (f : Text → Text) : (spelled f).hints = true := rfl

mutual

theorem expr_congr {e : Expr} (h : Every.expr (Agrees f g) e) (p : Place) :
    (spelled f).expr p e = (spelled g).expr p e := by
  cases e with
  | constant _ c => exact congrArg (Expr.constant .blank) h.1
  | _ =>
    simp only [Every.expr] at h
    simp [expr, h, expr_congr, exprs_congr, optExpr_congr, entries_congr, keywords_congr,
      comprehensions_congr, params_congr]

theorem exprs_congr {es : List Expr} (h : Every.exprs (Agrees f g) es) (p : Place) :
    (spelled f).exprs p es = (spelled g).exprs p es := by
  cases es with
  | nil => rfl
  | cons e es => rw [exprs, exprs, expr_congr h.1, exprs_congr h.2]

theorem optExpr_congr {e : Option Expr} (h : Every.optExpr (Agrees f g) e) (p : Place) :
    (spelled f).optExpr p e = (spelled g).optExpr p e := by
  cases e with
  | none => rfl
  | some e => exact congrArg some (expr_congr h p)

theorem entries_congr : ∀ {es : List Entry}, Every.entries (Agrees f g) es → ∀ p : Place,
    (spelled f).entries p es = (spelled g).entries p es
  | [], _, _ => rfl
  | .pair _ _ :: _, h, p => by
    rw [entries, entries, expr_congr h.1, expr_congr h.2.1, entries_congr h.2.2]
  | .unpack _ :: _, h, p => by rw [entries, entries, expr_congr h.1, entries_congr h.2]

theorem keywords_congr : ∀ {ks : List Keyword}, Every.keywords (Agrees f g) ks → ∀ p : Place,
    (spelled f).keywords p ks = (spelled g).keywords p ks
  | [], _, _ => rfl
  | .mk _ _ :: _, h, p => by rw [keywords, keywords, expr_congr h.1, keywords_congr h.2]

theorem comprehensions_congr : ∀ {gs : List Comprehension},
    Every.comprehensions (Agrees f g) gs → ∀ p : Place,
    (spelled f).comprehensions p gs = (spelled g).comprehensions p gs
  | [], _, _ => rfl
  | .mk _ _ _ _ :: _, h, p => by
    rw [comprehensions, comprehensions, expr_congr h.1, expr_congr h.2.1, exprs_congr h.2.2.1,
      comprehensions_congr h.2.2.2]

theorem param_congr : ∀ {q : Param}, Every.param (Agrees f g) q → ∀ p : Place,
    (spelled f).param p q = (spelled g).param p q
  | .mk _ _ _, h, p => by
    rw [param, param, hints_spelled, hints_spelled, optExpr_congr h.1, optExpr_congr h.2]

theorem optParam_congr {q : Option Param} (h : Every.optParam (Agrees f g) q) (p : Place) :
    (spelled f).optParam p q = (spelled g).optParam p q := by
  cases q with
  | none => rfl
  | some q => exact congrArg some (param_congr h p)

theorem paramList_congr {qs : List Param} (h : Every.paramList (Agrees f g) qs) (p : Place) :
    (spelled f).paramList p qs = (spelled g).paramList p qs := by
  cases qs with
  | nil => rfl
  | cons q qs => rw [paramList, paramList, param_congr h.1, paramList_congr h.2]

theorem params_congr : ∀ {ps : Params}, Every.params (Agrees f g) ps → ∀ p : Place,
    (spelled f).params p ps = (spelled g).params p ps
  | .mk _ _ _ _ _, h, p => by
    rw [params, params, paramList_congr h.1, paramList_congr h.2.1, optParam_congr h.2.2.1,
      paramList_congr h.2.2.2.1, optParam_congr h.2.2.2.2]

end

mutual

theorem pattern_congr {p : Pattern} (h : Every.pattern (Agrees f g) p) :
    (spelled f).pattern p = (spelled g).pattern p := by
  cases p <;> simp only [Every.pattern] at h <;>
    simp [pattern, h, expr_congr (f := f) (g := g), patterns_congr, optPattern_congr, patternEntries_congr,
      patternKeywords_congr]

theorem patterns_congr {ps : List Pattern} (h : Every.patterns (Agrees f g) ps) :
    (spelled f).patterns ps = (spelled g).patterns ps := by
  cases ps with
  | nil => rfl
  | cons p ps => rw [patterns, patterns, pattern_congr h.1, patterns_congr h.2]

theorem optPattern_congr {p : Option Pattern} (h : Every.optPattern (Agrees f g) p) :
    (spelled f).optPattern p = (spelled g).optPattern p := by
  cases p with
  | none => rfl
  | some p => exact congrArg some (pattern_congr h)

theorem patternEntries_congr : ∀ {es : List PatternEntry}, Every.patternEntries (Agrees f g) es →
    (spelled f).patternEntries es = (spelled g).patternEntries es
  | [], _ => rfl
  | .mk _ _ :: _, h => by
    rw [patternEntries, patternEntries, expr_congr h.1, pattern_congr h.2.1,
      patternEntries_congr h.2.2]

theorem patternKeywords_congr : ∀ {ks : List PatternKeyword},
    Every.patternKeywords (Agrees f g) ks →
    (spelled f).patternKeywords ks = (spelled g).patternKeywords ks
  | [], _ => rfl
  | .mk _ _ :: _, h => by
    rw [patternKeywords, patternKeywords, pattern_congr h.1, patternKeywords_congr h.2]

end

theorem withItems_congr {ws : List WithItem} (h : Every.withItems (Agrees f g) ws) :
    ws.map (spelled f).withItem = ws.map (spelled g).withItem := by
  refine List.map_congr_left fun w hw => ?_
  rw [withItem, withItem, expr_congr (h w hw).1, optExpr_congr (h w hw).2]

mutual

theorem stmt_congr {s : Stmt} (h : Every.stmt (Agrees f g) s) :
    (spelled f).stmt s = (spelled g).stmt s := by
  cases s with
  | withBlock _ isAsync items body =>
    rw [stmt, stmt, withItems_congr h.2.1, stmts_congr h.2.2]
  | _ =>
    simp only [Every.stmt] at h
    simp [stmt, h, expr_congr (f := f) (g := g), exprs_congr (f := f) (g := g),
      optExpr_congr (f := f) (g := g), keywords_congr (f := f) (g := g),
      params_congr (f := f) (g := g), stmts_congr, handlers_congr, cases_congr]

theorem stmts_congr {ss : List Stmt} (h : Every.stmts (Agrees f g) ss) :
    (spelled f).stmts ss = (spelled g).stmts ss := by
  cases ss with
  | nil => rfl
  | cons s ss => rw [stmts, stmts, stmt_congr h.1, stmts_congr h.2]

theorem handlers_congr : ∀ {hs : List Handler}, Every.handlers (Agrees f g) hs →
    (spelled f).handlers hs = (spelled g).handlers hs
  | [], _ => rfl
  | .mk _ _ _ :: _, h => by
    rw [handlers, handlers, optExpr_congr h.1, stmts_congr h.2.1, handlers_congr h.2.2]

theorem cases_congr : ∀ {cs : List MatchCase}, Every.cases (Agrees f g) cs →
    (spelled f).cases cs = (spelled g).cases cs
  | [], _ => rfl
  | .mk _ _ _ :: _, h => by
    rw [cases, cases, pattern_congr h.1, optExpr_congr h.2.1, stmts_congr h.2.2.1,
      cases_congr h.2.2.2]

end

end

end Outline

namespace Normal

/-- Names hold no comma, so they keep all their bytes. -/
theorem keepsNames_pruned : Dump.KeepsNames pruned := by
  intro t ht
  refine pruned_eq_self fun hkey => ?_
  have hcomma : ascii ',' ∈ t := hkey.subset (by decide)
  have hpart := ht.2 _ hcomma
  revert hpart
  decide

theorem lawful_stmt (cfg : Config) {s : Stmt} (hs : Every.stmt Node.Lawful s) :
    Every.stmt Node.Lawful (stmt cfg s) := by
  have hcarries : Carries cfg (fun _ => True) (fun _ => True) := fun _ _ => trivial
  have hwith : Every.stmt (Node.LawfulWith fun _ => True) s :=
    Every.stmt_both (fun n hn _ => ⟨hn, n.holds_of_forall fun _ => trivial⟩) hs hs
  have hnormal := every_stmt hcarries hwith
  exact Every.stmt_both (fun _ hn _ => hn.1) hnormal hnormal

/-- In the normal form of a statement whose constants are irrelevant or do not hold the bytes of an
empty list of keywords no constant holds them. -/
theorem agrees_stmt {cfg : Config} {s : Stmt} (hs : Every.stmt Node.Lawful s)
    (hkeyless : cfg.constants = true ∨ Every.stmt (Node.Holds Constant.Keyless) s) :
    Every.stmt (Outline.Agrees pruned id) (stmt cfg s) := by
  have hwith : Every.stmt (Node.LawfulWith fun c => cfg.constants = true ∨ c.Keyless) s := by
    rcases hkeyless with hon | hkeyless
    · exact Every.stmt_both (fun n hn _ => ⟨hn, n.holds_of_forall fun _ => .inl hon⟩) hs hs
    · exact Every.stmt_both (fun n hn hk => ⟨hn, hk.imp fun _ => .inr⟩) hs hkeyless
  have hnormal := every_stmt keyless_normal hwith
  exact Every.stmt_both (fun n hn _ => hn.2.imp fun _ => Constant.Keyless.spelled_eq) hnormal hnormal

end Normal

/-- Two statements of faultless sources with one text of their normal forms have one normal form,
but for extents, the spelling of floating-point numbers and the bytes of empty lists of keywords
inside constants; and also these are the same where constants are irrelevant or do not hold them. -/
theorem spelled_normal_eq_of_stmtText_eq {cfg : Normal.Config}
    {source source' : Text} {maxErrors maxErrors' : Nat} {d d' : Nat} {s s' : Stmt}
    (hok : (Parsed.ofSource source maxErrors).ok = true)
    (hok' : (Parsed.ofSource source' maxErrors').ok = true)
    (hs : ⟨d, .stmt s⟩ ∈ Walk.module (Parsed.ofSource source maxErrors).module)
    (hs' : ⟨d', .stmt s'⟩ ∈ Walk.module (Parsed.ofSource source' maxErrors').module)
    (h : Normal.stmtText cfg s = Normal.stmtText cfg s') :
    (spelled pruned).stmt (Normal.stmt cfg s) = (spelled pruned).stmt (Normal.stmt cfg s') ∧
      (cfg.constants = true ∨ Every.stmt (Node.Holds Constant.Keyless) s ∧
          Every.stmt (Node.Holds Constant.Keyless) s' →
        (spelled id).stmt (Normal.stmt cfg s) = (spelled id).stmt (Normal.stmt cfg s')) := by
  have hlawful : Every.stmt Node.Lawful s := Every.node_of_mem_walk (Parsed.lawful_module hok) hs
  have hlawful' : Every.stmt Node.Lawful s' :=
    Every.node_of_mem_walk (Parsed.lawful_module hok') hs'
  have hn := Normal.lawful_stmt cfg hlawful
  have hn' := Normal.lawful_stmt cfg hlawful'
  have hshown := Document.shown_eq_of_pruned_eq (Dump.readable_stmt hn) (Dump.readable_stmt hn') h
  have hpruned := Dump.stmt_eq Normal.keepsNames_pruned hn hn' hshown
  refine ⟨hpruned, fun hkeyless => ?_⟩
  have hagrees := Normal.agrees_stmt hlawful (hkeyless.imp_right And.left)
  have hagrees' := Normal.agrees_stmt hlawful' (hkeyless.imp_right And.right)
  rw [← Outline.stmt_congr hagrees, ← Outline.stmt_congr hagrees', hpruned]

/-- Other names, quotes and blanks, but the same text of the normal forms where constants are
relevant. -/
theorem spelled_normal_eq_requoted :
    let cfg : Normal.Config := { constants := false }
    let m := (Parsed.ofSource (utf8 "x = 'a'\n") 64).module
    let m' := (Parsed.ofSource (utf8 "y  =  \"a\"\n") 64).module
    ∃ s s', m.body = [s] ∧ m'.body = [s'] ∧ s ≠ s' ∧
      (spelled id).stmt (Normal.stmt cfg s) = (spelled id).stmt (Normal.stmt cfg s') := by
  intro cfg m m'
  let s : Stmt := .assign ⟨⟨0, 7⟩, 1, 1⟩ [.name ⟨⟨0, 1⟩, 1, 1⟩ (utf8 "x") .store]
    (.constant ⟨⟨4, 7⟩, 1, 1⟩ (.text (utf8 "a") false))
  let s' : Stmt := .assign ⟨⟨0, 9⟩, 1, 1⟩ [.name ⟨⟨0, 1⟩, 1, 1⟩ (utf8 "y") .store]
    (.constant ⟨⟨6, 9⟩, 1, 1⟩ (.text (utf8 "a") false))
  have hbody : m.body = [s] := rfl
  have hbody' : m'.body = [s'] := rfl
  have hmem : ⟨1, .stmt s⟩ ∈ Walk.module m := by simp [Walk.module, hbody, Walk.stmts, Walk.stmt, s]
  have hmem' : ⟨1, .stmt s'⟩ ∈ Walk.module m' := by
    simp [Walk.module, hbody', Walk.stmts, Walk.stmt, s']
  have hkeyless : ¬ emptyKeywords <:+: utf8 "a" := by decide
  have hs : Every.stmt (Node.Holds Constant.Keyless) s :=
    ⟨trivial, ⟨⟨trivial, trivial⟩, trivial⟩, hkeyless, trivial⟩
  have hs' : Every.stmt (Node.Holds Constant.Keyless) s' :=
    ⟨trivial, ⟨⟨trivial, trivial⟩, trivial⟩, hkeyless, trivial⟩
  have htext : Normal.stmtText cfg s = Normal.stmtText cfg s' := by decide +kernel
  refine ⟨s, s', hbody, hbody', by simp [s, s'], ?_⟩
  exact (spelled_normal_eq_of_stmtText_eq (by decide +kernel) (by decide +kernel) hmem hmem'
    htext).2 (.inr ⟨hs, hs'⟩)

/-- The bytes of an empty list of keywords in a text constant are lost, so two statements that
differ in the value of this constant have the same text. -/
theorem stmtText_eq_of_emptyKeywords :
    let cfg : Normal.Config := { constants := false }
    let p := Parsed.ofSource (utf8 "x = ', keywords=[]'\n") 64
    let p' := Parsed.ofSource (utf8 "x = ''\n") 64
    p.ok = true ∧ p'.ok = true ∧
      p.module.body.map (Normal.stmtText cfg) = p'.module.body.map (Normal.stmtText cfg) ∧
      p.module.body.map (fun s => (spelled id).stmt (Normal.stmt cfg s)) ≠
        p'.module.body.map (fun s => (spelled id).stmt (Normal.stmt cfg s)) := by
  intro cfg p p'
  let assigned (value : Text) : List Stmt :=
    [.assign .blank [.name .blank Normal.variableWord .store] (.constant .blank (.text value false))]
  have hmap : p.module.body.map (fun s => (spelled id).stmt (Normal.stmt cfg s)) =
      assigned emptyKeywords := rfl
  have hmap' : p'.module.body.map (fun s => (spelled id).stmt (Normal.stmt cfg s)) =
      assigned [] := rfl
  refine ⟨by decide +kernel, by decide +kernel, by decide +kernel, ?_⟩
  have hkey : emptyKeywords ≠ [] := by decide
  rw [hmap, hmap']
  simp [assigned, hkey]

end CloneScout
