import CloneScout.Proofs.Normal.Calls
import CloneScout.Proofs.Normal.Faithful
import CloneScout.Proofs.Normal.Origin

/-!
# What normal forms erase and what they keep

In a normal form nothing is left of what a configuration declares irrelevant, except for what calls
are addressed to. That is kept under every configuration, so calls with different addressees have
normal forms with different texts.
-/

set_option maxRecDepth 4000

namespace CloneScout

open Normal (variableWord attributeWord constantWord Origin Spelt)
open Outline (spelled)
open Text (pruned)
open Walk (AtSites)

/-- The node shows nothing that is irrelevant; `addressed` holds if a call is addressed to it. No
augmented assignment is left, nor a negated membership or identity test. -/
def Node.Erased (cfg : Normal.Config) (addressed : Bool) : Node → Prop
  | .stmt (.augAssign ..) => False
  | .stmt (.function _ _ _ ps _ _ returns) =>
    cfg.ignoreHints = true → (∀ p ∈ ps.all, p.hint = none) ∧ returns = none
  | .expr (.lambda _ ps _) => cfg.ignoreHints = true → ∀ p ∈ ps.all, p.hint = none
  | .expr (.unary _ .not (.compare _ _ [test] _)) => test ≠ .isIn ∧ test ≠ .is
  | .expr (.name _ id _) => cfg.names = true → addressed = false → id = variableWord
  | .expr (.attribute _ _ id _) => cfg.attributes = true → addressed = false → id = attributeWord
  | .expr (.constant _ c) => cfg.constants = true → ∃ marked, c = .text constantWord marked
  | _ => True

namespace Normal

variable {cfg : Config}

/-! ## Single nodes -/

theorem hint_params (hcfg : cfg.ignoreHints = true) (ps : Params) :
    ∀ p ∈ (params cfg ps).all, p.hint = none := by
  obtain ⟨posOnly, plain, star, kwOnly, doubleStar⟩ := ps
  have hparam (p : Param) : (param cfg p).hint = none := by
    obtain ⟨id, hint, value⟩ := p
    rw [param, if_pos hcfg, Param.hint]
  intro p hp
  have hmem : p ∈ (posOnly ++ plain ++ star.toList ++ kwOnly ++ doubleStar.toList).map
      (param cfg) := by
    simpa [params, Params.all, paramList_eq_map, optParam_eq_map, Option.toList_map] using hp
  obtain ⟨q, -, rfl⟩ := List.mem_map.mp hmem
  exact hparam q

/-- A negation that is left is none of a membership or identity test. -/
theorem erased_unary (b : Bool) (x : Extent) (op : UnaryOp) (operand : Expr) :
    Node.Erased cfg b (.expr (unary x op operand)) := by
  cases op
  case not =>
    cases operand
    case compare y left ops comparators =>
      rcases ops with _ | ⟨test, _ | ⟨second, rest⟩⟩
      · trivial
      · cases test <;> trivial
      · trivial
    all_goals trivial
  all_goals trivial

theorem erased_node (b : Bool) {n : Node} (h : n.Lawful) : (node cfg b n).Erased cfg b := by
  cases n with
  | module => trivial
  | pattern => trivial
  | stmt s =>
    cases s with
    | function x isAsync id ps body decorators returns =>
      intro hcfg
      exact ⟨hint_params hcfg ps, if_pos hcfg⟩
    | _ => trivial
  | expr e =>
    cases e with
    | binary x left op right =>
      exact of_binary (P := fun e => Node.Erased cfg b (.expr e)) fun _ _ => trivial
    | unary x op operand => exact erased_unary b x op (expr cfg false operand)
    | lambda x ps body => exact fun hcfg => hint_params hcfg ps
    | constant x c =>
      intro hcfg
      show ∃ marked, constant cfg c = .text constantWord marked
      unfold constant
      rw [if_pos hcfg]
      split
      · exact ⟨_, rfl⟩
      · exact ⟨false, rfl⟩
    | «attribute» x value id ctx =>
      rintro hcfg rfl
      show attr cfg false id = attributeWord
      rw [attr, hcfg]
      rfl
    | name x id ctx =>
      rintro hcfg rfl
      -- the mark of remarks is no part of a word, so no name of a source escapes
      have hmeta : isMeta id = false := Text.IsWord.isMeta_eq_false h
      show name cfg false id = variableWord
      rw [name, hcfg, hmeta]
      rfl
    | _ => trivial

/-! ## Calls -/

theorem name_target (cfg : Config) (id : Text) : name cfg true id = id := by
  rw [name, Bool.not_true, Bool.and_false, Bool.false_and]
  rfl

theorem attr_target (cfg : Config) (id : Text) : attr cfg true id = id := by
  rw [attr, Bool.not_true, Bool.and_false]
  rfl

theorem chain_expr (cfg : Config) (e : Expr) : (expr cfg true e).chain = e.chain := by
  cases e
  case «attribute» x value id ctx =>
    rw [expr, attr_target, Expr.chain, Expr.chain, chain_expr cfg value]
  case name x id ctx => rw [expr, name_target]
  case binary => exact of_binary (P := fun e => e.chain = _) fun _ _ => rfl
  case unary => exact of_unary (P := fun e => e.chain = _) rfl fun _ _ _ => rfl
  all_goals rfl

/-- A normal form is addressed to what the expression is addressed to. -/
theorem callee?_expr (cfg : Config) (b : Bool) (e : Expr) : (expr cfg b e).callee? = e.callee? := by
  cases e
  case call x func args kws => rw [expr, Expr.callee?, Expr.callee?, chain_expr]
  case binary => exact of_binary (P := fun e => e.callee? = _) fun _ _ => rfl
  case unary => exact of_unary (P := fun e => e.callee? = _) rfl fun _ _ _ => rfl
  all_goals rfl

/-! ## Trees -/

/-- The node is lawful and, if it is a call, one of the given calls. -/
def Known (calls : List Expr) (n : Node) : Prop :=
  n.Lawful ∧ ∀ e, n = .expr e → e.callee?.isSome = true → e ∈ calls

theorem lawful_load {e : Expr} (h : Node.Lawful (.expr e)) : Node.Lawful (.expr (load e)) := by
  cases e <;> exact h

theorem callee?_load (e : Expr) (h : (load e).callee?.isSome = true) : load e = e := by
  cases e <;> first | rfl | cases h

/-- What an augmented assignment reads and computes is no new call. -/
theorem spelt_known (calls : List Expr) : Spelt (Known calls) where
  load {e} h := by
    refine ⟨lawful_load h.1, ?_⟩
    rintro _ ⟨⟩ hcall
    have hsame := callee?_load e hcall
    rw [hsame] at hcall ⊢
    exact h.2 e rfl hcall
  sum _ := by
    refine ⟨trivial, ?_⟩
    rintro _ ⟨⟩ ⟨⟩

end Normal

theorem Every.top {P : Node → Prop} {n : Node} (h : Every.node P n) : P n := by
  cases n with
  | module m => exact h.1
  | stmt s => cases s <;> exact h.1
  | pattern p => cases p <;> exact h.1
  | expr e => cases e <;> exact h.1

/-- The nodes of a normal form come from lawful nodes and from calls of the statement. -/
theorem Normal.origin_known (cfg : Normal.Config) {s : Stmt} (h : Every.stmt Node.Lawful s) :
    AtSites (Origin cfg (Known (Walk.calls (Walk.stmt 0 s)))) false
      (Walk.stmt 0 (stmt cfg s)) := by
  refine origin_stmt (spelt_known _) 0 fun v hv => ⟨?_, fun e he hcall => ?_⟩
  · exact Every.top (Every.visits_stmt 0 h v hv)
  · exact Walk.mem_calls.mpr ⟨hcall, v, hv, he⟩

/-- A call of a normal form is the normal form of a call of the statement. -/
theorem Normal.exists_call (cfg : Normal.Config) {s : Stmt} (h : Every.stmt Node.Lawful s)
    {c : Expr} (hc : c ∈ Walk.calls (Walk.stmt 0 (stmt cfg s))) :
    ∃ c₀ ∈ Walk.calls (Walk.stmt 0 s), c = expr cfg false c₀ := by
  obtain ⟨hcall, v, hv, hnode⟩ := Walk.mem_calls.mp hc
  have hmem : v.node ∈ (Walk.sites false (Walk.stmt 0 (stmt cfg s))).map Site.node := by
    rw [Walk.node_sites]
    exact List.mem_map_of_mem hv
  obtain ⟨site, hsite, hsame⟩ := List.mem_map.mp hmem
  obtain ⟨n, ⟨-, hknown⟩, horigin⟩ := origin_known cfg h site hsite
  rw [hsame, hnode] at horigin
  cases n with
  | expr c₀ =>
    -- only calls become calls, and a call does not depend on what is addressed to it
    obtain rfl : c = expr cfg site.addressed c₀ := Node.expr.inj horigin
    rw [callee?_expr] at hcall
    refine ⟨c₀, hknown c₀ rfl hcall, ?_⟩
    cases c₀ <;> first | rfl | cases hcall
  | _ => cases horigin

/-! ## Texts -/

theorem Outline.chain_spelled (f : Text → Text) (p : Place) (e : Expr) :
    ((spelled f).expr p e).chain = e.chain := by
  cases e
  case «attribute» x value id ctx =>
    rw [expr, Expr.chain, Expr.chain, chain_spelled f p value]
  all_goals rfl

theorem Outline.callee?_spelled (f : Text → Text) (p : Place) (e : Expr) :
    ((spelled f).expr p e).callee? = e.callee? := by
  cases e
  case call x func args kws => rw [expr, Expr.callee?, Expr.callee?, chain_spelled]
  all_goals rfl

/-- The text of a normal form tells what a call is addressed to. -/
theorem Normal.callee?_eq_of_exprText_eq {cfg cfg' : Normal.Config} {c c' : Expr}
    (h : Every.expr Node.Lawful c) (h' : Every.expr Node.Lawful c')
    (htext : exprText cfg c = exprText cfg' c') : c.callee? = c'.callee? := by
  have hn : Every.expr Node.Lawful (expr cfg false c) :=
    (lawful_stmt cfg (s := .expr .blank c) ⟨trivial, h⟩).2
  have hn' : Every.expr Node.Lawful (expr cfg' false c') :=
    (lawful_stmt cfg' (s := .expr .blank c') ⟨trivial, h'⟩).2
  have hshown := Document.shown_eq_of_pruned_eq (Dump.readable_expr hn) (Dump.readable_expr hn')
    htext
  have hspelled := Dump.expr_eq keepsNames_pruned hn hn' .free hshown
  calc c.callee?
    _ = (expr cfg false c).callee? := (callee?_expr cfg false c).symm
    _ = ((spelled pruned).expr .free (expr cfg false c)).callee? :=
        (Outline.callee?_spelled _ _ _).symm
    _ = ((spelled pruned).expr .free (expr cfg' false c')).callee? := by rw [hspelled]
    _ = (expr cfg' false c').callee? := Outline.callee?_spelled _ _ _
    _ = c'.callee? := callee?_expr cfg' false c'

theorem lawful_of_mem_calls {s : Stmt} (h : Every.stmt Node.Lawful s) {c : Expr}
    (hc : c ∈ Walk.calls (Walk.stmt 0 s)) : Every.expr Node.Lawful c := by
  obtain ⟨-, v, hv, hnode⟩ := Walk.mem_calls.mp hc
  have hbelow := Every.visits_stmt 0 h v hv
  rw [hnode] at hbelow
  exact hbelow

/-! ## Statements of sources -/

/-- Normalisation of a statement of a faultless source erases all that is irrelevant and nothing
that a call is addressed to: at every node of the normal form nothing irrelevant is left unless a
call is addressed to the node, and every call of the normal form is that of a call of the statement
with the same addressee. No call is lost but those in irrelevant annotations. So calls with
different addressees have normal forms with different texts. -/
theorem erased_normal {source source' : Text} {maxErrors maxErrors' : Nat} {d d' : Nat}
    {s s' : Stmt} (hok : (Parsed.ofSource source maxErrors).ok = true)
    (hok' : (Parsed.ofSource source' maxErrors').ok = true)
    (hs : ⟨d, .stmt s⟩ ∈ Walk.module (Parsed.ofSource source maxErrors).module)
    (hs' : ⟨d', .stmt s'⟩ ∈ Walk.module (Parsed.ofSource source' maxErrors').module)
    (cfg cfg' : Normal.Config) :
    let walk := Walk.stmt 0 (Normal.stmt cfg s)
    (∀ site ∈ Walk.sites false walk, site.node.Erased cfg site.addressed) ∧
      (∀ c ∈ Walk.calls walk, ∃ c₀ ∈ Walk.calls (Walk.stmt 0 s),
        c = Normal.expr cfg false c₀ ∧ c.callee? = c₀.callee?) ∧
      (∀ c₀ ∈ Walk.calls (Walk.stmt 0 s), cfg.ignoreHints = true ∧ c₀ ∈ s.hintCalls ∨
        Normal.expr cfg false c₀ ∈ Walk.calls walk) ∧
      ∀ c ∈ Walk.calls (Walk.stmt 0 s), ∀ c' ∈ Walk.calls (Walk.stmt 0 s'),
        Normal.exprText cfg c = Normal.exprText cfg' c' → c.callee? = c'.callee? := by
  intro walk
  have hlawful : Every.stmt Node.Lawful s := Every.node_of_mem_walk (Parsed.lawful_module hok) hs
  have hlawful' : Every.stmt Node.Lawful s' :=
    Every.node_of_mem_walk (Parsed.lawful_module hok') hs'
  refine ⟨?_, ?_, fun c₀ => Normal.mem_calls cfg, ?_⟩
  · intro site hsite
    obtain ⟨n, hknown, horigin⟩ := Normal.origin_known cfg hlawful site hsite
    rw [horigin]
    exact Normal.erased_node site.addressed hknown.1
  · intro c hc
    obtain ⟨c₀, hmem, rfl⟩ := Normal.exists_call cfg hlawful hc
    exact ⟨c₀, hmem, rfl, Normal.callee?_expr cfg false c₀⟩
  · intro c hc c' hc' htext
    exact Normal.callee?_eq_of_exprText_eq (lawful_of_mem_calls hlawful hc)
      (lawful_of_mem_calls hlawful' hc') htext

/-- The attribute that is assigned to is erased, the method that is called is not. -/
theorem erased_normal_method :
    let p := Parsed.ofSource (utf8 "x.y += f.g(z)\n") 64
    let p' := Parsed.ofSource (utf8 "x.y += f.h(z)\n") 64
    ∃ s s', p.module.body = [s] ∧ p'.module.body = [s'] ∧
      (∀ site ∈ Walk.sites false (Walk.stmt 0 (Normal.stmt {} s)),
        site.node.Erased {} site.addressed) ∧
      (Walk.calls (Walk.stmt 0 (Normal.stmt {} s))).map Expr.callee? =
        [some ⟨[utf8 "g"], some (utf8 "f")⟩] ∧
      ∀ c ∈ Walk.calls (Walk.stmt 0 s), ∀ c' ∈ Walk.calls (Walk.stmt 0 s'),
        Normal.exprText {} c ≠ Normal.exprText {} c' := by
  intro p p'
  let spot (lo hi : Nat) : Extent := ⟨⟨lo, hi⟩, 1, 1⟩
  let name (lo : Nat) (id : String) : Expr := .name (spot lo (lo + 1)) (utf8 id) .load
  let call (method : String) : Expr :=
    .call (spot 7 13) (.attribute (spot 7 10) (name 7 "f") (utf8 method) .load) [name 11 "z"] []
  let augmented (method : String) : Stmt :=
    .augAssign (spot 0 13) (.attribute (spot 0 3) (name 0 "x") (utf8 "y") .store) .add (call method)
  let s := augmented "g"
  let s' := augmented "h"
  have hbody : p.module.body = [s] := rfl
  have hbody' : p'.module.body = [s'] := rfl
  have hmem : ⟨1, .stmt s⟩ ∈ Walk.module p.module := by
    simp [Walk.module, hbody, Walk.stmts, Walk.stmt, s, augmented]
  have hmem' : ⟨1, .stmt s'⟩ ∈ Walk.module p'.module := by
    simp [Walk.module, hbody', Walk.stmts, Walk.stmt, s', augmented]
  have herased := erased_normal (by decide +kernel) (by decide +kernel) hmem hmem' {} {}
  refine ⟨s, s', hbody, hbody', herased.1, rfl, fun c hc c' hc' htext => ?_⟩
  have hcallee := herased.2.2.2 c hc c' hc' htext
  obtain rfl : c = call "g" := List.mem_singleton.mp hc
  obtain rfl : c' = call "h" := List.mem_singleton.mp hc'
  revert hcallee
  decide

end CloneScout
